import BadOs.Net.Connections
import BadOs.Net.ReceiveBuffer
import BadOs.Net.Sending

/-!
# Serving a segment

The call of `tcp_segment` for a stream returns, or the read function sends something too
large and `panic` is called. There are three exceptions: the stream that an
acknowledgement freed is used again, the space check of `buffer_data` lets through more
than the buffer holds, and the read function sends a segment whose size wraps around.
-/

namespace BadOs

variable {σ : Type}

/-- The streams are allocated. -/
def Kernel.LiveStreams (k : Kernel σ) : Prop := ∀ s ∈ k.allStreams, s.addr ∈ k.net.live

/-- What a call of the kernel does to the heap: the streams that it leaves are allocated. -/
structure Kernel.HeapOk (k k' : Kernel σ) : Prop where
  same : k.net.SameTables k'.net
  fresh : k'.net.Fresh
  live : k'.LiveStreams

/-- An acknowledgement frees the stream in `LastAck` and the segment goes on with it. -/
def Segment.Reuses (g : Segment) (s : Stream σ) : Prop :=
  (g.has TcpFlag.ack = true ∧ s.state = .lastAck) ∧
    (g.len ≠ 0 ∨ g.has TcpFlag.psh = true ∨ g.has TcpFlag.fin = true)

/-- `buffer_data` copies more than there is room for. -/
def Overrun (s : Stream σ) (len : BitVec 32) : Prop :=
  copies s len ∧ s.readMax.toNat < s.readOffset.toNat + len.toNat

/-- The calls that the read function makes when it gets what is in the buffer. -/
def Stream.reaction (s : Stream σ) (k : Kernel σ) : List AppCall :=
  (s.readFn k.app (k.net.junk k.net.next) s.readBuf s.readOffset).2

/-- The call for this stream does not return, or is undefined. -/
def Segment.Faults (g : Segment) (s : Stream σ) (k : Kernel σ) : Prop :=
  g.Reuses s ∨ ¬(g.has TcpFlag.ack = true ∧ s.state = .lastAck) ∧
    (Overrun s g.len ∨ g.has TcpFlag.psh = true ∧ Oversized ((g.receive s).reaction k))

instance (g : Segment) (s : Stream σ) : Decidable (g.Reuses s) :=
  inferInstanceAs (Decidable (_ ∧ _))

instance (s : Stream σ) (len : BitVec 32) : Decidable (Overrun s len) :=
  inferInstanceAs (Decidable (_ ∧ _))

section

variable {k k' : Kernel σ} {s : Stream σ} {g : Segment}

/-- The sum in the space check wraps around. -/
theorem Stream.BufferOk.overrun_iff (ok : s.BufferOk) {len : BitVec 32} :
    Overrun s len ↔ 2 ^ 32 ≤ s.readOffset.toNat + len.toNat := by
  have hread : s.readOffset.toNat ≤ 2048 := ok.readOffset
  have hmax : s.readMax.toNat = 2048 := by rw [ok.readMax]; rfl
  have hlen := len.isLt
  rw [Overrun, ok.copies_iff, hmax]
  constructor
  · rintro ⟨⟨_, hroom⟩, hover⟩
    omega
  · intro hwrap
    refine ⟨⟨?_, by omega⟩, by omega⟩
    rintro rfl
    change 2 ^ 32 ≤ s.readOffset.toNat + 0 at hwrap
    omega

/-! ## The phases -/

/-- The acknowledgement that frees the stream. -/
theorem acked_total_of_lastAck (fresh : k.net.Fresh) (hs : s.addr ∈ k.net.live)
    (hstate : s.state = .lastAck) (hdr : TcpHdr) :
    (acked s hdr k).Total fun r => r.1 = none ∧ k.net.Sends s.addr r.2.net ∧
      r.2.allStreams = Keyed.erase Stream.addr s.addr k.allStreams := by
  rw [acked_eq, if_pos hstate]
  obtain ⟨n, hn, sends⟩ := Net.kmemFree_total fresh hs
  refine ⟨(none, _), Except.bind_eq_ok.mpr ⟨_, Except.bind_eq_ok.mpr ⟨n, hn, rfl⟩, rfl⟩, rfl,
    sends, rfl⟩

/-- The first phase when the stream stays. -/
theorem acked_eq_acknowledge (h : ¬(g.has TcpFlag.ack = true ∧ s.state = .lastAck)) :
    (if g.has TcpFlag.ack = true then acked s g.hdr k else .ok (some s, k)) =
      .ok (some (g.acknowledge s), k) := by
  by_cases hack : g.has TcpFlag.ack = true
  · rw [if_pos hack, acked_eq, if_neg fun hstate => h ⟨hack, hstate⟩, Segment.acknowledge,
      if_pos hack]
    rfl
  · rw [if_neg hack, Segment.acknowledge, if_neg hack]

theorem bufferData_eq (hdr : TcpHdr) (data : ByteMem) {len : BitVec 32} (h : ¬Overrun s len) :
    bufferData hdr data (some s) len =
      .ok (some (if copies s len then s.afterData hdr data len else s)) := by
  rw [bufferData]
  by_cases hzero : len = 0
  · rw [if_pos hzero, if_neg fun hcopies : copies s len => hcopies.1 hzero]
  · rw [if_neg hzero]
    change (if s.readMax < s.readOffset + len then _ else _) = _
    by_cases hfull : s.readMax < s.readOffset + len
    · rw [if_pos hfull, if_neg fun hcopies : copies s len => hcopies.2 hfull]
      rfl
    · have hcopies : copies s len := ⟨hzero, hfull⟩
      rw [if_neg hfull, if_neg fun hover => h ⟨hcopies, hover⟩, if_pos hcopies]
      rfl

theorem bufferData_outOfBounds (hdr : TcpHdr) (data : ByteMem) {len : BitVec 32}
    (h : Overrun s len) : bufferData hdr data (some s) len = .error .outOfBounds := by
  obtain ⟨⟨hzero, hfull⟩, hover⟩ := h
  rw [bufferData, if_neg hzero]
  change (if s.readMax < s.readOffset + len then _ else _) = _
  rw [if_neg hfull, if_pos hover]

/-- The buffer of the record after the acknowledgement is the same. -/
theorem overrun_acknowledge (len : BitVec 32) : Overrun (g.acknowledge s) len ↔ Overrun s len := by
  unfold Segment.acknowledge
  split <;> exact Iff.rfl

/-- The phases of the acknowledgement and the payload when the stream stays. -/
theorem receive_phases (hlast : ¬(g.has TcpFlag.ack = true ∧ s.state = .lastAck))
    (hroom : ¬Overrun s g.len) :
    (if g.has TcpFlag.ack = true then acked s g.hdr k else .ok (some s, k)) =
        .ok (some (g.acknowledge s), k) ∧
      bufferData g.hdr g.data (some (g.acknowledge s)) g.len = .ok (some (g.receive s)) := by
  refine ⟨acked_eq_acknowledge hlast, ?_⟩
  rw [bufferData_eq g.hdr g.data fun hover => hroom ((overrun_acknowledge g.len).mp hover)]
  have hcopies : copies (g.acknowledge s) g.len ↔ copies s g.len := by
    unfold Segment.acknowledge
    split <;> exact Iff.rfl
  rw [Segment.receive, if_congr hcopies rfl rfl]

theorem pushit_within (fresh : k.net.Fresh) (h : ¬Oversized (s.reaction k)) :
    (pushit (some s) k).Within (fun r => k.net.Grows r.2.net) (Trap.IsPanic ·) := by
  have fresh' : Net.Fresh { k.net with next := k.net.next + 1 } := fun a ha =>
    (fresh a ha).trans (Nat.lt_succ_self _)
  change Except.Within (appCalls s (s.reaction k) _ >>= _) _ _
  refine .bind (appCalls_within (by exact fresh') s h) ?_
  rintro ⟨s₁, k₁⟩ grows
  exact .ok ⟨⟨grows.same.table, grows.same.ipDevices, grows.same.junk,
    (Nat.le_succ _).trans grows.same.next⟩, grows.fresh, grows.live⟩

theorem pushit_fits (fresh : k.net.Fresh) (fits : ∀ c ∈ s.reaction k, c.Fits) :
    (pushit (some s) k).Total fun r => k.net.Grows r.2.net := by
  have fresh' : Net.Fresh { k.net with next := k.net.next + 1 } := fun a ha =>
    (fresh a ha).trans (Nat.lt_succ_self _)
  change Except.Total (appCalls s (s.reaction k) _ >>= _) _
  refine .bind (appCalls_total (by exact fresh') s fits) ?_
  rintro ⟨s₁, k₁⟩ grows
  exact .ok ⟨⟨grows.same.table, grows.same.ipDevices, grows.same.junk,
    (Nat.le_succ _).trans grows.same.next⟩, grows.fresh, grows.live⟩

theorem pushit_outOfBounds (fresh : k.net.Fresh) (h : Oversized (s.reaction k)) :
    pushit (some s) k = .error .outOfBounds := by
  have fresh' : Net.Fresh { k.net with next := k.net.next + 1 } := fun a ha =>
    (fresh a ha).trans (Nat.lt_succ_self _)
  change (appCalls s (s.reaction k) _ >>= _) = _
  exact Except.bind_error (appCalls_outOfBounds (by exact fresh') s h)

/-- The phase of the `Psh`, for read functions that end in `E` at worst. -/
theorem push_phase_within {E : Trap → Prop} (fresh : k.net.Fresh) (psh : Bool)
    (h : psh = true → (pushit (some s) k).Within (fun r => k.net.Grows r.2.net) E) :
    (if psh = true then pushit (some s) k else .ok (some s, k)).Within (fun r =>
      k.net.Grows r.2.net ∧ r.2.allStreams = k.allStreams ∧
        ∃ s', r.1 = some s' ∧ s'.addr = s.addr) E := by
  have hrun : (if psh = true then pushit (some s) k else .ok (some s, k)).Within (fun r =>
      k.net.Grows r.2.net) E := by
    split
    · next hpsh => exact h hpsh
    · exact .ok (.refl fresh)
  have hpost : (if psh = true then pushit (some s) k else .ok (some s, k)).Post fun r =>
      ∃ s₁, r.1 = some s₁ ∧ Pushed psh s k s₁ r.2 := fun r h => pushed_of_eq h
  refine (hrun.and_post hpost).mono ?_
  rintro r ⟨grows, s₁, hs₁, hpushed⟩
  obtain ⟨hconn, _, hstreams, _⟩ := hpushed.frame
  exact ⟨grows, hstreams, s₁, hs₁, hconn.addr⟩

theorem fin_total (fresh : k.net.Fresh) (hs : s.addr ∈ k.net.live) (dev : NetDevice) (flag : Bool) :
    (if flag = true then fin dev (some s) k else .ok (some s, k)).Total fun r =>
      k.net.Sends s.addr r.2.net ∧
        ((∃ s', r.1 = some s' ∧ s'.addr = s.addr ∧ s.addr ∈ r.2.net.live ∧
            r.2.allStreams = k.allStreams) ∨
          r.1 = none ∧ r.2.allStreams = Keyed.erase Stream.addr s.addr k.allStreams) := by
  split
  · by_cases hwait : s.state = .finWait2
    · rw [fin_finWait2 s k dev hwait]
      refine .bind (transmitSegment_total fresh (by decide) _ _ _ _) fun n grows => ?_
      obtain ⟨n₁, hn₁, sends⟩ := Net.kmemFree_total grows.fresh (grows.live _ hs)
      refine .bind (Q := fun k' => k.net.Sends s.addr k'.net ∧
        k'.allStreams = Keyed.erase Stream.addr s.addr k.allStreams) ?_ ?_
      · exact ⟨_, Except.bind_eq_ok.mpr ⟨n₁, hn₁, rfl⟩, (grows.sends _).trans sends, rfl⟩
      · rintro k' ⟨sends', hstreams⟩
        exact .ok ⟨sends', Or.inr ⟨rfl, hstreams⟩⟩
    · by_cases hest : s.state = .established
      · rw [fin_established s k dev hest]
        refine .bind (transmitSegment_total fresh (by decide) _ _ _ _) fun n grows => ?_
        exact .ok ⟨grows.sends _, Or.inl ⟨_, rfl, rfl, grows.live _ hs, rfl⟩⟩
      · rw [fin_other s k dev hwait hest]
        exact .ok ⟨(Net.Grows.refl fresh).sends _, Or.inl ⟨s, rfl, rfl, hs, rfl⟩⟩
  · exact .ok ⟨(Net.Grows.refl fresh).sends _, Or.inl ⟨s, rfl, rfl, hs, rfl⟩⟩

/-- The list after a stream was served has live streams only. -/
theorem liveStreams_of_served {k₁ : Kernel σ} {p : Option (Stream σ)} (wf : k.Wf)
    (live : k.LiveStreams) (sends : k.net.Sends s.addr k₁.net)
    (h : (∃ s', p = some s' ∧ s'.addr = s.addr ∧ s.addr ∈ k₁.net.live ∧
        k₁.allStreams = k.allStreams) ∨
      p = none ∧ k₁.allStreams = Keyed.erase Stream.addr s.addr k.allStreams) :
    (k₁.putStream p).LiveStreams := by
  obtain ⟨s', rfl, haddr, hmem, hstreams⟩ | ⟨rfl, hstreams⟩ := h <;> intro t ht
  · obtain ⟨ht, hne⟩ | ⟨rfl, _⟩ := Keyed.mem_replace.mp ht
    · rw [haddr] at hne
      exact sends.live _ (live t (hstreams ▸ ht)) hne
    · exact haddr.symm ▸ hmem
  · obtain ⟨ht, hne⟩ := wf.unique.mem_erase.mp (hstreams ▸ (show t ∈ k₁.allStreams from ht))
    exact sends.live _ (live t ht) hne

/-! ## One stream -/

theorem serve_within {E : Trap → Prop} (wf : k.Wf) (fresh : k.net.Fresh) (live : k.LiveStreams)
    (hs : s ∈ k.allStreams) (hreuse : ¬g.Reuses s)
    (hroom : ¬(g.has TcpFlag.ack = true ∧ s.state = .lastAck) → ¬Overrun s g.len)
    (hpush : ¬(g.has TcpFlag.ack = true ∧ s.state = .lastAck) → g.has TcpFlag.psh = true →
      (pushit (some (g.receive s)) k).Within (fun r => k.net.Grows r.2.net) E) :
    (serve g.dev g.data g.sz s k).Within (k.HeapOk ·) E := by
  by_cases hlast : g.has TcpFlag.ack = true ∧ s.state = .lastAck
  · rw [Segment.Reuses, and_iff_right hlast, not_or, not_or, not_not] at hreuse
    obtain ⟨hlen, hpsh, hfin⟩ := hreuse
    refine .of_total (.bind (Q := fun r => r.1 = none ∧ k.net.Sends s.addr r.2.net ∧
      r.2.allStreams = Keyed.erase Stream.addr s.addr k.allStreams) ?_ ?_)
    · rw [if_pos (by exact hlast.1)]
      exact acked_total_of_lastAck fresh (live s hs) hlast.2 _
    · rintro ⟨_, k₁⟩ ⟨rfl, sends, hstreams⟩
      refine .bind (Q := (· = none)) ⟨none, if_pos hlen, rfl⟩ ?_
      rintro _ rfl
      refine .bind (Q := (· = (none, k₁))) ⟨_, if_neg hpsh, rfl⟩ ?_
      rintro _ rfl
      refine .bind (Q := (· = (none, k₁))) ⟨_, if_neg hfin, rfl⟩ ?_
      rintro _ rfl
      exact .ok ⟨sends.same, sends.fresh,
        liveStreams_of_served wf live sends (Or.inr ⟨rfl, hstreams⟩)⟩
  · obtain ⟨hacked, hbuffer⟩ := receive_phases (k := k) hlast (hroom hlast)
    refine .bind (Q := (· = (some (g.acknowledge s), k))) (.of_total ⟨_, hacked, rfl⟩) ?_
    rintro _ rfl
    refine .bind (Q := (· = some (g.receive s))) (.of_total ⟨_, hbuffer, rfl⟩) ?_
    rintro _ rfl
    refine .bind (push_phase_within fresh (g.has TcpFlag.psh) (hpush hlast)) ?_
    rintro ⟨_, k₃⟩ ⟨grows, hstreams, s₃, rfl, haddr⟩
    have haddr₃ : s₃.addr = s.addr := haddr.trans (g.receive_sameConn s).addr
    refine .bind (.of_total (fin_total grows.fresh (s := s₃)
      (haddr₃ ▸ grows.live _ (live s hs)) g.dev (g.has TcpFlag.fin))) ?_
    rintro ⟨p, k₄⟩ ⟨sends, hlist⟩
    rw [haddr₃, hstreams] at hlist
    have sends' := (grows.sends s.addr).trans (haddr₃ ▸ sends)
    have hsame : (k₄.putStream p).net = k₄.net := by cases p <;> rfl
    exact .ok ⟨hsame ▸ sends'.same, hsame ▸ sends'.fresh,
      liveStreams_of_served wf live sends' hlist⟩

/-- The first access to the freed stream. -/
theorem serve_useAfterFree (fresh : k.net.Fresh) (live : k.LiveStreams) (hs : s ∈ k.allStreams)
    (h : g.Reuses s) : serve g.dev g.data g.sz s k = .error .useAfterFree := by
  obtain ⟨hlast, huse⟩ := h
  refine Except.Total.bind_error (Q := fun r => r.1 = none) ?_ ?_
  · rw [if_pos (by exact hlast.1)]
    exact (acked_total_of_lastAck fresh (live s hs) hlast.2 _).mono fun _ h => h.1
  · rintro ⟨_, k₁⟩ rfl
    by_cases hlen : g.len = 0
    · refine Except.Total.bind_error (Q := (· = none)) ⟨none, if_pos hlen, rfl⟩ ?_
      rintro _ rfl
      by_cases hpsh : g.has TcpFlag.psh = true
      · exact Except.bind_error ((if_pos hpsh).trans rfl)
      · have hfin := (huse.resolve_left fun hne => hne hlen).resolve_left hpsh
        refine Except.Total.bind_error (Q := (· = (none, k₁))) ⟨_, if_neg hpsh, rfl⟩ ?_
        rintro _ rfl
        exact Except.bind_error ((if_pos hfin).trans rfl)
    · exact Except.bind_error ((if_neg hlen).trans rfl)

theorem serve_overrun (hlast : ¬(g.has TcpFlag.ack = true ∧ s.state = .lastAck))
    (h : Overrun s g.len) : serve g.dev g.data g.sz s k = .error .outOfBounds := by
  refine Except.Total.bind_error (Q := (· = (some (g.acknowledge s), k)))
    ⟨_, acked_eq_acknowledge hlast, rfl⟩ ?_
  rintro _ rfl
  exact Except.bind_error (bufferData_outOfBounds _ _ ((overrun_acknowledge g.len).mpr h))

theorem serve_oversized (fresh : k.net.Fresh)
    (hlast : ¬(g.has TcpFlag.ack = true ∧ s.state = .lastAck)) (hpsh : g.has TcpFlag.psh = true)
    (h : Oversized ((g.receive s).reaction k)) :
    serve g.dev g.data g.sz s k = .error .outOfBounds := by
  by_cases hroom : Overrun s g.len
  · exact serve_overrun hlast hroom
  · obtain ⟨hacked, hbuffer⟩ := receive_phases (k := k) hlast hroom
    refine Except.Total.bind_error (Q := (· = (some (g.acknowledge s), k))) ⟨_, hacked, rfl⟩ ?_
    rintro _ rfl
    refine Except.Total.bind_error (Q := (· = some (g.receive s))) ⟨_, hbuffer, rfl⟩ ?_
    rintro _ rfl
    exact Except.bind_error ((if_pos hpsh).trans (pushit_outOfBounds fresh h))

/-! ## One segment -/

/-- The phase of the `Syn`. -/
theorem syn_phase_total (fresh : k.net.Fresh) (g : Segment) :
    (if g.has TcpFlag.syn = true then syn g.dev g.hdr g.srcIp k else .ok k).Total fun k₁ =>
      Opened g k k₁ ∧ k.net.Grows k₁.net ∧ (g.opens k = true → newAddr k ∈ k₁.net.live) := by
  have hrun : (if g.has TcpFlag.syn = true then syn g.dev g.hdr g.srcIp k else .ok k).Total
      fun k₁ => k.net.Grows k₁.net ∧ (g.opens k = true → newAddr k ∈ k₁.net.live) := by
    split
    · refine (syn_total fresh g.dev g.hdr g.srcIp).mono fun k₁ h => ⟨h.1, fun hopens => h.2 ?_⟩
      exact (Bool.and_eq_true_iff.mp hopens).2
    · next hsyn =>
      exact .ok ⟨.refl fresh, fun hopens => absurd (Bool.and_eq_true_iff.mp hopens).1 hsyn⟩
  obtain ⟨k₁, hk₁, h⟩ := hrun
  exact ⟨k₁, hk₁, opened_of_eq hk₁, h⟩

/-- The part of `tcp_segment` that deals with the `Syn`. -/
def Segment.synPhase (g : Segment) (k : Kernel σ) : Except Trap (Kernel σ) :=
  if g.has TcpFlag.syn = true then syn g.dev g.hdr g.srcIp k else .ok k

/-- The stream that the segment is served for, and the kernel then. -/
def Segment.Serves (g : Segment) (k : Kernel σ) (s : Stream σ) (k₁ : Kernel σ) : Prop :=
  g.synPhase k = .ok k₁ ∧ g.find k₁.allStreams = some s

theorem Opened.liveStreams (h : Opened g k k') (live : k.LiveStreams) (grows : k.net.Grows k'.net)
    (hnew : g.opens k = true → newAddr k ∈ k'.net.live) : k'.LiveStreams := by
  cases h with
  | kept n _ _ => exact fun s hs => grows.live _ (live s hs)
  | opened l junk n hsyn hl _ _ =>
      exact List.forall_mem_cons.mpr ⟨hnew (Segment.opens_of_listener hsyn hl),
        fun s hs => grows.live _ (live s hs)⟩

theorem tcpSegment_within {E : Trap → Prop} (wf : k.Wf) (fresh : k.net.Fresh)
    (live : k.LiveStreams)
    (h : ∀ s k₁, g.Serves k s k₁ → Opened g k k₁ → ¬g.Reuses s ∧
      (¬(g.has TcpFlag.ack = true ∧ s.state = .lastAck) → ¬Overrun s g.len) ∧
      (k₁.net.Fresh → ¬(g.has TcpFlag.ack = true ∧ s.state = .lastAck) →
        g.has TcpFlag.psh = true →
        (pushit (some (g.receive s)) k₁).Within (fun r => k₁.net.Grows r.2.net) E)) :
    (tcpSegment g.dev g.data g.sz g.srcIp k).Within (k.HeapOk ·) E := by
  obtain ⟨k₁, hk₁, hopened, grows, hnew⟩ := syn_phase_total fresh g
  have wf₁ := hopened.wf wf
  have live₁ := hopened.liveStreams live grows hnew
  refine .bind (Q := (· = k₁)) (.of_total ⟨k₁, hk₁, rfl⟩) ?_
  rintro k₁ rfl
  split
  · refine .of_total (((resetStream_total grows.fresh g.dev g.hdr g.srcIp).and_post
      (resetStream_post g.dev g.hdr g.srcIp k₁)).mono ?_)
    rintro _ ⟨grows', n, _, rfl⟩
    exact ⟨(grows.trans grows').same, grows'.fresh, fun s hs => grows'.live _ (live₁ s hs)⟩
  · next s hfind =>
    obtain ⟨hreuse, hroom, hpush⟩ := h s k₁ ⟨hk₁, hfind⟩ hopened
    exact (serve_within wf₁ grows.fresh live₁ (List.mem_of_find?_eq_some hfind) hreuse hroom
      (hpush grows.fresh)).mono fun k₂ heap =>
        ⟨grows.same.trans heap.same, heap.fresh, heap.live⟩

theorem tcpSegment_of_serves (h : g.Serves k s k₁) :
    tcpSegment g.dev g.data g.sz g.srcIp k = serve g.dev g.data g.sz s k₁ := by
  obtain ⟨hk₁, hfind⟩ := h
  change (g.synPhase k >>= _) = _
  rw [hk₁, Except.ok_bind]
  split
  · next hnone => cases hfind.symm.trans hnone
  · next t ht =>
    cases hfind.symm.trans ht
    rfl

theorem tcpSegment_unfound (hphase : g.synPhase k = .ok k₁) (hnone : g.find k₁.allStreams = none) :
    tcpSegment g.dev g.data g.sz g.srcIp k = resetStream g.dev g.hdr g.srcIp k₁ := by
  change (g.synPhase k >>= _) = _
  rw [hphase, Except.ok_bind]
  split
  · rfl
  · next t ht => cases hnone.symm.trans ht

/-- A call of `serve` that fails makes `tcp_segment` fail. -/
theorem tcpSegment_error {e : Trap} {k₁ : Kernel σ} (h : g.Serves k s k₁)
    (hserve : serve g.dev g.data g.sz s k₁ = .error e) :
    tcpSegment g.dev g.data g.sz g.srcIp k = .error e :=
  (tcpSegment_of_serves h).trans hserve

/-- A segment that opens no stream is served by the one that it finds. -/
theorem serves_of_not_opens (fresh : k.net.Fresh) (hopens : g.opens k = false)
    (hfind : g.find k.allStreams = some s) :
    ∃ n, g.Serves k s { k with net := n } ∧ k.net.Grows n := by
  obtain ⟨k₁, hk₁, hopened, grows, _⟩ := syn_phase_total fresh g
  cases hopened with
  | opened l junk n hsyn hl _ _ => cases (Segment.opens_of_listener hsyn hl).symm.trans hopens
  | kept n _ _ => exact ⟨n, ⟨hk₁, hfind⟩, grows⟩

/-- The call leaves its objects. -/
theorem segment_fault (fresh : k.net.Fresh) (live : k.LiveStreams)
    (hserves : g.Serves k s k₁) (hfault : g.Faults s k₁) :
    (tcpSegment g.dev g.data g.sz g.srcIp k = .error .useAfterFree ∧ g.Reuses s) ∨
      tcpSegment g.dev g.data g.sz g.srcIp k = .error .outOfBounds := by
  obtain ⟨k₂, hk₂, hopened, grows, hnew⟩ := syn_phase_total fresh g
  cases hserves.1.symm.trans hk₂
  have live₁ := hopened.liveStreams live grows hnew
  obtain hreuse | ⟨hlast, hover | ⟨hpsh, hover⟩⟩ := hfault
  · exact .inl ⟨tcpSegment_error hserves (serve_useAfterFree grows.fresh live₁
      (List.mem_of_find?_eq_some hserves.2) hreuse), hreuse⟩
  · exact .inr (tcpSegment_error hserves (serve_overrun hlast hover))
  · exact .inr (tcpSegment_error hserves (serve_oversized grows.fresh hlast hpsh hover))

/-- Otherwise it returns, or the read function makes it panic. -/
theorem segment_total_or_panic (wf : k.Wf) (fresh : k.net.Fresh) (live : k.LiveStreams)
    (h : ¬∃ s k₁, g.Serves k s k₁ ∧ g.Faults s k₁) :
    (tcpSegment g.dev g.data g.sz g.srcIp k).Within (k.HeapOk ·) (Trap.IsPanic ·) := by
  refine tcpSegment_within wf fresh live fun s k₁ hserves _ =>
    ⟨fun hreuse => h ⟨s, k₁, hserves, .inl hreuse⟩, fun hlast hover => ?_,
      fun fresh₁ hlast hpsh => ?_⟩
  · exact h ⟨s, k₁, hserves, .inr ⟨hlast, .inl hover⟩⟩
  · refine pushit_within fresh₁ fun hover => ?_
    exact h ⟨s, k₁, hserves, .inr ⟨hlast, .inr ⟨hpsh, hover⟩⟩⟩

end

end BadOs
