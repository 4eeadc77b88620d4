import BadOs.Net.Emission
import BadOs.Net.Removal

/-!
# Acknowledgements

A stream that accepted payload sets `needsAck`, and the next segment that it sends has the
acknowledgement with it. What sends one before `tcp_segment` returns is the read function, or
the answer to a `Fin`; there is no other.
-/

namespace BadOs

variable {σ : Type}

/-! ## The stream that a step serves -/

/-- The kernel in which the protocol of a frame is called. -/
def KernelOp.received : KernelOp σ → Kernel σ → Except Trap (Kernel σ)
  | .frame dev _, k => do
      let n ← registerDevice dev k.net
      return { k with net := n }
  | _, k => .ok k

/-- The segment of a step, the stream that it is served for and the kernel then. -/
def KernelOp.serving (op : KernelOp σ) (k : Kernel σ) : Option (Segment × Stream σ × Kernel σ) := do
  let g ← op.segment?
  let k ← (op.received k).toOption
  let k ← (g.synPhase k).toOption
  let s ← g.find k.allStreams
  return (g, s, k)

/-- A `Fin` is answered in this state. -/
def Stream.TakesFin (s : Stream σ) : Prop := s.state = .established ∨ s.state = .finWait2

instance (s : Stream σ) : Decidable s.TakesFin := inferInstanceAs (Decidable (_ ∨ _))

namespace Segment

/-- The calls of the read function, if the segment has it called. -/
def calls (g : Segment) (s : Stream σ) (k : Kernel σ) : List AppCall :=
  if g.has TcpFlag.psh then (g.receive s).reaction k else []

/-- The segment closes the connection in a state in which that is answered. -/
def FinTaken (g : Segment) (s : Stream σ) (k : Kernel σ) : Prop :=
  g.has TcpFlag.fin = true ∧ ((g.receive s).afterCalls (g.calls s k)).TakesFin

instance (g : Segment) (s : Stream σ) (k : Kernel σ) : Decidable (g.FinTaken s k) :=
  inferInstanceAs (Decidable (_ ∧ _))

/-- The read function makes a call, or a `Fin` comes when it is answered. -/
def Answers (g : Segment) (s : Stream σ) (k : Kernel σ) : Prop :=
  g.calls s k ≠ [] ∨ g.has TcpFlag.fin = true ∧ (g.acknowledge s).TakesFin

instance (g : Segment) (s : Stream σ) (k : Kernel σ) : Decidable (g.Answers s k) :=
  have : Decidable (g.calls s k ≠ []) := decidable_of_iff _ List.isEmpty_eq_false_iff
  inferInstanceAs (Decidable (_ ∨ _))

/-- A segment of the stream that acknowledges everything before `ack`. -/
structure Acks (r : Segment) (s : Stream σ) (ack : BitVec 32) : Prop where
  srcIp : r.srcIp = s.localAddr
  srcPort : ntos r.hdr.srcPort = s.localPort
  destPort : ntos r.hdr.destPort = s.remotePort
  flag : r.has TcpFlag.ack = true
  ack : ntol r.hdr.ack = ack

/-- Among the segments that have left since `k` is one that acknowledges this one. -/
def Acknowledged (g : Segment) (s : Stream σ) (k k' : Kernel σ) : Prop :=
  ∃ new, segmentsSent k'.net = segmentsSent k.net ++ new ∧ ∃ r, (s.remoteAddr, r) ∈ new ∧
    r.Acks s (ntol g.hdr.sequence + g.len + if g.FinTaken s k then 1 else 0)

end Segment

/-- Payload that the step hands to a stream is answered. -/
def Answered (k : Kernel σ) (op : KernelOp σ) : Prop :=
  ∀ x ∈ op.serving k, copies x.2.1 x.1.len → x.1.Answers x.2.1 x.2.2

instance (k : Kernel σ) (op : KernelOp σ) : Decidable (Answered k op) :=
  inferInstanceAs (Decidable (∀ x ∈ op.serving k, _))

section

variable {k k' k₁ : Kernel σ} {g : Segment} {s : Stream σ} {op : KernelOp σ}

theorem serving_eq_some : op.serving k = some (g, s, k₁) ↔
    op.segment? = some g ∧ ∃ k₀, op.received k = .ok k₀ ∧ g.Serves k₀ s k₁ := by
  have toOption : ∀ (x : Except Trap (Kernel σ)) k, x.toOption = some k ↔ x = .ok k := by
    intro x k
    cases x <;> simp [Except.toOption]
  simp only [KernelOp.serving, Option.bind_eq_bind, Option.bind_eq_some_iff, toOption,
    Segment.Serves, Option.pure_def, Option.some.injEq, Prod.mk.injEq]
  constructor
  · rintro ⟨g, hg, k₀, hk₀, k₁, hk₁, s, hs, rfl, rfl, rfl⟩
    exact ⟨hg, k₀, hk₀, hk₁, hs⟩
  · rintro ⟨hg, k₀, hk₀, hk₁, hs⟩
    exact ⟨g, hg, k₀, hk₀, k₁, hk₁, s, hs, rfl, rfl, rfl⟩

namespace Kernel.HeapSound

/-- A step with a segment is `tcp_segment` in the kernel that the segment reaches. -/
theorem step_received (h : k.HeapSound) (hop : op.segment? = some g) : ∃ k₀,
    op.received k = .ok k₀ ∧ kernelStep k op = tcpSegment g.dev g.data g.sz g.srcIp k₀ ∧
      k₀.HeapSound ∧ k₀.allStreams = k.allStreams := by
  cases op with
  | segment g' =>
      cases hop
      exact ⟨k, rfl, rfl, h, rfl⟩
  | frame dev m =>
      obtain ⟨n, hn, _, h₁⟩ := h.register dev
      refine ⟨{ k with net := n }, ?_, ?_, h₁, rfl⟩
      · exact Except.bind_eq_ok.mpr ⟨n, hn, rfl⟩
      · change ethernetPacket dev m k = _
        rw [ethernetPacket_of_segment hop, hn]
        rfl
  | _ => cases hop

end Kernel.HeapSound

/-! ## What is sent -/

/-- These segments have left for an address, if it is known. -/
structure Emitted (n : Net) (ip : BitVec 32) (gs : List Segment) (n' : Net) : Prop where
  same : n.SameTables n'
  sent : segmentsSent n' = segmentsSent n ++
    if (n.macOf ip).isSome then gs.map (Prod.mk ip) else []

namespace Emitted

variable {n n' n'' : Net} {ip : BitVec 32} {gs gs' : List Segment}

theorem none (same : n.SameTables n') (h : segmentsSent n' = segmentsSent n) :
    Emitted n ip [] n' := by
  refine ⟨same, ?_⟩
  simp [h]

theorem trans (h : Emitted n ip gs n') (h' : Emitted n' ip gs' n'') :
    Emitted n ip (gs ++ gs') n'' := by
  refine ⟨h.same.trans h'.same, ?_⟩
  rw [h'.sent, h.sent, h.same.macOf, List.append_assoc]
  apply congrArg
  split
  · exact List.map_append.symm
  · rfl

end Emitted

/-- The header of a segment that carries what the stream sends. -/
theorem Segment.Carries.acks {r : Segment} {dev : NetDevice} {flags : BitVec 8}
    {payload : List (BitVec 8)} (h : r.Carries dev (headerFromStream s flags).1 payload)
    (hdev : dev.ip = s.localAddr)
    (hflags : (headerFromStream s flags).1.has TcpFlag.ack = true) : r.Acks s s.ackSeq := by
  have hhdr := h.hdr
  constructor
  · exact h.srcIp.trans hdev
  · rw [hhdr]
    exact ntos_ntos _
  · rw [hhdr]
    exact ntos_ntos _
  · rw [Segment.has, hhdr]
    exact hflags
  · rw [hhdr]
    exact ntol_ntol _

theorem Segment.Acks.of_sameConn {r : Segment} {s' : Stream σ} {ack : BitVec 32}
    (h : r.Acks s' ack) (hconn : s.SameConn s') : r.Acks s ack :=
  ⟨h.srcIp.trans hconn.localAddr, h.srcPort.trans hconn.localPort,
    h.destPort.trans hconn.remotePort, h.flag, h.ack⟩

theorem TcpHdr.has_ack {hdr : TcpHdr} {a b : BitVec 8}
    (h : hdr.flags = a ||| TcpFlag.ack ||| b) : hdr.has TcpFlag.ack = true := by
  have hbit : hdr.flags &&& TcpFlag.ack = TcpFlag.ack := by
    rw [h]
    ext i hi
    simp only [BitVec.getElem_and, BitVec.getElem_or]
    cases TcpFlag.ack[i] <;> simp
  rw [TcpHdr.has, hbit]
  rfl

/-- The first call sends the acknowledgement that the stream owes. -/
theorem callEvents_acks {gs : List Segment} {calls : List AppCall}
    (hleaves : List.Forall₂ (fun r e => Segment.Leaves r s.dev e) gs (s.callEvents calls))
    (hlocal : s.dev.ip = s.localAddr) (hneeds : s.needsAck = true) :
    (gs = [] ↔ calls = []) ∧ (calls ≠ [] → ∃ r ∈ gs, r.Acks s s.ackSeq) := by
  cases calls with
  | nil =>
      cases hleaves
      simp
  | cons c calls =>
      cases hleaves with
      | @cons r _ gs _ hleaf _ =>
      refine ⟨by simp, fun _ => ⟨r, List.mem_cons_self, ?_⟩⟩
      obtain ⟨addr, hdr, payload, hevent, hcarries⟩ := hleaf
      cases (s.callEvent_eq c).symm.trans hevent
      apply hcarries.acks hlocal
      apply TcpHdr.has_ack (a := c.flag) (b := 0)
      simp [headerFromStream, hneeds]

/-- Every call clears the flag. -/
theorem afterCalls_needsAck (s : Stream σ) (calls : List AppCall) :
    (s.afterCalls calls).needsAck = true ↔ s.needsAck = true ∧ calls = [] := by
  induction calls generalizing s with
  | nil => simp [Stream.afterCalls]
  | cons c calls ih =>
      have hclear : (s.afterCall c).needsAck = false := by cases c <;> rfl
      have hrest := ih (s.afterCall c)
      rw [hclear] at hrest
      change ((s.afterCall c).afterCalls calls).needsAck = true ↔ _
      simpa using hrest

/-! ## The phases -/

/-- The phase of the `Psh`. -/
theorem push_phase_emitted {psh : Bool} (calls : List AppCall)
    (hcalls : calls = if psh = true then s.reaction k else []) (hlocal : s.dev.ip = s.localAddr)
    (hneeds : s.needsAck = true) :
    (if psh = true then pushit (some s) k else .ok (some s, k)).Post fun r => ∃ s₁ gs,
      r.1 = some s₁ ∧ s.SameConn s₁ ∧ s₁.ackSeq = s.ackSeq ∧
      s₁.state = (s.afterCalls calls).state ∧ (s₁.needsAck = true ↔ calls = []) ∧
      r.2.allStreams = k.allStreams ∧ Emitted k.net s.remoteAddr gs r.2.net ∧
      (gs = [] ↔ calls = []) ∧ (calls ≠ [] → ∃ r ∈ gs, r.Acks s s.ackSeq) := by
  subst hcalls
  split
  · change Except.Post (appCalls s (s.reaction k) _ >>= _) _
    refine .bind (.and (appCalls_segments s _ _) (appCalls_post s _ _)) ?_
    rintro _ ⟨⟨same, gs, hleaves, hsent⟩, n, _, rfl⟩
    obtain ⟨_, hseq, _⟩ := s.afterCalls_frame (s.reaction k)
    have same : Net.SameTables { k.net with next := k.net.next + 1 } n := same
    have hnext : k.net.SameTables { k.net with next := k.net.next + 1 } :=
      ⟨rfl, rfl, rfl, Nat.le_succ _⟩
    refine .ok ⟨_, gs, rfl, s.afterPush_sameConn (s.reaction k), hseq, rfl, ?_, rfl,
      ⟨hnext.trans same, hsent⟩, callEvents_acks hleaves hlocal hneeds⟩
    change (s.afterCalls _).needsAck = true ↔ _
    rw [afterCalls_needsAck, and_iff_right hneeds]
  · refine .ok ⟨s, [], rfl, .refl s, rfl, rfl, by simpa using hneeds, rfl, ?_, by simp, by simp⟩
    exact .none (.refl _) rfl

/-- The phase of the `Fin`. -/
theorem fin_phase_emitted {dev : NetDevice} (flag : Bool) (hlocal : dev.ip = s.localAddr) :
    (if flag = true then fin dev (some s) k else .ok (some s, k)).Post fun r => ∃ gs,
      Emitted k.net s.remoteAddr gs r.2.net ∧
      ((¬(flag = true ∧ s.TakesFin) ∧ gs = [] ∧ r = (some s, k)) ∨
        (flag = true ∧ s.TakesFin) ∧ ∃ g ∈ gs, g.Acks s (s.ackSeq + 1)) := by
  intro r h
  have hfinished := finished_of_eq h
  by_cases htaken : flag = true ∧ s.TakesFin
  · rw [if_pos htaken.1] at h
    obtain ⟨g, flags, ⟨_, _, _, hevent, hcarries⟩, hsent⟩ := fin_segments dev s k htaken.2 r h
    cases hevent
    have hacks : g.Acks { s with ackSeq := s.ackSeq + 1 } (s.ackSeq + 1) :=
      hcarries.acks (s := { s with ackSeq := s.ackSeq + 1 }) hlocal (TcpHdr.has_ack rfl)
    have hacks : g.Acks s (s.ackSeq + 1) := ⟨hacks.1, hacks.2, hacks.3, hacks.4, hacks.5⟩
    have same : k.net.SameTables r.2.net := hfinished.sameTables
    exact ⟨[g], ⟨same, hsent⟩, .inr ⟨htaken, g, List.mem_singleton_self g, hacks⟩⟩
  · obtain ⟨p, k'⟩ := r
    cases hfinished with
    | skipped _ => exact ⟨[], .none (.refl _) rfl, .inl ⟨htaken, rfl, rfl⟩⟩
    | answered n hflag hstate _ => exact absurd ⟨hflag, .inl hstate⟩ htaken
    | closed n hflag hstate _ => exact absurd ⟨hflag, .inr hstate⟩ htaken

/-! ## One segment -/

theorem acknowledge_state_receive (g : Segment) (s : Stream σ) :
    (g.receive s).state = (g.acknowledge s).state := by
  unfold Segment.receive
  split <;> rfl

/-- The `Fin` comes when it is answered, unless the read function has closed the stream. -/
theorem answers_iff : g.Answers s k ↔ g.calls s k ≠ [] ∨ g.FinTaken s k := by
  by_cases hcalls : g.calls s k = []
  · have hstate : ((g.receive s).afterCalls (g.calls s k)).state = (g.acknowledge s).state := by
      rw [hcalls]
      exact acknowledge_state_receive g s
    simp only [Segment.Answers, Segment.FinTaken, Stream.TakesFin, hstate]
  · exact ⟨fun _ => .inl hcalls, fun _ => .inl hcalls⟩

theorem acknowledged_iff_of_emitted {gs : List Segment}
    (h : Emitted k.net s.remoteAddr gs k'.net) : g.Acknowledged s k k' ↔
      (∃ r ∈ gs, r.Acks s (ntol g.hdr.sequence + g.len + if g.FinTaken s k then 1 else 0)) ∧
        (k.net.macOf s.remoteAddr).isSome = true := by
  have hnew : g.Acknowledged s k k' ↔ ∃ r, (s.remoteAddr, r) ∈
      (if (k.net.macOf s.remoteAddr).isSome then gs.map (Prod.mk s.remoteAddr) else []) ∧
      r.Acks s (ntol g.hdr.sequence + g.len + if g.FinTaken s k then 1 else 0) := by
    constructor
    · rintro ⟨new, hsent, hacks⟩
      rw [List.append_cancel_left (h.sent.symm.trans hsent)]
      exact hacks
    · intro hacks
      exact ⟨_, h.sent, hacks⟩
  rw [hnew]
  by_cases hknown : (k.net.macOf s.remoteAddr).isSome = true <;> simp [hknown]

/-- The flag stays on the record that is stored back only if nothing is sent. -/
theorem Served.needsAck (unique : Keyed.Unique Stream.addr k.allStreams) (h : Served g s k k') :
    ∀ t ∈ k'.allStreams, t ∈ k.allStreams ∧ t.addr ≠ s.addr ∨
      (t.needsAck = true → (g.receive s).needsAck = true ∧ ¬g.Answers s k) := by
  intro t ht
  cases h with
  | freed n _ _ _ => exact .inl (unique.mem_erase.mp ht)
  | @kept s₁ k₁ k₂ p _ _ hpushed hfinished =>
      obtain ⟨hconn, _, hstreams, _⟩ := hpushed.frame
      have haddr : s₁.addr = s.addr := ((g.receive_sameConn s).trans hconn).addr
      have hpush : s₁.state = ((g.receive s).afterCalls (g.calls s k)).state ∧
          (s₁.needsAck = true → (g.receive s).needsAck = true ∧ g.calls s k = []) := by
        cases hpushed with
        | skipped hpsh =>
            have hcalls : g.calls s k = [] := if_neg (Bool.eq_false_iff.mp hpsh)
            rw [hcalls]
            exact ⟨rfl, fun hneeds => ⟨hneeds, rfl⟩⟩
        | read n calls hpsh _ hcalls =>
            have hcalls : calls = g.calls s k := hcalls.trans (if_pos hpsh).symm
            rw [← hcalls]
            exact ⟨rfl, (afterCalls_needsAck _ calls).mp⟩
      obtain ⟨hstate, hneeds⟩ := hpush
      cases hfinished with
      | skipped hskip =>
          obtain ⟨ht, hne⟩ | ⟨rfl, _⟩ := Keyed.mem_replace.mp ht
          · exact .inl ⟨hstreams ▸ ht, haddr ▸ hne⟩
          · refine .inr fun hflag => ⟨(hneeds hflag).1, ?_⟩
            rw [answers_iff, not_or, not_not]
            refine ⟨(hneeds hflag).2, ?_⟩
            rintro ⟨hfin, htakes⟩
            rw [Stream.TakesFin, ← hstate] at htakes
            exact htakes.elim (hskip hfin).2 (hskip hfin).1
      | answered n _ _ _ =>
          obtain ⟨ht, hne⟩ | ⟨rfl, _⟩ := Keyed.mem_replace.mp ht
          · exact .inl ⟨hstreams ▸ ht, haddr ▸ hne⟩
          · exact .inr fun hflag => nomatch hflag
      | closed n _ _ _ =>
          have ht : t ∈ Keyed.erase Stream.addr s₁.addr k₁.allStreams := ht
          rw [hstreams, haddr] at ht
          exact .inl (unique.mem_erase.mp ht)

/-- The two phases that send something. -/
theorem serve_eq_ok (hlast : ¬(g.has TcpFlag.ack = true ∧ s.state = .lastAck))
    (h : serve g.dev g.data g.sz s k = .ok k') : ∃ p₁ k₁ p k₂,
      (if g.has TcpFlag.psh = true then pushit (some (g.receive s)) k
        else .ok (some (g.receive s), k)) = .ok (p₁, k₁) ∧
      (if g.has TcpFlag.fin = true then fin g.dev p₁ k₁ else .ok (p₁, k₁)) = .ok (p, k₂) ∧
      k' = k₂.putStream p := by
  have hroom : ¬Overrun s g.len := fun hover => by
    cases (serve_overrun hlast hover).symm.trans h
  obtain ⟨hacked, hbuffer⟩ := receive_phases (k := k) hlast hroom
  obtain ⟨_, hphase, h⟩ := Except.bind_eq_ok.mp h
  cases hacked.symm.trans hphase
  obtain ⟨_, hphase, h⟩ := Except.bind_eq_ok.mp h
  cases hbuffer.symm.trans hphase
  obtain ⟨⟨p₁, k₁⟩, hpush, h⟩ := Except.bind_eq_ok.mp h
  obtain ⟨⟨p, k₂⟩, hfin, h⟩ := Except.bind_eq_ok.mp h
  cases h
  exact ⟨p₁, k₁, p, k₂, hpush, hfin, rfl⟩

/-- Accepted payload is acknowledged if something is sent, and otherwise the flag stays. -/
theorem serve_acknowledged (unique : Keyed.Unique Stream.addr k.allStreams)
    (hs : s ∈ k.allStreams) (hlast : ¬(g.has TcpFlag.ack = true ∧ s.state = .lastAck))
    (hcopies : copies s g.len) (hdev : g.dev.ip = s.localAddr) (hlocal : s.dev.ip = s.localAddr)
    (h : serve g.dev g.data g.sz s k = .ok k') :
    (g.Acknowledged s k k' ↔ g.Answers s k ∧ (k.net.macOf s.remoteAddr).isSome = true) ∧
      ((∀ t ∈ k'.allStreams, t.addr = s.addr → t.needsAck = false) ↔ g.Answers s k) := by
  have hkept : g.Answers s k → ∀ t ∈ k'.allStreams, t.addr = s.addr → t.needsAck = false := by
    intro hanswers t ht haddr
    obtain ⟨_, hne⟩ | hflag := (serve_served h).needsAck unique t ht
    · exact absurd haddr hne
    · exact Bool.eq_false_iff.mpr fun hneeds => (hflag hneeds).2 hanswers
  obtain ⟨_, k₂, p, k₃, hpush, hfin, rfl⟩ := serve_eq_ok hlast h
  have hconn := g.receive_sameConn s
  have hreceive : g.receive s = (g.acknowledge s).afterData g.hdr g.data g.len := if_pos hcopies
  have hneeds : (g.receive s).needsAck = true := by rw [hreceive]; rfl
  have hseq : (g.receive s).ackSeq = ntol g.hdr.sequence + g.len := by rw [hreceive]; rfl
  obtain ⟨s₁, gs, hs₁, hconn₁, hseq₁, hstate, hneeds₁, hstreams, hemitted, hnil, hacks⟩ :=
    push_phase_emitted (g.calls s k) rfl (hconn.dev ▸ hconn.localAddr ▸ hlocal) hneeds _ hpush
  cases hs₁
  have hconn₁ := hconn.trans hconn₁
  obtain ⟨gs', hemitted', hcases⟩ :=
    fin_phase_emitted (g.has TcpFlag.fin) (hconn₁.localAddr ▸ hdev) _ hfin
  have hnet : (k₃.putStream p).net = k₃.net := by cases p <;> rfl
  have htaken : g.FinTaken s k ↔ g.has TcpFlag.fin = true ∧ s₁.TakesFin := by
    rw [Segment.FinTaken, Stream.TakesFin, Stream.TakesFin, hstate]
  rw [hconn.remoteAddr] at hemitted
  rw [hconn₁.remoteAddr] at hemitted'
  have hall : Emitted k.net s.remoteAddr (gs ++ gs') (k₃.putStream p).net :=
    hnet ▸ hemitted.trans hemitted'
  rw [acknowledged_iff_of_emitted hall, answers_iff]
  rw [← htaken] at hcases
  obtain ⟨hnot, rfl, hr⟩ | ⟨hyes, r, hr, hacks'⟩ := hcases
  · cases hr
    have hzero : ∀ x : BitVec 32, x + 0 = x := BitVec.add_zero
    rw [if_neg hnot, or_iff_left hnot, List.append_nil, hzero, ← hseq]
    constructor
    · apply and_congr_left'
      constructor
      · rintro ⟨r, hr, _⟩ hcalls
        rw [hnil.mpr hcalls] at hr
        cases hr
      · intro hcalls
        obtain ⟨r, hr, hacks⟩ := hacks hcalls
        exact ⟨r, hr, hacks.of_sameConn hconn⟩
    · refine ⟨fun hclear hcalls => ?_, fun hcalls => hkept (answers_iff.mpr (.inl hcalls))⟩
      have hmem : s₁ ∈ (k₂.putStream (some s₁)).allStreams :=
        Keyed.mem_replace.mpr (.inr ⟨rfl, s, hstreams ▸ hs, hconn₁.addr.symm⟩)
      cases (hneeds₁.mpr hcalls).symm.trans (hclear s₁ hmem hconn₁.addr)
  · rw [if_pos hyes]
    have hanswers : g.calls s k ≠ [] ∨ g.FinTaken s k := .inr hyes
    constructor
    · apply and_congr_left'
      refine iff_of_true ⟨r, List.mem_append_right _ hr, ?_⟩ hanswers
      rw [← hseq, ← hseq₁]
      exact hacks'.of_sameConn hconn₁
    · exact iff_of_true (hkept (answers_iff.mpr hanswers)) hanswers

/-! ## One step -/

/-- A stream is of the device that it was opened on. -/
theorem localAddr_invariant : StreamInvariant fun s : Stream σ => s.dev.ip = s.localAddr where
  ack _ _ h := h
  data _ _ _ _ h _ := h
  call _ c h := by cases c <;> exact h
  push _ h := h
  last _ h := h

theorem Opened.forall_streams {P : Stream σ → Prop} (h : Opened g k k')
    (hall : ∀ s ∈ k.allStreams, P s)
    (hnew : ∀ addr junk fn, P (openedStream addr junk g.dev g.hdr g.srcIp fn)) :
    ∀ s ∈ k'.allStreams, P s := by
  cases h with
  | kept n _ _ => exact hall
  | opened l junk n _ _ _ _ => exact List.forall_mem_cons.mpr ⟨hnew _ _ _, hall⟩

theorem kernelStep_acknowledged (heap : k.HeapSound)
    (hlocal : ∀ s ∈ k.allStreams, s.dev.ip = s.localAddr)
    (hserving : op.serving k = some (g, s, k₁)) (hcopies : copies s g.len)
    (hstep : kernelStep k op = .ok k') :
    (g.Acknowledged s k₁ k' ↔ g.Answers s k₁ ∧ (k₁.net.macOf s.remoteAddr).isSome = true) ∧
      ((∀ t ∈ k'.allStreams, t.addr = s.addr → t.needsAck = false) ↔ g.Answers s k₁) := by
  obtain ⟨hop, k₀, hk₀, hserves⟩ := serving_eq_some.mp hserving
  obtain ⟨_, hk₀', hsegment, heap₀, hstreams⟩ := heap.step_received hop
  cases hk₀.symm.trans hk₀'
  rw [hsegment] at hstep
  have hopened : Opened g k₀ k₁ := opened_of_eq hserves.1
  have hs : s ∈ k₁.allStreams := List.mem_of_find?_eq_some hserves.2
  have hlast : ¬(g.has TcpFlag.ack = true ∧ s.state = .lastAck) := by
    intro hlast
    obtain ⟨hopens, hfind⟩ := hserves.kept_of_lastAck hlast.2
    cases (heap₀.segment_useAfterFree ⟨s, hopens, hfind, hlast, .inl hcopies.1⟩).symm.trans hstep
  have hfor : s.isFor g.dev g.srcIp g.hdr = true :=
    List.find?_some (p := fun s : Stream σ => s.isFor g.dev g.srcIp g.hdr) hserves.2
  simp only [Stream.isFor, Bool.and_eq_true, beq_iff_eq] at hfor
  rw [tcpSegment_of_serves hserves] at hstep
  refine serve_acknowledged (hopened.wf heap₀.wf).unique hs hlast hcopies ?_ ?_ hstep
  · exact hfor.1.1.1.symm
  · exact hopened.forall_streams (hstreams ▸ hlocal) (fun _ _ _ => rfl) s hs

/-- Where all accepted payload is answered no stream owes an acknowledgement between steps. -/
theorem Answered.needsAck (heap : k.HeapSound) (h : ∀ s ∈ k.allStreams, s.needsAck = false)
    (hguard : Answered k op) (hstep : kernelStep k op = .ok k') :
    ∀ s ∈ k'.allStreams, s.needsAck = false := by
  obtain ⟨g, _, hop, _, _⟩ | ⟨_, n, app, ports, listeners, _, rfl⟩ |
    ⟨_, s, c, n, _, _, _, rfl⟩ := kernelStep_cases hstep
  · obtain ⟨k₀, hk₀, hsegment, heap₀, hstreams⟩ := heap.step_received hop
    rw [hsegment] at hstep
    obtain ⟨k₁, hsyn, hrest⟩ := Except.bind_eq_ok.mp hstep
    have hopened : Opened g k₀ k₁ := opened_of_eq hsyn
    have h₁ : ∀ s ∈ k₁.allStreams, s.needsAck = false :=
      hopened.forall_streams (hstreams ▸ h) fun _ _ _ => rfl
    split at hrest
    · obtain ⟨n, _, rfl⟩ := resetStream_post _ _ _ k₁ _ hrest
      exact h₁
    · next s hfind =>
      intro t ht
      obtain ⟨ht, _⟩ | hflag := (serve_served hrest).needsAck (hopened.wf heap₀.wf).unique t ht
      · exact h₁ t ht
      · apply Bool.eq_false_iff.mpr
        intro hneeds
        obtain ⟨hneeds, hanswers⟩ := hflag hneeds
        by_cases hcopies : copies s g.len
        · have hserves : g.Serves k₀ s k₁ := ⟨hsyn, hfind⟩
          have hserving : op.serving k = some (g, s, k₁) :=
            serving_eq_some.mpr ⟨hop, k₀, hk₀, hserves⟩
          exact hanswers (hguard (g, s, k₁) hserving hcopies)
        · have hsame : (g.receive s).needsAck = s.needsAck := by
            unfold Segment.receive Segment.acknowledge
            rw [if_neg hcopies]
            split <;> rfl
          cases (hsame.symm.trans hneeds).symm.trans (h₁ s (List.mem_of_find?_eq_some hfind))
  · exact h
  · intro t ht
    obtain ⟨ht, _⟩ | ⟨rfl, _⟩ := Keyed.mem_replace.mp ht
    · exact h t ht
    · cases c <;> rfl

end

/-! ## Runs -/

theorem run_localAddr {junk : Nat → ByteMem} {app : σ} {ops : List (KernelOp σ)} {k : Kernel σ}
    (run : Transition.exec kernelStep (.boot junk app) ops = .ok k) :
    ∀ s ∈ k.allStreams, s.dev.ip = s.localAddr := by
  have hrun : Transition.Run kernelStep (fun _ _ => True) (.boot junk app) ops k :=
    .of_exec run fun _ _ => trivial
  refine hrun.invariant (I := fun k => ∀ s ∈ k.allStreams, s.dev.ip = s.localAddr) ?_ ?_
  · intro _ _ _ h _ hstep
    exact localAddr_invariant.step h (fun _ _ _ _ _ _ _ => rfl) hstep
  · intro _ h
    cases h

/-- A state in which payload of a peer is accepted and the step returns. -/
theorem exists_serving {k : Kernel σ} {op : KernelOp σ} {p : Segment → Stream σ → Kernel σ → Bool}
    (h : ((op.serving k).any fun x => decide (copies x.2.1 x.1.len) && p x.1 x.2.1 x.2.2) = true)
    (hstep : (kernelStep k op).holds (fun _ => true) = true) : ∃ g s k₁ k',
      op.serving k = some (g, s, k₁) ∧ copies s g.len ∧ p g s k₁ = true ∧
        kernelStep k op = .ok k' := by
  obtain ⟨⟨g, s, k₁⟩, hserving, h⟩ := Option.any_eq_true _ _ |>.mp h
  obtain ⟨hcopies, hp⟩ := Bool.and_eq_true_iff.mp h
  obtain ⟨k', hk', _⟩ := Except.exists_of_holds hstep
  exact ⟨g, s, k₁, k', hserving, of_decide_eq_true hcopies, hp, hk'⟩

/-- The read function cannot load its file and sends nothing, and the peer waits forever. -/
theorem accepted_data_unacknowledged : ¬∀ (junk : Nat → ByteMem) (app : Unit)
    (ops : List (KernelOp Unit)) (k : Kernel Unit),
    Transition.exec kernelStep (.boot junk app) ops = .ok k → ∀ op g s k₁ k',
      op.serving k = some (g, s, k₁) → copies s g.len → kernelStep k op = .ok k' →
        g.Acknowledged s k₁ k' ∧ ∀ t ∈ k'.allStreams, t.addr = s.addr → t.needsAck = false := by
  intro claim
  have hrun : Transition.check kernelStep (fun _ _ => True)
      (fun k => ((KernelOp.segment (peerSegment (TcpFlag.psh ||| TcpFlag.ack) 5 2 2
        [71, 69, 84])).serving k).any (fun x =>
          decide (copies x.2.1 x.1.len) && !decide (x.1.Answers x.2.1 x.2.2)) &&
        (kernelStep k (.segment (peerSegment (TcpFlag.psh ||| TcpFlag.ack) 5 2 2
          [71, 69, 84]))).holds fun _ => true)
      (Kernel.boot (fun _ _ => 0) ())
      [.tcpListen 80 fun app => (app, fun app _ _ _ => (app, [])),
        .frame ⟨0xC0A80302, 0⟩ peerArp,
        .segment (peerSegment TcpFlag.syn 5 1 0 [])] = true := by
    decide +kernel
  obtain ⟨k, run, hpost⟩ := Transition.Run.of_check hrun
  obtain ⟨hserving, hstep⟩ := Bool.and_eq_true_iff.mp hpost
  obtain ⟨g, s, k₁, k', hserving, hcopies, hsilent, hstep⟩ :=
    exists_serving (p := fun g s k => !decide (g.Answers s k)) hserving hstep
  obtain ⟨_, hclear⟩ := claim _ _ _ k run.exec_eq _ g s k₁ k' hserving hcopies hstep
  have hanswers := (kernelStep_acknowledged (run_heapSound run.exec_eq).1
    (run_localAddr run.exec_eq) hserving hcopies hstep).2.mp hclear
  rw [decide_eq_true hanswers] at hsilent
  cases hsilent

/-- In every state of every run, payload that a segment hands to a stream is acknowledged before
the step returns exactly if the read function makes a call or a `Fin` is answered, and the
peer's address is known; the flag is cleared exactly if something is sent. In a run where all
accepted payload is answered, no stream owes an acknowledgement. -/
theorem accepted_data_acknowledged_iff (junk : Nat → ByteMem) (app : σ) (ops : List (KernelOp σ))
    (k : Kernel σ) (run : Transition.exec kernelStep (.boot junk app) ops = .ok k) :
    (∀ op g s k₁ k', op.serving k = some (g, s, k₁) → copies s g.len → kernelStep k op = .ok k' →
      (g.Acknowledged s k₁ k' ↔ g.Answers s k₁ ∧ (k₁.net.macOf s.remoteAddr).isSome = true) ∧
      ((∀ t ∈ k'.allStreams, t.addr = s.addr → t.needsAck = false) ↔ g.Answers s k₁)) ∧
    (Transition.Run kernelStep Answered (.boot junk app) ops k →
      ∀ s ∈ k.allStreams, s.needsAck = false) := by
  constructor
  · intro op g s k₁ k' hserving hcopies hstep
    exact kernelStep_acknowledged (run_heapSound run).1 (run_localAddr run) hserving hcopies hstep
  · intro hrun
    refine (hrun.invariant (I := fun k : Kernel σ =>
      k.HeapSound ∧ ∀ s ∈ k.allStreams, s.needsAck = false) ?_ ?_).2
    · intro k op k' h hguard hstep
      exact ⟨h.1.step op k' hstep, hguard.needsAck h.1 h.2 hstep⟩
    · exact ⟨boot_heapSound junk app, fun _ h => nomatch h⟩

/-- A read function that answers with a byte. -/
theorem accepted_data_acknowledged_reply : ∃ (k : Kernel Unit) (g : Segment) (s : Stream Unit)
    (k₁ k' : Kernel Unit),
    Transition.exec kernelStep (.boot (fun _ _ => 0) ())
      [.tcpListen 80 fun app => (app, fun app _ _ _ => (app, [.tcpSend (fun _ => 65) 1])),
        .frame ⟨0xC0A80302, 0⟩ peerArp,
        .segment (peerSegment TcpFlag.syn 5 1 0 [])] = .ok k ∧
      (∀ s ∈ k.allStreams, s.needsAck = false) ∧
      kernelStep k (.segment (peerSegment (TcpFlag.psh ||| TcpFlag.ack) 5 2 2 [71, 69, 84])) =
        .ok k' ∧
      g.Acknowledged s k₁ k' ∧ ∀ t ∈ k'.allStreams, t.addr = s.addr → t.needsAck = false := by
  have hrun : Transition.check kernelStep Answered
      (fun k => ((KernelOp.segment (peerSegment (TcpFlag.psh ||| TcpFlag.ack) 5 2 2
        [71, 69, 84])).serving k).any (fun x => decide (copies x.2.1 x.1.len) &&
          decide (x.1.Answers x.2.1 x.2.2 ∧ (x.2.2.net.macOf x.2.1.remoteAddr).isSome = true)) &&
        (kernelStep k (.segment (peerSegment (TcpFlag.psh ||| TcpFlag.ack) 5 2 2
          [71, 69, 84]))).holds fun _ => true)
      (Kernel.boot (fun _ _ => 0) ())
      [.tcpListen 80 fun app => (app, fun app _ _ _ => (app, [.tcpSend (fun _ => 65) 1])),
        .frame ⟨0xC0A80302, 0⟩ peerArp,
        .segment (peerSegment TcpFlag.syn 5 1 0 [])] = true := by
    decide +kernel
  obtain ⟨k, run, hpost⟩ := Transition.Run.of_check hrun
  obtain ⟨hserving, hstep⟩ := Bool.and_eq_true_iff.mp hpost
  obtain ⟨g, s, k₁, k', hserving, hcopies, hanswers, hstep⟩ :=
    exists_serving (p := fun g s k =>
      decide (g.Answers s k ∧ (k.net.macOf s.remoteAddr).isSome = true)) hserving hstep
  have hanswers := of_decide_eq_true hanswers
  obtain ⟨hstate, hclear⟩ := accepted_data_acknowledged_iff _ _ _ k run.exec_eq
  obtain ⟨hacknowledged, hcleared⟩ := hstate _ g s k₁ k' hserving hcopies hstep
  exact ⟨k, g, s, k₁, k', run.exec_eq, hclear run, hstep, hacknowledged.mpr hanswers,
    hcleared.mpr hanswers.1⟩

end BadOs
