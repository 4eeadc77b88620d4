import BadOs.Data.Credit
import BadOs.Net.Delivery
import BadOs.Net.Removal

/-!
# Flow control

The window in a header is the free space of the receive buffer when the segment is built,
which may be in the middle of a call of the read function. As long as the peer stays within
the last window, everything that it sends is buffered.
-/

namespace BadOs

variable {σ : Type}

/-! ## Windows -/

def TcpEvent.header? : TcpEvent → Option TcpHdr
  | .segment _ hdr _ => some hdr
  | _ => none

/-- The header of the last segment among the events. -/
def lastHeader (evs : List TcpEvent) : Option TcpHdr := (evs.filterMap TcpEvent.header?).getLast?

theorem lastHeader_segment (evs : List TcpEvent) (a : Nat) (hdr : TcpHdr)
    (payload : List (BitVec 8)) : lastHeader (evs ++ [.segment a hdr payload]) = some hdr := by
  rw [lastHeader, List.filterMap_append]
  exact List.getLast?_concat

theorem lastHeader_read (evs : List TcpEvent) (a : Nat) (chunk : List (BitVec 8)) :
    lastHeader (evs ++ [.read a chunk]) = lastHeader evs := by
  rw [lastHeader, List.filterMap_append]
  exact congrArg List.getLast? (List.append_nil _)

/-- The window is the free space of the buffer. -/
theorem headerFromStream_window {s : Stream σ} (hmax : s.readMax = maxReadBuffer) {held : Nat}
    (hoffset : s.readOffset.toNat = held) (hheld : held ≤ 2048) (flags : BitVec 8) :
    (ntos (headerFromStream s flags).1.window).toNat = 2048 - held := by
  have hbuffer : maxReadBuffer.toNat = 2048 := rfl
  have hspace : (maxReadBuffer - s.readOffset).toNat = 2048 - held := by
    rw [BitVec.toNat_sub_of_le (by rw [BitVec.le_def]; omega), hoffset, hbuffer]
  change (ntos (ntos ((s.readMax - s.readOffset).setWidth 16))).toNat = 2048 - held
  rw [ntos_ntos, hmax, BitVec.toNat_setWidth, hspace]
  exact Nat.mod_eq_of_lt (by omega)

/-- The stream and its last segment have these counts of bytes. -/
structure Credited (isn : BitVec 32) (s : Stream σ) (evs : List TcpEvent) (c : Credit) : Prop where
  readMax : s.readMax = maxReadBuffer
  readOffset : s.readOffset.toNat = c.held
  ackSeq : s.ackSeq = isn + 1 + BitVec.ofNat 32 c.received
  sound : c.Sound 2048
  announced : ∃ hdr, lastHeader evs = some hdr ∧
    ntol hdr.ack = isn + 1 + BitVec.ofNat 32 c.acked ∧ (ntos hdr.window).toNat = c.window

/-- The payload is the next in order and ends within the window of the last segment. -/
def InWindow (isn : BitVec 32) (sent : List (BitVec 8)) (evs : List TcpEvent) (g : Segment) :
    Prop :=
  ntol g.hdr.sequence = isn + 1 + BitVec.ofNat 32 sent.length ∧
    ∃ hdr ∈ lastHeader evs,
      (ntol g.hdr.sequence - ntol hdr.ack).toNat + g.len.toNat ≤ (ntos hdr.window).toNat

instance (isn : BitVec 32) (sent : List (BitVec 8)) (evs : List TcpEvent) (g : Segment) :
    Decidable (InWindow isn sent evs g) := inferInstanceAs (Decidable (_ ∧ _))

namespace Credited

variable {isn : BitVec 32} {s s' : Stream σ} {evs : List TcpEvent} {c : Credit}

theorem congr (h : Credited isn s evs c) (hmax : s'.readMax = s.readMax)
    (hoffset : s'.readOffset = s.readOffset) (hack : s'.ackSeq = s.ackSeq) :
    Credited isn s' evs c :=
  ⟨hmax.trans h.readMax, hoffset ▸ h.readOffset, hack.trans h.ackSeq, h.sound, h.announced⟩

/-- Every segment announces the counts. -/
theorem emit (h : Credited isn s evs c) (a : Nat) (flags : BitVec 8) (payload : List (BitVec 8)) :
    Credited isn s (evs ++ [.segment a (headerFromStream s flags).1 payload])
      (c.announce 2048) where
  readMax := h.readMax
  readOffset := h.readOffset
  ackSeq := h.ackSeq
  sound := h.sound.announce
  announced := by
    exact ⟨_, lastHeader_segment evs _ _ _, (ntol_ntol _).trans h.ackSeq,
      headerFromStream_window h.readMax h.readOffset h.sound.held flags⟩

theorem call (h : Credited isn s evs c) (call : AppCall) :
    Credited isn (s.afterCall call) (evs ++ [s.callEvent call]) (c.announce 2048) := by
  cases call with
  | tcpSend data sz => exact (h.emit _ _ _).congr rfl rfl rfl
  | tcpClose => exact (h.emit _ _ _).congr rfl rfl rfl

theorem read (h : Credited isn s evs c) (a : Nat) (chunk : List (BitVec 8)) :
    Credited isn s (evs ++ [.read a chunk]) c :=
  ⟨h.readMax, h.readOffset, h.ackSeq, h.sound, lastHeader_read evs a chunk ▸ h.announced⟩

theorem consume (h : Credited isn s evs c) :
    Credited isn { s with readOffset := 0 } evs c.consume :=
  ⟨h.readMax, rfl, h.ackSeq, h.sound.consume, h.announced⟩

/-- The read function consumes the buffer, whatever it sends in between. -/
theorem push (h : Credited isn s evs c) (calls : List AppCall) :
    ∃ c', c'.received = c.received ∧ Credited isn (s.afterPush calls)
      (evs ++ .read s.addr s.buffered :: s.callEvents calls) c' := by
  have hcalls : CallsAllowed (fun _ _ => True) s calls := .of_forall (fun _ _ => trivial) s calls
  refine push_of_calls (P := fun s evs => ∃ c', c'.received = c.received ∧ Credited isn s evs c')
    ?_ ?_ ?_ ⟨c, rfl, h⟩ hcalls
  · rintro s evs ⟨c', hc', h⟩
    exact ⟨c', hc', h.read _ _⟩
  · rintro s evs call ⟨c', hc', h⟩ _
    exact ⟨c'.announce 2048, hc', h.call call⟩
  · rintro s evs ⟨c', hc', h⟩
    exact ⟨c'.consume, hc', h.consume⟩

/-- A sender within the window is within the credit. -/
theorem allows (h : Credited isn s evs c) {sent : List (BitVec 8)} {g : Segment}
    (hreceived : c.received = sent.length) (hwindow : InWindow isn sent evs g) :
    c.Allows g.len.toNat := by
  obtain ⟨hseq, hdr, hlast, hsent⟩ := hwindow
  obtain ⟨hdr', hlast', hack, hw⟩ := h.announced
  cases hlast'.symm.trans hlast
  rw [← hreceived] at hseq
  exact h.sound.allows_of_bitVec (by decide) _ hseq hack (hw ▸ hsent)

theorem ack (h : Credited isn s evs c) (g : Segment) : Credited isn (g.acknowledge s) evs c := by
  unfold Segment.acknowledge
  split
  · exact h.congr rfl rfl rfl
  · exact h

theorem data (h : Credited isn s evs c) {hdr : TcpHdr} {data : ByteMem} {len : BitVec 32}
    (hseq : ntol hdr.sequence = isn + 1 + BitVec.ofNat 32 c.received)
    (allows : c.Allows len.toNat) :
    Credited isn (s.afterData hdr data len) evs (c.receive len.toNat) where
  readMax := h.readMax
  readOffset := by
    have hfits := h.sound.fits allows
    have hoffset := h.readOffset
    change (s.readOffset + len).toNat = c.held + len.toNat
    rw [BitVec.toNat_add_of_lt (by omega), hoffset]
  ackSeq := by
    change ntol hdr.sequence + len = isn + 1 + BitVec.ofNat 32 (c.received + len.toNat)
    rw [hseq, BitVec.ofNat_add, BitVec.ofNat_toNat, BitVec.setWidth_eq, BitVec.add_assoc]
  sound := h.sound.receive allows
  announced := h.announced

/-- There is room for what the peer may send. -/
theorem copies_of_allows (h : Credited isn s evs c) {len : BitVec 32} (hlen : len ≠ 0)
    (allows : c.Allows len.toNat) :
    copies s len ∧ s.readOffset.toNat + len.toNat ≤ s.readMax.toNat := by
  have hfits := h.sound.fits allows
  have hoffset := h.readOffset
  have hmax : s.readMax.toNat = 2048 := by rw [h.readMax]; rfl
  refine ⟨⟨hlen, ?_⟩, by omega⟩
  rw [BitVec.lt_def, BitVec.toNat_add_of_lt (by omega)]
  omega

end Credited

/-! ## One stream -/

/-- Everything that the peer has sent on the stream was read or is in the buffer, and is
acknowledged next. -/
structure InFlow (isn : BitVec 32) (sent : List (BitVec 8)) (s : Stream σ)
    (evs : List TcpEvent) : Prop where
  state : s.state ≠ .lastAck
  bytes : chunks s.addr evs ++ s.buffered = sent
  credit : ∃ c, c.received = sent.length ∧ Credited isn s evs c

/-- What the peer may send on the stream: no `Fin`, and payload in order and in the window. -/
def Disciplined (isn : BitVec 32) (sent : List (BitVec 8)) (evs : List TcpEvent) (g : Segment) :
    Prop :=
  g.has TcpFlag.fin = false ∧ (g.len ≠ 0 → InWindow isn sent evs g)

instance (isn : BitVec 32) (sent : List (BitVec 8)) (evs : List TcpEvent) (g : Segment) :
    Decidable (Disciplined isn sent evs g) := inferInstanceAs (Decidable (_ ∧ _))

section

variable {isn : BitVec 32} {sent : List (BitVec 8)} {s : Stream σ} {evs : List TcpEvent}
  {g : Segment} {k k' : Kernel σ}

theorem Segment.payload_of_len (h : g.len = 0) : g.payload = [] := by
  rw [Segment.payload, h]
  rfl

namespace InFlow

/-- A new stream announces its whole buffer. -/
theorem opened (addr : Nat) (junk : ByteMem) (dev : NetDevice) (hdr : TcpHdr) (srcIp : BitVec 32)
    (fn : TcpReadFn σ) (hisn : ntol hdr.sequence = isn) :
    InFlow isn [] (openedStream addr junk dev hdr srcIp fn)
      [synAckEvent (openedStream addr junk dev hdr srcIp fn)] where
  state h := by cases h
  bytes := rfl
  credit := by
    have hack : ntol hdr.sequence + 1 = isn + 1 + BitVec.ofNat 32 0 := by
      rw [hisn]
      exact (BitVec.add_zero _).symm
    exact ⟨⟨0, 0, 0, 2048⟩, rfl, rfl, rfl, hack, .start 2048, _, rfl, (ntol_ntol _).trans hack,
      headerFromStream_window rfl rfl (Nat.zero_le _) _⟩

theorem call (h : InFlow isn sent s evs) (c : AppCall) :
    InFlow isn sent (s.afterCall c) (evs ++ [s.callEvent c]) where
  state := by
    cases c with
    | tcpSend data sz => exact h.state
    | tcpClose => exact fun hstate => by cases hstate
  bytes := by
    obtain ⟨_, hchunks⟩ := taken_callEvents s [c] s.addr
    have hbuffered : (s.afterCall c).buffered = s.buffered := by cases c <;> rfl
    rw [(s.afterCall_sameConn c).addr, chunks_append, hbuffered]
    have hevent : chunks s.addr [s.callEvent c] = [] := hchunks
    rw [hevent, List.append_nil]
    exact h.bytes
  credit := by
    obtain ⟨c', hreceived, hcredit⟩ := h.credit
    exact ⟨c'.announce 2048, hreceived, hcredit.call c⟩

theorem push (h : InFlow isn sent s evs) (calls : List AppCall) :
    InFlow isn sent (s.afterPush calls) (evs ++ .read s.addr s.buffered :: s.callEvents calls) where
  state := by
    obtain hstate | ⟨hstate, _⟩ := s.afterCalls_state calls
    · exact fun hlast => h.state (hstate.symm.trans hlast)
    · exact fun hlast => by cases hstate.symm.trans hlast
  bytes := by
    obtain ⟨_, hchunks⟩ := taken_callEvents s calls s.addr
    have hread : chunks s.addr (.read s.addr s.buffered :: s.callEvents calls) = s.buffered := by
      change (if s.addr = s.addr then s.buffered else []) ++ chunks s.addr _ = _
      rw [if_pos rfl, hchunks, List.append_nil]
    have hbuffered : (s.afterPush calls).buffered = [] := rfl
    rw [(s.afterPush_sameConn calls).addr, chunks_append, hread, hbuffered, List.append_nil]
    exact h.bytes
  credit := by
    obtain ⟨c, hreceived, hcredit⟩ := h.credit
    obtain ⟨c', hc', hcredit'⟩ := hcredit.push calls
    exact ⟨c', hc'.trans hreceived, hcredit'⟩

/-- The payload of a segment has room. -/
theorem room (h : InFlow isn sent s evs) (order : Disciplined isn sent evs g) (hlen : g.len ≠ 0) :
    copies s g.len ∧ s.readOffset.toNat + g.len.toNat ≤ s.readMax.toNat := by
  obtain ⟨c, hreceived, hcredit⟩ := h.credit
  exact hcredit.copies_of_allows hlen (hcredit.allows hreceived (order.2 hlen))

theorem receive (h : InFlow isn sent s evs) (order : Disciplined isn sent evs g) :
    InFlow isn (sent ++ g.payload) (g.receive s) evs := by
  obtain ⟨c, hreceived, hcredit⟩ := h.credit
  have hstate : (g.receive s).state ≠ .lastAck := by
    have hack : (g.acknowledge s).state ≠ .lastAck := by
      unfold Segment.acknowledge
      split
      · unfold Stream.afterAck
        cases hs : s.state <;> simp_all [h.state]
      · exact h.state
    unfold Segment.receive
    split
    · exact hack
    · exact hack
  by_cases hlen : g.len = 0
  · have hreceive : g.receive s = g.acknowledge s := if_neg fun hcopies => hcopies.1 hlen
    rw [Segment.payload_of_len hlen, List.append_nil]
    refine ⟨hstate, ?_, c, hreceived, hreceive ▸ hcredit.ack g⟩
    rw [hreceive, (g.acknowledge_sameConn s).addr, (g.acknowledge_eq s).1]
    exact h.bytes
  · obtain ⟨hcopies, hroom⟩ := h.room order hlen
    have hreceive : g.receive s = (g.acknowledge s).afterData g.hdr g.data g.len := if_pos hcopies
    refine ⟨hstate, ?_, c.receive g.len.toNat, ?_, ?_⟩
    · rw [(g.receive_sameConn s).addr, receive_buffered fun _ => hroom, if_pos hcopies,
        ← List.append_assoc, h.bytes]
    · rw [List.length_append, Segment.payload, ByteMem.length_slice, ← hreceived]
      rfl
    · rw [hreceive]
      have hseq := (order.2 hlen).1
      rw [← hreceived] at hseq
      exact (hcredit.ack g).data hseq (hcredit.allows hreceived (order.2 hlen))

/-- A segment of the peer is buffered, and the rest of it changes nothing. -/
theorem served (h : InFlow isn sent s (own s.addr k.log))
    (order : Disciplined isn sent (own s.addr k.log) g) (hserved : Served g s k k') :
    ∃ s' evs, s.SameConn s' ∧ k'.allStreams = Keyed.replace Stream.addr s' k.allStreams ∧
      k'.log = k.log ++ evs ∧ (∀ e ∈ evs, e.addr = s.addr) ∧
      InFlow isn (sent ++ g.payload) s' (own s.addr k.log ++ evs) := by
  have hfin := order.1
  cases hserved with
  | freed n _ hstate _ => exact absurd hstate h.state
  | @kept s₁ k₁ k₂ p _ _ hpushed hfinished =>
      rw [hfin] at hfinished
      have hreceived := h.receive order
      have hconn := g.receive_sameConn s
      cases hfinished with
      | answered n hflag _ _ => cases hflag
      | closed n hflag _ _ => cases hflag
      | skipped _ =>
          cases hpushed with
          | skipped _ =>
              refine ⟨g.receive s, [], hconn, rfl, (List.append_nil _).symm,
                fun _ he => absurd he List.not_mem_nil, ?_⟩
              rw [List.append_nil]
              exact hreceived
          | read n calls _ _ _ =>
              refine ⟨_, _, hconn.trans ((g.receive s).afterPush_sameConn calls), rfl, rfl,
                List.forall_mem_cons.mpr ⟨hconn.addr, fun e he => ?_⟩, hreceived.push calls⟩
              exact (callEvents_addr _ calls e he).trans hconn.addr

end InFlow

end

/-! ## All streams -/

/-- The stream at an address, if it was opened. -/
def FlowAt (isn : BitVec 32) (a : Nat) (sent : List (BitVec 8)) (k : Kernel σ) : Prop :=
  ((∀ s ∈ k.allStreams, s.addr ≠ a) ∧ own a k.log = [] ∧ sent = []) ∨
    ∃ s ∈ k.allStreams, s.addr = a ∧ InFlow isn sent s (own a k.log)

/-- The segment is served for the stream at the address, which it may have opened. -/
def Segment.reaches (g : Segment) (a : Nat) (k : Kernel σ) : Bool :=
  if g.opens k then newAddr k == a else (g.find k.allStreams).any fun s => s.addr == a

theorem Segment.reaches_net {n : Net} {k : Kernel σ} (hnext : n.next = k.net.next) (g : Segment)
    (a : Nat) : g.reaches a { k with net := n } = g.reaches a k := by
  rw [Segment.reaches, newAddr_net hnext]
  rfl

theorem any_logInvariant :
    LogInvariant 0 (fun _ _ => True) (fun (_ : Stream σ) _ => True) (fun _ => True) :=
  ⟨fun _ _ _ _ _ _ _ => trivial, fun _ _ _ _ _ => trivial, fun _ _ _ _ _ _ _ => trivial,
    fun _ _ _ _ _ => trivial, fun _ _ _ _ _ => trivial, fun _ _ _ _ => trivial,
    fun _ _ _ _ => trivial, fun _ _ _ _ => trivial⟩

section

variable {isn : BitVec 32} {a : Nat} {sent : List (BitVec 8)} {s s' : Stream σ}
  {evs : List TcpEvent} {g : Segment} {k k' : Kernel σ}

namespace FlowAt

theorem of_mem (h : FlowAt isn a sent k) (wf : k.Wf) (hs : s ∈ k.allStreams) (ha : s.addr = a) :
    InFlow isn sent s (own a k.log) := by
  obtain ⟨hnone, _⟩ | ⟨t, ht, hta, hflow⟩ := h
  · exact absurd ha (hnone s hs)
  · rw [wf.unique.eq_of_key_eq hs ht (ha.trans hta.symm)]
    exact hflow

/-- Something happens on another stream. -/
theorem other (h : FlowAt isn a sent k) (wf : k.Wf) (hne : s.addr ≠ a)
    (hlog : k'.log = k.log ++ evs) (hevs : ∀ e ∈ evs, e.addr = s.addr)
    (hstreams :
      (∃ s', s'.addr = s.addr ∧ k'.allStreams = Keyed.replace Stream.addr s' k.allStreams) ∨
      k'.allStreams = Keyed.erase Stream.addr s.addr k.allStreams) : FlowAt isn a sent k' := by
  have hown : own a k'.log = own a k.log := by
    rw [hlog, own_log k.log hevs, if_neg hne.symm]
  rw [FlowAt, hown]
  obtain ⟨hnone, hempty⟩ | ⟨t, ht, hta, hflow⟩ := h
  · refine .inl ⟨fun t ht => ?_, hempty⟩
    obtain ⟨s', haddr, hstreams⟩ | hstreams := hstreams
    · rw [hstreams] at ht
      obtain ⟨ht, _⟩ | ⟨rfl, _⟩ := Keyed.mem_replace.mp ht
      · exact hnone t ht
      · exact haddr.symm ▸ hne
    · rw [hstreams] at ht
      exact hnone t (wf.unique.mem_erase.mp ht).1
  · refine .inr ⟨t, ?_, hta, hflow⟩
    have htne : t.addr ≠ s.addr := fun heq => hne (heq.symm.trans hta)
    obtain ⟨s', haddr, hstreams⟩ | hstreams := hstreams
    · rw [hstreams]
      exact Keyed.mem_replace.mpr (.inl ⟨ht, haddr.symm ▸ htne⟩)
    · rw [hstreams]
      exact wf.unique.mem_erase.mpr ⟨ht, htne⟩

/-- Something happens on the stream. -/
theorem same {sent' : List (BitVec 8)} (hs : s ∈ k.allStreams) (ha : s.addr = a)
    (hconn : s.SameConn s') (hstreams : k'.allStreams = Keyed.replace Stream.addr s' k.allStreams)
    (hlog : k'.log = k.log ++ evs) (hevs : ∀ e ∈ evs, e.addr = s.addr)
    (hflow : InFlow isn sent' s' (own s.addr k.log ++ evs)) : FlowAt isn a sent' k' := by
  subst ha
  refine .inr ⟨s', ?_, hconn.addr, ?_⟩
  · rw [hstreams]
    exact Keyed.mem_replace.mpr (.inr ⟨rfl, s, hs, hconn.addr.symm⟩)
  · rw [hlog, own_log k.log hevs, if_pos rfl]
    exact hflow

theorem served (h : FlowAt isn a sent k) (wf : k.Wf) (hs : s ∈ k.allStreams)
    (order : s.addr = a → Disciplined isn sent (own a k.log) g) (hserved : Served g s k k') :
    FlowAt isn a (sent ++ if s.addr = a then g.payload else []) k' := by
  by_cases ha : s.addr = a
  · rw [if_pos ha]
    have hflow := h.of_mem wf hs ha
    have horder := order ha
    subst ha
    obtain ⟨s', evs, hconn, hstreams, hlog, hevs, hflow'⟩ := hflow.served horder hserved
    exact .same hs rfl hconn hstreams hlog hevs hflow'
  · rw [if_neg ha, List.append_nil]
    obtain ⟨evs, hlog, hevs, hout⟩ := any_logInvariant.served trivial
      (fun _ _ => .of_forall (fun _ _ => trivial) _ _) hserved
    refine h.other wf ha hlog hevs ?_
    cases hout with
    | kept s' hconn hstreams _ => exact .inl ⟨s', hconn.addr, hstreams⟩
    | gone hstreams _ => exact .inr hstreams

/-- The `Syn` of a segment. -/
theorem opened (h : FlowAt isn a sent k) (wf : k.Wf)
    (first : g.opens k = true → newAddr k = a → ntol g.hdr.sequence = isn)
    (hopened : Opened g k k') : FlowAt isn a sent k' := by
  cases hopened with
  | kept n _ _ => exact h
  | opened l junk n hsyn hl _ _ =>
      have hevs : ∀ e ∈ [synAckEvent (openedStream (newAddr k) junk g.dev g.hdr g.srcIp
          (l.accept k.app).2)], e.addr = newAddr k := List.forall_mem_singleton.mpr rfl
      have hown := own_log k.log hevs a
      rw [FlowAt, hown]
      by_cases ha : newAddr k = a
      · rw [if_pos ha.symm]
        obtain ⟨_, hempty, rfl⟩ | ⟨s, hs, hsa, _⟩ := h
        · refine .inr ⟨_, List.mem_cons_self, ha, ?_⟩
          rw [hempty]
          exact .opened _ _ _ _ _ _ (first (Segment.opens_of_listener hsyn hl) ha)
        · have hlt : s.addr < k.net.next := wf.below s hs
          have hnew : k.net.next + 1 = s.addr := ha.trans hsa.symm
          omega
      · rw [if_neg fun heq => ha heq.symm]
        obtain ⟨hnone, hempty⟩ | ⟨s, hs, hsa, hflow⟩ := h
        · exact .inl ⟨List.forall_mem_cons.mpr ⟨ha, hnone⟩, hempty⟩
        · exact .inr ⟨s, List.mem_cons_of_mem _ hs, hsa, hflow⟩

end FlowAt

/-- The segment is served for the stream that it reaches. -/
theorem Opened.reaches (h : Opened g k k') (hfind : g.find k'.allStreams = some s) :
    g.reaches a k = decide (s.addr = a) := by
  cases h with
  | kept n hopens _ =>
      have hfind : g.find k.allStreams = some s := hfind
      rw [Segment.reaches, if_neg (by rw [hopens]; exact Bool.false_ne_true), hfind]
      rfl
  | opened l junk n hsyn hl _ _ =>
      cases (find_opened g _ _ _ _).symm.trans hfind
      rw [Segment.reaches, if_pos (Segment.opens_of_listener hsyn hl)]
      rfl

theorem Opened.not_reaches (h : Opened g k k') (hfind : g.find k'.allStreams = none) :
    g.reaches a k = false := by
  cases h with
  | kept n hopens _ =>
      have hfind : g.find k.allStreams = none := hfind
      rw [Segment.reaches, if_neg (by rw [hopens]; exact Bool.false_ne_true), hfind]
      rfl
  | opened l junk n _ _ _ _ => cases (find_opened g _ _ _ _).symm.trans hfind

/-- What the peer of the stream at `a` sends in a segment: the `Syn` that opens the stream has
its initial sequence number and no payload. A further `Syn` opens another stream. -/
def SegmentOk (isn : BitVec 32) (a : Nat) (sent : List (BitVec 8)) (k : Kernel σ) (g : Segment) :
    Prop :=
  g.reaches a k = true →
    (g.opens k = true → ntol g.hdr.sequence = isn ∧ g.len = 0) ∧
      Disciplined isn sent (own a k.log) g

instance (isn : BitVec 32) (a : Nat) (sent : List (BitVec 8)) (k : Kernel σ) (g : Segment) :
    Decidable (SegmentOk isn a sent k g) := inferInstanceAs (Decidable (_ → _))

/-- After the `Syn` was dealt with, the segment is in order for its stream. -/
theorem SegmentOk.disciplined (order : SegmentOk isn a sent k g) (h : Opened g k k')
    (hreaches : g.reaches a k = true) : Disciplined isn sent (own a k'.log) g := by
  obtain ⟨hfirst, hfin, hwindow⟩ := order hreaches
  cases h with
  | kept n _ _ => exact ⟨hfin, hwindow⟩
  | opened l junk n hsyn hl _ _ =>
      obtain ⟨_, hlen⟩ := hfirst (Segment.opens_of_listener hsyn hl)
      exact ⟨hfin, fun hne => absurd hlen hne⟩

theorem SegmentOk.first (order : SegmentOk isn a sent k g) (hopens : g.opens k = true)
    (ha : newAddr k = a) : ntol g.hdr.sequence = isn := by
  refine ((order ?_).1 hopens).1
  rw [Segment.reaches, if_pos hopens, ha]
  exact beq_self_eq_true a

theorem FlowAt.segment (h : FlowAt isn a sent k) (wf : k.Wf) (order : SegmentOk isn a sent k g)
    (hseg : tcpSegment g.dev g.data g.sz g.srcIp k = .ok k') :
    FlowAt isn a (sent ++ if g.reaches a k then g.payload else []) k' := by
  obtain ⟨k₁, hopened, hrest⟩ := tcpSegment_cases hseg
  have h₁ := h.opened wf order.first hopened
  obtain ⟨hfind, n, _, rfl⟩ | ⟨s, hfind, hserved⟩ := hrest
  · rw [hopened.not_reaches hfind, if_neg Bool.false_ne_true, List.append_nil]
    exact h₁
  · have hreaches := hopened.reaches hfind (a := a)
    have hserved := h₁.served (hopened.wf wf) (List.mem_of_find?_eq_some hfind)
      (fun ha => order.disciplined hopened (by rw [hreaches, ha]; exact decide_eq_true rfl)) hserved
    simp only [hreaches, decide_eq_true_eq]
    exact hserved

end

/-! ## Runs -/

/-- The kernel, and what the peer of one stream has sent up to here. -/
structure Transfer (σ : Type) where
  kernel : Kernel σ
  sent : List (BitVec 8)

/-- The payload that a step brings for the stream at `a`. -/
def peerPayload (a : Nat) (k : Kernel σ) (op : KernelOp σ) : List (BitVec 8) :=
  match op.segment? with
  | some g => if g.reaches a k then g.payload else []
  | none => []

def transferStep (a : Nat) (w : Transfer σ) (op : KernelOp σ) : Except Trap (Transfer σ) := do
  let k ← kernelStep w.kernel op
  return ⟨k, w.sent ++ peerPayload a w.kernel op⟩

/-- The peer of the stream at `a` keeps to the rules in this step. -/
def PeerOk (isn : BitVec 32) (a : Nat) (w : Transfer σ) (op : KernelOp σ) : Prop :=
  ∀ g, op.segment? = some g → SegmentOk isn a w.sent w.kernel g

instance (isn : BitVec 32) (a : Nat) (w : Transfer σ) (op : KernelOp σ) :
    Decidable (PeerOk isn a w op) :=
  inferInstanceAs (Decidable (∀ g ∈ op.segment?, SegmentOk isn a w.sent w.kernel g))

/-- The test of `buffer_data` that drops the payload. -/
def OutOfSpace (s : Stream σ) (len : BitVec 32) : Prop := len ≠ 0 ∧ s.readMax < s.readOffset + len

section

variable {isn : BitVec 32} {a : Nat} {sent : List (BitVec 8)} {s : Stream σ} {g : Segment}
  {k k' : Kernel σ} {op : KernelOp σ}

theorem segmentOk_net {n : Net} (hnext : n.next = k.net.next) (order : SegmentOk isn a sent k g) :
    SegmentOk isn a sent { k with net := n } g := by
  intro hreaches
  rw [Segment.reaches_net hnext] at hreaches
  exact order hreaches

theorem FlowAt.step (h : FlowAt isn a sent k) (wf : k.Wf) (order : PeerOk isn a ⟨k, sent⟩ op)
    (hstep : kernelStep k op = .ok k') : FlowAt isn a (sent ++ peerPayload a k op) k' := by
  obtain ⟨g, n, hop, hnext, hseg⟩ | ⟨hop, n, app, ports, listeners, hnext, rfl⟩ |
    ⟨hop, s, c, n, _, hs, same, rfl⟩ := kernelStep_cases hstep
  · have hn : FlowAt isn a sent { k with net := n } := h
    have wfn : Kernel.Wf { k with net := n } :=
      ⟨wf.unique, fun s hs => (wf.below s hs).trans_le hnext.ge⟩
    have hflow := hn.segment wfn (segmentOk_net hnext (order g hop)) hseg
    rw [Segment.reaches_net hnext] at hflow
    rw [peerPayload, hop]
    exact hflow
  · rw [peerPayload, hop, List.append_nil]
    exact h
  · rw [peerPayload, hop, List.append_nil]
    have hevs : ∀ e ∈ [s.callEvent c], e.addr = s.addr :=
      List.forall_mem_singleton.mpr (by cases c <;> rfl)
    by_cases ha : s.addr = a
    · have hflow := h.of_mem wf hs ha
      subst ha
      exact .same hs rfl (s.afterCall_sameConn c) rfl rfl hevs (hflow.call c)
    · exact h.other wf ha rfl hevs (.inl ⟨s.afterCall c, (s.afterCall_sameConn c).addr, rfl⟩)

theorem FlowAt.not_outOfSpace {k₁ : Kernel σ} (h : FlowAt isn a sent k) (wf : k.Wf)
    (order : SegmentOk isn a sent k g) (hreaches : g.reaches a k = true)
    (hserves : g.Serves k s k₁) : ¬OutOfSpace s g.len := by
  rintro ⟨hlen, hfull⟩
  have hopened := opened_of_eq hserves.1
  have ha : s.addr = a := of_decide_eq_true ((hopened.reaches hserves.2).symm.trans hreaches)
  have hflow := (h.opened wf order.first hopened).of_mem (hopened.wf wf)
    (List.mem_of_find?_eq_some hserves.2) ha
  exact (hflow.room (order.disciplined hopened hreaches) hlen).1.2 hfull

theorem CallsAllowed.fits {calls : List AppCall} (h : CallsAllowed (fun _ c => c.Fits) s calls) :
    ∀ c ∈ calls, c.Fits := by
  induction calls generalizing s with
  | nil => exact fun c hc => absurd hc List.not_mem_nil
  | cons c calls ih => exact List.forall_mem_cons.mpr ⟨h.1, ih h.2⟩

/-- The segment returns if what the read function sends fits into buffers. -/
theorem FlowAt.segment_total (h : FlowAt isn a sent k) (heap : k.HeapSound)
    (order : SegmentOk isn a sent k g) (hreaches : g.reaches a k = true)
    (fits : Allows (fun _ c => c.Fits) k (.segment g)) :
    ∃ k', tcpSegment g.dev g.data g.sz g.srcIp k = .ok k' := by
  have hwithin : (tcpSegment g.dev g.data g.sz g.srcIp k).Within (k.HeapOk ·) fun _ => False := by
    refine tcpSegment_within heap.wf heap.fresh heap.live fun s k₁ hserves hopened => ?_
    have ha : s.addr = a := of_decide_eq_true ((hopened.reaches hserves.2).symm.trans hreaches)
    have hflow := (h.opened heap.wf order.first hopened).of_mem (hopened.wf heap.wf)
      (List.mem_of_find?_eq_some hserves.2) ha
    refine ⟨fun hreuse => hflow.state hreuse.1.2, fun _ hover => ?_, fun fresh₁ _ hpsh => ?_⟩
    · have hroom := (hflow.room (order.disciplined hopened hreaches) hover.1.1).2
      exact absurd hover.2 (Nat.not_lt.mpr hroom)
    · refine .of_total (pushit_fits fresh₁ (CallsAllowed.fits (s := g.receive s) ?_))
      cases hopened with
      | kept n hopens _ => exact fits.kept g rfl hpsh hopens s hserves.2 _
      | opened l junk n _ hl _ _ =>
          cases (find_opened g _ _ _ _).symm.trans hserves.2
          exact fits.opened g rfl hpsh l hl junk _
  obtain ⟨k', hk', _⟩ := hwithin.total
  exact ⟨k', hk'⟩

theorem FlowAt.step_total (h : FlowAt isn a sent k) (heap : k.HeapSound)
    (hop : op.segment? = some g) (order : SegmentOk isn a sent k g)
    (hreaches : g.reaches a k = true) (fits : Allows (fun _ c => c.Fits) k op) :
    ∃ k', kernelStep k op = .ok k' := by
  cases op with
  | segment g' =>
      cases hop
      exact h.segment_total heap order hreaches fits
  | frame dev m =>
      obtain ⟨n, hn, _, heap₁⟩ := heap.register dev
      have hnext : n.next = k.net.next := registerDevice_next dev k.net n hn
      have h₁ : FlowAt isn a sent { k with net := n } := h
      change ∃ k', ethernetPacket dev m k = .ok k'
      rw [ethernetPacket_of_segment hop, hn]
      refine h₁.segment_total heap₁ (segmentOk_net hnext order) ?_ ⟨?_, ?_, ?_⟩
      · rw [Segment.reaches_net hnext]
        exact hreaches
      · exact fun _ _ c hc => by cases hc
      · rintro _ ⟨⟩
        exact fits.kept g hop
      · rintro _ ⟨⟩
        rw [newAddr_net hnext]
        exact fits.opened g hop
  | _ => cases hop

end

theorem chunks_own (a : Nat) (log : List TcpEvent) : chunks a (own a log) = chunks a log := by
  induction log with
  | nil => rfl
  | cons e log ih =>
      by_cases he : e.addr = a
      · have hb : (e.addr == a) = true := beq_iff_eq.mpr he
        rw [own, List.filter_cons, if_pos hb]
        exact congrArg (e.chunk a ++ ·) ih
      · have hb : ¬(e.addr == a) = true := fun heq => he (beq_iff_eq.mp heq)
        have hnone : chunks a [e] = [] := (taken_eq_nil (List.forall_mem_singleton.mpr he)).2
        have hsplit : chunks a (e :: log) = chunks a [e] ++ chunks a log := chunks_append a [e] log
        rw [own, List.filter_cons, if_neg hb, hsplit, hnone]
        exact ih

theorem transfer_run {isn : BitVec 32} {a : Nat} {junk : Nat → ByteMem} {app : σ}
    {ops : List (KernelOp σ)} {w : Transfer σ}
    (run : Transition.Run (transferStep a) (PeerOk isn a) ⟨.boot junk app, []⟩ ops w) :
    w.kernel.HeapSound ∧ FlowAt isn a w.sent w.kernel := by
  refine run.invariant (I := fun w => w.kernel.HeapSound ∧ FlowAt isn a w.sent w.kernel) ?_
    ⟨boot_heapSound junk app, .inl ⟨fun _ hs => absurd hs List.not_mem_nil, rfl, rfl⟩⟩
  rintro w op w' ⟨heap, h⟩ order hstep
  obtain ⟨k', hk', hw'⟩ := Except.bind_eq_ok.mp hstep
  cases hw'
  exact ⟨heap.step op k' hk', h.step heap.wf order hk'⟩

/-- In every run in which the peer of a stream sends its payload in order and within the last
window, up to its `Fin`: what the read function got and what is in the buffer is exactly what
the peer has sent, and the next byte is acknowledged. No segment of the peer meets a full
buffer, and it returns if what the read function sends fits into buffers. -/
theorem flow_control (isn : BitVec 32) (a : Nat) (junk : Nat → ByteMem) (app : σ)
    (ops : List (KernelOp σ)) (w : Transfer σ)
    (run : Transition.Run (transferStep a) (PeerOk isn a) ⟨.boot junk app, []⟩ ops w) :
    (((∀ s ∈ w.kernel.allStreams, s.addr ≠ a) ∧ own a w.kernel.log = [] ∧ w.sent = []) ∨
        ∃ s ∈ w.kernel.allStreams, s.addr = a ∧ chunks a w.kernel.log ++ s.buffered = w.sent ∧
          s.ackSeq = isn + 1 + BitVec.ofNat 32 w.sent.length) ∧
      ∀ op g, op.segment? = some g → PeerOk isn a w op → g.reaches a w.kernel = true →
        (∀ n s k₁, n.next = w.kernel.net.next →
          g.Serves { w.kernel with net := n } s k₁ → ¬OutOfSpace s g.len) ∧
        (Allows (fun _ c => c.Fits) w.kernel op → ∃ w', transferStep a w op = .ok w') := by
  obtain ⟨heap, h⟩ := transfer_run run
  refine ⟨?_, fun op g hop order hreaches => ⟨fun n s k₁ hnext hserves => ?_, fun fits => ?_⟩⟩
  · refine h.imp_right ?_
    rintro ⟨s, hs, rfl, hflow⟩
    obtain ⟨c, hreceived, hcredit⟩ := hflow.credit
    refine ⟨s, hs, rfl, ?_, ?_⟩
    · rw [← chunks_own]
      exact hflow.bytes
    · rw [← hreceived]
      exact hcredit.ackSeq
  · have hn : FlowAt isn a w.sent { w.kernel with net := n } := h
    refine hn.not_outOfSpace ⟨heap.wf.unique, fun s hs => ?_⟩
      (segmentOk_net hnext (order g hop)) ?_ hserves
    · exact (heap.wf.below s hs).trans_le hnext.ge
    · rw [Segment.reaches_net hnext]
      exact hreaches
  · obtain ⟨k', hk'⟩ := h.step_total heap hop (order g hop) hreaches fits
    exact ⟨_, Except.bind_eq_ok.mpr ⟨k', hk', rfl⟩⟩

/-- The read function sends back what it gets, and another byte arrives after that. -/
theorem flow_control_run : ∃ w : Transfer Unit,
    Transition.Run (transferStep 2) (PeerOk 1 2) ⟨.boot (fun _ _ => 0) (), []⟩
      [.tcpListen 80 fun app => (app, fun app _ data n => (app, [.tcpSend data (n.setWidth 16)])),
        .segment (peerSegment TcpFlag.syn 5 1 0 []),
        .segment (peerSegment (TcpFlag.ack ||| TcpFlag.psh) 5 2 2 [65, 66]),
        .segment (peerSegment TcpFlag.ack 5 4 4 [67])] w ∧
      w.sent = [65, 66, 67] ∧ chunks 2 w.kernel.log = [65, 66] ∧
      ∃ s ∈ w.kernel.allStreams, s.addr = 2 ∧ chunks 2 w.kernel.log ++ s.buffered = w.sent ∧
        s.ackSeq = 1 + 1 + BitVec.ofNat 32 w.sent.length := by
  have hrun : Transition.check (transferStep 2) (PeerOk 1 2)
      (fun w => decide (w.sent = [65, 66, 67] ∧ chunks 2 w.kernel.log = [65, 66]))
      (⟨.boot (fun _ _ => 0) (), []⟩ : Transfer Unit)
      [.tcpListen 80 fun app => (app, fun app _ data n => (app, [.tcpSend data (n.setWidth 16)])),
        .segment (peerSegment TcpFlag.syn 5 1 0 []),
        .segment (peerSegment (TcpFlag.ack ||| TcpFlag.psh) 5 2 2 [65, 66]),
        .segment (peerSegment TcpFlag.ack 5 4 4 [67])] = true := by
    decide +kernel
  obtain ⟨w, run, hpost⟩ := Transition.Run.of_check hrun
  obtain ⟨hsent, hchunks⟩ := of_decide_eq_true hpost
  refine ⟨w, run, hsent, hchunks, ?_⟩
  obtain ⟨_, _, hnil⟩ | hstream := (flow_control 1 2 _ () _ w run).1
  · cases hsent.symm.trans hnil
  · exact hstream

end BadOs
