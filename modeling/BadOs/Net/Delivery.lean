import BadOs.Net.Lifecycle

/-!
# Delivery of a byte stream

What the read function of a stream gets is a prefix of what the peer sends, as long as
the payload that `buffer_data` accepts continues what it has accepted. The stack does
not compare sequence numbers itself.
-/

namespace BadOs

variable {σ : Type}

/-- What the peer of a stream sends: its initial sequence number and its bytes. -/
structure Peer where
  isn : BitVec 32
  sent : List (BitVec 8)

/-- The payload as `buffer_data` finds it. -/
def Segment.payload (g : Segment) : List (BitVec 8) :=
  g.data.slice (4 * g.hdr.offset.toNat) g.len.toNat

/-- The bytes that an event takes out of the buffer of the stream at `addr`. -/
def TcpEvent.taken (addr : Nat) : TcpEvent → List (BitVec 8)
  | .segment _ _ _ => []
  | .read a chunk => if a = addr then chunk else []
  | .freed a rest => if a = addr then rest else []

/-- The chunks handed to the read function of the stream at `addr`, and the bytes that
were left when it was freed. -/
def taken (addr : Nat) (log : List TcpEvent) : List (BitVec 8) := log.flatMap (TcpEvent.taken addr)

def TcpEvent.chunk (addr : Nat) : TcpEvent → List (BitVec 8)
  | .segment _ _ _ => []
  | .read a chunk => if a = addr then chunk else []
  | .freed _ _ => []

/-- The chunks handed to the read function alone. -/
def chunks (addr : Nat) (log : List TcpEvent) : List (BitVec 8) := log.flatMap (TcpEvent.chunk addr)

/-- What a stream has accepted: the chunks handed to its read function, followed by the
bytes that are still in the buffer. -/
def Stream.accepted (s : Stream σ) (log : List TcpEvent) : List (BitVec 8) :=
  taken s.addr log ++ s.buffered

/-- What was accepted at an address, whether or not there still is a stream. -/
def Kernel.accepted (k : Kernel σ) (addr : Nat) : List (BitVec 8) :=
  match k.allStreams.find? fun s => s.addr == addr with
  | some s => s.accepted k.log
  | none => taken addr k.log

/-- The acknowledgement number in a header covers no byte that was not accepted. -/
def Covered (peer : Peer) (accepted : List (BitVec 8)) (ack : BitVec 32) : Prop :=
  (∃ n ≤ accepted.length, ack = ntol (peer.isn + 1 + BitVec.ofNat 32 n)) ∨ accepted = peer.sent

/-- The next byte that is expected is the one after the accepted ones; the `Fin` counts
as a further one. -/
def Synced (peer : Peer) (accepted : List (BitVec 8)) (ackSeq : BitVec 32) : Prop :=
  ackSeq = peer.isn + 1 + BitVec.ofNat 32 accepted.length ∨ accepted = peer.sent

/-- The payload and the `Fin` of a segment are in order for a stream that has accepted
these bytes: payload for which there is room continues them, and `Fin` follows the
last byte. -/
def InOrderFor (peer : Peer) (g : Segment) (s : Stream σ) (accepted : List (BitVec 8)) : Prop :=
  (copies s g.len →
    ntol g.hdr.sequence = peer.isn + 1 + BitVec.ofNat 32 accepted.length ∧
      accepted ++ g.payload <+: peer.sent) ∧
  (g.has TcpFlag.fin = true →
    accepted ++ (if copies s g.len then g.payload else []) = peer.sent)

/-- A step brings no segment out of order. A `Syn` that opens a stream has the initial
sequence number and no payload. -/
def InOrder (peer : Nat → Peer) (k : Kernel σ) (op : KernelOp σ) : Prop :=
  ∀ g, op.segment? = some g →
    (g.opens k = true → ntol g.hdr.sequence = (peer (newAddr k)).isn ∧ g.len = 0 ∧
      (g.has TcpFlag.fin = true → (peer (newAddr k)).sent = [])) ∧
    (g.opens k = false → ∀ s, g.find k.allStreams = some s →
      InOrderFor (peer s.addr) g s (s.accepted k.log))

instance (peer : Peer) (g : Segment) (s : Stream σ) (accepted : List (BitVec 8)) :
    Decidable (InOrderFor peer g s accepted) :=
  inferInstanceAs (Decidable (_ ∧ _))

instance (peer : Nat → Peer) (k : Kernel σ) (op : KernelOp σ) : Decidable (InOrder peer k op) :=
  inferInstanceAs (Decidable (∀ g ∈ op.segment?, (g.opens k = true → _) ∧
    (g.opens k = false → ∀ s ∈ g.find k.allStreams, InOrderFor _ g s _)))

/-! ## Logs -/

@[simp] theorem taken_append (addr : Nat) (log log' : List TcpEvent) :
    taken addr (log ++ log') = taken addr log ++ taken addr log' := List.flatMap_append

@[simp] theorem chunks_append (addr : Nat) (log log' : List TcpEvent) :
    chunks addr (log ++ log') = chunks addr log ++ chunks addr log' := List.flatMap_append

theorem taken_eq_nil {addr : Nat} {log : List TcpEvent} (h : ∀ e ∈ log, e.addr ≠ addr) :
    taken addr log = [] ∧ chunks addr log = [] := by
  constructor <;>
  · refine List.flatMap_eq_nil_iff.mpr fun e he => ?_
    have hne := h e he
    cases e with
    | segment a hdr payload => rfl
    | read a chunk => exact if_neg hne
    | freed a rest => first | exact if_neg hne | rfl

/-- Segments take nothing out of the buffer. -/
theorem taken_callEvents (s : Stream σ) (calls : List AppCall) (addr : Nat) :
    taken addr (s.callEvents calls) = [] ∧ chunks addr (s.callEvents calls) = [] := by
  constructor <;>
  · refine List.flatMap_eq_nil_iff.mpr fun e he => ?_
    obtain ⟨_, _, rfl, _⟩ := s.callEvents_segment calls e he
    rfl

/-! ## Phases of a segment -/

section

variable {peer : Peer} {g : Segment} {s s₁ : Stream σ} {k k₁ k₂ k' : Kernel σ}

theorem Covered.mono {acc acc' : List (BitVec 8)} {ack : BitVec 32} (h : Covered peer acc ack)
    (grow : acc <+: acc') (fits : acc' <+: peer.sent) : Covered peer acc' ack := by
  obtain ⟨n, hn, hack⟩ | rfl := h
  · exact Or.inl ⟨n, hn.trans grow.length_le, hack⟩
  · exact Or.inr (fits.eq_of_length_le grow.length_le)

theorem Synced.covered {acc : List (BitVec 8)} {ackSeq : BitVec 32}
    (h : Synced peer acc ackSeq) : Covered peer acc (ntol ackSeq) := by
  obtain rfl | hall := h
  · exact Or.inl ⟨_, Nat.le_refl _, rfl⟩
  · exact Or.inr hall

theorem Segment.acknowledge_eq (g : Segment) (s : Stream σ) :
    (g.acknowledge s).buffered = s.buffered ∧ (g.acknowledge s).readOffset = s.readOffset ∧
      (g.acknowledge s).readBuf = s.readBuf ∧ (g.acknowledge s).ackSeq = s.ackSeq := by
  unfold Segment.acknowledge
  split <;> exact ⟨rfl, rfl, rfl, rfl⟩

/-- The bytes of a segment go behind those in the buffer. -/
theorem receive_buffered
    (room : copies s g.len → s.readOffset.toNat + g.len.toNat ≤ s.readMax.toNat) :
    (g.receive s).buffered = s.buffered ++ if copies s g.len then g.payload else [] := by
  obtain ⟨hbuffered, hoffset, hbuf, _⟩ := g.acknowledge_eq s
  unfold Segment.receive
  split
  · next hcopies =>
    have hmax := s.readMax.isLt
    have hsum : (s.readOffset + g.len).toNat = s.readOffset.toNat + g.len.toNat :=
      BitVec.toNat_add_of_lt (by have := room hcopies; omega)
    have hcopy := s.readBuf.slice_copy g.data 0 (4 * g.hdr.offset.toNat) s.readOffset.toNat
      g.len.toNat
    rw [Nat.zero_add] at hcopy
    simp only [Stream.buffered, Stream.afterData, hoffset, hbuf, hsum, hcopy, Segment.payload]
  · rw [hbuffered, List.append_nil]

theorem receive_accepted (log : List TcpEvent)
    (room : copies s g.len → s.readOffset.toNat + g.len.toNat ≤ s.readMax.toNat) :
    (g.receive s).accepted log =
      s.accepted log ++ if copies s g.len then g.payload else [] := by
  rw [Stream.accepted, (g.receive_sameConn s).addr, receive_buffered room, ← List.append_assoc]
  rfl

theorem receive_synced {log : List TcpEvent} (sync : Synced peer (s.accepted log) s.ackSeq)
    (order : InOrderFor peer g s (s.accepted log))
    (room : copies s g.len → s.readOffset.toNat + g.len.toNat ≤ s.readMax.toNat) :
    Synced peer ((g.receive s).accepted log) (g.receive s).ackSeq := by
  rw [receive_accepted log room]
  by_cases hcopies : copies s g.len
  · rw [if_pos hcopies]
    refine Or.inl ?_
    have hack : (g.receive s).ackSeq = ntol g.hdr.sequence + g.len := by
      rw [Segment.receive, if_pos hcopies]
      rfl
    rw [hack, (order.1 hcopies).1, List.length_append, Segment.payload, ByteMem.length_slice,
      BitVec.ofNat_add, BitVec.ofNat_toNat, BitVec.setWidth_eq, BitVec.add_assoc]
  · have hack : (g.receive s).ackSeq = s.ackSeq := by
      rw [Segment.receive, if_neg hcopies]
      exact (g.acknowledge_eq s).2.2.2
    rw [if_neg hcopies, List.append_nil, hack]
    exact sync

/-- What is in the buffer when the stream is freed. -/
theorem taken_freed (s : Stream σ) : taken s.addr [.freed s.addr s.buffered] = s.buffered := by
  change (if s.addr = s.addr then s.buffered else []) ++ [] = _
  rw [if_pos rfl, List.append_nil]

/-- `Psh` moves the bytes of the buffer to the read function. -/
theorem Pushed.accepted {psh : Bool} (h : Pushed psh s k s₁ k₁) :
    s₁.accepted k₁.log = s.accepted k.log ∧ s₁.ackSeq = s.ackSeq ∧
      ∃ evs, k₁.log = k.log ++ evs ∧ (∀ e ∈ evs, e.addr = s.addr) ∧
        chunks s.addr evs = taken s.addr evs ∧
        ∀ a hdr payload, .segment a hdr payload ∈ evs → hdr.ack = ntol s.ackSeq := by
  cases h with
  | skipped _ =>
      exact ⟨rfl, rfl, [], (List.append_nil _).symm, fun _ he => (nomatch he), rfl,
        fun _ _ _ he => nomatch he⟩
  | read n calls _ _ _ =>
      obtain ⟨hconn, hseq, _⟩ := s.afterCalls_frame calls
      obtain ⟨htaken, hchunks⟩ := taken_callEvents s calls s.addr
      have hread : taken s.addr (.read s.addr s.buffered :: s.callEvents calls) = s.buffered := by
        change (if s.addr = s.addr then s.buffered else []) ++ taken s.addr _ = _
        rw [if_pos rfl, htaken, List.append_nil]
      refine ⟨?_, hseq, _, rfl, List.forall_mem_cons.mpr ⟨rfl, fun e he => ?_⟩, ?_,
        fun a hdr payload he => ?_⟩
      · have haddr : (s.afterPush calls).addr = s.addr := hconn.addr
        have hbuffered : (s.afterPush calls).buffered = [] := rfl
        simp only [Stream.accepted, haddr, hbuffered, taken_append, hread, List.append_nil]
      · obtain ⟨_, _, rfl, _⟩ := s.callEvents_segment calls e he
        rfl
      · rw [hread]
        change (if s.addr = s.addr then s.buffered else []) ++ chunks s.addr _ = _
        rw [if_pos rfl, hchunks, List.append_nil]
      · obtain heq | hmem := List.mem_cons.mp he
        · exact nomatch heq
        · obtain ⟨_, _, heq, hack⟩ := s.callEvents_segment calls _ hmem
          cases heq
          exact hack

/-- `Fin` is answered when everything has been accepted. -/
theorem Finished.accepted {fin : Bool} {p : Option (Stream σ)} (h : Finished fin s k p k₁)
    (sync : Synced peer (s.accepted k.log) s.ackSeq)
    (all : fin = true → s.accepted k.log = peer.sent) :
    (∀ s', p = some s' → s'.accepted k₁.log = s.accepted k.log ∧
        Synced peer (s.accepted k.log) s'.ackSeq) ∧
      (p = none → taken s.addr k₁.log = s.accepted k.log) ∧
      ∃ evs, k₁.log = k.log ++ evs ∧ (∀ e ∈ evs, e.addr = s.addr) ∧
        (p ≠ none → chunks s.addr evs = taken s.addr evs) ∧
        ∀ a hdr payload, .segment a hdr payload ∈ evs → s.accepted k.log = peer.sent := by
  cases h with
  | skipped _ =>
      refine ⟨fun s' hs' => ?_, fun hp => (nomatch hp), [], (List.append_nil _).symm,
        fun _ he => (nomatch he), fun _ => rfl, fun _ _ _ he => nomatch he⟩
      cases hs'
      exact ⟨rfl, sync⟩
  | answered n hfin _ _ =>
      refine ⟨fun s' hs' => ?_, fun hp => (nomatch hp), _, rfl, ?_, fun _ => rfl,
        fun _ _ _ _ => all hfin⟩
      · cases hs'
        refine ⟨?_, Or.inr (all hfin)⟩
        simp only [Stream.accepted, taken_append]
        exact congrArg (· ++ s.buffered) (List.append_nil _)
      · exact List.forall_mem_singleton.mpr rfl
  | closed n hfin _ _ =>
      refine ⟨fun s' hs' => (nomatch hs'), fun _ => ?_, _, rfl, ?_, fun hp => absurd rfl hp,
        fun _ _ _ _ => all hfin⟩
      · have hfreed : taken s.addr [s.finEvent TcpFlag.ack, .freed s.addr s.buffered] =
            s.buffered := taken_freed s
        rw [taken_append, hfreed]
        rfl
      · exact List.forall_mem_cons.mpr ⟨rfl, List.forall_mem_singleton.mpr rfl⟩

/-- What serving a stream, or a call on it, does to the bytes that it has accepted. -/
structure Progress (peer : Peer) (s : Stream σ) (k k' : Kernel σ) (acc : List (BitVec 8))
    (evs : List TcpEvent) : Prop where
  grows : s.accepted k.log <+: acc
  fits : acc <+: peer.sent
  log : k'.log = k.log ++ evs
  events : ∀ e ∈ evs, e.addr = s.addr
  covered : ∀ a hdr payload, .segment a hdr payload ∈ evs → Covered peer acc hdr.ack
  streams : (∃ s', s'.addr = s.addr ∧ k'.allStreams = Keyed.replace Stream.addr s' k.allStreams ∧
      s'.accepted k'.log = acc ∧ Synced peer acc s'.ackSeq ∧
      chunks s.addr evs = taken s.addr evs) ∨
    k'.allStreams = Keyed.erase Stream.addr s.addr k.allStreams ∧ taken s.addr k'.log = acc

theorem Served.progress (h : Served g s k k')
    (sync : Synced peer (s.accepted k.log) s.ackSeq) (fits : s.accepted k.log <+: peer.sent)
    (order : InOrderFor peer g s (s.accepted k.log)) : ∃ acc evs, Progress peer s k k' acc evs := by
  cases h with
  | freed n _ _ _ =>
      refine ⟨s.accepted k.log, _, List.prefix_rfl, fits, rfl, List.forall_mem_singleton.mpr rfl,
        ?_, Or.inr ⟨rfl, ?_⟩⟩
      · intro a hdr payload he
        cases List.mem_singleton.mp he
      rw [taken_append, taken_freed]
      rfl
  | @kept s₁ k₁ k₂ p _ room hpushed hfinished =>
      have haccepted := receive_accepted k.log room
      have hsync := receive_synced sync order room
      have hgrows : s.accepted k.log <+: (g.receive s).accepted k.log := by
        rw [haccepted]
        exact List.prefix_append _ _
      have hfits : (g.receive s).accepted k.log <+: peer.sent := by
        rw [haccepted]
        by_cases hcopies : copies s g.len
        · rw [if_pos hcopies]
          exact (order.1 hcopies).2
        · rw [if_neg hcopies, List.append_nil]
          exact fits
      obtain ⟨hsame, hseq, evs, hlog, hevs, hchunks, hacks⟩ := hpushed.accepted
      obtain ⟨hconn, _, hstreams, _⟩ := hpushed.frame
      have haddr : s₁.addr = s.addr := hconn.addr.trans (g.receive_sameConn s).addr
      rw [← hsame, ← hseq] at hsync
      obtain ⟨hheld, hgone, evs', hlog', hevs', hchunks', hacks'⟩ := hfinished.accepted hsync
        fun hfin => (hsame.trans haccepted).trans (order.2 hfin)
      rw [hsame] at hheld hgone hacks' hsync
      have hboth : p ≠ none → chunks s.addr (evs ++ evs') = taken s.addr (evs ++ evs') := by
        intro hp
        rw [(g.receive_sameConn s).addr] at hchunks
        rw [chunks_append, taken_append, hchunks, ← haddr, hchunks' hp]
      refine ⟨_, evs ++ evs', hgrows, hfits, ?_, ?_, ?_, ?_⟩
      · have hput : (k₂.putStream p).log = k₂.log := by cases p <;> rfl
        rw [hput, hlog', hlog, List.append_assoc]
      · intro e he
        obtain he | he := List.mem_append.mp he
        · exact (hevs e he).trans (g.receive_sameConn s).addr
        · exact (hevs' e he).trans haddr
      · intro a hdr payload he
        obtain he | he := List.mem_append.mp he
        · rw [hacks a hdr payload he, ← hseq]
          exact hsync.covered
        · exact Or.inr (hacks' a hdr payload he)
      · cases hfinished with
        | skipped _ =>
            obtain ⟨hacc, hsync'⟩ := hheld s₁ rfl
            refine Or.inl ⟨s₁, haddr, ?_, hacc, hsync', hboth (Option.some_ne_none s₁)⟩
            simp only [Kernel.putStream, hstreams]
        | answered n _ _ _ =>
            obtain ⟨hacc, hsync'⟩ := hheld _ rfl
            refine Or.inl ⟨s₁.afterFin, haddr, ?_, hacc, hsync', hboth (Option.some_ne_none _)⟩
            simp only [Kernel.putStream, hstreams]
        | closed n _ _ _ =>
            refine Or.inr ⟨?_, ?_⟩
            · simp only [Kernel.putStream, hstreams, haddr]
            · rw [← haddr]
              exact hgone rfl

end

/-! ## The kernel -/

section

variable {peer : Nat → Peer} {k k' : Kernel σ} {op : KernelOp σ} {g : Segment} {s : Stream σ}

theorem Kernel.accepted_of_mem (unique : Keyed.Unique Stream.addr k.allStreams)
    (hs : s ∈ k.allStreams) : k.accepted s.addr = s.accepted k.log := by
  unfold Kernel.accepted
  split
  · next t ht =>
    have haddr : (t.addr == s.addr) = true :=
      List.find?_some (p := fun t : Stream σ => t.addr == s.addr) ht
    rw [unique.eq_of_key_eq (List.mem_of_find?_eq_some ht) hs (eq_of_beq haddr)]
  · next hnone => exact absurd (beq_self_eq_true _) (List.find?_eq_none.mp hnone s hs)

theorem Kernel.accepted_of_gone {a : Nat} (hgone : ∀ s ∈ k.allStreams, s.addr ≠ a) :
    k.accepted a = taken a k.log := by
  unfold Kernel.accepted
  split
  · next t ht =>
    have haddr : (t.addr == a) = true :=
      List.find?_some (p := fun t : Stream σ => t.addr == a) ht
    exact absurd (eq_of_beq haddr) (hgone t (List.mem_of_find?_eq_some ht))
  · rfl

/-- What was accepted at an address depends on its stream and its events only. -/
theorem Kernel.accepted_congr {a : Nat} (unique : Keyed.Unique Stream.addr k.allStreams)
    (unique' : Keyed.Unique Stream.addr k'.allStreams)
    (hmem : ∀ t, t.addr = a → (t ∈ k'.allStreams ↔ t ∈ k.allStreams))
    (htaken : taken a k'.log = taken a k.log) : k'.accepted a = k.accepted a := by
  by_cases hlive : ∃ t ∈ k.allStreams, t.addr = a
  · obtain ⟨t, ht, rfl⟩ := hlive
    rw [accepted_of_mem unique ht, accepted_of_mem unique' ((hmem t rfl).mpr ht),
      Stream.accepted, htaken]
    rfl
  · have hgone : ∀ t ∈ k.allStreams, t.addr ≠ a := fun t ht haddr => hlive ⟨t, ht, haddr⟩
    rw [accepted_of_gone hgone, accepted_of_gone fun t ht haddr =>
      hgone t ((hmem t haddr).mp ht) haddr, htaken]

/-- The invariant of runs that are in order. -/
structure Delivery (peer : Nat → Peer) (k : Kernel σ) : Prop where
  synced : ∀ s ∈ k.allStreams, Synced (peer s.addr) (s.accepted k.log) s.ackSeq
  fits : ∀ a, k.accepted a <+: (peer a).sent
  covered : ∀ a hdr payload, .segment a hdr payload ∈ k.log →
    Covered (peer a) (k.accepted a) hdr.ack
  logged : ∀ e ∈ k.log, e.addr < k.net.next
  unfreed : ∀ s ∈ k.allStreams, chunks s.addr k.log = taken s.addr k.log

/-- Nothing happens to the streams. -/
theorem Delivery.congr (d : Delivery peer k) (hstreams : k'.allStreams = k.allStreams)
    (hlog : k'.log = k.log) (hnext : k.net.next ≤ k'.net.next) : Delivery peer k' := by
  have haccepted : ∀ a, k'.accepted a = k.accepted a := fun a => by
    rw [Kernel.accepted, hstreams, hlog, Kernel.accepted]
  refine ⟨?_, fun a => haccepted a ▸ d.fits a, fun a hdr payload he => ?_, ?_, ?_⟩
  · rw [hstreams, hlog]
    exact d.synced
  · rw [haccepted]
    exact d.covered a hdr payload (hlog ▸ he)
  · rw [hlog]
    exact fun e he => (d.logged e he).trans_le hnext
  · rw [hstreams, hlog]
    exact d.unfreed

namespace Progress

variable {p : Peer} {acc : List (BitVec 8)} {evs : List TcpEvent} {t : Stream σ} {a : Nat}

theorem elsewhere (h : Progress p s k k' acc evs) (ha : a ≠ s.addr) :
    taken a evs = [] ∧ chunks a evs = [] :=
  taken_eq_nil fun e he heq => ha (heq.symm.trans (h.events e he))

/-- The other streams are the same. -/
theorem mem_iff (h : Progress p s k k' acc evs) (wf : k.Wf) (hts : t.addr ≠ s.addr) :
    t ∈ k'.allStreams ↔ t ∈ k.allStreams := by
  obtain ⟨s', haddr, hstreams, _⟩ | ⟨hstreams, _⟩ := h.streams
  · rw [hstreams, Keyed.mem_replace, haddr]
    constructor
    · rintro (⟨ht, _⟩ | ⟨rfl, _⟩)
      · exact ht
      · exact absurd haddr hts
    · exact fun ht => Or.inl ⟨ht, hts⟩
  · rw [hstreams, wf.unique.mem_erase]
    exact and_iff_left hts

theorem accepted_other (h : Progress p s k k' acc evs) (wf : k.Wf) (wf' : k'.Wf)
    (ha : a ≠ s.addr) : k'.accepted a = k.accepted a := by
  apply Kernel.accepted_congr wf.unique wf'.unique
  · intro t hta
    apply h.mem_iff wf
    rw [hta]
    exact ha
  · rw [h.log, taken_append, (h.elsewhere ha).1, List.append_nil]

theorem accepted_self (h : Progress p s k k' acc evs) (wf : k.Wf) (wf' : k'.Wf)
    (hs : s ∈ k.allStreams) : k'.accepted s.addr = acc := by
  obtain ⟨s', haddr, hstreams, hacc, _, _⟩ | ⟨hstreams, hacc⟩ := h.streams
  · have hmem : s' ∈ k'.allStreams :=
      hstreams ▸ Keyed.mem_replace.mpr (Or.inr ⟨rfl, s, hs, haddr.symm⟩)
    rw [← haddr, Kernel.accepted_of_mem wf'.unique hmem, hacc]
  · rw [Kernel.accepted_of_gone fun t ht => (wf.unique.mem_erase.mp (hstreams ▸ ht)).2, hacc]

/-- The record that was stored back. -/
theorem updated (h : Progress p s k k' acc evs) (wf : k.Wf) (ht : t ∈ k'.allStreams)
    (hts : t.addr = s.addr) : t.accepted k'.log = acc ∧ Synced p acc t.ackSeq ∧
      chunks s.addr evs = taken s.addr evs := by
  obtain ⟨s', haddr, hstreams, hrest⟩ | ⟨hstreams, _⟩ := h.streams
  · rw [hstreams] at ht
    obtain ⟨_, hne⟩ | ⟨rfl, _⟩ := Keyed.mem_replace.mp ht
    · exact absurd (hts.trans haddr.symm) hne
    · exact hrest
  · exact absurd hts (wf.unique.mem_erase.mp (hstreams ▸ ht)).2

end Progress

theorem Delivery.progress (d : Delivery peer k) (wf : k.Wf) (wf' : k'.Wf)
    (hs : s ∈ k.allStreams) (hnext : k.net.next ≤ k'.net.next) {acc : List (BitVec 8)}
    {evs : List TcpEvent} (h : Progress (peer s.addr) s k k' acc evs) : Delivery peer k' := by
  have hlog := h.log
  have here := h.accepted_self wf wf' hs
  refine ⟨fun t ht => ?_, fun a => ?_, fun a hdr payload he => ?_, fun e he => ?_, fun t ht => ?_⟩
  · by_cases hts : t.addr = s.addr
    · obtain ⟨hacc, hsync, _⟩ := h.updated wf ht hts
      rw [hacc, hts]
      exact hsync
    · have hold := (h.mem_iff wf hts).mp ht
      rw [← Kernel.accepted_of_mem wf'.unique ht, h.accepted_other wf wf' hts,
        Kernel.accepted_of_mem wf.unique hold]
      exact d.synced t hold
  · by_cases has : a = s.addr
    · rw [has, here]
      exact h.fits
    · rw [h.accepted_other wf wf' has]
      exact d.fits a
  · rw [hlog] at he
    obtain hold | hnew := List.mem_append.mp he
    · by_cases has : a = s.addr
      · have hcovered := d.covered a hdr payload hold
        rw [has, Kernel.accepted_of_mem wf.unique hs] at hcovered
        rw [has, here]
        exact hcovered.mono h.grows h.fits
      · rw [h.accepted_other wf wf' has]
        exact d.covered a hdr payload hold
    · have has : a = s.addr := h.events _ hnew
      rw [has, here]
      exact h.covered a hdr payload hnew
  · rw [hlog] at he
    obtain hold | hnew := List.mem_append.mp he
    · exact (d.logged e hold).trans_le hnext
    · rw [h.events e hnew]
      exact (wf.below s hs).trans_le hnext
  · rw [hlog, chunks_append, taken_append]
    by_cases hts : t.addr = s.addr
    · rw [hts, d.unfreed s hs, (h.updated wf ht hts).2.2]
    · rw [d.unfreed t ((h.mem_iff wf hts).mp ht), (h.elsewhere hts).1, (h.elsewhere hts).2]

/-- A new stream has accepted nothing, and expects the first byte of its peer. -/
theorem Delivery.opened (d : Delivery peer k) (wf : k.Wf) (wf' : k'.Wf) {hdr : TcpHdr}
    (hstreams : k'.allStreams = s :: k.allStreams)
    (hlog : k'.log = k.log ++ [.segment s.addr hdr []]) (haddr : s.addr = newAddr k)
    (hbuffered : s.buffered = []) (hseq : s.ackSeq = (peer s.addr).isn + 1)
    (hack : hdr.ack = ntol s.ackSeq) (hnext : k.net.next ≤ k'.net.next) : Delivery peer k' := by
  have hs : s ∈ k'.allStreams := hstreams ▸ List.mem_cons_self
  have htaken : ∀ a, taken a k'.log = taken a k.log := fun a => by
    rw [hlog, taken_append]
    exact List.append_nil _
  have hfresh : ∀ e ∈ k.log, e.addr ≠ s.addr := fun e he heq => by
    have hlt := d.logged e he
    have hnew : s.addr = k.net.next + 1 := haddr
    omega
  have hnone : s.accepted k'.log = [] := by
    rw [Stream.accepted, htaken, (taken_eq_nil hfresh).1, hbuffered, List.append_nil]
  have hhere : k'.accepted s.addr = [] := (Kernel.accepted_of_mem wf'.unique hs).trans hnone
  have other : ∀ a, a ≠ s.addr → k'.accepted a = k.accepted a := fun a ha => by
    refine Kernel.accepted_congr wf.unique wf'.unique (fun t hta => ?_) (htaken a)
    rw [hstreams, List.mem_cons]
    refine ⟨fun hmem => ?_, Or.inr⟩
    obtain rfl | hmem := hmem
    · exact absurd hta.symm ha
    · exact hmem
  have hsync : Synced (peer s.addr) [] s.ackSeq :=
    Or.inl (hseq.trans (BitVec.add_zero _).symm)
  refine ⟨fun t ht => ?_, fun a => ?_, fun a hdr' payload he => ?_, fun e he => ?_, fun t ht => ?_⟩
  · rw [hstreams] at ht
    obtain rfl | ht := List.mem_cons.mp ht
    · rw [hnone]
      exact hsync
    · rw [Stream.accepted, htaken]
      exact d.synced t ht
  · by_cases ha : a = s.addr
    · rw [ha, hhere]
      exact List.nil_prefix
    · rw [other a ha]
      exact d.fits a
  · rw [hlog] at he
    obtain hold | hnew := List.mem_append.mp he
    · rw [other a (hfresh _ hold)]
      exact d.covered a hdr' payload hold
    · cases List.mem_singleton.mp hnew
      rw [hhere, hack]
      exact hsync.covered
  · rw [hlog] at he
    obtain hold | hnew := List.mem_append.mp he
    · exact (d.logged e hold).trans_le hnext
    · cases List.mem_singleton.mp hnew
      exact wf'.below s hs
  · have hchunks : chunks t.addr k'.log = chunks t.addr k.log := by
      rw [hlog, chunks_append]
      exact List.append_nil _
    rw [hchunks, htaken]
    rw [hstreams] at ht
    obtain rfl | ht := List.mem_cons.mp ht
    · rw [(taken_eq_nil hfresh).1, (taken_eq_nil hfresh).2]
    · exact d.unfreed t ht

theorem Opened.delivery (h : Opened g k k') (wf : k.Wf) (d : Delivery peer k)
    (hisn : g.opens k = true → ntol g.hdr.sequence = (peer (newAddr k)).isn) :
    Delivery peer k' := by
  have wf' := h.wf wf
  cases h with
  | kept n _ same => exact d.congr rfl rfl same.next
  | opened l junk n hsyn hl hlt same =>
      exact d.opened wf wf' rfl rfl rfl rfl
        (congrArg (· + 1) (hisn (Segment.opens_of_listener hsyn hl))) rfl same.next

theorem Delivery.segment (d : Delivery peer k) (wf : k.Wf)
    (h : tcpSegment g.dev g.data g.sz g.srcIp k = .ok k')
    (opened : g.opens k = true → ntol g.hdr.sequence = (peer (newAddr k)).isn ∧ g.len = 0 ∧
      (g.has TcpFlag.fin = true → (peer (newAddr k)).sent = []))
    (found : g.opens k = false → ∀ s, g.find k.allStreams = some s →
      InOrderFor (peer s.addr) g s (s.accepted k.log)) : Delivery peer k' := by
  have wf' := wf.segment h
  obtain ⟨k₁, hopened, hrest⟩ := tcpSegment_cases h
  have wf₁ := hopened.wf wf
  have d₁ := hopened.delivery wf d fun hopens => (opened hopens).1
  obtain ⟨_, n, same, rfl⟩ | ⟨s, hs, hserved⟩ := hrest
  · exact d₁.congr rfl rfl same.next
  · have hmem : s ∈ k₁.allStreams := List.mem_of_find?_eq_some hs
    have hfits : s.accepted k₁.log <+: (peer s.addr).sent :=
      Kernel.accepted_of_mem wf₁.unique hmem ▸ d₁.fits s.addr
    have order : InOrderFor (peer s.addr) g s (s.accepted k₁.log) := by
      cases hopened with
      | kept n hopens _ => exact found hopens s hs
      | opened l junk n hsyn hl _ _ =>
          obtain ⟨_, hlen, hfin⟩ := opened (Segment.opens_of_listener hsyn hl)
          cases (find_opened g _ _ _ _).symm.trans hs
          have hnot : ∀ s : Stream σ, ¬copies s g.len := fun s hcopies => hcopies.1 hlen
          refine ⟨fun hcopies => absurd hcopies (hnot _), fun hflag => ?_⟩
          have hsent := hfin hflag
          rw [if_neg (hnot _), List.append_nil]
          exact (List.prefix_nil.mp (hsent ▸ hfits)).trans hsent.symm
    obtain ⟨_, _, hprogress⟩ := hserved.progress (d₁.synced s hmem) hfits order
    exact d₁.progress wf₁ wf' hmem hserved.frame.2.1 hprogress

theorem Delivery.step (d : Delivery peer k) (wf : k.Wf) (order : InOrder peer k op)
    (h : kernelStep k op = .ok k') : Delivery peer k' := by
  have wf' := wf.step h
  obtain ⟨g, n, hop, hnext, h⟩ | ⟨_, n, app, ports, listeners, hnext, rfl⟩ |
    ⟨_, s, c, n, _, hs, same, rfl⟩ := kernelStep_cases h
  · obtain ⟨opened, found⟩ := order g hop
    have dn : Delivery peer { k with net := n } := d.congr rfl rfl hnext.ge
    refine dn.segment ⟨wf.unique, fun s hs => (wf.below s hs).trans_le hnext.ge⟩ h ?_ found
    rw [newAddr_net hnext]
    exact opened
  · exact d.congr rfl rfl hnext
  · have hsync := d.synced s hs
    obtain ⟨htaken, hchunks⟩ := taken_callEvents s [c] s.addr
    have hsame : (s.afterCall c).accepted (k.log ++ s.callEvents [c]) = s.accepted k.log := by
      have hbuffered : (s.afterCall c).buffered = s.buffered := by cases c <;> rfl
      rw [Stream.accepted, (s.afterCall_sameConn c).addr, taken_append, htaken, List.append_nil,
        hbuffered, Stream.accepted]
    have hfits := Kernel.accepted_of_mem wf.unique hs ▸ d.fits s.addr
    refine d.progress wf wf' hs same.next ⟨List.prefix_rfl, hfits, rfl, fun e he => ?_,
      fun a hdr payload he => ?_, Or.inl ⟨s.afterCall c, (s.afterCall_sameConn c).addr, rfl, hsame,
        ?_, hchunks.trans htaken.symm⟩⟩
    · obtain ⟨_, _, rfl, _⟩ := s.callEvents_segment [c] e he
      rfl
    · obtain ⟨_, _, heq, hack⟩ := s.callEvents_segment [c] _ he
      cases heq
      exact hack ▸ hsync.covered
    · cases c <;> exact hsync

end

/-! ## Runs -/

/-- The second byte of the stream 65, 66 arrives first and is accepted. -/
theorem out_of_order_accepted : ∃ k : Kernel Unit,
    Transition.exec kernelStep (.boot (fun _ _ => 0) ())
      [.tcpListen 80 fun app => (app, fun app _ _ _ => (app, [])),
        .segment (peerSegment TcpFlag.syn 5 1 0 []),
        .segment (peerSegment TcpFlag.ack 5 3 2 [66])] = .ok k ∧
      ∃ s ∈ k.allStreams, chunks s.addr k.log ++ s.buffered = [66] ∧ s.ackSeq = 4 ∧
        ¬chunks s.addr k.log ++ s.buffered <+: [65, 66] := by
  have hrun : Transition.check kernelStep (fun _ _ => True)
      (fun k => k.allStreams.any fun s =>
        decide (chunks s.addr k.log ++ s.buffered = [66] ∧ s.ackSeq = 4 ∧
          ¬chunks s.addr k.log ++ s.buffered <+: [65, 66]))
      (Kernel.boot (fun _ _ => 0) ())
      [.tcpListen 80 fun app => (app, fun app _ _ _ => (app, [])),
        .segment (peerSegment TcpFlag.syn 5 1 0 []),
        .segment (peerSegment TcpFlag.ack 5 3 2 [66])] = true := by
    decide +kernel
  obtain ⟨k, run, hany⟩ := Transition.Run.of_check hrun
  obtain ⟨s, hs, hcheck⟩ := List.any_eq_true.mp hany
  exact ⟨k, run.exec_eq, s, hs, of_decide_eq_true hcheck⟩

/-- Along a run that is in order, the chunks handed to the read function of a stream and
the bytes in its buffer are a prefix of what its peer sends, and no acknowledgement covers
a byte that is not among them; of a stream that was freed the bytes that were left count
as well. -/
theorem in_order_delivery (peer : Nat → Peer) (junk : Nat → ByteMem) (app : σ)
    (ops : List (KernelOp σ)) (k : Kernel σ)
    (run : Transition.Run kernelStep (InOrder peer) (.boot junk app) ops k) :
    (∀ s ∈ k.allStreams, chunks s.addr k.log ++ s.buffered <+: (peer s.addr).sent ∧
      ∀ hdr payload, .segment s.addr hdr payload ∈ k.log →
        Covered (peer s.addr) (chunks s.addr k.log ++ s.buffered) hdr.ack) ∧
    ∀ a, k.accepted a <+: (peer a).sent ∧
      ∀ hdr payload, .segment a hdr payload ∈ k.log → Covered (peer a) (k.accepted a) hdr.ack := by
  obtain ⟨wf, d⟩ := run.invariant (I := fun k => k.Wf ∧ Delivery peer k)
    (fun _ _ _ h order hstep => ⟨h.1.step hstep, h.2.step h.1 order hstep⟩)
    ⟨boot_wf junk app, fun _ hs => (nomatch hs), fun _ => List.nil_prefix,
      fun _ _ _ he => (nomatch he), fun _ he => (nomatch he), fun _ hs => nomatch hs⟩
  refine ⟨fun s hs => ?_, fun a => ⟨d.fits a, d.covered a⟩⟩
  have haccepted : chunks s.addr k.log ++ s.buffered = k.accepted s.addr := by
    rw [d.unfreed s hs, Kernel.accepted_of_mem wf.unique hs, Stream.accepted]
  rw [haccepted]
  exact ⟨d.fits s.addr, d.covered s.addr⟩

theorem in_order_delivery_run : ∃ k : Kernel Unit,
    Transition.Run kernelStep (InOrder fun _ => ⟨1, [65, 66, 67]⟩) (.boot (fun _ _ => 0) ())
      [.tcpListen 80 fun app => (app, fun app _ _ _ => (app, [])),
        .segment (peerSegment TcpFlag.syn 5 1 0 []),
        .segment (peerSegment (TcpFlag.ack ||| TcpFlag.psh) 5 2 2 [65, 66]),
        .segment (peerSegment TcpFlag.ack 5 4 2 [67])] k ∧
      ∃ s ∈ k.allStreams, chunks s.addr k.log = [65, 66] ∧ s.buffered = [67] ∧
        chunks s.addr k.log ++ s.buffered <+: [65, 66, 67] := by
  have hrun : Transition.check kernelStep (InOrder fun _ => ⟨1, [65, 66, 67]⟩)
      (fun k => k.allStreams.any fun s =>
        decide (chunks s.addr k.log = [65, 66] ∧ s.buffered = [67]))
      (Kernel.boot (fun _ _ => 0) ())
      [.tcpListen 80 fun app => (app, fun app _ _ _ => (app, [])),
        .segment (peerSegment TcpFlag.syn 5 1 0 []),
        .segment (peerSegment (TcpFlag.ack ||| TcpFlag.psh) 5 2 2 [65, 66]),
        .segment (peerSegment TcpFlag.ack 5 4 2 [67])] = true := by
    decide +kernel
  obtain ⟨k, run, hany⟩ := Transition.Run.of_check hrun
  obtain ⟨s, hs, hcheck⟩ := List.any_eq_true.mp hany
  obtain ⟨hchunks, hbuffered⟩ := of_decide_eq_true hcheck
  exact ⟨k, run, s, hs, hchunks, hbuffered, ((in_order_delivery _ _ () _ k run).1 s hs).1⟩

end BadOs
