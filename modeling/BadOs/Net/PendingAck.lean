import BadOs.Data.Highest
import BadOs.Net.Acknowledgement

/-!
# The acknowledgement record

`pendingAck` is to be the greatest number that a stream had acknowledged, from the sequence number
of its `SYN-ACK` on. `connected` does not set it, and `acked` compares it with the number as it
stands in the header, in network byte order.
-/

namespace BadOs

variable {σ : Type}

/-! ## What was received -/

/-- The acknowledgement numbers that a step has for the stream at an address, in host order. -/
def KernelOp.acks (op : KernelOp σ) (k : Kernel σ) (addr : Nat) : List (BitVec 32) :=
  (op.serving k).elim [] fun x =>
    if x.2.1.addr = addr ∧ x.1.has TcpFlag.ack = true then [ntol x.1.hdr.ack] else []

/-- The kernel, and for each address the acknowledgement numbers that came for the stream
there. -/
structure AckHistory (σ : Type) where
  kernel : Kernel σ
  acks : Nat → List (BitVec 32)

namespace AckHistory

def boot (junk : Nat → ByteMem) (app : σ) : AckHistory σ := ⟨.boot junk app, fun _ => []⟩

/-- A step of the kernel, with the numbers noted down. -/
def step (o : AckHistory σ) (op : KernelOp σ) : Except Trap (AckHistory σ) := do
  let k ← kernelStep o.kernel op
  return ⟨k, fun addr => o.acks addr ++ op.acks o.kernel addr⟩

end AckHistory

/-- The greatest of the numbers is in the record, or the initial sequence number. -/
def Stream.Greatest (s : Stream σ) (acks : List (BitVec 32)) : Prop :=
  IsGreatest {a | a ∈ 1 :: acks} s.pendingAck

/-- All streams have the greatest number that came for them. -/
def TrackedBy (acks : Nat → List (BitVec 32)) (streams : List (Stream σ)) : Prop :=
  ∀ s ∈ streams, s.Greatest (acks s.addr)

/-- The record is right all the time while a step is carried out: when `connected` is done, after
the assignment in `acked` and when the step returns, and it has not moved backwards. -/
structure Records (o : AckHistory σ) (op : KernelOp σ) : Prop where
  connected : ∀ g s k₁, op.serving o.kernel = some (g, s, k₁) → TrackedBy o.acks k₁.allStreams
  acked : ∀ g s k₁, op.serving o.kernel = some (g, s, k₁) →
    (g.acknowledge s).Greatest (o.acks s.addr ++ op.acks o.kernel s.addr)
  returned : ∀ o', o.step op = .ok o' → TrackedBy o'.acks o'.kernel.allStreams
  forward : ∀ o', o.step op = .ok o' → ∀ s ∈ o.kernel.allStreams, ∀ s' ∈ o'.kernel.allStreams,
    s'.addr = s.addr → s.pendingAck ≤ s'.pendingAck

/-- The number in the header has the same effect on the record in both byte orders. -/
def OrderFree (pendingAck ack : BitVec 32) : Prop :=
  ntol ack = ack ∨ ack ≤ pendingAck ∧ ntol ack ≤ pendingAck

instance (pendingAck ack : BitVec 32) : Decidable (OrderFree pendingAck ack) :=
  inferInstanceAs (Decidable (_ ∨ _))

/-- A new stream gets memory that has the initial sequence number where `pendingAck` will be, and
for the number in a segment with `Ack` the byte order does not matter. -/
def AckSafe (k : Kernel σ) (op : KernelOp σ) : Prop :=
  ∀ x ∈ op.serving k,
    (x.1.opens k = true → (k.net.junk (newAddr k)).read 32 4 = (1 : BitVec 32)) ∧
      (x.1.has TcpFlag.ack = true → OrderFree x.2.1.pendingAck x.1.hdr.ack)

instance (k : Kernel σ) (op : KernelOp σ) : Decidable (AckSafe k op) :=
  inferInstanceAs (Decidable (∀ x ∈ op.serving k, _))

/-! ## One stream -/

section

variable {k k₁ k' : Kernel σ} {g : Segment} {s t : Stream σ} {op : KernelOp σ}
  {l : List (BitVec 32)} {a : BitVec 32}

theorem KernelOp.acks_of_serving (h : op.serving k = some (g, s, k₁)) (addr : Nat) :
    op.acks k addr =
      if s.addr = addr ∧ g.has TcpFlag.ack = true then [ntol g.hdr.ack] else [] := by
  rw [KernelOp.acks, h]
  rfl

theorem KernelOp.acks_of_none (h : op.serving k = none) (addr : Nat) : op.acks k addr = [] := by
  rw [KernelOp.acks, h]
  rfl

theorem acknowledge_of_ack (h : g.has TcpFlag.ack = true) :
    (g.acknowledge s).pendingAck = Highest.raise s.pendingAck g.hdr.ack := by
  rw [Segment.acknowledge, if_pos h]
  rfl

theorem acknowledge_of_not_ack (h : ¬g.has TcpFlag.ack = true) : g.acknowledge s = s := if_neg h

theorem le_acknowledge (g : Segment) (s : Stream σ) :
    s.pendingAck ≤ (g.acknowledge s).pendingAck := by
  by_cases h : g.has TcpFlag.ack = true
  · rw [acknowledge_of_ack h]
    exact Highest.le_raise_left _ _
  · rw [acknowledge_of_not_ack h]
    exact BitVec.le_refl _

/-- The record of a stream that received nothing is the initial sequence number. -/
theorem Stream.greatest_nil : s.Greatest [] ↔ s.pendingAck = 1 := by
  have hset : {a : BitVec 32 | a ∈ [1]} = {1} := Set.ext fun _ => List.mem_singleton
  rw [Stream.Greatest, hset, Highest.isGreatest_singleton_iff]

theorem Stream.Greatest.congr (h : s.Greatest l) (hpending : s.pendingAck = t.pendingAck) :
    t.Greatest l := by
  rw [Stream.Greatest, ← hpending]
  exact h

/-- What `acked` has to do. -/
theorem Stream.Greatest.concat_iff (h : s.Greatest l) :
    t.Greatest (l ++ [a]) ↔ t.pendingAck = Highest.raise s.pendingAck a := by
  have hset : {x | x ∈ 1 :: (l ++ [a])} = insert a {x | x ∈ 1 :: l} := by
    ext x
    simp only [List.mem_cons, List.mem_append, Set.mem_ofPred_eq, Set.mem_insert_iff]
    tauto
  rw [Stream.Greatest, hset]
  exact Highest.isGreatest_insert_iff h

/-- `acked` keeps the record right exactly if the byte order does not matter. -/
theorem Stream.Greatest.acknowledge_iff (h : s.Greatest l) :
    (g.acknowledge s).Greatest
        (l ++ if g.has TcpFlag.ack = true then [ntol g.hdr.ack] else []) ↔
      (g.has TcpFlag.ack = true → OrderFree s.pendingAck g.hdr.ack) := by
  by_cases hack : g.has TcpFlag.ack = true
  · rw [if_pos hack, h.concat_iff, acknowledge_of_ack hack, Highest.raise_eq_raise_iff,
      forall_prop_of_true hack, OrderFree, eq_comm]
  · rw [if_neg hack, List.append_nil, acknowledge_of_not_ack hack]
    exact iff_of_true h fun hack' => absurd hack' hack

/-! ## One step -/

theorem registerDevice_junk (dev : NetDevice) (n : Net) :
    (registerDevice dev n).Post fun n' => n'.junk = n.junk := .bind_any fun _ => .ok rfl

/-- The kernel that a segment reaches has the same streams and the same memory. -/
theorem received_frame {k₀ : Kernel σ} (h : op.received k = .ok k₀) :
    k₀.allStreams = k.allStreams ∧ g.opens k₀ = g.opens k ∧ newAddr k₀ = newAddr k ∧
      k₀.net.junk = k.net.junk := by
  cases op with
  | frame dev m =>
      obtain ⟨n, hn, hk₀⟩ := Except.bind_eq_ok.mp h
      cases hk₀
      exact ⟨rfl, rfl, newAddr_net (registerDevice_next dev k.net n hn),
        registerDevice_junk dev k.net n hn⟩
  | _ =>
      cases h
      exact ⟨rfl, rfl, rfl, rfl⟩

/-- The new record has what was in its memory. -/
theorem syn_pendingAck (dev : NetDevice) (hdr : TcpHdr) (srcIp : BitVec 32)
    (hl : (k.allListeners.find? fun l => l.port == ntos hdr.destPort).isSome = true) :
    (syn dev hdr srcIp k).Post fun k' => ∃ s, k'.allStreams = s :: k.allStreams ∧
      s.addr = newAddr k ∧ s.pendingAck = (k.net.junk (newAddr k)).read 32 4 := by
  obtain ⟨l, hl⟩ := Option.isSome_iff_exists.mp hl
  rw [syn, hl]
  refine .bind (.and (ipSbuffAlloc_sameTables k.net _) (ipSbuffAlloc_next k.net _)) ?_
  rintro ⟨sb, n⟩ ⟨same, hnext : n.next = newAddr k⟩
  refine .bind_any fun n₁ => .ok ⟨_, rfl, hnext, ?_⟩
  rw [← same.junk, ← hnext]
  rfl

/-- The streams when a segment is served: those that were there, and a new one. -/
theorem serving_streams (h : op.serving k = some (g, s, k₁)) :
    s ∈ k₁.allStreams ∧
      ((g.opens k = false ∧ k₁.allStreams = k.allStreams) ∨
        g.opens k = true ∧ ∃ t, k₁.allStreams = t :: k.allStreams ∧ t.addr = newAddr k ∧
          t.pendingAck = (k.net.junk (newAddr k)).read 32 4) := by
  obtain ⟨_, k₀, hk₀, hphase, hfind⟩ := serving_eq_some.mp h
  refine ⟨List.mem_of_find?_eq_some hfind, ?_⟩
  obtain ⟨hstreams, hopens, haddr, hjunk⟩ := received_frame (g := g) hk₀
  rw [← hstreams, ← hopens, ← haddr, ← hjunk]
  cases hopen : g.opens k₀ with
  | false =>
      cases opened_of_eq hphase with
      | kept n _ _ => exact .inl ⟨rfl, rfl⟩
      | opened l junk n hsyn hl _ _ =>
          cases hopen.symm.trans (Segment.opens_of_listener hsyn hl)
  | true =>
      obtain ⟨hsyn, hl⟩ := Bool.and_eq_true_iff.mp hopen
      rw [Segment.synPhase, if_pos hsyn] at hphase
      exact .inr ⟨rfl, syn_pendingAck g.dev g.hdr g.srcIp hl k₁ hphase⟩

theorem Pushed.pendingAck {psh : Bool} (h : Pushed psh s k t k₁) :
    t.pendingAck = s.pendingAck := by
  cases h with
  | skipped _ => rfl
  | read n calls _ _ _ => exact (s.afterCalls_frame calls).2.2.1

/-- Only `acked` changes the record. -/
theorem Kept.pendingAck (h : Kept g s k t) : t.pendingAck = (g.acknowledge s).pendingAck := by
  have hreceive : (g.receive s).pendingAck = (g.acknowledge s).pendingAck := by
    unfold Segment.receive
    split <;> rfl
  cases h with
  | same _ hpushed _ => exact hpushed.pendingAck.trans hreceive
  | last _ hpushed _ ht =>
      rw [ht, ← hreceive]
      exact hpushed.pendingAck

/-- The streams after one was served: the others, and the record that was stored back. -/
theorem Served.mem_cases (h : Served g s k k') (unique : Keyed.Unique Stream.addr k.allStreams) :
    ∀ t ∈ k'.allStreams, (t ∈ k.allStreams ∧ t.addr ≠ s.addr) ∨ t.addr = s.addr ∧ Kept g s k t := by
  intro t ht
  obtain ⟨_, _, ⟨s', hconn, hkept, hstreams⟩ | ⟨_, hstreams⟩⟩ := h.frame
  · rw [hstreams] at ht
    obtain ⟨ht, hne⟩ | ⟨rfl, _⟩ := Keyed.mem_replace.mp ht
    · rw [hconn.addr] at hne
      exact .inl ⟨ht, hne⟩
    · exact .inr ⟨hconn.addr, hkept⟩
  · rw [hstreams] at ht
    exact .inl (unique.mem_erase.mp ht)

/-- A step without a segment for a stream leaves the records alone. -/
theorem unserved_pendingAck (heap : k.HeapSound) (hnone : op.serving k = none)
    (hstep : kernelStep k op = .ok k') :
    ∀ t ∈ k'.allStreams, ∃ s ∈ k.allStreams, s.addr = t.addr ∧ s.pendingAck = t.pendingAck := by
  obtain ⟨g, _, hop, _, _⟩ | ⟨_, n, app, ports, listeners, _, rfl⟩ |
    ⟨_, s, c, n, _, hs, _, rfl⟩ := kernelStep_cases hstep
  · obtain ⟨k₀, hk₀, hsegment, _, hstreams⟩ := heap.step_received hop
    rw [hsegment] at hstep
    obtain ⟨k₁, hphase, hrest⟩ := Except.bind_eq_ok.mp hstep
    split at hrest
    · next hfind =>
      obtain ⟨n, _, rfl⟩ := resetStream_post _ _ _ k₁ _ hrest
      cases opened_of_eq hphase with
      | kept n _ _ => exact fun t ht => ⟨t, hstreams ▸ ht, rfl, rfl⟩
      | opened l junk n _ _ _ _ => cases (find_opened g _ _ _ _).symm.trans hfind
    · next s hfind =>
      cases hnone.symm.trans (serving_eq_some.mpr ⟨hop, k₀, hk₀, hphase, hfind⟩)
  · exact fun t ht => ⟨t, ht, rfl, rfl⟩
  · intro t ht
    obtain ⟨ht, _⟩ | ⟨rfl, _⟩ := Keyed.mem_replace.mp ht
    · exact ⟨t, ht, rfl, rfl⟩
    · exact ⟨s, hs, (s.afterCall_sameConn c).addr.symm, by cases c <;> rfl⟩

theorem served_of_serving (heap : k.HeapSound) (h : op.serving k = some (g, s, k₁))
    (hstep : kernelStep k op = .ok k') : k₁.Wf ∧ Served g s k₁ k' := by
  obtain ⟨hop, k₀, hk₀, hserves⟩ := serving_eq_some.mp h
  obtain ⟨_, hk₀', hsegment, heap₀, _⟩ := heap.step_received hop
  cases hk₀.symm.trans hk₀'
  rw [hsegment, tcpSegment_of_serves hserves] at hstep
  exact ⟨(opened_of_eq hserves.1).wf heap₀.wf, serve_served hstep⟩

end

namespace AckHistory

variable {o o' : AckHistory σ} {op : KernelOp σ} {k' k₁ : Kernel σ} {g : Segment}
  {s s₁ : Stream σ}

/-- The records are right between two steps, and nothing is noted down for streams to come. -/
structure Sound (o : AckHistory σ) : Prop where
  heap : o.kernel.HeapSound
  fresh : ∀ addr, o.kernel.net.next ≤ addr → o.acks addr = []
  tracked : TrackedBy o.acks o.kernel.allStreams

namespace Sound

/-- `connected` leaves the records right exactly if the memory of a new one is. -/
theorem connected_iff (h : o.Sound) (hserving : op.serving o.kernel = some (g, s, k₁)) :
    TrackedBy o.acks k₁.allStreams ↔ (g.opens o.kernel = true →
      (o.kernel.net.junk (newAddr o.kernel)).read 32 4 = (1 : BitVec 32)) := by
  obtain ⟨_, ⟨hopens, hstreams⟩ | ⟨hopens, t, hstreams, haddr, hpending⟩⟩ :=
    serving_streams hserving
  · rw [hstreams]
    exact iff_of_true h.tracked fun hopens' => nomatch hopens.symm.trans hopens'
  · have hnil : o.acks t.addr = [] := by
      apply h.fresh
      rw [haddr]
      exact Nat.le_succ _
    rw [hstreams, forall_prop_of_true hopens, ← hpending, ← Stream.greatest_nil, ← hnil]
    constructor
    · exact fun htracked => htracked t List.mem_cons_self
    · exact fun ht => List.forall_mem_cons.mpr ⟨ht, h.tracked⟩

/-- The stream that has the address of one that was there before is that one. -/
theorem eq_of_addr {s t : Stream σ} (h : o.Sound)
    (hserving : op.serving o.kernel = some (g, s₁, k₁)) (ht : t ∈ k₁.allStreams)
    (hs : s ∈ o.kernel.allStreams) (haddr : t.addr = s.addr) : t = s := by
  obtain ⟨_, ⟨_, hstreams⟩ | ⟨_, new, hstreams, hnew, _⟩⟩ := serving_streams hserving
  · rw [hstreams] at ht
    exact h.heap.wf.unique.eq_of_key_eq ht hs haddr
  · rw [hstreams] at ht
    obtain rfl | ht := List.mem_cons.mp ht
    · have hbelow := h.heap.wf.below s hs
      rw [← haddr, hnew] at hbelow
      exact absurd hbelow (Nat.not_lt.mpr (Nat.le_succ _))
    · exact h.heap.wf.unique.eq_of_key_eq ht hs haddr

/-- The records when the step returns are those that `connected` and `acked` left. -/
theorem returned (h : o.Sound)
    (connected : ∀ g s k₁, op.serving o.kernel = some (g, s, k₁) → TrackedBy o.acks k₁.allStreams)
    (acked : ∀ g s k₁, op.serving o.kernel = some (g, s, k₁) →
      (g.acknowledge s).Greatest (o.acks s.addr ++ op.acks o.kernel s.addr))
    (hstep : o.step op = .ok o') : TrackedBy o'.acks o'.kernel.allStreams := by
  obtain ⟨k', hk', ho'⟩ := Except.bind_eq_ok.mp hstep
  cases ho'
  intro t ht
  show t.Greatest (o.acks t.addr ++ op.acks o.kernel t.addr)
  cases hserving : op.serving o.kernel with
  | none =>
      obtain ⟨s, hs, haddr, hpending⟩ := unserved_pendingAck h.heap hserving hk' t ht
      rw [KernelOp.acks_of_none hserving, List.append_nil, ← haddr]
      exact (h.tracked s hs).congr hpending
  | some x =>
      obtain ⟨g, s, k₁⟩ := x
      obtain ⟨wf, hserved⟩ := served_of_serving h.heap hserving hk'
      obtain ⟨ht, hne⟩ | ⟨haddr, hkept⟩ := hserved.mem_cases wf.unique t ht
      · rw [KernelOp.acks_of_serving hserving, if_neg fun hsame => hne hsame.1.symm,
          List.append_nil]
        exact connected g s k₁ hserving t ht
      · rw [haddr]
        exact (acked g s k₁ hserving).congr hkept.pendingAck.symm

/-- No record moves backwards, whatever the numbers are. -/
theorem forward (h : o.Sound) (hstep : o.step op = .ok o') :
    ∀ s ∈ o.kernel.allStreams, ∀ s' ∈ o'.kernel.allStreams, s'.addr = s.addr →
      s.pendingAck ≤ s'.pendingAck := by
  obtain ⟨k', hk', ho'⟩ := Except.bind_eq_ok.mp hstep
  cases ho'
  intro s hs s' hs' haddr
  cases hserving : op.serving o.kernel with
  | none =>
      obtain ⟨t, ht, haddr', hpending⟩ := unserved_pendingAck h.heap hserving hk' s' hs'
      obtain rfl := h.heap.wf.unique.eq_of_key_eq ht hs (haddr'.trans haddr)
      rw [hpending]
      exact BitVec.le_refl _
  | some x =>
      obtain ⟨g, t, k₁⟩ := x
      obtain ⟨wf, hserved⟩ := served_of_serving h.heap hserving hk'
      obtain ⟨hs', _⟩ | ⟨haddr', hkept⟩ := hserved.mem_cases wf.unique s' hs'
      · rw [h.eq_of_addr hserving hs' hs haddr]
        exact BitVec.le_refl _
      · have ht := (serving_streams hserving).1
        obtain rfl := h.eq_of_addr hserving ht hs (haddr'.symm.trans haddr)
        rw [hkept.pendingAck]
        exact le_acknowledge g t

theorem records_iff (h : o.Sound) : Records o op ↔ AckSafe o.kernel op := by
  have hacked : ∀ {g s k₁}, op.serving o.kernel = some (g, s, k₁) →
      TrackedBy o.acks k₁.allStreams →
      ((g.acknowledge s).Greatest (o.acks s.addr ++ op.acks o.kernel s.addr) ↔
        (g.has TcpFlag.ack = true → OrderFree s.pendingAck g.hdr.ack)) := by
    intro g s k₁ hserving htracked
    rw [← (htracked s (serving_streams hserving).1).acknowledge_iff,
      KernelOp.acks_of_serving hserving, if_congr (and_iff_right rfl) rfl rfl]
  constructor
  · rintro hrecords ⟨g, s, k₁⟩ hserving
    have htracked := hrecords.connected g s k₁ hserving
    exact ⟨(h.connected_iff hserving).mp htracked,
      (hacked hserving htracked).mp (hrecords.acked g s k₁ hserving)⟩
  · intro hsafe
    have connected : ∀ g s k₁, op.serving o.kernel = some (g, s, k₁) →
        TrackedBy o.acks k₁.allStreams := fun g s k₁ hserving =>
      (h.connected_iff hserving).mpr (hsafe (g, s, k₁) hserving).1
    have acked : ∀ g s k₁, op.serving o.kernel = some (g, s, k₁) →
        (g.acknowledge s).Greatest (o.acks s.addr ++ op.acks o.kernel s.addr) :=
      fun g s k₁ hserving =>
        (hacked hserving (connected g s k₁ hserving)).mpr (hsafe (g, s, k₁) hserving).2
    exact ⟨connected, acked, fun o' hstep => h.returned connected acked hstep,
      fun o' hstep => h.forward hstep⟩

theorem step (h : o.Sound) (hrecords : Records o op) (hstep : o.step op = .ok o') : o'.Sound := by
  have htracked := hrecords.returned o' hstep
  obtain ⟨k', hk', ho'⟩ := Except.bind_eq_ok.mp hstep
  cases ho'
  have hnext := kernelStep_next hk'
  refine ⟨h.heap.step op k' hk', ?_, htracked⟩
  intro addr haddr
  show o.acks addr ++ op.acks o.kernel addr = []
  rw [h.fresh addr (hnext.trans haddr), List.nil_append]
  cases hserving : op.serving o.kernel with
  | none => exact KernelOp.acks_of_none hserving addr
  | some x =>
      obtain ⟨g, s, k₁⟩ := x
      obtain ⟨wf, hserved⟩ := served_of_serving h.heap hserving hk'
      have hbelow := wf.below s (serving_streams hserving).1
      have hlt : s.addr < addr := (hbelow.trans_le hserved.frame.2.1).trans_le haddr
      rw [KernelOp.acks_of_serving hserving, if_neg fun hsame => hlt.ne hsame.1]

end Sound

theorem boot_sound (junk : Nat → ByteMem) (app : σ) : (boot junk app).Sound :=
  ⟨boot_heapSound junk app, fun _ _ => rfl, fun _ hs => nomatch hs⟩

/-! ## Runs -/

/-- Noting down the numbers does not change a run of the kernel. -/
theorem exec_iff {k k' : Kernel σ} {acks : Nat → List (BitVec 32)} {ops : List (KernelOp σ)} :
    Transition.exec kernelStep k ops = .ok k' ↔
      ∃ acks', Transition.exec step ⟨k, acks⟩ ops = .ok ⟨k', acks'⟩ := by
  induction ops generalizing k acks with
  | nil =>
      constructor
      · intro h
        cases h
        exact ⟨acks, rfl⟩
      · rintro ⟨_, h⟩
        cases h
        rfl
  | cons op ops ih =>
      constructor
      · intro h
        obtain ⟨k₁, hstep, hrest⟩ := Except.bind_eq_ok.mp h
        obtain ⟨acks', hrest⟩ := ih.mp hrest
        exact ⟨acks', Except.bind_eq_ok.mpr ⟨_, Except.bind_eq_ok.mpr ⟨k₁, hstep, rfl⟩, hrest⟩⟩
      · rintro ⟨acks', h⟩
        obtain ⟨o₁, hstep, hrest⟩ := Except.bind_eq_ok.mp h
        obtain ⟨k₁, hk₁, ho₁⟩ := Except.bind_eq_ok.mp hstep
        cases ho₁
        exact Except.bind_eq_ok.mpr ⟨k₁, hk₁, ih.mpr ⟨acks', hrest⟩⟩

/-- The runs whose steps meet a condition on the kernel. -/
theorem run_iff {guard : Kernel σ → KernelOp σ → Prop} {ops : List (KernelOp σ)}
    (h : Transition.exec step o ops = .ok o') :
    Transition.Run step (fun o => guard o.kernel) o ops o' ↔
      Transition.Run kernelStep guard o.kernel ops o'.kernel := by
  induction ops generalizing o with
  | nil =>
      cases h
      exact iff_of_true (.nil _) (.nil _)
  | cons op ops ih =>
      obtain ⟨o₁, hstep, hrest⟩ := Except.bind_eq_ok.mp h
      obtain ⟨k₁, hk₁, ho₁⟩ := Except.bind_eq_ok.mp hstep
      constructor
      · intro run
        cases run with
        | cons allowed hstep' run =>
            cases hstep.symm.trans hstep'
            cases ho₁
            exact .cons allowed hk₁ ((ih hrest).mp run)
      · intro run
        cases run with
        | cons allowed hk₁' run =>
            cases hk₁.symm.trans hk₁'
            cases ho₁
            exact .cons allowed hstep ((ih hrest).mpr run)

theorem run_tracked {junk : Nat → ByteMem} {app : σ} {ops : List (KernelOp σ)}
    (run : Transition.Run step Records (boot junk app) ops o) :
    TrackedBy o.acks o.kernel.allStreams := by
  refine run.invariant (I := fun o => TrackedBy o.acks o.kernel.allStreams) ?_ ?_
  · intro _ _ o' _ hrecords hstep
    exact hrecords.returned o' hstep
  · exact fun _ hs => nomatch hs

end AckHistory

/-- The peer acknowledges number 2, and the record is 0x02000000. -/
theorem pending_ack_wire_order : ¬∀ (junk : Nat → ByteMem) (app : Unit)
    (ops : List (KernelOp Unit)) (o : AckHistory Unit),
    Transition.exec AckHistory.step (.boot junk app) ops = .ok o →
      Transition.Run AckHistory.step Records (.boot junk app) ops o := by
  intro claim
  have hrun : Transition.check AckHistory.step (fun _ _ => True)
      (fun o => o.kernel.allStreams.any fun s => decide (s.pendingAck ∉ 1 :: o.acks s.addr))
      (.boot (fun _ i => if i = 32 then 1 else 0) ())
      [.tcpListen 80 fun app => (app, fun app _ _ _ => (app, [])),
        .segment (peerSegment TcpFlag.syn 5 1 0 []),
        .segment (peerSegment TcpFlag.ack 5 2 2 [])] = true := by
    decide +kernel
  obtain ⟨o, run, hwrong⟩ := Transition.Run.of_check hrun
  obtain ⟨s, hs, hwrong⟩ := List.any_eq_true.mp hwrong
  have htracked := AckHistory.run_tracked (claim _ _ _ o run.exec_eq)
  exact of_decide_eq_true hwrong (htracked s hs).1

/-- In every run, the records are right all the time and never move backwards exactly if every
new stream gets memory with the initial sequence number in the place of `pendingAck`, and every
number in a segment with `Ack` has the same effect in both byte orders. -/
theorem pending_ack_iff (junk : Nat → ByteMem) (app : σ) (ops : List (KernelOp σ))
    (o : AckHistory σ) (run : Transition.exec AckHistory.step (.boot junk app) ops = .ok o) :
    Transition.Run AckHistory.step Records (.boot junk app) ops o ↔
      Transition.Run kernelStep AckSafe (.boot junk app) ops o.kernel := by
  have hguard : Transition.Run AckHistory.step Records (.boot junk app) ops o ↔
      Transition.Run AckHistory.step (fun o => AckSafe o.kernel) (.boot junk app) ops o := by
    apply Transition.Run.guard_iff (I := AckHistory.Sound)
    · exact AckHistory.boot_sound junk app
    · exact fun _ _ _ h hrecords hstep => h.step hrecords hstep
    · exact fun _ _ _ h _ => h.records_iff
  exact hguard.trans (AckHistory.run_iff run)

/-- A number that is the same in both byte orders, and an older one after it. -/
theorem pending_ack_palindrome : ∃ o : AckHistory Unit,
    Transition.Run AckHistory.step Records
      (.boot (fun _ i => if i = 32 then 1 else 0) ())
      [.tcpListen 80 fun app => (app, fun app _ _ _ => (app, [])),
        .segment (peerSegment TcpFlag.syn 5 1 0 []),
        .segment (peerSegment TcpFlag.ack 5 2 0x02000002 []),
        .segment (peerSegment TcpFlag.ack 5 2 1 [])] o ∧
      o.kernel.allStreams.map Stream.pendingAck = [0x02000002] := by
  have hrun : Transition.check AckHistory.step (fun o op => AckSafe o.kernel op)
      (fun o => o.kernel.allStreams.map Stream.pendingAck == [0x02000002])
      (.boot (fun _ i => if i = 32 then 1 else 0) ())
      [.tcpListen 80 fun app => (app, fun app _ _ _ => (app, [])),
        .segment (peerSegment TcpFlag.syn 5 1 0 []),
        .segment (peerSegment TcpFlag.ack 5 2 0x02000002 []),
        .segment (peerSegment TcpFlag.ack 5 2 1 [])] = true := by
    decide +kernel
  obtain ⟨o, run, hpending⟩ := Transition.Run.of_check hrun
  refine ⟨o, ?_, eq_of_beq hpending⟩
  exact (pending_ack_iff _ () _ o run.exec_eq).mpr ((AckHistory.run_iff run.exec_eq).mp run)

end BadOs
