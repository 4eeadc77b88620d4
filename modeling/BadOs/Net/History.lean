import BadOs.Net.Connections

/-!
# The history of a stream

What was logged for one stream comes about in a few ways: the segments of its peer
change the record, the application makes calls on it, and in the end it is freed. A
property of the record and its own events that all of these keep holds in every run.
-/

namespace BadOs

variable {σ : Type}

/-- The events of the stream at an address. -/
def own (addr : Nat) (log : List TcpEvent) : List TcpEvent := log.filter fun e => e.addr == addr

/-- Every call is allowed in the state that the calls before it lead to. -/
def CallsAllowed (allowed : Stream σ → AppCall → Prop) : Stream σ → List AppCall → Prop
  | _, [] => True
  | s, c :: calls => allowed s c ∧ CallsAllowed allowed (s.afterCall c) calls

/-- The calls that a read function makes on the stream are allowed, whatever is in the
memory that it allocates. -/
def Stream.ReactsWithin (allowed : Stream σ → AppCall → Prop) (s : Stream σ) (app : σ) : Prop :=
  ∀ heap, CallsAllowed allowed s (s.readFn app heap s.readBuf s.readOffset).2

/-- The calls that an application makes in a step are allowed: a call from outside, and
those of the read function when a segment with `Psh` arrives. -/
structure Allows (allowed : Stream σ → AppCall → Prop) (k : Kernel σ) (op : KernelOp σ) :
    Prop where
  call : ∀ s ∈ k.allStreams, ∀ c, op.call? = some (s.addr, c) → allowed s c
  kept : ∀ g, op.segment? = some g → g.has TcpFlag.psh = true → g.opens k = false →
    ∀ s, g.find k.allStreams = some s → (g.receive s).ReactsWithin allowed k.app
  opened : ∀ g, op.segment? = some g → g.has TcpFlag.psh = true → ∀ l, g.listener k = some l →
    ∀ junk, (g.receive (openedStream (newAddr k) junk g.dev g.hdr g.srcIp
      (l.accept k.app).2)).ReactsWithin allowed (l.accept k.app).1

/-- A property of a stream and its events that everything keeps that happens to a stream,
and one of the events of a stream that is gone. New streams have an address from `base`
on. -/
structure LogInvariant (base : Nat) (allowed : Stream σ → AppCall → Prop)
    (P : Stream σ → List TcpEvent → Prop) (D : List TcpEvent → Prop) : Prop where
  opened : ∀ addr junk dev hdr srcIp fn, base ≤ addr →
    P (openedStream addr junk dev hdr srcIp fn)
      [synAckEvent (openedStream addr junk dev hdr srcIp fn)]
  ack : ∀ s evs hdr, P s evs → s.state ≠ .lastAck → P (s.afterAck hdr) evs
  data : ∀ s evs hdr data len, P s evs → s.readOffset.toNat + len.toNat ≤ s.readMax.toNat →
    P (s.afterData hdr data len) evs
  push : ∀ s evs calls, P s evs → CallsAllowed allowed s calls →
    P (s.afterPush calls) (evs ++ .read s.addr s.buffered :: s.callEvents calls)
  call : ∀ s evs c, P s evs → allowed s c → P (s.afterCall c) (evs ++ [s.callEvent c])
  fin : ∀ s evs, P s evs → s.state = .established →
    P s.afterFin (evs ++ [s.finEvent (TcpFlag.fin ||| TcpFlag.ack)])
  acked : ∀ s evs, P s evs → s.state = .lastAck → D (evs ++ [.freed s.addr s.buffered])
  closed : ∀ s evs, P s evs → s.state = .finWait2 →
    D (evs ++ [s.finEvent TcpFlag.ack, .freed s.addr s.buffered])

/-- The property holds of all streams, with their own events. -/
structure Kernel.Keeps (P : Stream σ → List TcpEvent → Prop) (D : List TcpEvent → Prop)
    (k : Kernel σ) : Prop where
  wf : k.Wf
  bound : ∀ e ∈ k.log, e.addr < k.net.next
  streams : ∀ s ∈ k.allStreams, P s (own s.addr k.log)
  gone : ∀ a, (∀ s ∈ k.allStreams, s.addr ≠ a) → own a k.log = [] ∨ D (own a k.log)

/-! ## Own events -/

section

variable {a : Nat} {evs : List TcpEvent}

theorem own_append (a : Nat) (log evs : List TcpEvent) :
    own a (log ++ evs) = own a log ++ own a evs := List.filter_append ..

theorem own_eq_self (h : ∀ e ∈ evs, e.addr = a) : own a evs = evs :=
  List.filter_eq_self.mpr fun e he => beq_iff_eq.mpr (h e he)

theorem own_eq_nil (h : ∀ e ∈ evs, e.addr ≠ a) : own a evs = [] :=
  List.filter_eq_nil_iff.mpr fun e he heq => h e he (eq_of_beq heq)

/-- What is logged for one stream shows in its own events, and in no others. -/
theorem own_log (log : List TcpEvent) (h : ∀ e ∈ evs, e.addr = a) (b : Nat) :
    own b (log ++ evs) = if b = a then own b log ++ evs else own b log := by
  rw [own_append]
  split
  · next heq =>
    subst heq
    rw [own_eq_self h]
  · next hne =>
    rw [own_eq_nil fun e he heq => hne (heq.symm.trans (h e he)), List.append_nil]

theorem callEvents_addr (s : Stream σ) (calls : List AppCall) :
    ∀ e ∈ s.callEvents calls, e.addr = s.addr := by
  intro e he
  obtain ⟨_, _, rfl, _⟩ := s.callEvents_segment calls e he
  rfl

end

/-! ## One stream -/

/-- A stream after a step, with the events that were added: it goes on, or it is gone. -/
inductive Outcome (P : Stream σ → List TcpEvent → Prop) (D : List TcpEvent → Prop) (s : Stream σ)
    (k : Kernel σ) (k' : Kernel σ) (evs : List TcpEvent) : Prop where
  | kept (s' : Stream σ) : s.SameConn s' →
      k'.allStreams = Keyed.replace Stream.addr s' k.allStreams →
      P s' (own s.addr k.log ++ evs) → Outcome P D s k k' evs
  | gone : k'.allStreams = Keyed.erase Stream.addr s.addr k.allStreams →
      D (own s.addr k.log ++ evs) → Outcome P D s k k' evs

section

variable {P : Stream σ → List TcpEvent → Prop} {D : List TcpEvent → Prop} {base : Nat}
  {allowed : Stream σ → AppCall → Prop} {k k₁ k' : Kernel σ} {s : Stream σ} {g : Segment}
  {op : KernelOp σ} {evs : List TcpEvent}

namespace LogInvariant

theorem receive (inv : LogInvariant base allowed P D) (h : P s evs)
    (hlast : g.has TcpFlag.ack = true → s.state ≠ .lastAck)
    (room : copies s g.len → s.readOffset.toNat + g.len.toNat ≤ s.readMax.toNat) :
    P (g.receive s) evs := by
  have hack : P (g.acknowledge s) evs := by
    unfold Segment.acknowledge
    split
    · next hflag => exact inv.ack s evs _ h (hlast hflag)
    · exact h
  unfold Segment.receive
  split
  · next hcopies =>
    refine inv.data _ _ _ _ _ hack ?_
    unfold Segment.acknowledge
    split <;> exact room hcopies
  · exact hack

/-- A segment that is served for a stream adds events of this stream only. -/
theorem served (inv : LogInvariant base allowed P D) (h : P s (own s.addr k.log))
    (react : g.has TcpFlag.psh = true → (g.receive s).ReactsWithin allowed k.app)
    (hserved : Served g s k k') :
    ∃ evs, k'.log = k.log ++ evs ∧ (∀ e ∈ evs, e.addr = s.addr) ∧ Outcome P D s k k' evs := by
  cases hserved with
  | freed n _ hstate _ =>
      exact ⟨_, rfl, List.forall_mem_singleton.mpr rfl, .gone rfl (inv.acked s _ h hstate)⟩
  | @kept s₁ k₁ k₂ p hlast room hpushed hfinished =>
      have hreceived := inv.receive h hlast room
      have hconn := g.receive_sameConn s
      -- The events of the read function come first.
      obtain ⟨evs, hlog, hevs, hpushed', hconn₁, hstreams⟩ : ∃ evs, k₁.log = k.log ++ evs ∧
          (∀ e ∈ evs, e.addr = s.addr) ∧ P s₁ (own s.addr k.log ++ evs) ∧ s.SameConn s₁ ∧
            k₁.allStreams = k.allStreams := by
        cases hpushed with
        | skipped _ =>
            exact ⟨[], (List.append_nil _).symm, fun _ he => (nomatch he),
              (List.append_nil _).symm ▸ hreceived, hconn, rfl⟩
        | read n calls hpsh _ hcalls =>
            refine ⟨_, rfl, List.forall_mem_cons.mpr ⟨hconn.addr, fun e he => ?_⟩,
              inv.push _ _ calls hreceived (hcalls ▸ react hpsh _),
              hconn.trans ((g.receive s).afterPush_sameConn calls), rfl⟩
            exact (callEvents_addr _ calls e he).trans hconn.addr
      cases hfinished with
      | skipped _ =>
          refine ⟨evs, hlog, hevs, .kept s₁ hconn₁ ?_ hpushed'⟩
          simp only [Kernel.putStream, hstreams]
      | answered n _ hstate _ =>
          refine ⟨evs ++ [s₁.finEvent (TcpFlag.fin ||| TcpFlag.ack)], ?_, ?_,
            .kept s₁.afterFin (hconn₁.trans ⟨rfl, rfl, rfl, rfl, rfl, rfl, rfl, rfl⟩) ?_ ?_⟩
          · simp only [Kernel.putStream, hlog, List.append_assoc]
          · intro e he
            obtain he | he := List.mem_append.mp he
            · exact hevs e he
            · exact (List.mem_singleton.mp he) ▸ hconn₁.addr
          · simp only [Kernel.putStream, hstreams]
          · rw [← List.append_assoc]
            exact inv.fin s₁ _ hpushed' hstate
      | closed n _ hstate _ =>
          refine ⟨evs ++ [s₁.finEvent TcpFlag.ack, .freed s₁.addr s₁.buffered], ?_, ?_,
            .gone ?_ ?_⟩
          · simp only [Kernel.putStream, hlog, List.append_assoc]
          · intro e he
            obtain he | he := List.mem_append.mp he
            · exact hevs e he
            · obtain rfl | he := List.mem_cons.mp he
              · exact hconn₁.addr
              · exact (List.mem_singleton.mp he) ▸ hconn₁.addr
          · simp only [Kernel.putStream, hstreams, hconn₁.addr]
          · rw [← List.append_assoc]
            exact inv.closed s₁ _ hpushed' hstate

end LogInvariant

/-- What a push does follows from what a single call does. -/
theorem push_of_calls (read : ∀ s evs, P s evs → P s (evs ++ [.read s.addr s.buffered]))
    (call : ∀ s evs c, P s evs → allowed s c → P (s.afterCall c) (evs ++ [s.callEvent c]))
    (empty : ∀ s evs, P s evs → P { s with readOffset := 0 } evs) {calls : List AppCall}
    (h : P s evs) (hcalls : CallsAllowed allowed s calls) :
    P (s.afterPush calls) (evs ++ .read s.addr s.buffered :: s.callEvents calls) := by
  have rest : ∀ calls s evs, P s evs → CallsAllowed allowed s calls →
      P (s.afterCalls calls) (evs ++ s.callEvents calls) := by
    intro calls
    induction calls with
    | nil => exact fun s evs h _ => (List.append_nil evs).symm ▸ h
    | cons c calls ih =>
        intro s evs h hcalls
        have hnext := ih (s.afterCall c) _ (call s evs c h hcalls.1) hcalls.2
        rw [List.append_assoc] at hnext
        exact hnext
  have hread := rest calls s _ (read s evs h) hcalls
  rw [List.append_assoc] at hread
  exact empty _ _ hread

/-! ## All streams -/

namespace Kernel.Keeps

/-- A step that changes one stream. -/
theorem outcome (h : k.Keeps P D) (wf : k'.Wf) (hnext : k.net.next ≤ k'.net.next)
    (hs : s ∈ k.allStreams) (hlog : k'.log = k.log ++ evs) (hevs : ∀ e ∈ evs, e.addr = s.addr)
    (hout : Outcome P D s k k' evs) : k'.Keeps P D := by
  have hown := own_log k.log hevs
  refine ⟨wf, fun e he => ?_, fun t ht => ?_, fun a ha => ?_⟩
  · rw [hlog] at he
    obtain he | he := List.mem_append.mp he
    · exact (h.bound e he).trans_le hnext
    · rw [hevs e he]
      exact (h.wf.below s hs).trans_le hnext
  · rw [hlog, hown]
    cases hout with
    | kept s' hconn hstreams hP =>
        rw [hstreams] at ht
        obtain ⟨ht, hne⟩ | ⟨rfl, _⟩ := Keyed.mem_replace.mp ht
        · rw [if_neg (hconn.addr ▸ hne)]
          exact h.streams t ht
        · rw [if_pos hconn.addr, hconn.addr]
          exact hP
    | gone hstreams hD =>
        rw [hstreams] at ht
        obtain ⟨ht, hne⟩ := h.wf.unique.mem_erase.mp ht
        rw [if_neg hne]
        exact h.streams t ht
  · rw [hlog, hown]
    by_cases heq : a = s.addr
    · subst heq
      cases hout with
      | kept s' hconn hstreams _ =>
          have hmem : s' ∈ k'.allStreams := by
            rw [hstreams]
            exact Keyed.mem_replace.mpr (.inr ⟨rfl, s, hs, hconn.addr.symm⟩)
          exact absurd hconn.addr (ha s' hmem)
      | gone _ hD =>
          rw [if_pos rfl]
          exact .inr hD
    · rw [if_neg heq]
      refine h.gone a fun t ht hta => ?_
      have hne : t.addr ≠ s.addr := fun h => heq (hta.symm.trans h)
      cases hout with
      | kept s' hconn hstreams _ =>
          refine ha t ?_ hta
          rw [hstreams]
          exact Keyed.mem_replace.mpr (.inl ⟨ht, hconn.addr.symm ▸ hne⟩)
      | gone hstreams _ =>
          refine ha t ?_ hta
          rw [hstreams]
          exact h.wf.unique.mem_erase.mpr ⟨ht, hne⟩

/-- A step that leaves TCP alone. -/
theorem congr (h : k.Keeps P D) (hstreams : k'.allStreams = k.allStreams)
    (hlog : k'.log = k.log) (hnext : k.net.next ≤ k'.net.next) : k'.Keeps P D := by
  refine ⟨⟨hstreams ▸ h.wf.unique, fun s hs => ?_⟩, fun e he => ?_, fun s hs => ?_, fun a ha => ?_⟩
  · exact (h.wf.below s (hstreams ▸ hs)).trans_le hnext
  · exact (h.bound e (hlog ▸ he)).trans_le hnext
  · rw [hlog]
    exact h.streams s (hstreams ▸ hs)
  · rw [hlog]
    exact h.gone a (hstreams ▸ ha)

/-- The `Syn` of a segment. -/
theorem syn (h : k.Keeps P D) (inv : LogInvariant base allowed P D) (hbase : base ≤ k.net.next)
    (hopened : Opened g k k') : k'.Keeps P D := by
  have wf := hopened.wf h.wf
  cases hopened with
  | kept n _ same => exact h.congr rfl rfl same.next
  | opened l junk n _ hl hlt same =>
      have hnew : ∀ e ∈ k.log, e.addr ≠ newAddr k := fun e he heq => by
        have hlt : e.addr < k.net.next := h.bound e he
        have hsucc : e.addr = k.net.next + 1 := heq
        omega
      have hevs : ∀ e ∈ [synAckEvent (openedStream (newAddr k) junk g.dev g.hdr g.srcIp
          (l.accept k.app).2)], e.addr = newAddr k := List.forall_mem_singleton.mpr rfl
      have hown := own_log k.log hevs
      refine ⟨wf, fun e he => ?_, List.forall_mem_cons.mpr ⟨?_, fun t ht => ?_⟩, fun a ha => ?_⟩
      · obtain he | he := List.mem_append.mp he
        · exact (h.bound e he).trans_le same.next
        · cases List.mem_singleton.mp he
          exact hlt
      · change P _ (own (newAddr k) (k.log ++ _))
        rw [hown, if_pos rfl, own_eq_nil hnew]
        exact inv.opened _ _ _ _ _ _ (hbase.trans (Nat.le_succ _))
      · have hne : t.addr ≠ newAddr k := fun heq => by
          have hlt : t.addr < k.net.next := h.wf.below t ht
          have hsucc : t.addr = k.net.next + 1 := heq
          omega
        change P t (own t.addr (k.log ++ _))
        rw [hown, if_neg hne]
        exact h.streams t ht
      · obtain ⟨hne, ha⟩ := List.forall_mem_cons.mp ha
        change own a (k.log ++ _) = [] ∨ D (own a (k.log ++ _))
        rw [hown, if_neg (fun heq : a = newAddr k => hne heq.symm)]
        exact h.gone a ha

theorem segment (h : k.Keeps P D) (inv : LogInvariant base allowed P D)
    (hbase : base ≤ k.net.next)
    (kept : g.has TcpFlag.psh = true → g.opens k = false → ∀ s, g.find k.allStreams = some s →
      (g.receive s).ReactsWithin allowed k.app)
    (opened : g.has TcpFlag.psh = true → ∀ l, g.listener k = some l → ∀ junk,
      (g.receive (openedStream (newAddr k) junk g.dev g.hdr g.srcIp
        (l.accept k.app).2)).ReactsWithin allowed (l.accept k.app).1)
    (hseg : tcpSegment g.dev g.data g.sz g.srcIp k = .ok k') : k'.Keeps P D := by
  have wf' := h.wf.segment hseg
  obtain ⟨k₁, hopened, hrest⟩ := tcpSegment_cases hseg
  have h₁ := h.syn inv hbase hopened
  obtain ⟨_, n, same, rfl⟩ | ⟨s, hfind, hserved⟩ := hrest
  · exact h₁.congr rfl rfl same.next
  · have hs := List.mem_of_find?_eq_some hfind
    have react : g.has TcpFlag.psh = true → (g.receive s).ReactsWithin allowed k₁.app := by
      intro hpsh
      cases hopened with
      | kept n hopens _ => exact kept hpsh hopens s hfind
      | opened l junk n _ hl _ _ =>
          cases (find_opened g _ _ _ _).symm.trans hfind
          exact opened hpsh l hl junk
    obtain ⟨evs, hlog, hevs, hout⟩ := inv.served (h₁.streams s hs) react hserved
    exact h₁.outcome wf' hserved.frame.2.1 hs hlog hevs hout

theorem step (h : k.Keeps P D) (inv : LogInvariant base allowed P D) (hbase : base ≤ k.net.next)
    (allows : Allows allowed k op) (hstep : kernelStep k op = .ok k') : k'.Keeps P D := by
  have wf' := h.wf.step hstep
  obtain ⟨g, n, hop, hnext, hseg⟩ | ⟨_, n, app, ports, listeners, hnext, rfl⟩ |
    ⟨_, s, c, n, hcall, hs, same, rfl⟩ := kernelStep_cases hstep
  · have hn : Kernel.Keeps P D { k with net := n } := h.congr rfl rfl hnext.ge
    refine hn.segment inv (hnext.symm ▸ hbase) (allows.kept g hop) ?_ hseg
    rw [newAddr_net hnext]
    exact allows.opened g hop
  · exact h.congr rfl rfl hnext
  · have hevs : ∀ e ∈ [s.callEvent c], e.addr = s.addr :=
      List.forall_mem_singleton.mpr (by cases c <;> rfl)
    exact h.outcome wf' same.next hs rfl hevs (.kept (s.afterCall c) (s.afterCall_sameConn c) rfl
      (inv.call s _ c (h.streams s hs) (allows.call s hs c hcall)))

end Kernel.Keeps

theorem kernelStep_next (h : kernelStep k op = .ok k') : k.net.next ≤ k'.net.next := by
  obtain ⟨g, n, _, hnext, hseg⟩ | ⟨_, n, _, _, _, hnext, rfl⟩ | ⟨_, _, _, n, _, _, same, rfl⟩ :=
    kernelStep_cases h
  · obtain ⟨k₁, hopened, hrest⟩ := tcpSegment_cases hseg
    have h₁ : k.net.next ≤ k₁.net.next := by
      cases hopened with
      | kept n _ same => exact hnext.ge.trans same.next
      | opened l junk n _ _ _ same => exact hnext.ge.trans same.next
    obtain ⟨_, n, same, rfl⟩ | ⟨s, _, hserved⟩ := hrest
    · exact h₁.trans same.next
    · exact h₁.trans hserved.frame.2.1
  · exact hnext
  · exact same.next

/-- The property holds at the end of a run if it holds at the start. -/
theorem LogInvariant.run (inv : LogInvariant base allowed P D) {ops : List (KernelOp σ)}
    (run : Transition.Run kernelStep (Allows allowed) k ops k') (h : k.Keeps P D)
    (hbase : base ≤ k.net.next) : k'.Keeps P D := by
  refine (run.invariant (I := fun k => k.Keeps P D ∧ base ≤ k.net.next) ?_ ⟨h, hbase⟩).1
  rintro k op k' ⟨h, hbase⟩ allows hstep
  exact ⟨h.step inv hbase allows hstep, hbase.trans (kernelStep_next hstep)⟩

/-- What the events of every stream have in common. -/
theorem Kernel.Keeps.own (h : k.Keeps P D) {Q : List TcpEvent → Prop}
    (stream : ∀ s evs, P s evs → Q evs) (gone : ∀ evs, D evs → Q evs) (empty : Q []) (a : Nat) :
    Q (own a k.log) := by
  by_cases hmem : ∃ s ∈ k.allStreams, s.addr = a
  · obtain ⟨s, hs, rfl⟩ := hmem
    exact stream s _ (h.streams s hs)
  · obtain hnil | hD := h.gone a fun s hs heq => hmem ⟨s, hs, heq⟩
    · exact hnil.symm ▸ empty
    · exact gone _ hD

/-- No call is forbidden. -/
theorem CallsAllowed.of_forall (h : ∀ s c, allowed s c) (s : Stream σ) (calls : List AppCall) :
    CallsAllowed allowed s calls := by
  induction calls generalizing s with
  | nil => exact trivial
  | cons c calls ih => exact ⟨h s c, ih _⟩

theorem Allows.of_forall (h : ∀ s c, allowed s c) (k : Kernel σ) (op : KernelOp σ) :
    Allows allowed k op :=
  ⟨fun s _ c _ => h s c, fun _ _ _ _ _ _ _ => .of_forall h _ _,
    fun _ _ _ _ _ _ _ => .of_forall h _ _⟩

theorem boot_keeps (junk : Nat → ByteMem) (app : σ) : (Kernel.boot junk app).Keeps P D :=
  ⟨boot_wf junk app, fun _ he => (nomatch he), fun _ hs => (nomatch hs), fun _ _ => .inl rfl⟩

end

end BadOs
