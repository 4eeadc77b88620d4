import BadOs.Task.Queue

/-!
# The task queue and interrupts

On a single processor an interrupt handler runs between two statements of the code that
it interrupts, and it may enqueue tasks. Here `task_enqueue` and `task_get` of the main
context are executed one statement after the other.
-/

namespace BadOs

/-- The statement that the main context executes next. -/
inductive MainPc where
  | idle
  /-- `if (task->next || head == task) return;` -/
  | enqueueTest (t : Nat)
  /-- `add_ref(task);` -/
  | enqueueAddRef (t : Nat)
  /-- `if (!head)` -/
  | enqueueIfHead (t : Nat)
  /-- `tail = head = task;` -/
  | enqueueFirst (t : Nat)
  /-- `else if (tail)` -/
  | enqueueIfTail (t : Nat)
  /-- `tail->next = task;` -/
  | enqueueLink (t : Nat)
  /-- `tail = task;` -/
  | enqueueTail (t : Nat)
  /-- `if (head)` -/
  | getIfHead
  /-- `disable_interrupts();` -/
  | getDisable
  /-- `Task * tmp = head;` -/
  | getTmp
  /-- `head = head->next;` -/
  | getHead (tmp : Nat)
  /-- `enable_interrupts();` -/
  | getEnable (tmp : Nat)
  /-- `tmp->next = NULL;` -/
  | getUnlink (tmp : Nat)
  /-- `return tmp;` -/
  | getReturn (tmp : Nat)
  deriving DecidableEq

/-- The queue, the statement of the main context, the interrupt flag of the processor,
and the tasks that were enqueued with effect and not taken out of the queue since. -/
structure Cpu where
  queue : TaskQueue
  main : MainPc
  interrupts : Bool
  pending : List Nat

/-- Every task was allocated, with a zero link; nothing is queued. -/
def Cpu.boot : Cpu := ⟨.empty, .idle, true, []⟩

inductive CpuOp where
  /-- The main context calls `task_enqueue`. -/
  | enqueue (t : Nat)
  /-- The main context calls `task_get`. -/
  | get
  /-- The main context executes a statement. -/
  | main
  /-- A handler calls `task_enqueue`; one that calls it more often is several of these. -/
  | irq (t : Nat)
  deriving DecidableEq

inductive Stop where
  | trap (t : Trap)
  /-- The operation is not possible in this state. -/
  | disabled
  deriving DecidableEq

/-- The test of `task_enqueue` for a task that is in the queue already. -/
def TaskQueue.AlreadyEnqueued (q : TaskQueue) (t : Nat) : Prop := q.next t ≠ 0 ∨ q.head = t

instance (q : TaskQueue) (t : Nat) : Decidable (q.AlreadyEnqueued t) :=
  inferInstanceAs (Decidable (_ ∨ _))

/-- One statement of the main context. -/
def mainStep (c : Cpu) : Except Stop Cpu :=
  match c.main with
  | .idle => .error .disabled
  | .enqueueTest t =>
      if c.queue.AlreadyEnqueued t then .ok { c with main := .idle }
      else .ok { c with main := .enqueueAddRef t }
  | .enqueueAddRef t => .ok { c with queue := c.queue.addRef t, main := .enqueueIfHead t }
  | .enqueueIfHead t =>
      if c.queue.head = 0 then .ok { c with main := .enqueueFirst t }
      else .ok { c with main := .enqueueIfTail t }
  | .enqueueFirst t =>
      .ok { c with
        queue := { c.queue with head := t, tail := t }
        main := .idle
        pending := t :: c.pending }
  | .enqueueIfTail t =>
      if c.queue.tail ≠ 0 then .ok { c with main := .enqueueLink t }
      else .error (.trap (.panic "Head without a tail"))
  | .enqueueLink t =>
      .ok { c with queue := c.queue.setNext c.queue.tail t, main := .enqueueTail t }
  | .enqueueTail t =>
      .ok { c with
        queue := { c.queue with tail := t }
        main := .idle
        pending := t :: c.pending }
  | .getIfHead =>
      if c.queue.head ≠ 0 then .ok { c with main := .getDisable } else .ok { c with main := .idle }
  | .getDisable => .ok { c with interrupts := false, main := .getTmp }
  | .getTmp => .ok { c with main := .getHead c.queue.head }
  | .getHead tmp =>
      .ok { c with
        queue := { c.queue with head := c.queue.next c.queue.head }
        main := .getEnable tmp
        pending := c.pending.filter (· ≠ tmp) }
  | .getEnable tmp => .ok { c with interrupts := true, main := .getUnlink tmp }
  | .getUnlink tmp => .ok { c with queue := c.queue.setNext tmp 0, main := .getReturn tmp }
  | .getReturn _ => .ok { c with main := .idle }

/-- A call of `task_enqueue` from a handler, which nothing interrupts. -/
def irqStep (c : Cpu) (t : Nat) : Except Stop Cpu :=
  match taskEnqueue t c.queue with
  | .ok q =>
      .ok { c with
        queue := q
        pending := if c.queue.AlreadyEnqueued t then c.pending else t :: c.pending }
  | .error e => .error (.trap e)

def cpuStep (c : Cpu) : CpuOp → Except Stop Cpu
  | .enqueue t =>
      if c.main = .idle ∧ t ≠ 0 then .ok { c with main := .enqueueTest t } else .error .disabled
  | .get => if c.main = .idle then .ok { c with main := .getIfHead } else .error .disabled
  | .main => mainStep c
  | .irq t => if c.interrupts ∧ t ≠ 0 then irqStep c t else .error .disabled

/-- Without interrupts the statements of `task_enqueue` make up `taskEnqueue`. -/
theorem exec_enqueue {c : Cpu} {q : TaskQueue} {t : Nat} (hidle : c.main = .idle) (ht : t ≠ 0)
    (h : taskEnqueue t c.queue = .ok q) :
    ∃ n pending, Transition.exec cpuStep c (.enqueue t :: List.replicate n .main) =
      .ok { c with queue := q, pending := pending } := by
  obtain ⟨q₀, main, interrupts, pending⟩ := c
  change main = .idle at hidle
  subst hidle
  have hcall : cpuStep ⟨q₀, .idle, interrupts, pending⟩ (.enqueue t) =
      .ok ⟨q₀, .enqueueTest t, interrupts, pending⟩ :=
    if_pos (⟨rfl, ht⟩ : MainPc.idle = .idle ∧ t ≠ 0)
  rw [taskEnqueue] at h
  by_cases hmem : q₀.next t ≠ 0 ∨ q₀.head = t
  · cases (if_pos hmem).symm.trans h
    have htest : cpuStep ⟨q₀, .enqueueTest t, interrupts, pending⟩ .main =
        .ok ⟨q₀, .idle, interrupts, pending⟩ := if_pos hmem
    exact ⟨1, pending, (Transition.exec_cons hcall).trans (Transition.exec_cons htest)⟩
  · have h := (if_neg hmem).symm.trans h
    have htest : cpuStep ⟨q₀, .enqueueTest t, interrupts, pending⟩ .main =
        .ok ⟨q₀, .enqueueAddRef t, interrupts, pending⟩ := if_neg hmem
    by_cases hhead : q₀.head = 0
    · cases (if_pos hhead).symm.trans h
      have hfirst : cpuStep ⟨q₀.addRef t, .enqueueIfHead t, interrupts, pending⟩ .main =
          .ok ⟨q₀.addRef t, .enqueueFirst t, interrupts, pending⟩ := if_pos hhead
      refine ⟨4, t :: pending, (Transition.exec_cons hcall).trans ?_⟩
      refine (Transition.exec_cons htest).trans ?_
      exact (Transition.exec_cons rfl).trans (Transition.exec_cons hfirst)
    · have h := (if_neg hhead).symm.trans h
      have hmore : cpuStep ⟨q₀.addRef t, .enqueueIfHead t, interrupts, pending⟩ .main =
          .ok ⟨q₀.addRef t, .enqueueIfTail t, interrupts, pending⟩ := if_neg hhead
      by_cases htail : q₀.tail ≠ 0
      · cases (if_pos htail).symm.trans h
        have hlink : cpuStep ⟨q₀.addRef t, .enqueueIfTail t, interrupts, pending⟩ .main =
            .ok ⟨q₀.addRef t, .enqueueLink t, interrupts, pending⟩ := if_pos htail
        refine ⟨6, t :: pending, (Transition.exec_cons hcall).trans ?_⟩
        refine (Transition.exec_cons htest).trans ?_
        refine (Transition.exec_cons rfl).trans ?_
        exact (Transition.exec_cons hmore).trans (Transition.exec_cons hlink)
      · cases (if_neg htail).symm.trans h

/-- Without interrupts the statements of `task_get` make up `taskGet`. -/
theorem exec_get {c : Cpu} (hidle : c.main = .idle) (hon : c.interrupts = true) :
    ∃ n pending, Transition.exec cpuStep c (.get :: List.replicate n .main) =
      .ok { c with queue := (taskGet c.queue).2, pending := pending } := by
  obtain ⟨q, main, interrupts, pending⟩ := c
  change main = .idle at hidle
  change interrupts = true at hon
  subst hidle hon
  have hcall : cpuStep ⟨q, .idle, true, pending⟩ .get = .ok ⟨q, .getIfHead, true, pending⟩ := rfl
  by_cases hhead : q.head ≠ 0
  · have hif : cpuStep ⟨q, .getIfHead, true, pending⟩ .main =
        .ok ⟨q, .getDisable, true, pending⟩ := if_pos hhead
    refine ⟨7, pending.filter (· ≠ q.head), (Transition.exec_cons hcall).trans ?_⟩
    rw [taskGet, if_pos hhead]
    exact Transition.exec_cons hif
  · have hif : cpuStep ⟨q, .getIfHead, true, pending⟩ .main =
        .ok ⟨q, .idle, true, pending⟩ := if_neg hhead
    refine ⟨1, pending, (Transition.exec_cons hcall).trans ?_⟩
    rw [taskGet, if_neg hhead]
    exact Transition.exec_cons hif

/-- A task is found by following the links from the head. -/
def TaskQueue.Reachable (q : TaskQueue) (t : Nat) : Prop := ∃ n, q.next^[n] q.head = t

/-- Here the main context relies on what it read before: an empty queue, the last task
of the queue, or a task that is not the last one. -/
def MainPc.Exposed (q : TaskQueue) : MainPc → Prop
  | .enqueueFirst _ | .enqueueTail _ => True
  | .enqueueAddRef t | .enqueueIfHead t | .enqueueIfTail t | .enqueueLink t | .getUnlink t =>
      q.head ≠ 0 ∧ q.tail = t
  | _ => False

/-- No handler enqueues a task with effect where the main context relies on the end of
the queue. -/
def CpuOp.Undisturbed (c : Cpu) (op : CpuOp) : Prop :=
  ∀ t, op = .irq t → ¬c.queue.AlreadyEnqueued t → ¬c.main.Exposed c.queue

/-! ## The list under interrupts -/

/-- The nodes of the list. The last one, at `tail`, may be linked to itself. -/
structure Linked (q : TaskQueue) (l : List Nat) : Prop where
  chain : Chain (Function.update q.next q.tail 0) q.head l
  tail : l ≠ [] → l.getLast? = some q.tail
  last : l ≠ [] → q.next q.tail = 0 ∨ q.next q.tail = q.tail

namespace Linked

variable {q q' : TaskQueue} {l : List Nat} {t x : Nat}

theorem reachable (h : Linked q l) (ht : t ∈ l) : q.Reachable t := h.chain.exists_iterate ht

theorem ne_nil_iff (h : Linked q l) : l ≠ [] ↔ q.head ≠ 0 := not_congr h.chain.eq_nil_iff

theorem tail_mem (h : Linked q l) (hhead : q.head ≠ 0) : q.tail ∈ l :=
  List.mem_of_getLast? (h.tail (h.ne_nil_iff.mpr hhead))

theorem tail_ne_zero (h : Linked q l) (hhead : q.head ≠ 0) : q.tail ≠ 0 :=
  h.chain.ne_zero (h.tail_mem hhead)

/-- A queued task without a link is the last one. -/
theorem tail_of_next (h : Linked q l) (ht : t ∈ l) (hnext : q.next t = 0) : q.tail = t := by
  have hzero : Function.update q.next q.tail 0 t = 0 := by
    by_cases heq : t = q.tail
    · subst heq
      exact Function.update_self ..
    · rw [Function.update_of_ne heq, hnext]
  have hlast := (h.chain.next_eq_zero_iff ht).mp hzero
  exact Option.some.inj ((h.tail (List.ne_nil_of_mem ht)).symm.trans hlast)

theorem addRef (h : Linked q l) : Linked (q.addRef t) l := by
  refine ⟨?_, h.tail, ?_⟩
  · rw [TaskQueue.next_addRef]
    exact h.chain
  · rw [TaskQueue.next_addRef]
    exact h.last

/-- The first task of an empty list. -/
theorem first (ht : t ≠ 0) (hnext : q.next t = 0) :
    Linked { q with head := t, tail := t } [t] := by
  refine ⟨Chain.cons ht ?_, fun _ => rfl, fun _ => .inl hnext⟩
  exact Function.update_self t 0 q.next

/-- A task goes behind the last one, or, when it is the last one, is linked to itself. -/
theorem push (h : Linked q l) (hhead : q.head ≠ 0) (ht : t ≠ 0) (hnext : q.next t = 0) :
    ∃ l', Linked { q.setNext q.tail t with tail := t } l' ∧ t ∈ l' ∧ (∀ x ∈ l, x ∈ l') ∧
      ∀ x ∈ l', x ∈ l ∨ x = t := by
  by_cases hmem : t ∈ l
  · refine ⟨l, ⟨?_, ?_, fun _ => .inr ?_⟩, hmem, fun _ hx => hx, fun _ hx => .inl hx⟩
    · change Chain (Function.update (q.setNext q.tail t).next t 0) q.head l
      rw [TaskQueue.next_setNext, h.tail_of_next hmem hnext, Function.update_idem]
      exact h.tail_of_next hmem hnext ▸ h.chain
    · intro hne
      exact (h.tail hne).trans (congrArg some (h.tail_of_next hmem hnext))
    · change (q.setNext q.tail t).next t = t
      rw [TaskQueue.next_setNext, h.tail_of_next hmem hnext, Function.update_self]
  · have hne : t ≠ q.tail := fun heq => hmem (heq ▸ h.tail_mem hhead)
    refine ⟨l ++ [t], ⟨?_, fun _ => List.getLast?_concat, fun _ => .inl ?_⟩,
      List.mem_append_right _ (List.mem_singleton_self t), fun x hx => List.mem_append_left _ hx,
      fun x hx => (List.mem_append.mp hx).imp_right List.mem_singleton.mp⟩
    · obtain ⟨rest, hl⟩ : ∃ rest, l = rest ++ [q.tail] := by
        obtain hnil | ⟨rest, b, hl⟩ := List.eq_nil_or_concat' l
        · exact absurd (hnil ▸ h.tail_mem hhead) List.not_mem_nil
        · have hlast := h.tail (h.ne_nil_iff.mpr hhead)
          rw [hl, List.getLast?_concat] at hlast
          exact ⟨rest, Option.some.inj hlast ▸ hl⟩
      have hcut : Function.update q.next q.tail 0 t = 0 :=
        (Function.update_of_ne hne ..).trans hnext
      have happend := Chain.append (hl ▸ h.chain) ht (hl ▸ hmem) hcut
      rw [hl, List.append_assoc]
      refine happend.congr fun x _ => ?_
      change Function.update (q.setNext q.tail t).next t 0 x = _
      rw [TaskQueue.next_setNext, Function.update_idem]
      by_cases heq : x = t
      · subst heq
        rw [Function.update_self, Function.update_of_ne hne, hnext]
      · rw [Function.update_of_ne heq]
    · change (q.setNext q.tail t).next t = 0
      rw [TaskQueue.next_setNext, Function.update_of_ne hne, hnext]

/-- `head = head->next`. Only a task that is linked to itself stays. -/
theorem pop (h : Linked q l) (hhead : q.head ≠ 0) :
    ∃ l', Linked { q with head := q.next q.head } l' ∧ (∀ x ∈ l, x ≠ q.head → x ∈ l') ∧
      (q.head ∈ l' → q.tail = q.head) := by
  cases l with
  | nil => exact absurd h.chain hhead
  | cons a rest =>
      obtain ⟨hfirst, _, hrest⟩ := h.chain
      subst hfirst
      by_cases htail : q.head = q.tail
      · -- A single task: its link is zero, or leads back to it.
        have hnil : rest = [] := by
          rw [← htail, Function.update_self] at hrest
          exact hrest.eq_nil_iff.mpr rfl
        subst hnil
        obtain hzero | hself := h.last (List.cons_ne_nil _ _)
        · refine ⟨[], ⟨?_, fun hne => absurd rfl hne, fun hne => absurd rfl hne⟩, ?_, ?_⟩
          · exact (congrArg q.next htail).trans hzero
          · exact fun x hx hne => absurd (List.mem_singleton.mp hx) hne
          · exact fun hmem => absurd hmem List.not_mem_nil
        · have hnext : q.next q.head = q.head := by
            rw [htail]
            exact hself
          rw [hnext]
          exact ⟨[q.head], h, fun _ hx _ => hx, fun _ => htail.symm⟩
      · rw [Function.update_of_ne htail] at hrest
        have hlast := h.tail (List.cons_ne_nil _ _)
        refine ⟨rest, ⟨hrest, fun hne => ?_, fun hne => h.last (List.cons_ne_nil _ _)⟩, ?_, ?_⟩
        · rw [List.getLast?_cons] at hlast
          cases hlast' : rest.getLast? with
          | none => exact absurd (List.getLast?_eq_none_iff.mp hlast') hne
          | some b =>
              rw [hlast'] at hlast
              exact hlast
        · intro x hx hne
          exact (List.mem_cons.mp hx).resolve_left hne
        · exact fun hmem => absurd hmem (List.nodup_cons.mp h.chain.nodup).1

/-- `tmp->next = NULL`. -/
theorem unlink (h : Linked q l) (ht : t ∈ l → q.tail = t) : Linked (q.setNext t 0) l := by
  refine ⟨h.chain.congr fun x hx => ?_, h.tail, fun hne => ?_⟩
  · change Function.update (q.setNext t 0).next q.tail 0 x = _
    rw [TaskQueue.next_setNext]
    by_cases heq : x = q.tail
    · subst heq
      rw [Function.update_self, Function.update_self]
    · rw [Function.update_of_ne heq, Function.update_of_ne heq, Function.update_of_ne]
      rintro rfl
      exact heq (ht hx).symm
  · change (q.setNext t 0).next q.tail = 0 ∨ (q.setNext t 0).next q.tail = q.tail
    rw [TaskQueue.next_setNext]
    by_cases heq : q.tail = t
    · exact .inl (heq ▸ Function.update_self ..)
    · rw [Function.update_of_ne heq]
      exact h.last hne

/-- A complete `task_enqueue`. -/
theorem enqueue (h : Linked q l) (ht : t ≠ 0) (heq : taskEnqueue t q = .ok q')
    (hnew : ¬q.AlreadyEnqueued t) :
    ∃ l', Linked q' l' ∧ t ∈ l' ∧ (∀ x ∈ l, x ∈ l') ∧ (∀ x ∈ l', x ∈ l ∨ x = t) ∧
      q'.tail = t ∧ q'.head ≠ 0 ∧ (q.head ≠ 0 → q'.head = q.head) ∧
      ∀ x, ¬(q.head ≠ 0 ∧ q.tail = x) → q'.next x = q.next x := by
  have hnext : q.next t = 0 := Classical.not_not.mp fun hne => hnew (.inl hne)
  have hadd : (q.addRef t).next t = 0 := by
    rw [TaskQueue.next_addRef]
    exact hnext
  rw [taskEnqueue] at heq
  have heq := (if_neg hnew).symm.trans heq
  by_cases hhead : q.head = 0
  · have heq := (if_pos hhead).symm.trans heq
    cases heq
    have hnil : l = [] := h.chain.eq_nil_iff.mpr hhead
    subst hnil
    refine ⟨[t], first ht hadd, List.mem_singleton_self t, fun _ hx => ?_, fun x hx => ?_, rfl, ht,
      fun hne => absurd hhead hne, fun x _ => ?_⟩
    · cases hx
    · exact .inr (List.mem_singleton.mp hx)
    · exact congrFun TaskQueue.next_addRef x
  · have heq := (if_neg hhead).symm.trans heq
    have heq := (if_pos (h.tail_ne_zero hhead)).symm.trans heq
    cases heq
    obtain ⟨l', hl', hmem, hold, hnew'⟩ := (h.addRef (t := t)).push hhead ht hadd
    refine ⟨l', hl', hmem, hold, hnew', rfl, hhead, fun _ => rfl, fun x hx => ?_⟩
    change ((q.addRef t).setNext q.tail t).next x = q.next x
    rw [TaskQueue.next_setNext, TaskQueue.next_addRef, Function.update_of_ne]
    rintro rfl
    exact hx ⟨hhead, rfl⟩

end Linked

/-! ## Steps and runs -/

/-- What the main context knows at a statement about a queue with the nodes `l`. -/
def MainPc.Knows (c : Cpu) (l : List Nat) : MainPc → Prop
  | .idle | .getIfHead | .getReturn _ => Linked c.queue l
  | .enqueueTest t => Linked c.queue l ∧ t ≠ 0
  | .enqueueAddRef t | .enqueueIfHead t => Linked c.queue l ∧ t ≠ 0 ∧ c.queue.next t = 0
  | .enqueueFirst t => Linked c.queue l ∧ t ≠ 0 ∧ c.queue.next t = 0 ∧ c.queue.head = 0
  | .enqueueIfTail t | .enqueueLink t =>
      Linked c.queue l ∧ t ≠ 0 ∧ c.queue.next t = 0 ∧ c.queue.head ≠ 0
  | .enqueueTail t => Linked { c.queue with tail := t } l ∧ t ∈ l
  | .getDisable => Linked c.queue l ∧ c.queue.head ≠ 0
  | .getTmp => Linked c.queue l ∧ c.queue.head ≠ 0 ∧ c.interrupts = false
  | .getHead tmp =>
      Linked c.queue l ∧ c.queue.head ≠ 0 ∧ c.interrupts = false ∧ c.queue.head = tmp
  | .getEnable tmp =>
      Linked c.queue l ∧ (tmp ∈ l → c.queue.tail = tmp) ∧ c.interrupts = false
  | .getUnlink tmp => Linked c.queue l ∧ (tmp ∈ l → c.queue.tail = tmp)

/-- The list holds every pending task, whatever the main context is doing. -/
def Cpu.Ok (c : Cpu) : Prop := ∃ l, c.main.Knows c l ∧ ∀ t ∈ c.pending, t ∈ l

namespace Cpu

variable {c c' : Cpu} {t : Nat}

theorem boot_ok : boot.Ok :=
  ⟨[], ⟨rfl, fun h => absurd rfl h, fun h => absurd rfl h⟩, fun _ h => by cases h⟩

theorem Ok.mainStep (h : c.Ok) (hstep : mainStep c = .ok c') : c'.Ok := by
  obtain ⟨l, hknows, hpending⟩ := h
  obtain ⟨q, main, interrupts, pending⟩ := c
  cases main with
  | idle => cases hstep
  | enqueueTest t =>
      obtain ⟨hl, ht⟩ := hknows
      by_cases hmem : q.AlreadyEnqueued t
      · cases (if_pos hmem).symm.trans hstep
        exact ⟨l, hl, hpending⟩
      · cases (if_neg hmem).symm.trans hstep
        exact ⟨l, ⟨hl, ht, Classical.not_not.mp fun hne => hmem (.inl hne)⟩, hpending⟩
  | enqueueAddRef t =>
      cases hstep
      obtain ⟨hl, ht, hnext⟩ := hknows
      exact ⟨l, ⟨hl.addRef, ht, (congrFun TaskQueue.next_addRef t).trans hnext⟩, hpending⟩
  | enqueueIfHead t =>
      obtain ⟨hl, ht, hnext⟩ := hknows
      by_cases hhead : q.head = 0
      · cases (if_pos hhead).symm.trans hstep
        exact ⟨l, ⟨hl, ht, hnext, hhead⟩, hpending⟩
      · cases (if_neg hhead).symm.trans hstep
        exact ⟨l, ⟨hl, ht, hnext, hhead⟩, hpending⟩
  | enqueueFirst t =>
      cases hstep
      obtain ⟨hl, ht, hnext, hhead⟩ := hknows
      have hnil : l = [] := hl.chain.eq_nil_iff.mpr hhead
      refine ⟨[t], Linked.first ht hnext, fun x hx => ?_⟩
      obtain rfl | hx := List.mem_cons.mp hx
      · exact List.mem_singleton_self x
      · cases hnil ▸ hpending x hx
  | enqueueIfTail t =>
      obtain ⟨hl, ht, hnext, hhead⟩ := hknows
      cases (if_pos (hl.tail_ne_zero hhead)).symm.trans hstep
      exact ⟨l, ⟨hl, ht, hnext, hhead⟩, hpending⟩
  | enqueueLink t =>
      cases hstep
      obtain ⟨hl, ht, hnext, hhead⟩ := hknows
      obtain ⟨l', hl', hmem, hold, _⟩ := hl.push hhead ht hnext
      exact ⟨l', ⟨hl', hmem⟩, fun x hx => hold x (hpending x hx)⟩
  | enqueueTail t =>
      cases hstep
      obtain ⟨hl, hmem⟩ := hknows
      refine ⟨l, hl, fun x hx => ?_⟩
      obtain rfl | hx := List.mem_cons.mp hx
      · exact hmem
      · exact hpending x hx
  | getIfHead =>
      by_cases hhead : q.head ≠ 0
      · cases (if_pos hhead).symm.trans hstep
        exact ⟨l, ⟨hknows, hhead⟩, hpending⟩
      · cases (if_neg hhead).symm.trans hstep
        exact ⟨l, hknows, hpending⟩
  | getDisable =>
      cases hstep
      exact ⟨l, ⟨hknows.1, hknows.2, rfl⟩, hpending⟩
  | getTmp =>
      cases hstep
      obtain ⟨hl, hhead, hoff⟩ := hknows
      exact ⟨l, ⟨hl, hhead, hoff, rfl⟩, hpending⟩
  | getHead tmp =>
      cases hstep
      obtain ⟨hl, hhead, hoff, heq⟩ := hknows
      change q.head = tmp at heq
      subst heq
      obtain ⟨l', hl', hrest, hself⟩ := hl.pop hhead
      refine ⟨l', ⟨hl', hself, hoff⟩, fun x hx => ?_⟩
      obtain ⟨hx, hne⟩ := List.mem_filter.mp hx
      exact hrest x (hpending x hx) (of_decide_eq_true hne)
  | getEnable tmp =>
      cases hstep
      exact ⟨l, ⟨hknows.1, hknows.2.1⟩, hpending⟩
  | getUnlink tmp =>
      cases hstep
      exact ⟨l, hknows.1.unlink hknows.2, hpending⟩
  | getReturn tmp =>
      cases hstep
      exact ⟨l, hknows, hpending⟩

theorem Ok.irqStep (h : c.Ok) (hon : c.interrupts = true) (ht : t ≠ 0)
    (hop : CpuOp.Undisturbed c (.irq t)) (hstep : irqStep c t = .ok c') : c'.Ok := by
  obtain ⟨l, hknows, hpending⟩ := h
  obtain ⟨q, main, interrupts, pending⟩ := c
  by_cases hmem : q.AlreadyEnqueued t
  · have heq : taskEnqueue t q = .ok q := if_pos hmem
    rw [BadOs.irqStep, heq] at hstep
    cases hstep
    refine ⟨l, hknows, fun x hx => hpending x ?_⟩
    rwa [if_pos hmem] at hx
  · have hquiet := hop t rfl hmem
    rw [BadOs.irqStep] at hstep
    cases heq : taskEnqueue t q with
    | error e =>
        rw [heq] at hstep
        cases hstep
    | ok q' =>
        rw [heq] at hstep
        cases hstep
        rw [Cpu.Ok]
        -- Where the list is linked, the task goes to its end.
        have hgrow : Linked q l → ∃ l', Linked q' l' ∧
            (∀ x ∈ if q.AlreadyEnqueued t then pending else t :: pending, x ∈ l') ∧
            (∀ x ∈ l', x ∈ l ∨ x = t) ∧ q'.tail = t ∧ q'.head ≠ 0 ∧
            ∀ x, ¬(q.head ≠ 0 ∧ q.tail = x) → q'.next x = q.next x := by
          intro hl
          obtain ⟨l', hl', hin, hold, hnew, htail, hhead, _, hnext⟩ := hl.enqueue ht heq hmem
          refine ⟨l', hl', fun x hx => ?_, hnew, htail, hhead, hnext⟩
          rw [if_neg hmem] at hx
          obtain rfl | hx := List.mem_cons.mp hx
          · exact hin
          · exact hold x (hpending x hx)
        cases main with
        | idle | getIfHead | getReturn _ =>
            obtain ⟨l', hl', hin, _⟩ := hgrow hknows
            exact ⟨l', hl', hin⟩
        | enqueueTest x =>
            obtain ⟨l', hl', hin, _⟩ := hgrow hknows.1
            exact ⟨l', ⟨hl', hknows.2⟩, hin⟩
        | enqueueAddRef x | enqueueIfHead x =>
            obtain ⟨hl, hx, hzero⟩ := hknows
            obtain ⟨l', hl', hin, _, _, _, hnext⟩ := hgrow hl
            exact ⟨l', ⟨hl', hx, (hnext x hquiet).trans hzero⟩, hin⟩
        | enqueueIfTail x | enqueueLink x =>
            obtain ⟨hl, hx, hzero, _⟩ := hknows
            obtain ⟨l', hl', hin, _, _, hhead, hnext⟩ := hgrow hl
            exact ⟨l', ⟨hl', hx, (hnext x hquiet).trans hzero, hhead⟩, hin⟩
        | enqueueFirst x => exact absurd trivial hquiet
        | enqueueTail x => exact absurd trivial hquiet
        | getDisable =>
            obtain ⟨l', hl', hin, _, _, hhead, _⟩ := hgrow hknows.1
            exact ⟨l', ⟨hl', hhead⟩, hin⟩
        | getTmp => cases hon.symm.trans hknows.2.2
        | getHead tmp => cases hon.symm.trans hknows.2.2.1
        | getEnable tmp => cases hon.symm.trans hknows.2.2
        | getUnlink tmp =>
            obtain ⟨hl, hself⟩ := hknows
            obtain ⟨l', hl', hin, hnew, htail, _⟩ := hgrow hl
            refine ⟨l', ⟨hl', fun hx => ?_⟩, hin⟩
            obtain hx | rfl := hnew tmp hx
            · exact absurd ⟨hl.ne_nil_iff.mp (List.ne_nil_of_mem hx), hself hx⟩ hquiet
            · exact htail

theorem Ok.step {op : CpuOp} (h : c.Ok) (hop : op.Undisturbed c) (hstep : cpuStep c op = .ok c') :
    c'.Ok := by
  cases op with
  | enqueue t =>
      obtain ⟨l, hknows, hpending⟩ := h
      by_cases hidle : c.main = .idle ∧ t ≠ 0
      · cases (if_pos hidle).symm.trans hstep
        rw [hidle.1] at hknows
        exact ⟨l, ⟨hknows, hidle.2⟩, hpending⟩
      · cases (if_neg hidle).symm.trans hstep
  | get =>
      obtain ⟨l, hknows, hpending⟩ := h
      by_cases hidle : c.main = .idle
      · cases (if_pos hidle).symm.trans hstep
        rw [hidle] at hknows
        exact ⟨l, hknows, hpending⟩
      · cases (if_neg hidle).symm.trans hstep
  | main => exact h.mainStep hstep
  | irq t =>
      by_cases hon : c.interrupts ∧ t ≠ 0
      · exact h.irqStep hon.1 hon.2 hop ((if_pos hon).symm.trans hstep)
      · cases (if_neg hon).symm.trans hstep

end Cpu

/-- The task of the call of `task_enqueue` that the main context is in. -/
def MainPc.enqueued : MainPc → Option Nat
  | .enqueueTest t | .enqueueAddRef t | .enqueueIfHead t | .enqueueFirst t | .enqueueIfTail t
  | .enqueueLink t | .enqueueTail t => some t
  | _ => none

/-- Handlers enqueue tasks that are not queued, nor about to be. -/
def CpuOp.Distinct (c : Cpu) (op : CpuOp) : Prop :=
  ∀ t, op = .irq t → t ∉ c.pending ∧ c.main.enqueued ≠ some t

instance (c : Cpu) (op : CpuOp) : Decidable (op.Distinct c) := by
  cases op with
  | irq t =>
      exact decidable_of_iff (t ∉ c.pending ∧ c.main.enqueued ≠ some t)
        ⟨fun h t' heq => by cases heq; exact h, fun h => h t rfl⟩
  | enqueue _ | get | main => exact isTrue fun _ h => by cases h

instance (q : TaskQueue) (main : MainPc) : Decidable (main.Exposed q) := by
  cases main <;> unfold MainPc.Exposed <;> infer_instance

instance (c : Cpu) (op : CpuOp) : Decidable (op.Undisturbed c) := by
  cases op with
  | irq t =>
      exact decidable_of_iff (¬c.queue.AlreadyEnqueued t → ¬c.main.Exposed c.queue)
        ⟨fun h t' heq => by cases heq; exact h, fun h => h t rfl⟩
  | enqueue _ | get | main => exact isTrue fun _ h => by cases h

/-- The main context finds the queue empty, a handler enqueues its task, and the main
context overwrites both pointers. -/
theorem task_lost : ¬∀ (ops : List CpuOp) (c : Cpu),
    Transition.Run cpuStep (fun c op => op.Distinct c) .boot ops c → c.main = .idle →
      ∀ t ∈ c.pending, c.queue.Reachable t := by
  intro claim
  have hrun : Transition.check cpuStep (fun c op => op.Distinct c)
      (fun c => decide (c.main = .idle ∧ 2 ∈ c.pending ∧ c.queue.head = 1 ∧
        c.queue.next 1 = 0 ∧ c.queue.next 0 = 0)) .boot
      [.enqueue 1, .main, .main, .main, .irq 2, .main] = true := by decide
  obtain ⟨c, run, hpost⟩ := Transition.Run.of_check hrun
  obtain ⟨hidle, hpending, hhead, hone, hzero⟩ := of_decide_eq_true hpost
  have hvisited : ∀ n, c.queue.next^[n] c.queue.head = 1 ∨ c.queue.next^[n] c.queue.head = 0 := by
    intro n
    induction n with
    | zero => exact .inl hhead
    | succ n ih =>
        rw [Function.iterate_succ_apply']
        obtain h | h := ih
        · exact .inr (h ▸ hone)
        · exact .inr (h ▸ hzero)
  obtain ⟨n, hn⟩ := claim _ c run hidle 2 hpending
  obtain h | h := hvisited n
  · exact absurd (hn.symm.trans h) (by decide)
  · exact absurd (hn.symm.trans h) (by decide)

/-- In every run in which no handler enqueues a task where the main context relies on the
end of the queue, no task that was enqueued and not taken out is lost. -/
theorem no_task_lost (ops : List CpuOp) (c : Cpu)
    (run : Transition.Run cpuStep (fun c op => op.Undisturbed c) .boot ops c)
    (idle : c.main = .idle) : ∀ t ∈ c.pending, c.queue.Reachable t := by
  obtain ⟨l, hknows, hpending⟩ :=
    run.invariant (I := Cpu.Ok) (fun _ _ _ h hop hstep => h.step hop hstep) Cpu.boot_ok
  rw [idle] at hknows
  exact fun t ht => hknows.reachable (hpending t ht)

theorem no_task_lost_run : ∃ c, Transition.Run cpuStep (fun c op => op.Undisturbed c) .boot
    [.enqueue 1, .main, .main, .irq 2, .main, .main, .main, .main] c ∧
      c.main = .idle ∧ 1 ∈ c.pending ∧ c.queue.Reachable 1 := by
  have hrun : Transition.check cpuStep (fun c op => op.Undisturbed c)
      (fun c => decide (c.main = .idle ∧ 1 ∈ c.pending)) .boot
      [.enqueue 1, .main, .main, .irq 2, .main, .main, .main, .main] = true := by decide
  obtain ⟨c, run, hpost⟩ := Transition.Run.of_check hrun
  obtain ⟨hidle, hpending⟩ := of_decide_eq_true hpost
  exact ⟨c, run, hidle, hpending, no_task_lost _ c run hidle 1 hpending⟩

end BadOs
