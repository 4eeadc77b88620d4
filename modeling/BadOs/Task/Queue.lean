import BadOs.Common
import BadOs.Data.Chain
import BadOs.Data.Run

/-!
# The task queue

`task.c` keeps the tasks in a list linked through `next`, with a pointer to the first
and one to the last. Whether a task is queued is read off its `next` and the head. The
abstract queue below is what this is for: a list of tasks without repetitions.
-/

namespace BadOs

/-! ## `task.c` -/

/-- `Task`. The callback is a number here, as nothing in the queue calls it. -/
structure Task where
  task : Nat
  user : Nat
  refs : BitVec 32
  next : Nat

/-- The two static pointers, and the tasks. An address is zero or that of a task;
`live` are the tasks that were allocated, and `fresh` is above all of them. -/
structure TaskQueue where
  head : Nat
  tail : Nat
  tasks : Nat → Task
  live : List Nat
  fresh : Nat

/-- Before the first call. -/
def TaskQueue.empty : TaskQueue := ⟨0, 0, fun _ => ⟨0, 0, 0, 0⟩, [], 1⟩

namespace TaskQueue

/-- The link of a task. -/
def next (q : TaskQueue) (t : Nat) : Nat := (q.tasks t).next

/-- Store to the link of a task. -/
def setNext (q : TaskQueue) (t n : Nat) : TaskQueue :=
  { q with tasks := Function.update q.tasks t { q.tasks t with next := n } }

/-- `add_ref` of a task. -/
def addRef (q : TaskQueue) (t : Nat) : TaskQueue :=
  { q with tasks := Function.update q.tasks t { q.tasks t with refs := (q.tasks t).refs + 1 } }

end TaskQueue

def taskAlloc (callback user : Nat) (q : TaskQueue) : Nat × TaskQueue :=
  (q.fresh, { q with
    tasks := Function.update q.tasks q.fresh ⟨callback, user, 0, 0⟩
    live := q.fresh :: q.live
    fresh := q.fresh + 1 })

/-- `task_alloc` when `kmem_alloc` returns `t`, which may have been a task before. -/
def taskAllocAt (t callback user : Nat) (q : TaskQueue) : TaskQueue :=
  { q with
    tasks := Function.update q.tasks t ⟨callback, user, 0, 0⟩
    live := t :: q.live
    fresh := max q.fresh (t + 1) }

theorem taskAlloc_eq (callback user : Nat) (q : TaskQueue) :
    taskAlloc callback user q = (q.fresh, taskAllocAt q.fresh callback user q) := by
  rw [taskAllocAt, Nat.max_eq_right (Nat.le_succ _)]
  rfl

def taskEnqueue (t : Nat) (q : TaskQueue) : Except Trap TaskQueue :=
  if q.next t ≠ 0 ∨ q.head = t then .ok q
  else
    let q := q.addRef t
    if q.head = 0 then .ok { q with head := t, tail := t }
    else if q.tail ≠ 0 then
      let q := q.setNext q.tail t
      .ok { q with tail := t }
    else .error (.panic "Head without a tail")

/-- The result is the task, or zero. -/
def taskGet (q : TaskQueue) : Nat × TaskQueue :=
  if q.head ≠ 0 then
    let tmp := q.head
    let q := { q with head := q.next q.head }
    (tmp, q.setNext tmp 0)
  else (0, q)

/-- `release_ref(t, kmem_free)`. -/
def taskRelease (t : Nat) (q : TaskQueue) : Except Trap TaskQueue :=
  if t ∈ q.live then
    let refs := (q.tasks t).refs - 1
    let q := { q with tasks := Function.update q.tasks t { q.tasks t with refs := refs } }
    .ok (if refs = 0 then { q with live := q.live.erase t } else q)
  else .error .useAfterFree

/-! ## Histories -/

inductive TaskOp where
  | alloc (callback user : Nat)
  | enqueue (t : Nat)
  | get
  deriving DecidableEq

/-- A call; only live tasks are enqueued. -/
def taskStep (q : TaskQueue) : TaskOp → Except Trap TaskQueue
  | .alloc callback user => .ok (taskAlloc callback user q).2
  | .enqueue t => if t ∈ q.live then taskEnqueue t q else .error .useAfterFree
  | .get => .ok (taskGet q).2

/-- The queue as it is meant: the tasks in the order in which they came, and how many
references to each task are outside of the queue. -/
structure Fifo where
  queue : List Nat
  external : Nat → Nat

namespace Fifo

def empty : Fifo := ⟨[], fun _ => 0⟩

/-- A task that is already queued stays where it is; one that is taken out leaves its
reference to the caller. -/
def step (a : Fifo) : TaskOp → Fifo
  | .alloc _ _ => a
  | .enqueue t => if t ∈ a.queue then a else { a with queue := a.queue ++ [t] }
  | .get =>
      match a.queue with
      | [] => a
      | t :: rest => ⟨rest, Function.update a.external t (a.external t + 1)⟩

def run (ops : List TaskOp) : Fifo := ops.foldl step .empty

theorem step_get_nil {a : Fifo} (h : a.queue = []) : a.step .get = a := by
  rw [step, h]

theorem step_get_cons {a : Fifo} {t : Nat} {rest : List Nat} (h : a.queue = t :: rest) :
    a.step .get = ⟨rest, Function.update a.external t (a.external t + 1)⟩ := by
  rw [step, h]

/-- How many references a task has. -/
def refs (a : Fifo) (t : Nat) : Nat := a.external t + if t ∈ a.queue then 1 else 0

end Fifo

/-- The linked list is the abstract queue. -/
structure Represents (q : TaskQueue) (a : Fifo) : Prop where
  chain : Chain q.next q.head a.queue
  tail : ∀ t, a.queue.getLast? = some t → q.tail = t
  idle : ∀ t ∈ q.live, t ∉ a.queue → q.next t = 0
  refs : ∀ t ∈ q.live, (q.tasks t).refs = BitVec.ofNat 32 (a.refs t)
  queued : ∀ t ∈ a.queue, t ∈ q.live
  bounds : ∀ t ∈ q.live, 0 < t ∧ t < q.fresh
  unused : 0 < q.fresh ∧ ∀ t, q.fresh ≤ t → a.external t = 0

/-- The call does not enqueue the last one of several tasks again. Its link is zero like
that of a task outside of the queue. -/
def TaskOp.Sound (q : TaskQueue) (op : TaskOp) : Prop :=
  ∀ t, op = .enqueue t → q.head ≠ 0 → q.tail = t → q.head = t

instance (q : TaskQueue) (op : TaskOp) : Decidable (op.Sound q) := by
  cases op with
  | enqueue t =>
      exact decidable_of_iff (q.head ≠ 0 → q.tail = t → q.head = t)
        ⟨fun h t' heq => by cases heq; exact h, fun h => h t rfl⟩
  | alloc _ _ => exact isTrue fun _ h => nomatch h
  | get => exact isTrue fun _ h => nomatch h

section

variable {q q' : TaskQueue} {a : Fifo} {t n : Nat}

@[simp] theorem TaskQueue.next_setNext : (q.setNext t n).next = Function.update q.next t n := by
  funext x
  by_cases h : x = t
  · subst h
    simp [TaskQueue.next, TaskQueue.setNext]
  · simp [TaskQueue.next, TaskQueue.setNext, h]

@[simp] theorem TaskQueue.refs_setNext (x : Nat) :
    ((q.setNext t n).tasks x).refs = (q.tasks x).refs := by
  by_cases h : x = t
  · subst h
    simp [TaskQueue.setNext]
  · simp [TaskQueue.setNext, h]

@[simp] theorem TaskQueue.next_addRef : (q.addRef t).next = q.next := by
  funext x
  by_cases h : x = t
  · subst h
    simp [TaskQueue.next, TaskQueue.addRef]
  · simp [TaskQueue.next, TaskQueue.addRef, h]

theorem TaskQueue.refs_addRef (x : Nat) :
    ((q.addRef t).tasks x).refs = if x = t then (q.tasks t).refs + 1 else (q.tasks x).refs := by
  by_cases h : x = t
  · subst h
    simp [TaskQueue.addRef]
  · simp [TaskQueue.addRef, h]

/-- Links and counts apart, the tasks are the same. -/
structure TaskQueue.SameTasks (q q' : TaskQueue) : Prop where
  live : q'.live = q.live
  fresh : q'.fresh = q.fresh
  task : ∀ x, (q'.tasks x).task = (q.tasks x).task
  user : ∀ x, (q'.tasks x).user = (q.tasks x).user

namespace TaskQueue.SameTasks

theorem setNext (q : TaskQueue) (t n : Nat) : q.SameTasks (q.setNext t n) := by
  refine ⟨rfl, rfl, fun x => ?_, fun x => ?_⟩
  all_goals
    by_cases h : x = t
    · subst h
      simp [TaskQueue.setNext]
    · simp [TaskQueue.setNext, h]

theorem addRef (q : TaskQueue) (t : Nat) : q.SameTasks (q.addRef t) := by
  refine ⟨rfl, rfl, fun x => ?_, fun x => ?_⟩
  all_goals
    by_cases h : x = t
    · subst h
      simp [TaskQueue.addRef]
    · simp [TaskQueue.addRef, h]

theorem enqueue (q : TaskQueue) (t : Nat) : (taskEnqueue t q).Post q.SameTasks := by
  have hadd := addRef q t
  unfold taskEnqueue
  split
  · exact .ok ⟨rfl, rfl, fun _ => rfl, fun _ => rfl⟩
  · dsimp only
    split
    · exact .ok ⟨rfl, rfl, hadd.task, hadd.user⟩
    · split
      · have hset := setNext (q.addRef t) q.tail t
        exact .ok ⟨rfl, rfl, fun x => (hset.task x).trans (hadd.task x),
          fun x => (hset.user x).trans (hadd.user x)⟩
      · exact .error

theorem get (q : TaskQueue) : q.SameTasks (taskGet q).2 := by
  unfold taskGet
  split
  · have hset := setNext { q with head := q.next q.head } q.head 0
    exact ⟨rfl, rfl, hset.task, hset.user⟩
  · exact ⟨rfl, rfl, fun _ => rfl, fun _ => rfl⟩

end TaskQueue.SameTasks

namespace Represents

theorem empty : Represents .empty .empty where
  chain := rfl
  tail _ h := nomatch h
  idle _ h := nomatch h
  refs _ h := nomatch h
  queued _ h := nomatch h
  bounds _ h := nomatch h
  unused := ⟨Nat.zero_lt_one, fun _ _ => rfl⟩

/-- A new task is at an address that no live task has. -/
theorem allocAt (h : Represents q a) (ht : t ≠ 0) (hnew : t ∉ q.live) (hext : a.external t = 0)
    (callback user : Nat) : Represents (taskAllocAt t callback user q) a := by
  have hold : ∀ x ∈ q.live, (taskAllocAt t callback user q).tasks x = q.tasks x :=
    fun x hx => Function.update_of_ne (fun heq : x = t => hnew (heq ▸ hx)) _ _
  have hself : (taskAllocAt t callback user q).tasks t = ⟨callback, user, 0, 0⟩ :=
    Function.update_self t _ q.tasks
  have hnot : t ∉ a.queue := fun hmem => hnew (h.queued _ hmem)
  refine ⟨?_, h.tail, ?_, ?_, ?_, ?_, ?_⟩
  · exact h.chain.congr fun x hx => congrArg Task.next (hold x (h.queued x hx))
  · intro x hx hxnot
    obtain rfl | hx := List.mem_cons.mp hx
    · exact congrArg Task.next hself
    · exact (congrArg Task.next (hold x hx)).trans (h.idle x hx hxnot)
  · intro x hx
    obtain rfl | hx := List.mem_cons.mp hx
    · rw [Fifo.refs, hext, if_neg hnot]
      exact congrArg Task.refs hself
    · exact (congrArg Task.refs (hold x hx)).trans (h.refs x hx)
  · exact fun x hx => List.mem_cons_of_mem _ (h.queued x hx)
  · intro x hx
    obtain rfl | hx := List.mem_cons.mp hx
    · exact ⟨Nat.pos_of_ne_zero ht, (Nat.lt_succ_self _).trans_le (Nat.le_max_right _ _)⟩
    · exact ⟨(h.bounds x hx).1, (h.bounds x hx).2.trans_le (Nat.le_max_left _ _)⟩
  · exact ⟨h.unused.1.trans_le (Nat.le_max_left _ _),
      fun x hx => h.unused.2 x ((Nat.le_max_left _ _).trans hx)⟩

theorem alloc (h : Represents q a) (callback user : Nat) :
    Represents (taskAlloc callback user q).2 a := by
  rw [taskAlloc_eq]
  apply h.allocAt h.unused.1.ne'
  · exact fun hmem => (h.bounds _ hmem).2.ne rfl
  · exact h.unused.2 _ (Nat.le_refl _)

theorem head_ne_zero_iff (h : Represents q a) : q.head ≠ 0 ↔ a.queue ≠ [] :=
  not_congr h.chain.eq_nil_iff.symm

theorem head_of_queue {rest : List Nat} (h : Represents q a) (hq : a.queue = t :: rest) :
    q.head = t :=
  (hq ▸ h.chain : Chain q.next q.head (t :: rest)).head_eq

/-- A task outside of the queue passes the test for membership. -/
theorem not_linked (h : Represents q a) (ht : t ∈ q.live) (hnot : t ∉ a.queue) :
    ¬(q.next t ≠ 0 ∨ q.head = t) := by
  rintro (hnext | rfl)
  · exact hnext (h.idle t ht hnot)
  · cases hq : a.queue with
    | nil => exact (h.bounds _ ht).1.ne (h.chain.eq_nil_iff.mp hq).symm
    | cons b rest =>
        rw [h.head_of_queue hq, hq] at hnot
        exact hnot List.mem_cons_self

/-- The task at the end of the queue is the one whose link says nothing. -/
theorem tail_of_unsound (h : Represents q a) (hop : ¬TaskOp.Sound q (.enqueue t)) :
    a.queue.getLast? = some t ∧ q.head ≠ 0 ∧ q.head ≠ t := by
  obtain ⟨hhead, htail, hne⟩ : q.head ≠ 0 ∧ q.tail = t ∧ q.head ≠ t := by
    refine Classical.not_not.mp fun hnot => hop ?_
    intro t' heq hhead htail
    cases heq
    exact Classical.not_not.mp fun hne => hnot ⟨hhead, htail, hne⟩
  refine ⟨?_, hhead, hne⟩
  rw [← htail, h.tail _ (List.getLast?_eq_some_getLast (h.head_ne_zero_iff.mp hhead))]
  exact List.getLast?_eq_some_getLast _

/-- A queued task is left alone. -/
theorem enqueue_queued (h : Represents q a) (hmem : t ∈ a.queue)
    (hop : TaskOp.Sound q (.enqueue t)) : taskEnqueue t q = .ok q := by
  refine if_pos ?_
  by_cases hnext : q.next t = 0
  · have hlast := (h.chain.next_eq_zero_iff hmem).mp hnext
    exact .inr (hop t rfl (h.head_ne_zero_iff.mpr (List.ne_nil_of_mem hmem)) (h.tail t hlast))
  · exact .inl hnext

/-- Reference counts after one more task was queued. -/
theorem refs_enqueued (h : Represents q a) (ht : t ∈ q.live) (hnot : t ∉ a.queue) :
    ∀ x ∈ q.live, ((q.addRef t).tasks x).refs =
      BitVec.ofNat 32 (Fifo.refs { a with queue := a.queue ++ [t] } x) := by
  intro x hx
  rw [TaskQueue.refs_addRef, Fifo.refs]
  by_cases heq : x = t
  · subst heq
    rw [if_pos rfl, h.refs x ht, Fifo.refs, if_neg hnot,
      if_pos (List.mem_append_right _ (List.mem_singleton_self x)), Nat.add_zero,
      BitVec.ofNat_add]
    rfl
  · have hiff : x ∈ a.queue ++ [t] ↔ x ∈ a.queue := by
      rw [List.mem_append, List.mem_singleton, or_iff_left heq]
    rw [if_neg heq, h.refs x hx, Fifo.refs, if_congr hiff rfl rfl]

theorem enqueue_new (h : Represents q a) (ht : t ∈ q.live) (hnot : t ∉ a.queue) :
    ∃ q', taskEnqueue t q = .ok q' ∧ Represents q' { a with queue := a.queue ++ [t] } := by
  have hpos := (h.bounds t ht).1
  have hlast : (a.queue ++ [t]).getLast? = some t := List.getLast?_concat
  have hqueued : ∀ x ∈ a.queue ++ [t], x ∈ q.live := by
    intro x hx
    obtain hx | hx := List.mem_append.mp hx
    · exact h.queued x hx
    · exact List.mem_singleton.mp hx ▸ ht
  obtain hnil | ⟨rest, b, hq⟩ := List.eq_nil_or_concat' a.queue
  · have hhead := h.chain.eq_nil_iff.mp hnil
    refine ⟨{ q.addRef t with head := t, tail := t }, ?_, ?_, ?_, ?_, h.refs_enqueued ht hnot,
      hqueued, h.bounds, h.unused⟩
    · rw [taskEnqueue, if_neg (h.not_linked ht hnot)]
      exact if_pos hhead
    · change Chain (q.addRef t).next t (a.queue ++ [t])
      rw [hnil, TaskQueue.next_addRef]
      exact Chain.cons hpos.ne' (h.idle t ht hnot)
    · intro x hx
      exact Option.some.inj (hlast.symm.trans hx)
    · intro x hx hxnot
      change (q.addRef t).next x = 0
      rw [TaskQueue.next_addRef]
      exact h.idle x hx fun hmem => hxnot (List.mem_append_left _ hmem)
  · have htail : q.tail = b := h.tail b (hq ▸ List.getLast?_concat)
    have hb : b ∈ a.queue := hq ▸ List.mem_append_right _ (List.mem_singleton_self b)
    have hhead : q.head ≠ 0 := h.head_ne_zero_iff.mpr (List.ne_nil_of_mem hb)
    refine ⟨{ (q.addRef t).setNext q.tail t with tail := t }, ?_, ?_, ?_, ?_, ?_, hqueued,
      h.bounds, h.unused⟩
    · rw [taskEnqueue, if_neg (h.not_linked ht hnot)]
      exact (if_neg hhead).trans (if_pos (htail ▸ h.chain.ne_zero hb))
    · change Chain ((q.addRef t).setNext q.tail t).next q.head (a.queue ++ [t])
      rw [TaskQueue.next_setNext, TaskQueue.next_addRef, htail, hq, List.append_assoc]
      exact Chain.append (hq ▸ h.chain) hpos.ne' (hq ▸ hnot) (h.idle t ht hnot)
    · intro x hx
      exact Option.some.inj (hlast.symm.trans hx)
    · intro x hx hxnot
      change ((q.addRef t).setNext q.tail t).next x = 0
      have hold : x ∉ a.queue := fun hmem => hxnot (List.mem_append_left _ hmem)
      rw [TaskQueue.next_setNext, TaskQueue.next_addRef, htail,
        Function.update_of_ne (fun heq : x = b => hold (heq ▸ hb))]
      exact h.idle x hx hold
    · intro x hx
      change (((q.addRef t).setNext q.tail t).tasks x).refs = _
      rw [TaskQueue.refs_setNext]
      exact h.refs_enqueued ht hnot x hx

theorem get (h : Represents q a) : Represents (taskGet q).2 (a.step .get) := by
  cases hq : a.queue with
  | nil =>
      have hhead := h.chain.eq_nil_iff.mp hq
      rw [taskGet, if_neg (not_not_intro hhead), Fifo.step_get_nil hq]
      exact h
  | cons t rest =>
      obtain ⟨rfl, hne, hrest⟩ : Chain q.next q.head (t :: rest) := hq ▸ h.chain
      have hmem : q.head ∈ a.queue := hq ▸ List.mem_cons_self
      have hfirst : q.head ∉ rest := (List.nodup_cons.mp (hq ▸ h.chain.nodup)).1
      rw [taskGet, if_pos hne, Fifo.step_get_cons hq]
      refine ⟨?_, ?_, ?_, ?_, ?_, h.bounds, h.unused.1, ?_⟩
      · rw [TaskQueue.next_setNext]
        refine hrest.congr fun x hx => Function.update_of_ne ?_ _ _
        rintro rfl
        exact hfirst hx
      · intro x hx
        refine h.tail x ?_
        rw [hq, List.getLast?_cons]
        exact congrArg some (by rw [hx]; rfl)
      · intro x hx hxnot
        rw [TaskQueue.next_setNext]
        by_cases heq : x = q.head
        · subst heq
          exact Function.update_self ..
        · refine (Function.update_of_ne heq ..).trans (h.idle x hx ?_)
          rw [hq]
          exact List.not_mem_cons_of_ne_of_not_mem heq hxnot
      · intro x hx
        rw [TaskQueue.refs_setNext]
        refine (h.refs x hx).trans (congrArg _ ?_)
        by_cases heq : x = q.head
        · subst heq
          rw [Fifo.refs, Fifo.refs, if_pos hmem, if_neg hfirst]
          exact (Function.update_self q.head _ a.external).symm
        · have hiff : x ∈ a.queue ↔ x ∈ rest := by
            rw [hq, List.mem_cons, or_iff_right heq]
          rw [Fifo.refs, Fifo.refs, if_congr hiff rfl rfl]
          exact congrArg (· + _) (Function.update_of_ne heq _ a.external).symm
      · exact fun x hx => h.queued x (hq ▸ List.mem_cons_of_mem _ hx)
      · intro x hx
        have hlt := (h.bounds _ (h.queued _ hmem)).2
        refine (Function.update_of_ne ?_ ..).trans (h.unused.2 x hx)
        exact fun heq => absurd hx (Nat.not_le.mpr (heq ▸ hlt))

/-- What `task_get` returns is the first task of the queue. -/
theorem get_fst (h : Represents q a) : (taskGet q).1 = a.queue.headD 0 := by
  cases hq : a.queue with
  | nil => exact congrArg Prod.fst (if_neg (not_not_intro (h.chain.eq_nil_iff.mp hq)))
  | cons t rest =>
      have hhead := h.head_of_queue hq
      have hne : q.head ≠ 0 := h.head_ne_zero_iff.mpr (hq ▸ List.cons_ne_nil t rest)
      rw [taskGet, if_pos hne]
      exact hhead

/-- The reference of the queue was the only one to a task that is done. -/
theorem release {rest : List Nat} {external : Nat → Nat}
    (h : Represents q ⟨rest, Function.update external t 1⟩) (hext : external t = 0)
    (ht : t ∈ q.live) (hnot : t ∉ rest) (hnodup : q.live.Nodup) :
    ∃ q', taskRelease t q = .ok q' ∧ q'.live = q.live.erase t ∧
      (∀ x, x ≠ t → q'.tasks x = q.tasks x) ∧ Represents q' ⟨rest, external⟩ := by
  have hone : (q.tasks t).refs = 1 := by
    rw [h.refs t ht, Fifo.refs, if_neg hnot]
    show BitVec.ofNat 32 (Function.update external t 1 t + 0) = 1
    rw [Function.update_self]
    rfl
  have hzero : (q.tasks t).refs - 1 = 0 := by
    rw [hone]
    rfl
  have hother : ∀ x, x ≠ t → Function.update q.tasks t { q.tasks t with refs := 0 } x = q.tasks x :=
    fun x hx => Function.update_of_ne hx _ _
  have hne : ∀ x ∈ q.live.erase t, x ∈ q.live ∧ x ≠ t := fun x hx =>
    ⟨List.mem_of_mem_erase hx, (hnodup.mem_erase_iff.mp hx).1⟩
  have hqueued : ∀ x ∈ rest, x ≠ t := fun x hx heq => hnot (heq ▸ hx)
  refine ⟨_, if_pos ht, ?_⟩
  rw [hzero, if_pos rfl]
  refine ⟨rfl, hother, ?_, h.tail, ?_, ?_, ?_, ?_, h.unused.1, ?_⟩
  · exact h.chain.congr fun x hx => congrArg Task.next (hother x (hqueued x hx))
  · intro x hx hxnot
    obtain ⟨hlive, hx⟩ := hne x hx
    exact (congrArg Task.next (hother x hx)).trans (h.idle x hlive hxnot)
  · intro x hx
    obtain ⟨hlive, hx⟩ := hne x hx
    refine (congrArg Task.refs (hother x hx)).trans ((h.refs x hlive).trans (congrArg _ ?_))
    rw [Fifo.refs, Fifo.refs]
    exact congrArg (· + _) (Function.update_of_ne hx 1 external)
  · exact fun x hx => (List.mem_erase_of_ne (hqueued x hx)).mpr (h.queued x hx)
  · exact fun x hx => h.bounds x (hne x hx).1
  · intro x hx
    by_cases heq : x = t
    · rw [heq]
      exact hext
    · exact (Function.update_of_ne heq 1 external).symm.trans (h.unused.2 x hx)

theorem step {op : TaskOp} (h : Represents q a) (hop : op.Sound q)
    (hstep : taskStep q op = .ok q') : Represents q' (a.step op) := by
  cases op with
  | alloc callback user =>
      cases hstep
      exact h.alloc callback user
  | get =>
      cases hstep
      exact h.get
  | enqueue t =>
      rw [taskStep] at hstep
      by_cases ht : t ∈ q.live
      · rw [if_pos ht] at hstep
        by_cases hmem : t ∈ a.queue
        · rw [h.enqueue_queued hmem hop] at hstep
          cases hstep
          rw [Fifo.step, if_pos hmem]
          exact h
        · obtain ⟨q'', heq, hnew⟩ := h.enqueue_new ht hmem
          rw [heq] at hstep
          cases hstep
          rw [Fifo.step, if_neg hmem]
          exact hnew
      · rw [if_neg ht] at hstep
        cases hstep

/-- A second reference is taken for the task at the end of the queue. -/
theorem step_unsound {op : TaskOp} (h : Represents q a) (hop : ¬op.Sound q)
    (hstep : taskStep q op = .ok q') : ¬Represents q' (a.step op) := by
  cases op with
  | alloc callback user => exact absurd (fun _ heq => by cases heq) hop
  | get => exact absurd (fun _ heq => by cases heq) hop
  | enqueue t =>
      obtain ⟨hlast, hhead, hne⟩ := h.tail_of_unsound hop
      have hmem : t ∈ a.queue := List.mem_of_getLast? hlast
      have ht := h.queued t hmem
      have htail := h.tail t hlast
      have hnext := (h.chain.next_eq_zero_iff hmem).mpr hlast
      have hq' : taskEnqueue t q = .ok { (q.addRef t).setNext q.tail t with tail := t } := by
        rw [taskEnqueue, if_neg (not_or.mpr ⟨not_not_intro hnext, hne⟩)]
        exact (if_neg hhead).trans (if_pos (htail.symm ▸ h.chain.ne_zero hmem))
      rw [taskStep, if_pos ht, hq'] at hstep
      cases hstep
      intro hafter
      have hrefs : (((q.addRef t).setNext q.tail t).tasks t).refs = _ := hafter.refs t ht
      rw [TaskQueue.refs_setNext, TaskQueue.refs_addRef, if_pos rfl, Fifo.step, if_pos hmem,
        ← h.refs t ht] at hrefs
      revert hrefs
      generalize (q.tasks t).refs = n
      intro hrefs
      have hone : (1 : BitVec 32) = 0 := BitVec.add_right_eq_self.mp hrefs
      exact absurd hone (by decide)

end Represents

end

/-- The list is the abstract queue after every run that does not enqueue the task at the
end again. -/
theorem run_represents {ops : List TaskOp} {q : TaskQueue}
    (run : Transition.Run taskStep (fun q op => op.Sound q) .empty ops q) :
    Represents q (Fifo.run ops) :=
  run.simulates (R := Represents) (fun _ _ _ _ h hop hstep => h.step hop hstep) .empty

/-- The second of two tasks is enqueued twice: its link then leads back to itself. -/
theorem enqueue_tail_twice : ¬∀ (ops : List TaskOp) (q : TaskQueue),
    Transition.exec taskStep .empty ops = .ok q → Represents q (Fifo.run ops) := by
  intro claim
  have h := claim [.alloc 0 0, .alloc 0 0, .enqueue 1, .enqueue 2, .enqueue 2] _ rfl
  obtain ⟨_, _, _, _, hend⟩ := h.chain
  have hself : 2 = 0 := hend
  exact absurd hself (by decide)

/-- After every run that does not enqueue the task at the end again, the list is the
abstract queue, a queued task is left alone, `task_get` returns the first task, and no
live task makes `task_enqueue` fail. One more call keeps this exactly if it does not
enqueue the task at the end again. -/
theorem queue_integrity (ops : List TaskOp) (q : TaskQueue)
    (run : Transition.Run taskStep (fun q op => op.Sound q) .empty ops q) :
    Represents q (Fifo.run ops) ∧
      (∀ t ∈ (Fifo.run ops).queue, TaskOp.Sound q (.enqueue t) → taskEnqueue t q = .ok q) ∧
      (taskGet q).1 = (Fifo.run ops).queue.headD 0 ∧
      (∀ t ∈ q.live, TaskOp.Sound q (.enqueue t) → ∃ q', taskEnqueue t q = .ok q') ∧
      ∀ op q', taskStep q op = .ok q' →
        (Represents q' ((Fifo.run ops).step op) ↔ op.Sound q) := by
  have h := run_represents run
  refine ⟨h, fun t hmem hop => h.enqueue_queued hmem hop, h.get_fst, ?_, ?_⟩
  · intro t ht hop
    by_cases hmem : t ∈ (Fifo.run ops).queue
    · exact ⟨q, h.enqueue_queued hmem hop⟩
    · obtain ⟨q', heq, _⟩ := h.enqueue_new ht hmem
      exact ⟨q', heq⟩
  · intro op q' hstep
    refine ⟨fun hafter => ?_, fun hop => h.step hop hstep⟩
    by_cases hop : op.Sound q
    · exact hop
    · exact absurd hafter (h.step_unsound hop hstep)

theorem queue_integrity_run : ∃ q : TaskQueue, Transition.Run taskStep (fun q op => op.Sound q)
    .empty [.alloc 0 0, .alloc 0 0, .enqueue 1, .enqueue 2, .enqueue 1, .get] q ∧
      q.head = 2 ∧ Represents q ⟨[2], fun t => if t = 1 then 1 else 0⟩ := by
  have hrun : Transition.check taskStep (fun q op => op.Sound q) (fun q => q.head == 2) .empty
      [.alloc 0 0, .alloc 0 0, .enqueue 1, .enqueue 2, .enqueue 1, .get] = true := by decide
  obtain ⟨q, run, hhead⟩ := Transition.Run.of_check hrun
  refine ⟨q, run, eq_of_beq hhead, ?_⟩
  have h := (queue_integrity _ q run).1
  have heq : Fifo.run [.alloc 0 0, .alloc 0 0, .enqueue 1, .enqueue 2, .enqueue 1, .get] =
      ⟨[2], fun t => if t = 1 then 1 else 0⟩ := by
    refine congrArg (Fifo.mk [2]) (funext fun t => ?_)
    change Function.update (fun _ => 0) 1 1 t = _
    rw [Function.update_apply]
  exact heq ▸ h

end BadOs
