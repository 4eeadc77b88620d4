import BadOs.Data.Forest
import BadOs.Task.Queue

/-!
# Tasks that enqueue tasks

`task_poll_for_work` runs the tasks of the queue until none is left. The callbacks here do
nothing but call `task_enqueue_easy`. Which calls the callback of a task makes is assigned to
the task when it is enqueued, as a tree, and `kmem_alloc` may return any address that is free.
-/

namespace BadOs

namespace Polling

/-- The callback and the user argument of a task, and the tasks that the callback enqueues. -/
abbrev Work := Rose (Nat × Nat)

/-- What happens, for the record; a call is a callback with its user argument. -/
inductive Event where
  | enqueued (t : Nat) (call : Nat × Nat)
  | called (t : Nat) (call : Nat × Nat)
  | freed (t : Nat)
  deriving DecidableEq

/-- The queue, the assignment to the tasks by their addresses, the number of calls of
`kmem_alloc` and the record. -/
structure Poll where
  tasks : TaskQueue
  work : Nat → Work
  allocs : Nat
  log : List Event

section

-- what `kmem_alloc` returns, given how often it was called and the live objects
variable (kmemAlloc : Nat → List Nat → Nat)

def taskEnqueueEasy (w : Work) (p : Poll) : Except Trap Poll := do
  let t := kmemAlloc p.allocs p.tasks.live
  let q ← taskEnqueue t (taskAllocAt t w.label.1 w.label.2 p.tasks)
  return {
    tasks := q
    work := Function.update p.work t w
    allocs := p.allocs + 1
    log := p.log ++ [.enqueued t w.label] }

/-- The calls of `task_enqueue_easy`, one after the other. -/
def enqueueAll : List Work → Poll → Except Trap Poll
  | [], p => .ok p
  | w :: ws, p => do
      let p ← taskEnqueueEasy kmemAlloc w p
      enqueueAll ws p

/-- `t->task(t->user)`. -/
def taskCall (t : Nat) (p : Poll) : Except Trap Poll :=
  if t ∈ p.tasks.live then
    let task := p.tasks.tasks t
    enqueueAll kmemAlloc (p.work t).children
      { p with log := p.log ++ [.called t (task.task, task.user)] }
  else .error .useAfterFree

def taskPollForWork : (fuel : Nat) → Poll → Except Trap Poll
  | 0, _ => .error .diverged
  | fuel + 1, p =>
      let (t, q) := taskGet p.tasks
      if t ≠ 0 then do
        let p ← taskCall kmemAlloc t { p with tasks := q }
        let q ← taskRelease t p.tasks
        taskPollForWork fuel { p with
          tasks := q
          log := p.log ++ if t ∈ q.live then [] else [.freed t] }
      else .ok { p with tasks := q }

end

/-- Before the first call, with the tasks that there are. -/
def start (q : TaskQueue) : Poll := ⟨q, fun _ => .node (0, 0) [], 0, []⟩

/-! ## One task -/

/-- The run of a task: its address, its call, and the tasks that were enqueued by it. -/
structure TaskRun where
  task : Nat
  call : Nat × Nat
  enqueued : List (Nat × Nat × Nat)

/-- A task is called, its callback enqueues others and returns, and the task is freed. -/
def TaskRun.events (r : TaskRun) : List Event :=
  .called r.task r.call :: r.enqueued.map (fun e => .enqueued e.1 e.2) ++ [.freed r.task]

/-- The tasks at these addresses, with their calls. -/
def Poll.calls (p : Poll) (ts : List Nat) : List (Nat × Nat × Nat) :=
  ts.map fun t => (t, (p.work t).label)

/-- The tasks in the queue are those at these addresses, each with the call of its tree. -/
structure Sound (p : Poll) (external : Nat → Nat) (queue : List Nat) : Prop where
  represents : Represents p.tasks ⟨queue, external⟩
  nodup : p.tasks.live.Nodup
  unused : ∀ t, t ∉ p.tasks.live → external t = 0
  given : ∀ t ∈ queue, external t = 0
  call : ∀ t ∈ queue, ((p.tasks.tasks t).task, (p.tasks.tasks t).user) = (p.work t).label

section

variable {kmemAlloc : Nat → List Nat → Nat} {p : Poll} {external : Nat → Nat} {queue : List Nat}

/-- A task that is enqueued comes last. -/
theorem Sound.enqueue (h : Sound p external queue)
    (disjoint : ∀ i live, kmemAlloc i live ≠ 0 ∧ kmemAlloc i live ∉ live) (w : Work) :
    ∃ p' t, taskEnqueueEasy kmemAlloc w p = .ok p' ∧ Sound p' external (queue ++ [t]) ∧
      p'.tasks.live = t :: p.tasks.live ∧ t ∉ p.tasks.live ∧ p'.work = Function.update p.work t w ∧
      p'.log = p.log ++ [.enqueued t w.label] := by
  obtain ⟨hpos, hnew⟩ := disjoint p.allocs p.tasks.live
  generalize ht : kmemAlloc p.allocs p.tasks.live = t at hpos hnew
  have halloc := h.represents.allocAt hpos hnew (h.unused t hnew) w.label.1 w.label.2
  have hnot : t ∉ queue := fun hmem => hnew (h.represents.queued t hmem)
  obtain ⟨q, hq, hrep⟩ := halloc.enqueue_new List.mem_cons_self hnot
  have same := TaskQueue.SameTasks.enqueue _ _ _ hq
  have hrun : taskEnqueueEasy kmemAlloc w p = .ok
      ⟨q, Function.update p.work t w, p.allocs + 1, p.log ++ [.enqueued t w.label]⟩ := by
    rw [← ht] at hq ⊢
    exact Except.bind_eq_ok.mpr ⟨q, hq, rfl⟩
  have hlive : q.live = t :: p.tasks.live := same.live
  refine ⟨_, t, hrun, ⟨hrep, ?_, ?_, ?_, ?_⟩, hlive, hnew, rfl, rfl⟩
  · change q.live.Nodup
    rw [hlive]
    exact List.nodup_cons.mpr ⟨hnew, h.nodup⟩
  · intro x hx
    apply h.unused
    change x ∉ q.live at hx
    rw [hlive] at hx
    exact fun hmem => hx (List.mem_cons_of_mem _ hmem)
  · intro x hx
    obtain hx | hx := List.mem_append.mp hx
    · exact h.given x hx
    · rw [List.mem_singleton.mp hx]
      exact h.unused t hnew
  · intro x hx
    change ((q.tasks x).task, (q.tasks x).user) = (Function.update p.work t w x).label
    rw [same.task, same.user]
    obtain hx | hx := List.mem_append.mp hx
    · have hne : x ≠ t := fun heq => hnot (heq ▸ hx)
      simp only [taskAllocAt, Function.update_of_ne hne]
      exact h.call x hx
    · rw [List.mem_singleton.mp hx]
      simp only [taskAllocAt, Function.update_self]

/-- The tasks that are enqueued come last, in their order. -/
theorem Sound.enqueueAll (h : Sound p external queue)
    (disjoint : ∀ i live, kmemAlloc i live ≠ 0 ∧ kmemAlloc i live ∉ live) (ws : List Work) :
    ∃ p' ts, enqueueAll kmemAlloc ws p = .ok p' ∧ Sound p' external (queue ++ ts) ∧
      p'.tasks.live.Perm (ts ++ p.tasks.live) ∧ (∀ t ∈ ts, t ∉ p.tasks.live) ∧
      (∀ t ∈ p.tasks.live, p'.work t = p.work t) ∧ ts.map p'.work = ws ∧
      p'.log = p.log ++ (p'.calls ts).map fun e => .enqueued e.1 e.2 := by
  induction ws generalizing p queue with
  | nil =>
      refine ⟨p, [], rfl, ?_, .refl _, ?_, fun _ _ => rfl, rfl, (List.append_nil _).symm⟩
      · rwa [List.append_nil]
      · exact fun t ht => absurd ht List.not_mem_nil
  | cons w ws ih =>
      obtain ⟨p₁, t, hp₁, h₁, hlive₁, hnew, hwork₁, hlog₁⟩ := h.enqueue disjoint w
      obtain ⟨p₂, ts, hp₂, h₂, hlive₂, hnew₂, hwork₂, hts, hlog₂⟩ := ih h₁
      have hself : p₂.work t = w := by
        rw [hwork₂ t (hlive₁ ▸ List.mem_cons_self), hwork₁, Function.update_self]
      refine ⟨p₂, t :: ts, Except.bind_eq_ok.mpr ⟨p₁, hp₁, hp₂⟩, ?_, ?_, ?_, ?_, ?_, ?_⟩
      · rwa [List.append_assoc] at h₂
      · rw [hlive₁] at hlive₂
        exact hlive₂.trans List.perm_middle
      · intro x hx
        obtain rfl | hx := List.mem_cons.mp hx
        · exact hnew
        · intro hmem
          exact hnew₂ x hx (hlive₁ ▸ List.mem_cons_of_mem _ hmem)
      · intro x hx
        have hne : x ≠ t := fun heq => hnew (heq ▸ hx)
        rw [hwork₂ x (hlive₁ ▸ List.mem_cons_of_mem _ hx), hwork₁, Function.update_of_ne hne]
      · rw [List.map_cons, hself, hts]
      · rw [hlog₂, hlog₁, Poll.calls, Poll.calls, List.map_cons, List.map_cons, hself,
          List.append_assoc]
        rfl

/-- The first task of the queue leaves it, with one reference to it left. -/
theorem Sound.get {t : Nat} {rest : List Nat} (h : Sound p external (t :: rest)) :
    ∃ q, taskGet p.tasks = (t, q) ∧
      Sound { p with tasks := q } (Function.update external t 1) rest ∧
      q.live = p.tasks.live ∧ t ∈ q.live ∧ t ∉ rest ∧
      ((q.tasks t).task, (q.tasks t).user) = (p.work t).label := by
  have hlive := h.represents.queued t List.mem_cons_self
  have hnot : t ∉ rest := (List.nodup_cons.mp h.represents.chain.nodup).1
  have same := TaskQueue.SameTasks.get p.tasks
  have hget := h.represents.get
  rw [Fifo.step_get_cons rfl] at hget
  change Represents _ ⟨rest, Function.update external t (external t + 1)⟩ at hget
  rw [h.given t List.mem_cons_self] at hget
  have hother : ∀ x, x ≠ t → external x = 0 → Function.update external t 1 x = 0 :=
    fun x hne hzero => (Function.update_of_ne hne _ _).trans hzero
  refine ⟨(taskGet p.tasks).2, Prod.ext h.represents.get_fst rfl, ⟨hget, ?_, ?_, ?_, ?_⟩,
    same.live, same.live ▸ hlive, hnot, ?_⟩
  · change (taskGet p.tasks).2.live.Nodup
    rw [same.live]
    exact h.nodup
  · intro x hx
    change x ∉ (taskGet p.tasks).2.live at hx
    rw [same.live] at hx
    exact hother x (fun heq => hx (heq ▸ hlive)) (h.unused x hx)
  · intro x hx
    exact hother x (fun heq => hnot (heq ▸ hx)) (h.given x (List.mem_cons_of_mem _ hx))
  · intro x hx
    change (((taskGet p.tasks).2.tasks x).task, ((taskGet p.tasks).2.tasks x).user) = _
    rw [same.task, same.user]
    exact h.call x (List.mem_cons_of_mem _ hx)
  · rw [same.task, same.user]
    exact h.call t List.mem_cons_self

/-- A task that is done is freed, as nobody else refers to it. -/
theorem Sound.release {t : Nat} (h : Sound p (Function.update external t 1) queue)
    (hext : external t = 0) (ht : t ∈ p.tasks.live) (hnot : t ∉ queue) (log : List Event) :
    ∃ q, taskRelease t p.tasks = .ok q ∧ q.live = p.tasks.live.erase t ∧
      Sound { p with tasks := q, log := log } external queue := by
  obtain ⟨q, hq, hlive, htasks, hrep⟩ := h.represents.release hext ht hnot h.nodup
  have hother : ∀ x, x ≠ t → Function.update external t 1 x = 0 → external x = 0 :=
    fun x hne hzero => (Function.update_of_ne hne _ _).symm.trans hzero
  refine ⟨q, hq, hlive, hrep, ?_, ?_, ?_, ?_⟩
  · change q.live.Nodup
    rw [hlive]
    exact h.nodup.erase t
  · intro x hx
    change x ∉ q.live at hx
    rw [hlive] at hx
    by_cases heq : x = t
    · rw [heq]
      exact hext
    · exact hother x heq (h.unused x fun hmem => hx ((List.mem_erase_of_ne heq).mpr hmem))
  · intro x hx
    exact hother x (fun heq => hnot (heq ▸ hx)) (h.given x hx)
  · intro x hx
    change ((q.tasks x).task, (q.tasks x).user) = _
    rw [htasks x fun heq => hnot (heq ▸ hx)]
    exact h.call x hx

/-! ## The loop -/

/-- The first task is run: it is called, its callback enqueues the children, and it is freed. -/
theorem Sound.round {t : Nat} {rest : List Nat} (h : Sound p external (t :: rest))
    (disjoint : ∀ i live, kmemAlloc i live ≠ 0 ∧ kmemAlloc i live ∉ live) :
    ∃ p' ts, (∀ fuel, taskPollForWork kmemAlloc (fuel + 1) p = taskPollForWork kmemAlloc fuel p') ∧
      Sound p' external (rest ++ ts) ∧
      rest.map p'.work = rest.map p.work ∧ ts.map p'.work = (p.work t).children ∧
      p'.log = p.log ++ TaskRun.events ⟨t, (p.work t).label, p'.calls ts⟩ ∧
      (ts ++ p.tasks.live).Perm (t :: p'.tasks.live) := by
  have hne : t ≠ 0 := h.represents.chain.ne_zero List.mem_cons_self
  obtain ⟨q, hget, h₁, hlive₁, ht, hnot, hcall⟩ := h.get
  obtain ⟨p₂, ts, hrun, h₂, hlive₂, hnew, hwork₂, hts, hlog₂⟩ :=
    Sound.enqueueAll (p := { p with tasks := q, log := p.log ++ [.called t (p.work t).label] })
      ⟨h₁.represents, h₁.nodup, h₁.unused, h₁.given, h₁.call⟩ disjoint (p.work t).children
  have hnot₂ : t ∉ rest ++ ts := by
    intro hmem
    obtain hmem | hmem := List.mem_append.mp hmem
    · exact hnot hmem
    · exact hnew t hmem ht
  have ht₂ : t ∈ p₂.tasks.live := hlive₂.mem_iff.mpr (List.mem_append_right _ ht)
  obtain ⟨q', hrelease, hlive₃, h₃⟩ :=
    h₂.release (h.given t List.mem_cons_self) ht₂ hnot₂ (p₂.log ++ [.freed t])
  have hfreed : t ∉ q'.live := by
    rw [hlive₃]
    exact fun hmem => (h₂.nodup.mem_erase_iff.mp hmem).1 rfl
  refine ⟨_, ts, fun fuel => ?_, h₃, ?_, hts, ?_, ?_⟩
  · conv_lhs => unfold taskPollForWork
    rw [hget]
    dsimp only
    rw [if_pos hne]
    have hcalled : taskCall kmemAlloc t { p with tasks := q } = .ok p₂ := by
      unfold taskCall
      rw [if_pos (by exact ht)]
      dsimp only
      rw [hcall]
      exact hrun
    rw [hcalled, Except.ok_bind, hrelease, Except.ok_bind, if_neg hfreed]
  · apply List.map_congr_left
    intro x hx
    apply hwork₂
    change x ∈ q.live
    rw [hlive₁]
    exact h.represents.queued x (List.mem_cons_of_mem _ hx)
  · change p₂.log ++ [.freed t] = _
    rw [hlog₂, TaskRun.events]
    simp only [List.append_assoc, List.cons_append, List.nil_append]
    rfl
  · change (ts ++ p.tasks.live).Perm (t :: q'.live)
    rw [hlive₃, ← hlive₁]
    exact hlive₂.symm.trans (List.perm_cons_erase ht₂)

/-- With more fuel than there are tasks to come, the loop ends with an empty queue. It runs the
tasks in the order in which they were enqueued, and what is left are the other tasks. -/
theorem Sound.poll (h : Sound p external queue)
    (disjoint : ∀ i live, kmemAlloc i live ≠ 0 ∧ kmemAlloc i live ∉ live) {fuel : Nat}
    (hfuel : Rose.size (queue.map p.work) < fuel) :
    ∃ (p' : Poll) (runs : List TaskRun),
      taskPollForWork kmemAlloc fuel p = .ok p' ∧ Sound p' external [] ∧
      p'.log = p.log ++ runs.flatMap TaskRun.events ∧
      runs.map TaskRun.call = Rose.breadthFirst (queue.map p.work) ∧
      runs.map (fun r => (r.task, r.call)) = p.calls queue ++ runs.flatMap TaskRun.enqueued ∧
      p.tasks.live.Perm (queue ++ p'.tasks.live) := by
  induction fuel generalizing p queue with
  | zero => exact absurd hfuel (Nat.not_lt_zero _)
  | succ fuel ih =>
      cases queue with
      | nil =>
          have hhead : p.tasks.head = 0 := h.represents.chain.eq_nil_iff.mp rfl
          have hget : taskGet p.tasks = (0, p.tasks) := by
            unfold taskGet
            rw [if_neg (not_not_intro hhead)]
          refine ⟨p, [], ?_, h, (List.append_nil _).symm, ?_, rfl, .refl _⟩
          · unfold taskPollForWork
            rw [hget]
            rfl
          · exact Rose.breadthFirst_nil.symm
      | cons t rest =>
          obtain ⟨p₁, ts, hround, h₁, hrest, hts, hlog₁, hlive₁⟩ := h.round disjoint
          have hforest : (rest ++ ts).map p₁.work = rest.map p.work ++ (p.work t).children := by
            rw [List.map_append, hrest, hts]
          have hnode : p.work t = .node (p.work t).label (p.work t).children := by
            cases p.work t
            rfl
          have hsize : Rose.size ((rest ++ ts).map p₁.work) < fuel := by
            rw [List.map_cons, hnode, Rose.size_cons] at hfuel
            rw [hforest]
            omega
          obtain ⟨p', runs, hp', h', hlog', hcalls, hfifo, hlive'⟩ := ih h₁ hsize
          refine ⟨p', ⟨t, (p.work t).label, p₁.calls ts⟩ :: runs, (hround fuel).trans hp', h',
            ?_, ?_, ?_, ?_⟩
          · rw [hlog', hlog₁, List.flatMap_cons, List.append_assoc]
          · rw [List.map_cons, List.map_cons, hcalls, hforest, hnode, Rose.breadthFirst_cons,
              ← hnode]
          · have hcallsRest : p₁.calls rest = p.calls rest := by
              apply List.map_congr_left
              intro x hx
              rw [List.map_inj_left.mp hrest x hx]
            have hsplit : p₁.calls (rest ++ ts) = p.calls rest ++ p₁.calls ts := by
              rw [← hcallsRest]
              exact List.map_append
            rw [List.map_cons, hfifo, hsplit, List.flatMap_cons, List.append_assoc]
            rfl
          · refine (List.perm_append_left_iff ts).mp ?_
            have hmove : (t :: (rest ++ ts ++ p'.tasks.live)).Perm
                (ts ++ (t :: rest ++ p'.tasks.live)) := by
              have hswap : (rest ++ ts ++ p'.tasks.live).Perm (ts ++ (rest ++ p'.tasks.live)) := by
                rw [← List.append_assoc]
                exact List.perm_append_comm.append_right _
              exact (hswap.cons t).trans List.perm_middle.symm
            exact (hlive₁.trans (hlive'.cons t)).trans hmove

end

/-! ## From an empty queue -/

/-- The tasks that were enqueued, in order. -/
def Event.entry? : Event → Option (Nat × Nat × Nat)
  | .enqueued t call => some (t, call)
  | _ => none

theorem entries_enqueued (es : List (Nat × Nat × Nat)) :
    (es.map fun e => Event.enqueued e.1 e.2).filterMap Event.entry? = es := by
  rw [List.filterMap_map]
  exact List.filterMap_some

theorem entries_events (runs : List TaskRun) :
    (runs.flatMap TaskRun.events).filterMap Event.entry? = runs.flatMap TaskRun.enqueued := by
  induction runs with
  | nil => rfl
  | cons r runs ih =>
      rw [List.flatMap_cons, List.filterMap_append, ih, List.flatMap_cons, TaskRun.events,
        List.cons_append, List.filterMap_cons_none rfl, List.filterMap_append, entries_enqueued,
        List.filterMap_cons_none rfl, List.filterMap_nil, List.append_nil]

/-- Tasks are enqueued on an empty queue, each with the tasks that its callback enqueues, and
`task_poll_for_work` is called. It ends with an empty queue. The runs of the tasks make up what
happens, so that every task that was enqueued is called once, with its own callback and user
argument and in the order of the calls of `task_enqueue_easy`, and is freed once after its
callback returned. What is live in the end are the objects that were before. -/
theorem task_poll_for_work_fifo (kmemAlloc : Nat → List Nat → Nat)
    (disjoint : ∀ i live, kmemAlloc i live ≠ 0 ∧ kmemAlloc i live ∉ live) (q : TaskQueue)
    (external : Nat → Nat) (represents : Represents q ⟨[], external⟩) (nodup : q.live.Nodup)
    (unused : ∀ t, t ∉ q.live → external t = 0) (ws : List Work) (fuel : Nat)
    (hfuel : Rose.size ws < fuel) :
    ∃ (p₁ p₂ : Poll) (runs : List TaskRun), enqueueAll kmemAlloc ws (start q) = .ok p₁ ∧
      taskPollForWork kmemAlloc fuel p₁ = .ok p₂ ∧ p₂.tasks.head = 0 ∧
      p₂.log = p₁.log ++ runs.flatMap TaskRun.events ∧
      runs.map TaskRun.call = Rose.breadthFirst ws ∧
      (runs.map TaskRun.call).Perm (Rose.forestLabels ws) ∧
      runs.map (fun r => (r.task, r.call)) = p₂.log.filterMap Event.entry? ∧
      p₂.tasks.live.Perm q.live ∧
      p₂.tasks.live.length + ws.length = p₁.tasks.live.length := by
  have hstart : Sound (start q) external [] :=
    ⟨represents, nodup, unused, fun t ht => absurd ht List.not_mem_nil,
      fun t ht => absurd ht List.not_mem_nil⟩
  obtain ⟨p₁, ts, hp₁, h₁, hlive₁, _, _, hts, hlog₁⟩ := hstart.enqueueAll disjoint ws
  rw [List.nil_append] at h₁
  obtain ⟨p₂, runs, hp₂, h₂, hlog₂, hcalls, hfifo, hlive₂⟩ := h₁.poll disjoint (hts.symm ▸ hfuel)
  have hlive : p₂.tasks.live.Perm q.live :=
    (List.perm_append_left_iff ts).mp (hlive₂.symm.trans hlive₁)
  rw [hts] at hcalls
  refine ⟨p₁, p₂, runs, hp₁, hp₂, h₂.represents.chain.eq_nil_iff.mp rfl, hlog₂, hcalls, ?_, ?_,
    hlive, ?_⟩
  · rw [hcalls]
    exact Rose.breadthFirst_perm ws
  · have hinitial : p₁.log.filterMap Event.entry? = p₁.calls ts := by
      rw [hlog₁]
      exact entries_enqueued _
    rw [hfifo, hlog₂, List.filterMap_append, entries_events, hinitial]
  · have hcount : ts.length = ws.length := by
      rw [← hts, List.length_map]
    have hlength := hlive₂.length_eq
    rw [List.length_append] at hlength
    omega

/-- Address one if it is free, and otherwise one above all others, for a concrete run. -/
def reusing (_ : Nat) (live : List Nat) : Nat := if 1 ∈ live then live.foldr max 0 + 1 else 1

theorem reusing_disjoint (i : Nat) (live : List Nat) :
    reusing i live ≠ 0 ∧ reusing i live ∉ live := by
  have hbound : ∀ x ∈ live, x ≤ live.foldr max 0 := by
    intro x hx
    induction live with
    | nil => exact absurd hx List.not_mem_nil
    | cons y live ih =>
        obtain rfl | hx := List.mem_cons.mp hx
        · exact Nat.le_max_left _ _
        · exact (ih hx).trans (Nat.le_max_right _ _)
  unfold reusing
  split
  · refine ⟨Nat.succ_ne_zero _, fun hmem => ?_⟩
    exact absurd (hbound _ hmem) (Nat.not_succ_le_self _)
  · next hone => exact ⟨Nat.one_ne_zero, hone⟩

/-- Two tasks, the second of which enqueues a third one at the address of the first. -/
theorem task_poll_for_work_fifo_run : ∃ (p₁ p₂ : Poll) (runs : List TaskRun),
    enqueueAll reusing [.node (1, 10) [], .node (2, 20) [.node (3, 30) []]] (start .empty) =
        .ok p₁ ∧
      taskPollForWork reusing 4 p₁ = .ok p₂ ∧ p₂.tasks.head = 0 ∧
      runs.map TaskRun.call = [(1, 10), (2, 20), (3, 30)] ∧ p₂.tasks.live.Perm [] := by
  obtain ⟨p₁, p₂, runs, hp₁, hp₂, hhead, _, hcalls, _, _, hlive, _⟩ :=
    task_poll_for_work_fifo reusing reusing_disjoint .empty (fun _ => 0) Represents.empty
      List.nodup_nil (fun _ _ => rfl) [.node (1, 10) [], .node (2, 20) [.node (3, 30) []]] 4
      (by decide)
  refine ⟨p₁, p₂, runs, hp₁, hp₂, hhead, ?_, hlive⟩
  rw [hcalls]
  simp [Rose.breadthFirst_cons]

end Polling

end BadOs
