import BadOs.Data.RefCount
import BadOs.Net.Arp
import BadOs.Task.Queue

/-!
# Sending through the NE2000

`ne2k_send` takes a reference to the buffer and leaves the work to a task: `send_sync` copies
the frame to the card and gives the reference up. Three objects go with a frame: the buffer, the
task, and the `PendingSend` that the task works on.
-/

namespace BadOs

/-! ## `ne2k.c` -/

inductive PortWrite where
  | outb (port : BitVec 16) (v : BitVec 8)
  | outw (port v : BitVec 16)
  deriving DecidableEq

/-- What `send_sync` writes to the ports of the device at `iomem`: staging, the words of the
frame, and the trigger. The byte behind a frame of odd length is written with the last one. -/
def sendPorts (iomem size : BitVec 16) (next : ByteMem) : List PortWrite :=
  [.outb iomem 0x20, .outb (iomem + 0xf) 0,
    .outb (iomem + 0xa) (size.setWidth 8), .outb (iomem + 0xb) ((size >>> 8).setWidth 8),
    .outb (iomem + 0x8) 0, .outb (iomem + 0x9) 0x40] ++
  (List.range ((size.toNat + 1) / 2)).map (fun i =>
    .outw (iomem + 0x10) (next (2 * i + 1) ++ next (2 * i))) ++
  (if size.toNat % 2 ≠ 0 then [.outb (iomem + 0x10) (next (size.toNat - 1))] else []) ++
  [.outb (iomem + 0x7) 0x40, .outb iomem 0x20,
    .outb (iomem + 0x5) (size.setWidth 8), .outb (iomem + 0x6) ((size >>> 8).setWidth 8),
    .outb (iomem + 0x4) 0x40, .outb (iomem + 0xf) 0x3f, .outb iomem 0x26]

/-- `struct PendingSend`; `dev` is the `iomem` of the device. -/
structure PendingSend where
  task : Nat
  data : Nat
  dev : BitVec 16

/-- The number of the callback. -/
def sendSyncCallback : Nat := 1

/-- The task queue, and the other objects by their addresses. No function reads the last two
fields: the references that callers hold, and the frames that were handed to `ne2k_send`. -/
structure Driver where
  tasks : TaskQueue
  sends : Nat → PendingSend
  liveSends : List Nat
  buffs : Nat → SBuff
  liveBuffs : List Nat
  fresh : Nat
  ports : List PortWrite
  held : Multiset Nat
  handed : List (BitVec 16 × Nat)

namespace Driver

/-- Store to the reference count of a buffer. -/
def setRefs (b : Nat) (refs : BitVec 8) (d : Driver) : Driver :=
  { d with buffs := Function.update d.buffs b { d.buffs b with refs := refs } }

/-- `add_ref` of a buffer. -/
def addRef (b : Nat) (d : Driver) : Except Trap Driver :=
  if b ∈ d.liveBuffs then .ok (d.setRefs b ((d.buffs b).refs + 1)) else .error .useAfterFree

/-- `release_ref(b, sbuff_free)`. -/
def releaseRef (b : Nat) (d : Driver) : Except Trap Driver :=
  if b ∈ d.liveBuffs then
    let refs := (d.buffs b).refs - 1
    let d := d.setRefs b refs
    .ok (if refs = 0 then { d with liveBuffs := d.liveBuffs.erase b } else d)
  else .error .useAfterFree

/-- The bytes of a new buffer start at its head. -/
theorem fullSize (size : BitVec 16) : 0 + size.toNat = size.toNat := Nat.zero_add size.toNat

/-- A buffer with a finished frame in it. -/
def allocBuffer (size : BitVec 16) (data : ByteMem) (d : Driver) : Driver :=
  { d with
    buffs := Function.update d.buffs d.fresh ⟨d.fresh, size, size, 0, 0, data, fullSize size⟩
    liveBuffs := d.fresh :: d.liveBuffs
    fresh := d.fresh + 1 }

end Driver

def sendSync (p : Nat) (d : Driver) : Except Trap Driver :=
  if p ∈ d.liveSends ∧ (d.sends p).data ∈ d.liveBuffs then
    let send := d.sends p
    let buf := d.buffs send.data
    { d with ports := d.ports ++ sendPorts send.dev buf.currSize buf.data }.releaseRef send.data
  else .error .useAfterFree

def ne2kSend (dev : BitVec 16) (b : Nat) (d : Driver) : Except Trap Driver := do
  let p := d.fresh
  let (t, q) := taskAlloc sendSyncCallback p d.tasks
  let d := { d with
    tasks := q
    sends := Function.update d.sends p ⟨t, b, dev⟩
    liveSends := p :: d.liveSends
    fresh := d.fresh + 1
    handed := d.handed ++ [(dev, b)] }
  let d ← d.addRef b
  let q ← taskEnqueue t d.tasks
  return { d with tasks := q }

/-! ## `task_poll_for_work` -/

/-- `t->task(t->user)`. No other callback is enqueued here. -/
def taskCall (t : Nat) (d : Driver) : Except Trap Driver :=
  if (d.tasks.tasks t).task = sendSyncCallback then sendSync (d.tasks.tasks t).user d
  else .error .nullPointer

/-- A round of the loop for the task `t`. -/
def taskRound (t : Nat) (d : Driver) : Except Trap Driver := do
  let d ← taskCall t d
  let q ← taskRelease t d.tasks
  return { d with tasks := q }

def taskPollForWork : (fuel : Nat) → Driver → Except Trap Driver
  | 0, _ => .error .diverged
  | fuel + 1, d =>
      let (t, q) := taskGet d.tasks
      if t ≠ 0 then do
        let d ← taskRound t { d with tasks := q }
        taskPollForWork fuel d
      else .ok { d with tasks := q }

/-! ## Histories -/

inductive SendOp where
  | alloc (size : BitVec 16) (data : ByteMem)
  | addRef (b : Nat)
  | releaseRef (b : Nat)
  | send (dev : BitVec 16) (b : Nat)
  | round

/-- A call, or a round of the loop if a task is queued. -/
def sendStep (d : Driver) : SendOp → Except Trap Driver
  | .alloc size data => .ok (d.allocBuffer size data)
  | .addRef b => do
      let d ← d.addRef b
      return { d with held := b ::ₘ d.held }
  | .releaseRef b => do
      let d ← d.releaseRef b
      return { d with held := d.held.erase b }
  | .send dev b => ne2kSend dev b d
  | .round =>
      let (t, q) := taskGet d.tasks
      if t ≠ 0 then taskRound t { d with tasks := q } else .ok { d with tasks := q }

/-- Before the first call. -/
def Driver.empty : Driver where
  tasks := .empty
  sends := fun _ => ⟨0, 0, 0⟩
  liveSends := []
  buffs := fun _ => ⟨0, 0, 0, 0, 0, fun _ => 0, rfl⟩
  liveBuffs := []
  fresh := 1
  ports := []
  held := 0
  handed := []

/-- The frame that the call hands to `ne2k_send`. -/
def SendOp.frames : SendOp → List (BitVec 16 × Nat)
  | .send dev b => [(dev, b)]
  | _ => []

/-- A reference count does not overflow, and callers give up what they have. -/
def SendOp.Fits (d : Driver) : SendOp → Prop
  | .addRef b => (d.buffs b).refs.toNat < 255
  | .send _ b => (d.buffs b).refs.toNat < 255
  | .releaseRef b => b ∈ d.held
  | _ => True

instance SendOp.Fits.decidable (d : Driver) (op : SendOp) : Decidable (op.Fits d) := by
  cases op <;> unfold SendOp.Fits <;> infer_instance

/-- No task and no `PendingSend` is left, and no buffer that was sent and that no caller has a
reference to. -/
structure Driver.Reclaimed (d : Driver) : Prop where
  tasks : d.tasks.live = []
  sends : d.liveSends = []
  buffers : ∀ f ∈ d.handed, f.2 ∉ d.held → f.2 ∉ d.liveBuffs

/-! ## References to buffers -/

namespace Driver

variable {d d' d'' : Driver} {b : Nat}

/-- The buffers as objects with a counter. -/
def store (d : Driver) : RefStore 8 := ⟨fun b => (d.buffs b).refs, d.liveBuffs⟩

/-- What goes to the ports for a frame. -/
def frame (d : Driver) (f : BitVec 16 × Nat) : List PortWrite :=
  sendPorts f.1 (d.buffs f.2).currSize (d.buffs f.2).data

/-- A change of references leaves everything else alone. -/
structure Counted (d d' : Driver) : Prop where
  tasks : d'.tasks = d.tasks
  sends : d'.sends = d.sends
  liveSends : d'.liveSends = d.liveSends
  fresh : d'.fresh = d.fresh
  ports : d'.ports = d.ports
  held : d'.held = d.held
  handed : d'.handed = d.handed
  frame : d'.frame = d.frame

theorem setRefs_counted (b : Nat) (refs : BitVec 8) (d : Driver) :
    d.Counted (d.setRefs b refs) := by
  refine ⟨rfl, rfl, rfl, rfl, rfl, rfl, rfl, funext fun f => ?_⟩
  by_cases heq : f.2 = b
  · simp [frame, setRefs, heq]
  · simp [frame, setRefs, heq]

theorem allocBuffer_frame (d : Driver) (size : BitVec 16) (data : ByteMem) {f : BitVec 16 × Nat}
    (hf : f.2 ≠ d.fresh) : (d.allocBuffer size data).frame f = d.frame f := by
  simp [frame, allocBuffer, hf]

theorem allocBuffer_frame_new (d : Driver) (dev size : BitVec 16) (data : ByteMem) :
    (d.allocBuffer size data).frame (dev, d.fresh) = sendPorts dev size data := by
  simp [frame, allocBuffer]

theorem setRefs_count (b : Nat) (refs : BitVec 8) (d : Driver) :
    (d.setRefs b refs).store.count = Function.update d.store.count b refs := by
  funext x
  by_cases heq : x = b
  · subst heq
    simp [store, setRefs]
  · simp [store, setRefs, heq]

theorem addRef_post (b : Nat) (d : Driver) :
    (d.addRef b).Post fun d' =>
      b ∈ d.liveBuffs ∧ d.Counted d' ∧ d'.store = d.store.acquire b := by
  unfold addRef
  split
  · next hb => exact .ok ⟨hb, setRefs_counted _ _ _, RefStore.ext (setRefs_count b _ d) rfl⟩
  · exact .error

theorem releaseRef_post (b : Nat) (d : Driver) :
    (d.releaseRef b).Post fun d' =>
      b ∈ d.liveBuffs ∧ d.Counted d' ∧ d'.store = d.store.release b := by
  have hcounted := setRefs_counted b ((d.buffs b).refs - 1) d
  have hcount := setRefs_count b ((d.buffs b).refs - 1) d
  unfold releaseRef
  split
  · next hb =>
    dsimp only
    split
    · next hzero =>
      have hlive : (d.store.release b).live = d.liveBuffs.erase b := if_pos hzero
      exact .ok ⟨hb, ⟨rfl, rfl, rfl, rfl, rfl, rfl, rfl, hcounted.frame⟩,
        RefStore.ext hcount hlive.symm⟩
    · next hzero =>
      have hlive : (d.store.release b).live = d.liveBuffs := if_neg hzero
      exact .ok ⟨hb, hcounted, RefStore.ext hcount hlive.symm⟩
  · exact .error

theorem releaseRef_total (hb : b ∈ d.liveBuffs) :
    (d.releaseRef b).Total fun d' => d.Counted d' ∧ d'.store = d.store.release b :=
  ⟨_, if_pos hb, (releaseRef_post b d _ (if_pos hb)).2⟩

end Driver

/-! ## What is never freed -/

section

variable {d d' : Driver}

/-- The frames that were handed over, with their bytes, the records for them, and what callers
hold. -/
structure Driver.SameSends (d d' : Driver) : Prop where
  handed : d'.handed = d.handed
  liveSends : d'.liveSends = d.liveSends
  held : d'.held = d.held
  frame : d'.frame = d.frame

theorem sendSync_sameSends (p : Nat) (d : Driver) : (sendSync p d).Post d.SameSends := by
  unfold sendSync
  split
  · exact (Driver.releaseRef_post _ _).mono fun d' h =>
      ⟨h.2.1.handed, h.2.1.liveSends, h.2.1.held, h.2.1.frame⟩
  · exact .error

theorem taskRound_sameSends (t : Nat) (d : Driver) : (taskRound t d).Post d.SameSends := by
  refine .bind (Q := d.SameSends) ?_ fun d' h =>
    .bind_any fun q => .ok ⟨h.handed, h.liveSends, h.held, h.frame⟩
  unfold taskCall
  split
  · exact sendSync_sameSends _ d
  · exact .error

/-- Without a task the loop ends at once. -/
theorem taskPollForWork_idle (hget : taskGet d.tasks = (0, d.tasks)) (fuel : Nat) :
    taskPollForWork (fuel + 1) d = .ok d := by
  unfold taskPollForWork
  rw [hget]
  exact if_neg fun hne => hne rfl

/-- The loop frees no `PendingSend`. -/
theorem taskPollForWork_sameSends (fuel : Nat) (d : Driver) :
    (taskPollForWork fuel d).Post d.SameSends := by
  induction fuel generalizing d with
  | zero => exact .error
  | succ fuel ih =>
      unfold taskPollForWork
      dsimp only
      split
      · refine .bind (taskRound_sameSends _ _) fun d₁ h₁ => (ih d₁).mono fun d₂ h₂ => ?_
        exact ⟨h₂.handed.trans h₁.handed, h₂.liveSends.trans h₁.liveSends,
          h₂.held.trans h₁.held, h₂.frame.trans h₁.frame⟩
      · exact .ok ⟨rfl, rfl, rfl, rfl⟩

/-- A record for each frame, and nothing at all before the first one. -/
structure Driver.Recorded (d : Driver) : Prop where
  length : d.liveSends.length = d.handed.length
  idle : d.handed = [] → d.tasks = .empty

/-- The frame is handed over and has a new record. -/
structure Driver.Records (d : Driver) (dev : BitVec 16) (b : Nat) (d' : Driver) : Prop where
  handed : d'.handed = d.handed ++ [(dev, b)]
  liveSends : d'.liveSends = d.fresh :: d.liveSends
  held : d'.held = d.held
  fresh : d'.fresh = d.fresh + 1
  frame : d'.frame = d.frame

theorem ne2kSend_post (dev : BitVec 16) (b : Nat) (d : Driver) :
    (ne2kSend dev b d).Post (d.Records dev b) :=
  .bind (Driver.addRef_post b _) fun _ ⟨_, h, _⟩ => .bind_any fun _ =>
    .ok ⟨h.handed, h.liveSends, h.held, h.fresh, h.frame⟩

theorem sendStep_recorded (h : d.Recorded) (op : SendOp) :
    (sendStep d op).Post fun d' => d'.Recorded ∧ d'.handed = d.handed ++ op.frames := by
  cases op with
  | alloc size data => exact .ok ⟨⟨h.length, h.idle⟩, (List.append_nil _).symm⟩
  | addRef b =>
      refine .bind (Driver.addRef_post b d) fun d' ⟨_, h', _⟩ => .ok ⟨⟨?_, fun hnil => ?_⟩, ?_⟩
      · exact (congrArg List.length h'.liveSends).trans
          (h.length.trans (congrArg List.length h'.handed).symm)
      · exact h'.tasks.trans (h.idle (h'.handed.symm.trans hnil))
      · exact h'.handed.trans (List.append_nil _).symm
  | releaseRef b =>
      refine .bind (Driver.releaseRef_post b d) fun d' ⟨_, h', _⟩ => .ok ⟨⟨?_, fun hnil => ?_⟩, ?_⟩
      · exact (congrArg List.length h'.liveSends).trans
          (h.length.trans (congrArg List.length h'.handed).symm)
      · exact h'.tasks.trans (h.idle (h'.handed.symm.trans hnil))
      · exact h'.handed.trans (List.append_nil _).symm
  | send dev b =>
      refine (ne2kSend_post dev b d).mono fun d' h' => ⟨⟨?_, fun hnil => ?_⟩, h'.handed⟩
      · rw [h'.handed, h'.liveSends, List.length_cons, List.length_append, h.length]
        rfl
      · rw [h'.handed] at hnil
        exact absurd hnil (List.append_ne_nil_of_right_ne_nil _ (List.cons_ne_nil _ _))
  | round =>
      dsimp only [sendStep]
      split
      · next ht =>
        refine (taskRound_sameSends _ _).mono fun d' h' => ⟨⟨?_, fun hnil => ?_⟩, ?_⟩
        · exact (congrArg List.length h'.liveSends).trans
            (h.length.trans (congrArg List.length h'.handed).symm)
        · rw [h.idle (h'.handed.symm.trans hnil)] at ht
          exact absurd rfl ht
        · exact h'.handed.trans (List.append_nil _).symm
      · refine .ok ⟨⟨h.length, fun hnil => ?_⟩, (List.append_nil _).symm⟩
        show (taskGet d.tasks).2 = _
        rw [h.idle hnil]
        rfl

theorem run_recorded {ops : List SendOp} (h : d.Recorded)
    (run : Transition.exec sendStep d ops = .ok d') :
    d'.Recorded ∧ d'.handed = d.handed ++ ops.flatMap SendOp.frames := by
  induction ops generalizing d with
  | nil =>
      cases run
      exact ⟨h, (List.append_nil _).symm⟩
  | cons op ops ih =>
      obtain ⟨d₁, hstep, hrest⟩ := Except.bind_eq_ok.mp run
      obtain ⟨h₁, hhanded₁⟩ := sendStep_recorded h op d₁ hstep
      obtain ⟨h₂, hhanded₂⟩ := ih h₁ hrest
      refine ⟨h₂, ?_⟩
      rw [hhanded₂, hhanded₁, List.flatMap_cons, List.append_assoc]

end

/-! ## What is freed -/

/-- A task in the queue, with its record, device and buffer. -/
structure PendingTask where
  task : Nat
  send : Nat
  dev : BitVec 16
  buf : Nat

namespace Driver

/-- All references to buffers. -/
def refs (d : Driver) (pending : List PendingTask) : Multiset Nat :=
  d.held + (pending.map PendingTask.buf : Multiset Nat)

/-- The tasks of the queue are the live ones, each with its record and a reference to its
buffer; a buffer that was sent stays only as long as there is a reference to it. -/
structure Sound (d : Driver) (pending : List PendingTask) : Prop where
  queue : Represents d.tasks ⟨pending.map PendingTask.task, fun _ => 0⟩
  tasks : ∀ t ∈ d.tasks.live, t ∈ pending.map PendingTask.task
  nodup : d.tasks.live.Nodup
  calls : ∀ p ∈ pending, (d.tasks.tasks p.task).task = sendSyncCallback ∧
    (d.tasks.tasks p.task).user = p.send ∧ p.send ∈ d.liveSends ∧
    d.sends p.send = ⟨p.task, p.buf, p.dev⟩
  owned : d.store.Owned (d.refs pending)
  handed : ∀ f ∈ d.handed, f.2 ∈ d.liveBuffs → f.2 ∈ d.refs pending
  below : (∀ b ∈ d.liveBuffs, b < d.fresh) ∧ (∀ p ∈ d.liveSends, p < d.fresh) ∧
    ∀ f ∈ d.handed, f.2 < d.fresh
  sent : d.ports ++ pending.flatMap (fun p => d.frame (p.dev, p.buf)) = d.handed.flatMap d.frame

namespace Sound

variable {d d' : Driver} {pending : List PendingTask}

theorem empty : Driver.empty.Sound [] where
  queue := Represents.empty
  tasks _ h := nomatch h
  nodup := List.nodup_nil
  calls _ h := nomatch h
  owned := ⟨fun _ h => (nomatch h), fun _ h => absurd h (Multiset.notMem_zero _), List.nodup_nil⟩
  handed _ h := nomatch h
  below := ⟨fun _ h => (nomatch h), fun _ h => (nomatch h), fun _ h => (nomatch h)⟩
  sent := rfl

theorem buf_live (h : d.Sound pending) {p : PendingTask} (hp : p ∈ pending) :
    p.buf ∈ d.liveBuffs :=
  h.owned.live _ (Multiset.mem_add.mpr (Or.inr (List.mem_map_of_mem hp)))

/-- One more address is in use. -/
theorem below_succ (h : d.Sound pending) : (∀ b ∈ d.liveBuffs, b < d.fresh + 1) ∧
    (∀ p ∈ d.liveSends, p < d.fresh + 1) ∧ ∀ f ∈ d.handed, f.2 < d.fresh + 1 := by
  obtain ⟨hbuffs, hsends, hhanded⟩ := h.below
  refine ⟨?_, ?_, ?_⟩
  · exact fun b hb => (hbuffs b hb).trans (Nat.lt_succ_self _)
  · exact fun p hp => (hsends p hp).trans (Nat.lt_succ_self _)
  · exact fun f hf => (hhanded f hf).trans (Nat.lt_succ_self _)

theorem alloc (h : d.Sound pending) (size : BitVec 16) (data : ByteMem) :
    (d.allocBuffer size data).Sound pending := by
  obtain ⟨hbuffs, _, hhanded⟩ := h.below
  have hnew : d.fresh ∉ d.liveBuffs := fun hmem => Nat.lt_irrefl _ (hbuffs _ hmem)
  have hframe (f : BitVec 16 × Nat) (hf : f.2 < d.fresh) :
      (d.allocBuffer size data).frame f = d.frame f := d.allocBuffer_frame size data hf.ne
  have hstore : (d.allocBuffer size data).store = d.store.insert d.fresh := by
    refine RefStore.ext (funext fun x => ?_) rfl
    by_cases heq : x = d.fresh
    · subst heq
      simp [store, allocBuffer, RefStore.insert]
    · simp [store, allocBuffer, RefStore.insert, heq]
  refine ⟨h.queue, h.tasks, h.nodup, h.calls, ?_, ?_, ?_, ?_⟩
  · rw [hstore]
    exact h.owned.insert hnew
  · intro f hf hlive
    obtain heq | hlive := List.mem_cons.mp hlive
    · exact absurd heq (hhanded f hf).ne
    · exact h.handed f hf hlive
  · obtain ⟨hbuffs', hsends', hhanded'⟩ := h.below_succ
    exact ⟨List.forall_mem_cons.mpr ⟨Nat.lt_succ_self _, hbuffs'⟩, hsends', hhanded'⟩
  · have hpending := List.flatMap_congr (l := pending) fun p hp =>
      hframe (p.dev, p.buf) (hbuffs _ (h.buf_live hp))
    have hsent := List.flatMap_congr (l := d.handed) fun f hf => hframe f (hhanded f hf)
    show d.ports ++ _ = d.handed.flatMap _
    rw [hpending, hsent]
    exact h.sent

/-- Callers take or give up references. -/
theorem recount (h : d.Sound pending) (hc : d.Counted d') (held : Multiset Nat)
    (hlive : ∀ b ∈ d'.liveBuffs, b ∈ d.liveBuffs)
    (owned : d'.store.Owned (held + (pending.map PendingTask.buf : Multiset Nat)))
    (handed : ∀ f ∈ d.handed, f.2 ∈ d'.liveBuffs →
      f.2 ∈ held + (pending.map PendingTask.buf : Multiset Nat)) :
    Driver.Sound { d' with held := held } pending where
  queue := hc.tasks.symm ▸ h.queue
  tasks := hc.tasks.symm ▸ h.tasks
  nodup := hc.tasks.symm ▸ h.nodup
  calls p hp := by
    show (d'.tasks.tasks p.task).task = _ ∧ (d'.tasks.tasks p.task).user = _ ∧ _ ∈ d'.liveSends ∧
      d'.sends _ = _
    rw [hc.tasks, hc.liveSends, hc.sends]
    exact h.calls p hp
  owned := owned
  handed := fun f hf => handed f (hc.handed ▸ hf)
  below := by
    show (∀ b ∈ d'.liveBuffs, b < d'.fresh) ∧ (∀ p ∈ d'.liveSends, p < d'.fresh) ∧
      ∀ f ∈ d'.handed, f.2 < d'.fresh
    rw [hc.fresh, hc.liveSends, hc.handed]
    exact ⟨fun b hb => h.below.1 b (hlive b hb), h.below.2⟩
  sent := by
    have hframe : Driver.frame { d' with held := held } = d.frame := hc.frame
    show d'.ports ++ pending.flatMap (fun p => Driver.frame { d' with held := held } _) =
      d'.handed.flatMap _
    rw [hframe, hc.ports, hc.handed]
    exact h.sent

theorem addRef (h : d.Sound pending) {b : Nat} (hfits : (d.buffs b).refs.toNat < 255) :
    (sendStep d (.addRef b)).Post (·.Sound pending) := by
  refine .bind (addRef_post b d) fun d' ⟨hb, hc, hstore⟩ => .ok ?_
  have hlive : d'.liveBuffs = d.liveBuffs := congrArg RefStore.live hstore
  have hroom : (d.store.count b).toNat + 1 < 2 ^ 8 := Nat.succ_lt_succ hfits
  refine h.recount hc (b ::ₘ d'.held) (fun x hx => hlive ▸ hx) ?_ fun f hf hx => ?_
  · rw [hstore, Multiset.cons_add, hc.held]
    exact h.owned.acquire hb hroom
  · rw [Multiset.cons_add, hc.held]
    exact Multiset.mem_cons_of_mem (h.handed f hf (hlive ▸ hx))

/-- A reference is given up: nothing comes to life, and what was sent is freed or referred to. -/
theorem release_cases (h : d.Sound pending) {b : Nat} (hmem : b ∈ d.refs pending)
    (hstore : d'.store = d.store.release b) :
    (∀ x ∈ d'.liveBuffs, x ∈ d.liveBuffs) ∧
      ∀ f ∈ d.handed, f.2 ∈ d'.liveBuffs → f.2 ∈ (d.refs pending).erase b := by
  have hlive (x : Nat) :
      x ∈ d'.liveBuffs ↔ x ∈ d.liveBuffs ∧ (x = b → b ∈ (d.refs pending).erase b) := by
    show x ∈ d'.store.live ↔ _
    rw [hstore]
    exact h.owned.mem_release hmem
  refine ⟨fun x hx => ((hlive x).mp hx).1, fun f hf hx => ?_⟩
  obtain ⟨hx, hkept⟩ := (hlive f.2).mp hx
  by_cases heq : f.2 = b
  · rw [heq]
    exact hkept heq
  · exact (Multiset.mem_erase_of_ne heq).mpr (h.handed f hf hx)

theorem releaseRef (h : d.Sound pending) {b : Nat} (hheld : b ∈ d.held) :
    (sendStep d (.releaseRef b)).Post (·.Sound pending) := by
  refine .bind (releaseRef_post b d) fun d' ⟨hb, hc, hstore⟩ => .ok ?_
  have hmem : b ∈ d.refs pending := Multiset.mem_add.mpr (Or.inl hheld)
  have herase : (d.refs pending).erase b = d.held.erase b + _ :=
    Multiset.erase_add_left_pos _ hheld
  obtain ⟨hlive, hhanded⟩ := h.release_cases hmem hstore
  refine h.recount hc (d'.held.erase b) hlive ?_ fun f hf hx => ?_
  · rw [hstore, hc.held, ← herase]
    exact h.owned.release hmem
  · rw [hc.held, ← herase]
    exact hhanded f hf hx

/-- The task for a new frame goes behind the others. -/
theorem enqueue (h : d.Sound pending) :
    ∃ q, taskEnqueue d.tasks.fresh (taskAlloc sendSyncCallback d.fresh d.tasks).2 = .ok q ∧
      Represents q ⟨pending.map PendingTask.task ++ [d.tasks.fresh], fun _ => 0⟩ ∧
      q.live = d.tasks.fresh :: d.tasks.live ∧ d.tasks.fresh ∉ pending.map PendingTask.task ∧
      ((q.tasks d.tasks.fresh).task = sendSyncCallback ∧
        (q.tasks d.tasks.fresh).user = d.fresh) ∧
      ∀ x ≠ d.tasks.fresh, (q.tasks x).task = (d.tasks.tasks x).task ∧
        (q.tasks x).user = (d.tasks.tasks x).user := by
  have hnew : d.tasks.fresh ∉ pending.map PendingTask.task := fun hmem =>
    (h.queue.bounds _ (h.queue.queued _ hmem)).2.ne rfl
  have hrep := h.queue.alloc sendSyncCallback d.fresh
  obtain ⟨q, hq, hrep'⟩ := hrep.enqueue_new List.mem_cons_self hnew
  have hsame := TaskQueue.SameTasks.enqueue _ d.tasks.fresh q hq
  have htask : (taskAlloc sendSyncCallback d.fresh d.tasks).2.tasks d.tasks.fresh =
      ⟨sendSyncCallback, d.fresh, 0, 0⟩ := Function.update_self ..
  refine ⟨q, hq, hrep', hsame.live, hnew, ?_, fun x hx => ?_⟩
  · rw [hsame.task, hsame.user, htask]
    exact ⟨rfl, rfl⟩
  · have hold : (taskAlloc sendSyncCallback d.fresh d.tasks).2.tasks x = d.tasks.tasks x :=
      Function.update_of_ne hx _ _
    rw [hsame.task, hsame.user, hold]
    exact ⟨rfl, rfl⟩

/-- A buffer that is allocated can be sent. -/
theorem send_returns (h : d.Sound pending) (dev : BitVec 16) {b : Nat} (hb : b ∈ d.liveBuffs) :
    ∃ d', ne2kSend dev b d = .ok d' := by
  obtain ⟨q, hq, _⟩ := h.enqueue
  refine ⟨_, Except.bind_eq_ok.mpr ⟨_, if_pos hb, Except.bind_eq_ok.mpr ⟨q, ?_, rfl⟩⟩⟩
  exact hq

theorem send (h : d.Sound pending) (dev : BitVec 16) {b : Nat}
    (hfits : (d.buffs b).refs.toNat < 255) :
    (ne2kSend dev b d).Post
      (·.Sound (pending ++ [⟨d.tasks.fresh, d.fresh, dev, b⟩])) := by
  refine .bind (addRef_post b _) fun d' ⟨hb, hc, hstore⟩ => ?_
  obtain ⟨_, hsends, _⟩ := h.below
  obtain ⟨q, hq, hrep, hlive, hnew, ⟨htask, huser⟩, hold⟩ := h.enqueue
  have hqueue : d'.tasks = (taskAlloc sendSyncCallback d.fresh d.tasks).2 := hc.tasks
  rw [hqueue]
  have hcounted : d'.held = d.held ∧ d'.fresh = d.fresh + 1 ∧
      d'.handed = d.handed ++ [(dev, b)] ∧ d'.liveSends = d.fresh :: d.liveSends ∧
      d'.sends = Function.update d.sends d.fresh ⟨d.tasks.fresh, b, dev⟩ ∧
      d'.ports = d.ports ∧ d'.frame = d.frame :=
    ⟨hc.held, hc.fresh, hc.handed, hc.liveSends, hc.sends, hc.ports, hc.frame⟩
  obtain ⟨hheld, hfresh, hhand, hlsends, hsend, hports, hframe⟩ := hcounted
  have hlbuffs : d'.liveBuffs = d.liveBuffs := congrArg RefStore.live hstore
  have hrefs : d'.held + ((pending ++ [PendingTask.mk d.tasks.fresh d.fresh dev b]).map
      PendingTask.buf : Multiset Nat) = b ::ₘ d.refs pending := by
    rw [hheld, List.map_append, ← Multiset.coe_add, ← Multiset.add_assoc, Multiset.add_comm]
    rfl
  have hroom : (d.store.count b).toNat + 1 < 2 ^ 8 := Nat.succ_lt_succ hfits
  refine Except.Post.bind (fun q' hq' => Except.ok.inj (hq.symm.trans hq')) ?_
  rintro _ rfl
  refine .ok ⟨?_, ?_, ?_, ?_, ?_, ?_, ?_, ?_⟩
  · rw [List.map_append]
    exact hrep
  · intro t ht
    rw [List.map_append, List.mem_append]
    obtain rfl | ht := List.mem_cons.mp (hlive ▸ ht)
    · exact Or.inr List.mem_cons_self
    · exact Or.inl (h.tasks t ht)
  · show q.live.Nodup
    rw [hlive]
    exact List.nodup_cons.mpr ⟨fun hmem => hnew (h.tasks _ hmem), h.nodup⟩
  · intro p hp
    show (q.tasks p.task).task = _ ∧ (q.tasks p.task).user = _ ∧ _ ∈ d'.liveSends ∧ d'.sends _ = _
    rw [hlsends, hsend]
    obtain hp | hp := List.mem_append.mp hp
    · obtain ⟨hcall, huser, hmem, hrecord⟩ := h.calls p hp
      have hne : p.task ≠ d.tasks.fresh := fun heq => hnew (heq ▸ List.mem_map_of_mem hp)
      rw [(hold _ hne).1, (hold _ hne).2, Function.update_of_ne (hsends _ hmem).ne]
      exact ⟨hcall, huser, List.mem_cons_of_mem _ hmem, hrecord⟩
    · cases List.mem_singleton.mp hp
      rw [Function.update_self]
      exact ⟨htask, huser, List.mem_cons_self, rfl⟩
  · show d'.store.Owned (d'.held + _)
    rw [hstore, hrefs]
    exact h.owned.acquire hb hroom
  · intro f hf hx
    show f.2 ∈ d'.held + _
    rw [hrefs]
    obtain hf | hf := List.mem_append.mp (hhand ▸ hf)
    · exact Multiset.mem_cons_of_mem (h.handed f hf (hlbuffs ▸ hx))
    · cases List.mem_singleton.mp hf
      exact Multiset.mem_cons_self _ _
  · obtain ⟨hbuffs', hsends', hhanded'⟩ := h.below_succ
    show (∀ x ∈ d'.liveBuffs, x < d'.fresh) ∧ (∀ x ∈ d'.liveSends, x < d'.fresh) ∧
      ∀ f ∈ d'.handed, f.2 < d'.fresh
    rw [hlbuffs, hlsends, hhand, hfresh]
    refine ⟨hbuffs', List.forall_mem_cons.mpr ⟨Nat.lt_succ_self _, hsends'⟩, ?_⟩
    exact List.forall_mem_append.mpr ⟨hhanded', List.forall_mem_singleton.mpr (hbuffs' b hb)⟩
  · have hframe' : Driver.frame { d' with tasks := q } = d.frame := hframe
    show d'.ports ++ List.flatMap (fun p => Driver.frame { d' with tasks := q } _) _ =
      d'.handed.flatMap _
    rw [hframe', hports, hhand, List.flatMap_append, List.flatMap_append, ← List.append_assoc,
      h.sent]
    rfl

/-- The first task leaves the queue and is given up. -/
theorem dequeue {p : PendingTask} {rest : List PendingTask} (h : d.Sound (p :: rest)) :
    ∃ q, taskRelease p.task (taskGet d.tasks).2 = .ok q ∧
      Represents q ⟨rest.map PendingTask.task, fun _ => 0⟩ ∧
      q.live = d.tasks.live.erase p.task ∧ p.task ∉ rest.map PendingTask.task ∧
      ∀ x ≠ p.task, (q.tasks x).task = (d.tasks.tasks x).task ∧
        (q.tasks x).user = (d.tasks.tasks x).user := by
  have hsame := TaskQueue.SameTasks.get d.tasks
  have hlive : (taskGet d.tasks).2.live = d.tasks.live := hsame.live
  obtain ⟨hnot, _⟩ := List.nodup_cons.mp h.queue.chain.nodup
  have hrep := h.queue.get
  rw [Fifo.step_get_cons rfl] at hrep
  obtain ⟨q, hq, hqlive, hqtasks, hrep'⟩ := hrep.release rfl
    (hlive.symm ▸ h.queue.queued p.task List.mem_cons_self) hnot (hlive.symm ▸ h.nodup)
  rw [hlive] at hqlive
  refine ⟨q, hq, hrep', hqlive, hnot, fun x hx => ?_⟩
  rw [hqtasks x hx, hsame.task, hsame.user]
  exact ⟨rfl, rfl⟩

/-- The callback of the first task writes its frame to the ports and gives its reference up. -/
theorem callback {p : PendingTask} {rest : List PendingTask} (h : d.Sound (p :: rest)) :
    ∃ d', taskCall p.task { d with tasks := (taskGet d.tasks).2 } = .ok d' ∧
      Driver.Counted { d with
        tasks := (taskGet d.tasks).2
        ports := d.ports ++ d.frame (p.dev, p.buf) } d' ∧
      d'.store = d.store.release p.buf := by
  obtain ⟨hcall, huser, hsend, hrecord⟩ := h.calls p List.mem_cons_self
  have hsame := TaskQueue.SameTasks.get d.tasks
  have hbuf := h.buf_live (p := p) List.mem_cons_self
  have hdata : (d.sends p.send).data = p.buf := congrArg PendingSend.data hrecord
  have hdev : (d.sends p.send).dev = p.dev := congrArg PendingSend.dev hrecord
  obtain ⟨d', hrelease, hc, hstore⟩ := releaseRef_total (d := { d with
    tasks := (taskGet d.tasks).2
    ports := d.ports ++ d.frame (p.dev, p.buf) }) hbuf
  refine ⟨d', ?_, hc, hstore⟩
  unfold taskCall
  dsimp only
  rw [if_pos ((hsame.task _).trans hcall), hsame.user, huser]
  unfold sendSync
  dsimp only
  rw [hdata, if_pos ⟨hsend, hbuf⟩, hdev]
  exact hrelease

/-- The first task runs: its frame goes to the ports, its reference and the task itself are given
up. -/
theorem round {p : PendingTask} {rest : List PendingTask} (h : d.Sound (p :: rest)) :
    (taskRound p.task { d with tasks := (taskGet d.tasks).2 }).Total (·.Sound rest) := by
  have hmem : p.buf ∈ d.refs (p :: rest) :=
    Multiset.mem_add.mpr (Or.inr (List.mem_map_of_mem List.mem_cons_self))
  have herase : (d.refs (p :: rest)).erase p.buf = d.refs rest := by
    unfold refs
    rw [List.map_cons, ← Multiset.cons_coe, Multiset.add_cons, Multiset.erase_cons_head]
  obtain ⟨d₂, hrun, hc, hstore⟩ := h.callback
  obtain ⟨hlbuffs, hkept⟩ := h.release_cases hmem hstore
  obtain ⟨q, hq, hrep, hqlive, hnot, hqtasks⟩ := h.dequeue
  have hrefs : Driver.refs { d₂ with tasks := q } rest = d.refs rest :=
    congrArg (· + (rest.map PendingTask.buf : Multiset Nat)) hc.held
  have hq' : taskRelease p.task d₂.tasks = .ok q := by
    rw [hc.tasks]
    exact hq
  refine ⟨_, Except.bind_eq_ok.mpr ⟨d₂, hrun, Except.bind_eq_ok.mpr ⟨q, hq', rfl⟩⟩, hrep, ?_, ?_,
    ?_, ?_, ?_, ?_, ?_⟩
  · intro t ht
    obtain ⟨hne, ht⟩ := h.nodup.mem_erase_iff.mp (hqlive ▸ ht)
    exact (List.mem_cons.mp (h.tasks t ht)).resolve_left hne
  · show q.live.Nodup
    rw [hqlive]
    exact h.nodup.erase _
  · intro x hx
    have hne : x.task ≠ p.task := fun heq => hnot (heq ▸ List.mem_map_of_mem hx)
    show (q.tasks x.task).task = _ ∧ (q.tasks x.task).user = _ ∧ _ ∈ d₂.liveSends ∧ d₂.sends _ = _
    rw [(hqtasks _ hne).1, (hqtasks _ hne).2, hc.liveSends, hc.sends]
    exact h.calls x (List.mem_cons_of_mem p hx)
  · rw [hrefs, ← herase]
    show d₂.store.Owned _
    rw [hstore]
    exact h.owned.release hmem
  · intro f hf hx
    rw [hrefs, ← herase]
    exact hkept f (hc.handed ▸ hf) hx
  · show (∀ x ∈ d₂.liveBuffs, x < d₂.fresh) ∧ (∀ x ∈ d₂.liveSends, x < d₂.fresh) ∧
      ∀ f ∈ d₂.handed, f.2 < d₂.fresh
    rw [hc.fresh, hc.liveSends, hc.handed]
    exact ⟨fun x hx => h.below.1 x (hlbuffs x hx), h.below.2⟩
  · have hframe : Driver.frame { d₂ with tasks := q } = d.frame := hc.frame
    have hsent := h.sent
    rw [List.flatMap_cons, ← List.append_assoc] at hsent
    show d₂.ports ++ List.flatMap (fun p => Driver.frame { d₂ with tasks := q } _) _ =
      d₂.handed.flatMap _
    rw [hframe, hc.ports, hc.handed]
    exact hsent

theorem get_nil (h : d.Sound []) : taskGet d.tasks = (0, d.tasks) :=
  if_neg fun hne => hne h.queue.chain

theorem get_cons {p : PendingTask} {rest : List PendingTask} (h : d.Sound (p :: rest)) :
    (taskGet d.tasks).1 = p.task := h.queue.get_fst

/-- A round runs the first task, if there is one. -/
theorem round_returns (h : d.Sound pending) :
    (sendStep d .round).Total fun d' => (∃ pending', d'.Sound pending') ∧ d.SameSends d' := by
  dsimp only [sendStep]
  cases pending with
  | nil =>
      rw [h.get_nil, if_neg (fun hne => hne rfl)]
      exact .ok ⟨⟨[], h⟩, rfl, rfl, rfl, rfl⟩
  | cons p rest =>
      rw [h.get_cons, if_pos (h.queue.chain.ne_zero List.mem_cons_self)]
      refine (h.round.and_post (taskRound_sameSends _ _)).mono fun d' ⟨sound, same⟩ => ?_
      exact ⟨⟨rest, sound⟩, same.handed, same.liveSends, same.held, same.frame⟩

theorem step (h : d.Sound pending) (op : SendOp) (hfits : op.Fits d) :
    (sendStep d op).Post fun d' => ∃ pending', d'.Sound pending' := by
  cases op with
  | alloc size data => exact .ok ⟨pending, h.alloc size data⟩
  | addRef b => exact (h.addRef hfits).mono fun d' h' => ⟨pending, h'⟩
  | releaseRef b => exact (h.releaseRef hfits).mono fun d' h' => ⟨pending, h'⟩
  | send dev b => exact (h.send dev hfits).mono fun d' h' => ⟨_, h'⟩
  | round => exact h.round_returns.post.mono fun d' h' => h'.1

/-- There are not more tasks in the queue than on the heap. -/
theorem length_le (h : d.Sound pending) : pending.length ≤ d.tasks.live.length := by
  have hsub := List.subperm_of_subset h.queue.chain.nodup h.queue.queued
  have hlength := hsub.length_le
  rwa [List.length_map] at hlength

/-- The loop ends when the queue is empty. -/
theorem poll {fuel : Nat} (h : d.Sound pending) (hfuel : pending.length < fuel) :
    (taskPollForWork fuel d).Total (·.Sound []) := by
  induction fuel generalizing d pending with
  | zero => exact absurd hfuel (Nat.not_lt_zero _)
  | succ fuel ih =>
      cases pending with
      | nil =>
          rw [taskPollForWork_idle h.get_nil]
          exact .ok h
      | cons p rest =>
          unfold taskPollForWork
          dsimp only
          rw [h.get_cons, if_pos (h.queue.chain.ne_zero List.mem_cons_self)]
          exact h.round.bind fun d' h' => ih h' (Nat.lt_of_succ_lt_succ hfuel)

end Sound

end Driver

/-! ## Runs -/

theorem sends_sound {ops : List SendOp} {d : Driver}
    (run : Transition.Run sendStep (fun d op => op.Fits d) .empty ops d) :
    ∃ pending, d.Sound pending :=
  run.invariant (I := fun d => ∃ pending, d.Sound pending)
    (fun _ op d' ⟨_, h⟩ hfits hstep => h.step op hfits d' hstep) ⟨[], .empty⟩

/-- When the queue has been worked off after any run, everything that the frames needed is freed
exactly if there were no frames. In a run whose reference counts fit into their bytes, all tasks
are freed, and the buffers to which no caller has a reference; each frame went to the ports once,
in order and before its buffer was freed. Only the `PendingSend` of each frame stays. -/
theorem send_reclaims_iff (ops : List SendOp) (d : Driver)
    (run : Transition.exec sendStep .empty ops = .ok d) :
    ((taskPollForWork (d.tasks.live.length + 1) d).Total Driver.Reclaimed ↔
        ops.flatMap SendOp.frames = []) ∧
      (Transition.Run sendStep (fun d op => op.Fits d) .empty ops d →
        (taskPollForWork (d.tasks.live.length + 1) d).Total fun d' => d'.tasks.live = [] ∧
          (∀ f ∈ d'.handed, f.2 ∉ d'.held → f.2 ∉ d'.liveBuffs) ∧
          d'.handed = ops.flatMap SendOp.frames ∧
          d'.ports = d'.handed.flatMap d'.frame ∧
          d'.liveSends.length = d'.handed.length) := by
  obtain ⟨recorded, hhanded⟩ := run_recorded ⟨rfl, fun _ => rfl⟩ run
  rw [show Driver.empty.handed = [] from rfl, List.nil_append] at hhanded
  have hlength : ∀ d', taskPollForWork (d.tasks.live.length + 1) d = .ok d' →
      d'.handed = ops.flatMap SendOp.frames ∧ d'.liveSends.length = d'.handed.length := by
    intro d' hd'
    have hsame := taskPollForWork_sameSends _ d d' hd'
    rw [hsame.handed, hsame.liveSends, recorded.length]
    exact ⟨hhanded, rfl⟩
  refine ⟨⟨?_, fun hnone => ?_⟩, fun hfits => ?_⟩
  · rintro ⟨d', hd', hreclaimed⟩
    obtain ⟨hframes, hcount⟩ := hlength d' hd'
    rw [hreclaimed.sends] at hcount
    rw [← hframes]
    exact List.eq_nil_of_length_eq_zero hcount.symm
  · have hnil : d.handed = [] := hhanded.trans hnone
    have hidle := recorded.idle hnil
    refine ⟨d, ?_, ?_, ?_, fun f hf => ?_⟩
    · refine taskPollForWork_idle ?_ _
      rw [hidle]
      rfl
    · rw [hidle]
      rfl
    · exact List.eq_nil_of_length_eq_zero (recorded.length.trans (congrArg List.length hnil))
    · rw [hnil] at hf
      cases hf
  · obtain ⟨pending, h⟩ := sends_sound hfits
    obtain ⟨d', hd', h'⟩ := h.poll (Nat.lt_succ_of_le h.length_le)
    obtain ⟨hframes, hcount⟩ := hlength d' hd'
    refine ⟨d', hd', ?_, fun f hf hheld hlive => ?_, hframes, ?_, hcount⟩
    · exact List.eq_nil_iff_forall_not_mem.mpr fun t ht => nomatch h'.tasks t ht
    · have hmem := h'.handed f hf hlive
      rw [Driver.refs, List.map_nil, Multiset.coe_nil, Multiset.add_zero] at hmem
      exact hheld hmem
    · have hsent := h'.sent
      rwa [List.flatMap_nil, List.append_nil] at hsent

/-- A caller hands its only buffer over and gives up its reference. -/
theorem pendingSend_leaks : ¬∀ (ops : List SendOp) (d : Driver),
    Transition.Run sendStep (fun d op => op.Fits d) .empty ops d →
      (taskPollForWork (d.tasks.live.length + 1) d).Total Driver.Reclaimed := by
  intro claim
  have hrun : Transition.check sendStep (fun d op => op.Fits d) (fun _ => true) .empty
      [.alloc 60 (fun _ => 0), .addRef 1, .send 0xc000 1, .releaseRef 1] = true := by decide
  obtain ⟨d, run, _⟩ := Transition.Run.of_check hrun
  obtain ⟨recorded, hhanded⟩ := run_recorded ⟨rfl, fun _ => rfl⟩ run.exec_eq
  obtain ⟨d', hd', hreclaimed⟩ := claim _ d run
  have hsame := taskPollForWork_sameSends _ d d' hd'
  have hcount := recorded.length
  rw [← hsame.liveSends, hreclaimed.sends, hhanded] at hcount
  cases hcount

/-- The same, and a buffer that is sent twice and of which the caller keeps a reference. -/
theorem send_reclaims_run : ∃ d, Transition.exec sendStep .empty
    [.alloc 60 (fun _ => 0), .addRef 1, .send 0xc000 1, .releaseRef 1, .alloc 60 (fun _ => 1),
      .addRef 3, .send 0xc000 3, .round, .send 0xc000 3] = .ok d ∧
    ¬(taskPollForWork (d.tasks.live.length + 1) d).Total Driver.Reclaimed ∧
    (taskPollForWork (d.tasks.live.length + 1) d).Total fun d' => d'.tasks.live = [] ∧
      d'.liveSends.length = 3 := by
  have hrun : Transition.check sendStep (fun d op => op.Fits d) (fun _ => true) .empty
      [.alloc 60 (fun _ => 0), .addRef 1, .send 0xc000 1, .releaseRef 1, .alloc 60 (fun _ => 1),
        .addRef 3, .send 0xc000 3, .round, .send 0xc000 3] = true := by decide
  obtain ⟨d, run, _⟩ := Transition.Run.of_check hrun
  obtain ⟨hiff, hfits⟩ := send_reclaims_iff _ d run.exec_eq
  refine ⟨d, run.exec_eq, fun hreclaimed => ?_, ?_⟩
  · cases hiff.mp hreclaimed
  · refine (hfits run).mono fun d' h => ⟨h.1, ?_⟩
    rw [h.2.2.2.2, h.2.2.1]
    rfl

end BadOs
