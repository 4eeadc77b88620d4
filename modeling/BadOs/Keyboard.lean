import BadOs.Common

/-!
# The keyboard

The interrupt puts a byte into a ring of 32, and the task takes bytes out of it as long as the two
indices differ. The interrupt may come between any two statements of the task. Whether there is room
is not looked at: with 31 bytes in the ring, one more makes it look empty.
-/

namespace BadOs

/-! ## `keyboard.c` -/

structure KeyboardBuffer where
  data : ByteMem
  r : Nat
  w : Nat

abbrev keyboardBufferSize : Nat := 32

namespace KeyboardBuffer

/-- `buffer_init`. -/
def init (b : KeyboardBuffer) : KeyboardBuffer := { b with r := 0, w := 0 }

/-- `buffer_has_data`. -/
def HasData (b : KeyboardBuffer) : Prop := b.r ≠ b.w

instance (b : KeyboardBuffer) : Decidable b.HasData := inferInstanceAs (Decidable (_ ≠ _))

/-- The index behind another one. -/
def next (i : Nat) : Nat := if i + 1 = keyboardBufferSize then 0 else i + 1

/-- `buffer_pop` up to the `return`. -/
def advance (b : KeyboardBuffer) : KeyboardBuffer := { b with r := next b.r }

/-- What `buffer_pop` returns. -/
def fetch (b : KeyboardBuffer) : Except Trap (BitVec 8) :=
  if b.r < keyboardBufferSize then .ok (b.data b.r) else .error .outOfBounds

/-- `buffer_push`. -/
def push (c : BitVec 8) (b : KeyboardBuffer) : Except Trap KeyboardBuffer :=
  let b := { b with w := next b.w }
  if b.w < keyboardBufferSize then .ok { b with data := Function.update b.data b.w c }
  else .error .outOfBounds

end KeyboardBuffer

/-- Where `read_keys` is: before `buffer_has_data`, before `buffer_pop`, and before its
`return`. -/
inductive ReadKeys where
  | test
  | pop
  | fetch
  deriving DecidableEq

/-- The buffer, the task, and all bytes that were put in and taken out. -/
structure Keyboard where
  buffer : KeyboardBuffer
  reader : ReadKeys
  pushed : List (BitVec 8)
  popped : List (BitVec 8)

inductive KeyboardStep where
  /-- `keyboard_irq`, which reads `u` from the port. -/
  | irq (u : BitVec 8)
  /-- A step of `read_keys`, or its next call. -/
  | task
  deriving DecidableEq

namespace Keyboard

/-- After `init_keyboard`. -/
def start (b : KeyboardBuffer) : Keyboard := ⟨b.init, .test, [], []⟩

def step (s : Keyboard) : KeyboardStep → Except Trap Keyboard
  | .irq u => do
      let buffer ← s.buffer.push u
      return { s with buffer, pushed := s.pushed ++ [u] }
  | .task =>
      match s.reader with
      | .test => .ok { s with reader := if s.buffer.HasData then .pop else .test }
      | .pop => .ok { s with buffer := s.buffer.advance, reader := .fetch }
      | .fetch => do
          let c ← s.buffer.fetch
          return { s with reader := .test, popped := s.popped ++ [c] }

def run (b : KeyboardBuffer) (steps : List KeyboardStep) : Except Trap Keyboard :=
  Transition.exec step (start b) steps

/-- The bytes that were put in and not taken out. -/
def pending (s : Keyboard) : Nat := s.pushed.length - s.popped.length

/-- The buffer after these steps: the indices are inside, a byte that was put in last is seen, no
byte is taken out twice or too early, and as long as there were at most 31 bytes none is lost. -/
structure Kept (b : KeyboardBuffer) (steps : List KeyboardStep) (s : Keyboard) : Prop where
  r_lt : s.buffer.r < 32
  w_lt : s.buffer.w < 32
  seen : ∀ u, steps.getLast? = some (.irq u) → s.buffer.HasData
  order : s.popped.Sublist s.pushed
  whole : (∀ steps₁ s₁, steps₁ <+: steps → run b steps₁ = .ok s₁ → s₁.pending ≤ 31) →
    s.popped <+: s.pushed

/-! ## Where the bytes are -/

/-- The number of times that `r` was advanced. -/
def advanced (s : Keyboard) : Nat := s.popped.length + if s.reader = .fetch then 1 else 0

/-- The byte that was taken out last was number `last` of those that were put in. The last 32 of
these are in the ring, each at its number. -/
structure Wf (s : Keyboard) (last : Nat) : Prop where
  w_eq : s.buffer.w = s.pushed.length % 32
  r_eq : s.buffer.r = s.advanced % 32
  data : ∀ i (h : i < s.pushed.length), s.pushed.length ≤ i + 32 →
    s.buffer.data ((i + 1) % 32) = s.pushed[i]
  last_le : last ≤ s.pushed.length
  last_mod : last % 32 = s.popped.length % 32
  order : s.popped.Sublist (s.pushed.take last)
  more : s.reader ≠ .test → last < s.pushed.length

/-- Nothing was lost so far. -/
def Lossless (s : Keyboard) (last : Nat) : Prop :=
  last = s.popped.length ∧ s.popped = s.pushed.take last

theorem next_mod (n : Nat) : KeyboardBuffer.next (n % 32) = (n + 1) % 32 := by
  unfold KeyboardBuffer.next keyboardBufferSize
  split <;> omega

theorem start_wf (b : KeyboardBuffer) : (start b).Wf 0 := by
  constructor
  · rfl
  · rfl
  · exact fun i hi => absurd hi (Nat.not_lt_zero i)
  · exact Nat.le_refl 0
  · rfl
  · exact List.Sublist.refl _
  · exact fun h => absurd rfl h

variable {b : KeyboardBuffer} {s s' : Keyboard} {last : Nat} {steps : List KeyboardStep}

/-- What a step does to a buffer in order. -/
structure Steps (s : Keyboard) (a : KeyboardStep) (s' : Keyboard) (last last' : Nat) : Prop where
  run : s.step a = .ok s'
  wf : s'.Wf last'
  lossless : s.pending ≤ 31 → s.Lossless last → s'.Lossless last'
  seen : ∀ u, a = .irq u → (s'.buffer.HasData ↔ KeyboardBuffer.next s.buffer.w ≠ s.buffer.r)

theorem Wf.irq (h : s.Wf last) (u : BitVec 8) : ∃ s', Steps s (.irq u) s' last last := by
  have hw : KeyboardBuffer.next s.buffer.w = (s.pushed.length + 1) % 32 := by
    rw [h.w_eq, next_mod]
  have hpush : s.buffer.push u = .ok { s.buffer with
      w := KeyboardBuffer.next s.buffer.w
      data := Function.update s.buffer.data (KeyboardBuffer.next s.buffer.w) u } :=
    if_pos (by rw [hw]; exact Nat.mod_lt _ (by decide))
  refine ⟨_, Except.bind_eq_ok.mpr ⟨_, hpush, rfl⟩, ?_, ?_, ?_⟩
  · constructor
    · dsimp only
      rw [hw, List.length_append, List.length_singleton]
    · exact h.r_eq
    · intro i hi hnear
      dsimp only at hi hnear ⊢
      rw [List.length_append, List.length_singleton] at hi hnear
      obtain hold | rfl := Nat.lt_succ_iff_lt_or_eq.mp hi
      · have hne : (i + 1) % 32 ≠ KeyboardBuffer.next s.buffer.w := by
          rw [hw]
          omega
        rw [Function.update_of_ne hne, List.getElem_append_left hold]
        exact h.data i hold (by omega)
      · rw [← hw, Function.update_self, List.getElem_concat_length rfl]
    · exact h.last_le.trans (by simp)
    · exact h.last_mod
    · dsimp only
      rw [List.take_append_of_le_length h.last_le]
      exact h.order
    · intro hreader
      have hmore := h.more hreader
      simp only [List.length_append, List.length_singleton]
      omega
  · rintro _ ⟨hlast, heq⟩
    refine ⟨hlast, ?_⟩
    dsimp only
    rw [List.take_append_of_le_length h.last_le]
    exact heq
  · intro _ _
    exact ne_comm

theorem Wf.test (h : s.Wf last) (hreader : s.reader = .test) :
    ∃ s', Steps s .task s' last last := by
  refine ⟨{ s with reader := if s.buffer.HasData then .pop else .test }, ?_, ?_, ?_, ?_⟩
  · rw [step, hreader]
  · have hadvanced : s.advanced = s.popped.length := by
      rw [advanced, hreader]
      rfl
    have hnext : (if s.buffer.HasData then ReadKeys.pop else .test) ≠ .fetch := by
      split <;> decide
    constructor
    · exact h.w_eq
    · rw [h.r_eq, hadvanced, advanced]
      dsimp only
      rw [if_neg hnext, Nat.add_zero]
    · exact h.data
    · exact h.last_le
    · exact h.last_mod
    · exact h.order
    · intro hreader'
      have hdata : s.buffer.HasData := by
        by_contra hempty
        exact hreader' (if_neg hempty)
      have hle := h.last_le
      have hmod := h.last_mod
      unfold KeyboardBuffer.HasData at hdata
      rw [h.r_eq, h.w_eq, hadvanced] at hdata
      dsimp only
      omega
  · exact fun _ hlossless => hlossless
  · exact fun u hu => nomatch hu

theorem Wf.pop (h : s.Wf last) (hreader : s.reader = .pop) : ∃ s', Steps s .task s' last last := by
  refine ⟨{ s with buffer := s.buffer.advance, reader := .fetch }, ?_, ?_, ?_, ?_⟩
  · rw [step, hreader]
  · constructor
    · exact h.w_eq
    · have hr := h.r_eq
      rw [advanced, hreader] at hr
      show KeyboardBuffer.next s.buffer.r = (s.popped.length + 1) % 32
      rw [hr, if_neg (by decide), next_mod, Nat.add_zero]
    · exact h.data
    · exact h.last_le
    · exact h.last_mod
    · exact h.order
    · exact fun _ => h.more (by rw [hreader]; decide)
  · exact fun _ hlossless => hlossless
  · exact fun u hu => nomatch hu

/-- The byte that is taken out is the last one with the right number. -/
theorem Wf.fetch (h : s.Wf last) (hreader : s.reader = .fetch) :
    ∃ s' last', Steps s .task s' last last' := by
  have hmore := h.more (by rw [hreader]; decide)
  have hmod := h.last_mod
  have hr := h.r_eq
  rw [advanced, hreader, if_pos rfl] at hr
  obtain ⟨i, hi, hlast, hnear, hnumber, hnext⟩ : ∃ i, i < s.pushed.length ∧ last ≤ i ∧
      s.pushed.length ≤ i + 32 ∧ (i + 1) % 32 = (s.popped.length + 1) % 32 ∧
      (s.pushed.length ≤ last + 32 → i = last) :=
    ⟨s.pushed.length - 1 - (s.pushed.length - 1 - last) % 32, by omega, by omega, by omega,
      by omega, by omega⟩
  have hfetch : s.buffer.fetch = .ok s.pushed[i] := by
    rw [KeyboardBuffer.fetch, if_pos (by rw [hr]; exact Nat.mod_lt _ (by decide)), hr, ← hnumber,
      h.data i hi hnear]
  refine ⟨{ s with reader := .test, popped := s.popped ++ [s.pushed[i]] }, i + 1, ?_, ?_, ?_, ?_⟩
  · rw [step, hreader]
    exact Except.bind_eq_ok.mpr ⟨_, hfetch, rfl⟩
  · constructor
    · exact h.w_eq
    · rw [hr, advanced]
      dsimp only
      rw [List.length_append, List.length_singleton, if_neg (by decide), Nat.add_zero]
    · exact h.data
    · exact hi
    · dsimp only
      rw [List.length_append, List.length_singleton, hnumber]
    · dsimp only
      rw [List.take_succ_eq_append_getElem hi]
      exact (h.order.trans (List.take_sublist_take_left hlast)).append (List.Sublist.refl _)
    · exact fun hne => absurd rfl hne
  · rintro hpending ⟨hlength, heq⟩
    unfold pending at hpending
    obtain rfl := hnext (by omega)
    refine ⟨?_, ?_⟩
    · dsimp only
      rw [List.length_append, List.length_singleton, ← hlength]
    · dsimp only
      rw [List.take_succ_eq_append_getElem hi, ← heq]
  · exact fun u hu => nomatch hu

theorem Wf.step (h : s.Wf last) (a : KeyboardStep) : ∃ s' last', Steps s a s' last last' := by
  cases a with
  | irq u =>
      obtain ⟨s', hsteps⟩ := h.irq u
      exact ⟨s', last, hsteps⟩
  | task =>
      cases hreader : s.reader with
      | test =>
          obtain ⟨s', hsteps⟩ := h.test hreader
          exact ⟨s', last, hsteps⟩
      | pop =>
          obtain ⟨s', hsteps⟩ := h.pop hreader
          exact ⟨s', last, hsteps⟩
      | fetch => exact h.fetch hreader

/-! ## Runs -/

/-- No index leaves the ring. -/
theorem run_wf (b : KeyboardBuffer) (steps : List KeyboardStep) :
    ∃ s last, run b steps = .ok s ∧ s.Wf last ∧
      ((∀ steps₁ s₁, steps₁ <+: steps → run b steps₁ = .ok s₁ → s₁.pending ≤ 31) →
        s.Lossless last) := by
  induction steps using List.reverseRecOn with
  | nil => exact ⟨start b, 0, rfl, start_wf b, fun _ => ⟨rfl, rfl⟩⟩
  | append_singleton steps a ih =>
      obtain ⟨s, last, hrun, hwf, hlossless⟩ := ih
      obtain ⟨s', last', hsteps⟩ := hwf.step a
      have hpre := List.prefix_append steps [a]
      refine ⟨s', last', Transition.exec_concat_eq_ok.mpr ⟨s, hrun, hsteps.run⟩, hsteps.wf, ?_⟩
      intro hpending
      refine hsteps.lossless (hpending steps s hpre hrun) (hlossless fun steps₁ s₁ h₁ => ?_)
      exact hpending steps₁ s₁ (h₁.trans hpre)

/-- After a push the buffer looks empty exactly if the index that was written to is that of the
byte that was read last. -/
theorem run_irq {u : BitVec 8} (hrun : run b steps = .ok s)
    (hrun' : run b (steps ++ [.irq u]) = .ok s') :
    s'.buffer.HasData ↔ KeyboardBuffer.next s.buffer.w ≠ s.buffer.r := by
  obtain ⟨s₁, last, hrun₁, hwf, _⟩ := run_wf b steps
  obtain ⟨s₂, hsteps⟩ := hwf.irq u
  obtain ⟨s₃, hrun₃, hstep⟩ := Transition.exec_concat_eq_ok.mp hrun'
  cases hrun₁.symm.trans hrun
  cases hrun₃.symm.trans hrun
  cases hsteps.run.symm.trans hstep
  exact hsteps.seen u rfl

theorem kept (hrun : run b steps = .ok s)
    (seen : ∀ u, steps.getLast? = some (.irq u) → s.buffer.HasData) : Kept b steps s := by
  obtain ⟨s₁, last, hrun₁, hwf, hlossless⟩ := run_wf b steps
  cases hrun₁.symm.trans hrun
  constructor
  · rw [hwf.r_eq]
    exact Nat.mod_lt _ (by decide)
  · rw [hwf.w_eq]
    exact Nat.mod_lt _ (by decide)
  · exact seen
  · exact hwf.order.trans (List.take_sublist _ _)
  · intro hpending
    rw [(hlossless hpending).2]
    exact List.take_prefix _ _

/-- 32 bytes that come before any is taken out are lost. -/
theorem keyboard_full : ¬∀ (b : KeyboardBuffer) (steps : List KeyboardStep),
    (run b steps).Total (Kept b steps) := by
  intro claim
  have hfull : (run ⟨fun _ => 0, 0, 0⟩ (List.replicate 31 (.irq 0x1e))).holds
      (fun s => KeyboardBuffer.next s.buffer.w == s.buffer.r) = true := by
    decide +kernel
  obtain ⟨s, hrun, hcatch⟩ := Except.exists_of_holds hfull
  obtain ⟨s', hrun', hkept⟩ := claim _ (List.replicate 31 (.irq 0x1e) ++ [.irq 0x1e])
  exact (run_irq hrun hrun').mp (hkept.seen 0x1e List.getLast?_concat) (beq_iff_eq.mp hcatch)

/-- All of this holds at every time during a run exactly if no push lets `w` catch up with `r`. -/
theorem keyboard_iff (b : KeyboardBuffer) (steps : List KeyboardStep) :
    (∀ steps₁, steps₁ <+: steps → (run b steps₁).Total (Kept b steps₁)) ↔
      ∀ steps₁ u s₁, steps₁ ++ [.irq u] <+: steps → run b steps₁ = .ok s₁ →
        KeyboardBuffer.next s₁.buffer.w ≠ s₁.buffer.r := by
  constructor
  · intro h steps₁ u s₁ hpre hrun
    obtain ⟨s', hrun', hkept⟩ := h _ hpre
    exact (run_irq hrun hrun').mp (hkept.seen u List.getLast?_concat)
  · intro hcond steps₁ hpre
    obtain ⟨s', _, hrun', _⟩ := run_wf b steps₁
    refine ⟨s', hrun', kept hrun' fun u hlast => ?_⟩
    obtain ⟨steps₀, rfl⟩ := List.getLast?_eq_some_iff.mp hlast
    obtain ⟨s, hrun, _⟩ := Transition.exec_concat_eq_ok.mp hrun'
    exact (run_irq hrun hrun').mpr (hcond steps₀ u s hpre hrun)

end Keyboard

end BadOs
