import BadOs.Data.Outcome

/-!
# Runs of a fallible step function

`step s l` either yields the next state or fails; a run follows a list of
labels and exists only while every step succeeds. A guard restricts a run to
steps whose entry state and label satisfy it, so that one invariant rule covers
both arbitrary runs (the guard `fun _ _ => True`) and well-behaved ones.
-/

universe u v

namespace Transition

variable {ε : Type u} {S : Type v} {L : Type*} {step : S → L → Except ε S} {guard : S → L → Prop}

/-- A run of `step` from `s` to `t` along `ls`, each of whose steps meets `guard`
in the state it starts from. -/
inductive Run (step : S → L → Except ε S) (guard : S → L → Prop) : S → List L → S → Prop where
  | nil (s : S) : Run step guard s [] s
  | cons {s s' t : S} {l : L} {ls : List L} : guard s l → step s l = .ok s' →
      Run step guard s' ls t → Run step guard s (l :: ls) t

/-- Decide whether the guarded run along `ls` exists and ends in a state with `post`. -/
def check (step : S → L → Except ε S) (guard : S → L → Prop) [∀ s l, Decidable (guard s l)]
    (post : S → Bool) : S → List L → Bool
  | s, [] => post s
  | s, l :: ls => decide (guard s l) && (step s l).holds fun s' => check step guard post s' ls

/-- Follow a list of labels; the whole fails as soon as one step does. -/
def exec (step : S → L → Except ε S) : S → List L → Except ε S
  | s, [] => .ok s
  | s, l :: ls => step s l >>= fun s' => exec step s' ls

theorem exec_cons {s s' : S} {l : L} {ls : List L} (h : step s l = .ok s') :
    exec step s (l :: ls) = exec step s' ls := by
  rw [exec, h]
  rfl

theorem exec_append {s t : S} {ls ls' : List L} (h : exec step s ls = .ok t) :
    exec step s (ls ++ ls') = exec step t ls' := by
  induction ls generalizing s with
  | nil => cases h; rfl
  | cons l ls ih =>
      obtain ⟨s', hstep, hrest⟩ := Except.bind_eq_ok.mp h
      rw [List.cons_append, exec_cons hstep]
      exact ih hrest

theorem exec_append_eq_ok {s t : S} {ls ls' : List L} :
    exec step s (ls ++ ls') = .ok t ↔ ∃ m, exec step s ls = .ok m ∧ exec step m ls' = .ok t := by
  constructor
  · intro h
    induction ls generalizing s with
    | nil => exact ⟨s, rfl, h⟩
    | cons l ls ih =>
        obtain ⟨s', hstep, hrest⟩ := Except.bind_eq_ok.mp h
        obtain ⟨m, hm, ht⟩ := ih hrest
        exact ⟨m, Except.bind_eq_ok.mpr ⟨s', hstep, hm⟩, ht⟩
  · rintro ⟨m, hm, ht⟩
    rw [exec_append hm, ht]

theorem exec_concat_eq_ok {s t : S} {ls : List L} {l : L} :
    exec step s (ls ++ [l]) = .ok t ↔ ∃ m, exec step s ls = .ok m ∧ step m l = .ok t := by
  rw [exec_append_eq_ok]
  apply exists_congr
  intro m
  apply and_congr_right
  intro _
  constructor
  · intro h
    obtain ⟨t', hstep, hrest⟩ := Except.bind_eq_ok.mp h
    cases hrest
    exact hstep
  · intro h
    rw [exec_cons h]
    rfl

namespace Run

/-- An unguarded run is a successful execution. -/
theorem of_exec {s t : S} {ls : List L} (h : exec step s ls = .ok t)
    (allowed : ∀ s l, guard s l) : Run step guard s ls t := by
  induction ls generalizing s with
  | nil => cases h; exact .nil _
  | cons l ls ih =>
      obtain ⟨s', hstep, hrest⟩ := Except.bind_eq_ok.mp h
      exact .cons (allowed s l) hstep (ih hrest)

theorem of_check [∀ s l, Decidable (guard s l)] {post : S → Bool} {s : S} {ls : List L}
    (h : check step guard post s ls = true) : ∃ t, Run step guard s ls t ∧ post t = true := by
  induction ls generalizing s with
  | nil => exact ⟨s, .nil s, h⟩
  | cons l ls ih =>
      rw [check, Bool.and_eq_true, decide_eq_true_eq] at h
      obtain ⟨allowed, hrest⟩ := h
      obtain ⟨s', hstep, hrest⟩ := Except.exists_of_holds hrest
      obtain ⟨t, run, hpost⟩ := ih hrest
      exact ⟨t, .cons allowed hstep run, hpost⟩

theorem exec_eq {s t : S} {ls : List L} (h : Run step guard s ls t) : exec step s ls = .ok t := by
  induction h with
  | nil s => rfl
  | cons _ hstep _ ih => exact Except.bind_eq_ok.mpr ⟨_, hstep, ih⟩

theorem mono {guard' : S → L → Prop} {s t : S} {ls : List L} (h : Run step guard s ls t)
    (weaker : ∀ s l, guard s l → guard' s l) : Run step guard' s ls t := by
  induction h with
  | nil s => exact .nil s
  | cons allowed hstep _ ih => exact .cons (weaker _ _ allowed) hstep ih

/-- What every guarded step preserves holds at the end of every guarded run. -/
theorem invariant {I : S → Prop} {s t : S} {ls : List L} (h : Run step guard s ls t)
    (preserved : ∀ s l s', I s → guard s l → step s l = .ok s' → I s') (start : I s) :
    I t := by
  induction h with
  | nil s => exact start
  | cons allowed hstep _ ih => exact ih (preserved _ _ _ start allowed hstep)

/-- Guards that agree in the states that an invariant allows have the same runs. -/
theorem guard_iff {guard' : S → L → Prop} {I : S → Prop} {s t : S} {ls : List L}
    (start : I s) (preserved : ∀ s l s', I s → guard s l → step s l = .ok s' → I s')
    (same : ∀ s l s', I s → step s l = .ok s' → (guard s l ↔ guard' s l)) :
    Run step guard s ls t ↔ Run step guard' s ls t := by
  constructor
  · intro run
    induction run with
    | nil s => exact .nil s
    | cons allowed hstep _ ih =>
        exact .cons ((same _ _ _ start hstep).mp allowed) hstep
          (ih (preserved _ _ _ start allowed hstep))
  · intro run
    induction run with
    | nil s => exact .nil s
    | cons allowed' hstep _ ih =>
        have allowed := (same _ _ _ start hstep).mpr allowed'
        exact .cons allowed hstep (ih (preserved _ _ _ start allowed hstep))

/-- A relation to the states of a total machine on the same labels. -/
theorem simulates {A : Type*} {R : S → A → Prop} {next : A → L → A} {s t : S} {a : A}
    {ls : List L} (h : Run step guard s ls t)
    (preserved : ∀ s a l s', R s a → guard s l → step s l = .ok s' → R s' (next a l))
    (start : R s a) : R t (ls.foldl next a) := by
  induction h generalizing a with
  | nil s => exact start
  | cons allowed hstep _ ih => exact ih (preserved _ _ _ _ start allowed hstep)

/-- What does not hold at the start of a run and holds at its end came about in one of
the steps. -/
theorem exists_step {P : S → Prop} {s t : S} {ls : List L} (h : Run step guard s ls t)
    (start : ¬P s) (final : P t) :
    ∃ ls₁ l ls₂ s₁ s₂, ls = ls₁ ++ l :: ls₂ ∧ Run step guard s ls₁ s₁ ∧ guard s₁ l ∧
      step s₁ l = .ok s₂ ∧ ¬P s₁ ∧ P s₂ := by
  induction h with
  | nil s => exact absurd final start
  | @cons s s' t l ls allowed hstep _ ih =>
      by_cases hmid : P s'
      · exact ⟨[], l, ls, s, s', rfl, .nil s, allowed, hstep, start, hmid⟩
      · obtain ⟨ls₁, l', ls₂, s₁, s₂, rfl, run, rest⟩ := ih hmid final
        exact ⟨l :: ls₁, l', ls₂, s₁, s₂, rfl, .cons allowed hstep run, rest⟩

end Run
end Transition
