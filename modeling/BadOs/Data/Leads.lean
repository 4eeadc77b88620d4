/-!
# What a relation leads to

`Leads step Q s` says that from `s` on a state with `Q` comes about, whatever is chosen where
`step` allows more than one thing, and that nothing gets stuck before.
-/

namespace Transition

universe u

inductive Leads {S : Type u} (step : S → S → Prop) (Q : S → Prop) : S → Prop where
  | here {s : S} : Q s → Leads step Q s
  | next {s : S} : (∃ s', step s s') → (∀ s', step s s' → Leads step Q s') → Leads step Q s

namespace Leads

variable {S : Type u} {step : S → S → Prop} {P Q : S → Prop} {s s' : S}

theorem trans (h : Leads step P s) (rest : ∀ t, P t → Leads step Q t) : Leads step Q s := by
  induction h with
  | here hP => exact rest _ hP
  | next progress _ ih => exact .next progress ih

theorem mono (h : Leads step P s) (weaker : ∀ t, P t → Q t) : Leads step Q s :=
  h.trans fun t hP => .here (weaker t hP)

/-- A step without a choice. -/
theorem one (hstep : step s s') (unique : ∀ t, step s t → t = s') (h : Leads step Q s') :
    Leads step Q s := by
  apply Leads.next ⟨s', hstep⟩
  intro t ht
  rw [unique t ht]
  exact h

end Leads
end Transition
