import Mathlib.Order.Bounds.Basic

/-!
# A register that keeps the greatest value

`raise m a` is the register `m` after `a` was compared with it. Fed with the values of a history
one after the other it holds the greatest of them, in whatever order they come and however often.
-/

namespace Highest

variable {α : Type*} [LE α] [DecidableLE α] {s : Set α} {m n a b : α}

/-- The value takes the place of the register unless it is smaller. -/
def raise (m a : α) : α := if m ≤ a then a else m

theorem raise_of_le (h : m ≤ a) : raise m a = a := if_pos h

theorem raise_of_not_le (h : ¬m ≤ a) : raise m a = m := if_neg h

variable [Std.IsLinearOrder α]

theorem raise_of_ge (h : a ≤ m) : raise m a = m := by
  by_cases hle : m ≤ a
  · rw [raise_of_le hle]
    exact Std.le_antisymm h hle
  · exact raise_of_not_le hle

theorem le_raise_left (m a : α) : m ≤ raise m a := by
  by_cases h : m ≤ a
  · rw [raise_of_le h]
    exact h
  · rw [raise_of_not_le h]
    exact Std.le_refl m

theorem le_raise_right (m a : α) : a ≤ raise m a := by
  by_cases h : m ≤ a
  · rw [raise_of_le h]
    exact Std.le_refl a
  · rw [raise_of_not_le h]
    exact (Std.le_total (a := m) (b := a)).resolve_left h

omit [DecidableLE α] in
theorem isGreatest_singleton_iff : IsGreatest {a} m ↔ m = a := by
  constructor
  · exact fun h => h.1
  · rintro rfl
    refine ⟨rfl, ?_⟩
    rintro _ rfl
    exact Std.le_refl _

theorem isGreatest_raise (h : IsGreatest s m) (a : α) : IsGreatest (insert a s) (raise m a) := by
  constructor
  · by_cases hle : m ≤ a
    · rw [raise_of_le hle]
      exact Set.mem_insert a s
    · rw [raise_of_not_le hle]
      exact Set.mem_insert_of_mem a h.1
  · rintro x (rfl | hx)
    · exact le_raise_right m x
    · exact Std.le_trans (h.2 hx) (le_raise_left m a)

/-- There is one greatest value. -/
theorem isGreatest_insert_iff (h : IsGreatest s m) :
    IsGreatest (insert a s) n ↔ n = raise m a := by
  constructor
  · intro h'
    have hraise := isGreatest_raise h a
    exact Std.le_antisymm (hraise.2 h'.1) (h'.2 hraise.1)
  · rintro rfl
    exact isGreatest_raise h a

/-- Two different values do the same to the register only if it stays as it is. -/
theorem raise_eq_raise_iff : raise m a = raise m b ↔ a = b ∨ a ≤ m ∧ b ≤ m := by
  constructor
  · intro h
    by_cases ha : a ≤ m
    · refine .inr ⟨ha, ?_⟩
      rw [← raise_of_ge ha, h]
      exact le_raise_right m b
    · have hb : ¬b ≤ m := by
        intro hb
        rw [raise_of_ge hb] at h
        exact ha (h ▸ le_raise_right m a)
      rw [raise_of_le ((Std.le_total (a := m) (b := a)).resolve_right ha),
        raise_of_le ((Std.le_total (a := m) (b := b)).resolve_right hb)] at h
      exact .inl h
  · rintro (rfl | ⟨ha, hb⟩)
    · rfl
    · rw [raise_of_ge ha, raise_of_ge hb]

end Highest
