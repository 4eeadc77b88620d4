import Mathlib.Algebra.Order.Ring.Int
import Mathlib.Data.List.Infix
import Mathlib.Order.Basic

/-!
# Comparing lists by their first difference

The elements at the first position where two lists differ decide. When one of the lists ends there
the result is the same whichever it is, so that neither a list nor a prefix of it is the greater
one. Among lists none of which is a prefix of another the comparison is an order.
-/

namespace List

variable {α : Type*} {a b : α} {l l' l'' : List α}

/-- Neither list is a proper prefix of the other. -/
def NotPrefix (l l' : List α) : Prop := l <+: l' ∨ l' <+: l → l = l'

theorem notPrefix_cons_of_ne (h : a ≠ b) (l l' : List α) : NotPrefix (a :: l) (b :: l') := by
  rintro (hpre | hpre)
  · exact absurd (cons_prefix_cons.mp hpre).1 h
  · exact absurd (cons_prefix_cons.mp hpre).1.symm h

@[simp] theorem notPrefix_cons_self : NotPrefix (a :: l) (a :: l') ↔ NotPrefix l l' := by
  simp only [NotPrefix, cons_prefix_cons, true_and, cons.injEq]

@[simp] theorem notPrefix_nil_left : NotPrefix [] l ↔ l = [] := by
  simp only [NotPrefix, nil_prefix, true_or, true_imp_iff, eq_comm]

theorem NotPrefix.symm (h : NotPrefix l l') : NotPrefix l' l := fun hpre => (h hpre.symm).symm

variable [LinearOrder α]

/-- Negative when the first list has the lesser element, and when one of the lists ends. -/
def compareFirst : List α → List α → Int
  | [], [] => 0
  | a :: l, b :: l' => if a < b then -1 else if b < a then 1 else compareFirst l l'
  | _, _ => -1

theorem compareFirst_cons_lt (h : a < b) (l l' : List α) :
    compareFirst (a :: l) (b :: l') = -1 := if_pos h

theorem compareFirst_cons_gt (h : b < a) (l l' : List α) :
    compareFirst (a :: l) (b :: l') = 1 := (if_neg h.asymm).trans (if_pos h)

@[simp] theorem compareFirst_cons_self (a : α) (l l' : List α) :
    compareFirst (a :: l) (a :: l') = compareFirst l l' :=
  (if_neg (lt_irrefl a)).trans (if_neg (lt_irrefl a))

theorem compareFirst_eq_zero_iff : compareFirst l l' = 0 ↔ l = l' := by
  induction l generalizing l' with
  | nil => cases l' <;> simp [compareFirst]
  | cons a l ih =>
      cases l' with
      | nil => simp [compareFirst]
      | cons b l' =>
          obtain hlt | rfl | hgt := lt_trichotomy a b
          · simp [compareFirst_cons_lt hlt, hlt.ne]
          · simp [ih]
          · simp [compareFirst_cons_gt hgt, hgt.ne']

/-- The sign changes with the order of the lists exactly when neither ends before the other. -/
theorem sign_compareFirst_swap :
    (compareFirst l' l).sign = -(compareFirst l l').sign ↔ NotPrefix l l' := by
  induction l generalizing l' with
  | nil => cases l' <;> simp [compareFirst]
  | cons a l ih =>
      cases l' with
      | nil => simp [compareFirst, NotPrefix]
      | cons b l' =>
          obtain hlt | rfl | hgt := lt_trichotomy a b
          · simp [compareFirst_cons_lt hlt, compareFirst_cons_gt hlt,
              notPrefix_cons_of_ne hlt.ne]
          · simpa using ih
          · simp [compareFirst_cons_lt hgt, compareFirst_cons_gt hgt,
              notPrefix_cons_of_ne hgt.ne']

/-- A list that is not greater is where the first one ends, or the element there is not greater. -/
theorem compareFirst_trans (h : NotPrefix l l') (hle : compareFirst l l' ≤ 0)
    (hle' : compareFirst l' l'' ≤ 0) :
    compareFirst l l'' ≤ 0 ∧
      (compareFirst l l' < 0 ∨ compareFirst l' l'' < 0 → compareFirst l l'' < 0) := by
  induction l generalizing l' l'' with
  | nil =>
      obtain rfl := notPrefix_nil_left.mp h
      exact ⟨hle', fun hlt => hlt.resolve_left (lt_irrefl (0 : Int))⟩
  | cons a l ih =>
      cases l' with
      | nil => cases notPrefix_nil_left.mp h.symm
      | cons b l' =>
          cases l'' with
          | nil => exact ⟨neg_one_lt_zero.le, fun _ => neg_one_lt_zero⟩
          | cons c l'' =>
              have hab : a ≤ b := by
                by_contra hgt
                rw [compareFirst_cons_gt (not_le.mp hgt)] at hle
                exact absurd hle (by decide)
              have hbc : b ≤ c := by
                by_contra hgt
                rw [compareFirst_cons_gt (not_le.mp hgt)] at hle'
                exact absurd hle' (by decide)
              obtain hlt | rfl := (hab.trans hbc).lt_or_eq
              · rw [compareFirst_cons_lt hlt]
                exact ⟨by decide, fun _ => by decide⟩
              · obtain rfl := le_antisymm hab hbc
                simp only [compareFirst_cons_self] at hle hle' ⊢
                exact ih (notPrefix_cons_self.mp h) hle hle'

end List
