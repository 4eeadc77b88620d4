import Mathlib.Data.List.Pairwise

/-!
# Ranges of addresses

A range is given by its first address and its size. Clipping keeps what lies at or above
an address. Among ranges that have no address in common, an address is in one at most.
-/

structure AddrRange where
  start : Nat
  size : Nat
  deriving DecidableEq

namespace AddrRange

def Contains (r : AddrRange) (x : Nat) : Prop := r.start ≤ x ∧ x < r.start + r.size

instance (r : AddrRange) (x : Nat) : Decidable (r.Contains x) := inferInstanceAs (Decidable (_ ∧ _))

/-- The part of a range from `low` on. -/
def clip (low : Nat) (r : AddrRange) : AddrRange :=
  ⟨max low r.start, r.start + r.size - max low r.start⟩

/-- The ranges have no address in common. -/
def Apart (r r' : AddrRange) : Prop := ∀ x, r.Contains x → ¬r'.Contains x

variable {low x : Nat} {r r' : AddrRange}

@[simp] theorem contains_clip : (r.clip low).Contains x ↔ low ≤ x ∧ r.Contains x := by
  simp only [Contains, clip]
  omega

/-- A part that is not empty lies within the range. -/
theorem clip_le (h : 0 < (r.clip low).size) :
    r.start ≤ (r.clip low).start ∧
      (r.clip low).start + (r.clip low).size = r.start + r.size := by
  simp only [clip] at h ⊢
  omega

theorem Apart.of_before (h : r.start + r.size ≤ r'.start) : r.Apart r' := by
  intro x hx hx'
  simp only [Contains] at hx hx'
  omega

/-- Ranges that are apart end before one another, if none is empty. -/
theorem Apart.before_or_after (h : r.Apart r') (pos : 0 < r.size) (pos' : 0 < r'.size) :
    r.start + r.size ≤ r'.start ∨ r'.start + r'.size ≤ r.start := by
  by_contra hcross
  have hin : r.Contains (max r.start r'.start) := by
    simp only [Contains]
    omega
  refine h _ hin ?_
  simp only [Contains]
  omega

end AddrRange

/-- Of elements no two of which pass a test, one that passes it is the only one. -/
theorem List.countP_eq_one {α : Type*} {p : α → Bool} {l : List α} {a : α}
    (apart : l.Pairwise fun a b => p a = true → ¬p b = true) (ha : a ∈ l) (hp : p a = true) :
    l.countP p = 1 := by
  induction l with
  | nil => cases ha
  | cons b l ih =>
      obtain ⟨hb, apart⟩ := List.pairwise_cons.mp apart
      by_cases hpb : p b = true
      · have hnone : l.countP p = 0 := List.countP_eq_zero.mpr fun c hc => hb c hc hpb
        rw [List.countP_cons_of_pos hpb, hnone]
      · have hmem : a ∈ l := by
          obtain rfl | hmem := List.mem_cons.mp ha
          · exact absurd hp hpb
          · exact hmem
        rw [List.countP_cons_of_neg hpb, ih apart hmem]
