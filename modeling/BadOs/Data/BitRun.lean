import Mathlib.Data.BitVec
import Mathlib.Data.Nat.Bitwise
import Mathlib.Tactic.Ring

/-!
# Runs of ones in a machine word

`run w n k` has ones exactly at the `n` positions from `k` on. Bitmap
allocators test, set and clear such runs; the lemmas read the three operations
off bit by bit.
-/

namespace BitRun

variable {w : Nat}

/-- `n` low ones, by the usual shift and decrement. -/
def ones (w n : Nat) : BitVec w := (1#w <<< n) - 1#w

/-- `n` ones from position `k` on. -/
def run (w n k : Nat) : BitVec w := ones w n <<< k

theorem ones_toNat {n : Nat} (hn : n < w) : (ones w n).toNat = 2 ^ n - 1 := by
  have hlt : 2 ^ n < 2 ^ w := Nat.pow_lt_pow_right (by decide) hn
  have hpos : 0 < 2 ^ n := Nat.two_pow_pos n
  have hone : 1 < 2 ^ w := Nat.one_lt_two_pow (by omega)
  simp only [ones, BitVec.toNat_sub, BitVec.toNat_shiftLeft, BitVec.toNat_ofNat,
    Nat.mod_eq_of_lt hone, Nat.shiftLeft_eq, Nat.one_mul, Nat.mod_eq_of_lt hlt]
  have hsum : 2 ^ w - 1 + 2 ^ n = 2 ^ n - 1 + 2 ^ w := by omega
  rw [hsum, Nat.add_mod_right, Nat.mod_eq_of_lt (by omega)]

theorem getLsbD_ones {n : Nat} (hn : n < w) (i : Nat) : (ones w n).getLsbD i = decide (i < n) := by
  rw [BitVec.getLsbD, ones_toNat hn, Nat.testBit_two_pow_sub_one]

theorem getLsbD_run {n : Nat} (hn : n < w) (k i : Nat) :
    (run w n k).getLsbD i = decide (i < w ∧ k ≤ i ∧ i < k + n) := by
  simp only [run, BitVec.getLsbD_shiftLeft, getLsbD_ones hn]
  by_cases hi : i < w
  · by_cases hk : i < k
    · have hk' : ¬k ≤ i := Nat.not_le.mpr hk
      simp only [hi, hk, hk', decide_true, decide_false, Bool.not_true, Bool.and_false,
        Bool.false_and, false_and, and_false]
    · have hiff : i - k < n ↔ k ≤ i ∧ i < k + n := by omega
      simp only [hi, hk, hiff, decide_true, decide_false, Bool.not_false, Bool.true_and, true_and]
  · simp only [hi, decide_false, Bool.false_and, false_and]

/-- `mask & p == mask` says that every one of the mask is a one of `p`. -/
theorem and_eq_left_iff (mask p : BitVec w) :
    mask &&& p = mask ↔ ∀ i, mask.getLsbD i = true → p.getLsbD i = true := by
  constructor
  · intro h i hi
    have hbit : (mask &&& p).getLsbD i = true := by rw [h, hi]
    rw [BitVec.getLsbD_and, hi, Bool.true_and] at hbit
    exact hbit
  · intro h
    apply BitVec.eq_of_getLsbD_eq
    intro i _
    rw [BitVec.getLsbD_and]
    cases hm : mask.getLsbD i with
    | false => rfl
    | true => rw [h i hm]; rfl

/-- A run fits into the complement of `p` when `p` is clear along it. -/
theorem run_fits_not_iff {n k : Nat} (hn : n < w) (hk : k + n ≤ w) (p : BitVec w) :
    run w n k &&& ~~~p = run w n k ↔ ∀ i, k ≤ i → i < k + n → p.getLsbD i = false := by
  rw [and_eq_left_iff]
  constructor
  · intro h i hlo hhi
    have hi : i < w := by omega
    have hrun := h i (by rw [getLsbD_run hn]; exact decide_eq_true ⟨hi, hlo, hhi⟩)
    rw [BitVec.getLsbD_not, decide_eq_true hi, Bool.true_and] at hrun
    cases hp : p.getLsbD i with
    | false => rfl
    | true => rw [hp] at hrun; exact absurd hrun (by decide)
  · intro h i hi
    rw [getLsbD_run hn, decide_eq_true_eq] at hi
    rw [BitVec.getLsbD_not, decide_eq_true hi.1, h i hi.2.1 hi.2.2]
    rfl

/-- Setting a run. -/
theorem getLsbD_or_run {n k : Nat} (hn : n < w) (p : BitVec w) (i : Nat) :
    (p ||| run w n k).getLsbD i = (p.getLsbD i || decide (i < w ∧ k ≤ i ∧ i < k + n)) := by
  rw [BitVec.getLsbD_or, getLsbD_run hn]

/-- Clearing a run. -/
theorem getLsbD_and_not_run {n k : Nat} (hn : n < w) (p : BitVec w) {i : Nat} (hi : i < w) :
    (p &&& ~~~run w n k).getLsbD i = (p.getLsbD i && !decide (k ≤ i ∧ i < k + n)) := by
  rw [BitVec.getLsbD_and, BitVec.getLsbD_not, getLsbD_run hn, decide_eq_true hi, Bool.true_and]
  simp only [hi, true_and]

/-- Setting a clear run and clearing it again is the identity. -/
theorem or_run_and_not_run {n k : Nat} (hn : n < w) {p : BitVec w}
    (clear : ∀ i, k ≤ i → i < k + n → p.getLsbD i = false) :
    (p ||| run w n k) &&& ~~~run w n k = p := by
  apply BitVec.eq_of_getLsbD_eq
  intro i hi
  rw [getLsbD_and_not_run hn _ hi, getLsbD_or_run hn]
  by_cases hrun : k ≤ i ∧ i < k + n
  · rw [clear i hrun.1 hrun.2]
    simp [hrun]
  · simp [hrun]

end BitRun
