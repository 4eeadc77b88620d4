import Mathlib.Data.BitVec
import Mathlib.Data.List.Basic

/-!
# Decimal numerals in bytes

The numeral of a number is what `Nat.toDigits` gives, in ASCII. What loops that divide by ten
produce are the digits without the numeral `0`, which has a digit although nothing is left to
divide.
-/

namespace Decimal

/-- The characters of the numeral. -/
def numeral (n : Nat) : List (BitVec 8) := (Nat.toDigits 10 n).map fun c => BitVec.ofNat 8 c.toNat

/-- The character of a digit. -/
def digit (k : Nat) : BitVec 8 := BitVec.ofNat 8 (48 + k)

/-- What a numeral stands for. -/
def value (l : List (BitVec 8)) : Nat := l.foldl (fun v c => 10 * v + (c.toNat - 48)) 0

/-- Only digits, no zero in front of others, and the right value. -/
structure IsNumeral (l : List (BitVec 8)) (n : Nat) : Prop where
  digits : ∀ c ∈ l, 48 ≤ c.toNat ∧ c.toNat ≤ 57
  leading : l = [48] ∨ ∃ c rest, l = c :: rest ∧ c ≠ 48
  value : value l = n

/-- The digits that there are before nothing is left. -/
def digits (n : Nat) : List (BitVec 8) := if n = 0 then [] else numeral n

theorem digit_toNat {k : Nat} (h : k < 10) : (digit k).toNat = 48 + k := by
  rw [digit, BitVec.toNat_ofNat]
  omega

theorem ofNat_digitChar {k : Nat} (h : k < 10) :
    BitVec.ofNat 8 k.digitChar.toNat = digit k := by
  revert k
  decide

theorem numeral_of_lt {n : Nat} (h : n < 10) : numeral n = [digit n] := by
  rw [numeral, Nat.toDigits_of_lt_base h, List.map_singleton, ofNat_digitChar h]

theorem numeral_of_le {n : Nat} (h : 10 ≤ n) :
    numeral n = numeral (n / 10) ++ [digit (n % 10)] := by
  rw [numeral, Nat.toDigits_of_base_le (by decide) h, List.map_append, List.map_singleton,
    ofNat_digitChar (Nat.mod_lt n (by decide)), numeral]

theorem numeral_ne_nil (n : Nat) : numeral n ≠ [] :=
  fun h => Nat.toDigits_ne_nil (List.map_eq_nil_iff.mp h)

theorem digits_of_ne_zero {n : Nat} (h : n ≠ 0) : digits n = numeral n := if_neg h

/-- The last digit is what a division leaves over. -/
theorem digits_eq {n : Nat} (h : n ≠ 0) : digits n = digits (n / 10) ++ [digit (n % 10)] := by
  rw [digits_of_ne_zero h]
  by_cases hlt : n < 10
  · rw [numeral_of_lt hlt, Nat.div_eq_of_lt hlt, Nat.mod_eq_of_lt hlt]
    rfl
  · have hdiv : n / 10 ≠ 0 := by omega
    rw [digits_of_ne_zero hdiv]
    exact numeral_of_le (Nat.le_of_not_lt hlt)

theorem length_digits_le {n k : Nat} (h : n < 10 ^ k) : (digits n).length ≤ k := by
  induction k generalizing n with
  | zero =>
      obtain rfl : n = 0 := Nat.lt_one_iff.mp h
      exact Nat.le_refl 0
  | succ k ih =>
      by_cases hn : n = 0
      · rw [hn]
        exact Nat.zero_le _
      · rw [digits_eq hn, List.length_append, List.length_singleton]
        exact Nat.succ_le_succ (ih (by omega))

theorem value_concat (l : List (BitVec 8)) (c : BitVec 8) :
    value (l ++ [c]) = 10 * value l + (c.toNat - 48) := by
  rw [value, List.foldl_append]
  rfl

theorem value_numeral (n : Nat) : value (numeral n) = n := by
  induction n using Nat.strong_induction_on with
  | _ n ih =>
      by_cases hlt : n < 10
      · rw [numeral_of_lt hlt, ← List.nil_append [digit n], value_concat, digit_toNat hlt,
          Nat.add_sub_cancel_left]
        exact Nat.zero_add n
      · have hmod := Nat.mod_lt n (show 10 > 0 by decide)
        rw [numeral_of_le (Nat.le_of_not_lt hlt), value_concat, ih (n / 10) (by omega),
          digit_toNat hmod]
        omega

theorem mem_numeral {n : Nat} {c : BitVec 8} (h : c ∈ numeral n) :
    48 ≤ c.toNat ∧ c.toNat ≤ 57 := by
  induction n using Nat.strong_induction_on with
  | _ n ih =>
      have hdigit {k : Nat} (hk : k < 10) : 48 ≤ (digit k).toNat ∧ (digit k).toNat ≤ 57 := by
        rw [digit_toNat hk]
        omega
      by_cases hlt : n < 10
      · rw [numeral_of_lt hlt, List.mem_singleton] at h
        exact h ▸ hdigit hlt
      · rw [numeral_of_le (Nat.le_of_not_lt hlt)] at h
        obtain h | h := List.mem_append.mp h
        · exact ih (n / 10) (by omega) h
        · exact List.mem_singleton.mp h ▸ hdigit (Nat.mod_lt n (by decide))

theorem ne_zero_of_mem_numeral {n : Nat} {c : BitVec 8} (h : c ∈ numeral n) : c ≠ 0 := by
  rintro rfl
  exact absurd (mem_numeral h).1 (by decide)

/-- The first digit of a number stays the first one when others follow. -/
theorem numeral_head {n : Nat} (h : n ≠ 0) : ∃ c rest, numeral n = c :: rest ∧ c ≠ 48 := by
  induction n using Nat.strong_induction_on with
  | _ n ih =>
      by_cases hlt : n < 10
      · refine ⟨digit n, [], numeral_of_lt hlt, fun hzero => h ?_⟩
        have htoNat := congrArg BitVec.toNat hzero
        rw [digit_toNat hlt] at htoNat
        exact Nat.add_left_cancel htoNat
      · obtain ⟨c, rest, heq, hc⟩ := ih (n / 10) (by omega) (by omega)
        refine ⟨c, rest ++ [digit (n % 10)], ?_, hc⟩
        rw [numeral_of_le (Nat.le_of_not_lt hlt), heq, List.cons_append]

theorem isNumeral_numeral (n : Nat) : IsNumeral (numeral n) n := by
  refine ⟨fun c hc => mem_numeral hc, ?_, value_numeral n⟩
  obtain rfl | hn := eq_or_ne n 0
  · exact .inl rfl
  · exact .inr (numeral_head hn)

end Decimal
