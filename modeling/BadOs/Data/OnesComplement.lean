import Mathlib.Data.BitVec

/-!
# One's-complement sums of 16-bit words

Addition with the carry put back at the low end. Up to the two forms of zero it is
addition modulo `2 ^ 16 - 1`, so that a sum can be taken in wider words and folded at
the end. A sequence of words verifies when its sum is all ones; putting the complement of
the sum of the other words in the place of a zero word makes it so. Bytes are read as words
with the first byte high and a zero byte after an odd number of them.
-/

namespace OnesComplement

/-- Addition with the end-around carry. -/
def add (a b : BitVec 16) : BitVec 16 :=
  BitVec.ofNat 16 ((a.toNat + b.toNat) % 2 ^ 16 + (a.toNat + b.toNat) / 2 ^ 16)

def sum (words : List (BitVec 16)) : BitVec 16 := words.foldl add 0

/-- The words verify: their sum is the negative zero. -/
def Verifies (words : List (BitVec 16)) : Prop := sum words = BitVec.allOnes 16

instance (words : List (BitVec 16)) : Decidable (Verifies words) :=
  inferInstanceAs (Decidable (_ = _))

/-- The sum of the words as numbers. -/
def total (words : List (BitVec 16)) : Nat := (words.map BitVec.toNat).sum

@[simp] theorem total_nil : total [] = 0 := rfl

@[simp] theorem total_cons (w : BitVec 16) (words : List (BitVec 16)) :
    total (w :: words) = w.toNat + total words := List.sum_cons

@[simp] theorem total_append (words words' : List (BitVec 16)) :
    total (words ++ words') = total words + total words' := by
  rw [total, List.map_append, List.sum_append]
  rfl

theorem total_le (words : List (BitVec 16)) : total words ≤ words.length * 65535 := by
  induction words with
  | nil => exact Nat.zero_le _
  | cons w words ih =>
      have hw := w.isLt
      rw [total_cons, List.length_cons]
      omega

theorem toNat_add (a b : BitVec 16) :
    (add a b).toNat = if a.toNat + b.toNat < 65536 then a.toNat + b.toNat
      else a.toNat + b.toNat - 65535 := by
  have ha := a.isLt
  have hb := b.isLt
  rw [add, BitVec.toNat_ofNat]
  split <;> omega

/-- A sum is congruent to that of the numbers, and zero only if all of them are. -/
theorem foldl_add (words : List (BitVec 16)) (a : BitVec 16) :
    (words.foldl add a).toNat % 65535 = (a.toNat + total words) % 65535 ∧
      ((words.foldl add a).toNat = 0 ↔ a.toNat + total words = 0) := by
  induction words generalizing a with
  | nil => exact ⟨rfl, Iff.rfl⟩
  | cons w words ih =>
      obtain ⟨hmod, hzero⟩ := ih (add a w)
      have hadd := toNat_add a w
      rw [List.foldl_cons, total_cons]
      split at hadd <;> exact ⟨by omega, by omega⟩

theorem sum_spec (words : List (BitVec 16)) :
    (sum words).toNat % 65535 = total words % 65535 ∧
      ((sum words).toNat = 0 ↔ total words = 0) := by
  have hfold := foldl_add words 0
  rwa [show (0 : BitVec 16).toNat = 0 from rfl, Nat.zero_add] at hfold

/-- The sum is what is congruent to that of the numbers, and zero only if all of them are. -/
theorem sum_eq {words : List (BitVec 16)} {f : BitVec 16}
    (hmod : f.toNat % 65535 = total words % 65535) (hzero : f.toNat = 0 ↔ total words = 0) :
    sum words = f := by
  obtain ⟨hsum, hnil⟩ := sum_spec words
  have hlt := (sum words).isLt
  have hf := f.isLt
  apply BitVec.eq_of_toNat_eq
  omega

theorem verifies_iff (words : List (BitVec 16)) :
    Verifies words ↔ total words % 65535 = 0 ∧ 0 < total words := by
  obtain ⟨hmod, hzero⟩ := sum_spec words
  have hlt := (sum words).isLt
  rw [Verifies, ← BitVec.toNat_inj, BitVec.toNat_allOnes]
  omega

/-- The complement of the sum in the place of a zero word. -/
theorem verifies_complement {words words' : List (BitVec 16)}
    (htotal : total words' = total words + (~~~sum words).toNat) : Verifies words' := by
  obtain ⟨hmod, hzero⟩ := sum_spec words
  have hlt := (sum words).isLt
  rw [BitVec.toNat_not] at htotal
  rw [verifies_iff, htotal]
  omega

/-- The checksum was taken while other words with the sum `b` were in the place of those with
the sum `c`. -/
theorem verifies_replaced_iff {summed words : List (BitVec 16)} {a b c : Nat}
    (hsummed : total summed = a + b) (htotal : total words = a + (~~~sum summed).toNat + c) :
    Verifies words ↔ b % 65535 = c % 65535 ∧ (b = 0 ∨ 0 < a + c) := by
  obtain ⟨hmod, hzero⟩ := sum_spec summed
  have hlt := (sum summed).isLt
  rw [hsummed] at hmod hzero
  rw [BitVec.toNat_not] at htotal
  rw [verifies_iff, htotal]
  generalize (sum summed).toNat = s at hmod hzero hlt
  have hcongruent : (a + (2 ^ 16 - 1 - s) + c) % 65535 = 0 ↔ b % 65535 = c % 65535 := by omega
  have hpositive : 0 < a + (2 ^ 16 - 1 - s) + c ↔ s ≠ 65535 ∨ 0 < a + c := by omega
  rw [hcongruent, hpositive]
  apply and_congr_right
  intro hsame
  omega

/-! ## Bytes -/

/-- The words of a sequence of bytes. -/
def ofBytes : List (BitVec 8) → List (BitVec 16)
  | [] => []
  | [high] => [high ++ 0#8]
  | high :: low :: bytes => (high ++ low) :: ofBytes bytes

/-- The checksum of a sequence of bytes: the complement of their sum. -/
def checksum (bytes : List (BitVec 8)) : BitVec 16 := ~~~sum (ofBytes bytes)

theorem toNat_append (high low : BitVec 8) :
    (high ++ low : BitVec 16).toNat = 256 * high.toNat + low.toNat := by
  rw [BitVec.toNat_append, ← Nat.shiftLeft_add_eq_or_of_lt low.isLt, Nat.shiftLeft_eq]
  omega

/-- Words that come one after the other, unless one of them is split. -/
theorem ofBytes_append {bytes : List (BitVec 8)} (heven : bytes.length % 2 = 0)
    (bytes' : List (BitVec 8)) : ofBytes (bytes ++ bytes') = ofBytes bytes ++ ofBytes bytes' := by
  induction bytes using ofBytes.induct with
  | case1 => rfl
  | case2 high => simp at heven
  | case3 high low bytes ih =>
      simp only [List.length_cons] at heven
      simp [ofBytes, ih (by omega)]

end OnesComplement
