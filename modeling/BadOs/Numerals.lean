import BadOs.Data.Decimal
import BadOs.Net.Services

/-!
# `to_str`

The digits are written last one first and then turned around. Zero, which has no digits in this
sense, is written apart, and there the address that is returned is not that of the terminating
zero but the one behind it.
-/

namespace BadOs

open Decimal

/-- The bytes from an address on. -/
def CharsAt (m : ByteMem) (a : Nat) (l : List (BitVec 8)) : Prop :=
  ∀ i (h : i < l.length), m (a + i) = l[i]

variable {m m' : ByteMem} {a p str last fuel : Nat} {l : List (BitVec 8)} {c : BitVec 8}
  {d : BitVec 32}

theorem CharsAt.cons (hc : m a = c) (h : CharsAt m (a + 1) l) : CharsAt m a (c :: l) := by
  intro i hi
  cases i with
  | zero => exact hc
  | succ i =>
      have hrest := h i (Nat.lt_of_succ_lt_succ hi)
      rwa [Nat.add_right_comm] at hrest

/-- Bytes in the opposite order. -/
theorem CharsAt.of_reverse (h : CharsAt m a l.reverse)
    (hback : ∀ i < l.length, m' (a + i) = m (a + (l.length - 1 - i))) : CharsAt m' a l := by
  intro i hi
  have hrev := h (l.length - 1 - i) (by rw [List.length_reverse]; omega)
  have hindex : l.length - 1 - (l.length - 1 - i) = i := by omega
  rw [hback i hi, hrev, List.getElem_reverse]
  simp only [hindex]

/-! ## The loops -/

theorem toStr_digit (d : BitVec 32) :
    (d % 10).setWidth 8 + 48 = digit (d.toNat % 10) := by
  apply BitVec.eq_of_toNat_eq
  have hmod := Nat.mod_lt d.toNat (show 10 > 0 by decide)
  rw [digit_toNat hmod, BitVec.toNat_add, BitVec.toNat_setWidth, BitVec.toNat_umod]
  show (d.toNat % 10 % 2 ^ 8 + 48) % 2 ^ 8 = 48 + d.toNat % 10
  omega

/-- The digits are stored in reverse, and nothing else is. -/
theorem toStrLoop_spec {d : BitVec 32} (h : d.toNat < 10 ^ fuel) (m : ByteMem) (p : Nat) :
    (toStrLoop fuel d m p).2 = p + (digits d.toNat).length ∧
      CharsAt (toStrLoop fuel d m p).1 p (digits d.toNat).reverse ∧
      ∀ x, x < p ∨ p + (digits d.toNat).length ≤ x → (toStrLoop fuel d m p).1 x = m x := by
  induction fuel generalizing d m p with
  | zero =>
      have hd : d.toNat = 0 := Nat.lt_one_iff.mp h
      rw [hd]
      exact ⟨rfl, fun i hi => absurd hi (Nat.not_lt_zero i), fun _ _ => rfl⟩
  | succ fuel ih =>
      rw [toStrLoop]
      by_cases hd : d = 0
      · subst hd
        exact ⟨rfl, fun i hi => absurd hi (Nat.not_lt_zero i), fun _ _ => rfl⟩
      · have hne : d.toNat ≠ 0 := fun hzero => hd (BitVec.eq_of_toNat_eq hzero)
        have hdiv : (d / 10).toNat = d.toNat / 10 := BitVec.toNat_udiv
        obtain ⟨hend, hstored, hframe⟩ := ih (d := d / 10) (by omega)
          (m.write p 1 (digit (d.toNat % 10))) (p + 1)
        rw [hdiv] at hend hstored hframe
        rw [if_neg hd, toStr_digit, digits_eq hne, List.reverse_append, List.length_append,
          List.length_singleton]
        refine ⟨by omega, ?_, fun x hx => ?_⟩
        · refine CharsAt.cons ?_ hstored
          rw [hframe p (by omega), ByteMem.write_byte]
        · rw [hframe x (by omega), ByteMem.write_apply_of_not_mem (by omega)]

/-- The bytes from `str` to `last` are turned around. -/
theorem strrev_apply (h : last + 1 ≤ str + 2 * fuel + 1) (m : ByteMem) (x : Nat) :
    strrev fuel m str last x =
      if str ≤ x ∧ x ≤ last then m (str + last - x) else m x := by
  induction fuel generalizing m str last with
  | zero =>
      rw [strrev]
      split
      · exact congrArg m (by omega)
      · rfl
  | succ fuel ih =>
      rw [strrev]
      by_cases hlt : str < last
      · rw [if_pos hlt, ih (by omega)]
        by_cases hfirst : x = str
        · subst hfirst
          rw [if_neg (by omega), if_pos (by omega), ByteMem.write_apply_of_not_mem (by omega),
            ByteMem.write_byte, Nat.add_sub_cancel_left]
        · by_cases hlast : x = last
          · subst hlast
            rw [if_neg (by omega), if_pos (by omega), ByteMem.write_byte, Nat.add_sub_cancel]
          · by_cases hin : str ≤ x ∧ x ≤ last
            · have hmirror : str + 1 + (last - 1) - x = str + last - x := by omega
              rw [if_pos (by omega), if_pos hin, hmirror,
                ByteMem.write_apply_of_not_mem (by omega),
                ByteMem.write_apply_of_not_mem (by omega)]
            · rw [if_neg (by omega), if_neg hin, ByteMem.write_apply_of_not_mem (by omega),
                ByteMem.write_apply_of_not_mem (by omega)]
      · rw [if_neg hlt]
        split
        · exact congrArg m (by omega)
        · rfl

/-! ## The numeral -/

/-- The numeral of `d` is at `buff` with a zero behind it, the address of the zero is returned,
and no other byte is written. -/
def WritesNumeral (d : BitVec 32) (m : ByteMem) (buff : Nat) : Prop :=
  ∃ l, IsNumeral l d.toNat ∧ IsString ((toStr d m buff).1.shift buff) l ∧
    (toStr d m buff).2 = buff + l.length ∧
    ∀ x, x < buff ∨ buff + l.length < x → (toStr d m buff).1 x = m x

theorem toStr_of_ne_zero (hd : d ≠ 0) (m : ByteMem) (buff : Nat) :
    CharsAt (toStr d m buff).1 buff (numeral d.toNat) ∧
      (toStr d m buff).1 (buff + (numeral d.toNat).length) = 0 ∧
      (toStr d m buff).2 = buff + (numeral d.toNat).length ∧
      ∀ x, x < buff ∨ buff + (numeral d.toNat).length < x → (toStr d m buff).1 x = m x := by
  have hlt : d.toNat < 10 ^ 10 := d.isLt.trans (by decide)
  have hne : d.toNat ≠ 0 := fun hzero => hd (BitVec.eq_of_toNat_eq hzero)
  have hlength := length_digits_le hlt
  have hpos := List.length_pos_iff.mpr (numeral_ne_nil d.toNat)
  obtain ⟨hend, hstored, hframe⟩ := toStrLoop_spec hlt m buff
  rw [digits_of_ne_zero hne] at hend hstored hframe hlength
  have hrun : toStr d m buff =
      (strrev 5 ((toStrLoop 10 d m buff).1.write (toStrLoop 10 d m buff).2 1 (0 : BitVec 8)) buff
        ((toStrLoop 10 d m buff).2 - 1), (toStrLoop 10 d m buff).2) := if_neg hd
  rw [hrun, hend]
  dsimp only
  refine ⟨hstored.of_reverse fun i hi => ?_, ?_, rfl, fun x hx => ?_⟩
  · rw [strrev_apply (by omega), if_pos (by omega), ByteMem.write_apply_of_not_mem (by omega)]
    exact congrArg _ (by omega)
  · rw [strrev_apply (by omega), if_neg (by omega), ByteMem.write_byte]
  · rw [strrev_apply (by omega), if_neg (by omega), ByteMem.write_apply_of_not_mem (by omega)]
    exact hframe x (by omega)

/-- The text is right for zero as well. -/
theorem toStr_isString (d : BitVec 32) (m : ByteMem) (buff : Nat) :
    IsString ((toStr d m buff).1.shift buff) (numeral d.toNat) := by
  by_cases hd : d = 0
  · subst hd
    refine ⟨fun i hi => ?_, ?_, fun _ => ne_zero_of_mem_numeral⟩
    · obtain rfl : i = 0 := Nat.lt_one_iff.mp hi
      show ByteMem.write _ (buff + 1) 1 (0 : BitVec 8) (buff + 0) = 48
      rw [ByteMem.write_apply_of_not_mem (by omega)]
      exact ByteMem.write_byte m buff 48
    · exact ByteMem.write_byte _ (buff + 1) 0
  · obtain ⟨htext, hnul, _⟩ := toStr_of_ne_zero hd m buff
    exact ⟨htext, hnul, fun _ => ne_zero_of_mem_numeral⟩

/-- For zero the address behind the terminating zero is returned. -/
theorem to_str_zero : ¬∀ (d : BitVec 32) (m : ByteMem) (buff : Nat), WritesNumeral d m buff := by
  intro claim
  obtain ⟨l, _, hl, hend, _⟩ := claim 0 (fun _ => 0) 0
  have htext := hl.unique (toStr_isString 0 (fun _ => 0) 0)
  subst htext
  exact absurd hend (by decide)

/-- `to_str` does what it is meant to for every number but zero. -/
theorem to_str_iff (d : BitVec 32) (m : ByteMem) (buff : Nat) : WritesNumeral d m buff ↔ d ≠ 0 := by
  constructor
  · rintro ⟨l, _, hl, hend, _⟩ rfl
    have htext := hl.unique (toStr_isString 0 m buff)
    subst htext
    have hresult : (toStr 0 m buff).2 = buff + 2 := rfl
    have hlength : (numeral (0 : BitVec 32).toNat).length = 1 := rfl
    omega
  · intro hd
    obtain ⟨_, _, hend, hframe⟩ := toStr_of_ne_zero hd m buff
    exact ⟨_, isNumeral_numeral _, toStr_isString d m buff, hend, hframe⟩

end BadOs
