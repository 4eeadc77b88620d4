import Mathlib.Data.BitVec
import Mathlib.Data.List.Basic
import Mathlib.Data.Set.Function
import Mathlib.Order.Interval.Set.Basic

/-!
# Byte-addressed memory with little-endian words

A memory is a total function from addresses to bytes. Words of any number of
bytes are read and written little-endian; the frame laws say that a write is
invisible to every read of a disjoint address range.

Addresses are natural numbers. Pointer arithmetic that may wrap is done by the
client before the access; an access itself never wraps.
-/

abbrev ByteMem := Nat → BitVec 8

namespace ByteMem

/-- The `n`-byte little-endian word at `a`. -/
def read (m : ByteMem) (a : Nat) : (n : Nat) → BitVec (8 * n)
  | 0 => 0#0
  | n + 1 => read m (a + 1) n ++ m a

/-- Store the `n`-byte little-endian word `v` at `a`. -/
def write (m : ByteMem) (a n : Nat) (v : BitVec (8 * n)) : ByteMem := fun x =>
  if a ≤ x ∧ x < a + n then v.extractLsb' (8 * (x - a)) 8 else m x

/-- Set the `n` bytes from `a` on to `v`. -/
def fill (m : ByteMem) (a n : Nat) (v : BitVec 8) : ByteMem := fun x =>
  if a ≤ x ∧ x < a + n then v else m x

/-- Copy `n` bytes of `src` from `s` on over the bytes of `m` from `a` on. The
two ranges belong to different objects, so their overlap is no concern. -/
def copy (m : ByteMem) (a : Nat) (src : ByteMem) (s n : Nat) : ByteMem := fun x =>
  if a ≤ x ∧ x < a + n then src (s + (x - a)) else m x

/-- The memory seen from a pointer `a` into it. -/
def shift (m : ByteMem) (a : Nat) : ByteMem := fun i => m (a + i)

/-- The `n` bytes from `a` on, as a list. -/
def slice (m : ByteMem) (a n : Nat) : List (BitVec 8) := (List.range n).map fun i => m (a + i)

/-! ## Reads are determined by their bytes -/

theorem getLsbD_read (m : ByteMem) (a n i : Nat) (hi : i < 8 * n) :
    (m.read a n).getLsbD i = (m (a + i / 8)).getLsbD (i % 8) := by
  induction n generalizing a i with
  | zero => omega
  | succ n ih =>
      simp only [read, BitVec.getLsbD_append]
      by_cases h : i < 8
      · have hq : i / 8 = 0 := by omega
        have hr : i % 8 = i := by omega
        simp only [h, if_true, hq, hr, Nat.add_zero]
      · have hq : a + 1 + (i - 8) / 8 = a + i / 8 := by omega
        have hr : (i - 8) % 8 = i % 8 := by omega
        simp only [h, if_false]
        rw [ih (a + 1) (i - 8) (by omega), hq, hr]

/-- A byte of a word. -/
theorem extractLsb'_read (m : ByteMem) (a : Nat) {n j : Nat} (hj : j < n) :
    (m.read a n).extractLsb' (8 * j) 8 = m (a + j) := by
  apply BitVec.eq_of_getLsbD_eq
  intro i hi
  have hq : (8 * j + i) / 8 = j := by omega
  have hr : (8 * j + i) % 8 = i := by omega
  rw [BitVec.getLsbD_extractLsb', getLsbD_read m a n (8 * j + i) (by omega), hq, hr,
    decide_eq_true hi, Bool.true_and]

/-- A word within a word. -/
theorem extractLsb'_read_word (m : ByteMem) (a : Nat) {n j k : Nat} (h : j + k ≤ n) :
    (m.read a n).extractLsb' (8 * j) (8 * k) = m.read (a + j) k := by
  apply BitVec.eq_of_getLsbD_eq
  intro i hi
  have hq : a + (8 * j + i) / 8 = a + j + i / 8 := by omega
  have hr : (8 * j + i) % 8 = i % 8 := by omega
  rw [BitVec.getLsbD_extractLsb', getLsbD_read m a n (8 * j + i) (by omega),
    getLsbD_read m (a + j) k i hi, hq, hr, decide_eq_true hi, Bool.true_and]

theorem read_two (m : ByteMem) (a : Nat) : m.read a 2 = m (a + 1) ++ m a := by
  apply BitVec.eq_of_getLsbD_eq
  intro i hi
  rw [getLsbD_read m a 2 i hi, BitVec.getLsbD_append]
  split
  · next hlow => rw [Nat.div_eq_of_lt hlow, Nat.mod_eq_of_lt hlow, Nat.add_zero]
  · next hhigh =>
    have hq : i / 8 = 1 := by omega
    have hr : i % 8 = i - 8 := by omega
    rw [hq, hr]

theorem read_congr {m m' : ByteMem} {a n : Nat}
    (h : ∀ x, a ≤ x → x < a + n → m x = m' x) : m.read a n = m'.read a n := by
  induction n generalizing a with
  | zero => rfl
  | succ n ih =>
      simp only [read]
      rw [h a (Nat.le_refl _) (by omega), ih]
      intro x hlo hhi
      exact h x (by omega) (by omega)

/-- A read from a shifted view is the read at the shifted address. -/
@[simp] theorem read_shift (m : ByteMem) (a b n : Nat) :
    (m.shift a).read b n = m.read (a + b) n := by
  induction n generalizing b with
  | zero => rfl
  | succ n ih => simp only [read, ih, shift, Nat.add_assoc]

@[simp] theorem shift_shift (m : ByteMem) (a b : Nat) :
    (m.shift a).shift b = m.shift (a + b) := by
  funext i
  simp only [shift, Nat.add_assoc]

/-! ## Writes -/

theorem write_apply {m : ByteMem} {a n x : Nat} {v : BitVec (8 * n)} (h : a ≤ x ∧ x < a + n) :
    m.write a n v x = v.extractLsb' (8 * (x - a)) 8 := if_pos h

theorem write_byte (m : ByteMem) (a : Nat) (v : BitVec 8) : m.write a 1 v a = v := by
  rw [write_apply ⟨Nat.le_refl a, Nat.lt_succ_self a⟩, Nat.sub_self]
  exact BitVec.extractLsb'_eq_self

theorem write_apply_of_not_mem {m : ByteMem} {a n x : Nat} {v : BitVec (8 * n)}
    (h : x < a ∨ a + n ≤ x) : m.write a n v x = m x := by
  unfold write
  rw [if_neg]
  omega

@[simp] theorem read_write_self (m : ByteMem) (a n : Nat) (v : BitVec (8 * n)) :
    (m.write a n v).read a n = v := by
  apply BitVec.eq_of_getLsbD_eq
  intro i hi
  have hlo : a ≤ a + i / 8 := by omega
  have hhi : a + i / 8 < a + n := by omega
  have hoff : 8 * (a + i / 8 - a) + i % 8 = i := by omega
  have hbit : i % 8 < 8 := by omega
  rw [getLsbD_read _ _ _ _ hi]
  simp only [write, hlo, hhi, and_self, if_true, BitVec.getLsbD_extractLsb', hbit, decide_true,
    Bool.true_and, hoff]

/-- A second write to the same place hides the first one. -/
theorem write_write (m : ByteMem) (a n : Nat) (v w : BitVec (8 * n)) :
    (m.write a n v).write a n w = m.write a n w := by
  funext x
  unfold write
  split <;> rfl

/-- A write is invisible to a read of a disjoint range. -/
theorem read_write_of_disjoint {m : ByteMem} {a n b k : Nat} {v : BitVec (8 * n)}
    (h : b + k ≤ a ∨ a + n ≤ b) : (m.write a n v).read b k = m.read b k := by
  apply read_congr
  intro x hlo hhi
  exact write_apply_of_not_mem (by omega)

theorem fill_apply_of_not_mem {m : ByteMem} {a n x : Nat} {v : BitVec 8}
    (h : x < a ∨ a + n ≤ x) : m.fill a n v x = m x := by
  unfold fill
  rw [if_neg]
  omega

theorem read_fill_of_disjoint {m : ByteMem} {a n b k : Nat} {v : BitVec 8}
    (h : b + k ≤ a ∨ a + n ≤ b) : (m.fill a n v).read b k = m.read b k := by
  apply read_congr
  intro x hlo hhi
  exact fill_apply_of_not_mem (by omega)

theorem copy_zero (m src : ByteMem) (a s : Nat) : m.copy a src s 0 = m := by
  funext x
  exact if_neg (by omega)

/-- A copy starts with its first `n` bytes, as a word. -/
theorem copy_write (m src : ByteMem) (a s n k : Nat) :
    (m.write a n (src.read s n)).copy (a + n) src (s + n) k = m.copy a src s (n + k) := by
  funext x
  unfold copy
  by_cases hlo : a ≤ x
  · by_cases hmid : x < a + n
    · rw [if_neg (by omega), if_pos (by omega), write_apply ⟨hlo, hmid⟩,
        extractLsb'_read src s (by omega)]
    · have hoff : s + n + (x - (a + n)) = s + (x - a) := by omega
      have hiff : a + n ≤ x ∧ x < a + n + k ↔ a ≤ x ∧ x < a + (n + k) := by omega
      rw [hoff, write_apply_of_not_mem (by omega), if_congr hiff rfl rfl]
  · rw [if_neg (by omega), if_neg (by omega), write_apply_of_not_mem (by omega)]

theorem copy_shift (m src : ByteMem) (a b s n : Nat) :
    m.copy a (src.shift b) s n = m.copy a src (b + s) n := by
  funext x
  unfold copy shift
  rw [Nat.add_assoc]

/-! ## Slices -/

@[simp] theorem length_slice (m : ByteMem) (a n : Nat) : (m.slice a n).length = n := by
  simp only [slice, List.length_map, List.length_range]

theorem slice_congr {m m' : ByteMem} {a n : Nat}
    (h : ∀ x, a ≤ x → x < a + n → m x = m' x) : m.slice a n = m'.slice a n := by
  apply List.map_congr_left
  intro i hi
  exact h (a + i) (by omega) (by have := List.mem_range.mp hi; omega)

@[simp] theorem slice_shift (m : ByteMem) (a b n : Nat) :
    (m.shift a).slice b n = m.slice (a + b) n := by
  apply List.map_congr_left
  intro i _
  exact congrArg m (Nat.add_assoc a b i).symm

/-- A word determines its bytes. -/
theorem slice_of_read {m m' : ByteMem} {a b n : Nat} (h : m.read a n = m'.read b n) :
    m.slice a n = m'.slice b n := by
  apply List.map_congr_left
  intro i hi
  have hlt := List.mem_range.mp hi
  have hbyte := congrArg (BitVec.extractLsb' (8 * i) 8) h
  rwa [extractLsb'_read m a hlt, extractLsb'_read m' b hlt] at hbyte

theorem slice_add (m : ByteMem) (a n k : Nat) :
    m.slice a (n + k) = m.slice a n ++ m.slice (a + n) k := by
  simp only [slice, List.range_add, List.map_append, List.map_map]
  congr 1
  apply List.map_congr_left
  intro i _
  simp only [Function.comp_apply, Nat.add_assoc]

/-- What was copied to the end of a range follows what was in it. -/
theorem slice_copy (m src : ByteMem) (a s n k : Nat) :
    (m.copy (a + n) src s k).slice a (n + k) = m.slice a n ++ src.slice s k := by
  rw [slice_add]
  congr 1
  · exact slice_congr fun x _ hhi => if_neg (by omega)
  · apply List.map_congr_left
    intro i hi
    have hlt := List.mem_range.mp hi
    have hoff : a + n + i - (a + n) = i := by omega
    rw [copy, if_pos (by omega), hoff]

/-! ## Agreement -/

/-- Two memories hold the same bytes in the range `[a, a + n)`. -/
def AgreeOn (a n : Nat) (m m' : ByteMem) : Prop := ∀ x, a ≤ x → x < a + n → m x = m' x

namespace AgreeOn

variable {a n k : Nat} {m m' : ByteMem}

theorem read (h : AgreeOn 0 n m m') (hk : a + k ≤ n) : m.read a k = m'.read a k :=
  read_congr fun x _ hx => h x (Nat.zero_le x) (by omega)

theorem shift (h : AgreeOn 0 n m m') (a : Nat) : AgreeOn 0 (n - a) (m.shift a) (m'.shift a) :=
  fun x _ hx => h (a + x) (Nat.zero_le _) (by omega)

theorem mono (h : AgreeOn 0 n m m') (hk : k ≤ n) : AgreeOn 0 k m m' :=
  fun x hlo hx => h x hlo (by omega)

end AgreeOn

/-- Two memories hold the same bytes at the addresses of a set. -/
def SameOn (S : Set Nat) (m m' : ByteMem) : Prop := Set.EqOn m m' S

namespace SameOn

variable {S T : Set Nat} {m m' src src' : ByteMem}

theorem empty (m m' : ByteMem) : SameOn ∅ m m' := Set.eqOn_empty m m'

theorem mono (h : SameOn S m m') (hT : T ⊆ S) : SameOn T m m' := Set.EqOn.mono hT h

/-- A store of the same word makes the two memories agree where it is. -/
theorem write (h : SameOn S m m') (a n : Nat) (v : BitVec (8 * n)) :
    SameOn (S ∪ Set.Ico a (a + n)) (m.write a n v) (m'.write a n v) := by
  intro x hx
  unfold ByteMem.write
  split
  · rfl
  · next hout => exact h (hx.resolve_right hout)

theorem start (h : SameOn S m m') (a : Nat) : SameOn (S ∪ Set.Ico a a) m m' := by
  rw [Set.Ico_self, Set.union_empty]
  exact h

/-- Stores one after the other make a range the same. -/
theorem append {lo a : Nat} (h : SameOn (S ∪ Set.Ico lo a) m m') (n : Nat) (v : BitVec (8 * n)) :
    SameOn (S ∪ Set.Ico lo (a + n)) (m.write a n v) (m'.write a n v) := by
  rintro x (hx | ⟨hlo, hhi⟩)
  · exact h.write a n v (Or.inl (Or.inl hx))
  · by_cases hlt : x < a
    · exact h.write a n v (Or.inl (Or.inr ⟨hlo, hlt⟩))
    · exact h.write a n v (Or.inr ⟨Nat.le_of_not_lt hlt, hhi⟩)

theorem extend {lo a : Nat} (h : SameOn (Set.Ico lo a) m m') (n : Nat) (v : BitVec (8 * n)) :
    SameOn (Set.Ico lo (a + n)) (m.write a n v) (m'.write a n v) := by
  rw [← Set.empty_union (Set.Ico _ _)] at h ⊢
  exact h.append n v

theorem fill (h : SameOn S m m') (a n : Nat) (v : BitVec 8) :
    SameOn (S ∪ Set.Ico a (a + n)) (m.fill a n v) (m'.fill a n v) := by
  intro x hx
  unfold ByteMem.fill
  split
  · rfl
  · next hout => exact h (hx.resolve_right hout)

theorem copy (h : SameOn S m m') (a s n : Nat) (hsrc : AgreeOn s n src src') :
    SameOn (S ∪ Set.Ico a (a + n)) (m.copy a src s n) (m'.copy a src' s n) := by
  intro x hx
  unfold ByteMem.copy
  split
  · next hin => exact hsrc _ (Nat.le_add_right _ _) (by omega)
  · next hout => exact h (hx.resolve_right hout)

end SameOn

end ByteMem
