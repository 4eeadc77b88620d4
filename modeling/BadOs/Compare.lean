import BadOs.Data.FirstDifference
import BadOs.Strings

/-!
# `strncmp` and `memcmp`

`strncmp` is an order as long as no string ends inside of another one, which it takes to be less
whichever of them comes first. `memcmp` compares the first bytes only, as many times as there are
bytes.
-/

namespace BadOs

/-! ## `strncmp` -/

/-- `strncmp` of pointers into two objects, given by the bytes that are left of them. -/
def strncmpIn (a b : List (BitVec 8)) : (n : Nat) → Except Trap Int
  | 0 => do
      -- The characters are read before the count is tested.
      let c ← charAt a
      if c = 0 then return 0
      let _ ← charAt b
      return 0
  | n + 1 => do
      let c ← charAt a
      let d ← charAt b
      if c ≠ 0 ∧ d ≠ 0 then
        if c.slt d then return -1
        else if d.slt c then return 1
        else strncmpIn a.tail b.tail n
      else if c ≠ 0 then return -1
      else if d ≠ 0 then return -1
      else return 0

/-- The first characters, as the numbers that are compared. -/
def firstChars (l : List (BitVec 8)) (n : Nat) : List Int := (l.take n).map BitVec.toInt

variable {a b c : ByteMem} {l l' l'' : List (BitVec 8)} {n : Nat}

theorem toInt_injective : Function.Injective (BitVec.toInt : BitVec 8 → Int) :=
  fun _ _ => BitVec.eq_of_toInt_eq

theorem firstChars_inj : firstChars l n = firstChars l' n ↔ l.take n = l'.take n :=
  (List.map_injective_iff.mpr toInt_injective).eq_iff

theorem notPrefix_firstChars :
    (firstChars l n).NotPrefix (firstChars l' n) ↔ (l.take n).NotPrefix (l'.take n) := by
  unfold List.NotPrefix
  rw [firstChars_inj]
  unfold firstChars
  rw [List.prefix_map_iff_of_injective toInt_injective,
    List.prefix_map_iff_of_injective toInt_injective]

theorem strncmpIn_succ (x y : BitVec 8) (a b : List (BitVec 8)) (n : Nat) :
    strncmpIn (x :: a) (y :: b) (n + 1) =
      if x ≠ 0 ∧ y ≠ 0 then
        if x.toInt < y.toInt then .ok (-1)
        else if y.toInt < x.toInt then .ok 1
        else strncmpIn a b n
      else if x ≠ 0 then .ok (-1)
      else if y ≠ 0 then .ok (-1)
      else .ok 0 := by
  simp only [← BitVec.slt_iff_toInt_lt]
  rfl

theorem strncmpIn_zero (x y : BitVec 8) (a b : List (BitVec 8)) :
    strncmpIn (x :: a) (y :: b) 0 = .ok 0 := ite_self _

/-- The result is decided by the first characters, and nothing behind a terminating zero is
read. -/
theorem strncmpIn_eq (hl : ∀ x ∈ l, x ≠ 0) (hl' : ∀ x ∈ l', x ≠ 0) (n : Nat) :
    strncmpIn (l ++ [0]) (l' ++ [0]) n =
      .ok ((firstChars l n).compareFirst (firstChars l' n)) := by
  induction n generalizing l l' with
  | zero => cases l <;> cases l' <;> exact strncmpIn_zero _ _ _ _
  | succ n ih =>
      cases l with
      | nil =>
          cases l' with
          | nil => rfl
          | cons y l' =>
              have hy := hl' y List.mem_cons_self
              rw [List.nil_append, List.cons_append, strncmpIn_succ, if_neg (fun h => h.1 rfl),
                if_neg (fun h => h rfl), if_pos hy]
              rfl
      | cons x l =>
          have hx := hl x List.mem_cons_self
          cases l' with
          | nil =>
              rw [List.nil_append, List.cons_append, strncmpIn_succ, if_neg (fun h => h.2 rfl),
                if_pos hx]
              rfl
          | cons y l' =>
              have hy := hl' y List.mem_cons_self
              rw [List.cons_append, List.cons_append, strncmpIn_succ, if_pos ⟨hx, hy⟩,
                ih (fun z hz => hl z (List.mem_cons_of_mem x hz))
                  fun z hz => hl' z (List.mem_cons_of_mem y hz)]
              simp only [firstChars, List.take_succ_cons, List.map_cons, List.compareFirst,
                apply_ite (Except.ok (ε := Trap))]

theorem strncmp_eq (ha : IsString a l) (hb : IsString b l') (n : Nat) :
    strncmp a b n = (firstChars l n).compareFirst (firstChars l' n) := by
  induction n generalizing a b l l' with
  | zero => rfl
  | succ n ih =>
      rw [strncmp]
      cases l with
      | nil =>
          cases l' with
          | nil => simp [IsString.nil_iff.mp ha, IsString.nil_iff.mp hb, firstChars,
              List.compareFirst]
          | cons y l' =>
              obtain ⟨hy, hne, _⟩ := hb.tail
              simpa [IsString.nil_iff.mp ha, hy, firstChars, List.compareFirst] using hne
      | cons x l =>
          obtain ⟨hx, hne, hl⟩ := ha.tail
          cases l' with
          | nil => simpa [IsString.nil_iff.mp hb, hx, firstChars, List.compareFirst] using hne
          | cons y l' =>
              obtain ⟨hy, hne', hl'⟩ := hb.tail
              rw [hx, hy, if_pos ⟨hne, hne'⟩, ih hl hl']
              simp only [firstChars, List.take_succ_cons, List.map_cons, List.compareFirst,
                BitVec.slt_iff_toInt_lt]

/-- What `strncmp` makes of three strings is what an order makes of them. -/
structure Orders (a b c : ByteMem) (l l' : List (BitVec 8)) (n : Nat) : Prop where
  zero_iff : strncmp a b n = 0 ↔ l.take n = l'.take n
  opposite : (strncmp b a n).sign = -(strncmp a b n).sign
  trans : strncmp a b n ≤ 0 → strncmp b c n ≤ 0 → strncmp a c n ≤ 0
  strict : strncmp a b n ≤ 0 → strncmp b c n ≤ 0 → strncmp a b n < 0 ∨ strncmp b c n < 0 →
    strncmp a c n < 0
  inside : strncmpIn (l ++ [0]) (l' ++ [0]) n = .ok (strncmp a b n)

/-- `"ab"` comes before `"a"`, and `"a"` before `"ab"`. -/
theorem strncmp_no_order : ¬∀ (a b c : ByteMem) (l l' l'' : List (BitVec 8)) (n : Nat),
    IsString a l → IsString b l' → IsString c l'' → Orders a b c l l' n := by
  intro claim
  have ha := IsString.of_list (l := [0x61, 0x62]) (by decide)
  have hb := IsString.of_list (l := [0x61]) (by decide)
  have hopposite := (claim _ _ _ _ _ _ 10 ha hb ha).opposite
  rw [strncmp_eq ha hb, strncmp_eq hb ha] at hopposite
  exact absurd hopposite (by decide)

/-- The strings are in order exactly when the first characters of neither of the first two are a
proper prefix of those of the other one. -/
theorem strncmp_orders_iff (ha : IsString a l) (hb : IsString b l') (hc : IsString c l'')
    (n : Nat) : Orders a b c l l' n ↔ (l.take n).NotPrefix (l'.take n) := by
  rw [← notPrefix_firstChars]
  constructor
  · intro h
    have hopposite := h.opposite
    rw [strncmp_eq ha hb, strncmp_eq hb ha] at hopposite
    exact List.sign_compareFirst_swap.mp hopposite
  · intro hprefix
    constructor
    · rw [strncmp_eq ha hb, List.compareFirst_eq_zero_iff, firstChars_inj]
    · rw [strncmp_eq ha hb, strncmp_eq hb ha]
      exact List.sign_compareFirst_swap.mpr hprefix
    · rw [strncmp_eq ha hb, strncmp_eq hb hc, strncmp_eq ha hc]
      intro hle hle'
      exact (List.compareFirst_trans hprefix hle hle').1
    · rw [strncmp_eq ha hb, strncmp_eq hb hc, strncmp_eq ha hc]
      intro hle hle'
      exact (List.compareFirst_trans hprefix hle hle').2
    · rw [strncmp_eq ha hb]
      exact strncmpIn_eq ha.ne_zero hb.ne_zero n

theorem strncmp_orders_three :
    Orders (fun i => (([0x61, 0x62] : List (BitVec 8))[i]?).getD 0)
      (fun i => (([0x61, 0x63] : List (BitVec 8))[i]?).getD 0)
      (fun i => (([0x62] : List (BitVec 8))[i]?).getD 0) [0x61, 0x62] [0x61, 0x63] 10 := by
  refine (strncmp_orders_iff (IsString.of_list (by decide)) (IsString.of_list (by decide))
    (IsString.of_list (by decide)) 10).mpr ?_
  rw [List.NotPrefix]
  decide

/-! ## `memcmp` -/

/-- The pointers stay where they are. -/
def memcmp (a b : ByteMem) : (n : Nat) → Int
  | 0 => 0
  | n + 1 =>
      if (a 0).slt (b 0) then -1
      else if (b 0).slt (a 0) then 1
      else memcmp a b n

/-- The result is that of the comparison at the first position where the buffers differ. -/
structure ComparesBytes (a b : ByteMem) (n : Nat) : Prop where
  zero_iff : memcmp a b n = 0 ↔ ∀ i < n, a i = b i
  sign : ∀ i < n, (∀ j < i, a j = b j) → a i ≠ b i →
    (memcmp a b n).sign = if (a i).toInt < (b i).toInt then -1 else 1

theorem memcmp_of_eq (h : a 0 = b 0) (n : Nat) : memcmp a b n = 0 := by
  induction n with
  | zero => rfl
  | succ n ih =>
      have hlt : ¬(b 0).slt (b 0) := by
        rw [BitVec.slt_iff_toInt_lt]
        exact lt_irrefl _
      rw [memcmp, h, if_neg hlt, if_neg hlt, ih]

theorem memcmp_of_ne (h : a 0 ≠ b 0) (hn : 0 < n) :
    memcmp a b n = if (a 0).toInt < (b 0).toInt then -1 else 1 := by
  obtain ⟨n, rfl⟩ := Nat.exists_eq_add_one_of_ne_zero hn.ne'
  have hne : (a 0).toInt ≠ (b 0).toInt := fun heq => h (toInt_injective heq)
  simp only [memcmp, BitVec.slt_iff_toInt_lt]
  by_cases hlt : (a 0).toInt < (b 0).toInt
  · rw [if_pos hlt, if_pos hlt]
  · rw [if_neg hlt, if_neg hlt, if_pos (by omega)]

/-- Buffers that differ, but not in their first bytes, are taken to be equal. -/
theorem comparesBytes_iff (a b : ByteMem) (n : Nat) :
    ComparesBytes a b n ↔ a 0 ≠ b 0 ∨ ∀ i < n, a i = b i := by
  by_cases hfirst : a 0 = b 0
  · constructor
    · intro h
      exact .inr (h.zero_iff.mp (memcmp_of_eq hfirst n))
    · rintro (hne | hall)
      · exact absurd hfirst hne
      · exact ⟨iff_of_true (memcmp_of_eq hfirst n) hall, fun i hi _ hne => absurd (hall i hi) hne⟩
  · refine iff_of_true ⟨?_, fun i hi hbefore hne => ?_⟩ (.inl hfirst)
    · obtain rfl | hn := Nat.eq_zero_or_pos n
      · exact iff_of_true rfl fun i hi => absurd hi (Nat.not_lt_zero i)
      · refine iff_of_false ?_ fun hall => hfirst (hall 0 hn)
        rw [memcmp_of_ne hfirst hn]
        split <;> decide
    · obtain rfl | hi' := Nat.eq_zero_or_pos i
      · rw [memcmp_of_ne hfirst hi]
        split <;> rfl
      · exact absurd (hbefore 0 hi') hfirst

end BadOs
