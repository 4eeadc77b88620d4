import BadOs.Common

/-!
# The strings of `common.c`

A string is a memory from its first character on.
-/

namespace BadOs

/-- The number of bytes before the first zero, at most `n`. -/
def strnlen (src : ByteMem) : (n : Nat) → Nat
  | 0 => 0
  | n + 1 => if src 0 = 0 then 0 else strnlen (src.shift 1) n + 1

theorem strnlen_eq {src : ByteMem} {n : Nat} (h : ∀ i < n, src i ≠ 0) : strnlen src n = n := by
  induction n generalizing src with
  | zero => rfl
  | succ n ih =>
      rw [strnlen, if_neg (h 0 (Nat.zero_lt_succ n)), ih fun i hi => ?_]
      exact h (1 + i) (by omega)

/-- `strncpy` to address `a`: the bytes before the first zero, and the zero if there
is room. -/
def strncpy (m : ByteMem) (a : Nat) (src : ByteMem) (n : Nat) : ByteMem :=
  let i := strnlen src n
  let m := m.copy a src 0 i
  if i < n then m.write (a + i) 1 (0 : BitVec 8) else m

/-- `strncmp`. Characters are signed; of a string and a prefix of it either one is less than the
other. -/
def strncmp (a b : ByteMem) : (n : Nat) → Int
  | 0 => 0
  | n + 1 =>
      if a 0 ≠ 0 ∧ b 0 ≠ 0 then
        if (a 0).slt (b 0) then -1
        else if (b 0).slt (a 0) then 1
        else strncmp (a.shift 1) (b.shift 1) n
      else if a 0 ≠ 0 then -1
      else if b 0 ≠ 0 then -1
      else 0

/-- `strnchr`: where the first `c` is. -/
def strnchr (s : ByteMem) (c : BitVec 8) : (n : Nat) → Option Nat
  | 0 => none
  | n + 1 =>
      if s 0 = 0 then none
      else if s 0 = c then some 0
      else (strnchr (s.shift 1) c n).map (· + 1)

/-- The character at a pointer into an object, given by the bytes that are left of it. -/
def charAt : (p : List (BitVec 8)) → Except Trap (BitVec 8)
  | [] => .error .outOfBounds
  | c :: _ => .ok c

/-! ## Copies and searches -/

theorem strnlen_le (src : ByteMem) (n : Nat) : strnlen src n ≤ n := by
  induction n generalizing src with
  | zero => exact Nat.le_refl 0
  | succ n ih =>
      rw [strnlen]
      split
      · exact Nat.zero_le _
      · exact Nat.succ_le_succ (ih _)

theorem strncpy_apply_of_not_mem {m src : ByteMem} {a n x : Nat} (h : x < a ∨ a + n ≤ x) :
    strncpy m a src n x = m x := by
  have hle := strnlen_le src n
  have hcopy : m.copy a src 0 (strnlen src n) x = m x := if_neg (by omega)
  dsimp only [strncpy]
  split
  · rw [ByteMem.write_apply_of_not_mem (by omega), hcopy]
  · exact hcopy

theorem strncpy_apply {m src : ByteMem} {a n i : Nat} (h : i < strnlen src n) :
    strncpy m a src n (a + i) = src i := by
  have hcopy : m.copy a src 0 (strnlen src n) (a + i) = src i := by
    rw [ByteMem.copy, if_pos (by omega)]
    exact congrArg src (by omega)
  dsimp only [strncpy]
  split
  · rw [ByteMem.write_apply_of_not_mem (by omega), hcopy]
  · exact hcopy

/-- Without a zero among them all bytes are copied. -/
theorem strncpy_eq {src : ByteMem} {n : Nat} (h : ∀ i < n, src i ≠ 0) (m : ByteMem) (a : Nat) :
    strncpy m a src n = m.copy a src 0 n := by
  dsimp only [strncpy]
  rw [strnlen_eq h, if_neg (Nat.lt_irrefl n)]

theorem strnchr_lt {s : ByteMem} {c : BitVec 8} {n k : Nat} (h : strnchr s c n = some k) :
    k < n := by
  induction n generalizing s k with
  | zero => cases h
  | succ n ih =>
      rw [strnchr] at h
      split at h
      · cases h
      · split at h
        · cases h
          exact Nat.zero_lt_succ n
        · obtain ⟨k', hk', rfl⟩ := Option.map_eq_some_iff.mp h
          exact Nat.succ_lt_succ (ih hk')

/-- The first `k` bytes are other characters, and `c` comes next if there is room for it. -/
theorem strnchr_eq {s : ByteMem} {c : BitVec 8} {n k : Nat} (hk : k ≤ n)
    (hbefore : ∀ i < k, s i ≠ 0 ∧ s i ≠ c) (hat : k < n → s k = c) (hc : c ≠ 0) :
    (strnchr s c n).getD n = k := by
  induction n generalizing s k with
  | zero => exact (Nat.le_zero.mp hk).symm
  | succ n ih =>
      rw [strnchr]
      cases k with
      | zero =>
          have hfirst := hat (Nat.zero_lt_succ n)
          rw [if_neg (hfirst.symm ▸ hc), if_pos hfirst]
          rfl
      | succ k =>
          obtain ⟨hzero, hne⟩ := hbefore 0 (Nat.zero_lt_succ k)
          have hrest : (strnchr (s.shift 1) c n).getD n = k := by
            refine ih (Nat.le_of_succ_le_succ hk) (fun i hi => ?_) fun hlt => ?_
            · rw [ByteMem.shift, Nat.add_comm]
              exact hbefore (i + 1) (Nat.succ_lt_succ hi)
            · rw [ByteMem.shift, Nat.add_comm]
              exact hat (Nat.succ_lt_succ hlt)
          rw [if_neg hzero, if_neg hne, ← hrest]
          cases strnchr (s.shift 1) c n <;> rfl

/-! ## Strings in memory -/

/-- The string at the start of a memory. -/
structure IsString (m : ByteMem) (l : List (BitVec 8)) : Prop where
  char : ∀ i (h : i < l.length), m i = l[i]
  nul : m l.length = 0
  ne_zero : ∀ c ∈ l, c ≠ 0

namespace IsString

variable {m m' : ByteMem} {l l' : List (BitVec 8)} {c : BitVec 8} {n : Nat}

theorem nil_iff : IsString m [] ↔ m 0 = 0 := by
  constructor
  · intro h
    exact h.nul
  · intro h
    exact ⟨fun i hi => absurd hi (Nat.not_lt_zero i), h, fun c hc => nomatch hc⟩

theorem tail (h : IsString m (c :: l)) : m 0 = c ∧ c ≠ 0 ∧ IsString (m.shift 1) l := by
  refine ⟨h.char 0 (Nat.zero_lt_succ _), h.ne_zero c List.mem_cons_self, fun i hi => ?_, ?_, ?_⟩
  · rw [ByteMem.shift, Nat.add_comm]
    exact h.char (i + 1) (Nat.succ_lt_succ hi)
  · rw [ByteMem.shift, Nat.add_comm]
    exact h.nul
  · exact fun c hc => h.ne_zero c (List.mem_cons_of_mem _ hc)

/-- With zeros behind it. -/
theorem of_list (h : ∀ c ∈ l, c ≠ 0) : IsString (fun i => (l[i]?).getD 0) l := by
  refine ⟨fun i hi => ?_, ?_, h⟩
  · rw [List.getElem?_eq_getElem hi, Option.getD_some]
  · rw [List.getElem?_eq_none (Nat.le_refl _), Option.getD_none]

/-- Up to the first zero among the first bytes. -/
theorem exists_of_zero (h : m n = 0) : ∃ l, l.length ≤ n ∧ IsString m l := by
  induction n generalizing m with
  | zero => exact ⟨[], Nat.le_refl 0, nil_iff.mpr h⟩
  | succ n ih =>
      by_cases hzero : m 0 = 0
      · exact ⟨[], Nat.zero_le _, nil_iff.mpr hzero⟩
      · have hnext : m.shift 1 n = 0 := by
          rw [ByteMem.shift, Nat.add_comm]
          exact h
        obtain ⟨l, hlength, hl⟩ := ih hnext
        refine ⟨m 0 :: l, Nat.succ_le_succ hlength, fun i hi => ?_, ?_, ?_⟩
        · cases i with
          | zero => rfl
          | succ i =>
              have hi' := hl.char i (Nat.lt_of_succ_lt_succ hi)
              rw [ByteMem.shift, Nat.add_comm] at hi'
              exact hi'
        · have hnul := hl.nul
          rw [ByteMem.shift, Nat.add_comm] at hnul
          exact hnul
        · exact List.forall_mem_cons.mpr ⟨hzero, hl.ne_zero⟩

/-- `strncmp` compares whole strings when one of them ends within the bound. -/
theorem strncmp_eq_zero_iff (h : IsString m l) (h' : IsString m' l') (hn : l.length < n) :
    strncmp m m' n = 0 ↔ l = l' := by
  induction l generalizing m m' l' n with
  | nil =>
      obtain ⟨n, rfl⟩ := Nat.exists_eq_add_one_of_ne_zero (Nat.ne_zero_of_lt hn)
      rw [strncmp]
      cases l' with
      | nil => simp [nil_iff.mp h, nil_iff.mp h']
      | cons c' l' =>
          obtain ⟨hc', hne', _⟩ := h'.tail
          simpa [nil_iff.mp h, hc'] using hne'
  | cons c l ih =>
      obtain ⟨n, rfl⟩ := Nat.exists_eq_add_one_of_ne_zero (Nat.ne_zero_of_lt hn)
      obtain ⟨hc, hne, hl⟩ := h.tail
      rw [strncmp]
      cases l' with
      | nil => simpa [hc, nil_iff.mp h'] using hne
      | cons c' l' =>
          obtain ⟨hc', hne', hl'⟩ := h'.tail
          have hrest := ih hl hl' (Nat.lt_of_succ_lt_succ hn)
          rw [if_pos ⟨hc.symm ▸ hne, hc'.symm ▸ hne'⟩, hc, hc', List.cons.injEq]
          split
          · next hlt =>
            have hcc : c ≠ c' := by
              rintro rfl
              simp [BitVec.slt] at hlt
            simp [hcc]
          · split
            · next hlt =>
              have hcc : c ≠ c' := by
                rintro rfl
                simp [BitVec.slt] at hlt
              simp [hcc]
            · next hle hge =>
              have hcc : c = c' := by
                apply BitVec.eq_of_toInt_eq
                simp only [BitVec.slt, decide_eq_true_eq, not_lt] at hle hge
                omega
              rw [hrest, and_iff_right hcc]

theorem unique (h : IsString m l) (h' : IsString m l') : l = l' := by
  refine (strncmp_eq_zero_iff h h' (Nat.lt_succ_self _)).mp ?_
  exact (strncmp_eq_zero_iff h h (Nat.lt_succ_self _)).mpr rfl

end IsString

end BadOs
