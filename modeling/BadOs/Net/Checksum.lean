import BadOs.Data.OnesComplement
import BadOs.Net.Buffer

/-!
# The Internet checksum

`checksum` takes the sum in 32 bits and folds it; the bytes that it covers then verify.
-/

namespace BadOs

/-- The `n` words from `a` on, in network byte order. -/
def words (m : ByteMem) (a n : Nat) : List (BitVec 16) :=
  (List.range n).map fun i => m (a + 2 * i) ++ m (a + 2 * i + 1)

section

variable {m m' : ByteMem}

theorem length_words (m : ByteMem) (a n : Nat) : (words m a n).length = n := by
  rw [words, List.length_map, List.length_range]

theorem words_add (m : ByteMem) (a n k : Nat) :
    words m a (n + k) = words m a n ++ words m (a + 2 * n) k := by
  simp only [words, List.range_add, List.map_append, List.map_map]
  congr 1
  apply List.map_congr_left
  intro i _
  simp only [Function.comp_apply]
  have hoff : a + 2 * (n + i) = a + 2 * n + 2 * i := by omega
  rw [hoff]

theorem words_succ (m : ByteMem) (a n : Nat) :
    words m a (n + 1) = (m a ++ m (a + 1)) :: words m (a + 2) n := by
  rw [Nat.add_comm, words_add]
  rfl

theorem words_congr {a n : Nat} (h : ∀ x, a ≤ x → x < a + 2 * n → m x = m' x) :
    words m a n = words m' a n := by
  apply List.map_congr_left
  intro i hi
  have hlt := List.mem_range.mp hi
  rw [h _ (by omega) (by omega), h _ (by omega) (by omega)]

theorem ofBytes_slice (m : ByteMem) (a n : Nat) :
    OnesComplement.ofBytes (m.slice a (2 * n)) = words m a n := by
  induction n generalizing a with
  | zero => rfl
  | succ n ih =>
      have hlen : 2 * (n + 1) = 2 + 2 * n := by omega
      rw [hlen, ByteMem.slice_add, words_succ, ← ih (a + 2)]
      rfl

/-! ## The sum -/

theorem checksumLoop_toNat (m : ByteMem) (left i : Nat) (sum : BitVec 32)
    (h : sum.toNat + OnesComplement.total (words m i left) < 2 ^ 32) :
    (checksumLoop m left i sum).toNat = sum.toNat + OnesComplement.total (words m i left) := by
  induction left generalizing i sum with
  | zero => rfl
  | succ left ih =>
      rw [words_succ, OnesComplement.total_cons] at h ⊢
      have hword : ((m i ++ m (i + 1) : BitVec 16).setWidth 32).toNat =
          (m i ++ m (i + 1) : BitVec 16).toNat := BitVec.toNat_setWidth_of_le (by decide)
      have hsum : (sum + (m i ++ m (i + 1) : BitVec 16).setWidth 32).toNat =
          sum.toNat + (m i ++ m (i + 1) : BitVec 16).toNat := by
        rw [BitVec.toNat_add, hword]
        exact Nat.mod_eq_of_lt (by omega)
      rw [checksumLoop, ih _ _ (by rw [hsum]; omega), hsum]
      omega

/-- One round of the loop that folds the sum. -/
theorem checksumFold_succ (fuel : Nat) (sum : BitVec 32) :
    checksumFold (fuel + 1) sum = if sum.toNat < 65536 then sum
      else checksumFold fuel (BitVec.ofNat 32 (sum.toNat % 65536 + sum.toNat / 65536)) := by
  have hlt := sum.isLt
  have hshift : (sum >>> 16).toNat = sum.toNat / 65536 := by
    rw [BitVec.toNat_ushiftRight, Nat.shiftRight_eq_div_pow]
  have hmask : (sum &&& 0xffff).toNat = sum.toNat % 65536 := by
    rw [BitVec.toNat_and]
    exact Nat.and_two_pow_sub_one_eq_mod _ 16
  have hcond : sum >>> 16 = 0 ↔ sum.toNat < 65536 := by
    rw [← BitVec.toNat_inj, hshift]
    change _ = 0 ↔ _
    omega
  have hnext : (sum &&& (0xffff : BitVec 32)) + (sum >>> 16) =
      BitVec.ofNat 32 (sum.toNat % 65536 + sum.toNat / 65536) := by
    apply BitVec.eq_of_toNat_eq
    rw [BitVec.toNat_add, hshift, hmask, BitVec.toNat_ofNat]
  rw [checksumFold, if_congr hcond rfl rfl]
  split
  · rfl
  · exact congrArg (checksumFold fuel) hnext

/-- Three rounds are enough for every sum. -/
theorem checksumFold_spec (sum : BitVec 32) :
    (checksumFold 3 sum).toNat < 65536 ∧
      (checksumFold 3 sum).toNat % 65535 = sum.toNat % 65535 ∧
      ((checksumFold 3 sum).toNat = 0 ↔ sum.toNat = 0) := by
  have next : ∀ s : BitVec 32, (BitVec.ofNat 32 (s.toNat % 65536 + s.toNat / 65536)).toNat =
      s.toNat % 65536 + s.toNat / 65536 := by
    intro s
    have hlt := s.isLt
    rw [BitVec.toNat_ofNat]
    exact Nat.mod_eq_of_lt (by omega)
  have hlt := sum.isLt
  -- The first round leaves at most 17 bits, the second one at most 16.
  have h₁ := next sum
  rw [checksumFold_succ]
  split
  · exact ⟨by omega, rfl, Iff.rfl⟩
  generalize BitVec.ofNat 32 (sum.toNat % 65536 + sum.toNat / 65536) = s₁ at h₁ ⊢
  have h₂ := next s₁
  rw [checksumFold_succ]
  split
  · exact ⟨by omega, by omega, by omega⟩
  generalize BitVec.ofNat 32 (s₁.toNat % 65536 + s₁.toNat / 65536) = s₂ at h₂ ⊢
  rw [checksumFold_succ]
  split
  · exact ⟨by omega, by omega, by omega⟩
  · omega

/-- The complement of the folded sum is that of the sum. -/
theorem checksumFold_sum (m : ByteMem) (buf : Nat) {n : Nat} (hn : n ≤ 65536) :
    (~~~checksumFold 3 (checksumLoop m n buf 0)).setWidth 16 =
      ~~~OnesComplement.sum (words m buf n) := by
  have hlen := OnesComplement.total_le (words m buf n)
  rw [length_words] at hlen
  obtain ⟨hlt, hmod, hnil⟩ := checksumFold_spec (checksumLoop m n buf 0)
  rw [checksumLoop_toNat m n buf 0 (by change 0 + _ < _; omega)] at hmod hnil
  have hF : ((checksumFold 3 (checksumLoop m n buf 0)).setWidth 16).toNat =
      (checksumFold 3 (checksumLoop m n buf 0)).toNat := by
    rw [BitVec.toNat_setWidth]
    exact Nat.mod_eq_of_lt hlt
  have hsum : OnesComplement.sum (words m buf n) =
      (checksumFold 3 (checksumLoop m n buf 0)).setWidth 16 := by
    apply OnesComplement.sum_eq
    · rw [hF, hmod]
      exact congrArg (· % 65535) (Nat.zero_add _)
    · rw [hF, hnil]
      exact iff_of_eq (congrArg (· = 0) (Nat.zero_add _))
  rw [hsum]
  exact BitVec.setWidth_not (by decide)

/-! ## The field -/

theorem ntos_low (v : BitVec 16) : (ntos v).extractLsb' 0 8 = v.extractLsb' 8 8 := by
  apply BitVec.eq_of_getLsbD_eq
  intro i hi
  simp only [ntos, BitVec.getLsbD_extractLsb', BitVec.getLsbD_or, BitVec.getLsbD_shiftLeft,
    BitVec.getLsbD_ushiftRight]
  grind

theorem ntos_high (v : BitVec 16) : (ntos v).extractLsb' 8 8 = v.extractLsb' 0 8 := by
  apply BitVec.eq_of_getLsbD_eq
  intro i hi
  simp only [ntos, BitVec.getLsbD_extractLsb', BitVec.getLsbD_or, BitVec.getLsbD_shiftLeft,
    BitVec.getLsbD_ushiftRight]
  grind

theorem extractLsb'_append_halves (v : BitVec 16) :
    (v.extractLsb' 8 8 ++ v.extractLsb' 0 8 : BitVec 16) = v := by
  apply BitVec.eq_of_getLsbD_eq
  intro i hi
  simp only [BitVec.getLsbD_append, BitVec.getLsbD_extractLsb']
  grind

/-- The two bytes of a word stored in network byte order. -/
theorem slice_write_ntos (m : ByteMem) (a : Nat) (v : BitVec 16) :
    (m.write a 2 (ntos v)).slice a 2 = [v.extractLsb' 8 8, v.extractLsb' 0 8] := by
  have hlow : m.write a 2 (ntos v) a = v.extractLsb' 8 8 := by
    rw [ByteMem.write_apply ⟨Nat.le_refl a, by omega⟩, Nat.sub_self]
    exact ntos_low v
  have hhigh : m.write a 2 (ntos v) (a + 1) = v.extractLsb' 0 8 := by
    have hin : a ≤ a + 1 ∧ a + 1 < a + 2 := by omega
    rw [ByteMem.write_apply hin, Nat.add_sub_cancel_left]
    exact ntos_high v
  exact congrArg₂ (fun b b' => [b, b']) hlow hhigh

/-- Such a word is read back. -/
theorem words_write_ntos (m : ByteMem) (a : Nat) (v : BitVec 16) :
    words (m.write a 2 (ntos v)) a 1 = [v] := by
  have hbytes := congrArg OnesComplement.ofBytes (slice_write_ntos m a v)
  rw [← ofBytes_slice _ a 1]
  exact hbytes.trans (congrArg (· :: []) (extractLsb'_append_halves v))

/-- A word in the middle is added to the others. -/
theorem total_words_write (m : ByteMem) (buf before after : Nat) (v : BitVec 16) :
    OnesComplement.total (words (m.write (buf + 2 * before) 2 (ntos v)) buf (before + 1 + after)) =
      OnesComplement.total (words m buf before) + v.toNat +
        OnesComplement.total (words m (buf + 2 * (before + 1)) after) := by
  have hbefore : words (m.write (buf + 2 * before) 2 (ntos v)) buf before = words m buf before :=
    words_congr fun x _ hx => ByteMem.write_apply_of_not_mem (.inl hx)
  have hafter : words (m.write (buf + 2 * before) 2 (ntos v)) (buf + 2 * (before + 1)) after =
      words m (buf + 2 * (before + 1)) after :=
    words_congr fun x hx _ => ByteMem.write_apply_of_not_mem (.inr (by omega))
  rw [words_add, words_add, hbefore, hafter, words_write_ntos, OnesComplement.total_append,
    OnesComplement.total_append, OnesComplement.total_cons, OnesComplement.total_nil, Nat.add_zero]

/-- A buffer of an even number of bytes verifies when its checksum is stored in it. -/
theorem checksum_verifies (m : ByteMem) (buf before after : Nat) (h : before + 1 + after ≤ 65536) :
    OnesComplement.Verifies (words
      (checksum m buf (2 * (before + 1 + after)) (buf + 2 * before)) buf (before + 1 + after)) := by
  have hcount : (2 * (before + 1 + after) + 1) / 2 = before + 1 + after := by omega
  have hzero : (0 : BitVec 16) = ntos 0 := by decide
  dsimp only [checksum]
  rw [hcount, checksumFold_sum _ _ h, ByteMem.write_write, hzero]
  generalize hsum : OnesComplement.sum _ = sum
  have htotal := total_words_write m buf before after (~~~sum)
  have hcleared := total_words_write m buf before after 0
  apply OnesComplement.verifies_complement
  rw [hsum, htotal, hcleared]
  change _ = _ + 0 + _ + _
  omega

/-! ## Bytes -/

/-- After the last whole word comes the odd byte. -/
theorem ofBytes_slice_odd (m : ByteMem) (a n : Nat) :
    OnesComplement.ofBytes (m.slice a (2 * n + 1)) = words m a n ++ [m (a + 2 * n) ++ 0#8] := by
  have heven : (m.slice a (2 * n)).length % 2 = 0 := by
    rw [ByteMem.length_slice]
    omega
  rw [ByteMem.slice_add, OnesComplement.ofBytes_append heven, ofBytes_slice]
  rfl

/-- The word in the middle of a buffer holds its checksum. All of it verifies, up to the byte
that is read behind an odd number of bytes. -/
theorem checksum_verifies_iff (m : ByteMem) (buf len before : Nat)
    (hin : 2 * before + 2 ≤ len) (hlen : len ≤ 131072) :
    OnesComplement.Verifies (OnesComplement.ofBytes
      ((checksum m buf len (buf + 2 * before)).slice buf len)) ↔
        len % 2 = 0 ∨ m (buf + len) = 0 := by
  obtain ⟨n, hn | hn⟩ : ∃ n, len = 2 * n ∨ len = 2 * n + 1 := ⟨len / 2, by omega⟩
  · subst hn
    have hwords : n = before + 1 + (n - (before + 1)) := by omega
    have hverifies := checksum_verifies m buf before (n - (before + 1)) (by omega)
    rw [← hwords] at hverifies
    rw [ofBytes_slice]
    exact iff_of_true hverifies (Or.inl (by omega))
  · subst hn
    have hcount : (2 * n + 1 + 1) / 2 = (2 * (n + 1) + 1) / 2 := by omega
    have hwords : n + 1 = before + 1 + (n - before) := by omega
    have hverifies := checksum_verifies m buf before (n - before) (by omega)
    have heq : checksum m buf (2 * n + 1) (buf + 2 * before) =
        checksum m buf (2 * (before + 1 + (n - before))) (buf + 2 * before) := by
      dsimp only [checksum]
      rw [hcount, hwords]
    rw [← heq, ← hwords, words_add] at hverifies
    have hlast : checksum m buf (2 * n + 1) (buf + 2 * before) (buf + 2 * n + 1) =
        m (buf + 2 * n + 1) := by
      dsimp only [checksum]
      rw [ByteMem.write_apply_of_not_mem (by omega), ByteMem.write_apply_of_not_mem (by omega)]
    have hword : words (checksum m buf (2 * n + 1) (buf + 2 * before)) (buf + 2 * n) 1 =
        [checksum m buf (2 * n + 1) (buf + 2 * before) (buf + 2 * n) ++ m (buf + 2 * n + 1)] := by
      rw [← hlast]
      rfl
    rw [hword] at hverifies
    rw [ofBytes_slice_odd]
    generalize checksum m buf (2 * n + 1) (buf + 2 * before) = m' at hverifies ⊢
    rw [OnesComplement.verifies_iff, OnesComplement.total_append, OnesComplement.total_cons,
      OnesComplement.toNat_append] at hverifies ⊢
    have hbyte := (m (buf + 2 * n + 1)).isLt
    have hzero : m (buf + (2 * n + 1)) = 0 ↔ (m (buf + 2 * n + 1)).toNat = 0 :=
      BitVec.toNat_inj.symm
    rw [hzero]
    simp only [BitVec.toNat_ofNat] at hverifies ⊢
    omega

/-! ## The bytes that are read -/

/-- A byte of an object of `len` bytes. -/
def loadByte (m : ByteMem) (len i : Nat) : Except Trap (BitVec 8) :=
  if i < len then .ok (m i) else .error .outOfBounds

/-- The loop of `checksum` over an object of `len` bytes. -/
def checksumLoopIn (m : ByteMem) (len : Nat) :
    (left i : Nat) → (sum : BitVec 32) → Except Trap (BitVec 32)
  | 0, _, sum => .ok sum
  | left + 1, i, sum => do
      let high ← loadByte m len i
      let low ← loadByte m len (i + 1)
      checksumLoopIn m len left (i + 2) (sum + (high ++ low : BitVec 16).setWidth 32)

/-- `checksum` of an object of `len` bytes, where an access outside of it is a trap. -/
def checksumIn (m : ByteMem) (len dest : Nat) : Except Trap ByteMem :=
  if len < dest + 2 then .error .outOfBounds
  else do
    let m := m.write dest 2 (0 : BitVec 16)
    let sum ← checksumLoopIn m len ((len + 1) / 2) 0 0
    return m.write dest 2 (ntos ((~~~checksumFold 3 sum).setWidth 16))

theorem checksumLoopIn_ok {len left i : Nat} (h : i + 2 * left ≤ len) (sum : BitVec 32) :
    checksumLoopIn m len left i sum = .ok (checksumLoop m left i sum) := by
  induction left generalizing i sum with
  | zero => rfl
  | succ left ih =>
      rw [checksumLoopIn, loadByte, if_pos (by omega), loadByte, if_pos (by omega)]
      exact ih (by omega) _

/-- The last word of an odd number of bytes is cut off. -/
theorem checksumLoopIn_odd {len left i : Nat} (h : i + 2 * left + 1 = len) (sum : BitVec 32) :
    checksumLoopIn m len (left + 1) i sum = .error .outOfBounds := by
  induction left generalizing i sum with
  | zero =>
      rw [checksumLoopIn, loadByte, if_pos (by omega), loadByte, if_neg (by omega)]
      rfl
  | succ left ih =>
      rw [checksumLoopIn, loadByte, if_pos (by omega), loadByte, if_pos (by omega)]
      exact ih (by omega) _

theorem checksumIn_even {len dest : Nat} (hin : dest + 2 ≤ len) (heven : len % 2 = 0) :
    checksumIn m len dest = .ok (checksum m 0 len dest) := by
  rw [checksumIn, if_neg (by omega)]
  dsimp only
  rw [checksumLoopIn_ok (by omega)]
  rfl

theorem checksumIn_odd {len dest : Nat} (hin : dest + 2 ≤ len) (hodd : len % 2 = 1) :
    checksumIn m len dest = .error .outOfBounds := by
  have hcount : (len + 1) / 2 = len / 2 + 1 := by omega
  rw [checksumIn, if_neg (by omega)]
  dsimp only
  rw [hcount, checksumLoopIn_odd (by omega)]
  rfl

/-- The field holds the checksum in network order, the buffer with it verifies, and nothing
behind the buffer was read: this holds exactly if the number of bytes is even. -/
theorem checksum_rfc1071_iff (m : ByteMem) (len dest : Nat) (hlen : len ≤ 65535 + 12)
    (hdest : dest % 2 = 0) (hin : dest + 2 ≤ len) :
    ((checksumIn m len dest).Total fun m' =>
        m' = m.write dest 2
          (ntos (OnesComplement.checksum ((m.write dest 2 (0 : BitVec 16)).slice 0 len))) ∧
        OnesComplement.Verifies (OnesComplement.ofBytes (m'.slice 0 len))) ↔ len % 2 = 0 := by
  constructor
  · rintro ⟨m', hm', -⟩
    by_contra hodd
    rw [checksumIn_odd hin (by omega)] at hm'
    cases hm'
  · intro heven
    rw [checksumIn_even hin heven]
    refine .ok ⟨?_, ?_⟩
    · have hcount : (len + 1) / 2 = len / 2 := by omega
      have hbytes : 2 * (len / 2) = len := by omega
      dsimp only [checksum]
      rw [hcount, checksumFold_sum _ _ (by omega), ByteMem.write_write, ← ofBytes_slice, hbytes]
      rfl
    · have hfield : 2 * (dest / 2) = dest := by omega
      have hverifies := checksum_verifies_iff m 0 len (dest / 2) (by omega) (by omega)
      rw [hfield, Nat.zero_add] at hverifies
      exact hverifies.mpr (Or.inl heven)

/-- Three bytes with the field at the start. -/
theorem checksum_reads_behind : ¬∀ (m : ByteMem) (len dest : Nat), len ≤ 65535 + 12 →
    dest % 2 = 0 → dest + 2 ≤ len → (checksumIn m len dest).Total fun m' =>
      m' = m.write dest 2
        (ntos (OnesComplement.checksum ((m.write dest 2 (0 : BitVec 16)).slice 0 len))) ∧
      OnesComplement.Verifies (OnesComplement.ofBytes (m'.slice 0 len)) := by
  intro claim
  obtain ⟨m', hm', -⟩ := claim (fun _ => 0) 3 0 (by decide) (by decide) (by decide)
  rw [checksumIn_odd (by decide) (by decide)] at hm'
  cases hm'

/-- The header of the kernel's own test, and the checksum that the test expects. -/
def testHeader : ByteMem := fun i =>
  ([0x45, 0x00, 0x38, 0x00, 0x00, 0x00, 0x00, 0x00, 0x00, 0x00, 0x00, 0x00, 0xc0, 0xa8, 0x03, 0x02,
    0xc0, 0xa8, 0x03, 0x01][i]? : Option (BitVec 8)).getD 0

theorem checksum_rfc1071_header :
    (checksumIn testHeader 20 8).Total fun m' => m'.read 8 2 = 0xaafb ∧
      OnesComplement.Verifies (OnesComplement.ofBytes (m'.slice 0 20)) := by
  refine ((checksum_rfc1071_iff testHeader 20 8 (by decide) (by decide)
    (by decide)).mpr rfl).mono ?_
  rintro m' ⟨hm', hverifies⟩
  refine ⟨?_, hverifies⟩
  rw [hm', ByteMem.read_write_self]
  decide

end

end BadOs
