import Mathlib.Data.List.Perm.Subperm
import BadOs.Data.BitRun
import BadOs.Heap.Basic

/-!
# What the search of `kmem_alloc` finds

The two inner loops return the lowest word, and in it the lowest position, at
which the required number of bits is clear. The outer loop is related to the
list of blocks that it walks, so that later proofs need neither pointers nor
fuel.
-/

namespace BadOs

/-- `n` bits from `k` on are clear in bitmap word `w` of a block. -/
def Clear (m : ByteMem) (block w k n : Nat) : Prop :=
  ∀ i, k ≤ i → i < k + n → (Block.chunkMask m block w).getLsbD i = false

instance (m : ByteMem) (block w k n : Nat) : Decidable (Clear m block w k n) :=
  decidable_of_iff (∀ i < k + n, k ≤ i → (Block.chunkMask m block w).getLsbD i = false)
    ⟨fun h i hlo hhi => h i hhi hlo, fun h i hhi hlo => h i hlo hhi⟩

theorem lowMask_eq_ones {n : Nat} (hn : n < 32) : lowMask n = BitRun.ones 32 n := by
  simp only [lowMask, BitRun.ones, Nat.mod_eq_of_lt hn]

theorem lowMask_shift {n : Nat} (hn : n < 32) (k : Nat) :
    lowMask n <<< k = BitRun.run 32 n k := by
  rw [lowMask_eq_ones hn, BitRun.run]

/-- The test of the loop body at position `k`, in terms of the bitmap. -/
theorem testBits_iff_clear {m : ByteMem} {block w k n : Nat} (hn : n < 32) (hk : k + n ≤ 32) :
    testBits (~~~Block.chunkMask m block w) (lowMask n <<< k) = true ↔ Clear m block w k n := by
  rw [lowMask_shift hn, testBits, beq_iff_eq, BitRun.run_fits_not_iff hn hk]
  rfl

/-! ## The loops over bits and words -/

theorem scanBits_some {word : BitVec 32} {left bit b : Nat} {mask found : BitVec 32}
    (h : scanBits word left bit mask = some (b, found)) :
    ∃ j, j < left ∧ b = bit + j ∧ found = mask <<< j ∧ testBits (~~~word) found = true ∧
      ∀ i, i < j → testBits (~~~word) (mask <<< i) = false := by
  induction left generalizing bit mask with
  | zero => simp only [scanBits] at h; cases h
  | succ left ih =>
      simp only [scanBits] at h
      split at h
      · next hit =>
        cases h
        exact ⟨0, by omega, rfl, (BitVec.shiftLeft_zero _).symm, hit,
          fun i hi => absurd hi (Nat.not_lt_zero i)⟩
      · next miss =>
        obtain ⟨j, hj, rfl, rfl, hit, earlier⟩ := ih h
        refine ⟨j + 1, by omega, by omega, ?_, hit, ?_⟩
        · rw [Nat.add_comm j 1, BitVec.shiftLeft_add]
        · intro i hi
          cases i with
          | zero => simpa only [BitVec.shiftLeft_zero, Bool.not_eq_true] using miss
          | succ i =>
              rw [Nat.add_comm i 1, BitVec.shiftLeft_add]
              exact earlier i (by omega)

theorem scanBits_none {word : BitVec 32} {left bit : Nat} {mask : BitVec 32}
    (h : scanBits word left bit mask = none) :
    ∀ j, j < left → testBits (~~~word) (mask <<< j) = false := by
  induction left generalizing bit mask with
  | zero => intro j hj; omega
  | succ left ih =>
      simp only [scanBits] at h
      split at h
      · cases h
      · next miss =>
        intro j hj
        cases j with
        | zero => simpa only [BitVec.shiftLeft_zero, Bool.not_eq_true] using miss
        | succ j =>
            rw [Nat.add_comm j 1, BitVec.shiftLeft_add]
            exact ih h j (by omega)

/-- What the word loop returns is a clear run, and no earlier word has one. -/
theorem scanChunks_some {m : ByteMem} {block n left chunk w k : Nat} {mask : BitVec 32}
    (hn : n < 32) (h : scanChunks m block n left chunk = some (w, k, mask)) :
    chunk ≤ w ∧ w < chunk + left ∧ k + n ≤ 32 ∧ mask = BitRun.run 32 n k ∧ Clear m block w k n ∧
      (∀ w' k', chunk ≤ w' → k' + n ≤ 32 → Clear m block w' k' n → w < w' ∨ w = w' ∧ k ≤ k') := by
  induction left generalizing chunk with
  | zero => simp only [scanChunks] at h; cases h
  | succ left ih =>
      simp only [scanChunks] at h
      split at h
      · next bit found hscan =>
        cases h
        obtain ⟨j, hj, hk, hmask, hit, earlier⟩ := scanBits_some hscan
        have hkj : k = j := by omega
        subst hkj
        have hfit : k + n ≤ 32 := by simp only [sizeofMask] at hj; omega
        rw [hmask] at hit
        refine ⟨Nat.le_refl _, by omega, hfit, by rw [hmask, lowMask_shift hn],
          (testBits_iff_clear hn hfit).mp hit, ?_⟩
        intro w' k' hw hfit' hclear
        rcases Nat.lt_or_eq_of_le hw with hlt | heq
        · exact Or.inl hlt
        · refine Or.inr ⟨heq, Nat.le_of_not_lt fun hlt => ?_⟩
          subst heq
          have miss := earlier k' hlt
          rw [(testBits_iff_clear hn hfit').mpr hclear] at miss
          cases miss
      · next hscan =>
        obtain ⟨hlo, hhi, hfit, hmask, hclear, least⟩ := ih h
        refine ⟨by omega, by omega, hfit, hmask, hclear, ?_⟩
        intro w' k' hw hfit' hclear'
        rcases Nat.lt_or_eq_of_le hw with hlt | heq
        · exact least w' k' hlt hfit' hclear'
        · subst heq
          have miss := scanBits_none hscan k' (by simp only [sizeofMask]; omega)
          rw [(testBits_iff_clear hn hfit').mpr hclear'] at miss
          cases miss

/-- The word loop misses no clear run among the words it looks at. -/
theorem scanChunks_none {m : ByteMem} {block n left chunk : Nat} (hn : n < 32)
    (h : scanChunks m block n left chunk = none) :
    ∀ w k, chunk ≤ w → w < chunk + left → k + n ≤ 32 → ¬Clear m block w k n := by
  induction left generalizing chunk with
  | zero => intro w k hlo hhi; omega
  | succ left ih =>
      simp only [scanChunks] at h
      split at h
      · cases h
      · next hscan =>
        intro w k hlo hhi hfit hclear
        rcases Nat.lt_or_eq_of_le hlo with hlt | heq
        · exact ih h w k hlt (by omega) hfit hclear
        · subst heq
          have miss := scanBits_none hscan k (by simp only [sizeofMask]; omega)
          rw [(testBits_iff_clear hn hfit).mpr hclear] at miss
          cases miss

/-! ## The loops over blocks -/

/-- The list of blocks that the `next` pointers lead through from `p`. -/
def BlockChain (m : ByteMem) : (p : Nat) → List Nat → Prop
  | p, [] => p = 0
  | p, b :: bs => p = b ∧ b ≠ 0 ∧ BlockChain m (Block.next m b) bs

theorem BlockChain.congr {m m' : ByteMem} {p : Nat} {bs : List Nat} (h : BlockChain m p bs)
    (same : ∀ b ∈ bs, Block.next m' b = Block.next m b) : BlockChain m' p bs := by
  induction bs generalizing p with
  | nil => exact h
  | cons b bs ih =>
      obtain ⟨hp, hb, hrest⟩ := h
      refine ⟨hp, hb, ?_⟩
      rw [same b List.mem_cons_self]
      exact ih hrest fun c hc => same c (List.mem_cons_of_mem b hc)

theorem BlockChain.unique {m : ByteMem} {p : Nat} {bs bs' : List Nat} (h : BlockChain m p bs)
    (h' : BlockChain m p bs') : bs = bs' := by
  induction bs generalizing p bs' with
  | nil =>
      cases bs' with
      | nil => rfl
      | cons b bs' => exact absurd (h'.1.symm.trans h) h'.2.1
  | cons b bs ih =>
      cases bs' with
      | nil => exact absurd (h.1.symm.trans h') h.2.1
      | cons b' bs' =>
          obtain ⟨rfl, _, hrest⟩ := h
          obtain ⟨rfl, _, hrest'⟩ := h'
          rw [ih hrest hrest']

theorem BlockChain.suffix {m : ByteMem} {p b : Nat} {before after : List Nat}
    (h : BlockChain m p (before ++ b :: after)) : BlockChain m b (b :: after) := by
  induction before generalizing p with
  | nil =>
      obtain ⟨rfl, hrest⟩ := h
      exact ⟨rfl, hrest⟩
  | cons a before ih => exact ih h.2.2

/-- A list that comes back to a block never ends. -/
theorem BlockChain.nodup {m : ByteMem} {p : Nat} {bs : List Nat} (h : BlockChain m p bs) :
    bs.Nodup := by
  induction bs generalizing p with
  | nil => exact List.nodup_nil
  | cons b bs ih =>
      have hhead : BlockChain m b (b :: bs) := ⟨rfl, h.2⟩
      refine List.nodup_cons.mpr ⟨?_, ih h.2.2⟩
      intro hmem
      obtain ⟨before, after, rfl⟩ := List.append_of_mem hmem
      have hagain := hhead.2.2.suffix
      have hlen := congrArg List.length (hhead.unique hagain)
      simp only [List.length_cons, List.length_append] at hlen
      omega

theorem BlockChain.pos {m : ByteMem} {p b : Nat} {bs : List Nat} (h : BlockChain m p bs)
    (hb : b ∈ bs) : 0 < b := by
  obtain ⟨before, after, rfl⟩ := List.append_of_mem hb
  exact Nat.pos_of_ne_zero h.suffix.2.1

theorem BlockChain.lt {m : ByteMem} {p b : Nat} {bs : List Nat} (h : BlockChain m p bs)
    (hp : p < 2 ^ 64) (hb : b ∈ bs) : b < 2 ^ 64 := by
  induction bs generalizing p with
  | nil => cases hb
  | cons a bs ih =>
      rcases List.mem_cons.mp hb with rfl | hmem
      · exact h.1 ▸ hp
      · exact ih h.2.2 (m.read a 8).isLt hmem

/-- The fuel of the loops over blocks suffices for every list of blocks. -/
theorem BlockChain.length_lt {m : ByteMem} {p : Nat} {bs : List Nat} (h : BlockChain m p bs)
    (hp : p < 2 ^ 64) : bs.length < 2 ^ 64 := by
  have hnodup : (0 :: bs).Nodup :=
    List.nodup_cons.mpr ⟨fun hzero => absurd (h.pos hzero) (Nat.lt_irrefl 0), h.nodup⟩
  have hsub : (0 :: bs) ⊆ List.range (2 ^ 64) := by
    intro b hb
    rcases List.mem_cons.mp hb with rfl | hmem
    · exact List.mem_range.mpr (by decide)
    · exact List.mem_range.mpr (h.lt hp hmem)
  have hlen := (List.subperm_of_subset hnodup hsub).length_le
  rw [List.length_cons, List.length_range] at hlen
  omega

/-- `findRoom` over an explicit list of blocks. -/
def roomIn (m : ByteMem) (size : Nat) : List Nat → Except Trap Placement
  | [] => .error (.panic "out of memory")
  | block :: rest =>
      if Block.chunkSize m block = 0 then .error .divideError
      else
        let required := requiredChunks (Block.chunkSize m block) size
        if 32 < required then roomIn m size rest
        else
          match scanChunks m block required (Block.nChunks m block) 0 with
          | some (chunk, bit, mask) => .ok ⟨block, chunk, bit, required, mask⟩
          | none => roomIn m size rest

theorem findRoom_eq {m : ByteMem} {size fuel p : Nat} {bs : List Nat} (h : BlockChain m p bs)
    (enough : bs.length < fuel) : findRoom m size fuel p = roomIn m size bs := by
  induction bs generalizing fuel p with
  | nil =>
      obtain ⟨fuel, rfl⟩ : ∃ f, fuel = f + 1 := ⟨fuel - 1, by omega⟩
      change p = 0 at h
      simp only [findRoom, h, if_true, roomIn]
  | cons b bs ih =>
      obtain ⟨fuel, rfl⟩ : ∃ f, fuel = f + 1 := ⟨fuel - 1, by omega⟩
      obtain ⟨rfl, hb, hrest⟩ := h
      have hrec : findRoom m size fuel (Block.next m p) = roomIn m size bs :=
        ih hrest (by simpa only [List.length_cons, Nat.add_lt_add_iff_right] using enough)
      rw [findRoom, if_neg hb, hrec]
      rfl

/-- `findOwner` over an explicit list of blocks. -/
def ownerIn (m : ByteMem) (ptr : Nat) : List Nat → Except Trap Nat
  | [] => .error (.panic "could not find block for memory")
  | block :: rest => if ownsPtr m block ptr then .ok block else ownerIn m ptr rest

theorem findOwner_eq {m : ByteMem} {ptr fuel p : Nat} {bs : List Nat} (h : BlockChain m p bs)
    (enough : bs.length < fuel) : findOwner m ptr fuel p = ownerIn m ptr bs := by
  induction bs generalizing fuel p with
  | nil =>
      obtain ⟨fuel, rfl⟩ : ∃ f, fuel = f + 1 := ⟨fuel - 1, by omega⟩
      change p = 0 at h
      simp only [findOwner, h, if_true, ownerIn]
  | cons b bs ih =>
      obtain ⟨fuel, rfl⟩ : ∃ f, fuel = f + 1 := ⟨fuel - 1, by omega⟩
      obtain ⟨rfl, hb, hrest⟩ := h
      have hrec : findOwner m ptr fuel (Block.next m p) = ownerIn m ptr bs :=
        ih hrest (by simpa only [List.length_cons, Nat.add_lt_add_iff_right] using enough)
      simp only [findOwner, ownerIn, hb, if_false, hrec]

end BadOs
