import BadOs.Heap.Safety

/-!
# The search of `kmem_alloc` against exact arithmetic

A block has room when the exact number of chunks that the request needs is clear
in one of its bitmap words. `kmem_alloc` computes that number in 32 bits, tests
the words with a 32-bit mask and writes next to the bitmap. `SearchExact` says of
the state before the call when none of this makes a difference.
-/

namespace BadOs

/-! ## The number of chunks -/

/-- `ceil((size + 8) / chunkSize)` as an exact integer. -/
def needed (m : ByteMem) (size block : Nat) : Nat :=
  (size + sizeofAllocationHeader + Block.chunkSize m block - 1) / Block.chunkSize m block

/-- The number of chunks that `kmem_alloc` looks for. From `2 ^ 32` bytes on the
32-bit product is below the size, so the quotient is always increased, and it is
narrowed. -/
def sought (m : ByteMem) (size block : Nat) : Nat :=
  let bytes := wrap64 (size + sizeofAllocationHeader)
  if bytes < 2 ^ 32 then (bytes + Block.chunkSize m block - 1) / Block.chunkSize m block
  else wrap32 (bytes / Block.chunkSize m block + 1)

theorem requiredChunks_eq_sought (m : ByteMem) (size : Nat) {block : Nat}
    (hpos : 0 < Block.chunkSize m block) :
    requiredChunks (Block.chunkSize m block) (wrap64 (size + sizeofAllocationHeader)) =
      sought m size block := by
  unfold requiredChunks sought
  generalize wrap64 (size + sizeofAllocationHeader) = bytes
  have hcs : Block.chunkSize m block < 2 ^ 32 := (m.read (block + 20) 4).isLt
  revert hpos hcs
  generalize Block.chunkSize m block = c
  intro hpos hcs
  by_cases hsmall : bytes < 2 ^ 32
  · have hq : bytes / c ≤ bytes := Nat.div_le_self bytes c
    have hmul : c * (bytes / c) ≤ bytes := Nat.mul_div_le bytes c
    have hexact : c * (bytes / c) + bytes % c = bytes := Nat.div_add_mod bytes c
    simp only [hsmall, if_true, wrap32_of_lt (show bytes / c < 2 ^ 32 by omega),
      wrap32_of_lt (show c * (bytes / c) < 2 ^ 32 by omega)]
    split
    · next hlt =>
      have hc : c ≠ 1 := by
        rintro rfl
        simp only [Nat.div_one, Nat.one_mul, Nat.lt_irrefl] at hlt
      have hhalf : bytes / c ≤ bytes / 2 := Nat.div_le_div_left (by omega) (by decide)
      rw [wrap32_of_lt (by omega)]
      symm
      refine Nat.div_eq_of_lt_le ?_ ?_
      · rw [Nat.mul_comm, Nat.mul_add, Nat.mul_one]
        omega
      · have hr := Nat.mod_lt bytes hpos
        rw [Nat.mul_comm, Nat.mul_add, Nat.mul_add, Nat.mul_one]
        omega
    · next hge =>
      symm
      refine Nat.div_eq_of_lt_le ?_ ?_
      · rw [Nat.mul_comm]
        omega
      · rw [Nat.mul_comm, Nat.mul_add, Nat.mul_one]
        omega
  · have hprod : wrap32 (c * wrap32 (bytes / c)) < 2 ^ 32 := Nat.mod_lt _ (by decide)
    rw [if_pos (by omega), if_neg hsmall]
    unfold wrap32
    omega

/-! ## The block that the search takes -/

/-- The chunks that the request needs are clear in word `w` from bit `k` on. -/
def RoomAt (m : ByteMem) (size block w k : Nat) : Prop :=
  1 ≤ needed m size block ∧ needed m size block ≤ 32 ∧ w < Block.nChunks m block ∧
    k + needed m size block ≤ 32 ∧ Clear m block w k (needed m size block)

/-- What the loops of `kmem_alloc` test a block for. The mask for 32 chunks is
empty, so it fits into every word. -/
def Accepts (m : ByteMem) (size block : Nat) : Prop :=
  sought m size block ≤ 32 ∧ 0 < Block.nChunks m block ∧
    (sought m size block = 32 ∨ ∃ w k, w < Block.nChunks m block ∧
      k + sought m size block ≤ 32 ∧ Clear m block w k (sought m size block))

/-- The lowest clear run of `n` bits, as the scan reports it. -/
structure LowestRun (m : ByteMem) (block n w k : Nat) (mask : BitVec 32) : Prop where
  word_lt : w < Block.nChunks m block
  fits : k + n ≤ 32
  clear : Clear m block w k n
  mask_eq : mask = BitRun.run 32 n k
  least : ∀ w' k', k' + n ≤ 32 → Clear m block w' k' n → w < w' ∨ w = w' ∧ k ≤ k'

section Search

variable {m : ByteMem} {size b : Nat} {bs : List Nat}

theorem scanChunks_full (hpos : 0 < Block.nChunks m b) :
    scanChunks m b 32 (Block.nChunks m b) 0 = some (0, 0, 0) := by
  obtain ⟨n, hn⟩ : ∃ n, Block.nChunks m b = n + 1 := ⟨Block.nChunks m b - 1, by omega⟩
  have hzero : lowMask 32 = 0 := by decide
  have hfits : testBits (~~~Block.chunkMask m b 0) 0 = true := by
    simp only [testBits, beq_iff_eq]
    exact BitVec.zero_and
  simp only [hn, scanChunks, sizeofMask, hzero, scanBits, hfits, if_true]

/-- The search passes over a block that its loops do not accept. -/
theorem roomIn_rejects (hpos : 0 < Block.chunkSize m b) (rejects : ¬Accepts m size b) :
    roomIn m (wrap64 (size + sizeofAllocationHeader)) (b :: bs) =
      roomIn m (wrap64 (size + sizeofAllocationHeader)) bs := by
  simp only [roomIn, requiredChunks_eq_sought m size hpos, Nat.ne_of_gt hpos, if_false]
  split
  · rfl
  · next hle =>
    split
    · next w k mask hscan =>
      exfalso
      apply rejects
      rcases Nat.lt_or_eq_of_le (Nat.le_of_not_lt hle) with hlt | heq
      · obtain ⟨_, hw, hfit, _, hclear, _⟩ := scanChunks_some hlt hscan
        exact ⟨by omega, by omega, Or.inr ⟨w, k, by omega, hfit, hclear⟩⟩
      · cases hn : Block.nChunks m b with
        | zero =>
            rw [hn] at hscan
            cases hscan
        | succ n => exact ⟨by omega, by omega, Or.inl heq⟩
    · rfl

/-- The search ends at a block that its loops accept. -/
theorem roomIn_accepts (rest : List Nat) (hpos : 0 < Block.chunkSize m b)
    (accepts : Accepts m size b) :
    ∃ w k mask, roomIn m (wrap64 (size + sizeofAllocationHeader)) (b :: rest) =
        .ok ⟨b, w, k, sought m size b, mask⟩ ∧
      (sought m size b = 32 → w = 0 ∧ k = 0 ∧ mask = 0) ∧
      (sought m size b < 32 → LowestRun m b (sought m size b) w k mask) := by
  obtain ⟨hle, hchunks, hrun⟩ := accepts
  have hnot : ¬32 < sought m size b := Nat.not_lt.mpr hle
  simp only [roomIn, requiredChunks_eq_sought m size hpos, Nat.ne_of_gt hpos, if_false, hnot]
  rcases Nat.lt_or_eq_of_le hle with hlt | heq
  · split
    · next w k mask hscan =>
      obtain ⟨_, hw, hfit, hmask, hclear, hleast⟩ := scanChunks_some hlt hscan
      refine ⟨w, k, mask, rfl, fun heq => by omega, fun _ => ?_⟩
      exact ⟨by omega, hfit, hclear, hmask, fun w' k' => hleast w' k' (Nat.zero_le w')⟩
    · next hscan =>
      rcases hrun with heq | ⟨w, k, hw, hfit, hclear⟩
      · omega
      · exact absurd hclear (scanChunks_none hlt hscan w k (Nat.zero_le w) (by omega) hfit)
  · rw [heq, scanChunks_full hchunks]
    exact ⟨0, 0, 0, rfl, fun _ => ⟨rfl, rfl, rfl⟩, fun hlt => by omega⟩

theorem roomIn_append {before : List Nat} (hpos : ∀ a ∈ before, 0 < Block.chunkSize m a)
    (rejects : ∀ a ∈ before, ¬Accepts m size a) :
    roomIn m (wrap64 (size + sizeofAllocationHeader)) (before ++ bs) =
      roomIn m (wrap64 (size + sizeofAllocationHeader)) bs := by
  induction before with
  | nil => rfl
  | cons a before ih =>
      obtain ⟨ha, hbs⟩ := List.forall_mem_cons.mp hpos
      obtain ⟨hra, hrbs⟩ := List.forall_mem_cons.mp rejects
      rw [List.cons_append, roomIn_rejects ha hra]
      exact ih hbs hrbs

theorem roomIn_rejects_all (hpos : ∀ a ∈ bs, 0 < Block.chunkSize m a)
    (rejects : ∀ a ∈ bs, ¬Accepts m size a) :
    roomIn m (wrap64 (size + sizeofAllocationHeader)) bs = .error (.panic "out of memory") := by
  rw [← List.append_nil bs, roomIn_append hpos rejects]
  rfl

/-- Either the loops accept no block, or the search ends at the first one they accept. -/
theorem roomIn_cases (size : Nat) (hpos : ∀ a ∈ bs, 0 < Block.chunkSize m a) :
    ((∀ a ∈ bs, ¬Accepts m size a) ∧
      roomIn m (wrap64 (size + sizeofAllocationHeader)) bs = .error (.panic "out of memory")) ∨
    ∃ before c after w k mask, bs = before ++ c :: after ∧ (∀ a ∈ before, ¬Accepts m size a) ∧
      roomIn m (wrap64 (size + sizeofAllocationHeader)) bs =
        .ok ⟨c, w, k, sought m size c, mask⟩ ∧ sought m size c ≤ 32 ∧
      (sought m size c = 32 → w = 0 ∧ k = 0 ∧ mask = 0) ∧
      (sought m size c < 32 → LowestRun m c (sought m size c) w k mask) := by
  induction bs with
  | nil => exact Or.inl ⟨by simp, rfl⟩
  | cons a bs ih =>
      obtain ⟨ha, hbs⟩ := List.forall_mem_cons.mp hpos
      by_cases accepts : Accepts m size a
      · obtain ⟨w, k, mask, hroom, hfull, hrun⟩ := roomIn_accepts bs ha accepts
        exact Or.inr ⟨[], a, bs, w, k, mask, rfl, by simp, hroom, accepts.1, hfull, hrun⟩
      · rw [roomIn_rejects ha accepts]
        rcases ih hbs with
          ⟨hall, hroom⟩ | ⟨before, c, after, w, k, mask, rfl, hbefore, hroom, hrest⟩
        · exact Or.inl ⟨List.forall_mem_cons.mpr ⟨accepts, hall⟩, hroom⟩
        · exact Or.inr ⟨a :: before, c, after, w, k, mask, rfl,
            List.forall_mem_cons.mpr ⟨accepts, hbefore⟩, hroom, hrest⟩

end Search

/-! ## What the call is meant to do -/

/-- Block `b` is the first in list order with room; `w` and `k` are its lowest
word and in it the lowest bit. -/
structure FirstRoom (m : ByteMem) (size : Nat) (bs : List Nat) (b w k : Nat) : Prop where
  order : ∃ before after, bs = before ++ b :: after ∧ ∀ a ∈ before, ∀ w k, ¬RoomAt m size a w k
  room : RoomAt m size b w k
  least : ∀ w' k', RoomAt m size b w' k' → w < w' ∨ w = w' ∧ k ≤ k'

/-- Where the allocation that starts with chunk `32 * w + k` has its header. -/
def headerAddr (m : ByteMem) (b w k : Nat) : Nat :=
  wrap64 (kmemBlockStart m b + Block.chunkSize m b * (32 * w + k))

/-- Bit `i` of word `w'` of block `b'` is one of the `n` bits from `k` on in word `w`
of block `b`. -/
def InRun (b w k n b' w' i : Nat) : Prop := b' = b ∧ w' = w ∧ k ≤ i ∧ i < k + n

instance (b w k n b' w' i : Nat) : Decidable (InRun b w k n b' w' i) :=
  inferInstanceAs (Decidable (_ ∧ _))

/-- From `h` to `h'` the run of `n` bits is set and no other scanned bit changes. -/
def SetsExactly (h h' : Heap) (bs : List Nat) (b w k n : Nat) : Prop :=
  ∀ b' ∈ bs, ∀ w' < Block.nChunks h.mem b', ∀ i < 32,
    (Block.chunkMask h'.mem b' w').getLsbD i =
      ((Block.chunkMask h.mem b' w').getLsbD i || decide (InRun b w k n b' w' i))

/-- `kmem_alloc` takes the first room there is, and panics where there is none. -/
structure SearchRight (h : Heap) (bs : List Nat) (size : Nat) : Prop where
  found : ∀ b w k, FirstRoom h.mem size bs b w k → ∃ p ptr h',
    kmemFind h size = .ok p ∧ p.block = b ∧ p.chunk = w ∧ p.bit = k ∧
      kmemAlloc h size = .ok (ptr, h') ∧
      ptr = wrap64 (kmemBlockStart h.mem b + Block.chunkSize h.mem b * (32 * w + k) + 8) ∧
      SetsExactly h h' bs b w k (needed h.mem size b) ∧
      (h'.mem.read (headerAddr h.mem b w k) 4).toNat = needed h.mem size b ∧
      h'.currentObjects = h.currentObjects + 1
  full : (∀ b ∈ bs, ∀ w k, ¬RoomAt h.mem size b w k) →
    kmemAlloc h size = .error (.panic "out of memory")

/-! ## When it does -/

/-- The eight bytes of the allocation header, as one word. -/
def headerWord (h : Heap) (n : Nat) : BitVec 64 := h.sequence ++ BitVec.ofNat 32 n

/-- The bytes that the call stores change no scanned word but in the run: a header
bit that falls on a scanned word is the bit that belongs there, and no bit of the
run is also a bit of another scanned word. -/
def Harmless (h : Heap) (bs : List Nat) (b w k n : Nat) : Prop :=
  ∀ b' ∈ bs, ∀ w' < Block.nChunks h.mem b', ∀ i < 32,
    let x := Block.chunkMaskAddr b' w' + i / 8
    let header := headerAddr h.mem b w k
    let mask := Block.chunkMaskAddr b w
    if header ≤ x ∧ x < header + 8 then
      (headerWord h n).getLsbD (8 * (x - header) + i % 8) =
        ((Block.chunkMask h.mem b' w').getLsbD i || decide (InRun b w k n b' w' i))
    else mask ≤ x ∧ x < mask + 4 → k ≤ 8 * (x - mask) + i % 8 → 8 * (x - mask) + i % 8 < k + n →
      b' = b ∧ w' = w

/-- When the 32-bit search agrees with the exact one. -/
structure SearchExact (h : Heap) (bs : List Nat) (size : Nat) : Prop where
  passed : ∀ before b after, bs = before ++ b :: after →
    (∀ a ∈ before ++ [b], ∀ w k, ¬RoomAt h.mem size a w k) → ¬Accepts h.mem size b
  taken : ∀ b w k, FirstRoom h.mem size bs b w k →
    sought h.mem size b = needed h.mem size b ∧ needed h.mem size b ≠ 32 ∧
      2 ^ 30 ∣ Block.chunkSize h.mem b * (w / 2 ^ 29) ∧
      Harmless h bs b w k (needed h.mem size b)

/-! ## What `kmemTake` stores -/

/-- The 32-bit product before the offset loses nothing. -/
theorem takenAddr_eq_iff {m : ByteMem} {b w k : Nat} :
    wrap64 (kmemBlockStart m b + wrap64 (Block.chunkSize m b *
        wrap64 (wrap32 (w * 8) * sizeofMask + k))) = headerAddr m b w k ↔
      2 ^ 30 ∣ Block.chunkSize m b * (w / 2 ^ 29) := by
  have hlow : wrap32 (w * 8) * 4 + 2 ^ 34 * (w / 2 ^ 29) = 32 * w := by
    unfold wrap32
    omega
  have hsplit : Block.chunkSize m b * (32 * w + k) =
      Block.chunkSize m b * (wrap32 (w * 8) * 4 + k) +
        2 ^ 34 * (Block.chunkSize m b * (w / 2 ^ 29)) := by
    rw [← hlow]
    ring
  have hwrap : wrap64 (Block.chunkSize m b * wrap64 (wrap32 (w * 8) * 4 + k)) =
      wrap64 (Block.chunkSize m b * (wrap32 (w * 8) * 4 + k)) := Nat.mul_mod_mod _ _ _
  rw [headerAddr, hsplit, show sizeofMask = 4 from rfl, hwrap]
  unfold wrap64
  generalize Block.chunkSize m b * (wrap32 (w * 8) * 4 + k) = low
  generalize Block.chunkSize m b * (w / 2 ^ 29) = high
  omega

/-- The two words of the header, bit by bit. -/
theorem getLsbD_header (m : ByteMem) (h : Heap) (a n x j : Nat) (hx : a ≤ x ∧ x < a + 8)
    (hj : j < 8) :
    (((m.write a 4 (BitVec.ofNat 32 n)).write (a + 4) 4 h.sequence) x).getLsbD j =
      (headerWord h n).getLsbD (8 * (x - a) + j) := by
  unfold headerWord
  rw [BitVec.getLsbD_append]
  by_cases hlow : x < a + 4
  · have hbit : 8 * (x - a) + j < 32 := by omega
    rw [ByteMem.write_apply_of_not_mem (by omega), ByteMem.write_apply ⟨hx.1, hlow⟩,
      BitVec.getLsbD_extractLsb', if_pos hbit, decide_eq_true hj, Bool.true_and]
  · have hbit : ¬8 * (x - a) + j < 32 := by omega
    have hoff : 8 * (x - (a + 4)) + j = 8 * (x - a) + j - 32 := by omega
    rw [ByteMem.write_apply (by omega), BitVec.getLsbD_extractLsb', if_neg hbit,
      decide_eq_true hj, Bool.true_and, hoff]

/-- A bit of a byte of a bitmap word. -/
theorem getLsbD_chunkMask (m : ByteMem) {b w x j : Nat}
    (hx : Block.chunkMaskAddr b w ≤ x ∧ x < Block.chunkMaskAddr b w + 4) (hj : j < 8) :
    (Block.chunkMask m b w).getLsbD (8 * (x - Block.chunkMaskAddr b w) + j) = (m x).getLsbD j := by
  have hq : Block.chunkMaskAddr b w + (8 * (x - Block.chunkMaskAddr b w) + j) / 8 = x := by omega
  have hr : (8 * (x - Block.chunkMaskAddr b w) + j) % 8 = j := by omega
  rw [Block.chunkMask, ByteMem.getLsbD_read _ _ _ _ (by omega), hq, hr]

section Take

variable {h h' : Heap} {bs : List Nat} {b w k n : Nat}

/-- A bit of a scanned word after a run is marked and a header stored. -/
theorem kmemTake_bit {m : ByteMem} {required header : Nat} (hn : n < 32)
    (hm : m = ((h.mem.write (Block.chunkMaskAddr b w) 4
      (Block.chunkMask h.mem b w ||| BitRun.run 32 n k)).write header 4
        (BitVec.ofNat 32 required)).write (header + 4) 4 h.sequence) (b' w' : Nat) {i : Nat}
    (hi : i < 32) :
    (Block.chunkMask m b' w').getLsbD i =
      (let x := Block.chunkMaskAddr b' w' + i / 8
      let mask := Block.chunkMaskAddr b w
      if header ≤ x ∧ x < header + 8 then
        (headerWord h required).getLsbD (8 * (x - header) + i % 8)
      else (Block.chunkMask h.mem b' w').getLsbD i || decide (mask ≤ x ∧ x < mask + 4 ∧
        k ≤ 8 * (x - mask) + i % 8 ∧ 8 * (x - mask) + i % 8 < k + n)) := by
  have hbit : i % 8 < 8 := Nat.mod_lt i (by decide)
  have hread : ∀ m : ByteMem, (Block.chunkMask m b' w').getLsbD i =
      (m (Block.chunkMaskAddr b' w' + i / 8)).getLsbD (i % 8) := fun m =>
    ByteMem.getLsbD_read m _ 4 i (by omega)
  rw [hread, hread, hm]
  dsimp only
  generalize Block.chunkMaskAddr b' w' + i / 8 = x
  split
  · next hin => exact getLsbD_header _ h header required x _ hin hbit
  · next hout =>
    rw [ByteMem.write_apply_of_not_mem (by omega), ByteMem.write_apply_of_not_mem (by omega)]
    by_cases hmask : Block.chunkMaskAddr b w ≤ x ∧ x < Block.chunkMaskAddr b w + 4
    · have hlt : 8 * (x - Block.chunkMaskAddr b w) + i % 8 < 32 := by omega
      rw [ByteMem.write_apply hmask, BitVec.getLsbD_extractLsb', decide_eq_true hbit,
        Bool.true_and, BitRun.getLsbD_or_run hn, getLsbD_chunkMask h.mem hmask hbit]
      simp only [hmask, hlt, true_and]
    · rw [ByteMem.write_apply_of_not_mem (by omega), decide_eq_false (by tauto), Bool.or_false]

/-- Marking a clear run and storing the header sets exactly the run when the stored
bytes are harmless. -/
theorem setsExactly_iff (hn : n < 32) (clear : Clear h.mem b w k n)
    (hm : h'.mem = ((h.mem.write (Block.chunkMaskAddr b w) 4
      (Block.chunkMask h.mem b w ||| BitRun.run 32 n k)).write (headerAddr h.mem b w k) 4
        (BitVec.ofNat 32 n)).write (headerAddr h.mem b w k + 4) 4 h.sequence) :
    SetsExactly h h' bs b w k n ↔ Harmless h bs b w k n := by
  apply forall₂_congr
  intro b' _
  apply forall₂_congr
  intro w' _
  apply forall₂_congr
  intro i hi
  rw [kmemTake_bit hn hm b' w' hi]
  dsimp only
  split
  · exact Iff.rfl
  · constructor
    · intro hset hx hlo hhi
      -- The position belongs to both words, and the run was clear.
      have hold : (Block.chunkMask h.mem b' w').getLsbD i = false := by
        rw [← clear _ hlo hhi, getLsbD_chunkMask h.mem hx (Nat.mod_lt i (by decide))]
        exact ByteMem.getLsbD_read h.mem _ 4 i (by omega)
      rw [hold, Bool.false_or, Bool.false_or, decide_eq_decide] at hset
      obtain ⟨hb, hw, _⟩ := hset.mp ⟨hx.1, hx.2, hlo, hhi⟩
      exact ⟨hb, hw⟩
    · intro hother
      congr 1
      rw [decide_eq_decide]
      constructor
      · rintro ⟨hlo, hhi, hk, hkn⟩
        obtain ⟨rfl, rfl⟩ := hother ⟨hlo, hhi⟩ hk hkn
        exact ⟨rfl, rfl, by omega, by omega⟩
      · rintro ⟨rfl, rfl, hk, hkn⟩
        exact ⟨by omega, by omega, by omega, by omega⟩

/-- The mask does not lie on the block's own structure. -/
theorem block_write_mask (m : ByteMem) (b : Nat) {w : Nat} (hw : w < 2 ^ 32) (v : BitVec 32) :
    ByteMem.AgreeOn b sizeofBlock m (m.write (Block.chunkMaskAddr b w) 4 v) := by
  intro x hlo hhi
  simp only [Block.chunkMaskAddr, sizeofBlock, sizeofMask, wrap64] at hhi ⊢
  rw [ByteMem.write_apply_of_not_mem (by omega)]

/-- The result of `kmemTake` where the product of the offset loses nothing. -/
theorem kmemTake_eq {p : Placement} (hw : p.chunk < 2 ^ 32)
    (exact : 2 ^ 30 ∣ Block.chunkSize h.mem p.block * (p.chunk / 2 ^ 29)) :
    kmemTake h p = (wrap64 (headerAddr h.mem p.block p.chunk p.bit + 8),
      { h with
        mem := ((h.mem.write (Block.chunkMaskAddr p.block p.chunk) 4
          (Block.chunkMask h.mem p.block p.chunk ||| p.mask)).write
            (headerAddr h.mem p.block p.chunk p.bit) 4 (BitVec.ofNat 32 p.required)).write
              (headerAddr h.mem p.block p.chunk p.bit + 4) 4 h.sequence
        sequence := h.sequence + 1
        currentObjects := h.currentObjects + 1 }) := by
  have same := block_write_mask h.mem p.block hw (Block.chunkMask h.mem p.block p.chunk ||| p.mask)
  rw [← takenAddr_eq_iff.mpr exact, kmemTake, kmemBlockStart_congr same, Block.chunkSize_congr same]

/-- The pointer is the exact one only where the product of the offset loses nothing. -/
theorem kmemTake_ptr {p : Placement} (hw : p.chunk < 2 ^ 32)
    (hptr : (kmemTake h p).1 = wrap64 (kmemBlockStart h.mem p.block +
      Block.chunkSize h.mem p.block * (32 * p.chunk + p.bit) + 8)) :
    2 ^ 30 ∣ Block.chunkSize h.mem p.block * (p.chunk / 2 ^ 29) := by
  have same := block_write_mask h.mem p.block hw (Block.chunkMask h.mem p.block p.chunk ||| p.mask)
  rw [← takenAddr_eq_iff (k := p.bit), headerAddr]
  rw [kmemTake, kmemBlockStart_congr same, Block.chunkSize_congr same] at hptr
  simp only [wrap64, sizeofAllocationHeader] at hptr ⊢
  omega

end Take

/-! ## The exact condition -/

section Exact

variable {h : Heap} {bs : List Nat} {size : Nat}

theorem BlockChain.kmemFind_eq (chain : BlockChain h.mem h.block bs) (hblock : h.block < 2 ^ 64)
    (size : Nat) :
    kmemFind h size = roomIn h.mem (wrap64 (size + sizeofAllocationHeader)) bs :=
  findRoom_eq chain (chain.length_lt hblock)

theorem kmemAlloc_of_find {p : Placement} (hfind : kmemFind h size = .ok p) :
    kmemAlloc h size = .ok (kmemTake h p) := by
  rw [kmemAlloc, hfind]
  rfl

/-- A block with room is accepted if the code looks for the exact number of chunks. -/
theorem RoomAt.accepts {m : ByteMem} {b w k : Nat} (room : RoomAt m size b w k)
    (count : sought m size b = needed m size b) : Accepts m size b := by
  obtain ⟨_, hle, hw, hfit, hclear⟩ := room
  rw [← count] at hle hfit hclear
  exact ⟨hle, by omega, Or.inr ⟨w, k, hw, hfit, hclear⟩⟩

/-- Under the condition no block is taken for one with room. -/
theorem SearchExact.rejects (exact : SearchExact h bs size) {before after : List Nat}
    (hbs : bs = before ++ after) (noRoom : ∀ a ∈ before, ∀ w k, ¬RoomAt h.mem size a w k) :
    ∀ a ∈ before, ¬Accepts h.mem size a := by
  intro a ha
  obtain ⟨front, back, rfl⟩ := List.append_of_mem ha
  apply exact.passed front a (back ++ after)
  · rw [hbs, List.append_assoc, List.cons_append]
  · intro c hc w k
    apply noRoom
    rcases List.mem_append.mp hc with hfront | hlast
    · exact List.mem_append_left _ hfront
    · rw [List.mem_singleton.mp hlast]
      exact List.mem_append_right _ List.mem_cons_self

theorem FirstRoom.mem {m : ByteMem} {b w k : Nat} (first : FirstRoom m size bs b w k) : b ∈ bs := by
  obtain ⟨before, after, rfl, _⟩ := first.order
  exact List.mem_append_right before List.mem_cons_self

theorem FirstRoom.word_lt {m : ByteMem} {b w k : Nat} (first : FirstRoom m size bs b w k) :
    w < 2 ^ 32 := by
  obtain ⟨_, _, hw, _⟩ := first.room
  have hn : Block.nChunks m b < 2 ^ 32 := (m.read (b + 16) 4).isLt
  omega

/-- Under the condition the search ends at the first room. -/
theorem SearchExact.kmemFind_eq (exact : SearchExact h bs size)
    (chain : BlockChain h.mem h.block bs) (hblock : h.block < 2 ^ 64)
    (hpos : ∀ b ∈ bs, 0 < Block.chunkSize h.mem b) {b w k : Nat}
    (first : FirstRoom h.mem size bs b w k) :
    kmemFind h size = .ok ⟨b, w, k, needed h.mem size b,
      BitRun.run 32 (needed h.mem size b) k⟩ := by
  obtain ⟨before, after, hbs, noRoom⟩ := first.order
  obtain ⟨count, hne, _, _⟩ := exact.taken b w k first
  obtain ⟨hone, hle, hw, hfit, hclear⟩ := first.room
  have hmem := first.mem
  obtain ⟨w₁, k₁, mask, hroom, _, hrun⟩ :=
    roomIn_accepts after (hpos b hmem) (first.room.accepts count)
  rw [count] at hrun hroom
  obtain ⟨hw₁, hfit₁, hclear₁, hmask, hleast⟩ := hrun (by omega)
  have hthere := first.least w₁ k₁ ⟨hone, hle, hw₁, hfit₁, hclear₁⟩
  have hhere := hleast w k hfit hclear
  have hword : w₁ = w := by omega
  have hbit : k₁ = k := by omega
  rw [chain.kmemFind_eq hblock, hbs, roomIn_append, hroom, hword, hmask, hbit]
  · intro a ha
    exact hpos a (hbs ▸ List.mem_append_left _ ha)
  · exact exact.rejects hbs noRoom

theorem SearchExact.right (exact : SearchExact h bs size) (chain : BlockChain h.mem h.block bs)
    (hblock : h.block < 2 ^ 64) (hpos : ∀ b ∈ bs, 0 < Block.chunkSize h.mem b) :
    SearchRight h bs size := by
  constructor
  · intro b w k first
    have hfind := exact.kmemFind_eq chain hblock hpos first
    obtain ⟨_, hne, product, harmless⟩ := exact.taken b w k first
    obtain ⟨hone, hle, hw, hfit, hclear⟩ := first.room
    have htake := kmemTake_eq (p := ⟨b, w, k, needed h.mem size b,
      BitRun.run 32 (needed h.mem size b) k⟩) first.word_lt product
    refine ⟨_, _, _, hfind, rfl, rfl, rfl, (kmemAlloc_of_find hfind).trans
      (congrArg Except.ok htake), ?_, ?_, ?_, rfl⟩
    · rw [headerAddr]
      simp only [wrap64]
      omega
    · exact (setsExactly_iff (by omega) hclear rfl).mpr harmless
    · dsimp only
      rw [ByteMem.read_write_of_disjoint (by omega), ByteMem.read_write_self, BitVec.toNat_ofNat]
      omega
  · intro noRoom
    have hreject := exact.rejects (List.append_nil bs).symm noRoom
    rw [kmemAlloc, chain.kmemFind_eq hblock, roomIn_rejects_all hpos hreject]
    rfl

/-- Where there is room, there is a first room. -/
theorem exists_firstRoom {m : ByteMem} {b w k : Nat} (hb : b ∈ bs) (room : RoomAt m size b w k) :
    ∃ b w k, FirstRoom m size bs b w k := by
  classical
  obtain ⟨before, c, after, hbs, ⟨⟨w₁, k₁, room₁⟩, hbefore⟩⟩ :
      ∃ before c after, bs = before ++ c :: after ∧ (∃ w k, RoomAt m size c w k) ∧
        ∀ a ∈ before, ∀ w k, ¬RoomAt m size a w k := by
    induction bs with
    | nil => cases hb
    | cons a bs ih =>
        by_cases ha : ∃ w k, RoomAt m size a w k
        · exact ⟨[], a, bs, rfl, ha, by simp⟩
        · rcases List.mem_cons.mp hb with rfl | hmem
          · exact absurd ⟨w, k, room⟩ ha
          · obtain ⟨before, c, after, rfl, hc, hbefore⟩ := ih hmem
            exact ⟨a :: before, c, after, rfl, hc, List.forall_mem_cons.mpr
              ⟨fun w k hroom => ha ⟨w, k, hroom⟩, hbefore⟩⟩
  have hword : ∃ w k, RoomAt m size c w k := ⟨w₁, k₁, room₁⟩
  have hbit : ∃ k, RoomAt m size c (Nat.find hword) k := Nat.find_spec hword
  refine ⟨c, Nat.find hword, Nat.find hbit, ⟨before, after, hbs, hbefore⟩, Nat.find_spec hbit, ?_⟩
  intro w' k' room'
  rcases Nat.lt_or_eq_of_le (Nat.find_min' hword ⟨k', room'⟩) with hlt | heq
  · exact Or.inl hlt
  · exact Or.inr ⟨heq, Nat.find_min' hbit (heq ▸ room')⟩

/-- What the search found if the call did what it is meant to do. -/
theorem SearchRight.find (right : SearchRight h bs size) (chain : BlockChain h.mem h.block bs)
    (hblock : h.block < 2 ^ 64) (hpos : ∀ b ∈ bs, 0 < Block.chunkSize h.mem b) {b w k : Nat}
    (first : FirstRoom h.mem size bs b w k) :
    ∃ before after mask, bs = before ++ b :: after ∧ (∀ a ∈ before, ¬Accepts h.mem size a) ∧
      kmemFind h size = .ok ⟨b, w, k, sought h.mem size b, mask⟩ ∧ sought h.mem size b ≤ 32 ∧
      (sought h.mem size b = 32 → w = 0 ∧ k = 0 ∧ mask = 0) ∧
      (sought h.mem size b < 32 → mask = BitRun.run 32 (sought h.mem size b) k) := by
  obtain ⟨p, ptr, h', hfind, rfl, rfl, rfl, _⟩ := right.found b w k first
  rcases roomIn_cases size hpos with
    ⟨_, hroom⟩ | ⟨before, c, after, w₁, k₁, mask, hbs, hbefore, hroom, hle, hfull, hrun⟩
  · rw [chain.kmemFind_eq hblock, hroom] at hfind
    cases hfind
  · have hfind₁ := hfind
    rw [chain.kmemFind_eq hblock, hroom] at hfind₁
    cases hfind₁
    exact ⟨before, after, mask, hbs, hbefore, hfind, hle, hfull, fun hlt => (hrun hlt).mask_eq⟩

/-- What the call then stored. -/
theorem SearchRight.take (right : SearchRight h bs size) {b w k n : Nat} {mask : BitVec 32}
    (first : FirstRoom h.mem size bs b w k) (hfind : kmemFind h size = .ok ⟨b, w, k, n, mask⟩) :
    2 ^ 30 ∣ Block.chunkSize h.mem b * (w / 2 ^ 29) ∧
      SetsExactly h (kmemTake h ⟨b, w, k, n, mask⟩).2 bs b w k (needed h.mem size b) ∧
      ((kmemTake h ⟨b, w, k, n, mask⟩).2.mem.read (headerAddr h.mem b w k) 4).toNat =
        needed h.mem size b := by
  obtain ⟨_, ptr, h', _, _, _, _, halloc, hptr, hset, hheader, _⟩ := right.found b w k first
  have hresult := Except.ok.inj ((kmemAlloc_of_find hfind).symm.trans halloc)
  rw [hresult]
  refine ⟨kmemTake_ptr (p := ⟨b, w, k, n, mask⟩) first.word_lt ?_, hset, hheader⟩
  rw [hresult]
  exact hptr

/-- The empty mask for 32 chunks marks nothing: the first bit of the block stays clear. -/
theorem not_setsExactly_full {b : Nat} (hb : b ∈ bs) (hpos : 0 < Block.nChunks h.mem b)
    (clear : Clear h.mem b 0 0 32) :
    ¬SetsExactly h (kmemTake h ⟨b, 0, 0, 32, 0⟩).2 bs b 0 0 32 := by
  intro hset
  have hbit := hset b hb 0 hpos 0 (by decide)
  have hempty : (0 : BitVec 32) = BitRun.run 32 0 0 := by decide
  rw [kmemTake_eq (Nat.two_pow_pos 32) (by simp), kmemTake_bit (n := 0) (by decide)
    (by rw [← hempty])
    b 0 (by decide), clear 0 (by decide) (by decide)] at hbit
  -- The chunks start behind the first bitmap word's first byte.
  obtain ⟨d, hd, hd', hstart⟩ :=
    align8_eq (wrap64 (b + sizeofBlock + Block.nChunks h.mem b / sizeofMask))
  have hn : Block.nChunks h.mem b < 2 ^ 32 := (h.mem.read (b + 16) 4).isLt
  have hout : ¬(headerAddr h.mem b 0 0 ≤ Block.chunkMaskAddr b 0 + 0 / 8 ∧
      Block.chunkMaskAddr b 0 + 0 / 8 < headerAddr h.mem b 0 0 + 8) := by
    change kmemBlockStart h.mem b = _ at hstart
    rw [headerAddr, hstart]
    simp only [Block.chunkMaskAddr, sizeofBlock, sizeofMask, wrap64]
    omega
  simp only [hout, if_false, InRun] at hbit
  simp at hbit

/-- Of two elements of a list the one that is not at or in front of the other is behind it. -/
theorem mem_of_append_cons_eq {before after front back : List Nat} {b c : Nat}
    (h : before ++ b :: after = front ++ c :: back) (hc : c ∉ before ++ [b]) : b ∈ front := by
  rcases List.append_eq_append_iff.mp h with ⟨middle, hfront, hrest⟩ | ⟨middle, hbefore, hrest⟩
  · cases middle with
    | nil =>
        cases hrest
        exact absurd (List.mem_append_right _ List.mem_cons_self) hc
    | cons d middle =>
        cases hrest
        exact hfront ▸ List.mem_append_right _ List.mem_cons_self
  · cases middle with
    | nil =>
        cases hrest
        exact absurd (List.mem_append_right _ List.mem_cons_self) hc
    | cons d middle =>
        cases hrest
        have hmem : c ∈ before := hbefore ▸ List.mem_append_right _ List.mem_cons_self
        exact absurd (List.mem_append_left _ hmem) hc

/-- The search passes every block without room. -/
theorem SearchRight.passed (right : SearchRight h bs size) (chain : BlockChain h.mem h.block bs)
    (hblock : h.block < 2 ^ 64) (hpos : ∀ b ∈ bs, 0 < Block.chunkSize h.mem b)
    {before after : List Nat} {b : Nat} (hbs : bs = before ++ b :: after)
    (noRoom : ∀ a ∈ before ++ [b], ∀ w k, ¬RoomAt h.mem size a w k) :
    ¬Accepts h.mem size b := by
  intro accepts
  by_cases room : ∃ a ∈ bs, ∃ w k, RoomAt h.mem size a w k
  · obtain ⟨a, ha, w, k, hroom⟩ := room
    obtain ⟨c, w₁, k₁, first⟩ := exists_firstRoom ha hroom
    obtain ⟨front, back, mask, hbs', hfront, _⟩ := right.find chain hblock hpos first
    have hc : c ∉ before ++ [b] := fun hmem => noRoom c hmem w₁ k₁ first.room
    -- The block with room lies behind `b`, so the search would not have come to it.
    exact hfront b (mem_of_append_cons_eq (hbs.symm.trans hbs') hc) accepts
  · have hb : b ∈ bs := hbs ▸ List.mem_append_right before List.mem_cons_self
    have hfull := right.full fun a ha w k hroom => room ⟨a, ha, w, k, hroom⟩
    rcases roomIn_cases size hpos with
      ⟨hall, _⟩ | ⟨_, c, _, w, k, mask, _, _, hroom, _⟩
    · exact hall b hb accepts
    · rw [kmemAlloc_of_find ((chain.kmemFind_eq hblock size).trans hroom)] at hfull
      cases hfull

/-- At the first room the 32-bit arithmetic was exact. -/
theorem SearchRight.taken (right : SearchRight h bs size) (chain : BlockChain h.mem h.block bs)
    (hblock : h.block < 2 ^ 64) (hpos : ∀ b ∈ bs, 0 < Block.chunkSize h.mem b) {b w k : Nat}
    (first : FirstRoom h.mem size bs b w k) :
    sought h.mem size b = needed h.mem size b ∧ needed h.mem size b ≠ 32 ∧
      2 ^ 30 ∣ Block.chunkSize h.mem b * (w / 2 ^ 29) ∧
      Harmless h bs b w k (needed h.mem size b) := by
  obtain ⟨_, _, mask, _, _, hfind, hle, hzero, hrun⟩ := right.find chain hblock hpos first
  obtain ⟨product, hset, hheader⟩ := right.take first hfind
  obtain ⟨_, hle', hw, _, hclear⟩ := first.room
  have htake := kmemTake_eq (p := ⟨b, w, k, sought h.mem size b, mask⟩) first.word_lt product
  have count : sought h.mem size b = needed h.mem size b := by
    rw [← hheader, htake]
    dsimp only
    rw [ByteMem.read_write_of_disjoint (by omega), ByteMem.read_write_self, BitVec.toNat_ofNat]
    omega
  have hne : needed h.mem size b ≠ 32 := by
    intro hfull
    obtain ⟨rfl, rfl, rfl⟩ := hzero (count.trans hfull)
    rw [count, hfull] at hset
    rw [hfull] at hclear
    exact not_setsExactly_full first.mem hw hclear hset
  refine ⟨count, hne, product, ?_⟩
  rw [count] at htake hset hrun
  refine (setsExactly_iff (by omega) hclear ?_).mp hset
  rw [htake, hrun (by omega)]

theorem SearchRight.exact (right : SearchRight h bs size) (chain : BlockChain h.mem h.block bs)
    (hblock : h.block < 2 ^ 64) (hpos : ∀ b ∈ bs, 0 < Block.chunkSize h.mem b) :
    SearchExact h bs size where
  passed _ _ _ hbs noRoom := right.passed chain hblock hpos hbs noRoom
  taken _ _ _ first := right.taken chain hblock hpos first

/-- `kmem_alloc` finds the first room exactly when its 32-bit search is exact. -/
theorem kmem_alloc_search_iff (chain : BlockChain h.mem h.block bs) (hblock : h.block < 2 ^ 64)
    (hpos : ∀ b ∈ bs, 0 < Block.chunkSize h.mem b) (size : Nat) :
    SearchRight h bs size ↔ SearchExact h bs size :=
  ⟨fun right => right.exact chain hblock hpos, fun exact => exact.right chain hblock hpos⟩

end Exact

/-- A heap with one block of 200 chunks of 128 bytes. -/
theorem oneBlock_chain : ∃ h, addBlocks (kmemInit emptyHeap) [⟨0x1000, 25624, 128⟩] = .ok h ∧
    BlockChain h.mem h.block [0x1000] ∧ h.block < 2 ^ 64 ∧
    Block.chunkSize h.mem 0x1000 = 128 ∧ Block.nChunks h.mem 0x1000 = 200 ∧
    Block.chunkMask h.mem 0x1000 0 = 0 := by
  have hrun : (addBlocks (kmemInit emptyHeap) [⟨0x1000, 25624, 128⟩]).holds (fun h =>
      decide (h.block = 0x1000 ∧ Block.next h.mem 0x1000 = 0 ∧
        Block.chunkSize h.mem 0x1000 = 128 ∧ Block.nChunks h.mem 0x1000 = 200 ∧
        Block.chunkMask h.mem 0x1000 0 = 0)) = true := by
    decide +kernel
  obtain ⟨h, hadd, hh⟩ := Except.exists_of_holds hrun
  obtain ⟨hblock, hnext, hrest⟩ := of_decide_eq_true hh
  exact ⟨h, hadd, ⟨hblock, by decide, hnext⟩, by rw [hblock]; decide, hrest⟩

/-- There is one first room. -/
theorem FirstRoom.unique {m : ByteMem} {size b w k b' w' k' : Nat} {bs : List Nat}
    (h : FirstRoom m size bs b w k) (h' : FirstRoom m size bs b' w' k') :
    b = b' ∧ w = w' ∧ k = k' := by
  obtain ⟨before, after, hbs, hnone⟩ := h.order
  obtain ⟨before', after', hbs', hnone'⟩ := h'.order
  have hb : b = b' := by
    obtain ⟨t, ht, hrest⟩ | ⟨t, ht, hrest⟩ := List.append_eq_append_iff.mp (hbs.symm.trans hbs')
    · cases t with
      | nil => exact (List.cons.inj hrest).1
      | cons a t =>
          obtain ⟨rfl, _⟩ := List.cons.inj hrest
          exact absurd h.room (hnone' b (ht ▸ List.mem_append_right _ List.mem_cons_self) w k)
    · cases t with
      | nil => exact (List.cons.inj hrest).1.symm
      | cons a t =>
          obtain ⟨rfl, _⟩ := List.cons.inj hrest
          exact absurd h'.room (hnone b' (ht ▸ List.mem_append_right _ List.mem_cons_self) w' k')
  subst hb
  have hle := h.least w' k' h'.room
  have hle' := h'.least w k h.room
  omega

/-- Two blocks with one object in the second; the chunks of the first are too small for it. -/
structure TwoBlocks (h : Heap) : Prop where
  chain : BlockChain h.mem h.block [0x3000, 0x1000]
  block_lt : h.block < 2 ^ 64
  size : Block.chunkSize h.mem 0x3000 = 2
  size' : Block.chunkSize h.mem 0x1000 = 128
  chunks : Block.nChunks h.mem 0x3000 = 4
  chunks' : Block.nChunks h.mem 0x1000 = 4
  mask : Block.chunkMask h.mem 0x1000 0 = 1

theorem exists_twoBlocks : ∃ h ptr h', addBlocks (kmemInit emptyHeap)
      [⟨0x1000, 536, 128⟩, ⟨0x3000, 32, 2⟩] = .ok h ∧ kmemAlloc h 100 = .ok (ptr, h') ∧
    TwoBlocks h' := by
  have hrun : (addBlocks (kmemInit emptyHeap) [⟨0x1000, 536, 128⟩, ⟨0x3000, 32, 2⟩]).holds (fun h =>
      (kmemAlloc h 100).holds fun a => decide (a.2.block = 0x3000 ∧
        (Block.next a.2.mem 0x3000 = 0x1000 ∧ Block.next a.2.mem 0x1000 = 0) ∧
        (Block.chunkSize a.2.mem 0x3000 = 2 ∧ Block.chunkSize a.2.mem 0x1000 = 128) ∧
        (Block.nChunks a.2.mem 0x3000 = 4 ∧ Block.nChunks a.2.mem 0x1000 = 4) ∧
        Block.chunkMask a.2.mem 0x1000 0 = 1)) = true := by
    decide +kernel
  obtain ⟨h, hadd, hrun⟩ := Except.exists_of_holds hrun
  obtain ⟨⟨ptr, h'⟩, halloc, hrun⟩ := Except.exists_of_holds hrun
  obtain ⟨hblock, ⟨hnext, hnext'⟩, ⟨hsize, hsize'⟩, ⟨hchunks, hchunks'⟩, hmask⟩ :=
    of_decide_eq_true hrun
  refine ⟨h, ptr, h', hadd, halloc, ⟨hblock, by decide, hnext, by decide, hnext'⟩, ?_, hsize,
    hsize', hchunks, hchunks', hmask⟩
  rw [show h'.block = 0x3000 from hblock]
  decide

namespace TwoBlocks

variable {h : Heap}

theorem needed_eq (two : TwoBlocks h) :
    needed h.mem 100 0x3000 = 54 ∧ needed h.mem 100 0x1000 = 1 := by
  constructor
  · rw [needed, two.size]
    rfl
  · rw [needed, two.size']
    rfl

theorem first (two : TwoBlocks h) : FirstRoom h.mem 100 [0x3000, 0x1000] 0x1000 0 1 := by
  obtain ⟨hneed, hneed'⟩ := two.needed_eq
  have hnone (w k : Nat) : ¬RoomAt h.mem 100 0x3000 w k := by
    intro room
    have hle := room.2.1
    omega
  have hroom : RoomAt h.mem 100 0x1000 0 1 := by
    rw [RoomAt, hneed', two.chunks']
    refine ⟨by decide, by decide, by decide, by decide, fun i hlo hhi => ?_⟩
    obtain rfl : i = 1 := by omega
    rw [two.mask]
    rfl
  have hused (room : RoomAt h.mem 100 0x1000 0 0) : False := by
    have hclear := room.2.2.2.2 0 (Nat.le_refl 0) (by omega)
    rw [two.mask] at hclear
    cases hclear
  refine ⟨⟨[0x3000], [], rfl, by simpa using hnone⟩, hroom, fun w k room => ?_⟩
  obtain rfl | hw := Nat.eq_zero_or_pos w
  · obtain rfl | hk := Nat.eq_zero_or_pos k
    · exact (hused room).elim
    · exact .inr ⟨rfl, hk⟩
  · exact .inl hw

theorem harmless (two : TwoBlocks h) : Harmless h [0x3000, 0x1000] 0x1000 0 1 1 := by
  have hheader : headerAddr h.mem 0x1000 0 1 = 0x10a0 := by
    rw [headerAddr, kmemBlockStart, two.chunks', two.size']
    decide
  intro b' hb' w' hw' i hi
  obtain rfl | rfl : b' = 0x3000 ∨ b' = 0x1000 := by simpa using hb'
  · rw [two.chunks] at hw'
    simp only [hheader, Block.chunkMaskAddr, wrap64, sizeofBlock, sizeofMask]
    rw [if_neg (by omega)]
    rintro ⟨hlo, hhi⟩ - -
    omega
  · rw [two.chunks'] at hw'
    simp only [hheader, Block.chunkMaskAddr, wrap64, sizeofBlock, sizeofMask]
    rw [if_neg (by omega)]
    rintro ⟨hlo, hhi⟩ - -
    exact ⟨trivial, by omega⟩

theorem exact (two : TwoBlocks h) : SearchExact h [0x3000, 0x1000] 100 := by
  have first := two.first
  obtain ⟨_, hneed'⟩ := two.needed_eq
  refine ⟨fun before b after hbs hno accepts => ?_, fun b w k room => ?_⟩
  · have hb : b ∈ [0x3000, 0x1000] := hbs ▸ List.mem_append_right before List.mem_cons_self
    obtain rfl | rfl : b = 0x3000 ∨ b = 0x1000 := by simpa using hb
    · have hle := accepts.1
      rw [sought, two.size] at hle
      exact absurd hle (by decide)
    · exact hno 0x1000 (List.mem_append_right before List.mem_cons_self) 0 1 first.room
  · obtain ⟨rfl, rfl, rfl⟩ := first.unique room
    refine ⟨?_, ?_, ?_, ?_⟩
    · rw [sought, hneed', two.size']
      rfl
    · rw [hneed']
      decide
    · rw [two.size']
      decide
    · rw [hneed']
      exact two.harmless

end TwoBlocks

/-- The next object of the same size gets the second chunk of the second block. -/
theorem kmem_alloc_search_twoBlocks : ∃ h ptr h', addBlocks (kmemInit emptyHeap)
      [⟨0x1000, 536, 128⟩, ⟨0x3000, 32, 2⟩] = .ok h ∧ kmemAlloc h 100 = .ok (ptr, h') ∧
    SearchExact h' [0x3000, 0x1000] 100 ∧ SearchRight h' [0x3000, 0x1000] 100 ∧
    FirstRoom h'.mem 100 [0x3000, 0x1000] 0x1000 0 1 := by
  obtain ⟨h, ptr, h', hadd, halloc, two⟩ := exists_twoBlocks
  have hpos : ∀ b ∈ [0x3000, 0x1000], 0 < Block.chunkSize h'.mem b := by
    simp [two.size, two.size']
  exact ⟨h, ptr, h', hadd, halloc, two.exact,
    (kmem_alloc_search_iff two.chain two.block_lt hpos 100).mpr two.exact, two.first⟩

/-- A request of 32 chunks finds a clear word but does not mark it. -/
theorem kmem_alloc_search_full : ¬∀ (h h' : Heap) (rs : List Region) (size : Nat),
    (∀ r ∈ rs, r.Valid) → rs.Pairwise Region.Disjoint → size < 2 ^ 64 →
      addBlocks (kmemInit h) rs = .ok h' → SearchRight h' (rs.reverse.map Region.start) size := by
  intro claim
  obtain ⟨h, hadd, chain, hblock, hsize, hchunks, hmask⟩ := oneBlock_chain
  have right : SearchRight h [0x1000] 4088 :=
    claim emptyHeap h _ 4088 (by decide) (by decide) (by decide) hadd
  have hneed : needed h.mem 4088 0x1000 = 32 := by
    rw [needed, hsize]
    rfl
  have hclear : Clear h.mem 0x1000 0 0 32 := by
    intro i _ _
    rw [hmask]
    exact BitVec.getLsbD_zero
  have first : FirstRoom h.mem 4088 [0x1000] 0x1000 0 0 := by
    refine ⟨⟨[], [], rfl, by simp⟩, ?_, fun w' k' _ => by omega⟩
    rw [RoomAt, hneed, hchunks]
    exact ⟨by decide, by decide, by decide, by decide, hclear⟩
  have exact := right.exact chain hblock (by
    intro b hb
    rw [List.mem_singleton.mp hb, hsize]
    decide)
  exact (exact.taken _ _ _ first).2.1 hneed

end BadOs
