import Mathlib.Data.List.Pairwise
import BadOs.Heap.Search

/-!
# The layout of the blocks

`Formed m p rs` says that the block list from `p` consists of exactly the blocks
that `kmem_add_block` built over the disjoint regions `rs`. It depends only on
the 24 bytes of each `Block` structure, so every write elsewhere keeps it.
-/

namespace BadOs

/-- A memory region as it is handed to `kmem_add_block`. -/
structure Region where
  start : Nat
  size : Nat
  chunkSize : Nat
  deriving DecidableEq

namespace Region

def Disjoint (r r' : Region) : Prop := r.start + r.size ≤ r'.start ∨ r'.start + r'.size ≤ r.start

/-- A region lies in the address space, away from the null pointer, and has room
for the `Block` structure. -/
def Valid (r : Region) : Prop :=
  0 < r.start ∧ sizeofBlock ≤ r.size ∧ r.start + r.size < 2 ^ 64

theorem Disjoint.symm {r r' : Region} (h : r.Disjoint r') : r'.Disjoint r := Or.symm h

instance : Std.Symm Region.Disjoint := ⟨fun _ _ h => h.symm⟩

instance (r r' : Region) : Decidable (r.Disjoint r') := inferInstanceAs (Decidable (_ ∨ _))

instance (r : Region) : Decidable r.Valid := inferInstanceAs (Decidable (_ ∧ _))

end Region

/-! ## The start of the chunks -/

/-- `align8` moves a pointer up by at least one byte and less than two words. -/
theorem align8_eq (p : Nat) : ∃ d, 1 ≤ d ∧ d ≤ 15 ∧ align8 p = (p + d) % 2 ^ 64 := by
  let t := (BitVec.ofNat 64 p).toInt.tmod 8
  have hhi : t < 8 := Int.tmod_lt_of_pos _ (by decide)
  have hlo : -8 < t := Int.lt_tmod_of_pos _ (by decide)
  have hsum : (p : Int) + 8 - t = ((p + (8 - t).toNat : Nat) : Int) := by omega
  refine ⟨(8 - t).toNat, by omega, by omega, ?_⟩
  change (((p : Int) + 8 - t) % 2 ^ 64).toNat = _
  rw [hsum]
  omega

/-- Once the chunks are known to start behind the `Block` structure, nothing
wrapped around on the way there. -/
theorem kmemBlockStart_bounds {m : ByteMem} {b : Nat} (hb : b + sizeofBlock ≤ 2 ^ 64)
    (h : b + sizeofBlock ≤ kmemBlockStart m b) :
    b + 24 + Block.nChunks m b / 4 < kmemBlockStart m b ∧
      kmemBlockStart m b ≤ b + 24 + Block.nChunks m b / 4 + 15 := by
  obtain ⟨d, hd, hd', heq⟩ := align8_eq (wrap64 (b + sizeofBlock + Block.nChunks m b / sizeofMask))
  have hn : Block.nChunks m b < 2 ^ 32 := (m.read (b + 16) 4).isLt
  change kmemBlockStart m b = _ at heq
  simp only [wrap64, sizeofBlock, sizeofMask] at heq hb h
  omega

/-! ## Blocks depend on their own bytes only -/

section Congr

variable {m m' : ByteMem} {b : Nat}

theorem Block.next_congr (h : ByteMem.AgreeOn b sizeofBlock m m') :
    Block.next m' b = Block.next m b := by
  unfold Block.next
  rw [ByteMem.read_congr fun x hlo hhi => (h x hlo (by simp only [sizeofBlock]; omega)).symm]

theorem Block.size_congr (h : ByteMem.AgreeOn b sizeofBlock m m') :
    Block.size m' b = Block.size m b := by
  unfold Block.size
  rw [ByteMem.read_congr fun x hlo hhi => (h x (by omega) (by simp only [sizeofBlock]; omega)).symm]

theorem Block.nChunks_congr (h : ByteMem.AgreeOn b sizeofBlock m m') :
    Block.nChunks m' b = Block.nChunks m b := by
  unfold Block.nChunks
  rw [ByteMem.read_congr fun x hlo hhi => (h x (by omega) (by simp only [sizeofBlock]; omega)).symm]

theorem Block.chunkSize_congr (h : ByteMem.AgreeOn b sizeofBlock m m') :
    Block.chunkSize m' b = Block.chunkSize m b := by
  unfold Block.chunkSize
  rw [ByteMem.read_congr fun x hlo hhi => (h x (by omega) (by simp only [sizeofBlock]; omega)).symm]

theorem kmemBlockStart_congr (h : ByteMem.AgreeOn b sizeofBlock m m') :
    kmemBlockStart m' b = kmemBlockStart m b := by
  unfold kmemBlockStart
  rw [Block.nChunks_congr h]

end Congr

/-! ## Well-formed block lists -/

/-- The block list from `p` is what `kmem_add_block` made of the regions `rs`. -/
structure Formed (m : ByteMem) (p : Nat) (rs : List Region) : Prop where
  chain : BlockChain m p (rs.map Region.start)
  valid : ∀ r ∈ rs, r.Valid
  disjoint : rs.Pairwise Region.Disjoint
  size_eq : ∀ r ∈ rs, Block.size m r.start = r.size - sizeofBlock
  chunkSize_pos : ∀ r ∈ rs, 0 < Block.chunkSize m r.start
  chunks_le : ∀ r ∈ rs,
    Block.nChunks m r.start * Block.chunkSize m r.start ≤ r.size - sizeofBlock
  chunks_mod : ∀ r ∈ rs, Block.nChunks m r.start % sizeofMask = 0

namespace Formed

variable {m m' : ByteMem} {p : Nat} {rs : List Region}

theorem congr (h : Formed m p rs) (same : ∀ r ∈ rs, ByteMem.AgreeOn r.start sizeofBlock m m') :
    Formed m' p rs where
  chain := h.chain.congr fun b hb => by
    obtain ⟨r, hr, rfl⟩ := List.mem_map.mp hb
    exact Block.next_congr (same r hr)
  valid := h.valid
  disjoint := h.disjoint
  size_eq r hr := by rw [Block.size_congr (same r hr), h.size_eq r hr]
  chunkSize_pos r hr := by rw [Block.chunkSize_congr (same r hr)]; exact h.chunkSize_pos r hr
  chunks_le r hr := by
    rw [Block.chunkSize_congr (same r hr), Block.nChunks_congr (same r hr)]
    exact h.chunks_le r hr
  chunks_mod r hr := by rw [Block.nChunks_congr (same r hr)]; exact h.chunks_mod r hr

/-- Two different regions of the list are disjoint; equal starts mean equal regions. -/
theorem disjoint_or_eq (h : Formed m p rs) {r r' : Region} (hr : r ∈ rs) (hr' : r' ∈ rs) :
    r = r' ∨ r.Disjoint r' := by
  by_cases heq : r = r'
  · exact Or.inl heq
  · exact Or.inr (h.disjoint.forall hr hr' heq)

theorem eq_of_start_eq (h : Formed m p rs) {r r' : Region} (hr : r ∈ rs) (hr' : r' ∈ rs)
    (heq : r.start = r'.start) : r = r' := by
  rcases h.disjoint_or_eq hr hr' with same | disjoint
  · exact same
  · have hv := h.valid r hr
    have hv' := h.valid r' hr'
    simp only [Region.Disjoint, Region.Valid, sizeofBlock] at disjoint hv hv'
    omega

theorem length_lt (h : Formed m p rs) : (rs.map Region.start).length < 2 ^ 64 := by
  cases rs with
  | nil => decide
  | cons r rs =>
      have hv := h.valid r List.mem_cons_self
      have hp : p = r.start := h.chain.1
      simp only [Region.Valid, sizeofBlock] at hv
      exact h.chain.length_lt (by omega)

theorem kmemFind_eq {h : Heap} (formed : Formed h.mem h.block rs) (size : Nat) :
    kmemFind h size = roomIn h.mem (wrap64 (size + sizeofAllocationHeader)) (rs.map Region.start) :=
  findRoom_eq formed.chain formed.length_lt

theorem findOwner_eq_ownerIn {h : Heap} (formed : Formed h.mem h.block rs) (ptr : Nat) :
    findOwner h.mem ptr (2 ^ 64) h.block = ownerIn h.mem ptr (rs.map Region.start) :=
  findOwner_eq formed.chain formed.length_lt

end Formed

/-! ## `kmem_add_block` -/

/-- The fields of a new block, and what the call left alone. -/
theorem kmemAddBlock_spec {h h' : Heap} {start size chunkSize : Nat}
    (hadd : kmemAddBlock h start size chunkSize = .ok h') :
    h'.block = start ∧ Block.next h'.mem start = h.block % 2 ^ 64 ∧
      Block.size h'.mem start = (size + 2 ^ 64 - sizeofBlock) % 2 ^ 64 ∧
      0 < Block.chunkSize h'.mem start ∧
      Block.nChunks h'.mem start =
        Block.size h'.mem start / Block.chunkSize h'.mem start % 2 ^ 32 / 4 * 4 ∧
      ∀ x, x < start ∨ start + sizeofBlock + Block.nChunks h'.mem start ≤ x →
        h'.mem x = h.mem x := by
  simp only [kmemAddBlock] at hadd
  split at hadd
  · cases hadd
  · next hpos =>
    cases hadd
    refine ⟨rfl, ?_, ?_, ?_, ?_, ?_⟩
    · simp (disch := omega) only [sizeofBlock, Block.next, ByteMem.read_fill_of_disjoint,
        ByteMem.read_write_of_disjoint, ByteMem.read_write_self, BitVec.toNat_ofNat]
    · simp (disch := omega) only [sizeofBlock, Block.size, ByteMem.read_fill_of_disjoint,
        ByteMem.read_write_of_disjoint, ByteMem.read_write_self, BitVec.toNat_ofNat]
    · simp (disch := omega) only [sizeofBlock, Block.chunkSize, ByteMem.read_fill_of_disjoint,
        ByteMem.read_write_of_disjoint, ByteMem.read_write_self] at hpos ⊢
      exact Nat.pos_of_ne_zero hpos
    · simp (disch := omega) only [sizeofBlock, Block.nChunks, Block.size, Block.chunkSize,
        ByteMem.read_fill_of_disjoint, ByteMem.read_write_of_disjoint, ByteMem.read_write_self,
        BitVec.toNat_ofNat, sizeofMask]
      omega
    · intro x hx
      simp (disch := omega) only [sizeofBlock, Block.nChunks, ByteMem.read_fill_of_disjoint,
        ByteMem.read_write_self] at hx
      dsimp only
      rw [ByteMem.fill_apply_of_not_mem (by
        simp only [sizeofBlock, Block.nChunks, ByteMem.read_write_self]; omega)]
      rw [ByteMem.write_apply_of_not_mem (by omega), ByteMem.write_apply_of_not_mem (by omega),
        ByteMem.write_apply_of_not_mem (by omega), ByteMem.write_apply_of_not_mem (by omega),
        ByteMem.write_apply_of_not_mem (by omega)]

/-- Adding a block over a fresh region extends the list at its head. -/
theorem kmemAddBlock_formed {h h' : Heap} {r : Region} {rs : List Region}
    (formed : Formed h.mem h.block rs) (hvalid : r.Valid) (fresh : ∀ r' ∈ rs, r.Disjoint r')
    (hadd : kmemAddBlock h r.start r.size r.chunkSize = .ok h') :
    Formed h'.mem h'.block (r :: rs) := by
  obtain ⟨hblock, hnext, hsize, hpos, hchunks, hframe⟩ := kmemAddBlock_spec hadd
  obtain ⟨hstart, hroom, hend⟩ := hvalid
  have hsize' : Block.size h'.mem r.start = r.size - sizeofBlock := by
    rw [hsize]
    simp only [sizeofBlock] at hroom ⊢
    omega
  have hhead : h.block < 2 ^ 64 := by
    have hchain := formed.chain
    cases rs with
    | nil => exact hchain ▸ (by decide)
    | cons r' rs' =>
        have hv := formed.valid r' List.mem_cons_self
        simp only [Region.Valid, sizeofBlock] at hv
        have := hchain.1
        omega
  have hle : Block.nChunks h'.mem r.start ≤
      Block.size h'.mem r.start / Block.chunkSize h'.mem r.start := by
    rw [hchunks]
    have := Nat.mod_le (Block.size h'.mem r.start / Block.chunkSize h'.mem r.start) (2 ^ 32)
    omega
  have hbytes : Block.nChunks h'.mem r.start * Block.chunkSize h'.mem r.start ≤
      r.size - sizeofBlock := by
    rw [← hsize']
    exact (Nat.mul_le_mul_right _ hle).trans (Nat.div_mul_le_self _ _)
  have hbitmap : Block.nChunks h'.mem r.start ≤ r.size - sizeofBlock :=
    (Nat.le_mul_of_pos_right _ hpos).trans hbytes
  have old : Formed h'.mem h.block rs := formed.congr fun r' hr' x hlo hhi => by
    have hd := fresh r' hr'
    have hv := formed.valid r' hr'
    simp only [Region.Disjoint, Region.Valid, sizeofBlock] at hd hv hhi hroom hbitmap
    refine (hframe x ?_).symm
    simp only [sizeofBlock]
    omega
  refine ⟨⟨hblock, by omega, ?_⟩, ?_, ?_, ?_, ?_, ?_, ?_⟩
  · rw [hnext, Nat.mod_eq_of_lt hhead]
    exact old.chain
  · exact List.forall_mem_cons.mpr ⟨⟨hstart, hroom, hend⟩, old.valid⟩
  · exact List.pairwise_cons.mpr ⟨fresh, old.disjoint⟩
  · exact List.forall_mem_cons.mpr ⟨hsize', old.size_eq⟩
  · exact List.forall_mem_cons.mpr ⟨hpos, old.chunkSize_pos⟩
  · exact List.forall_mem_cons.mpr ⟨hbytes, old.chunks_le⟩
  · refine List.forall_mem_cons.mpr ⟨?_, old.chunks_mod⟩
    rw [hchunks]
    simp only [sizeofMask]
    omega

/-- `kmem_add_block` for each region in turn. -/
def addBlocks : Heap → List Region → Except Trap Heap :=
  Transition.exec fun h r => kmemAddBlock h r.start r.size r.chunkSize

theorem addBlocks_formed {rs added : List Region} {h h' : Heap}
    (formed : Formed h.mem h.block added) (hvalid : ∀ r ∈ rs, r.Valid)
    (fresh : ∀ r ∈ rs, ∀ r' ∈ added, r.Disjoint r') (disjoint : rs.Pairwise Region.Disjoint)
    (hadd : addBlocks h rs = .ok h') : Formed h'.mem h'.block (rs.reverse ++ added) := by
  induction rs generalizing h added with
  | nil => cases hadd; exact formed
  | cons r rs ih =>
      obtain ⟨middle, hfirst, hrest⟩ := Except.bind_eq_ok.mp hadd
      obtain ⟨hr, hpairs⟩ := List.pairwise_cons.mp disjoint
      have next := kmemAddBlock_formed formed (hvalid r List.mem_cons_self)
        (fresh r List.mem_cons_self) hfirst
      have result := ih next (fun r' hr' => hvalid r' (List.mem_cons_of_mem r hr'))
        (fun r' hr' => List.forall_mem_cons.mpr
          ⟨(hr r' hr').symm, fresh r' (List.mem_cons_of_mem r hr')⟩) hpairs hrest
      simpa only [List.reverse_cons, List.append_assoc, List.singleton_append] using result

theorem kmemInit_formed (h : Heap) : Formed (kmemInit h).mem (kmemInit h).block [] where
  chain := rfl
  valid := by simp
  disjoint := .nil
  size_eq := by simp
  chunkSize_pos := by simp
  chunks_le := by simp
  chunks_mod := by simp

end BadOs
