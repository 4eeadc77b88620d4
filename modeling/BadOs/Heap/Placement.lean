import BadOs.Heap.Layout

/-!
# Where allocations lie

An `Allocation` records what one call of `kmem_alloc` was asked for and where its
search placed the result. `Placed` is the geometry of a well-placed allocation
and `Marked` what memory says about it; both are kept by writes elsewhere.
-/

namespace BadOs

/-- The result `ptr` of `kmem_alloc(size)`, with the chunks that it occupies. -/
structure Allocation where
  ptr : Nat
  size : Nat
  block : Nat
  word : Nat
  bit : Nat
  chunks : Nat
  deriving DecidableEq

namespace Allocation

/-- The number of the first chunk, counted through all bitmap words of the block. -/
def chunk (a : Allocation) : Nat := 32 * a.word + a.bit

/-- The header and the requested bytes of the two allocations do not overlap. -/
def Disjoint (a a' : Allocation) : Prop :=
  a.ptr + a.size ≤ a'.ptr - sizeofAllocationHeader ∨
    a'.ptr + a'.size ≤ a.ptr - sizeofAllocationHeader

instance (a a' : Allocation) : Decidable (a.Disjoint a') := inferInstanceAs (Decidable (_ ∨ _))

/-- The two allocations share no bit of any bitmap. -/
def Apart (a a' : Allocation) : Prop :=
  a.block = a'.block → a.word = a'.word → a.bit + a.chunks ≤ a'.bit ∨ a'.bit + a'.chunks ≤ a.bit

theorem Apart.symm {a a' : Allocation} (h : a.Apart a') : a'.Apart a :=
  fun hb hw => (h hb.symm hw.symm).symm

instance : Std.Symm Apart := ⟨fun _ _ h => h.symm⟩

end Allocation

/-- The bitmap word of the run lies before the chunks, and the run inside the region. -/
structure Placed (m : ByteMem) (rs : List Region) (a : Allocation) : Prop where
  region : ∃ r ∈ rs, r.start = a.block ∧
    kmemBlockStart m a.block + Block.chunkSize m a.block * (a.chunk + a.chunks) ≤
      r.start + r.size
  chunks_lt : a.chunks < 32
  run_fits : a.bit + a.chunks ≤ 32
  bitmap : a.block + sizeofBlock + sizeofMask * (a.word + 1) ≤ kmemBlockStart m a.block
  covers : a.size + sizeofAllocationHeader ≤ Block.chunkSize m a.block * a.chunks
  ptr_eq : a.ptr = kmemBlockStart m a.block + Block.chunkSize m a.block * a.chunk +
    sizeofAllocationHeader

/-- The allocation header and the bitmap know the allocation. -/
structure Marked (m : ByteMem) (a : Allocation) : Prop where
  header : (m.read (a.ptr - sizeofAllocationHeader) 4).toNat = a.chunks
  bits : ∀ i, a.bit ≤ i → i < a.bit + a.chunks →
    (Block.chunkMask m a.block a.word).getLsbD i = true

/-- The inequalities between the addresses of a placed allocation. -/
structure Bounds (m : ByteMem) (rs : List Region) (a : Allocation) (r : Region) : Prop where
  mem : r ∈ rs
  start_eq : r.start = a.block
  maskAddr_eq : Block.chunkMaskAddr a.block a.word = a.block + 24 + 4 * a.word
  mask_lt : a.block + 24 + 4 * a.word + 4 ≤ kmemBlockStart m a.block
  start_le : kmemBlockStart m a.block + 8 ≤ a.ptr
  covers : a.ptr + a.size ≤ a.ptr - 8 + Block.chunkSize m a.block * a.chunks
  inside : a.ptr - 8 + Block.chunkSize m a.block * a.chunks ≤ r.start + r.size
  word_lt : a.word < 2 ^ 29

theorem Bounds.blockStart_le {m : ByteMem} {rs : List Region} {a : Allocation} {r : Region}
    (b : Bounds m rs a r) : kmemBlockStart m r.start ≤ r.start + r.size := by
  have hstart := b.start_le
  have hcov := b.covers
  have hend := b.inside
  rw [b.start_eq] at hend ⊢
  omega

namespace Placed

variable {m m' : ByteMem} {p : Nat} {rs : List Region} {a a' : Allocation}

theorem chunks_pos (h : Placed m rs a) : 0 < a.chunks := by
  rcases Nat.eq_zero_or_pos a.chunks with hzero | hpos
  · have hcov := h.covers
    rw [hzero] at hcov
    simp only [sizeofAllocationHeader, Nat.mul_zero] at hcov
    omega
  · exact hpos

theorem bounds (h : Placed m rs a) (formed : Formed m p rs) : ∃ r, Bounds m rs a r := by
  obtain ⟨r, hr, hstart, hend⟩ := h.region
  obtain ⟨hv, hv', hv''⟩ := formed.valid r hr
  have hmap := h.bitmap
  have hcov := h.covers
  have hptr := h.ptr_eq
  rw [Nat.mul_add] at hend
  simp only [sizeofBlock, sizeofMask, sizeofAllocationHeader] at hv' hmap hcov hptr
  have hword : a.word < 2 ^ 29 := by
    have hblock := kmemBlockStart_bounds (m := m) (b := a.block)
      (by simp only [sizeofBlock]; omega) (by simp only [sizeofBlock]; omega)
    have hn : Block.nChunks m a.block < 2 ^ 32 := (m.read (a.block + 16) 4).isLt
    omega
  refine ⟨r, hr, hstart, ?_, by omega, by omega, by omega, by omega, hword⟩
  exact wrap64_of_lt (by simp only [sizeofBlock, sizeofMask]; omega)

theorem congr (h : Placed m rs a) (same : ByteMem.AgreeOn a.block sizeofBlock m m') :
    Placed m' rs a where
  region := by
    rw [kmemBlockStart_congr same, Block.chunkSize_congr same]
    exact h.region
  chunks_lt := h.chunks_lt
  run_fits := h.run_fits
  bitmap := by rw [kmemBlockStart_congr same]; exact h.bitmap
  covers := by rw [Block.chunkSize_congr same]; exact h.covers
  ptr_eq := by rw [kmemBlockStart_congr same, Block.chunkSize_congr same]; exact h.ptr_eq

/-- Runs that share no bit occupy disjoint chunks of the block. -/
theorem chunks_disjoint (h : Placed m rs a) (h' : Placed m rs a') (apart : a.Apart a')
    (hblock : a.block = a'.block) :
    a.chunk + a.chunks ≤ a'.chunk ∨ a'.chunk + a'.chunks ≤ a.chunk := by
  have hfit := h.run_fits
  have hfit' := h'.run_fits
  simp only [Allocation.chunk]
  by_cases hword : a.word = a'.word
  · rcases apart hblock hword with hlt | hlt
    · exact Or.inl (by omega)
    · exact Or.inr (by omega)
  · omega

/-- Allocations that share no bit share no chunk, whatever blocks they are in. -/
theorem separate (formed : Formed m p rs) (h : Placed m rs a) (h' : Placed m rs a')
    (apart : a.Apart a') :
    a.ptr - 8 + Block.chunkSize m a.block * a.chunks ≤ a'.ptr - 8 ∨
      a'.ptr - 8 + Block.chunkSize m a'.block * a'.chunks ≤ a.ptr - 8 := by
  obtain ⟨r, b⟩ := h.bounds formed
  obtain ⟨r', b'⟩ := h'.bounds formed
  rcases formed.disjoint_or_eq b.mem b'.mem with same | disjoint
  · have hblock : a.block = a'.block := by rw [← b.start_eq, ← b'.start_eq, same]
    have hptr := h.ptr_eq
    have hptr' := h'.ptr_eq
    rw [← hblock] at hptr' ⊢
    simp only [sizeofAllocationHeader] at hptr hptr'
    rcases chunks_disjoint h h' apart hblock with hlt | hlt
    · have hmul := Nat.mul_le_mul_left (Block.chunkSize m a.block) hlt
      rw [Nat.mul_add] at hmul
      exact Or.inl (by omega)
    · have hmul := Nat.mul_le_mul_left (Block.chunkSize m a.block) hlt
      rw [Nat.mul_add] at hmul
      exact Or.inr (by omega)
  · have := b.start_eq
    have := b'.start_eq
    have := b.start_le
    have := b'.start_le
    have := b.mask_lt
    have := b'.mask_lt
    have := b.inside
    have := b'.inside
    simp only [Region.Disjoint] at disjoint
    omega

theorem disjoint (formed : Formed m p rs) (h : Placed m rs a) (h' : Placed m rs a')
    (apart : a.Apart a') : a.Disjoint a' := by
  obtain ⟨r, b⟩ := h.bounds formed
  obtain ⟨r', b'⟩ := h'.bounds formed
  have hcov := b.covers
  have hcov' := b'.covers
  have := b.start_le
  have := b'.start_le
  rcases separate formed h h' apart with hlt | hlt
  · exact Or.inl (by simp only [sizeofAllocationHeader]; omega)
  · exact Or.inr (by simp only [sizeofAllocationHeader]; omega)

end Placed

/-! ## The two kinds of writes and what they leave alone -/

/-- Word `w` of the bitmap lies before the chunks and inside the region. -/
def BitmapWord (m : ByteMem) (r : Region) (w : Nat) : Prop :=
  r.start + sizeofBlock + sizeofMask * (w + 1) ≤ kmemBlockStart m r.start ∧
    r.start + sizeofBlock + sizeofMask * (w + 1) ≤ r.start + r.size

instance (m : ByteMem) (r : Region) (w : Nat) : Decidable (BitmapWord m r w) :=
  inferInstanceAs (Decidable (_ ∧ _))

theorem BitmapWord.congr {m m' : ByteMem} {r : Region} {w : Nat} (h : BitmapWord m r w)
    (same : ByteMem.AgreeOn r.start sizeofBlock m m') : BitmapWord m' r w := by
  rw [BitmapWord, kmemBlockStart_congr same]
  exact h

theorem Bounds.bitmapWord {m : ByteMem} {rs : List Region} {a : Allocation} {r : Region}
    (b : Bounds m rs a r) {w : Nat}
    (hmap : a.block + sizeofBlock + sizeofMask * (w + 1) ≤ kmemBlockStart m a.block) :
    BitmapWord m r w := by
  rw [← b.start_eq] at hmap
  exact ⟨hmap, hmap.trans b.blockStart_le⟩

/-- What lies in front of the chunks of a block is not in the header of an allocation. -/
theorem Bounds.outside_header {m : ByteMem} {p : Nat} {rs : List Region} {a : Allocation}
    {r₀ r : Region} (b : Bounds m rs a r₀) (formed : Formed m p rs) (hr : r ∈ rs) {x : Nat}
    (hlo : r.start ≤ x) (hend : x < r.start + r.size)
    (hblock : r.start = a.block → x < kmemBlockStart m a.block) : x < a.ptr - 8 ∨ a.ptr ≤ x := by
  have hstart := b.start_eq
  have hlow := b.start_le
  have hbit := b.mask_lt
  have hcov := b.covers
  have hstop := b.inside
  rcases formed.disjoint_or_eq hr b.mem with same | disjoint
  · have hx := hblock (same ▸ hstart)
    omega
  · simp only [Region.Disjoint] at disjoint
    omega

/-- `m'` differs from `m` at most in the bitmap word `w` of region `r`. -/
structure MaskWrite (m m' : ByteMem) (rs : List Region) (r : Region) (w : Nat) : Prop where
  mem : r ∈ rs
  bitmap : BitmapWord m r w
  only : ∀ x, x < r.start + 24 + 4 * w ∨ r.start + 24 + 4 * w + 4 ≤ x → m' x = m x

/-- `m'` differs from `m` at most in the header of the allocation `a`. -/
def HeaderWrite (m m' : ByteMem) (a : Allocation) : Prop :=
  ∀ x, x < a.ptr - 8 ∨ a.ptr ≤ x → m' x = m x

/-- The address of a bitmap word does not wrap around. -/
theorem chunkMaskAddr_eq {m : ByteMem} {p : Nat} {rs : List Region} {r : Region} {w : Nat}
    (formed : Formed m p rs) (hr : r ∈ rs) (bitmap : BitmapWord m r w) :
    Block.chunkMaskAddr r.start w = r.start + 24 + 4 * w := by
  obtain ⟨_, _, hstop⟩ := formed.valid r hr
  simp only [BitmapWord, sizeofBlock, sizeofMask] at bitmap
  exact wrap64_of_lt (by simp only [sizeofBlock, sizeofMask]; omega)

namespace MaskWrite

variable {m m' : ByteMem} {p : Nat} {rs : List Region} {a : Allocation} {r r' : Region} {w : Nat}

/-- Storing a bitmap word that lies before the chunks. -/
theorem of_write (formed : Formed m p rs) (hr : r ∈ rs) (bitmap : BitmapWord m r w)
    (v : BitVec 32) :
    MaskWrite m (m.write (Block.chunkMaskAddr r.start w) 4 v) rs r w where
  mem := hr
  bitmap := bitmap
  only x hx := ByteMem.write_apply_of_not_mem
    (by rw [chunkMaskAddr_eq formed hr bitmap]; omega)

/-- No `Block` structure is touched. -/
theorem block (h : MaskWrite m m' rs r w) (formed : Formed m p rs) (hr : r' ∈ rs) :
    ByteMem.AgreeOn r'.start sizeofBlock m m' := by
  obtain ⟨_, hroom, _⟩ := formed.valid r' hr
  obtain ⟨hmap, hend⟩ := h.bitmap
  simp only [sizeofBlock, sizeofMask] at hroom hmap hend
  intro x hlo hhi
  simp only [sizeofBlock] at hhi
  refine (h.only x ?_).symm
  rcases formed.disjoint_or_eq hr h.mem with same | disjoint
  · rw [same] at hhi
    omega
  · simp only [Region.Disjoint] at disjoint
    omega

theorem formed (h : MaskWrite m m' rs r w) (formed : Formed m p rs) : Formed m' p rs :=
  formed.congr fun _ hr => h.block formed hr

theorem placed (h : MaskWrite m m' rs r w) (formed : Formed m p rs) (placed : Placed m rs a) :
    Placed m' rs a := by
  obtain ⟨r', hr', hstart, _⟩ := placed.region
  exact placed.congr (hstart ▸ h.block formed hr')

/-- Every other bitmap word keeps its value. -/
theorem chunkMask (h : MaskWrite m m' rs r w) (formed : Formed m p rs) (hr : r' ∈ rs) {w' : Nat}
    (bitmap : BitmapWord m r' w') (other : r'.start = r.start → w' ≠ w) :
    Block.chunkMask m' r'.start w' = Block.chunkMask m r'.start w' := by
  obtain ⟨hmap, hend⟩ := h.bitmap
  unfold Block.chunkMask
  rw [chunkMaskAddr_eq formed hr bitmap]
  simp only [BitmapWord, sizeofBlock, sizeofMask] at hmap hend bitmap
  apply ByteMem.read_congr
  intro x hlo hhi
  refine h.only x ?_
  rcases formed.disjoint_or_eq hr h.mem with same | disjoint
  · have := other (congrArg Region.start same)
    rw [same] at hlo hhi
    omega
  · simp only [Region.Disjoint] at disjoint
    omega

/-- Every allocation header keeps its value. -/
theorem header (h : MaskWrite m m' rs r w) (formed : Formed m p rs) (placed : Placed m rs a) :
    m'.read (a.ptr - sizeofAllocationHeader) 4 = m.read (a.ptr - sizeofAllocationHeader) 4 := by
  obtain ⟨r', b⟩ := placed.bounds formed
  obtain ⟨hmap, hend⟩ := h.bitmap
  have hlow := b.start_le
  simp only [sizeofBlock, sizeofMask] at hmap hend
  apply ByteMem.read_congr
  intro x hlo hhi
  simp only [sizeofAllocationHeader] at hlo hhi
  refine h.only x ?_
  by_contra hin
  have hout := b.outside_header formed h.mem (x := x) (by omega) (by omega)
    fun heq => by rw [← heq]; omega
  omega

end MaskWrite

namespace HeaderWrite

variable {m m' : ByteMem} {p : Nat} {rs : List Region} {a a' : Allocation} {r : Region} {w : Nat}

/-- No `Block` structure is touched. -/
theorem block (h : HeaderWrite m m' a) (formed : Formed m p rs) (placed : Placed m rs a)
    (hr : r ∈ rs) : ByteMem.AgreeOn r.start sizeofBlock m m' := by
  obtain ⟨r₀, b⟩ := placed.bounds formed
  obtain ⟨_, hroom, _⟩ := formed.valid r hr
  have hbit := b.mask_lt
  simp only [sizeofBlock] at hroom
  intro x hlo hhi
  simp only [sizeofBlock] at hhi
  exact (h x (b.outside_header formed hr hlo (by omega) fun heq => by omega)).symm

/-- Every bitmap word keeps its value. -/
theorem chunkMask (h : HeaderWrite m m' a) (formed : Formed m p rs) (placed : Placed m rs a)
    (hr : r ∈ rs) (bitmap : BitmapWord m r w) :
    Block.chunkMask m' r.start w = Block.chunkMask m r.start w := by
  obtain ⟨r₀, b⟩ := placed.bounds formed
  obtain ⟨hmap, hend⟩ := id bitmap
  unfold Block.chunkMask
  rw [chunkMaskAddr_eq formed hr bitmap]
  simp only [sizeofBlock, sizeofMask] at hmap hend
  apply ByteMem.read_congr
  intro x hlo hhi
  exact h x (b.outside_header formed hr (by omega) (by omega) fun heq => by rw [← heq]; omega)

/-- The header of an allocation elsewhere keeps its value. -/
theorem header (h : HeaderWrite m m' a) (formed : Formed m p rs) (placed : Placed m rs a)
    (placed' : Placed m rs a') (apart : a.Apart a') :
    m'.read (a'.ptr - sizeofAllocationHeader) 4 = m.read (a'.ptr - sizeofAllocationHeader) 4 := by
  obtain ⟨r, b⟩ := placed.bounds formed
  obtain ⟨r', b'⟩ := placed'.bounds formed
  have hsep := Placed.separate formed placed placed' apart
  have hlow := b.start_le
  have hcov := b.covers
  have hlow' := b'.start_le
  have hcov' := b'.covers
  apply ByteMem.read_congr
  intro x hlo hhi
  simp only [sizeofAllocationHeader] at hlo hhi
  exact h x (by omega)

end HeaderWrite

end BadOs
