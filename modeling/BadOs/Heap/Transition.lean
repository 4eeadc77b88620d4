import BadOs.Heap.Placement

/-!
# One call of `kmem_alloc`, one call of `kmem_free`

The conditions under which the two functions do what they are meant to do are
stated on the state before the call. Under them the result of `kmem_alloc` is a
placed allocation whose run was clear, and `kmem_free` clears exactly that run.
-/

namespace BadOs

/-! ## Allocation -/

/-- `n` clear bits from `k` on in a word `w` that lies before the chunks, standing
for chunks that lie inside the region. -/
def Fits (m : ByteMem) (r : Region) (n w k : Nat) : Prop :=
  w < Block.nChunks m r.start ∧ k + n ≤ 32 ∧ Clear m r.start w k n ∧
    r.start + sizeofBlock + sizeofMask * (w + 1) ≤ kmemBlockStart m r.start ∧
    kmemBlockStart m r.start + Block.chunkSize m r.start * (32 * w + k + n) ≤ r.start + r.size

instance (m : ByteMem) (r : Region) (n w k : Nat) : Decidable (Fits m r n w k) :=
  inferInstanceAs (Decidable (_ ∧ _))

instance (m : ByteMem) (r : Region) (n : Nat) : Decidable (∃ w k, Fits m r n w k) :=
  decidable_of_iff (∃ w < Block.nChunks m r.start, ∃ k < 33, Fits m r n w k)
    ⟨fun ⟨w, _, k, _, h⟩ => ⟨w, k, h⟩, fun ⟨w, k, h⟩ => ⟨w, h.1, k, by have := h.2.1; omega, h⟩⟩

/-- The number of chunks that a request takes in a region. -/
def chunksFor (m : ByteMem) (size : Nat) (r : Region) : Nat :=
  requiredChunks (Block.chunkSize m r.start) (wrap64 (size + sizeofAllocationHeader))

/-- The first block that the search looks into has room for at most 31 chunks that
cover the request. It passes over the blocks that have no chunks and those of
which the request would take more than 32. -/
def HasRoom (m : ByteMem) (size : Nat) : List Region → Prop
  | [] => True
  | r :: rs =>
      if 32 < chunksFor m size r ∨ Block.nChunks m r.start = 0 then HasRoom m size rs
      else chunksFor m size r ≠ 32 ∧
        size + sizeofAllocationHeader ≤ Block.chunkSize m r.start * chunksFor m size r ∧
        ∃ w k, Fits m r (chunksFor m size r) w k

instance HasRoom.decidable (m : ByteMem) (size : Nat) : (rs : List Region) →
    Decidable (HasRoom m size rs)
  | [] => isTrue trivial
  | r :: rs =>
      if h : 32 < chunksFor m size r ∨ Block.nChunks m r.start = 0 then
        match decidable m size rs with
        | isTrue room => isTrue (by rw [HasRoom, if_pos h]; exact room)
        | isFalse room => isFalse (by rw [HasRoom, if_pos h]; exact room)
      else decidable_of_iff _ (by rw [HasRoom, if_neg h])

/-- The allocation that a placement stands for. -/
def Placement.allocation (p : Placement) (ptr size : Nat) : Allocation :=
  ⟨ptr, size, p.block, p.chunk, p.bit, p.required⟩

/-- Where the search ends when there is room: in the first region of `rs` that
has some, whose words before the chunks are the only ones that it looks at. -/
structure Found (m : ByteMem) (rs : List Region) (size : Nat) (p : Placement) : Prop where
  first : ∃ before r after, rs = before ++ r :: after ∧ p.block = r.start ∧
    Fits m r p.required p.chunk p.bit ∧
    ∀ r' ∈ before, ¬∃ w k, Fits m r' (chunksFor m size r') w k
  required_eq : p.required =
    requiredChunks (Block.chunkSize m p.block) (wrap64 (size + sizeofAllocationHeader))
  required_lt : p.required < 32
  covers : size + sizeofAllocationHeader ≤ Block.chunkSize m p.block * p.required
  mask_eq : p.mask = BitRun.run 32 p.required p.bit

theorem Found.region {m : ByteMem} {rs : List Region} {size : Nat} {p : Placement}
    (h : Found m rs size p) :
    ∃ r ∈ rs, p.block = r.start ∧ Fits m r p.required p.chunk p.bit := by
  obtain ⟨before, r, after, rfl, hblock, hfits, _⟩ := h.first
  exact ⟨r, List.mem_append_right before List.mem_cons_self, hblock, hfits⟩

theorem Found.cons {m : ByteMem} {r : Region} {rs : List Region} {size : Nat} {p : Placement}
    (h : Found m rs size p) (full : ¬∃ w k, Fits m r (chunksFor m size r) w k) :
    Found m (r :: rs) size p := by
  obtain ⟨before, r', after, rfl, hblock, hfits, hbefore⟩ := h.first
  exact ⟨⟨r :: before, r', after, rfl, hblock, hfits, List.forall_mem_cons.mpr ⟨full, hbefore⟩⟩,
    h.required_eq, h.required_lt, h.covers, h.mask_eq⟩

/-- A lower position in the bitmap stands for lower addresses. -/
theorem Fits.of_le {m : ByteMem} {r : Region} {n w k w' k' : Nat} (h : Fits m r n w' k')
    (hfit : k + n ≤ 32) (clear : Clear m r.start w k n) (hle : w < w' ∨ w = w' ∧ k ≤ k') :
    Fits m r n w k := by
  obtain ⟨hw, hfit', _, hmap, hend⟩ := h
  have hchunk : 32 * w + k + n ≤ 32 * w' + k' + n := by omega
  have hmul := Nat.mul_le_mul_left (Block.chunkSize m r.start) hchunk
  simp only [sizeofBlock, sizeofMask] at hmap
  refine ⟨by omega, hfit, clear, ?_, by omega⟩
  simp only [sizeofBlock, sizeofMask]
  omega

section Search

variable {m : ByteMem} {size : Nat} {r : Region} {rs : List Region}

/-- A block that the search passes over has no room. -/
theorem not_fits_of_skip (skip : 32 < chunksFor m size r ∨ Block.nChunks m r.start = 0) :
    ¬∃ w k, Fits m r (chunksFor m size r) w k := by
  rintro ⟨w, k, hw, hfit, _⟩
  omega

/-- The search passes over a block without chunks and one that the request does
not fit in. -/
theorem roomIn_skip (hpos : 0 < Block.chunkSize m r.start)
    (skip : 32 < chunksFor m size r ∨ Block.nChunks m r.start = 0) :
    roomIn m (wrap64 (size + sizeofAllocationHeader)) ((r :: rs).map Region.start) =
      roomIn m (wrap64 (size + sizeofAllocationHeader)) (rs.map Region.start) := by
  simp only [List.map_cons, roomIn, if_neg (Nat.ne_of_gt hpos)]
  split
  · rfl
  · next hbig =>
    obtain hmany | hnone := skip
    · exact absurd hmany hbig
    · rw [hnone, scanChunks]

/-- In a block with room the search ends at its first fitting position. -/
theorem roomIn_fits (rs : List Region) (hpos : 0 < Block.chunkSize m r.start)
    (hlt : chunksFor m size r < 32)
    (room : ∃ w k, Fits m r (chunksFor m size r) w k) :
    ∃ w k, Fits m r (chunksFor m size r) w k ∧
      scanChunks m r.start (chunksFor m size r) (Block.nChunks m r.start) 0 =
        some (w, k, BitRun.run 32 (chunksFor m size r) k) ∧
      roomIn m (wrap64 (size + sizeofAllocationHeader)) ((r :: rs).map Region.start) =
        .ok ⟨r.start, w, k, chunksFor m size r, BitRun.run 32 (chunksFor m size r) k⟩ := by
  obtain ⟨w', k', hfits⟩ := room
  simp only [List.map_cons, roomIn, if_neg (Nat.ne_of_gt hpos)]
  rw [if_neg (by change ¬32 < chunksFor m size r; omega)]
  cases hscan : scanChunks m r.start (chunksFor m size r) (Block.nChunks m r.start) 0 with
  | some found =>
      obtain ⟨w, k, mask⟩ := found
      obtain ⟨_, _, hfit, rfl, hclear, least⟩ := scanChunks_some hlt hscan
      have hle := least w' k' (Nat.zero_le _) hfits.2.1 hfits.2.2.1
      refine ⟨w, k, hfits.of_le hfit hclear hle, rfl, ?_⟩
      rw [← chunksFor, hscan]
  | none =>
      obtain ⟨hw, hfit, hclear, _⟩ := hfits
      exact absurd hclear (scanChunks_none hlt hscan w' k' (Nat.zero_le _) (by omega) hfit)

/-- With room the search either ends in the first region that has some, or no
region has. -/
theorem roomIn_spec (hpos : ∀ r ∈ rs, 0 < Block.chunkSize m r.start)
    (room : HasRoom m size rs) :
    (∃ p, roomIn m (wrap64 (size + sizeofAllocationHeader)) (rs.map Region.start) = .ok p ∧
        Found m rs size p) ∨
      roomIn m (wrap64 (size + sizeofAllocationHeader)) (rs.map Region.start) =
          .error (.panic "out of memory") ∧
        ∀ r ∈ rs, ¬∃ w k, Fits m r (chunksFor m size r) w k := by
  induction rs with
  | nil => exact Or.inr ⟨rfl, by simp⟩
  | cons r rs ih =>
      obtain ⟨hhead, htail⟩ := List.forall_mem_cons.mp hpos
      simp only [HasRoom] at room
      by_cases hskip : 32 < chunksFor m size r ∨ Block.nChunks m r.start = 0
      · rw [if_pos hskip] at room
        rw [roomIn_skip hhead hskip]
        have full := not_fits_of_skip hskip
        obtain ⟨p, hp, found⟩ | ⟨hp, hfull⟩ := ih htail room
        · exact Or.inl ⟨p, hp, found.cons full⟩
        · exact Or.inr ⟨hp, List.forall_mem_cons.mpr ⟨full, hfull⟩⟩
      · rw [if_neg hskip] at room
        obtain ⟨hne, hcov, hroom⟩ := room
        have hlt : chunksFor m size r < 32 := by omega
        obtain ⟨w, k, hfits, _, hp⟩ := roomIn_fits rs hhead hlt hroom
        exact Or.inl ⟨_, hp, ⟨⟨[], r, rs, rfl, rfl, hfits, by simp⟩, rfl, hlt, hcov, rfl⟩⟩

theorem roomIn_found {p : Placement} (hpos : ∀ r ∈ rs, 0 < Block.chunkSize m r.start)
    (room : HasRoom m size rs)
    (h : roomIn m (wrap64 (size + sizeofAllocationHeader)) (rs.map Region.start) = .ok p) :
    Found m rs size p := by
  obtain ⟨p', hp, found⟩ | ⟨hp, _⟩ := roomIn_spec hpos room
  · cases h.symm.trans hp
    exact found
  · rw [hp] at h
    cases h

end Search

/-- The effect of `kmem_alloc`: first the bitmap word, then the header. -/
structure Taken (h h' : Heap) (rs : List Region) (p : Placement) (a : Allocation) : Prop where
  writes : ∃ r m, r.start = a.block ∧ MaskWrite h.mem m rs r a.word ∧
    Block.chunkMask m a.block a.word = Block.chunkMask h.mem a.block a.word ||| p.mask ∧
    HeaderWrite m h'.mem a
  header_eq : h'.mem.read (a.ptr - sizeofAllocationHeader) 4 = BitVec.ofNat 32 a.chunks
  block_eq : h'.block = h.block
  objects_eq : h'.currentObjects = h.currentObjects + 1

section Take

variable {h : Heap} {rs : List Region} {size : Nat} {p : Placement}

/-- The pointer that `kmem_alloc` returns, without the wrapping of its computation. -/
def roomAddr (m : ByteMem) (p : Placement) : Nat :=
  kmemBlockStart m p.block + Block.chunkSize m p.block * (32 * p.chunk + p.bit)

theorem Found.placed (found : Found h.mem rs size p) :
    Placed h.mem rs (p.allocation (roomAddr h.mem p + sizeofAllocationHeader) size) := by
  obtain ⟨block, chunk, bit, required, mask⟩ := p
  obtain ⟨r, hr, rfl, _, hfit, _, hmap, hend⟩ := found.region
  exact ⟨⟨r, hr, rfl, hend⟩, found.required_lt, hfit, hmap, found.covers, rfl⟩

theorem kmemTake_spec (formed : Formed h.mem h.block rs) (found : Found h.mem rs size p) :
    (kmemTake h p).1 = roomAddr h.mem p + sizeofAllocationHeader ∧
      Taken h (kmemTake h p).2 rs p (p.allocation (kmemTake h p).1 size) := by
  have placed := found.placed
  obtain ⟨r, b⟩ := placed.bounds formed
  have hpos := placed.chunks_pos
  obtain ⟨_, hroom, hstop⟩ := formed.valid r b.mem
  have haddr := b.maskAddr_eq
  have hmap := b.mask_lt
  have hstart := b.start_le
  have hcov := b.covers
  have hend := b.inside
  have hword := b.word_lt
  have hr := b.start_eq
  have hbit : p.bit < 32 := by
    have := placed.run_fits
    simp only [Placement.allocation] at this hpos
    omega
  simp only [Placement.allocation, sizeofAllocationHeader] at haddr hmap hstart hcov hend hword hr
  simp only [sizeofBlock] at hroom
  let m₁ := h.mem.write (Block.chunkMaskAddr p.block p.chunk) 4
    (Block.chunkMask h.mem p.block p.chunk ||| p.mask)
  have same : ByteMem.AgreeOn p.block sizeofBlock h.mem m₁ := fun x hlo hhi => by
    simp only [sizeofBlock] at hhi
    exact (ByteMem.write_apply_of_not_mem (by rw [haddr]; omega)).symm
  have hindex : wrap64 (wrap32 (p.chunk * 8) * sizeofMask + p.bit) = 32 * p.chunk + p.bit := by
    rw [wrap32_of_lt (by omega), wrap64_of_lt (by simp only [sizeofMask]; omega)]
    simp only [sizeofMask]
    omega
  have hoffset : wrap64 (Block.chunkSize h.mem p.block * (32 * p.chunk + p.bit)) =
      Block.chunkSize h.mem p.block * (32 * p.chunk + p.bit) :=
    wrap64_of_lt (by simp only [roomAddr] at hend hcov; omega)
  have hmemory : wrap64 (kmemBlockStart m₁ p.block + wrap64 (Block.chunkSize m₁ p.block *
      wrap64 (wrap32 (p.chunk * 8) * sizeofMask + p.bit))) = roomAddr h.mem p := by
    rw [hindex, kmemBlockStart_congr same, Block.chunkSize_congr same, hoffset]
    exact wrap64_of_lt (by simp only [roomAddr] at hend hcov; omega)
  have hptr : (kmemTake h p).1 = roomAddr h.mem p + sizeofAllocationHeader := by
    change wrap64 (wrap64 (kmemBlockStart m₁ p.block + wrap64 (Block.chunkSize m₁ p.block *
      wrap64 (wrap32 (p.chunk * 8) * sizeofMask + p.bit))) + sizeofAllocationHeader) = _
    rw [hmemory]
    exact wrap64_of_lt (by simp only [sizeofAllocationHeader]; omega)
  have hmem : (kmemTake h p).2.mem = (m₁.write (roomAddr h.mem p) 4
      (BitVec.ofNat 32 p.required)).write (roomAddr h.mem p + 4) 4 h.sequence := by
    rw [← hmemory]
    rfl
  refine ⟨hptr, ⟨⟨r, m₁, hr, ?_, ?_, ?_⟩, ?_, rfl, rfl⟩⟩
  · simpa only [m₁, ← hr, Placement.allocation] using
      MaskWrite.of_write formed b.mem (b.bitmapWord placed.bitmap) _
  · simp only [Placement.allocation, Block.chunkMask, m₁, ByteMem.read_write_self]
  · intro x hx
    simp only [Placement.allocation, hptr, sizeofAllocationHeader] at hx
    rw [hmem, ByteMem.write_apply_of_not_mem (by omega), ByteMem.write_apply_of_not_mem (by omega)]
  · simp only [Placement.allocation, hptr, hmem, Nat.add_sub_cancel]
    rw [ByteMem.read_write_of_disjoint (by omega), ByteMem.read_write_self]

end Take

/-! ## Release -/

/-- The first block of the list whose address test accepts `ptr` is `block`. -/
def FirstOwner (m : ByteMem) (ptr block : Nat) : List Region → Prop
  | [] => False
  | r :: rs =>
      if ownsPtr m r.start ptr = true then r.start = block else FirstOwner m ptr block rs

instance FirstOwner.decidable (m : ByteMem) (ptr block : Nat) : (rs : List Region) →
    Decidable (FirstOwner m ptr block rs)
  | [] => isFalse id
  | r :: rs =>
      if h : ownsPtr m r.start ptr = true then
        decidable_of_iff (r.start = block) (by rw [FirstOwner, if_pos h])
      else
        match decidable m ptr block rs with
        | isTrue owner => isTrue (by rw [FirstOwner, if_neg h]; exact owner)
        | isFalse owner => isFalse (by rw [FirstOwner, if_neg h]; exact owner)

theorem ownerIn_eq_ok_iff {m : ByteMem} {ptr block : Nat} {rs : List Region} :
    ownerIn m ptr (rs.map Region.start) = .ok block ↔ FirstOwner m ptr block rs := by
  induction rs with
  | nil => exact ⟨(nomatch ·), False.elim⟩
  | cons r rs ih =>
      simp only [List.map_cons, ownerIn, FirstOwner]
      by_cases hown : ownsPtr m r.start ptr = true
      · rw [if_pos hown, if_pos hown]
        exact ⟨Except.ok.inj, congrArg _⟩
      · rw [if_neg hown, if_neg hown]
        exact ih

section Release

variable {h : Heap} {rs : List Region} {a : Allocation}

/-- The bitmap word that `kmem_free_from_block` works on is a fourth of the chunk
number, where `kmem_alloc` used a thirty-second. -/
theorem chunkSetOf_eq (formed : Formed h.mem h.block rs) (placed : Placed h.mem rs a) :
    chunkSetOf h.mem a.block (a.ptr - sizeofAllocationHeader) = a.chunk / 4 := by
  obtain ⟨r, b⟩ := placed.bounds formed
  have hpos := formed.chunkSize_pos r b.mem
  have hptr := placed.ptr_eq
  have hfit := placed.run_fits
  have hcount := placed.chunks_pos
  have hend := b.inside
  have hcov := b.covers
  have hword := b.word_lt
  obtain ⟨_, _, hstop⟩ := formed.valid r b.mem
  rw [b.start_eq] at hpos
  simp only [sizeofAllocationHeader] at hptr
  have hoffset : wrap64 (a.ptr - 8 + 2 ^ 64 - kmemBlockStart h.mem a.block) =
      Block.chunkSize h.mem a.block * a.chunk := by
    have hsum : a.ptr - 8 + 2 ^ 64 - kmemBlockStart h.mem a.block =
        Block.chunkSize h.mem a.block * a.chunk + 2 ^ 64 := by omega
    rw [wrap64, hsum, Nat.add_mod_right, Nat.mod_eq_of_lt (by omega)]
  unfold chunkSetOf
  simp only [sizeofAllocationHeader, sizeofMask]
  rw [hoffset, Nat.mul_div_cancel_left _ hpos]
  exact wrap32_of_lt (by simp only [Allocation.chunk]; omega)

/-- For the chunks below 4 the computed position is the one that was set. -/
theorem shiftOf_eq (formed : Formed h.mem h.block rs) (placed : Placed h.mem rs a)
    (low : a.chunk < 4) :
    shiftOf h.mem a.block (a.ptr - sizeofAllocationHeader) = a.chunk := by
  obtain ⟨r, b⟩ := placed.bounds formed
  have hpos := formed.chunkSize_pos r b.mem
  have hsize : Block.chunkSize h.mem a.block < 2 ^ 32 := (h.mem.read (a.block + 20) 4).isLt
  have hptr := placed.ptr_eq
  have hmap := b.start_le
  have hend := b.inside
  have hcov := b.covers
  obtain ⟨_, _, hstop⟩ := formed.valid r b.mem
  rw [b.start_eq] at hpos
  simp only [sizeofAllocationHeader] at hptr
  have hset : chunkSetOf h.mem a.block (a.ptr - sizeofAllocationHeader) = 0 := by
    rw [chunkSetOf_eq formed placed]
    omega
  have hfirst : wrap64 (kmemBlockStart h.mem a.block + 8 * sizeofMask *
      chunkSetOf h.mem a.block (a.ptr - sizeofAllocationHeader)) =
      kmemBlockStart h.mem a.block := by
    rw [hset, Nat.mul_zero, Nat.add_zero]
    exact wrap64_of_lt (by omega)
  have hbound : Block.chunkSize h.mem a.block * a.chunk < 2 ^ 34 := by
    calc Block.chunkSize h.mem a.block * a.chunk
        ≤ Block.chunkSize h.mem a.block * 3 := Nat.mul_le_mul_left _ (by omega)
      _ < 2 ^ 34 := by omega
  have hdiff : ((a.ptr - sizeofAllocationHeader : Nat) : Int) - kmemBlockStart h.mem a.block =
      ((Block.chunkSize h.mem a.block * a.chunk : Nat) : Int) := by
    simp only [sizeofAllocationHeader]
    omega
  unfold shiftOf
  simp only [hfirst, hdiff]
  rw [Int.bmod_eq_of_le (by omega) (by omega), ← Int.ofNat_tdiv,
    Nat.mul_div_cancel_left _ hpos]
  omega

/-- `kmem_free` of a placed allocation in the block that its address test finds
clears bits of one bitmap word, number `a.chunk / 4`. For the chunks below 4 that
word and those bits are the ones that were set. -/
theorem kmemFree_spec (formed : Formed h.mem h.block rs) (placed : Placed h.mem rs a)
    (marked : Marked h.mem a) (owner : FirstOwner h.mem a.ptr a.block rs) :
    ∃ mask, (a.chunk < 4 → mask = BitRun.run 32 a.chunks a.bit) ∧
      kmemFree h a.ptr = .ok { h with
        mem := h.mem.write (Block.chunkMaskAddr a.block (a.chunk / 4)) 4
          (Block.chunkMask h.mem a.block (a.chunk / 4) &&& ~~~mask)
        currentObjects := h.currentObjects - 1 } := by
  obtain ⟨r, b⟩ := placed.bounds formed
  have hpos := formed.chunkSize_pos r b.mem
  have hstart := b.start_le
  have hend := b.inside
  have hcov := b.covers
  obtain ⟨_, _, hstop⟩ := formed.valid r b.mem
  rw [b.start_eq] at hpos
  have hheader : wrap64 (a.ptr + 2 ^ 64 - sizeofAllocationHeader) =
      a.ptr - sizeofAllocationHeader := by
    have hsum : a.ptr + 2 ^ 64 - sizeofAllocationHeader =
        a.ptr - sizeofAllocationHeader + 2 ^ 64 := by simp only [sizeofAllocationHeader]; omega
    rw [wrap64, hsum, Nat.add_mod_right, Nat.mod_eq_of_lt (by omega)]
  have hfind : findOwner h.mem a.ptr (2 ^ 64) h.block = .ok a.block := by
    rw [formed.findOwner_eq_ownerIn, ownerIn_eq_ok_iff]
    exact owner
  refine ⟨lowMask (h.mem.read (a.ptr - sizeofAllocationHeader) 4).toNat <<<
      (shiftOf h.mem a.block (a.ptr - sizeofAllocationHeader) % 32), ?_,
    Except.bind_eq_ok.mpr ⟨a.block, hfind, ?_⟩⟩
  · intro low
    have hword : a.word = 0 := by simp only [Allocation.chunk] at low; omega
    have hchunk : a.chunk = a.bit := by
      simp only [Allocation.chunk, hword, Nat.mul_zero, Nat.zero_add]
    rw [marked.header, shiftOf_eq formed placed low, hchunk, Nat.mod_eq_of_lt (by omega),
      lowMask_shift placed.chunks_lt]
  · rw [hheader, kmemFreeFromBlock, if_neg (by omega), chunkSetOf_eq formed placed]

end Release

end BadOs
