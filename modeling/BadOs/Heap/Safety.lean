import BadOs.Heap.System

/-!
# Disjointness, containment and release

What a run of good calls guarantees about the allocations: they do not overlap, they
stay inside their regions and off the bitmaps, and releasing one clears its own bits
exactly when its first chunk is one of the first four of the block. Each result is
preceded by a run on which the code breaks it.
-/

namespace BadOs

variable {h : Heap} {rs : List Region} {s t : HeapState} {ops : List HeapOp}

/-- Memory before boot. -/
def emptyHeap : Heap := ⟨fun _ => 0, 0, 0, 0⟩

/-! ## Disjointness -/

/-- Releasing chunk 4 clears bits of bitmap word 1, where another allocation has its
bits: the next call hands out a chunk of that allocation. -/
theorem live_overlap : ¬∀ (h : Heap) (rs : List Region) (s t : HeapState) (ops : List HeapOp),
    (∀ r ∈ rs, r.Valid) → rs.Pairwise Region.Disjoint → heapStart h rs = .ok s →
      Transition.exec heapStep s ops = .ok t → t.live.Pairwise Allocation.Disjoint := by
  intro claim
  have hrun : (heapStart emptyHeap [⟨0x1000, 25624, 128⟩]).holds (fun s =>
      Transition.check heapStep (fun _ _ => True)
        (fun t => !decide (t.live.Pairwise Allocation.Disjoint)) s
        [.alloc 504, .alloc 100, .alloc 3448, .alloc 504, .free ⟨4696, 100, 0x1000, 0, 4, 1⟩,
          .alloc 100]) = true := by
    decide +kernel
  obtain ⟨s, hs, hrun⟩ := Except.exists_of_holds hrun
  obtain ⟨t, run, ht⟩ := Transition.Run.of_check hrun
  rw [Bool.not_eq_true', decide_eq_false_iff_not] at ht
  exact ht (claim _ _ _ _ _ (by decide) (by decide) hs run.exec_eq)

/-- In a run of good calls no two live allocations overlap, and each keeps its bits. -/
theorem live_disjoint (valid : ∀ r ∈ rs, r.Valid) (disjoint : rs.Pairwise Region.Disjoint)
    (hstart : heapStart h rs = .ok s)
    (run : Transition.Run heapStep HeapState.Good s ops t) :
    t.live.Pairwise Allocation.Disjoint ∧ ∀ a ∈ t.live, Marked t.heap.mem a := by
  have inv := (heapStart_inv valid disjoint hstart).run run
  refine ⟨inv.apart.imp_of_mem fun ha ha' apart => ?_, inv.marked⟩
  exact (inv.placed _ (inv.returned _ ha)).disjoint inv.formed
    (inv.placed _ (inv.returned _ ha')) apart

theorem live_disjoint_run : ∃ s t,
    heapStart emptyHeap [⟨0x1000, 25624, 128⟩] = .ok s ∧
      Transition.exec heapStep s
        [.alloc 100, .alloc 300, .free ⟨4184, 100, 0x1000, 0, 0, 1⟩, .alloc 50] = .ok t ∧
      t.live.length = 2 ∧
      t.live.Pairwise Allocation.Disjoint ∧ ∀ a ∈ t.live, Marked t.heap.mem a := by
  have hrun : (heapStart emptyHeap [⟨0x1000, 25624, 128⟩]).holds (fun s =>
      Transition.check heapStep HeapState.Good (fun t => t.live.length == 2) s
        [.alloc 100, .alloc 300, .free ⟨4184, 100, 0x1000, 0, 0, 1⟩, .alloc 50]) = true := by
    decide +kernel
  obtain ⟨s, hs, hrun⟩ := Except.exists_of_holds hrun
  obtain ⟨t, run, ht⟩ := Transition.Run.of_check hrun
  exact ⟨s, t, hs, run.exec_eq, eq_of_beq ht, live_disjoint (by decide) (by decide) hs run⟩

/-! ## Containment -/

/-- The header and the requested bytes lie in the region of the block, behind the
`Block` structure, and meet none of the touched bitmap words of the block. -/
def Contained (rs : List Region) (touched : List (Nat × Nat)) (a : Allocation) : Prop :=
  ∃ r ∈ rs, r.start = a.block ∧ r.start + sizeofBlock + sizeofAllocationHeader ≤ a.ptr ∧
    a.ptr + a.size ≤ r.start + r.size ∧
    ∀ t ∈ touched, t.1 = r.start →
      Block.chunkMaskAddr t.1 t.2 + sizeofMask ≤ a.ptr - sizeofAllocationHeader ∨
        a.ptr + a.size ≤ Block.chunkMaskAddr t.1 t.2

instance (rs : List Region) (touched : List (Nat × Nat)) (a : Allocation) :
    Decidable (Contained rs touched a) :=
  inferInstanceAs (Decidable (∃ r ∈ rs, _))

/-- The region has a run of chunks, clear and inside the region, for the request. -/
def RoomIn (m : ByteMem) (size : Nat) (r : Region) : Prop :=
  ∃ w k, Fits m r (chunksFor m size r) w k

/-- A block of four chunks hands out five: the search looks at `nChunks` bitmap words
and not at `nChunks` bits. -/
theorem returned_past_end : ¬∀ (h : Heap) (rs : List Region) (s t : HeapState)
    (ops : List HeapOp), (∀ r ∈ rs, r.Valid) → rs.Pairwise Region.Disjoint →
      heapStart h rs = .ok s → Transition.exec heapStep s ops = .ok t →
      ∀ a ∈ t.returned, Contained t.regions t.touched a := by
  intro claim
  have hrun : (heapStart emptyHeap [⟨0x1000, 536, 128⟩]).holds (fun s =>
      Transition.check heapStep (fun _ _ => True)
        (fun t => !decide (∀ a ∈ t.returned, Contained t.regions t.touched a)) s
        [.alloc 632]) = true := by
    decide +kernel
  obtain ⟨s, hs, hrun⟩ := Except.exists_of_holds hrun
  obtain ⟨t, run, ht⟩ := Transition.Run.of_check hrun
  rw [Bool.not_eq_true', decide_eq_false_iff_not] at ht
  exact ht (claim _ _ _ _ _ (by decide) (by decide) hs run.exec_eq)

/-- A placed allocation is contained, as far as touched words are bitmap words. -/
theorem HeapState.Inv.contained (inv : s.Inv) {a : Allocation} (ha : a ∈ s.returned) :
    Contained s.regions s.touched a := by
  obtain ⟨r, b⟩ := (inv.placed a ha).bounds inv.formed
  have hlow := b.start_le
  have hmask := b.mask_lt
  have hcov := b.covers
  have hend := b.inside
  have hstart := b.start_eq
  refine ⟨r, b.mem, hstart, by simp only [sizeofBlock, sizeofAllocationHeader]; omega, by omega,
    fun t ht hblock => Or.inl ?_⟩
  obtain ⟨r', hr', hstart', hmap⟩ := inv.touched t ht
  cases inv.formed.eq_of_start_eq hr' b.mem (hstart'.trans hblock)
  rw [hblock, chunkMaskAddr_eq inv.formed b.mem hmap]
  simp only [BitmapWord, hstart, sizeofBlock, sizeofMask] at hmap
  simp only [hstart, sizeofMask, sizeofAllocationHeader]
  omega

/-- With room for the request, `kmem_alloc` takes the first region that has some, and
panics when none has. -/
theorem HeapState.Inv.kmemAlloc_first (inv : s.Inv) {size : Nat}
    (room : HasRoom s.heap.mem size s.regions) :
    (∃ before r after ptr h', s.regions = before ++ r :: after ∧
        kmemAlloc s.heap size = .ok (ptr, h') ∧ r.start < ptr ∧ ptr + size ≤ r.start + r.size ∧
        RoomIn s.heap.mem size r ∧ ∀ r' ∈ before, ¬RoomIn s.heap.mem size r') ∨
      kmemAlloc s.heap size = .error (.panic "out of memory") ∧
        ∀ r ∈ s.regions, ¬RoomIn s.heap.mem size r := by
  have hfind := inv.formed.kmemFind_eq size
  obtain ⟨p, hp, found⟩ | ⟨hp, hfull⟩ := roomIn_spec inv.formed.chunkSize_pos room
  · have halloc : kmemAlloc s.heap size = .ok (kmemTake s.heap p) := by
      rw [kmemAlloc, hfind, hp]
      rfl
    have hptr := (kmemTake_spec inv.formed found).1
    obtain ⟨r₀, b⟩ := found.placed.bounds inv.formed
    obtain ⟨before, r, after, hsplit, hblock, hfits, hbefore⟩ := found.first
    have hr : r ∈ s.regions := by
      rw [hsplit]
      exact List.mem_append_right before List.mem_cons_self
    cases inv.formed.eq_of_start_eq b.mem hr (b.start_eq.trans hblock)
    have hroom : RoomIn s.heap.mem size r₀ := by
      refine ⟨p.chunk, p.bit, ?_⟩
      rw [found.required_eq, hblock] at hfits
      exact hfits
    have hlow := b.start_le
    have hmask := b.mask_lt
    have hcov := b.covers
    have hend := b.inside
    have hstart := b.start_eq
    simp only [Placement.allocation, sizeofAllocationHeader, ← hptr] at hlow hmask hcov hend hstart
    exact Or.inl ⟨before, r₀, after, (kmemTake s.heap p).1, (kmemTake s.heap p).2, hsplit, halloc,
      by omega, by omega, hroom, hbefore⟩
  · refine Or.inr ⟨?_, hfull⟩
    rw [kmemAlloc, hfind, hp]
    rfl

/-- In a run of good calls every returned range stays in its region, off the `Block`
structure and off the bitmap words that the calls touched, and a block without room
is passed over. -/
theorem returned_contained (valid : ∀ r ∈ rs, r.Valid) (disjoint : rs.Pairwise Region.Disjoint)
    (hstart : heapStart h rs = .ok s)
    (run : Transition.Run heapStep HeapState.Good s ops t) :
    (∀ a ∈ t.returned, Contained t.regions t.touched a) ∧
      ∀ size, HasRoom t.heap.mem size t.regions →
        (∃ before r after ptr h', t.regions = before ++ r :: after ∧
            kmemAlloc t.heap size = .ok (ptr, h') ∧ r.start < ptr ∧
            ptr + size ≤ r.start + r.size ∧ RoomIn t.heap.mem size r ∧
            ∀ r' ∈ before, ¬RoomIn t.heap.mem size r') ∨
          kmemAlloc t.heap size = .error (.panic "out of memory") ∧
            ∀ r ∈ t.regions, ¬RoomIn t.heap.mem size r := by
  have inv := (heapStart_inv valid disjoint hstart).run run
  exact ⟨fun a ha => inv.contained ha, fun size room => inv.kmemAlloc_first room⟩

theorem returned_contained_run : ∃ s t,
    heapStart emptyHeap [⟨0x1000, 25624, 128⟩, ⟨0x9000, 100, 64⟩] = .ok s ∧
      Transition.exec heapStep s
        [.alloc 100, .alloc 300, .free ⟨4184, 100, 0x1000, 0, 0, 1⟩, .alloc 50] = .ok t ∧
      (∀ a ∈ t.returned, Contained t.regions t.touched a) ∧ t.returned.length = 3 := by
  have hrun : (heapStart emptyHeap [⟨0x1000, 25624, 128⟩, ⟨0x9000, 100, 64⟩]).holds (fun s =>
      Transition.check heapStep HeapState.Good (fun t => t.returned.length == 3) s
        [.alloc 100, .alloc 300, .free ⟨4184, 100, 0x1000, 0, 0, 1⟩, .alloc 50]) = true := by
    decide +kernel
  obtain ⟨s, hs, hrun⟩ := Except.exists_of_holds hrun
  obtain ⟨t, run, ht⟩ := Transition.Run.of_check hrun
  exact ⟨s, t, hs, run.exec_eq, (returned_contained (by decide) (by decide) hs run).1,
    eq_of_beq ht⟩

/-! ## Release undoes allocation -/

/-- `m'` has the bitmaps of `m`, except that the bits of `a` are clear. -/
structure ClearsExactly (m m' : ByteMem) (rs : List Region) (a : Allocation) : Prop where
  word : Block.chunkMask m' a.block a.word =
    Block.chunkMask m a.block a.word &&& ~~~BitRun.run 32 a.chunks a.bit
  others : ∀ r ∈ rs, ∀ w, BitmapWord m r w → (r.start = a.block → w ≠ a.word) →
    Block.chunkMask m' r.start w = Block.chunkMask m r.start w

/-- `m'` has the bitmaps of `m`. -/
def SameBitmaps (m m' : ByteMem) (rs : List Region) : Prop :=
  ∀ r ∈ rs, ∀ w, BitmapWord m r w → Block.chunkMask m' r.start w = Block.chunkMask m r.start w

/-- The first block that the search looks into has the run clear at one of its first
four chunks. -/
def LowRoom (m : ByteMem) (size : Nat) : List Region → Prop
  | [] => False
  | r :: rs =>
      if 32 < chunksFor m size r ∨ Block.nChunks m r.start = 0 then LowRoom m size rs
      else ∃ k < 4, k + chunksFor m size r ≤ 32 ∧ Clear m r.start 0 k (chunksFor m size r)

/-- `kmem_free` finds the block of the region that `ptr` points into. -/
def FindsOwner (m : ByteMem) (ptr : Nat) (rs : List Region) : Prop :=
  ∃ r ∈ rs, r.start < ptr ∧ ptr ≤ r.start + r.size ∧ FirstOwner m ptr r.start rs

instance (m : ByteMem) (ptr : Nat) (rs : List Region) : Decidable (FindsOwner m ptr rs) :=
  inferInstanceAs (Decidable (∃ r ∈ rs, _))

/-- The bits of chunk 4 stay set when it is released: its word is taken to be word 1. -/
theorem kmemFree_keeps_bits : ¬∀ (h : Heap) (rs : List Region) (s t : HeapState)
    (ops : List HeapOp), (∀ r ∈ rs, r.Valid) → rs.Pairwise Region.Disjoint →
      heapStart h rs = .ok s → Transition.exec heapStep s ops = .ok t →
      ∀ size ptr h₁ h₂, kmemAlloc t.heap size = .ok (ptr, h₁) → kmemFree h₁ ptr = .ok h₂ →
        SameBitmaps t.heap.mem h₂.mem t.regions := by
  intro claim
  let r : Region := ⟨0x1000, 25624, 128⟩
  have hrun : (heapStart emptyHeap [r]).holds (fun s =>
      Transition.check heapStep (fun _ _ => True)
        (fun t => (kmemAlloc t.heap 100).holds fun taken =>
          (kmemFree taken.2 taken.1).holds fun h₂ =>
            decide (r ∈ t.regions ∧ BitmapWord t.heap.mem r 0 ∧
              Block.chunkMask h₂.mem r.start 0 ≠ Block.chunkMask t.heap.mem r.start 0)) s
        [.alloc 504]) = true := by
    decide +kernel
  obtain ⟨s, hs, hrun⟩ := Except.exists_of_holds hrun
  obtain ⟨t, run, ht⟩ := Transition.Run.of_check hrun
  obtain ⟨taken, htaken, ht⟩ := Except.exists_of_holds ht
  obtain ⟨h₂, hfree, ht⟩ := Except.exists_of_holds ht
  obtain ⟨hr, hmap, hne⟩ := of_decide_eq_true ht
  exact hne
    (claim _ _ _ _ _ (by decide) (by decide) hs run.exec_eq _ _ _ _ htaken hfree r hr 0 hmap)

section Release

variable {a : Allocation}

/-- A live pointer points into one region only. -/
theorem FindsOwner.firstOwner {m : ByteMem} {p : Nat} (formed : Formed m p rs)
    (placed : Placed m rs a) {m' : ByteMem} (finds : FindsOwner m' a.ptr rs) :
    FirstOwner m' a.ptr a.block rs := by
  obtain ⟨r, hr, hlo, hhi, owner⟩ := finds
  obtain ⟨r₀, b⟩ := placed.bounds formed
  have hstart := b.start_eq
  have hlow := b.start_le
  have hmask := b.mask_lt
  have hcov := b.covers
  have hend := b.inside
  obtain rfl | disjoint := formed.disjoint_or_eq hr b.mem
  · rw [← hstart]
    exact owner
  · simp only [Region.Disjoint] at disjoint
    omega

/-- Freeing a chunk from number 4 on leaves the word that has its bits alone. -/
theorem kmemFree_high_word (inv : s.Inv) (hlive : a ∈ s.live)
    (owner : FirstOwner s.heap.mem a.ptr a.block s.regions) (high : 4 ≤ a.chunk) :
    ∃ h', kmemFree s.heap a.ptr = .ok h' ∧
      h'.currentObjects = s.heap.currentObjects - 1 ∧
      Block.chunkMask h'.mem a.block a.word = Block.chunkMask s.heap.mem a.block a.word := by
  have placed := inv.placed a (inv.returned a hlive)
  obtain ⟨r, b⟩ := placed.bounds inv.formed
  obtain ⟨mask, _, hfree⟩ := kmemFree_spec inv.formed placed (inv.marked a hlive) owner
  refine ⟨_, hfree, rfl, ?_⟩
  have hpos := inv.formed.chunkSize_pos r b.mem
  have hptr := placed.ptr_eq
  have haddr := b.maskAddr_eq
  have hlow := b.mask_lt
  have hstart := b.start_le
  have hcov := b.covers
  have hend := b.inside
  obtain ⟨_, _, hstop⟩ := inv.formed.valid r b.mem
  rw [b.start_eq] at hpos
  simp only [sizeofAllocationHeader] at hptr
  -- the word that is written lies no further from the bitmap than the chunk itself
  have hchunk : a.chunk ≤ Block.chunkSize s.heap.mem a.block * a.chunk :=
    Nat.le_mul_of_pos_left _ hpos
  have hwritten : Block.chunkMaskAddr a.block (a.chunk / 4) =
      a.block + 24 + 4 * (a.chunk / 4) :=
    wrap64_of_lt (by simp only [sizeofBlock, sizeofMask]; omega)
  have hother : a.chunk / 4 ≠ a.word := by simp only [Allocation.chunk] at high ⊢; omega
  simp only [Block.chunkMask]
  exact ByteMem.read_write_of_disjoint (by rw [hwritten, haddr]; omega)

/-- Freeing one of the first four chunks clears its bits and no others. -/
theorem kmemFree_low_exact (inv : s.Inv) (hlive : a ∈ s.live)
    (owner : FirstOwner s.heap.mem a.ptr a.block s.regions) (low : a.chunk < 4) :
    ∃ h', kmemFree s.heap a.ptr = .ok h' ∧
      h'.currentObjects = s.heap.currentObjects - 1 ∧
      ClearsExactly s.heap.mem h'.mem s.regions a := by
  have placed := inv.placed a (inv.returned a hlive)
  obtain ⟨r, b⟩ := placed.bounds inv.formed
  obtain ⟨mask, hmask, hfree⟩ := kmemFree_spec inv.formed placed (inv.marked a hlive) owner
  have hword : a.chunk / 4 = a.word := by simp only [Allocation.chunk] at low ⊢; omega
  have hwrite := MaskWrite.of_write inv.formed b.mem (b.bitmapWord placed.bitmap)
    (Block.chunkMask s.heap.mem a.block a.word &&& ~~~mask)
  rw [b.start_eq] at hwrite
  rw [hword] at hfree
  refine ⟨_, hfree, rfl, ⟨?_, fun r' hr' w bitmap hother => ?_⟩⟩
  · rw [← hmask low]
    exact ByteMem.read_write_self _ _ 4 _
  · exact hwrite.chunkMask inv.formed hr' bitmap fun hb => hother (hb.trans b.start_eq)

/-- Freeing a live allocation clears exactly its bits when its first chunk is one of the
first four of the block, and otherwise does not. -/
theorem kmemFree_exact_iff (inv : s.Inv) (hlive : a ∈ s.live)
    (owner : FirstOwner s.heap.mem a.ptr a.block s.regions) :
    ∃ h', kmemFree s.heap a.ptr = .ok h' ∧
      h'.currentObjects = s.heap.currentObjects - 1 ∧
      (ClearsExactly s.heap.mem h'.mem s.regions a ↔ a.chunk < 4) := by
  by_cases low : a.chunk < 4
  · obtain ⟨h', hfree, hobjects, hexact⟩ := kmemFree_low_exact inv hlive owner low
    exact ⟨h', hfree, hobjects, iff_of_true hexact low⟩
  · obtain ⟨h', hfree, hobjects, hkept⟩ := kmemFree_high_word inv hlive owner (by omega)
    refine ⟨h', hfree, hobjects, iff_of_false (fun hexact => ?_) low⟩
    have placed := inv.placed a (inv.returned a hlive)
    have hpos := placed.chunks_pos
    have hfit := placed.run_fits
    have hset := (inv.marked a hlive).bits a.bit (Nat.le_refl _) (by omega)
    have hclear := hexact.word
    rw [hkept] at hclear
    rw [hclear, BitRun.getLsbD_and_not_run placed.chunks_lt _ (by omega),
      decide_eq_true ⟨Nat.le_refl _, by omega⟩, Bool.not_true, Bool.and_false] at hset
    cases hset

end Release

/-- The search ends in the first four chunks of its block when the run is clear at one
of them. -/
theorem roomIn_low_iff {m : ByteMem} {size : Nat} {p : Placement}
    (hpos : ∀ r ∈ rs, 0 < Block.chunkSize m r.start) (room : HasRoom m size rs)
    (h : roomIn m (wrap64 (size + sizeofAllocationHeader)) (rs.map Region.start) = .ok p) :
    32 * p.chunk + p.bit < 4 ↔ LowRoom m size rs := by
  induction rs with
  | nil => cases h
  | cons r rs ih =>
      obtain ⟨hhead, htail⟩ := List.forall_mem_cons.mp hpos
      simp only [HasRoom] at room
      simp only [LowRoom]
      by_cases hskip : 32 < chunksFor m size r ∨ Block.nChunks m r.start = 0
      · rw [if_pos hskip] at room ⊢
        rw [roomIn_skip hhead hskip] at h
        exact ih htail room h
      · rw [if_neg hskip] at room ⊢
        obtain ⟨hne, _, hroom⟩ := room
        have hlt : chunksFor m size r < 32 := by omega
        obtain ⟨w, k, hfits, hscan, hp⟩ := roomIn_fits rs hhead hlt hroom
        cases h.symm.trans hp
        obtain ⟨_, _, _, _, _, least⟩ := scanChunks_some hlt hscan
        obtain ⟨_, hfit, hclear, _⟩ := hfits
        constructor
        · intro low
          obtain rfl : w = 0 := by simp only at low; omega
          exact ⟨k, by simpa only [Nat.mul_zero, Nat.zero_add] using low, hfit, hclear⟩
        · rintro ⟨k', hk, hfit', hclear'⟩
          have hle := least 0 k' (Nat.le_refl _) hfit' hclear'
          simp only
          omega

/-- Freeing right after allocating restores the bitmaps when the run is clear at one of
the first four chunks, and otherwise does not. -/
theorem HeapState.Inv.free_alloc_iff (inv : s.Inv) {size ptr : Nat} {h₁ : Heap}
    (room : HasRoom s.heap.mem size s.regions)
    (halloc : kmemAlloc s.heap size = .ok (ptr, h₁)) (finds : FindsOwner h₁.mem ptr s.regions) :
    ∃ h₂, kmemFree h₁ ptr = .ok h₂ ∧
      (SameBitmaps s.heap.mem h₂.mem s.regions ∧ h₂.currentObjects = s.heap.currentObjects ↔
        LowRoom s.heap.mem size s.regions) := by
  obtain ⟨p, hfind, _⟩ := Except.bind_eq_ok.mp halloc
  obtain ⟨found, placed, taken⟩ := inv.kmemAlloc_taken room hfind halloc
  have owner := finds.firstOwner inv.formed placed
  obtain ⟨s₁, hstep, rfl, hregions, hlive⟩ := heapStep_of_kmemAlloc hfind halloc
  have inv₁ := inv.alloc room hstep
  rw [← hregions] at owner
  obtain ⟨r, b⟩ := placed.bounds inv.formed
  have bitmap := b.bitmapWord placed.bitmap
  have hvalue := taken.chunkMask inv.formed placed b.mem bitmap
  rw [b.start_eq, if_pos ⟨rfl, rfl⟩, found.mask_eq] at hvalue
  obtain ⟨_, _, hblock, _, _, hclear, _⟩ := found.region
  rw [← hblock] at hclear
  have hlow := roomIn_low_iff inv.formed.chunkSize_pos room (inv.formed.kmemFind_eq size ▸ hfind)
  by_cases low : (p.allocation ptr size).chunk < 4
  · obtain ⟨h₂, hfree, hobjects, hexact⟩ := kmemFree_low_exact inv₁ hlive owner low
    refine ⟨h₂, hfree, iff_of_true ⟨fun r' hr' w hmap => ?_, ?_⟩ (hlow.mp low)⟩
    · have hmap₁ := hmap.congr (taken.block inv.formed placed hr')
      have hword := taken.chunkMask inv.formed placed hr' hmap
      by_cases here : r'.start = (p.allocation ptr size).block ∧ w = (p.allocation ptr size).word
      · obtain ⟨hb, rfl⟩ := here
        rw [hb]
        exact hexact.word.trans (by
          rw [hvalue]
          exact BitRun.or_run_and_not_run found.required_lt hclear)
      · rw [hexact.others r' (hregions ▸ hr') w hmap₁ fun hb hw => here ⟨hb, hw⟩, hword,
          if_neg here]
    · rw [hobjects, taken.objects_eq]
      exact BitVec.add_sub_cancel _ _
  · obtain ⟨h₂, hfree, _, hkept⟩ := kmemFree_high_word inv₁ hlive owner (Nat.le_of_not_lt low)
    refine ⟨h₂, hfree, iff_of_false (fun hsame => ?_) fun h => low (hlow.mpr h)⟩
    have hrestored := hsame.1 r b.mem p.chunk bitmap
    rw [b.start_eq] at hrestored
    have hpos : 0 < p.required := placed.chunks_pos
    have hbit := hclear p.bit (Nat.le_refl _) (by omega)
    have hset := (inv₁.marked _ hlive).bits p.bit (Nat.le_refl _)
      (Nat.lt_add_of_pos_right hpos)
    have hword : Block.chunkMask s₁.heap.mem p.block p.chunk =
        Block.chunkMask s.heap.mem p.block p.chunk := hkept.symm.trans hrestored
    change (Block.chunkMask s₁.heap.mem p.block p.chunk).getLsbD p.bit = true at hset
    rw [hword, hbit] at hset
    cases hset

/-- In a run of good calls, `kmem_free` clears exactly the bits of its allocation when
that starts at one of the first four chunks of its block, and it undoes the call of
`kmem_alloc` before it when that found room there. Otherwise it does not. -/
theorem kmemFree_undoes_iff (valid : ∀ r ∈ rs, r.Valid) (disjoint : rs.Pairwise Region.Disjoint)
    (hstart : heapStart h rs = .ok s)
    (run : Transition.Run heapStep HeapState.Good s ops t) :
    (∀ a ∈ t.live, FindsOwner t.heap.mem a.ptr t.regions →
      ∃ h', kmemFree t.heap a.ptr = .ok h' ∧
        h'.currentObjects = t.heap.currentObjects - 1 ∧
        (ClearsExactly t.heap.mem h'.mem t.regions a ↔ a.chunk < 4)) ∧
      ∀ size ptr h₁, HasRoom t.heap.mem size t.regions →
        kmemAlloc t.heap size = .ok (ptr, h₁) → FindsOwner h₁.mem ptr t.regions →
        ∃ h₂, kmemFree h₁ ptr = .ok h₂ ∧
          (SameBitmaps t.heap.mem h₂.mem t.regions ∧
              h₂.currentObjects = t.heap.currentObjects ↔
            LowRoom t.heap.mem size t.regions) := by
  have inv := (heapStart_inv valid disjoint hstart).run run
  refine ⟨fun a ha finds => ?_, fun size ptr h₁ room halloc finds =>
    inv.free_alloc_iff room halloc finds⟩
  have placed := inv.placed a (inv.returned a ha)
  exact kmemFree_exact_iff inv ha (finds.firstOwner inv.formed placed)

/-- The second of two objects, and a third one of two chunks behind them. -/
theorem kmemFree_undoes_run : ∃ s t,
    heapStart emptyHeap [⟨0x1000, 25624, 128⟩] = .ok s ∧
      Transition.exec heapStep s [.alloc 100, .alloc 100] = .ok t ∧
      (∃ a ∈ t.live, a.chunk = 1 ∧ ∃ h', kmemFree t.heap a.ptr = .ok h' ∧
        ClearsExactly t.heap.mem h'.mem t.regions a) ∧
      ∃ ptr h₁ h₂, kmemAlloc t.heap 200 = .ok (ptr, h₁) ∧ kmemFree h₁ ptr = .ok h₂ ∧
        SameBitmaps t.heap.mem h₂.mem t.regions ∧ h₂.currentObjects = t.heap.currentObjects := by
  let r : Region := ⟨0x1000, 25624, 128⟩
  let a : Allocation := ⟨4312, 100, 0x1000, 0, 1, 1⟩
  have hrun : (heapStart emptyHeap [r]).holds (fun s =>
      Transition.check heapStep HeapState.Good
        (fun t => decide (a ∈ t.live ∧ FindsOwner t.heap.mem a.ptr t.regions ∧ t.regions = [r] ∧
            HasRoom t.heap.mem 200 t.regions ∧ chunksFor t.heap.mem 200 r = 2 ∧
            Block.nChunks t.heap.mem r.start ≠ 0 ∧ Clear t.heap.mem r.start 0 2 2) &&
          (kmemAlloc t.heap 200).holds fun c => decide (FindsOwner c.2.mem c.1 t.regions)) s
        [.alloc 100, .alloc 100]) = true := by
    decide +kernel
  obtain ⟨s, hs, hrun⟩ := Except.exists_of_holds hrun
  obtain ⟨t, run, hpost⟩ := Transition.Run.of_check hrun
  obtain ⟨ht, halloc⟩ := Bool.and_eq_true_iff.mp hpost
  obtain ⟨hlive, finds, hregions, room, hneed, hchunks, hclear⟩ := of_decide_eq_true ht
  obtain ⟨⟨ptr, h₁⟩, halloc, hfinds⟩ := Except.exists_of_holds halloc
  have hlow : LowRoom t.heap.mem 200 t.regions := by
    rw [hregions, LowRoom, hneed, if_neg (by omega)]
    exact ⟨2, by decide, by decide, hclear⟩
  obtain ⟨hfree, hundo⟩ := kmemFree_undoes_iff (by decide) (by decide) hs run
  obtain ⟨h', hfree', _, hiff⟩ := hfree a hlive finds
  obtain ⟨h₂, hfree₂, hiff₂⟩ := hundo 200 ptr h₁ room halloc (of_decide_eq_true hfinds)
  exact ⟨s, t, hs, run.exec_eq, ⟨a, hlive, rfl, h', hfree', hiff.mpr (by decide)⟩, ptr, h₁, h₂,
    halloc, hfree₂, hiff₂.mpr hlow⟩

end BadOs
