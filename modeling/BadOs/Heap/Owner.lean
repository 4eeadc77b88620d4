import BadOs.Heap.AllocSearch

/-!
# The block that `kmem_free` selects

`kmem_free` takes the first block whose chunks, by a 32-bit product, include the
pointer. The chunks start behind the bitmap and end behind the region, so an
earlier block of the list may cover a pointer of its neighbour too.
-/

namespace BadOs

/-- The bytes of the chunks of a block, as `kmem_free` counts them. -/
def ownedBytes (m : ByteMem) (block : Nat) : Nat :=
  wrap32 (Block.nChunks m block * Block.chunkSize m block)

/-- `x` lies among the bytes that `kmem_free` counts to a block, and these do not
wrap around the address space. -/
def Covers (m : ByteMem) (block x : Nat) : Prop :=
  kmemBlockStart m block ≤ x ∧ x < kmemBlockStart m block + ownedBytes m block ∧
    kmemBlockStart m block + ownedBytes m block < 2 ^ 64

/-- `kmem_alloc` returned `ptr` for chunks from number `chunk` on, which were among
the chunks of block `b`; the block still has the same chunks. -/
def ReturnedFrom (m : ByteMem) (b chunk ptr : Nat) : Prop :=
  ∃ h size p h', kmemFind h size = .ok p ∧ kmemAlloc h size = .ok (ptr, h') ∧ p.block = b ∧
    32 * p.chunk + p.bit = chunk ∧ chunk + p.required ≤ Block.nChunks m b ∧
    Block.nChunks h.mem b = Block.nChunks m b ∧ Block.chunkSize h.mem b = Block.chunkSize m b

theorem kmemBlockStart_lt (m : ByteMem) (b : Nat) : kmemBlockStart m b < 2 ^ 64 := by
  obtain ⟨d, _, _, heq⟩ := align8_eq (wrap64 (b + sizeofBlock + Block.nChunks m b / sizeofMask))
  change kmemBlockStart m b = _ at heq
  omega

theorem ownsPtr_iff {m : ByteMem} {b x : Nat} : ownsPtr m b x = true ↔ Covers m b x := by
  have hstart := kmemBlockStart_lt m b
  have hlen : ownedBytes m b < 2 ^ 32 := Nat.mod_lt _ (by decide)
  rw [ownsPtr, ← ownedBytes, Bool.and_eq_true, decide_eq_true_eq, decide_eq_true_eq, Covers]
  simp only [wrap64]
  omega

theorem ReturnedFrom.ptr_eq {m : ByteMem} {b chunk ptr : Nat} (h : ReturnedFrom m b chunk ptr) :
    ptr = wrap64 (kmemBlockStart m b + Block.chunkSize m b * chunk + sizeofAllocationHeader) := by
  obtain ⟨h, size, p, h', hfind, halloc, rfl, rfl, hin, hchunks, hsize⟩ := h
  have hn : Block.nChunks m p.block < 2 ^ 32 := (m.read (p.block + 16) 4).isLt
  have hword : p.chunk / 2 ^ 29 = 0 := Nat.div_eq_of_lt (by omega)
  have htake := kmemTake_eq (h := h) (p := p) (by omega) (by rw [hword]; exact dvd_zero _)
  have hresult := Except.ok.inj ((kmemAlloc_of_find hfind).symm.trans halloc)
  have hstart : kmemBlockStart h.mem p.block = kmemBlockStart m p.block := by
    rw [kmemBlockStart, hchunks, kmemBlockStart]
  rw [htake, headerAddr, hstart, hsize] at hresult
  have hptr := congrArg Prod.fst hresult
  dsimp only at hptr
  rw [← hptr]
  simp only [wrap64, sizeofAllocationHeader]
  omega

section Select

variable {m : ByteMem} {p ptr chunk : Nat} {rs before after : List Region} {r : Region}

/-- A block covers a pointer that it returned when its 32-bit length goes beyond it. -/
theorem Formed.covers_iff (formed : Formed m p rs) (hr : r ∈ rs)
    (returned : ReturnedFrom m r.start chunk ptr) :
    Covers m r.start ptr ↔
      Block.chunkSize m r.start * chunk + sizeofAllocationHeader < ownedBytes m r.start ∧
        kmemBlockStart m r.start + ownedBytes m r.start < 2 ^ 64 := by
  have hptr := returned.ptr_eq
  have hin : chunk ≤ Block.nChunks m r.start := by
    obtain ⟨_, _, q, _, _, _, _, _, hin, _⟩ := returned
    omega
  have hmul := Nat.mul_le_mul_left (Block.chunkSize m r.start) hin
  have hle := formed.chunks_le r hr
  have hend := (formed.valid r hr).2.2
  have hstart := kmemBlockStart_lt m r.start
  have hlen : ownedBytes m r.start < 2 ^ 32 := Nat.mod_lt _ (by decide)
  rw [Nat.mul_comm (Block.chunkSize m r.start) (Block.nChunks m r.start)] at hmul
  simp only [sizeofBlock] at hle
  simp only [Covers, hptr, wrap64, sizeofAllocationHeader]
  generalize Block.chunkSize m r.start * chunk = offset at *
  omega

theorem ownerIn_mem {bs : List Nat} {b : Nat} (h : ownerIn m ptr bs = .ok b) : b ∈ bs := by
  induction bs with
  | nil => cases h
  | cons a bs ih =>
      rw [ownerIn] at h
      split at h
      · cases h
        exact List.mem_cons_self
      · exact List.mem_cons_of_mem a (ih h)

/-- The loop over the blocks stops at the first one that covers the pointer. -/
theorem ownerIn_append_iff {bs cs : List Nat} {b : Nat} (hb : b ∉ bs) (hc : b ∉ cs) :
    ownerIn m ptr (bs ++ b :: cs) = .ok b ↔
      (∀ a ∈ bs, ¬Covers m a ptr) ∧ Covers m b ptr := by
  induction bs with
  | nil =>
      rw [List.nil_append, ownerIn]
      by_cases hown : ownsPtr m b ptr = true
      · simp [hown, ownsPtr_iff.mp hown]
      · have hrest : ownerIn m ptr cs ≠ .ok b := fun h => hc (ownerIn_mem h)
        simp [hown, mt ownsPtr_iff.mpr hown, hrest]
  | cons a bs ih =>
      obtain ⟨hab, hbs⟩ := not_or.mp (mt List.mem_cons.mpr hb)
      rw [List.cons_append, ownerIn]
      by_cases hown : ownsPtr m a ptr = true
      · simp [hown, ownsPtr_iff.mp hown, Ne.symm hab]
      · simp [hown, mt ownsPtr_iff.mpr hown, ih hbs]

/-- `kmem_free` selects the block that the pointer came from exactly when no earlier
block covers the pointer and the block's own 32-bit length goes beyond it. -/
theorem kmem_free_selects_iff {h : Heap} (formed : Formed h.mem h.block (before ++ r :: after))
    (returned : ReturnedFrom h.mem r.start chunk ptr) :
    findOwner h.mem ptr (2 ^ 64) h.block = .ok r.start ↔
      (∀ r' ∈ before, ¬Covers h.mem r'.start ptr) ∧
        Block.chunkSize h.mem r.start * chunk + sizeofAllocationHeader <
          ownedBytes h.mem r.start ∧
        kmemBlockStart h.mem r.start + ownedBytes h.mem r.start < 2 ^ 64 := by
  have hr : r ∈ before ++ r :: after := List.mem_append_right before List.mem_cons_self
  have hnodup := formed.chain.nodup
  rw [List.map_append, List.map_cons, List.nodup_middle, List.nodup_cons, List.mem_append,
    not_or] at hnodup
  rw [formed.findOwner_eq_ownerIn, List.map_append, List.map_cons,
    ownerIn_append_iff hnodup.1.1 hnodup.1.2, List.forall_mem_map, formed.covers_iff hr returned]

end Select

/-- One block of 4194304 chunks, whose length in bytes is `2 ^ 32`. -/
def wideRegion : Region := ⟨0x1000, 0x100000018, 0x400⟩

/-- The length of the block is taken to be zero, so its pointers are not found. -/
theorem kmem_free_wide : ¬∀ (h h₁ h₂ : Heap) (rs : List Region) (size ptr : Nat) (p : Placement),
    (∀ r ∈ rs, r.Valid) → rs.Pairwise Region.Disjoint → addBlocks (kmemInit h) rs = .ok h₁ →
      kmemFind h₁ size = .ok p → kmemAlloc h₁ size = .ok (ptr, h₂) →
        32 * p.chunk + p.bit + p.required ≤ Block.nChunks h₁.mem p.block →
          findOwner h₂.mem ptr (2 ^ 64) h₂.block = .ok p.block := by
  intro claim
  have hrun : (addBlocks (kmemInit emptyHeap) [wideRegion]).holds (fun h₁ =>
      (kmemFind h₁ 100).holds fun p => (kmemAlloc h₁ 100).holds fun a =>
        decide (32 * p.chunk + p.bit + p.required ≤ Block.nChunks h₁.mem p.block ∧
          findOwner a.2.mem a.1 (2 ^ 64) a.2.block ≠ .ok p.block)) = true := by
    decide +kernel
  obtain ⟨h₁, hadd, hrun⟩ := Except.exists_of_holds hrun
  obtain ⟨p, hfind, hrun⟩ := Except.exists_of_holds hrun
  obtain ⟨⟨ptr, h₂⟩, halloc, hrun⟩ := Except.exists_of_holds hrun
  obtain ⟨hin, hne⟩ := of_decide_eq_true hrun
  exact hne (claim emptyHeap h₁ h₂ [wideRegion] 100 ptr p (by decide) (by decide) hadd hfind
    halloc hin)

/-- The chunks of the first block of the list are too small, so the pointer comes from the
second one, which is the one that `kmem_free` selects. -/
theorem kmem_free_selects_twoBlocks : ∃ h ptr h', addBlocks (kmemInit emptyHeap)
      [⟨0x1000, 536, 128⟩, ⟨0x3000, 32, 2⟩] = .ok h ∧ kmemAlloc h 100 = .ok (ptr, h') ∧
    h'.block = 0x3000 ∧ ReturnedFrom h'.mem 0x1000 0 ptr ∧
    findOwner h'.mem ptr (2 ^ 64) h'.block = .ok 0x1000 := by
  have hrun : (addBlocks (kmemInit emptyHeap) [⟨0x1000, 536, 128⟩, ⟨0x3000, 32, 2⟩]).holds (fun h =>
      (kmemFind h 100).holds fun p => (kmemAlloc h 100).holds fun a =>
        decide ((p.block = 0x1000 ∧ 32 * p.chunk + p.bit = 0) ∧
          0 + p.required ≤ Block.nChunks a.2.mem 0x1000 ∧
          (∀ i < 24, h.mem (0x1000 + i) = a.2.mem (0x1000 + i) ∧
            h.mem (0x3000 + i) = a.2.mem (0x3000 + i)) ∧
          (h.block = 0x3000 ∧ a.2.block = 0x3000) ∧
          a.1 < kmemBlockStart a.2.mem 0x3000 ∧
          8 < ownedBytes a.2.mem 0x1000 ∧
          kmemBlockStart a.2.mem 0x1000 + ownedBytes a.2.mem 0x1000 < 2 ^ 64)) = true := by
    decide +kernel
  obtain ⟨h, hadd, hrun⟩ := Except.exists_of_holds hrun
  obtain ⟨p, hfind, hrun⟩ := Except.exists_of_holds hrun
  obtain ⟨⟨ptr, h'⟩, halloc, hrun⟩ := Except.exists_of_holds hrun
  obtain ⟨⟨hblock, hchunk⟩, hin, hsame, ⟨hfirst, hfirst'⟩, hbelow, hlt, hend⟩ :=
    of_decide_eq_true hrun
  have agree (b : Nat) (hb : ∀ i < 24, h.mem (b + i) = h'.mem (b + i)) :
      ByteMem.AgreeOn b sizeofBlock h.mem h'.mem := by
    intro x hlo hhi
    obtain ⟨i, rfl⟩ := Nat.exists_eq_add_of_le hlo
    exact hb i (Nat.lt_of_add_lt_add_left hhi)
  have agree₁ := agree 0x1000 fun i hi => (hsame i hi).1
  have agree₂ := agree 0x3000 fun i hi => (hsame i hi).2
  have formed : Formed h'.mem h'.block ([⟨0x3000, 32, 2⟩] ++ ⟨0x1000, 536, 128⟩ :: []) := by
    rw [show h'.block = h.block from hfirst'.trans hfirst.symm]
    refine (addBlocks_formed (kmemInit_formed emptyHeap) (by decide) (by simp) (by decide)
      hadd).congr fun r hr => ?_
    obtain rfl | rfl : r = ⟨0x3000, 32, 2⟩ ∨ r = ⟨0x1000, 536, 128⟩ := by simpa using hr
    · exact agree₂
    · exact agree₁
  have returned : ReturnedFrom h'.mem 0x1000 0 ptr :=
    ⟨h, 100, p, h', hfind, halloc, hblock, hchunk, hin, (Block.nChunks_congr agree₁).symm,
      (Block.chunkSize_congr agree₁).symm⟩
  refine ⟨h, ptr, h', hadd, halloc, hfirst', returned,
    (kmem_free_selects_iff formed returned).mpr ⟨?_, ?_, hend⟩⟩
  · intro r hr covers
    obtain rfl := List.mem_singleton.mp hr
    exact absurd covers.1 (Nat.not_le_of_lt hbelow)
  · simpa only [Nat.mul_zero, Nat.zero_add] using hlt

end BadOs
