import Mathlib.Data.List.Perm.Basic
import BadOs.Heap.Transition

/-!
# The heap over a run of allocations and releases

`heapStep` makes one call of `kmem_alloc` or `kmem_free` and keeps a record of what
the calls returned and of the bitmap words they looked at. `Good` is a condition on
the state before a call; a run of good calls keeps the invariant `Inv`.
-/

namespace BadOs

/-- The heap with a record of its calls, most recent first. -/
structure HeapState where
  heap : Heap
  regions : List Region
  /-- Returned and not yet freed. -/
  live : List Allocation
  /-- Returned by any call so far. -/
  returned : List Allocation
  /-- The `chunkMasks` words, as block and index, that a call has read or written. -/
  touched : List (Nat × Nat)

inductive HeapOp where
  | alloc (size : Nat)
  | free (a : Allocation)
  deriving DecidableEq

/-- The bitmap words that the loop of `kmem_alloc` reads, from `block` on. -/
def scannedWords (m : ByteMem) (size : Nat) : (fuel block : Nat) → List (Nat × Nat)
  | 0, _ => []
  | fuel + 1, block =>
      if block = 0 ∨ Block.chunkSize m block = 0 then []
      else
        let required := requiredChunks (Block.chunkSize m block) size
        if 32 < required then scannedWords m size fuel (Block.next m block)
        else
          match scanChunks m block required (Block.nChunks m block) 0 with
          | some (chunk, _, _) => (List.range (chunk + 1)).map (block, ·)
          | none => (List.range (Block.nChunks m block)).map (block, ·) ++
              scannedWords m size fuel (Block.next m block)

/-- One call. A pointer that is not live is not a legal argument of `kmem_free`. -/
def heapStep (s : HeapState) : HeapOp → Except Trap HeapState
  | .alloc size => do
      let p ← kmemFind s.heap size
      let (ptr, h) ← kmemAlloc s.heap size
      return { s with
        heap := h
        live := p.allocation ptr size :: s.live
        returned := p.allocation ptr size :: s.returned
        touched := scannedWords s.heap.mem (wrap64 (size + sizeofAllocationHeader)) (2 ^ 64)
          s.heap.block ++ s.touched }
  | .free a =>
      if a ∈ s.live then do
        let block ← findOwner s.heap.mem a.ptr (2 ^ 64) s.heap.block
        let h ← kmemFree s.heap a.ptr
        return { s with
          heap := h
          live := s.live.erase a
          touched := (block, chunkSetOf s.heap.mem block (a.ptr - sizeofAllocationHeader)) ::
            s.touched }
      else .error .useAfterFree

/-- `kmem_init` and then `kmem_add_block` for each region. The last block added is
the first of the list. -/
def heapStart (h : Heap) (rs : List Region) : Except Trap HeapState := do
  let h ← addBlocks (kmemInit h) rs
  return ⟨h, rs.reverse, [], [], []⟩

namespace HeapState

/-- Freeing `a` works on a bitmap word of its own, or at least on one that no live
allocation of the block has bits in. -/
structure SafeFree (s : HeapState) (a : Allocation) : Prop where
  live : a ∈ s.live
  owner : FirstOwner s.heap.mem a.ptr a.block s.regions
  word : a.chunk < 4 ∨
    a.block + sizeofBlock + sizeofMask * (a.chunk / 4 + 1) ≤ kmemBlockStart s.heap.mem a.block ∧
      ∀ a' ∈ s.live, a'.block = a.block → a'.word ≠ a.chunk / 4

instance (s : HeapState) (a : Allocation) : Decidable (s.SafeFree a) :=
  decidable_of_iff (a ∈ s.live ∧ FirstOwner s.heap.mem a.ptr a.block s.regions ∧ (a.chunk < 4 ∨ _))
    ⟨fun ⟨h, h', h''⟩ => ⟨h, h', h''⟩, fun ⟨h, h', h''⟩ => ⟨h, h', h''⟩⟩

/-- The condition on a call under which the bitmaps stay right. -/
def Good (s : HeapState) : HeapOp → Prop
  | .alloc size => HasRoom s.heap.mem size s.regions
  | .free a => s.SafeFree a

instance (s : HeapState) : (op : HeapOp) → Decidable (s.Good op)
  | .alloc size => HasRoom.decidable s.heap.mem size s.regions
  | .free a => inferInstanceAs (Decidable (s.SafeFree a))

/-- A bitmap word of one of the regions, lying before its chunks. -/
def InBitmap (m : ByteMem) (rs : List Region) (t : Nat × Nat) : Prop :=
  ∃ r ∈ rs, r.start = t.1 ∧ BitmapWord m r t.2

/-- The invariant of good calls. -/
structure Inv (s : HeapState) : Prop where
  formed : Formed s.heap.mem s.heap.block s.regions
  placed : ∀ a ∈ s.returned, Placed s.heap.mem s.regions a
  returned : ∀ a ∈ s.live, a ∈ s.returned
  marked : ∀ a ∈ s.live, Marked s.heap.mem a
  apart : s.live.Pairwise Allocation.Apart
  touched : ∀ t ∈ s.touched, InBitmap s.heap.mem s.regions t

end HeapState

theorem HeapState.InBitmap.congr {m m' : ByteMem} {rs : List Region} {t : Nat × Nat}
    (h : HeapState.InBitmap m rs t) (same : ∀ r ∈ rs, ByteMem.AgreeOn r.start sizeofBlock m m') :
    HeapState.InBitmap m' rs t := by
  obtain ⟨r, hr, hstart, hmap⟩ := h
  exact ⟨r, hr, hstart, hmap.congr (same r hr)⟩

/-! ## The words that a search with room reads -/

/-- `scannedWords` over an explicit list of blocks. -/
def scannedIn (m : ByteMem) (size : Nat) : List Nat → List (Nat × Nat)
  | [] => []
  | block :: rest =>
      if Block.chunkSize m block = 0 then []
      else
        let required := requiredChunks (Block.chunkSize m block) size
        if 32 < required then scannedIn m size rest
        else
          match scanChunks m block required (Block.nChunks m block) 0 with
          | some (chunk, _, _) => (List.range (chunk + 1)).map (block, ·)
          | none => (List.range (Block.nChunks m block)).map (block, ·) ++ scannedIn m size rest

theorem scannedWords_eq {m : ByteMem} {size fuel p : Nat} {bs : List Nat}
    (h : BlockChain m p bs) (enough : bs.length < fuel) :
    scannedWords m size fuel p = scannedIn m size bs := by
  induction bs generalizing fuel p with
  | nil =>
      obtain ⟨fuel, rfl⟩ : ∃ f, fuel = f + 1 := ⟨fuel - 1, by omega⟩
      change p = 0 at h
      simp only [scannedWords, h, true_or, if_true, scannedIn]
  | cons b bs ih =>
      obtain ⟨fuel, rfl⟩ : ∃ f, fuel = f + 1 := ⟨fuel - 1, by omega⟩
      obtain ⟨rfl, hb, hrest⟩ := h
      have hrec : scannedWords m size fuel (Block.next m p) = scannedIn m size bs :=
        ih hrest (by simpa only [List.length_cons, Nat.add_lt_add_iff_right] using enough)
      simp only [scannedWords, scannedIn, hb, false_or, hrec]

/-- All words up to the one that the search ends in lie before the chunks. -/
theorem scannedIn_inBitmap {m : ByteMem} {size : Nat} {rs : List Region}
    (hpos : ∀ r ∈ rs, 0 < Block.chunkSize m r.start) (room : HasRoom m size rs) :
    ∀ t ∈ scannedIn m (wrap64 (size + sizeofAllocationHeader)) (rs.map Region.start),
      HeapState.InBitmap m rs t := by
  induction rs with
  | nil => simp [scannedIn]
  | cons r rs ih =>
      obtain ⟨hhead, htail⟩ := List.forall_mem_cons.mp hpos
      simp only [HasRoom] at room
      simp only [List.map_cons, scannedIn, if_neg (Nat.ne_of_gt hhead)]
      have later : HasRoom m size rs → ∀ t ∈ scannedIn m
          (wrap64 (size + sizeofAllocationHeader)) (rs.map Region.start),
          HeapState.InBitmap m (r :: rs) t := fun room' t ht => by
        obtain ⟨r', hr', hmap⟩ := ih htail room' t ht
        exact ⟨r', List.mem_cons_of_mem r hr', hmap⟩
      by_cases hbig : 32 < chunksFor m size r
      · rw [if_pos (Or.inl hbig)] at room
        rw [if_pos (by exact hbig)]
        exact later room
      · rw [if_neg (by exact hbig)]
        by_cases hzero : Block.nChunks m r.start = 0
        · rw [if_pos (Or.inr hzero)] at room
          simpa only [hzero, scanChunks, List.range_zero, List.map_nil, List.nil_append]
            using later room
        · rw [if_neg (not_or.mpr ⟨hbig, hzero⟩)] at room
          obtain ⟨hne, _, hroom⟩ := room
          obtain ⟨w, k, hfits, hscan, _⟩ :=
            roomIn_fits rs hhead (by omega : chunksFor m size r < 32) hroom
          rw [← chunksFor, hscan]
          intro t ht
          obtain ⟨i, hi, rfl⟩ := List.mem_map.mp ht
          obtain ⟨_, _, _, hmap, hend⟩ := hfits
          rw [List.mem_range] at hi
          refine ⟨r, List.mem_cons_self, rfl, ?_⟩
          simp only [BitmapWord, sizeofBlock, sizeofMask] at hmap ⊢
          omega

/-! ## What one good call does -/

section Steps

variable {s s' : HeapState}

theorem heapStep_alloc {size : Nat} (h : heapStep s (.alloc size) = .ok s') :
    ∃ p ptr h₁, kmemFind s.heap size = .ok p ∧ kmemAlloc s.heap size = .ok (ptr, h₁) ∧
      s' = { s with
        heap := h₁
        live := p.allocation ptr size :: s.live
        returned := p.allocation ptr size :: s.returned
        touched := scannedWords s.heap.mem (wrap64 (size + sizeofAllocationHeader)) (2 ^ 64)
          s.heap.block ++ s.touched } := by
  obtain ⟨p, hp, h⟩ := Except.bind_eq_ok.mp h
  obtain ⟨⟨ptr, h₁⟩, halloc, h⟩ := Except.bind_eq_ok.mp h
  cases h
  exact ⟨p, ptr, h₁, hp, halloc, rfl⟩

/-- A successful `kmem_alloc` is a step. -/
theorem heapStep_of_kmemAlloc {size ptr : Nat} {p : Placement} {h₁ : Heap}
    (hfind : kmemFind s.heap size = .ok p) (halloc : kmemAlloc s.heap size = .ok (ptr, h₁)) :
    ∃ s₁, heapStep s (.alloc size) = .ok s₁ ∧ s₁.heap = h₁ ∧ s₁.regions = s.regions ∧
      p.allocation ptr size ∈ s₁.live :=
  ⟨_, Except.bind_eq_ok.mpr ⟨p, hfind, Except.bind_eq_ok.mpr ⟨_, halloc, rfl⟩⟩, rfl, rfl,
    List.mem_cons_self⟩

theorem heapStep_free {a : Allocation} (h : heapStep s (.free a) = .ok s') :
    a ∈ s.live ∧ ∃ block heap, findOwner s.heap.mem a.ptr (2 ^ 64) s.heap.block = .ok block ∧
      kmemFree s.heap a.ptr = .ok heap ∧ s' = { s with
        heap := heap
        live := s.live.erase a
        touched := (block, chunkSetOf s.heap.mem block (a.ptr - sizeofAllocationHeader)) ::
          s.touched } := by
  simp only [heapStep] at h
  split at h
  · next hlive =>
    obtain ⟨block, hblock, h⟩ := Except.bind_eq_ok.mp h
    obtain ⟨heap, hheap, h⟩ := Except.bind_eq_ok.mp h
    cases h
    exact ⟨hlive, block, heap, hblock, hheap, rfl⟩
  · cases h

/-- A run whose bits were clear shares none with an allocation that has its bits set. -/
theorem Found.apart {m : ByteMem} {rs : List Region} {size ptr : Nat} {p : Placement}
    {a : Allocation} (found : Found m rs size p) (placed : Placed m rs (p.allocation ptr size))
    (placed' : Placed m rs a) (marked : Marked m a) : (p.allocation ptr size).Apart a := by
  obtain ⟨r, _, hblock, _, _, hclear, _⟩ := found.region
  have hpos := placed.chunks_pos
  have hpos' := placed'.chunks_pos
  intro hb hw
  simp only [Placement.allocation] at hb hw hpos ⊢
  refine Classical.byContradiction fun overlap => ?_
  let i := max p.bit a.bit
  have hset := marked.bits i (by omega) (by omega)
  have hcleared := hclear i (by omega) (by omega)
  rw [← hblock, hb, hw, hset] at hcleared
  cases hcleared

namespace Taken

variable {h h' : Heap} {rs : List Region} {p : Placement} {a a' : Allocation}

/-- Allocating leaves every `Block` structure alone. -/
theorem block (taken : Taken h h' rs p a) (formed : Formed h.mem h.block rs)
    (placed : Placed h.mem rs a) {r : Region} (hr : r ∈ rs) :
    ByteMem.AgreeOn r.start sizeofBlock h.mem h'.mem := by
  obtain ⟨r₀, m, _, hmask, _, hheader⟩ := taken.writes
  intro x hlo hhi
  exact (hmask.block formed hr x hlo hhi).trans
    (hheader.block (hmask.formed formed) (hmask.placed formed placed) hr x hlo hhi)

/-- The bitmap words after an allocation. -/
theorem chunkMask (taken : Taken h h' rs p a) (formed : Formed h.mem h.block rs)
    (placed : Placed h.mem rs a) {r : Region} (hr : r ∈ rs) {w : Nat}
    (bitmap : BitmapWord h.mem r w) :
    Block.chunkMask h'.mem r.start w =
      if r.start = a.block ∧ w = a.word then Block.chunkMask h.mem r.start w ||| p.mask
      else Block.chunkMask h.mem r.start w := by
  obtain ⟨r₀, m, hblock, hmask, hvalue, hheader⟩ := taken.writes
  rw [hheader.chunkMask (hmask.formed formed) (hmask.placed formed placed) hr
    (bitmap.congr (hmask.block formed hr))]
  by_cases here : r.start = a.block ∧ w = a.word
  · rw [if_pos here, here.1, here.2, hvalue]
  · rw [if_neg here]
    exact hmask.chunkMask formed hr bitmap fun hb hw =>
      here ⟨hb.trans hblock, hw⟩

/-- Allocations elsewhere keep their headers and their bits. -/
theorem marked (taken : Taken h h' rs p a) (formed : Formed h.mem h.block rs)
    (placed : Placed h.mem rs a) (placed' : Placed h.mem rs a') (apart : a.Apart a')
    (marked : Marked h.mem a') : Marked h'.mem a' := by
  obtain ⟨r, b⟩ := placed'.bounds formed
  refine ⟨?_, fun i hlo hhi => ?_⟩
  · obtain ⟨r₀, m, _, hmask, _, hheader⟩ := taken.writes
    rw [hheader.header (hmask.formed formed) (hmask.placed formed placed)
      (hmask.placed formed placed') apart, hmask.header formed placed']
    exact marked.header
  · have hvalue := taken.chunkMask formed placed b.mem (b.bitmapWord placed'.bitmap)
    rw [b.start_eq] at hvalue
    rw [hvalue]
    split
    · rw [BitVec.getLsbD_or, marked.bits i hlo hhi, Bool.true_or]
    · exact marked.bits i hlo hhi

/-- The new allocation has its header and its bits. -/
theorem marked_self (taken : Taken h h' rs p a) (formed : Formed h.mem h.block rs)
    (placed : Placed h.mem rs a) (hmask : p.mask = BitRun.run 32 a.chunks a.bit) :
    Marked h'.mem a := by
  obtain ⟨r, b⟩ := placed.bounds formed
  have hlt := placed.chunks_lt
  have hfit := placed.run_fits
  refine ⟨?_, fun i hlo hhi => ?_⟩
  · rw [taken.header_eq, BitVec.toNat_ofNat, Nat.mod_eq_of_lt (by omega)]
  · have hvalue := taken.chunkMask formed placed b.mem (b.bitmapWord placed.bitmap)
    rw [b.start_eq, if_pos ⟨rfl, rfl⟩, hmask] at hvalue
    rw [hvalue, BitRun.getLsbD_or_run hlt, decide_eq_true ⟨by omega, hlo, hhi⟩, Bool.or_true]

end Taken

namespace HeapState

/-- The bitmap word that freeing `a` works on lies before the chunks. -/
theorem SafeFree.bitmap {a : Allocation} (safe : s.SafeFree a)
    (placed : Placed s.heap.mem s.regions a) :
    a.block + sizeofBlock + sizeofMask * (a.chunk / 4 + 1) ≤ kmemBlockStart s.heap.mem a.block := by
  obtain low | ⟨hmap, _⟩ := safe.word
  · have hword : a.chunk / 4 = a.word := by simp only [Allocation.chunk] at low ⊢; omega
    rw [hword]
    exact placed.bitmap
  · exact hmap

/-- What a safe call of `kmem_free` does. -/
theorem SafeFree.kmemFree_eq {a : Allocation} (inv : s.Inv) (safe : s.SafeFree a) :
    ∃ r mask h, r.start = a.block ∧ (a.chunk < 4 → mask = BitRun.run 32 a.chunks a.bit) ∧
      kmemFree s.heap a.ptr = .ok h ∧ h.block = s.heap.block ∧
      MaskWrite s.heap.mem h.mem s.regions r (a.chunk / 4) ∧
      Block.chunkMask h.mem a.block (a.chunk / 4) =
        Block.chunkMask s.heap.mem a.block (a.chunk / 4) &&& ~~~mask := by
  have placed := inv.placed a (inv.returned a safe.live)
  obtain ⟨r, b⟩ := placed.bounds inv.formed
  obtain ⟨mask, hmask, hfree⟩ :=
    kmemFree_spec inv.formed placed (inv.marked a safe.live) safe.owner
  refine ⟨r, mask, _, b.start_eq, hmask, hfree, rfl, ?_, ByteMem.read_write_self _ _ 4 _⟩
  have hbitmap := b.bitmapWord (safe.bitmap placed)
  rw [← b.start_eq]
  exact MaskWrite.of_write inv.formed b.mem hbitmap _

/-- What a call of `kmem_alloc` with room does. -/
theorem Inv.kmemAlloc_taken {size ptr : Nat} {p : Placement} {h₁ : Heap} (inv : s.Inv)
    (room : HasRoom s.heap.mem size s.regions) (hfind : kmemFind s.heap size = .ok p)
    (halloc : kmemAlloc s.heap size = .ok (ptr, h₁)) :
    Found s.heap.mem s.regions size p ∧ Placed s.heap.mem s.regions (p.allocation ptr size) ∧
      Taken s.heap h₁ s.regions p (p.allocation ptr size) := by
  have htake : kmemTake s.heap p = (ptr, h₁) := by
    rw [kmemAlloc, hfind] at halloc
    exact Except.ok.inj halloc
  rw [inv.formed.kmemFind_eq] at hfind
  have found := roomIn_found inv.formed.chunkSize_pos room hfind
  obtain ⟨hptr, taken⟩ := kmemTake_spec inv.formed found
  have placed := found.placed
  rw [← hptr, htake] at placed
  rw [htake] at taken
  exact ⟨found, placed, taken⟩

theorem Inv.alloc {size : Nat} (inv : s.Inv) (room : HasRoom s.heap.mem size s.regions)
    (h : heapStep s (.alloc size) = .ok s') : s'.Inv := by
  obtain ⟨p, ptr, h₁, hfind, halloc, rfl⟩ := heapStep_alloc h
  obtain ⟨found, placed, taken⟩ := inv.kmemAlloc_taken room hfind halloc
  have same := fun r hr => taken.block inv.formed placed (r := r) hr
  have apart : ∀ a ∈ s.live, (p.allocation ptr size).Apart a := fun a ha =>
    found.apart placed (inv.placed a (inv.returned a ha)) (inv.marked a ha)
  refine ⟨?_, ?_, ?_, ?_, ?_, ?_⟩
  · rw [taken.block_eq]
    exact inv.formed.congr same
  · refine List.forall_mem_cons.mpr ⟨?_, fun a ha => ?_⟩
    · obtain ⟨r, hr, hstart, _⟩ := placed.region
      exact placed.congr (hstart ▸ same r hr)
    · obtain ⟨r, hr, hstart, _⟩ := (inv.placed a ha).region
      exact (inv.placed a ha).congr (hstart ▸ same r hr)
  · exact List.forall_mem_cons.mpr ⟨List.mem_cons_self,
      fun a ha => List.mem_cons_of_mem _ (inv.returned a ha)⟩
  · exact List.forall_mem_cons.mpr ⟨taken.marked_self inv.formed placed found.mask_eq,
      fun a ha => taken.marked inv.formed placed (inv.placed a (inv.returned a ha)) (apart a ha)
        (inv.marked a ha)⟩
  · exact List.pairwise_cons.mpr ⟨apart, inv.apart⟩
  · intro t ht
    obtain hnew | hold := List.mem_append.mp ht
    · rw [scannedWords_eq inv.formed.chain inv.formed.length_lt] at hnew
      exact (scannedIn_inBitmap inv.formed.chunkSize_pos room t hnew).congr same
    · exact (inv.touched t hold).congr same

/-- The other live allocations are apart from the freed one. -/
theorem Inv.apart_erase {a : Allocation} (inv : s.Inv) (hlive : a ∈ s.live) :
    (∀ a' ∈ s.live.erase a, a.Apart a') ∧ (s.live.erase a).Pairwise Allocation.Apart :=
  List.pairwise_cons.mp ((List.perm_cons_erase hlive).pairwise inv.apart
    fun h => Allocation.Apart.symm h)

theorem Inv.free {a : Allocation} (inv : s.Inv) (safe : s.SafeFree a)
    (h : heapStep s (.free a) = .ok s') : s'.Inv := by
  obtain ⟨hlive, block, h', hblock, hfree, rfl⟩ := heapStep_free h
  obtain ⟨r, mask, h'', hr, hmask, hfree', hhead, hwrite, hvalue⟩ := safe.kmemFree_eq inv
  cases hfree.symm.trans hfree'
  have placed := inv.placed a (inv.returned a hlive)
  have same := fun r (hr : r ∈ s.regions) => hwrite.block inv.formed hr
  obtain ⟨hapart, hpairs⟩ := inv.apart_erase hlive
  refine ⟨?_, ?_, ?_, ?_, hpairs, ?_⟩
  · rw [hhead]
    exact inv.formed.congr same
  · exact fun a' ha' => hwrite.placed inv.formed (inv.placed a' ha')
  · exact fun a' ha' => inv.returned a' (List.mem_of_mem_erase ha')
  · intro a' ha'
    have hlive' := List.mem_of_mem_erase ha'
    have placed' := inv.placed a' (inv.returned a' hlive')
    have marked' := inv.marked a' hlive'
    obtain ⟨r', b'⟩ := placed'.bounds inv.formed
    refine ⟨by rw [hwrite.header inv.formed placed']; exact marked'.header, fun i hlo hhi => ?_⟩
    by_cases here : a'.block = a.block ∧ a'.word = a.chunk / 4
    · -- only a chunk number below 4 can meet the word of a live allocation
      have low : a.chunk < 4 := by
        obtain low | ⟨_, unused⟩ := safe.word
        · exact low
        · exact absurd here.2 (unused a' hlive' here.1)
      have hword : a.word = a'.word := by
        rw [here.2]
        simp only [Allocation.chunk] at low ⊢
        omega
      have hbits := hapart a' ha' here.1.symm hword
      rw [here.1, here.2, hvalue, hmask low, BitRun.getLsbD_and_not_run placed.chunks_lt]
      · rw [← here.1, ← here.2, marked'.bits i hlo hhi, Bool.true_and, Bool.not_eq_true',
          decide_eq_false_iff_not]
        omega
      · have hfit := placed'.run_fits
        omega
    · have hkept := hwrite.chunkMask inv.formed b'.mem (b'.bitmapWord placed'.bitmap)
        (fun hb hw => here ⟨b'.start_eq.symm.trans (hb.trans hr), hw⟩)
      rw [b'.start_eq] at hkept
      rw [hkept]
      exact marked'.bits i hlo hhi
  · refine List.forall_mem_cons.mpr ⟨?_, fun t ht => (inv.touched t ht).congr same⟩
    rw [inv.formed.findOwner_eq_ownerIn] at hblock
    cases hblock.symm.trans (ownerIn_eq_ok_iff.mpr safe.owner)
    obtain ⟨r', b⟩ := placed.bounds inv.formed
    rw [chunkSetOf_eq inv.formed placed]
    exact InBitmap.congr ⟨r', b.mem, b.start_eq, b.bitmapWord (safe.bitmap placed)⟩ same

theorem Inv.step {op : HeapOp} (inv : s.Inv) (good : s.Good op) (h : heapStep s op = .ok s') :
    s'.Inv := by
  cases op with
  | alloc size => exact inv.alloc good h
  | free a => exact inv.free good h

/-- Every state of a run of good calls meets the invariant. -/
theorem Inv.run {ops : List HeapOp} (run : Transition.Run heapStep Good s ops s')
    (inv : s.Inv) : s'.Inv :=
  run.invariant (fun _ _ _ inv good h => inv.step good h) inv

end HeapState

end Steps

/-- Blocks over disjoint regions, before the first call. -/
theorem heapStart_inv {h : Heap} {rs : List Region} {s : HeapState}
    (valid : ∀ r ∈ rs, r.Valid) (disjoint : rs.Pairwise Region.Disjoint)
    (hstart : heapStart h rs = .ok s) : s.Inv := by
  obtain ⟨h', hadd, hstart⟩ := Except.bind_eq_ok.mp hstart
  cases hstart
  have formed := addBlocks_formed (kmemInit_formed h) valid (by simp) disjoint hadd
  rw [List.append_nil] at formed
  exact ⟨formed, by simp, by simp, by simp, .nil, by simp⟩

end BadOs
