import BadOs.Common

/-!
# The kernel heap

The heap is a list of blocks threaded through memory itself. A block starts with
its `Block` structure and its bitmap `chunkMasks`, one bit a chunk; the chunks
begin at the next 8-byte boundary behind the bitmap. Every allocation starts
with an `AllocationHeader` and takes a run of chunks whose bits lie in one
bitmap word.

Everything the C code keeps in a block is read from and written to a byte
memory here, so that a write that lands on a bitmap word or on another block's
structure has its effect. Only `struct HeapT heap` itself lives outside.
-/

namespace BadOs

/-- `struct HeapT`, with the memory that its blocks lie in. -/
structure Heap where
  mem : ByteMem
  sequence : BitVec 32
  currentObjects : BitVec 32
  block : Nat

/-! ## `struct BlockT` -/

/-- `sizeof(Block)`; the masks follow at this offset. -/
abbrev sizeofBlock : Nat := 24

/-- `sizeof(AllocationHeader)`. -/
abbrev sizeofAllocationHeader : Nat := 8

/-- `sizeof(block->chunkMasks[0])`. -/
abbrev sizeofMask : Nat := 4

namespace Block

def next (m : ByteMem) (block : Nat) : Nat := (m.read block 8).toNat

def size (m : ByteMem) (block : Nat) : Nat := (m.read (block + 8) 8).toNat

def nChunks (m : ByteMem) (block : Nat) : Nat := (m.read (block + 16) 4).toNat

def chunkSize (m : ByteMem) (block : Nat) : Nat := (m.read (block + 20) 4).toNat

/-- `&block->chunkMasks[i]`. -/
def chunkMaskAddr (block i : Nat) : Nat := wrap64 (block + sizeofBlock + sizeofMask * i)

/-- `block->chunkMasks[i]`. -/
def chunkMask (m : ByteMem) (block i : Nat) : BitVec 32 := m.read (chunkMaskAddr block i) 4

end Block

/-! ## Blocks -/

def kmemInit (h : Heap) : Heap := { h with block := 0, sequence := 0, currentObjects := 0 }

def kmemCurrentObjects (h : Heap) : BitVec 32 := h.currentObjects

def kmemAddBlock (h : Heap) (start size chunkSize : Nat) : Except Trap Heap :=
  let m := h.mem.write start 8 (BitVec.ofNat 64 h.block)
  let m := m.write (start + 8) 8 (BitVec.ofNat 64 (size + 2 ^ 64 - sizeofBlock))
  let m := m.write (start + 20) 4 (BitVec.ofNat 32 chunkSize)
  if Block.chunkSize m start = 0 then .error .divideError
  else
    let m := m.write (start + 16) 4
      (BitVec.ofNat 32 (Block.size m start / Block.chunkSize m start))
    let m := m.write (start + 16) 4
      (BitVec.ofNat 32 (Block.nChunks m start / sizeofMask * sizeofMask))
    -- The bitmap is cleared for one byte a chunk, not one bit a chunk.
    let m := m.fill (start + sizeofBlock) (Block.nChunks m start) 0
    .ok { h with mem := m, block := start }

/-- The pointer is reduced as a signed `long`. An aligned pointer moves on too. -/
def align8 (p : Nat) : Nat :=
  let pint : Int := (BitVec.ofNat 64 p).toInt
  (((p : Int) + 8 - pint.tmod 8) % 2 ^ 64).toNat

/-- The first usable part of a block, just past the chunk masks. The bitmap is
taken to be a quarter of a byte a chunk. -/
def kmemBlockStart (m : ByteMem) (block : Nat) : Nat :=
  align8 (wrap64 (block + sizeofBlock + Block.nChunks m block / sizeofMask))

/-! ## Allocation -/

def testBits (p mask : BitVec 32) : Bool := mask &&& p == mask

/-- `(1 << n) - 1`; the processor takes the shift count modulo 32. -/
def lowMask (n : Nat) : BitVec 32 := (1#32 <<< (n % 32)) - 1#32

/-- How many chunks an allocation of `size` bytes, header included, needs. -/
def requiredChunks (chunkSize size : Nat) : Nat :=
  let n := wrap32 (size / chunkSize)
  if wrap32 (chunkSize * n) < size then wrap32 (n + 1) else n

/-- The loop over `bit`, with `left` positions to go. -/
def scanBits (word : BitVec 32) : (left bit : Nat) → (mask : BitVec 32) → Option (Nat × BitVec 32)
  | 0, _, _ => none
  | left + 1, bit, mask =>
      if testBits (~~~word) mask then some (bit, mask)
      else scanBits word left (bit + 1) (mask <<< 1)

/-- The loop over `chunk`, with `left` bitmap words to go. -/
def scanChunks (m : ByteMem) (block required : Nat) :
    (left chunk : Nat) → Option (Nat × Nat × BitVec 32)
  | 0, _ => none
  | left + 1, chunk =>
      match scanBits (Block.chunkMask m block chunk) (sizeofMask * 8 - required + 1) 0
          (lowMask required) with
      | some (bit, mask) => some (chunk, bit, mask)
      | none => scanChunks m block required left (chunk + 1)

/-- Where `kmem_alloc` found room. -/
structure Placement where
  block : Nat
  chunk : Nat
  bit : Nat
  required : Nat
  mask : BitVec 32
  deriving DecidableEq

/-- The loop over the blocks from `block` on. `size` includes the header. -/
def findRoom (m : ByteMem) (size : Nat) : (fuel block : Nat) → Except Trap Placement
  | 0, _ => .error .diverged
  | fuel + 1, block =>
      if block = 0 then .error (.panic "out of memory")
      else if Block.chunkSize m block = 0 then .error .divideError
      else
        let required := requiredChunks (Block.chunkSize m block) size
        if 32 < required then findRoom m size fuel (Block.next m block)
        else
          -- The bound is the number of chunks, although the index counts words.
          match scanChunks m block required (Block.nChunks m block) 0 with
          | some (chunk, bit, mask) => .ok ⟨block, chunk, bit, required, mask⟩
          | none => findRoom m size fuel (Block.next m block)

/-- An acyclic list of blocks has fewer than `2 ^ 64` of them. -/
def kmemFind (h : Heap) (size : Nat) : Except Trap Placement :=
  findRoom h.mem (wrap64 (size + sizeofAllocationHeader)) (2 ^ 64) h.block

/-- Mark the chunks and write the allocation header: the body of the innermost
`if` of `kmem_alloc`. -/
def kmemTake (h : Heap) (p : Placement) : Nat × Heap :=
  let m := h.mem.write (Block.chunkMaskAddr p.block p.chunk) 4
    (Block.chunkMask h.mem p.block p.chunk ||| p.mask)
  let offset := wrap64 (Block.chunkSize m p.block *
    wrap64 (wrap32 (p.chunk * 8) * sizeofMask + p.bit))
  let memory := wrap64 (kmemBlockStart m p.block + offset)
  let m := m.write memory 4 (BitVec.ofNat 32 p.required)
  let m := m.write (memory + 4) 4 h.sequence
  (wrap64 (memory + sizeofAllocationHeader),
    { h with mem := m, sequence := h.sequence + 1, currentObjects := h.currentObjects + 1 })

def kmemAlloc (h : Heap) (size : Nat) : Except Trap (Nat × Heap) := do
  let p ← kmemFind h size
  return kmemTake h p

/-! ## Release -/

/-- The bitmap word that `kmem_free_from_block` works on. The byte offset is
divided by the size of a mask, not by its number of bits. -/
def chunkSetOf (m : ByteMem) (block header : Nat) : Nat :=
  wrap32 (wrap64 (header + 2 ^ 64 - kmemBlockStart m block) / Block.chunkSize m block / sizeofMask)

/-- The bit position within that word: a signed pointer difference, divided and
then narrowed to 32 bits. -/
def shiftOf (m : ByteMem) (block header : Nat) : Nat :=
  let firstForChunkSet :=
    wrap64 (kmemBlockStart m block + 8 * sizeofMask * chunkSetOf m block header)
  let difference := ((header : Int) - firstForChunkSet).bmod (2 ^ 64)
  (difference.tdiv (Block.chunkSize m block) % 2 ^ 32).toNat

def kmemFreeFromBlock (h : Heap) (block header : Nat) : Except Trap Heap :=
  if Block.chunkSize h.mem block = 0 then .error .divideError
  else
    let chunkSet := chunkSetOf h.mem block header
    let mask := lowMask (h.mem.read header 4).toNat <<< (shiftOf h.mem block header % 32)
    let m := h.mem.write (Block.chunkMaskAddr block chunkSet) 4
      (Block.chunkMask h.mem block chunkSet &&& ~~~mask)
    .ok { h with mem := m, currentObjects := h.currentObjects - 1 }

/-- The test by which `kmem_free` recognises the block of `ptr`. The byte length
of the block is a 32-bit product. -/
def ownsPtr (m : ByteMem) (block ptr : Nat) : Bool :=
  decide (kmemBlockStart m block ≤ ptr) && decide (ptr < wrap64 (kmemBlockStart m block +
    wrap32 (Block.nChunks m block * Block.chunkSize m block)))

/-- The loop of `kmem_free` over the blocks from `block` on. -/
def findOwner (m : ByteMem) (ptr : Nat) : (fuel block : Nat) → Except Trap Nat
  | 0, _ => .error .diverged
  | fuel + 1, block =>
      if block = 0 then .error (.panic "could not find block for memory")
      else if ownsPtr m block ptr then .ok block
      else findOwner m ptr fuel (Block.next m block)

def kmemFree (h : Heap) (ptr : Nat) : Except Trap Heap := do
  let block ← findOwner h.mem ptr (2 ^ 64) h.block
  kmemFreeFromBlock h block (wrap64 (ptr + 2 ^ 64 - sizeofAllocationHeader))

end BadOs
