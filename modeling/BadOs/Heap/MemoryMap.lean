import BadOs.Data.Ranges
import BadOs.Heap.Layout

/-!
# The heap that the loader's memory map gives

`parse_memory_map` walks the E820 table that the loader left and makes a block of every usable
entry, as far as it lies above the kernel. An entry that ends right there, or a few bytes
further on, passes the test as well.
-/

namespace BadOs

/-- `struct E820`. The other two fields are not read. -/
structure E820 where
  ptr : BitVec 64
  len : BitVec 64
  type : BitVec 32
  deriving DecidableEq

namespace E820

/-- `HeapStart`. -/
def heapStart : BitVec 64 := 0x200000

/-- The test that ends the loop. -/
def IsEnd (e : E820) : Prop := e.ptr = 0 ∧ e.len = 0

/-- `table->len && (table->type == 1)`. -/
def Usable (e : E820) : Prop := e.len ≠ 0 ∧ e.type = 1

instance (e : E820) : Decidable e.IsEnd := inferInstanceAs (Decidable (_ ∧ _))

instance (e : E820) : Decidable e.Usable := inferInstanceAs (Decidable (_ ∧ _))

/-- The block that the loop adds for an entry, if it adds one. -/
def block? (e : E820) : Option Region :=
  if e.Usable ∧ heapStart ≤ e.ptr + e.len then
    if e.ptr < heapStart then
      some ⟨heapStart.toNat, (e.len - (heapStart - e.ptr)).toNat, 0x400⟩
    else some ⟨e.ptr.toNat, e.len.toNat, 0x400⟩
  else none

end E820

/-- The loop over the table. It runs on until it finds the end mark. -/
def parseEntries : List E820 → Heap → Except Trap Heap
  | [], _ => .error .outOfBounds
  | e :: table, h =>
      if e.IsEnd then .ok h
      else do
        let h ← match e.block? with
          | some r => kmemAddBlock h r.start r.size r.chunkSize
          | none => .ok h
        parseEntries table h

/-- The block below the kernel comes first. -/
def lowBlock : Region := ⟨0x8000, 0x2000, 0x80⟩

def parseMemoryMap (table : List E820) (h : Heap) : Except Trap Heap := do
  let h ← kmemAddBlock h lowBlock.start lowBlock.size lowBlock.chunkSize
  parseEntries table h

/-! ## The blocks of a table -/

/-- The entries before the end mark. -/
def tableEntries (table : List E820) : List E820 := table.takeWhile fun e => !decide e.IsEnd

/-- The blocks that the table gives, in order. -/
def tableBlocks (table : List E820) : List Region := (tableEntries table).filterMap E820.block?

def E820.range (e : E820) : AddrRange := ⟨e.ptr.toNat, e.len.toNat⟩

def Region.range (r : Region) : AddrRange := ⟨r.start, r.size⟩

/-- The part of an entry that is above the kernel. -/
def E820.clipped (e : E820) : AddrRange := e.range.clip E820.heapStart.toNat

/-- What the blocks are meant to be: each is a part of one usable entry, above the kernel,
with room for the `Block` structure, and every byte of a usable entry there is in exactly one
of them, unless the entry is too small. -/
structure MapsUsable (entries : List E820) (rs : List Region) : Prop where
  part : ∀ r ∈ rs, ∃ e ∈ entries, e.Usable ∧ e.ptr.toNat ≤ r.start ∧
    r.start + r.size ≤ e.ptr.toNat + e.len.toNat
  above : ∀ r ∈ rs, E820.heapStart.toNat ≤ r.start
  room : ∀ r ∈ rs, sizeofBlock ≤ r.size
  covered : ∀ e ∈ entries, e.Usable → sizeofBlock ≤ e.clipped.size →
    ∀ x, E820.heapStart.toNat ≤ x → e.range.Contains x →
      rs.countP (fun r => decide (r.range.Contains x)) = 1

section

variable {e : E820} {table : List E820} {h : Heap}

/-- A non-zero chunk size is the only thing that `kmem_add_block` needs. -/
theorem kmemAddBlock_total (h : Heap) (start size : Nat) {chunkSize : Nat}
    (hpos : BitVec.ofNat 32 chunkSize ≠ 0) :
    ∃ h', kmemAddBlock h start size chunkSize = .ok h' := by
  refine ⟨_, if_neg ?_⟩
  intro hzero
  rw [Block.chunkSize, ByteMem.read_write_self] at hzero
  exact hpos (BitVec.eq_of_toNat_eq hzero)

theorem E820.block?_chunkSize {r : Region} (hr : e.block? = some r) : r.chunkSize = 0x400 := by
  unfold E820.block? at hr
  split at hr
  · split at hr <;> cases hr <;> rfl
  · cases hr

/-- The blocks are added one after the other. -/
theorem parseEntries_eq (ended : ∃ e ∈ table, e.IsEnd) (h : Heap) :
    parseEntries table h = addBlocks h (tableBlocks table) := by
  induction table generalizing h with
  | nil =>
      obtain ⟨_, hmem, _⟩ := ended
      cases hmem
  | cons e table ih =>
      rw [parseEntries, tableBlocks, tableEntries]
      by_cases hend : e.IsEnd
      · simp [hend, addBlocks, Transition.exec]
      · have ended' : ∃ e ∈ table, e.IsEnd := by
          obtain ⟨e', hmem, hend'⟩ := ended
          obtain rfl | hmem := List.mem_cons.mp hmem
          · exact absurd hend' hend
          · exact ⟨e', hmem, hend'⟩
        rw [if_neg hend, List.takeWhile_cons_of_pos (by simp [hend])]
        cases hblock : e.block? with
        | none =>
            rw [List.filterMap_cons_none hblock]
            exact ih ended' h
        | some r =>
            rw [List.filterMap_cons_some hblock]
            exact bind_congr fun h' => ih ended' h'

theorem addBlocks_total (h : Heap) {rs : List Region} (hsize : ∀ r ∈ rs, r.chunkSize = 0x400) :
    ∃ h', addBlocks h rs = .ok h' := by
  induction rs generalizing h with
  | nil => exact ⟨h, rfl⟩
  | cons r rs ih =>
      obtain ⟨hr, hrest⟩ := List.forall_mem_cons.mp hsize
      have hchunk : BitVec.ofNat 32 r.chunkSize ≠ 0 := by
        rw [hr]
        decide
      obtain ⟨h₁, hadd⟩ := kmemAddBlock_total h r.start r.size hchunk
      obtain ⟨h₂, hadd'⟩ := ih h₁ hrest
      exact ⟨h₂, Except.bind_eq_ok.mpr ⟨h₁, hadd, hadd'⟩⟩

/-- An entry that does not wrap around gives its part above the kernel. -/
theorem E820.block?_eq (hbound : e.ptr.toNat + e.len.toNat < 2 ^ 64) :
    e.block? = if e.Usable ∧ heapStart.toNat ≤ e.ptr.toNat + e.len.toNat then
      some ⟨e.clipped.start, e.clipped.size, 0x400⟩ else none := by
  have hsum : (e.ptr + e.len).toNat = e.ptr.toNat + e.len.toNat := BitVec.toNat_add_of_lt hbound
  have hstart : heapStart.toNat = 0x200000 := rfl
  have htest : heapStart ≤ e.ptr + e.len ↔ heapStart.toNat ≤ e.ptr.toNat + e.len.toNat := by
    rw [BitVec.le_def, hsum]
  simp only [block?, htest]
  split
  · next hadded =>
    obtain ⟨-, hend⟩ := hadded
    simp only [clipped, range, AddrRange.clip]
    split
    · next hlow =>
      have hlow : e.ptr.toNat < 0x200000 := hlow
      have hdiff : (heapStart - e.ptr).toNat = 0x200000 - e.ptr.toNat :=
        BitVec.toNat_sub_of_le hlow.le
      have hlen : (e.len - (heapStart - e.ptr)).toNat = e.len.toNat - (0x200000 - e.ptr.toNat) := by
        rw [BitVec.toNat_sub_of_le (BitVec.le_def.mpr (by omega)), hdiff]
      have hsize : e.len.toNat - (0x200000 - e.ptr.toNat) =
          e.ptr.toNat + e.len.toNat - 0x200000 := by omega
      have hmax : max heapStart.toNat e.ptr.toNat = 0x200000 := by omega
      rw [hmax, hlen, hsize, hstart]
    · next hlow =>
      have hlow : 0x200000 ≤ e.ptr.toNat := BitVec.not_lt.mp hlow
      have hmax : max heapStart.toNat e.ptr.toNat = e.ptr.toNat := by omega
      rw [hmax, Nat.add_sub_cancel_left]
  · rfl

/-- A block that is added comes from an entry of the table. -/
theorem mem_tableBlocks (hbound : ∀ e ∈ tableEntries table, e.ptr.toNat + e.len.toNat < 2 ^ 64)
    {r : Region} : r ∈ tableBlocks table ↔ ∃ e ∈ tableEntries table, e.Usable ∧
      E820.heapStart.toNat ≤ e.ptr.toNat + e.len.toNat ∧
      r = ⟨e.clipped.start, e.clipped.size, 0x400⟩ := by
  simp only [tableBlocks, List.mem_filterMap]
  refine exists_congr fun e => and_congr_right fun he => ?_
  rw [E820.block?_eq (hbound e he)]
  split
  · next hadded => simp [hadded, eq_comm]
  · next hadded =>
    constructor
    · intro hnone
      cases hnone
    · rintro ⟨husable, hend, -⟩
      exact absurd ⟨husable, hend⟩ hadded

/-- Every byte of a usable entry above the kernel is in exactly one block. -/
theorem tableBlocks_covered
    (hbound : ∀ e ∈ tableEntries table, e.ptr.toNat + e.len.toNat < 2 ^ 64)
    (apart : (tableEntries table).Pairwise fun e e' => e.range.Apart e'.range)
    (he : e ∈ tableEntries table) (husable : e.Usable) {x : Nat}
    (habove : E820.heapStart.toNat ≤ x) (hx : e.range.Contains x) :
    (tableBlocks table).countP (fun r => decide (r.range.Contains x)) = 1 := by
  have hpass : ∀ e' ∈ tableEntries table,
      ((e'.block?.map fun r => decide (r.range.Contains x)).getD false = true ↔
        e'.Usable ∧ e'.range.Contains x) := by
    intro e' he'
    rw [E820.block?_eq (hbound e' he')]
    split
    · next hadded =>
      have hclip : (Region.range ⟨e'.clipped.start, e'.clipped.size, 0x400⟩).Contains x ↔
          E820.heapStart.toNat ≤ x ∧ e'.range.Contains x := AddrRange.contains_clip
      simp [hclip, habove, hadded.1]
    · next hadded =>
      constructor
      · intro hfalse
        cases hfalse
      · rintro ⟨husable', hx'⟩
        refine absurd ⟨husable', ?_⟩ hadded
        have hlt : x < e'.ptr.toNat + e'.len.toNat := hx'.2
        omega
  rw [tableBlocks, List.countP_filterMap]
  refine List.countP_eq_one ?_ he ((hpass e he).mpr ⟨husable, hx⟩)
  refine apart.imp_of_mem fun hmem hmem' happart hin hin' => ?_
  exact happart x ((hpass _ hmem).mp hin).2 ((hpass _ hmem').mp hin').2

/-- The condition on the entries under which the blocks are right. -/
def RoomAbove (entries : List E820) : Prop :=
  ∀ e ∈ entries, e.Usable → E820.heapStart.toNat ≤ e.ptr.toNat + e.len.toNat →
    sizeofBlock ≤ e.clipped.size

instance (entries : List E820) : Decidable (RoomAbove entries) :=
  inferInstanceAs (Decidable (∀ e ∈ entries, _ → _ → _))

theorem RoomAbove.mapsUsable (room : RoomAbove (tableEntries table))
    (hbound : ∀ e ∈ tableEntries table, e.ptr.toNat + e.len.toNat < 2 ^ 64)
    (apart : (tableEntries table).Pairwise fun e e' => e.range.Apart e'.range) :
    MapsUsable (tableEntries table) (tableBlocks table) where
  part r hr := by
    obtain ⟨e, he, husable, hend, rfl⟩ := (mem_tableBlocks hbound).mp hr
    have hroom := room e he husable hend
    obtain ⟨hstart, hstop⟩ := AddrRange.clip_le (Nat.lt_of_lt_of_le (by decide) hroom)
    exact ⟨e, he, husable, hstart, hstop.le⟩
  above r hr := by
    obtain ⟨e, _, _, _, rfl⟩ := (mem_tableBlocks hbound).mp hr
    exact Nat.le_max_left _ _
  room r hr := by
    obtain ⟨e, he, husable, hend, rfl⟩ := (mem_tableBlocks hbound).mp hr
    exact room e he husable hend
  covered e he husable _ x habove hx := tableBlocks_covered hbound apart he husable habove hx

/-- The regions of such a table make a well-formed heap. -/
theorem parseMemoryMap_formed {h' : Heap} (room : RoomAbove (tableEntries table))
    (ended : ∃ e ∈ table, e.IsEnd)
    (hbound : ∀ e ∈ tableEntries table, e.ptr.toNat + e.len.toNat < 2 ^ 64)
    (apart : (tableEntries table).Pairwise fun e e' => e.range.Apart e'.range)
    (hparse : parseMemoryMap table (kmemInit h) = .ok h') :
    Formed h'.mem h'.block ((tableBlocks table).reverse ++ [lowBlock]) := by
  have hadd : addBlocks (kmemInit h) (lowBlock :: tableBlocks table) = .ok h' := by
    obtain ⟨h₁, hlow, hrest⟩ := Except.bind_eq_ok.mp hparse
    rw [parseEntries_eq ended] at hrest
    exact Except.bind_eq_ok.mpr ⟨h₁, hlow, hrest⟩
  have hblock : ∀ r ∈ tableBlocks table, r.Valid ∧ 0x200000 ≤ r.start := by
    intro r hr
    obtain ⟨e, he, husable, hend, rfl⟩ := (mem_tableBlocks hbound).mp hr
    have hroom := room e he husable hend
    have habove : 0x200000 ≤ e.clipped.start := Nat.le_max_left _ _
    obtain ⟨-, hstop⟩ := AddrRange.clip_le (Nat.lt_of_lt_of_le (by decide) hroom)
    refine ⟨⟨by dsimp only; omega, hroom, ?_⟩, habove⟩
    exact hstop.trans_lt (hbound e he)
  have hdisjoint : (tableBlocks table).Pairwise Region.Disjoint := by
    refine List.Pairwise.filterMap _ ?_ (apart.imp_of_mem (S := fun e e' =>
      e ∈ tableEntries table ∧ e' ∈ tableEntries table ∧ e.range.Apart e'.range)
      fun he he' happart => ⟨he, he', happart⟩)
    rintro e e' ⟨he, he', happart⟩ r hr r' hr'
    rw [E820.block?_eq (hbound e he)] at hr
    rw [E820.block?_eq (hbound e' he')] at hr'
    split at hr <;> cases hr
    next hadded =>
    split at hr' <;> cases hr'
    next hadded' =>
    have hroom := room e he hadded.1 hadded.2
    have hroom' := room e' he' hadded'.1 hadded'.2
    have hclip : e.clipped.Apart e'.clipped := fun x hx hx' =>
      happart x (AddrRange.contains_clip.mp hx).2 (AddrRange.contains_clip.mp hx').2
    exact hclip.before_or_after (Nat.lt_of_lt_of_le (by decide) hroom)
      (Nat.lt_of_lt_of_le (by decide) hroom')
  have formed := addBlocks_formed (kmemInit_formed h)
    (List.forall_mem_cons.mpr ⟨by decide, fun r hr => (hblock r hr).1⟩) (by simp)
    (List.pairwise_cons.mpr ⟨fun r hr => Or.inl ?_, hdisjoint⟩) hadd
  · simpa only [List.reverse_cons, List.append_nil] using formed
  · exact Nat.le_trans (by decide) (hblock r hr).2

/-- Every block of the table is part of a usable entry above the kernel, has room for its
`Block` structure, and every byte that such an entry has there is in exactly one block: this
holds exactly if each usable entry that reaches the start of the heap has that much room. -/
theorem parse_memory_map_iff (table : List E820) (ended : ∃ e ∈ table, e.IsEnd)
    (hbound : ∀ e ∈ tableEntries table, e.ptr.toNat + e.len.toNat < 2 ^ 64)
    (apart : (tableEntries table).Pairwise fun e e' => e.range.Apart e'.range) (h : Heap) :
    (∃ h', parseMemoryMap table h = .ok h' ∧
        addBlocks h (lowBlock :: tableBlocks table) = .ok h') ∧
      (MapsUsable (tableEntries table) (tableBlocks table) ↔ RoomAbove (tableEntries table)) := by
  refine ⟨?_, fun maps e he husable hend => ?_, fun room => room.mapsUsable hbound apart⟩
  · have hchunk : BitVec.ofNat 32 lowBlock.chunkSize ≠ 0 := by decide
    obtain ⟨h₁, hlow⟩ := kmemAddBlock_total h lowBlock.start lowBlock.size hchunk
    have hsize : ∀ r ∈ tableBlocks table, r.chunkSize = 0x400 := by
      intro r hr
      obtain ⟨e, _, hblock⟩ := List.mem_filterMap.mp hr
      exact e.block?_chunkSize hblock
    obtain ⟨h₂, hrest⟩ := addBlocks_total h₁ hsize
    refine ⟨h₂, Except.bind_eq_ok.mpr ⟨h₁, hlow, ?_⟩, Except.bind_eq_ok.mpr ⟨h₁, hlow, hrest⟩⟩
    rw [parseEntries_eq ended, hrest]
  · exact maps.room _ ((mem_tableBlocks hbound).mpr ⟨e, he, husable, hend, rfl⟩)

/-- A table with usable memory on both sides of the kernel, for concrete runs. -/
def smallTable (low : BitVec 64) : List E820 :=
  [⟨0, 0x9fc00, 1⟩, ⟨0x100000, low, 1⟩, ⟨0x7fe0000, 0x20000, 2⟩, ⟨0, 0, 0⟩]

theorem apart_of_sorted {entries : List E820}
    (sorted : entries.Pairwise fun e e' => e.range.start + e.range.size ≤ e'.range.start) :
    entries.Pairwise fun e e' => e.range.Apart e'.range :=
  sorted.imp AddrRange.Apart.of_before

/-- The second entry ends at the start of the heap. -/
theorem parse_memory_map_empty_block : ¬∀ table : List E820, (∃ e ∈ table, e.IsEnd) →
    (∀ e ∈ tableEntries table, e.ptr.toNat + e.len.toNat < 2 ^ 64) →
    ((tableEntries table).Pairwise fun e e' => e.range.Apart e'.range) →
    MapsUsable (tableEntries table) (tableBlocks table) := by
  intro claim
  have maps := claim (smallTable 0x100000) ⟨⟨0, 0, 0⟩, by decide, by decide⟩ (by decide)
    (apart_of_sorted (by decide))
  exact absurd (maps.room ⟨0x200000, 0, 0x400⟩ (by decide)) (by decide)

theorem parse_memory_map_small :
    (∃ h', parseMemoryMap (smallTable 0x7ee0000) ⟨fun _ => 0, 0, 0, 0⟩ = .ok h' ∧
        addBlocks ⟨fun _ => 0, 0, 0, 0⟩ [lowBlock, ⟨0x200000, 0x7de0000, 0x400⟩] = .ok h') ∧
      MapsUsable (tableEntries (smallTable 0x7ee0000)) [⟨0x200000, 0x7de0000, 0x400⟩] := by
  obtain ⟨hrun, hmaps⟩ := parse_memory_map_iff (smallTable 0x7ee0000)
    ⟨⟨0, 0, 0⟩, by decide, by decide⟩ (by decide) (apart_of_sorted (by decide))
    ⟨fun _ => 0, 0, 0, 0⟩
  exact ⟨hrun, hmaps.mpr (by decide)⟩

end

end BadOs
