import BadOs.Compare
import BadOs.Fs.Vfs

/-!
# Finding FAT32 volumes

`init_fat32` reads the first sector of a disk, looks for `FAT32` in it, and reads the root
directory before it registers the volume.
-/

namespace BadOs

/-! ## `fat32.c` -/

/-- The first sector of a disk: `bios_parameter_block` and `fat32_boot_sector`. -/
structure BootSector where
  bytes : ByteMem

namespace BootSector

def sectorsPerCluster (b : BootSector) : BitVec 8 := b.bytes 13

def reservedSectors (b : BootSector) : BitVec 16 := b.bytes.read 14 2

def noFats (b : BootSector) : BitVec 8 := b.bytes 16

def tableSize (b : BootSector) : BitVec 32 := b.bytes.read 36 4

def rootCluster (b : BootSector) : BitVec 32 := b.bytes.read 44 4

def fatTypeLabel (b : BootSector) : ByteMem := b.bytes.shift 82

def layout (b : BootSector) : FatLayout where
  reservedSectors := b.reservedSectors
  sectorsPerCluster := b.sectorsPerCluster
  noFats := b.noFats
  tableSize := b.tableSize
  rootCluster := b.rootCluster

end BootSector

/-- The literal `"FAT32"`. -/
def fat32 : ByteMem := fun i => (([0x46, 0x41, 0x54, 0x33, 0x32] : List (BitVec 8))[i]?).getD 0

section

variable {S : Type}

/-- `fat_device` of a disk with this first sector. -/
def FatDevice.ofSector (dev : StorageDevice S) (b : BootSector) : FatDevice S :=
  { b.layout with store := dev }

/-- The call of `read_sector` for the root directory. -/
def readRoot (dev : StorageDevice S) (b : BootSector) (s : S) :
    Except Trap ((BitVec 32 × ByteMem) × S) :=
  let lba := b.layout.lbaOfCluster b.layout.rootCluster
  dev.readSector (lba.setWidth 64) (fun _ => 0) 512 s

/-- The file systems are those of `vfs.c`. What is printed is left out. -/
def initFat32 (dev : StorageDevice S) (fileSystems : List (FileSystem S)) (s : S) :
    Except Trap (List (FileSystem S) × S) := do
  let ((r, bytes), s) ← dev.readSector 0 (fun _ => 0) 512 s
  let b : BootSector := ⟨bytes⟩
  if Errno.ok.code ≠ r then return (fileSystems, s)
  else if 0 ≠ memcmp b.fatTypeLabel fat32 5 then return (fileSystems, s)
  else
    let ((r, _), s) ← readRoot dev b s
    if r ≠ 0 then return (fileSystems, s)
    else return (Vfs.registerFs fileSystems (FatDevice.ofSector dev b).fileSystem, s)

/-- The first five bytes of the label are as they should be. -/
def BootSector.IsFat32 (b : BootSector) : Prop := ∀ i < 5, b.fatTypeLabel i = fat32 i

/-- The first sector is read without an error. -/
def HasSector (dev : StorageDevice S) (s : S) (b : BootSector) (s' : S) : Prop :=
  dev.readSector 0 (fun _ => 0) 512 s = .ok ((Errno.ok.code, b.bytes), s')

/-- The root directory is read without an error. -/
def HasRoot (dev : StorageDevice S) (b : BootSector) (s : S) : Prop :=
  ∃ root s', readRoot dev b s = .ok ((0, root), s')

/-- A volume is registered only if its first sector says that it is one. -/
def RegistersFat32 (dev : StorageDevice S) (fileSystems : List (FileSystem S)) (s : S) : Prop :=
  ∀ fileSystems' s', initFat32 dev fileSystems s = .ok (fileSystems', s') →
    fileSystems' ≠ fileSystems → ∃ b s₁, HasSector dev s b s₁ ∧ b.IsFat32

variable {dev : StorageDevice S} {fileSystems fileSystems' : List (FileSystem S)} {s s₁ s' : S}
  {b : BootSector}

/-- What is registered had both sectors, and the first byte of the label. -/
theorem hasSector_of_registered (h : initFat32 dev fileSystems s = .ok (fileSystems', s'))
    (hne : fileSystems' ≠ fileSystems) :
    ∃ b s₁, HasSector dev s b s₁ ∧ b.fatTypeLabel 0 = fat32 0 ∧ HasRoot dev b s₁ := by
  obtain ⟨⟨⟨r, bytes⟩, s₁⟩, hread, h⟩ := Except.bind_eq_ok.mp h
  dsimp only at h
  split at h
  · cases h
    exact absurd rfl hne
  · next hr =>
    obtain rfl : Errno.ok.code = r := not_not.mp hr
    split at h
    · cases h
      exact absurd rfl hne
    · next hcompare =>
      obtain ⟨⟨⟨r', root⟩, s₂⟩, hroot, h⟩ := Except.bind_eq_ok.mp h
      dsimp only at h
      split at h
      · cases h
        exact absurd rfl hne
      · next hr' =>
        obtain rfl : r' = 0 := not_not.mp hr'
        refine ⟨⟨bytes⟩, s₁, hread, ?_, root, s₂, hroot⟩
        by_contra hfirst
        have hresult := memcmp_of_ne hfirst (show 0 < 5 by decide)
        rw [← not_not.mp hcompare] at hresult
        split at hresult <;> cases hresult

theorem registered_of_hasSector (fileSystems : List (FileSystem S))
    (hsector : HasSector dev s b s₁) (hfirst : b.fatTypeLabel 0 = fat32 0)
    (hroot : HasRoot dev b s₁) :
    ∃ s', initFat32 dev fileSystems s =
      .ok (fileSystems ++ [(FatDevice.ofSector dev b).fileSystem], s') := by
  obtain ⟨root, s₂, hroot⟩ := hroot
  refine ⟨s₂, Except.bind_eq_ok.mpr ⟨_, hsector, ?_⟩⟩
  dsimp only
  rw [if_neg (not_not.mpr rfl), if_neg (not_not.mpr (memcmp_of_eq hfirst 5).symm)]
  exact Except.bind_eq_ok.mpr ⟨_, hroot, if_neg (not_not.mpr rfl)⟩

/-- The label is looked at as far as its first byte. -/
theorem registersFat32_iff (dev : StorageDevice S) (fileSystems : List (FileSystem S)) (s : S) :
    RegistersFat32 dev fileSystems s ↔ ∀ b s₁, HasSector dev s b s₁ →
      b.IsFat32 ∨ b.fatTypeLabel 0 ≠ fat32 0 ∨ ¬HasRoot dev b s₁ := by
  constructor
  · intro h b s₁ hsector
    by_contra hnone
    obtain ⟨hlabel, hrest⟩ := not_or.mp hnone
    obtain ⟨hfirst, hroot⟩ := not_or.mp hrest
    obtain ⟨s', hrun⟩ := registered_of_hasSector fileSystems hsector
      (not_not.mp hfirst) (not_not.mp hroot)
    have hne : fileSystems ++ [(FatDevice.ofSector dev b).fileSystem] ≠ fileSystems :=
      fun heq => absurd (List.append_right_eq_self.mp heq) (List.cons_ne_nil _ _)
    obtain ⟨⟨bytes⟩, s₁', hsector', hlabel'⟩ := h _ _ hrun hne
    cases b
    cases hsector.symm.trans hsector'
    exact hlabel hlabel'
  · intro hcond fileSystems' s' hrun hne
    obtain ⟨b, s₁, hsector, hfirst, hroot⟩ := hasSector_of_registered hrun hne
    obtain hlabel | hfirst' | hroot' := hcond b s₁ hsector
    · exact ⟨b, s₁, hsector, hlabel⟩
    · exact absurd hfirst hfirst'
    · exact absurd hroot hroot'

end

/-- `"ac"` and `"ab"` are taken to be equal, and a disk full of the letter `F` is taken to be a
volume. -/
theorem memcmp_first_byte : (¬∀ (a b : ByteMem) (n : Nat), ComparesBytes a b n) ∧
    ¬∀ (dev : StorageDevice Unit) (fileSystems : List (FileSystem Unit)) (s : Unit),
      RegistersFat32 dev fileSystems s := by
  constructor
  · intro claim
    have hequal := (claim (fun i => (([0x61, 0x63] : List (BitVec 8))[i]?).getD 0)
      (fun i => (([0x61, 0x62] : List (BitVec 8))[i]?).getD 0) 2).zero_iff
    exact absurd (hequal.mp (by decide) 1 (by decide)) (by decide)
  · intro claim
    have hcond := (registersFat32_iff ⟨fun _ _ _ s => .ok ((0, fun _ => 0x46), s)⟩ [] ()).mp
      (claim _ _ _) ⟨fun _ => 0x46⟩ () rfl
    obtain hlabel | hfirst | hroot := hcond
    · exact absurd (hlabel 1 (by decide)) (by decide)
    · exact hfirst (by decide)
    · exact hroot ⟨_, _, rfl⟩

/-- `memcmp` is right exactly if the first bytes differ or all of them are equal, and what is
registered is a volume exactly if the label is right, its first byte is wrong, or the root directory
cannot be read. -/
theorem memcmp_fat32_iff {S : Type} (a b : ByteMem) (n : Nat) (dev : StorageDevice S)
    (fileSystems : List (FileSystem S)) (s : S) :
    (ComparesBytes a b n ↔ a 0 ≠ b 0 ∨ ∀ i < n, a i = b i) ∧
      (RegistersFat32 dev fileSystems s ↔ ∀ b s₁, HasSector dev s b s₁ →
        b.IsFat32 ∨ b.fatTypeLabel 0 ≠ fat32 0 ∨ ¬HasRoot dev b s₁) :=
  ⟨comparesBytes_iff a b n, registersFat32_iff dev fileSystems s⟩

end BadOs
