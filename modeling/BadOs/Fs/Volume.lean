import BadOs.Fs.Fat32
import Mathlib.Tactic.Ring

/-!
# FAT32 volumes

What a volume holds, by its table of clusters, and what `find` and `slurp` make of it.
-/

namespace BadOs

namespace FatLayout

/-- The first sector of a cluster. -/
def sectorOf (self : FatLayout) (cluster : Nat) : Nat :=
  self.reservedSectors.toNat + self.noFats.toNat * self.tableSize.toNat +
    (cluster - 2) * self.sectorsPerCluster.toNat

/-- The cluster behind another one, in the first table. -/
def nextCluster (self : FatLayout) (disk : ByteMem) (cluster : Nat) : Nat :=
  (disk.read (512 * self.reservedSectors.toNat + 4 * cluster) 4).toNat % 2 ^ 28

/-- The clusters of a file. -/
def clusters (self : FatLayout) (disk : ByteMem) (first : Nat) : Nat → Nat
  | 0 => first
  | k + 1 => self.nextCluster disk (self.clusters disk first k)

/-- Byte `i` of a file. -/
def fileByte (self : FatLayout) (disk : ByteMem) (e : DirectoryEntry) (i : Nat) : BitVec 8 :=
  let size := 512 * self.sectorsPerCluster.toNat
  disk (512 * self.sectorOf (self.clusters disk e.cluster.toNat (i / size)) + i % size)

/-- The file goes on in the next cluster as long as it has `n` bytes. -/
def Consecutive (self : FatLayout) (disk : ByteMem) (e : DirectoryEntry) (n : Nat) : Prop :=
  ∀ k, 512 * self.sectorsPerCluster.toNat * k < n →
    self.clusters disk e.cluster.toNat k = e.cluster.toNat + k

/-- The cluster is in the data area, and 32 bits are enough for its first sector. -/
def Addressable (self : FatLayout) (cluster : BitVec 32) : Prop :=
  2 ≤ cluster.toNat ∧ self.sectorOf cluster.toNat < 2 ^ 32

/-! ### The fields as 32-bit numbers -/

@[simp] theorem toNat_reservedSectors (self : FatLayout) :
    (self.reservedSectors.setWidth 32).toNat = self.reservedSectors.toNat :=
  BitVec.toNat_setWidth_of_le (by decide)

@[simp] theorem toNat_noFats (self : FatLayout) :
    (self.noFats.setWidth 32).toNat = self.noFats.toNat :=
  BitVec.toNat_setWidth_of_le (by decide)

@[simp] theorem toNat_sectorsPerCluster (self : FatLayout) :
    (self.sectorsPerCluster.setWidth 32).toNat = self.sectorsPerCluster.toNat :=
  BitVec.toNat_setWidth_of_le (by decide)

theorem lbaOfCluster_toNat {self : FatLayout} {cluster : BitVec 32}
    (h : self.Addressable cluster) :
    (self.lbaOfCluster cluster).toNat = self.sectorOf cluster.toNat := by
  obtain ⟨hcluster, hlt⟩ := h
  have hsub : (cluster - 2).toNat = cluster.toNat - 2 := BitVec.toNat_sub_of_le hcluster
  unfold lbaOfCluster
  dsimp only
  rw [BitVec.toNat_add, BitVec.toNat_add, BitVec.toNat_mul, BitVec.toNat_mul, hsub,
    toNat_reservedSectors, toNat_noFats, toNat_sectorsPerCluster,
    Nat.mul_comm self.tableSize.toNat, Nat.add_mod_mod, Nat.mod_add_mod, Nat.add_right_comm,
    Nat.add_mod_mod, Nat.add_right_comm]
  exact Nat.mod_eq_of_lt hlt

/-- A file in clusters one after the other is in sectors one after the other. -/
theorem Consecutive.fileByte_eq {self : FatLayout} {disk : ByteMem} {e : DirectoryEntry} {n i : Nat}
    (h : self.Consecutive disk e n) (addressable : self.Addressable e.cluster) (hi : i < n) :
    disk (512 * (self.lbaOfCluster e.cluster).toNat + i) = self.fileByte disk e i := by
  have hsplit := Nat.div_add_mod i (512 * self.sectorsPerCluster.toNat)
  have hcluster := h (i / (512 * self.sectorsPerCluster.toNat)) (by omega)
  have htwo := addressable.1
  have hoffset (k : Nat) : e.cluster.toNat + k - 2 = e.cluster.toNat - 2 + k := by omega
  unfold fileByte
  dsimp only
  rw [lbaOfCluster_toNat addressable, hcluster]
  refine congrArg disk ?_
  unfold sectorOf
  rw [hoffset, Nat.add_mul]
  clear hcluster
  generalize i / (512 * self.sectorsPerCluster.toNat) = k at hsplit ⊢
  generalize i % (512 * self.sectorsPerCluster.toNat) = r at hsplit ⊢
  subst hsplit
  ring

end FatLayout

/-- A volume on a disk. -/
structure Volume extends FatLayout where
  dev : AtaDevice

namespace Volume

open Ata

/-- `fat_device` of the volume. -/
def device (v : Volume) (fuel : Nat) : FatDevice Ata :=
  { v.toFatLayout with store := v.dev.storage fuel }

/-- What is in the disk. -/
def content (v : Volume) (m : Ata) : ByteMem := m.disk v.dev.bus v.dev.ms

/-- The sector with the root directory. -/
def root (v : Volume) (m : Ata) : ByteMem :=
  ByteMem.copy (fun _ => 0) 0 (v.content m) (512 * (v.lbaOfCluster v.rootCluster).toNat) 512

/-- The entry of a file. -/
def lookup (v : Volume) (m : Ata) (filename : ByteMem) : Except Trap (Option DirectoryEntry) :=
  findEntry (v.root m) filename 16 0

variable {v : Volume} {m m' : Ata} {fuel : Nat} {filename buf : ByteMem} {size : Nat}

theorem toNat_lba (lba : BitVec 32) :
    ((lba.setWidth 64).extractLsb' 0 48).toNat = lba.toNat := by
  have hlt := lba.isLt
  rw [BitVec.extractLsb'_toNat, BitVec.toNat_setWidth, Nat.shiftRight_zero]
  omega

/-- One sector is read as a whole. -/
theorem transfer_sector (v : Volume) (m : Ata) (lba : Nat) :
    ByteMem.copy (fun _ => 0) 0 (m.transfer v.dev lba 1) 0 512 =
      ByteMem.copy (fun _ => 0) 0 (v.content m) (512 * lba) 512 := by
  funext k
  unfold ByteMem.copy transfer
  split
  · rw [if_pos (by omega)]
    exact congrArg _ (by omega)
  · rfl

theorem find_busy (fuel : Nat) (filename : ByteMem) (h : m.Busy 0) :
    ∃ m', (v.device fuel).find filename m = .ok (.error .invalid, m') ∧ After 5 m m' := by
  obtain ⟨m', hread, hafter⟩ := v.dev.readSector_busy fuel
    ((v.lbaOfCluster v.rootCluster).setWidth 64) (fun _ => 0) 512 h
  refine ⟨m', ?_, hafter⟩
  unfold FatDevice.find
  dsimp only [device]
  rw [hread]
  rfl

/-- What `find` returns for an entry of the root directory. -/
def found : Option DirectoryEntry → Except Errno DirectoryEntry
  | some de => .ok de
  | none => .error .notFound

theorem find_ready (hfuel : m.latency + 2 ^ 24 + 2 ≤ fuel) (filename : ByteMem) (h : ¬m.Busy 0) :
    ∃ m', After 5 m m' ∧ (v.device fuel).find filename m =
      (v.lookup m filename).map fun de => (found de, m') := by
  obtain ⟨m', hread, hafter⟩ := v.dev.readSector_ready hfuel
    ((v.lbaOfCluster v.rootCluster).setWidth 64) (fun _ => 0) 512 h
  refine ⟨m', hafter, ?_⟩
  unfold FatDevice.find
  dsimp only [device]
  rw [hread, toNat_lba]
  show ((findEntry (ByteMem.copy _ 0 (m.transfer v.dev _ 1) 0 512) filename 16 0) >>= _) = _
  rw [transfer_sector]
  show v.lookup m filename >>= _ = _
  cases v.lookup m filename with
  | error t => rfl
  | ok de => cases de <;> rfl

theorem lookup_after {k : Nat} (h : After k m m') (filename : ByteMem) :
    v.lookup m' filename = v.lookup m filename := by
  unfold lookup root content
  rw [h.disk]

theorem exists_busy (fuel : Nat) (filename : ByteMem) (h : m.Busy 0) :
    ∃ m', (v.device fuel).exists' filename m = .ok (Errno.invalid.code, m') ∧ After 5 m m' := by
  obtain ⟨m', hfind, hafter⟩ := find_busy (v := v) fuel filename h
  refine ⟨m', ?_, hafter⟩
  unfold FatDevice.exists'
  rw [hfind]
  rfl

/-- What `exists` returns for an entry of the root directory. -/
def existsCode : Option DirectoryEntry → BitVec 32
  | some _ => Errno.ok.code
  | none => Errno.notFound.code

theorem exists_ready (hfuel : m.latency + 2 ^ 24 + 2 ≤ fuel) (filename : ByteMem)
    (h : ¬m.Busy 0) :
    ∃ m', After 5 m m' ∧ (v.device fuel).exists' filename m =
      (v.lookup m filename).map fun de => (existsCode de, m') := by
  obtain ⟨m', hafter, hfind⟩ := find_ready (v := v) hfuel filename h
  refine ⟨m', hafter, ?_⟩
  unfold FatDevice.exists'
  rw [hfind]
  cases v.lookup m filename with
  | error t => rfl
  | ok de => cases de <;> rfl

/-! ## `slurp` -/

/-- The number of bytes that are asked for. -/
def wanted (e : DirectoryEntry) (size : Nat) : Nat :=
  if e.fileSize.toNat < size then e.fileSize.toNat else size

theorem wanted_eq (e : DirectoryEntry) (size : Nat) :
    wanted e size = min size e.fileSize.toNat := by
  unfold wanted
  split <;> omega

/-- The buffer when the sectors have been read. -/
def stored (v : Volume) (m : Ata) (e : DirectoryEntry) (buf : ByteMem) (n : Nat) : ByteMem :=
  buf.copy 0 (m.transfer v.dev (v.lbaOfCluster e.cluster).toNat
    (AtaBus.sectors (AtaDevice.numSectors n))) 0 (2 * (n / 2))

theorem stored_after {k : Nat} (h : After k m m') (e : DirectoryEntry) (buf : ByteMem) (n : Nat) :
    v.stored m' e buf n = v.stored m e buf n := by
  unfold stored
  rw [h.transfer]

theorem slurp_busy (fuel : Nat) (filename buf : ByteMem) (size : Nat) (h : m.Busy 0) :
    ∃ m', (v.device fuel).slurp filename buf size m = .ok ((Errno.invalid.code, buf), m') := by
  obtain ⟨m', hfind, _⟩ := find_busy (v := v) fuel filename h
  refine ⟨m', ?_⟩
  unfold FatDevice.slurp
  rw [hfind]
  rfl

/-- The data is read after the root directory. -/
theorem slurp_found (hfuel : m.latency + 2 ^ 24 + 2 ≤ fuel) {e : DirectoryEntry}
    (hready : ¬m.Busy 0) (hlookup : v.lookup m filename = .ok (some e)) (buf : ByteMem)
    (size : Nat) :
    ∃ m', (v.device fuel).slurp filename buf size m = .ok
      (if e.attributes ≠ 0x20 then (Errno.invalid.code, buf)
        else if m.Busy 1 then (AtaDevice.errBusy, buf)
        else (BitVec.ofNat 32 (wanted e size), v.stored m e buf (wanted e size)), m') := by
  obtain ⟨m₁, hafter, hfind⟩ := find_ready (v := v) hfuel filename hready
  rw [hlookup] at hfind
  have hrun : (v.device fuel).slurp filename buf size m =
      if e.attributes ≠ 0x20 then .ok ((Errno.invalid.code, buf), m₁)
      else (v.dev.storage fuel).readSector ((v.lbaOfCluster e.cluster).setWidth 64) buf
        (wanted e size) m₁ >>= fun r =>
          if r.1.1 = Errno.ok.code then .ok ((BitVec.ofNat 32 (wanted e size), r.1.2), r.2)
          else .ok (r.1, r.2) := by
    unfold FatDevice.slurp
    rw [hfind]
    rfl
  rw [hrun]
  by_cases hattr : e.attributes ≠ 0x20
  · rw [if_pos hattr, if_pos hattr]
    exact ⟨m₁, rfl⟩
  rw [if_neg hattr, if_neg hattr]
  by_cases hbusy : m.Busy 1
  · obtain ⟨m', hread, _⟩ := v.dev.readSector_busy fuel
      ((v.lbaOfCluster e.cluster).setWidth 64) buf (wanted e size)
      ((After.busy (k := 1) hafter 0).mpr hbusy)
    rw [hread, if_pos hbusy]
    exact ⟨m', rfl⟩
  · obtain ⟨m', hread, _⟩ := v.dev.readSector_ready
      (hafter.latency.symm ▸ hfuel) ((v.lbaOfCluster e.cluster).setWidth 64) buf (wanted e size)
      (fun h => hbusy ((After.busy (k := 1) hafter 0).mp h))
    rw [hread, if_neg hbusy, toNat_lba, hafter.transfer]
    exact ⟨m', rfl⟩

end Volume

end BadOs
