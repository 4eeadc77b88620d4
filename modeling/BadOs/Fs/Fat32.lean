import BadOs.Ata
import BadOs.Strings

/-!
# Reading files from a FAT32 volume

The root directory is the first sector of its first cluster, and a file is read from its first
cluster on.
-/

namespace BadOs

/-! ## `fat32.c` -/

/-- The 32 bytes of an entry. -/
structure DirectoryEntry where
  bytes : ByteMem

namespace DirectoryEntry

def name (de : DirectoryEntry) : ByteMem := de.bytes

def ext (de : DirectoryEntry) : ByteMem := de.bytes.shift 8

def attributes (de : DirectoryEntry) : BitVec 8 := de.bytes 11

def clusterHigh (de : DirectoryEntry) : BitVec 16 := de.bytes.read 20 2

def clusterLow (de : DirectoryEntry) : BitVec 16 := de.bytes.read 26 2

def fileSize (de : DirectoryEntry) : BitVec 32 := de.bytes.read 28 4

def cluster (de : DirectoryEntry) : BitVec 32 :=
  (de.clusterHigh.setWidth 32 <<< 16) + de.clusterLow.setWidth 32

end DirectoryEntry

/-- The last loop of `filenameFromDirectoryEntry`, from `name + last` down. It reads a byte before
it compares the address with `name`. -/
def trimName : (last : Nat) → (name : ByteMem) → Except Trap ByteMem
  | last, name =>
      if name last = 0x20 ∨ name last = 0 then
        let name := name.write last 1 (0 : BitVec 8)
        match last with
        | 0 => .error .outOfBounds
        | last + 1 => trimName last name
      else .ok name

/-- `sizeof(name)` is the size of a pointer. -/
def filenameFromDirectoryEntry (de : DirectoryEntry) : Except Trap ByteMem :=
  let name : ByteMem := fun _ => 0
  let name := strncpy name 0 de.name 8
  let dest := (strnchr name 0x20 8).getD 8
  let name := name.write dest 1 (0x2e : BitVec 8)
  let name := strncpy name (dest + 1) de.ext 3
  trimName 7 name

/-- The loop of `find` over `left` entries of the sector, from `root[i]` on. The entry behind the
last one is read before `i` is compared with 16. -/
def findEntry (root filename : ByteMem) : (left i : Nat) → Except Trap (Option DirectoryEntry)
  | 0, _ => .error .outOfBounds
  | left + 1, i =>
      let de : DirectoryEntry := ⟨root.shift (32 * i)⟩
      if de.name 0 = 0 then .ok none
      else if de.name 0 = 0xe5 then findEntry root filename left (i + 1)
      else if de.attributes = 0xf then findEntry root filename left (i + 1)
      else do
        let name ← filenameFromDirectoryEntry de
        if strncmp name filename 13 = 0 then return some de
        else findEntry root filename left (i + 1)

/-- What is used of the parameter block and the boot sector. -/
structure FatLayout where
  reservedSectors : BitVec 16
  sectorsPerCluster : BitVec 8
  noFats : BitVec 8
  tableSize : BitVec 32
  rootCluster : BitVec 32

def FatLayout.lbaOfCluster (self : FatLayout) (cluster : BitVec 32) : BitVec 32 :=
  let fatSectors := self.tableSize * self.noFats.setWidth 32
  let firstDataSector := self.reservedSectors.setWidth 32 + fatSectors
  firstDataSector + (cluster - 2) * self.sectorsPerCluster.setWidth 32

structure FatDevice (S : Type) extends FatLayout where
  store : StorageDevice S

namespace FatDevice

variable {S : Type}

/-- Without an error the entry is stored in `buf`. -/
def find (self : FatDevice S) (filename : ByteMem) (s : S) :
    Except Trap (Except Errno DirectoryEntry × S) := do
  let lba := self.lbaOfCluster self.rootCluster
  -- The sector fills the buffer, whatever was in it.
  let ((r, root), s) ← self.store.readSector (lba.setWidth 64) (fun _ => 0) 512 s
  if r ≠ 0 then return (.error .invalid, s)
  else
    match ← findEntry root filename 16 0 with
    | some de => return (.ok de, s)
    | none => return (.error .notFound, s)

/-- `size` bytes from the first cluster on, as far as there are that many. -/
def slurp (self : FatDevice S) (filename buf : ByteMem) (size : Nat) (s : S) :
    Except Trap ((BitVec 32 × ByteMem) × S) := do
  match ← self.find filename s with
  | (.error r, s) => return ((r.code, buf), s)
  | (.ok e, s) =>
      if e.attributes ≠ 0x20 then return ((Errno.invalid.code, buf), s)
      else
        let lba := self.lbaOfCluster e.cluster
        let size := if e.fileSize.toNat < size then e.fileSize.toNat else size
        let ((r, buf), s) ← self.store.readSector (lba.setWidth 64) buf size s
        if r = Errno.ok.code then return ((BitVec.ofNat 32 size, buf), s)
        else return ((r, buf), s)

def exists' (self : FatDevice S) (filename : ByteMem) (s : S) : Except Trap (BitVec 32 × S) := do
  match ← self.find filename s with
  | (.error r, s) => return (r.code, s)
  | (.ok _, s) => return (Errno.ok.code, s)

end FatDevice

end BadOs
