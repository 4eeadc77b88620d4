import BadOs.Common
import BadOs.Ports

/-!
# ATA disks

`read_sector` writes the address and the number of sectors to the registers of a bus, where the
selected drive takes them from, and then reads the words that it asked for. A port is a bus with
a register of it.
-/

namespace BadOs

/-! ## `ata.c` -/

inductive MasterOrSlave where
  | master
  | slave
  deriving DecidableEq

/-- `PortOffset`, from the `base` of the bus on, and its `ctrl`. -/
inductive AtaRegister where
  | data
  | featuresError
  | sectorCount
  | sectorLbaLo
  | cylinderLowLbaMid
  | cylinderHighLbaHi
  | driveHead
  | commandStatus
  | ctrl

abbrev AtaProg := PortProg (Nat × AtaRegister)

structure AtaDevice where
  bus : Nat
  ms : MasterOrSlave
  deriving DecidableEq

namespace AtaDevice

/-- `ERR_BUSY` of `ata.h`. -/
def errBusy : BitVec 32 := 1

def driveSelect (dev : AtaDevice) : AtaProg (BitVec 8) := do
  outb (dev.bus, .driveHead) (if dev.ms = .slave then 0xb0 else 0xa0)
  let _ ← inb (dev.bus, .ctrl)
  let _ ← inb (dev.bus, .ctrl)
  let _ ← inb (dev.bus, .ctrl)
  let _ ← inb (dev.bus, .ctrl)
  inb (dev.bus, .ctrl)

/-- `ERR`, `DRQ` or `BSY`. -/
def IsBusy (status : BitVec 8) : Prop :=
  status &&& 1 ≠ 0 ∨ status &&& 8 ≠ 0 ∨ status &&& 128 ≠ 0

instance (status : BitVec 8) : Decidable (IsBusy status) := inferInstanceAs (Decidable (_ ∨ _))

/-- Byte `i` of the address. -/
def lba2 (lba : BitVec 64) (i : Nat) : BitVec 8 := lba.extractLsb' (8 * i) 8

/-- The registers are two deep: the high bytes come first. -/
def readSectorsExt (dev : AtaDevice) (lba : BitVec 64) (nSectors : BitVec 16) : AtaProg Unit := do
  outb (dev.bus, .driveHead) (if dev.ms = .slave then 0x50 else 0x40)
  outb (dev.bus, .sectorCount) ((nSectors >>> 8).setWidth 8)
  outb (dev.bus, .sectorLbaLo) (lba2 lba 3)
  outb (dev.bus, .cylinderLowLbaMid) (lba2 lba 4)
  outb (dev.bus, .cylinderHighLbaHi) (lba2 lba 5)
  outb (dev.bus, .sectorCount) (nSectors.setWidth 8)
  outb (dev.bus, .sectorLbaLo) (lba2 lba 0)
  outb (dev.bus, .cylinderLowLbaMid) (lba2 lba 1)
  outb (dev.bus, .cylinderHighLbaHi) (lba2 lba 2)
  outb (dev.bus, .commandStatus) 0x24

/-- The loop that ends when `BSY` is clear. -/
def waitBusy (dev : AtaDevice) : (fuel : Nat) → AtaProg Unit
  | 0 => .stuck
  | fuel + 1 => do
      let status ← inb (dev.bus, .commandStatus)
      if status &&& 128 ≠ 0 then waitBusy dev fuel else pure ()

/-- The loop over the words that are asked for. -/
def readData (dev : AtaDevice) : (left x : Nat) → ByteMem → AtaProg ByteMem
  | 0, _, dst => pure dst
  | left + 1, x, dst => do
      let data ← inw (dev.bus, .data)
      readData dev left (x + 1) (dst.write (2 * x) 2 data)

/-- The loop over the words that are left, while `DRQ` is set. -/
def skipData (dev : AtaDevice) : (fuel : Nat) → (status : BitVec 8) → AtaProg Unit
  | 0, _ => .stuck
  | fuel + 1, status =>
      if status &&& 8 ≠ 0 then do
        let status ← inb (dev.bus, .commandStatus)
        let _ ← inw (dev.bus, .data)
        skipData dev fuel status
      else pure ()

def numSectors (sz : Nat) : BitVec 16 :=
  let nSectors := BitVec.ofNat 16 (sz / 512)
  if sz % 512 ≠ 0 then nSectors + 1 else nSectors

def readSector (fuel : Nat) (dev : AtaDevice) (lba : BitVec 64) (buf : ByteMem) (sz : Nat) :
    AtaProg (BitVec 32 × ByteMem) := do
  let status ← driveSelect dev
  if IsBusy status then return (errBusy, buf)
  else
    readSectorsExt dev lba (numSectors sz)
    waitBusy dev fuel
    let buf ← readData dev (sz / 2) 0 buf
    let status ← inb (dev.bus, .commandStatus)
    skipData dev fuel status
    return (0, buf)

end AtaDevice

/-! ## The disks -/

/-- The registers of a bus and the transfer that goes on there: `left` words of the `drive`, from
the byte `next` on. The drive is busy for the next `busy` reads of its status. -/
structure AtaBus where
  driveHead : BitVec 8
  sectorCount : BitVec 16
  lbaLo : BitVec 16
  lbaMid : BitVec 16
  lbaHi : BitVec 16
  busy : Nat
  drive : MasterOrSlave
  next : Nat
  left : Nat

/-- What the reads of `ctrl` give one after the other, on any bus, does not depend on anything
else. A drive is busy for `latency` reads after a command, and `idle` is what the data port gives
without a transfer. -/
structure Ata where
  status : Nat → BitVec 8
  reads : Nat
  latency : Nat
  idle : BitVec 16
  disk : Nat → MasterOrSlave → ByteMem
  bus : Nat → AtaBus

namespace AtaBus

/-- A register holds the last two bytes. -/
def push (register : BitVec 16) (v : BitVec 8) : BitVec 16 := register.extractLsb' 0 8 ++ v

def high (register : BitVec 16) : BitVec 8 := register.extractLsb' 8 8

def low (register : BitVec 16) : BitVec 8 := register.extractLsb' 0 8

def lba (b : AtaBus) : BitVec 48 :=
  high b.lbaHi ++ high b.lbaMid ++ high b.lbaLo ++ low b.lbaHi ++ low b.lbaMid ++ low b.lbaLo

/-- A count of 0 stands for 65536 sectors. -/
def sectors (count : BitVec 16) : Nat := if count = 0 then 65536 else count.toNat

def outb (latency : Nat) (b : AtaBus) : AtaRegister → BitVec 8 → AtaBus
  | .sectorCount, v => { b with sectorCount := push b.sectorCount v }
  | .sectorLbaLo, v => { b with lbaLo := push b.lbaLo v }
  | .cylinderLowLbaMid, v => { b with lbaMid := push b.lbaMid v }
  | .cylinderHighLbaHi, v => { b with lbaHi := push b.lbaHi v }
  | .driveHead, v => { b with driveHead := v }
  | .commandStatus, v =>
      if v = 0x24 then
        { b with
          busy := latency
          drive := if b.driveHead &&& 0x10 = 0 then .master else .slave
          next := 512 * b.lba.toNat
          left := 256 * sectors b.sectorCount }
      else b
  | _, _ => b

/-! ## Registers -/

theorem sectors_le (count : BitVec 16) : sectors count ≤ 65536 := by
  have hlt := count.isLt
  unfold sectors
  split <;> omega

theorem high_push (register : BitVec 16) (v w : BitVec 8) :
    high (push (push register v) w) = v := by
  unfold high push
  rw [BitVec.extractLsb'_append_eq_right, BitVec.extractLsb'_append_eq_left]

theorem low_push (register : BitVec 16) (v : BitVec 8) : low (push register v) = v :=
  BitVec.extractLsb'_append_eq_right

theorem push_push (register : BitVec 16) (v w : BitVec 8) : push (push register v) w = v ++ w :=
  congrArg (· ++ w) (low_push register v)

theorem lba2_append (v : BitVec 64) :
    AtaDevice.lba2 v 5 ++ AtaDevice.lba2 v 4 ++ AtaDevice.lba2 v 3 ++ AtaDevice.lba2 v 2 ++
      AtaDevice.lba2 v 1 ++ AtaDevice.lba2 v 0 = v.extractLsb' 0 48 := by
  unfold AtaDevice.lba2
  rw [BitVec.extractLsb'_append_extractLsb'_eq_extractLsb' (by rfl),
    BitVec.extractLsb'_append_extractLsb'_eq_extractLsb' (by rfl),
    BitVec.extractLsb'_append_extractLsb'_eq_extractLsb' (by rfl),
    BitVec.extractLsb'_append_extractLsb'_eq_extractLsb' (by rfl),
    BitVec.extractLsb'_append_extractLsb'_eq_extractLsb' (by rfl)]

theorem count_append (v : BitVec 16) : (v >>> 8).setWidth 8 ++ v.setWidth 8 = v := by
  have hhigh : (v >>> 8).setWidth 8 = v.extractLsb' 8 8 := rfl
  have hlow : v.setWidth 8 = v.extractLsb' 0 8 := rfl
  rw [hhigh, hlow]
  exact BitVec.extractLsb'_append_extractLsb'

end AtaBus

namespace Ata

def setBus (m : Ata) (i : Nat) (b : AtaBus) : Ata := { m with bus := Function.update m.bus i b }

def respond : (a : PortAccess (Nat × AtaRegister)) → Ata → a.Answer × Ata
  | .inb (_, .ctrl), m => (m.status m.reads, { m with reads := m.reads + 1 })
  | .inb (i, .commandStatus), m =>
      let b := m.bus i
      if b.busy = 0 then (if b.left = 0 then 0x50 else 0x58, m)
      else (0x80, m.setBus i { b with busy := b.busy - 1 })
  | .inb _, m => (0, m)
  | .inw (i, .data), m =>
      let b := m.bus i
      if b.left = 0 then (m.idle, m)
      else ((m.disk i b.drive).read b.next 2,
        m.setBus i { b with next := b.next + 2, left := b.left - 1 })
  | .inw _, m => (0, m)
  | .inl _, m => (0, m)
  | .outb (i, register) v, m => ((), m.setBus i ((m.bus i).outb m.latency register v))

/-! ## Accesses -/

@[simp] theorem setBus_setBus (m : Ata) (i : Nat) (b b' : AtaBus) :
    (m.setBus i b).setBus i b' = m.setBus i b' := by
  unfold setBus
  rw [Function.update_idem]

@[simp] theorem setBus_bus (m : Ata) (i : Nat) (b : AtaBus) : (m.setBus i b).bus i = b := by
  unfold setBus
  exact Function.update_self i b m.bus

/-- What a program does not change, but that it reads `ctrl` some times. -/
structure After (n : Nat) (m m' : Ata) : Prop where
  status : m'.status = m.status
  reads : m'.reads = m.reads + n
  latency : m'.latency = m.latency
  idle : m'.idle = m.idle
  disk : m'.disk = m.disk

theorem After.refl (m : Ata) : After 0 m m := ⟨rfl, rfl, rfl, rfl, rfl⟩

theorem After.trans {k n : Nat} {m₁ m₂ m₃ : Ata} (h : After k m₁ m₂) (h' : After n m₂ m₃) :
    After (k + n) m₁ m₃ :=
  ⟨h'.status.trans h.status, by rw [h'.reads, h.reads, Nat.add_assoc], h'.latency.trans h.latency,
    h'.idle.trans h.idle, h'.disk.trans h.disk⟩

theorem setBus_after (m : Ata) (i : Nat) (b : AtaBus) : After 0 m (m.setBus i b) :=
  ⟨rfl, rfl, rfl, rfl, rfl⟩

/-- The bytes that the data port will give. -/
def delivered (m : Ata) (i : Nat) : ByteMem := fun k =>
  let b := m.bus i
  if k < 2 * b.left then m.disk i b.drive (b.next + k) else m.idle.extractLsb' (8 * (k % 2)) 8

theorem delivered_read_idle {m : Ata} {i : Nat} (h : (m.bus i).left = 0) :
    (m.delivered i).read 0 2 = m.idle := by
  apply BitVec.eq_of_getLsbD_eq
  intro j hj
  have hbyte : m.delivered i (0 + j / 8) = m.idle.extractLsb' (8 * ((0 + j / 8) % 2)) 8 :=
    if_neg (by rw [h]; exact Nat.not_lt_zero _)
  have hbit : 8 * ((0 + j / 8) % 2) + j % 8 = j := by omega
  rw [ByteMem.getLsbD_read _ _ _ _ hj, hbyte, BitVec.getLsbD_extractLsb', hbit,
    decide_eq_true (Nat.mod_lt j (by decide)), Bool.true_and]

theorem delivered_read {m : Ata} {i : Nat} (h : (m.bus i).left ≠ 0) :
    (m.delivered i).read 0 2 = (m.disk i (m.bus i).drive).read (m.bus i).next 2 := by
  rw [← Nat.add_zero (m.bus i).next, ← ByteMem.read_shift]
  exact ByteMem.read_congr fun k _ hk => if_pos (by omega)

/-- Call number `k` of `read_sector` from now on finds its drive busy. -/
def Busy (m : Ata) (k : Nat) : Prop := AtaDevice.IsBusy (m.status (m.reads + 5 * k + 4))

instance (m : Ata) (k : Nat) : Decidable (m.Busy k) := inferInstanceAs (Decidable (_ ∨ _))

theorem After.busy {k : Nat} {m m' : Ata} (h : After (5 * k) m m') (j : Nat) :
    m'.Busy j ↔ m.Busy (k + j) := by
  have hindex : m.reads + 5 * k + 5 * j + 4 = m.reads + 5 * (k + j) + 4 := by omega
  unfold Busy
  rw [h.status, h.reads, hindex]

/-- What a drive gives for `n` sectors from `lba` on. -/
def transfer (m : Ata) (dev : AtaDevice) (lba n : Nat) : ByteMem := fun k =>
  if k < 512 * n then m.disk dev.bus dev.ms (512 * lba + k)
  else m.idle.extractLsb' (8 * (k % 2)) 8

theorem After.transfer {k : Nat} {m m' : Ata} (h : After k m m') (dev : AtaDevice) (lba n : Nat) :
    m'.transfer dev lba n = m.transfer dev lba n := by
  unfold Ata.transfer
  rw [h.disk, h.idle]

/-- A word is read from the data port. -/
theorem inw_data (m : Ata) (i : Nat) :
    ∃ m', (inw (i, .data)).run respond m = some ((m.delivered i).read 0 2, m') ∧ After 0 m m' ∧
      m'.delivered i = (m.delivered i).shift 2 ∧ (m'.bus i).busy = (m.bus i).busy ∧
      (m'.bus i).left = (m.bus i).left - 1 := by
  by_cases hleft : (m.bus i).left = 0
  · refine ⟨m, ?_, After.refl m, ?_, rfl, by omega⟩
    · rw [delivered_read_idle hleft]
      exact congrArg some (if_pos hleft)
    · funext k
      have hmod : (2 + k) % 2 = k % 2 := by omega
      unfold delivered ByteMem.shift
      dsimp only
      rw [hleft, if_neg (by omega), if_neg (by omega), hmod]
  · refine ⟨_, ?_, setBus_after m i { m.bus i with
      next := (m.bus i).next + 2, left := (m.bus i).left - 1 }, ?_, ?_, ?_⟩
    · rw [delivered_read hleft]
      exact congrArg some (if_neg hleft)
    · funext k
      have hmod : (2 + k) % 2 = k % 2 := by omega
      have hlt : k < 2 * ((m.bus i).left - 1) ↔ 2 + k < 2 * (m.bus i).left := by omega
      unfold delivered ByteMem.shift
      rw [setBus_bus]
      dsimp only
      rw [hmod, if_congr hlt rfl rfl, Nat.add_assoc]
      rfl
    · rw [setBus_bus]
    · rw [setBus_bus]

theorem inb_status_ready {m : Ata} {i : Nat} (h : (m.bus i).busy = 0) :
    (inb (i, .commandStatus)).run respond m =
      some (if (m.bus i).left = 0 then 0x50 else 0x58, m) :=
  congrArg some (if_pos h)

theorem inb_status_busy {m : Ata} {i : Nat} (h : (m.bus i).busy ≠ 0) :
    (inb (i, .commandStatus)).run respond m =
      some (0x80, m.setBus i { m.bus i with busy := (m.bus i).busy - 1 }) :=
  congrArg some (if_neg h)

end Ata

namespace AtaDevice

open Ata

variable {dev : AtaDevice} {m : Ata}

/-! ## The steps of `read_sector` -/

theorem driveSelect_run (dev : AtaDevice) (m : Ata) :
    ∃ m', dev.driveSelect.run respond m = some (m.status (m.reads + 4), m') ∧ After 5 m m' :=
  ⟨_, rfl, rfl, rfl, rfl, rfl, rfl⟩

theorem outb_run (i : Nat) (register : AtaRegister) (v : BitVec 8) (m : Ata) :
    (outb (i, register) v).run respond m =
      some ((), m.setBus i ((m.bus i).outb m.latency register v)) := rfl

/-- The command that the drive gets. -/
theorem readSectorsExt_run (dev : AtaDevice) (lba : BitVec 64) (nSectors : BitVec 16) (m : Ata) :
    ∃ b, (dev.readSectorsExt lba nSectors).run respond m = some ((), m.setBus dev.bus b) ∧
      b.busy = m.latency ∧ b.drive = dev.ms ∧ b.next = 512 * (lba.extractLsb' 0 48).toNat ∧
      b.left = 256 * AtaBus.sectors nSectors := by
  simp only [readSectorsExt, Prog.run_bind, outb_run, Option.bind_some, setBus_bus, setBus_setBus]
  refine ⟨_, rfl, rfl, ?_, ?_, ?_⟩
  · show (if (if dev.ms = .slave then 0x50 else 0x40 : BitVec 8) &&& 0x10 = 0 then _ else _) = _
    cases dev.ms <;> rfl
  · rw [← AtaBus.lba2_append]
    refine congrArg (fun v : BitVec 48 => 512 * v.toNat) ?_
    show AtaBus.lba _ = _
    simp only [AtaBus.lba, AtaBus.outb, AtaBus.high_push, AtaBus.low_push]
  · show 256 * (if AtaBus.push (AtaBus.push _ _) _ = 0 then 65536 else
      (AtaBus.push (AtaBus.push _ _) _).toNat) = _
    rw [AtaBus.push_push, AtaBus.count_append]
    rfl

theorem waitBusy_run {fuel : Nat} (h : (m.bus dev.bus).busy < fuel) :
    ∃ m', (dev.waitBusy fuel).run respond m = some ((), m') ∧ After 0 m m' ∧
      (m'.bus dev.bus).busy = 0 ∧ m'.delivered dev.bus = m.delivered dev.bus ∧
      (m'.bus dev.bus).left = (m.bus dev.bus).left := by
  induction fuel generalizing m with
  | zero => omega
  | succ fuel ih =>
      rw [waitBusy]
      by_cases hbusy : (m.bus dev.bus).busy = 0
      · rw [Prog.run_bind_of_eq (inb_status_ready hbusy)]
        refine ⟨m, ?_, After.refl m, hbusy, rfl, rfl⟩
        split <;> rfl
      · rw [Prog.run_bind_of_eq (inb_status_busy hbusy)]
        obtain ⟨m', hrun, hafter, hzero, hdata, hleft⟩ :=
          ih (m := m.setBus dev.bus { m.bus dev.bus with busy := (m.bus dev.bus).busy - 1 }) (by
            rw [setBus_bus]
            dsimp only
            omega)
        refine ⟨m', hrun, (setBus_after m dev.bus _).trans hafter, hzero, hdata.trans ?_,
          hleft.trans ?_⟩
        · unfold delivered
          rw [setBus_bus]
          rfl
        · rw [setBus_bus]

/-- The bytes go to the buffer in the order in which the port gives them. -/
theorem readData_run (left x : Nat) (dst : ByteMem) (m : Ata) :
    ∃ m', (dev.readData left x dst).run respond m =
        some (dst.copy (2 * x) (m.delivered dev.bus) 0 (2 * left), m') ∧ After 0 m m' ∧
      (m'.bus dev.bus).busy = (m.bus dev.bus).busy ∧
      (m'.bus dev.bus).left = (m.bus dev.bus).left - left := by
  induction left generalizing x dst m with
  | zero => exact ⟨m, by rw [Nat.mul_zero, ByteMem.copy_zero]; rfl, After.refl m, rfl, rfl⟩
  | succ left ih =>
      obtain ⟨m₁, hword, hafter₁, hdata, hbusy₁, hleft₁⟩ := inw_data m dev.bus
      obtain ⟨m', hrun, hafter, hbusy, hleft⟩ :=
        ih (x + 1) (dst.write (2 * x) 2 ((m.delivered dev.bus).read 0 2)) m₁
      rw [readData, Prog.run_bind_of_eq hword]
      refine ⟨m', ?_, hafter₁.trans hafter, hbusy.trans hbusy₁, ?_⟩
      · have hcopy := dst.copy_write (m.delivered dev.bus) (2 * x) 0 2 (2 * left)
        rw [hrun, hdata, ByteMem.copy_shift, Nat.mul_add_one, hcopy, Nat.mul_add_one,
          Nat.add_comm 2]
      · rw [hleft, hleft₁]
        omega

/-- The words that are left are skipped. -/
theorem skipData_run {fuel : Nat} (status : BitVec 8) (hbusy : (m.bus dev.bus).busy = 0)
    (h : (m.bus dev.bus).left + 2 ≤ fuel) :
    ∃ m', (dev.skipData fuel status).run respond m = some ((), m') ∧ After 0 m m' := by
  induction fuel generalizing m status with
  | zero => omega
  | succ fuel ih =>
      rw [skipData]
      split
      · obtain ⟨m₁, hword, hafter, _, hbusy₁, hleft₁⟩ := inw_data m dev.bus
        rw [Prog.run_bind_of_eq (inb_status_ready hbusy), Prog.run_bind_of_eq hword]
        by_cases hleft : (m.bus dev.bus).left = 0
        · obtain ⟨fuel, rfl⟩ : ∃ k, fuel = k + 1 := ⟨fuel - 1, by omega⟩
          rw [if_pos hleft, skipData, if_neg (by decide)]
          exact ⟨m₁, rfl, hafter⟩
        · obtain ⟨m', hrun, hafter'⟩ := ih (m := m₁) _ (hbusy₁.trans hbusy) (by omega)
          exact ⟨m', hrun, hafter.trans hafter'⟩
      · exact ⟨m, rfl, After.refl m⟩

end AtaDevice

/-- `storage_device`: the call of `read_sector` through its pointer. -/
structure StorageDevice (S : Type) where
  readSector : BitVec 64 → ByteMem → Nat → S → Except Trap ((BitVec 32 × ByteMem) × S)

/-- The loops that wait for a drive end after `fuel` steps at the latest. -/
def AtaDevice.storage (dev : AtaDevice) (fuel : Nat) : StorageDevice Ata where
  readSector lba buf sz m :=
    match (dev.readSector fuel lba buf sz).run Ata.respond m with
    | some r => .ok r
    | none => .error .diverged

namespace AtaDevice

open Ata

variable {dev : AtaDevice} {m : Ata} {fuel : Nat} {lba : BitVec 64} {sz : Nat}

theorem numSectors_toNat (sz : Nat) : (numSectors sz).toNat = (sz + 511) / 512 % 65536 := by
  have hdiv : (sz + 511) / 512 = sz / 512 + if sz % 512 ≠ 0 then 1 else 0 := by
    split <;> omega
  rw [hdiv]
  unfold numSectors
  dsimp only
  split
  · rw [BitVec.toNat_add, BitVec.toNat_ofNat]
    exact Nat.mod_add_mod _ _ _
  · exact BitVec.toNat_ofNat _ _

/-- Up to 65536 sectors are counted right. -/
theorem le_sectors (h : sz ≤ 2 ^ 25) : sz ≤ 512 * AtaBus.sectors (numSectors sz) := by
  have hcount := numSectors_toNat sz
  unfold AtaBus.sectors
  split
  · omega
  · next hne =>
    have hpos : (numSectors sz).toNat ≠ 0 := fun h => hne (BitVec.eq_of_toNat_eq h)
    omega

/-- The bytes of the sectors are on their way. -/
theorem delivered_setBus {b : AtaBus} {lba n : Nat} (hdrive : b.drive = dev.ms)
    (hnext : b.next = 512 * lba) (hleft : b.left = 256 * n) :
    (m.setBus dev.bus b).delivered dev.bus = m.transfer dev lba n := by
  funext k
  have hlt : k < 2 * (256 * n) ↔ k < 512 * n := by omega
  unfold delivered transfer
  rw [setBus_bus]
  dsimp only
  rw [hdrive, hnext, hleft, if_congr hlt rfl rfl]
  rfl

theorem readSector_busy (dev : AtaDevice) (fuel : Nat) (lba : BitVec 64) (buf : ByteMem) (sz : Nat)
    (hbusy : m.Busy 0) :
    ∃ m', (dev.storage fuel).readSector lba buf sz m = .ok ((errBusy, buf), m') ∧ After 5 m m' := by
  obtain ⟨m', hselect, hafter⟩ := dev.driveSelect_run m
  have hrun : (dev.readSector fuel lba buf sz).run respond m = some ((errBusy, buf), m') := by
    rw [readSector, Prog.run_bind_of_eq hselect]
    exact congrArg (fun p : AtaProg _ => p.run respond m') (if_pos hbusy)
  refine ⟨m', ?_, hafter⟩
  dsimp only [storage]
  rw [hrun]

/-- The drive is ready to give the sectors. -/
theorem command_run (dev : AtaDevice) (hfuel : m.latency < fuel) (lba : BitVec 64)
    (nSectors : BitVec 16) :
    ∃ m', (dev.readSectorsExt lba nSectors >>= fun _ => dev.waitBusy fuel).run respond m =
        some ((), m') ∧ After 0 m m' ∧ (m'.bus dev.bus).busy = 0 ∧
      m'.delivered dev.bus =
        m.transfer dev (lba.extractLsb' 0 48).toNat (AtaBus.sectors nSectors) ∧
      (m'.bus dev.bus).left = 256 * AtaBus.sectors nSectors := by
  obtain ⟨b, hcommand, hbusy, hdrive, hnext, hleft⟩ := dev.readSectorsExt_run lba nSectors m
  have hlatency : ((m.setBus dev.bus b).bus dev.bus).busy < fuel := by
    rw [setBus_bus, hbusy]
    exact hfuel
  obtain ⟨m', hwait, hafter, hzero, hdata, hleft'⟩ := waitBusy_run hlatency
  refine ⟨m', ?_, (setBus_after m dev.bus b).trans hafter, hzero,
    hdata.trans (delivered_setBus hdrive hnext hleft), ?_⟩
  · rw [Prog.run_bind_of_eq hcommand]
    exact hwait
  · rw [hleft', setBus_bus, hleft]

/-- All words that are asked for are stored. -/
theorem readSector_ready (dev : AtaDevice) (hfuel : m.latency + 2 ^ 24 + 2 ≤ fuel)
    (lba : BitVec 64) (buf : ByteMem) (sz : Nat) (hready : ¬m.Busy 0) :
    ∃ m', (dev.storage fuel).readSector lba buf sz m = .ok ((0, buf.copy 0
        (m.transfer dev (lba.extractLsb' 0 48).toNat (AtaBus.sectors (numSectors sz))) 0
        (2 * (sz / 2))), m') ∧ After 5 m m' := by
  have hcount := AtaBus.sectors_le (numSectors sz)
  obtain ⟨m₁, hselect, hafter₁⟩ := dev.driveSelect_run m
  have hlatency : m₁.latency < fuel := by
    rw [hafter₁.latency]
    omega
  obtain ⟨m₂, hcommand, hafter₂, hzero, hdata, hleft⟩ :=
    dev.command_run hlatency lba (numSectors sz)
  rw [hafter₁.transfer] at hdata
  obtain ⟨m₃, hread, hafter₃, hzero₃, hleft₃⟩ := dev.readData_run (sz / 2) 0 buf m₂
  rw [hdata] at hread
  have hrest : (m₃.bus dev.bus).left + 2 ≤ fuel := by
    rw [hleft₃, hleft]
    omega
  have hidle := hzero₃.trans hzero
  obtain ⟨m₄, hskip, hafter₄⟩ := skipData_run
    (if (m₃.bus dev.bus).left = 0 then 0x50 else 0x58) hidle hrest
  have hselected : ¬IsBusy (m.status (m.reads + 4)) := hready
  refine ⟨m₄, ?_, hafter₁.trans (hafter₂.trans (hafter₃.trans hafter₄))⟩
  dsimp only [storage]
  rw [readSector, Prog.run_bind_of_eq hselect, if_neg hselected, ← Prog.bind_assoc,
    Prog.run_bind_of_eq hcommand, Prog.run_bind_of_eq hread,
    Prog.run_bind_of_eq (inb_status_ready hidle), Prog.run_bind_of_eq hskip]
  rfl

end AtaDevice

end BadOs
