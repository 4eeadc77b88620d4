import BadOs.Fs.Volume

/-!
# Reading a file

`read` asks the file systems one after the other for the file. Its result is an `int` that is
negative after an error and the number of bytes in the buffer otherwise.
-/

namespace BadOs

/-! ## `vfs.c` -/

structure FileSystem (S : Type) where
  exists' : ByteMem → S → Except Trap (BitVec 32 × S)
  slurp : ByteMem → ByteMem → Nat → S → Except Trap ((BitVec 32 × ByteMem) × S)

namespace Vfs

variable {S : Type}

def registerFs (fileSystems : List (FileSystem S)) (fs : FileSystem S) : List (FileSystem S) :=
  fileSystems ++ [fs]

def read (filename buf : ByteMem) (sz : Nat) :
    List (FileSystem S) → S → Except Trap ((BitVec 32 × ByteMem) × S)
  | [], s => .ok ((Errno.notFound.code, buf), s)
  | fs :: fileSystems, s => do
      let (r, s) ← fs.exists' filename s
      if r = Errno.ok.code then fs.slurp filename buf sz s
      else read filename buf sz fileSystems s

end Vfs

/-- What `init_fat32` registers. -/
def FatDevice.fileSystem {S : Type} (self : FatDevice S) : FileSystem S where
  exists' := self.exists'
  slurp := self.slurp

/-! ## Volumes -/

/-- The file that `read` takes: its volume, its entry, and how many calls of `read_sector` were
needed to find it. -/
structure Located where
  volume : Volume
  entry : DirectoryEntry
  calls : Nat

namespace Volume

open Ata

/-- The first volume with the file among those that are not busy when they are asked. -/
def locate (m : Ata) (filename : ByteMem) : List Volume → (k : Nat) → Except Trap (Option Located)
  | [], _ => .ok none
  | v :: volumes, k =>
      if m.Busy k then locate m filename volumes (k + 1)
      else do
        match ← v.lookup m filename with
        | some e => return some ⟨v, e, k + 1⟩
        | none => locate m filename volumes (k + 1)

def fileSystems (volumes : List Volume) (fuel : Nat) : List (FileSystem Ata) :=
  volumes.map fun v => (v.device fuel).fileSystem

/-- Volumes are registered one after the other. -/
theorem fileSystems_append (volumes : List Volume) (v : Volume) (fuel : Nat) :
    fileSystems (volumes ++ [v]) fuel =
      Vfs.registerFs (fileSystems volumes fuel) (v.device fuel).fileSystem :=
  List.map_append

variable {m m' : Ata} {fuel : Nat} {filename buf : ByteMem} {sz : Nat}

/-- The file systems are asked in turn, with a call each. -/
theorem read_cases {m₀ : Ata} (hfuel : m₀.latency + 2 ^ 24 + 2 ≤ fuel) (volumes : List Volume)
    {k : Nat} (h : After (5 * k) m₀ m) (filename buf : ByteMem) (sz : Nat) :
    (∃ t, locate m₀ filename volumes k = .error t ∧
        Vfs.read filename buf sz (fileSystems volumes fuel) m = .error t) ∨
      (locate m₀ filename volumes k = .ok none ∧ ∃ m',
        Vfs.read filename buf sz (fileSystems volumes fuel) m =
          .ok ((Errno.notFound.code, buf), m')) ∨
      ∃ l m₁, locate m₀ filename volumes k = .ok (some l) ∧ After (5 * l.calls) m₀ m₁ ∧
        l.volume.lookup m₀ filename = .ok (some l.entry) ∧
        Vfs.read filename buf sz (fileSystems volumes fuel) m =
          (l.volume.device fuel).slurp filename buf sz m₁ := by
  induction volumes generalizing m k with
  | nil => exact Or.inr (Or.inl ⟨rfl, m, rfl⟩)
  | cons v volumes ih =>
      have hfuel₁ : m.latency + 2 ^ 24 + 2 ≤ fuel := h.latency.symm ▸ hfuel
      have hcons : Vfs.read filename buf sz (fileSystems (v :: volumes) fuel) m =
          (v.device fuel).exists' filename m >>= fun r =>
            if r.1 = Errno.ok.code then (v.device fuel).slurp filename buf sz r.2
            else Vfs.read filename buf sz (fileSystems volumes fuel) r.2 := rfl
      rw [hcons, locate]
      by_cases hbusy : m₀.Busy k
      · obtain ⟨m₁, hexists, hafter⟩ := exists_busy (v := v) fuel filename ((h.busy 0).mpr hbusy)
        rw [hexists, if_pos hbusy]
        exact ih (k := k + 1) (h.trans hafter)
      · obtain ⟨m₁, hafter, hexists⟩ := exists_ready (v := v) hfuel₁ filename
          (fun h' => hbusy ((h.busy 0).mp h'))
        rw [hexists, if_neg hbusy, lookup_after h]
        cases hlookup : v.lookup m₀ filename with
        | error t => exact Or.inl ⟨t, rfl, rfl⟩
        | ok de =>
            cases de with
            | none => exact ih (k := k + 1) (h.trans hafter)
            | some e =>
                exact Or.inr (Or.inr ⟨⟨v, e, k + 1⟩, m₁, rfl, h.trans hafter, hlookup, rfl⟩)

end Volume

namespace Located

open Ata

variable {l : Located} {m : Ata} {fuel : Nat} {filename buf : ByteMem} {sz : Nat}

/-- Byte `i` of the file. -/
def byte (l : Located) (m : Ata) (i : Nat) : BitVec 8 :=
  l.volume.fileByte (l.volume.content m) l.entry i

/-- The number of bytes that `read` is to give. -/
def count (l : Located) (sz : Nat) : Nat := min sz l.entry.fileSize.toNat

theorem count_lt (l : Located) (sz : Nat) : l.count sz < 2 ^ 32 :=
  (Nat.min_le_right sz _).trans_lt l.entry.fileSize.isLt

/-- The result of `read`, and the buffer. -/
def result (l : Located) (m : Ata) (buf : ByteMem) (sz : Nat) : BitVec 32 × ByteMem :=
  if m.Busy l.calls ∨ l.entry.attributes ≠ 0x20 then (Errno.invalid.code, buf)
  else if m.Busy (l.calls + 1) then (AtaDevice.errBusy, buf)
  else (BitVec.ofNat 32 (l.count sz), l.volume.stored m l.entry buf (l.count sz))

theorem slurp_result {m₁ : Ata} (hfuel : m.latency + 2 ^ 24 + 2 ≤ fuel)
    (h : After (5 * l.calls) m m₁) (hlookup : l.volume.lookup m filename = .ok (some l.entry))
    (buf : ByteMem) (sz : Nat) :
    ∃ m', (l.volume.device fuel).slurp filename buf sz m₁ = .ok (l.result m buf sz, m') := by
  unfold result
  by_cases hbusy : m.Busy l.calls
  · rw [if_pos (Or.inl hbusy)]
    exact Volume.slurp_busy fuel filename buf sz ((h.busy 0).mpr hbusy)
  · obtain ⟨m', hrun⟩ := Volume.slurp_found (v := l.volume) (h.latency.symm ▸ hfuel)
      (fun h' => hbusy ((h.busy 0).mp h')) ((Volume.lookup_after h filename).trans hlookup) buf sz
    refine ⟨m', hrun.trans ?_⟩
    rw [Volume.stored_after h, Volume.wanted_eq, if_congr (h.busy 1) rfl rfl]
    refine congrArg (fun r => Except.ok (r, m')) ?_
    by_cases hattr : l.entry.attributes ≠ 0x20
    · rw [if_pos hattr, if_pos (Or.inr hattr)]
    · rw [if_neg hattr, if_neg (not_or.mpr ⟨hbusy, hattr⟩)]
      rfl

theorem result_ready (ready : ∀ k, ¬m.Busy k) (hattr : l.entry.attributes = 0x20) :
    l.result m buf sz =
      (BitVec.ofNat 32 (l.count sz), l.volume.stored m l.entry buf (l.count sz)) :=
  (if_neg (not_or.mpr ⟨ready l.calls, not_not.mpr hattr⟩)).trans (if_neg (ready (l.calls + 1)))

/-! ## The bytes in the buffer -/

theorem stored_apply {n i : Nat} (buf : ByteMem) (hi : i < 2 * (n / 2)) (hn : n ≤ 2 ^ 25) :
    l.volume.stored m l.entry buf n i =
      l.volume.content m (512 * (l.volume.lbaOfCluster l.entry.cluster).toNat + i) := by
  have hle := AtaDevice.le_sectors hn
  unfold Volume.stored
  rw [ByteMem.copy, if_pos (by omega), Nat.zero_add, Nat.sub_zero]
  exact if_pos (by omega)

theorem stored_apply_of_le {n i : Nat} (buf : ByteMem) (hi : 2 * (n / 2) ≤ i) :
    l.volume.stored m l.entry buf n i = buf i := by
  unfold Volume.stored
  exact if_neg (by omega)

/-- Behind the sectors there are only idle bytes. -/
theorem stored_apply_idle {n i : Nat} (buf : ByteMem) (hi : i < 2 * (n / 2)) (hbig : 2 ^ 25 ≤ i) :
    l.volume.stored m l.entry buf n i = m.idle.extractLsb' (8 * (i % 2)) 8 := by
  have hle := AtaBus.sectors_le (AtaDevice.numSectors n)
  unfold Volume.stored
  rw [ByteMem.copy, if_pos (by omega), Nat.zero_add, Nat.sub_zero]
  exact if_neg (by omega)

/-! ## What a result means -/

/-- The file goes with the result: an error, or all that was wanted is in the buffer. -/
def Kept (l : Located) (m : Ata) (sz : Nat) (r : BitVec 32 × ByteMem) : Prop :=
  r.1.toInt < 0 ∨ ¬m.Busy l.calls ∧ ¬m.Busy (l.calls + 1) ∧ r.1.toInt = l.count sz ∧
    ∀ i < l.count sz, r.2 i = l.byte m i

/-- The words that are read make up the file. -/
structure Whole (l : Located) (m : Ata) (sz : Nat) : Prop where
  even : l.count sz % 2 = 0
  fits : l.count sz ≤ 2 ^ 25
  sectors : ∀ i < l.count sz,
    l.volume.content m (512 * (l.volume.lbaOfCluster l.entry.cluster).toNat + i) = l.byte m i

theorem toInt_count (h : l.count sz < 2 ^ 31) :
    (BitVec.ofNat 32 (l.count sz)).toInt = l.count sz := by
  have hlt := l.count_lt sz
  rw [BitVec.toInt_eq_toNat_cond, BitVec.toNat_ofNat, Nat.mod_eq_of_lt hlt, if_pos (by omega)]

theorem toInt_count_neg (h : 2 ^ 31 ≤ l.count sz) :
    (BitVec.ofNat 32 (l.count sz)).toInt < 0 := by
  have hlt := l.count_lt sz
  rw [BitVec.toInt_eq_toNat_cond, BitVec.toNat_ofNat, Nat.mod_eq_of_lt hlt, if_neg (by omega)]
  omega

/-- All that was wanted is stored in every case only if the words make up the file. -/
theorem stored_iff (hsmall : l.count sz < 2 ^ 31) :
    (∀ buf idle, ∀ i < l.count sz,
        l.volume.stored { m with idle := idle } l.entry buf (l.count sz) i = l.byte m i) ↔
      l.Whole m sz := by
  constructor
  · intro h
    have heven : l.count sz % 2 = 0 := by
      by_contra hodd
      -- The last byte is whatever was in the buffer.
      have hlast := h (fun _ => l.byte m (l.count sz - 1) + 1) 0 (l.count sz - 1) (by omega)
      rw [stored_apply_of_le _ (by omega)] at hlast
      exact absurd hlast (by simp)
    have hfits : l.count sz ≤ 2 ^ 25 := by
      by_contra hbig
      -- There the last byte is the upper one of an idle word.
      have hlast := h (fun _ => 0) ((l.byte m (l.count sz - 1) + 1) ++ (0 : BitVec 8))
        (l.count sz - 1) (by omega)
      have hupper : (l.count sz - 1) % 2 = 1 := by omega
      rw [stored_apply_idle _ (by omega) (by omega), hupper, Nat.mul_one,
        BitVec.extractLsb'_append_eq_left] at hlast
      exact absurd hlast (by simp)
    refine ⟨heven, hfits, fun i hi => ?_⟩
    have hbyte := h (fun _ => 0) m.idle i hi
    rw [stored_apply _ (by omega) hfits] at hbyte
    exact hbyte
  · intro whole buf idle i hi
    have heven := whole.even
    rw [stored_apply _ (by omega) whole.fits]
    exact whole.sectors i hi

/-- The result is right for every buffer and whatever the idle port gives. -/
theorem result_kept_iff :
    (∀ buf idle, l.Kept m sz (l.result { m with idle := idle } buf sz)) ↔
      m.Busy l.calls ∨ l.entry.attributes ≠ 0x20 ∨
        ¬m.Busy (l.calls + 1) ∧ (2 ^ 31 ≤ l.count sz ∨ l.Whole m sz) := by
  by_cases hfirst : m.Busy l.calls ∨ l.entry.attributes ≠ 0x20
  · refine iff_of_true (fun buf idle => ?_) (hfirst.imp_right Or.inl)
    have hresult : l.result { m with idle := idle } buf sz = (Errno.invalid.code, buf) :=
      if_pos hfirst
    have hneg : Errno.invalid.code.toInt < 0 := by decide
    rw [hresult]
    exact Or.inl hneg
  obtain ⟨hready, hattr⟩ := not_or.mp hfirst
  rw [or_iff_right hready, or_iff_right hattr]
  by_cases hbusy : m.Busy (l.calls + 1)
  · refine iff_of_false (fun h => ?_) fun h => h.1 hbusy
    have hresult : l.result { m with idle := 0 } (fun _ => 0) sz =
        (AtaDevice.errBusy, fun _ => 0) := (if_neg hfirst).trans (if_pos hbusy)
    have hpos : ¬AtaDevice.errBusy.toInt < 0 := by decide
    have hkept := h (fun _ => 0) 0
    rw [hresult] at hkept
    obtain hneg | ⟨_, hnot, _⟩ := hkept
    · exact hpos hneg
    · exact hnot hbusy
  rw [and_iff_right hbusy]
  have hresult (buf : ByteMem) (idle : BitVec 16) : l.result { m with idle := idle } buf sz =
      (BitVec.ofNat 32 (l.count sz),
        l.volume.stored { m with idle := idle } l.entry buf (l.count sz)) :=
    (if_neg hfirst).trans (if_neg hbusy)
  by_cases hbig : 2 ^ 31 ≤ l.count sz
  · refine iff_of_true (fun buf idle => ?_) (Or.inl hbig)
    rw [hresult]
    exact Or.inl (toInt_count_neg hbig)
  have hcount := toInt_count (Nat.lt_of_not_le hbig)
  rw [or_iff_right hbig, ← stored_iff (Nat.lt_of_not_le hbig)]
  refine forall₂_congr fun buf idle => ?_
  rw [hresult]
  refine ⟨fun hkept => ?_, fun hstored => Or.inr ⟨hready, hbusy, hcount, hstored⟩⟩
  obtain hneg | ⟨_, _, _, hstored⟩ := hkept
  · have hzero : (0 : Int) ≤ l.count sz := Int.natCast_nonneg _
    exact absurd (hcount ▸ hneg) (not_lt.mpr hzero)
  · exact hstored

/-- A file that is not longer than its first cluster. -/
theorem sectors_of_first (addressable : l.volume.Addressable l.entry.cluster)
    (first : l.count sz ≤ 512 * l.volume.sectorsPerCluster.toNat) :
    ∀ i < l.count sz,
      l.volume.content m (512 * (l.volume.lbaOfCluster l.entry.cluster).toNat + i) =
        l.byte m i := by
  have hconsecutive : l.volume.Consecutive (l.volume.content m) l.entry (l.count sz) := by
    intro k hk
    cases k with
    | zero => rfl
    | succ k => exact absurd hk (by rw [Nat.mul_add_one]; omega)
  exact fun i hi => hconsecutive.fileByte_eq addressable hi

end Located

/-! ## The results of `read` -/

namespace Volume

open Ata

variable {m : Ata} {fuel : Nat} {filename : ByteMem} {sz : Nat} {volumes : List Volume}

theorem read_located {l : Located} (hfuel : m.latency + 2 ^ 24 + 2 ≤ fuel)
    (hlocate : locate m filename volumes 0 = .ok (some l)) (buf : ByteMem) (sz : Nat) :
    ∃ m', Vfs.read filename buf sz (fileSystems volumes fuel) m = .ok (l.result m buf sz, m') := by
  obtain ⟨t, hfail, _⟩ | ⟨hnone, _⟩ | ⟨l', m₁, hsome, hafter, hlookup, hread⟩ :=
    read_cases hfuel volumes (After.refl m) filename buf sz (k := 0)
  · cases hfail.symm.trans hlocate
  · cases hnone.symm.trans hlocate
  · cases hsome.symm.trans hlocate
    obtain ⟨m', hslurp⟩ := Located.slurp_result hfuel hafter hlookup buf sz
    exact ⟨m', hread.trans hslurp⟩

theorem locate_idle (m : Ata) (idle : BitVec 16) (filename : ByteMem) (volumes : List Volume)
    (k : Nat) :
    locate { m with idle := idle } filename volumes k = locate m filename volumes k := by
  induction volumes generalizing k with
  | nil => rfl
  | cons v volumes ih =>
      rw [locate, locate, ih]
      rfl

/-- A result of `read` that is not negative is the number of bytes of the file in the buffer,
exactly if the data is read without an error and as a whole. -/
theorem read_honest_iff (volumes : List Volume) (filename : ByteMem) (sz : Nat)
    (hfuel : m.latency + 2 ^ 24 + 2 ≤ fuel) :
    (∀ buf idle, (Vfs.read filename buf sz (fileSystems volumes fuel)
        { m with idle := idle }).Total fun r =>
          r.1.1.toInt < 0 ∨ ∃ l, locate m filename volumes 0 = .ok (some l) ∧ l.Kept m sz r.1) ↔
      (locate m filename volumes 0).Total fun found => ∀ l ∈ found,
        m.Busy l.calls ∨ l.entry.attributes ≠ 0x20 ∨
          ¬m.Busy (l.calls + 1) ∧ (2 ^ 31 ≤ l.count sz ∨ l.Whole m sz) := by
  cases hlocate : locate m filename volumes 0 with
  | error t =>
      refine iff_of_false (fun h => ?_) fun ⟨found, hfound, _⟩ => nomatch hfound
      obtain ⟨r, hread, _⟩ := h (fun _ => 0) m.idle
      obtain ⟨t', _, hfail⟩ | ⟨hnone, _⟩ | ⟨l, _, hsome, _⟩ :=
        read_cases hfuel volumes (After.refl m) filename (fun _ => 0) sz (k := 0)
      · cases hfail.symm.trans hread
      · cases hlocate.symm.trans hnone
      · cases hlocate.symm.trans hsome
  | ok found =>
      cases found with
      | none =>
          refine iff_of_true (fun buf idle => ?_) ⟨none, rfl, fun l hl => nomatch hl⟩
          have hnone := (locate_idle m idle filename volumes 0).trans hlocate
          have hfuel₁ : Ata.latency { m with idle := idle } + 2 ^ 24 + 2 ≤ fuel := hfuel
          obtain ⟨t', hfail, _⟩ | ⟨_, m', hread⟩ | ⟨l, _, hsome, _⟩ :=
            read_cases hfuel₁ volumes (After.refl _) filename buf sz (k := 0)
          · cases hnone.symm.trans hfail
          · have hneg : Errno.notFound.code.toInt < 0 := by decide
            exact ⟨_, hread, Or.inl hneg⟩
          · cases hnone.symm.trans hsome
      | some l =>
          have hright (P : Located → Prop) :
              (Except.ok (some l) : Except Trap (Option Located)).Total
                (fun found => ∀ l ∈ found, P l) ↔ P l := by
            constructor
            · rintro ⟨_, hfound, hall⟩
              cases hfound
              exact hall l rfl
            · intro h
              refine ⟨some l, rfl, fun l' hl' => ?_⟩
              cases hl'
              exact h
          rw [hright, ← Located.result_kept_iff]
          refine forall₂_congr fun buf idle => ?_
          obtain ⟨m', hrun⟩ := read_located (m := { m with idle := idle }) hfuel
            ((locate_idle m idle filename volumes 0).trans hlocate) buf sz
          constructor
          · rintro ⟨r, hread, hr⟩
            cases hrun.symm.trans hread
            obtain hneg | ⟨l', hsome, hkept⟩ := hr
            · exact Or.inl hneg
            · cases hsome
              exact hkept
          · intro hkept
            exact ⟨_, hrun, Or.inr ⟨l, rfl, hkept⟩⟩

/-- With an odd number of bytes the last one is not stored. -/
theorem read_drops_last {l : Located} (hfuel : m.latency + 2 ^ 24 + 2 ≤ fuel)
    (hlocate : locate m filename volumes 0 = .ok (some l)) (ready : ∀ k, ¬m.Busy k)
    (hattr : l.entry.attributes = 0x20) (hodd : l.count sz % 2 = 1) (buf : ByteMem) :
    (Vfs.read filename buf sz (fileSystems volumes fuel) m).Post fun r =>
      r.1.2 (l.count sz - 1) = buf (l.count sz - 1) := by
  intro r hread
  obtain ⟨m', hrun⟩ := read_located hfuel hlocate buf sz
  cases hrun.symm.trans hread
  rw [Located.result_ready ready hattr]
  exact Located.stored_apply_of_le buf (by omega)

/-- A file in its first cluster is read right exactly if the number of bytes is even. -/
theorem read_stores_iff {l : Located} (hfuel : m.latency + 2 ^ 24 + 2 ≤ fuel)
    (ready : ∀ k, ¬m.Busy k) (hlocate : locate m filename volumes 0 = .ok (some l))
    (hattr : l.entry.attributes = 0x20) (addressable : l.volume.Addressable l.entry.cluster)
    (pos : 1 ≤ l.count sz) (first : l.count sz ≤ 512 * l.volume.sectorsPerCluster.toNat) :
    (∀ buf, (Vfs.read filename buf sz (fileSystems volumes fuel) m).Total fun r =>
        r.1.1.toInt = l.count sz ∧ (∀ i < l.count sz, r.1.2 i = l.byte m i) ∧
          ∀ i, sz ≤ i → r.1.2 i = buf i) ↔ l.count sz % 2 = 0 := by
  have hsectors : l.volume.sectorsPerCluster.toNat < 256 := l.volume.sectorsPerCluster.isLt
  have hfits : l.count sz ≤ 2 ^ 25 := by omega
  have hle : l.count sz ≤ sz := Nat.min_le_left sz _
  constructor
  · intro h
    by_contra hodd
    obtain ⟨r, hread, _, hbytes, _⟩ := h fun _ => l.byte m (l.count sz - 1) + 1
    have hlast := hbytes (l.count sz - 1) (by omega)
    rw [read_drops_last hfuel hlocate ready hattr (by omega) _ r hread] at hlast
    exact absurd hlast (by simp)
  · intro heven buf
    obtain ⟨m', hrun⟩ := read_located hfuel hlocate buf sz
    rw [Located.result_ready ready hattr] at hrun
    refine ⟨_, hrun, Located.toInt_count (by omega), fun i hi => ?_, fun i hi => ?_⟩
    · exact (Located.stored_apply buf (by omega) hfits).trans
        (Located.sectors_of_first addressable first i hi)
    · exact Located.stored_apply_of_le buf (by omega)

/-! ## A small volume -/

/-- One cluster for the root directory and one for the file. -/
def small : Volume := ⟨⟨1, 1, 1, 1, 2⟩, ⟨0, .master⟩⟩

/-- The directory entry of `A.TXT`. -/
def smallEntry (size : BitVec 8) : ByteMem := fun i =>
  ([0x41, 0x20, 0x20, 0x20, 0x20, 0x20, 0x20, 0x20, 0x54, 0x58, 0x54, 0x20, 0, 0, 0, 0, 0, 0, 0,
    0, 0, 0, 0, 0, 0, 0, 3, 0, size][i]?).getD 0

def smallName : ByteMem := fun i => ([0x41, 0x2e, 0x54, 0x58, 0x54][i]?).getD 0

/-- The disk with the volume; the drive is busy when it is selected for the calls in `busy`. -/
def smallAta (size : BitVec 8) (busy : List Nat) : Ata where
  status k := if k / 5 ∈ busy then 0x80 else 0x50
  reads := 0
  latency := 3
  idle := 0
  disk _ _ a := if a < 1024 ∨ 1536 ≤ a then 0x62 else smallEntry size (a - 1024)
  bus _ := ⟨0, 0, 0, 0, 0, 0, .master, 0, 0⟩

def smallFile (size : BitVec 8) : Located :=
  ⟨small, ⟨(small.root (smallAta size [])).shift 0⟩, 1⟩

theorem smallAta_ready (size : BitVec 8) (k : Nat) : ¬(smallAta size []).Busy k := by
  show ¬AtaDevice.IsBusy 0x50
  decide

theorem locate_one : locate (smallAta 1 []) smallName [small] 0 = .ok (some (smallFile 1)) := by
  rfl

theorem locate_two : locate (smallAta 2 []) smallName [small] 0 = .ok (some (smallFile 2)) := by
  rfl

theorem locate_two_busy :
    locate (smallAta 2 [2]) smallName [small] 0 = .ok (some (smallFile 2)) := by
  rfl

theorem small_addressable : small.Addressable 3 := ⟨by decide, by decide⟩

theorem read_stores_small :
    (Vfs.read smallName (fun _ => 0) 256 (fileSystems [small] (2 ^ 25)) (smallAta 2 [])).Total
      fun r => r.1.1.toInt = 2 ∧
        (∀ i < 2, r.1.2 i = (smallFile 2).byte (smallAta 2 []) i) ∧ ∀ i, 256 ≤ i → r.1.2 i = 0 :=
  (read_stores_iff (l := smallFile 2) (by decide) (smallAta_ready 2)
    locate_two (by decide) small_addressable (by decide) (by decide)).mpr (by decide) fun _ => 0

theorem read_odd : ¬∀ (m : Ata) (fuel : Nat) (filename : ByteMem) (sz : Nat)
    (volumes : List Volume) (l : Located), m.latency + 2 ^ 24 + 2 ≤ fuel → (∀ k, ¬m.Busy k) →
    locate m filename volumes 0 = .ok (some l) → l.entry.attributes = 0x20 →
    l.volume.Addressable l.entry.cluster → 1 ≤ l.count sz →
    l.count sz ≤ 512 * l.volume.sectorsPerCluster.toNat →
    ∀ buf, (Vfs.read filename buf sz (fileSystems volumes fuel) m).Total fun r =>
      r.1.1.toInt = l.count sz ∧ (∀ i < l.count sz, r.1.2 i = l.byte m i) ∧
        ∀ i, sz ≤ i → r.1.2 i = buf i := by
  intro h
  obtain ⟨r, hread, _, hbytes, _⟩ := h (smallAta 1 []) (2 ^ 25) smallName 256 [small] (smallFile 1)
    (by decide) (smallAta_ready 1) locate_one (by decide) small_addressable (by decide)
    (by decide) fun _ => 0
  have hlast := read_drops_last (by decide) locate_one (smallAta_ready 1) (by decide)
    (by decide) (fun _ => 0) r hread
  exact absurd ((hbytes 0 (by decide)).symm.trans hlast) (by decide)

theorem read_honest_small :
    (Vfs.read smallName (fun _ => 0) 256 (fileSystems [small] (2 ^ 25)) (smallAta 2 [])).Total
      fun r => r.1.1.toInt < 0 ∨
        ∃ l, locate (smallAta 2 []) smallName [small] 0 = .ok (some l) ∧
          l.Kept (smallAta 2 []) 256 r.1 := by
  refine (read_honest_iff [small] smallName 256 (by decide)).mpr ⟨_, locate_two, fun l hl => ?_⟩
    (fun _ => 0) 0
  cases hl
  refine Or.inr (Or.inr ⟨smallAta_ready 2 2, Or.inr ⟨by decide, by decide, ?_⟩⟩)
  exact Located.sectors_of_first small_addressable (by decide)

theorem read_reports_busy : ¬∀ (m : Ata) (fuel : Nat) (filename buf : ByteMem) (sz : Nat)
    (volumes : List Volume), m.latency + 2 ^ 24 + 2 ≤ fuel →
    (Vfs.read filename buf sz (fileSystems volumes fuel) m).Total fun r => r.1.1.toInt < 0 ∨
      ∃ l, locate m filename volumes 0 = .ok (some l) ∧ l.Kept m sz r.1 := by
  intro h
  obtain ⟨r, hread, hr⟩ := h (smallAta 2 [2]) (2 ^ 25) smallName (fun _ => 0) 256 [small]
    (by decide)
  have hfuel : (smallAta 2 [2]).latency + 2 ^ 24 + 2 ≤ 2 ^ 25 := by decide
  obtain ⟨m', hrun⟩ := read_located hfuel locate_two_busy (fun _ => 0) 256
  have hresult : (smallFile 2).result (smallAta 2 [2]) (fun _ => 0) 256 =
      (AtaDevice.errBusy, fun _ => 0) := (if_neg (by decide)).trans (if_pos (by decide))
  have hpos : ¬AtaDevice.errBusy.toInt < 0 := by decide
  cases hrun.symm.trans hread
  rw [hresult] at hr
  obtain hneg | ⟨l, hlocate, hkept⟩ := hr
  · exact hpos hneg
  · cases hlocate.symm.trans locate_two_busy
    obtain hneg | ⟨_, hready, _⟩ := hkept
    · exact hpos hneg
    · exact hready (by decide)

end Volume

end BadOs
