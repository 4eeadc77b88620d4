import BadOs.Fs.FileName

/-!
# The search of the root directory

The loop of `find` looks at `root[i]` before it compares `i` with 16, so that it reads behind the
sector when all entries are in use and none of them is the file.
-/

namespace BadOs

/-- `root[i]`. -/
def directoryEntry (root : ByteMem) (i : Nat) : DirectoryEntry := ⟨root.shift (32 * i)⟩

/-- The entry is not deleted and no part of a long name, and its name is the file name. -/
structure DirectoryEntry.Matches (de : DirectoryEntry) (filename : ByteMem) : Prop where
  kept : de.name 0 ≠ 0xe5
  short : de.attributes ≠ 0xf
  name : ∃ name text, filenameFromDirectoryEntry de = .ok name ∧ IsString name text ∧
    IsString filename text

/-- The first entry in front of the end marker that matches. -/
structure FirstMatch (root filename : ByteMem) (i : Nat) : Prop where
  lt : i < 16
  used : ∀ j ≤ i, (directoryEntry root j).name 0 ≠ 0
  hit : (directoryEntry root i).Matches filename
  first : ∀ j < i, ¬(directoryEntry root j).Matches filename

section

variable {root filename : ByteMem} {text : List (BitVec 8)} {left i : Nat}

/-- The comparison in the loop. -/
theorem strncmp_iff (hname : IsString filename text) {de : DirectoryEntry}
    (hused : de.name 0 ≠ 0) (kept : de.name 0 ≠ 0xe5) (short : de.attributes ≠ 0xf) :
    (filenameFromDirectoryEntry de).Total fun name =>
      strncmp name filename 13 = 0 ↔ de.Matches filename := by
  have hrun := filenameInto_total (fun _ => 0) hused
  rw [← filenameFromDirectoryEntry_eq] at hrun
  obtain ⟨name, hrun, _, l, hlength, hl⟩ := hrun
  refine ⟨name, hrun, (hl.strncmp_eq_zero_iff hname (Nat.lt_succ_of_le hlength)).trans ?_⟩
  constructor
  · rintro rfl
    exact ⟨kept, short, name, l, hrun, hl, hname⟩
  · rintro ⟨_, _, name', text', hrun', hname', htext'⟩
    cases hrun.symm.trans hrun'
    exact (hl.unique hname').trans (htext'.unique hname)

theorem findEntry_hit (hname : IsString filename text)
    (hused : (directoryEntry root i).name 0 ≠ 0)
    (hit : (directoryEntry root i).Matches filename) :
    findEntry root filename (left + 1) i = .ok (some (directoryEntry root i)) := by
  obtain ⟨name, hrun, hcompare⟩ := strncmp_iff hname hused hit.kept hit.short
  rw [findEntry, if_neg (by exact hused), if_neg (by exact hit.kept), if_neg (by exact hit.short)]
  refine Except.bind_eq_ok.mpr ⟨name, hrun, ?_⟩
  rw [if_pos (hcompare.mpr hit)]
  rfl

theorem findEntry_miss (hname : IsString filename text)
    (hused : (directoryEntry root i).name 0 ≠ 0)
    (hmiss : ¬(directoryEntry root i).Matches filename) :
    findEntry root filename (left + 1) i = findEntry root filename left (i + 1) := by
  rw [findEntry, if_neg (by exact hused)]
  by_cases kept : (directoryEntry root i).name 0 = 0xe5
  · exact if_pos kept
  · rw [if_neg (by exact kept)]
    by_cases short : (directoryEntry root i).attributes = 0xf
    · exact if_pos short
    · rw [if_neg (by exact short)]
      obtain ⟨name, hrun, hcompare⟩ := strncmp_iff hname hused kept short
      have hne : ¬strncmp name filename 13 = 0 := fun h => hmiss (hcompare.mp h)
      have hrun' : filenameFromDirectoryEntry ⟨root.shift (32 * i)⟩ = .ok name := hrun
      rw [hrun', Except.ok_bind, if_neg hne]

/-- From an entry on, if the ones before it are in use and none of them matches: the loop stops
at an entry that matches, at the end marker, or behind the sector. -/
theorem findEntry_cases (hname : IsString filename text) (left : Nat) (hi : i + left = 16)
    (hused : ∀ j < i, (directoryEntry root j).name 0 ≠ 0)
    (hmiss : ∀ j < i, ¬(directoryEntry root j).Matches filename) :
    (∃ k, FirstMatch root filename k ∧
        findEntry root filename left i = .ok (some (directoryEntry root k))) ∨
      (∃ k < 16, (directoryEntry root k).name 0 = 0 ∧ (∀ j, ¬FirstMatch root filename j) ∧
        findEntry root filename left i = .ok none) ∨
      (∀ k < 16, (directoryEntry root k).name 0 ≠ 0 ∧
          ¬(directoryEntry root k).Matches filename) ∧
        findEntry root filename left i = .error .outOfBounds := by
  induction left generalizing i with
  | zero =>
      obtain rfl : i = 16 := hi
      exact .inr (.inr ⟨fun k hk => ⟨hused k hk, hmiss k hk⟩, rfl⟩)
  | succ left ih =>
      by_cases hend : (directoryEntry root i).name 0 = 0
      · refine .inr (.inl ⟨i, by omega, hend, fun j hfirst => ?_, if_pos hend⟩)
        by_cases hj : j < i
        · exact hmiss j hj hfirst.hit
        · exact hfirst.used i (Nat.le_of_not_lt hj) hend
      · have hused' : ∀ j < i + 1, (directoryEntry root j).name 0 ≠ 0 := by
          intro j hj
          obtain hj | rfl := Nat.lt_succ_iff_lt_or_eq.mp hj
          · exact hused j hj
          · exact hend
        by_cases hit : (directoryEntry root i).Matches filename
        · refine .inl ⟨i, ⟨by omega, ?_, hit, hmiss⟩, findEntry_hit hname hend hit⟩
          exact fun j hj => hused' j (Nat.lt_succ_of_le hj)
        · rw [findEntry_miss hname hend hit]
          refine ih (by omega) hused' fun j hj => ?_
          obtain hj | rfl := Nat.lt_succ_iff_lt_or_eq.mp hj
          · exact hmiss j hj
          · exact hit

/-- The loop of `find`. -/
theorem findEntry_start (hname : IsString filename text) (root : ByteMem) :
    (∃ k, FirstMatch root filename k ∧
        findEntry root filename 16 0 = .ok (some (directoryEntry root k))) ∨
      (∃ k < 16, (directoryEntry root k).name 0 = 0 ∧ (∀ j, ¬FirstMatch root filename j) ∧
        findEntry root filename 16 0 = .ok none) ∨
      (∀ k < 16, (directoryEntry root k).name 0 ≠ 0 ∧
          ¬(directoryEntry root k).Matches filename) ∧
        findEntry root filename 16 0 = .error .outOfBounds :=
  findEntry_cases hname 16 rfl (fun j hj => absurd hj (Nat.not_lt_zero j)) fun j hj =>
    absurd hj (Nat.not_lt_zero j)

end

/-! ## `find` -/

/-- `find` with the entry that `buf` points to. -/
def FatDevice.findInto {S : Type} (self : FatDevice S) (filename : ByteMem)
    (buf : DirectoryEntry) (s : S) : Except Trap ((Errno × DirectoryEntry) × S) := do
  match ← self.find filename s with
  | (.ok de, s) => return ((.ok, de), s)
  | (.error r, s) => return ((r, buf), s)

/-- What `find` is meant to give when `read_sector` has returned `r` and the sector `root`. -/
inductive FoundEntry (root filename : ByteMem) (r : BitVec 32) (buf : DirectoryEntry) :
    Errno → DirectoryEntry → Prop where
  | unreadable : r ≠ 0 → FoundEntry root filename r buf .invalid buf
  | file (i : Nat) : r = 0 → FirstMatch root filename i →
      FoundEntry root filename r buf .ok (directoryEntry root i)
  | missing : r = 0 → (∀ i, ¬FirstMatch root filename i) →
      FoundEntry root filename r buf .notFound buf

section

variable {S : Type} {self : FatDevice S} {root filename : ByteMem} {text : List (BitVec 8)}
  {r : BitVec 32} {s s' : S}

theorem findInto_unreadable (buf : DirectoryEntry)
    (hread : self.store.readSector ((self.lbaOfCluster self.rootCluster).setWidth 64) (fun _ => 0)
      512 s = .ok ((r, root), s')) (hr : r ≠ 0) :
    self.findInto filename buf s = .ok ((.invalid, buf), s') := by
  refine Except.bind_eq_ok.mpr ⟨(.error .invalid, s'), ?_, rfl⟩
  exact Except.bind_eq_ok.mpr ⟨_, hread, if_pos hr⟩

/-- After the sector was read the result is that of the loop. -/
theorem findInto_eq (buf : DirectoryEntry)
    (hread : self.store.readSector ((self.lbaOfCluster self.rootCluster).setWidth 64) (fun _ => 0)
      512 s = .ok ((0, root), s')) :
    self.findInto filename buf s = findEntry root filename 16 0 >>= fun found =>
      match found with
      | some de => .ok ((.ok, de), s')
      | none => .ok ((.notFound, buf), s') := by
  unfold FatDevice.findInto FatDevice.find
  dsimp only
  rw [hread, Except.ok_bind]
  cases findEntry root filename 16 0 with
  | error e => rfl
  | ok found => cases found <;> rfl

/-- The loop leaves the sector if all entries are in use and none of them matches. -/
theorem findInto_full (hname : IsString filename text) (buf : DirectoryEntry)
    (hread : self.store.readSector ((self.lbaOfCluster self.rootCluster).setWidth 64) (fun _ => 0)
      512 s = .ok ((0, root), s'))
    (hfull : ∀ i < 16, (directoryEntry root i).name 0 ≠ 0 ∧
      ¬(directoryEntry root i).Matches filename) :
    self.findInto filename buf s = .error .outOfBounds := by
  rw [findInto_eq buf hread]
  have hcases := findEntry_start hname root
  obtain ⟨k, hfirst, _⟩ | ⟨k, hk, hend, _⟩ | ⟨_, hrun⟩ := hcases
  · exact absurd hfirst.hit (hfull k hfirst.lt).2
  · exact absurd hend (hfull k hk).1
  · exact Except.bind_error hrun

end

/-- A device that gives the same sector for every address. -/
def sectorDevice (root : ByteMem) : FatDevice Unit where
  reservedSectors := 1
  sectorsPerCluster := 1
  noFats := 1
  tableSize := 1
  rootCluster := 2
  store := ⟨fun _ _ _ s => .ok ((0, root), s)⟩

/-- A sector full of entries with the name `AAAAAAAA`. -/
theorem find_full_sector : ¬∀ (self : FatDevice Unit) (filename : ByteMem)
    (text : List (BitVec 8)) (buf : DirectoryEntry) (r : BitVec 32) (root : ByteMem),
    IsString filename text →
    self.store.readSector ((self.lbaOfCluster self.rootCluster).setWidth 64) (fun _ => 0) 512 () =
      .ok ((r, root), ()) →
    (self.findInto filename buf ()).Total fun result =>
      FoundEntry root filename r buf result.1.1 result.1.2 := by
  intro claim
  have hempty : IsString (fun _ => 0) [] := IsString.nil_iff.mpr rfl
  have hmiss : ¬DirectoryEntry.Matches ⟨fun _ => 0x41⟩ fun _ => 0 := by
    rintro ⟨_, _, name, text, hname, htext, hfilename⟩
    obtain rfl := hfilename.unique hempty
    have hholds : (filenameFromDirectoryEntry ⟨fun _ => 0x41⟩).holds (fun name => name 0 == 0x41) =
        true := by
      decide +kernel
    obtain ⟨name', hname', hfirst⟩ := Except.exists_of_holds hholds
    cases hname.symm.trans hname'
    rw [IsString.nil_iff.mp htext] at hfirst
    exact absurd hfirst (by decide)
  have hused : (0x41 : BitVec 8) ≠ 0 := by decide
  have hrun : (sectorDevice fun _ => 0x41).findInto (fun _ => 0) ⟨fun _ => 0⟩ () =
      .error .outOfBounds :=
    findInto_full hempty _ rfl fun _ _ => ⟨hused, hmiss⟩
  obtain ⟨_, hrun', _⟩ := claim (sectorDevice fun _ => 0x41) (fun _ => 0) [] ⟨fun _ => 0⟩ 0
    (fun _ => 0x41) hempty rfl
  cases hrun.symm.trans hrun'

/-- For every store whose `read_sector` returns, every sector and every file name, `find` stays in
the sector and gives the first entry that matches, if there is one in front of the end marker, or
else an error and no entry, exactly if the sector cannot be read, has an end marker, or has an
entry that matches. -/
theorem find_entry_iff {S : Type} (self : FatDevice S) (filename : ByteMem)
    (text : List (BitVec 8)) (buf : DirectoryEntry) (r : BitVec 32) (root : ByteMem) (s s' : S)
    (hname : IsString filename text)
    (hread : self.store.readSector ((self.lbaOfCluster self.rootCluster).setWidth 64) (fun _ => 0)
      512 s = .ok ((r, root), s')) :
    ((self.findInto filename buf s).Total fun result => result.2 = s' ∧
        FoundEntry root filename r buf result.1.1 result.1.2) ↔
      r ≠ 0 ∨ ∃ i < 16, (directoryEntry root i).name 0 = 0 ∨
        (directoryEntry root i).Matches filename := by
  by_cases hr : r = 0
  · subst hr
    constructor
    · rintro ⟨_, hrun, _⟩
      by_contra hnone
      have hfull : ∀ i < 16, (directoryEntry root i).name 0 ≠ 0 ∧
          ¬(directoryEntry root i).Matches filename := by
        intro i hi
        exact ⟨fun hend => hnone (.inr ⟨i, hi, .inl hend⟩),
          fun hit => hnone (.inr ⟨i, hi, .inr hit⟩)⟩
      rw [findInto_full hname buf hread hfull] at hrun
      cases hrun
    · intro hcond
      obtain ⟨i, hi, hstop⟩ := hcond.resolve_left (not_not.mpr rfl)
      rw [findInto_eq buf hread]
      have hcases := findEntry_start hname root
      obtain ⟨k, hfirst, hrun⟩ | ⟨_, _, _, hmissing, hrun⟩ | ⟨hfull, _⟩ := hcases
      · rw [hrun]
        exact .ok ⟨rfl, .file k rfl hfirst⟩
      · rw [hrun]
        exact .ok ⟨rfl, .missing rfl hmissing⟩
      · obtain ⟨hused, hmiss⟩ := hfull i hi
        obtain hend | hit := hstop
        · exact absurd hend hused
        · exact absurd hit hmiss
  · rw [findInto_unreadable buf hread hr]
    exact iff_of_true (.ok ⟨rfl, .unreadable hr⟩) (.inl hr)

/-- A sector with the given entries, and zero behind them. -/
def sectorOf (entries : List DirectoryEntry) : ByteMem := fun x =>
  (entries[x / 32]?).elim 0 fun de => de.bytes (x % 32)

/-- The file `HI.TXT` behind a deleted entry and a part of a long name. -/
theorem find_entry_third : ∃ root filename,
    ((directoryEntry root 0).name 0 = 0xe5 ∧ (directoryEntry root 1).attributes = 0xf) ∧
    IsString filename [0x48, 0x49, 0x2e, 0x54, 0x58, 0x54] ∧ FirstMatch root filename 2 ∧
    ((sectorDevice root).findInto filename ⟨fun _ => 0⟩ ()).Total fun result =>
      result.2 = () ∧ FoundEntry root filename 0 ⟨fun _ => 0⟩ result.1.1 result.1.2 := by
  let deleted : DirectoryEntry := sampleEntry [0xe5, 0x4f] [0x54, 0x58, 0x54]
  let longName : DirectoryEntry := ⟨fun i => if i = 11 then 0xf else 0x41⟩
  let file : DirectoryEntry := sampleEntry [0x48, 0x49] [0x54, 0x58, 0x54]
  let root : ByteMem := sectorOf [deleted, longName, file]
  have hentry : EightThree (directoryEntry root 2) [0x48, 0x49] [0x54, 0x58, 0x54] :=
    ⟨by decide, by decide, by decide, by decide, by decide, by decide⟩
  obtain ⟨filename, hrun, hname⟩ := hentry.filename fun _ => 0
  rw [← filenameFromDirectoryEntry_eq] at hrun
  have hmatches : (directoryEntry root 2).Matches filename :=
    ⟨by decide, by decide, filename, _, hrun, hname, hname⟩
  have hfirst : FirstMatch root filename 2 := by
    refine ⟨by decide, by decide, hmatches, fun j hj hit => ?_⟩
    obtain rfl | rfl : j = 0 ∨ j = 1 := by omega
    · exact hit.kept rfl
    · exact hit.short rfl
  refine ⟨root, filename, ⟨rfl, rfl⟩, hname, hfirst, ?_⟩
  exact (find_entry_iff (sectorDevice root) filename _ _ 0 root () () hname rfl).mpr
    (.inr ⟨2, by decide, .inr hmatches⟩)

end BadOs
