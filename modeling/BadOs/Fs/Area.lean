import BadOs.Fs.Search
import BadOs.Fs.Vfs

/-!
# Where a volume is read

`slurp` reads the sectors from the first cluster of a file on, as many as the bytes that are
asked for need. For an empty file there is no first cluster, and a count of no sectors stands for
65536 of them.
-/

namespace BadOs

/-! ## Requests -/

/-- The arguments of `read_sector` without the buffer. -/
structure ReadRequest where
  lba : Nat
  size : Nat

/-- The sectors that the bytes need. -/
def ReadRequest.count (request : ReadRequest) : Nat := (request.size + 511) / 512

/-- The calls of `read_sector` are recorded. -/
def StorageDevice.logged {S : Type} (store : StorageDevice S) :
    StorageDevice (S × List ReadRequest) where
  readSector lba buf sz s := do
    let (r, s') ← store.readSector lba buf sz s.1
    return (r, (s', s.2 ++ [⟨lba.toNat, sz⟩]))

def FatDevice.logged {S : Type} (self : FatDevice S) : FatDevice (S × List ReadRequest) :=
  { self.toFatLayout with store := self.store.logged }

namespace FatLayout

/-- The first sector behind the tables. -/
def dataStart (self : FatLayout) : Nat :=
  self.reservedSectors.toNat + self.noFats.toNat * self.tableSize.toNat

/-- The cluster is one of a volume of this many sectors. -/
def HasCluster (self : FatLayout) (sectors : Nat) (cluster : BitVec 32) : Prop :=
  2 ≤ cluster.toNat ∧
    self.sectorOf cluster.toNat + self.sectorsPerCluster.toNat ≤ sectors

/-- A volume of this many sectors. -/
structure WellFormed (layout : FatLayout) (sectors : Nat) : Prop where
  sectorsPerCluster : 1 ≤ layout.sectorsPerCluster.toNat
  sectors_le : sectors ≤ 2 ^ 32
  rootCluster : layout.HasCluster sectors layout.rootCluster

/-- At least one and at most 65535 sectors are asked for, which is what the drive is told, and
they lie behind the tables and in the volume. -/
structure InArea (layout : FatLayout) (sectors : Nat) (request : ReadRequest) : Prop where
  count_pos : 1 ≤ request.count
  count_le : request.count ≤ 65535
  told : AtaBus.sectors (AtaDevice.numSectors request.size) = request.count
  start : layout.dataStart ≤ request.lba
  stop : request.lba + request.count ≤ sectors

/-- An empty file has no cluster. -/
def HasFile (self : FatLayout) (sectors : Nat) (e : DirectoryEntry) : Prop :=
  e.cluster = 0 ∧ e.fileSize = 0 ∨ self.HasCluster sectors e.cluster

/-- There is something to read, in at most 65535 sectors, and the volume does not end before
them when they are counted from the first cluster of the file on. -/
structure Readable (layout : FatLayout) (sectors : Nat) (e : DirectoryEntry) (size : Nat) :
    Prop where
  pos : 1 ≤ min size e.fileSize.toNat
  small : min size e.fileSize.toNat ≤ 512 * 65535
  inside : layout.sectorOf e.cluster.toNat + (min size e.fileSize.toNat + 511) / 512 ≤ sectors

variable {self : FatLayout} {sectors : Nat} {cluster : BitVec 32} {e : DirectoryEntry}
  {size : Nat}

theorem HasCluster.lba (h : self.HasCluster sectors cluster) (wf : self.WellFormed sectors) :
    ((self.lbaOfCluster cluster).setWidth 64).toNat = self.sectorOf cluster.toNat := by
  have hone := wf.sectorsPerCluster
  have hle := wf.sectors_le
  have hinside := h.2
  rw [BitVec.toNat_setWidth_of_le (by decide)]
  exact lbaOfCluster_toNat ⟨h.1, by omega⟩

theorem dataStart_le (self : FatLayout) (cluster : Nat) : self.dataStart ≤ self.sectorOf cluster :=
  Nat.le_add_right _ _

/-- A request whose range is in the area. -/
theorem inArea_iff (self : FatLayout) (sectors : Nat) (request : ReadRequest) :
    self.InArea sectors request ↔ 1 ≤ request.size ∧ request.size ≤ 512 * 65535 ∧
      self.dataStart ≤ request.lba ∧ request.lba + request.count ≤ sectors := by
  have hcount : request.count = (request.size + 511) / 512 := rfl
  constructor
  · rintro ⟨hpos, hle, _, hstart, hstop⟩
    refine ⟨?_, ?_, hstart, hstop⟩ <;> omega
  · rintro ⟨hpos, hle, hstart, hstop⟩
    refine ⟨by omega, by omega, ?_, hstart, hstop⟩
    have hnum := AtaDevice.numSectors_toNat request.size
    have hne : AtaDevice.numSectors request.size ≠ 0 := by
      intro hzero
      have hzero' : (AtaDevice.numSectors request.size).toNat = 0 := congrArg BitVec.toNat hzero
      omega
    rw [AtaBus.sectors, if_neg hne, hnum, ← hcount]
    omega

end FatLayout

namespace FatDevice

variable {S : Type} {self : FatDevice S} {filename buf : ByteMem} {size sectors : Nat} {s s' : S}
  {e : DirectoryEntry}

/-! ## The requests of `slurp` -/

/-- The sector of the root directory. -/
def rootRequest (self : FatDevice S) : ReadRequest :=
  ⟨((self.lbaOfCluster self.rootCluster).setWidth 64).toNat, 512⟩

/-- The sectors of a file. -/
def fileRequest (self : FatDevice S) (e : DirectoryEntry) (size : Nat) : ReadRequest :=
  ⟨((self.lbaOfCluster e.cluster).setWidth 64).toNat, Volume.wanted e size⟩

theorem find_logged {found : Except Errno DirectoryEntry}
    (h : self.find filename s = .ok (found, s')) (log : List ReadRequest) :
    self.logged.find filename (s, log) = .ok (found, (s', log ++ [self.rootRequest])) := by
  obtain ⟨⟨⟨r, root⟩, s₁⟩, hread, hrest⟩ := Except.bind_eq_ok.mp h
  refine Except.bind_eq_ok.mpr ⟨((r, root), (s₁, log ++ [self.rootRequest])), ?_, ?_⟩
  · exact Except.bind_eq_ok.mpr ⟨_, hread, rfl⟩
  · dsimp only at hrest ⊢
    split at hrest
    · next hr =>
      rw [if_pos hr]
      cases hrest
      rfl
    · next hr =>
      rw [if_neg hr]
      obtain ⟨de, hentry, hrest⟩ := Except.bind_eq_ok.mp hrest
      refine Except.bind_eq_ok.mpr ⟨de, hentry, ?_⟩
      cases de with
      | none =>
          cases hrest
          rfl
      | some de =>
          cases hrest
          rfl

theorem slurp_error {r : Errno} (h : self.find filename s = .ok (.error r, s')) (buf : ByteMem)
    (size : Nat) :
    self.logged.slurp filename buf size (s, []) =
      .ok ((r.code, buf), (s', [self.rootRequest])) :=
  Except.bind_eq_ok.mpr ⟨_, find_logged h [], rfl⟩

theorem slurp_invalid (h : self.find filename s = .ok (.ok e, s')) (hattr : e.attributes ≠ 0x20)
    (buf : ByteMem) (size : Nat) :
    self.logged.slurp filename buf size (s, []) =
      .ok ((Errno.invalid.code, buf), (s', [self.rootRequest])) :=
  Except.bind_eq_ok.mpr ⟨_, find_logged h [], if_pos hattr⟩

theorem slurp_file (h : self.find filename s = .ok (.ok e, s')) (hattr : e.attributes = 0x20)
    {r : BitVec 32} {out : ByteMem} {s'' : S}
    (hread : self.store.readSector ((self.lbaOfCluster e.cluster).setWidth 64) buf
      (Volume.wanted e size) s' = .ok ((r, out), s'')) :
    self.logged.slurp filename buf size (s, []) =
      .ok ((if r = Errno.ok.code then BitVec.ofNat 32 (Volume.wanted e size) else r, out),
        (s'', [self.rootRequest, self.fileRequest e size])) := by
  refine Except.bind_eq_ok.mpr ⟨_, find_logged h [], ?_⟩
  refine (if_neg (not_not.mpr hattr)).trans ?_
  refine Except.bind_eq_ok.mpr ⟨((r, out), (s'', [self.rootRequest, self.fileRequest e size])),
    Except.bind_eq_ok.mpr ⟨_, hread, rfl⟩, ?_⟩
  dsimp only
  split <;> rfl

/-! ## The area of the data -/

/-- An error of `slurp`, or one that `read_sector` returns. -/
def SlurpError (self : FatDevice S) (result : BitVec 32) : Prop :=
  (∃ code : Errno, code ≠ .ok ∧ result = code.code) ∨
    ∃ lba buf sz s r, self.store.readSector lba buf sz s = .ok r ∧ r.1.1 = result ∧ result ≠ 0

/-- `slurp` returns, its requests are in the area, and the result is an error or the number of
bytes that there are. -/
def ReadsInArea (self : FatDevice S) (sectors : Nat) (filename buf : ByteMem) (size : Nat) (s : S)
    (found : Except Errno DirectoryEntry) : Prop :=
  (self.logged.slurp filename buf size (s, [])).Total fun r =>
    (∀ request ∈ r.2.2, self.InArea sectors request) ∧
      (self.SlurpError r.1.1 ∨
        ∃ e, found = .ok e ∧ r.1.1.toInt = (min size e.fileSize.toNat : Nat))

theorem rootRequest_inArea (wf : self.WellFormed sectors) :
    self.InArea sectors self.rootRequest := by
  have hroot := wf.rootCluster
  have hlba : self.rootRequest.lba = _ := hroot.lba wf
  have hsize : self.rootRequest.size = 512 := rfl
  have hcount : self.rootRequest.count = 1 := by
    rw [ReadRequest.count, hsize]
  have hone := wf.sectorsPerCluster
  have hinside := hroot.2
  refine (FatLayout.inArea_iff _ _ _).mpr ⟨?_, ?_, ?_, ?_⟩
  · omega
  · omega
  · rw [hlba]
    exact self.dataStart_le _
  · rw [hlba, hcount]
    omega

theorem fileRequest_inArea_iff (wf : self.WellFormed sectors) (hfile : self.HasFile sectors e) :
    self.InArea sectors (self.fileRequest e size) ↔ self.Readable sectors e size := by
  have hsize : (self.fileRequest e size).size = min size e.fileSize.toNat :=
    Volume.wanted_eq e size
  have hcount : (self.fileRequest e size).count = (min size e.fileSize.toNat + 511) / 512 := by
    rw [ReadRequest.count, hsize]
  have hlba : 1 ≤ min size e.fileSize.toNat →
      (self.fileRequest e size).lba = self.sectorOf e.cluster.toNat := by
    intro hpos
    obtain ⟨_, hempty⟩ | hcluster := hfile
    · have hzero : e.fileSize.toNat = 0 := congrArg BitVec.toNat hempty
      omega
    · exact hcluster.lba wf
  rw [FatLayout.inArea_iff, hsize, hcount]
  constructor
  · rintro ⟨hpos, hsmall, _, hstop⟩
    rw [hlba hpos] at hstop
    exact ⟨hpos, hsmall, hstop⟩
  · rintro ⟨hpos, hsmall, hinside⟩
    rw [hlba hpos]
    exact ⟨hpos, hsmall, self.dataStart_le _, hinside⟩

/-- The errors of `find`. -/
theorem find_error {r : Errno} (h : self.find filename s = .ok (.error r, s')) : r ≠ .ok := by
  obtain ⟨⟨⟨status, root⟩, s₁⟩, _, hrest⟩ := Except.bind_eq_ok.mp h
  dsimp only at hrest
  split at hrest
  · cases hrest
    decide
  · obtain ⟨de, _, hrest⟩ := Except.bind_eq_ok.mp hrest
    cases de with
    | none =>
        cases hrest
        decide
    | some de => cases hrest

/-- Without a file to read there is only the request for the root directory. -/
theorem readsInArea_error {found : Except Errno DirectoryEntry} {r : Errno}
    (wf : self.WellFormed sectors) (hr : r ≠ .ok)
    (hrun : self.logged.slurp filename buf size (s, []) =
      .ok ((r.code, buf), (s', [self.rootRequest]))) :
    self.ReadsInArea sectors filename buf size s found := by
  refine ⟨_, hrun, ?_, .inl (.inl ⟨r, hr, rfl⟩)⟩
  intro request hrequest
  obtain rfl := List.mem_singleton.mp hrequest
  exact rootRequest_inArea wf

/-- A file is read in the area if the request for it is there. -/
theorem readsInArea_file_iff
    (returns : ∀ lba buf sz, ∃ r, self.store.readSector lba buf sz s' = .ok r)
    (wf : self.WellFormed sectors) (hfile : self.HasFile sectors e)
    (hfind : self.find filename s = .ok (.ok e, s')) (hattr : e.attributes = 0x20) :
    self.ReadsInArea sectors filename buf size s (.ok e) ↔ self.Readable sectors e size := by
  obtain ⟨⟨⟨r, out⟩, s''⟩, hread⟩ := returns ((self.lbaOfCluster e.cluster).setWidth 64) buf
    (Volume.wanted e size)
  have hrun := slurp_file hfind hattr hread
  rw [← fileRequest_inArea_iff wf hfile]
  constructor
  · rintro ⟨result, hresult, hrequests, _⟩
    cases hrun.symm.trans hresult
    apply hrequests
    simp
  · intro harea
    refine ⟨_, hrun, ?_, ?_⟩
    · intro request hrequest
      simp only [List.mem_cons, List.not_mem_nil, or_false] at hrequest
      obtain rfl | rfl := hrequest
      · exact rootRequest_inArea wf
      · exact harea
    · by_cases hr : r = Errno.ok.code
      · refine .inr ⟨e, rfl, ?_⟩
        have hsmall := ((fileRequest_inArea_iff wf hfile).mp harea).small
        have hwanted := Volume.wanted_eq e size
        rw [if_pos hr, BitVec.toInt_eq_toNat_of_lt] <;> rw [BitVec.toNat_ofNat, hwanted] <;> omega
      · refine .inl (.inr ⟨_, _, _, _, _, hread, ?_⟩)
        rw [if_neg hr]
        exact ⟨rfl, hr⟩

end FatDevice

/-- The driver returns from every read, also behind others. -/
theorem Volume.readSector_returns {v : Volume} {m m' : Ata} {k fuel : Nat}
    (hfuel : m.latency + 2 ^ 24 + 2 ≤ fuel) (h : Ata.After k m m') (lba : BitVec 64) (buf : ByteMem)
    (sz : Nat) : ∃ r, (v.device fuel).store.readSector lba buf sz m' = .ok r := by
  by_cases hbusy : m'.Busy 0
  · obtain ⟨_, hread, _⟩ := v.dev.readSector_busy fuel lba buf sz hbusy
    exact ⟨_, hread⟩
  · obtain ⟨_, hread, _⟩ := v.dev.readSector_ready (h.latency.symm ▸ hfuel) lba buf sz hbusy
    exact ⟨_, hread⟩

/-- A directory with the empty file `A.` only. -/
def emptyFile : ByteMem := fun i => if i = 0 then 0x41 else if i ≤ 11 then 0x20 else 0

def emptyName : ByteMem := fun i => if i = 0 then 0x41 else if i = 1 then 0x2e else 0

theorem find_emptyFile : (sectorDevice emptyFile).find emptyName () =
    .ok (.ok (directoryEntry emptyFile 0), ()) := by
  rfl

/-- The layout of `sectorDevice` and of `small`. -/
theorem wellFormed_small : FatLayout.WellFormed ⟨1, 1, 1, 1, 2⟩ 100 := by
  constructor
  · exact Nat.le_refl 1
  · decide
  · exact ⟨Nat.le_refl 2, by decide⟩

/-- An empty file. -/
theorem slurp_empty_file : ¬∀ (self : FatDevice Unit) (sectors : Nat) (filename buf : ByteMem)
    (size : Nat) (found : Except Errno DirectoryEntry), self.WellFormed sectors →
    (∀ lba buf sz, ∃ r, self.store.readSector lba buf sz () = .ok r) →
    self.find filename () = .ok (found, ()) →
    (∀ e, found = .ok e → e.attributes = 0x20 → self.HasFile sectors e) →
    self.ReadsInArea sectors filename buf size () found := by
  intro claim
  have wf : (sectorDevice emptyFile).WellFormed 100 := wellFormed_small
  have hfile : (sectorDevice emptyFile).HasFile 100 (directoryEntry emptyFile 0) :=
    .inl ⟨by decide, by decide⟩
  have returns : ∀ lba buf sz, ∃ r,
      (sectorDevice emptyFile).store.readSector lba buf sz () = .ok r :=
    fun _ _ _ => ⟨_, rfl⟩
  have harea := claim (sectorDevice emptyFile) 100 emptyName (fun _ => 0) 512 _ wf returns
    find_emptyFile fun e he _ => by
      cases he
      exact hfile
  have hread := (FatDevice.readsInArea_file_iff returns wf hfile find_emptyFile rfl).mp harea
  exact absurd hread.pos (by decide)

/-- For every volume, every store whose `read_sector` returns and every entry that `find` returns,
`slurp` reads sectors of the data area only, and gives an error or the number of bytes that there
are, exactly if a file was not found, or has bytes that are asked for, in at most 65535 sectors
that end in the volume. -/
theorem slurp_area_iff {S : Type} (self : FatDevice S) (sectors : Nat) (filename buf : ByteMem)
    (size : Nat) (found : Except Errno DirectoryEntry) (s s' : S)
    (wf : self.WellFormed sectors)
    (returns : ∀ lba buf sz, ∃ r, self.store.readSector lba buf sz s' = .ok r)
    (hfind : self.find filename s = .ok (found, s'))
    (hfile : ∀ e, found = .ok e → e.attributes = 0x20 → self.HasFile sectors e) :
    self.ReadsInArea sectors filename buf size s found ↔
      ∀ e, found = .ok e → e.attributes = 0x20 → self.Readable sectors e size := by
  cases found with
  | error r =>
      refine iff_of_true ?_ (fun e he _ => by cases he)
      exact FatDevice.readsInArea_error wf (FatDevice.find_error hfind)
        (FatDevice.slurp_error hfind buf size)
  | ok e =>
      by_cases hattr : e.attributes = 0x20
      · rw [FatDevice.readsInArea_file_iff returns wf (hfile e rfl hattr) hfind hattr]
        constructor
        · intro hread e' he _
          cases he
          exact hread
        · intro hall
          exact hall e rfl hattr
      · refine iff_of_true ?_ fun e' he hattr' => ?_
        · exact FatDevice.readsInArea_error wf (by decide)
            (FatDevice.slurp_invalid hfind hattr buf size)
        · cases he
          exact absurd hattr' hattr

/-- A file of two bytes on a drive. -/
theorem slurp_area_small :
    (Volume.small.device (2 ^ 25)).ReadsInArea 100 Volume.smallName (fun _ => 0) 256
      (Volume.smallAta 2 []) (.ok (Volume.smallFile 2).entry) := by
  have hfuel : (Volume.smallAta 2 []).latency + 2 ^ 24 + 2 ≤ 2 ^ 25 := by decide
  obtain ⟨m', hafter, hfind⟩ :=
    Volume.find_ready (v := Volume.small) hfuel Volume.smallName (Volume.smallAta_ready 2 0)
  have hlookup : Volume.small.lookup (Volume.smallAta 2 []) Volume.smallName =
      .ok (some (Volume.smallFile 2).entry) := by
    rfl
  rw [hlookup] at hfind
  refine (slurp_area_iff (Volume.small.device (2 ^ 25)) 100 Volume.smallName _ 256 _ _ m'
    wellFormed_small (Volume.readSector_returns hfuel hafter) hfind ?_).mpr ?_
  · intro e he _
    cases he
    exact .inr ⟨by decide, by decide⟩
  · intro e he _
    cases he
    exact ⟨by decide, by decide, by decide⟩

end BadOs
