import BadOs.Fs.Fat32

/-!
# Names of files

A name of eight characters and an extension of three are padded with spaces in a directory
entry. The name of the file is made of both with a dot in between.
-/

namespace BadOs

/-- `filenameFromDirectoryEntry` with the buffer at the start of the memory `m`. -/
def filenameInto (m : ByteMem) (de : DirectoryEntry) : Except Trap ByteMem :=
  let name := m.fill 0 13 0
  let name := strncpy name 0 de.name 8
  let dest := (strnchr name 0x20 8).getD 8
  let name := name.write dest 1 (0x2e : BitVec 8)
  let name := strncpy name (dest + 1) de.ext 3
  trimName 7 name

theorem filenameFromDirectoryEntry_eq (de : DirectoryEntry) :
    filenameFromDirectoryEntry de = filenameInto (fun _ => 0) de := by
  have hzero : ByteMem.fill (fun _ => 0) 0 13 0 = fun _ => 0 := by
    funext x
    exact ite_self 0
  rw [filenameInto, hzero]
  rfl

/-- What the loop at the end of `filenameFromDirectoryEntry` removes. -/
def Pads (c : BitVec 8) : Prop := c = 0x20 ∨ c = 0

instance (c : BitVec 8) : Decidable (Pads c) := inferInstanceAs (Decidable (_ ∨ _))

section

variable {name : ByteMem} {j last : Nat}

/-- The loop stops at the last character that is no padding. -/
theorem trimName_eq (hj : j ≤ last) (hkeep : ¬Pads (name j))
    (hpads : ∀ i, j < i → i ≤ last → Pads (name i)) :
    trimName last name = .ok (name.fill (j + 1) (last - j) 0) := by
  induction last generalizing name with
  | zero =>
      obtain rfl : j = 0 := Nat.le_zero.mp hj
      rw [trimName, if_neg (by exact hkeep)]
      refine congrArg Except.ok (funext fun x => ?_)
      exact (if_neg (by omega)).symm
  | succ last ih =>
      rw [trimName]
      by_cases hlast : j = last + 1
      · subst hlast
        rw [if_neg (by exact hkeep)]
        refine congrArg Except.ok (funext fun x => ?_)
        exact (if_neg (by omega)).symm
      · have hle : j ≤ last := by omega
        have hbelow : ∀ i ≤ last, name.write (last + 1) 1 (0 : BitVec 8) i = name i :=
          fun i hi => ByteMem.write_apply_of_not_mem (by omega)
        rw [if_pos (by exact hpads (last + 1) (by omega) (Nat.le_refl _))]
        refine (ih hle ?_ fun i hlt hi => ?_).trans ?_
        · rw [hbelow j hle]
          exact hkeep
        · rw [hbelow i hi]
          exact hpads i hlt (by omega)
        · refine congrArg Except.ok (funext fun x => ?_)
          by_cases hx : x = last + 1
          · subst hx
            have hfill : name.fill (j + 1) (last + 1 - j) 0 (last + 1) = 0 := if_pos (by omega)
            rw [ByteMem.fill_apply_of_not_mem (by omega), ByteMem.write_byte, hfill]
          · have hwrite : name.write (last + 1) 1 (0 : BitVec 8) x = name x :=
              ByteMem.write_apply_of_not_mem (by omega)
            simp only [ByteMem.fill, hwrite]
            exact if_congr (by omega) rfl rfl

/-- There is such a character unless the name consists of padding. -/
theorem exists_kept (h : ¬Pads (name 0)) (last : Nat) :
    ∃ j ≤ last, ¬Pads (name j) ∧ ∀ i, j < i → i ≤ last → Pads (name i) := by
  induction last with
  | zero => exact ⟨0, Nat.le_refl 0, h, fun i hlt hi => absurd hlt (by omega)⟩
  | succ last ih =>
      by_cases hlast : Pads (name (last + 1))
      · obtain ⟨j, hj, hkeep, hpads⟩ := ih
        refine ⟨j, Nat.le_succ_of_le hj, hkeep, fun i hlt hi => ?_⟩
        by_cases heq : i = last + 1
        · exact heq.symm ▸ hlast
        · exact hpads i hlt (by omega)
      · exact ⟨last + 1, Nat.le_refl _, hlast, fun i hlt hi => absurd hlt (by omega)⟩

end

/-! ## Any entry -/

/-- The characters before the loop that removes the padding. -/
def untrimmed (m : ByteMem) (de : DirectoryEntry) : ByteMem :=
  let name := strncpy (m.fill 0 13 0) 0 de.name 8
  let dest := (strnchr name 0x20 8).getD 8
  strncpy (name.write dest 1 (0x2e : BitVec 8)) (dest + 1) de.ext 3

theorem filenameInto_eq (m : ByteMem) (de : DirectoryEntry) :
    filenameInto m de = trimName 7 (untrimmed m de) := rfl

/-- The last of the twelve characters that can be stored is in front of a zero. -/
theorem untrimmed_apply_of_le (m : ByteMem) (de : DirectoryEntry) {i : Nat} (hi : 12 ≤ i) :
    untrimmed m de i = m.fill 0 13 0 i := by
  have hdest : (strnchr (strncpy (m.fill 0 13 0) 0 de.name 8) 0x20 8).getD 8 ≤ 8 := by
    cases hfind : strnchr (strncpy (m.fill 0 13 0) 0 de.name 8) 0x20 8 with
    | none => exact Nat.le_refl 8
    | some k => exact (strnchr_lt hfind).le
  dsimp only [untrimmed]
  rw [strncpy_apply_of_not_mem (by omega), ByteMem.write_apply_of_not_mem (by omega),
    strncpy_apply_of_not_mem (by omega)]

/-- The first character is that of the entry, or the dot. -/
theorem untrimmed_first (m : ByteMem) {de : DirectoryEntry} (h : de.name 0 ≠ 0) :
    ¬Pads (untrimmed m de 0) := by
  have hcopied : strncpy (m.fill 0 13 0) 0 de.name 8 0 = de.name 0 := by
    refine strncpy_apply (a := 0) (i := 0) ?_
    rw [strnlen, if_neg h]
    exact Nat.zero_lt_succ _
  dsimp only [untrimmed]
  rw [strncpy_apply_of_not_mem (Or.inl (Nat.zero_lt_succ _)), strnchr, if_neg (by rwa [hcopied]),
    hcopied]
  by_cases hspace : de.name 0 = 0x20
  · rw [if_pos hspace, Option.getD_some, ByteMem.write_byte]
    decide
  · have hlater : (((strnchr ((strncpy (m.fill 0 13 0) 0 de.name 8).shift 1) 0x20 7).map
        (· + 1)).getD 8) ≠ 0 := by
      cases strnchr ((strncpy (m.fill 0 13 0) 0 de.name 8).shift 1) 0x20 7 with
      | none => exact Nat.succ_ne_zero 7
      | some k => exact Nat.succ_ne_zero k
    rw [if_neg hspace, ByteMem.write_apply_of_not_mem (by omega), hcopied]
    exact not_or.mpr ⟨hspace, h⟩

/-- An entry that is in use has a name, of at most twelve characters. -/
theorem filenameInto_total (m : ByteMem) {de : DirectoryEntry} (h : de.name 0 ≠ 0) :
    (filenameInto m de).Total fun name =>
      (∀ i, 13 ≤ i → name i = m i) ∧ ∃ l, l.length ≤ 12 ∧ IsString name l := by
  obtain ⟨j, hj, hkeep, hpads⟩ := exists_kept (untrimmed_first m h) 7
  rw [filenameInto_eq]
  refine ⟨_, trimName_eq hj hkeep hpads, fun i hi => ?_, IsString.exists_of_zero ?_⟩
  · rw [ByteMem.fill_apply_of_not_mem (by omega), untrimmed_apply_of_le m de (by omega)]
    exact ByteMem.fill_apply_of_not_mem (by omega)
  · rw [ByteMem.fill_apply_of_not_mem (by omega), untrimmed_apply_of_le m de (Nat.le_refl 12)]
    rfl

/-! ## Padded entries -/

/-- The name of the entry is `base` and its extension is `ext`, both padded with spaces. -/
structure EightThree (de : DirectoryEntry) (base ext : List (BitVec 8)) : Prop where
  base_pos : 1 ≤ base.length
  base_le : base.length ≤ 8
  ext_le : ext.length ≤ 3
  char : ∀ c ∈ base ++ ext, c ≠ 0x20 ∧ c ≠ 0
  name_eq : de.name.slice 0 8 = base ++ List.replicate (8 - base.length) 0x20
  ext_eq : de.ext.slice 0 3 = ext ++ List.replicate (3 - ext.length) 0x20

/-- Base, dot and extension. -/
def fullName (base ext : List (BitVec 8)) : List (BitVec 8) := base ++ 0x2e :: ext

/-- What stays of the padding of the extension. The loop that removes it starts at the eighth
character. -/
def leftover (base ext : List (BitVec 8)) : Nat :=
  if base.length + ext.length ≤ 6 then 0 else 3 - ext.length

theorem leftover_cases (base ext : List (BitVec 8)) :
    base.length + ext.length ≤ 6 ∧ leftover base ext = 0 ∨
      7 ≤ base.length + ext.length ∧ leftover base ext = 3 - ext.length := by
  unfold leftover
  split <;> omega

theorem leftover_eq_zero_iff {base ext : List (BitVec 8)} (h : ext.length ≤ 3) :
    leftover base ext = 0 ↔ ext.length = 3 ∨ base.length + ext.length ≤ 6 := by
  have hleft := leftover_cases base ext
  omega

/-- A byte of an area that is known as a list. -/
theorem apply_of_slice {m : ByteMem} {n i : Nat} {l : List (BitVec 8)} (h : m.slice 0 n = l)
    (hi : i < n) : l[i]? = some (m i) := by
  rw [← h, ByteMem.slice, List.getElem?_map, List.getElem?_range hi, Option.map_some, Nat.zero_add]

namespace EightThree

variable {de : DirectoryEntry} {base ext : List (BitVec 8)} {i : Nat}

theorem name_apply (h : EightThree de base ext) (hi : i < base.length) :
    base[i]? = some (de.name i) := by
  have hbyte := apply_of_slice h.name_eq (hi.trans_le h.base_le)
  rwa [List.getElem?_append_left hi] at hbyte

theorem name_space (h : EightThree de base ext) (hlo : base.length ≤ i) (hi : i < 8) :
    de.name i = 0x20 := by
  have hbyte := apply_of_slice h.name_eq hi
  rw [List.getElem?_append_right hlo, List.getElem?_replicate, if_pos (by omega)] at hbyte
  exact (Option.some.inj hbyte).symm

theorem base_char (h : EightThree de base ext) (hi : i < base.length) :
    de.name i ≠ 0x20 ∧ de.name i ≠ 0 :=
  h.char _ (List.mem_append_left _ (List.mem_of_getElem? (h.name_apply hi)))

theorem name_ne_zero (h : EightThree de base ext) (hi : i < 8) : de.name i ≠ 0 := by
  by_cases hbase : i < base.length
  · exact (h.base_char hbase).2
  · rw [h.name_space (Nat.le_of_not_lt hbase) hi]
    decide

theorem ext_apply (h : EightThree de base ext) (hi : i < 3) :
    (ext ++ List.replicate (3 - ext.length) 0x20)[i]? = some (de.ext i) :=
  apply_of_slice h.ext_eq hi

theorem ext_ne_zero (h : EightThree de base ext) (hi : i < 3) : de.ext i ≠ 0 := by
  have hmem := List.mem_of_getElem? (h.ext_apply hi)
  obtain hext | hspace := List.mem_append.mp hmem
  · exact (h.char _ (List.mem_append_right _ hext)).2
  · rw [(List.mem_replicate.mp hspace).2]
    decide

/-- The twelve characters and the zero before the padding is removed. -/
theorem untrimmed_eq (h : EightThree de base ext) (m : ByteMem) :
    (∀ i, i < base.length + 4 →
      (fullName base (ext ++ List.replicate (3 - ext.length) 0x20))[i]? =
        some (untrimmed m de i)) ∧
    ∀ i, base.length + 4 ≤ i → i < 13 →
      untrimmed m de i = if i < 8 then 0x20 else 0 := by
  have hbase := h.base_le
  have hcopy : strncpy (m.fill 0 13 0) 0 de.name 8 = (m.fill 0 13 0).copy 0 de.name 0 8 :=
    strncpy_eq (fun i hi => h.name_ne_zero hi) _ _
  have hcopied : ∀ i < 8, (m.fill 0 13 0).copy 0 de.name 0 8 i = de.name i := by
    intro i hi
    rw [ByteMem.copy, if_pos (by omega)]
    exact congrArg de.name (by omega)
  have hdest : (strnchr ((m.fill 0 13 0).copy 0 de.name 0 8) 0x20 8).getD 8 = base.length := by
    refine strnchr_eq hbase (fun i hi => ?_) (fun hlt => ?_) (by decide)
    · rw [hcopied i (by omega)]
      exact (h.base_char hi).symm
    · rw [hcopied _ hlt]
      exact h.name_space (Nat.le_refl _) hlt
  have huntrimmed : untrimmed m de = (((m.fill 0 13 0).copy 0 de.name 0 8).write base.length 1
      (0x2e : BitVec 8)).copy (base.length + 1) de.ext 0 3 := by
    dsimp only [untrimmed]
    rw [hcopy, hdest]
    exact strncpy_eq (fun i hi => h.ext_ne_zero hi) _ _
  constructor
  · intro i hi
    unfold fullName
    rw [huntrimmed]
    obtain hlt | rfl | hgt := lt_trichotomy i base.length
    · rw [List.getElem?_append_left hlt, h.name_apply hlt, ByteMem.copy, if_neg (by omega),
        ByteMem.write_apply_of_not_mem (by omega), hcopied i (by omega)]
    · rw [List.getElem?_append_right (Nat.le_refl _), Nat.sub_self, ByteMem.copy,
        if_neg (by omega), ByteMem.write_byte]
      rfl
    · obtain ⟨j, rfl⟩ : ∃ j, i = base.length + 1 + j := ⟨i - (base.length + 1), by omega⟩
      have hcell : base.length + 1 + j - base.length = j + 1 := by omega
      have hoffset : 0 + (base.length + 1 + j - (base.length + 1)) = j := by omega
      rw [List.getElem?_append_right (by omega), hcell, List.getElem?_cons_succ,
        h.ext_apply (by omega), ByteMem.copy, if_pos (by omega), hoffset]
  · intro i hlo hi
    rw [huntrimmed, ByteMem.copy, if_neg (by omega), ByteMem.write_apply_of_not_mem (by omega)]
    split
    · next hlt => rw [hcopied i hlt, h.name_space (by omega) hlt]
    · rw [ByteMem.copy, if_neg (by omega)]
      exact if_pos (by omega)

theorem not_pads (h : EightThree de base ext) {c : BitVec 8} (hc : c ∈ fullName base ext) :
    ¬Pads c := by
  have hchar : ∀ c ∈ base ++ ext, ¬Pads c := fun c hc => not_or.mpr (h.char c hc)
  obtain hbase | hrest := List.mem_append.mp hc
  · exact hchar c (List.mem_append_left _ hbase)
  · obtain rfl | hext := List.mem_cons.mp hrest
    · decide
    · exact hchar c (List.mem_append_right _ hext)

theorem length_fullName (base ext : List (BitVec 8)) :
    (fullName base ext).length = base.length + ext.length + 1 := by
  rw [fullName, List.length_append, List.length_cons]
  omega

/-- The string in the buffer. -/
theorem filename (h : EightThree de base ext) (m : ByteMem) :
    (filenameInto m de).Total fun name =>
      IsString name (fullName base ext ++ List.replicate (leftover base ext) 0x20) := by
  have hext := h.ext_le
  have hbase := h.base_le
  obtain ⟨hchars, hrest⟩ := h.untrimmed_eq m
  have hlength := length_fullName base ext
  have hleft := leftover_cases base ext
  have hfull : fullName base (ext ++ List.replicate (3 - ext.length) 0x20) =
      fullName base ext ++ List.replicate (3 - ext.length) 0x20 := by
    simp [fullName]
  rw [hfull] at hchars
  have hkeep : ¬Pads (untrimmed m de (min (base.length + ext.length) 7)) := by
    have hchar := hchars (min (base.length + ext.length) 7) (by omega)
    rw [List.getElem?_append_left (by omega)] at hchar
    exact h.not_pads (List.mem_of_getElem? hchar)
  have hpads : ∀ i, min (base.length + ext.length) 7 < i → i ≤ 7 → Pads (untrimmed m de i) := by
    intro i hlt hi
    by_cases hmid : i < base.length + 4
    · have hchar := hchars i hmid
      rw [List.getElem?_append_right (by omega), List.getElem?_replicate,
        if_pos (by omega)] at hchar
      exact .inl (Option.some.inj hchar).symm
    · rw [hrest i (by omega) (by omega), if_pos (by omega)]
      exact .inl rfl
  have hprefix : fullName base ext ++ List.replicate (leftover base ext) 0x20 <+:
      fullName base ext ++ List.replicate (3 - ext.length) 0x20 := by
    refine (List.prefix_append_right_inj _).mpr (List.prefix_replicate_iff.mpr ?_)
    rw [List.length_replicate]
    exact ⟨by omega, rfl⟩
  rw [filenameInto_eq]
  refine ⟨_, trimName_eq (by omega) hkeep hpads, fun i hi => ?_, ?_, ?_⟩
  · rw [List.length_append, List.length_replicate] at hi
    have hchar := hchars i (by omega)
    rw [List.getElem?_eq_getElem (by simp; omega)] at hchar
    rw [ByteMem.fill_apply_of_not_mem (by omega), hprefix.getElem]
    exact (Option.some.inj hchar).symm
  · rw [List.length_append, List.length_replicate, hlength]
    obtain ⟨_, hzero⟩ | ⟨_, hpad⟩ := hleft
    · rw [hzero]
      exact if_pos (by omega)
    · rw [hpad, ByteMem.fill_apply_of_not_mem (by omega), hrest _ (by omega) (by omega),
        if_neg (by omega)]
  · intro c hc
    obtain hname | hspace := List.mem_append.mp hc
    · exact fun hzero => h.not_pads hname (.inr hzero)
    · rw [(List.mem_replicate.mp hspace).2]
      decide

end EightThree

/-! ## Different names -/

/-- The same split at `a`, or one of the parts has an `a` in it. -/
theorem append_cons_cases {α : Type*} {a : α} {l₁ l₂ r₁ r₂ : List α}
    (h : l₁ ++ a :: r₁ = l₂ ++ a :: r₂) :
    (l₁ = l₂ ∧ r₁ = r₂) ∨ (∃ t, r₁ = t ++ a :: r₂) ∨
      ∃ t, l₁ = l₂ ++ a :: t ∧ r₂ = t ++ a :: r₁ := by
  obtain ⟨t, rfl, ht⟩ | ⟨t, rfl, ht⟩ := List.append_eq_append_iff.mp h
  · cases t with
    | nil => exact .inl ⟨(List.append_nil _).symm, (List.cons.inj ht).2⟩
    | cons b t => exact .inr (.inl ⟨t, (List.cons.inj ht).2⟩)
  · cases t with
    | nil => exact .inl ⟨List.append_nil _, (List.cons.inj ht).2.symm⟩
    | cons b t =>
        obtain ⟨rfl, hrest⟩ := List.cons.inj ht
        exact .inr (.inr ⟨t, rfl, hrest⟩)

/-- Another dot could be the one between base and extension. -/
def Splits (base ext : List (BitVec 8)) : Prop :=
  (0x2e : BitVec 8) ∈ ext ∨
    ∃ b t, b ≠ [] ∧ base = b ++ 0x2e :: t ∧ t.length + ext.length ≤ 2

/-- No padding is left, and no other dot is the one in between. -/
def Unmistakable (base ext : List (BitVec 8)) : Prop :=
  (7 ≤ base.length + ext.length ∧ ext.length = 3) ∨
    (base.length + ext.length ≤ 6 ∧ ¬Splits base ext)

/-- An entry with this name and extension. -/
def sampleEntry (name ext : List (BitVec 8)) : DirectoryEntry where
  bytes i := ((name ++ List.replicate (8 - name.length) 0x20 ++ ext ++
    List.replicate (3 - ext.length) 0x20)[i]?).getD 0

/-- A part of a list that stands in memory. -/
theorem slice_of_list (l₁ l₂ l₃ : List (BitVec 8)) :
    ByteMem.slice (fun i => ((l₁ ++ l₂ ++ l₃)[i]?).getD 0) l₁.length l₂.length = l₂ := by
  refine List.ext_getElem? fun i => ?_
  rw [ByteMem.slice, List.getElem?_map]
  by_cases hi : i < l₂.length
  · rw [List.getElem?_range hi, Option.map_some, List.append_assoc,
      List.getElem?_append_right (Nat.le_add_right _ _), Nat.add_sub_cancel_left,
      List.getElem?_append_left hi, List.getElem?_eq_getElem hi, Option.getD_some]
  · rw [List.getElem?_eq_none (by rwa [List.length_range, ← Nat.not_lt]),
      List.getElem?_eq_none (Nat.le_of_not_lt hi)]
    rfl

theorem sampleEntry_eightThree {base ext : List (BitVec 8)} (hpos : 1 ≤ base.length)
    (hbase : base.length ≤ 8) (hext : ext.length ≤ 3)
    (hchar : ∀ c ∈ base ++ ext, c ≠ 0x20 ∧ c ≠ 0) :
    EightThree (sampleEntry base ext) base ext where
  base_pos := hpos
  base_le := hbase
  ext_le := hext
  char := hchar
  name_eq := by
    have hname := slice_of_list [] (base ++ List.replicate (8 - base.length) 0x20)
      (ext ++ List.replicate (3 - ext.length) 0x20)
    rw [List.length_append, List.length_replicate, Nat.add_sub_cancel' hbase, List.nil_append,
      ← List.append_assoc] at hname
    exact hname
  ext_eq := by
    have hname := slice_of_list (base ++ List.replicate (8 - base.length) 0x20)
      (ext ++ List.replicate (3 - ext.length) 0x20) []
    rw [List.length_append, List.length_replicate, Nat.add_sub_cancel' hbase, List.length_append,
      List.length_replicate, Nat.add_sub_cancel' hext, List.append_nil, ← List.append_assoc]
      at hname
    rw [DirectoryEntry.ext, ByteMem.slice_shift]
    exact hname

namespace EightThree

variable {de de' : DirectoryEntry} {base ext base' ext' : List (BitVec 8)} {n n' : Nat}

/-- The padding behind a name is told apart from its characters. -/
theorem padded_inj (h : EightThree de base ext) (h' : EightThree de' base' ext')
    (heq : fullName base ext ++ List.replicate n 0x20 =
      fullName base' ext' ++ List.replicate n' 0x20) :
    fullName base ext = fullName base' ext' ∧ n = n' := by
  have hchars (l : List (BitVec 8)) (k : Nat) (hl : ∀ c ∈ l, c ≠ 0x20) :
      (l ++ List.replicate k 0x20).filter (fun c => c != 0x20) = l := by
    rw [List.filter_append, List.filter_replicate_of_neg (by decide), List.append_nil]
    exact List.filter_eq_self.mpr fun c hc => bne_iff_ne.mpr (hl c hc)
  have hname : fullName base ext = fullName base' ext' := by
    rw [← hchars (fullName base ext) n fun c hc heq => h.not_pads hc (.inl heq), heq]
    exact hchars _ _ fun c hc heq => h'.not_pads hc (.inl heq)
  have hlength := congrArg List.length heq
  rw [hname, List.length_append, List.length_append, List.length_replicate,
    List.length_replicate] at hlength
  exact ⟨hname, Nat.add_left_cancel hlength⟩

/-- A name can be read in another way only if another dot is taken for the one in between. -/
theorem splits_of_fullName_eq (h : EightThree de base ext) (h' : EightThree de' base' ext')
    (heq : fullName base ext = fullName base' ext') (hne : (base, ext) ≠ (base', ext')) :
    Splits base ext := by
  obtain ⟨rfl, rfl⟩ | ⟨t, rfl⟩ | ⟨t, rfl, rfl⟩ := append_cons_cases heq
  · exact absurd rfl hne
  · exact .inl (List.mem_append_right _ List.mem_cons_self)
  · have hext := h'.ext_le
    rw [List.length_append, List.length_cons] at hext
    refine .inr ⟨base', t, ?_, rfl, by omega⟩
    rintro rfl
    exact absurd h'.base_pos (Nat.lt_irrefl 0)

/-- Then there is such an entry. -/
theorem exists_of_splits (h : EightThree de base ext) (hshort : base.length + ext.length ≤ 6)
    (hsplit : Splits base ext) : ∃ de' base' ext', EightThree de' base' ext' ∧
      (base, ext) ≠ (base', ext') ∧ fullName base' ext' = fullName base ext := by
  have hpos := h.base_pos
  have hext := h.ext_le
  have hkeep (c : BitVec 8) (hc : c ∈ fullName base ext) : c ≠ 0x20 ∧ c ≠ 0 :=
    not_or.mp (h.not_pads hc)
  obtain hdot | ⟨b, t, hb, rfl, hlength⟩ := hsplit
  · obtain ⟨t, r, rfl⟩ := List.append_of_mem hdot
    rw [List.length_append, List.length_cons] at hext hshort
    refine ⟨sampleEntry (base ++ 0x2e :: t) r, base ++ 0x2e :: t, r,
      sampleEntry_eightThree ?_ ?_ (by omega) fun c hc => hkeep c ?_, ?_, ?_⟩
    · rw [List.length_append]
      omega
    · rw [List.length_append, List.length_cons]
      omega
    · simp only [fullName, List.mem_append, List.mem_cons] at hc ⊢
      tauto
    · intro heq
      have hlength := congrArg (fun p => p.1.length) heq
      simp at hlength
    · simp [fullName]
  · rw [List.length_append, List.length_cons] at hshort
    refine ⟨sampleEntry b (t ++ 0x2e :: ext), b, t ++ 0x2e :: ext,
      sampleEntry_eightThree (List.length_pos_iff.mpr hb) (by omega) ?_ fun c hc => hkeep c ?_,
      ?_, ?_⟩
    · rw [List.length_append, List.length_cons]
      omega
    · simp only [fullName, List.mem_append, List.mem_cons] at hc ⊢
      tauto
    · intro heq
      have hlength := congrArg (fun p => p.1.length) heq
      simp at hlength
    · simp [fullName]

end EightThree

/-! ## All entries -/

/-- The entry of `base` and `ext` has its own name in the buffer `name`: `find` takes it for this
name and no other, and no other entry has it. -/
structure Names (m : ByteMem) (base ext : List (BitVec 8)) (name : ByteMem) : Prop where
  outside : ∀ i, 13 ≤ i → name i = m i
  string : IsString name (fullName base ext)
  found : ∀ filename l, IsString filename l →
    (strncmp name filename 13 = 0 ↔ l = fullName base ext)
  distinct : ∀ de' base' ext', EightThree de' base' ext' → (base, ext) ≠ (base', ext') →
    (filenameInto m de').Total fun name' => ∃ l l', IsString name l ∧ IsString name' l' ∧ l ≠ l'

namespace EightThree

variable {de : DirectoryEntry} {base ext : List (BitVec 8)}

/-- The string is right if no padding of the extension is left, and then `find` finds it. -/
theorem found (h : EightThree de base ext) {name : ByteMem}
    (hname : IsString name (fullName base ext)) (filename : ByteMem) (l : List (BitVec 8))
    (hl : IsString filename l) : strncmp name filename 13 = 0 ↔ l = fullName base ext := by
  have hlength : (fullName base ext).length < 13 := by
    have hbase := h.base_le
    have hext := h.ext_le
    rw [length_fullName]
    omega
  exact (hname.strncmp_eq_zero_iff hl hlength).trans eq_comm

/-- Entries that are not split in the same way have different strings, if neither of them can be
split in another way or their paddings differ. -/
theorem distinct (h : EightThree de base ext) {m name : ByteMem} {n : Nat}
    (hname : IsString name (fullName base ext ++ List.replicate n 0x20)) {de' : DirectoryEntry}
    {base' ext' : List (BitVec 8)} (h' : EightThree de' base' ext')
    (hne : fullName base ext = fullName base' ext' → n ≠ leftover base' ext') :
    (filenameInto m de').Total fun name' =>
      ∃ l l', IsString name l ∧ IsString name' l' ∧ l ≠ l' := by
  obtain ⟨name', hrun', hname'⟩ := h'.filename m
  refine ⟨name', hrun', _, _, hname, hname', fun heq => ?_⟩
  obtain ⟨hfull, hpad⟩ := h.padded_inj h' heq
  exact hne hfull hpad

/-- With three characters in both extensions, or with few characters, a name is split in one way. -/
theorem pair_eq (h : EightThree de base ext) (hcond : Unmistakable base ext)
    {de' : DirectoryEntry} {base' ext' : List (BitVec 8)} (h' : EightThree de' base' ext')
    (hfull : fullName base ext = fullName base' ext') (hleft : leftover base' ext' = 0) :
    (base, ext) = (base', ext') := by
  have hlength := congrArg List.length hfull
  rw [length_fullName, length_fullName] at hlength
  have hleft := (leftover_eq_zero_iff h'.ext_le).mp hleft
  obtain ⟨hlong, hext⟩ | ⟨_, hsplit⟩ := hcond
  · obtain ⟨hbase, hrest⟩ := List.append_inj hfull (by omega)
    exact Prod.ext hbase (List.cons.inj hrest).2
  · by_contra hne
    exact hsplit (h.splits_of_fullName_eq h' hfull hne)

theorem names (h : EightThree de base ext) {m name : ByteMem} (hcond : Unmistakable base ext)
    (houtside : ∀ i, 13 ≤ i → name i = m i)
    (hname : IsString name (fullName base ext ++ List.replicate (leftover base ext) 0x20)) :
    Names m base ext name := by
  have hzero : leftover base ext = 0 :=
    (leftover_eq_zero_iff h.ext_le).mpr (hcond.imp And.right And.left)
  rw [hzero] at hname
  have hstring := hname
  rw [List.replicate_zero, List.append_nil] at hstring
  refine ⟨houtside, hstring, h.found hstring, fun de' base' ext' h' hne => ?_⟩
  exact h.distinct hname h' fun hfull hleft => hne (h.pair_eq hcond h' hfull hleft.symm)

theorem unmistakable (h : EightThree de base ext) {m name : ByteMem}
    (hnames : Names m base ext name)
    (hname : IsString name (fullName base ext ++ List.replicate (leftover base ext) 0x20)) :
    Unmistakable base ext := by
  have hzero : leftover base ext = 0 := by
    have hlength := congrArg List.length (hnames.string.unique hname)
    rw [List.length_append, List.length_replicate] at hlength
    omega
  have hlengths := (leftover_eq_zero_iff h.ext_le).mp hzero
  by_cases hshort : base.length + ext.length ≤ 6
  · refine .inr ⟨hshort, fun hsplit => ?_⟩
    obtain ⟨de', base', ext', h', hne, hfull⟩ := h.exists_of_splits hshort hsplit
    have hlength := congrArg List.length hfull
    rw [length_fullName, length_fullName] at hlength
    obtain ⟨name', hrun', hname'⟩ := h'.filename m
    rw [(leftover_eq_zero_iff h'.ext_le).mpr (.inr (by omega)), List.replicate_zero,
      List.append_nil, hfull] at hname'
    obtain ⟨_, hrun'', l, l', hl, hl', hll⟩ := hnames.distinct de' base' ext' h' hne
    cases hrun'.symm.trans hrun''
    exact hll ((hl.unique hnames.string).trans (hname'.unique hl'))
  · exact .inl ⟨Nat.lt_of_not_le hshort, hlengths.resolve_right hshort⟩

end EightThree

/-- Only the buffer is written, and the string is base, dot and extension with what is left of the
padding. It is right and that of no other entry exactly if nothing is left and no other dot can be
taken for the one in between. Entries whose extensions have no dot in them get different strings
in any case. -/
theorem filename_iff (de : DirectoryEntry) (base ext : List (BitVec 8)) (m : ByteMem)
    (h : EightThree de base ext) :
    ((filenameInto m de).Total (Names m base ext) ↔ Unmistakable base ext) ∧
      (filenameInto m de).Total fun name => (∀ i, 13 ≤ i → name i = m i) ∧
        IsString name (fullName base ext ++ List.replicate (leftover base ext) 0x20) ∧
        ∀ de' base' ext', EightThree de' base' ext' → (0x2e : BitVec 8) ∉ ext →
          (0x2e : BitVec 8) ∉ ext' → (base, ext) ≠ (base', ext') →
          (filenameInto m de').Total fun name' =>
            ∃ l l', IsString name l ∧ IsString name' l' ∧ l ≠ l' := by
  obtain ⟨name, hrun, hname⟩ := h.filename m
  have houtside := ((filenameInto_total m (h.name_ne_zero (by decide))).post name hrun).1
  refine ⟨⟨?_, fun hcond => ⟨name, hrun, h.names hcond houtside hname⟩⟩, name, hrun, houtside,
    hname, ?_⟩
  · rintro ⟨name₁, hrun₁, hnames⟩
    cases hrun.symm.trans hrun₁
    exact h.unmistakable hnames hname
  · intro de' base' ext' h' hdot hdot' hne
    refine h.distinct hname h' fun hfull => ?_
    obtain ⟨rfl, rfl⟩ | ⟨t, rfl⟩ | ⟨t, _, rfl⟩ := append_cons_cases hfull
    · exact absurd rfl hne
    · exact absurd (List.mem_append_right t List.mem_cons_self) hdot
    · exact absurd (List.mem_append_right t List.mem_cons_self) hdot'

/-- `ABCDEFGH` with the extension `A`: two spaces stay behind it. -/
theorem filename_padding : ¬∀ (de : DirectoryEntry) (base ext : List (BitVec 8)) (m : ByteMem),
    EightThree de base ext → (filenameInto m de).Total (Names m base ext) := by
  intro claim
  have h : EightThree (sampleEntry [0x41, 0x42, 0x43, 0x44, 0x45, 0x46, 0x47, 0x48] [0x41])
      [0x41, 0x42, 0x43, 0x44, 0x45, 0x46, 0x47, 0x48] [0x41] :=
    sampleEntry_eightThree (by decide) (by decide) (by decide) (by decide)
  obtain ⟨name, hrun, hname⟩ := h.filename fun _ => 0
  obtain ⟨name', hrun', hnames⟩ := claim _ _ _ (fun _ => 0) h
  cases hrun.symm.trans hrun'
  exact absurd (hname.unique hnames.string) (by decide)

/-- `KERNEL32` with the extension `BIN` and `A` without one have their names; `ABCDEFGH` with the
extension `A` has not. -/
theorem filename_iff_entries :
    (filenameInto (fun _ => 0)
      (sampleEntry [0x4b, 0x45, 0x52, 0x4e, 0x45, 0x4c, 0x33, 0x32] [0x42, 0x49, 0x4e])).Total
        (Names (fun _ => 0) [0x4b, 0x45, 0x52, 0x4e, 0x45, 0x4c, 0x33, 0x32] [0x42, 0x49, 0x4e]) ∧
    (filenameInto (fun _ => 0) (sampleEntry [0x41] [])).Total (Names (fun _ => 0) [0x41] []) ∧
    ¬(filenameInto (fun _ => 0)
      (sampleEntry [0x41, 0x42, 0x43, 0x44, 0x45, 0x46, 0x47, 0x48] [0x41])).Total
        (Names (fun _ => 0) [0x41, 0x42, 0x43, 0x44, 0x45, 0x46, 0x47, 0x48] [0x41]) := by
  have kernel := (filename_iff _ [0x4b, 0x45, 0x52, 0x4e, 0x45, 0x4c, 0x33, 0x32]
    [0x42, 0x49, 0x4e] (fun _ => 0)
    (sampleEntry_eightThree (by decide) (by decide) (by decide) (by decide))).1
  have short := (filename_iff _ [0x41] [] (fun _ => 0)
    (sampleEntry_eightThree (by decide) (by decide) (by decide) (by decide))).1
  have long := (filename_iff _ [0x41, 0x42, 0x43, 0x44, 0x45, 0x46, 0x47, 0x48] [0x41]
    (fun _ => 0) (sampleEntry_eightThree (by decide) (by decide) (by decide) (by decide))).1
  refine ⟨kernel.mpr (.inl (by decide)), short.mpr (.inr ⟨by decide, ?_⟩), fun hnames => ?_⟩
  · rintro (hdot | ⟨b, t, hb, hbase, _⟩)
    · cases hdot
    · cases b with
      | nil => exact hb rfl
      | cons c b => exact absurd (List.cons.inj hbase).2 (List.append_ne_nil_of_right_ne_nil _
          (List.cons_ne_nil _ _)).symm
  · obtain ⟨_, hext⟩ | ⟨hlength, _⟩ := long.mp hnames
    · cases hext
    · exact absurd hlength (by decide)

end BadOs
