import Mathlib.Data.List.Nodup
import Mathlib.Data.List.Pairwise

/-!
# Lists of records with a key

A linked list of records whose addresses differ is a list with unique keys. Storing
back a record and unlinking one are the two updates.
-/

namespace Keyed

variable {α κ β : Type*} [DecidableEq κ] (key : α → κ)

/-- Store `a` in place of the record with its key. -/
def replace (a : α) (l : List α) : List α := l.map fun b => if key b = key a then a else b

/-- Unlink the first record with key `k`. -/
def erase (k : κ) (l : List α) : List α := l.eraseP fun b => key b == k

/-- No two records have the same key. -/
def Unique (l : List α) : Prop := (l.map key).Nodup

variable {key} {a b : α} {k : κ} {l : List α}

@[simp] theorem map_key_replace (a : α) (l : List α) : (replace key a l).map key = l.map key := by
  rw [replace, List.map_map]
  apply List.map_congr_left
  intro b _
  simp only [Function.comp_apply]
  split
  · next h => exact h.symm
  · rfl

theorem mem_replace :
    b ∈ replace key a l ↔ b ∈ l ∧ key b ≠ key a ∨ b = a ∧ ∃ c ∈ l, key c = key a := by
  rw [replace, List.mem_map]
  constructor
  · rintro ⟨c, hc, rfl⟩
    split
    · next h => exact Or.inr ⟨rfl, c, hc, h⟩
    · next h => exact Or.inl ⟨hc, h⟩
  · rintro (⟨hb, hne⟩ | ⟨rfl, c, hc, h⟩)
    · exact ⟨b, hb, if_neg hne⟩
    · exact ⟨c, hc, if_pos h⟩

/-- The record is the first one with its key. -/
theorem erase_append_cons {l₁ l₂ : List α} (h : key a ∉ l₁.map key) :
    erase key (key a) (l₁ ++ a :: l₂) = l₁ ++ l₂ := by
  have hnot : ∀ b ∈ l₁, ¬(key b == key a) = true := fun b hb heq =>
    h (eq_of_beq heq ▸ List.mem_map_of_mem hb)
  rw [erase, List.eraseP_append_right _ hnot]
  exact congrArg (l₁ ++ ·) (List.eraseP_cons_of_pos (beq_self_eq_true (key a)))

theorem erase_sublist (k : κ) (l : List α) : (erase key k l).Sublist l := List.eraseP_sublist

theorem map_key_erase (k : κ) (l : List α) :
    (erase key k l).map key = (l.map key).erase k := by
  rw [List.erase_eq_eraseP, List.eraseP_map]
  exact congrArg (fun test => (l.eraseP test).map key) (funext fun _ => Bool.beq_comm)

/-- Records that are left out anyway may be replaced. -/
theorem filter_replace {p : α → Bool} (hp : ∀ b ∈ l, key b = key a → p b = false)
    (ha : p a = false) : (replace key a l).filter p = l.filter p := by
  induction l with
  | nil => rfl
  | cons b l ih =>
      obtain ⟨hb, hl⟩ := List.forall_mem_cons.mp hp
      change List.filter p ((if key b = key a then a else b) :: replace key a l) = _
      by_cases heq : key b = key a
      · rw [if_pos heq, List.filter_cons_of_neg (by simp [ha]),
          List.filter_cons_of_neg (by simp [hb heq]), ih hl]
      · rw [if_neg heq, List.filter_cons, List.filter_cons, ih hl]

theorem filter_erase {p : α → Bool} (hp : ∀ b ∈ l, key b = k → p b = false) :
    (erase key k l).filter p = l.filter p := by
  induction l with
  | nil => rfl
  | cons b l ih =>
      obtain ⟨hb, hl⟩ := List.forall_mem_cons.mp hp
      by_cases heq : key b = k
      · have herase : erase key k (b :: l) = l := List.eraseP_cons_of_pos (beq_iff_eq.mpr heq)
        rw [herase, List.filter_cons_of_neg (by simp [hb heq])]
      · have herase : erase key k (b :: l) = b :: erase key k l :=
          List.eraseP_cons_of_neg (by simp [heq])
        rw [herase, List.filter_cons, List.filter_cons, ih hl]

namespace Unique

omit [DecidableEq κ] in
theorem eq_of_key_eq (h : Unique key l) (ha : a ∈ l) (hb : b ∈ l) (heq : key a = key b) : a = b :=
  List.inj_on_of_nodup_map h ha hb heq

/-- A record is found by its key. -/
theorem find?_key (h : Unique key l) (ha : a ∈ l) : l.find? (fun b => key b == key a) = some a := by
  cases hfind : l.find? fun b => key b == key a with
  | none => exact absurd (beq_self_eq_true _) (List.find?_eq_none.mp hfind a ha)
  | some b =>
      have hkey : (key b == key a) = true := List.find?_some (p := fun b => key b == key a) hfind
      rw [h.eq_of_key_eq (List.mem_of_find?_eq_some hfind) ha (eq_of_beq hkey)]

theorem replace (h : Unique key l) (a : α) : Unique key (Keyed.replace key a l) := by
  rw [Unique, map_key_replace]
  exact h

theorem erase (h : Unique key l) (k : κ) : Unique key (Keyed.erase key k l) :=
  List.Nodup.sublist ((erase_sublist k l).map key) h

theorem mem_erase (h : Unique key l) : b ∈ Keyed.erase key k l ↔ b ∈ l ∧ key b ≠ k := by
  induction l with
  | nil => simp [Keyed.erase]
  | cons c l ih =>
      obtain ⟨hc, hl⟩ := List.nodup_cons.mp h
      have hkey : ∀ d ∈ l, key d ≠ key c := fun d hd heq => hc (List.mem_map.mpr ⟨d, hd, heq⟩)
      by_cases hck : key c = k
      · have hcons : Keyed.erase key k (c :: l) = l := by simp [Keyed.erase, hck]
        rw [hcons, List.mem_cons]
        constructor
        · exact fun hb => ⟨Or.inr hb, fun hbk => hkey b hb (hbk.trans hck.symm)⟩
        · rintro ⟨rfl | hb, hne⟩
          · exact absurd hck hne
          · exact hb
      · have hcons : Keyed.erase key k (c :: l) = c :: Keyed.erase key k l := by
          simp [Keyed.erase, hck]
        rw [hcons, List.mem_cons, List.mem_cons, ih hl]
        constructor
        · rintro (rfl | ⟨hb, hne⟩)
          · exact ⟨Or.inl rfl, hck⟩
          · exact ⟨Or.inr hb, hne⟩
        · rintro ⟨rfl | hb, hne⟩
          · exact Or.inl rfl
          · exact Or.inr ⟨hb, hne⟩

/-- An unlinked record is not found any more, and the others are. -/
theorem find?_erase (h : Unique key l) (k k' : κ) :
    (Keyed.erase key k l).find? (fun b => key b == k') =
      if k = k' then none else l.find? fun b => key b == k' := by
  by_cases hk : k = k'
  · subst hk
    rw [if_pos rfl]
    refine List.find?_eq_none.mpr fun b hb hkey => ?_
    exact (h.mem_erase.mp hb).2 (eq_of_beq hkey)
  · rw [if_neg hk]
    induction l with
    | nil => rfl
    | cons b l ih =>
        rw [Keyed.erase, List.eraseP_cons]
        by_cases hb : key b = k
        · rw [beq_iff_eq.mpr hb, cond_true, List.find?_cons_of_neg]
          exact fun heq => hk (hb.symm.trans (eq_of_beq heq))
        · rw [beq_eq_false_iff_ne.mpr hb, cond_false, List.find?_cons, List.find?_cons]
          exact congrArg (fun found => bif key b == k' then some b else found)
            (ih (List.nodup_cons.mp h).2)

/-- Storing back a record does not show in an attribute that it has not changed. -/
theorem map_replace (h : Unique key l) {f : α → β} (ha : a ∈ l) (hkey : key b = key a)
    (hf : f b = f a) : (Keyed.replace key b l).map f = l.map f := by
  rw [Keyed.replace, List.map_map]
  apply List.map_congr_left
  intro c hc
  simp only [Function.comp_apply]
  split
  · next hcb => rw [h.eq_of_key_eq hc ha (hcb.trans hkey), hf]
  · rfl

end Unique

end Keyed
