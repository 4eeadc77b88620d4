import Mathlib.Data.BitVec
import Mathlib.Data.Multiset.AddSub

/-!
# Reference counts

Each object has a counter of `w` bits, which is to say how many references to it there are.
The references themselves are a multiset of objects, with an entry for each one. Counters and
references go together as long as no counter overflows; then an object is freed when its last
reference is given up.
-/

/-- The counters, and the objects that were not freed. -/
@[ext]
structure RefStore (w : Nat) where
  count : Nat → BitVec w
  live : List Nat

namespace RefStore

variable {w : Nat}

/-- A new object, without references. -/
def insert (a : Nat) (s : RefStore w) : RefStore w :=
  ⟨Function.update s.count a 0, a :: s.live⟩

def acquire (a : Nat) (s : RefStore w) : RefStore w :=
  { s with count := Function.update s.count a (s.count a + 1) }

/-- An object without references is freed. -/
def release (a : Nat) (s : RefStore w) : RefStore w where
  count := Function.update s.count a (s.count a - 1)
  live := if s.count a - 1 = 0 then s.live.erase a else s.live

/-- The counters are those of the references `refs`. -/
structure Owned (s : RefStore w) (refs : Multiset Nat) : Prop where
  count : ∀ a ∈ s.live, (s.count a).toNat = refs.count a
  live : ∀ a ∈ refs, a ∈ s.live
  nodup : s.live.Nodup

theorem toNat_one_of_lt (h : 1 < 2 ^ w) : (1 : BitVec w).toNat = 1 := by
  refine BitVec.toNat_one (Nat.pos_of_ne_zero ?_)
  rintro rfl
  exact absurd h (by decide)

namespace Owned

variable {s : RefStore w} {refs : Multiset Nat} {a b : Nat}

theorem insert (h : s.Owned refs) (hnew : a ∉ s.live) : (s.insert a).Owned refs where
  count b hb := by
    obtain rfl | hb := List.mem_cons.mp hb
    · have hzero : refs.count b = 0 :=
        Multiset.count_eq_zero_of_notMem fun hmem => hnew (h.live b hmem)
      rw [hzero]
      show ((Function.update s.count b 0) b).toNat = 0
      rw [Function.update_self]
      exact BitVec.toNat_zero
    · have hne : b ≠ a := fun heq => hnew (heq ▸ hb)
      show ((Function.update s.count a 0) b).toNat = _
      rw [Function.update_of_ne hne]
      exact h.count b hb
  live b hb := List.mem_cons_of_mem _ (h.live b hb)
  nodup := List.nodup_cons.mpr ⟨hnew, h.nodup⟩

/-- The counter has room for one more reference. -/
theorem acquire (h : s.Owned refs) (ha : a ∈ s.live) (hroom : (s.count a).toNat + 1 < 2 ^ w) :
    (s.acquire a).Owned (a ::ₘ refs) where
  count b hb := by
    show ((Function.update s.count a (s.count a + 1)) b).toNat = _
    by_cases heq : b = a
    · subst heq
      have hone : (1 : BitVec w).toNat = 1 := toNat_one_of_lt (by omega)
      rw [Function.update_self, Multiset.count_cons_self, BitVec.toNat_add, hone,
        Nat.mod_eq_of_lt hroom, h.count b ha]
    · rw [Function.update_of_ne heq, Multiset.count_cons_of_ne heq]
      exact h.count b hb
  live b hb := by
    obtain rfl | hb := Multiset.mem_cons.mp hb
    · exact ha
    · exact h.live b hb
  nodup := h.nodup

theorem count_release (h : s.Owned refs) (ha : a ∈ refs) :
    (s.count a - 1).toNat = (refs.erase a).count a := by
  have hpos : 0 < refs.count a := Multiset.count_pos.mpr ha
  have hcount := h.count a (h.live a ha)
  have hlt := (s.count a).isLt
  have hone : (1 : BitVec w).toNat = 1 := toNat_one_of_lt (by omega)
  have hle : (1 : BitVec w) ≤ s.count a := by
    rw [BitVec.le_def, hone]
    omega
  rw [Multiset.count_erase_self, BitVec.toNat_sub_of_le hle, hone, hcount]

/-- The object stays as long as there are other references. -/
theorem release_eq_zero_iff (h : s.Owned refs) (ha : a ∈ refs) :
    s.count a - 1 = 0 ↔ a ∉ refs.erase a := by
  have hcount := h.count_release ha
  rw [← Multiset.count_eq_zero, ← hcount]
  constructor
  · intro hzero
    rw [hzero]
    exact BitVec.toNat_zero
  · intro hzero
    exact BitVec.eq_of_toNat_eq (hzero.trans BitVec.toNat_zero.symm)

theorem mem_release (h : s.Owned refs) (ha : a ∈ refs) :
    b ∈ (s.release a).live ↔ b ∈ s.live ∧ (b = a → a ∈ refs.erase a) := by
  show b ∈ (if s.count a - 1 = 0 then s.live.erase a else s.live) ↔ _
  by_cases hlast : a ∈ refs.erase a
  · rw [if_neg fun hzero => (h.release_eq_zero_iff ha).mp hzero hlast]
    exact ⟨fun hb => ⟨hb, fun _ => hlast⟩, fun hb => hb.1⟩
  · rw [if_pos ((h.release_eq_zero_iff ha).mpr hlast), h.nodup.mem_erase_iff]
    constructor
    · rintro ⟨hne, hb⟩
      exact ⟨hb, fun heq => absurd heq hne⟩
    · rintro ⟨hb, hkept⟩
      exact ⟨fun heq => hlast (hkept heq), hb⟩

theorem release (h : s.Owned refs) (ha : a ∈ refs) : (s.release a).Owned (refs.erase a) where
  count b hb := by
    have hb := ((h.mem_release ha).mp hb).1
    show ((Function.update s.count a (s.count a - 1)) b).toNat = _
    by_cases heq : b = a
    · subst heq
      rw [Function.update_self, h.count_release ha]
    · rw [Function.update_of_ne heq, Multiset.count_erase_of_ne heq]
      exact h.count b hb
  live b hb := by
    refine (h.mem_release ha).mpr ⟨h.live b (Multiset.mem_of_mem_erase hb), ?_⟩
    rintro rfl
    exact hb
  nodup := by
    show (if s.count a - 1 = 0 then s.live.erase a else s.live).Nodup
    split
    · exact h.nodup.erase a
    · exact h.nodup

end Owned

end RefStore
