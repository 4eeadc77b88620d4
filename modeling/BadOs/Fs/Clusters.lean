import BadOs.Data.Ranges
import BadOs.Fs.Area

/-!
# Where the clusters are

The clusters of a volume are numbered from 2 on. `lbaOfCluster` computes with 32 bits; on a volume
whose last sector has a number of 32 bits no step wraps around.
-/

namespace BadOs

namespace FatLayout

/-- None of the operations of `lbaOfCluster` wraps around. -/
structure NoOverflow (self : FatLayout) (cluster : BitVec 32) : Prop where
  fatSectors : ¬self.tableSize.umulOverflow (self.noFats.setWidth 32)
  firstDataSector : ¬(self.reservedSectors.setWidth 32).uaddOverflow
    (self.tableSize * self.noFats.setWidth 32)
  index : ¬cluster.usubOverflow 2
  offset : ¬(cluster - 2).umulOverflow (self.sectorsPerCluster.setWidth 32)
  lba : ¬(self.reservedSectors.setWidth 32 + self.tableSize * self.noFats.setWidth 32).uaddOverflow
    ((cluster - 2) * self.sectorsPerCluster.setWidth 32)

/-- The sectors of a cluster. -/
def clusterRange (self : FatLayout) (cluster : BitVec 32) : AddrRange :=
  ⟨(self.lbaOfCluster cluster).toNat, self.sectorsPerCluster.toNat⟩

/-- The number of the first sector behind the last of the clusters. -/
def dataEnd (self : FatLayout) (clusters : Nat) : Nat :=
  self.dataStart + clusters * self.sectorsPerCluster.toNat

/-- The cluster is one of so many. -/
def IsCluster (clusters : Nat) (cluster : BitVec 32) : Prop :=
  2 ≤ cluster.toNat ∧ cluster.toNat < clusters + 2

variable {self : FatLayout} {clusters : Nat} {c c₁ c₂ : BitVec 32}

/-- Whole clusters fit between the first data sector and the end. -/
theorem sectorOf_add_le (self : FatLayout) (h : IsCluster clusters c) :
    self.sectorOf c.toNat + self.sectorsPerCluster.toNat ≤ self.dataEnd clusters := by
  obtain ⟨hlo, hhi⟩ := h
  have hmul : (c.toNat - 2 + 1) * self.sectorsPerCluster.toNat ≤
      clusters * self.sectorsPerCluster.toNat := Nat.mul_le_mul_right _ (by omega)
  rw [Nat.succ_mul] at hmul
  unfold sectorOf dataEnd dataStart
  omega

/-- A cluster with a smaller number ends before the other one starts. -/
theorem sectorOf_add_le_sectorOf (self : FatLayout) {a b : Nat} (ha : 2 ≤ a) (hab : a < b) :
    self.sectorOf a + self.sectorsPerCluster.toNat ≤ self.sectorOf b := by
  have hmul : (a - 2 + 1) * self.sectorsPerCluster.toNat ≤
      (b - 2) * self.sectorsPerCluster.toNat := Nat.mul_le_mul_right _ (by omega)
  rw [Nat.succ_mul] at hmul
  unfold sectorOf
  omega

theorem addressable_of_isCluster (one : 1 ≤ self.sectorsPerCluster.toNat)
    (fits : self.dataEnd clusters < 2 ^ 32) (h : IsCluster clusters c) : self.Addressable c := by
  have hend := self.sectorOf_add_le h
  exact ⟨h.1, by omega⟩

/-- The first data sector is not behind the sectors of the cluster. -/
theorem firstDataSector_noOverflow (h : self.sectorOf c.toNat < 2 ^ 32) :
    ¬self.tableSize.umulOverflow (self.noFats.setWidth 32) ∧
      ¬(self.reservedSectors.setWidth 32).uaddOverflow
        (self.tableSize * self.noFats.setWidth 32) ∧
      (self.tableSize * self.noFats.setWidth 32).toNat =
        self.noFats.toNat * self.tableSize.toNat := by
  unfold sectorOf at h
  have hmul : ¬self.tableSize.umulOverflow (self.noFats.setWidth 32) := by
    simp only [BitVec.umulOverflow, decide_eq_true_eq, toNat_noFats]
    rw [Nat.mul_comm]
    omega
  have htables := BitVec.toNat_mul_of_not_umulOverflow hmul
  rw [toNat_noFats, Nat.mul_comm] at htables
  refine ⟨hmul, ?_, htables⟩
  simp only [BitVec.uaddOverflow, decide_eq_true_eq, toNat_reservedSectors, htables]
  omega

/-- No intermediate result is greater than the first sector of the cluster. -/
theorem noOverflow (h : self.Addressable c) : self.NoOverflow c := by
  obtain ⟨hlo, hlt⟩ := h
  obtain ⟨hmul, hfirst, htables⟩ := firstDataSector_noOverflow hlt
  unfold sectorOf at hlt
  have hindex : ¬c.usubOverflow 2 := by
    simp only [BitVec.usubOverflow, decide_eq_true_eq, not_lt]
    exact hlo
  have hsub : (c - 2).toNat = c.toNat - 2 := BitVec.toNat_sub_of_not_usubOverflow hindex
  have hoffset : ¬(c - 2).umulOverflow (self.sectorsPerCluster.setWidth 32) := by
    simp only [BitVec.umulOverflow, decide_eq_true_eq, toNat_sectorsPerCluster, hsub]
    omega
  constructor
  · exact hmul
  · exact hfirst
  · exact hindex
  · exact hoffset
  · simp only [BitVec.uaddOverflow, decide_eq_true_eq, BitVec.toNat_mul_of_not_umulOverflow hoffset,
      BitVec.toNat_add_of_not_uaddOverflow hfirst, hsub, htables, toNat_reservedSectors,
      toNat_sectorsPerCluster]
    omega

/-- Two clusters have no sector in common. -/
theorem clusterRange_apart (h₁ : self.Addressable c₁) (h₂ : self.Addressable c₂) (hne : c₁ ≠ c₂) :
    (self.clusterRange c₁).Apart (self.clusterRange c₂) := by
  intro x hx₁ hx₂
  simp only [AddrRange.Contains, clusterRange, lbaOfCluster_toNat h₁, lbaOfCluster_toNat h₂]
    at hx₁ hx₂
  obtain hlt | heq | hgt := Nat.lt_trichotomy c₁.toNat c₂.toNat
  · have hbefore := self.sectorOf_add_le_sectorOf h₁.1 hlt
    omega
  · exact hne (BitVec.eq_of_toNat_eq heq)
  · have hafter := self.sectorOf_add_le_sectorOf h₂.1 hgt
    omega

theorem clusterRange_inside (h : self.Addressable c) (hc : IsCluster clusters c) :
    self.dataStart ≤ (self.clusterRange c).start ∧
      (self.clusterRange c).start + (self.clusterRange c).size ≤ self.dataEnd clusters := by
  simp only [clusterRange, lbaOfCluster_toNat h]
  exact ⟨self.dataStart_le _, self.sectorOf_add_le hc⟩

/-- On a volume that 32 bits are enough for, clusters are apart, behind the tables and before the
end, and nothing wraps around on the way to their first sectors. -/
theorem clusters_apart (one : 1 ≤ self.sectorsPerCluster.toNat)
    (fits : self.dataEnd clusters < 2 ^ 32) (h₁ : IsCluster clusters c₁)
    (h₂ : IsCluster clusters c₂) (hne : c₁ ≠ c₂) :
    (self.NoOverflow c₁ ∧ self.NoOverflow c₂) ∧
      (self.clusterRange c₁).Apart (self.clusterRange c₂) ∧
      ∀ c, c = c₁ ∨ c = c₂ → self.dataStart ≤ (self.clusterRange c).start ∧
        (self.clusterRange c).start + (self.clusterRange c).size ≤ self.dataEnd clusters := by
  have haddr₁ := addressable_of_isCluster one fits h₁
  have haddr₂ := addressable_of_isCluster one fits h₂
  refine ⟨⟨noOverflow haddr₁, noOverflow haddr₂⟩, clusterRange_apart haddr₁ haddr₂ hne, ?_⟩
  rintro c (rfl | rfl)
  · exact clusterRange_inside haddr₁ h₁
  · exact clusterRange_inside haddr₂ h₂

/-- The last two clusters of a small volume. -/
theorem clusters_apart_small :
    let layout : FatLayout := ⟨32, 8, 2, 100, 2⟩
    (layout.NoOverflow 6 ∧ layout.NoOverflow 7) ∧
      (layout.clusterRange 6).Apart (layout.clusterRange 7) ∧
      ∀ c, c = 6 ∨ c = 7 → layout.dataStart ≤ (layout.clusterRange c).start ∧
        (layout.clusterRange c).start + (layout.clusterRange c).size ≤ layout.dataEnd 6 :=
  clusters_apart (by decide) (by decide) (by unfold IsCluster; decide)
    (by unfold IsCluster; decide) (by decide)

end FatLayout

end BadOs
