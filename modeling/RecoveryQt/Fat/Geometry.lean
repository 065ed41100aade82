import RecoveryQt.Fat.Model

/-!
# The geometry of a FAT volume

* `noOfCluster_add_lt`, `mul_spc_lt`: the 32-bit cluster arithmetic does not wrap;
* `rootSectors_eq_zero`, `rootSectors_pos`: the root directory lies before the data on FAT12 and
  FAT16 only;
* `startData_mul`, `le_backupNoOfCluster`, `backupNoOfCluster_eq`: the two formulas compared.
-/

namespace RecoveryQt

theorem sub64_of_le {a b : ℕ} (hba : b ≤ a) (ha : a < 2 ^ 64) : sub64 a b = a - b := by
  unfold sub64
  omega

theorem FatBootSector.partSize_lt (h : FatBootSector) : h.partSize < 2 ^ 32 := by
  have h1 := h.sectors.toNat_lt
  have h2 := h.totalSect.toNat_lt
  unfold partSize
  split_ifs <;> omega

namespace FatVolume

variable (v : FatVolume)

theorem sectorSize_lt : v.disk.sectorSize < 2 ^ 16 := by
  rw [← v.sectorSize_eq]
  exact v.header.sectorSize.toNat_lt

theorem noOfCluster_eq : v.noOfCluster =
    (v.header.partSize - v.header.startData v.disk.sectorSize) / v.spc := by
  have := v.header.partSize_lt
  rw [noOfCluster, FatBootSector.noOfCluster, sub64_of_le v.inside (by omega)]
  rfl

theorem fats_mem : v.header.fats.toNat = 1 ∨ v.header.fats.toNat = 2 := by
  rcases v.accepted.2.2.1 with h | h
  · exact .inl (by rw [h]; rfl)
  · exact .inr (by rw [h]; rfl)

/-- What `test_FAT` checks of the fields of the type. -/
theorem testType : v.header.testType := v.accepted.2.2.2.2.2.2.2.1

theorem header_noOfCluster : v.header.noOfCluster v.header.sectorSize.toNat = v.noOfCluster := by
  rw [v.sectorSize_eq]
  rfl

theorem fat32_iff : v.partition.upartType = .fat32 ↔ 65525 ≤ v.noOfCluster := by
  rw [v.typed, FatBootSector.fatType, v.header_noOfCluster]
  split_ifs with h1 h2
  · exact iff_of_false (by decide) (by omega)
  · exact iff_of_false (by decide) (by omega)
  · exact iff_of_true rfl (by omega)

/-- **A FAT32 volume has no root directory before its data.** -/
theorem dirEntries_eq_zero_iff : v.header.dirEntries = 0 ↔ v.partition.upartType = .fat32 := by
  have ht := v.testType
  simp only [FatBootSector.testType, v.header_noOfCluster] at ht
  rw [v.fat32_iff]
  split_ifs at ht with h1 h2
  · exact iff_of_false (fun h0 => ht.1 (.inl h0)) (by omega)
  · exact iff_of_false (fun h0 => ht.2.1 (.inl h0)) (by omega)
  · exact iff_of_true ht.2.1 (by omega)

theorem rootSectors_eq_zero (h : v.partition.upartType = .fat32) :
    v.header.rootSectors v.disk.sectorSize = 0 := by
  have h0 := v.dirEntries_eq_zero_iff.mpr h
  have := v.sectorSize_pos
  rw [FatBootSector.rootSectors, h0]
  exact Nat.div_eq_of_lt (by simp; omega)

theorem rootSectors_pos (h : v.partition.upartType ≠ .fat32) :
    0 < v.header.rootSectors v.disk.sectorSize := by
  have h0 : v.header.dirEntries.toNat ≠ 0 := fun h0 =>
    h (v.dirEntries_eq_zero_iff.mp (UInt16.toNat_inj.mp h0))
  exact Nat.div_pos (by omega) v.sectorSize_pos

/-- The tables take at least three sectors of a FAT32 volume. -/
theorem three_le_fatSectors (h : v.partition.upartType = .fat32) : 3 ≤ v.header.fatSectors := by
  have ht := v.testType
  have hnoc := v.fat32_iff.mp h
  have hss := v.sectorSize_lt
  have hlt : v.noOfCluster < 2 ^ 32 := by
    rw [noOfCluster_eq]
    have := v.header.partSize_lt
    exact lt_of_le_of_lt (Nat.div_le_self _ _) (by omega)
  simp only [FatBootSector.testType, v.header_noOfCluster] at ht
  rw [if_neg (by omega), if_neg (by omega), v.sectorSize_eq] at ht
  refine le_trans ?_ ht.2.2.2
  rw [Nat.le_div_iff_mul_le v.sectorSize_pos]
  omega

/-- **The clusters are counted by a `uint32_t`**: `cluster++` does not wrap. -/
theorem noOfCluster_add_lt : v.noOfCluster + 3 < 2 ^ 32 := by
  by_cases h : v.partition.upartType = .fat32
  · have hfat := v.three_le_fatSectors h
    have hpart := v.header.partSize_lt
    have hstart : 3 ≤ v.header.startData v.disk.sectorSize := by
      unfold FatBootSector.startData
      rcases v.fats_mem with hf | hf <;> rw [hf] <;> omega
    have hle := Nat.div_le_self (v.header.partSize - v.header.startData v.disk.sectorSize) v.spc
    rw [noOfCluster_eq]
    omega
  · have := v.fat32_iff.not.mp h
    omega

/-- **The sector of a cluster is a `uint32_t`**: `(cluster - 2) * sectors_per_cluster` does not
wrap. -/
theorem mul_spc_lt {c : ℕ} (hc : c ≤ v.noOfCluster + 2) : (c - 2) * v.spc < 2 ^ 32 := by
  have hle : (c - 2) * v.spc ≤ v.noOfCluster * v.spc := Nat.mul_le_mul_right _ (by omega)
  have hdiv := Nat.div_mul_le_self (v.header.partSize - v.header.startData v.disk.sectorSize) v.spc
  have := v.header.partSize_lt
  rw [← noOfCluster_eq] at hdiv
  omega

/-- The two starts of the data area differ by the root directory. -/
theorem startData_mul : v.header.startData v.disk.sectorSize * v.disk.sectorSize =
    v.backupStart + v.header.rootSectors v.disk.sectorSize * v.disk.sectorSize := by
  rw [FatBootSector.startData, backupStart, v.sectorSize_eq, Nat.add_mul]

theorem backupNoOfCluster_eq_div : v.backupNoOfCluster =
    (v.header.partSize - (v.header.reserved.toNat + v.header.fats.toNat * v.header.fatSectors)) /
      v.spc := by
  have hpart := v.header.partSize_lt
  have hss := v.sectorSize_lt
  have hin := v.inside
  have hle : v.header.reserved.toNat + v.header.fats.toNat * v.header.fatSectors ≤
      v.header.partSize := by
    unfold FatBootSector.startData at hin
    omega
  have hlt : v.header.partSize * v.disk.sectorSize < 2 ^ 64 :=
    lt_trans (Nat.mul_lt_mul'' hpart hss) (by decide)
  rw [backupNoOfCluster, backupStart, v.sectorSize_eq, sub64_of_le (Nat.mul_le_mul_right _ hle) hlt,
    ← Nat.sub_mul, Nat.mul_div_mul_right _ _ v.sectorSize_pos]

theorem le_backupNoOfCluster : v.noOfCluster ≤ v.backupNoOfCluster := by
  rw [noOfCluster_eq, backupNoOfCluster_eq_div, FatBootSector.startData]
  exact Nat.div_le_div_right (by omega)

/-- **On FAT32 both count the same clusters.** -/
theorem backupNoOfCluster_eq (h : v.partition.upartType = .fat32) :
    v.backupNoOfCluster = v.noOfCluster := by
  rw [noOfCluster_eq, backupNoOfCluster_eq_div, FatBootSector.startData, v.rootSectors_eq_zero h,
    Nat.add_zero]

/-- The data area starts below `2 ^ 51`. -/
theorem startData_mul_lt : v.header.startData v.disk.sectorSize * v.disk.sectorSize < 2 ^ 51 := by
  have hpart := v.header.partSize_lt
  have hss := v.sectorSize_lt
  exact lt_trans (Nat.mul_lt_mul'' (v.inside.trans_lt hpart) hss) (by decide)

end FatVolume

end RecoveryQt
