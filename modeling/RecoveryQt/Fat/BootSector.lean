import RecoveryQt.Fat.Geometry

/-!
# The geometry of an accepted boot sector

`test_FAT` counts the clusters by an unsigned difference and compares the length of the table with a quotient
that is rounded by its own formula for each FAT type.

* `FatBootSector.Sane`: the data area begins inside the volume, and the table holds all entries;
* `roundedLength_le_iff`: what the comparison says about the entries;
* `DataBehind`, `TableShort`: the two kinds of boot sectors that pass by mistake;
* **`sane_iff`**: all other accepted boot sectors are sane;
* `TableShort.mod_ne_zero`: with the usual sector sizes only the tables of FAT12 can be too short.
-/

namespace RecoveryQt

/-- The half bytes of an entry of the table, by the number of clusters. -/
def entryWidth (clusters : ℕ) : ℕ := if clusters < 4085 then 3 else if clusters < 65525 then 4 else 8

/-- The bits of an entry that are used. -/
def entryBits (clusters : ℕ) : ℕ := if clusters < 4085 then 12 else if clusters < 65525 then 16 else 28

theorem entryWidth_cases (n : ℕ) :
    entryWidth n = 3 ∧ entryBits n = 12 ∨ entryWidth n = 4 ∧ entryBits n = 16 ∨ entryWidth n = 8 ∧ entryBits n = 28 := by
  unfold entryWidth entryBits
  split_ifs <;> simp

/-- The table of `sectors` sectors holds the entry of each cluster from 2 on. -/
def HoldsEntries (sectorSize sectors clusters : ℕ) : Prop :=
  ∀ c, 2 ≤ c → c ≤ clusters + 1 → 4 * entryWidth clusters * c + entryBits clusters ≤ 8 * (sectorSize * sectors)

/-- The last entry decides. -/
theorem holdsEntries_iff {sectorSize sectors clusters : ℕ} :
    HoldsEntries sectorSize sectors clusters ↔
      (0 < clusters → entryWidth clusters * (clusters + 2) ≤ 2 * sectorSize * sectors) := by
  unfold HoldsEntries
  rw [Nat.mul_assoc 2 sectorSize sectors]
  generalize sectorSize * sectors = bytes
  rcases entryWidth_cases clusters with ⟨hw, hb⟩ | ⟨hw, hb⟩ | ⟨hw, hb⟩ <;> rw [hw, hb]
  all_goals
    constructor
    · intro h hpos
      have := h (clusters + 1) (by omega) le_rfl
      omega
    · intro h c hc hle
      have := h (by omega)
      omega

/-- **The comparison** of the length of the table: it allows up to `s % w + w - 1` half bytes too many. -/
theorem roundedLength_le_iff {s w n sectors : ℕ} (hs : 0 < s) (hn : 0 < n) :
    (n + s / w - 1) * w / s ≤ sectors ↔ w * n < s * sectors + s % w + w := by
  have hdiv := Nat.div_add_mod s w
  have hsum : (n + s / w - 1) * w + w = w * n + w * (s / w) := by
    obtain ⟨k, rfl⟩ : ∃ k, n = k + 1 := ⟨n - 1, by omega⟩
    rw [Nat.add_right_comm, Nat.add_sub_cancel]
    ring
  rw [← Nat.lt_succ_iff, Nat.div_lt_iff_lt_mul hs, Nat.succ_mul, Nat.mul_comm sectors s]
  omega

namespace FatBootSector

variable (h : FatBootSector)

/-- The sectors in front of the data area. -/
def dataStart : ℕ := h.startData h.sectorSize.toNat

/-- The clusters that lie between the start of the data area and the end of the volume. -/
def clusters : ℕ := (h.partSize - h.dataStart) / h.sectorsPerCluster.toNat

/-- The data area begins inside the volume, the number of clusters is the quotient, and one table holds the entries of
all of them. -/
structure Sane : Prop where
  inside : h.dataStart ≤ h.partSize
  counted : h.noOfCluster h.sectorSize.toNat = h.clusters
  holds : HoldsEntries h.sectorSize.toNat h.fatSectors (h.noOfCluster h.sectorSize.toNat)

/-- The clusters have at most four sectors, and the data area begins so shortly behind the end of the volume that the
product for FAT32 wraps. -/
def DataBehind : Prop :=
  h.sectorsPerCluster.toNat ≤ 4 ∧ h.partSize < h.dataStart ∧
    h.dataStart ≤ h.partSize + h.sectorsPerCluster.toNat * (h.sectorSize.toNat / 4 + 1)

/-- The entries take a few half bytes more than the table has, fewer than the rounding loses. -/
def TableShort : Prop :=
  let w := entryWidth h.clusters
  let s := 2 * h.sectorSize.toNat
  0 < h.clusters ∧ s * h.fatSectors < w * (h.clusters + 2) ∧ w * (h.clusters + 2) < s * h.fatSectors + s % w + w

variable {h}

theorem fatSectors_lt : h.fatSectors < 2 ^ 32 := by
  have h1 := h.fatLength.toNat_lt
  have h2 := h.fat32Length.toNat_lt
  unfold fatSectors
  split_ifs <;> omega

theorem dataStart_lt (hfats : h.fats.toNat ≤ 2) : h.dataStart < 2 ^ 34 := by
  have hlen := h.fatSectors_lt
  have hres := h.reserved.toNat_lt
  have hentries := h.dirEntries.toNat_lt
  have hss := h.sectorSize.toNat_lt
  have hroot : h.rootSectors h.sectorSize.toNat ≤ h.dirEntries.toNat * 32 + h.sectorSize.toNat - 1 :=
    Nat.div_le_self _ _
  have htables : h.fats.toNat * h.fatSectors ≤ 2 * h.fatSectors := Nat.mul_le_mul_right _ hfats
  unfold dataStart startData
  omega

theorem spc_cases (hspc : h.sectorsPerCluster ∈ [1, 2, 4, 8, 16, 32, 64, 128]) :
    h.sectorsPerCluster.toNat ∈ [1, 2, 4, 8, 16, 32, 64, 128] := by
  simp only [List.mem_cons, List.not_mem_nil, or_false] at hspc
  rcases hspc with h | h | h | h | h | h | h | h <;> rw [h] <;> decide

/-- A data area behind the end of the volume is accepted only if the product wraps. -/
theorem inside_or_dataBehind (hss : 0 < h.sectorSize.toNat) (hfats : h.fats.toNat ≤ 2)
    (hspc : h.sectorsPerCluster ∈ [1, 2, 4, 8, 16, 32, 64, 128]) (ht : h.testType) :
    h.dataStart ≤ h.partSize ∨ h.DataBehind := by
  refine or_iff_not_imp_left.mpr fun hout => ?_
  have hout' := not_le.mp hout
  have hstart := dataStart_lt hfats
  have hlen := h.fatSectors_lt
  have hsslt := h.sectorSize.toNat_lt
  have hbig : h.noOfCluster h.sectorSize.toNat =
      (2 ^ 64 - (h.dataStart - h.partSize)) / h.sectorsPerCluster.toNat := by
    rw [noOfCluster, sub64, show h.startData h.sectorSize.toNat = h.dataStart from rfl]
    congr 1
    omega
  have hmem := spc_cases hspc
  have hmany : 65525 ≤ h.noOfCluster h.sectorSize.toNat := by
    rw [hbig]
    simp only [List.mem_cons, List.not_mem_nil, or_false] at hmem
    rcases hmem with h | h | h | h | h | h | h | h <;> rw [h] <;> omega
  unfold testType at ht
  simp only at ht
  rw [if_neg (by omega), if_neg (by omega)] at ht
  have hcalc := ht.2.2.2
  rw [← Nat.lt_succ_iff, Nat.div_lt_iff_lt_mul hss] at hcalc
  have hsmall : (h.fatSectors + 1) * h.sectorSize.toNat ≤ 2 ^ 32 * 2 ^ 16 :=
    Nat.mul_le_mul (by omega) (by omega)
  have hsmall' := hcalc.trans_le hsmall
  rw [hbig] at hsmall'
  refine ⟨?_, hout', ?_⟩
  all_goals
    simp only [List.mem_cons, List.not_mem_nil, or_false] at hmem
    rcases hmem with h | h | h | h | h | h | h | h <;> rw [h] at hsmall' ⊢ <;> omega

/-- The number of clusters of a volume that has its data area inside. -/
theorem noOfCluster_eq_clusters (hin : h.dataStart ≤ h.partSize) :
    h.noOfCluster h.sectorSize.toNat = h.clusters := by
  have hpart := h.partSize_lt
  have hsub : sub64 h.partSize h.dataStart = h.partSize - h.dataStart := sub64_of_le hin (by omega)
  show sub64 h.partSize h.dataStart / _ = _
  rw [hsub]
  rfl

/-- The three comparisons are one. -/
theorem rounded_of_testType (hin : h.dataStart ≤ h.partSize) (ht : h.testType) :
    (h.clusters + 2 + 2 * h.sectorSize.toNat / entryWidth h.clusters - 1) * entryWidth h.clusters /
      (2 * h.sectorSize.toNat) ≤ h.fatSectors := by
  have hpart := h.partSize_lt
  have hss := h.sectorSize.toNat_lt
  have hle : h.clusters ≤ h.partSize := (Nat.div_le_self _ _).trans (Nat.sub_le _ _)
  unfold testType at ht
  simp only [noOfCluster_eq_clusters hin] at ht
  unfold entryWidth
  split_ifs at ht ⊢ with h12 h16
  · have hcalc := ht.2.2
    rwa [Nat.div_div_eq_div_mul, Nat.mul_comm h.sectorSize.toNat 2] at hcalc
  · have hcalc := ht.2.2
    rw [show 2 * h.sectorSize.toNat / 4 = h.sectorSize.toNat / 2 by omega,
      show ∀ x, x * 4 = 2 * (x * 2) from fun x => by omega, Nat.mul_div_mul_left _ _ (by decide)]
    exact hcalc
  · have hcalc := ht.2.2.2
    rw [Nat.mod_eq_of_lt (by omega), Nat.mod_eq_of_lt (by omega)] at hcalc
    rw [show 2 * h.sectorSize.toNat / 8 = h.sectorSize.toNat / 4 by omega,
      show ∀ x, x * 8 = 2 * (x * 4) from fun x => by omega, Nat.mul_div_mul_left _ _ (by decide)]
    exact hcalc

/-- **Accepted boot sectors** are sane, but for the two kinds. -/
theorem sane_iff {d : Disk} {p : Partition} (hss : 0 < d.sectorSize) (hacc : testFat d p h) :
    h.Sane ↔ ¬ h.DataBehind ∧ ¬ h.TableShort := by
  obtain ⟨-, -, hfats, -, hspc, hsize, -, ht, -⟩ := hacc
  have hss' : 0 < h.sectorSize.toNat := hsize ▸ hss
  have hfats' : h.fats.toNat ≤ 2 := by
    rcases hfats with h | h <;> rw [h] <;> decide
  constructor
  · intro hsane
    refine ⟨fun hbehind => absurd hsane.inside (not_le.mpr hbehind.2.1), fun hshort => ?_⟩
    have hholds := hsane.holds
    rw [hsane.counted, holdsEntries_iff] at hholds
    exact absurd (hholds hshort.1) (not_le.mpr hshort.2.1)
  · rintro ⟨hbehind, hshort⟩
    have hin := (inside_or_dataBehind hss' hfats' hspc ht).resolve_right hbehind
    have hcounted := noOfCluster_eq_clusters hin
    refine ⟨hin, hcounted, ?_⟩
    rw [hcounted, holdsEntries_iff]
    intro hpos
    by_contra hlt
    have hround := (roundedLength_le_iff (by omega) (by omega)).mp (rounded_of_testType hin ht)
    exact hshort ⟨hpos, not_le.mp hlt, hround⟩

/-- If the entries fill the sectors of the table evenly then none is missing. -/
theorem TableShort.mod_ne_zero (hshort : h.TableShort) : 2 * h.sectorSize.toNat % entryWidth h.clusters ≠ 0 := by
  intro h0
  obtain ⟨-, hlt, hle⟩ := hshort
  have hdvd : entryWidth h.clusters ∣ 2 * h.sectorSize.toNat * h.fatSectors :=
    (Nat.dvd_of_mod_eq_zero h0).mul_right _
  obtain ⟨k, hk⟩ := hdvd
  rw [h0, hk] at hle
  rw [hk] at hlt
  have h1 : k < h.clusters + 2 := Nat.lt_of_mul_lt_mul_left hlt
  have h2 : h.clusters + 2 < k + 1 := Nat.lt_of_mul_lt_mul_left (a := entryWidth h.clusters) (by rw [Nat.mul_succ]; omega)
  omega

end FatBootSector

/-- The blank disk of the boot sectors below. -/
def blankDisk : Disk := ⟨512, 1048576, fun _ => 0, fun _ _ => false⟩

/-- Thirty sectors, and 33 in front of the data area. -/
def behindHeader : FatBootSector := ⟨0xeb, 0x90, 512, 1, 32, 1, 0, 0, 0xF8, 0, 30, 1, 2, 0xAA55⟩

/-- 340 clusters with their 12 bit entries in one sector. -/
def shortHeader : FatBootSector := ⟨0xeb, 0x90, 512, 1, 1, 1, 16, 343, 0xF8, 1, 0, 0, 0, 0xAA55⟩

/-- **Both kinds are accepted.** -/
theorem accepted_not_sane :
    (testFat blankDisk ⟨0, 15360, .fat32, 0⟩ behindHeader ∧ ¬ behindHeader.Sane) ∧
    testFat blankDisk ⟨0, 175616, .fat12, 0⟩ shortHeader ∧ ¬ shortHeader.Sane := by
  have hbehind : behindHeader.noOfCluster 512 = 2 ^ 64 - 3 := rfl
  have hshort : shortHeader.noOfCluster 512 = 340 := rfl
  refine ⟨⟨⟨rfl, .inl rfl, .inl rfl, .inl ⟨rfl, rfl⟩, by decide, rfl, by decide, ?_, fun _ => by decide⟩, ?_⟩,
    ⟨rfl, .inl rfl, .inl rfl, .inl ⟨rfl, rfl⟩, by decide, rfl, by decide, ?_, fun _ => by decide⟩, ?_⟩
  · have hss : behindHeader.sectorSize.toNat = 512 := rfl
    simp only [FatBootSector.testType, hss, hbehind]
    rw [if_neg (by decide), if_neg (by decide)]
    exact ⟨rfl, rfl, by decide, by decide⟩
  · exact fun h => absurd h.inside (by decide)
  · have hss : shortHeader.sectorSize.toNat = 512 := rfl
    simp only [FatBootSector.testType, hss, hshort]
    rw [if_pos (by decide)]
    exact ⟨by decide, by decide, by decide⟩
  · intro h
    have hlast := h.holds 341 (by decide) (by decide)
    exact absurd hlast (by decide)

/-- One cluster less, and the table holds all entries. -/
def fullHeader : FatBootSector := { shortHeader with sectors := 342 }

theorem fullHeader_accepted : testFat blankDisk ⟨0, 175104, .fat12, 0⟩ fullHeader := by
  refine ⟨rfl, .inl rfl, .inl rfl, .inl ⟨rfl, rfl⟩, by decide, rfl, by decide, ?_, fun _ => by decide⟩
  have hss : fullHeader.sectorSize.toNat = 512 := rfl
  have hclusters : fullHeader.noOfCluster 512 = 339 := rfl
  simp only [FatBootSector.testType, hss, hclusters]
  rw [if_pos (by decide)]
  exact ⟨by decide, by decide, by decide⟩

theorem fullHeader_sane : fullHeader.Sane := by
  refine (FatBootSector.sane_iff (by decide) fullHeader_accepted).mpr ⟨?_, ?_⟩
  · exact fun h => absurd h.2.1 (by decide)
  · exact fun h => absurd h.2.1 (by decide)

end RecoveryQt
