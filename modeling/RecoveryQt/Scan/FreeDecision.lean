import RecoveryQt.Fat.Geometry
import RecoveryQt.Fat.Table
import RecoveryQt.Scan.DeepFat

/-!
# Which clusters the deep scan takes to be free

`scanner_deep_fat` reads the first table as words of 32 bits when it is long enough for that, and asks
`get_next_cluster` otherwise.

* `FatVolume.deepDecision`, `FatVolume.DeepDecides`: the decision, and that it is that of the FAT reader;
* `FatVolume.tableByte`, `FatVolume.fatEntry`: the first table and its entries;
* `FatVolume.TableUsed`, `FatVolume.WordServes`: when the words are used, and when the word of a cluster
  says what its entry says;
* **`FatVolume.deepDecides_iff`**.
-/

namespace RecoveryQt

open List

namespace FatVolume

variable (v : FatVolume)

/-- The decision for a cluster, if the scan comes to one. -/
def deepDecision (c : ℕ) : Option Bool :=
  if v.disk.bad 512 v.partition.partOffset ∨ v.header.sectorSize = 0 ∨
      v.header.sectorsPerCluster < 1 ∨ 100000000 < v.backupNoOfCluster then none
  else some (v.deepFree c)

/-- A cluster is taken to be free when `get_next_cluster` returns `0`. -/
def DeepDecides : Prop :=
  ∀ c, 2 ≤ c → c < v.backupNoOfCluster + 2 → ∀ free ∈ v.deepDecision c, (free = true ↔ v.next c = 0)

/-! ## The first table -/

/-- Where the first table starts. -/
def tableStart : ℕ := v.partition.partOffset + v.header.reserved.toNat * v.disk.sectorSize

/-- A byte of it. -/
def tableByte (i : ℕ) : UInt8 := v.disk.content (v.tableStart + i)

/-- Where the entry of a cluster starts in it. -/
def fatPlace (c : ℕ) : ℕ :=
  match v.partition.upartType with
  | .fat12 => c + c / 2
  | .fat16 => c * 2
  | _ => c * 4

/-- The entry of a cluster, 28 bits of it on FAT32. -/
def fatEntry (c : ℕ) : ℕ := fatEntryAt v.partition.upartType v.tableByte c (v.fatPlace c)

/-- The sectors that `get_next_cluster` reads for a cluster cannot be read. -/
def Unread (c : ℕ) : Prop :=
  v.disk.bad (fatBufferSize v.partition.upartType v.disk.sectorSize)
    (v.tableStart + fatSector v.partition.upartType v.disk.sectorSize c * v.disk.sectorSize) = true

instance (c : ℕ) : Decidable (v.Unread c) := by
  unfold Unread
  infer_instance

/-- The scan gets to the clusters, and uses the table as words. -/
structure TableUsed : Prop where
  boot : v.disk.bad 512 v.partition.partOffset = false
  few : v.backupNoOfCluster ≤ 100000000
  pos : 0 < v.header.fatSectors
  small : v.header.fatSectors ≤ 1024 * 1024 * 1024 / v.disk.sectorSize
  read : v.disk.bad (v.header.fatSectors * v.disk.sectorSize) v.tableStart = false
  long : v.backupNoOfCluster + 2 ≤ v.header.fatSectors * v.disk.sectorSize / 4

/-- The word of a cluster serves: on FAT12 its 32 bits are zero exactly when the 12 bits of the entry are, on
FAT16 the two entries in it are zero exactly when the entry of the cluster is, on FAT32 no free cluster has one
of the four reserved bits. What cannot be read counts as zero. -/
def WordServes (c : ℕ) : Prop :=
  if v.Unread c then le32At v.tableByte (4 * c) = 0
  else
    match v.partition.upartType with
    | .fat12 => le32At v.tableByte (4 * c) = 0 ↔ v.fatEntry c = 0
    | .fat16 => v.fatEntry (2 * c) = 0 ∧ v.fatEntry (2 * c + 1) = 0 ↔ v.fatEntry c = 0
    | _ => v.fatEntry c = 0 → le32At v.tableByte (4 * c) / 2 ^ 28 = 0

variable {v}

theorem isFat : v.partition.upartType.IsFat := by
  rw [v.typed, FatBootSector.fatType]
  split_ifs
  · exact Or.inl rfl
  · exact Or.inr (Or.inl rfl)
  · exact Or.inr (Or.inr rfl)

/-- An entry is at its place, in sectors that hold whole words. -/
theorem fatPlace_eq (hss : 4 ∣ v.disk.sectorSize) (c : ℕ) :
    fatSector v.partition.upartType v.disk.sectorSize c * v.disk.sectorSize +
      fatOffset v.partition.upartType v.disk.sectorSize c = v.fatPlace c := by
  obtain ⟨k, hk⟩ := hss
  rcases isFat (v := v) with h | h | h
  · simp only [fatPlace, h, fatSector, fatOffset]
    exact Nat.div_add_mod' _ _
  · have hhalf : 4 * k / 2 = 2 * k := by omega
    have hdiv := Nat.div_add_mod' c (2 * k)
    simp only [fatPlace, h, fatSector, fatOffset, hk, hhalf]
    calc c / (2 * k) * (4 * k) + c % (2 * k) * 2 = (c / (2 * k) * (2 * k) + c % (2 * k)) * 2 := by ring
      _ = c * 2 := by rw [hdiv]
  · have hquarter : 4 * k / 4 = k := by omega
    have hdiv := Nat.div_add_mod' c k
    simp only [fatPlace, h, fatSector, fatOffset, hk, hquarter]
    calc c / k * (4 * k) + c % k * 4 = (c / k * k + c % k) * 4 := by ring
      _ = c * 4 := by rw [hdiv]

theorem fatPlace_le (c : ℕ) : v.fatPlace c ≤ c * 4 := by
  unfold fatPlace
  split <;> omega

/-- The sectors of the first table lie below `2 ^ 64`. -/
theorem tableSector_lt (hdisk : v.partition.partOffset + v.header.partSize * v.disk.sectorSize ≤ 2 ^ 64) {s : ℕ}
    (hs : s < v.header.fatSectors) :
    v.partition.partOffset + (v.header.reserved.toNat + s) * v.disk.sectorSize < 2 ^ 64 := by
  have hinside := v.inside
  have hfats : v.header.fatSectors ≤ v.header.fats.toNat * v.header.fatSectors := by
    rcases v.fats_mem with h | h <;> rw [h] <;> omega
  rw [FatBootSector.startData] at hinside
  have hle : (v.header.reserved.toNat + s + 1) * v.disk.sectorSize ≤ v.header.partSize * v.disk.sectorSize :=
    Nat.mul_le_mul_right _ (by omega)
  have hpos := v.sectorSize_pos
  rw [Nat.succ_mul] at hle
  omega

/-- A read of the first table. -/
theorem readFat_eq_of_lt (hdisk : v.partition.partOffset + v.header.partSize * v.disk.sectorSize ≤ 2 ^ 64) {s : ℕ}
    (hs : s < v.header.fatSectors) (count : ℕ) :
    readFat v.disk v.partition v.header.reserved.toNat count s =
      if v.disk.bad count (v.tableStart + s * v.disk.sectorSize) = true then none
      else some fun i => v.tableByte (s * v.disk.sectorSize + i) := by
  have hpos : (v.partition.partOffset + (v.header.reserved.toNat + s) * v.disk.sectorSize) % 2 ^ 64 =
      v.tableStart + s * v.disk.sectorSize := by
    rw [Nat.mod_eq_of_lt (tableSector_lt hdisk hs), tableStart]
    ring
  rw [readFat, hpos, Disk.pread]
  split_ifs
  · rfl
  · simp only [tableByte, Nat.add_assoc]

/-- The words of the table, when it is used. -/
theorem deepFatTable_eq (hdisk : v.partition.partOffset + v.header.partSize * v.disk.sectorSize ≤ 2 ^ 64) :
    v.deepFatTable =
      if 0 < v.header.fatSectors ∧ v.header.fatSectors ≤ 1024 * 1024 * 1024 / v.disk.sectorSize ∧
        v.disk.bad (v.header.fatSectors * v.disk.sectorSize) v.tableStart = false ∧
        v.backupNoOfCluster + 2 ≤ v.header.fatSectors * v.disk.sectorSize / 4 then some v.tableByte
      else none := by
  unfold deepFatTable
  rw [v.sectorSize_eq]
  by_cases hlen : 0 < v.header.fatSectors ∧ v.header.fatSectors ≤ 1024 * 1024 * 1024 / v.disk.sectorSize
  · have hread := readFat_eq_of_lt hdisk hlen.1 (v.header.fatSectors * v.disk.sectorSize)
    simp only [Nat.zero_mul, Nat.zero_add, Nat.add_zero] at hread
    simp only [hread, hlen, true_and]
    cases v.disk.bad (v.header.fatSectors * v.disk.sectorSize) v.tableStart with
    | true => simp
    | false =>
      simp only [Bool.false_eq_true, if_false, if_true, true_and, ← Nat.not_lt, ite_not]
  · rw [if_neg hlen, if_neg fun h => hlen ⟨h.1, h.2.1⟩]

section Used

variable (hss : 4 ∣ v.disk.sectorSize)
  (hdisk : v.partition.partOffset + v.header.partSize * v.disk.sectorSize ≤ 2 ^ 64) (hused : v.TableUsed)
include hdisk hused

/-- The word of a cluster decides. -/
theorem deepFree_of_used (c : ℕ) : v.deepFree c = decide (le32At v.tableByte (4 * c) = 0) := by
  have htable : v.deepFatTable = some v.tableByte := by
    rw [deepFatTable_eq hdisk, if_pos ⟨hused.pos, hused.small, hused.read, hused.long⟩]
  rw [deepFree, htable]

include hss

/-- `get_next_cluster` reads the entry at its place. -/
theorem next_of_used {c : ℕ} (hc : c < v.backupNoOfCluster + 2) :
    v.next c = 0 ↔ v.Unread c ∨ v.fatEntry c = 0 := by
  have hplace := fatPlace_eq hss c
  have hlong := hused.long
  have hle := fatPlace_le (v := v) c
  have hsector : fatSector v.partition.upartType v.disk.sectorSize c < v.header.fatSectors := by
    apply Nat.lt_of_mul_lt_mul_right (a := v.disk.sectorSize)
    omega
  rw [next, getNextCluster_elim isFat, readFat_eq_of_lt hdisk hsector]
  by_cases hbad : v.Unread c
  · rw [if_pos (show _ = true from hbad)]
    exact iff_of_true rfl (Or.inl hbad)
  · rw [if_neg (show ¬ _ = true from hbad), or_iff_right hbad, fatEntry, ← hplace]
    rcases isFat (v := v) with h | h | h <;> rw [h] <;> rfl

/-- The decision agrees when the word serves. -/
theorem word_iff {c : ℕ} (hc : c < v.backupNoOfCluster + 2) :
    (le32At v.tableByte (4 * c) = 0 ↔ v.next c = 0) ↔ v.WordServes c := by
  rw [next_of_used hss hdisk hused hc]
  by_cases hbad : v.Unread c
  · simp only [WordServes, hbad, if_true, true_or, iff_true]
  rw [or_iff_right hbad, WordServes, if_neg hbad]
  rcases isFat (v := v) with h | h | h
  · rw [h]
  · have hpair : le32At v.tableByte (4 * c) = 0 ↔ v.fatEntry (2 * c) = 0 ∧ v.fatEntry (2 * c + 1) = 0 := by
      have hlow : v.fatEntry (2 * c) = le16At v.tableByte (4 * c) := by
        simp only [fatEntry, fatPlace, h, fatEntryAt]
        congr 1
        omega
      have hhigh : v.fatEntry (2 * c + 1) = le16At v.tableByte (4 * c + 2) := by
        simp only [fatEntry, fatPlace, h, fatEntryAt]
        congr 1
        omega
      rw [hlow, hhigh, le32At]
      omega
    rw [h]
    dsimp only
    rw [hpair]
  · have hentry : v.fatEntry c = le32At v.tableByte (4 * c) % 2 ^ 28 := by
      simp only [fatEntry, fatPlace, h, fatEntryAt, Nat.mul_comm c]
    rw [h]
    dsimp only
    rw [hentry]
    omega

end Used

/-- Without the words `get_next_cluster` decides. -/
theorem deepFree_of_not_used (hdisk : v.partition.partOffset + v.header.partSize * v.disk.sectorSize ≤ 2 ^ 64)
    (hboot : v.disk.bad 512 v.partition.partOffset = false) (hfew : v.backupNoOfCluster ≤ 100000000)
    (hused : ¬ v.TableUsed) (c : ℕ) : v.deepFree c = decide (v.next c = 0) := by
  have htable : v.deepFatTable = none := by
    rw [deepFatTable_eq hdisk, if_neg fun h => hused ⟨hboot, hfew, h.1, h.2.1, h.2.2.1, h.2.2.2⟩]
  rw [deepFree, htable]

/-- The scan comes to a decision when the boot sector can be read and the volume is not too large. -/
theorem deepDecision_eq (c : ℕ) : v.deepDecision c =
    if v.disk.bad 512 v.partition.partOffset = false ∧ v.backupNoOfCluster ≤ 100000000 then some (v.deepFree c)
    else none := by
  have hsize : v.header.sectorSize ≠ 0 := by
    intro h
    have hpos := v.sectorSize_pos
    rw [← v.sectorSize_eq, h] at hpos
    exact absurd hpos (by decide)
  have hspc : ¬ v.header.sectorsPerCluster < 1 := by
    intro h
    have hpos : 0 < v.header.sectorsPerCluster.toNat := v.spc_pos
    have hlt : v.header.sectorsPerCluster.toNat < 1 := UInt8.lt_iff_toNat_lt.mp h
    omega
  rw [deepDecision, ← ite_not]
  refine if_congr ?_ rfl rfl
  simp only [hsize, hspc, false_or, not_or, Bool.not_eq_true, Nat.not_lt]

variable (v) in
/-- **The decision of the scan** is that of the FAT reader unless the words are used and one of them does not
serve. -/
theorem deepDecides_iff (hss : 4 ∣ v.disk.sectorSize)
    (hdisk : v.partition.partOffset + v.header.partSize * v.disk.sectorSize ≤ 2 ^ 64) :
    v.DeepDecides ↔ (v.TableUsed → ∀ c, 2 ≤ c → c < v.backupNoOfCluster + 2 → v.WordServes c) := by
  constructor
  · intro h hused c hc hlast
    have hfree := h c hc hlast (v.deepFree c) (by
      rw [deepDecision_eq, if_pos ⟨hused.boot, hused.few⟩]
      rfl)
    rw [deepFree_of_used hdisk hused, decide_eq_true_iff] at hfree
    exact (word_iff hss hdisk hused hlast).mp hfree
  · intro h c hc hlast free hfree
    rw [deepDecision_eq] at hfree
    split_ifs at hfree with hruns
    · obtain rfl := Option.some.inj hfree
      by_cases hused : v.TableUsed
      · rw [deepFree_of_used hdisk hused, decide_eq_true_iff]
        exact (word_iff hss hdisk hused hlast).mpr (h hused c hc hlast)
      · rw [deepFree_of_not_used hdisk hruns.1 hruns.2 hused, decide_eq_true_iff]
    · cases hfree

end FatVolume

/-! ## A small volume -/

/-- The boot sector of a FAT12 volume of 64 sectors: its table of one sector has a word for each cluster. -/
def tinyHeader : FatBootSector :=
  ⟨0xeb, 0x90, 512, 1, 1, 2, 16, 64, 0xF8, 1, 0, 0, 0, 0xAA55⟩

theorem tinyHeader_noOfCluster : tinyHeader.noOfCluster 512 = 60 := rfl

theorem tinyHeader_accepted (content : ℕ → UInt8) :
    testFat ⟨512, 32768, content, fun _ _ => false⟩ ⟨0, 32768, .fat12, 0⟩ tinyHeader := by
  refine ⟨rfl, .inl rfl, .inr rfl, .inl ⟨rfl, rfl⟩, by decide, rfl, by decide, ?_, fun _ => by decide⟩
  have hss : tinyHeader.sectorSize.toNat = 512 := rfl
  simp only [FatBootSector.testType, hss, tinyHeader_noOfCluster]
  rw [if_pos (by decide)]
  exact ⟨by decide, by decide, by decide⟩

theorem tinySectorSize_pos : 0 < 512 := by decide

theorem tinyHeader_inside : tinyHeader.startData 512 ≤ tinyHeader.partSize := by decide

theorem tinyHeader_fatType : UpartType.fat12 = tinyHeader.fatType := by decide

/-- A volume with this boot sector. -/
def tinyVolume (content : ℕ → UInt8) : FatVolume where
  disk := ⟨512, 32768, content, fun _ _ => false⟩
  partition := ⟨0, 32768, .fat12, 0⟩
  header := tinyHeader
  sectorSize_pos := tinySectorSize_pos
  accepted := tinyHeader_accepted content
  inside := tinyHeader_inside
  typed := tinyHeader_fatType

/-- A file of one cluster, the first one: its entry is `0xFFF`, and the third word of the table is zero. -/
def oneFileTable (o : ℕ) : UInt8 := if o = 515 then 0xff else if o = 516 then 0x0f else 0

/-- The scan takes the cluster of the file to be free. -/
theorem oneFileTable_not_deepDecides : (tinyVolume oneFileTable).deepDecision 2 = some true ∧
    (tinyVolume oneFileTable).next 2 = 0xfff ∧ ¬ (tinyVolume oneFileTable).DeepDecides := by
  have hfree : (tinyVolume oneFileTable).deepDecision 2 = some true := by decide
  have hnext : (tinyVolume oneFileTable).next 2 = 0xfff := by decide
  refine ⟨hfree, hnext, fun h => ?_⟩
  have hzero := (h 2 le_rfl (by decide) true hfree).mp rfl
  rw [hnext] at hzero
  exact absurd hzero (by decide)

/-- On an empty volume the words serve. -/
theorem noFile_deepDecides : (tinyVolume fun _ => 0).DeepDecides := by
  refine (FatVolume.deepDecides_iff (tinyVolume fun _ => 0) (by decide) (by decide)).mpr fun _ c _ _ => ?_
  have hread : ¬ (tinyVolume fun _ => 0).Unread c := Bool.false_ne_true
  have hentry : (tinyVolume fun _ => 0).fatEntry c = 0 := by
    show (if c % 2 ≠ 0 then 0 / 16 else 0 % 4096) = 0
    split_ifs <;> rfl
  rw [FatVolume.WordServes, if_neg hread]
  exact iff_of_true rfl hentry

end RecoveryQt
