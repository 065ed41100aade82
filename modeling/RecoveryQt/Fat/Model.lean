import RecoveryQt.Fat.Chain
import RecoveryQt.Restore.Model

/-!
# FAT volumes

* `FatBootSector`, `testFat`, `FatVolume`: a boot sector that `test_FAT` accepts, on its partition;
* `getNextCluster`, `isEOCFat`: the allocation table;
* `FatVolume.collectClusters`: `fat_collect_clusters`, the clusters a backup records;
* `FatVolume.fatCopy`: `fat_copy`, the reads of a restore from the live filesystem.
-/

namespace RecoveryQt

open List

/-- The fields of `struct fat_boot_sector` that the code below reads. -/
structure FatBootSector where
  jump0 : UInt8
  jump2 : UInt8
  sectorSize : UInt16
  sectorsPerCluster : UInt8
  reserved : UInt16
  fats : UInt8
  dirEntries : UInt16
  sectors : UInt16
  media : UInt8
  fatLength : UInt16
  totalSect : UInt32
  fat32Length : UInt32
  rootCluster : UInt32
  marker : UInt16

/-- The difference of two `uint64_t`. -/
def sub64 (a b : ℕ) : ℕ := (a + 2 ^ 64 - b) % 2 ^ 64

namespace FatBootSector

variable (h : FatBootSector)

/-- `fat_length`. -/
def fatSectors : ℕ := if 0 < h.fatLength then h.fatLength.toNat else h.fat32Length.toNat

/-- `part_size`. -/
def partSize : ℕ := if 0 < h.sectors then h.sectors.toNat else h.totalSect.toNat

/-- The sectors of the root directory of FAT12 and FAT16. -/
def rootSectors (sectorSize : ℕ) : ℕ := (h.dirEntries.toNat * 32 + sectorSize - 1) / sectorSize

/-- `start_data`, in sectors. -/
def startData (sectorSize : ℕ) : ℕ :=
  h.reserved.toNat + h.fats.toNat * h.fatSectors + h.rootSectors sectorSize

/-- `no_of_cluster`. -/
def noOfCluster (sectorSize : ℕ) : ℕ :=
  sub64 h.partSize (h.startData sectorSize) / h.sectorsPerCluster.toNat

/-- The type that `set_FAT_info` gives the partition. -/
def fatType : UpartType :=
  if h.noOfCluster h.sectorSize.toNat < 4085 then .fat12
  else if h.noOfCluster h.sectorSize.toNat < 65525 then .fat16
  else .fat32

/-- What `test_FAT` checks of the fields of a FAT type. -/
def testType : Prop :=
  let ss := h.sectorSize.toNat
  let noc := h.noOfCluster ss
  if noc < 4085 then
    ¬ (h.dirEntries = 0 ∨ h.dirEntries % 16 ≠ 0) ∧ ¬ (256 < h.fatLength ∨ h.fatLength = 0) ∧
      (noc + 2 + ss * 2 / 3 - 1) * 3 / 2 / ss ≤ h.fatSectors
  else if noc < 65525 then
    h.fatLength ≠ 0 ∧ ¬ (h.dirEntries = 0 ∨ h.dirEntries % 16 ≠ 0) ∧
      (noc + 2 + ss / 2 - 1) * 2 / ss ≤ h.fatSectors
  else
    h.sectors = 0 ∧ h.dirEntries = 0 ∧
      ¬ (h.rootCluster < 2 ∨ (2 + noc) % 2 ^ 64 ≤ h.rootCluster.toNat) ∧
      (noc + 2 + ss / 4 - 1) % 2 ^ 64 * 4 % 2 ^ 64 / ss ≤ h.fatSectors

end FatBootSector

/-- `test_FAT` returns `0`. -/
def testFat (d : Disk) (p : Partition) (h : FatBootSector) : Prop :=
  h.marker = 0xAA55 ∧ (h.jump0 = 0xeb ∨ h.jump0 = 0xe9) ∧ (h.fats = 1 ∨ h.fats = 2) ∧
  (h.jump0 = 0xeb ∧ h.jump2 = 0x90 ∨ h.jump0 = 0xe9) ∧
  h.sectorsPerCluster ∈ [1, 2, 4, 8, 16, 32, 64, 128] ∧
  h.sectorSize.toNat = d.sectorSize ∧
  ¬ (h.media ≠ 0xF0 ∧ h.media < 0xF8) ∧
  h.testType ∧
  (0 < p.partSize → h.partSize ≤ p.partSize / h.sectorSize.toNat)

/-- A valid FAT volume: a boot sector that `test_FAT` accepts and whose data area starts inside the
volume, on the partition of that type. -/
structure FatVolume where
  disk : Disk
  partition : Partition
  header : FatBootSector
  sectorSize_pos : 0 < disk.sectorSize
  accepted : testFat disk partition header
  inside : header.startData disk.sectorSize ≤ header.partSize
  typed : partition.upartType = header.fatType

/-- `le16` of two bytes of a buffer. -/
def le16At (buffer : ℕ → UInt8) (i : ℕ) : ℕ := (buffer i).toNat + 256 * (buffer (i + 1)).toNat

/-- `le32` of four bytes of a buffer. -/
def le32At (buffer : ℕ → UInt8) (i : ℕ) : ℕ := le16At buffer i + 65536 * le16At buffer (i + 2)

section GetNextCluster

variable (d : Disk) (p : Partition) (offset cluster : ℕ)

/-- `count` bytes of the table from its sector `s` on. -/
def readFat (count s : ℕ) : Option (ℕ → UInt8) :=
  d.pread count ((p.partOffset + (offset + s) * d.sectorSize) % 2 ^ 64)

def getNextClusterFat12 : ℕ :=
  let at12 := cluster + cluster / 2
  match readFat d p offset (2 * d.sectorSize) (at12 / d.sectorSize) with
  | none => 0
  | some buffer =>
    if cluster % 2 ≠ 0 then le16At buffer (at12 % d.sectorSize) / 16
    else le16At buffer (at12 % d.sectorSize) % 4096

def getNextClusterFat16 : ℕ :=
  match readFat d p offset d.sectorSize (cluster / (d.sectorSize / 2)) with
  | none => 0
  | some buffer => le16At buffer (cluster % (d.sectorSize / 2) * 2)

def getNextClusterFat32 : ℕ :=
  match readFat d p offset d.sectorSize (cluster / (d.sectorSize / 4)) with
  | none => 0
  | some buffer => le32At buffer (cluster % (d.sectorSize / 4) * 4) % 2 ^ 28

/-- `get_next_cluster`. -/
def getNextCluster (upartType : UpartType) : ℕ :=
  match upartType with
  | .fat12 => getNextClusterFat12 d p offset cluster
  | .fat16 => getNextClusterFat16 d p offset cluster
  | .fat32 => getNextClusterFat32 d p offset cluster
  | _ => 0

end GetNextCluster

/-- `is_EOC_fat`. -/
def isEOCFat (cluster : ℕ) (upartType : UpartType) : Prop :=
  match upartType with
  | .fat12 => cluster &&& 0x0ff8 = 0x0ff8
  | .fat16 => cluster &&& 0xfff8 = 0xfff8
  | _ => cluster &&& 0xffffff8 = 0x0ffffff8

instance (cluster : ℕ) (upartType : UpartType) : Decidable (isEOCFat cluster upartType) := by
  unfold isEOCFat
  split <;> infer_instance

namespace FatVolume

variable (v : FatVolume)

/-- `sectors_per_cluster`. -/
def spc : ℕ := v.header.sectorsPerCluster.toNat

/-- The link of a cluster in the first table. -/
def next (c : ℕ) : ℕ :=
  getNextCluster v.disk v.partition v.header.reserved.toNat c v.partition.upartType

/-! ## `fat_collect_clusters` -/

/-- `start_data`, in bytes. -/
def backupStart : ℕ :=
  (v.header.reserved.toNat + v.header.fats.toNat * v.header.fatSectors) * v.header.sectorSize.toNat

/-- `no_of_cluster`. -/
def backupNoOfCluster : ℕ :=
  sub64 (v.header.partSize * v.header.sectorSize.toNat) v.backupStart /
    (v.spc * v.header.sectorSize.toNat)

/-- The clusters its loop visits. -/
def collectVisited (firstCluster : ℕ) : List ℕ :=
  chainWalk (fun c => 2 ≤ c ∧ c ≤ v.backupNoOfCluster + 2)
    (fun c => isEOCFat c v.partition.upartType) v.next backupMaxClusters firstCluster

/-- The offset it records for a cluster. -/
def collectOffset (c : ℕ) : UInt64 :=
  UInt64.ofNat (v.backupStart + (c - 2) * v.spc * v.header.sectorSize.toNat)

/-- `fat_collect_clusters`. -/
def collectClusters (firstCluster : ℕ) : List UInt64 :=
  (v.collectVisited firstCluster).map v.collectOffset

/-! ## `fat_copy` -/

/-- `no_of_cluster`, with the root directory taken into account. -/
def noOfCluster : ℕ := v.header.noOfCluster v.disk.sectorSize

/-- `block_size`: the bytes of a cluster. -/
def clusterSize : ℕ := v.header.sectorSize.toNat * v.spc

theorem spc_pos : 0 < v.spc := by
  have hmem : v.header.sectorsPerCluster ∈ [1, 2, 4, 8, 16, 32, 64, 128] := v.accepted.2.2.2.2.1
  have hne : v.header.sectorsPerCluster ≠ 0 := fun h0 => by simp [h0] at hmem
  exact Nat.pos_of_ne_zero fun h => hne (UInt8.toNat_inj.mp h)

theorem sectorSize_eq : v.header.sectorSize.toNat = v.disk.sectorSize := v.accepted.2.2.2.2.2.1

theorem clusterSize_pos : 0 < v.clusterSize :=
  Nat.mul_pos (v.sectorSize_eq ▸ v.sectorSize_pos) v.spc_pos

/-- What the loop of `fat_copy` is called with. -/
def fatFile (start : ℕ) : ChainFile where
  last := v.noOfCluster + 2
  clusterSize := v.clusterSize
  next := v.next
  start := start
  clusterSize_pos := v.clusterSize_pos

/-- Where `fat_copy` reads a cluster: `(cluster - 2) * sectors_per_cluster` is a 32-bit product. -/
def copyStart (c : ℕ) : UInt64 :=
  UInt64.ofNat v.partition.partOffset + UInt64.ofNat
    ((v.header.startData v.disk.sectorSize + (c - 2) * v.spc % 2 ^ 32) * v.header.sectorSize.toNat)

/-- `fat_copy`: the offset and the length of each read, in order. -/
def fatCopy (start fileSize : ℕ) : List (UInt64 × ℕ) :=
  ((v.fatFile start).copyFrom start fileSize .followCluster).map fun r => (v.copyStart r.1, r.2)

end FatVolume

end RecoveryQt
