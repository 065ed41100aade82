import RecoveryQt.Fat.Geometry
import RecoveryQt.Lib.Batch
import RecoveryQt.Scan.Run

/-!
# The free clusters of a FAT volume

`scanner_deep_fat` reads the free clusters of each run of them into a buffer of 64 clusters, and
parses the clusters of the buffer that look like a directory at the end of the run.

* `isLikelyFatDir`: the test of a cluster;
* `FatVolume.deepFatTable`, `FatVolume.deepFree`: the allocation table read at once, and the clusters
  that it says are free;
* `FatVolume.deepFatCalls`: the calls of `dir_fat_aux`; `FatVolume.deepFatEntries`: what they list;
* `FatVolume.DirCluster`, `FatVolume.DeepComplete`: a free cluster that looks like a directory, and a
  scan that parses each of them once.
-/

namespace RecoveryQt

open List

/-! ## What looks like a directory -/

/-- The attributes that an entry may have: `ATTR_RO` to `ATTR_ARCH`. -/
def attrKnown : UInt8 := 0x3f

/-- The characters of a short name, up to the first blank. -/
def shortNameOk (name : ℕ → UInt8) : Bool :=
  (((range 8).map name).takeWhile (· ≠ 0x20)).all fun c => !(c < 0x20 && c != 0x05) && c ≤ 0x7e

/-- The name is `.` or `..`. -/
def shortNameDots (name : ℕ → UInt8) : Bool :=
  name 0 = 0x2e ∧ (name 1 = 0x20 ∨ name 1 = 0x2e ∧ name 2 = 0x20)

/-- The loop of `is_likely_fat_dir` over `n` entries from entry `i` on. -/
def likelyEntries (buffer : ℕ → UInt8) (size : ℕ) : ℕ → ℕ → Bool
  | _, 0 => true
  | i, n + 1 =>
    let name := fun j => buffer (i * 32 + j)
    let attr := buffer (i * 32 + 11)
    if size < (i + 1) * 32 then true
    else if name 0 = 0 then decide (0 < i)
    else if name 0 = 0xe5 then likelyEntries buffer size (i + 1) n
    else if name 0 < 0x20 ∧ name 0 ≠ 0x05 then false
    else if attr = 0 ∧ name 0 = 0x20 then false
    else if attr &&& ~~~ attrKnown ≠ 0 then false
    else if shortNameOk name = false then false
    else if shortNameDots name = true then true
    else likelyEntries buffer size (i + 1) n

/-- `is_likely_fat_dir`. -/
def isLikelyFatDir (buffer : ℕ → UInt8) (size : ℕ) : Bool :=
  if size < 64 then false else likelyEntries buffer size 0 4

/-! ## The scan -/

/-- `FAT_BATCH_CLUSTERS`. -/
def fatBatchClusters : ℕ := 64

/-- A cluster in the buffer: where it was read, and its bytes. -/
structure DeepSlot where
  offset : UInt64
  buffer : ℕ → UInt8

namespace FatVolume

variable (v : FatVolume)

/-- `fat_table`: the first table, when it is not too large, can be read at once and has an entry of
32 bits for each cluster. -/
def deepFatTable : Option (ℕ → UInt8) :=
  let size := v.header.fatSectors * v.header.sectorSize.toNat
  if 0 < v.header.fatSectors ∧ v.header.fatSectors ≤ 1024 * 1024 * 1024 / v.header.sectorSize.toNat then
    match readFat v.disk v.partition v.header.reserved.toNat size 0 with
    | none => none
    | some table => if size / 4 < v.backupNoOfCluster + 2 then none else some table
  else none

/-- `is_free`. -/
def deepFree (c : ℕ) : Bool :=
  match v.deepFatTable with
  | some table => le32At table (4 * c) = 0
  | none => v.next c = 0

/-- Where the scan reads a cluster. Its `start_data` is that of a volume without a root directory
before the data. -/
def deepOffset (c : ℕ) : UInt64 :=
  UInt64.ofNat (v.partition.partOffset + (v.backupStart + (c - 2) * v.clusterSize))

/-- The read of a free cluster into the buffer. -/
def deepRead (c : ℕ) : Option DeepSlot :=
  (v.disk.pread v.clusterSize (v.deepOffset c).toNat).map fun buffer => ⟨v.deepOffset c, buffer⟩

/-- The clusters in the buffer at the end of each run, in order. -/
def deepBatches : List DeepSlot :=
  batchRuns v.deepFree v.deepRead fatBatchClusters [] (range' 2 v.backupNoOfCluster)

/-- `scanner_deep_fat`: the calls of `dir_fat_aux`. -/
def deepFatCalls : List DeepSlot :=
  if v.disk.bad 512 v.partition.partOffset ∨ v.header.sectorSize = 0 ∨
      v.header.sectorsPerCluster < 1 ∨ 100000000 < v.backupNoOfCluster then []
  else v.deepBatches.filter fun s => isLikelyFatDir s.buffer v.clusterSize

/-- The entries that `scanner_deep_fat` finds, given what `dir_fat_aux` lists of a buffer: the
`fatEntries` of a scan of the volume. -/
def deepFatEntries (dirFatAux : (ℕ → UInt8) → ℕ → List FileInfo) : List FileInfo :=
  v.deepFatCalls.flatMap fun s => dirFatAux s.buffer v.clusterSize

/-! ## What it is to find -/

/-- The entry of a cluster in the first table. -/
def entry (c : ℕ) : ℕ :=
  getNextCluster { v.disk with bad := fun _ _ => false } v.partition v.header.reserved.toNat c
    v.partition.upartType

/-- Where a cluster lies. -/
def clusterOffset (c : ℕ) : UInt64 :=
  UInt64.ofNat (v.partition.partOffset +
    (v.header.startData v.disk.sectorSize * v.disk.sectorSize + (c - 2) * v.clusterSize))

/-- The bytes of the disk from an offset on. -/
def bytesAt (offset : UInt64) (i : ℕ) : UInt8 := v.disk.content (offset.toNat + i)

/-- A free, readable cluster of the data area that looks like a directory. -/
structure DirCluster (c : ℕ) : Prop where
  two_le : 2 ≤ c
  lt_last : c < v.noOfCluster + 2
  free : v.entry c = 0
  readable : v.disk.bad v.clusterSize (v.clusterOffset c).toNat = false
  likely : isLikelyFatDir (v.bytesAt (v.clusterOffset c)) v.clusterSize = true

/-- Each of these clusters is parsed once. -/
def DeepComplete : Prop :=
  ∀ c, v.DirCluster c → (v.deepFatCalls.map DeepSlot.offset).count (v.clusterOffset c) = 1

/-- The clusters that the root directory pushes the data back by. -/
def rootShift : ℕ := v.header.rootSectors v.disk.sectorSize / v.spc

/-- The free clusters directly before a cluster that can be read. -/
def deepLoad (c : ℕ) : ℕ :=
  (runBefore v.deepFree (range' 2 (c - 2))).countP fun j => (v.deepRead j).isSome

/-- When a cluster is parsed: the boot sector can be read and the volume is not too large; the root
directory fills whole clusters; and the cluster that is numbered after them has an entry that is read
as free, with room in the buffer for it. -/
def DeepReached (c : ℕ) : Prop :=
  v.disk.bad 512 v.partition.partOffset = false ∧ v.backupNoOfCluster ≤ 100000000 ∧
    v.spc ∣ v.header.rootSectors v.disk.sectorSize ∧ v.deepFree (c + v.rootShift) = true ∧
    v.deepLoad (c + v.rootShift) < fatBatchClusters

end FatVolume

end RecoveryQt
