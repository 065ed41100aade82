import RecoveryQt.Fat.Model

/-!
# exFAT volumes

* `ExfatSuperBlock`, `testExfat`, `ExfatVolume`: a boot sector that `test_exFAT` accepts and whose
  fields are in the ranges of the format;
* `exfatGetNextCluster`: the allocation table;
* `ExfatVolume.collectClusters`: `exfat_collect_clusters`, the clusters a backup records;
* `ExfatVolume.exfatCopy`: `exfat_copy`, the reads of a restore from the filesystem.
-/

namespace RecoveryQt

open List

/-- The fields of `struct exfat_super_block` that the code below reads. -/
structure ExfatSuperBlock where
  oemId : List UInt8
  fatBlocknr : UInt32
  clusBlocknr : UInt32
  totalClusters : UInt32
  blocksizeBits : UInt8
  blockPerClusBits : UInt8
  signature : UInt16

/-- `"EXFAT   "`. -/
def exfatOemId : List UInt8 := [0x45, 0x58, 0x46, 0x41, 0x54, 0x20, 0x20, 0x20]

/-- `test_exFAT` returns `0`. -/
def testExfat (h : ExfatSuperBlock) : Prop := h.signature = 0xAA55 ∧ h.oemId = exfatOemId

/-- A valid exFAT volume: blocks of 512 bytes to 4 KiB, clusters of at most 32 MiB, and cluster
numbers below the reserved ones. -/
structure ExfatVolume where
  disk : Disk
  partition : Partition
  header : ExfatSuperBlock
  accepted : testExfat header
  block : 9 ≤ header.blocksizeBits.toNat ∧ header.blocksizeBits.toNat ≤ 12
  cluster : header.blockPerClusBits.toNat + header.blocksizeBits.toNat ≤ 25
  count : header.totalClusters.toNat ≤ 0xFFFFFFF5

/-- `exfat_get_next_cluster`. -/
def exfatGetNextCluster (d : Disk) (p : Partition) (offset cluster : ℕ) : ℕ :=
  match d.pread d.sectorSize
    ((p.partOffset + offset + cluster / (d.sectorSize / 4) * d.sectorSize) % 2 ^ 64) with
  | none => 0
  | some buffer => le32At buffer (cluster % (d.sectorSize / 4) * 4)

namespace ExfatVolume

variable (v : ExfatVolume)

/-- `total_clusters`. -/
def totalClusters : ℕ := v.header.totalClusters.toNat

/-- `clus_blocknr`. -/
def clusBlocknr : ℕ := v.header.clusBlocknr.toNat

/-- `1 << blocksize_bits`. -/
def blockBytes : ℕ := 2 ^ v.header.blocksizeBits.toNat

/-- `1 << block_per_clus_bits`. -/
def blocksPerCluster : ℕ := 2 ^ v.header.blockPerClusBits.toNat

/-- `1 << cluster_shift`. -/
def clusterSize : ℕ := 2 ^ (v.header.blockPerClusBits.toNat + v.header.blocksizeBits.toNat)

/-- The link of a cluster in the table. -/
def next (c : ℕ) : ℕ :=
  exfatGetNextCluster v.disk v.partition (v.header.fatBlocknr.toNat * v.blockBytes) c

/-! ## `exfat_collect_clusters` -/

/-- The clusters its loop visits, with `room` for as many. -/
def collectFrom (room c : ℕ) : List ℕ :=
  chainWalk (fun c => 2 ≤ c ∧ c ≤ v.totalClusters + 2) (fun c => c = 0xFFFFFFFF ∨ c = 0) v.next
    room c

/-- The clusters it visits. -/
def collectVisited (firstCluster : ℕ) : List ℕ := v.collectFrom backupMaxClusters firstCluster

/-- The offset it records for a cluster. -/
def collectOffset (c : ℕ) : UInt64 :=
  UInt64.ofNat (v.clusBlocknr * v.blockBytes + (c - 2) * v.clusterSize)

/-- `exfat_collect_clusters`. -/
def collectClusters (firstCluster : ℕ) : List UInt64 :=
  (v.collectVisited firstCluster).map v.collectOffset

/-! ## `exfat_copy` -/

/-- `exfat_cluster_to_offset`: the shift by `block_per_clus_bits` and the sum are 32 bits wide. -/
def clusterToOffset (c : ℕ) : UInt64 :=
  UInt64.ofNat
    (((c - 2) * v.blocksPerCluster % 2 ^ 32 + v.clusBlocknr) % 2 ^ 32 * v.blockBytes)

/-- What the loop of `exfat_copy` is called with. -/
def exfatFile (start : ℕ) : ChainFile where
  last := v.totalClusters
  clusterSize := v.clusterSize
  next := v.next
  start := start
  clusterSize_pos := Nat.two_pow_pos _

/-- `exfat_copy`: the offset at which `exfat_read_cluster` reads each cluster and the number of
bytes written of it, in order. -/
def exfatCopy (start fileSize : ℕ) : List (UInt64 × ℕ) :=
  ((v.exfatFile start).copyFrom start fileSize .followCluster).map fun r =>
    (UInt64.ofNat v.partition.partOffset + v.clusterToOffset r.1, r.2)

end ExfatVolume

end RecoveryQt
