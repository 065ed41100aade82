import RecoveryQt.Disk
import RecoveryQt.Tree.Model

/-!
# Restoring and previewing one file

`restore_file` writes the content of a node to its destination file, `read_file_bytes` returns it
in a buffer. The destination takes every byte written to it and memory does not run out.

* `Disk.readBytes`, `readBlocks`: one read, and a range read in blocks of 64 KiB;
* `orphanClusters`, `restoreOrphan`, `restoreFile`: what a restore writes;
* `previewClusters`, `readFileBytes`: what a preview returns.
-/

namespace RecoveryQt

open List

/-- The size of the buffer of `restore_orphan`, and the block of `read_file_bytes`. -/
def blockSize : ℕ := 65536

/-- `maxRead`. -/
def maxRead : ℕ := 64 * 1024 * 1024

/-- `copy_file_t`, as far as the code below returns it. -/
inductive CopyFile where
  | ok | readFailed
  deriving DecidableEq

/-- `disk->pread` at a 64-bit offset: the bytes read, or `none` when there are fewer. -/
def Disk.readBytes (d : Disk) (count : ℕ) (offset : UInt64) : Option (List UInt8) :=
  (d.pread count offset.toNat).map fun buffer => (range count).map buffer

/-- The loop that reads `remaining` bytes from `offset` on, a block at a time: the bytes read
before the end or the first failure. -/
def readBlocks (d : Disk) (offset : UInt64) (remaining : ℕ) : List UInt8 × CopyFile :=
  if remaining = 0 then ([], .ok)
  else
    let chunk := min remaining blockSize
    match d.readBytes chunk offset with
    | none => ([], .readFailed)
    | some buffer =>
      let rest := readBlocks d (offset + UInt64.ofNat chunk) (remaining - chunk)
      (buffer ++ rest.1, rest.2)
termination_by remaining
decreasing_by
  have : 0 < blockSize := by decide
  omega

/-- The cluster loop of `restore_orphan`: one read of at most a buffer for each cluster. -/
def orphanClusters (d : Disk) (partOffset : UInt64) (clusterSize : ℕ) :
    ℕ → List UInt64 → List UInt8 × CopyFile
  | _, [] => ([], .ok)
  | fileRemaining, c :: l =>
    if fileRemaining = 0 then ([], .ok)
    else
      let clusterBytes := min clusterSize fileRemaining
      let chunk := min clusterBytes blockSize
      match d.readBytes chunk (partOffset + c) with
      | none => ([], .readFailed)
      | some buffer =>
        let rest := orphanClusters d partOffset clusterSize (fileRemaining - chunk) l
        (buffer ++ rest.1, rest.2)

/-- The length of a node's sector range: `(uint64_t)node->num_sectors * disk->sector_size`. -/
def sectorBytes (sectorSize : ℕ) (x : NodeInfo) : ℕ :=
  (x.numSectors * UInt64.ofNat sectorSize).toNat

/-- The node has a cluster list that its size allows to use. -/
def NodeInfo.clustered (x : NodeInfo) : Prop := x.clusters.list ≠ [] ∧ x.clusters.size ≠ 0

instance (x : NodeInfo) : Decidable x.clustered := by unfold NodeInfo.clustered; infer_instance

/-- `restore_orphan`: what is written to the destination file, and the result. -/
def restoreOrphan (d : Disk) (p : Partition) (x : NodeInfo) : List UInt8 × CopyFile :=
  if x.clustered then
    orphanClusters d (UInt64.ofNat p.partOffset) x.clusters.size.toNat x.size.toNat x.clusters.list
  else
    readBlocks d (UInt64.ofNat p.partOffset + x.firstSector) (sectorBytes d.sectorSize x)

/-- `restore_file` hands the node to `restore_orphan`. -/
def NodeInfo.raw (x : NodeInfo) : Prop :=
  x.orphan = true ∨ x.backupRestored = true ∧ x.clusters.list ≠ []

instance (x : NodeInfo) : Decidable x.raw := by unfold NodeInfo.raw; infer_instance

/-- `restore_file`. `copyFile` is the `copy_file` of the filesystem's driver: what it writes to
the file it opens for a node, and its result. -/
def restoreFile (copyFile : NodeInfo → List UInt8 × CopyFile) (d : Disk) (p : Partition)
    (x : NodeInfo) : List UInt8 × CopyFile :=
  if x.raw then restoreOrphan d p x else copyFile x

/-- The cluster loop of `read_file_bytes`: each cluster is read block by block. -/
def previewClusters (d : Disk) (partOffset : UInt64) (clusterSize : ℕ) :
    ℕ → List UInt64 → Option (List UInt8)
  | _, [] => some []
  | remaining, c :: l =>
    if remaining = 0 then some []
    else
      let clusterBytes := min clusterSize remaining
      match readBlocks d (partOffset + c) clusterBytes with
      | (_, .readFailed) => none
      | (buffer, .ok) =>
        (previewClusters d partOffset clusterSize (remaining - clusterBytes) l).map (buffer ++ ·)

/-- What the memory capture holds after `restore_file_node`: the driver writes to the captured
stream, `restore_orphan` opens a file of its own. -/
def captured (copyFile : NodeInfo → List UInt8 × CopyFile) (x : NodeInfo) : List UInt8 :=
  if x.raw then [] else (copyFile x).1

/-- `read_file_bytes`: the buffer returned, `none` for `NULL`. -/
def readFileBytes (copyFile : NodeInfo → List UInt8 × CopyFile) (d : Disk) (p : Partition)
    (x : NodeInfo) : Option (List UInt8) :=
  if x.size = 0 then none
  else if x.clustered then
    previewClusters d (UInt64.ofNat p.partOffset) x.clusters.size.toNat x.size.toNat x.clusters.list
  else if x.orphan = true ∧ x.firstSector ≠ 0 ∧ 0 < x.numSectors then
    let remaining := min (sectorBytes d.sectorSize x) maxRead
    let remaining := if remaining = 0 then 4096 else remaining
    match readBlocks d (UInt64.ofNat p.partOffset + x.firstSector) remaining with
    | (_, .readFailed) => none
    | (buffer, .ok) => some buffer
  else if captured copyFile x = [] then none
  else some (captured copyFile x)

end RecoveryQt
