import RecoveryQt.Backup.Format
import RecoveryQt.Backup.Live
import RecoveryQt.Disk
import RecoveryQt.Lib.Search

/-!
# Backup and comparison

`backup_create` writes the live tree to a file, `backup_restore` compares a file with the live tree
and marks the differences in a scan tree. Writing to the destination does not fail.

* `BackupEnv`: the volume a backup is made of;
* `backupEntry`, `backupCreate`: what is recorded;
* `findLiveEntry`, `markOf`, `restoreEntry`: `backup_restore_build_tree`;
* `sizeMismatch`, `backupRestore`: the checks, the walk of the live tree, and the marks.
-/

namespace RecoveryQt

open List

/-- The volume: its disk and partition, and what `backup_create` finds out about it. -/
structure BackupEnv where
  disk : Disk
  partition : Partition
  clusterBytes : UInt32
  dataOffset : UInt64
  created : UInt64
  model : List UInt8

/-! ## `backup_create` -/

/-- The entry written for the root. -/
def rootEntry : BackupEntry := ⟨rootPath, true, true, 0, 0, []⟩

/-- The entry that `backup_walk_dir` writes: a directory has size and time `0`. -/
def backupEntry (fs : LiveFs) (fullPath : List UInt8) (fi : FileInfo) : BackupEntry :=
  if fi.isDir then ⟨fullPath, true, true, 0, 0, []⟩
  else
    let c := fs.collect fi
    if ¬ c.ok ∧ ¬ c.noClusters then ⟨fullPath, false, true, fi.stSize, fi.tdMtime, []⟩
    else ⟨fullPath, false, c.noClusters, fi.stSize, fi.tdMtime, c.list⟩

/-- The entries of a backup, or `none` when the root directory cannot be listed. -/
def backupEntries (fs : LiveFs) : Option (List BackupEntry) :=
  (fs.walk false backupMaxDepth [] rootPath fs.currentInode).map fun l =>
    rootEntry :: l.map fun x => backupEntry fs x.1 x.2

/-- The header of a backup. -/
def BackupEnv.header (env : BackupEnv) (fileCount : UInt32) : BackupHeader where
  flags := 0
  fsType := env.partition.upartType.code
  diskSize := UInt64.ofNat env.disk.diskSize
  sectorSize := UInt32.ofNat env.disk.sectorSize
  partOffset := UInt64.ofNat env.partition.partOffset
  partSize := UInt64.ofNat env.partition.partSize
  clusterBytes := env.clusterBytes
  dataOffset := env.dataOffset
  created := env.created
  fileCount := fileCount
  model := env.model

/-- `backup_create`: the file written, or `none`. `file_count` is put into the header at the end. -/
def backupCreate (env : BackupEnv) (fs : LiveFs) : Option (List UInt8) :=
  match backupEntries fs with
  | none => none
  | some entries =>
    let writtenCount := UInt32.ofNat entries.length
    if writtenCount ≤ 1 then none
    else some (writeBackupHeader (env.header writtenCount) ++ entries.flatMap writeBackupEntry)

/-! ## `backup_restore_build_tree` -/

/-- `find_live_entry`: the binary search by `strcmp`. -/
def findLiveEntry (sorted : List (List UInt8 × FileInfo)) (path : List UInt8) :
    Option (List UInt8 × FileInfo) :=
  search Prod.fst sorted path 0 sorted.length

/-- `is_deleted` and `is_modified`. -/
inductive BackupMark where
  | same | deleted | modified
  deriving DecidableEq

/-- The comparison of an entry with the live one. -/
def markOf (live : Option (List UInt8 × FileInfo)) (e : BackupEntry) : BackupMark :=
  match live with
  | none => .deleted
  | some (_, fi) => if fi.stSize ≠ e.fileSize ∨ fi.tdMtime ≠ e.mtime then .modified else .same

/-- Attach a cluster list. -/
def Clusters.attach (l : List UInt64) (size : UInt32) : Clusters :=
  if h : l.length < 2 ^ 32 ∧ l ≠ [] then ⟨l, size, h.1, fun h0 => absurd h0 h.2⟩ else Clusters.none

/-- The fields that `backup_restore_build_tree` sets. -/
def NodeInfo.setBackup (e : BackupEntry) (clusterBytes : UInt32) (mark : BackupMark) (x : NodeInfo) :
    NodeInfo :=
  { x with
    backupRestored := true
    backupModified := mark = .modified
    clusters :=
      if e.isDir = false ∧ e.noClusters = false ∧ e.clusters ≠ [] then
        Clusters.attach e.clusters clusterBytes
      else x.clusters }

/-- The arguments of `tree_add_path`: the number of sectors is rounded up. -/
def restoreArgs (e : BackupEntry) (sectorSize : UInt32) (mark : BackupMark) : AddArgs where
  isDir := e.isDir
  size := e.fileSize
  firstSector := 0
  numSectors :=
    if 0 < e.fileSize then (e.fileSize + sectorSize.toUInt64 - 1) / sectorSize.toUInt64 else 0
  mtime := e.mtime
  sectorSize := sectorSize
  deleted := mark = .deleted

/-- The body of the loop: an entry that is deleted or modified is added to the tree and marked. -/
def restoreEntry (sectorSize clusterBytes : UInt32) (mark : BackupMark) (t : ScanTree)
    (e : BackupEntry) : ScanTree :=
  if mark = .same then t
  else (t.addPath e.path (restoreArgs e sectorSize mark)).modify
    (NodeInfo.setBackup e clusterBytes mark) (pathTokens e.path)

/-! ## `backup_restore` -/

/-- The disk is not the one of the backup: its size is further than half from the original one. -/
def sizeMismatch (diskSize : UInt64) (h : BackupHeader) : Prop :=
  let origSize := if h.partOffset = 0 then h.diskSize else h.partSize
  let origSize := if origSize = 0 then h.diskSize else origSize
  let sizeDiff := diskSize.toInt64 - origSize.toInt64
  let sizeDiff := if sizeDiff < 0 then -sizeDiff else sizeDiff
  0 < origSize ∧ origSize / 2 < sizeDiff.toUInt64

instance (diskSize : UInt64) (h : BackupHeader) : Decidable (sizeMismatch diskSize h) := by
  unfold sizeMismatch; infer_instance

/-- `live_capacity`: the entries counted, half as many again, those of the backup and some. -/
def liveCapacity (liveCount backupTotal : UInt32) : UInt32 :=
  liveCount + (liveCount / 2 + backupTotal + 10000)

/-- `backup_restore`: the tree, and whether it returns `0`. `backup_walk_live` fails when it lists
more entries than its array holds. -/
def backupRestore (env : BackupEnv) (fs : LiveFs) (file : List UInt8) (t : ScanTree) :
    ScanTree × Bool :=
  match readBackupHeader file with
  | none => (t, false)
  | some (h, body) =>
    if sizeMismatch (UInt64.ofNat env.disk.diskSize) h then (t, false)
    else
      let entries := readUpTo readBackupEntry h.fileCount.toNat body
      let count := (fs.walk false backupMaxDepth [] rootPath fs.currentInode).elim 0 length
      match fs.walk true backupMaxDepth [] rootPath fs.currentInode with
      | none => (t, false)
      | some live =>
        if (liveCapacity (UInt32.ofNat count) h.fileCount).toNat < live.length then (t, false)
        else
          let sorted := sortBy Prod.fst live
          (entries.foldl (fun t e => restoreEntry (UInt32.ofNat env.disk.sectorSize) h.clusterBytes
            (markOf (findLiveEntry sorted e.path) e) t e) t, true)

end RecoveryQt
