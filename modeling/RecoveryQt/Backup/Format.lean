import RecoveryQt.Lib.Codec
import Mathlib.Data.List.TakeWhile

/-!
# Backup files

A backup file is a header and a list of entries.

* `BackupHeader`, `writeBackupHeader`, `readBackupHeader`: the header;
* `BackupEntry`, `writeBackupEntry`, `readBackupEntry`: an entry with its path and clusters;
* **`readBackupHeader_write`**, **`readBackupEntry_write`**: what was written is read back;
* `readBackupHeader_fixed`, `readBackupEntry_asRead`: a header that lost its end, and an entry with any
  path that fits.
-/

namespace RecoveryQt

open List

/-- `PBACKUP_MAGIC`. -/
def backupMagic : ℕ := 0x44534B42

/-- `PBACKUP_VERSION`. -/
def backupVersion : ℕ := 1

/-- `PBACKUP_HEADER_SIZE`. -/
def backupHeaderSize : ℕ := 72

/-- `pbackup_header_t` and the model name behind it. -/
structure BackupHeader where
  flags : UInt32
  fsType : UInt32
  diskSize : UInt64
  sectorSize : UInt32
  partOffset : UInt64
  partSize : UInt64
  clusterBytes : UInt32
  dataOffset : UInt64
  created : UInt64
  fileCount : UInt32
  model : List UInt8

/-- The fixed part of `write_backup_header`. -/
def headerBytes (h : BackupHeader) : List UInt8 :=
  leBytes 4 backupMagic ++ (leBytes 4 backupVersion ++ (leBytes 4 h.flags.toNat ++ (leBytes 4 h.fsType.toNat ++
  (leBytes 8 h.diskSize.toNat ++ (leBytes 4 h.sectorSize.toNat ++ (leBytes 8 h.partOffset.toNat ++
  (leBytes 8 h.partSize.toNat ++ (leBytes 4 h.clusterBytes.toNat ++
  (leBytes 8 h.dataOffset.toNat ++ (leBytes 8 h.created.toNat ++ (leBytes 4 h.fileCount.toNat ++
  (leBytes 2 (min h.model.length 255) ++ leBytes 2 0))))))))))))

/-- `write_backup_header`: the model name is cut at 255 bytes, and the header padded to a multiple
of 8. -/
def writeBackupHeader (h : BackupHeader) : List UInt8 :=
  headerBytes h ++ h.model.take 255 ++
    replicate (roundUp8 (backupHeaderSize + min h.model.length 255) -
      (backupHeaderSize + min h.model.length 255)) 0

/-- The first part of `backup_restore`: the header, and the stream behind it. -/
def readBackupHeader (file : List UInt8) : Option (BackupHeader × List UInt8) :=
  match takeBytes backupHeaderSize file with
  | none => none
  | some (buffer, rest) =>
    if numAt buffer 0 4 ≠ backupMagic then none
    else if numAt buffer 4 4 ≠ backupVersion then none
    else
      let modelLen := min (numAt buffer 68 2) 512
      some ({
        flags := UInt32.ofNat (numAt buffer 8 4)
        fsType := UInt32.ofNat (numAt buffer 12 4)
        diskSize := UInt64.ofNat (numAt buffer 16 8)
        sectorSize := UInt32.ofNat (numAt buffer 24 4)
        partOffset := UInt64.ofNat (numAt buffer 28 8)
        partSize := UInt64.ofNat (numAt buffer 36 8)
        clusterBytes := UInt32.ofNat (numAt buffer 44 4)
        dataOffset := UInt64.ofNat (numAt buffer 48 8)
        created := UInt64.ofNat (numAt buffer 56 8)
        fileCount := UInt32.ofNat (numAt buffer 64 4)
        model := rest.take modelLen },
        file.drop (roundUp8 (backupHeaderSize + modelLen)))

/-- `PBACKUP_FILE_FLAG_DIR` and `PBACKUP_FILE_FLAG_NO_CLUST`. -/
def entryFlags (isDir noClusters : Bool) : UInt8 :=
  (if isDir then 1 else 0) ||| (if noClusters then 2 else 0)

/-- The arguments of `write_backup_entry`; as read back, `backup_entry_t`. -/
structure BackupEntry where
  path : List UInt8
  isDir : Bool
  noClusters : Bool
  fileSize : UInt64
  mtime : UInt64
  clusters : List UInt64
  deriving DecidableEq

/-- The fixed part of `write_backup_entry`. -/
def entryBytes (e : BackupEntry) : List UInt8 :=
  leBytes 2 e.path.length ++ (entryFlags e.isDir e.noClusters :: (leBytes 8 e.fileSize.toNat ++
  (leBytes 8 e.mtime.toNat ++ (leBytes 4 e.clusters.length ++ leBytes 4 0))))

/-- `write_backup_entry`: `path_len` is a `uint16_t`. -/
def writeBackupEntry (e : BackupEntry) : List UInt8 :=
  entryBytes e ++ e.path.take (e.path.length % 65536) ++
    (if e.noClusters then [] else e.clusters.flatMap fun c => leBytes 8 c.toNat)

/-- One cluster of an entry. -/
def readCluster (s : List UInt8) : Option (UInt64 × List UInt8) :=
  (takeBytes 8 s).map fun x => (UInt64.ofNat (leNat x.1), x.2)

/-- The body of the loop of `backup_restore` that reads an entry. The path is the C string in the
bytes read. -/
def readBackupEntry (s : List UInt8) : Option (BackupEntry × List UInt8) := do
  let (buffer, s) ← takeBytes 27 s
  let flags := buffer.getD 2 0
  let (path, s) ← takeBytes (min (numAt buffer 0 2) 4095) s
  let (clusters, s) ←
    if 0 < numAt buffer 19 4 ∧ flags &&& 2 = 0 then readMany readCluster (numAt buffer 19 4) s
    else some ([], s)
  return ({
    path := path.takeWhile (· ≠ 0)
    isDir := flags &&& 1 ≠ 0
    noClusters := flags &&& 2 ≠ 0
    fileSize := UInt64.ofNat (numAt buffer 3 8)
    mtime := UInt64.ofNat (numAt buffer 11 8)
    clusters }, s)

/-! ## Round trips -/

@[simp] theorem length_headerBytes (h : BackupHeader) : (headerBytes h).length = backupHeaderSize := by
  simp only [headerBytes, length_append, length_leBytes]
  rfl

theorem length_writeBackupHeader (h : BackupHeader) : (writeBackupHeader h).length =
    roundUp8 (backupHeaderSize + min h.model.length 255) := by
  rw [writeBackupHeader, length_append, length_append, length_headerBytes, length_take, length_replicate,
    roundUp8]
  omega

/-- The fixed part of a header is enough to read it, whatever is left of the rest. -/
theorem readBackupHeader_fixed (h : BackupHeader) (s : List UInt8) :
    readBackupHeader (headerBytes h ++ s) = some ({ h with model := s.take (min h.model.length 255) },
      (headerBytes h ++ s).drop (writeBackupHeader h).length) := by
  have hmodel : numAt (headerBytes h) 68 2 = min h.model.length 255 := by
    show leNat (leBytes 2 (min h.model.length 255)) = _
    exact leNat_leBytes_of_lt (by omega)
  have hmagic : numAt (headerBytes h) 0 4 = backupMagic := by
    show leNat (leBytes 4 backupMagic) = _
    exact leNat_leBytes_of_lt (by decide)
  have hversion : numAt (headerBytes h) 4 4 = backupVersion := by
    show leNat (leBytes 4 backupVersion) = _
    exact leNat_leBytes_of_lt (by decide)
  rw [readBackupHeader, takeBytes_append (length_headerBytes h)]
  simp only
  rw [if_neg (not_not.mpr hmagic), if_neg (not_not.mpr hversion), hmodel,
    Nat.min_eq_left (by omega : min h.model.length 255 ≤ 512), length_writeBackupHeader]
  congr 2
  have hfields : BackupHeader.mk (UInt32.ofNat (leNat (leBytes 4 h.flags.toNat)))
      (UInt32.ofNat (leNat (leBytes 4 h.fsType.toNat)))
      (UInt64.ofNat (leNat (leBytes 8 h.diskSize.toNat)))
      (UInt32.ofNat (leNat (leBytes 4 h.sectorSize.toNat)))
      (UInt64.ofNat (leNat (leBytes 8 h.partOffset.toNat)))
      (UInt64.ofNat (leNat (leBytes 8 h.partSize.toNat)))
      (UInt32.ofNat (leNat (leBytes 4 h.clusterBytes.toNat)))
      (UInt64.ofNat (leNat (leBytes 8 h.dataOffset.toNat)))
      (UInt64.ofNat (leNat (leBytes 8 h.created.toNat)))
      (UInt32.ofNat (leNat (leBytes 4 h.fileCount.toNat))) (s.take (min h.model.length 255)) =
      { h with model := s.take (min h.model.length 255) } := by
    simp only [UInt64.ofNat_leNat, UInt32.ofNat_leNat]
  exact hfields

/-- **The header is read back**, with the model name that was kept of it. -/
theorem readBackupHeader_write (h : BackupHeader) (s : List UInt8) :
    readBackupHeader (writeBackupHeader h ++ s) =
      some ({ h with model := h.model.take 255 }, s) := by
  have hmodel : (h.model.take 255).length = min h.model.length 255 := by
    rw [length_take, Nat.min_comm]
  have hread := readBackupHeader_fixed h (h.model.take 255 ++
    (replicate (roundUp8 (backupHeaderSize + min h.model.length 255) -
      (backupHeaderSize + min h.model.length 255)) 0 ++ s))
  rw [← append_assoc, ← append_assoc, ← append_assoc, ← writeBackupHeader, drop_left, append_assoc,
    ← hmodel, take_left] at hread
  exact hread

@[simp] theorem length_entryBytes (e : BackupEntry) : (entryBytes e).length = 27 := by
  simp only [entryBytes, length_append, length_cons, length_leBytes]

theorem entryFlags_dir (isDir noClusters : Bool) :
    (entryFlags isDir noClusters &&& 1 ≠ 0) ↔ isDir = true := by
  cases isDir <;> cases noClusters <;> decide

theorem entryFlags_noClusters (isDir noClusters : Bool) :
    (entryFlags isDir noClusters &&& 2 ≠ 0) ↔ noClusters = true := by
  cases isDir <;> cases noClusters <;> decide

theorem readCluster_write (c : UInt64) (s : List UInt8) :
    readCluster (leBytes 8 c.toNat ++ s) = some (c, s) := by
  rw [readCluster, takeBytes_append (length_leBytes 8 _), Option.map_some, UInt64.ofNat_leNat]

/-- The clusters of an entry are read back. -/
theorem readClusters_write (l : List UInt64) (s : List UInt8) :
    readMany readCluster l.length ((l.flatMap fun c => leBytes 8 c.toNat) ++ s) = some (l, s) := by
  have h := readMany_flatMap (g := id) (fun c (_ : c ∈ l) s => readCluster_write c s) s
  rwa [map_id] at h

/-- An entry as it is read: the path is a C string, and clusters that are not written are none. -/
def BackupEntry.asRead (e : BackupEntry) : BackupEntry :=
  { e with
    path := e.path.takeWhile (· ≠ 0)
    clusters := if e.noClusters then [] else e.clusters }

/-- **An entry is read** when its path fits in the buffer. -/
theorem readBackupEntry_asRead (e : BackupEntry) (hlen : e.path.length < 4096)
    (hclusters : e.clusters.length < 2 ^ 32) (s : List UInt8) :
    readBackupEntry (writeBackupEntry e ++ s) = some (e.asRead, s) := by
  have hpathLen : numAt (entryBytes e) 0 2 = e.path.length := by
    show leNat (leBytes 2 e.path.length) = _
    exact leNat_leBytes_of_lt (by omega)
  have hcount : numAt (entryBytes e) 19 4 = e.clusters.length := by
    show leNat (leBytes 4 e.clusters.length) = _
    exact leNat_leBytes_of_lt hclusters
  have hsize : UInt64.ofNat (numAt (entryBytes e) 3 8) = e.fileSize := UInt64.ofNat_leNat e.fileSize
  have hmtime : UInt64.ofNat (numAt (entryBytes e) 11 8) = e.mtime := UInt64.ofNat_leNat e.mtime
  have hflags : (entryBytes e).getD 2 0 = entryFlags e.isDir e.noClusters := rfl
  have hwhole : e.path.take (e.path.length % 65536) = e.path := take_of_length_le (by omega)
  rw [readBackupEntry, writeBackupEntry, hwhole, append_assoc, append_assoc,
    takeBytes_append (length_entryBytes e)]
  simp only [Option.bind_eq_bind, Option.bind_some, hpathLen, hcount, hsize, hmtime, hflags]
  rw [Nat.min_eq_left (by omega), takeBytes_append rfl, BackupEntry.asRead]
  simp only [Option.bind_some]
  cases hno : e.noClusters with
  | true =>
    rw [if_neg fun h => (entryFlags_noClusters e.isDir true).mpr rfl h.2]
    simp [entryFlags_dir, entryFlags_noClusters]
  | false =>
    have hzero : entryFlags e.isDir false &&& 2 = 0 := by
      cases e.isDir <;> rfl
    by_cases hnone : e.clusters = []
    · rw [if_neg fun h => by simp [hnone] at h]
      simp [entryFlags_dir, hzero, hnone]
    · rw [if_pos ⟨length_pos_of_ne_nil hnone, hzero⟩, if_neg (by simp), readClusters_write]
      simp [entryFlags_dir, hzero]

/-- **An entry is read back**, without the clusters that were not written. -/
theorem readBackupEntry_write (e : BackupEntry) (hlen : e.path.length < 4096)
    (hpath : ∀ b ∈ e.path, b ≠ 0) (hclusters : e.clusters.length < 2 ^ 32) (s : List UInt8) :
    readBackupEntry (writeBackupEntry e ++ s) =
      some ({ e with clusters := if e.noClusters then [] else e.clusters }, s) := by
  rw [readBackupEntry_asRead e hlen hclusters, BackupEntry.asRead, takeWhile_ne_zero hpath]

end RecoveryQt
