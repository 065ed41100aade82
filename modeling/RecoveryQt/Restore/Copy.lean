import RecoveryQt.Drivers
import RecoveryQt.Exfat.Agree
import RecoveryQt.Restore.Destination
import RecoveryQt.Restore.Readable

/-!
# Copying a file with the driver of a restore

`restore_files` opens a driver with `init_fs_for_restore`; `restore_file` hands a node that is not read
from the disk itself to `copy_file`, with its `first_sector` as the inode.

* `ChainVolume`: a volume of `fat_copy` and `exfat_copy`; `IsoVolume.copyFrom`: the loop of `iso_copy`;
* `RestoreVolume`: what the drivers find; `RestoreVolume.copyFile`, `RestoreVolume.restore`: what is
  written to the file, and whether the result is `CP_OK`;
* **`RestoreVolume.copyFile_zero_iff`**: when nothing is copied for inode `0`.
-/

namespace RecoveryQt

open List

/-! ## The drivers -/

/-- What the loop of `fat_copy` and `exfat_copy` goes by. `exfat_read_cluster` reads whole clusters. -/
structure ChainVolume where
  last : ℕ
  clusterSize : ℕ
  next : ℕ → ℕ
  offset : ℕ → UInt64
  wholeReads : Bool
  clusterSize_pos : 0 < clusterSize

namespace ChainVolume

variable (v : ChainVolume)

def file (start : ℕ) : ChainFile := ⟨v.last, v.clusterSize, v.next, start, v.clusterSize_pos⟩

/-- The offset and the number of bytes written of each cluster, in order. -/
def reads (start fileSize : ℕ) : List (UInt64 × ℕ) :=
  ((v.file start).copyFrom start fileSize .followCluster).map fun r => (v.offset r.1, r.2)

/-- What is written. A failed read is logged, and `left` is what the buffer holds then. -/
def copy (d : Disk) (left : UInt64 × ℕ → List UInt8) (start fileSize : ℕ) : List UInt8 :=
  (v.reads start fileSize).flatMap fun r =>
    ((d.readBytes (if v.wholeReads then v.clusterSize else r.2) r.1).getD (left r)).take r.2

/-- No cluster is read from a start below the first one. -/
theorem copy_zero (d : Disk) (left : UInt64 × ℕ → List UInt8) (fileSize : ℕ) :
    v.copy d left 0 fileSize = [] := by
  have hnone : (v.file 0).copyFrom 0 fileSize .followCluster = [] := by
    rw [ChainFile.copyFrom, if_neg fun h => absurd h.1 (by decide)]
  rw [copy, reads, hnone]
  rfl

end ChainVolume

def FatVolume.chain (v : FatVolume) : ChainVolume :=
  ⟨v.noOfCluster + 2, v.clusterSize, v.next, v.copyStart, false, v.clusterSize_pos⟩

theorem FatVolume.chain_reads (v : FatVolume) (start fileSize : ℕ) :
    v.chain.reads start fileSize = v.fatCopy start fileSize := rfl

def ExfatVolume.chain (v : ExfatVolume) : ChainVolume where
  last := v.totalClusters
  clusterSize := v.clusterSize
  next := v.next
  offset c := UInt64.ofNat v.partition.partOffset + v.clusterToOffset c
  wholeReads := true
  clusterSize_pos := v.clusterSize_pos

theorem ExfatVolume.chain_reads (v : ExfatVolume) (start fileSize : ℕ) :
    v.chain.reads start fileSize = v.exfatCopy start fileSize := rfl

/-- `block_size` of an ISO 9660 volume. -/
structure IsoVolume where
  blockSize : ℕ
  blockSize_pos : 0 < blockSize

/-- The loop of `iso_copy`: 64 blocks at a time. -/
def IsoVolume.copyFrom (v : IsoVolume) (d : Disk) (offset : UInt64) (fileSize : ℕ) :
    List UInt8 × CopyFile :=
  if fileSize = 0 then ([], .ok)
  else
    let toread := min fileSize (64 * v.blockSize)
    match d.readBytes toread offset with
    | none => ([], .readFailed)
    | some buffer =>
      let rest := v.copyFrom d (offset + UInt64.ofNat toread) (fileSize - toread)
      (buffer ++ rest.1, rest.2)
termination_by fileSize
decreasing_by
  have := v.blockSize_pos
  omega

/-- The name behind the last `':'`, which `ntfs_copy` takes for the name of a stream. -/
def streamName (path : List UInt8) : Option (List UInt8) :=
  if 58 ∈ path then some (path.rtakeWhile (· ≠ 58)) else none

/-- The partition of a restore by its type codes, and what the drivers find on it. `ntfsRead` and
`ext2Read` are what libntfs and libext2fs read of the data of an inode, or of a stream of it, up to its
end or the first failure; `none` when it cannot be opened. libext2fs has no inode `0`. -/
structure RestoreVolume where
  type : PartitionType
  opens : FsDriver → Bool
  fat : ChainVolume
  exfat : ChainVolume
  left : UInt64 × ℕ → List UInt8
  iso : IsoVolume
  ntfsRead : Disk → ℕ → Option (List UInt8) → Option (List UInt8 × CopyFile)
  ext2Read : Disk → ℕ → Option (List UInt8 × CopyFile)
  ext2_zero : ∀ d, ext2Read d 0 = none

namespace RestoreVolume

/-- Whether the result is `CP_OK`. -/
def outcome (r : List UInt8 × CopyFile) : List UInt8 × Bool := (r.1, r.2 = .ok)

/-- A file that cannot be opened has the result `CP_STAT_FAILED`. -/
def opened (r : Option (List UInt8 × CopyFile)) : List UInt8 × Bool := r.elim ([], false) outcome

variable (R : RestoreVolume) (d : Disk) (p : Partition) (path : List Name) (x : NodeInfo)

/-- `dir_data->copy_file` of a driver. `fat_copy` takes 32 bits of the size; `init_fs_for_restore` does not
try the ReiserFS driver. -/
def copyFile : FsDriver → List UInt8 × Bool
  | .fat => (R.fat.copy d R.left x.firstSector.toUInt32.toNat x.size.toUInt32.toNat, true)
  | .exfat => (R.exfat.copy d R.left x.firstSector.toUInt32.toNat x.size.toNat, true)
  | .iso => outcome (R.iso.copyFrom d (UInt64.ofNat p.partOffset +
      UInt64.ofNat (x.firstSector.toUInt32.toNat * R.iso.blockSize)) x.size.toNat)
  | .ntfs => opened (R.ntfsRead d x.firstSector.toUInt32.toNat (streamName (currentDirectory path)))
  | .ext2 => opened (R.ext2Read d x.firstSector.toUInt32.toNat)
  | .reiser => ([], false)

/-- `restore_files` for one node: nothing is restored when no driver opens the partition. -/
def restore : List UInt8 × Bool :=
  match R.type.initFsForRestore R.opens with
  | none => ([], false)
  | some driver => if x.raw then outcome (restoreOrphan d p x) else R.copyFile d p path x driver

/-- A driver that copies nothing for inode `0`, or fails: that of ISO 9660 copies the start of the
partition, and that of NTFS the `$MFT`, unless it has no such stream. -/
def NothingAtZero (sectorSize : ℕ) (path : List Name) (size : UInt64) : FsDriver → Prop
  | .iso => size = 0
  | .ntfs => ∀ d, d.sectorSize = sectorSize → ∀ bytes,
      R.ntfsRead d 0 (streamName (currentDirectory path)) = some (bytes, .ok) → bytes = []
  | .fat | .exfat | .ext2 | .reiser => True

/-! ## Inode `0` -/

variable {R d p path x}

theorem restore_raw {driver : FsDriver} (hinit : R.type.initFsForRestore R.opens = some driver)
    (hraw : x.raw) : R.restore d p path x = outcome (restoreOrphan d p x) := by
  rw [restore, hinit]
  exact if_pos hraw

theorem opened_eq_true_iff {r : Option (List UInt8 × CopyFile)} :
    (opened r).2 = true ↔ ∃ bytes, r = some (bytes, .ok) := by
  cases r with
  | none => simp [opened]
  | some r =>
    obtain ⟨bytes, result⟩ := r
    simp [opened, outcome]

/-- The loop of `iso_copy` copies something of a file that is not empty. -/
theorem copyFrom_readable (hd : d.Readable) (v : IsoVolume) (offset : UInt64) (fileSize : ℕ) :
    (v.copyFrom d offset fileSize).2 = .ok ∧
      ((v.copyFrom d offset fileSize).1 = [] ↔ fileSize = 0) := by
  have hpos := v.blockSize_pos
  fun_induction IsoVolume.copyFrom v d offset fileSize with
  | case1 offset => exact ⟨rfl, iff_of_true rfl rfl⟩
  | case2 offset fileSize h0 toread hread => simp [hd.readBytes] at hread
  | case3 offset fileSize h0 toread buffer hread rest ih =>
    rw [hd.readBytes, Option.some_inj] at hread
    refine ⟨ih.1, iff_of_false (fun hnil => ?_) h0⟩
    have hbuffer := congrArg length (hread.trans (append_eq_nil_iff.mp hnil).1)
    rw [length_map, length_range, length_nil] at hbuffer
    omega

/-- **When nothing is copied for inode `0`**, whatever the disk holds. -/
theorem copyFile_zero_iff {sectorSize : ℕ} (hx : x.firstSector = 0) (driver : FsDriver) :
    (∀ d : Disk, d.sectorSize = sectorSize → (R.copyFile d p path x driver).2 = true →
      (R.copyFile d p path x driver).1 = []) ↔ R.NothingAtZero sectorSize path x.size driver := by
  have hino : x.firstSector.toUInt32.toNat = 0 := by
    rw [hx]
    rfl
  cases driver with
  | fat =>
    refine iff_of_true (fun d _ _ => ?_) trivial
    rw [copyFile, hino]
    exact R.fat.copy_zero d R.left _
  | exfat =>
    refine iff_of_true (fun d _ _ => ?_) trivial
    rw [copyFile, hino]
    exact R.exfat.copy_zero d R.left _
  | ntfs =>
    simp only [copyFile, hino]
    constructor
    · intro h d hs bytes hread
      have hcopied := h d hs
      rw [hread] at hcopied
      exact hcopied rfl
    · intro h d hs hok
      obtain ⟨bytes, hread⟩ := opened_eq_true_iff.mp hok
      rw [hread]
      exact h d hs bytes hread
  | ext2 =>
    refine iff_of_true (fun d _ hok => ?_) trivial
    rw [copyFile, hino, R.ext2_zero] at hok
    cases hok
  | reiser => exact iff_of_true (fun _ _ _ => rfl) trivial
  | iso =>
    have hsize : x.size = 0 ↔ x.size.toNat = 0 := UInt64.toNat_inj.symm
    show _ ↔ x.size = 0
    rw [hsize]
    constructor
    · intro h
      have hd := contentDisk_readable sectorSize fun _ => 0
      obtain ⟨hok, hnil⟩ := copyFrom_readable hd R.iso (UInt64.ofNat p.partOffset +
        UInt64.ofNat (x.firstSector.toUInt32.toNat * R.iso.blockSize)) x.size.toNat
      exact hnil.mp (h _ rfl (decide_eq_true hok))
    · intro h d _ _
      rw [copyFile, h, IsoVolume.copyFrom, if_pos rfl]
      rfl

end RestoreVolume

end RecoveryQt
