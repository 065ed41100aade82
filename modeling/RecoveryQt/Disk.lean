import Mathlib.Data.Nat.Basic

/-!
# Disks and partitions

* `Disk`: what the recovery code sees of a `disk_t`, a byte content behind a `pread` that may
  fail or come back short;
* `UpartType`, `Partition`: the fields of `partition_t` that the recovery code reads.
-/

namespace RecoveryQt

/-- A device: its logical sector size, its size in bytes, its content, and the reads that fail.
`bad count offset` says that reading `count` bytes at `offset` does not return `count` bytes. -/
structure Disk where
  sectorSize : ℕ
  diskSize : ℕ
  content : ℕ → UInt8
  bad : ℕ → ℕ → Bool

/-- `disk->pread`: the buffer read, or `none` when the result is not the count asked for. -/
def Disk.pread (d : Disk) (count offset : ℕ) : Option (ℕ → UInt8) :=
  if d.bad count offset then none else some fun i => d.content (offset + i)

/-- `upart_type_t`. -/
inductive UpartType where
  | unk | apfs | beos | btrfs | cramfs | exfat | ext2 | ext3 | ext4 | extended
  | fat12 | fat16 | fat32 | fatx | freebsd | f2fs | gfs2 | hfs | hfsp | hfsx | hpfs | iso | jfs
  | linswap | linswap2 | linswap8k | linswap28k | linswap28kbe | luks | lvm | lvm2 | md | md1
  | netware | ntfs | openbsd | os2mb | refs | rfs | rfs2 | rfs3 | rfs4 | sun | sysv4
  | ufs | ufs2 | ufsLe | ufs2Le | vmfs | wbfs | xfs | xfs2 | xfs3 | xfs4 | xfs5 | zfs
  deriving DecidableEq, Repr

/-- The value of the C enumeration constant. -/
def UpartType.code (u : UpartType) : UInt32 := UInt32.ofNat u.ctorIdx

/-- `partition_t`. -/
structure Partition where
  partOffset : ℕ
  partSize : ℕ
  upartType : UpartType
  partTypeI386 : UInt32
  deriving DecidableEq

/-- `BACKUP_MAX_CLUSTERS_PER_FILE`. -/
def backupMaxClusters : ℕ := 1024 * 1024

/-- `DIR_NAME_LEN`. -/
def dirNameLen : ℕ := 1024

end RecoveryQt
