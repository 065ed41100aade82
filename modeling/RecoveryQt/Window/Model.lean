import RecoveryQt.Lib.Runs
import RecoveryQt.Operation.Luks

/-!
# The volumes of the main window

The handlers of `MainWindow` share the current disk, its partition list, the index that was selected
last, and the tree. What is read from a disk to find its partitions is a parameter.

* `Part`, `PartitionInfo`, `DiskEnv`: `partition_t`, `PartitionInfo`, and what the disks hold;
* `detectPartitions`, `wholeDiskPartition`, `matchesKnownPartition`: the three sources of partitions;
* `Window`, `WinAction`, `winStep`: the handlers, each enabled on its page of the stack;
* `Window.volume`: the disk and the partition that restore and preview read.
-/

namespace RecoveryQt

open List

/-! ## Partitions -/

/-- What the handlers read of a `partition_t`. -/
structure Part extends SessionPart where
  fsname : List UInt8

/-- The offset, the size and the filesystem type. -/
structure PartKey where
  partOffset : UInt64
  partSize : UInt64
  upartType : UInt32
  deriving DecidableEq

def Part.key (p : Part) : PartKey := ⟨p.partOffset, p.partSize, p.upartType⟩

/-- `strncmp(fsname, "LUKS", 4) == 0`. -/
def Part.encrypted (p : Part) : Bool := p.fsname.take 4 = [76, 85, 75, 83]

/-- `PartitionInfo`. -/
structure PartitionInfo extends Part where
  isGhost : Bool

/-- `partitionFromGhostInfo`. -/
def partitionFromGhostInfo (i : PartitionInfo) : Part := i.toPart

/-- What is found on the disks, and behind a device path: the partition table (empty if there is none),
the type and the name of the filesystem that `detect_fs_type` finds at the start of the disk, and the
offsets at which `check_LUKS` succeeds. -/
structure DiskEnv (D : Type*) where
  info : D → SessionDisk
  readPart : D → List Part
  fsType : D → UInt32 × List UInt8
  checkLuks : D → UInt64 → Bool
  openDevice : CString → Option D

section Partitions

variable {D : Type*} (env : DiskEnv D)

/-- `check_partition_luks`. -/
def checkPartitionLuks (d : D) (p : Part) : Part :=
  if env.checkLuks d p.partOffset then
    { p with
      upartType := upLuks
      -- "LUKS encrypted"
      fsname := [76, 85, 75, 83, 32, 101, 110, 99, 114, 121, 112, 116, 101, 100] }
  else p

/-- `PartitionList::wholeDiskPartition`. -/
def wholeDiskPartition (d : D) : Part where
  partOffset := 0
  partSize := (env.info d).diskSize
  upartType := (env.fsType d).1
  partTypeI386 := 0
  fsname := (env.fsType d).2

/-- `PartitionList::detect`, or `detectWholeDisk` if that finds no table. -/
def detectPartitions (d : D) : List Part :=
  match (env.readPart d).map (checkPartitionLuks env d) with
  | [] => [checkPartitionLuks env d (wholeDiskPartition env d)]
  | l => l

/-- `GHOSTSCAN_DEDUP_SECTORS`. -/
def ghostscanDedupSectors : ℕ := 64

/-- `matches_known_partition`. -/
def matchesKnownPartition (known : List Part) (sectorSize : UInt32) (p : Part) : Bool :=
  known.any fun q =>
    (if q.partOffset < p.partOffset then p.partOffset.toNat - q.partOffset.toNat
      else q.partOffset.toNat - p.partOffset.toNat) ≤ ghostscanDedupSectors * sectorSize.toNat

/-! ## Handlers -/

/-- The pages of the stack. -/
inductive Page where
  | disks
  | partitions
  | browser
  deriving DecidableEq

/-- What the handlers share. The tree is what it was filled from. -/
structure Window (D : Type*) where
  page : Page
  currentDisk : Option D
  partList : List Part
  partitions : List PartitionInfo
  selectedPartIdx : ℤ
  scanTree : Option (List (D × PartKey))

/-- The program has started. -/
def Window.init : Window D := ⟨.disks, none, [], [], -1, none⟩

namespace Window

variable (s : Window D)

/-- `PartitionList::rawAt`. -/
def rawAt (idx : ℤ) : Option Part := if 0 ≤ idx then s.partList[idx.toNat]? else none

/-- `m_partitions[idx]` after the test that `idx` is in range. -/
def infoAt (idx : ℤ) : Option PartitionInfo := if 0 ≤ idx then s.partitions[idx.toNat]? else none

/-- `m_currentDisk = d` and `detectPartitions`. -/
def openDisk (d : D) : Window D :=
  { s with
    currentDisk := some d
    partList := detectPartitions env d
    partitions := (detectPartitions env d).map fun p => ⟨p, false⟩ }

/-- `onDiskSelected`. -/
def onDiskSelected (d : D) : Window D := { s.openDisk env d with page := .partitions }

/-- The first part of `runScannerOperation` and of `onCarveRequested`: the partition, and whether it is
encrypted. -/
def choosePart (idx : ℤ) : Option (Part × Bool) :=
  if idx = -2 then s.currentDisk.map fun d => (wholeDiskPartition env d, false)
  else
    (s.infoAt idx).bind fun i =>
      (if i.isGhost then some (partitionFromGhostInfo i) else s.rawAt idx).map fun p => (p, i.encrypted)

/-- `decryptLUKSAndRedetect`; `unlocked` is the decrypted disk if the user and `luksdec` give one. -/
def decryptLUKSAndRedetect (unlocked : Option D) : Window D × Option Part :=
  match unlocked with
  | none => (s, none)
  | some d => (s.openDisk env d, (s.openDisk env d).rawAt 0)

/-- A worker fills a new tree from the current disk and the partition, and the browser is shown. -/
def fill (p : Part) : Window D :=
  { s with page := .browser, scanTree := some (s.currentDisk.toList.map fun d => (d, p.key)) }

/-- `runScannerOperation` and `onCarveRequested`: `decrypt` is the answer to the question whether to
decrypt, `accepted` whether the formats are chosen. -/
def runOperation (idx : ℤ) (decrypt : Bool) (unlocked : Option D) (accepted : Bool) : Window D :=
  let s := { s with selectedPartIdx := idx }
  match s.choosePart env idx with
  | none => s
  | some (p, encrypted) =>
    let r := if encrypted && decrypt then s.decryptLUKSAndRedetect env unlocked else (s, some p)
    r.2.elim r.1 fun p => if accepted then r.1.fill p else r.1

/-- `runScannerOperation`: an encrypted volume is decrypted without a question. -/
def runScannerOperation (idx : ℤ) (unlocked : Option D) : Window D :=
  s.runOperation env idx true unlocked true

/-- `onCarveRequested`. -/
def onCarveRequested (idx : ℤ) (decrypt : Bool) (unlocked : Option D) (accepted : Bool) : Window D :=
  s.runOperation env idx decrypt unlocked accepted

/-- `onFindPartitionsRequested`: the ghosts of an earlier search are removed, those found are added. -/
def onFindPartitionsRequested (found : List Part) : Window D :=
  match s.currentDisk with
  | none => s
  | some d =>
    let ghosts := found.filter fun p => !matchesKnownPartition s.partList (env.info d).sectorSize p
    { s with
      partitions := s.partitions.filter (!·.isGhost) ++ ghosts.map fun p => ⟨p, true⟩ }

/-- The first part of `onBackupRequested` and of `onRestoreRequested`. -/
def selectForBackup (idx : ℤ) : Window D :=
  { s with selectedPartIdx := if idx < -1 then 0 else idx }

/-- The partition of a backup. -/
def backupPart : Option Part :=
  (s.infoAt s.selectedPartIdx).bind fun i =>
    (s.rawAt s.selectedPartIdx).or (if i.isGhost then some (partitionFromGhostInfo i) else none)

/-- `onBackupRequested`. -/
def onBackupRequested (idx : ℤ) : Window D := s.selectForBackup idx

/-- `onRestoreRequested`; `picked` tells whether the user picks a backup file. -/
def onRestoreRequested (idx : ℤ) (picked : Bool) : Window D :=
  let s := s.selectForBackup idx
  s.backupPart.elim s fun p => if picked then s.fill p else s

/-- `onBackToDisks` and `onBrowserQuit`. -/
def toDisks : Window D := { s with page := .disks }

end Window

/-! ## Sessions -/

instance (h : SessionHeader) : Decidable h.luksDecrypted := by
  unfold SessionHeader.luksDecrypted; infer_instance

/-- `completed` as `loadSession` fills it. -/
def SessionHeader.completed (h : SessionHeader) : Prop := h.flags &&& sessionFlagCompleted ≠ 0

instance (h : SessionHeader) : Decidable h.completed := by
  unfold SessionHeader.completed; infer_instance

/-- The volume that the header records. -/
def SessionHeader.key (h : SessionHeader) : PartKey := ⟨h.partOffset, h.partSize, h.upartType⟩

/-- The disk that `onContinueSession` opens. -/
def sessionDisk (h : SessionHeader) (unlocked : Option D) : Option D :=
  (env.openDevice h.devicePath).bind fun d => if h.luksDecrypted then unlocked else some d

/-- The partition that `onContinueSession` picks. -/
def matchingPart (h : SessionHeader) (d : D) : Option Part :=
  (detectPartitions env d).find? fun p => p.partOffset = h.partOffset && p.partSize = h.partSize

/-- The session is resumed: it is not completed, and it is a carve or a deep scan. -/
def SessionHeader.resumes (h : SessionHeader) : Bool :=
  ¬ h.completed ∧ (h.opType = sessionOpCarve ∨ h.opType = sessionOpDeepScan)

/-- `onContinueSession`: the tree of the file, filled further if the session is resumed. -/
def Window.onContinueSession (s : Window D) (h : SessionHeader) (unlocked : Option D) : Window D :=
  match sessionDisk env h unlocked with
  | none => s
  | some d =>
    let s := s.openDisk env d
    match matchingPart env h d with
    | none => s
    | some p =>
      { s with
        page := .browser
        scanTree := some ((d, h.key) :: if h.resumes then [(d, p.key)] else []) }

/-! ## Runs -/

/-- The handlers with what the user gives to them. -/
inductive WinAction (D : Type*) where
  | diskSelected (d : D)
  | scan (idx : ℤ) (unlocked : Option D)
  | carve (idx : ℤ) (decrypt : Bool) (unlocked : Option D) (accepted : Bool)
  | findPartitions (found : List Part)
  | backup (idx : ℤ)
  | restoreBackup (idx : ℤ) (picked : Bool)
  | back
  | continueSession (h : SessionHeader) (unlocked : Option D)
  | quitBrowser

/-- The page on which the handler is connected. -/
def WinAction.page : WinAction D → Page
  | .diskSelected _ => .disks
  | .continueSession .. => .disks
  | .quitBrowser => .browser
  | _ => .partitions

/-- The handler. -/
def Window.handle (s : Window D) : WinAction D → Window D
  | .diskSelected d => s.onDiskSelected env d
  | .scan idx unlocked => s.runScannerOperation env idx unlocked
  | .carve idx decrypt unlocked accepted => s.onCarveRequested env idx decrypt unlocked accepted
  | .findPartitions found => s.onFindPartitionsRequested env found
  | .backup idx => s.onBackupRequested idx
  | .restoreBackup idx picked => s.onRestoreRequested idx picked
  | .back => s.toDisks
  | .continueSession h unlocked => s.onContinueSession env h unlocked
  | .quitBrowser => s.toDisks

/-- One step. -/
def winStep (s : Window D) (a : WinAction D) : Window D :=
  if s.page = a.page then s.handle env a else s

/-! ## Restore and preview -/

/-- The partition that the selected index denotes now. -/
def Window.selectedPart (s : Window D) : Option Part :=
  if 0 ≤ s.selectedPartIdx ∧ s.selectedPartIdx < s.partitions.length then s.rawAt s.selectedPartIdx
  else if s.selectedPartIdx = -2 then s.currentDisk.map (wholeDiskPartition env) else none

/-- What `onRestoreFromBrowser` passes to `restore_files`, and `onPreviewRequested` to
`read_file_bytes`. -/
def Window.volume (s : Window D) : Option (D × Part) :=
  if s.page = .browser ∧ s.scanTree.isSome then
    s.currentDisk.bind fun d => (s.selectedPart env).map fun p => (d, p)
  else none

end Partitions

end RecoveryQt
