import RecoveryQt.Backup.Live
import RecoveryQt.Scan.Model

/-!
# `scanner_run`

A run walks the directories and then adds what the scan of the MFT or of the inodes finds; a deep
run goes on with the free clusters of a FAT or NTFS volume, or else with the carver.

* `FileInfo.scanItem`, `mftItem`, `ExtInode.item?`, `fatItem`, `indxItem`, `carvedItems`: the items;
* `ScanVolume`: the volume; `scanDirRecursive`, `scannerDeepExt`, `scannerDeepNtfs`: its scanners;
* `ScanStop`: when the scan is cancelled; `scannerRun`: `scanner_run`;
* **`scannerRun_eq`**: a run adds a list of items that does not depend on the tree.
-/

namespace RecoveryQt

open List

/-- `"/ORPHAN"`. -/
def orphanDir : List UInt8 := [47, 79, 82, 80, 72, 65, 78]

/-- `"/Deep Scan Results"`. -/
def deepDir : List UInt8 :=
  [47, 68, 101, 101, 112, 32, 83, 99, 97, 110, 32, 82, 101, 115, 117, 108, 116, 115]

/-- `(size + sector_size - 1) / sector_size`, in 64 bits. -/
def sectorCount (size : UInt64) (sectorSize : UInt32) : UInt64 :=
  (size + sectorSize.toUInt64 - 1) / sectorSize.toUInt64

/-- The arguments of `tree_add_path` for an entry. -/
def FileInfo.addArgs (fi : FileInfo) (sectorSize : UInt32) (deleted : Bool) : AddArgs where
  isDir := fi.isDir
  size := fi.stSize
  firstSector := UInt64.ofNat fi.stIno
  numSectors := if 0 < fi.stSize then sectorCount fi.stSize sectorSize else 0
  mtime := fi.tdMtime
  sectorSize := sectorSize
  deleted := deleted

/-- The name is `.` or `..`. -/
def FileInfo.isDots (fi : FileInfo) : Bool := fi.name == [46] || fi.name == [46, 46]

/-- A directory entry at its path. -/
def FileInfo.scanItem (fi : FileInfo) (sectorSize : UInt32) (fullPath : List UInt8) : ScanItem :=
  ⟨fullPath, fi.addArgs sectorSize fi.deleted, .entry⟩

/-- A record of the MFT below `/ORPHAN`. -/
def mftItem (sectorSize : UInt32) (r : FileInfo × MftData) : ScanItem where
  path := (orphanDir ++ (if r.1.name.head? = some slash then r.1.name else slash :: r.1.name)).take 4095
  args := r.1.addArgs sectorSize true
  kind := .mft r.2

/-- An entry of a free FAT cluster. -/
def fatItem (sectorSize : UInt32) (fi : FileInfo) : ScanItem :=
  ⟨(deepDir ++ slash :: fi.name).take 4095, fi.addArgs sectorSize true, .entry⟩

/-- An entry of an index block: the path of its parent and its own name behind each other. -/
def indxItem (sectorSize : UInt32) (r : List UInt8 × FileInfo) : ScanItem where
  path := (deepDir ++ (if r.1 = [] then [] else [slash]) ++ r.1 ++ r.2.name).take 4095
  args := { r.2.addArgs sectorSize true with numSectors := sectorCount r.2.stSize sectorSize }
  kind := .entry

/-- An inode as `ext2fs_get_next_inode` returns it, and the position of its first block. -/
structure ExtInode where
  ino : ℕ
  isReg : Bool
  isDir : Bool
  isSymlink : Bool
  size : UInt64
  blocks : UInt32
  dtime : UInt32
  mtime : UInt64
  firstBlock : Option UInt64

/-- `"%lu"`. -/
def decimalBytes (n : ℕ) : List UInt8 := (Nat.toDigits 10 n).map fun c => UInt8.ofNat c.toNat

/-- The item of an inode, when it is one that is kept. -/
def ExtInode.item? (sectorSize : UInt32) (firstIno : ℕ) (i : ExtInode) : Option ScanItem :=
  if i.ino < firstIno then none
  else if i.isReg = false ∧ i.isDir = false ∧ i.isSymlink = false then none
  else if i.size = 0 ∧ i.blocks = 0 ∧ i.dtime = 0 then none
  else some {
    path := deepDir ++ slash :: ([105, 110, 111, 100, 101, 95] ++ decimalBytes i.ino ++
      if i.isDir then [46, 100, 105, 114] else [46, 102, 105, 108, 101])
    args := {
      isDir := i.isDir
      size := i.size
      firstSector := UInt64.ofNat i.ino
      numSectors := if 0 < i.size then sectorCount i.size sectorSize
        else sectorCount (i.blocks.toUInt64 * 512) sectorSize
      mtime := i.mtime
      sectorSize := sectorSize
      deleted := true }
    kind := .inode i.firstBlock }

/-- The items of carved entries, the first being number `count`. -/
def carvedItems (partOffset sectorSize : ℕ) : List CarvedEntry → ℕ → List ScanItem
  | [], _ => []
  | e :: es, count =>
    if maxOrphanFiles ≤ count ∨ e.size < carverMinSize then carvedItems partOffset sectorSize es count
    else ⟨carvedPath count e.hint, carvedArgs partOffset sectorSize e, .carved⟩ ::
      carvedItems partOffset sectorSize es (count + 1)

/-! ## The scanners -/

/-- A volume: `is_fat`, `is_ntfs` and `is_ext2_type` of its partition, its directories, what
`scan_disk` lists of the MFT, its inodes, the entries that `scanner_deep_fat` finds, the bitmap of
the clusters in use with the index entries of a cluster, and the carver. -/
structure ScanVolume where
  env : ScanEnv
  sectorSize : UInt32
  isFat : Bool
  isNtfs : Bool
  isExt : Bool
  currentInode : ℕ
  getDir : ℕ → Option (List FileInfo)
  mft : List (FileInfo × MftData)
  inodes : List ExtInode
  inodesCount : ℕ
  firstIno : ℕ
  fatEntries : List FileInfo
  bitmap : List Bool
  readable : ℕ → ℕ → Bool
  indx : ℕ → List (List UInt8 × FileInfo)
  carver : CarverEnv

/-- When the scan is cancelled: after the walk, after a number of inodes, after a number of clusters
of the bitmap, at the end of a chunk of the carver. -/
structure ScanStop where
  afterWalk : Bool
  inodes : Option ℕ
  bitmap : Option ℕ
  carver : ℕ → Bool

/-- The scan is not cancelled. -/
def ScanStop.never : ScanStop := ⟨false, none, none, fun _ => false⟩

/-- The elements before a stop. -/
def upTo {α : Type*} (stop : Option ℕ) (l : List α) : List α := stop.elim l fun n => l.take n

namespace ScanVolume

variable (v : ScanVolume)

/-- `scan_dir_recursive`: the items in order, `room` levels deep. -/
def scanDirRecursive : ℕ → List ℕ → List UInt8 → ℕ → List ScanItem
  | 0, _, _, _ => []
  | room + 1, known, path, inode =>
    match v.getDir inode with
    | none => []
    | some dirList => dirList.flatMap fun fi : FileInfo =>
      if fi.isDir ∧ fi.isDots then []
      else fi.scanItem v.sectorSize (joinPath path fi.name) ::
        if fi.isDir ∧ fi.stIno ∉ known ++ [inode] then
          scanDirRecursive room (known ++ [inode]) (joinPath path fi.name) fi.stIno
        else []

/-- The walk of `scanner_run`, `MAX_DIR_DEPTH` levels deep. -/
def walk : List ScanItem := v.scanDirRecursive 256 [] rootPath v.currentInode

/-- `scanner_deep_ext`, cancelled after a number of inodes. -/
def scannerDeepExt (stop : Option ℕ) : List ScanItem :=
  let total := if v.inodesCount = 0 then 1 else v.inodesCount
  (upTo stop ((v.inodes.takeWhile fun i => i.ino < total).take total)).filterMap
    (ExtInode.item? v.sectorSize v.firstIno)

/-- The entries of a batch of free clusters, when it can be read. -/
def flush (start count : ℕ) : List ScanItem :=
  if 0 < count ∧ v.readable start count = true then
    (range count).flatMap fun c => (v.indx (start + c)).map (indxItem v.sectorSize)
  else []

/-- The loop of `scanner_deep_ntfs` from `cluster` on; `count` free clusters from `start` on are
pending. -/
def deepNtfsFrom : List Bool → ℕ → ℕ → ℕ → List ScanItem
  | [], _, start, count => v.flush start count
  | true :: bits, cluster, start, count =>
    v.flush start count ++ deepNtfsFrom bits (cluster + 1) start 0
  | false :: bits, cluster, start, count =>
    let start := if count = 0 then cluster else start
    if 64 ≤ count + 1 then v.flush start (count + 1) ++ deepNtfsFrom bits (cluster + 1) start 0
    else deepNtfsFrom bits (cluster + 1) start (count + 1)

/-- `scanner_deep_ntfs`, cancelled after a number of clusters. -/
def scannerDeepNtfs (stop : Option ℕ) : List ScanItem := v.deepNtfsFrom (upTo stop v.bitmap) 0 0 0

/-- The items of `scanner_deep_fat`. -/
def scannerDeepFat : List ScanItem :=
  (v.fatEntries.filter fun fi => !fi.isDots).map (fatItem v.sectorSize)

/-- `carver_run`, cancelled at the end of a chunk. -/
def stoppedCarver (stop : ScanStop) : CarverEnv := { v.carver with cancel := stop.carver }

/-- **`scanner_run`** on a tree. -/
def scannerRun (deep : Bool) (stop : ScanStop) (t : ScanTree) : ScanTree :=
  let t := t.scan v.env v.walk
  if stop.afterWalk then t
  else
    let t := if v.isNtfs then t.scan v.env (v.mft.map (mftItem v.sectorSize)) else t
    let t := if v.isExt then t.scan v.env (v.scannerDeepExt stop.inodes) else t
    if deep = false then t
    else
      let t := if v.isFat then t.scan v.env v.scannerDeepFat else t
      let t := if v.isNtfs then t.scan v.env (v.scannerDeepNtfs stop.bitmap) else t
      if v.isFat = false ∧ v.isNtfs = false then (v.stoppedCarver stop).carverRun t else t

/-! ## The items of a run -/

/-- The items that the carver adds. -/
def carved (stop : ScanStop) : List ScanItem :=
  carvedItems (v.stoppedCarver stop).partOffset (v.stoppedCarver stop).sectorSize
    (v.stoppedCarver stop).entries 0

/-- The items of a run. -/
def items (deep : Bool) (stop : ScanStop) : List ScanItem :=
  v.walk ++
    if stop.afterWalk then []
    else
      (if v.isNtfs then v.mft.map (mftItem v.sectorSize) else []) ++
        (if v.isExt then v.scannerDeepExt stop.inodes else []) ++
        if deep = false then []
        else
          (if v.isFat then v.scannerDeepFat else []) ++
            (if v.isNtfs then v.scannerDeepNtfs stop.bitmap else []) ++
            if v.isFat = false ∧ v.isNtfs = false then v.carved stop else []

end ScanVolume

theorem ScanTree.scan_append (env : ScanEnv) (t : ScanTree) (l l' : List ScanItem) :
    t.scan env (l ++ l') = (t.scan env l).scan env l' := foldl_append

theorem ScanTree.scan_ite (env : ScanEnv) (t : ScanTree) (p : Prop) [Decidable p]
    (l l' : List ScanItem) :
    t.scan env (if p then l else l') = if p then t.scan env l else t.scan env l' := by
  split_ifs <;> rfl

/-- The carver adds its items. -/
theorem scan_carvedItems (env : ScanEnv) (off ss : ℕ) (es : List CarvedEntry) (count : ℕ)
    (t : ScanTree) : t.scan env (carvedItems off ss es count) =
      (carvedAdds off ss es count).foldl ScanTree.addCarved t := by
  induction es generalizing count t with
  | nil => rfl
  | cons e es ih =>
    rw [carvedItems, carvedAdds]
    split_ifs with hskip
    · exact ih count t
    · rw [ScanTree.scan, foldl_cons, foldl_cons]
      have hitem : t.scanItem env ⟨carvedPath count e.hint, carvedArgs off ss e, .carved⟩ =
          t.addCarved (pathTokens (carvedPath count e.hint), carvedArgs off ss e) := by
        unfold ScanTree.scanItem ScanTree.renameTo
        have hnone : ∀ x : Option NodeInfo, x.bind (ScanItem.detected env
            ⟨carvedPath count e.hint, carvedArgs off ss e, .carved⟩) = none := by
          intro x
          cases x <;> rfl
        simp only [hnone]
        rfl
      rw [hitem]
      exact ih (count + 1) _

theorem carverRun_eq_scan (c : CarverEnv) (env : ScanEnv) (t : ScanTree) :
    c.carverRun t = t.scan env (carvedItems c.partOffset c.sectorSize c.entries 0) := by
  rw [scan_carvedItems, CarverEnv.carverRun, foldl_carverAddEntry]

/-- **A run adds its items.** -/
theorem scannerRun_eq (v : ScanVolume) (deep : Bool) (stop : ScanStop) (t : ScanTree) :
    v.scannerRun deep stop t = t.scan v.env (v.items deep stop) := by
  have hcarve : ∀ t, (v.stoppedCarver stop).carverRun t = t.scan v.env (v.carved stop) :=
    carverRun_eq_scan (v.stoppedCarver stop) v.env
  have hnil : ∀ t : ScanTree, t.scan v.env [] = t := fun _ => rfl
  unfold ScanVolume.scannerRun ScanVolume.items
  simp only [ScanTree.scan_append, ScanTree.scan_ite, hcarve, hnil]

end RecoveryQt
