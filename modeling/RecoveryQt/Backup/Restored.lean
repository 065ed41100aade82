import RecoveryQt.Backup.Clusters
import RecoveryQt.Backup.Marks
import RecoveryQt.Backup.Truncated
import RecoveryQt.Backup.RoundTrip
import RecoveryQt.Fat.Agree
import RecoveryQt.Restore.Copy
import RecoveryQt.Restore.Preview
import Mathlib.Data.List.GetD

/-!
# Restoring a file from a backup

* `BackupRun`: a volume with the listings of its driver, as `backup_create` sees it;
* `builtNode`: the node that `backup_restore_build_tree` builds for an entry;
* `BackupRun.Restored`: what is restored for an entry is the content of the clusters recorded for it;
* `BackupRun.RestoresRight`: the cases in which it is;
* **`restored_iff`**: the two are equivalent.
-/

namespace RecoveryQt

open List

/-! ## The node of an entry -/

/-- The node that `backup_restore_build_tree` builds for an entry whose path is new. -/
def builtNode (sectorSize clusterBytes : UInt32) (mark : BackupMark) (e : BackupEntry) : NodeInfo :=
  NodeInfo.setBackup e clusterBytes mark (nodeAlloc (restoreArgs e sectorSize mark))

section Node

variable {sectorSize clusterBytes : UInt32} {mark : BackupMark} {e : BackupEntry}

theorem label_restoreEntry_iff (hmark : mark ≠ .same) {t : ScanTree}
    (hnew : t.top.label? (pathTokens e.path) = none) {x : NodeInfo} :
    (restoreEntry sectorSize clusterBytes mark t e).top.label? (pathTokens e.path) = some x ↔
      pathTokens e.path ≠ [] ∧ builtNode sectorSize clusterBytes mark e = x := by
  by_cases hp : pathTokens e.path = []
  · rw [hp, Forest.label?]
    simp
  · rw [restoreEntry_label_self sectorSize clusterBytes hmark rfl hp, hnew, and_iff_right hp,
      Option.some_inj]
    rfl

/-- A node with clusters. -/
theorem builtNode_clusters (hfile : e.isDir = false) (hno : e.noClusters = false) (hne : e.clusters ≠ [])
    (hlen : e.clusters.length < 2 ^ 32) :
    (builtNode sectorSize clusterBytes mark e).clusters.list = e.clusters ∧
      (builtNode sectorSize clusterBytes mark e).clusters.size = clusterBytes := by
  have hclusters : (builtNode sectorSize clusterBytes mark e).clusters =
      Clusters.attach e.clusters clusterBytes := if_pos ⟨hfile, hno, hne⟩
  rw [hclusters, Clusters.attach, dif_pos ⟨hlen, hne⟩]
  exact ⟨rfl, rfl⟩

/-- A node without. -/
theorem builtNode_not_raw (hnil : e.clusters = []) : ¬ (builtNode sectorSize clusterBytes mark e).raw := by
  have hclusters : (builtNode sectorSize clusterBytes mark e).clusters = Clusters.none :=
    if_neg fun h => h.2.2 hnil
  rintro (h | ⟨-, h⟩)
  · cases h
  · rw [hclusters] at h
    exact h rfl

end Node

/-! ## What is restored -/

/-- The first `S` bytes of each cluster that is recorded, cut at the size of the file. -/
def recordedBytes (d : Disk) (p : Partition) (S : ℕ) (e : BackupEntry) : List UInt8 :=
  (pieces (fun c i => (UInt64.ofNat p.partOffset + c).toNat + i) S e.fileSize.toNat e.clusters).map d.content

namespace BackupRun

variable (b : BackupRun) (R : RestoreVolume) (h : BackupHeader) (e : BackupEntry)

/-- The cluster size of the driver that is open, by which `collect_clusters_fs` finds clusters. -/
def foundSize : ℕ := (b.view b.driver).elim 0 fun v => v.clusterSize.toNat

/-- A restore of the node that succeeds writes the clusters recorded for the entry, whatever the disk
holds. -/
def ContentRight (x : NodeInfo) : Prop :=
  ∀ d : Disk, d.sectorSize = b.disk.sectorSize →
    (R.restore d b.partition (pathTokens e.path) x).2 = true →
    (R.restore d b.partition (pathTokens e.path) x).1 = recordedBytes d b.partition b.foundSize e

/-- The node that is built for an entry is restored with the clusters recorded for it, and the header has
their size. -/
structure Restored : Prop where
  content : ∀ mark t x, mark ≠ .same → t.top.label? (pathTokens e.path) = none →
    (restoreEntry (UInt32.ofNat b.disk.sectorSize) h.clusterBytes mark t e).top.label?
      (pathTokens e.path) = some x → b.ContentRight R e x
  header : e.clusters ≠ [] → ∃ v, b.view b.driver = some v ∧ h.clusterBytes = v.clusterSize ∧
    0 < v.clusterSize.toNat

/-- **When an entry is restored right.** FAT was not only detected; a cluster fits in the buffer of the
restore, or the file does; and for a file without clusters the driver copies nothing for inode `0`. The
last two matter when a node is built and a driver opens the partition. -/
structure RestoresRight : Prop where
  coded : e.clusters ≠ [] → ¬ b.FatByDetection
  buffered : e.clusters ≠ [] → pathTokens e.path ≠ [] → R.type.initFsForRestore R.opens ≠ none →
    b.foundSize ≤ blockSize ∨ e.fileSize.toNat ≤ blockSize
  unlisted : e.clusters = [] → pathTokens e.path ≠ [] → ∀ driver,
    R.type.initFsForRestore R.opens = some driver →
      R.NothingAtZero b.disk.sectorSize (pathTokens e.path) e.fileSize driver

end BackupRun

/-! ## A list of clusters -/

/-- A restore that succeeds has read its clusters. -/
theorem orphanClusters_of_ok {d : Disk} {partOffset : UInt64} {clusterSize rem : ℕ} {l : List UInt64}
    (hok : (orphanClusters d partOffset clusterSize rem l).2 = .ok) :
    (orphanClusters d partOffset clusterSize rem l).1 =
      (orphanPositions partOffset clusterSize rem l).map d.content := by
  induction l generalizing rem with
  | nil => simp [orphanClusters, orphanPositions]
  | cons c l ih =>
    rw [orphanClusters] at hok ⊢
    split_ifs at hok ⊢ with h0
    · rw [h0, orphanPositions, pieces_zero]
      rfl
    · have hchunk : min (min clusterSize rem) blockSize = min (min clusterSize blockSize) rem := by
        omega
      simp only [hchunk] at hok ⊢
      cases hread : d.readBytes (min (min clusterSize blockSize) rem) (partOffset + c) with
      | none => rw [hread] at hok; cases hok
      | some buffer =>
        rw [hread] at hok
        have hbuffer := d.readBytes_eq hread
        simp only [ih hok, orphanPositions, pieces, map_append, map_map, hbuffer]
        rfl

/-- **At most a buffer is read of a cluster**, which matters only for long files in large clusters. -/
theorem orphanPositions_eq_iff {partOffset : UInt64} {clusterSize size : ℕ} {l : List UInt64}
    (hl : l ≠ []) (hapart : blockSize < clusterSize → BufferApart l) :
    (∀ content : ℕ → UInt8, (orphanPositions partOffset clusterSize size l).map content =
      (pieces (fun c i => (partOffset + c).toNat + i) clusterSize size l).map content) ↔
      clusterSize ≤ blockSize ∨ size ≤ blockSize := by
  rw [orphanPositions]
  constructor
  · intro h
    by_contra hnot
    obtain ⟨hbig, hlong⟩ := not_or.mp hnot
    rw [not_le] at hbig hlong
    have hB : 0 < blockSize := by decide
    rw [Nat.min_eq_right hbig.le, pieces_eq_map _ hB, pieces_eq_map _ (hB.trans hbig)] at h
    simp only [map_map] at h
    obtain ⟨hlen, hpos⟩ := map_content_eq_iff.mp h
    have hn : 0 < l.length := length_pos_of_ne_nil hl
    have hmul : l.length * blockSize < l.length * clusterSize := Nat.mul_lt_mul_of_pos_left hbig hn
    have hshort : size ≤ l.length * blockSize := by omega
    have hsecond : 1 < l.length := by
      by_contra hone
      have := Nat.mul_le_mul_right blockSize (not_lt.mp hone)
      omega
    -- the second cluster would begin where the first one goes on
    have hat := hpos blockSize (by omega)
    simp only [Nat.div_self hB, Nat.mod_self, Nat.div_eq_of_lt hbig, Nat.mod_eq_of_lt hbig,
      getD_eq_getElem _ _ hn, getD_eq_getElem _ _ hsecond] at hat
    have hnext := congrArg UInt64.ofNat hat
    rw [Nat.add_zero, UInt64.ofNat_add, UInt64.ofNat_toNat, UInt64.ofNat_toNat, UInt64.add_assoc,
      UInt64.add_right_inj] at hnext
    exact hapart hbig _ (getElem_mem hn) _ (getElem_mem hsecond) hnext
  · rintro (hfit | hshort) content
    · rw [Nat.min_eq_left hfit]
    · by_cases hfit : clusterSize ≤ blockSize
      · rw [Nat.min_eq_left hfit]
      · rw [Nat.min_eq_right (not_le.mp hfit).le,
          pieces_of_le _ hshort (hshort.trans (not_le.mp hfit).le)]

/-! ## The exact condition -/

section Exact

variable {b : BackupRun} {R : RestoreVolume} {file : List UInt8} {h : BackupHeader} {es : List BackupEntry}
  {e : BackupEntry}

theorem content_iff {sectorSize clusterBytes : UInt32} {P : NodeInfo → Prop} :
    (∀ mark t x, mark ≠ BackupMark.same → t.top.label? (pathTokens e.path) = none →
      (restoreEntry sectorSize clusterBytes mark t e).top.label? (pathTokens e.path) = some x → P x) ↔
    (pathTokens e.path ≠ [] → ∀ mark, mark ≠ BackupMark.same →
      P (builtNode sectorSize clusterBytes mark e)) := by
  constructor
  · intro h hp mark hmark
    have hnew : treeNew.top.label? (pathTokens e.path) = none := Forest.label?_nil _
    exact h mark treeNew _ hmark hnew ((label_restoreEntry_iff hmark hnew).mpr ⟨hp, rfl⟩)
  · intro h mark t x hmark hnew hx
    obtain ⟨hp, rfl⟩ := (label_restoreEntry_iff hmark hnew).mp hx
    exact h hp mark hmark

/-- **A file with clusters**, when the header has their size. -/
theorem contentRight_clustered (mark : BackupMark) {v : FsView} {clusterBytes : UInt32}
    (hv : b.view b.driver = some v) (hsize : clusterBytes = v.clusterSize) {ino : ℕ}
    (hcollect : v.collect ino = some e.clusters) (hfile : e.isDir = false) (hno : e.noClusters = false)
    (hne : e.clusters ≠ []) (sectorSize : UInt32) :
    b.ContentRight R e (builtNode sectorSize clusterBytes mark e) ↔
      (R.type.initFsForRestore R.opens ≠ none →
        b.foundSize ≤ blockSize ∨ e.fileSize.toNat ≤ blockSize) := by
  have hfound : b.foundSize = v.clusterSize.toNat := by
    rw [BackupRun.foundSize, hv]
    rfl
  obtain ⟨hlist, hnode⟩ : (builtNode sectorSize clusterBytes mark e).clusters.list = e.clusters ∧
      (builtNode sectorSize clusterBytes mark e).clusters.size = v.clusterSize := by
    rw [← hsize]
    exact builtNode_clusters hfile hno hne (v.length_lt ino _ hcollect)
  have hraw : (builtNode sectorSize clusterBytes mark e).raw := .inr ⟨rfl, hlist ▸ hne⟩
  have hclustered : (builtNode sectorSize clusterBytes mark e).clustered := by
    refine ⟨hlist ▸ hne, fun h0 => ?_⟩
    have hpos := v.clusterSize_pos
    rw [← hnode, h0] at hpos
    exact absurd hpos (by decide)
  unfold BackupRun.ContentRight RestoreVolume.restore
  cases R.type.initFsForRestore R.opens with
  | none => exact iff_of_true (fun _ _ hok => by cases hok) fun h => absurd rfl h
  | some driver =>
    simp only [if_pos hraw, restoreOrphan, if_pos hclustered, hlist, hnode, RestoreVolume.outcome,
      decide_eq_true_eq, recordedBytes, hfound]
    rw [forall_prop_of_true (Option.some_ne_none driver),
      ← orphanPositions_eq_iff hne fun hbig => v.apart hbig ino _ hcollect]
    constructor
    · intro h content
      have hd := contentDisk_readable b.disk.sectorSize content
      have hread := h (contentDisk b.disk.sectorSize content) rfl (by rw [orphanClusters_positions hd])
      rw [orphanClusters_positions hd] at hread
      exact hread
    · intro h d _ hok
      rw [orphanClusters_of_ok hok]
      exact h d.content

/-- **A file without clusters.** -/
theorem contentRight_unlisted (mark : BackupMark) (hnil : e.clusters = [])
    (sectorSize clusterBytes : UInt32) :
    b.ContentRight R e (builtNode sectorSize clusterBytes mark e) ↔
      ∀ driver, R.type.initFsForRestore R.opens = some driver →
        R.NothingAtZero b.disk.sectorSize (pathTokens e.path) e.fileSize driver := by
  have hraw := @builtNode_not_raw sectorSize clusterBytes mark e hnil
  unfold BackupRun.ContentRight RestoreVolume.restore
  cases R.type.initFsForRestore R.opens with
  | none => exact iff_of_true (fun _ _ hok => by cases hok) fun _ h => by cases h
  | some driver =>
    simp only [if_neg hraw, recordedBytes, hnil, pieces_nil, map_nil, Option.some_inj, forall_eq']
    exact RestoreVolume.copyFile_zero_iff rfl driver

/-- **Files are restored right exactly in these cases.** -/
theorem restored_iff (hreads : b.Reads file h es) (he : e ∈ es) (hfile : e.isDir = false) :
    b.Restored R h e ↔ b.RestoresRight R e := by
  by_cases hnil : e.clusters = []
  · constructor
    · intro hrestored
      refine ⟨fun hne => absurd hnil hne, fun hne => absurd hnil hne, fun _ hp => ?_⟩
      exact (contentRight_unlisted .deleted hnil _ _).mp
        (content_iff.mp hrestored.content hp .deleted (by decide))
    · intro hright
      refine ⟨content_iff.mpr fun hp mark _ => ?_, fun hne => absurd hnil hne⟩
      exact (contentRight_unlisted mark hnil _ _).mpr (hright.unlisted hnil hp)
  · obtain ⟨hno, v, ino, hbind, hcollect⟩ := hreads.collect_of_clusters he hnil
    have hheader : h.clusterBytes = if b.FatByDetection then 0 else v.clusterSize :=
      hreads.written.1.trans (b.headerGeometry_fst hbind)
    have hv : b.view b.driver = some v := by
      obtain ⟨d, hd, hview⟩ := Option.bind_eq_some_iff.mp hbind
      obtain rfl := b.collectFsType_eq hd
      exact hview
    by_cases hdetected : b.FatByDetection
    · -- the header has no cluster size
      refine iff_of_false (fun hrestored => ?_) fun hright => hright.coded hnil hdetected
      obtain ⟨v', -, hsize, hpos⟩ := hrestored.header hnil
      rw [← hsize, hheader, if_pos hdetected] at hpos
      exact absurd hpos (by decide)
    · rw [if_neg hdetected] at hheader
      have hnode := fun mark => @contentRight_clustered b R e mark v _ hv hheader ino hcollect hfile hno hnil
        (UInt32.ofNat b.disk.sectorSize)
      constructor
      · intro hrestored
        refine ⟨fun _ => hdetected, fun _ hp => ?_, fun h0 => absurd h0 hnil⟩
        exact (hnode .deleted).mp (content_iff.mp hrestored.content hp .deleted (by decide))
      · intro hright
        refine ⟨content_iff.mpr fun hp mark _ => ?_, fun _ => ⟨v, hv, hheader, v.clusterSize_pos⟩⟩
        exact (hnode mark).mpr (hright.buffered hnil hp)

end Exact

/-! ## A floppy disk -/

/-- FAT12, by its type code or only as it was detected. -/
def floppyType (coded : Bool) : PartitionType :=
  ⟨if coded then .i386 else .none, if coded then 1 else 0, 0, .fat12⟩

/-- The file `a` of one sector, in the first cluster. -/
def floppyFile : FileInfo := ⟨[97], 2, 512, 0, false, false⟩

/-- A backup of the floppy disk with this file. -/
def floppyRun (coded : Bool) : BackupRun where
  type := floppyType coded
  opens d := d == .fat
  driver := .fat
  view d := if d = .fat then some floppy.view else none
  opened := by cases coded <;> rfl
  fat_or_ntfs _ := rfl
  disk := floppy.disk
  partition := ⟨0, 1474560, .fat12, if coded then 1 else 0⟩
  created := 0
  model := []
  currentInode := 0
  getDir _ := some [floppyFile]
  typed := ⟨rfl, rfl⟩

/-- The entry of the file. -/
def floppyEntry : BackupEntry := ⟨[slash, 97], false, false, 512, 0, [9728]⟩

/-- A restore to the same disk. -/
def floppyVolume (coded : Bool) : RestoreVolume where
  type := floppyType coded
  opens d := d == .fat
  fat := floppy.chain
  exfat := floppy.chain
  left _ := []
  iso := ⟨2048, Nat.succ_pos _⟩
  ntfsRead _ _ _ := none
  ext2Read _ _ := none
  ext2_zero _ := rfl

theorem floppy_collectClusters : floppy.collectClusters 2 = [9728] := by
  have hnext : floppy.next 2 = 0 := rfl
  have hvisited : floppy.collectVisited 2 = [2] := by
    rw [FatVolume.collectVisited, show backupMaxClusters = 1048574 + 1 + 1 from rfl, chainWalk,
      chainWalk, hnext, if_pos ⟨le_rfl, Nat.le_add_left _ _⟩, if_neg (by decide), if_neg fun h => absurd h.1 (by decide)]
  rw [FatVolume.collectClusters, hvisited]
  rfl

theorem floppyRun_entries (coded : Bool) :
    backupEntries (floppyRun coded).liveFs = some [rootEntry, floppyEntry] := by
  have hwalk : (floppyRun coded).liveFs.walk false backupMaxDepth [] rootPath 0 =
      some [([slash, 97], floppyFile)] := by
    rw [show backupMaxDepth = 255 + 1 from rfl, LiveFs.walk_succ (l := [floppyFile]) rfl]
    rfl
  have hview : (floppyType coded).collectFsType.bind (floppyRun coded).view = some floppy.view := by
    cases coded <;> rfl
  have hcollect : floppy.view.collect floppyFile.stIno = some [9728] := congrArg some floppy_collectClusters
  obtain ⟨hok, hno, hlist⟩ := collectClustersFs_of_some hview hcollect
  have hentry : backupEntry (floppyRun coded).liveFs [slash, 97] floppyFile = floppyEntry := by
    have hcollected : (floppyRun coded).liveFs.collect floppyFile =
        collectClustersFs (floppyType coded) (floppyRun coded).view floppyFile := rfl
    rw [backupEntry, if_neg (by decide), hcollected]
    simp only [hok, hno, hlist]
    rfl
  rw [backupEntries]
  show Option.map _ ((floppyRun coded).liveFs.walk false backupMaxDepth [] rootPath 0) = _
  rw [hwalk, Option.map_some, map_singleton, hentry]

/-- The header that is read of it. -/
def floppyRead (coded : Bool) : BackupHeader := { (floppyRun coded).env.header 2 with model := [] }

theorem floppyRun_reads (coded : Bool) :
    ∃ file, (floppyRun coded).Reads file (floppyRead coded) [rootEntry, floppyEntry] := by
  refine ⟨_, (BackupRun.reads_iff (floppyRun_entries coded)).mpr ⟨by decide, rfl, rfl, ?_⟩⟩
  show _ = [rootEntry.asRead, floppyEntry.asRead]
  rfl

/-- With a type code the file is restored. -/
theorem codedFloppy_restored :
    (floppyRun true).Restored (floppyVolume true) (floppyRead true) floppyEntry := by
  obtain ⟨file, hreads⟩ := floppyRun_reads true
  refine (restored_iff hreads (by simp) rfl).mpr
    ⟨fun _ => by decide, fun _ _ _ => .inl ?_, fun h => by cases h⟩
  show 512 ≤ 65536
  decide

/-- Without, the header has no cluster size, and the start of the partition is restored. -/
theorem detectedFloppy_not_restored :
    (∃ file, (floppyRun false).Reads file (floppyRead false) [rootEntry, floppyEntry]) ∧
      (floppyRead false).clusterBytes = 0 ∧
      (∀ d : Disk, d.sectorSize = 512 → d.Readable →
        (floppyVolume false).restore d (floppyRun false).partition (pathTokens floppyEntry.path)
          (builtNode 512 0 .deleted floppyEntry) = ((range 512).map d.content, true)) ∧
      ¬ (floppyRun false).Restored (floppyVolume false) (floppyRead false) floppyEntry := by
  have hzero : (floppyRead false).clusterBytes = 0 := rfl
  refine ⟨floppyRun_reads false, hzero, fun d hs hd => ?_, fun h => ?_⟩
  · have hinit : (floppyType false).initFsForRestore (· == .fat) = some .fat := rfl
    have hraw : (builtNode 512 0 .deleted floppyEntry).raw := by decide
    have hlist : ¬ (builtNode 512 0 .deleted floppyEntry).clustered := by decide
    have hbytes : sectorBytes d.sectorSize (builtNode 512 0 .deleted floppyEntry) = 512 := by
      rw [hs]
      rfl
    rw [RestoreVolume.restore_raw hinit hraw, restoreOrphan, if_neg hlist, hbytes, readBlocks_readable hd]
    have hstart : UInt64.ofNat (floppyRun false).partition.partOffset +
        (builtNode 512 0 .deleted floppyEntry).firstSector = 0 := rfl
    have hcontent : ((range 512).map fun i => d.content (blockPos 0 i)) = (range 512).map d.content := by
      refine map_congr_left fun i hi => ?_
      have hi : i < blockSize := (mem_range.mp hi).trans (by decide)
      rw [blockPos_of_lt _ hi]
      exact congrArg d.content (Nat.zero_add i)
    rw [hstart, hcontent]
    simp [RestoreVolume.outcome]
  · obtain ⟨v, -, hsize, hpos⟩ := h.header (by decide)
    rw [← hsize, hzero] at hpos
    exact absurd hpos (by decide)

end RecoveryQt
