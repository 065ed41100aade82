import RecoveryQt.Backup.RoundTrip
import RecoveryQt.Backup.Truncated
import RecoveryQt.Backup.Views
import RecoveryQt.Drivers

/-!
# The clusters that a backup records

`backup_init_fs` opens a driver, `collect_clusters_fs` collects the clusters of a file with the code
of one filesystem, and `backup_create` takes the cluster size for the header from one. Each of the
three looks at the type codes of the partition.

* `PartitionType.collectFsType`, `collectClustersFs`, `headerGeometry`: the dispatches;
* `BackupVolume`: a volume that `backup_init_fs` opens;
* **`BackupVolume.headerGeometry_fst`**: when the header has the cluster size of the lists;
* `BackupRun`: a backup of such a volume; **`BackupRun.collect_of_clusters`**: the clusters that are read
  of its file were collected by the driver that is open.
-/

namespace RecoveryQt

open List

/-! ## The type codes -/

/-- `fs_type` of `collect_clusters_fs`. -/
def PartitionType.collectFsType (p : PartitionType) : Option FsDriver :=
  if p.isPartFat then some .fat
  else if p.upartType.driver? = some .fat then some .fat
  else if p.isPartNtfs || p.upartType == .ntfs then some .ntfs
  else if p.upartType == .exfat then some .exfat
  else if p.upartType.driver? = some .ext2 then some .ext2
  else none

section Dispatch

variable (p : PartitionType) (view : FsDriver → Option FsView)

/-- `collect_clusters_fs`. `view` is what the code of each filesystem finds in the private data of the
driver that is open, if anything. -/
def collectClustersFs (fi : FileInfo) : Collected :=
  match p.collectFsType.bind view with
  | none => ⟨false, true, [], Clusters.none.length_lt⟩
  | some v =>
    match h : v.collect fi.stIno with
    | none => ⟨false, false, [], Clusters.none.length_lt⟩
    | some l => ⟨true, false, l, v.length_lt _ l h⟩

/-- One step of `backup_create` towards `cluster_bytes` and `data_offset`: the code of a filesystem is
asked while there is no cluster size. -/
def headerStep (g : UInt32 × UInt64) (asked : Bool) (d : FsDriver) : UInt32 × UInt64 :=
  if g.1 = 0 ∧ asked = true then (view d).elim g fun v => (v.clusterSize, v.dataOffset) else g

/-- `cluster_bytes` and `data_offset` in `backup_create`. FAT is asked by `is_part_fat` alone. -/
def headerGeometry : UInt32 × UInt64 :=
  let g := headerStep view (0, 0) p.isPartFat .fat
  let g := headerStep view g (p.isPartNtfs || p.upartType == .ntfs) .ntfs
  let g := headerStep view g (p.upartType == .exfat) .exfat
  headerStep view g (p.upartType.driver? == some .ext2) .ext2

end Dispatch

/-- A volume that `backup_init_fs` opens with a driver. libntfs opens no volume that has FATs, so the
private data is not read by the code of another filesystem. -/
structure BackupVolume where
  type : PartitionType
  opens : FsDriver → Bool
  driver : FsDriver
  view : FsDriver → Option FsView
  opened : type.backupInitFs opens = some driver
  fat_or_ntfs : type.upartType.driver? = some .fat → opens .ntfs = false

namespace BackupVolume

variable (b : BackupVolume)

/-- The type code is one of FAT in `partition_t` only by what was detected. -/
def FatByDetection : Prop := b.type.upartType.driver? = some .fat ∧ b.type.isPartFat = false

instance : Decidable b.FatByDetection := inferInstanceAs (Decidable (_ ∧ _))

theorem eq_exfat_iff {u : UpartType} : u = .exfat ↔ u.driver? = some .exfat := by
  cases u <;> decide

/-- **The driver that is open**, by the type codes. -/
theorem driver_cases :
    b.type.isPartFat = true ∧ b.driver = .fat ∨
      b.type.isPartFat = false ∧ (b.type.isPartNtfs = true ∨ b.type.upartType.driver? = some .ntfs) ∧
        b.driver = .ntfs ∧ b.type.upartType.driver? ≠ some .fat ∨
      b.type.isPartFat = false ∧ b.type.isPartNtfs = false ∧
        b.type.upartType.driver? = some b.driver ∧ b.driver ≠ .ntfs := by
  have hone : ∀ d d', [d].find? b.opens = some d' → d' = d ∧ b.opens d = true := by
    intro d d' h
    rw [find?_singleton] at h
    split_ifs at h with hd
    exact ⟨(Option.some.inj h).symm, hd⟩
  have hopened := b.opened
  unfold PartitionType.backupInitFs PartitionType.isNtfsType at hopened
  simp only [Bool.or_eq_true, beq_iff_eq, PartitionType.eq_ntfs_iff] at hopened
  by_cases hfat : b.type.isPartFat = true
  · rw [if_pos hfat] at hopened
    exact .inl ⟨hfat, (hone _ _ hopened).1⟩
  · have hfat' : b.type.isPartFat = false := Bool.eq_false_iff.mpr hfat
    rw [if_neg hfat] at hopened
    by_cases hntfs : b.type.upartType.driver? = some .ntfs ∨ b.type.isPartNtfs = true
    · rw [if_pos hntfs] at hopened
      obtain ⟨hdriver, hopens⟩ := hone _ _ hopened
      refine .inr (.inl ⟨hfat', hntfs.symm, hdriver, fun h => ?_⟩)
      rw [b.fat_or_ntfs h] at hopens
      cases hopens
    · rw [if_neg hntfs] at hopened
      obtain ⟨hupart, hcode⟩ := not_or.mp hntfs
      refine .inr (.inr ⟨hfat', Bool.eq_false_iff.mpr hcode, ?_⟩)
      cases hd : b.type.upartType.driver? with
      | none => rw [hd] at hopened; cases hopened
      | some d =>
        rw [hd] at hopened hupart
        have hdriver : b.driver = d := by
          cases d with
          | iso => cases hopened
          | fat | ntfs | exfat | ext2 | reiser => exact (hone _ _ hopened).1
        rw [hdriver]
        exact ⟨rfl, fun h => hupart (by rw [h])⟩

/-- **The clusters are collected by the code of the driver that is open.** -/
theorem collectFsType_eq {d : FsDriver} (h : b.type.collectFsType = some d) : d = b.driver := by
  unfold PartitionType.collectFsType at h
  simp only [Bool.or_eq_true, beq_iff_eq, PartitionType.eq_ntfs_iff, eq_exfat_iff] at h
  rcases b.driver_cases with ⟨hfat, hd⟩ | ⟨hfat, hntfs, hd, hne⟩ | ⟨hfat, hcode, hupart, hne⟩
  · rw [if_pos hfat] at h
    rw [hd, Option.some.inj h]
  · rw [if_neg (by rw [hfat]; exact Bool.false_ne_true), if_neg hne, if_pos hntfs] at h
    rw [hd, Option.some.inj h]
  · rw [hfat, hcode, hupart] at h
    revert h hne
    cases b.driver <;> cases d <;> simp

theorem headerStep_asked {view : FsDriver → Option FsView} {d : FsDriver} {v : FsView}
    (hv : view d = some v) (o : UInt64) :
    headerStep view (0, o) true d = (v.clusterSize, v.dataOffset) := by
  rw [headerStep, if_pos ⟨rfl, rfl⟩, hv]
  rfl

theorem headerStep_false {view : FsDriver → Option FsView} (g : UInt32 × UInt64) (d : FsDriver) :
    headerStep view g false d = g := if_neg fun h => Bool.false_ne_true h.2

/-- **The header has the cluster size of the lists** unless FAT was only detected; then it has none. -/
theorem headerGeometry_fst {v : FsView} (hv : b.type.collectFsType.bind b.view = some v) :
    (headerGeometry b.type b.view).1 = if b.FatByDetection then 0 else v.clusterSize := by
  have hv0 : v.clusterSize ≠ 0 := fun h => by
    have hpos := v.clusterSize_pos
    rw [h] at hpos
    exact absurd hpos (by decide)
  have hkeep : ∀ asked d, headerStep b.view (v.clusterSize, v.dataOffset) asked d =
      (v.clusterSize, v.dataOffset) := fun _ _ => if_neg fun h => hv0 h.1
  obtain ⟨d, hd, hview⟩ := Option.bind_eq_some_iff.mp hv
  obtain rfl := b.collectFsType_eq hd
  have hntfs : (b.type.upartType == .ntfs) = decide (b.type.upartType.driver? = some .ntfs) := by
    rw [Bool.eq_iff_iff, beq_iff_eq, decide_eq_true_eq, PartitionType.eq_ntfs_iff]
  have hexfat : (b.type.upartType == .exfat) = decide (b.type.upartType.driver? = some .exfat) := by
    rw [Bool.eq_iff_iff, beq_iff_eq, decide_eq_true_eq, eq_exfat_iff]
  rcases b.driver_cases with ⟨hfat, hdriver⟩ | ⟨hfat, hcode, hdriver, hne⟩ | ⟨hfat, hcode, hupart, hne⟩
  · have hnot : ¬ b.FatByDetection := fun h => Bool.noConfusion (hfat.symm.trans h.2)
    rw [hdriver] at hview
    rw [if_neg hnot, headerGeometry, hfat, headerStep_asked hview, hkeep, hkeep, hkeep]
  · have hasked : (b.type.isPartNtfs || decide (b.type.upartType.driver? = some .ntfs)) = true := by
      rwa [Bool.or_eq_true, decide_eq_true_eq]
    rw [hdriver] at hview
    rw [if_neg fun h => hne h.1, headerGeometry, hntfs, hfat, headerStep_false, hasked,
      headerStep_asked hview, hkeep, hkeep]
  · -- what was detected decides
    have hdet : b.FatByDetection ↔ b.driver = .fat := by
      rw [FatByDetection, hupart, hfat, Option.some_inj]
      exact and_iff_left rfl
    rw [PartitionType.collectFsType, hntfs, hexfat, hfat, hcode, hupart] at hd
    rw [headerGeometry, hntfs, hexfat, hfat, hcode, hupart, if_congr hdet rfl rfl]
    revert hd hview hne
    cases b.driver with
    | fat => exact fun _ _ _ => rfl
    | ntfs => exact fun _ _ hne => absurd rfl hne
    | exfat =>
      intro _ hview _
      show (headerStep _ (headerStep _ (0, 0) true .exfat) false .ext2).1 = _
      rw [headerStep_asked hview, hkeep]
      rfl
    | ext2 =>
      intro _ hview _
      show (headerStep _ (0, 0) true .ext2).1 = _
      rw [headerStep_asked hview]
      rfl
    | reiser => simp
    | iso => simp

end BackupVolume

/-! ## The entries of a backup -/

/-- The clusters that `collect_clusters_fs` returns come from the code of the driver it takes. -/
theorem collectClustersFs_list {p : PartitionType} {view : FsDriver → Option FsView} {fi : FileInfo}
    (h : (collectClustersFs p view fi).list ≠ []) : ∃ v, p.collectFsType.bind view = some v ∧
      v.collect fi.stIno = some (collectClustersFs p view fi).list := by
  revert h
  unfold collectClustersFs
  split
  · exact fun h => absurd rfl h
  · rename_i v hv
    split
    · exact fun h => absurd rfl h
    · rename_i l hl
      exact fun _ => ⟨v, hv, hl⟩

theorem collectClustersFs_of_some {p : PartitionType} {view : FsDriver → Option FsView} {fi : FileInfo}
    {v : FsView} (hv : p.collectFsType.bind view = some v) {l : List UInt64}
    (hl : v.collect fi.stIno = some l) : (collectClustersFs p view fi).ok = true ∧
      (collectClustersFs p view fi).noClusters = false ∧ (collectClustersFs p view fi).list = l := by
  unfold collectClustersFs
  split
  · rename_i hnone
    rw [hnone] at hv
    cases hv
  · rename_i v' hv'
    obtain rfl := Option.some.inj (hv.symm.trans hv')
    split
    · rename_i hnone
      rw [hnone] at hl
      cases hl
    · rename_i l' hl'
      exact ⟨rfl, rfl, Option.some.inj (hl'.symm.trans hl)⟩

/-- A backup of a volume: its disk and partition, and what the driver lists. -/
structure BackupRun extends BackupVolume where
  disk : Disk
  partition : Partition
  created : UInt64
  model : List UInt8
  currentInode : ℕ
  getDir : ℕ → Option (List FileInfo)
  typed : partition.upartType = type.upartType ∧ partition.partTypeI386 = type.partTypeI386

namespace BackupRun

variable (b : BackupRun)

def liveFs : LiveFs := ⟨b.currentInode, b.getDir, collectClustersFs b.type b.view⟩

def env : BackupEnv where
  disk := b.disk
  partition := b.partition
  clusterBytes := (headerGeometry b.type b.view).1
  dataOffset := (headerGeometry b.type b.view).2
  created := b.created
  model := b.model

/-- What is read of the file of a backup. -/
structure Reads (file : List UInt8) (h : BackupHeader) (es : List BackupEntry) : Prop where
  created : backupCreate b.env b.liveFs = some file
  read : readBackup file = some (h, es)

variable {b} {file : List UInt8} {h : BackupHeader} {es : List BackupEntry}

/-- What is read of the entries that were written. -/
theorem reads_iff {written : List BackupEntry} (hwritten : backupEntries b.liveFs = some written) :
    b.Reads file h es ↔ ¬ UInt32.ofNat written.length ≤ 1 ∧
      file = writeBackupHeader (b.env.header (UInt32.ofNat written.length)) ++
        written.flatMap writeBackupEntry ∧
      h = { b.env.header (UInt32.ofNat written.length) with model := b.model.take 255 } ∧
      es = (written.take (written.length % 2 ^ 32)).map BackupEntry.asRead := by
  have hread : ∀ n, n = UInt32.ofNat written.length →
      readBackup (writeBackupHeader (b.env.header n) ++ written.flatMap writeBackupEntry) =
        some ({ b.env.header n with model := b.model.take 255 },
          (written.take (written.length % 2 ^ 32)).map BackupEntry.asRead) := by
    rintro n rfl
    rw [readBackup, readBackupHeader_write, Option.map_some,
      ← readUpTo_entries (readBackupEntry_of_mem_backupEntries hwritten)]
    rfl
  have hcreated : backupCreate b.env b.liveFs = if UInt32.ofNat written.length ≤ 1 then none
      else some (writeBackupHeader (b.env.header (UInt32.ofNat written.length)) ++
        written.flatMap writeBackupEntry) := by
    rw [backupCreate, hwritten]
  constructor
  · rintro ⟨hfile, hentries⟩
    rw [hcreated] at hfile
    split_ifs at hfile with hfew
    obtain rfl := Option.some.inj hfile
    rw [hread _ rfl, Option.some_inj, Prod.mk.injEq] at hentries
    exact ⟨hfew, rfl, hentries.1.symm, hentries.2.symm⟩
  · rintro ⟨hfew, rfl, rfl, rfl⟩
    exact ⟨by rw [hcreated, if_neg hfew], hread _ rfl⟩

/-- The header and the entries that are read are those that were written. -/
theorem Reads.written (hreads : b.Reads file h es) : h.clusterBytes = b.env.clusterBytes ∧
    ∃ written, backupEntries b.liveFs = some written ∧ ∀ e ∈ es, ∃ e' ∈ written, e = e'.asRead := by
  cases hwritten : backupEntries b.liveFs with
  | none =>
    have hcreated := hreads.created
    rw [backupCreate, hwritten] at hcreated
    cases hcreated
  | some written =>
    obtain ⟨-, -, rfl, rfl⟩ := (reads_iff hwritten).mp hreads
    constructor
    · rfl
    · refine ⟨written, rfl, fun e he => ?_⟩
      obtain ⟨e', he', rfl⟩ := mem_map.mp he
      exact ⟨e', mem_of_mem_take he', rfl⟩

/-- **The clusters that are read of a file** were collected by the code of the driver that is open. -/
theorem Reads.collect_of_clusters (hreads : b.Reads file h es) {e : BackupEntry} (he : e ∈ es)
    (hne : e.clusters ≠ []) : e.noClusters = false ∧
      ∃ v ino, b.type.collectFsType.bind b.view = some v ∧ v.collect ino = some e.clusters := by
  obtain ⟨-, written, hwritten, hall⟩ := hreads.written
  obtain ⟨e', he', rfl⟩ := hall e he
  have hno : e'.noClusters = false := by
    by_contra hno
    exact hne (if_pos ((Bool.not_eq_false _).mp hno))
  have hclusters : e'.asRead.clusters = e'.clusters := if_neg (by simp [hno])
  rw [hclusters] at hne ⊢
  refine ⟨hno, ?_⟩
  obtain ⟨l, -, rfl⟩ := Option.map_eq_some_iff.mp hwritten
  rcases mem_cons.mp he' with rfl | he'
  · exact absurd rfl hne
  · obtain ⟨x, -, rfl⟩ := mem_map.mp he'
    revert hne
    unfold backupEntry
    dsimp only
    split_ifs
    · exact fun hne => absurd rfl hne
    · exact fun hne => absurd rfl hne
    · intro hne
      obtain ⟨v, hv, hcollect⟩ := collectClustersFs_list hne
      exact ⟨v, x.2.stIno, hv, hcollect⟩

end BackupRun

end RecoveryQt
