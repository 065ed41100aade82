import RecoveryQt.Scan.Model

/-!
# What the tree keeps of the items of a scan

* `FileData`: size, first sector, time and clusters; `ScanTree.NoLoss`: the tree has the data of
  each item, and no node has the data of two;
* `ScanTree.ClearRun`: no item comes to a node with other data;
* `count_scan`: the nodes with data are counted by the items that come to new paths;
* **`scan_noLoss_iff`**: when nothing is lost.
-/

namespace RecoveryQt

open List

/-- What a node says about the data of its file. -/
structure FileData where
  size : UInt64
  firstSector : UInt64
  mtime : UInt64
  clusters : Clusters
  deriving DecidableEq

/-- The data of a node. -/
def NodeInfo.fileData (x : NodeInfo) : FileData := ⟨x.size, x.firstSector, x.mtime, x.clusters⟩

/-- The data of the nodes. -/
def ScanTree.fileData (t : ScanTree) : List FileData := t.nodes.map NodeInfo.fileData

/-- The clusters of the item itself. -/
def ScanItem.clusters (env : ScanEnv) (item : ScanItem) : Clusters :=
  match item.kind with
  | .mft data => (data.fill env.clusterSize item.args.size).getD Clusters.none
  | .entry | .inode _ | .carved => Clusters.none

/-- The data of an item. -/
def ScanItem.fileData (env : ScanEnv) (item : ScanItem) : FileData :=
  ⟨item.args.size, item.args.firstSector, item.args.mtime, item.clusters env⟩

/-- The node at the path of the item, if there is one, has its data already. -/
def ScanItem.Clear (env : ScanEnv) (t : ScanTree) (item : ScanItem) : Prop :=
  ∀ x, t.findPath item.path = some x → x.fileData = item.fileData env

/-- Each item is clear when its turn comes. -/
def ScanTree.ClearRun (env : ScanEnv) : ScanTree → List ScanItem → Prop
  | _, [] => True
  | t, item :: items => item.Clear env t ∧ (t.scanItem env item).ClearRun env items

/-- **Nothing is lost**: each item has a node with its data, and each node has the data of one item,
of a node that was there, or none. -/
def ScanTree.NoLoss (env : ScanEnv) (t : ScanTree) (items : List ScanItem) : Prop :=
  (∀ item ∈ items, item.fileData env ∈ (t.scan env items).fileData) ∧
    ∀ d ∈ (t.scan env items).fileData,
      d = dirInfo.fileData ∨ d ∈ t.fileData ∨ ∃ item ∈ items, d = item.fileData env

/-! ## Clear items -/

section Clear

variable {env : ScanEnv} {t : ScanTree} {item : ScanItem}

theorem newNode_fileData : (item.newNode env).fileData = item.fileData env := by
  obtain ⟨path, args, kind⟩ := item
  cases kind <;> rfl

theorem follow_fileData {x : NodeInfo} (h : x.fileData = item.fileData env) :
    (item.follow env x).fileData = item.fileData env := by
  obtain ⟨path, args, kind⟩ := item
  cases kind with
  | entry => exact h
  | inode b => exact h
  | carved => exact h
  | mft data =>
    obtain ⟨hsize, hsector, hmtime, hclusters⟩ := FileData.mk.inj h
    have hfill : (data.fill env.clusterSize x.size).getD x.clusters =
        (data.fill env.clusterSize args.size).getD Clusters.none := by
      rw [hsize, hclusters]
      show (data.fill env.clusterSize args.size).getD
        ((data.fill env.clusterSize args.size).getD Clusters.none) = _
      cases data.fill env.clusterSize args.size <;> rfl
    exact FileData.mk.injEq _ _ _ _ _ _ _ _ ▸ ⟨hsize, hsector, hmtime, hfill⟩

theorem readd_fileData {x : NodeInfo} (h : x.fileData = item.fileData env) :
    (x.readd item.args).fileData = item.fileData env := by
  obtain ⟨hsize, hsector, hmtime, hclusters⟩ := FileData.mk.inj h
  unfold NodeInfo.readd
  split_ifs
  · exact h
  · exact FileData.mk.injEq _ _ _ _ _ _ _ _ ▸ ⟨rfl, rfl, rfl, hclusters⟩
  · exact h

/-- **A clear item** adds its data, and nothing is lost. -/
theorem ScanItem.Clear.fileData_scanItem (h : item.Clear env t) :
    item.fileData env ∈ (t.scanItem env item).fileData ∧
      (∀ d ∈ t.fileData, d ∈ (t.scanItem env item).fileData) ∧
      ∀ d ∈ (t.scanItem env item).fileData,
        d = dirInfo.fileData ∨ d ∈ t.fileData ∨ d = item.fileData env := by
  unfold ScanTree.fileData
  cases hfind : t.findPath item.path with
  | none =>
    obtain ⟨l, r, k, hl, hscan⟩ := nodes_scanItem_new env hfind
    rw [hl, hscan]
    simp only [map_append, map_replicate, map_cons, newNode_fileData, mem_append, mem_cons,
      mem_replicate]
    tauto
  | some x =>
    obtain ⟨l, r, y, hl, hscan, hy⟩ := nodes_scanItem_found env hfind
    have hx : x.fileData = item.fileData env := h x hfind
    have hsame : y.fileData = item.fileData env := by
      rw [hy]
      split_ifs
      · exact follow_fileData hx
      · exact follow_fileData (readd_fileData hx)
    rw [hl, hscan]
    simp only [map_append, map_cons, hx, hsame, mem_append, mem_cons]
    tauto

end Clear

/-- A clear run keeps the data of the tree. -/
theorem ScanTree.ClearRun.keeps {env : ScanEnv} {t : ScanTree} {items : List ScanItem}
    (h : t.ClearRun env items) {d : FileData} (hd : d ∈ t.fileData) :
    d ∈ (t.scan env items).fileData := by
  induction items generalizing t with
  | nil => exact hd
  | cons item items ih => exact ih h.2 (h.1.fileData_scanItem.2.1 d hd)

/-- **A clear run** loses nothing. -/
theorem ScanTree.ClearRun.noLoss {env : ScanEnv} {t : ScanTree} {items : List ScanItem}
    (h : t.ClearRun env items) : t.NoLoss env items := by
  induction items generalizing t with
  | nil => exact ⟨fun item hitem => absurd hitem not_mem_nil, fun d hd => .inr (.inl hd)⟩
  | cons item items ih =>
    obtain ⟨hclear, hrun⟩ := h
    obtain ⟨hself, -, honly⟩ := hclear.fileData_scanItem
    obtain ⟨hall, hnodes⟩ := ih hrun
    constructor
    · intro i hi
      rcases mem_cons.mp hi with rfl | hi
      · exact hrun.keeps hself
      · exact hall i hi
    · intro d hd
      rcases hnodes d hd with hdir | hold | ⟨i, hi, rfl⟩
      · exact .inl hdir
      · rcases honly d hold with hdir | hold | rfl
        · exact .inl hdir
        · exact .inr (.inl hold)
        · exact .inr (.inr ⟨item, mem_cons_self, rfl⟩)
      · exact .inr (.inr ⟨i, mem_cons_of_mem _ hi, rfl⟩)

/-! ## Items that differ -/

/-- The data without its clusters. -/
abbrev Entry := UInt64 × UInt64 × UInt64

def FileData.entry (d : FileData) : Entry := (d.size, d.firstSector, d.mtime)

/-- The number of nodes with data. -/
def ScanTree.count (t : ScanTree) : ℕ := t.fileData.countP fun d => d.entry ≠ (0, 0, 0)

/-- The files have data. -/
def ScanTree.FilesHaveData (t : ScanTree) : Prop :=
  ∀ x ∈ t.nodes, x.isDir = false → x.fileData.entry ≠ (0, 0, 0)

section Count

variable {env : ScanEnv} {t : ScanTree} {item : ScanItem}

variable (env item) in
theorem follow_entry (x : NodeInfo) : (item.follow env x).fileData.entry = x.fileData.entry ∧
    (item.follow env x).isDir = x.isDir := by
  obtain ⟨path, args, kind⟩ := item
  cases kind <;> exact ⟨rfl, rfl⟩

/-- A node that an item comes to has data before and after. -/
theorem foundNode_entry {x : NodeInfo} (hitem : (item.fileData env).entry ≠ (0, 0, 0))
    (hx : x.isDir = false → x.fileData.entry ≠ (0, 0, 0)) :
    ((item.foundNode env x).fileData.entry ≠ (0, 0, 0) ↔ x.fileData.entry ≠ (0, 0, 0)) ∧
      (item.foundNode env x).isDir = x.isDir := by
  obtain ⟨hentry, hdir⟩ := follow_entry env item (x.readd item.args)
  rw [ScanItem.foundNode, hentry, hdir, NodeInfo.readd_isDir]
  refine ⟨?_, rfl⟩
  unfold NodeInfo.readd
  split_ifs with h hisDir
  · exact Iff.rfl
  · exact iff_of_true hitem (hx (by simpa using hisDir))
  · exact Iff.rfl

variable (env) in
/-- **One item** adds a node with data when it comes to a new path, and none else. -/
theorem count_scanItem (hitem : (item.fileData env).entry ≠ (0, 0, 0)) (ht : t.FilesHaveData) :
    (t.scanItem env item).FilesHaveData ∧ (t.scanItem env item).count =
      t.count + if t.findPath item.path = none then 1 else 0 := by
  unfold ScanTree.count ScanTree.FilesHaveData ScanTree.fileData
  unfold ScanTree.FilesHaveData at ht
  cases hfind : t.findPath item.path with
  | none =>
    obtain ⟨l, r, k, hl, hscan⟩ := nodes_scanItem_new env hfind
    rw [hl] at ht
    rw [hl, hscan]
    constructor
    · intro x hx hdir
      simp only [mem_append, mem_cons, mem_replicate] at hx
      rcases hx with hx | ⟨-, rfl⟩ | rfl | hx
      · exact ht x (mem_append_left r hx) hdir
      · cases hdir
      · rw [newNode_fileData]
        exact hitem
      · exact ht x (mem_append_right l hx) hdir
    · have hdir : dirInfo.fileData.entry = (0, 0, 0) := rfl
      simp only [map_append, map_replicate, map_cons, countP_append, countP_replicate, countP_cons,
        newNode_fileData, hdir]
      simp [hitem]
      omega
  | some x =>
    obtain ⟨l, r, y, hl, hscan, hy⟩ := nodes_scanItem_found env hfind
    rw [hl] at ht
    have hx := ht x (mem_append_right l mem_cons_self)
    have hsame : (y.fileData.entry ≠ (0, 0, 0) ↔ x.fileData.entry ≠ (0, 0, 0)) ∧
        y.isDir = x.isDir := by
      rw [hy]
      split_ifs
      · rw [(follow_entry env item x).1, (follow_entry env item x).2]
        exact ⟨Iff.rfl, rfl⟩
      · exact foundNode_entry hitem hx
    rw [hl, hscan]
    constructor
    · intro z hz hdir
      rcases mem_append.mp hz with hz | hz
      · exact ht z (mem_append_left _ hz) hdir
      · rcases mem_cons.mp hz with rfl | hz
        · exact hsame.1.mpr (hx (hsame.2 ▸ hdir))
        · exact ht z (mem_append_right l (mem_cons_of_mem x hz)) hdir
    · simp only [map_append, map_cons, countP_append, countP_cons, decide_eq_true_eq, hsame.1]
      simp

/-- **The nodes with data of a run** are at most as many as its items, and fewer when an item does
not come to a new path. -/
theorem count_scan {items : List ScanItem} (hitems : ∀ i ∈ items, (i.fileData env).entry ≠ (0, 0, 0))
    (ht : t.FilesHaveData) : (t.scan env items).count ≤ t.count + items.length ∧
      (t.count + items.length ≤ (t.scan env items).count → t.ClearRun env items) := by
  induction items generalizing t with
  | nil => exact ⟨le_rfl, fun _ => trivial⟩
  | cons item items ih =>
    obtain ⟨hfiles, hcount⟩ := count_scanItem env (hitems item mem_cons_self) ht
    obtain ⟨hle, hrun⟩ := ih (fun i hi => hitems i (mem_cons_of_mem item hi)) hfiles
    rw [ScanTree.scan, foldl_cons, length_cons]
    rw [ScanTree.scan] at hle hrun
    split_ifs at hcount with hnew
    · refine ⟨by omega, fun h => ⟨fun x hx => ?_, hrun (by omega)⟩⟩
      rw [hnew] at hx
      cases hx
    · exact ⟨by omega, fun h => by omega⟩

end Count

/-- Items with different data are all there only if no two met. -/
theorem clearRun_of_noLoss {env : ScanEnv} {items : List ScanItem}
    (hdistinct : (items.map fun i => (i.fileData env).entry).Nodup)
    (hitems : ∀ i ∈ items, (i.fileData env).entry ≠ (0, 0, 0))
    (h : treeNew.NoLoss env items) : treeNew.ClearRun env items := by
  have hfiles : treeNew.FilesHaveData := by
    intro x hx hdir
    obtain rfl := mem_singleton.mp hx
    cases hdir
  have hempty : treeNew.count = 0 := rfl
  obtain ⟨-, hrun⟩ := count_scan hitems hfiles
  refine hrun ?_
  rw [hempty, Nat.zero_add]
  have hsubset : (items.map fun i => (i.fileData env).entry) ⊆
      ((treeNew.scan env items).fileData.map FileData.entry).filter (· ≠ (0, 0, 0)) := by
    intro e he
    obtain ⟨i, hi, rfl⟩ := mem_map.mp he
    exact mem_filter.mpr ⟨mem_map_of_mem (h.1 i hi), by simpa using hitems i hi⟩
  have hlen := (subperm_of_subset hdistinct hsubset).length_le
  rwa [length_map, ← countP_eq_length_filter, countP_map] at hlen

/-- **Nothing is lost** when every item comes to a new path, or to a node that has its data already;
and among items with different data only then. -/
theorem scan_noLoss_iff (env : ScanEnv) :
    (∀ (t : ScanTree) (items : List ScanItem), t.ClearRun env items → t.NoLoss env items) ∧
      ∀ items : List ScanItem, (items.map fun i => (i.fileData env).entry).Nodup →
        (∀ i ∈ items, (i.fileData env).entry ≠ (0, 0, 0)) →
          (treeNew.NoLoss env items ↔ treeNew.ClearRun env items) := by
  constructor
  · intro t items h
    exact h.noLoss
  · intro items hdistinct hitems
    exact ⟨clearRun_of_noLoss hdistinct hitems, ScanTree.ClearRun.noLoss⟩

/-! ## A live and a deleted entry -/

/-- A volume without types to detect. -/
def plainEnv : ScanEnv := ⟨4096, 1024, fun _ _ => none⟩

/-- A live file `/a`. -/
def liveEntry : ScanItem := ⟨[47, 97], ⟨false, 100, 5, 1, 7, 512, false⟩, .entry⟩

/-- A deleted file at a path. -/
def deletedEntry (path : List UInt8) : ScanItem := ⟨path, ⟨false, 30, 6, 1, 8, 512, true⟩, .entry⟩

/-- A record of the MFT named `/b`, with its data in the cluster at `lcn`. -/
def mftRecord (size inode : UInt64) (lcn : ℕ) : ScanItem :=
  ⟨[47, 98], ⟨false, size, inode, 1, 8, 512, true⟩,
    .mft (.nonResident size.toNat (some ⟨[(.at lcn, 1)], by simp, by simp⟩))⟩

/-- A deleted entry with the name of a live file replaces its data, and of two records with one name
the clusters of the second come to the node of the first. -/
theorem equal_names_lose_data :
    ¬ treeNew.NoLoss plainEnv [liveEntry, deletedEntry [47, 97]] ∧
      ¬ treeNew.NoLoss plainEnv [mftRecord 30 6 9, mftRecord 40 7 12] ∧
      ∃ d ∈ (treeNew.scan plainEnv [mftRecord 30 6 9, mftRecord 40 7 12]).fileData,
        d.size = 30 ∧ d.clusters.list = [lcnPosition 4096 12] := by
  refine ⟨?_, ?_, ?_⟩
  · intro h
    exact absurd (h.1 liveEntry mem_cons_self) (by decide)
  · intro h
    exact absurd (h.1 (mftRecord 30 6 9) mem_cons_self) (by decide)
  · decide

/-- Under names of their own nothing is lost. -/
theorem distinct_names_keep_data :
    treeNew.NoLoss plainEnv [liveEntry, deletedEntry [47, 99], mftRecord 30 7 9] := by
  apply ((scan_noLoss_iff plainEnv).2 _ (by decide) ?_).mpr
  · have hfirst : treeNew.findPath liveEntry.path = none := by decide
    have hsecond : (treeNew.scanItem plainEnv liveEntry).findPath (deletedEntry [47, 99]).path =
        none := by decide
    have hthird : ((treeNew.scanItem plainEnv liveEntry).scanItem plainEnv
        (deletedEntry [47, 99])).findPath (mftRecord 30 7 9).path = none := by decide
    refine ⟨fun x hx => ?_, fun x hx => ?_, fun x hx => ?_, trivial⟩
    · rw [hfirst] at hx
      cases hx
    · rw [hsecond] at hx
      cases hx
    · rw [hthird] at hx
      cases hx
  · intro i hi
    simp only [mem_cons, not_mem_nil, or_false] at hi
    rcases hi with rfl | rfl | rfl <;> decide

end RecoveryQt
