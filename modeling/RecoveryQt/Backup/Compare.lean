import RecoveryQt.Backup.Marks

/-!
# The comparison of two trees

A backup of one live tree is compared with another one, `before` and `after`.

* `restoredTree`: `backup_create` and then `backup_restore`;
* `LiveTree.readUpTo_entries`, `LiveTree.findLiveEntry_eq_some`: the entries read back, and the live
  entry found for a path;
* `entryMark_eq_deleted`, `entryMark_eq_modified`: the mark of an entry;
* **`restoredTree_marks`**: the marks, from the paths of both trees;
* `restoredTree_root`, `restoredTree_refused`: the root, and a disk taken for another one.
-/

namespace RecoveryQt

open List

/-- The scan tree after a backup of `before` is compared with `after`. Without a file there is
nothing to compare. -/
def restoredTree (env : BackupEnv) (before after : LiveFs) : ScanTree :=
  match backupCreate env before with
  | none => treeNew
  | some file => (backupRestore env after file treeNew).1

/-- The path is in `before` and not in `after`. -/
def Gone (before after : LiveTree) (p : List Name) : Prop :=
  ∃ x, before.tree.label? p = some x ∧ after.tree.label? p = none

/-- `backup_restore` takes the disk for another one. -/
def BackupEnv.Refused (env : BackupEnv) : Prop :=
  sizeMismatch (UInt64.ofNat env.disk.diskSize) (env.header 0)

instance (env : BackupEnv) : Decidable env.Refused := by unfold BackupEnv.Refused; infer_instance

/-- The number of entries that the walks list. -/
def LiveTree.count (t : LiveTree) : ℕ := (t.tree.paths backupMaxDepth).length

/-- `live_capacity` and `written_count` do not overflow. -/
def CountsFit (before after : LiveTree) : Prop :=
  after.count + (after.count / 2 + (before.count + 1) + 10000) < 2 ^ 32

theorem CountsFit.before_lt {before after : LiveTree} (h : CountsFit before after) :
    before.count + 1 < 2 ^ 32 := by
  unfold CountsFit at h
  omega

/-! ## The entries of a backup -/

/-- The entry that is written for a node. -/
def LiveTree.entry (t : LiveTree) (x : List Name × FileInfo) : BackupEntry :=
  backupEntry t.fs (renderPath x.1) x.2

/-- An entry as it is read back. -/
def BackupEntry.readBack (e : BackupEntry) : BackupEntry :=
  { e with clusters := if e.noClusters then [] else e.clusters }

/-- The size and time that are recorded of a file: none of a directory. -/
def FileInfo.recorded (x : FileInfo) : UInt64 × UInt64 :=
  if x.isDir then (0, 0) else (x.stSize, x.tdMtime)

/-- What is recorded of a file at a path. -/
theorem backupEntry_fields (fs : LiveFs) (path : List UInt8) (fi : FileInfo) :
    (backupEntry fs path fi).path = path ∧
      ((backupEntry fs path fi).fileSize, (backupEntry fs path fi).mtime) = fi.recorded ∧
      (backupEntry fs path fi).clusters.length < 2 ^ 32 := by
  unfold backupEntry FileInfo.recorded
  cases fi.isDir with
  | true => exact ⟨rfl, rfl, by simp⟩
  | false =>
    simp only [Bool.false_eq_true, if_false]
    split_ifs
    · exact ⟨rfl, rfl, by simp⟩
    · exact ⟨rfl, rfl, (fs.collect fi).length_lt⟩

section Read

variable {t : LiveTree} (ht : t.Fits) {x : List Name × FileInfo}

include ht in
/-- The entry of a node is read back. -/
theorem LiveTree.readBackupEntry_entry (hx : x ∈ t.tree.paths backupMaxDepth) (s : List UInt8) :
    readBackupEntry (writeBackupEntry (t.entry x) ++ s) = some ((t.entry x).readBack, s) := by
  obtain ⟨hpath, -, hclusters⟩ := backupEntry_fields t.fs (renderPath x.1) x.2
  refine readBackupEntry_write _ ?_ ?_ hclusters s
  · show (backupEntry t.fs (renderPath x.1) x.2).path.length < 4096
    rw [hpath]
    exact ht x.1 x.2 ((Forest.mem_paths t.distinct).mp hx).2
  · show ∀ b ∈ (backupEntry t.fs (renderPath x.1) x.2).path, b ≠ 0
    rw [hpath]
    exact fun b hb => renderPath_ne_zero hb

theorem readBackupEntry_root (s : List UInt8) :
    readBackupEntry (writeBackupEntry rootEntry ++ s) = some (rootEntry, s) :=
  readBackupEntry_write rootEntry (by decide) (by simp [rootEntry, rootPath, slash]) (by decide) s

include ht in
/-- The entries of a backup. -/
theorem LiveTree.backupEntries_eq : backupEntries t.fs =
    some (rootEntry :: (t.tree.paths backupMaxDepth).map t.entry) := by
  rw [backupEntries, t.walk_eq ht, Option.map_some, map_map]
  rfl

include ht in
/-- **The entries of a backup are read back.** -/
theorem LiveTree.readUpTo_entries :
    readUpTo readBackupEntry (t.count + 1)
      ((rootEntry :: (t.tree.paths backupMaxDepth).map t.entry).flatMap writeBackupEntry) =
      rootEntry :: (t.tree.paths backupMaxDepth).map fun x => (t.entry x).readBack := by
  have hread : readUpTo readBackupEntry
      (rootEntry :: (t.tree.paths backupMaxDepth).map t.entry).length
      ((rootEntry :: (t.tree.paths backupMaxDepth).map t.entry).flatMap writeBackupEntry ++ []) =
      (rootEntry :: (t.tree.paths backupMaxDepth).map t.entry).map BackupEntry.readBack :=
    readUpTo_flatMap (fun e he s => by
      rcases mem_cons.mp he with rfl | he
      · exact readBackupEntry_root s
      · obtain ⟨x, hx, rfl⟩ := mem_map.mp he
        exact t.readBackupEntry_entry ht hx s) []
  rw [append_nil, length_cons, length_map, map_cons, map_map] at hread
  exact hread

end Read

/-! ## The live entries -/

theorem renderPath_injective : Function.Injective renderPath :=
  Function.LeftInverse.injective pathTokens_renderPath

/-- The entries listed, sorted by their paths. -/
def LiveTree.sorted (t : LiveTree) : List (List UInt8 × FileInfo) :=
  sortBy Prod.fst ((t.tree.paths backupMaxDepth).map fun x => (renderPath x.1, x.2))

theorem LiveTree.sorted_sortedBy (t : LiveTree) : SortedBy Prod.fst t.sorted := by
  apply sortBy_sorted
  have h := (Forest.nodup_paths (d := backupMaxDepth) t.distinct).map renderPath_injective
  rw [map_map] at h ⊢
  exact h

/-- **The live entry of a path** is found down to the depth limit. -/
theorem LiveTree.findLiveEntry_eq_some (t : LiveTree) {p : List Name} {y : List UInt8 × FileInfo} :
    findLiveEntry t.sorted (renderPath p) = some y ↔
      p.length ≤ backupMaxDepth ∧ t.tree.label? p = some y.2 ∧ y.1 = renderPath p := by
  rw [findLiveEntry, search_eq_some_iff t.sorted_sortedBy, sorted, mem_sortBy, mem_map]
  constructor
  · rintro ⟨⟨⟨q, z⟩, hz, rfl⟩, hq⟩
    obtain rfl : q = p := renderPath_injective hq
    exact ⟨((Forest.mem_paths t.distinct).mp hz).1, ((Forest.mem_paths t.distinct).mp hz).2, rfl⟩
  · rintro ⟨hlen, hy, hpath⟩
    exact ⟨⟨(p, y.2), (Forest.mem_paths t.distinct).mpr ⟨hlen, hy⟩, Prod.ext hpath.symm rfl⟩, hpath⟩

theorem LiveTree.findLiveEntry_of_label (t : LiveTree) {p : List Name} {y : FileInfo}
    (hp : p.length ≤ backupMaxDepth) (hy : t.tree.label? p = some y) :
    findLiveEntry t.sorted (renderPath p) = some (renderPath p, y) :=
  t.findLiveEntry_eq_some.mpr ⟨hp, hy, rfl⟩

/-- The root is not a live entry. -/
theorem LiveTree.findLiveEntry_root (t : LiveTree) : findLiveEntry t.sorted rootPath = none := by
  rw [findLiveEntry, Option.eq_none_iff_forall_ne_some]
  intro y hy
  rw [search_eq_some_iff t.sorted_sortedBy, sorted, mem_sortBy, mem_map] at hy
  obtain ⟨⟨x, -, rfl⟩, hroot⟩ := hy
  exact renderPath_ne_rootPath hroot

section Marks

variable {before after : LiveTree} {x : List Name × FileInfo}

/-- The mark of an entry. -/
def entryMark (before after : LiveTree) (x : List Name × FileInfo) : BackupMark :=
  markOf (findLiveEntry after.sorted (before.entry x).readBack.path) (before.entry x).readBack

theorem LiveTree.readBack_path : (before.entry x).readBack.path = renderPath x.1 :=
  (backupEntry_fields before.fs (renderPath x.1) x.2).1

/-- An entry is deleted when nothing is listed at its path. -/
theorem entryMark_eq_deleted (hx : x.1.length ≤ backupMaxDepth) :
    entryMark before after x = .deleted ↔ after.tree.label? x.1 = none := by
  rw [entryMark, LiveTree.readBack_path]
  cases hfind : findLiveEntry after.sorted (renderPath x.1) with
  | none =>
    refine iff_of_true rfl (Option.eq_none_iff_forall_ne_some.mpr fun y hy => ?_)
    rw [after.findLiveEntry_of_label hx hy] at hfind
    cases hfind
  | some y =>
    have hy := (after.findLiveEntry_eq_some.mp hfind).2.1
    rw [hy, markOf]
    split_ifs <;> simp

/-- An entry is modified when what was recorded is not what is listed. -/
theorem entryMark_eq_modified (hx : x.1.length ≤ backupMaxDepth) :
    entryMark before after x = .modified ↔
      ∃ y, after.tree.label? x.1 = some y ∧ (y.stSize, y.tdMtime) ≠ x.2.recorded := by
  rw [entryMark, LiveTree.readBack_path]
  cases hfind : findLiveEntry after.sorted (renderPath x.1) with
  | none =>
    refine iff_of_false (fun h => by cases h) ?_
    rintro ⟨y, hy, -⟩
    rw [after.findLiveEntry_of_label hx hy] at hfind
    cases hfind
  | some y =>
    have hy := (after.findLiveEntry_eq_some.mp hfind).2.1
    have hrec : ((before.entry x).readBack.fileSize, (before.entry x).readBack.mtime) =
        x.2.recorded := (backupEntry_fields before.fs (renderPath x.1) x.2).2.1
    rw [hy, ← hrec, markOf]
    simp only [Option.some.injEq, exists_eq_left', ne_eq, Prod.mk.injEq, not_and_or]
    split_ifs with h <;> simp [h]

end Marks

/-! ## The comparison -/

/-- The sector size that nodes of a comparison get. -/
def BackupEnv.sectorSize (env : BackupEnv) : UInt32 := UInt32.ofNat env.disk.sectorSize

section Run

variable (env : BackupEnv) {before after : LiveTree} (hbefore : before.Fits) (hafter : after.Fits)
  (hcounts : CountsFit before after)

/-- The file written. -/
def backupFile (before : LiveTree) : List UInt8 :=
  writeBackupHeader (env.header (UInt32.ofNat (before.count + 1))) ++
    (rootEntry :: (before.tree.paths backupMaxDepth).map before.entry).flatMap writeBackupEntry

include hbefore in
/-- Nothing is written for an empty tree. -/
theorem backupCreate_eq (hcount : before.count + 1 < 2 ^ 32) :
    backupCreate env before.fs = if before.count = 0 then none else some (backupFile env before) := by
  have hlen : (rootEntry :: (before.tree.paths backupMaxDepth).map before.entry).length =
      before.count + 1 := by
    rw [length_cons, length_map]
    rfl
  have hone : UInt32.ofNat (before.count + 1) ≤ 1 ↔ before.count = 0 := by
    rw [UInt32.le_iff_toNat_le, UInt32.toNat_ofNat_of_lt' hcount]
    show before.count + 1 ≤ 1 ↔ _
    omega
  rw [backupCreate, before.backupEntries_eq hbefore]
  simp only [hlen, hone]
  rfl

include hbefore hafter hcounts in
/-- **A comparison marks the root and every entry.** -/
theorem backupRestore_eq (t : ScanTree) :
    backupRestore env after.fs (backupFile env before) t =
      if env.Refused then (t, false) else
        ((before.tree.paths backupMaxDepth).foldl (fun t x => restoreEntry env.sectorSize
          env.clusterBytes (entryMark before after x) t (before.entry x).readBack)
          (restoreEntry env.sectorSize env.clusterBytes .deleted t rootEntry), true) := by
  have hfits := hcounts
  unfold CountsFit at hfits
  have hcount : (UInt32.ofNat (before.count + 1)).toNat = before.count + 1 :=
    UInt32.toNat_ofNat_of_lt' (show before.count + 1 < 2 ^ 32 by omega)
  have hcap : ¬ (liveCapacity (UInt32.ofNat after.count)
      (UInt32.ofNat (before.count + 1))).toNat < after.count := by
    have htwo : (UInt32.ofNat after.count).toNat = after.count :=
      UInt32.toNat_ofNat_of_lt' (show after.count < 2 ^ 32 by omega)
    rw [liveCapacity, UInt32.toNat_add, UInt32.toNat_add, UInt32.toNat_add, UInt32.toNat_div, hcount,
      htwo]
    show ¬ (after.count + ((after.count / 2 + (before.count + 1)) % 2 ^ 32 + 10000) % 2 ^ 32) %
      2 ^ 32 < after.count
    omega
  rw [backupRestore, backupFile, readBackupHeader_write]
  simp only [after.walk_eq hafter, Option.elim_some, length_map]
  show (if env.Refused then _ else if (liveCapacity (UInt32.ofNat after.count)
    (UInt32.ofNat (before.count + 1))).toNat < after.count then _ else _) = _
  rw [if_neg hcap]
  split_ifs
  · rfl
  · show (foldl _ t (readUpTo readBackupEntry (UInt32.ofNat (before.count + 1)).toNat _), true) = _
    rw [hcount, before.readUpTo_entries hbefore, foldl_cons, foldl_map]
    show (foldl _ (restoreEntry _ _ (markOf (findLiveEntry after.sorted rootPath) rootEntry) _ _) _,
      true) = _
    rw [after.findLiveEntry_root]
    rfl

/-- The root entry adds no node, and the root gets no mark that is asked for. -/
theorem restoreEntry_rootEntry (sectorSize clusterBytes : UInt32) :
    (restoreEntry sectorSize clusterBytes .deleted treeNew rootEntry).top = .nil ∧
      (restoreEntry sectorSize clusterBytes .deleted treeNew rootEntry).root.deleted = false ∧
      (restoreEntry sectorSize clusterBytes .deleted treeNew rootEntry).root.backupModified = false := by
  have htokens : pathTokens rootEntry.path = [] := by decide
  rw [restoreEntry, if_neg (by decide), ScanTree.addPath, htokens]
  exact ⟨rfl, rfl, rfl⟩

theorem foldl_restoreEntry_root (sectorSize clusterBytes : UInt32) (l : List (List Name × FileInfo))
    (hl : ∀ x ∈ l, x.1 ≠ []) (t : ScanTree) :
    (l.foldl (fun t x => restoreEntry sectorSize clusterBytes (entryMark before after x) t
      (before.entry x).readBack) t).root = t.root := by
  induction l generalizing t with
  | nil => rfl
  | cons x l ih =>
    have hpath : pathTokens (before.entry x).readBack.path = x.1 := by
      rw [LiveTree.readBack_path, pathTokens_renderPath]
    rw [foldl_cons, ih fun y hy => hl y (mem_cons_of_mem x hy),
      restoreEntry_root sectorSize clusterBytes hpath (hl x mem_cons_self)]

/-- An empty scan tree marks nothing. -/
theorem ScanTree.not_deletedAt {t : ScanTree} (h : t.top = .nil) (p : List Name) : ¬ t.DeletedAt p := by
  rintro ⟨x, hx, -⟩
  rw [h, Forest.label?_nil] at hx
  cases hx

theorem ScanTree.not_modifiedAt {t : ScanTree} (h : t.top = .nil) (p : List Name) :
    ¬ t.ModifiedAt p := by
  rintro ⟨x, hx, -⟩
  rw [h, Forest.label?_nil] at hx
  cases hx

include hbefore hafter hcounts in
/-- **The marks of a comparison** that is not refused: every path down to the depth limit is
compared, with what was recorded of it. -/
theorem restoredTree_marks (haccept : ¬ env.Refused) (p : List Name) :
    ((restoredTree env before.fs after.fs).DeletedAt p ↔
      p.length ≤ backupMaxDepth ∧ Gone before after p) ∧
    ((restoredTree env before.fs after.fs).ModifiedAt p ↔
      p.length ≤ backupMaxDepth ∧ ∃ x y, before.tree.label? p = some x ∧
        after.tree.label? p = some y ∧ (y.stSize, y.tdMtime) ≠ x.recorded) := by
  have hmem : ∀ {x}, (p, x) ∈ before.tree.paths backupMaxDepth ↔
      p.length ≤ backupMaxDepth ∧ before.tree.label? p = some x := Forest.mem_paths before.distinct
  rw [restoredTree, backupCreate_eq env hbefore hcounts.before_lt]
  split_ifs with hzero
  · -- nothing is recorded, and nothing could be
    have hempty : before.tree.paths backupMaxDepth = [] := length_eq_zero_iff.mp hzero
    have hnone : ∀ x, ¬ (p.length ≤ backupMaxDepth ∧ before.tree.label? p = some x) := by
      intro x hx
      rw [← hmem, hempty] at hx
      cases hx
    constructor
    · apply iff_of_false (ScanTree.not_deletedAt rfl p)
      rintro ⟨hp, x, hx, -⟩
      exact hnone x ⟨hp, hx⟩
    · apply iff_of_false (ScanTree.not_modifiedAt rfl p)
      rintro ⟨hp, x, -, hx, -⟩
      exact hnone x ⟨hp, hx⟩
  · simp only
    rw [backupRestore_eq env hbefore hafter hcounts, if_neg haccept]
    obtain ⟨htop, -, -⟩ := restoreEntry_rootEntry env.sectorSize env.clusterBytes
    by_cases hp : p = []
    · subst hp
      have hnone : ∀ {f : Forest Name FileInfo}, f.label? [] = none := fun {f} => by cases f <;> rfl
      have hnone' : ∀ {f : Forest Name NodeInfo}, f.label? [] = none := fun {f} => by cases f <;> rfl
      simp [ScanTree.DeletedAt, ScanTree.ModifiedAt, Gone, hnone, hnone']
    obtain ⟨hdel, hmod⟩ := foldl_restoreEntry_marks env.sectorSize env.clusterBytes
      (fun x => (before.entry x).readBack) Prod.fst (entryMark before after)
      (fun x _ => by rw [LiveTree.readBack_path, pathTokens_renderPath])
      (fun x hx => Forest.ne_nil_of_mem_paths hx)
      (Forest.nodup_paths (d := backupMaxDepth) before.distinct)
      (restoreEntry env.sectorSize env.clusterBytes .deleted treeNew rootEntry)
      (fun x _ => ScanTree.not_modifiedAt htop x.1) hp
    rw [hdel, hmod]
    constructor
    · rw [or_iff_right (ScanTree.not_deletedAt htop p)]
      constructor
      · rintro ⟨⟨q, x⟩, hx, rfl, hmark⟩
        obtain ⟨hlen, hlabel⟩ := hmem.mp hx
        exact ⟨hlen, x, hlabel, (entryMark_eq_deleted hlen).mp hmark⟩
      · rintro ⟨hlen, x, hlabel, hnone⟩
        exact ⟨(p, x), hmem.mpr ⟨hlen, hlabel⟩, rfl, (entryMark_eq_deleted hlen).mpr hnone⟩
    · rw [or_iff_right (ScanTree.not_modifiedAt htop p)]
      constructor
      · rintro ⟨⟨q, x⟩, hx, rfl, hmark⟩
        obtain ⟨hlen, hlabel⟩ := hmem.mp hx
        obtain ⟨y, hy, hne⟩ := (entryMark_eq_modified hlen).mp hmark
        exact ⟨hlen, x, y, hlabel, hy, hne⟩
      · rintro ⟨hlen, x, y, hlabel, hy, hne⟩
        exact ⟨(p, x), hmem.mpr ⟨hlen, hlabel⟩, rfl, (entryMark_eq_modified hlen).mpr ⟨y, hy, hne⟩⟩

include hbefore hafter hcounts in
/-- A comparison that is refused marks nothing. -/
theorem restoredTree_refused (hrefused : env.Refused) :
    restoredTree env before.fs after.fs = treeNew := by
  rw [restoredTree, backupCreate_eq env hbefore hcounts.before_lt]
  split_ifs
  · rfl
  · simp only
    rw [backupRestore_eq env hbefore hafter hcounts, if_pos hrefused]

include hbefore hafter hcounts in
/-- The root is never marked. -/
theorem restoredTree_root :
    (restoredTree env before.fs after.fs).root.deleted = false ∧
      (restoredTree env before.fs after.fs).root.backupModified = false := by
  by_cases hrefused : env.Refused
  · rw [restoredTree_refused env hbefore hafter hcounts hrefused]
    exact ⟨rfl, rfl⟩
  rw [restoredTree, backupCreate_eq env hbefore hcounts.before_lt]
  split_ifs
  · exact ⟨rfl, rfl⟩
  · simp only
    rw [backupRestore_eq env hbefore hafter hcounts, if_neg hrefused]
    obtain ⟨-, hdel, hmod⟩ := restoreEntry_rootEntry env.sectorSize env.clusterBytes
    rw [foldl_restoreEntry_root env.sectorSize env.clusterBytes _ fun x hx =>
      Forest.ne_nil_of_mem_paths hx]
    exact ⟨hdel, hmod⟩

end Run

end RecoveryQt
