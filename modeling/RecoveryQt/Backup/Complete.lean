import RecoveryQt.Backup.Truncated
import RecoveryQt.Lib.Stream
import Mathlib.Data.List.Perm.Subperm

/-!
# Backups of trees that are not read or written whole

`backup_walk_dir` drops the results of the nested listings and of the entries that it writes, and
`backup_create` those of putting in the count.

* `BackupFaults`, `backupCreateFile`: `backup_create` when writes fail;
* `LiveFs.ShowsSome`, `FaultyTree`: a file tree of which some directories cannot be listed;
* `LiveFs.total`, `FaultyTree.pruned`: such directories as empty ones; **`LiveFs.walk_total`**: the walk
  lists the same;
* `FaultyTree.entries`: the entries of the nodes that are reached;
* `entriesPresent`, `BackupComplete`: the file holds one entry for every path, and its count is true;
* **`backupComplete_iff`**: it is complete exactly when nothing failed and nothing was left out.
-/

namespace RecoveryQt

open List

/-! ## Writes that fail -/

/-- What happens to the file: whether the header can be written, how many bytes of each entry are
written, and whether the count can be put into the header. -/
structure BackupFaults where
  header : Bool
  taken : ℕ → ℕ
  seeks : Bool
  patches : Bool

/-- The bytes behind the header. -/
def BackupFaults.body (f : BackupFaults) (es : List BackupEntry) : List UInt8 :=
  uncheckedCalls f.taken (es.map writeBackupEntry)

/-- `fseek` to the count, and `write_le32`: without the former the count is put at the end. -/
def BackupFaults.putCount (f : BackupFaults) (file : List UInt8) (count : UInt32) : List UInt8 :=
  if f.patches = false then file
  else if f.seeks = false then file ++ leBytes 4 count.toNat
  else patchCount file count

/-- `backup_create`: the file, or `none` if it fails. -/
def backupCreateFile (env : BackupEnv) (fs : LiveFs) (f : BackupFaults) : Option (List UInt8) :=
  if f.header = false then none
  else
    match backupEntries fs with
    | none => none
    | some es =>
      let writtenCount := UInt32.ofNat es.length
      if writtenCount ≤ 1 then none
      else some (f.putCount (writeBackupHeader (env.header 0) ++ f.body es) writtenCount)

/-- The bytes behind the header are those of the entries when each entry is written whole. -/
theorem BackupFaults.body_eq {f : BackupFaults} {es : List BackupEntry}
    (hwritten : ∀ n e, es[n]? = some e → (writeBackupEntry e).length ≤ f.taken n) :
    f.body es = es.flatMap writeBackupEntry := by
  rw [body, flatMap_def]
  apply uncheckedCalls_flatten
  intro n v hv
  rw [getElem?_map] at hv
  obtain ⟨e, he, rfl⟩ := Option.map_eq_some_iff.mp hv
  exact hwritten n e he

/-- The header that is left when the count is put into it. -/
theorem BackupFaults.putCount_eq {f : BackupFaults} (hseeks : f.seeks = true) (hpatches : f.patches = true)
    (env : BackupEnv) (s : List UInt8) (count : UInt32) :
    f.putCount (writeBackupHeader (env.header 0) ++ s) count = writeBackupHeader (env.header count) ++ s := by
  rw [putCount, if_neg (by simp [hpatches]), if_neg (by simp [hseeks]), patchCount_writeBackupHeader]
  rfl

/-- Without failures the file is the one of `backupCreate`. -/
theorem backupCreateFile_eq_backupCreate (env : BackupEnv) {fs : LiveFs} {f : BackupFaults}
    (hheader : f.header = true) (hwritten : ∀ es, backupEntries fs = some es →
      ∀ n e, es[n]? = some e → (writeBackupEntry e).length ≤ f.taken n)
    (hseeks : f.seeks = true) (hpatches : f.patches = true) :
    backupCreateFile env fs f = backupCreate env fs := by
  rw [backupCreateFile, if_neg (by simp [hheader]), backupCreate]
  cases hes : backupEntries fs with
  | none => rfl
  | some es =>
    simp only
    rw [BackupFaults.body_eq (hwritten es hes), BackupFaults.putCount_eq hseeks hpatches]

/-! ## Directories that cannot be listed -/

namespace LiveFs

/-- The filesystem shows the siblings `f` in a listing, below the directories `known`: the live entries
in order, and in each directory that can be listed, which is none of those above, its children. -/
def ShowsSome (fs : LiveFs) : Forest Name FileInfo → List FileInfo → List ℕ → Prop
  | .nil, l, _ => l = []
  | .cons n fi ch nx, l, known =>
    ∃ l', l = fi :: l' ∧ fi.name = n.bytes ∧
      (fi.isDir = true ∧ fi.stIno ∉ known ∧ (∀ dirList, fs.getDir fi.stIno = some dirList →
        ShowsSome fs ch (dirList.filter fun x => !x.skipped) (known ++ [fi.stIno])) ∨
      fi.isDir = false ∧ ch = .nil) ∧
      ShowsSome fs nx l' known

/-- The filesystem with an empty listing for each directory that cannot be listed. -/
def total (fs : LiveFs) : LiveFs := { fs with getDir := fun inode => some ((fs.getDir inode).getD []) }

/-- The directory can be listed. -/
def lists (fs : LiveFs) (fi : FileInfo) : Bool := (fs.getDir fi.stIno).isSome

variable {fs : LiveFs}

theorem total_getDir {inode : ℕ} {l : List FileInfo} (h : fs.getDir inode = some l) :
    fs.total.getDir inode = some l := by
  show some ((fs.getDir inode).getD []) = _
  rw [h, Option.getD_some]

/-- A directory that cannot be listed is recorded like an empty one. -/
theorem listEntry_total {room : ℕ} {known : List ℕ}
    (hbelow : ∀ path inode l, fs.getDir inode = some l →
      fs.walk false room known path inode = fs.total.walk false room known path inode)
    (path : List UInt8) (fi : FileInfo) :
    listEntry false path fi (fs.walk false room known path fi.stIno) =
      listEntry false path fi (fs.total.walk false room known path fi.stIno) := by
  cases hget : fs.getDir fi.stIno with
  | some l => rw [hbelow path fi.stIno l hget]
  | none =>
    cases room with
    | zero => rfl
    | succ room =>
      have hempty : fs.total.getDir fi.stIno = some [] := by
        show some ((fs.getDir fi.stIno).getD []) = _
        rw [hget, Option.getD_none]
      rw [walk, hget, walk_succ hempty]
      rfl

/-- **The walk lists what it would list if directories that cannot be listed were empty.** -/
theorem walk_total {room inode : ℕ} {known : List ℕ} {path : List UInt8} {l : List FileInfo}
    (h : fs.getDir inode = some l) :
    fs.walk false room known path inode = fs.total.walk false room known path inode := by
  induction room generalizing known path inode l with
  | zero => rfl
  | succ room ih =>
    rw [walk_succ h, walk_succ (total_getDir h)]
    clear h
    induction l with
    | nil => rfl
    | cons fi l ihl =>
      rw [listDir_cons, listDir_cons, ihl]
      congr 1
      split_ifs
      · rfl
      · exact listEntry_total (fun path inode l hl => ih hl) (joinPath path fi.name) fi
      · rfl

/-- The filesystem with empty listings shows the forest without what is below them. -/
theorem ShowsSome.total {f : Forest Name FileInfo} {l : List FileInfo} {known : List ℕ}
    (h : fs.ShowsSome f l known) : fs.total.Shows (f.prune fs.lists) l known := by
  induction f generalizing l known with
  | nil => exact h
  | cons n fi ch nx ihc ihn =>
    obtain ⟨l', rfl, hname, hdir, hnext⟩ := h
    refine ⟨l', rfl, hname, ?_, ihn hnext⟩
    rcases hdir with ⟨hdir, hnew, hch⟩ | ⟨hfile, rfl⟩
    · refine .inl ⟨hdir, hnew, (fs.getDir fi.stIno).getD [], rfl, ?_⟩
      rw [lists]
      cases hget : fs.getDir fi.stIno with
      | none => exact rfl
      | some dirList => exact ihc (hch dirList hget)
    · exact .inr ⟨hfile, ite_self _⟩

end LiveFs

/-- A live file tree of which some directories may not be listed: a filesystem that shows the others. -/
structure FaultyTree where
  fs : LiveFs
  tree : Forest Name FileInfo
  rootList : List FileInfo
  root : fs.getDir fs.currentInode = some rootList
  shows : fs.ShowsSome tree (rootList.filter fun x => !x.skipped) [fs.currentInode]
  distinct : tree.Distinct

namespace FaultyTree

variable (t : FaultyTree)

/-- The tree as it is listed. -/
def pruned : LiveTree where
  fs := t.fs.total
  tree := t.tree.prune t.fs.lists
  rootList := t.rootList
  root := LiveFs.total_getDir t.root
  shows := t.shows.total
  distinct := t.distinct.prune t.fs.lists

/-- The nodes that the walk reaches. -/
def reached : List (List Name × FileInfo) := t.pruned.tree.paths backupMaxDepth

/-- The entry that is recorded of a node. -/
def entry (p : List Name) (x : FileInfo) : BackupEntry := backupEntry t.fs (renderPath p) x

/-- The entries of the root and of the nodes that are reached. -/
def entries : List BackupEntry := rootEntry :: t.reached.map fun x => t.entry x.1 x.2

theorem backupEntries_total : backupEntries t.fs = backupEntries t.fs.total := by
  rw [backupEntries, backupEntries, LiveFs.walk_total t.root]
  rfl

/-- **The entries of a tree** whose listed paths fit in the buffers. -/
theorem backupEntries_eq (hfits : t.pruned.Fits) : backupEntries t.fs = some t.entries := by
  rw [backupEntries_total]
  exact t.pruned.backupEntries_eq hfits

/-- The number of entries, whether or not the paths fit. -/
theorem length_backupEntries : ∃ es, backupEntries t.fs = some es ∧ es.length = t.entries.length := by
  obtain ⟨l, hl, hinfos⟩ := Option.map_eq_some_iff.mp (t.pruned.walk_infos false)
  have hlen := congrArg length hinfos
  rw [length_map, length_map] at hlen
  refine ⟨rootEntry :: l.map fun x => backupEntry t.fs.total x.1 x.2, ?_, ?_⟩
  · rw [backupEntries_total, backupEntries]
    show Option.map _ (t.pruned.fs.walk false backupMaxDepth [] rootPath t.pruned.fs.currentInode) = _
    rw [hl]
    rfl
  · rw [entries, length_cons, length_cons, length_map, length_map, hlen]
    rfl

/-- A node is reached exactly when it is not too deep and every directory above it can be listed. -/
theorem mem_reached {p : List Name} {x : FileInfo} : (p, x) ∈ t.reached ↔
    p.length ≤ backupMaxDepth ∧ t.tree.label? p = some x ∧
      ∀ q y, q <+: p → q ≠ p → t.tree.label? q = some y → t.fs.lists y = true := by
  rw [reached, Forest.mem_paths t.pruned.distinct]
  exact and_congr_right fun _ => Forest.label?_prune t.fs.lists

theorem nodup_reached : (t.reached.map Prod.fst).Nodup := Forest.nodup_paths t.pruned.distinct

end FaultyTree

/-! ## The entries in a file -/

/-- The bytes that an entry takes up. -/
def BackupEntry.bytes (e : BackupEntry) : ℕ := 27 + e.path.length + 8 * e.clusters.length

/-- The entries that are read up to the first that is not whole. -/
def entriesPresent (body : List UInt8) : List BackupEntry := readUpTo readBackupEntry body.length body

/-- There is one entry with the path, and it is this one. -/
def OneEntry (es : List BackupEntry) (e : BackupEntry) : Prop := es.filter (fun d => d.path = e.path) = [e]

/-- The file of a backup that succeeds has one entry for the root and for every path of the tree, as it
is recorded, and its header counts the entries present. -/
def BackupComplete (env : BackupEnv) (t : FaultyTree) (f : BackupFaults) : Prop :=
  ∀ file, backupCreateFile env t.fs f = some file → ∃ h body, readBackupHeader file = some (h, body) ∧
    h.fileCount.toNat = (entriesPresent body).length ∧ OneEntry (entriesPresent body) rootEntry ∧
      ∀ p x, t.tree.label? p = some x → OneEntry (entriesPresent body) (t.entry p x).asRead

/-- Nothing failed and nothing was left out. -/
structure FaultyTree.Recorded (t : FaultyTree) (f : BackupFaults) : Prop where
  depth : ∀ p x, t.tree.label? p = some x → p.length ≤ backupMaxDepth
  fits : ∀ p x, t.tree.label? p = some x → (renderPath p).length < backupMaxPath
  listed : ∀ p x, t.tree.label? p = some x →
    ∀ q y, q <+: p → q ≠ p → t.tree.label? q = some y → t.fs.lists y = true
  count : t.entries.length < 2 ^ 32
  written : ∀ n e, t.entries[n]? = some e → (writeBackupEntry e).length ≤ f.taken n
  seeks : f.seeks = true
  patches : f.patches = true

/-- What is read of an entry: its bytes, and a path that fits in the buffer. -/
theorem bytes_of_readBackupEntry {s rest : List UInt8} {e : BackupEntry}
    (h : readBackupEntry s = some (e, rest)) :
    e.bytes + rest.length ≤ s.length ∧ e.path.length < backupMaxPath := by
  obtain ⟨⟨buffer, s₁⟩, hbuffer, h⟩ := Option.bind_eq_some_iff.mp h
  obtain ⟨⟨path, s₂⟩, hpath, h⟩ := Option.bind_eq_some_iff.mp h
  have hcluster : ∀ s a rest, readCluster s = some (a, rest) → 8 + rest.length = s.length := by
    intro s a rest h
    obtain ⟨⟨l, r⟩, hl, heq⟩ := Option.map_eq_some_iff.mp h
    obtain ⟨-, rfl⟩ := Prod.mk.inj heq
    exact (length_of_takeBytes hl).2
  obtain ⟨-, hlen₁⟩ := length_of_takeBytes hbuffer
  obtain ⟨hpathLen, hlen₂⟩ := length_of_takeBytes hpath
  have hcut : (path.takeWhile (· ≠ 0)).length ≤ path.length := (takeWhile_sublist _).length_le
  have hshort : path.length < backupMaxPath := by
    unfold backupMaxPath
    omega
  simp only at h
  split_ifs at h with hclusters
  · obtain ⟨⟨clusters, s₃⟩, hread, h⟩ := Option.bind_eq_some_iff.mp h
    obtain ⟨rfl, rfl⟩ := Prod.mk.inj (Option.some.inj h)
    obtain ⟨hcount, hlen₃⟩ := length_of_readMany hcluster hread
    show 27 + (path.takeWhile _).length + 8 * clusters.length + s₃.length ≤ s.length ∧
      (path.takeWhile _).length < backupMaxPath
    exact ⟨by omega, by omega⟩
  · obtain ⟨⟨clusters, s₃⟩, hread, h⟩ := Option.bind_eq_some_iff.mp h
    obtain ⟨rfl, rfl⟩ := Prod.mk.inj (Option.some.inj hread)
    obtain ⟨rfl, rfl⟩ := Prod.mk.inj (Option.some.inj h)
    show 27 + (path.takeWhile _).length + 8 * 0 + s₂.length ≤ s.length ∧
      (path.takeWhile _).length < backupMaxPath
    exact ⟨by omega, by omega⟩

/-- The bytes that are written of an entry of the tree are those that it takes up when it is read. -/
theorem length_writeBackupEntry {e : BackupEntry} (he : e.Recordable) :
    (writeBackupEntry e).length = e.asRead.bytes := by
  have hwhole : e.path.take (e.path.length % 65536) = e.path := by
    have hlen := he.path_length
    unfold backupMaxPath at hlen
    exact take_of_length_le (by omega)
  have hclusters : ∀ l : List UInt64, (l.flatMap fun c => leBytes 8 c.toNat).length = 8 * l.length := by
    intro l
    induction l with
    | nil => rfl
    | cons c l ih => rw [flatMap_cons, length_append, ih, length_leBytes, length_cons]; omega
  rw [writeBackupEntry, hwhole, length_append, length_append, length_entryBytes, BackupEntry.asRead,
    BackupEntry.bytes, takeWhile_ne_zero he.path_ne_zero]
  split_ifs
  · rfl
  · rw [hclusters]

theorem rootEntry_asRead : rootEntry.asRead = rootEntry := by
  simp [BackupEntry.asRead, rootEntry, rootPath, slash]

theorem length_le_length_flatMap (es : List BackupEntry) :
    es.length ≤ (es.flatMap writeBackupEntry).length := by
  induction es with
  | nil => exact Nat.zero_le _
  | cons e es ih =>
    rw [flatMap_cons, length_append, length_cons]
    have := length_writeBackupEntry_pos e
    omega

/-- The one entry of a list in which no path occurs twice. -/
theorem oneEntry_of_mem {es : List BackupEntry} (hd : (es.map BackupEntry.path).Nodup) {e : BackupEntry}
    (he : e ∈ es) : OneEntry es e := by
  induction es with
  | nil => cases he
  | cons d es ih =>
    obtain ⟨hd, hes⟩ := nodup_cons.mp hd
    have hother : ∀ c ∈ es, c.path ≠ d.path := fun c hc heq => hd (heq ▸ mem_map_of_mem hc)
    rcases mem_cons.mp he with rfl | he
    · rw [OneEntry, filter_cons_of_pos (by simp), filter_eq_nil_iff.mpr]
      intro c hc
      simpa using hother c hc
    · rw [OneEntry, filter_cons_of_neg (by simpa using (hother e he).symm)]
      exact ih hes he

theorem OneEntry.mem {es : List BackupEntry} {e : BackupEntry} (h : OneEntry es e) : e ∈ es :=
  (mem_filter.mp (h.symm ▸ mem_singleton_self e)).1

/-! ## Complete backups -/

namespace FaultyTree

variable {t : FaultyTree}

theorem entry_asRead_path (p : List Name) (x : FileInfo) : (t.entry p x).asRead.path = renderPath p := by
  have hpath : (t.entry p x).path = renderPath p := (backupEntry_fields t.fs (renderPath p) x).1
  show (t.entry p x).path.takeWhile (· ≠ 0) = renderPath p
  rw [hpath]
  exact takeWhile_eq_self_iff.mpr fun b hb => by simpa using renderPath_ne_zero hb

/-- The entries of the nodes that are reached can be recorded. -/
theorem recordable_entries (hfits : t.pruned.Fits) : ∀ e ∈ t.entries, e.Recordable := by
  intro e he
  rcases mem_cons.mp he with rfl | he
  · exact ⟨by decide, by simp [rootEntry, rootPath, slash], by decide⟩
  · obtain ⟨x, hx, rfl⟩ := mem_map.mp he
    obtain ⟨hpath, -, hclusters⟩ := backupEntry_fields t.fs (renderPath x.1) x.2
    have hlabel := ((Forest.mem_paths t.pruned.distinct).mp hx).2
    refine ⟨?_, ?_, hclusters⟩
    · show (backupEntry t.fs (renderPath x.1) x.2).path.length < _
      rw [hpath]
      exact hfits x.1 x.2 hlabel
    · show ∀ b ∈ (backupEntry t.fs (renderPath x.1) x.2).path, b ≠ 0
      rw [hpath]
      exact fun b hb => renderPath_ne_zero hb

/-- No path occurs twice among the entries. -/
theorem nodup_entries : ((t.entries.map BackupEntry.asRead).map BackupEntry.path).Nodup := by
  have hpaths : (t.entries.map BackupEntry.asRead).map BackupEntry.path =
      rootPath :: (t.reached.map Prod.fst).map renderPath := by
    rw [entries, map_cons, map_cons, map_map, map_map, map_map]
    congr 1
    exact map_congr_left fun x _ => entry_asRead_path x.1 x.2
  rw [hpaths, nodup_cons]
  refine ⟨fun h => ?_, t.nodup_reached.map renderPath_injective⟩
  obtain ⟨p, -, hp⟩ := mem_map.mp h
  exact renderPath_ne_rootPath hp

/-- The tree fits in the buffers as it is listed if it does as it is. -/
theorem pruned_fits (h : ∀ p x, t.tree.label? p = some x → (renderPath p).length < backupMaxPath) :
    t.pruned.Fits := fun p x hx => h p x ((Forest.label?_prune t.fs.lists).mp hx).1

end FaultyTree

section Complete

variable {env : BackupEnv} {t : FaultyTree} {f : BackupFaults}

/-- **When nothing failed and nothing was left out**, the backup is complete. -/
theorem FaultyTree.Recorded.complete (h : t.Recorded f) : BackupComplete env t f := by
  intro file hfile
  have hfits := FaultyTree.pruned_fits h.fits
  have hread := readBackupEntry_of_mem_backupEntries (t.backupEntries_eq hfits)
  rw [backupCreateFile, t.backupEntries_eq hfits] at hfile
  simp only at hfile
  split_ifs at hfile with hheader hone
  obtain rfl := Option.some.inj hfile
  have hpresent : entriesPresent (t.entries.flatMap writeBackupEntry) =
      t.entries.map BackupEntry.asRead := by
    apply readUpTo_all rfl hread
    exact length_le_length_flatMap t.entries
  rw [BackupFaults.putCount_eq h.seeks h.patches, BackupFaults.body_eq h.written]
  refine ⟨_, _, readBackupHeader_write _ _, ?_, ?_, ?_⟩
  · rw [hpresent, length_map]
    exact UInt32.toNat_ofNat_of_lt' h.count
  · rw [hpresent, ← rootEntry_asRead]
    exact oneEntry_of_mem FaultyTree.nodup_entries (mem_map_of_mem mem_cons_self)
  · intro p x hx
    rw [hpresent]
    apply oneEntry_of_mem FaultyTree.nodup_entries
    apply mem_map_of_mem
    apply mem_cons_of_mem
    exact mem_map_of_mem (t.mem_reached.mpr ⟨h.depth p x hx, hx, h.listed p x hx⟩)

/-- A header whose count was not put in counts no entries. -/
theorem BackupFaults.fileCount_putCount {s body : List UInt8} {count : UInt32} {h : BackupHeader}
    (hnot : ¬ (f.seeks = true ∧ f.patches = true))
    (hread : readBackupHeader (f.putCount (writeBackupHeader (env.header 0) ++ s) count) =
      some (h, body)) : h.fileCount = 0 := by
  have hbehind : ∃ s', f.putCount (writeBackupHeader (env.header 0) ++ s) count =
      writeBackupHeader (env.header 0) ++ s' := by
    rw [putCount]
    split_ifs with hpatches hseeks
    · exact ⟨s, rfl⟩
    · exact ⟨s ++ leBytes 4 count.toNat, append_assoc _ _ _⟩
    · exact absurd ⟨by simpa using hseeks, by simpa using hpatches⟩ hnot
  obtain ⟨s', hs'⟩ := hbehind
  rw [hs', readBackupHeader_write] at hread
  obtain ⟨rfl, -⟩ := Prod.mk.inj (Option.some.inj hread)
  rfl

/-- **What a backup that succeeds and is complete leaves in the file.** -/
theorem BackupComplete.present (h : BackupComplete env t f) (hheader : f.header = true)
    (hsuccess : ¬ UInt32.ofNat t.entries.length ≤ 1) : f.seeks = true ∧ f.patches = true ∧
      ∃ es, backupEntries t.fs = some es ∧ (entriesPresent (f.body es)).length = t.entries.length % 2 ^ 32 ∧
        rootEntry ∈ entriesPresent (f.body es) ∧
        ∀ p x, t.tree.label? p = some x → (t.entry p x).asRead ∈ entriesPresent (f.body es) := by
  obtain ⟨es, hes, hlen⟩ := t.length_backupEntries
  have hcreate : backupCreateFile env t.fs f =
      some (f.putCount (writeBackupHeader (env.header 0) ++ f.body es) (UInt32.ofNat es.length)) := by
    rw [backupCreateFile, if_neg (by simp [hheader]), hes]
    exact if_neg (by rwa [hlen])
  obtain ⟨hdr, body, hread, hcount, hroot, hall⟩ := h _ hcreate
  by_cases hput : f.seeks = true ∧ f.patches = true
  · obtain ⟨hseeks, hpatches⟩ := hput
    rw [BackupFaults.putCount_eq hseeks hpatches, readBackupHeader_write] at hread
    obtain ⟨rfl, rfl⟩ := Prod.mk.inj (Option.some.inj hread)
    refine ⟨hseeks, hpatches, es, hes, ?_, hroot.mem, fun p x hx => (hall p x hx).mem⟩
    rw [← hcount, ← hlen]
    exact UInt32.toNat_ofNat'
  · rw [BackupFaults.fileCount_putCount hput hread] at hcount
    have hnil : entriesPresent body = [] := length_eq_zero_iff.mp hcount.symm
    have hmem := hroot.mem
    rw [hnil] at hmem
    cases hmem

/-- An entry in a file has a path that fits in the buffer. -/
theorem path_length_of_mem_entriesPresent {body : List UInt8} {e : BackupEntry}
    (h : e ∈ entriesPresent body) : e.path.length < backupMaxPath := by
  obtain ⟨s, rest, hread⟩ := exists_read_of_mem_readUpTo h
  exact (bytes_of_readBackupEntry hread).2

/-- **Every node was reached**, or there would be more entries than were counted. -/
theorem FaultyTree.mem_reached_of_present {ds : List BackupEntry}
    (hlen : ds.length = t.entries.length % 2 ^ 32) (hroot : rootEntry ∈ ds)
    (hall : ∀ p x, t.tree.label? p = some x → (t.entry p x).asRead ∈ ds) {p : List Name} {x : FileInfo}
    (hx : t.tree.label? p = some x) : (p, x) ∈ t.reached := by
  by_contra hnot
  have hp : p ∉ t.reached.map Prod.fst := by
    intro hp
    obtain ⟨⟨q, y⟩, hy, rfl⟩ := mem_map.mp hp
    obtain rfl := Option.some.inj (hx.symm.trans (t.mem_reached.mp hy).2.1)
    exact hnot hy
  have hnodup : (rootPath :: (p :: t.reached.map Prod.fst).map renderPath).Nodup := by
    refine nodup_cons.mpr ⟨fun h => ?_, (nodup_cons.mpr ⟨hp, t.nodup_reached⟩).map renderPath_injective⟩
    obtain ⟨q, -, hq⟩ := mem_map.mp h
    exact renderPath_ne_rootPath hq
  have hsub : rootPath :: (p :: t.reached.map Prod.fst).map renderPath ⊆ ds.map BackupEntry.path := by
    have hlabel : ∀ q y, t.tree.label? q = some y → renderPath q ∈ ds.map BackupEntry.path := by
      intro q y hy
      rw [← FaultyTree.entry_asRead_path q y]
      exact mem_map_of_mem (hall q y hy)
    intro path hpath
    rcases mem_cons.mp hpath with rfl | hpath
    · exact mem_map_of_mem hroot
    · obtain ⟨q, hq, rfl⟩ := mem_map.mp hpath
      rcases mem_cons.mp hq with rfl | hq
      · exact hlabel q x hx
      · obtain ⟨⟨r, y⟩, hy, rfl⟩ := mem_map.mp hq
        exact hlabel r y (t.mem_reached.mp hy).2.1
  have hle := (subperm_of_subset hnodup hsub).length_le
  rw [length_map, hlen, FaultyTree.entries] at hle
  simp only [length_cons, length_map] at hle
  omega

/-- **Every entry was written whole**, or those present would not fit in the file. -/
theorem FaultyTree.written_of_present (hfits : t.pruned.Fits)
    (hlen : (entriesPresent (f.body t.entries)).length = t.entries.length % 2 ^ 32)
    (hall : ∀ e ∈ t.entries, e.asRead ∈ entriesPresent (f.body t.entries)) :
    t.entries.length < 2 ^ 32 ∧ ∀ n e, t.entries[n]? = some e → (writeBackupEntry e).length ≤ f.taken n := by
  have hsub : t.entries.map BackupEntry.asRead ⊆ entriesPresent (f.body t.entries) := by
    intro d hd
    obtain ⟨e, he, rfl⟩ := mem_map.mp hd
    exact hall e he
  have hsubperm := subperm_of_subset (Nodup.of_map _ FaultyTree.nodup_entries) hsub
  have hle := hsubperm.length_le
  rw [length_map, hlen] at hle
  have hcount : t.entries.length < 2 ^ 32 := hle.trans_lt (Nat.mod_lt _ (by decide))
  refine ⟨hcount, ?_⟩
  -- the same entries take up the same number of bytes
  have hperm := hsubperm.perm_of_length_le (by rw [length_map, hlen]; exact Nat.mod_le _ _)
  have hsum : ((t.entries.map BackupEntry.asRead).map BackupEntry.bytes).sum ≤ (f.body t.entries).length := by
    rw [(hperm.map BackupEntry.bytes).sum_nat]
    exact sum_readUpTo_le (fun s e rest h => (bytes_of_readBackupEntry h).1) _ _
  have hbytes : (t.entries.map BackupEntry.asRead).map BackupEntry.bytes =
      (t.entries.map writeBackupEntry).map length := by
    rw [map_map, map_map]
    exact map_congr_left fun e he => (length_writeBackupEntry (FaultyTree.recordable_entries hfits e he)).symm
  rw [hbytes, ← length_flatten] at hsum
  intro n e he
  refine length_uncheckedCalls_iff.mp hsum n _ ?_
  rw [getElem?_map, he]
  rfl

/-- **A backup is complete** exactly when it fails, or nothing failed and nothing was left out. -/
theorem backupComplete_iff (env : BackupEnv) (t : FaultyTree) (f : BackupFaults) :
    BackupComplete env t f ↔
      f.header = false ∨ UInt32.ofNat t.entries.length ≤ 1 ∨ t.Recorded f := by
  constructor
  · intro h
    by_contra hnot
    obtain ⟨hheader, hnot⟩ := not_or.mp hnot
    obtain ⟨hsuccess, hnot⟩ := not_or.mp hnot
    obtain ⟨hseeks, hpatches, es, hes, hlen, hroot, hall⟩ := h.present (by simpa using hheader) hsuccess
    have hfits : ∀ p x, t.tree.label? p = some x → (renderPath p).length < backupMaxPath := by
      intro p x hx
      rw [← FaultyTree.entry_asRead_path p x]
      exact path_length_of_mem_entriesPresent (hall p x hx)
    have hpruned := FaultyTree.pruned_fits hfits
    obtain rfl : t.entries = es := Option.some.inj ((t.backupEntries_eq hpruned).symm.trans hes)
    have hreached : ∀ {p x}, t.tree.label? p = some x → (p, x) ∈ t.reached :=
      fun hx => FaultyTree.mem_reached_of_present hlen hroot hall hx
    have hpresent : ∀ e ∈ t.entries, e.asRead ∈ entriesPresent (f.body t.entries) := by
      intro e he
      rcases mem_cons.mp he with rfl | he
      · rwa [rootEntry_asRead]
      · obtain ⟨x, hx, rfl⟩ := mem_map.mp he
        exact hall x.1 x.2 (t.mem_reached.mp hx).2.1
    obtain ⟨hcount, hwritten⟩ := FaultyTree.written_of_present hpruned hlen hpresent
    exact hnot ⟨fun p x hx => (t.mem_reached.mp (hreached hx)).1, hfits,
      fun p x hx => (t.mem_reached.mp (hreached hx)).2.2, hcount, hwritten, hseeks, hpatches⟩
  · rintro (hheader | hempty | h)
    · intro file hfile
      rw [backupCreateFile, if_pos hheader] at hfile
      cases hfile
    · obtain ⟨es, hes, hlen⟩ := t.length_backupEntries
      intro file hfile
      rw [backupCreateFile, hes] at hfile
      simp only [hlen] at hfile
      rw [if_pos hempty] at hfile
      split_ifs at hfile
    · exact h.complete

end Complete

/-! ## A directory that cannot be listed -/

/-- The name `L`. -/
def lostName : Name := IsName.name (show IsName [76] by decide)

/-- A file `L` of one sector. -/
def lostInfo : FileInfo := ⟨[76], 3, 512, 0, false, false⟩

/-- The directory `D` with the file `L`, which cannot be listed. -/
def unlistedDirectory : FaultyTree where
  fs := {
    currentInode := 1
    getDir := fun inode => if inode = 1 then some [directoryInfo 0] else none
    collect := fun _ => ⟨true, true, [], Clusters.none.length_lt⟩ }
  tree := .cons directoryName (directoryInfo 0) (.cons lostName lostInfo .nil .nil) .nil
  rootList := [directoryInfo 0]
  root := rfl
  shows := ⟨[], rfl, rfl, .inl ⟨rfl, (by simp [directoryInfo]), fun dirList h => by cases h⟩, rfl⟩
  distinct := ⟨by simp [Forest.names], ⟨by simp [Forest.names], trivial, trivial⟩, trivial⟩

/-- No write fails. -/
def noFaults : BackupFaults := ⟨true, fun _ => 2 ^ 40, true, true⟩

theorem unlistedDirectory_entries : unlistedDirectory.entries.length = 2 := by
  have htree : unlistedDirectory.pruned.tree = .cons directoryName (directoryInfo 0) .nil .nil := rfl
  rw [FaultyTree.entries, FaultyTree.reached, htree, show backupMaxDepth = 254 + 1 + 1 from rfl,
    Forest.paths, Forest.paths, Forest.paths]
  rfl

/-- The backup succeeds without the file, although nothing was written wrong. -/
theorem unlistedDirectory_not_backupComplete :
    ¬ BackupComplete wholeDisk unlistedDirectory noFaults := by
  intro h
  have hsuccess : ¬ UInt32.ofNat unlistedDirectory.entries.length ≤ 1 := by
    rw [unlistedDirectory_entries]
    decide
  obtain ⟨-, -, es, -, hlen, hroot, hall⟩ := h.present rfl hsuccess
  have hreached := FaultyTree.mem_reached_of_present hlen hroot hall
    (show unlistedDirectory.tree.label? [directoryName, lostName] = some lostInfo from rfl)
  have hlists := (unlistedDirectory.mem_reached.mp hreached).2.2 [directoryName] (directoryInfo 0)
    (prefix_append [directoryName] [lostName]) (by simp) rfl
  cases hlists

end RecoveryQt
