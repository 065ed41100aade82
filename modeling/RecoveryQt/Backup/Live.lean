import RecoveryQt.Lib.Paths
import RecoveryQt.Tree.Model

/-!
# The live filesystem

The drivers list a directory by its inode; the two walks of a backup descend from the root
directory and build the paths.

* `FileInfo`, `LiveFs`: a directory entry, and a filesystem as its driver shows it;
* `LiveFs.walk`: `backup_walk_dir`, `backup_walk_live` and `count_live_files`;
* `LiveFs.Shows`, `LiveTree`: the filesystem shows a tree of files;
* **`LiveTree.walk_eq`**: both walks list the paths of the tree, in the same order.
-/

namespace RecoveryQt

open List

/-- `PBACKUP_MAX_PATH`. -/
def backupMaxPath : ℕ := 4096

/-- The depth at which the walks stop. -/
def backupMaxDepth : ℕ := 256

/-- `file_info_t`, as far as a backup reads it. -/
structure FileInfo where
  name : List UInt8
  stIno : ℕ
  stSize : UInt64
  tdMtime : UInt64
  isDir : Bool
  deleted : Bool
  deriving DecidableEq

/-- What `collect_clusters_fs` returns for a file: its result, `no_clusters` and the clusters. -/
structure Collected where
  ok : Bool
  noClusters : Bool
  list : List UInt64
  length_lt : list.length < 2 ^ 32

/-- A filesystem: `dir_data->current_inode`, `dir_data->get_dir` and `collect_clusters_fs`. -/
structure LiveFs where
  currentInode : ℕ
  getDir : ℕ → Option (List FileInfo)
  collect : FileInfo → Collected

/-- The walks skip an entry: `.` and `..`, and deleted entries. -/
def FileInfo.skipped (fi : FileInfo) : Bool :=
  fi.isDir && (fi.name == [46] || fi.name == [46, 46]) || fi.deleted

/-- The root directory's path. -/
def rootPath : List UInt8 := [slash]

/-- `snprintf(full_path, sizeof(full_path), "%s/%s", path, name)`, with one separator behind the
root. -/
def joinPath (path name : List UInt8) : List UInt8 :=
  ((if path = rootPath then path else path ++ [slash]) ++ name).take (backupMaxPath - 1)

namespace LiveFs

variable (fs : LiveFs)

/-- What the walk lists for one entry, given the listing of the directory it may be. The failure of
a nested directory fails the walk of the live filesystem, and is ignored by the others. -/
def listEntry (strict : Bool) (fullPath : List UInt8) (fi : FileInfo)
    (nested : Option (List (List UInt8 × FileInfo))) : Option (List (List UInt8 × FileInfo)) :=
  match nested with
  | none => if strict then none else some [(fullPath, fi)]
  | some l => some ((fullPath, fi) :: l)

/-- `backup_walk_live` when `strict`, else `backup_walk_dir` and `count_live_files`: the entries
listed with their paths, `room` levels deep. `known` are the inodes of the directories above. -/
def walk (strict : Bool) : ℕ → List ℕ → List UInt8 → ℕ → Option (List (List UInt8 × FileInfo))
  | 0, _, _, _ => some []
  | room + 1, known, path, inode =>
    match fs.getDir inode with
    | none => none
    | some dirList =>
      (dirList.mapM fun fi : FileInfo =>
        if fi.skipped then some []
        else listEntry strict (joinPath path fi.name) fi
          (if fi.isDir ∧ fi.stIno ∉ known ++ [inode] then
            walk strict room (known ++ [inode]) (joinPath path fi.name) fi.stIno
          else some [])).map flatten

/-- The filesystem shows the siblings `f` in a listing, below the directories `known`: the live
entries in order, and in each directory, which is none of those above, its children. -/
def Shows : Forest Name FileInfo → List FileInfo → List ℕ → Prop
  | .nil, l, _ => l = []
  | .cons n fi ch nx, l, known =>
    ∃ l', l = fi :: l' ∧ fi.name = n.bytes ∧
      (fi.isDir = true ∧ fi.stIno ∉ known ∧ (∃ dirList, fs.getDir fi.stIno = some dirList ∧
        Shows ch (dirList.filter fun x => !x.skipped) (known ++ [fi.stIno])) ∨
      fi.isDir = false ∧ ch = .nil) ∧
      Shows nx l' known

end LiveFs

/-- A live file tree: a filesystem that shows a tree without equal siblings. -/
structure LiveTree where
  fs : LiveFs
  tree : Forest Name FileInfo
  rootList : List FileInfo
  root : fs.getDir fs.currentInode = some rootList
  shows : fs.Shows tree (rootList.filter fun x => !x.skipped) [fs.currentInode]
  distinct : tree.Distinct

/-- The paths of the tree fit in the buffers of the walks. -/
def LiveTree.Fits (t : LiveTree) : Prop :=
  ∀ p x, t.tree.label? p = some x → (renderPath p).length < backupMaxPath

/-! ## The paths of a walk -/

/-- The path of the directory with these names. -/
def dirPath (p : List Name) : List UInt8 := if p = [] then rootPath else renderPath p

theorem renderPath_append (p q : List Name) : renderPath (p ++ q) = renderPath p ++ renderPath q :=
  flatMap_append

theorem renderPath_singleton (n : Name) : renderPath [n] = slash :: n.bytes := by
  rw [renderPath, flatMap_cons, flatMap_nil, append_nil]

/-- No directory but the root has the path of the root. -/
theorem renderPath_ne_rootPath {p : List Name} : renderPath p ≠ rootPath := by
  cases p with
  | nil => exact (List.cons_ne_nil _ _).symm
  | cons n p =>
    intro h
    have htail : n.bytes ++ renderPath p = [] := (List.cons.inj h).2
    exact n.ne_nil (append_eq_nil_iff.mp htail).1

theorem joinPath_dirPath {p : List Name} {n : Name}
    (hfit : (renderPath (p ++ [n])).length < backupMaxPath) :
    joinPath (dirPath p) n.bytes = renderPath (p ++ [n]) := by
  have hcut : (renderPath (p ++ [n])).take (backupMaxPath - 1) = renderPath (p ++ [n]) :=
    take_of_length_le (by omega)
  rw [joinPath, dirPath]
  by_cases hp : p = []
  · subst hp
    rw [if_pos rfl, if_pos rfl]
    rw [nil_append, renderPath_singleton] at hcut ⊢
    exact hcut
  · rw [if_neg hp, if_neg renderPath_ne_rootPath, append_assoc]
    rw [renderPath_append, renderPath_singleton] at hcut ⊢
    exact hcut

namespace LiveFs

variable {fs : LiveFs}

/-- The entries that a walk lists for a directory's listing. -/
def listDir (fs : LiveFs) (strict : Bool) (room : ℕ) (known : List ℕ) (path : List UInt8)
    (l : List FileInfo) : Option (List (List UInt8 × FileInfo)) :=
  (l.mapM fun fi : FileInfo =>
    if fi.skipped then some []
    else listEntry strict (joinPath path fi.name) fi
      (if fi.isDir ∧ fi.stIno ∉ known then
        fs.walk strict room known (joinPath path fi.name) fi.stIno
      else some [])).map flatten

theorem walk_succ {strict : Bool} {room inode : ℕ} {known : List ℕ} {path : List UInt8}
    {l : List FileInfo} (h : fs.getDir inode = some l) :
    fs.walk strict (room + 1) known path inode =
      fs.listDir strict room (known ++ [inode]) path l := by
  rw [walk, h]
  rfl

/-- The listing of an entry comes before that of the entries behind it. -/
theorem listDir_cons (strict : Bool) (room : ℕ) (known : List ℕ) (path : List UInt8) (fi : FileInfo)
    (l : List FileInfo) :
    fs.listDir strict room known path (fi :: l) =
      (if fi.skipped then some []
      else listEntry strict (joinPath path fi.name) fi
        (if fi.isDir ∧ fi.stIno ∉ known then
          fs.walk strict room known (joinPath path fi.name) fi.stIno
        else some [])).bind fun a =>
      (fs.listDir strict room known path l).map (a ++ ·) := by
  rw [listDir, mapM_cons]
  show Option.map flatten (Option.bind _ _) = _
  rw [Option.map_bind]
  congr 1
  funext a
  show Option.map flatten (Option.bind _ _) = _
  rw [Option.map_bind, listDir, Option.map_map]
  exact (Option.map_eq_bind ..).symm

/-- The entries skipped do not matter. -/
theorem listDir_filter (strict : Bool) (room : ℕ) (known : List ℕ) (path : List UInt8)
    (l : List FileInfo) :
    fs.listDir strict room known path (l.filter fun x => !x.skipped) =
      fs.listDir strict room known path l := by
  induction l with
  | nil => rfl
  | cons fi l ih =>
    by_cases hfi : fi.skipped = true
    · rw [filter_cons_of_neg (by simp [hfi]), ih, listDir_cons, if_pos hfi, Option.bind_some]
      simp
    · rw [filter_cons_of_pos (by simp [hfi]), listDir_cons, listDir_cons, ih]

/-- A directory that is none of those above is descended into. -/
theorem listEntry_dir {strict : Bool} {room : ℕ} {known : List ℕ} {path : List UInt8} {fi : FileInfo}
    {l : List (List UInt8 × FileInfo)} (hdir : fi.isDir = true) (hnew : fi.stIno ∉ known)
    (h : fs.walk strict room known path fi.stIno = some l) :
    listEntry strict path fi
      (if fi.isDir ∧ fi.stIno ∉ known then fs.walk strict room known path fi.stIno else some []) =
      some ((path, fi) :: l) := by
  rw [if_pos ⟨hdir, hnew⟩, h]
  rfl

/-- **A listing that shows a forest lists its paths**, whether or not failures count: no directory
fails. -/
theorem listDir_shows (strict : Bool) {f : Forest Name FileInfo} {room : ℕ} {known : List ℕ}
    {p : List Name} {l : List FileInfo} (hshows : fs.Shows f l known)
    (hlive : ∀ fi ∈ l, fi.skipped = false)
    (hfit : ∀ x ∈ f.paths (room + 1), (renderPath (p ++ x.1)).length < backupMaxPath) :
    fs.listDir strict room known (dirPath p) l =
      some ((f.paths (room + 1)).map fun x => (renderPath (p ++ x.1), x.2)) := by
  induction f generalizing room known p l with
  | nil =>
    obtain rfl : l = [] := hshows
    rfl
  | cons n fi ch nx ihc ihn =>
    obtain ⟨l', rfl, hname, hdir, hnext⟩ := hshows
    rw [Forest.paths] at hfit
    have hfi : fi.skipped = false := hlive fi mem_cons_self
    have hpath : joinPath (dirPath p) fi.name = renderPath (p ++ [n]) := by
      rw [hname]
      exact joinPath_dirPath (hfit ([n], fi) mem_cons_self)
    have hrest := ihn hnext (fun x hx => hlive x (mem_cons_of_mem fi hx)) fun x hx =>
      hfit x (mem_cons_of_mem _ (mem_append_right _ hx))
    have hchildren : listEntry strict (renderPath (p ++ [n])) fi
        (if fi.isDir ∧ fi.stIno ∉ known then
          fs.walk strict room known (renderPath (p ++ [n])) fi.stIno else some []) =
        some ((renderPath (p ++ [n]), fi) ::
          (ch.paths room).map fun x => (renderPath (p ++ [n] ++ x.1), x.2)) := by
      rcases hdir with ⟨hdir, hnew, dirList, hget, hch⟩ | ⟨hfile, rfl⟩
      · apply listEntry_dir hdir hnew
        cases room with
        | zero => rw [walk, Forest.paths_zero, map_nil]
        | succ room =>
          have hdp : dirPath (p ++ [n]) = renderPath (p ++ [n]) := if_neg (by simp)
          rw [walk_succ hget, ← listDir_filter, ← hdp]
          refine ihc hch (fun x hx => by simpa using (mem_filter.mp hx).2) fun x hx => ?_
          have := hfit (n :: x.1, x.2)
            (mem_cons_of_mem _ (mem_append_left _ (mem_map.mpr ⟨x, hx, rfl⟩)))
          rwa [append_assoc]
      · rw [if_neg fun h => by simp [hfile] at h]
        rfl
    rw [listDir_cons, if_neg (by simp [hfi]), hpath, hchildren, hrest, Forest.paths]
    simp [Function.comp_def]

/-- The same nodes are listed, in the same order, when the paths are cut. -/
theorem listDir_infos (strict : Bool) {f : Forest Name FileInfo} {room : ℕ} {known : List ℕ}
    {path : List UInt8} {l : List FileInfo} (hshows : fs.Shows f l known)
    (hlive : ∀ fi ∈ l, fi.skipped = false) :
    (fs.listDir strict room known path l).map (map Prod.snd) =
      some ((f.paths (room + 1)).map Prod.snd) := by
  induction f generalizing room known path l with
  | nil =>
    obtain rfl : l = [] := hshows
    rfl
  | cons n fi ch nx ihc ihn =>
    obtain ⟨l', rfl, -, hdir, hnext⟩ := hshows
    have hfi : fi.skipped = false := hlive fi mem_cons_self
    have hchildren : (listEntry strict (joinPath path fi.name) fi
        (if fi.isDir ∧ fi.stIno ∉ known then
          fs.walk strict room known (joinPath path fi.name) fi.stIno else some [])).map
            (map Prod.snd) = some (fi :: (ch.paths room).map Prod.snd) := by
      rcases hdir with ⟨hdir, hnew, dirList, hget, hch⟩ | ⟨hfile, rfl⟩
      · cases room with
        | zero =>
          rw [walk, ite_self, Forest.paths_zero]
          rfl
        | succ room =>
          have hbelow := @ihc room (known ++ [fi.stIno]) (joinPath path fi.name) _ hch
            fun x hx => by simpa using (mem_filter.mp hx).2
          rw [listDir_filter, ← walk_succ hget] at hbelow
          obtain ⟨nested, hnested, heq⟩ := Option.map_eq_some_iff.mp hbelow
          rw [listEntry_dir hdir hnew hnested, Option.map_some, map_cons, heq]
      · rw [if_neg fun h => by simp [hfile] at h]
        rfl
    obtain ⟨first, hfirst, hfi'⟩ := Option.map_eq_some_iff.mp hchildren
    obtain ⟨rest, hrest, hrest'⟩ := Option.map_eq_some_iff.mp
      (@ihn room known path l' hnext fun x hx => hlive x (mem_cons_of_mem fi hx))
    rw [listDir_cons, if_neg (by simp [hfi]), hfirst, Option.bind_some, hrest, Option.map_some,
      Option.map_some, map_append, hfi', hrest', Forest.paths]
    simp [Function.comp_def]

end LiveFs

/-- Both walks list the nodes of the tree, whether or not their paths fit. -/
theorem LiveTree.walk_infos (t : LiveTree) (strict : Bool) :
    (t.fs.walk strict backupMaxDepth [] rootPath t.fs.currentInode).map (map Prod.snd) =
      some ((t.tree.paths backupMaxDepth).map Prod.snd) := by
  rw [show backupMaxDepth = 255 + 1 from rfl, LiveFs.walk_succ t.root, ← LiveFs.listDir_filter]
  exact LiveFs.listDir_infos strict t.shows fun x hx => by simpa using (mem_filter.mp hx).2

/-- **Both walks list the paths of the tree**, down to the depth limit and in the same order. -/
theorem LiveTree.walk_eq (t : LiveTree) (ht : t.Fits) (strict : Bool) :
    t.fs.walk strict backupMaxDepth [] rootPath t.fs.currentInode =
      some ((t.tree.paths backupMaxDepth).map fun x => (renderPath x.1, x.2)) := by
  have hroot : dirPath [] = rootPath := if_pos rfl
  rw [show backupMaxDepth = 255 + 1 from rfl, LiveFs.walk_succ t.root, ← LiveFs.listDir_filter,
    ← hroot]
  refine LiveFs.listDir_shows (p := []) strict t.shows
    (fun x hx => by simpa using (mem_filter.mp hx).2) fun x hx => ?_
  exact ht x.1 x.2 ((Forest.mem_paths t.distinct).mp hx).2

end RecoveryQt
