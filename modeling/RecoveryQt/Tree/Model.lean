import RecoveryQt.Lib.Forest
import Mathlib.Data.List.TakeWhile
import Mathlib.Tactic.Ring

/-!
# The scan tree

The tree of recovered files as its operations see it: siblings are looked up by name, first match
first, and paths are split by `strtok_r`.

* `Name`: a name that `strtok_r` can return;
* `pathTokens`, `renderPath`: a path string and its names;
* `Clusters`, `NodeInfo`, `ScanTree`: the fields of a node, and the tree;
* `ScanTree.addPath`, `ScanTree.findPath`: `tree_add_path`, `tree_find_path`.
-/

namespace RecoveryQt

open List

/-- The separator of paths. -/
def slash : UInt8 := 47

/-- A name: a nonempty C string without a separator. -/
structure Name where
  bytes : List UInt8
  ne_nil : bytes ≠ []
  plain : ∀ b ∈ bytes, b ≠ slash ∧ b ≠ 0
  deriving DecidableEq

/-- The bytes make a name. -/
def IsName (l : List UInt8) : Prop := l ≠ [] ∧ ∀ b ∈ l, b ≠ slash ∧ b ≠ 0

instance (l : List UInt8) : Decidable (IsName l) :=
  decidable_of_iff (l.isEmpty = false ∧ (l.all fun b => b != slash && b != 0) = true) (by
    simp [IsName])

/-- The name with these bytes, if they are one. -/
def Name.ofBytes? (l : List UInt8) : Option Name :=
  if h : IsName l then some ⟨l, h.1, h.2⟩ else none

/-- The name with these bytes. -/
def IsName.name {l : List UInt8} (h : IsName l) : Name := ⟨l, h.1, h.2⟩

/-- The tokens of `strtok_r(path, "/")`: the path string ends at its first `NUL`, and empty tokens
are skipped. -/
def pathTokens (path : List UInt8) : List Name :=
  ((path.takeWhile (· ≠ 0)).splitOnP (· == slash)).filterMap Name.ofBytes?

/-- The path of a node: each name after a separator. -/
def renderPath (ns : List Name) : List UInt8 := ns.flatMap fun n => slash :: n.bytes

theorem renderPath_cons (n : Name) (ns : List Name) :
    renderPath (n :: ns) = slash :: (n.bytes ++ renderPath ns) := rfl

theorem length_renderPath_cons (n : Name) (ns : List Name) :
    (renderPath (n :: ns)).length = n.bytes.length + (renderPath ns).length + 1 := by
  rw [renderPath_cons, length_cons, length_append]

theorem Name.ofBytes?_bytes (n : Name) : Name.ofBytes? n.bytes = some n :=
  dif_pos ⟨n.ne_nil, n.plain⟩

theorem Name.ofBytes?_nil : Name.ofBytes? [] = none := dif_neg fun h => h.1 rfl

theorem renderPath_ne_zero {ns : List Name} {b : UInt8} (hb : b ∈ renderPath ns) : b ≠ 0 := by
  obtain ⟨n, -, hb⟩ := mem_flatMap.mp hb
  rcases mem_cons.mp hb with rfl | hb
  · decide
  · exact (n.plain b hb).2

theorem splitOnP_renderPath (ns : List Name) (xs : List UInt8) (hxs : ∀ b ∈ xs, b ≠ slash) :
    (xs ++ renderPath ns).splitOnP (· == slash) = xs :: ns.map Name.bytes := by
  induction ns generalizing xs with
  | nil =>
    rw [renderPath, flatMap_nil, append_nil]
    exact splitOnP_eq_singleton fun b hb => by simpa using hxs b hb
  | cons n ns ih =>
    rw [renderPath_cons, splitOnP_append_cons_of_forall_mem (fun b hb => by simpa using hxs b hb) _ (by simp),
      ih _ fun b hb => (n.plain b hb).1, map_cons]

/-- **The names of a path are its tokens.** -/
theorem pathTokens_renderPath (ns : List Name) : pathTokens (renderPath ns) = ns := by
  have hcut : (renderPath ns).takeWhile (· ≠ 0) = renderPath ns :=
    takeWhile_eq_self_iff.mpr fun b hb => by simpa using renderPath_ne_zero hb
  have hsplit := splitOnP_renderPath ns [] (by simp)
  rw [nil_append] at hsplit
  rw [pathTokens, hcut, hsplit, filterMap_cons, Name.ofBytes?_nil, filterMap_map]
  have hsome : Name.ofBytes? ∘ Name.bytes = some := funext Name.ofBytes?_bytes
  rw [hsome]
  exact filterMap_some

/-- The first token of a path that begins with a name and a separator. -/
theorem pathTokens_cons (n : Name) (rest : List UInt8) :
    pathTokens (slash :: (n.bytes ++ slash :: rest)) = n :: pathTokens rest := by
  have hcut : (slash :: (n.bytes ++ slash :: rest)).takeWhile (· ≠ 0) =
      slash :: (n.bytes ++ slash :: rest.takeWhile (· ≠ 0)) := by
    rw [takeWhile_cons_of_pos (by decide), takeWhile_append_of_pos, takeWhile_cons_of_pos (by decide)]
    exact fun b hb => by simpa using (n.plain b hb).2
  have hn : ∀ b ∈ n.bytes, (b == slash) = false := fun b hb => by simpa using (n.plain b hb).1
  rw [pathTokens, hcut, splitOnP_cons_eq_if_modifyHead, if_pos (by simp),
    splitOnP_append_cons_of_forall_mem hn _ (by simp), filterMap_cons, Name.ofBytes?_nil,
    filterMap_cons, Name.ofBytes?_bytes, pathTokens]

/-- `cluster_list`, `cluster_count` and `cluster_size`: a missing list has no size. -/
structure Clusters where
  list : List UInt64
  size : UInt32
  length_lt : list.length < 2 ^ 32
  size_zero : list = [] → size = 0
  deriving DecidableEq

/-- No cluster list. -/
def Clusters.none : Clusters := ⟨[], 0, by decide, fun _ => rfl⟩

/-- The fields of `file_node_t` other than its name and its links. -/
structure NodeInfo where
  size : UInt64
  firstSector : UInt64
  numSectors : UInt64
  mtime : UInt64
  sectorSize : UInt32
  isDir : Bool
  marked : Bool
  deleted : Bool
  expanded : Bool
  orphan : Bool
  backupRestored : Bool
  backupModified : Bool
  clusters : Clusters
  deriving DecidableEq

/-- The arguments of `tree_add_path` after the path. -/
structure AddArgs where
  isDir : Bool
  size : UInt64
  firstSector : UInt64
  numSectors : UInt64
  mtime : UInt64
  sectorSize : UInt32
  deleted : Bool
  deriving DecidableEq

/-- `node_alloc`. -/
def nodeAlloc (a : AddArgs) : NodeInfo where
  size := a.size
  firstSector := a.firstSector
  numSectors := a.numSectors
  mtime := a.mtime
  sectorSize := a.sectorSize
  isDir := a.isDir
  marked := false
  deleted := a.deleted
  expanded := false
  orphan := false
  backupRestored := false
  backupModified := false
  clusters := Clusters.none

/-- The directory that `node_ensure_dir` creates, and the root. -/
def dirInfo : NodeInfo := nodeAlloc ⟨true, 0, 0, 0, 0, 0, false⟩

/-- What `tree_add_path` does to a node that exists: a live entry becomes deleted, and takes the
other arguments unless it is a directory. -/
def NodeInfo.readd (a : AddArgs) (x : NodeInfo) : NodeInfo :=
  if x.deleted = false ∧ a.deleted = true then
    if x.isDir then { x with deleted := true }
    else { x with
      deleted := true
      size := a.size
      firstSector := a.firstSector
      numSectors := a.numSectors
      mtime := a.mtime
      sectorSize := a.sectorSize }
  else x

@[simp] theorem nodeAlloc_isDir (a : AddArgs) : (nodeAlloc a).isDir = a.isDir := rfl

@[simp] theorem NodeInfo.readd_isDir (a : AddArgs) (x : NodeInfo) : (x.readd a).isDir = x.isDir := by
  unfold readd
  split_ifs <;> rfl

/-- An existing entry that is deleted is left alone. -/
theorem NodeInfo.readd_deleted (a : AddArgs) {x : NodeInfo} (h : x.deleted = true) :
    x.readd a = x := if_neg fun hx => by simp [h] at hx

/-- `total_files`, `total_dirs` and `total_size`. -/
structure Totals where
  files : UInt64
  dirs : UInt64
  size : UInt64
  deriving DecidableEq

/-- Count a new node. -/
def Totals.add (c : Totals) (a : AddArgs) : Totals :=
  if a.isDir then { c with dirs := c.dirs + 1 }
  else { c with files := c.files + 1, size := c.size + a.size }

/-- `scan_tree_t`. -/
structure ScanTree where
  root : NodeInfo
  top : Forest Name NodeInfo
  totals : Totals

/-- `tree_new`. -/
def treeNew : ScanTree := ⟨dirInfo, .nil, ⟨0, 0, 0⟩⟩

/-- `tree_add_path` on the tokens of its path. -/
def ScanTree.addTokens (t : ScanTree) (p : List Name) (a : AddArgs) : ScanTree :=
  { t with
    top := t.top.insertPath dirInfo (nodeAlloc a) (NodeInfo.readd a) p
    totals := if p ≠ [] ∧ t.top.label? p = none then t.totals.add a else t.totals }

/-- `tree_add_path`. -/
def ScanTree.addPath (t : ScanTree) (path : List UInt8) (a : AddArgs) : ScanTree :=
  t.addTokens (pathTokens path) a

/-- Change the node that `tree_find_path` finds at the tokens of a path, the root for none. -/
def ScanTree.modify (t : ScanTree) (g : NodeInfo → NodeInfo) : List Name → ScanTree
  | [] => { t with root := g t.root }
  | p => { t with top := t.top.modify g p }

/-- `tree_find_path`. -/
def ScanTree.findPath (t : ScanTree) (path : List UInt8) : Option NodeInfo :=
  if pathTokens path = [] then some t.root else t.top.label? (pathTokens path)

end RecoveryQt
