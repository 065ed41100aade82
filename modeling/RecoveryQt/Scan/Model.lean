import RecoveryQt.Carver.Entries
import RecoveryQt.Lib.Nodes
import RecoveryQt.Ntfs.Exact
import Mathlib.Algebra.Order.BigOperators.Group.List

/-!
# The items of a scan

The scanners add one item after another to the tree: an entry of a directory, a record of the MFT
with its clusters, an inode, a carved file. The last three also change the node that they find at
the path, and may give it a name after its detected type.

* `Extension`, `newName`: the extension of a hint, and the name that a node gets from it;
* `ScanItem`, `ScanEnv`: an item, and what the scanner asks of the volume;
* `ScanTree.scanItem`, `ScanTree.scan`: adding an item, and adding items in order;
* `nodes_scanItem_new`, `nodes_scanItem_found`: the nodes afterwards.
-/

namespace RecoveryQt

open List

/-- The extension of a hint, as a C string without a separator. -/
structure Extension where
  bytes : List UInt8
  plain : ∀ b ∈ bytes, b ≠ slash ∧ b ≠ 0

/-- `'.'`. -/
def dot : UInt8 := 46

/-- What is before the last dot of a name, or the name when it has none. -/
def Name.stem (n : Name) : List UInt8 :=
  if dot ∈ n.bytes then (n.bytes.reverse.dropWhile (· ≠ dot)).tail.reverse else n.bytes

theorem Name.mem_of_mem_stem {n : Name} {b : UInt8} (h : b ∈ n.stem) : b ∈ n.bytes := by
  unfold stem at h
  split_ifs at h
  · have hdrop := mem_of_mem_tail (mem_reverse.mp h)
    exact mem_reverse.mp ((dropWhile_sublist _).subset hdrop)
  · exact h

/-- `new_name`: the stem and the extension, in a buffer of 4096 bytes. -/
def newName (n : Name) (e : Extension) : Name where
  bytes := (n.stem ++ dot :: e.bytes).take 4095
  ne_nil := by
    intro h
    rcases take_eq_nil_iff.mp h with h | h
    · exact absurd h (by decide)
    · exact absurd (append_eq_nil_iff.mp h).2 (cons_ne_nil _ _)
  plain := by
    intro b hb
    rcases mem_append.mp (mem_of_mem_take hb) with h | h
    · exact n.plain b (n.mem_of_mem_stem h)
    · rcases mem_cons.mp h with rfl | h
      · decide
      · exact e.plain b h

/-! ## Items -/

/-- What is done with the node of an item after `tree_add_path`: nothing for an entry of a
directory or of a free cluster, the clusters for a record of the MFT, the detection of the type from
the first block for an inode, the orphan flag for a carved file. -/
inductive ScanKind where
  | entry
  | mft (data : MftData)
  | inode (firstBlock : Option UInt64)
  | carved

/-- An item: the path and the arguments of its `tree_add_path`. -/
structure ScanItem where
  path : List UInt8
  args : AddArgs
  kind : ScanKind

/-- The volume as the scanners see it: `vol->cluster_size`, `fs->blocksize`, and the extension of
the hint for the bytes at a position, if they can be read. -/
structure ScanEnv where
  clusterSize : UInt32
  blockSize : ℕ
  hintAt : UInt64 → ℕ → Option Extension

/-- The list of `ntfs_fill_clusters` is not empty and fits in an `unsigned int`. -/
theorem ntfsFillClusters_bounds {clusterSize : ℕ} {size : UInt64} {data : MftData}
    {list : List UInt64} (h : ntfsFillClusters clusterSize size data = some list) :
    list ≠ [] ∧ list.length < 2 ^ 32 := by
  rcases cases_of_ntfsFillClusters h with ⟨dataSize, rfl, rfl⟩ | ⟨dataSize, rl, rfl, rfl, hne⟩
  · exact ⟨cons_ne_nil 0 [], by simp⟩
  · refine ⟨hne, lt_of_le_of_lt ?_ rl.fits⟩
    rw [length_flatMap]
    refine List.sum_le_sum fun r _ => ?_
    obtain ⟨lcn, length⟩ := r
    cases lcn <;> simp [NtfsRunlist.listRun]

/-- `ntfs_fill_clusters` for a node of this size: the clusters that it sets. -/
def MftData.fill (data : MftData) (clusterSize : UInt32) (size : UInt64) : Option Clusters :=
  match h : ntfsFillClusters clusterSize.toNat size data with
  | none => none
  | some list => some ⟨list, clusterSize, (ntfsFillClusters_bounds h).2,
      fun hnil => absurd hnil (ntfsFillClusters_bounds h).1⟩

namespace ScanItem

variable (env : ScanEnv) (item : ScanItem)

/-- The names of the path. -/
def tokens : List Name := pathTokens item.path

/-- What is done to the node found at the path, its name apart. -/
def follow (x : NodeInfo) : NodeInfo :=
  match item.kind with
  | .entry | .inode _ => x
  | .carved => { x with orphan := true }
  | .mft data =>
    { x with orphan := true, clusters := (data.fill env.clusterSize x.size).getD x.clusters }

/-- The extension of the type that is detected for the node. -/
def detected (x : NodeInfo) : Option Extension :=
  match item.kind with
  | .entry | .carved => none
  | .mft _ =>
    x.clusters.list.head?.bind fun c => env.hintAt c (min x.clusters.size.toNat 4096)
  | .inode firstBlock =>
    if item.args.isDir = false ∧ item.args.size ≠ 0 then
      firstBlock.bind fun b => env.hintAt b (min env.blockSize 4096)
    else none

/-- The node that a new path gets. -/
def newNode : NodeInfo := item.follow env (nodeAlloc item.args)

/-- The node that is made of a node at the path. -/
def foundNode (x : NodeInfo) : NodeInfo := item.follow env (x.readd item.args)

end ScanItem

/-- Give the node at the tokens of a path the name after its detected type. -/
def ScanTree.renameTo (t : ScanTree) (e : Option Extension) (p : List Name) : ScanTree :=
  match e, p.getLast? with
  | some e, some n => { t with top := t.top.rename (newName n e) p }
  | _, _ => t

/-- **One item** of a scanner. -/
def ScanTree.scanItem (env : ScanEnv) (t : ScanTree) (item : ScanItem) : ScanTree :=
  let t' := (t.addPath item.path item.args).modify (item.follow env) item.tokens
  t'.renameTo ((t'.findPath item.path).bind (item.detected env)) item.tokens

/-- The items of a scan, in order. -/
def ScanTree.scan (env : ScanEnv) (t : ScanTree) (items : List ScanItem) : ScanTree :=
  items.foldl (ScanTree.scanItem env) t

/-! ## The nodes after an item -/

/-- The nodes of a tree, its root first. -/
def ScanTree.nodes (t : ScanTree) : List NodeInfo := t.root :: t.top.toList

theorem ScanTree.nodes_renameTo (t : ScanTree) (e : Option Extension) (p : List Name) :
    (t.renameTo e p).nodes = t.nodes := by
  unfold renameTo
  split
  · next e n _ =>
    show t.root :: (t.top.rename (newName n e) p).toList = t.nodes
    rw [Forest.toList_rename]
    rfl
  · rfl

/-- The tree before the name is given. -/
def ScanTree.addItem (env : ScanEnv) (t : ScanTree) (item : ScanItem) : ScanTree :=
  (t.addPath item.path item.args).modify (item.follow env) item.tokens

theorem ScanTree.nodes_scanItem (env : ScanEnv) (t : ScanTree) (item : ScanItem) :
    (t.scanItem env item).nodes = (t.addItem env item).nodes := nodes_renameTo _ _ _

/-- Adding the path and changing its node in one. -/
theorem ScanTree.addItem_top (env : ScanEnv) (t : ScanTree) (item : ScanItem) :
    (t.addItem env item).top =
      t.top.insertPath dirInfo (item.newNode env) (item.foundNode env) item.tokens := by
  unfold addItem addPath addTokens modify
  cases htokens : item.tokens with
  | nil =>
    unfold ScanItem.tokens at htokens
    rw [htokens]
    rfl
  | cons n ns =>
    unfold ScanItem.tokens at htokens
    rw [htokens]
    exact Forest.modify_insertPath _ _ _ _ _ _

theorem ScanTree.addItem_root (env : ScanEnv) (t : ScanTree) (item : ScanItem) :
    (t.addItem env item).root = if item.tokens = [] then item.follow env t.root else t.root := by
  unfold addItem modify
  cases htokens : item.tokens <;> rfl

theorem ScanTree.findPath_eq (t : ScanTree) (item : ScanItem) : t.findPath item.path =
    if item.tokens = [] then some t.root else t.top.label? item.tokens := rfl

section Nodes

variable {env : ScanEnv} {t : ScanTree} {item : ScanItem}

variable (env) in
/-- **A new path** brings the node of the item and the directories above it. -/
theorem nodes_scanItem_new (h : t.findPath item.path = none) : ∃ l r k,
    t.nodes = l ++ r ∧
      (t.scanItem env item).nodes = l ++ (replicate k dirInfo ++ item.newNode env :: r) := by
  rw [ScanTree.findPath_eq] at h
  split_ifs at h with hp
  obtain ⟨l, r, k, hl, hins, -⟩ := Forest.toList_insertPath_of_none hp h dirInfo
    (item.newNode env) (item.foundNode env)
  refine ⟨t.root :: l, r, k, ?_, ?_⟩
  · rw [ScanTree.nodes, hl, cons_append]
  · rw [ScanTree.nodes_scanItem, ScanTree.nodes, ScanTree.addItem_root, if_neg hp,
      ScanTree.addItem_top, hins, cons_append]

variable (env) in
/-- **A path that is there** has its node changed; the root takes no arguments. -/
theorem nodes_scanItem_found {x : NodeInfo} (h : t.findPath item.path = some x) : ∃ l r y,
    t.nodes = l ++ x :: r ∧ (t.scanItem env item).nodes = l ++ y :: r ∧
      y = if item.tokens = [] then item.follow env x else item.foundNode env x := by
  rw [ScanTree.findPath_eq] at h
  rw [ScanTree.nodes_scanItem, ScanTree.nodes, ScanTree.nodes, ScanTree.addItem_root,
    ScanTree.addItem_top]
  split_ifs at h ⊢ with hp
  · obtain rfl := Option.some.inj h
    refine ⟨[], t.top.toList, _, rfl, ?_, rfl⟩
    rw [hp]
    rfl
  · obtain ⟨l, r, hl, hins⟩ := Forest.toList_insertPath_of_some h dirInfo (item.newNode env)
      (item.foundNode env)
    refine ⟨t.root :: l, r, _, ?_, ?_, rfl⟩
    · rw [hl, cons_append]
    · rw [hins, cons_append]

end Nodes

end RecoveryQt
