import RecoveryQt.Lib.Rebuild
import RecoveryQt.Session.Model

/-!
# The tree that is loaded

* `SessionEntry.flag_sessionFlags`: the flags of an entry are those of its node;
* `NodeInfo.reload_nodeAlloc`: a node that is created and filled from its entry is the node again;
* **`sessionReadTree_writeNodes`**: when no directory carries clusters, every entry written is read;
* `sessionLoad_header`: the header that is loaded;
* **`sessionLoad_sessionSave`**: the header and the tree that are loaded.
-/

namespace RecoveryQt

open List

/-! ## One entry -/

/-- Each mask picks its flag. -/
theorem sessionFlags_masks : ∀ b₁ b₂ b₃ b₄ b₅ b₆ b₇ : Bool,
    ∀ flags : UInt8, flags = (if b₁ then 0x01 else 0) ||| (if b₂ then 0x02 else 0) |||
      (if b₃ then 0x04 else 0) ||| (if b₄ then 0x08 else 0) ||| (if b₅ then 0x10 else 0) |||
      (if b₆ then 0x20 else 0) ||| (if b₇ then 0x40 else 0) →
    decide (flags &&& 0x01 ≠ 0) = b₁ ∧ decide (flags &&& 0x02 ≠ 0) = b₂ ∧
      decide (flags &&& 0x04 ≠ 0) = b₃ ∧ decide (flags &&& 0x08 ≠ 0) = b₄ ∧
      decide (flags &&& 0x10 ≠ 0) = b₅ ∧ decide (flags &&& 0x20 ≠ 0) = b₆ ∧
      decide (flags &&& 0x40 ≠ 0) = b₇ := by
  intro b₁ b₂ b₃ b₄ b₅ b₆ b₇ flags h
  subst h
  revert b₁ b₂ b₃ b₄ b₅ b₆ b₇
  decide +kernel

theorem sessionFlags_bits (x : NodeInfo) (path : List UInt8) :
    (sessionEntry path x).flag 0x01 = x.isDir ∧ (sessionEntry path x).flag 0x02 = x.marked ∧
      (sessionEntry path x).flag 0x04 = x.deleted ∧ (sessionEntry path x).flag 0x08 = x.orphan ∧
      (sessionEntry path x).flag 0x10 = x.expanded ∧
      (sessionEntry path x).flag 0x20 = x.backupRestored ∧
      (sessionEntry path x).flag 0x40 = x.backupModified :=
  sessionFlags_masks x.isDir x.marked x.deleted x.orphan x.expanded x.backupRestored
    x.backupModified (sessionFlags x) rfl

/-- The arguments of `tree_add_path` that make a node. -/
def NodeInfo.args (x : NodeInfo) : AddArgs :=
  ⟨x.isDir, x.size, x.firstSector, x.numSectors, x.mtime, x.sectorSize, x.deleted⟩

theorem sessionEntry_args (path : List UInt8) (x : NodeInfo) : (sessionEntry path x).args = x.args := by
  obtain ⟨hdir, -, hdeleted, -⟩ := sessionFlags_bits x path
  rw [SessionEntry.args, hdir, hdeleted]
  rfl

/-- What loading the entry of `x` sets in a node. -/
def NodeInfo.reload (x y : NodeInfo) : NodeInfo :=
  { y with
    marked := x.marked
    orphan := x.orphan
    expanded := x.expanded
    backupRestored := x.backupRestored
    backupModified := x.backupModified
    clusters := if x.clusters.list = [] then y.clusters else x.clusters }

theorem Clusters.ext {c d : Clusters} (hlist : c.list = d.list) (hsize : c.size = d.size) : c = d := by
  cases c
  cases d
  obtain rfl := hlist
  obtain rfl := hsize
  rfl

theorem Clusters.attach_self (c : Clusters) (h : c.list ≠ []) : Clusters.attach c.list c.size = c := by
  rw [attach, dif_pos ⟨c.length_lt, h⟩]

/-- A node without clusters. -/
theorem Clusters.eq_none {c : Clusters} (h : c.list = []) : c = Clusters.none :=
  Clusters.ext h (c.size_zero h)

theorem sessionEntry_setNode (path : List UInt8) (x : NodeInfo) :
    (sessionEntry path x).setNode (if x.clusters.list = [] then none else some x.clusters.list) =
      x.reload := by
  obtain ⟨-, hmarked, -, horphan, hexpanded, hrestored, hmodified⟩ := sessionFlags_bits x path
  funext y
  rw [SessionEntry.setNode, hmarked, horphan, hexpanded, hrestored, hmodified, NodeInfo.reload]
  split_ifs with h
  · rfl
  · rw [Option.elim_some]
    congr 1
    exact x.clusters.attach_self h

/-- **A node that is created and filled from its entry** is the node again. -/
theorem NodeInfo.reload_nodeAlloc (x : NodeInfo) : x.reload (nodeAlloc x.args) = x := by
  have hclusters : (if x.clusters.list = [] then Clusters.none else x.clusters) = x.clusters := by
    split_ifs with h
    · exact (Clusters.eq_none h).symm
    · rfl
  rw [reload]
  show NodeInfo.mk x.size x.firstSector x.numSectors x.mtime x.sectorSize x.isDir x.marked x.deleted
    x.expanded x.orphan x.backupRestored x.backupModified
    (if x.clusters.list = [] then Clusters.none else x.clusters) = x
  rw [hclusters]

/-- The tree after the entry of `x` is read. -/
def ScanTree.load (t : ScanTree) (path : List UInt8) (x : NodeInfo) : ScanTree :=
  (t.addPath path x.args).modify x.reload (pathTokens path)

/-- A path that was added is found. -/
theorem ScanTree.findPath_addPath (t : ScanTree) (path : List UInt8) (a : AddArgs) :
    ((t.addPath path a).findPath path).isSome := by
  rw [findPath]
  split_ifs with h
  · rfl
  · rw [addPath, addTokens, Forest.label?_insertPath_self _ h]
    rfl

/-! ## All entries -/

/-- No directory carries clusters. -/
def DirsBare (f : Forest Name NodeInfo) : Prop :=
  f.All fun x _ => x.isDir = true → x.clusters.list = []

/-- The nodes that are written. -/
def written (f : Forest Name NodeInfo) : List (List Name × NodeInfo) := f.listed NodeInfo.isDir

theorem length_treeGetPath_lt (p : List Name) : (treeGetPath p).length < sessionMaxPath := by
  rw [treeGetPath, length_take]
  unfold sessionMaxPath
  omega

/-- The path of a node is not empty. -/
theorem treeGetPath_ne_nil {p : List Name} (hp : p ≠ []) : treeGetPath p ≠ [] := by
  have hdrop : p.drop (p.length - chainMax) ≠ [] := by
    rw [← length_pos_iff, length_drop]
    have := length_pos_iff.mpr hp
    unfold chainMax
    omega
  obtain ⟨n, ns, hns⟩ := exists_cons_of_ne_nil hdrop
  rw [treeGetPath, hns]
  exact cons_ne_nil _ _

/-- **An entry of a node is read.** -/
theorem sessionReadTree_writeNode {path : List UInt8} (hlen : path.length < sessionMaxPath)
    {x : NodeInfo} (hbare : x.isDir = true → x.clusters.list = []) (s : List UInt8) (t : ScanTree) :
    sessionReadTree (writeNode path x ++ s) t = sessionReadTree s (t.load path x) := by
  have hread := readSessionEntry_write (sessionEntry path x) hlen
    ((x.clusters.list.flatMap fun c => leBytes 8 c.toNat) ++ s)
  rw [writeNode, append_assoc, sessionReadTree]
  split
  · rename_i h
    rw [hread] at h
    cases h
  · rename_i e rest h
    rw [hread] at h
    obtain ⟨rfl, rfl⟩ := Prod.mk.inj (Option.some.inj h)
    have hcount : (sessionEntry path x).clusterCount.toNat = x.clusters.list.length :=
      UInt32.toNat_ofNat_of_lt' x.clusters.length_lt
    have hset := sessionEntry_setNode path x
    obtain ⟨y, hy⟩ := Option.isSome_iff_exists.mp
      (t.findPath_addPath (sessionEntry path x).path (sessionEntry path x).args)
    simp only
    rw [hy]
    simp only [hcount, sessionEntry_args]
    by_cases hnone : x.clusters.list = []
    · have hzero : ¬ (0 < (sessionEntry path x).clusterCount ∧ x.args.isDir = false) := by
        rw [UInt32.lt_iff_toNat_lt, hcount, hnone]
        exact fun h => absurd h.1 (Nat.lt_irrefl 0)
      rw [if_pos hnone] at hset
      rw [if_neg hzero, hset, hnone]
      rfl
    · have hfile : x.args.isDir = false := by
        by_contra h
        exact hnone (hbare (Bool.eq_true_of_not_eq_false h))
      have hpos : 0 < (sessionEntry path x).clusterCount := by
        rw [UInt32.lt_iff_toNat_lt, hcount]
        exact length_pos_iff.mpr hnone
      rw [if_neg hnone] at hset
      rw [if_pos ⟨hpos, hfile⟩, readClusterList_write, hset]
      rfl

/-- **Every entry written is read**, when no directory carries clusters. -/
theorem sessionReadTree_writeNodes {f : Forest Name NodeInfo} (hbare : DirsBare f) (up : List Name)
    (s : List UInt8) (t : ScanTree) :
    sessionReadTree (writeNodes up f ++ s) t = sessionReadTree s
      ((written f).foldl (fun t y => t.load (treeGetPath (up ++ y.1)) y.2) t) := by
  induction f generalizing up s t with
  | nil => rfl
  | cons n x ch nx ihc ihn =>
    obtain ⟨hx, hch, hnx⟩ := hbare
    have hlen := length_treeGetPath_lt (up ++ [n])
    have hpath : ¬ (treeGetPath (up ++ [n])).length % 65536 = 0 := by
      have := length_pos_iff.mpr (treeGetPath_ne_nil (p := up ++ [n]) (by simp))
      unfold sessionMaxPath at hlen
      omega
    have hchildren : ∀ s t, sessionReadTree ((if x.isDir then writeNodes (up ++ [n]) ch else []) ++ s) t =
        sessionReadTree s ((if x.isDir then (written ch).map fun y => (n :: y.1, y.2) else []).foldl
          (fun t y => t.load (treeGetPath (up ++ y.1)) y.2) t) := by
      intro s t
      split_ifs
      · rw [ihc hch, foldl_map]
        simp only [append_assoc, singleton_append]
      · rfl
    rw [writeNodes, if_neg hpath, append_assoc, append_assoc, sessionReadTree_writeNode hlen hx,
      hchildren, ihn hnx]
    show _ = sessionReadTree s (foldl _ t (([n], x) :: (_ ++ written nx)))
    rw [foldl_cons, foldl_append]
    rfl

/-- The header that is loaded. -/
def SessionArgs.loaded (a : SessionArgs) : SessionHeader :=
  { a.header with
    devicePath := CString.ofBuffer (cut16 a.device.bytes)
    model := CString.ofBuffer (sessionModel a.model.bytes)
    extFilter := CString.ofBuffer (cut16 a.extFilter.bytes) }

theorem sessionReadTree_sessionEnd (t : ScanTree) : sessionReadTree sessionEnd t = t := by
  rw [sessionReadTree]
  split
  · rfl
  · rename_i h
    rw [readSessionEntry_sessionEnd] at h
    cases h

/-- What is behind the header is read as a tree. -/
theorem sessionLoad_header (a : SessionArgs) (s : List UInt8) :
    sessionLoad (writeSessionHeader a ++ s) = some ⟨a.loaded, sessionReadTree s treeNew⟩ := by
  rw [sessionLoad, readSessionHeader_write]
  rfl

/-- **What is loaded from the file that was saved.** -/
theorem sessionLoad_sessionSave (a : SessionArgs) {t : ScanTree} (hbare : DirsBare t.top) :
    sessionLoad (sessionSave a t) = some ⟨a.loaded,
      (written t.top).foldl (fun t y => t.load (treeGetPath y.1) y.2) treeNew⟩ := by
  rw [sessionSave, sessionLoad_header, sessionReadTree_writeNodes hbare, sessionReadTree_sessionEnd]
  rfl

end RecoveryQt
