import RecoveryQt.Drivers
import RecoveryQt.Lib.Nodes
import RecoveryQt.Restore.Destination
import RecoveryQt.Tree.Invariant

/-!
# The files that a restore attempts

`restore_files` walks the tree and restores each marked file, counts those restored and those that failed, and
reports how far it is against `tree_count_marked`.

* `RestoreRun`, `restoreNodes`, `restoreFiles`: the walk, its counters and its reports;
* `treeCountMarked`: `tree_count_marked`;
* `attempts_restoreNodes`, `counts_restoreNodes`: what the walk attempts and counts, whatever fails;
* `restoreNodeRecursive_eq`: without nodes below files, these are the marked files of the tree;
* **`restoreFiles_marked`**: on a tree that meets its invariant, if a driver opens the partition.
-/

namespace RecoveryQt

open List

/-! ## The walk -/

/-- A call of `g_restorer_progress`. -/
structure RestoreProgress where
  pct : Int32
  file : List UInt8
  total : Int32
  processed : Int32

/-- The counters of `restore_files`, and its calls: the files it restores with their results, the names of the
directories it creates below the destination, and the progress it reports. -/
structure RestoreRun where
  okCount : UInt64
  failCount : UInt64
  attempts : List (FileAt × Bool)
  made : List Name
  progress : List RestoreProgress

/-- `tree_count_marked`: the number of marked files, and their size. -/
def treeCountMarked : Forest Name NodeInfo → UInt64 × UInt64
  | .nil => (0, 0)
  | .cons _ x children next =>
    let rest := treeCountMarked next
    if x.isDir then ((treeCountMarked children).1 + rest.1, (treeCountMarked children).2 + rest.2)
    else if x.marked then (1 + rest.1, x.size + rest.2)
    else rest

/-- `pct`. -/
def restorePct (processed total : UInt64) : Int32 :=
  let pct := if 0 < total then (processed * 100 / total).toUInt32.toInt32 else 0
  if 100 < pct then 100 else pct

variable (total : UInt64) (restoreFile : List (FileAt × Bool) → FileAt → Bool)

/-- A marked file: `restoreFile` says whether it is restored, after the attempts so far. -/
def RestoreRun.file (r : RestoreRun) (name : Name) (f : FileAt) : RestoreRun :=
  let ok := restoreFile r.attempts f
  let okCount := if ok then r.okCount + 1 else r.okCount
  let failCount := if ok then r.failCount else r.failCount + 1
  let processed := okCount + failCount
  { r with
    okCount := okCount
    failCount := failCount
    attempts := r.attempts ++ [(f, ok)]
    progress := r.progress ++
      [⟨restorePct processed total, name.bytes, total.toUInt32.toInt32, processed.toUInt32.toInt32⟩] }

/-- `restore_node_recursive`. -/
def restoreNodes (path : List Name) : Forest Name NodeInfo → RestoreRun → RestoreRun
  | .nil, r => r
  | .cons n x children next, r =>
    restoreNodes path next
      (if x.isDir then
        restoreNodes (path ++ [n]) children (if x.marked then { r with made := r.made ++ [n] } else r)
      else if x.marked then r.file total restoreFile n ⟨path ++ [n], x⟩
      else r)

/-- `restore_files`, `none` if it returns `-1`. -/
def restoreFiles (type : PartitionType) (opens : FsDriver → Bool) (t : ScanTree) : Option RestoreRun :=
  (type.initFsForRestore opens).map fun _ =>
    let total := (treeCountMarked t.top).1
    let r := restoreNodes total restoreFile [] t.top ⟨0, 0, [], [], [⟨0, [], total.toUInt32.toInt32, 0⟩]⟩
    { r with progress := r.progress ++ [⟨100, [], total.toUInt32.toInt32, total.toUInt32.toInt32⟩] }

/-! ## What it attempts -/

variable {total restoreFile}

theorem RestoreRun.attempts_file (r : RestoreRun) (n : Name) (f : FileAt) :
    (r.file total restoreFile n f).attempts.map Prod.fst = r.attempts.map Prod.fst ++ [f] := map_append

/-- **The walk attempts the files** that it comes to, whatever fails. -/
theorem attempts_restoreNodes (path : List Name) (F : Forest Name NodeInfo) (r : RestoreRun) :
    (restoreNodes total restoreFile path F r).attempts.map Prod.fst =
      r.attempts.map Prod.fst ++ restoreNodeRecursive path F := by
  induction F generalizing path r with
  | nil => exact (append_nil _).symm
  | cons n x ch nx ihc ihn =>
    rw [restoreNodes, restoreNodeRecursive, ihn, ← append_assoc]
    congr 1
    split
    · rw [ihc]
      split <;> rfl
    · split
      · exact r.attempts_file n _
      · exact (append_nil _).symm

theorem RestoreRun.counts_file (r : RestoreRun) (n : Name) (f : FileAt) :
    (r.file total restoreFile n f).okCount + (r.file total restoreFile n f).failCount =
      r.okCount + r.failCount + 1 := by
  unfold file
  cases restoreFile r.attempts f with
  | true =>
    calc r.okCount + 1 + r.failCount = r.okCount + (1 + r.failCount) := UInt64.add_assoc _ _ _
      _ = r.okCount + (r.failCount + 1) := by rw [UInt64.add_comm 1]
      _ = r.okCount + r.failCount + 1 := (UInt64.add_assoc _ _ _).symm
  | false => exact (UInt64.add_assoc r.okCount r.failCount 1).symm

/-- **The walk counts as many files** as `tree_count_marked` does. -/
theorem counts_restoreNodes (path : List Name) (F : Forest Name NodeInfo) (r : RestoreRun) :
    (restoreNodes total restoreFile path F r).okCount + (restoreNodes total restoreFile path F r).failCount =
      r.okCount + r.failCount + (treeCountMarked F).1 := by
  induction F generalizing path r with
  | nil => exact (UInt64.add_zero _).symm
  | cons n x ch nx ihc ihn =>
    rw [restoreNodes, treeCountMarked, ihn]
    split
    · rw [ihc, UInt64.add_assoc]
      split <;> rfl
    · split
      · rw [r.counts_file, UInt64.add_assoc]
      · rfl

/-- The file is marked. -/
def Marked (x : NodeInfo) : Prop := x.isDir = false ∧ x.marked = true

instance (x : NodeInfo) : Decidable (Marked x) := by unfold Marked; infer_instance

/-- A tree without nodes below files. -/
def FilesAreLeaves (F : Forest Name NodeInfo) : Prop := F.All fun x ch => ch ≠ .nil → x.isDir = true

/-- **The files that the walk comes to** are then the marked files of the tree. -/
theorem restoreNodeRecursive_eq {F : Forest Name NodeInfo} (hF : FilesAreLeaves F) (path : List Name) :
    restoreNodeRecursive path F =
      ((F.listed fun _ => true).filter fun e => Marked e.2).map fun e => ⟨path ++ e.1, e.2⟩ := by
  induction F generalizing path with
  | nil => rfl
  | cons n x ch nx ihc ihn =>
    obtain ⟨hx, hch, hnx⟩ := hF
    rw [restoreNodeRecursive, ihn hnx, Forest.listed, if_pos rfl, filter_cons, filter_append]
    cases hdir : x.isDir with
    | true =>
      have hnot : ¬ Marked x := fun h => Bool.false_ne_true (h.1.symm.trans hdir)
      rw [if_pos rfl, if_neg (by simpa using hnot), map_append, ihc hch, filter_map, map_map]
      congr 2
      funext e
      exact congrArg (FileAt.mk · e.2) (append_assoc path [n] e.1)
    | false =>
      have hnil : ch = .nil := by
        by_contra hne
        exact Bool.false_ne_true (hdir.symm.trans (hx hne))
      rw [if_neg Bool.false_ne_true, hnil, Forest.listed, map_nil, filter_nil, nil_append]
      cases hmarked : x.marked with
      | true =>
        have hyes : Marked x := ⟨hdir, hmarked⟩
        rw [if_pos rfl, if_pos (by simpa using hyes), map_cons]
        rfl
      | false =>
        have hnot : ¬ Marked x := fun h => Bool.false_ne_true (hmarked.symm.trans h.2)
        rw [if_neg Bool.false_ne_true, if_neg (by simpa using hnot)]
        rfl

/-- A path is in the list of files with its node. -/
theorem mem_restoreNodeRecursive {F : Forest Name NodeInfo} (hF : FilesAreLeaves F) (hd : F.Distinct)
    {f : FileAt} : f ∈ restoreNodeRecursive [] F ↔ F.label? f.path = some f.info ∧ Marked f.info := by
  rw [restoreNodeRecursive_eq hF, mem_map]
  constructor
  · rintro ⟨⟨p, x⟩, he, rfl⟩
    rw [mem_filter, Forest.mem_listed hd] at he
    exact ⟨he.1, by simpa using he.2⟩
  · intro h
    refine ⟨(f.path, f.info), mem_filter.mpr ⟨(Forest.mem_listed hd).mpr h.1, by simpa using h.2⟩, rfl⟩

/-- No path is in it twice. -/
theorem nodup_restoreNodeRecursive {F : Forest Name NodeInfo} (hF : FilesAreLeaves F) (hd : F.Distinct) :
    ((restoreNodeRecursive [] F).map FileAt.path).Nodup := by
  rw [restoreNodeRecursive_eq hF, map_map]
  refine (Forest.nodup_listed hd).filter _ |>.map_on fun e he e' he' heq => ?_
  obtain ⟨p, x⟩ := e
  obtain ⟨p', x'⟩ := e'
  obtain rfl : p = p' := heq
  have h := (Forest.mem_listed hd).mp (mem_filter.mp he).1
  have h' := (Forest.mem_listed hd).mp (mem_filter.mp he').1
  rw [Option.some.inj (h.symm.trans h')]

/-! ## The invariant -/

/-- Siblings with distinct names, at each node. -/
theorem distinct_of_names {node : ℕ → ArenaNode} {p : ℕ} {G : Forest Name ℕ} (h : Holds node p G)
    (hroots : G.roots.Pairwise fun i j => (node i).name ≠ (node j).name)
    (hnames : ∀ q ∈ G.toList, (node q).children.Pairwise fun i j => (node i).name ≠ (node j).name) : G.Distinct := by
  induction G generalizing p with
  | nil => trivial
  | cons k i ch nx ihc ihn =>
    have hk := (nodup_cons.mp (h.pairwise_name_iff.mp hroots)).1
    obtain ⟨-, -, hch, hc, hn⟩ := h
    simp only [Forest.toList, mem_cons, mem_append] at hnames
    exact ⟨hk, ihc hc (hch ▸ hnames i (.inl rfl)) fun q hq => hnames q (.inr (.inl hq)),
      ihn hn (pairwise_cons.mp hroots).2 fun q hq => hnames q (.inr (.inr hq))⟩

/-- The tree of an arena that meets the invariant. -/
theorem Arena.Represents.of_repInv {h : Arena} {t : ScanTree} {G : Forest Name ℕ} (hr : h.Represents t G)
    (hinv : RepInv h) : t.top.Distinct ∧ FilesAreLeaves t.top := by
  have hlt : ∀ i ∈ G.toList, i < h.next := fun i hi => hr.below.lt i (mem_cons_of_mem _ hi)
  rw [← hr.top]
  constructor
  · refine (distinct_map _).mpr (distinct_of_names hr.below.holds ?_ fun q hq => hinv.names q (hlt q hq))
    exact hr.below.children ▸ hinv.names 0 (hr.below.lt 0 mem_cons_self)
  · exact hr.below.holds.dirs_iff.mp fun j hj => hinv.dirs j (hlt j hj)

/-- **The files restored**: if a driver opens the partition then each marked file of the tree is attempted once, and
nothing else, and the files that are restored and those that fail are as many as `tree_count_marked` says. Otherwise
the restore fails. -/
theorem restoreFiles_marked {h : Arena} {t : ScanTree} {G : Forest Name ℕ} (hr : h.Represents t G) (hinv : RepInv h)
    (restoreFile : List (FileAt × Bool) → FileAt → Bool) (type : PartitionType) (opens : FsDriver → Bool) :
    (restoreFiles restoreFile type opens t = none ↔ type.initFsForRestore opens = none) ∧
    ∀ r, restoreFiles restoreFile type opens t = some r →
      (r.attempts.map fun a => a.1.path).Nodup ∧
      (∀ f, f ∈ r.attempts.map Prod.fst ↔ t.top.label? f.path = some f.info ∧ Marked f.info) ∧
      r.okCount + r.failCount = (treeCountMarked t.top).1 := by
  obtain ⟨hd, hleaves⟩ := hr.of_repInv hinv
  refine ⟨Option.map_eq_none_iff, fun r hrun => ?_⟩
  obtain ⟨driver, -, rfl⟩ := Option.map_eq_some_iff.mp hrun
  have hattempts : ∀ total, (restoreNodes total restoreFile [] t.top ⟨0, 0, [], [], [⟨0, [], total.toUInt32.toInt32, 0⟩]⟩
      ).attempts.map Prod.fst = restoreNodeRecursive [] t.top := fun total => attempts_restoreNodes [] t.top _
  refine ⟨?_, fun f => ?_, ?_⟩
  · have hnodup := nodup_restoreNodeRecursive hleaves hd
    rw [← hattempts (treeCountMarked t.top).1, map_map] at hnodup
    exact hnodup
  · rw [← mem_restoreNodeRecursive hleaves hd, ← hattempts (treeCountMarked t.top).1]
  · exact (counts_restoreNodes [] t.top _).trans (by simp)

/-- A marked file. -/
def markedInfo : NodeInfo := { nodeAlloc ⟨false, 1, 0, 1, 0, 512, false⟩ with marked := true }

theorem isName_a : IsName [97] := by decide

/-- The tree of the file `/a`, marked. -/
def markedTree : ScanTree := ⟨dirInfo, .cons isName_a.name markedInfo .nil .nil, ⟨1, 0, 1⟩⟩

/-- Its nodes. -/
def markedArena : Arena where
  node i := if i = 0 then ⟨none, none, dirInfo, [1]⟩ else ⟨some 0, some isName_a.name, markedInfo, []⟩
  next := 2
  totals := ⟨1, 0, 1⟩

theorem markedArena_represents : markedArena.Represents markedTree (.cons isName_a.name 1 .nil .nil) where
  below := ⟨rfl, ⟨rfl, rfl, rfl, trivial, trivial⟩, by decide, by decide⟩
  all := by decide
  parent := rfl
  name := rfl
  root := rfl
  top := rfl
  totals := rfl

theorem markedArena_repInv : RepInv markedArena :=
  (markedArena_represents.repInv_iff rfl ⟨not_mem_nil, trivial, trivial⟩).mpr ⟨fun h => absurd rfl h, trivial, trivial⟩

/-- A partition of an unknown type. -/
def unknownType : PartitionType := ⟨.none, 0, 0, .unk⟩

/-- One driver opens it. -/
theorem restoreFiles_markedTree : ∃ r,
    restoreFiles (fun _ _ => false) unknownType (· == .fat) markedTree = some r ∧ r.failCount = 1 ∧
    r.okCount + r.failCount = (treeCountMarked markedTree.top).1 :=
  ⟨_, rfl, rfl, ((restoreFiles_marked markedArena_represents markedArena_repInv (fun _ _ => false) unknownType
    (· == .fat)).2 _ rfl).2.2⟩

/-- **No driver opens it**: the marked file is not attempted. -/
theorem restoreFiles_unopened : markedArena.Represents markedTree (.cons isName_a.name 1 .nil .nil) ∧
    RepInv markedArena ∧ restoreFiles (fun _ _ => true) unknownType (fun _ => false) markedTree = none ∧
    (treeCountMarked markedTree.top).1 = 1 :=
  ⟨markedArena_represents, markedArena_repInv, rfl, rfl⟩

end RecoveryQt
