import RecoveryQt.Tree.Invariant
import RecoveryQt.Lib.Nodes

/-!
# The counters of the tree

* `ScanTree.Counted`: the counters say how many files and directories there are, and how large the files are;
* `ScanTree.Keeps`: what a call of `tree_add_path` must find for this to stay so;
* `counted_addPath_iff`: one call; **`counted_run_iff`**: the runs in which the counters are right.
-/

namespace RecoveryQt

open List

/-! ## Nodes -/

/-- The files among some nodes. -/
def filesIn (l : List NodeInfo) : ℕ := l.countP fun x => !x.isDir

/-- The directories among them. -/
def dirsIn (l : List NodeInfo) : ℕ := l.countP fun x => x.isDir

/-- How much a node adds to the size. -/
def NodeInfo.fileSize (x : NodeInfo) : ℕ := if x.isDir then 0 else x.size.toNat

/-- The sizes of the files among them. -/
def sizesIn (l : List NodeInfo) : ℕ := (l.map NodeInfo.fileSize).sum

theorem filesIn_append (l r : List NodeInfo) : filesIn (l ++ r) = filesIn l + filesIn r := countP_append

theorem dirsIn_append (l r : List NodeInfo) : dirsIn (l ++ r) = dirsIn l + dirsIn r := countP_append

theorem sizesIn_append (l r : List NodeInfo) : sizesIn (l ++ r) = sizesIn l + sizesIn r := by
  rw [sizesIn, map_append, sum_append]
  rfl

theorem filesIn_cons (x : NodeInfo) (l : List NodeInfo) :
    filesIn (x :: l) = filesIn l + if x.isDir then 0 else 1 := by
  rw [filesIn, countP_cons]
  cases x.isDir <;> rfl

theorem dirsIn_cons (x : NodeInfo) (l : List NodeInfo) :
    dirsIn (x :: l) = dirsIn l + if x.isDir then 1 else 0 := countP_cons

theorem sizesIn_cons (x : NodeInfo) (l : List NodeInfo) : sizesIn (x :: l) = x.fileSize + sizesIn l := sum_cons

/-- The directories that are created on the way. -/
theorem in_replicate (k : ℕ) :
    filesIn (replicate k dirInfo) = 0 ∧ dirsIn (replicate k dirInfo) = k ∧ sizesIn (replicate k dirInfo) = 0 := by
  induction k with
  | zero => exact ⟨rfl, rfl, rfl⟩
  | succ k ih =>
    rw [replicate_succ, filesIn_cons, dirsIn_cons, sizesIn_cons, ih.1, ih.2.1, ih.2.2]
    exact ⟨rfl, rfl, rfl⟩

/-! ## The counters -/

/-- The counters are the numbers of files and of directories below the root, and the size of the files. -/
structure ScanTree.Counted (t : ScanTree) : Prop where
  files : t.totals.files.toNat = filesIn t.top.toList
  dirs : t.totals.dirs.toNat = dirsIn t.top.toList
  size : t.totals.size.toNat = sizesIn t.top.toList

/-- The call does not count a node too much for the counters. -/
def Totals.Holds (c : Totals) (a : AddArgs) : Prop :=
  if a.isDir then c.dirs.toNat + 1 < 2 ^ 64
  else c.files.toNat + 1 < 2 ^ 64 ∧ c.size.toNat + a.size.toNat < 2 ^ 64

/-- What a call must find: for a new node the directory above it is there, and the counters are large enough; and
a live file is not added again as a deleted one of another size. -/
def ScanTree.Keeps (t : ScanTree) (c : AddCall) : Prop :=
  c.names ≠ [] →
    (t.top.label? c.names = none →
      (c.names.dropLast = [] ∨ (t.top.label? c.names.dropLast).isSome) ∧ t.totals.Holds c.args) ∧
    ∀ x, t.top.label? c.names = some x → x.isDir = false → x.deleted = false → c.args.deleted = true →
      x.size = c.args.size

theorem NodeInfo.fileSize_readd (x : NodeInfo) (a : AddArgs) :
    (x.readd a).fileSize = x.fileSize ↔ (x.isDir = false → x.deleted = false → a.deleted = true → x.size = a.size) := by
  unfold fileSize
  rw [readd_isDir]
  cases hdir : x.isDir with
  | true => simp
  | false =>
    unfold readd
    by_cases h : x.deleted = false ∧ a.deleted = true
    · simp [h, hdir, UInt64.toNat_inj, eq_comm]
    · rw [if_neg h]
      simp only [Bool.false_eq_true, if_false, true_iff, forall_const]
      exact fun h1 h2 => absurd ⟨h1, h2⟩ h

/-- What a new node does to the counters. -/
theorem Totals.add_eq (c : Totals) (a : AddArgs) :
    (c.add a).files.toNat = (if a.isDir then c.files.toNat else (c.files.toNat + 1) % 2 ^ 64) ∧
    (c.add a).dirs.toNat = (if a.isDir then (c.dirs.toNat + 1) % 2 ^ 64 else c.dirs.toNat) ∧
    (c.add a).size.toNat = if a.isDir then c.size.toNat else (c.size.toNat + a.size.toNat) % 2 ^ 64 := by
  unfold add
  cases a.isDir <;> simp [UInt64.toNat_add]

/-- A node that is there is changed, and not counted again. -/
theorem counted_of_some {t : ScanTree} (h : t.Counted) {c : AddCall} {x : NodeInfo}
    (hx : t.top.label? c.names = some x) :
    (t.addPath c.path c.args).Counted ↔
      (x.isDir = false → x.deleted = false → c.args.deleted = true → x.size = c.args.size) := by
  obtain ⟨l, r, hl, hins⟩ := Forest.toList_insertPath_of_some hx dirInfo (nodeAlloc c.args) (NodeInfo.readd c.args)
  have htop : (t.addPath c.path c.args).top.toList = l ++ x.readd c.args :: r := hins
  have htotals : (t.addPath c.path c.args).totals = t.totals := if_neg fun hn => by
    rw [show t.top.label? (pathTokens c.path) = some x from hx] at hn
    exact Option.some_ne_none _ hn.2
  have hfiles : filesIn (l ++ x.readd c.args :: r) = filesIn t.top.toList := by
    rw [hl, filesIn_append, filesIn_append, filesIn_cons, filesIn_cons, NodeInfo.readd_isDir]
  have hdirs : dirsIn (l ++ x.readd c.args :: r) = dirsIn t.top.toList := by
    rw [hl, dirsIn_append, dirsIn_append, dirsIn_cons, dirsIn_cons, NodeInfo.readd_isDir]
  have hsize := h.size
  rw [hl, sizesIn_append, sizesIn_cons] at hsize
  rw [← NodeInfo.fileSize_readd]
  constructor
  · intro hcounted
    have hsize' := hcounted.size
    rw [htotals, htop, sizesIn_append, sizesIn_cons] at hsize'
    omega
  · intro hsame
    refine ⟨?_, ?_, ?_⟩
    · rw [htotals, htop, hfiles, h.files]
    · rw [htotals, htop, hdirs, h.dirs]
    · rw [htotals, htop, sizesIn_append, sizesIn_cons, hsame, hsize]

/-- A new node is counted, and the directories that are created on the way are not. -/
theorem counted_of_none {t : ScanTree} (h : t.Counted) {c : AddCall} (hne : c.names ≠ [])
    (hx : t.top.label? c.names = none) :
    (t.addPath c.path c.args).Counted ↔
      (c.names.dropLast = [] ∨ (t.top.label? c.names.dropLast).isSome) ∧ t.totals.Holds c.args := by
  obtain ⟨l, r, k, hl, hins, hk⟩ :=
    Forest.toList_insertPath_of_none hne hx dirInfo (nodeAlloc c.args) (NodeInfo.readd c.args)
  have htop : (t.addPath c.path c.args).top.toList = l ++ (replicate k dirInfo ++ nodeAlloc c.args :: r) := hins
  have htotals : (t.addPath c.path c.args).totals = t.totals.add c.args := if_pos ⟨hne, hx⟩
  obtain ⟨hfilesIn, hdirsIn, hsizesIn⟩ := in_replicate k
  obtain ⟨hfiles', hdirs', hsize'⟩ := t.totals.add_eq c.args
  have hfiles := h.files
  have hdirs := h.dirs
  have hsize := h.size
  have hlt := t.totals.files.toNat_lt
  have hlt' := t.totals.dirs.toNat_lt
  have hlt'' := t.totals.size.toNat_lt
  rw [hl] at hfiles hdirs hsize
  rw [filesIn_append] at hfiles
  rw [dirsIn_append] at hdirs
  rw [sizesIn_append] at hsize
  rw [← hk, Totals.Holds]
  have hiff : (t.addPath c.path c.args).Counted ↔
      (t.totals.add c.args).files.toNat = t.totals.files.toNat + (if c.args.isDir then 0 else 1) ∧
      (t.totals.add c.args).dirs.toNat = t.totals.dirs.toNat + k + (if c.args.isDir then 1 else 0) ∧
      (t.totals.add c.args).size.toNat = t.totals.size.toNat + (if c.args.isDir then 0 else c.args.size.toNat) := by
    constructor
    · rintro ⟨h1, h2, h3⟩
      rw [htotals, htop] at h1 h2 h3
      rw [filesIn_append, filesIn_append, filesIn_cons, hfilesIn, nodeAlloc_isDir] at h1
      rw [dirsIn_append, dirsIn_append, dirsIn_cons, hdirsIn, nodeAlloc_isDir] at h2
      rw [sizesIn_append, sizesIn_append, sizesIn_cons, hsizesIn, NodeInfo.fileSize, nodeAlloc_isDir] at h3
      refine ⟨by omega, by omega, ?_⟩
      rw [h3, hsize]
      show _ + (0 + ((if c.args.isDir then 0 else c.args.size.toNat) + _)) = _
      omega
    · rintro ⟨h1, h2, h3⟩
      refine ⟨?_, ?_, ?_⟩
      · rw [htotals, htop, filesIn_append, filesIn_append, filesIn_cons, hfilesIn, nodeAlloc_isDir, h1]
        omega
      · rw [htotals, htop, dirsIn_append, dirsIn_append, dirsIn_cons, hdirsIn, nodeAlloc_isDir, h2]
        omega
      · rw [htotals, htop, sizesIn_append, sizesIn_append, sizesIn_cons, hsizesIn, NodeInfo.fileSize, nodeAlloc_isDir,
          h3, hsize]
        show _ = _ + (0 + ((if c.args.isDir then 0 else c.args.size.toNat) + _))
        omega
  rw [hiff, hfiles', hdirs', hsize']
  cases c.args.isDir with
  | true =>
    simp only [if_true]
    omega
  | false =>
    simp only [Bool.false_eq_true, if_false]
    omega

/-- **One call**: the counters stay right exactly if it finds what it must. -/
theorem counted_addPath_iff {t : ScanTree} (h : t.Counted) (c : AddCall) :
    (t.addPath c.path c.args).Counted ↔ t.Keeps c := by
  by_cases hne : c.names = []
  · have hsame : t.addPath c.path c.args = t := by
      rw [ScanTree.addPath, ScanTree.addTokens, show pathTokens c.path = [] from hne]
      rfl
    rw [hsame]
    exact iff_of_true h fun hn => absurd hne hn
  rw [ScanTree.Keeps, forall_prop_of_true hne]
  cases hx : t.top.label? c.names with
  | none =>
    rw [counted_of_none h hne hx]
    simp
  | some x =>
    rw [counted_of_some h hx]
    simp

theorem counted_treeNew : treeNew.Counted := ⟨rfl, rfl, rfl⟩

/-- **Counters of the tree**: they are right after each call of a run exactly if each call finds what it must. -/
theorem counted_run_iff (calls : List AddCall) :
    (∀ before, before <+: calls → (ScanTree.run before).Counted) ↔
      ∀ before c, before ++ [c] <+: calls → (ScanTree.run before).Keeps c := by
  have hrun : ∀ before c, ScanTree.run (before ++ [c]) = (ScanTree.run before).addPath c.path c.args := by
    intro before c
    rw [ScanTree.run, foldl_append]
    rfl
  constructor
  · intro h before c hc
    have hcounted := h _ hc
    rw [hrun] at hcounted
    exact (counted_addPath_iff (h before ((prefix_append _ _).trans hc)) c).mp hcounted
  · intro h before hbefore
    induction before using reverseRecOn with
    | nil => exact counted_treeNew
    | append_singleton before c ih =>
      rw [hrun]
      exact (counted_addPath_iff (ih ((prefix_append _ _).trans hbefore)) c).mpr (h before c hbefore)

/-- A file `/a/b`: the directory `/a` is created on the way, and not counted. -/
theorem deepFile_not_counted : ¬ (ScanTree.run [⟨[slash, 97, slash, 98], ⟨false, 1, 0, 1, 0, 512, false⟩⟩]).Counted := by
  intro h
  exact absurd h.dirs (by decide)

end RecoveryQt
