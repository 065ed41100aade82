import RecoveryQt.Tree.Invariant

/-!
# The tree as a model of rows

* `ModelIndex`, `FileTreeModel`: what a view asks for, with `index`, `parent` and `rowCount`;
* `counted`: the children that `rowCount` counts; `take_perm_filter_iff`: when they are the first ones;
* `Arena.Linked`: the links of a tree; `run_linked`: any calls of `tree_add_path` make them;
* `Issued`: an index that the model gave; `parent_index`: its parent is the index it was asked for at;
* **`rowsExact_iff`**: the directories whose rows are the children that are counted;
* `liveBeforeDeleted_not_rowsExact`: a live file in front of a deleted one.
-/

namespace RecoveryQt

open List

/-- A valid `QModelIndex`, with its internal pointer. -/
structure ModelIndex where
  row : ℕ
  column : ℕ
  node : ℕ

/-- The fields of `FileTreeModel` that its rows depend on. -/
structure FileTreeModel where
  tree : Option Arena
  showDeletedOnly : Bool

namespace FileTreeModel

/-- `childrenCount`. -/
def childrenCount (h : Arena) (node : ℕ) : ℕ := (h.node node).children.length

/-- `rowOfChild`, `none` for -1. -/
def rowOfChild (h : Arena) (node : ℕ) : Option ℕ := do
  let parent ← (h.node node).parent
  (h.node parent).children.findIdx? (· = node)

/-- `childNode`. -/
def childNode (h : Arena) (parent row : ℕ) : Option ℕ := (h.node parent).children[row]?

/-- The node of an index, the root for an invalid one. -/
def nodeOf (parent : Option ModelIndex) : ℕ := parent.elim 0 ModelIndex.node

/-- `index`. -/
def index (m : FileTreeModel) (row column : ℕ) (parent : Option ModelIndex) : Option ModelIndex := do
  let h ← m.tree
  let child ← childNode h (nodeOf parent) row
  return ⟨row, column, child⟩

/-- `parent`. -/
def parent (m : FileTreeModel) (child : Option ModelIndex) : Option ModelIndex := do
  let h ← m.tree
  let index ← child
  let parent ← (h.node index.node).parent
  if parent = 0 then none
  else
    let row ← rowOfChild h parent
    return ⟨row, 0, parent⟩

/-- The filter of `rowCount`. -/
def shown (h : Arena) (c : ℕ) : Bool := (h.node c).info.deleted || (h.node c).info.orphan

/-- `rowCount`. -/
def rowCount (m : FileTreeModel) (parent : Option ModelIndex) : ℕ :=
  match m.tree with
  | none => 0
  | some h =>
    if m.showDeletedOnly && (h.node (nodeOf parent)).info.isDir then
      (h.node (nodeOf parent)).children.countP (shown h)
    else childrenCount h (nodeOf parent)

/-- The children that `rowCount` counts, with the filter set. -/
def counted (h : Arena) (parent : Option ModelIndex) : List ℕ :=
  if (h.node (nodeOf parent)).info.isDir then (h.node (nodeOf parent)).children.filter (shown h)
  else (h.node (nodeOf parent)).children

end FileTreeModel

/-- The first items of a list are those with a property exactly when no other one is in front of one of them. -/
theorem take_perm_filter_iff {α : Type*} {l : List α} {P : α → Bool} :
    l.take (l.countP P) ~ l.filter P ↔ l.Pairwise fun a b => P b = true → P a = true := by
  constructor
  · intro hperm
    have hall : ∀ a ∈ l.take (l.countP P), P a = true := fun a ha => (mem_filter.mp (hperm.mem_iff.mp ha)).2
    have hnone : ∀ a ∈ l.drop (l.countP P), ¬ P a = true := by
      have hsum : l.countP P = (l.take (l.countP P)).countP P + (l.drop (l.countP P)).countP P := by
        rw [← countP_append, take_append_drop]
      rw [countP_eq_length.mpr hall, length_take, Nat.min_eq_left countP_le_length] at hsum
      exact countP_eq_zero.mp (by omega)
    rw [← take_append_drop (l.countP P) l]
    refine pairwise_append.mpr ⟨?_, ?_, ?_⟩
    · exact pairwise_of_forall_mem_list fun a ha _ _ _ => hall a ha
    · exact pairwise_of_forall_mem_list fun _ _ b hb h => absurd h (hnone b hb)
    · exact fun a ha _ _ _ => hall a ha
  · intro hpair
    refine Perm.of_eq ?_
    induction l with
    | nil => rfl
    | cons a l ih =>
      obtain ⟨ha, hl⟩ := pairwise_cons.mp hpair
      by_cases hPa : P a = true
      · rw [countP_cons_of_pos hPa, filter_cons_of_pos hPa, take_succ_cons, ih hl]
      · have hnone : ∀ b ∈ l, ¬ P b = true := fun b hb hPb => hPa (ha b hb hPb)
        rw [countP_cons_of_neg hPa, filter_cons_of_neg hPa, countP_eq_zero.mpr hnone, filter_eq_nil_iff.mpr hnone]
        rfl

/-- The links of a tree: a child is in the list of its parent once, and the root is in none. -/
structure Arena.Linked (h : Arena) : Prop where
  root : (h.node 0).parent = none
  child : ∀ p < h.next, ∀ i ∈ (h.node p).children, i < h.next ∧ (h.node i).parent = some p
  nodup : ∀ p < h.next, (h.node p).children.Nodup
  pos : 0 < h.next

theorem Holds.children_subset {node : ℕ → ArenaNode} {p : ℕ} {G : Forest Name ℕ} (h : Holds node p G) {i j : ℕ}
    (hj : j ∈ G.toList) (hi : i ∈ (node j).children) : i ∈ G.toList := by
  induction G generalizing p with
  | nil => cases hj
  | cons k r ch nx ihc ihn =>
    obtain ⟨-, -, hch, hc, hn⟩ := h
    simp only [Forest.toList, mem_cons, mem_append] at hj ⊢
    rcases hj with rfl | hj | hj
    · rw [hch] at hi
      exact Or.inr (Or.inl ((roots_sublist ch).subset hi))
    · exact Or.inr (Or.inl (ihc hc hj))
    · exact Or.inr (Or.inr (ihn hn hj))

/-- **Calls of `tree_add_path` link their nodes.** -/
theorem run_linked (calls : List AddCall) : (Arena.run calls).Linked := by
  obtain ⟨G, hr⟩ := run_represents calls
  have hholds := hr.below.holds
  have hchildren := hr.below.children
  have hnodup := nodup_cons.mp hr.below.nodup
  have hmem : ∀ p < (Arena.run calls).next, p = 0 ∨ p ∈ G.toList := fun p hp => mem_cons.mp (hr.all p hp)
  have hlt : ∀ i ∈ G.toList, i < (Arena.run calls).next := fun i hi => hr.below.lt i (mem_cons_of_mem _ hi)
  refine ⟨hr.parent, fun p hp i hi => ?_, fun p hp => ?_, hr.below.lt 0 mem_cons_self⟩
  · rcases hmem p hp with rfl | hp
    · rw [hchildren] at hi
      exact ⟨hlt i ((roots_sublist G).subset hi), hholds.parent hi⟩
    · exact ⟨hlt i (hholds.children_subset hp hi), hholds.children_parent hp hi⟩
  · rcases hmem p hp with rfl | hp
    · rw [hchildren]
      exact hnodup.2.sublist (roots_sublist G)
    · exact hholds.children_nodup hnodup.2 hp

namespace FileTreeModel

/-- The indexes that the model gives. -/
inductive Issued (m : FileTreeModel) : Option ModelIndex → Prop
  | root : Issued m none
  | index {row column : ℕ} {p : Option ModelIndex} {i : ModelIndex} (up : Issued m p)
      (eq : m.index row column p = some i) : Issued m (some i)

variable {h : Arena} {p : Option ModelIndex} {filter : Bool}

theorem index_eq_some_iff {row column : ℕ} {i : ModelIndex} : (FileTreeModel.mk (some h) filter).index row column p =
    some i ↔ ∃ child, childNode h (nodeOf p) row = some child ∧ i = ⟨row, column, child⟩ := by
  simp only [FileTreeModel.index, Option.bind_eq_bind, Option.bind_some, Option.bind_eq_some_iff, Option.pure_def,
    Option.some.injEq, eq_comm (a := i)]

/-- The node of an index is in the tree. -/
theorem Issued.lt (hl : h.Linked) (hp : Issued ⟨some h, filter⟩ p) : nodeOf p < h.next := by
  induction hp with
  | root => exact hl.pos
  | index up eq ih =>
    obtain ⟨child, hchild, rfl⟩ := index_eq_some_iff.mp eq
    exact (hl.child _ ih child (mem_of_getElem? hchild)).1

/-- A child stands in the row that `rowOfChild` finds. -/
theorem rowOfChild_of_childNode (hl : h.Linked) {q row child : ℕ} (hq : q < h.next)
    (hchild : childNode h q row = some child) : rowOfChild h child = some row := by
  obtain ⟨hrow, rfl⟩ := List.getElem?_eq_some_iff.mp hchild
  obtain ⟨-, hparent⟩ := hl.child q hq _ (getElem_mem hrow)
  rw [rowOfChild, hparent, Option.bind_eq_bind, Option.bind_some, findIdx?_eq_some_iff_getElem]
  refine ⟨hrow, decide_eq_true rfl, fun j hj => ?_⟩
  simpa using fun heq => hj.ne ((hl.nodup q hq).getElem_inj_iff.mp heq)

/-- **The parent of an index** is the index that it was asked for at, in the first column. -/
theorem parent_index (hl : h.Linked) (hp : Issued ⟨some h, filter⟩ p) {row column : ℕ} {i : ModelIndex}
    (hi : (FileTreeModel.mk (some h) filter).index row column p = some i) :
    (FileTreeModel.mk (some h) filter).parent (some i) = p.map fun q => { q with column := 0 } := by
  obtain ⟨child, hchild, rfl⟩ := index_eq_some_iff.mp hi
  have hparent := (hl.child _ (hp.lt hl) child (mem_of_getElem? hchild)).2
  simp only [parent, Option.bind_eq_bind, Option.bind_some, hparent]
  cases hp with
  | root => rfl
  | @index prow pcolumn q i up eq =>
    obtain ⟨node, hnode, rfl⟩ := index_eq_some_iff.mp eq
    have hne : node ≠ 0 := by
      rintro rfl
      have := (hl.child _ (up.lt hl) 0 (mem_of_getElem? hnode)).2
      rw [hl.root] at this
      cases this
    rw [if_neg (show ¬ nodeOf (some ⟨prow, pcolumn, node⟩) = 0 from hne)]
    simp only [nodeOf, Option.elim_some, rowOfChild_of_childNode hl (up.lt hl) hnode, Option.bind_some, Option.pure_def,
      Option.map_some]

/-- The rows of an index map to the children that are counted, each once, and each row leads back to the index. -/
def RowsExact (h : Arena) (p : Option ModelIndex) : Prop :=
  ∀ column, (range ((FileTreeModel.mk (some h) true).rowCount p)).filterMap (fun row =>
      ((FileTreeModel.mk (some h) true).index row column p).map ModelIndex.node) ~ counted h p ∧
    ∀ row < (FileTreeModel.mk (some h) true).rowCount p, ∃ i,
      (FileTreeModel.mk (some h) true).index row column p = some i ∧ i.row = row ∧
        (FileTreeModel.mk (some h) true).parent (some i) = p.map fun q => { q with column := 0 }

/-- The rows that are asked for are the first children. -/
theorem rows_eq_take (n column : ℕ) : (range n).filterMap (fun row =>
    ((FileTreeModel.mk (some h) filter).index row column p).map ModelIndex.node) =
      (h.node (nodeOf p)).children.take n := by
  have hrow : ∀ row, ((FileTreeModel.mk (some h) filter).index row column p).map ModelIndex.node =
      (h.node (nodeOf p)).children[row]? := by
    intro row
    simp only [FileTreeModel.index, childNode, Option.bind_eq_bind, Option.bind_some, Option.pure_def]
    cases (h.node (nodeOf p)).children[row]? <;> rfl
  simp only [hrow]
  induction n with
  | zero => rfl
  | succ n ih =>
    rw [range_succ, filterMap_append, ih, take_add_one, filterMap_cons, filterMap_nil]
    cases (h.node (nodeOf p)).children[n]? <;> rfl

theorem rowCount_le : (FileTreeModel.mk (some h) filter).rowCount p ≤ (h.node (nodeOf p)).children.length := by
  show (if _ then _ else _) ≤ _
  split_ifs
  · exact countP_le_length
  · exact le_rfl

/-- **The rows of an index are exact** when no child of a directory that is not counted stands in front of one that
is. -/
theorem rowsExact_iff (hl : h.Linked) (hp : Issued ⟨some h, true⟩ p) :
    RowsExact h p ↔ ((h.node (nodeOf p)).info.isDir = true →
      (h.node (nodeOf p)).children.Pairwise fun a b => shown h b = true → shown h a = true) := by
  have hback : ∀ column, ∀ row < (FileTreeModel.mk (some h) true).rowCount p, ∃ i,
      (FileTreeModel.mk (some h) true).index row column p = some i ∧ i.row = row ∧
        (FileTreeModel.mk (some h) true).parent (some i) = p.map fun q => { q with column := 0 } := by
    intro column row hrow
    have hchild := getElem?_eq_getElem (hrow.trans_le rowCount_le)
    have hindex : (FileTreeModel.mk (some h) true).index row column p = some ⟨row, column, _⟩ :=
      index_eq_some_iff.mpr ⟨_, hchild, rfl⟩
    exact ⟨_, hindex, rfl, parent_index hl hp hindex⟩
  have hrows : RowsExact h p ↔
      (h.node (nodeOf p)).children.take ((FileTreeModel.mk (some h) true).rowCount p) ~ counted h p := by
    refine ⟨fun hr => ?_, fun hr column => ⟨?_, hback column⟩⟩
    · have hfirst := (hr 0).1
      rwa [rows_eq_take] at hfirst
    · rwa [rows_eq_take]
  rw [hrows]
  show (h.node (nodeOf p)).children.take (if (h.node (nodeOf p)).info.isDir then _ else _) ~
    (if (h.node (nodeOf p)).info.isDir then _ else _) ↔ _
  split_ifs with hdir
  · rw [take_perm_filter_iff]
    exact ⟨fun hpair _ => hpair, fun hpair => hpair hdir⟩
  · rw [childrenCount, take_length]
    exact iff_of_true (Perm.refl _) fun hd => absurd hd hdir

/-- A live file and a deleted one. -/
def liveBeforeDeleted : List AddCall :=
  [⟨[slash, 97], ⟨false, 1, 0, 1, 0, 512, false⟩⟩, ⟨[slash, 98], ⟨false, 1, 0, 1, 0, 512, true⟩⟩]

/-- The only row of the root is the live file. -/
theorem liveBeforeDeleted_not_rowsExact :
    ¬ ∀ (h : Arena) (p : Option ModelIndex), h.Linked → Issued ⟨some h, true⟩ p → RowsExact h p := by
  intro hall
  have hrows := (hall (Arena.run liveBeforeDeleted) none (run_linked _) Issued.root 0).1
  have hlive : (range ((FileTreeModel.mk (some (Arena.run liveBeforeDeleted)) true).rowCount none)).filterMap
      (fun row => ((FileTreeModel.mk (some (Arena.run liveBeforeDeleted)) true).index row 0 none).map
        ModelIndex.node) = [1] := by decide
  have hdeleted : counted (Arena.run liveBeforeDeleted) none = [2] := by decide
  rw [hlive, hdeleted] at hrows
  exact absurd (singleton_perm_singleton.mp hrows) (by decide)

/-- The rows are exact when the deleted file comes first. -/
theorem rowsExact_deletedFirst :
    (Arena.run liveBeforeDeleted.reverse).Linked ∧ Issued ⟨some (Arena.run liveBeforeDeleted.reverse), true⟩ none ∧
      RowsExact (Arena.run liveBeforeDeleted.reverse) none := by
  refine ⟨run_linked _, Issued.root, (rowsExact_iff (run_linked _) Issued.root).mpr fun _ => ?_⟩
  have hchildren : ((Arena.run liveBeforeDeleted.reverse).node (nodeOf none)).children = [1, 2] := by decide
  rw [hchildren, pairwise_pair]
  exact fun _ => by decide

end FileTreeModel

end RecoveryQt
