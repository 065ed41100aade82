import RecoveryQt.Lib.Nodes

/-!
# Adding below a sibling

What an addition at a path of two names, and a new name for its node, do to the forest below the first of them.

* `siblings`: the names and labels of the siblings; `childrenOf`: what is below a sibling;
* `childrenOf_insertPath`, `childrenOf_rename`: the addition and the new name, one level down;
* `child?_insertPath_ne`, `child?_rename_ne`: the other siblings stay;
* **`filterMap_eq_iff`**: two selections that tell where they come from are equal if they are equal at each place.
-/

namespace RecoveryQt

open List

/-- **Selections are equal place by place** when what is selected has a key that its place determines. -/
theorem filterMap_eq_iff {α β γ : Type*} (key : α → γ) (keyOf : β → γ) {l : List α} {f g : α → Option β}
    (hkey : ∀ a ∈ l, ∀ b ∈ l, key a = key b → a = b) (hf : ∀ a ∈ l, ∀ b, f a = some b → keyOf b = key a)
    (hg : ∀ a ∈ l, ∀ b, g a = some b → keyOf b = key a) :
    l.filterMap f = l.filterMap g ↔ ∀ a ∈ l, f a = g a := by
  -- a value selected at `a` by one of the two is selected by the other one somewhere, which is at `a`
  have hback : ∀ {f' g' : α → Option β}, (∀ a ∈ l, ∀ b, f' a = some b → keyOf b = key a) →
      (∀ a ∈ l, ∀ b, g' a = some b → keyOf b = key a) → l.filterMap f' = l.filterMap g' →
      ∀ a ∈ l, ∀ b, f' a = some b → g' a = some b := by
    intro f' g' hf' hg' heq a ha b hb
    have hmem : b ∈ l.filterMap g' := heq ▸ mem_filterMap.mpr ⟨a, ha, hb⟩
    obtain ⟨a', ha', hb'⟩ := mem_filterMap.mp hmem
    have hsame : a' = a := hkey a' ha' a ha ((hg' a' ha' b hb').symm.trans (hf' a ha b hb))
    rw [← hsame]
    exact hb'
  refine ⟨fun heq a ha => ?_, fun h => filterMap_congr h⟩
  apply Option.ext
  intro b
  exact ⟨hback hf hg heq a ha b, hback hg hf heq.symm a ha b⟩

namespace Forest

variable {κ α : Type*}

/-- The siblings with their labels. -/
def siblings : Forest κ α → List (κ × α)
  | nil => []
  | cons k a _ nx => (k, a) :: nx.siblings

theorem siblings_snoc (f : Forest κ α) (n : κ) (b : α) (c : Forest κ α) :
    (f.snoc n b c).siblings = f.siblings ++ [(n, b)] := by
  induction f with
  | nil => rfl
  | cons k a ch nx _ ih => rw [snoc, siblings, ih, siblings, cons_append]

theorem map_fst_siblings (f : Forest κ α) : f.siblings.map Prod.fst = f.names := by
  induction f with
  | nil => rfl
  | cons k a ch nx _ ih => rw [siblings, map_cons, ih, names]

variable [DecidableEq κ]

/-- What is below the first sibling of a name. -/
def childrenOf (f : Forest κ α) (d : κ) : Forest κ α := (f.child? d).elim nil Prod.snd

section Below

variable {f : Forest κ α} {d n m : κ} {mid leaf b : α} {touch : α → α} {c : Forest κ α}

theorem setName_snoc (h : f.child? n = none) : (f.snoc n b c).setName n m = f.snoc m b c := by
  induction f with
  | nil => rw [snoc, setName, if_pos rfl, snoc]
  | cons k a ch nx _ ih =>
    unfold child? at h
    split_ifs at h with hk
    rw [snoc, setName, if_neg hk, ih h, snoc]

/-- **A new path of two names** is a new last node below the first of them. -/
theorem childrenOf_insertPath (h : (f.childrenOf d).child? n = none) :
    (f.insertPath mid leaf touch [d, n]).childrenOf d = (f.childrenOf d).snoc n leaf nil := by
  unfold childrenOf at h ⊢
  cases hchild : f.child? d with
  | none =>
    simp only [insertPath, hchild, child?_snoc_self hchild]
    rfl
  | some x =>
    obtain ⟨a, ch⟩ := x
    rw [hchild] at h
    replace h : ch.child? n = none := h
    simp only [insertPath, hchild, child?_setChild_self hchild, h]
    rfl

theorem child?_insertPath_ne (h : m ≠ d) (p : List κ) :
    (f.insertPath mid leaf touch (d :: p)).child? m = f.child? m := by
  cases p with
  | nil =>
    cases hchild : f.child? d with
    | none => simp only [insertPath, hchild, child?_snoc_ne h]
    | some x => simp only [insertPath, hchild, child?_setChild_ne h]
  | cons n ns =>
    cases hchild : f.child? d with
    | none => simp only [insertPath, hchild, child?_snoc_ne h]
    | some x => simp only [insertPath, hchild, child?_setChild_ne h]

/-- **A new name** for a path of two names is given below the first of them. -/
theorem childrenOf_rename : (f.rename m [d, n]).childrenOf d = (f.childrenOf d).setName n m := by
  unfold childrenOf
  cases hchild : f.child? d with
  | none =>
    simp only [rename, hchild]
    rfl
  | some x =>
    simp only [rename, hchild, child?_setChild_self hchild]
    rfl

theorem child?_rename_ne {k : κ} (h : k ≠ d) : (f.rename m [d, n]).child? k = f.child? k := by
  cases hchild : f.child? d with
  | none => simp only [rename, hchild]
  | some x => simp only [rename, hchild, child?_setChild_ne h]

end Below

end Forest

end RecoveryQt
