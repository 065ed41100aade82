import RecoveryQt.Lib.Forest

/-!
# Rebuilding a forest from its paths

* `Forest.listed`: the nodes with their paths, parents before children, below the labels that are
  descended into;
* `Forest.put`: add a path, and then change its last node;
* **`Forest.foldl_put_listed`**: putting the nodes of a forest in that order gives the forest;
* `Forest.foldl_put_onPath`: the nodes after a list of puts are on the paths put.
-/

namespace RecoveryQt

open List

namespace Forest

variable {κ α : Type*}

/-- The nodes with their paths, parents before children; what is below a label that is not descended
into is left out. -/
def listed (descend : α → Bool) : Forest κ α → List (List κ × α)
  | nil => []
  | cons k a ch nx =>
    ([k], a) :: ((if descend a then (ch.listed descend).map fun x => (k :: x.1, x.2) else []) ++
      nx.listed descend)

/-- Siblings behind siblings. -/
def append : Forest κ α → Forest κ α → Forest κ α
  | nil, g => g
  | cons k a ch nx, g => cons k a ch (nx.append g)

theorem append_nil (f : Forest κ α) : f.append nil = f := by
  induction f with
  | nil => rfl
  | cons k a ch nx _ ih => rw [append, ih]

theorem snoc_append (f : Forest κ α) (n : κ) (b : α) (c g : Forest κ α) :
    (f.snoc n b c).append g = f.append (cons n b c g) := by
  induction f with
  | nil => rfl
  | cons k a ch nx _ ih => rw [snoc, append, append, ih]

theorem ne_nil_of_mem_listed {descend : α → Bool} {f : Forest κ α} {x : List κ × α}
    (h : x ∈ f.listed descend) : x.1 ≠ [] := by
  induction f with
  | nil => cases h
  | cons k a ch nx _ ih =>
    rw [listed, mem_cons, mem_append] at h
    rcases h with rfl | h | h
    · exact cons_ne_nil _ _
    · split_ifs at h
      · obtain ⟨y, -, rfl⟩ := mem_map.mp h
        exact cons_ne_nil _ _
      · cases h
    · exact ih h

variable [DecidableEq κ]

theorem setChild_setChild (f : Forest κ α) (n : κ) (a b : α) (c d : Forest κ α) :
    (f.setChild n a c).setChild n b d = f.setChild n b d := by
  induction f with
  | nil => rfl
  | cons k a' ch nx _ ih =>
    by_cases hk : k = n
    · simp only [setChild, hk, if_true]
    · simp only [setChild, hk, if_false, ih]

theorem setChild_snoc {f : Forest κ α} {n : κ} (h : f.child? n = none) (a b : α) (c d : Forest κ α) :
    (f.snoc n a c).setChild n b d = f.snoc n b d := by
  induction f with
  | nil => exact if_pos rfl
  | cons k a' ch nx _ ih =>
    unfold child? at h
    split_ifs at h with hk
    rw [snoc, setChild, if_neg hk, ih h, snoc]

section Put

variable (mid : α) (leaf : α → α) (touch g : α → α → α)

/-- Add a path for the label `x`, and change its last node. -/
def put (f : Forest κ α) (x : List κ × α) : Forest κ α :=
  (f.insertPath mid (leaf x.2) (touch x.2) x.1).modify (g x.2) x.1

theorem put_new {f : Forest κ α} {n : κ} {a : α} (h : f.child? n = none) (ha : g a (leaf a) = a) :
    f.put mid leaf touch g ([n], a) = f.snoc n a nil := by
  simp only [put, insertPath, h, modify, child?_snoc_self h, setChild_snoc h, ha]

/-- A path through an existing sibling is put below it. -/
theorem put_cons {f : Forest κ α} {n : κ} {b : α} {ch : Forest κ α} (h : f.child? n = some (b, ch))
    {p : List κ} (hp : p ≠ []) (a : α) :
    f.put mid leaf touch g (n :: p, a) = f.setChild n b (ch.put mid leaf touch g (p, a)) := by
  obtain ⟨m, ns, rfl⟩ := exists_cons_of_ne_nil hp
  simp only [put, insertPath, h, modify, child?_setChild_self h, setChild_setChild]

theorem foldl_put_cons {n : κ} {b : α} {l : List (List κ × α)} (hl : ∀ x ∈ l, x.1 ≠ [])
    {f ch : Forest κ α} (h : f.child? n = some (b, ch)) :
    (l.map fun x => (n :: x.1, x.2)).foldl (put mid leaf touch g) f =
      f.setChild n b (l.foldl (put mid leaf touch g) ch) := by
  induction l generalizing f ch with
  | nil => exact (setChild_self h).symm
  | cons x l ih =>
    rw [map_cons, foldl_cons, foldl_cons, put_cons mid leaf touch g h (hl x mem_cons_self),
      ih (fun y hy => hl y (mem_cons_of_mem x hy)) (child?_setChild_self h), setChild_setChild]

/-- **Putting the nodes of a forest behind other siblings.** -/
theorem foldl_put_append {descend : α → Bool} {f : Forest κ α} (hd : f.Distinct)
    (hdescend : f.All fun a ch => ch ≠ nil → descend a = true) (hg : f.All fun a _ => g a (leaf a) = a)
    {c : Forest κ α} (hc : ∀ k ∈ f.names, c.child? k = none) :
    (f.listed descend).foldl (put mid leaf touch g) c = c.append f := by
  induction f generalizing c with
  | nil => exact (append_nil c).symm
  | cons k a ch nx ihc ihn =>
    obtain ⟨hk, hch, hnx⟩ := hd
    obtain ⟨hopen, hdch, hdnx⟩ := hdescend
    obtain ⟨hga, hgch, hgnx⟩ := hg
    have hck : c.child? k = none := hc k mem_cons_self
    have hchildren : (if descend a then (ch.listed descend).map (fun x => (k :: x.1, x.2)) else
        []).foldl (put mid leaf touch g) (c.snoc k a nil) = c.snoc k a ch := by
      split_ifs with ha
      · rw [foldl_put_cons mid leaf touch g (fun x hx => ne_nil_of_mem_listed hx)
          (child?_snoc_self hck), ihc hch hdch hgch fun _ _ => rfl, setChild_snoc hck]
        rfl
      · have hnil : ch = nil := by
          by_contra hne
          exact ha (hopen hne)
        rw [hnil]
        rfl
    rw [listed, foldl_cons, put_new mid leaf touch g hck hga, foldl_append, hchildren,
      ihn hnx hdnx hgnx, snoc_append]
    intro m hm
    have hmk : m ≠ k := fun h => hk (h ▸ hm)
    rw [child?_snoc_ne hmk]
    exact hc m (mem_cons_of_mem k hm)

/-- **Putting the nodes of a forest gives the forest.** -/
theorem foldl_put_listed {descend : α → Bool} {f : Forest κ α} (hd : f.Distinct)
    (hdescend : f.All fun a ch => ch ≠ nil → descend a = true)
    (hg : f.All fun a _ => g a (leaf a) = a) :
    (f.listed descend).foldl (put mid leaf touch g) nil = f :=
  foldl_put_append mid leaf touch g hd hdescend hg fun _ _ => rfl

theorem Distinct.modify {f : Forest κ α} (hd : f.Distinct) (h : α → α) (p : List κ) :
    (f.modify h p).Distinct := by
  induction p generalizing f with
  | nil => exact hd
  | cons n ns ih =>
    cases ns with
    | nil =>
      simp only [Forest.modify]
      cases hc : f.child? n with
      | none => exact hd
      | some x => exact hd.setChild (hd.child hc)
    | cons m ns =>
      simp only [Forest.modify]
      cases hc : f.child? n with
      | none => exact hd
      | some x => exact hd.setChild (ih (hd.child hc))

theorem Distinct.foldl_put {f : Forest κ α} (hd : f.Distinct) (l : List (List κ × α)) :
    (l.foldl (put mid leaf touch g) f).Distinct := by
  induction l generalizing f with
  | nil => exact hd
  | cons x l ih => exact ih ((hd.insertPath x.1).modify _ x.1)

/-- **The nodes after a list of puts** were there, or are on a path put. -/
theorem foldl_put_onPath {f : Forest κ α} {l : List (List κ × α)} {q : List κ}
    (h : ((l.foldl (put mid leaf touch g) f).label? q).isSome) :
    (f.label? q).isSome ∨ ∃ x ∈ l, q <+: x.1 := by
  induction l generalizing f with
  | nil => exact .inl h
  | cons x l ih =>
    rcases ih h with h | ⟨y, hy, hq⟩
    · by_cases hq : q <+: x.1
      · exact .inr ⟨x, mem_cons_self, hq⟩
      · have hne : q ≠ x.1 := fun he => hq (he ▸ prefix_rfl)
        rw [put, label?_modify_other _ hne, label?_insertPath_other _ hq] at h
        exact .inl h
    · exact .inr ⟨y, mem_cons_of_mem x hy, hq⟩

end Put

end Forest

end RecoveryQt
