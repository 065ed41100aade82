import Mathlib.Data.List.Basic

/-!
# Directory trees

A tree of files and directories as a function of their paths: the root is a directory, and what is
not the root lies in a directory.

* `DirTree`: the trees; `dir` says of an entry whether it is a directory;
* `DirTree.update`, `DirTree.create`: an entry changed, and an entry added;
* `DirTree.walk`: a path followed name by name; a name may stand for the directory itself or the one
  above it;
* `DirTree.full`: a tree where every path of some names leads to a directory;
* `DirTree.Grows`, `DirTree.OnlyRoot`: no path lost, and no path but the root.
-/

namespace RecoveryQt

open List

/-- A tree of entries. -/
structure DirTree (κ ε : Type*) (dir : ε → Prop) where
  entry : List κ → Option ε
  root : ∃ e, entry [] = some e ∧ dir e
  parent : ∀ q n e, entry (q ++ [n]) = some e → ∃ e', entry q = some e' ∧ dir e'

namespace DirTree

variable {κ ε : Type*} {dir : ε → Prop}

@[ext] theorem ext {t t' : DirTree κ ε dir} (h : ∀ q, t.entry q = t'.entry q) : t = t' := by
  cases t
  cases t'
  congr
  exact funext h

variable (t : DirTree κ ε dir)

/-- There is a directory at the path. -/
def IsDir (q : List κ) : Prop := ∃ e, t.entry q = some e ∧ dir e

instance [DecidablePred dir] (q : List κ) : Decidable (t.IsDir q) :=
  match h : t.entry q with
  | none => .isFalse fun ⟨e, he, _⟩ => by rw [h] at he; cases he
  | some e => decidable_of_iff (dir e)
      ⟨fun hd => ⟨e, h, hd⟩, fun ⟨e', he, hd⟩ => Option.some.inj (h.symm.trans he) ▸ hd⟩

theorem isDir_root : t.IsDir [] := t.root

/-! ## Changing a tree -/

variable [DecidableEq κ]

/-- The entry at a path changed into one of the same kind. -/
def update (q : List κ) (f : ε → ε) (hf : ∀ e, dir (f e) ↔ dir e) : DirTree κ ε dir where
  entry r := if r = q then (t.entry r).map f else t.entry r
  root := by
    obtain ⟨e, he, hd⟩ := t.root
    by_cases hq : [] = q
    · exact ⟨f e, by rw [if_pos hq, he]; rfl, (hf e).mpr hd⟩
    · exact ⟨e, by rw [if_neg hq, he], hd⟩
  parent := by
    intro r n e h
    have hsome : ∃ e', t.entry (r ++ [n]) = some e' := by
      split_ifs at h
      · obtain ⟨e', he', -⟩ := Option.map_eq_some_iff.mp h
        exact ⟨e', he'⟩
      · exact ⟨e, h⟩
    obtain ⟨e', he'⟩ := hsome
    obtain ⟨d, hd, hdir⟩ := t.parent r n e' he'
    by_cases hr : r = q
    · exact ⟨f d, by rw [if_pos hr, hd]; rfl, (hf d).mpr hdir⟩
    · exact ⟨d, by rw [if_neg hr, hd], hdir⟩

variable {t}

theorem entry_update_self {q : List κ} {f : ε → ε} {hf : ∀ e, dir (f e) ↔ dir e} :
    (t.update q f hf).entry q = (t.entry q).map f := if_pos rfl

theorem entry_update_of_ne {q r : List κ} {f : ε → ε} {hf : ∀ e, dir (f e) ↔ dir e} (h : r ≠ q) :
    (t.update q f hf).entry r = t.entry r := if_neg h

/-- A property of entries that the change gives or keeps. -/
theorem update_keeps {P : ε → Prop} {q r : List κ} {f : ε → ε} {hf : ∀ e, dir (f e) ↔ dir e}
    (hP : ∀ e, P e → P (f e)) (h : ∃ e, t.entry r = some e ∧ P e) :
    ∃ e, (t.update q f hf).entry r = some e ∧ P e := by
  obtain ⟨e, he, hPe⟩ := h
  by_cases hr : r = q
  · subst hr
    exact ⟨f e, by rw [entry_update_self, he]; rfl, hP e hPe⟩
  · exact ⟨e, by rw [entry_update_of_ne hr, he], hPe⟩

variable (t)

/-- A new entry in a directory. -/
def create (q : List κ) (n : κ) (e : ε) (h : t.IsDir q ∧ t.entry (q ++ [n]) = none) :
    DirTree κ ε dir where
  entry r := if r = q ++ [n] then some e else t.entry r
  root := by
    obtain ⟨d, hd, hdir⟩ := t.root
    exact ⟨d, by rw [if_neg (by simp), hd], hdir⟩
  parent := by
    intro r m d hd
    have hnew : ∀ s, t.IsDir s → s ≠ q ++ [n] := by
      rintro s ⟨c, hc, -⟩ rfl
      rw [h.2] at hc
      cases hc
    have hdir : t.IsDir r := by
      split_ifs at hd with hr
      · rw [(append_inj' hr rfl).1]
        exact h.1
      · exact t.parent r m d hd
    obtain ⟨c, hc, hcd⟩ := hdir
    exact ⟨c, by rw [if_neg (hnew r ⟨c, hc, hcd⟩), hc], hcd⟩

variable {t}

theorem entry_create_self {q : List κ} {n : κ} {e : ε} {h : t.IsDir q ∧ t.entry (q ++ [n]) = none} :
    (t.create q n e h).entry (q ++ [n]) = some e := if_pos rfl

theorem entry_create_of_ne {q r : List κ} {n : κ} {e : ε}
    {h : t.IsDir q ∧ t.entry (q ++ [n]) = none} (hr : r ≠ q ++ [n]) :
    (t.create q n e h).entry r = t.entry r := if_neg hr

/-! ## Growth -/

omit [DecidableEq κ] in
/-- Each path of the first tree is one of the second. -/
def Grows (t t' : DirTree κ ε dir) : Prop := ∀ q, (t.entry q).isSome → (t'.entry q).isSome

omit [DecidableEq κ] in
theorem Grows.refl (t : DirTree κ ε dir) : Grows t t := fun _ h => h

omit [DecidableEq κ] in
theorem Grows.trans {t t' t'' : DirTree κ ε dir} (h : Grows t t') (h' : Grows t' t'') :
    Grows t t'' := fun q hq => h' q (h q hq)

theorem grows_update (q : List κ) (f : ε → ε) (hf : ∀ e, dir (f e) ↔ dir e) :
    Grows t (t.update q f hf) := by
  intro r hr
  by_cases h : r = q
  · subst h
    rw [entry_update_self, Option.isSome_map]
    exact hr
  · rwa [entry_update_of_ne h]

theorem grows_create {q : List κ} {n : κ} (e : ε) (h : t.IsDir q ∧ t.entry (q ++ [n]) = none) :
    Grows t (t.create q n e h) := by
  intro r hr
  by_cases hne : r = q ++ [n]
  · rw [hne, entry_create_self]
    rfl
  · rwa [entry_create_of_ne hne]

omit [DecidableEq κ] in
/-- There is nothing in the root. -/
def OnlyRoot (t : DirTree κ ε dir) : Prop := ∀ n, t.entry [n] = none

omit [DecidableEq κ] in
/-- A tree that grew to nothing but the root had nothing but the root. -/
theorem OnlyRoot.of_grows {t t' : DirTree κ ε dir} (h : OnlyRoot t') (hg : Grows t t') :
    OnlyRoot t := by
  intro n
  by_contra hne
  have := hg [n] (Option.isSome_iff_ne_none.mpr hne)
  rw [h n] at this
  cases this

/-! ## Following a path -/

section Walk

omit [DecidableEq κ]

variable (t) (self up : κ → Prop) [DecidablePred self] [DecidablePred up] [DecidablePred dir]

/-- The path reached from a directory. The last name need not exist. -/
def walk : List κ → List κ → Option (List κ)
  | q, [] => some q
  | q, n :: ns =>
    if t.IsDir q then
      if self n then walk q ns
      else if up n then walk q.dropLast ns
      else walk (q ++ [n]) ns
    else none

variable {self up}

/-- Names that do not lead down stay in the root. -/
theorem walk_dots {l : List κ} (h : ∀ n ∈ l, self n ∨ up n) : t.walk self up [] l = some [] := by
  induction l with
  | nil => rfl
  | cons n ns ih =>
    have hns := ih fun m hm => h m (mem_cons_of_mem n hm)
    rw [walk, if_pos t.isDir_root]
    by_cases hself : self n
    · rw [if_pos hself]
      exact hns
    · rw [if_neg hself, if_pos ((h n mem_cons_self).resolve_left hself)]
      exact hns

variable {t}

/-- Where there is nothing in the root, only such names lead to a directory. -/
theorem OnlyRoot.dots_of_walk (ht : OnlyRoot t) {l : List κ} {q : List κ}
    (h : t.walk self up [] l = some q) (hq : t.IsDir q) : ∀ n ∈ l, self n ∨ up n := by
  induction l with
  | nil => exact fun n hn => absurd hn not_mem_nil
  | cons n ns ih =>
    rw [walk, if_pos t.isDir_root] at h
    have hdot : self n ∨ up n := by
      by_contra hno
      obtain ⟨hself, hup⟩ := not_or.mp hno
      rw [if_neg hself, if_neg hup, nil_append] at h
      have hfile : ¬ t.IsDir [n] := by
        rintro ⟨e, he, -⟩
        rw [ht n] at he
        cases he
      cases ns with
      | nil =>
        obtain rfl := Option.some.inj h
        exact hfile hq
      | cons m ms =>
        rw [walk, if_neg hfile] at h
        cases h
    have hns : t.walk self up [] ns = some q := by
      by_cases hself : self n
      · rwa [if_pos hself] at h
      · rwa [if_neg hself, if_pos (hdot.resolve_left hself)] at h
    intro m hm
    rcases mem_cons.mp hm with rfl | hm
    · exact hdot
    · exact ih hns m hm

end Walk

section Full

/-- All directories of some names, down to the depth of the list of the names. -/
def full (l : List κ) (e : ε) (he : dir e) : DirTree κ ε dir where
  entry q := if q.length ≤ l.length ∧ ∀ n ∈ q, n ∈ l then some e else none
  root := ⟨e, if_pos ⟨Nat.zero_le _, fun n hn => absurd hn not_mem_nil⟩, he⟩
  parent := by
    intro q n e' h
    refine ⟨e, if_pos ?_, he⟩
    split_ifs at h with hq
    rw [length_append] at hq
    exact ⟨Nat.le_of_add_right_le hq.1, fun m hm => hq.2 m (mem_append_left _ hm)⟩

/-- Every path of these names leads to a directory. -/
theorem walk_full {self up : κ → Prop} [DecidablePred self] [DecidablePred up] [DecidablePred dir]
    {l : List κ} {e : ε} {he : dir e} {ns q : List κ} (hns : ∀ n ∈ ns, n ∈ l)
    (hq : ∀ n ∈ q, n ∈ l) (hlen : q.length + ns.length ≤ l.length) :
    ∃ r, (full l e he).walk self up q ns = some r ∧ (full l e he).entry r = some e := by
  induction ns generalizing q with
  | nil => exact ⟨q, rfl, if_pos ⟨hlen, hq⟩⟩
  | cons n ns ih =>
    have hrest : ∀ m ∈ ns, m ∈ l := fun m hm => hns m (mem_cons_of_mem n hm)
    have hdir : (full l e he).IsDir q := by
      refine ⟨e, if_pos ⟨?_, hq⟩, he⟩
      omega
    rw [length_cons] at hlen
    rw [walk, if_pos hdir]
    split_ifs
    · exact ih hrest hq (by omega)
    · refine ih hrest (fun m hm => hq m (dropLast_subset q hm)) ?_
      rw [length_dropLast]
      omega
    · refine ih hrest ?_ (by rw [length_append, length_singleton]; omega)
      intro m hm
      rcases mem_append.mp hm with hm | hm
      · exact hq m hm
      · rw [mem_singleton.mp hm]
        exact hns n mem_cons_self

end Full

end DirTree

end RecoveryQt
