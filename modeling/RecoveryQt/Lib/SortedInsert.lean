import Mathlib.Data.List.Chain
import Mathlib.Data.List.TakeWhile
import Mathlib.Data.List.Perm.Subperm
import Mathlib.Data.Prod.Lex

/-!
# Insertion into a sorted list, except for what is there already

An item is inserted in front of those with its key, and not at all if it repeats the first of them.

* `Repeated`, `insertNew`: the insertion; `sorted_insertNew`: the list stays sorted;
* `repeated_iff`: the first one with the key decides;
* `insertAll`: a list inserted item by item; `insertAll_subperm`: nothing is new in it;
* `LastFirst`: how items with one key come to stand;
* **`insertAll_perm_iff`**: a sorted list loses nothing exactly when none repeats the one in front of it.
-/

namespace RecoveryQt

open List

variable {α κ : Type*} [LinearOrder κ] (key : α → κ) (rep : α → α → Prop)

/-- The first item that is not below `x` is repeated by it. -/
def Repeated (x : α) (l : List α) : Prop := ∃ y ∈ (l.dropWhile fun y => key y < key x).head?, rep x y

instance [DecidableRel rep] (x : α) (l : List α) : Decidable (Repeated key rep x l) :=
  decidable_of_iff ((l.dropWhile fun y => key y < key x).head?.any (rep x ·)) (by simp [Repeated, Option.any_eq_true])

/-- The insertion in front of what is not below `x`. -/
def insertNew [DecidableRel rep] (x : α) (l : List α) : List α :=
  if Repeated key rep x l then l
  else (l.takeWhile fun y => key y < key x) ++ x :: l.dropWhile fun y => key y < key x

/-- Each item is inserted, one after the other. -/
def insertAll [DecidableRel rep] (l : List α) : List α := l.foldl (fun acc x => insertNew key rep x acc) []

variable {key} {rep} {x : α} {l : List α}

/-- Sorted by the key. -/
abbrev KeySorted (key : α → κ) (l : List α) : Prop := l.Pairwise fun a b => key a ≤ key b

theorem lt_of_mem_takeWhile {y : α} (hy : y ∈ l.takeWhile fun y => key y < key x) : key y < key x := by
  have := mem_takeWhile_imp hy
  exact of_decide_eq_true this

theorem le_of_mem_dropWhile (hs : KeySorted key l) {y : α} (hy : y ∈ l.dropWhile fun y => key y < key x) :
    key x ≤ key y := by
  induction l with
  | nil => cases hy
  | cons a l ih =>
    rw [dropWhile_cons] at hy
    split_ifs at hy with ha
    · exact ih hs.of_cons hy
    · have hxa : key x ≤ key a := not_lt.mp (of_decide_eq_false (Bool.eq_false_iff.mpr ha))
      rcases mem_cons.mp hy with rfl | hy
      · exact hxa
      · exact hxa.trans (rel_of_pairwise_cons hs hy)

/-- The place of `x` is behind those below it. -/
theorem takeWhile_dropWhile_append {front : List α} (hfront : ∀ a ∈ front, key a < key x) (back : List α)
    (hback : ∀ a ∈ back.head?, key x ≤ key a) :
    (front ++ back).takeWhile (fun y => key y < key x) = front ∧
      (front ++ back).dropWhile (fun y => key y < key x) = back := by
  have hpos : ∀ a ∈ front, decide (key a < key x) = true := fun a ha => decide_eq_true (hfront a ha)
  rw [takeWhile_append_of_pos hpos, dropWhile_append_of_pos hpos]
  cases back with
  | nil => exact ⟨append_nil _, rfl⟩
  | cons b back =>
    have hb : ¬ decide (key b < key x) = true := by simpa using hback b rfl
    rw [takeWhile_cons, dropWhile_cons, if_neg hb, if_neg hb, append_nil]
    exact ⟨rfl, rfl⟩

/-- The first item with the key of `x` decides whether `x` is repeated. -/
theorem repeated_iff (hs : KeySorted key l) (hrep : ∀ {a b}, rep a b → key a = key b) :
    Repeated key rep x l ↔ ∃ y ∈ l.find? fun y => key y = key x, rep x y := by
  induction l with
  | nil => simp [Repeated]
  | cons a l ih =>
    by_cases ha : key a < key x
    · rw [find?_cons_of_neg (by simpa using ha.ne), ← ih hs.of_cons, Repeated, Repeated,
        dropWhile_cons_of_pos (by simpa using ha)]
    · rw [Repeated, dropWhile_cons_of_neg (by simpa using ha), head?_cons]
      by_cases heq : key a = key x
      · rw [find?_cons_of_pos (by simpa using heq)]
      · -- all items are above `x`
        have hnone : (a :: l).find? (fun y => key y = key x) = none := by
          refine find?_eq_none.mpr fun y hy => ?_
          have hay : key a ≤ key y := by
            rcases mem_cons.mp hy with rfl | hy
            · exact le_rfl
            · exact rel_of_pairwise_cons hs hy
          simpa using (((not_lt.mp ha).lt_of_ne' heq).trans_le hay).ne'
        rw [hnone]
        constructor
        · rintro ⟨y, hy, hxy⟩
          obtain rfl := Option.some.inj hy
          exact absurd (hrep hxy).symm heq
        · rintro ⟨y, hy, -⟩
          cases hy

variable [DecidableRel rep]

theorem insertNew_of_repeated (h : Repeated key rep x l) : insertNew key rep x l = l := if_pos h

theorem insertNew_of_not_repeated (h : ¬ Repeated key rep x l) : insertNew key rep x l =
    (l.takeWhile fun y => key y < key x) ++ x :: l.dropWhile fun y => key y < key x := if_neg h

theorem insertNew_perm (h : ¬ Repeated key rep x l) : insertNew key rep x l ~ x :: l := by
  rw [insertNew_of_not_repeated h]
  exact perm_middle.trans (by rw [takeWhile_append_dropWhile])

theorem insertNew_subperm : insertNew key rep x l <+~ x :: l := by
  by_cases h : Repeated key rep x l
  · rw [insertNew_of_repeated h]
    exact (sublist_cons_self x l).subperm
  · exact (insertNew_perm h).subperm

/-- **The list stays sorted.** -/
theorem sorted_insertNew (hs : KeySorted key l) : KeySorted key (insertNew key rep x l) := by
  by_cases h : Repeated key rep x l
  · rwa [insertNew_of_repeated h]
  · rw [insertNew_of_not_repeated h]
    rw [← takeWhile_append_dropWhile (p := fun y => decide (key y < key x)) (l := l)] at hs
    obtain ⟨htake, hdrop, -⟩ := pairwise_append.mp hs
    rw [takeWhile_append_dropWhile] at hs
    refine pairwise_append.mpr ⟨htake, pairwise_cons.mpr ⟨fun y hy => le_of_mem_dropWhile hs hy, hdrop⟩, ?_⟩
    intro a ha b hb
    have hax := lt_of_mem_takeWhile ha
    rcases mem_cons.mp hb with rfl | hb
    · exact hax.le
    · exact hax.le.trans (le_of_mem_dropWhile hs hb)

/-! ## A list inserted item by item -/

theorem insertAll_concat (l : List α) (x : α) :
    insertAll key rep (l ++ [x]) = insertNew key rep x (insertAll key rep l) := by
  rw [insertAll, foldl_append]
  rfl

theorem sorted_insertAll (l : List α) : KeySorted key (insertAll key rep l) := by
  induction l using reverseRecOn with
  | nil => exact Pairwise.nil
  | append_singleton l x ih =>
    rw [insertAll_concat]
    exact sorted_insertNew ih

theorem insertAll_subperm (l : List α) : insertAll key rep l <+~ l := by
  induction l using reverseRecOn with
  | nil => exact Subperm.refl _
  | append_singleton l x ih =>
    rw [insertAll_concat]
    exact insertNew_subperm.trans (((subperm_cons x).mpr ih).trans (perm_append_singleton x l).symm.subperm)

/-- The items with the greatest key stand in front of each other, the last one first. -/
def LastFirst (key : α → κ) (y : α) (l : List α) : Prop :=
  ∃ front back, l = front ++ y :: back ∧ (∀ a ∈ front, key a < key y) ∧ ∀ a ∈ back, key a = key y

/-- Where an item that is not below the last one goes. -/
theorem LastFirst.insertNew {y : α} (h : LastFirst key y l) (hle : key y ≤ key x)
    (hrep : ∀ {a b}, rep a b → key a = key b) :
    (Repeated key rep x l ↔ rep x y) ∧ (¬ rep x y → LastFirst key x (insertNew key rep x l)) := by
  obtain ⟨front, back, rfl, hfront, hback⟩ := h
  rcases hle.lt_or_eq with hlt | heq
  · -- all items are below `x`
    have hall : ∀ a ∈ front ++ y :: back, key a < key x := by
      intro a ha
      rcases mem_append.mp ha with ha | ha
      · exact (hfront a ha).trans hlt
      · rcases mem_cons.mp ha with rfl | ha
        · exact hlt
        · exact (hback a ha).trans_lt hlt
    obtain ⟨htake, hdrop⟩ := takeWhile_dropWhile_append hall [] nofun
    rw [append_nil] at htake hdrop
    have hnone : ¬ Repeated key rep x (front ++ y :: back) := by simp [Repeated, hdrop]
    refine ⟨iff_of_false hnone fun hxy => hlt.ne (hrep hxy).symm, fun _ => ⟨front ++ y :: back, [], ?_, hall, nofun⟩⟩
    rw [insertNew_of_not_repeated hnone, htake, hdrop]
  · have hbelow : ∀ a ∈ front, key a < key x := fun a ha => (hfront a ha).trans_eq heq
    obtain ⟨htake, hdrop⟩ := takeWhile_dropWhile_append hbelow (y :: back) (by simpa using heq.ge)
    have hiff : Repeated key rep x (front ++ y :: back) ↔ rep x y := by simp [Repeated, hdrop]
    refine ⟨hiff, fun hxy => ⟨front, y :: back, ?_, hbelow, ?_⟩⟩
    · rw [insertNew_of_not_repeated (hiff.not.mpr hxy), htake, hdrop]
    · intro a ha
      rcases mem_cons.mp ha with rfl | ha
      · exact heq
      · exact (hback a ha).trans heq

/-- A sorted list in which none repeats the one in front of it keeps all its items; any other one loses some. -/
theorem insertAll_cases (hs : KeySorted key l) (hrep : ∀ {a b}, rep a b → key a = key b) :
    (l.IsChain (fun a b => ¬ rep b a) → insertAll key rep l ~ l ∧ ∀ y ∈ l.getLast?, LastFirst key y (insertAll key rep l)) ∧
    (¬ l.IsChain (fun a b => ¬ rep b a) → (insertAll key rep l).length < l.length) := by
  induction l using reverseRecOn with
  | nil => exact ⟨fun _ => ⟨Perm.refl _, nofun⟩, fun h => absurd IsChain.nil h⟩
  | append_singleton l x ih =>
    obtain ⟨hl, -, hlx⟩ := pairwise_append.mp hs
    obtain ⟨ihc, ihn⟩ := ih hl
    have hlen : (insertNew key rep x (insertAll key rep l)).length ≤ (insertAll key rep l).length + 1 :=
      insertNew_subperm.length_le
    have hchain : (l ++ [x]).IsChain (fun a b => ¬ rep b a) ↔
        l.IsChain (fun a b => ¬ rep b a) ∧ ∀ y ∈ l.getLast?, ¬ rep x y := by
      simp [isChain_append]
    rw [insertAll_concat, hchain, getLast?_append, getLast?_singleton, length_append, length_singleton]
    by_cases hc : l.IsChain fun a b => ¬ rep b a
    · obtain ⟨hperm, hlast⟩ := ihc hc
      rcases eq_nil_or_concat l with rfl | ⟨l, y, rfl⟩
      · have hnot : ¬ Repeated key rep x (insertAll key rep []) := by simp [Repeated, insertAll]
        refine ⟨fun _ => ⟨(insertNew_perm hnot).trans (hperm.cons x), ?_⟩, fun h => absurd ⟨hc, nofun⟩ h⟩
        rintro _ ⟨⟩
        exact ⟨[], [], insertNew_of_not_repeated hnot, nofun, nofun⟩
      · rw [concat_eq_append] at *
        have hy : y ∈ (l ++ [y]).getLast? := by simp
        obtain ⟨hiff, hnext⟩ :=
          (hlast y hy).insertNew (x := x) (hlx y (by simp) x (by simp)) hrep
        constructor
        · rintro ⟨-, hxy⟩
          have hnot := hiff.not.mpr (hxy y hy)
          refine ⟨(insertNew_perm hnot).trans ((hperm.cons x).trans (perm_append_singleton x _).symm), ?_⟩
          rintro _ ⟨⟩
          exact hnext (hxy y hy)
        · intro h
          have hxy : rep x y := by
            by_contra hxy
            refine h ⟨hc, fun z hz => ?_⟩
            obtain rfl := Option.mem_unique hy hz
            exact hxy
          rw [insertNew_of_repeated (hiff.mpr hxy), hperm.length_eq]
          exact Nat.lt_succ_self _
    · exact ⟨fun h => absurd h.1 hc, fun _ => hlen.trans_lt (Nat.succ_lt_succ (ihn hc))⟩

/-- **A sorted list loses nothing** exactly when none of its items repeats the one in front of it. -/
theorem insertAll_perm_iff (hs : KeySorted key l) (hrep : ∀ {a b}, rep a b → key a = key b) :
    insertAll key rep l ~ l ↔ l.IsChain fun a b => ¬ rep b a := by
  obtain ⟨hc, hn⟩ := insertAll_cases hs hrep
  refine ⟨fun hperm => ?_, fun h => (hc h).1⟩
  by_contra h
  exact (hn h).ne hperm.length_eq

end RecoveryQt
