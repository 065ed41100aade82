import Mathlib.Data.List.Basic

/-!
# Merge sort from the bottom up

The items come one after the other. A level holds nothing or a sorted list; a new list is merged with those that
are in its way, as a binary counter is counted up, and the last level takes whatever is left.

* `StablePerm`: the same items, those that compare equal in the same order;
* `StablePerm.eq_of_sorted`: there is one such list that is sorted, `mergeSort_stablePerm`;
* `merge_stablePerm`: merging two sorted lists;
* `carry`, `collect`, `bottomUpSort`: the levels;
* **`bottomUpSort_perm`**: no item is lost, whatever the comparison;
* **`bottomUpSort_eq_mergeSort`**: the result is that of the recursive sort.
-/

namespace RecoveryQt

open List

variable {α : Type*} (le : α → α → Bool)

/-- The items that compare equal with `x`. -/
def ties (x : α) (xs : List α) : List α := xs.filter fun y => le x y && le y x

/-- **The same items**, and those that compare equal are in the same order. -/
structure StablePerm (xs ys : List α) : Prop where
  perm : xs ~ ys
  ties : ∀ x, ties le x xs = ties le x ys

variable {le} {xs ys zs : List α}

namespace StablePerm

theorem refl (xs : List α) : StablePerm le xs xs := ⟨Perm.refl _, fun _ => rfl⟩

theorem symm (h : StablePerm le xs ys) : StablePerm le ys xs := ⟨h.perm.symm, fun x => (h.ties x).symm⟩

theorem trans (h : StablePerm le xs ys) (h' : StablePerm le ys zs) : StablePerm le xs zs :=
  ⟨h.perm.trans h'.perm, fun x => (h.ties x).trans (h'.ties x)⟩

theorem append {xs' ys' : List α} (h : StablePerm le xs ys) (h' : StablePerm le xs' ys') :
    StablePerm le (xs ++ xs') (ys ++ ys') := by
  refine ⟨h.perm.append h'.perm, fun x => ?_⟩
  have hfront := h.ties x
  have hback := h'.ties x
  unfold RecoveryQt.ties at *
  rw [filter_append, filter_append, hfront, hback]

theorem cons (x : α) (h : StablePerm le xs ys) : StablePerm le (x :: xs) (x :: ys) := (refl [x]).append h

/-- An item is taken away from the front of both lists. -/
theorem of_cons {x : α} (h : StablePerm le (x :: xs) (x :: ys)) : StablePerm le xs ys := by
  refine ⟨(perm_cons x).mp h.perm, fun z => ?_⟩
  have hties := h.ties z
  unfold RecoveryQt.ties at *
  rw [filter_cons, filter_cons] at hties
  split at hties
  · exact (cons.inj hties).2
  · exact hties

end StablePerm

section Order

variable (htrans : ∀ a b c, le a b → le b c → le a c) (htotal : ∀ a b, le a b || le b a)

include htotal in
theorem le_self (a : α) : le a a = true := by simpa using htotal a a

include htotal in
theorem le_of_not_le {a b : α} (h : ¬ le a b = true) : le b a = true := by
  have := htotal a b
  simp_all

include htotal in
/-- **A sorted list is determined** by its items and the order of those that compare equal. -/
theorem StablePerm.eq_of_sorted (h : StablePerm le xs ys) (hxs : xs.Pairwise (le · ·)) (hys : ys.Pairwise (le · ·)) :
    xs = ys := by
  induction xs generalizing ys with
  | nil => exact h.perm.nil_eq
  | cons x xs ih =>
    cases ys with
    | nil => exact absurd h.perm.symm.nil_eq (by simp)
    | cons y ys =>
      obtain ⟨hx, hxs'⟩ := pairwise_cons.mp hxs
      obtain ⟨hy, hys'⟩ := pairwise_cons.mp hys
      have hxy : le x y = true := by
        rcases mem_cons.mp (h.perm.mem_iff.mpr mem_cons_self) with rfl | hmem
        · exact le_self htotal y
        · exact hx y hmem
      have hyx : le y x = true := by
        rcases mem_cons.mp (h.perm.mem_iff.mp mem_cons_self) with rfl | hmem
        · exact le_self htotal x
        · exact hy x hmem
      have hhead := h.ties x
      have hself := le_self htotal x
      simp only [RecoveryQt.ties, filter_cons, hxy, hyx, hself, Bool.and_self, if_true] at hhead
      obtain rfl : x = y := (List.cons.inj hhead).1
      rw [ih h.of_cons hxs' hys']

include htrans htotal in
/-- **Merging two sorted lists** keeps the order of the items that compare equal. -/
theorem merge_stablePerm (hxs : xs.Pairwise (le · ·)) (hys : ys.Pairwise (le · ·)) :
    StablePerm le (merge xs ys le) (xs ++ ys) := by
  refine ⟨merge_perm_append le, fun z => ?_⟩
  induction xs generalizing ys with
  | nil => simp
  | cons x xs ihx =>
    induction ys with
    | nil => simp
    | cons y ys ihy =>
      have hxs' := hxs
      obtain ⟨hx, hxs⟩ := pairwise_cons.mp hxs
      obtain ⟨-, hys'⟩ := pairwise_cons.mp hys
      unfold ties at *
      by_cases hle : le x y = true
      · rw [cons_merge_cons_pos le _ _ hle, cons_append, filter_cons, filter_cons, ihx hxs hys]
      · rw [cons_merge_cons_neg le _ _ hle, filter_cons, ihy hys']
        have hyx := le_of_not_le htotal hle
        -- no item of the first list compares equal with one that `y` compares equal with
        have hfront : (le z y && le y z) = true → (x :: xs).filter (fun w => le z w && le w z) = [] := by
          intro htie
          rw [filter_eq_nil_iff]
          intro w hw hwz
          rw [Bool.and_eq_true] at htie hwz
          have hxw : le x w = true := by
            rcases mem_cons.mp hw with rfl | hmem
            · exact le_self htotal w
            · exact hx w hmem
          exact hle (htrans _ _ _ hxw (htrans _ _ _ hwz.2 htie.1))
        rw [filter_append, filter_append, filter_cons (x := y)]
        split
        · rename_i htie
          rw [hfront htie]
          rfl
        · rfl

include htrans htotal in
/-- The recursive sort keeps the order of the items that compare equal. -/
theorem mergeSort_stablePerm (xs : List α) : StablePerm le (xs.mergeSort le) xs := by
  refine ⟨mergeSort_perm xs le, fun x => ?_⟩
  have hsorted : (ties le x xs).Pairwise (le · ·) := by
    refine pairwise_of_forall_mem_list fun a ha b hb => ?_
    have ha := (mem_filter.mp ha).2
    have hb := (mem_filter.mp hb).2
    rw [Bool.and_eq_true] at ha hb
    exact htrans _ _ _ ha.2 hb.1
  have hsub : ties le x xs <+ ties le x (xs.mergeSort le) := by
    have := (sublist_mergeSort htrans htotal hsorted filter_sublist).filter fun y => le x y && le y x
    rwa [ties, filter_filter, filter_congr (q := fun y => le x y && le y x) (by simp)] at this
  exact (hsub.eq_of_length ((mergeSort_perm xs le).filter _).length_eq.symm).symm

end Order

/-! ## The levels -/

variable (le) in
/-- A list is put in the levels. -/
def carry : List (List α) → List α → List (List α)
  | [], cur => [cur]
  | [] :: parts, cur => cur :: parts
  | [x :: part], cur => [merge (x :: part) cur le]
  | (x :: part) :: p :: parts, cur => [] :: carry (p :: parts) (merge (x :: part) cur le)

variable (le) in
/-- The levels are merged, from the lowest on. -/
def collect (parts : List (List α)) : List α := parts.foldl (fun list part => merge part list le) []

variable (le) in
/-- All items are put in the levels, one after the other. -/
def bottomUpSort (levels : ℕ) (xs : List α) : List α :=
  collect le (xs.foldl (fun parts x => carry le parts [x]) (replicate levels []))

/-- The items of the levels, from the oldest on. -/
def levelItems (parts : List (List α)) : List α := parts.reverse.flatten

theorem levelItems_cons (part : List α) (parts : List (List α)) :
    levelItems (part :: parts) = levelItems parts ++ part := by
  simp [levelItems]

theorem levelItems_append (parts parts' : List (List α)) :
    levelItems (parts ++ parts') = levelItems parts' ++ levelItems parts := by
  simp [levelItems]

theorem levelItems_replicate (n : ℕ) : levelItems (replicate n ([] : List α)) = [] := by simp [levelItems]

variable {parts : List (List α)} {cur : List α}

theorem carry_perm : levelItems (carry le parts cur) ~ levelItems parts ++ cur := by
  induction parts, cur using carry.induct le with
  | case1 cur => simp [carry, levelItems]
  | case2 parts cur => simp [carry, levelItems_cons]
  | case3 x part cur => simpa [carry, levelItems] using (merge_perm_append le : merge (x :: part) cur le ~ x :: part ++ cur)
  | case4 x part p parts cur ih =>
    rw [carry, levelItems_cons, append_nil, levelItems_cons, append_assoc]
    exact ih.trans ((merge_perm_append le).append_left _)

theorem length_carry (h : parts ≠ []) : (carry le parts cur).length = parts.length := by
  induction parts, cur using carry.induct le with
  | case1 cur => exact absurd rfl h
  | case2 parts cur => rfl
  | case3 x part cur => rfl
  | case4 x part p parts cur ih => rw [carry, length_cons, length_cons, ih (cons_ne_nil _ _)]

theorem foldl_merge_perm (list : List α) :
    parts.foldl (fun list part => merge part list le) list ~ levelItems parts ++ list := by
  induction parts generalizing list with
  | nil => simp [levelItems]
  | cons part parts ih =>
    rw [foldl_cons, levelItems_cons, append_assoc]
    exact (ih _).trans ((merge_perm_append le).append_left _)

theorem collect_perm : collect le parts ~ levelItems parts := by
  have hperm : collect le parts ~ levelItems parts ++ [] := foldl_merge_perm []
  rwa [append_nil] at hperm

/-- **No item is lost**, whatever the comparison says. -/
theorem bottomUpSort_perm (levels : ℕ) (xs : List α) : bottomUpSort le levels xs ~ xs := by
  have hlevels : ∀ parts : List (List α),
      levelItems (xs.foldl (fun parts x => carry le parts [x]) parts) ~ levelItems parts ++ xs := by
    induction xs with
    | nil => simp
    | cons x xs ih =>
      intro parts
      have hstep := (ih (carry le parts [x])).trans (carry_perm.append_right xs)
      rwa [append_assoc] at hstep
  have hall := hlevels (replicate levels [])
  rw [levelItems_replicate, nil_append] at hall
  exact collect_perm.trans hall

section Order

variable (htrans : ∀ a b c, le a b → le b c → le a c) (htotal : ∀ a b, le a b || le b a)

include htrans htotal

/-- The levels stay sorted, and keep the order of the items that compare equal. -/
theorem carry_stablePerm (hparts : ∀ part ∈ parts, part.Pairwise (le · ·)) (hcur : cur.Pairwise (le · ·)) :
    (∀ part ∈ carry le parts cur, part.Pairwise (le · ·)) ∧
      StablePerm le (levelItems (carry le parts cur)) (levelItems parts ++ cur) := by
  induction parts, cur using carry.induct le with
  | case1 cur => simpa [carry, levelItems, StablePerm.refl] using hcur
  | case2 parts cur =>
    obtain ⟨-, hparts⟩ := forall_mem_cons.mp hparts
    refine ⟨forall_mem_cons.mpr ⟨hcur, hparts⟩, ?_⟩
    rw [carry, levelItems_cons, levelItems_cons, append_nil]
    exact StablePerm.refl _
  | case3 x part cur =>
    have hpart := hparts (x :: part) mem_cons_self
    refine ⟨forall_mem_singleton.mpr (pairwise_merge htrans htotal _ _ hpart hcur), ?_⟩
    simpa [carry, levelItems] using merge_stablePerm htrans htotal hpart hcur
  | case4 x part p parts cur ih =>
    obtain ⟨hpart, hparts⟩ := forall_mem_cons.mp hparts
    obtain ⟨hsorted, hstable⟩ := ih hparts (pairwise_merge htrans htotal _ _ hpart hcur)
    refine ⟨forall_mem_cons.mpr ⟨Pairwise.nil, hsorted⟩, ?_⟩
    rw [carry, levelItems_cons, append_nil, levelItems_cons (x :: part), append_assoc]
    exact hstable.trans ((StablePerm.refl _).append (merge_stablePerm htrans htotal hpart hcur))

theorem foldl_merge_stablePerm (hparts : ∀ part ∈ parts, part.Pairwise (le · ·)) {list : List α}
    (hlist : list.Pairwise (le · ·)) :
    (parts.foldl (fun list part => merge part list le) list).Pairwise (le · ·) ∧
      StablePerm le (parts.foldl (fun list part => merge part list le) list) (levelItems parts ++ list) := by
  induction parts generalizing list with
  | nil => simpa [levelItems, StablePerm.refl] using hlist
  | cons part parts ih =>
    obtain ⟨hpart, hparts⟩ := forall_mem_cons.mp hparts
    obtain ⟨hsorted, hstable⟩ := ih hparts (pairwise_merge htrans htotal _ _ hpart hlist)
    refine ⟨hsorted, ?_⟩
    rw [foldl_cons, levelItems_cons, append_assoc]
    exact hstable.trans ((StablePerm.refl _).append (merge_stablePerm htrans htotal hpart hlist))

/-- **The result is that of the recursive sort**, for any number of levels. -/
theorem bottomUpSort_eq_mergeSort (levels : ℕ) (xs : List α) : bottomUpSort le levels xs = xs.mergeSort le := by
  have hlevels : ∀ parts : List (List α), (∀ part ∈ parts, part.Pairwise (le · ·)) →
      (∀ part ∈ xs.foldl (fun parts x => carry le parts [x]) parts, part.Pairwise (le · ·)) ∧
        StablePerm le (levelItems (xs.foldl (fun parts x => carry le parts [x]) parts)) (levelItems parts ++ xs) := by
    induction xs with
    | nil => intro parts hparts; simpa [StablePerm.refl] using hparts
    | cons x xs ih =>
      intro parts hparts
      obtain ⟨hsorted, hstable⟩ := carry_stablePerm htrans htotal hparts (pairwise_singleton _ x)
      obtain ⟨hsorted', hstable'⟩ := ih _ hsorted
      have hstep := hstable'.trans (hstable.append (StablePerm.refl xs))
      rw [append_assoc] at hstep
      exact ⟨hsorted', hstep⟩
  obtain ⟨hsorted, hstable⟩ := hlevels (replicate levels []) fun part hpart => by simp [eq_of_mem_replicate hpart]
  obtain ⟨hresult, hmerged⟩ := foldl_merge_stablePerm htrans htotal hsorted (Pairwise.nil (R := (le · ·)))
  rw [append_nil] at hmerged
  rw [levelItems_replicate, nil_append] at hstable
  have hboth := (hmerged.trans hstable).trans (mergeSort_stablePerm htrans htotal xs).symm
  exact hboth.eq_of_sorted htotal hresult (pairwise_mergeSort htrans htotal xs)

end Order

end RecoveryQt
