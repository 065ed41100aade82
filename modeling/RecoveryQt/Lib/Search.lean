import Mathlib.Data.List.Basic

/-!
# Binary search

* `search`: the half-open binary search in a list sorted by a key;
* `SortedBy`: strictly sorted; `sortBy_sorted`: so is a sorted list of distinct keys;
* **`search_eq_some_iff`**: the search finds the item with the key, and no other.
-/

namespace RecoveryQt

open List

variable {κ α : Type*} [Ord κ]

/-- Look for the key `k` in the positions `lo .. hi - 1`. -/
def search (key : α → κ) (xs : List α) (k : κ) (lo hi : ℕ) : Option α :=
  if lo < hi then
    let mid := lo + (hi - lo) / 2
    match xs[mid]? with
    | none => none
    | some x =>
      match compare k (key x) with
      | .eq => some x
      | .lt => search key xs k lo mid
      | .gt => search key xs k (mid + 1) hi
  else none
termination_by hi - lo

/-- Strictly sorted by the key. -/
def SortedBy (key : α → κ) (xs : List α) : Prop :=
  xs.Pairwise fun x y => compare (key x) (key y) = .lt

/-- `qsort` with the comparison of the keys. -/
def sortBy (key : α → κ) (xs : List α) : List α :=
  xs.mergeSort fun x y => (compare (key x) (key y)).isLE

variable [Std.TransOrd κ] [Std.LawfulEqOrd κ] {key : α → κ} {xs : List α} {k : κ}

omit [Std.TransOrd κ] in
/-- **What the search finds has the key.** -/
theorem search_sound {x : α} {lo hi : ℕ} (h : search key xs k lo hi = some x) :
    x ∈ xs ∧ key x = k := by
  fun_induction search key xs k lo hi with
  | case1 => simp at h
  | case2 lo hi hlt mid y hy heq =>
    obtain rfl := Option.some.inj h
    exact ⟨mem_of_getElem? hy, (Std.LawfulEqCmp.eq_of_compare heq).symm⟩
  | case3 lo hi hlt mid y hy heq ih => exact ih h
  | case4 lo hi hlt mid y hy heq ih => exact ih h
  | case5 => simp at h

/-- **An item with the key is found** when its position is in the range. -/
theorem search_complete (hs : SortedBy key xs) {x : α} {lo hi i : ℕ} (hi' : hi ≤ xs.length)
    (hx : xs[i]? = some x) (hlo : lo ≤ i) (hhi : i < hi) :
    search key xs (key x) lo hi = some x := by
  have hlt : ∀ {i j : ℕ} {x y : α}, xs[i]? = some x → xs[j]? = some y → i < j →
      compare (key x) (key y) = .lt := by
    intro i j x y hx hy hij
    obtain ⟨hi, rfl⟩ := List.getElem?_eq_some_iff.mp hx
    obtain ⟨hj, rfl⟩ := List.getElem?_eq_some_iff.mp hy
    exact pairwise_iff_getElem.mp hs i j hi hj hij
  fun_induction search key xs (key x) lo hi with
  | case1 lo hi h mid hnone =>
    rw [List.getElem?_eq_none_iff] at hnone
    omega
  | case2 lo hi h mid y hy heq =>
    -- a position with the same key is the same position
    rcases Nat.lt_trichotomy i mid with him | rfl | hmi
    · rw [hlt hx hy him] at heq
      cases heq
    · rw [hx] at hy
      exact hy.symm
    · rw [Std.OrientedCmp.gt_of_lt (hlt hy hx hmi)] at heq
      cases heq
  | case3 lo hi h mid y hy heq ih =>
    have him : i < mid := by
      by_contra hle
      rcases Nat.lt_or_eq_of_le (Nat.le_of_not_lt hle) with hmi | rfl
      · rw [Std.OrientedCmp.gt_of_lt (hlt hy hx hmi)] at heq
        cases heq
      · rw [hx, Option.some.injEq] at hy
        subst hy
        rw [Std.ReflOrd.compare_self] at heq
        cases heq
    exact ih (by omega) hlo him
  | case4 lo hi h mid y hy heq ih =>
    have hmi : mid < i := by
      by_contra hle
      rcases Nat.lt_or_eq_of_le (Nat.le_of_not_lt hle) with him | rfl
      · rw [hlt hx hy him] at heq
        cases heq
      · rw [hx, Option.some.injEq] at hy
        subst hy
        rw [Std.ReflOrd.compare_self] at heq
        cases heq
    exact ih hi' hmi hhi
  | case5 lo hi h => omega

/-- **The search finds the item with the key, and no other.** -/
theorem search_eq_some_iff (hs : SortedBy key xs) {x : α} :
    search key xs k 0 xs.length = some x ↔ x ∈ xs ∧ key x = k := by
  constructor
  · exact search_sound
  · rintro ⟨hx, rfl⟩
    obtain ⟨i, hi, rfl⟩ := getElem_of_mem hx
    exact search_complete hs (Nat.le_refl _) (getElem?_eq_getElem hi) (Nat.zero_le i) hi

omit [Std.TransOrd κ] [Std.LawfulEqOrd κ] in
theorem mem_sortBy {x : α} : x ∈ sortBy key xs ↔ x ∈ xs := (mergeSort_perm xs _).mem_iff

/-- A sorted list of items with distinct keys is strictly sorted. -/
theorem sortBy_sorted (h : (xs.map key).Nodup) : SortedBy key (sortBy key xs) := by
  have hsorted : (sortBy key xs).Pairwise fun x y => (compare (key x) (key y)).isLE = true :=
    pairwise_mergeSort (fun _ _ _ => Std.TransCmp.isLE_trans)
      (fun x y => by
        rw [Std.OrientedOrd.eq_swap (a := key y)]
        cases compare (key x) (key y) <;> rfl) xs
  have hnodup : ((sortBy key xs).map key).Nodup :=
    ((mergeSort_perm xs _).map key).nodup_iff.mpr h
  rw [Nodup, pairwise_map] at hnodup
  refine (hsorted.and hnodup).imp fun {x y} hxy => ?_
  obtain ⟨hle, hne⟩ := hxy
  cases hcmp : compare (key x) (key y) with
  | lt => rfl
  | eq => exact absurd (Std.LawfulEqCmp.eq_of_compare hcmp) hne
  | gt => simp [hcmp] at hle

end RecoveryQt
