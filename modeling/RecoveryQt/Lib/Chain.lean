import Mathlib.Data.List.Basic
import Mathlib.Logic.Function.Iterate

/-!
# Chains of links

From a start, a walk takes the links `next` one after the other; it ends at an element that is not
`ok`, at a link that is a `stop`, or when the room is used up.

* `chainWalk`: the elements visited; `Linked`: an element of the chain is reached from the last;
* **`lt_length_chainWalk`**: the walk has more than `k` elements exactly when the room and the
  links allow it;
* `chainWalk_eq_map`, `getElem?_chainWalk`, `mem_chainWalk`: the elements are the iterates of `next`.
-/

namespace RecoveryQt

open List

variable {κ : Type*} (ok stop : κ → Prop) [DecidablePred ok] [DecidablePred stop] (next : κ → κ)

/-- The elements visited from `c` on, `room` at most. -/
def chainWalk : ℕ → κ → List κ
  | 0, _ => []
  | room + 1, c =>
    if ok c then c :: (if stop (next c) then [] else chainWalk room (next c)) else []

omit [DecidablePred ok] [DecidablePred stop] in
/-- The element after `j` links is `ok` and, unless it is the first one, no `stop`. -/
def Linked (c : κ) (j : ℕ) : Prop := ok (next^[j] c) ∧ (j ≠ 0 → ¬ stop (next^[j] c))

variable {ok stop next}

omit [DecidablePred ok] [DecidablePred stop] in
theorem forall_linked_succ {c : κ} {k : ℕ} :
    (∀ j ≤ k + 1, Linked ok stop next c j) ↔
      ok c ∧ ¬ stop (next c) ∧ ∀ j ≤ k, Linked ok stop next (next c) j := by
  constructor
  · intro h
    refine ⟨(h 0 (Nat.zero_le _)).1, (h 1 (by omega)).2 Nat.one_ne_zero, fun j hj => ?_⟩
    have hj1 := h (j + 1) (by omega)
    rw [Linked, Function.iterate_succ_apply] at hj1
    exact ⟨hj1.1, fun _ => hj1.2 (Nat.succ_ne_zero j)⟩
  · rintro ⟨hc, hstop, h⟩ j hj
    cases j with
    | zero => exact ⟨hc, fun h0 => absurd rfl h0⟩
    | succ j =>
      have hj := h j (by omega)
      refine ⟨hj.1, fun _ => ?_⟩
      rw [Function.iterate_succ_apply]
      cases j with
      | zero => exact hstop
      | succ j => exact hj.2 (Nat.succ_ne_zero j)

/-- **How far a walk gets.** -/
theorem lt_length_chainWalk {room k : ℕ} {c : κ} :
    k < (chainWalk ok stop next room c).length ↔
      k < room ∧ ∀ j ≤ k, Linked ok stop next c j := by
  induction room generalizing c k with
  | zero => simp [chainWalk]
  | succ room ih =>
    rw [chainWalk]
    by_cases hc : ok c
    · rw [if_pos hc, length_cons]
      cases k with
      | zero =>
        refine iff_of_true (Nat.succ_pos _) ⟨Nat.succ_pos _, fun j hj => ?_⟩
        obtain rfl := Nat.le_zero.mp hj
        exact ⟨hc, fun h0 => absurd rfl h0⟩
      | succ k =>
        rw [Nat.succ_lt_succ_iff, Nat.succ_lt_succ_iff, forall_linked_succ, and_iff_right hc]
        by_cases hstop : stop (next c)
        · rw [if_pos hstop]
          exact iff_of_false (Nat.not_lt_zero k) fun h => h.2.1 hstop
        · rw [if_neg hstop, ih, and_iff_right hstop]
    · rw [if_neg hc]
      refine iff_of_false (Nat.not_lt_zero k) fun h => hc (h.2 0 (Nat.zero_le k)).1

/-- **The elements of a walk are the iterates of the links.** -/
theorem chainWalk_eq_map (room : ℕ) (c : κ) :
    chainWalk ok stop next room c =
      (range (chainWalk ok stop next room c).length).map fun k => next^[k] c := by
  induction room generalizing c with
  | zero => rfl
  | succ room ih =>
    rw [chainWalk]
    split_ifs with hc hstop
    · rfl
    · rw [length_cons, range_succ_eq_map, map_cons, map_map]
      congr 1
      exact ih (next c)
    · rfl

theorem length_chainWalk_le (room : ℕ) (c : κ) : (chainWalk ok stop next room c).length ≤ room := by
  by_contra h
  exact absurd (lt_length_chainWalk.mp (Nat.not_le.mp h)).1 (Nat.lt_irrefl room)

theorem getElem?_chainWalk {room k : ℕ} {c : κ} (hk : k < (chainWalk ok stop next room c).length) :
    (chainWalk ok stop next room c)[k]? = some (next^[k] c) := by
  rw [chainWalk_eq_map, getElem?_map, getElem?_range hk, Option.map_some]

theorem mem_chainWalk {room : ℕ} {c x : κ} :
    x ∈ chainWalk ok stop next room c ↔
      ∃ k < room, (∀ j ≤ k, Linked ok stop next c j) ∧ next^[k] c = x := by
  rw [chainWalk_eq_map, mem_map]
  simp only [mem_range, lt_length_chainWalk, and_assoc]

/-- The first elements of a walk, as many as it visits. -/
theorem take_chainWalk {room n : ℕ} {c : κ} (hn : n ≤ (chainWalk ok stop next room c).length) :
    (chainWalk ok stop next room c).take n = (range n).map fun k => next^[k] c := by
  rw [chainWalk_eq_map, ← map_take, take_range, Nat.min_eq_left hn]

end RecoveryQt
