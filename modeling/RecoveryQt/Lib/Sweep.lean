import Mathlib.Data.List.Range
import Mathlib.Order.Monotone.Basic

/-!
# Nested loops with one exit

Loops in loops over a row of numbers, which are all left when one of them comes to a limit.

* `Swept`, `sweep`: what a loop lists, and whether it has come to the exit;
* `Swept.Covers`: the numbers of a range below the limit are listed;
* **`covers_sweep`**: a loop covers what its rounds do.
-/

namespace RecoveryQt

open List

variable {β : Type*}

/-- What a loop lists, and whether it has come to the exit. -/
structure Swept (β : Type*) where
  listed : List β
  done : Bool

/-- A loop of some rounds, from the round `i` on. -/
def sweep (g : ℕ → Swept β) : ℕ → ℕ → Swept β
  | _, 0 => ⟨[], false⟩
  | i, n + 1 =>
    if (g i).done then g i else ⟨(g i).listed ++ (sweep g (i + 1) n).listed, (sweep g (i + 1) n).done⟩

/-- A round for one number. -/
def sweepOne (limit r : ℕ) (l : List β) : Swept β := if limit ≤ r then ⟨[], true⟩ else ⟨l, false⟩

namespace Swept

variable {limit : ℕ} {f : ℕ → List β} {a b c : ℕ} {s t : Swept β}

/-- What is listed for the numbers from `a` to `b` that are below the limit; the exit is taken at one that is not. -/
structure Covers (limit : ℕ) (f : ℕ → List β) (a b : ℕ) (s : Swept β) : Prop where
  listed : s.listed = (range' a (min b limit - a)).flatMap f
  done : s.done = true ↔ max a limit < b

theorem covers_nil (a : ℕ) : Covers limit f a a ⟨[], false⟩ where
  listed := by rw [Nat.sub_eq_zero_of_le (min_le_left a limit)]; rfl
  done := iff_of_false Bool.false_ne_true (not_lt.mpr (le_max_left a limit))

theorem covers_one (r : ℕ) : Covers limit f r (r + 1) (sweepOne limit r (f r)) := by
  unfold sweepOne
  split_ifs with h
  · refine ⟨?_, iff_of_true rfl (by omega)⟩
    rw [Nat.sub_eq_zero_of_le (by omega)]
    rfl
  · refine ⟨?_, iff_of_false Bool.false_ne_true (by omega)⟩
    rw [min_eq_left (by omega), Nat.add_sub_cancel_left, range'_one, flatMap_singleton]

/-- The exit is taken in the first range. -/
theorem Covers.of_done (h : Covers limit f a b s) (hbc : b ≤ c) (hdone : s.done = true) : Covers limit f a c s := by
  have hlt := h.done.mp hdone
  refine ⟨?_, iff_of_true hdone (by omega)⟩
  rw [h.listed, min_eq_right (by omega), min_eq_right (by omega)]

/-- Two ranges in a row. -/
theorem Covers.append (h : Covers limit f a b s) (ht : Covers limit f b c t) (hab : a ≤ b) (hbc : b ≤ c)
    (hdone : s.done = false) : Covers limit f a c ⟨s.listed ++ t.listed, t.done⟩ := by
  have hle : b ≤ max a limit := not_lt.mp fun hlt => by simp [h.done.mpr hlt] at hdone
  refine ⟨?_, by rw [ht.done]; omega⟩
  have hsplit : min c limit - a = (min b limit - a) + (min c limit - b) := by omega
  have hstart : b = a + (min b limit - a) ∨ min c limit - b = 0 := by omega
  show s.listed ++ t.listed = _
  rw [h.listed, ht.listed, hsplit, ← flatMap_append, ← range'_append_1]
  rcases hstart with hb | hzero
  · rw [← hb]
  · rw [hzero]
    rfl

end Swept

/-- **A loop covers what its rounds cover.** -/
theorem covers_sweep {limit : ℕ} {f : ℕ → List β} {g : ℕ → Swept β} {p : ℕ → ℕ} (hp : Monotone p) {i n : ℕ}
    (hg : ∀ j, j < i + n → (g j).Covers limit f (p j) (p (j + 1))) : (sweep g i n).Covers limit f (p i) (p (i + n)) := by
  induction n generalizing i with
  | zero => exact Swept.covers_nil (p i)
  | succ n ih =>
    have hround := hg i (by omega)
    have hrest := ih (i := i + 1) fun j hj => hg j (by omega)
    rw [Nat.add_right_comm, Nat.add_assoc] at hrest
    rw [sweep]
    split_ifs with hdone
    · exact hround.of_done (hp (by omega)) hdone
    · exact hround.append hrest (hp (Nat.le_succ i)) (hp (by omega)) (Bool.not_eq_true _ ▸ hdone)

end RecoveryQt
