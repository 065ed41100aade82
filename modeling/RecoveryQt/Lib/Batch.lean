import Mathlib.Data.List.Induction
import Mathlib.Data.List.TakeWhile

/-!
# Reading runs in bounded batches

A loop reads the items of each run of wanted items into a batch of bounded size, and empties the
batch at the end of the run. A read may fail, and does not count then.

* `batchRuns`: the loop; `taken`: the items whose reads it keeps;
* `runBefore`: the run that a list of items ends in;
* **`batchRuns_eq`**: the loop returns the reads of the items taken, in order;
* **`mem_taken_iff`**: an item is taken exactly if the run before it leaves room.
-/

namespace RecoveryQt

open List

variable {α β : Type*} (wanted : α → Bool) (read : α → Option β) (cap : ℕ)

/-- The loop, with the batch collected so far. -/
def batchRuns : List β → List α → List β
  | batch, [] => batch
  | batch, x :: xs =>
    if wanted x then batchRuns (if batch.length < cap then batch ++ (read x).toList else batch) xs
    else batch ++ batchRuns [] xs

/-- The items whose reads are kept, when `n` are in the batch. -/
def taken : ℕ → List α → List α
  | _, [] => []
  | n, x :: xs =>
    if wanted x then
      if n < cap ∧ (read x).isSome then x :: taken (n + 1) xs else taken n xs
    else taken 0 xs

/-- **The loop returns the reads of the items taken.** -/
theorem batchRuns_eq (batch : List β) (xs : List α) :
    batchRuns wanted read cap batch xs =
      batch ++ (taken wanted read cap batch.length xs).filterMap read := by
  induction xs generalizing batch with
  | nil => simp [batchRuns, taken]
  | cons x xs ih =>
    rw [batchRuns, taken]
    by_cases hx : wanted x
    · rw [if_pos hx, if_pos hx, ih]
      by_cases hroom : batch.length < cap
      · cases hread : read x with
        | none => simp [hroom]
        | some b => simp [hroom, hread]
      · rw [if_neg hroom, if_neg fun h => hroom h.1]
    · rw [if_neg hx, if_neg hx, ih]
      rfl

theorem taken_sublist (n : ℕ) (xs : List α) : taken wanted read cap n xs <+ xs := by
  induction xs generalizing n with
  | nil => exact Sublist.refl []
  | cons x xs ih =>
    rw [taken]
    split_ifs
    · exact (ih (n + 1)).cons_cons x
    · exact (ih n).cons x
    · exact (ih 0).cons x

/-! ## The run before an item -/

/-- The run of wanted items at the end of a list, the last first. -/
def runBefore (l : List α) : List α := l.reverse.takeWhile wanted

theorem runBefore_concat (l : List α) (x : α) :
    runBefore wanted (l ++ [x]) = if wanted x then x :: runBefore wanted l else [] := by
  rw [runBefore, reverse_append, reverse_singleton, singleton_append, takeWhile_cons]
  rfl

/-- The number of reads in the batch after an item. -/
def loadStep (n : ℕ) (x : α) : ℕ :=
  if wanted x then if n < cap ∧ (read x).isSome then n + 1 else n else 0

/-- The items taken of two lists. -/
theorem taken_append (n : ℕ) (l xs : List α) : taken wanted read cap n (l ++ xs) =
    taken wanted read cap n l ++
      taken wanted read cap (l.foldl (loadStep wanted read cap) n) xs := by
  induction l generalizing n with
  | nil => rfl
  | cons x l ih =>
    rw [cons_append, taken, taken, foldl_cons, loadStep]
    split_ifs
    · rw [ih, cons_append]
    · exact ih n
    · exact ih 0

/-- **The batch holds what was read of the run**, up to its size. -/
theorem foldl_loadStep (l : List α) : l.foldl (loadStep wanted read cap) 0 =
    min cap ((runBefore wanted l).countP fun x => (read x).isSome) := by
  induction l using List.reverseRecOn with
  | nil => simp [runBefore]
  | append_singleton l x ih =>
    rw [foldl_append, foldl_cons, foldl_nil, ih, runBefore_concat, loadStep]
    by_cases hx : wanted x
    · rw [if_pos hx, if_pos hx, countP_cons]
      by_cases hread : (read x).isSome
      · simp only [hread, and_true, if_true]
        split_ifs <;> omega
      · simp [hread]
    · rw [if_neg hx, if_neg hx, countP_nil, Nat.min_zero]

/-- **An item is taken exactly if it is wanted, its read succeeds and the run before it leaves
room.** -/
theorem mem_taken_iff {l r : List α} {x : α} (hl : x ∉ l) (hr : x ∉ r) :
    x ∈ taken wanted read cap 0 (l ++ x :: r) ↔ wanted x = true ∧ (read x).isSome = true ∧
      ((runBefore wanted l).countP fun x => (read x).isSome) < cap := by
  have hl' : x ∉ taken wanted read cap 0 l := fun h => hl ((taken_sublist wanted read cap 0 l).mem h)
  have hr' : ∀ n, x ∉ taken wanted read cap n r := fun n h =>
    hr ((taken_sublist wanted read cap n r).mem h)
  rw [taken_append, mem_append, or_iff_right hl', foldl_loadStep, taken]
  have hroom : ∀ n, min cap n < cap ↔ n < cap := by
    intro n
    omega
  by_cases hx : wanted x
  · rw [if_pos hx]
    split_ifs with h
    · exact iff_of_true mem_cons_self ⟨hx, h.2, (hroom _).mp h.1⟩
    · exact iff_of_false (hr' _) fun h' => h ⟨(hroom _).mpr h'.2.2, h'.2.1⟩
  · rw [if_neg hx]
    exact iff_of_false (hr' 0) fun h => hx h.1

end RecoveryQt
