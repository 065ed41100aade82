import RecoveryQt.Lib.Chain
import RecoveryQt.Lib.Pieces
import Mathlib.Algebra.Order.Floor.Div

/-!
# Copying a file along its cluster chain

`fat_copy` and `exfat_copy` are the same loop: it follows the allocation table while the links are
good and otherwise guesses the next cluster.

* `CopyMethod`, `ChainFile`: `fat_method_t` and what the loop is called with;
* `ChainFile.nextFree`, `ChainFile.step`, `ChainFile.copyFrom`: the loop;
* `ChainFile.copyFrom_eq_pieces`: it reads a content laid out in clusters;
* `ChainFile.found`, `ChainFile.lt_length_copyFrom`, `ChainFile.getElem?_copyFrom`: what it takes, and how far it gets;
* **`ChainFile.copyFrom_all`**: it reads the whole file unless it reaches its last cluster;
* **`ChainFile.copyFrom_follow`**: on a good chain it visits the chain.
-/

namespace RecoveryQt

open List

/-- `fat_method_t`, `exfat_method_t`. -/
inductive CopyMethod where
  | followCluster | nextFreeCluster | nextCluster
  deriving DecidableEq

/-- What the copy loop is called with: the last cluster it accepts, the size of a cluster, the
links of the allocation table and the first cluster of the file. -/
structure ChainFile where
  last : ℕ
  clusterSize : ℕ
  next : ℕ → ℕ
  start : ℕ
  clusterSize_pos : 0 < clusterSize

namespace ChainFile

variable (f : ChainFile)

/-- `while (++cluster < last && get_next_cluster(cluster) != 0);` -/
def nextFree (c : ℕ) : ℕ :=
  if c + 1 < f.last ∧ f.next (c + 1) ≠ 0 then nextFree (c + 1) else c + 1
termination_by f.last - c

/-- The next cluster and the method it is found by. -/
def step (c : ℕ) : CopyMethod → ℕ × CopyMethod
  | .followCluster =>
    if 2 ≤ f.next c ∧ f.next c ≤ f.last then (f.next c, .followCluster)
    else if c = f.start ∧ f.next c = 0 then (f.nextFree c, .nextFreeCluster)
    else (c + 1, .nextCluster)
  | .nextFreeCluster => (f.nextFree c, .nextFreeCluster)
  | .nextCluster => (c + 1, .nextCluster)

/-- The copy loop: each cluster it reads and the number of bytes it takes of it. -/
def copyFrom (c fileSize : ℕ) (m : CopyMethod) : List (ℕ × ℕ) :=
  if 2 ≤ c ∧ c ≤ f.last ∧ 0 < fileSize then
    let toread := min f.clusterSize fileSize
    (c, toread) ::
      (if 0 < fileSize - toread then copyFrom (f.step c m).1 (fileSize - toread) (f.step c m).2
        else [])
  else []
termination_by fileSize
decreasing_by
  have := f.clusterSize_pos
  omega

theorem nextFree_mem {c : ℕ} (hc : c < f.last) : c < f.nextFree c ∧ f.nextFree c ≤ f.last := by
  fun_induction nextFree f c with
  | case1 c h ih =>
    have := ih h.1
    omega
  | case2 c h => omega

/-- Below the last cluster, every method finds a cluster that the loop accepts. -/
theorem step_mem {c : ℕ} (h2 : 2 ≤ c) (hc : c < f.last) (m : CopyMethod) :
    2 ≤ (f.step c m).1 ∧ (f.step c m).1 ≤ f.last := by
  have hfree := f.nextFree_mem hc
  cases m with
  | followCluster =>
    rw [step]
    split_ifs with h h
    · exact h
    · show 2 ≤ f.nextFree c ∧ f.nextFree c ≤ f.last
      omega
    · show 2 ≤ c + 1 ∧ c + 1 ≤ f.last
      omega
  | nextFreeCluster =>
    show 2 ≤ f.nextFree c ∧ f.nextFree c ≤ f.last
    omega
  | nextCluster =>
    show 2 ≤ c + 1 ∧ c + 1 ≤ f.last
    omega

/-- A link that is no cluster and not free is replaced by the next cluster. -/
theorem step_of_bad {c : ℕ} (hbad : ¬ (2 ≤ f.next c ∧ f.next c ≤ f.last)) (h0 : f.next c ≠ 0) :
    f.step c .followCluster = (c + 1, .nextCluster) := by
  rw [step, if_neg hbad, if_neg fun h => h0 h.2]

/-- The clusters the loop reads. -/
def visited (c fileSize : ℕ) (m : CopyMethod) : List ℕ := (f.copyFrom c fileSize m).map Prod.fst

theorem visited_of_not {c fileSize : ℕ} {m : CopyMethod}
    (h : ¬ (2 ≤ c ∧ c ≤ f.last ∧ 0 < fileSize)) : f.visited c fileSize m = [] := by
  rw [visited, copyFrom, if_neg h]
  rfl

/-- The loop takes a cluster, and goes on while there is something left of the file. -/
theorem visited_cons {c fileSize : ℕ} {m : CopyMethod} (h : 2 ≤ c ∧ c ≤ f.last ∧ 0 < fileSize) :
    f.visited c fileSize m = c ::
      (if 0 < fileSize - min f.clusterSize fileSize then
        f.visited (f.step c m).1 (fileSize - min f.clusterSize fileSize) (f.step c m).2
      else []) := by
  rw [visited, copyFrom, if_pos h, map_cons]
  split_ifs <;> rfl

/-- **The loop reads a content laid out in clusters.** -/
theorem copyFrom_eq_pieces {β : Type*} (g : ℕ → ℕ → β) (c fileSize : ℕ) (m : CopyMethod) :
    ((f.copyFrom c fileSize m).flatMap fun r => (range r.2).map (g r.1)) =
      pieces g f.clusterSize fileSize (f.visited c fileSize m) := by
  unfold visited
  fun_induction copyFrom f c fileSize m with
  | case1 c fileSize m h toread ih =>
    rw [flatMap_cons, map_cons, pieces]
    congr 1
    split_ifs with hrest
    · exact ih
    · rw [show fileSize - min f.clusterSize fileSize = 0 by omega, flatMap_nil, map_nil, pieces_zero]
  | case2 c fileSize m h => simp

/-- The clusters that are found one after the other, with the methods that find them. -/
def found (c : ℕ) (m : CopyMethod) (k : ℕ) : ℕ × CopyMethod := (fun s : ℕ × CopyMethod => f.step s.1 s.2)^[k] (c, m)

theorem found_succ (c : ℕ) (m : CopyMethod) (k : ℕ) : f.found c m (k + 1) = f.found (f.step c m).1 (f.step c m).2 k :=
  Function.iterate_succ_apply _ _ _

theorem copyFrom_of_not {c fileSize : ℕ} {m : CopyMethod} (h : ¬ (2 ≤ c ∧ c ≤ f.last ∧ 0 < fileSize)) :
    f.copyFrom c fileSize m = [] := by
  rw [copyFrom, if_neg h]

/-- The loop takes a cluster and goes on. -/
theorem copyFrom_cons {c fileSize : ℕ} {m : CopyMethod} (h : 2 ≤ c ∧ c ≤ f.last ∧ 0 < fileSize) :
    f.copyFrom c fileSize m = (c, min f.clusterSize fileSize) ::
      f.copyFrom (f.step c m).1 (fileSize - min f.clusterSize fileSize) (f.step c m).2 := by
  rw [copyFrom, if_pos h]
  refine congrArg (_ :: ·) ?_
  split_ifs with hrest
  · rfl
  · exact (f.copyFrom_of_not fun h => hrest h.2.2).symm

/-- How far the loop gets: as long as the clusters that are found are accepted, and something of the file is left. -/
theorem lt_length_copyFrom {k c fileSize : ℕ} {m : CopyMethod} :
    k < (f.copyFrom c fileSize m).length ↔
      k * f.clusterSize < fileSize ∧ ∀ j ≤ k, 2 ≤ (f.found c m j).1 ∧ (f.found c m j).1 ≤ f.last := by
  have hpos := f.clusterSize_pos
  by_cases h : 2 ≤ c ∧ c ≤ f.last ∧ 0 < fileSize
  · rw [f.copyFrom_cons h, length_cons]
    cases k with
    | zero => exact iff_of_true (Nat.succ_pos _) ⟨by omega, fun j hj => Nat.le_zero.mp hj ▸ ⟨h.1, h.2.1⟩⟩
    | succ k =>
      rw [Nat.succ_lt_succ_iff, lt_length_copyFrom, Nat.succ_mul]
      refine and_congr (by omega) ⟨fun hall j hj => ?_, fun hall j hj => ?_⟩
      · cases j with
        | zero => exact ⟨h.1, h.2.1⟩
        | succ j => exact (f.found_succ c m j).symm ▸ hall j (by omega)
      · exact f.found_succ c m j ▸ hall (j + 1) (by omega)
  · rw [f.copyFrom_of_not h]
    refine iff_of_false (Nat.not_lt_zero _) fun hall => h ?_
    have hfirst := hall.2 0 (Nat.zero_le _)
    exact ⟨hfirst.1, hfirst.2, by omega⟩

/-- The clusters that the loop takes, and what it reads of each. -/
theorem getElem?_copyFrom {k c fileSize : ℕ} {m : CopyMethod} (hk : k < (f.copyFrom c fileSize m).length) :
    (f.copyFrom c fileSize m)[k]? =
      some ((f.found c m k).1, min f.clusterSize (fileSize - k * f.clusterSize)) := by
  by_cases h : 2 ≤ c ∧ c ≤ f.last ∧ 0 < fileSize
  · rw [f.copyFrom_cons h] at hk ⊢
    cases k with
    | zero =>
      rw [getElem?_cons_zero, Nat.zero_mul, Nat.sub_zero]
      rfl
    | succ k =>
      have hlt := Nat.succ_lt_succ_iff.mp hk
      rw [getElem?_cons_succ, getElem?_copyFrom hlt, found_succ]
      have hsize := (f.lt_length_copyFrom.mp hlt).1
      congr 2
      rw [Nat.succ_mul]
      omega
  · rw [f.copyFrom_of_not h] at hk
    exact absurd hk (Nat.not_lt_zero _)

/-- **The whole file is read unless the loop reaches its last cluster.** -/
theorem copyFrom_all {c fileSize : ℕ} {m : CopyMethod} (hc : 2 ≤ c ∧ c ≤ f.last)
    (hlast : ∀ x ∈ f.visited c fileSize m, x < f.last) :
    fileSize ≤ (f.visited c fileSize m).length * f.clusterSize := by
  unfold visited at hlast ⊢
  fun_induction copyFrom f c fileSize m with
  | case1 c fileSize m h toread ih =>
    rw [map_cons, length_cons, Nat.succ_mul]
    split_ifs with hrest
    · rw [if_pos hrest] at hlast
      have hrec := ih (f.step_mem h.1 (hlast c (mem_cons_self ..)) m) fun x hx =>
        hlast x (mem_cons_of_mem _ hx)
      omega
    · omega
  | case2 c fileSize m h => omega

/-- **On a good chain the loop visits the chain.** -/
theorem copyFrom_follow {n c fileSize : ℕ} (hn : fileSize ≤ n * f.clusterSize)
    (hmin : ∀ k < n, k * f.clusterSize < fileSize)
    (hchain : ∀ k < n, 2 ≤ f.next^[k] c ∧ f.next^[k] c ≤ f.last) :
    f.visited c fileSize .followCluster = (range n).map fun k => f.next^[k] c := by
  have hpos := f.clusterSize_pos
  induction n generalizing c fileSize with
  | zero =>
    exact f.visited_of_not (by omega)
  | succ n ih =>
    have hc : 2 ≤ c ∧ c ≤ f.last := hchain 0 (Nat.succ_pos n)
    have hsize := hmin 0 (Nat.succ_pos n)
    rw [Nat.succ_mul] at hn
    rw [f.visited_cons ⟨hc.1, hc.2, by omega⟩, range_succ_eq_map, map_cons, map_map]
    congr 1
    by_cases hrest : 0 < fileSize - min f.clusterSize fileSize
    · have hn1 : 1 < n + 1 := by
        by_contra hle
        obtain rfl : n = 0 := by omega
        omega
      have hnext : 2 ≤ f.next c ∧ f.next c ≤ f.last := hchain 1 hn1
      rw [if_pos hrest]
      simp only [step, if_pos hnext]
      rw [ih (by omega) (fun k hk => ?_) fun k hk => hchain (k + 1) (by omega)]
      · rfl
      · have := hmin (k + 1) (by omega)
        rw [Nat.succ_mul] at this
        omega
    · -- one cluster holds the rest of the file
      have hn0 : n = 0 := by
        by_contra h0
        have := hmin 1 (by omega)
        omega
      subst hn0
      rw [if_neg hrest]
      rfl

/-- **On a good chain the loop visits the clusters of the file.** -/
theorem visited_of_chain {c fileSize : ℕ}
    (hchain : ∀ k < fileSize ⌈/⌉ f.clusterSize, 2 ≤ f.next^[k] c ∧ f.next^[k] c ≤ f.last) :
    f.visited c fileSize .followCluster =
      (range (fileSize ⌈/⌉ f.clusterSize)).map fun k => f.next^[k] c := by
  refine f.copyFrom_follow ?_ (fun k hk => ?_) hchain
  · rw [Nat.mul_comm]
    exact (ceilDiv_le_iff_le_mul f.clusterSize_pos).mp le_rfl
  · rw [Nat.mul_comm]
    exact not_le.mp fun hle =>
      absurd ((ceilDiv_le_iff_le_mul f.clusterSize_pos).mpr hle) (not_le.mpr hk)

end ChainFile

end RecoveryQt
