import Mathlib.Data.List.Basic
import Mathlib.Data.List.Chain
import Mathlib.Data.List.TakeWhile

/-!
# Reading a directory along its cluster chain

`fat_dir` and `exfat_dir` are the same loop: it reads the clusters of a directory one behind the
other into a buffer, follows the allocation table while the links are good, and takes the cluster
behind once they are not.

* `DirMethod`, `DirChain`: the methods of the loop and what it is called with;
* `DirChain.attempts`, `DirChain.filled`: the clusters it reads, and those that it has read;
* `DirChain.Chained`: a chain in the table;
* **`DirChain.filled_of_chained`**: a chain is read whole;
* **`DirChain.filled_eq_iff`**: exactly which chains are, when the last cluster is not accepted.
-/

namespace RecoveryQt

open List

/-- The values of `fat_method_t` and `exfat_method_t` that a directory is read with. -/
inductive DirMethod where
  | followCluster | nextCluster
  deriving DecidableEq

/-- What the loop is called with: the marks of the end of a chain, the last link it accepts, the
links of the allocation table and whether a cluster is read. -/
structure DirChain where
  isEnd : ℕ → Bool
  last : ℕ
  next : ℕ → ℕ
  reads : ℕ → Bool

namespace DirChain

variable (f : DirChain)

/-- The next cluster and the method it is found by. A free cluster stops the loop, and with a link
that is no cluster the table is not trusted any more. -/
def step (c : ℕ) : DirMethod → ℕ × DirMethod
  | .followCluster =>
    if 2 ≤ f.next c ∧ f.next c ≤ f.last ∨ f.isEnd (f.next c) then (f.next c, .followCluster)
    else if f.next c = 0 then (0, .followCluster)
    else (c + 1, .nextCluster)
  | .nextCluster => (c + 1, .nextCluster)

/-- The clusters that the loop reads with room for so many: the last one perhaps in vain. -/
def attempts : ℕ → ℕ → DirMethod → List ℕ
  | 0, _, _ => []
  | room + 1, c, m =>
    if f.isEnd c = false ∧ 2 ≤ c then
      c :: (if f.reads c then attempts room (f.step c m).1 (f.step c m).2 else [])
    else []

/-- The clusters in its buffer. -/
def filled (room c : ℕ) (m : DirMethod) : List ℕ := (f.attempts room c m).takeWhile f.reads

/-- A cluster that is read when the loop comes to it. -/
def Takes (c : ℕ) : Prop := f.isEnd c = false ∧ 2 ≤ c ∧ f.reads c

instance (c : ℕ) : Decidable (f.Takes c) :=
  inferInstanceAs (Decidable (f.isEnd c = false ∧ 2 ≤ c ∧ f.reads c))

/-- A chain in the table: the links lead from cluster to cluster, and the last one is an end. -/
structure Chained (l : List ℕ) : Prop where
  links : l.IsChain fun a b => f.next a = b
  ends : ∀ c ∈ l.getLast?, f.isEnd (f.next c)
  takes : ∀ c ∈ l, f.Takes c

variable {f}

/-! ## The loop -/

/-- The loop comes to no more clusters than it has room for. -/
theorem length_attempts_le (room c : ℕ) (m : DirMethod) : (f.attempts room c m).length ≤ room := by
  induction room generalizing c m with
  | zero => rfl
  | succ room ih =>
    rw [attempts]
    split_ifs
    · exact Nat.succ_le_succ (ih _ _)
    · exact Nat.succ_le_succ (Nat.zero_le room)
    · exact Nat.zero_le _

theorem filled_of_not {c : ℕ} (h : ¬ f.Takes c) (room : ℕ) (m : DirMethod) :
    f.filled room c m = [] := by
  cases room with
  | zero => rfl
  | succ room =>
    rw [filled, attempts]
    split_ifs with hc hread
    · exact absurd ⟨hc.1, hc.2, hread⟩ h
    · exact takeWhile_cons_of_neg hread
    · rfl

theorem filled_succ {c : ℕ} (h : f.Takes c) (room : ℕ) (m : DirMethod) :
    f.filled (room + 1) c m = c :: f.filled room (f.step c m).1 (f.step c m).2 := by
  rw [filled, attempts, if_pos ⟨h.1, h.2.1⟩, if_pos h.2.2, takeWhile_cons_of_pos h.2.2]
  rfl

theorem filled_eq_nil_iff {room c : ℕ} {m : DirMethod} :
    f.filled room c m = [] ↔ room = 0 ∨ ¬ f.Takes c := by
  cases room with
  | zero => exact iff_of_true rfl (Or.inl rfl)
  | succ room =>
    rw [or_iff_right (Nat.succ_ne_zero room)]
    refine ⟨fun h ht => ?_, fun h => filled_of_not h _ _⟩
    rw [filled_succ ht] at h
    exact cons_ne_nil _ _ h

/-- The first cluster in the buffer is the one the loop is at. -/
theorem filled_eq_cons {room c x : ℕ} {m : DirMethod} {l : List ℕ} (h : f.filled room c m = x :: l) :
    f.Takes c ∧ x = c ∧ ∃ r, room = r + 1 ∧ f.filled r (f.step c m).1 (f.step c m).2 = l := by
  have hne : f.filled room c m ≠ [] := h ▸ cons_ne_nil x l
  rw [Ne, filled_eq_nil_iff, not_or, not_not] at hne
  obtain ⟨r, rfl⟩ := Nat.exists_eq_succ_of_ne_zero hne.1
  rw [filled_succ hne.2] at h
  exact ⟨hne.2, (cons.inj h).1.symm, r, rfl, (cons.inj h).2⟩

theorem not_takes_of_end {c : ℕ} (h : f.isEnd c) : ¬ f.Takes c := fun ht => by
  rw [ht.1] at h
  exact absurd h Bool.false_ne_true

theorem step_of_end {c : ℕ} (h : f.isEnd (f.next c)) :
    f.step c .followCluster = (f.next c, .followCluster) := if_pos (Or.inr h)

theorem step_of_link {c : ℕ} (h2 : 2 ≤ f.next c) (hlast : f.next c ≤ f.last) :
    f.step c .followCluster = (f.next c, .followCluster) := if_pos (Or.inl ⟨h2, hlast⟩)

/-- A cluster behind the last one that is accepted makes the loop distrust the table. -/
theorem step_of_behind {c : ℕ} (h : f.Takes (f.next c)) (hlast : f.last < f.next c) :
    f.step c .followCluster = (c + 1, .nextCluster) := by
  have h2 := h.2.1
  rw [step, if_neg fun hor => hor.elim (fun hle => by omega) fun he => not_takes_of_end he h,
    if_neg (by omega)]

/-! ## Chains -/

theorem Chained.tail {c : ℕ} {l : List ℕ} (h : f.Chained (c :: l)) (hl : l ≠ []) : f.Chained l where
  links := h.links.tail
  ends x hx := h.ends x (by rw [getLast?_cons_of_ne_nil hl]; exact hx)
  takes x hx := h.takes x (mem_cons_of_mem c hx)

/-- **A chain of accepted clusters is read whole.** -/
theorem filled_of_chained {room c : ℕ} {l : List ℕ} (h : f.Chained (c :: l)) (hroom : l.length < room)
    (hlast : ∀ x ∈ l, x ≤ f.last) : f.filled room c .followCluster = c :: l := by
  induction l generalizing room c with
  | nil =>
    obtain ⟨room, rfl⟩ := Nat.exists_eq_succ_of_ne_zero (Nat.ne_zero_of_lt hroom)
    have hend := h.ends c rfl
    rw [filled_succ (h.takes c mem_cons_self), step_of_end hend,
      filled_of_not (not_takes_of_end hend)]
  | cons b l ih =>
    obtain ⟨room, rfl⟩ := Nat.exists_eq_succ_of_ne_zero (Nat.ne_zero_of_lt hroom)
    have hlink : f.next c = b := h.links.rel
    have hb := h.takes b (mem_cons_of_mem c mem_cons_self)
    rw [filled_succ (h.takes c mem_cons_self),
      step_of_link (hlink ▸ hb.2.1) (hlink ▸ hlast b mem_cons_self), hlink]
    congr 1
    exact ih (h.tail (cons_ne_nil b l)) (Nat.lt_of_succ_lt_succ hroom)
      fun x hx => hlast x (mem_cons_of_mem b hx)

/-- A chain that the loop reads whole though it does not accept all its links: the last one leads
from cluster `last` to the one behind, where the loop goes anyway, and there it stops. -/
def LastBehind (f : DirChain) (room : ℕ) (l : List ℕ) : Prop :=
  (∃ pre, l = pre ++ [f.last, f.last + 1]) ∧ (l.length = room ∨ ¬ f.Takes (f.last + 2))

theorem lastBehind_cons {room c b : ℕ} {l : List ℕ} (hb : b ≤ f.last) :
    f.LastBehind (room + 1) (c :: b :: l) ↔ f.LastBehind room (b :: l) := by
  refine and_congr ⟨?_, ?_⟩ (or_congr (by rw [length_cons (a := c)]; omega) Iff.rfl)
  · rintro ⟨pre, hpre⟩
    cases pre with
    | nil =>
      injection hpre with _ hpre
      injection hpre with hpre _
      omega
    | cons x pre => exact ⟨pre, (cons.inj hpre).2⟩
  · rintro ⟨pre, hpre⟩
    exact ⟨c :: pre, congrArg (c :: ·) hpre⟩

/-- With a cluster behind the last one second, the two are the whole chain. -/
theorem lastBehind_of_behind {room c : ℕ} {l : List ℕ} (hnodup : (c :: (f.last + 1) :: l).Nodup) :
    f.LastBehind room (c :: (f.last + 1) :: l) ↔
      c = f.last ∧ l = [] ∧ (room = 2 ∨ ¬ f.Takes (f.last + 2)) := by
  constructor
  · rintro ⟨⟨pre, hpre⟩, hstop⟩
    match pre with
    | [] =>
      obtain ⟨rfl, hrest⟩ := cons.inj hpre
      obtain rfl : l = [] := (cons.inj hrest).2
      exact ⟨rfl, rfl, hstop.imp_left Eq.symm⟩
    | [x] =>
      have hhead := (cons.inj (cons.inj hpre).2).1
      omega
    | x :: y :: pre =>
      obtain ⟨hy, hl⟩ := cons.inj (cons.inj hpre).2
      have hmem : f.last + 1 ∈ l := by
        rw [show l = pre ++ [f.last, f.last + 1] from hl]
        simp
      exact absurd hmem (nodup_cons.mp (nodup_cons.mp hnodup).2).1
  · rintro ⟨rfl, rfl, hstop⟩
    exact ⟨⟨[], rfl⟩, hstop.imp_left Eq.symm⟩

/-- Once the table is not trusted, the loop reads the cluster behind the last one only from there, and
stops behind it only at the end of its room or at a cluster that it does not take. -/
theorem filled_behind_iff {room c : ℕ} {l : List ℕ} (hb : f.Takes (f.last + 1))
    (hle : ∀ x ∈ l, x ≤ f.last + 1) :
    f.filled room (c + 1) .nextCluster = (f.last + 1) :: l ↔
      ((f.last + 1) :: l).length ≤ room ∧
        c = f.last ∧ l = [] ∧ (room + 1 = 2 ∨ ¬ f.Takes (f.last + 2)) := by
  constructor
  · intro h
    obtain ⟨-, hc, r, rfl, hrest⟩ := filled_eq_cons h
    obtain rfl : c = f.last := by omega
    have hl : l = [] := by
      cases l with
      | nil => rfl
      | cons x l =>
        have hx := (filled_eq_cons hrest).2.1
        have := hle x mem_cons_self
        rw [hx] at this
        exact absurd this (Nat.not_succ_le_self _)
    subst hl
    refine ⟨Nat.succ_le_succ (Nat.zero_le r), rfl, rfl, ?_⟩
    rcases filled_eq_nil_iff.mp hrest with rfl | hstop
    · exact Or.inl rfl
    · exact Or.inr hstop
  · rintro ⟨hlen, rfl, rfl, hstop⟩
    obtain ⟨r, rfl⟩ := Nat.exists_eq_succ_of_ne_zero (Nat.ne_zero_of_lt hlen)
    rw [filled_succ hb]
    congr 1
    exact filled_eq_nil_iff.mpr (hstop.imp_left fun h => by omega)

/-- **Exactly which chains are read whole**, with the last cluster one that the loop does not
accept as a link. -/
theorem filled_eq_iff {room c : ℕ} {l : List ℕ} (h : f.Chained (c :: l)) (hnodup : (c :: l).Nodup)
    (hle : ∀ x ∈ c :: l, x ≤ f.last + 1) :
    f.filled room c .followCluster = c :: l ↔
      (c :: l).length ≤ room ∧ ((∀ x ∈ l, x ≤ f.last) ∨ f.LastBehind room (c :: l)) := by
  induction l generalizing room c with
  | nil =>
    refine ⟨fun heq => ⟨?_, Or.inl fun x hx => absurd hx not_mem_nil⟩,
      fun hwhole => filled_of_chained h hwhole.1 fun x hx => absurd hx not_mem_nil⟩
    rw [← heq]
    exact ( takeWhile_prefix f.reads).length_le.trans (length_attempts_le _ _ _)
  | cons b l ih =>
    cases room with
    | zero => exact iff_of_false (fun heq => by cases heq) fun hwhole => by cases hwhole.1
    | succ room =>
      have hlink : f.next c = b := h.links.rel
      have hb := h.takes b (mem_cons_of_mem c mem_cons_self)
      rw [filled_succ (h.takes c mem_cons_self), cons.injEq, and_iff_right rfl, length_cons (a := c),
        Nat.succ_le_succ_iff]
      by_cases hlast : b ≤ f.last
      · rw [step_of_link (hlink ▸ hb.2.1) (hlink ▸ hlast), hlink,
          ih (h.tail (cons_ne_nil b l)) hnodup.of_cons fun x hx => hle x (mem_cons_of_mem c hx),
          lastBehind_cons hlast, forall_mem_cons, and_iff_right hlast]
      · have hbehind : b = f.last + 1 := by
          have := hle b (mem_cons_of_mem c mem_cons_self)
          omega
        subst hbehind
        rw [step_of_behind (hlink.symm ▸ hb) (by omega), lastBehind_of_behind hnodup,
          or_iff_right fun hall => hlast (hall _ mem_cons_self)]
        exact filled_behind_iff hb fun x hx => hle x (mem_cons_of_mem c (mem_cons_of_mem _ hx))

end DirChain

end RecoveryQt
