import Mathlib.Data.List.Chain

/-!
# Walking over a buffer in strides

A walk goes from a position to a later one, as long as there is a next one and it fits below a limit.

* `Strides`: what such a loop is called with; `Strides.visits`: the positions it comes to;
* `Strides.Reached`: the same as a relation;
* **`Strides.mem_visits_iff`**: the two agree.
-/

namespace RecoveryQt

open List

/-- A loop over positions below a limit: which ones fit, and which one comes next. -/
structure Strides where
  fits : ℕ → Bool
  next : ℕ → Option ℕ
  limit : ℕ
  le_limit : ∀ c, fits c → c ≤ limit
  lt_next : ∀ c, ∀ d ∈ next c, c < d

namespace Strides

variable (s : Strides)

/-- The positions from `c` on. -/
def visits (c : ℕ) : List ℕ :=
  if _hc : s.fits c then
    c :: (match _hd : s.next c with
      | none => []
      | some d => visits d)
  else []
termination_by s.limit + 1 - c
decreasing_by
  have := s.le_limit c ‹_›
  have := s.lt_next c d ‹_›
  omega

/-- The walk from `a` comes to a position. -/
inductive Reached (a : ℕ) : ℕ → Prop
  | start (ha : s.fits a) : Reached a a
  | next {c d : ℕ} (hc : Reached a c) (hd : s.next c = some d) (hfits : s.fits d) : Reached a d

variable {s}

theorem visits_of_not {c : ℕ} (h : ¬ s.fits c) : s.visits c = [] := by
  rw [visits, dif_neg h]

theorem visits_of_none {c : ℕ} (h : s.fits c) (hn : s.next c = none) : s.visits c = [c] := by
  rw [visits, dif_pos h]
  split
  · rfl
  · rename_i d hd
    rw [hn] at hd
    cases hd

theorem visits_of_some {c d : ℕ} (h : s.fits c) (hn : s.next c = some d) :
    s.visits c = c :: s.visits d := by
  rw [visits, dif_pos h]
  split
  · rename_i hd
    rw [hn] at hd
    cases hd
  · rename_i d' hd
    rw [hn] at hd
    obtain rfl := Option.some.inj hd
    rfl

theorem Reached.fits {a c : ℕ} (h : s.Reached a c) : s.fits c := by
  cases h with
  | start ha => exact ha
  | next _ _ hfits => exact hfits

/-- What is reached from the next position is reached. -/
theorem Reached.of_next {a b c : ℕ} (ha : s.fits a) (hb : s.next a = some b) (h : s.Reached b c) :
    s.Reached a c := by
  induction h with
  | start hfits => exact .next (.start ha) hb hfits
  | next _ hd hfits ih => exact .next ih hd hfits

/-- What holds of a position when it holds of the next one holds of all. -/
@[elab_as_elim]
theorem strideInduction {P : ℕ → Prop} (h : ∀ c, (s.fits c → ∀ d, s.next c = some d → P d) → P c) (c : ℕ) : P c :=
  h c fun hc d hd =>
    have := s.le_limit c hc
    have := s.lt_next c d hd
    strideInduction h d
termination_by s.limit + 1 - c

theorem mem_visits_self {c : ℕ} (h : s.fits c) : c ∈ s.visits c := by
  cases hn : s.next c with
  | none =>
    rw [visits_of_none h hn]
    exact mem_cons_self
  | some d =>
    rw [visits_of_some h hn]
    exact mem_cons_self

/-- The walk visits what comes after a position that it visits. -/
theorem mem_visits_next {a c d : ℕ} (hc : c ∈ s.visits a) (hd : s.next c = some d) (hfits : s.fits d) :
    d ∈ s.visits a := by
  induction a using s.strideInduction with
  | h a ih =>
    by_cases ha : s.fits a
    · cases hn : s.next a with
      | none =>
        rw [visits_of_none ha hn, mem_singleton] at hc
        rw [hc, hn] at hd
        cases hd
      | some b =>
        rw [visits_of_some ha hn] at hc ⊢
        rcases mem_cons.mp hc with rfl | hc
        · obtain rfl := Option.some.inj (hn.symm.trans hd)
          exact mem_cons_of_mem _ (mem_visits_self hfits)
        · exact mem_cons_of_mem _ (ih ha b hn hc)
    · rw [visits_of_not ha] at hc
      exact absurd hc not_mem_nil

/-- **The walk visits what it reaches.** -/
theorem mem_visits_iff {a c : ℕ} : c ∈ s.visits a ↔ s.Reached a c := by
  constructor
  · intro h
    induction a using s.strideInduction with
    | h a ih =>
      by_cases ha : s.fits a
      · cases hn : s.next a with
        | none =>
          rw [visits_of_none ha hn, mem_singleton] at h
          subst h
          exact .start ha
        | some b =>
          rw [visits_of_some ha hn] at h
          rcases mem_cons.mp h with rfl | h
          · exact .start ha
          · exact .of_next ha hn (ih ha b hn h)
      · rw [visits_of_not ha] at h
        exact absurd h not_mem_nil
  · intro h
    induction h with
    | start ha => exact mem_visits_self ha
    | next _ hd hfits ih => exact mem_visits_next ih hd hfits

end Strides

end RecoveryQt
