import Mathlib.Data.List.Flatten
import RecoveryQt.Lib.Runs

/-!
# Loops that emit a trace

A loop body takes a state and a loop item and returns the next state with the events it emits.

* `traceFold`: the loop over a list of items, its events concatenated in order;
* `traceFold_append`, `traceFold_append_eq`: two loops in a row;
* `traceFold_fixed`: a loop whose body leaves the state alone and emits fixed events;
* `traceFold_invariant`: what each step keeps holds of the state at the end;
* `traceFold_forall_iff`: a trace has a property when each step emits events that have it;
* `traceFold_filterMap`: what a loop emits of one kind, when that does not depend on the state.
-/

namespace RecoveryQt

variable {σ α ε β : Type*}

/-- Run `step` over the items, collecting the events. -/
def traceFold (step : σ → α → σ × List ε) : σ → List α → σ × List ε
  | s, [] => (s, [])
  | s, a :: as =>
    let r := step s a
    let q := traceFold step r.1 as
    (q.1, r.2 ++ q.2)

@[simp] theorem traceFold_nil (step : σ → α → σ × List ε) (s : σ) :
    traceFold step s [] = (s, []) := rfl

@[simp] theorem traceFold_cons (step : σ → α → σ × List ε) (s : σ) (a : α) (as : List α) :
    traceFold step s (a :: as) =
      ((traceFold step (step s a).1 as).1, (step s a).2 ++ (traceFold step (step s a).1 as).2) := rfl

theorem traceFold_append (step : σ → α → σ × List ε) (s : σ) (as bs : List α) :
    traceFold step s (as ++ bs) =
      ((traceFold step (traceFold step s as).1 bs).1,
        (traceFold step s as).2 ++ (traceFold step (traceFold step s as).1 bs).2) := by
  induction as generalizing s with
  | nil => simp
  | cons a as ih => simp [ih, List.append_assoc]

theorem traceFold_singleton (step : σ → α → σ × List ε) (s : σ) (a : α) :
    traceFold step s [a] = step s a := by
  rw [traceFold_cons, traceFold_nil, List.append_nil]

/-- Two loops in a row, whose results are known. -/
theorem traceFold_append_eq {step : σ → α → σ × List ε} {s s' s'' : σ} {as bs : List α}
    {es es' : List ε} (h : traceFold step s as = (s', es)) (h' : traceFold step s' bs = (s'', es')) :
    traceFold step s (as ++ bs) = (s'', es ++ es') := by
  rw [traceFold_append, h, h']

/-- A loop whose body never changes the state `s`. -/
theorem traceFold_fixed {step : σ → α → σ × List ε} {s : σ} {e : α → List ε} {as : List α}
    (h : ∀ a ∈ as, step s a = (s, e a)) : traceFold step s as = (s, as.flatMap e) := by
  induction as with
  | nil => simp
  | cons a as ih =>
    have ha := h a List.mem_cons_self
    have := ih fun b hb => h b (List.mem_cons_of_mem _ hb)
    simp [ha, this]

/-- What each step keeps holds of the state at the end. -/
theorem traceFold_invariant {P : σ → Prop} {step : σ → α → σ × List ε} {s : σ} {as : List α}
    (hstep : ∀ s, ∀ a ∈ as, P s → P (step s a).1) (hs : P s) : P (traceFold step s as).1 := by
  induction as generalizing s with
  | nil => exact hs
  | cons a as ih =>
    exact ih (fun s b hb => hstep s b (List.mem_cons_of_mem a hb)) (hstep s a List.mem_cons_self hs)

/-- **The events of a trace** have a property when those of each step do. -/
theorem traceFold_forall_iff {Q : ε → Prop} (step : σ → α → σ × List ε) (s : σ) (as : List α) :
    (∀ e ∈ (traceFold step s as).2, Q e) ↔
      Meets (fun s a => (step s a).1) (fun s a => ∀ e ∈ (step s a).2, Q e) s as := by
  induction as generalizing s with
  | nil => simp [Meets]
  | cons a as ih => simp only [traceFold_cons, List.forall_mem_append, Meets, ih]

/-- **The events of one kind**, when each step emits the same ones from every state. -/
theorem traceFold_filterMap {step : σ → α → σ × List ε} {p : ε → Option β} {e : α → List β}
    {as : List α} (h : ∀ s, ∀ a ∈ as, (step s a).2.filterMap p = e a) (s : σ) :
    (traceFold step s as).2.filterMap p = as.flatMap e := by
  induction as generalizing s with
  | nil => simp
  | cons a as ih =>
    have ha := h s a List.mem_cons_self
    have := ih (fun s b hb => h s b (List.mem_cons_of_mem _ hb)) (step s a).1
    simp [List.filterMap_append, ha, this]

end RecoveryQt
