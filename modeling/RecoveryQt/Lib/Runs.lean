import Mathlib.Data.List.Basic

/-!
# Runs of a transition function

A system takes a step for each action of a list; an action that is not enabled changes nothing.

* `runSteps`: the state that a list of actions leads to;
* **`runSteps_invariant`**: what holds at the start and is kept by each step holds of each state
  reached;
* `Meets`, **`runSteps_invariant_of_meets`**: the same for the runs whose steps all meet a condition
  on the action and the state before it;
* `runSteps_backward`: what each step can only lose held before;
* `Meets.mono`: a condition that implies another wherever an invariant holds;
* **`forall_runSteps_iff_meets`**: where the condition says of one step whether a property is kept, it
  says of a run whether the property holds in each state reached.
-/

namespace RecoveryQt

variable {σ α : Type*} (step : σ → α → σ)

/-- The state after the actions. -/
def runSteps (s : σ) (as : List α) : σ := as.foldl step s

@[simp] theorem runSteps_nil (s : σ) : runSteps step s [] = s := rfl

@[simp] theorem runSteps_cons (s : σ) (a : α) (as : List α) :
    runSteps step s (a :: as) = runSteps step (step s a) as := rfl

theorem runSteps_append (s : σ) (as bs : List α) :
    runSteps step s (as ++ bs) = runSteps step (runSteps step s as) bs := List.foldl_append

variable {step} in
/-- **Invariant rule.** -/
theorem runSteps_invariant {P : σ → Prop} (hstep : ∀ s a, P s → P (step s a)) {s : σ} (hs : P s)
    (as : List α) : P (runSteps step s as) := by
  induction as generalizing s with
  | nil => exact hs
  | cons a as ih => exact ih (hstep s a hs)

variable {step} in
/-- What each step can only lose held in each state on the way. -/
theorem runSteps_backward {P : σ → Prop} (hstep : ∀ s a, P (step s a) → P s) {s : σ} {as bs : List α}
    (hbs : bs <+: as) (h : P (runSteps step s as)) : P (runSteps step s bs) := by
  obtain ⟨cs, rfl⟩ := hbs
  induction cs generalizing bs with
  | nil => exact List.append_nil bs ▸ h
  | cons c cs ih =>
    have hlast : P (runSteps step s (bs ++ [c])) := ih (by rwa [List.append_assoc])
    rw [runSteps_append] at hlast
    exact hstep _ c hlast

variable (C : σ → α → Prop)

/-- Each step of the run meets the condition. -/
def Meets (s : σ) : List α → Prop
  | [] => True
  | a :: as => C s a ∧ Meets (step s a) as

instance [∀ s a, Decidable (C s a)] : ∀ (s : σ) (as : List α), Decidable (Meets step C s as)
  | _, [] => .isTrue trivial
  | s, a :: as =>
    have := instDecidableMeets (step s a) as
    inferInstanceAs (Decidable (C s a ∧ Meets step C (step s a) as))

variable {step C} in
/-- **Invariant rule** for the runs that meet a condition. -/
theorem runSteps_invariant_of_meets {P : σ → Prop} (hstep : ∀ s a, C s a → P s → P (step s a)) {s : σ}
    (hs : P s) {as : List α} (has : Meets step C s as) : P (runSteps step s as) := by
  induction as generalizing s with
  | nil => exact hs
  | cons a as ih => exact ih (hstep s a has.1 hs) has.2

variable {step C} in
/-- A condition that implies another in the states of an invariant. -/
theorem Meets.mono {I : σ → Prop} {D : σ → α → Prop} {s : σ} {as : List α} (hm : Meets step C s as)
    (hinv : ∀ s, ∀ a ∈ as, I s → I (step s a)) (h : ∀ s, ∀ a ∈ as, I s → C s a → D s a) (hs : I s) :
    Meets step D s as := by
  induction as generalizing s with
  | nil => trivial
  | cons a as ih =>
    have ha : a ∈ a :: as := List.mem_cons_self
    exact ⟨h s a ha hs hm.1, ih hm.2 (fun s b hb => hinv s b (List.mem_cons_of_mem a hb))
      (fun s b hb => h s b (List.mem_cons_of_mem a hb)) (hinv s a ha hs)⟩

variable {step C} in
/-- Two conditions that agree are met by the same runs. -/
theorem meets_congr {D : σ → α → Prop} {s : σ} {as : List α} (h : ∀ s, ∀ a ∈ as, (C s a ↔ D s a)) :
    Meets step C s as ↔ Meets step D s as :=
  ⟨fun hm => hm.mono (I := fun _ => True) (fun _ _ _ h => h) (fun s a ha _ => (h s a ha).mp) trivial,
    fun hm => hm.mono (I := fun _ => True) (fun _ _ _ h => h) (fun s a ha _ => (h s a ha).mpr) trivial⟩

variable {step C} in
/-- **Exact rule.** The property holds in each state of the run exactly if each step meets the
condition. -/
theorem forall_runSteps_iff_meets {I P : σ → Prop} (hinv : ∀ s a, I s → I (step s a))
    (hstep : ∀ s a, I s → P s → (P (step s a) ↔ C s a)) {s : σ} (hi : I s) (hp : P s) (as : List α) :
    (∀ bs, bs <+: as → P (runSteps step s bs)) ↔ Meets step C s as := by
  induction as generalizing s with
  | nil =>
    refine ⟨fun _ => trivial, fun _ bs hbs => ?_⟩
    rw [List.prefix_nil.mp hbs]
    exact hp
  | cons a as ih =>
    constructor
    · intro h
      have hp' : P (step s a) := h [a] (List.cons_prefix_cons.mpr ⟨rfl, List.nil_prefix⟩)
      refine ⟨(hstep s a hi hp).mp hp', (ih (hinv s a hi) hp').mp fun bs hbs => ?_⟩
      exact h (a :: bs) (List.cons_prefix_cons.mpr ⟨rfl, hbs⟩)
    · rintro ⟨hC, hrest⟩ bs hbs
      cases bs with
      | nil => exact hp
      | cons b bs =>
        obtain ⟨rfl, htail⟩ := List.cons_prefix_cons.mp hbs
        exact (ih (hinv s b hi) ((hstep s b hi hp).mpr hC)).mpr hrest bs htail

end RecoveryQt
