import Mathlib.Computability.StateTransition
import Mathlib.Data.Set.Card

/-!
# Loops that come to an end

A loop goes from a state to the next one until there is none.

* `runFor`: the last state, when the loop ends within a number of rounds;
* `runFor_of_measure`: an invariant, and a measure that falls with each round;
* `ends_iff_of_map`: a loop that another one follows step by step;
* `ReachesBy`: a state is reached, and those before it have a property;
* **`ends_iff_acyclic`**: a loop with finitely many states ends exactly when it comes to no state twice.
-/

namespace RecoveryQt

open StateTransition Relation

variable {σ : Type*} {f : σ → Option σ}

/-- The state after which there is no next one, found in at most `n` rounds. -/
def runFor (f : σ → Option σ) : ℕ → σ → Option σ
  | 0, _ => none
  | n + 1, a => (f a).elim (some a) (runFor f n)

/-- The loop ends. -/
def Ends (f : σ → Option σ) (a : σ) : Prop := ∃ n, (runFor f n a).isSome

theorem runFor_succ (f : σ → Option σ) (n : ℕ) (a : σ) :
    runFor f (n + 1) a = (f a).elim (some a) (runFor f n) := rfl

theorem runFor_of_none {a : σ} (h : f a = none) {n : ℕ} (hn : 0 < n) : runFor f n a = some a := by
  obtain ⟨n, rfl⟩ := Nat.exists_eq_succ_of_ne_zero hn.ne'
  rw [runFor_succ, h]
  rfl

theorem runFor_of_some {a b c : σ} (h : f a = some b) {n : ℕ} (hb : ∀ k, n ≤ k → runFor f k b = some c) (k : ℕ)
    (hk : n + 1 ≤ k) : runFor f k a = some c := by
  obtain ⟨k, rfl⟩ := Nat.exists_eq_succ_of_ne_zero (Nat.ne_zero_of_lt hk)
  rw [runFor_succ, h]
  exact hb k (by omega)

/-- **A loop with an invariant and a measure** ends, in a state with the invariant that has no next one. -/
theorem runFor_of_measure {P : σ → Prop} (μ : σ → ℕ) (hP : ∀ a, P a → ∀ b ∈ f a, P b ∧ μ b < μ a) {a : σ}
    (ha : P a) : ∃ b, (∀ n, μ a < n → runFor f n a = some b) ∧ P b ∧ f b = none := by
  induction hm : μ a using Nat.strong_induction_on generalizing a with
  | h m ih =>
    cases hfa : f a with
    | none => exact ⟨a, fun n hn => runFor_of_none hfa (Nat.zero_lt_of_lt hn), ha, hfa⟩
    | some c =>
      obtain ⟨hc, hlt⟩ := hP a ha c hfa
      obtain ⟨b, hrun, hb⟩ := ih (μ c) (hm ▸ hlt) hc rfl
      exact ⟨b, fun n hn => runFor_of_some hfa hrun n (by omega), hb⟩

theorem ends_of_none {a : σ} (h : f a = none) : Ends f a := ⟨1, by rw [runFor_succ, h]; rfl⟩

theorem ends_iff_of_some {a b : σ} (h : f a = some b) : Ends f a ↔ Ends f b := by
  constructor
  · rintro ⟨n, hn⟩
    cases n with
    | zero => cases hn
    | succ n =>
      rw [runFor_succ, h] at hn
      exact ⟨n, hn⟩
  · rintro ⟨n, hn⟩
    refine ⟨n + 1, ?_⟩
    rw [runFor_succ, h]
    exact hn

/-- A loop whose states another loop follows, as long as an invariant holds, ends with it. -/
theorem ends_iff_of_map {τ : Type*} {g : σ → τ} {h : τ → Option τ} {P : σ → Prop} (hP : ∀ a, P a → ∀ b ∈ f a, P b)
    (hmap : ∀ a, P a → (f a).map g = h (g a)) {a : σ} (ha : P a) : Ends f a ↔ Ends h (g a) := by
  refine exists_congr fun n => ?_
  induction n generalizing a with
  | zero => rfl
  | succ n ih =>
    rw [runFor_succ, runFor_succ, ← hmap a ha]
    cases hfa : f a with
    | none => rfl
    | some b => exact ih (hP a ha b hfa)

/-- The states reached are those of the next state, and the first one. -/
theorem reaches_iff_of_some {a b c : σ} (h : f a = some b) : Reaches f a c ↔ a = c ∨ Reaches f b c := by
  refine ReflTransGen.cases_head_iff.trans (or_congr_right ?_)
  constructor
  · rintro ⟨b', hb', hc⟩
    obtain rfl := Option.mem_unique (show b ∈ f a from h) hb'
    exact hc
  · exact fun hc => ⟨b, h, hc⟩

theorem not_reaches₁_of_none {a b : σ} (h : f a = none) : ¬ Reaches₁ f a b := by
  intro hab
  obtain ⟨c, hc, -⟩ := TransGen.head'_iff.mp hab
  rw [h] at hc
  cases hc

/-- A loop that ends comes to no state twice. -/
theorem Ends.acyclic {a : σ} (h : Ends f a) {b : σ} (hb : Reaches f a b) : ¬ Reaches₁ f b b := by
  obtain ⟨n, hn⟩ := h
  induction n generalizing a with
  | zero => cases hn
  | succ n ih =>
    cases hfa : f a with
    | none =>
      rcases ReflTransGen.cases_head_iff.mp hb with rfl | ⟨c, hc, -⟩
      · exact not_reaches₁_of_none hfa
      · rw [hfa] at hc
        cases hc
    | some c =>
      rw [runFor_succ, hfa] at hn
      rcases (reaches_iff_of_some hfa).mp hb with rfl | hcb
      · -- a state on a cycle is reached again from its next one
        intro hcycle
        have hca : Reaches f c a := reaches₁_fwd hcycle hfa
        exact ih hca hn hcycle
      · exact ih hcb hn

/-- **A loop with finitely many states** ends exactly when it comes to no state twice. The states that can still
be reached become fewer with each round. -/
theorem ends_iff_acyclic {a : σ} (hfin : {b | Reaches f a b}.Finite) :
    Ends f a ↔ ∀ b, Reaches f a b → ¬ Reaches₁ f b b := by
  refine ⟨fun h b hb => h.acyclic hb, fun h => ?_⟩
  induction hcard : {b | Reaches f a b}.ncard using Nat.strong_induction_on generalizing a with
  | h n ih =>
    cases hfa : f a with
    | none => exact ends_of_none hfa
    | some c =>
      have hsub : {b | Reaches f c b} ⊆ {b | Reaches f a b} := fun b hb => (reaches_iff_of_some hfa).mpr (Or.inr hb)
      have hnot : a ∉ {b | Reaches f c b} := by
        intro hca
        exact h a ReflTransGen.refl (TransGen.head' hfa hca)
      have hlt : {b | Reaches f c b}.ncard < n := by
        rw [← hcard]
        exact Set.ncard_lt_ncard ⟨hsub, fun hle => hnot (hle ReflTransGen.refl)⟩ hfin
      exact (ends_iff_of_some hfa).mpr
        (ih _ hlt (hfin.subset hsub) (fun b hb => h b (hsub hb)) rfl)

/-! ## The states on the way -/

/-- A state is reached from another one, and the states on the way, the last one aside, have a property. -/
def ReachesBy (f : σ → Option σ) (P : σ → Prop) : σ → σ → Prop := ReflTransGen fun a b => P a ∧ b ∈ f a

theorem ReachesBy.reaches {P : σ → Prop} {a b : σ} (h : ReachesBy f P a b) : Reaches f a b :=
  ReflTransGen.mono (fun _ _ hstep => hstep.2) _ _ h

theorem ReachesBy.single {P : σ → Prop} {a b : σ} (ha : P a) (hb : f a = some b) : ReachesBy f P a b :=
  ReflTransGen.single ⟨ha, hb⟩

/-- If the last state has no next one then all the states that are reached are on the way. -/
theorem ReachesBy.of_reaches {P : σ → Prop} {a b c : σ} (h : ReachesBy f P a b) (hb : f b = none) (hlast : P b)
    (hc : Reaches f a c) : P c := by
  induction h using ReflTransGen.head_induction_on with
  | refl =>
    rcases ReflTransGen.cases_head_iff.mp hc with rfl | ⟨d, hd, -⟩
    · exact hlast
    · rw [hb] at hd
      cases hd
  | head hstep _ ih =>
    rcases (reaches_iff_of_some hstep.2).mp hc with rfl | hc
    · exact hstep.1
    · exact ih hc

/-- A loop has one last state. -/
theorem last_unique {a b c : σ} (hab : Reaches f a b) (hac : Reaches f a c) (hb : f b = none) (hc : f c = none) :
    b = c := by
  have hstuck : ∀ {d e : σ}, f d = none → Reaches f d e → d = e := fun hd h => by
    rcases ReflTransGen.cases_head_iff.mp h with rfl | ⟨_, hx, -⟩
    · rfl
    · rw [hd] at hx
      cases hx
  rcases reaches_total hab hac with h | h
  · exact hstuck hb h
  · exact (hstuck hc h).symm

end RecoveryQt
