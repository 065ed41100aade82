import RecoveryQt.Lib.Halting
import Mathlib.Data.List.Nodup
import Mathlib.Data.Set.Function
import Mathlib.Data.Set.Lattice
import Mathlib.Order.CompletePartialOrder

/-!
# Threads that do not meet

Threads share a memory, and each one goes on by the steps of its own program.

* `KeepsTo`: a program that reads and writes in two sets only;
* `ThreadState`, `Interleave`: the threads in any order of their steps;
* `Sees`: what a run has done, thread by thread; `Sees.step`: each step keeps it;
* **`memory_unique`**: the order does not matter, when no thread writes where another one reads;
* `reaches_foldl`: the threads one after the other.
-/

namespace RecoveryQt

open StateTransition Relation

variable {ι L X V : Type*}

/-- The program `prog`, while its local state has `P`, writes in the set `writes`, and what it does depends on the
set `reads` only. -/
structure KeepsTo (prog : L × (X → V) → Option (L × (X → V))) (reads writes : Set X) (P : L → Prop) : Prop where
  writes_sub : writes ⊆ reads
  keeps : ∀ {l m l' m'}, P l → prog (l, m) = some (l', m') → P l'
  frame : ∀ {l m l' m'}, P l → prog (l, m) = some (l', m') → ∀ x ∉ writes, m' x = m x
  congr : ∀ {l m m₁ l' m'}, P l → prog (l, m) = some (l', m') → Set.EqOn m m₁ reads →
    ∃ m₁', prog (l, m₁) = some (l', m₁') ∧ Set.EqOn m' m₁' reads

section Program

variable {prog : L × (X → V) → Option (L × (X → V))} {reads writes : Set X} {P : L → Prop}

/-- A program that is at its end stays there, whatever is written elsewhere. -/
theorem KeepsTo.ends_congr (h : KeepsTo prog reads writes P) {l : L} {m m' : X → V} (hl : P l)
    (hend : prog (l, m) = none) (hsame : Set.EqOn m m' reads) : prog (l, m') = none := by
  cases hstep : prog (l, m') with
  | none => rfl
  | some next =>
    obtain ⟨m₁, hnext, -⟩ := h.congr hl hstep hsame.symm
    exact absurd (hend.symm.trans hnext) (Option.some_ne_none _).symm

end Program

/-- The local states of the threads, and the memory. -/
structure ThreadState (ι L X V : Type*) where
  locals : ι → L
  mem : X → V

variable [DecidableEq ι] {prog : ι → L × (X → V) → Option (L × (X → V))}

/-- Some thread makes a step. -/
def Interleave (prog : ι → L × (X → V) → Option (L × (X → V))) (c c' : ThreadState ι L X V) : Prop :=
  ∃ i l m, prog i (c.locals i, c.mem) = some (l, m) ∧ c' = ⟨Function.update c.locals i l, m⟩

/-- All threads are at their ends. -/
def ThreadState.Finished (prog : ι → L × (X → V) → Option (L × (X → V))) (c : ThreadState ι L X V) : Prop :=
  ∀ i, prog i (c.locals i, c.mem) = none

section Apart

variable {reads writes : ι → Set X} {P : ι → L → Prop} (hkeeps : ∀ i, KeepsTo (prog i) (reads i) (writes i) (P i))
  (hapart : ∀ i j, i ≠ j → Disjoint (writes i) (reads j)) {c₀ c c' : ThreadState ι L X V}

/-- Each thread is where it would be alone, and sees the memory that it would see; no other byte has changed. -/
structure Sees (prog : ι → L × (X → V) → Option (L × (X → V))) (reads writes : ι → Set X) (P : ι → L → Prop)
    (c₀ c : ThreadState ι L X V) : Prop where
  locals : ∀ i, P i (c.locals i)
  alone : ∀ i, ∃ m, Reaches (prog i) (c₀.locals i, c₀.mem) (c.locals i, m) ∧ Set.EqOn m c.mem (reads i)
  same : ∀ x, (∀ i, x ∉ writes i) → c.mem x = c₀.mem x

omit [DecidableEq ι] in
theorem Sees.refl (h : ∀ i, P i (c₀.locals i)) : Sees prog reads writes P c₀ c₀ :=
  ⟨h, fun _ => ⟨c₀.mem, .refl, fun _ _ => rfl⟩, fun _ _ => rfl⟩

include hkeeps hapart

omit [DecidableEq ι] in
/-- A step of another thread is not seen. -/
theorem eqOn_of_step {i j : ι} (hij : i ≠ j) {l l' : L} {m m' : X → V} (hl : P i l)
    (hstep : prog i (l, m) = some (l', m')) : Set.EqOn m m' (reads j) := fun x hx =>
  ((hkeeps i).frame hl hstep x fun hw => Set.disjoint_left.mp (hapart i j hij) hw hx).symm

/-- **Each step keeps what the threads see.** -/
theorem Sees.step (h : Sees prog reads writes P c₀ c) (hstep : Interleave prog c c') : Sees prog reads writes P c₀ c' := by
  obtain ⟨i, l, m, hstep, rfl⟩ := hstep
  refine ⟨fun j => ?_, fun j => ?_, fun x hx => ?_⟩
  · by_cases hji : j = i
    · subst hji
      simp only [Function.update_self]
      exact (hkeeps j).keeps (h.locals j) hstep
    · simp only [Function.update_of_ne hji]
      exact h.locals j
  · obtain ⟨mj, hreach, hsame⟩ := h.alone j
    by_cases hji : j = i
    · subst hji
      obtain ⟨m₁, hstep₁, hsame₁⟩ := (hkeeps j).congr (h.locals j) hstep hsame.symm
      refine ⟨m₁, ?_, hsame₁.symm⟩
      simp only [Function.update_self]
      exact hreach.tail hstep₁
    · refine ⟨mj, ?_, hsame.trans (eqOn_of_step hkeeps hapart (Ne.symm hji) (h.locals i) hstep)⟩
      simp only [Function.update_of_ne hji]
      exact hreach
  · exact ((hkeeps i).frame (h.locals i) hstep x (hx i)).trans (h.same x hx)

theorem Sees.run (h : ∀ i, P i (c₀.locals i)) (hrun : ReflTransGen (Interleave prog) c₀ c) :
    Sees prog reads writes P c₀ c := by
  induction hrun with
  | refl => exact Sees.refl h
  | tail _ hstep ih => exact ih.step hkeeps hapart hstep

/-- **The order of the steps does not matter**: all runs that come to the ends of the threads leave the same memory. -/
theorem memory_unique (h : ∀ i, P i (c₀.locals i)) (hrun : ReflTransGen (Interleave prog) c₀ c) (hend : c.Finished prog)
    (hrun' : ReflTransGen (Interleave prog) c₀ c') (hend' : c'.Finished prog) : c.mem = c'.mem := by
  have hsees := Sees.run hkeeps hapart h hrun
  have hsees' := Sees.run hkeeps hapart h hrun'
  funext x
  by_cases hx : ∃ i, x ∈ writes i
  · obtain ⟨i, hx⟩ := hx
    have hread := (hkeeps i).writes_sub hx
    obtain ⟨m, hreach, hsame⟩ := hsees.alone i
    obtain ⟨m', hreach', hsame'⟩ := hsees'.alone i
    have hlast := (hkeeps i).ends_congr (hsees.locals i) (hend i) hsame.symm
    have hlast' := (hkeeps i).ends_congr (hsees'.locals i) (hend' i) hsame'.symm
    -- a thread alone comes to one end
    have hone : (c.locals i, m) = (c'.locals i, m') := last_unique hreach hreach' hlast hlast'
    rw [← hsame hread, ← hsame' hread, (Prod.mk.inj hone).2]
  · push Not at hx
    rw [hsees.same x hx, hsees'.same x hx]

/-- A thread that is at its end stays there. -/
theorem finished_step {i : ι} (hlocals : ∀ i, P i (c.locals i)) (hend : prog i (c.locals i, c.mem) = none)
    (hstep : Interleave prog c c') : prog i (c'.locals i, c'.mem) = none ∧ c'.locals i = c.locals i := by
  obtain ⟨j, l, m, hstep, rfl⟩ := hstep
  have hij : i ≠ j := by
    rintro rfl
    exact absurd (hend.symm.trans hstep) (Option.some_ne_none _).symm
  simp only [Function.update_of_ne hij, and_true]
  exact (hkeeps i).ends_congr (hlocals i) hend (eqOn_of_step hkeeps hapart hij.symm (hlocals j) hstep)

omit hkeeps hapart in
/-- A thread alone is a run of the threads. -/
theorem interleave_of_reaches {i : ι} {locals : ι → L} {m : X → V} {t : L × (X → V)}
    (hreach : Reaches (prog i) (locals i, m) t) :
    ReflTransGen (Interleave prog) ⟨locals, m⟩ ⟨Function.update locals i t.1, t.2⟩ := by
  induction hreach with
  | refl => rw [Function.update_eq_self]
  | @tail b c _ hstep ih =>
    refine ih.tail ⟨i, c.1, c.2, ?_, ?_⟩
    · simp only [Function.update_self]
      exact hstep
    · rw [Function.update_idem]

/-- A thread alone does not touch the local states of the others, nor what they see. -/
theorem finished_run {i : ι} (hrun : ReflTransGen (Interleave prog) c c') (hlocals : ∀ i, P i (c.locals i))
    (hend : prog i (c.locals i, c.mem) = none) : prog i (c'.locals i, c'.mem) = none ∧ c'.locals i = c.locals i := by
  induction hrun with
  | refl => exact ⟨hend, rfl⟩
  | @tail b c' hrun hstep ih =>
    have hsees := Sees.run hkeeps hapart hlocals hrun
    obtain ⟨hend', hsame⟩ := finished_step hkeeps hapart hsees.locals ih.1 hstep
    exact ⟨hend', hsame.trans ih.2⟩

/-- **The threads one after the other** are a run of the threads. -/
theorem reaches_foldl {alone : ι → (X → V) → X → V} {is : List ι} (hnodup : is.Nodup) (hlocals : ∀ i, P i (c.locals i))
    (halone : ∀ i ∈ is, ∀ m, ∃ l, Reaches (prog i) (c.locals i, m) (l, alone i m) ∧ prog i (l, alone i m) = none) :
    ∃ c', ReflTransGen (Interleave prog) c c' ∧ c'.mem = is.foldl (fun m i => alone i m) c.mem ∧
      ∀ i ∈ is, prog i (c'.locals i, c'.mem) = none := by
  induction is generalizing c with
  | nil => exact ⟨c, .refl, rfl, fun _ h => absurd h List.not_mem_nil⟩
  | cons i is ih =>
    rw [List.nodup_cons] at hnodup
    obtain ⟨l, hreach, hend⟩ := halone i List.mem_cons_self c.mem
    have hrun := interleave_of_reaches hreach
    have hlocals' := (Sees.run hkeeps hapart hlocals hrun).locals
    have hothers : ∀ j ∈ is, Function.update c.locals i l j = c.locals j := fun j hj =>
      Function.update_of_ne (fun hji : j = i => hnodup.1 (hji ▸ hj)) _ _
    obtain ⟨c', hrun', hmem, hends⟩ := ih (c := ⟨Function.update c.locals i l, alone i c.mem⟩) hnodup.2 hlocals'
      fun j hj m => by
        simp only [hothers j hj]
        exact halone j (List.mem_cons_of_mem _ hj) m
    refine ⟨c', hrun.trans hrun', hmem, List.forall_mem_cons.mpr ⟨?_, hends⟩⟩
    refine (finished_run hkeeps hapart hrun' hlocals' ?_).1
    simp only [Function.update_self]
    exact hend

end Apart

end RecoveryQt
