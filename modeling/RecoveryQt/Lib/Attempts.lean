import Mathlib.Data.List.Basic

/-!
# Attempts that leave notes

An attempt notes what it does, and it gives a result, is given up, or comes to a fault that ends everything.

* `Halt`, `Attempt`; `note`, `require`, `ofOption`, `fault`: the steps of an attempt;
* `AllNotes`, `allNotes_bind`: what holds of all notes; `result_bind_eq_ok`: how a result comes about;
* `firstDone`: one attempt after the other, until one is not given up; `tried`: those that are made;
* **`allNotes_firstDone`**, **`result_firstDone_eq_ok`**: the notes and the result are theirs.
-/

namespace RecoveryQt

open List

/-- The ends of an attempt without a result. -/
inductive Halt where
  | givenUp | fault
  deriving DecidableEq

/-- The notes, and the result. -/
structure Attempt (ε α : Type) where
  notes : List ε
  result : Except Halt α

namespace Attempt

variable {ε α β : Type}

/-- What follows a result. -/
def andThen (m : Attempt ε α) (f : α → Attempt ε β) : Attempt ε β :=
  match m.result with
  | .ok a => ⟨m.notes ++ (f a).notes, (f a).result⟩
  | .error h => ⟨m.notes, .error h⟩

instance : Monad (Attempt ε) where
  pure a := ⟨[], .ok a⟩
  bind m f := m.andThen f

def note (e : ε) : Attempt ε Unit := ⟨[e], .ok ()⟩

def require (p : Prop) [Decidable p] : Attempt ε Unit := ⟨[], if p then .ok () else .error .givenUp⟩

def ofOption (x : Option α) : Attempt ε α := ⟨[], x.elim (.error .givenUp) .ok⟩

def fault : Attempt ε α := ⟨[], .error .fault⟩

def giveUp : Attempt ε α := ⟨[], .error .givenUp⟩

/-! ## Notes and results -/

/-- A property of all notes. -/
def AllNotes (P : ε → Prop) (m : Attempt ε α) : Prop := ∀ e ∈ m.notes, P e

variable {P : ε → Prop}

@[simp] theorem allNotes_pure (a : α) : AllNotes P (pure a : Attempt ε α) := nofun

@[simp] theorem allNotes_note {e : ε} : AllNotes P (note e) ↔ P e := forall_mem_singleton

@[simp] theorem allNotes_require (p : Prop) [Decidable p] : AllNotes P (require p : Attempt ε Unit) := nofun

@[simp] theorem allNotes_ofOption (x : Option α) : AllNotes P (ofOption x : Attempt ε α) := nofun

@[simp] theorem allNotes_fault : AllNotes P (fault : Attempt ε α) := nofun

@[simp] theorem allNotes_giveUp : AllNotes P (giveUp : Attempt ε α) := nofun

@[simp] theorem result_pure (a : α) : (pure a : Attempt ε α).result = .ok a := rfl

@[simp] theorem result_note (e : ε) : (note e).result = .ok () := rfl

@[simp] theorem result_require_eq_ok {p : Prop} [Decidable p] {u : Unit} :
    (require p : Attempt ε Unit).result = .ok u ↔ p := by
  unfold require
  split_ifs with h
  · exact iff_of_true rfl h
  · exact iff_of_false (by rintro ⟨⟩) h

@[simp] theorem result_ofOption_eq_ok {x : Option α} {a : α} : (ofOption x : Attempt ε α).result = .ok a ↔ x = some a := by
  cases x with
  | none => exact iff_of_false (by rintro ⟨⟩) (by rintro ⟨⟩)
  | some b => simp [ofOption]

@[simp] theorem result_fault_ne_ok (a : α) : (fault : Attempt ε α).result ≠ .ok a := by rintro ⟨⟩

@[simp] theorem result_giveUp_ne_ok (a : α) : (giveUp : Attempt ε α).result ≠ .ok a := by rintro ⟨⟩

theorem result_eq_ok_of_toOption {m : Attempt ε α} {a : α} (h : m.result.toOption = some a) : m.result = .ok a := by
  cases hm : m.result with
  | ok b =>
    rw [hm] at h
    exact congrArg _ (Option.some.inj h)
  | error e =>
    rw [hm] at h
    cases h

/-- **The notes of two steps.** -/
@[simp] theorem allNotes_bind {m : Attempt ε α} {f : α → Attempt ε β} :
    AllNotes P (m >>= f) ↔ AllNotes P m ∧ ∀ a, m.result = .ok a → AllNotes P (f a) := by
  show AllNotes P (m.andThen f) ↔ _
  unfold andThen AllNotes
  cases h : m.result with
  | ok a =>
    simp only [mem_append, or_imp, forall_and]
    refine and_congr_right fun _ => ⟨fun hf b hb => ?_, fun hf => hf a rfl⟩
    obtain rfl := Except.ok.inj hb
    exact hf
  | error e => exact ⟨fun hm => ⟨hm, nofun⟩, fun hm => hm.1⟩

/-- **How a result comes about.** -/
@[simp] theorem result_bind_eq_ok {m : Attempt ε α} {f : α → Attempt ε β} {b : β} :
    (m >>= f).result = .ok b ↔ ∃ a, m.result = .ok a ∧ (f a).result = .ok b := by
  show (m.andThen f).result = .ok b ↔ _
  unfold andThen
  cases h : m.result with
  | ok a => simp
  | error e => simp

theorem ofOption_bind {x : Option α} {a : α} (hx : x = some a) (f : α → Attempt ε β) : (ofOption x >>= f) = f a := by
  subst hx
  rfl

/-! ## One attempt after the other -/

/-- The first attempt that is not given up. -/
def firstDone (f : α → Attempt ε β) : List α → Attempt ε β
  | [] => giveUp
  | a :: l =>
    match (f a).result with
    | .error .givenUp => ⟨(f a).notes ++ (firstDone f l).notes, (firstDone f l).result⟩
    | _ => f a

/-- The attempts that are made. -/
def tried (f : α → Attempt ε β) : List α → List α
  | [] => []
  | a :: l =>
    match (f a).result with
    | .error .givenUp => a :: tried f l
    | _ => [a]

variable {f : α → Attempt ε β}

theorem mem_of_mem_tried {l : List α} {a : α} (h : a ∈ tried f l) : a ∈ l := by
  induction l with
  | nil => exact h
  | cons x l ih =>
    rw [tried] at h
    split at h
    · rcases mem_cons.mp h with rfl | h
      · exact mem_cons_self
      · exact mem_cons_of_mem _ (ih h)
    · rw [mem_singleton.mp h]
      exact mem_cons_self

/-- No other attempt is made that gives a result. -/
theorem eq_of_mem_tried {l : List α} {a a' : α} {b b' : β} (ha : a ∈ tried f l) (ha' : a' ∈ tried f l)
    (h : (f a).result = .ok b) (h' : (f a').result = .ok b') : a = a' := by
  induction l with
  | nil => cases ha
  | cons x l ih =>
    rw [tried] at ha ha'
    cases hx : (f x).result with
    | ok c =>
      rw [hx] at ha ha'
      rw [mem_singleton.mp ha, mem_singleton.mp ha']
    | error e =>
      rw [hx] at ha ha'
      -- an attempt with a result is not this one
      have hne : ∀ {y c}, (f y).result = .ok c → y ≠ x := by
        rintro y c hy rfl
        rw [hx] at hy
        cases hy
      cases e with
      | givenUp => exact ih (mem_of_ne_of_mem (hne h) ha) (mem_of_ne_of_mem (hne h') ha')
      | fault => rw [mem_singleton.mp ha, mem_singleton.mp ha']

/-- **The notes are those of the attempts that are made.** -/
theorem allNotes_firstDone {l : List α} : AllNotes P (firstDone f l) ↔ ∀ a ∈ tried f l, AllNotes P (f a) := by
  induction l with
  | nil => exact iff_of_true nofun nofun
  | cons x l ih =>
    rw [firstDone, tried]
    split
    · rw [forall_mem_cons, ← ih]
      show (∀ e ∈ (f x).notes ++ (firstDone f l).notes, P e) ↔ _
      simp only [mem_append, or_imp, forall_and]
      rfl
    · rw [forall_mem_singleton]

/-- **The result is that of an attempt that is made.** -/
theorem result_firstDone_eq_ok {l : List α} {b : β} :
    (firstDone f l).result = .ok b ↔ ∃ a ∈ tried f l, (f a).result = .ok b := by
  induction l with
  | nil => exact iff_of_false (by rintro ⟨⟩) (by rintro ⟨a, ⟨⟩, -⟩)
  | cons x l ih =>
    rw [firstDone, tried]
    split
    next h => simp [ih, h]
    next => simp

end Attempt

end RecoveryQt
