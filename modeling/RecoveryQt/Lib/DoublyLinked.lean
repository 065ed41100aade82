import Mathlib.Data.List.Nodup

/-!
# Doubly linked lists

* `Cell`, `Segment`: the cells of a heap that are linked one after the other, in both directions;
* `firstAddr`, `lastAddr`: the ends of a segment; `segment_append`: a segment is cut anywhere;
* `Segment.congr`: a segment depends on its own cells only; `Segment.unique`: and is determined by them;
* `setPrev`, `setNext`: a link that is written; `Segment.setPrev`, `Segment.setNext`;
* **`Segment.insert`**: a new cell between two parts of a list.
-/

namespace RecoveryQt

open List

variable {ι : Type*}

/-- A cell of a list, with its two links. -/
structure Cell (ι : Type*) where
  item : ι
  prev : Option ℕ
  next : Option ℕ

/-- The address of the first of the cells, or of what follows them. -/
def firstAddr : List (ℕ × ι) → Option ℕ → Option ℕ
  | [], n => n
  | (a, _) :: _, _ => some a

/-- The address of the last of the cells, or of what is in front of them. -/
def lastAddr : Option ℕ → List (ℕ × ι) → Option ℕ
  | p, [] => p
  | _, (a, _) :: rest => lastAddr (some a) rest

/-- The cells at these addresses hold these items, and are linked with each other, with `p` and with `n`. -/
def Segment (cell : ℕ → Option (Cell ι)) : Option ℕ → List (ℕ × ι) → Option ℕ → Prop
  | _, [], _ => True
  | p, (a, x) :: rest, n => cell a = some ⟨x, p, firstAddr rest n⟩ ∧ Segment cell (some a) rest n

variable {cell cell' : ℕ → Option (Cell ι)} {p n : Option ℕ} {xs ys : List (ℕ × ι)}

theorem firstAddr_append (xs ys : List (ℕ × ι)) (n : Option ℕ) : firstAddr (xs ++ ys) n = firstAddr xs (firstAddr ys n) := by
  cases xs <;> rfl

theorem lastAddr_append (p : Option ℕ) (xs ys : List (ℕ × ι)) : lastAddr p (xs ++ ys) = lastAddr (lastAddr p xs) ys := by
  induction xs generalizing p with
  | nil => rfl
  | cons x xs ih => exact ih _

/-- **A segment is two**, each linked with the other. -/
theorem segment_append : Segment cell p (xs ++ ys) n ↔
    Segment cell p xs (firstAddr ys n) ∧ Segment cell (lastAddr p xs) ys n := by
  induction xs generalizing p with
  | nil => exact ⟨fun h => ⟨trivial, h⟩, And.right⟩
  | cons x xs ih =>
    obtain ⟨a, x⟩ := x
    simp only [cons_append, Segment, ih, firstAddr_append, lastAddr, and_assoc]

/-- The cells of a segment are all that matters. -/
theorem Segment.congr (h : Segment cell p xs n) (heq : ∀ a ∈ xs.map Prod.fst, cell' a = cell a) :
    Segment cell' p xs n := by
  induction xs generalizing p with
  | nil => trivial
  | cons x xs ih =>
    obtain ⟨a, x⟩ := x
    exact ⟨(heq a mem_cons_self).trans h.1, ih h.2 fun b hb => heq b (mem_cons_of_mem _ hb)⟩

/-- **The cells say** what segment starts at an address. -/
theorem Segment.unique (h : Segment cell p xs none) (h' : Segment cell p ys none)
    (hfirst : firstAddr xs none = firstAddr ys none) : xs = ys := by
  induction xs generalizing p ys with
  | nil =>
    cases ys with
    | nil => rfl
    | cons y ys => cases hfirst
  | cons x xs ih =>
    cases ys with
    | nil => cases hfirst
    | cons y ys =>
      obtain ⟨a, x⟩ := x
      obtain ⟨b, y⟩ := y
      obtain rfl : a = b := Option.some.inj hfirst
      obtain ⟨hcell, hrest⟩ := h
      obtain ⟨hcell', hrest'⟩ := h'
      have heq := Option.some.inj (hcell.symm.trans hcell')
      injection heq with hitem _ hnext
      rw [hitem, ih hrest hrest' hnext]

/-! ## Links that are written -/

/-- `next->prev = a`. -/
def setPrev (cell : ℕ → Option (Cell ι)) (next : Option ℕ) (a : ℕ) : ℕ → Option (Cell ι) :=
  next.elim cell fun b => Function.update cell b ((cell b).map fun c => { c with prev := some a })

/-- `prev->next = a`. -/
def setNext (cell : ℕ → Option (Cell ι)) (prev : Option ℕ) (a : ℕ) : ℕ → Option (Cell ι) :=
  prev.elim cell fun b => Function.update cell b ((cell b).map fun c => { c with next := some a })

theorem setPrev_of_ne {next : Option ℕ} {a b : ℕ} (h : next ≠ some b) : setPrev cell next a b = cell b := by
  cases next with
  | none => rfl
  | some c => exact Function.update_of_ne (fun hbc => h (congrArg some hbc.symm)) _ _

theorem setNext_of_ne {prev : Option ℕ} {a b : ℕ} (h : prev ≠ some b) : setNext cell prev a b = cell b := by
  cases prev with
  | none => rfl
  | some c => exact Function.update_of_ne (fun hbc => h (congrArg some hbc.symm)) _ _

theorem firstAddr_ne_of_not_mem {b : ℕ} (h : b ∉ xs.map Prod.fst) : firstAddr xs none ≠ some b := by
  cases xs with
  | nil => exact nofun
  | cons x xs =>
    intro heq
    exact h (mem_cons.mpr (Or.inl (Option.some.inj heq).symm))

theorem lastAddr_mem (p : Option ℕ) (xs : List (ℕ × ι)) : lastAddr p xs = p ∨ ∃ b ∈ xs.map Prod.fst, lastAddr p xs = some b := by
  induction xs generalizing p with
  | nil => exact Or.inl rfl
  | cons x xs ih =>
    right
    rcases ih (some x.1) with h | ⟨b, hb, h⟩
    · exact ⟨x.1, mem_cons_self, h⟩
    · exact ⟨b, mem_cons_of_mem _ hb, h⟩

theorem lastAddr_ne_of_not_mem {b : ℕ} (h : b ∉ xs.map Prod.fst) : lastAddr none xs ≠ some b := by
  intro heq
  rcases lastAddr_mem none xs with h' | ⟨c, hc, h'⟩
  · rw [h'] at heq
    cases heq
  · rw [h'] at heq
    exact h (Option.some.inj heq ▸ hc)

/-- The first cell gets another cell in front of it. -/
theorem Segment.setPrev (h : Segment cell p xs none) (hd : (xs.map Prod.fst).Nodup) (a : ℕ) :
    Segment (setPrev cell (firstAddr xs none) a) (some a) xs none := by
  cases xs with
  | nil => trivial
  | cons x xs =>
    obtain ⟨b, x⟩ := x
    have hb : b ∉ xs.map Prod.fst := (nodup_cons.mp hd).1
    refine ⟨?_, h.2.congr fun c hc => setPrev_of_ne fun hbc => hb (Option.some.inj hbc ▸ hc)⟩
    change Function.update cell b ((cell b).map fun c => { c with prev := some a }) b = _
    rw [Function.update_self, h.1]
    rfl

/-- The last cell gets another cell behind it. -/
theorem Segment.setNext (h : Segment cell none xs n) (hd : (xs.map Prod.fst).Nodup) (a : ℕ) :
    Segment (setNext cell (lastAddr none xs) a) none xs (some a) := by
  rcases eq_nil_or_concat xs with rfl | ⟨xs, ⟨b, x⟩, rfl⟩
  · trivial
  · rw [concat_eq_append] at *
    obtain ⟨hxs, hcell, -⟩ := segment_append.mp h
    rw [map_append, nodup_append] at hd
    have hb : b ∉ xs.map Prod.fst := fun hmem => hd.2.2 b hmem b (by simp) rfl
    rw [lastAddr_append, segment_append]
    refine ⟨hxs.congr fun c hc => setNext_of_ne fun hbc => hb (Option.some.inj hbc ▸ hc), ?_, trivial⟩
    change Function.update cell b ((cell b).map fun c => { c with next := some a }) b = _
    rw [Function.update_self, hcell]
    rfl

/-- **A new cell between two parts of a list** is linked with both. -/
theorem Segment.insert {a : ℕ} {x : ι} (h : Segment cell none (xs ++ ys) none)
    (hd : ((xs ++ ys).map Prod.fst).Nodup) (ha : a ∉ (xs ++ ys).map Prod.fst) :
    Segment
      (RecoveryQt.setNext (RecoveryQt.setPrev
        (Function.update cell a (some ⟨x, lastAddr none xs, firstAddr ys none⟩)) (firstAddr ys none) a) (lastAddr none xs) a)
      none (xs ++ (a, x) :: ys) none := by
  obtain ⟨hxs, hys⟩ := segment_append.mp h
  rw [map_append] at hd ha
  have hax : a ∉ xs.map Prod.fst := fun hmem => ha (mem_append_left _ hmem)
  have hay : a ∉ ys.map Prod.fst := fun hmem => ha (mem_append_right _ hmem)
  have hdisj := (nodup_append.mp hd).2.2
  have hnew : ∀ b : ℕ, b ≠ a → Function.update cell a (some ⟨x, lastAddr none xs, firstAddr ys none⟩) b = cell b :=
    fun b hb => Function.update_of_ne hb _ _
  rw [segment_append]
  refine ⟨?_, ?_, ?_⟩
  · have hfront : Segment (RecoveryQt.setPrev (Function.update cell a (some ⟨x, lastAddr none xs, firstAddr ys none⟩))
        (firstAddr ys none) a) none xs (firstAddr ys none) := by
      refine hxs.congr fun b hb => ?_
      rw [setPrev_of_ne (firstAddr_ne_of_not_mem fun hby => hdisj b hb b hby rfl), hnew b fun hba => hax (hba ▸ hb)]
    exact hfront.setNext (nodup_append.mp hd).1 a
  · rw [setNext_of_ne (lastAddr_ne_of_not_mem hax), setPrev_of_ne (firstAddr_ne_of_not_mem hay), Function.update_self]
  · have hback : Segment (Function.update cell a (some ⟨x, lastAddr none xs, firstAddr ys none⟩)) (lastAddr none xs) ys
        none := hys.congr fun b hb => hnew b fun hba => hay (hba ▸ hb)
    exact (hback.setPrev (nodup_append.mp hd).2.1 a).congr fun b hb =>
      setNext_of_ne (lastAddr_ne_of_not_mem fun hbx => hdisj b hbx b hb rfl)

end RecoveryQt
