import RecoveryQt.Lib.DoublyLinked
import RecoveryQt.Lib.MergeSort
import Mathlib.Data.Int.Order.Basic

/-!
# Sorting a list in memory

* `ListHeap`: the cells of the lists; a cell that is not there cannot be read or written;
* `ListHeap.merge`, `ListHeap.mergeAndRestoreBackLinks`, `ListHeap.tdListSort`: the code, with both links of a cell;
* `Forward`: cells that are linked forwards only; `Circular`: a list with its head;
* `mergeLoop_linked`: the loop that both merges share;
* `Levels`: the partial lists, level by level; `carryLoop_levels`, `sortLoop_levels`;
* **`tdListSort_circular`**: the list that the code leaves.
-/

namespace RecoveryQt

open List

variable {ι : Type}

/-- The cells of the lists. -/
abbrev ListHeap (ι : Type) := ℕ → Option (Cell ι)

/-- `MAX_LIST_LENGTH_BITS`. -/
def maxListLengthBits : ℕ := 20

namespace ListHeap

/-- `a->next = n`. -/
def putNext (h : ListHeap ι) (a : ℕ) (n : Option ℕ) : Option (ListHeap ι) :=
  (h a).map fun c => Function.update h a (some { c with next := n })

/-- `a->prev = p`. -/
def putPrev (h : ListHeap ι) (a : ℕ) (p : Option ℕ) : Option (ListHeap ι) :=
  (h a).map fun c => Function.update h a (some { c with prev := p })

/-- What a merge has done. Where `tail` is `none` it points to the variable `head` of `merge`, and `first` is
`head.next`. -/
structure Merging (ι : Type) where
  heap : ListHeap ι
  first : Option ℕ
  tail : Option ℕ

namespace Merging

/-- `tail->next = c`. -/
def link (s : Merging ι) (c : Option ℕ) : Option (Merging ι) :=
  match s.tail with
  | none => some { s with first := c }
  | some t => (s.heap.putNext t c).map fun h => { s with heap := h }

/-- `tail->next = a`, and `a->prev = tail` with the back links; then `tail = tail->next`. -/
def append (back : Bool) (s : Merging ι) (a : ℕ) : Option (Merging ι) := do
  let s ← s.link (some a)
  let h ← if back then s.heap.putPrev a s.tail else some s.heap
  some { s with heap := h, tail := some a }

end Merging

/-- The first loop of `merge`, and that of `merge_and_restore_back_links`, which has the same lines and the back
links. -/
def mergeLoop (cmp : ι → ι → ℤ) (back : Bool) : ℕ → Merging ι → Option ℕ → Option ℕ → Option (Merging ι)
  | 0, _, _, _ => none
  | rounds + 1, s, some a, some b => do
    let cellA ← s.heap a
    let cellB ← s.heap b
    if cmp cellA.item cellB.item ≤ 0 then
      let s ← s.append back a
      mergeLoop cmp back rounds s (← s.heap a).next (some b)
    else
      let s ← s.append back b
      mergeLoop cmp back rounds s (some a) (← s.heap b).next
  | _ + 1, s, a, b => s.link (if a.isSome then a else b)

/-- `merge`. -/
def merge (cmp : ι → ι → ℤ) (rounds : ℕ) (h : ListHeap ι) (a b : Option ℕ) : Option (ListHeap ι × Option ℕ) :=
  (mergeLoop cmp false rounds ⟨h, none, none⟩ a b).map fun s => (s.heap, s.first)

/-- The second loop of `merge_and_restore_back_links`. -/
def backLoop : ℕ → ListHeap ι → ℕ → Option (ListHeap ι × ℕ)
  | 0, _, _ => none
  | rounds + 1, h, tail => do
    let next ← (← h tail).next
    let h ← h.putPrev next (some tail)
    if (← h next).next.isSome then backLoop rounds h next else some (h, next)

/-- `merge_and_restore_back_links`. -/
def mergeAndRestoreBackLinks (cmp : ι → ι → ℤ) (rounds : ℕ) (h : ListHeap ι) (head : ℕ) (a b : Option ℕ) :
    Option (ListHeap ι) := do
  let s ← mergeLoop cmp true rounds ⟨h, none, some head⟩ a b
  let (h, tail) ← backLoop rounds s.heap (← s.tail)
  let h ← h.putNext tail (some head)
  h.putPrev head (some tail)

/-- The loop over the levels in `td_list_sort`, from `lev` on, with `cur`. -/
def carryLoop (cmp : ι → ι → ℤ) (rounds : ℕ) : ℕ → ListHeap ι → List (Option ℕ) → ℕ → Option ℕ →
    Option (ListHeap ι × List (Option ℕ) × ℕ × Option ℕ)
  | 0, _, _, _, _ => none
  | levels + 1, h, part, lev, cur => do
    if (← part[lev]?).isSome then
      let (h, cur) ← merge cmp rounds h (← part[lev]?) cur
      carryLoop cmp rounds levels h (part.set lev none) (lev + 1) cur
    else some (h, part, lev, cur)

/-- The level where `cur` is put, and `max_lev`. -/
def capLevel (lev maxLev : ℕ) : ℕ × ℕ :=
  if lev > maxLev then
    let lev := if lev ≥ maxListLengthBits then lev - 1 else lev
    (lev, lev)
  else (lev, maxLev)

/-- The loop of `td_list_sort` over the cells of the list. -/
def sortLoop (cmp : ι → ι → ℤ) (inner : ℕ) : ℕ → ListHeap ι → List (Option ℕ) → ℕ → Option ℕ →
    Option (ListHeap ι × List (Option ℕ) × ℕ)
  | 0, _, _, _, _ => none
  | _ + 1, h, part, maxLev, none => some (h, part, maxLev)
  | rounds + 1, h, part, maxLev, some cur => do
    let list := (← h cur).next
    let h ← h.putNext cur none
    let (h, part, lev, cur) ← carryLoop cmp inner (maxListLengthBits + 1) h part 0 (some cur)
    let (lev, maxLev) := capLevel lev maxLev
    sortLoop cmp inner rounds h (part.set lev cur) maxLev list

/-- The last loop of `td_list_sort`, over the levels below `maxLev`. -/
def collectLoop (cmp : ι → ι → ℤ) (rounds : ℕ) (part : List (Option ℕ)) (maxLev : ℕ) (h : ListHeap ι)
    (list : Option ℕ) : Option (ListHeap ι × Option ℕ) :=
  (range maxLev).foldlM (fun (h, list) lev => do
    if (← part[lev]?).isSome then merge cmp rounds h (← part[lev]?) list else some (h, list)) (h, list)

/-- `td_list_sort`. Every loop has at most `rounds` rounds. -/
def tdListSort (cmp : ι → ι → ℤ) (rounds : ℕ) (h : ListHeap ι) (head : ℕ) : Option (ListHeap ι) := do
  if (← h head).next = some head then some h
  else
    let h ← h.putNext (← (← h head).prev) none
    let (h, part, maxLev) ← sortLoop cmp rounds rounds h (replicate (maxListLengthBits + 1) none) 0 (← h head).next
    let (h, list) ← collectLoop cmp rounds part maxLev h none
    mergeAndRestoreBackLinks cmp rounds h head (← part[maxLev]?) list

end ListHeap

/-! ## Lists that are linked forwards -/

/-- The cells at these addresses hold these items, and each points to the next one. -/
def Forward (h : ListHeap ι) : List (ℕ × ι) → Option ℕ → Prop
  | [], _ => True
  | (a, x) :: rest, n => (∃ p, h a = some ⟨x, p, firstAddr rest n⟩) ∧ Forward h rest n

/-- The two heaps are the same outside these addresses. -/
def SameOutside (as : List ℕ) (h h' : ListHeap ι) : Prop := ∀ a ∉ as, h' a = h a

/-- A list with its head, which is linked with both ends. -/
structure Circular (h : ListHeap ι) (head : ℕ) (x : ι) (xs : List (ℕ × ι)) : Prop where
  sentinel : h head = some ⟨x, lastAddr (some head) xs, firstAddr xs (some head)⟩
  cells : Segment h (some head) xs (some head)
  nodup : (head :: xs.map Prod.fst).Nodup

variable {h h' h'' : ListHeap ι} {xs ys : List (ℕ × ι)} {p n : Option ℕ} {as bs : List ℕ}

theorem Forward.congr (hx : Forward h xs n) (heq : ∀ a ∈ xs.map Prod.fst, h' a = h a) : Forward h' xs n := by
  induction xs with
  | nil => trivial
  | cons x xs ih =>
    obtain ⟨a, x⟩ := x
    obtain ⟨⟨p, hcell⟩, hrest⟩ := hx
    exact ⟨⟨p, (heq a mem_cons_self).trans hcell⟩, ih hrest fun b hb => heq b (mem_cons_of_mem _ hb)⟩

theorem Forward.of_segment (hx : Segment h p xs n) : Forward h xs n := by
  induction xs generalizing p with
  | nil => trivial
  | cons x xs ih => exact ⟨⟨p, hx.1⟩, ih hx.2⟩

theorem SameOutside.trans (hh : SameOutside as h h') (hh' : SameOutside bs h' h'') (h₁ : ∀ a ∈ as, a ∈ bs) :
    SameOutside bs h h'' :=
  fun a ha => (hh' a ha).trans (hh a fun hmem => ha (h₁ a hmem))

theorem SameOutside.mono (hh : SameOutside as h h') (h₁ : ∀ a ∈ as, a ∈ bs) : SameOutside bs h h' :=
  fun a ha => hh a fun hmem => ha (h₁ a hmem)

theorem sameOutside_update (a : ℕ) (c : Option (Cell ι)) : SameOutside [a] h (Function.update h a c) :=
  fun _ hb => Function.update_of_ne (fun hba => hb (mem_singleton.mpr hba)) _ _

theorem SameOutside.forward (hh : SameOutside as h h') (hx : Forward h xs n)
    (hdisj : ∀ a ∈ xs.map Prod.fst, a ∉ as) : Forward h' xs n :=
  hx.congr fun a ha => hh a (hdisj a ha)

/-- The last cell gets another cell behind it. -/
theorem segment_concat_update {l : ℕ} {y : ι} (hseg : Segment h p (xs ++ [(l, y)]) n)
    (hnd : ((xs ++ [(l, y)]).map Prod.fst).Nodup) (m : Option ℕ) :
    h l = some ⟨y, lastAddr p xs, n⟩ ∧
      Segment (Function.update h l (some ⟨y, lastAddr p xs, m⟩)) p (xs ++ [(l, y)]) m := by
  obtain ⟨hxs, hcell, -⟩ := segment_append.mp hseg
  rw [map_append, nodup_append] at hnd
  refine ⟨hcell, segment_append.mpr ⟨hxs.congr fun b hb => ?_, Function.update_self _ _ _, trivial⟩⟩
  exact Function.update_of_ne (hnd.2.2 b hb l (by simp)) _ _

/-- A segment says what its cells are. -/
theorem segment_cells (hx : Segment h p xs n) (hx' : Segment h' p xs n) : ∀ a ∈ xs.map Prod.fst, h a = h' a := by
  induction xs generalizing p with
  | nil => exact fun _ ha => absurd ha not_mem_nil
  | cons x xs ih =>
    intro a ha
    rcases mem_cons.mp ha with rfl | ha
    · rw [hx.1, hx'.1]
    · exact ih hx.2 hx'.2 a ha

theorem firstAddr_of_ne_nil (hne : xs ≠ []) (n m : Option ℕ) : firstAddr xs n = firstAddr xs m := by
  cases xs with
  | nil => exact absurd rfl hne
  | cons x xs => rfl

theorem lastAddr_of_ne_nil (hne : xs ≠ []) (p q : Option ℕ) : lastAddr p xs = lastAddr q xs := by
  cases xs with
  | nil => exact absurd rfl hne
  | cons x xs => rfl

theorem linked_append : Forward h (xs ++ ys) n ↔ Forward h xs (firstAddr ys n) ∧ Forward h ys n := by
  induction xs with
  | nil => exact ⟨fun hx => ⟨trivial, hx⟩, And.right⟩
  | cons x xs ih =>
    obtain ⟨a, x⟩ := x
    simp only [cons_append, Forward, ih, firstAddr_append, and_assoc]

namespace ListHeap

theorem putNext_of_some {a : ℕ} {c : Cell ι} (hc : h a = some c) (n : Option ℕ) :
    h.putNext a n = some (Function.update h a (some { c with next := n })) := by
  rw [putNext, hc]
  rfl

theorem putPrev_of_some {a : ℕ} {c : Cell ι} (hc : h a = some c) (p : Option ℕ) :
    h.putPrev a p = some (Function.update h a (some { c with prev := p })) := by
  rw [putPrev, hc]
  rfl

end ListHeap

/-! ## The merge -/

section Merge

variable (cmp : ι → ι → ℤ)

/-- What the merge takes first. -/
def cmpLe (a b : ℕ × ι) : Bool := cmp a.2 b.2 ≤ 0

theorem not_mem_pair {a b d : ℕ} (ha : d ≠ a) (hb : d ≠ b) : d ∉ [a, b] := by
  simp [ha, hb]

namespace ListHeap

variable {cmp} {back : Bool} {first : Option ℕ} {t : ℕ} {c : Cell ι} {rounds : ℕ}

variable (back first) in
/-- One cell is taken. -/
theorem append_of_cells {a : ℕ} {x : ι} {p n : Option ℕ} (ht : h t = some c) (ha : h a = some ⟨x, p, n⟩) (hta : t ≠ a) :
    ∃ h₁, Merging.append back ⟨h, first, some t⟩ a = some ⟨h₁, first, some a⟩ ∧
      h₁ t = some { c with next := some a } ∧ h₁ a = some ⟨x, if back then some t else p, n⟩ ∧
      SameOutside [t, a] h h₁ := by
  have hlink : Merging.link ⟨h, first, some t⟩ (some a) =
      some ⟨Function.update h t (some { c with next := some a }), first, some t⟩ := by
    simp only [Merging.link, putNext_of_some ht, Option.map_some]
  have ha' : Function.update h t (some { c with next := some a }) a = some ⟨x, p, n⟩ := by
    rw [Function.update_of_ne hta.symm, ha]
  cases back with
  | false =>
    refine ⟨_, by simp only [Merging.append, hlink]; rfl, Function.update_self _ _ _, ha', fun b hb => ?_⟩
    exact Function.update_of_ne (fun hbt => hb (by simp [hbt])) _ _
  | true =>
    refine ⟨Function.update (Function.update h t (some { c with next := some a })) a (some ⟨x, some t, n⟩), ?_, ?_, ?_,
      fun b hb => ?_⟩
    · simp only [Merging.append, hlink, if_true, Option.bind_eq_bind, Option.bind_some, putPrev_of_some ha']
    · rw [Function.update_of_ne hta, Function.update_self]
    · exact Function.update_self _ _ _
    · simp only [mem_cons, not_mem_nil, or_false, not_or] at hb
      rw [Function.update_of_ne hb.2, Function.update_of_ne hb.1]

theorem mergeLoop_none_left (s : Merging ι) (b : Option ℕ) : mergeLoop cmp back (rounds + 1) s none b = s.link b := by
  cases b <;> rfl

theorem mergeLoop_cells {s : Merging ι} {a b : ℕ} {x y : ι} {p q n m : Option ℕ} (ha : s.heap a = some ⟨x, p, n⟩)
    (hb : s.heap b = some ⟨y, q, m⟩) : mergeLoop cmp back (rounds + 1) s (some a) (some b) =
      if cmp x y ≤ 0 then
        (s.append back a).bind fun s => (s.heap a).bind fun cell => mergeLoop cmp back rounds s cell.next (some b)
      else
        (s.append back b).bind fun s => (s.heap b).bind fun cell => mergeLoop cmp back rounds s (some a) cell.next := by
  rw [mergeLoop, ha, hb]
  rfl

theorem mergeLoop_none_right (s : Merging ι) (a : ℕ) : mergeLoop cmp back (rounds + 1) s (some a) none = s.link (some a) :=
  rfl

/-- What the loop has done from the cell `a` on, seen from the cell `t` in front of it. -/
theorem linked_of_taken {h₁ : ListHeap ι} {a : ℕ} {x : ι} {q : Option ℕ} {us vs : List (ℕ × ι)} {bs : List ℕ}
    (ht : h₁ t = some { c with next := some a }) (hs₁ : SameOutside [t, a] h h₁) (htb : t ∉ a :: bs)
    (ha : h' a = some ⟨x, if back then some t else q, firstAddr (us ++ vs) none⟩) (hlinked : Forward h' (us ++ vs) none)
    (hback : back → Segment h' (some a) us (firstAddr vs none)) (hs : SameOutside (a :: bs) h₁ h') :
    h' t = some { c with next := firstAddr ((a, x) :: us ++ vs) none } ∧ Forward h' ((a, x) :: us ++ vs) none ∧
      (back → Segment h' (some t) ((a, x) :: us) (firstAddr vs none)) ∧ SameOutside (t :: a :: bs) h h' := by
  refine ⟨(hs t htb).trans ht, ⟨⟨_, ha⟩, hlinked⟩, fun hb => ⟨?_, hback hb⟩, ?_⟩
  · rw [ha, hb, firstAddr_append]
    rfl
  · refine hs₁.trans (hs.mono fun b hb => mem_cons_of_mem _ hb) fun b hb => ?_
    simp only [mem_cons, not_mem_nil, or_false] at hb ⊢
    tauto

variable (cmp back first) in
/-- **The loop of a merge** behind the cell `t`. The cells `us` are taken one by one, the rest `vs` is left as it is. -/
theorem mergeLoop_linked (ht : h t = some c) (hx : Forward h xs none) (hy : Forward h ys none)
    (hnd : (t :: (xs ++ ys).map Prod.fst).Nodup) (hrounds : xs.length + ys.length < rounds) :
    ∃ h' us vs, mergeLoop cmp back rounds ⟨h, first, some t⟩ (firstAddr xs none) (firstAddr ys none) =
        some ⟨h', first, lastAddr (some t) us⟩ ∧
      List.merge xs ys (cmpLe cmp) = us ++ vs ∧ (vs = [] → xs ++ ys = []) ∧
      h' t = some { c with next := firstAddr (us ++ vs) none } ∧ Forward h' (us ++ vs) none ∧
      (back → Segment h' (some t) us (firstAddr vs none)) ∧ SameOutside (t :: (xs ++ ys).map Prod.fst) h h' := by
  induction rounds generalizing h xs ys t c with
  | zero => exact absurd hrounds (Nat.not_lt_zero _)
  | succ rounds ih =>
    obtain ⟨htxy, hndxy⟩ := nodup_cons.mp hnd
    cases xs with
    | nil =>
      refine ⟨Function.update h t (some { c with next := firstAddr ys none }), [], ys, ?_, nil_merge ys, id,
        Function.update_self _ _ _, ?_, fun _ => trivial, ?_⟩
      · rw [firstAddr, mergeLoop_none_left, Merging.link]
        simp only [putNext_of_some ht, Option.map_some, lastAddr]
      · exact (sameOutside_update t _).forward hy fun b hb => fun hbt => htxy (mem_singleton.mp hbt ▸ hb)
      · exact (sameOutside_update t _).mono fun b hb => mem_cons.mpr (Or.inl (mem_singleton.mp hb))
    | cons x xs =>
      obtain ⟨a, x⟩ := x
      have hx' := hx
      obtain ⟨⟨p, hcella⟩, hxs⟩ := hx
      cases ys with
      | nil =>
        refine ⟨Function.update h t (some { c with next := some a }), [], (a, x) :: xs, ?_, merge_right _,
          fun h => absurd h (cons_ne_nil _ _), Function.update_self _ _ _, ?_, fun _ => trivial, ?_⟩
        · rw [firstAddr, firstAddr, mergeLoop_none_right, Merging.link]
          simp only [putNext_of_some ht, Option.map_some, lastAddr]
        · rw [append_nil] at htxy
          exact (sameOutside_update t _).forward hx' fun b hb => fun hbt => htxy (mem_singleton.mp hbt ▸ hb)
        · exact (sameOutside_update t _).mono fun b hb => mem_cons.mpr (Or.inl (mem_singleton.mp hb))
      | cons y ys =>
        obtain ⟨b, y⟩ := y
        have hy' := hy
        obtain ⟨⟨q, hcellb⟩, hys⟩ := hy
        rw [firstAddr, firstAddr, mergeLoop_cells hcella hcellb]
        by_cases hle : cmp x y ≤ 0
        · have hta : t ≠ a := fun h => htxy (by simp [h])
          obtain ⟨h₁, happ, ht₁, ha₁, hs₁⟩ := append_of_cells back first ht hcella hta
          have hnd₁ : (a :: (xs ++ (b, y) :: ys).map Prod.fst).Nodup := hndxy
          have hout : ∀ d ∈ (xs ++ (b, y) :: ys).map Prod.fst, d ∉ [t, a] :=
            fun d hd => not_mem_pair (fun h => htxy (mem_cons_of_mem _ (h ▸ hd)))
              fun h => (nodup_cons.mp hnd₁).1 (h ▸ hd)
          rw [map_append] at hout
          obtain ⟨h', us, vs, hrun, hmerge, hnil, ha', hlinked, hback, hs⟩ := ih ha₁
            (hs₁.forward hxs fun d hd => hout d (mem_append_left _ hd))
            (hs₁.forward hy' fun d hd => hout d (mem_append_right _ hd)) hnd₁ (by simp at hrounds ⊢; omega)
          refine ⟨h', (a, x) :: us, vs, ?_, ?_, fun hvs => ?_,
            linked_of_taken ht₁ hs₁ htxy ha' hlinked hback hs⟩
          · rw [if_pos hle, happ, Option.bind_some]
            change (h₁ a).bind _ = _
            rw [ha₁]
            exact hrun
          · rw [cons_merge_cons_pos _ _ _ (by simpa [cmpLe] using hle), hmerge]
            rfl
          · simpa using hnil hvs
        · have htb : t ≠ b := fun h => htxy (by simp [h])
          obtain ⟨h₁, happ, ht₁, hb₁, hs₁⟩ := append_of_cells back first ht hcellb htb
          have hperm : (((a, x) :: xs ++ (b, y) :: ys).map Prod.fst) ~ b :: ((a, x) :: xs ++ ys).map Prod.fst :=
            perm_middle.map Prod.fst
          have hnd₁ : (b :: ((a, x) :: xs ++ ys).map Prod.fst).Nodup := hperm.nodup_iff.mp hndxy
          have hout : ∀ d ∈ ((a, x) :: xs ++ ys).map Prod.fst, d ∉ [t, b] :=
            fun d hd => not_mem_pair (fun h => htxy (hperm.mem_iff.mpr (mem_cons_of_mem _ (h ▸ hd))))
              fun h => (nodup_cons.mp hnd₁).1 (h ▸ hd)
          rw [map_append] at hout
          obtain ⟨h', us, vs, hrun, hmerge, hnil, hb', hlinked, hback, hs⟩ := ih hb₁
            (hs₁.forward hx' fun d hd => hout d (mem_append_left _ hd))
            (hs₁.forward hys fun d hd => hout d (mem_append_right _ hd)) hnd₁ (by simp at hrounds ⊢; omega)
          obtain ⟨ht', hlinked', hback', hs'⟩ :=
            linked_of_taken ht₁ hs₁ (fun h => htxy (hperm.mem_iff.mpr h)) hb' hlinked hback hs
          refine ⟨h', (b, y) :: us, vs, ?_, ?_, fun hvs => ?_, ht', hlinked', hback', hs'.mono fun d hd => ?_⟩
          · rw [if_neg hle, happ, Option.bind_some]
            change (h₁ b).bind _ = _
            rw [hb₁]
            exact hrun
          · rw [cons_merge_cons_neg _ _ _ (by simpa [cmpLe] using hle), hmerge]
            rfl
          · simpa using hnil hvs
          · exact (hperm.cons t).mem_iff.mpr hd

variable (cmp) in
/-- **The merge** of two lists. -/
theorem merge_linked (hx : Forward h xs none) (hy : Forward h ys none) (hnd : ((xs ++ ys).map Prod.fst).Nodup)
    (hrounds : xs.length + ys.length < rounds) :
    ∃ h', merge cmp rounds h (firstAddr xs none) (firstAddr ys none) =
        some (h', firstAddr (List.merge xs ys (cmpLe cmp)) none) ∧
      Forward h' (List.merge xs ys (cmpLe cmp)) none ∧ SameOutside ((xs ++ ys).map Prod.fst) h h' := by
  obtain ⟨rounds, rfl⟩ := Nat.exists_eq_succ_of_ne_zero (Nat.ne_zero_of_lt hrounds)
  cases xs with
  | nil =>
    refine ⟨h, ?_, ?_, fun _ _ => rfl⟩
    · rw [merge, firstAddr, mergeLoop_none_left, nil_merge]
      rfl
    · rwa [nil_merge]
  | cons x xs =>
    obtain ⟨a, x⟩ := x
    cases ys with
    | nil =>
      refine ⟨h, ?_, ?_, fun _ _ => rfl⟩
      · rw [merge, firstAddr, firstAddr, mergeLoop_none_right, merge_right]
        rfl
      · rwa [merge_right]
    | cons y ys =>
      obtain ⟨b, y⟩ := y
      obtain ⟨p, hcella⟩ := hx.1
      obtain ⟨q, hcellb⟩ := hy.1
      have happ : ∀ d, Merging.append false ⟨h, none, none⟩ d = some ⟨h, some d, some d⟩ := fun _ => rfl
      rw [merge, firstAddr, firstAddr, mergeLoop_cells hcella hcellb]
      by_cases hle : cmp x y ≤ 0
      · obtain ⟨h', us, vs, hrun, hmerge, -, ha, hlinked, -, hs⟩ :=
          mergeLoop_linked cmp false (some a) hcella hx.2 hy hnd (by simp at hrounds ⊢; omega : _ < rounds)
        have hall : List.merge ((a, x) :: xs) ((b, y) :: ys) (cmpLe cmp) = (a, x) :: (us ++ vs) := by
          rw [cons_merge_cons_pos _ _ _ (by simpa [cmpLe] using hle), hmerge]
        refine ⟨h', ?_, ?_, hs⟩
        · rw [if_pos hle, happ, Option.bind_some, hall]
          change ((h a).bind _).map _ = _
          rw [hcella]
          exact congrArg _ hrun
        · rw [hall]
          exact ⟨⟨p, ha⟩, hlinked⟩
      · have hperm : (((a, x) :: xs ++ (b, y) :: ys).map Prod.fst) ~ b :: ((a, x) :: xs ++ ys).map Prod.fst :=
          perm_middle.map Prod.fst
        obtain ⟨h', us, vs, hrun, hmerge, -, hb, hlinked, -, hs⟩ :=
          mergeLoop_linked cmp false (some b) hcellb hx hy.2 (hperm.nodup_iff.mp hnd)
            (by simp at hrounds ⊢; omega : _ < rounds)
        have hall : List.merge ((a, x) :: xs) ((b, y) :: ys) (cmpLe cmp) = (b, y) :: (us ++ vs) := by
          rw [cons_merge_cons_neg _ _ _ (by simpa [cmpLe] using hle), hmerge]
        refine ⟨h', ?_, ?_, hs.mono fun d hd => hperm.mem_iff.mpr hd⟩
        · rw [if_neg hle, happ, Option.bind_some, hall]
          change ((h b).bind _).map _ = _
          rw [hcellb]
          exact congrArg _ hrun
        · rw [hall]
          exact ⟨⟨q, hb⟩, hlinked⟩

/-- **The second loop** writes the back links of the cells that were left as they are. -/
theorem backLoop_segment (ht : h t = some c) (hc : c.next = firstAddr xs none) (hx : Forward h xs none) (hne : xs ≠ [])
    (hnd : (t :: xs.map Prod.fst).Nodup) (hrounds : xs.length ≤ rounds) :
    ∃ h' l, backLoop rounds h t = some (h', l) ∧ lastAddr none xs = some l ∧ Segment h' (some t) xs none ∧
      SameOutside (xs.map Prod.fst) h h' := by
  induction rounds generalizing h xs t c with
  | zero => exact absurd (length_eq_zero_iff.mp (Nat.le_zero.mp hrounds)) hne
  | succ rounds ih =>
    cases xs with
    | nil => exact absurd rfl hne
    | cons x xs =>
      obtain ⟨a, x⟩ := x
      obtain ⟨⟨p, hcell⟩, hxs⟩ := hx
      obtain ⟨-, hnd⟩ := nodup_cons.mp hnd
      let h₁ : ListHeap ι := Function.update h a (some ⟨x, some t, firstAddr xs none⟩)
      have hcell₁ : h₁ a = some ⟨x, some t, firstAddr xs none⟩ := Function.update_self _ _ _
      have hrun : backLoop (rounds + 1) h t =
          if (firstAddr xs none).isSome then backLoop rounds h₁ a else some (h₁, a) := by
        rw [backLoop, ht]
        simp only [Option.bind_eq_bind, Option.bind_some, hc, firstAddr, putPrev_of_some hcell]
        change (h₁ a).bind _ = _
        rw [hcell₁]
        rfl
      have hs₁ : SameOutside [a] h h₁ := sameOutside_update a _
      cases xs with
      | nil =>
        exact ⟨h₁, a, hrun, rfl, ⟨hcell₁, trivial⟩, hs₁⟩
      | cons y xs =>
        have hxs₁ : Forward h₁ (y :: xs) none :=
          hs₁.forward hxs fun d hd hda => (nodup_cons.mp hnd).1 (mem_singleton.mp hda ▸ hd)
        obtain ⟨h', l, hrest, hlast, hseg, hs⟩ := ih hcell₁ rfl hxs₁ (cons_ne_nil _ _) hnd (Nat.le_of_succ_le_succ hrounds)
        refine ⟨h', l, hrun.trans hrest, hlast, ⟨?_, hseg⟩, ?_⟩
        · exact (hs a (nodup_cons.mp hnd).1).trans hcell₁
        · exact hs₁.trans (hs.mono fun d hd => mem_cons_of_mem _ hd) fun d hd => mem_cons.mpr (Or.inl (mem_singleton.mp hd))

variable (cmp) in
/-- **The last merge** closes the list. -/
theorem mergeAndRestoreBackLinks_circular (ht : h t = some c) (hx : Forward h xs none) (hy : Forward h ys none)
    (hnd : (t :: (xs ++ ys).map Prod.fst).Nodup) (hne : xs ++ ys ≠ []) (hrounds : xs.length + ys.length < rounds) :
    ∃ h', mergeAndRestoreBackLinks cmp rounds h t (firstAddr xs none) (firstAddr ys none) = some h' ∧
      Circular h' t c.item (List.merge xs ys (cmpLe cmp)) ∧ SameOutside (t :: (xs ++ ys).map Prod.fst) h h' := by
  obtain ⟨h₁, us, vs, hrun, hmerge, hnil, ht₁, hlinked, hback, hs₁⟩ :=
    mergeLoop_linked cmp true none ht hx hy hnd hrounds
  have hperm : xs ++ ys ~ us ++ vs := hmerge ▸ (merge_perm_append (cmpLe cmp)).symm
  have hvs : vs ≠ [] := fun hvs => hne (hnil hvs)
  have hndz : (t :: (us ++ vs).map Prod.fst).Nodup := ((hperm.map Prod.fst).cons t).nodup_iff.mp hnd
  obtain ⟨htz, hndz'⟩ := nodup_cons.mp hndz
  rw [map_append] at hndz'
  have hus := hback rfl
  -- the cell where the first loop has come to an end
  obtain ⟨t₁, c₁, hlast₁, hc₁, hnext₁, ht₁mem⟩ : ∃ t₁ c₁, lastAddr (some t) us = some t₁ ∧ h₁ t₁ = some c₁ ∧
      c₁.next = firstAddr vs none ∧ t₁ ∈ t :: us.map Prod.fst := by
    rcases eq_nil_or_concat us with rfl | ⟨us, ⟨l, y⟩, rfl⟩
    · exact ⟨t, _, rfl, ht₁, rfl, mem_cons_self⟩
    · rw [concat_eq_append] at hus ⊢
      obtain ⟨-, hcell, -⟩ := segment_append.mp hus
      exact ⟨l, _, by rw [lastAddr_append]; rfl, hcell, rfl, by simp⟩
  have ht₁vs : t₁ ∉ vs.map Prod.fst := by
    intro hmem
    rcases mem_cons.mp ht₁mem with rfl | hmem'
    · exact htz (by rw [map_append]; exact mem_append_right _ hmem)
    · exact (nodup_append.mp hndz').2.2 t₁ hmem' t₁ hmem rfl
  obtain ⟨h₂, l, hrun₂, hlast, hseg, hs₂⟩ := backLoop_segment hc₁ hnext₁ (linked_append.mp hlinked).2 hvs
    (nodup_cons.mpr ⟨ht₁vs, (nodup_append.mp hndz').2.1⟩)
    (by have := hperm.length_eq; simp only [length_append] at this; omega : _ ≤ rounds)
  have hall : Segment h₂ (some t) (us ++ vs) none := by
    refine segment_append.mpr ⟨hus.congr fun b hb => hs₂ b fun hbv => ?_, hlast₁ ▸ hseg⟩
    exact (nodup_append.mp hndz').2.2 b hb b hbv rfl
  have ht₂ : h₂ t = some { c with next := firstAddr (us ++ vs) none } :=
    (hs₂ t fun hmem => htz (by rw [map_append]; exact mem_append_right _ hmem)).trans ht₁
  have hne' : us ++ vs ≠ [] := fun heq => hvs (append_eq_nil_iff.mp heq).2
  have hlast' : lastAddr (some t) (us ++ vs) = some l := by
    rw [lastAddr_append, lastAddr_of_ne_nil hvs _ none, hlast]
  rw [← map_append] at hndz'
  rcases eq_nil_or_concat (us ++ vs) with hzs | ⟨zs, ⟨l', y⟩, hzs⟩
  · exact absurd hzs hne'
  rw [concat_eq_append] at hzs
  obtain rfl : l' = l := by
    rw [hzs, lastAddr_append] at hlast'
    exact Option.some.inj hlast'
  rw [hzs] at hall hndz'
  obtain ⟨hl, hclosed⟩ := segment_concat_update hall hndz' (some t)
  have hlt : t ≠ l' := fun heq => htz (by rw [hzs, heq]; simp)
  have ht₃ : Function.update h₂ l' (some ⟨y, lastAddr (some t) zs, some t⟩) t =
      some { c with next := firstAddr (us ++ vs) none } := by
    rw [Function.update_of_ne hlt, ht₂]
  refine ⟨Function.update (Function.update h₂ l' (some ⟨y, lastAddr (some t) zs, some t⟩)) t
    (some ⟨c.item, some l', firstAddr (us ++ vs) none⟩), ?_, ⟨?_, ?_, ?_⟩, ?_⟩
  · rw [mergeAndRestoreBackLinks, hrun]
    change (lastAddr (some t) us).bind _ = _
    rw [hlast₁, Option.bind_some]
    simp only [Option.bind_eq_bind, hrun₂, Option.bind_some, putNext_of_some hl, putPrev_of_some ht₃]
  · rw [Function.update_self, hmerge, hlast', firstAddr_of_ne_nil hne' none (some t)]
  · rw [hmerge, hzs]
    exact hclosed.congr fun b hb => Function.update_of_ne (fun hbt => htz (by rw [hzs]; exact hbt ▸ hb)) _ _
  · rwa [hmerge]
  · intro b hb
    have hb' : b ∉ t :: (us ++ vs).map Prod.fst := fun hmem => hb (((hperm.map Prod.fst).cons t).mem_iff.mpr hmem)
    simp only [map_append, mem_cons, mem_append, not_or] at hb'
    have hbl : b ≠ l' := by
      rintro rfl
      exact hb (((hperm.map Prod.fst).cons t).mem_iff.mpr (by rw [hzs]; simp))
    rw [Function.update_of_ne hb'.1, Function.update_of_ne hbl, hs₂ b hb'.2.2, hs₁ b hb]

end ListHeap

end Merge

end RecoveryQt
