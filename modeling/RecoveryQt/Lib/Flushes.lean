import RecoveryQt.Lib.Batch
import Mathlib.Data.List.Nodup
import Mathlib.Data.List.Range
import Mathlib.Order.Basic

/-!
# Batches of a run, and a row that is resumed

A loop goes over a row of items that are taken or not. It collects the items that are not taken in a batch, and flushes
the batch at a taken item, when it is full, and at the end. In a resumed row a flush is left out when the item at which
it happens is before the offset; at the end, when the batch starts before it.

* `Flush`, `flushes`: the flushes of the loop; `passed`: the items of those that are not left out;
* `untaken`, **`flatMap_flushes`**: all flushes together have the items that are not taken, in order;
* `pendingAfter`, `pendingAfter_eq`: how many are in the batch at the end;
* **`forall_mem_passed_iff`**: when no item from the offset on is left out.
-/

namespace RecoveryQt

open List

/-- A flush: the item at which it happens, the first item of the batch and their number. -/
structure Flush where
  tested : ℕ
  start : ℕ
  count : ℕ

/-- The items of the batch. -/
def Flush.items (f : Flush) : List ℕ := range' f.start f.count

/-- The flushes of a row from an item on, when `count` items from `start` on are in the batch. -/
def flushes (cap : ℕ) : List Bool → ℕ → ℕ → ℕ → List Flush
  | [], _, start, count => [⟨start, start, count⟩]
  | true :: bits, item, start, count => ⟨item, start, count⟩ :: flushes cap bits (item + 1) start 0
  | false :: bits, item, start, count =>
    let start := if count = 0 then item else start
    if cap ≤ count + 1 then ⟨item, start, count + 1⟩ :: flushes cap bits (item + 1) start 0
    else flushes cap bits (item + 1) start (count + 1)

/-- The items that are flushed when the row is resumed at `r`. -/
def passed (r : ℕ) (l : List Flush) : List ℕ := l.flatMap fun f => if f.tested < r then [] else f.items

/-- The items of a row that are not taken. -/
def untaken : List Bool → ℕ → List ℕ
  | [], _ => []
  | taken :: bits, item => (if taken then [] else [item]) ++ untaken bits (item + 1)

/-- The number of items in the batch after a row. -/
def pendingAfter (cap : ℕ) (count : ℕ) (bits : List Bool) : ℕ :=
  bits.foldl (fun n taken => if taken = true ∨ cap ≤ n + 1 then 0 else n + 1) count

variable {cap : ℕ}

theorem pendingAfter_taken (count : ℕ) (bits : List Bool) :
    pendingAfter cap count (true :: bits) = pendingAfter cap 0 bits := by
  rw [pendingAfter, foldl_cons, if_pos (Or.inl rfl)]
  rfl

theorem pendingAfter_untaken (count : ℕ) (bits : List Bool) :
    pendingAfter cap count (false :: bits) = pendingAfter cap (if cap ≤ count + 1 then 0 else count + 1) bits := by
  rw [pendingAfter, foldl_cons]
  simp only [Bool.false_eq_true, false_or]
  rfl

/-! ## All flushes -/

/-- **The flushes have the items that are not taken, in order.** -/
theorem flatMap_flushes (bits : List Bool) {item start count : ℕ} (h : count ≠ 0 → start + count = item) :
    (flushes cap bits item start count).flatMap Flush.items = range' start count ++ untaken bits item := by
  induction bits generalizing item start count with
  | nil => simp [flushes, untaken, Flush.items]
  | cons taken bits ih =>
    cases taken with
    | true =>
      rw [flushes, flatMap_cons, ih fun h => absurd rfl h]
      rfl
    | false =>
      have hjoin : range' (if count = 0 then item else start) (count + 1) = range' start count ++ [item] := by
        by_cases hcount : count = 0
        · rw [hcount]
          rfl
        · rw [if_neg hcount, ← h hcount, range'_concat, Nat.one_mul]
      have hnext : count + 1 ≠ 0 → (if count = 0 then item else start) + (count + 1) = item + 1 := by
        intro
        split_ifs with hcount
        · omega
        · have := h hcount
          omega
      have huntaken : untaken (false :: bits) item = item :: untaken bits (item + 1) := rfl
      rw [flushes, huntaken, append_cons, ← hjoin]
      generalize (if count = 0 then item else start) = start' at hnext ⊢
      split_ifs
      · rw [flatMap_cons, ih fun h => absurd rfl h]
        rfl
      · exact ih hnext

theorem flatMap_flushes_zero (cap : ℕ) (bits : List Bool) :
    (flushes cap bits 0 0 0).flatMap Flush.items = untaken bits 0 :=
  flatMap_flushes bits (show 0 ≠ 0 → 0 + 0 = 0 from fun h => absurd rfl h)

/-- What is flushed in a row that is resumed is flushed in the whole row. -/
theorem passed_sublist (r : ℕ) (l : List Flush) : passed r l <+ l.flatMap Flush.items := by
  induction l with
  | nil => exact Sublist.refl _
  | cons f l ih =>
    rw [passed, flatMap_cons, flatMap_cons]
    refine Sublist.append ?_ ih
    split_ifs
    · exact nil_sublist _
    · exact Sublist.refl _

/-- **The last flush is the batch at the end**, and the others happen at an item that is not before theirs. -/
theorem exists_flushes_eq (cap : ℕ) (bits : List Bool) {item start count : ℕ}
    (h : count ≠ 0 → start + count = item) :
    ∃ init s, flushes cap bits item start count = init ++ [⟨s, s, pendingAfter cap count bits⟩] ∧
      (pendingAfter cap count bits ≠ 0 → s + pendingAfter cap count bits = item + bits.length) ∧
      ∀ f ∈ init, ∀ c ∈ f.items, c ≤ f.tested := by
  induction bits generalizing item start count with
  | nil => exact ⟨[], start, rfl, h, fun f hf => absurd hf not_mem_nil⟩
  | cons taken bits ih =>
    -- the items of a flush are those before the next item
    have hbefore : ∀ {start count : ℕ}, (count ≠ 0 → start + count ≤ item + 1) →
        ∀ c ∈ (Flush.mk item start count).items, c ≤ item := by
      intro start count hle c hc
      obtain ⟨h1, h2⟩ := mem_range'_1.mp hc
      have hcount : count ≠ 0 := by
        rintro rfl
        exact absurd (h1.trans_lt h2) (lt_irrefl _)
      have := hle hcount
      dsimp only at h2
      omega
    cases taken with
    | true =>
      obtain ⟨init, s, hinit, hlast, htested⟩ :=
        ih (show 0 ≠ 0 → start + 0 = item + 1 from fun h => absurd rfl h)
      rw [pendingAfter_taken, flushes, hinit, length_cons]
      refine ⟨⟨item, start, count⟩ :: init, s, rfl, fun hne => ?_, forall_mem_cons.mpr ⟨hbefore fun hne => ?_, htested⟩⟩
      · have := hlast hne
        omega
      · have := h hne
        omega
    | false =>
      have hjoin : (if count = 0 then item else start) + (count + 1) = item + 1 := by
        split_ifs with hcount
        · omega
        · have := h hcount
          omega
      rw [pendingAfter_untaken, flushes, length_cons]
      generalize (if count = 0 then item else start) = start' at hjoin ⊢
      split_ifs with hfull
      · obtain ⟨init, s, hinit, hlast, htested⟩ :=
          ih (show 0 ≠ 0 → start' + 0 = item + 1 from fun h => absurd rfl h)
        rw [hinit]
        refine ⟨⟨item, start', count + 1⟩ :: init, s, rfl, fun hne => ?_,
          forall_mem_cons.mpr ⟨hbefore fun _ => hjoin.le, htested⟩⟩
        have := hlast hne
        omega
      · obtain ⟨init, s, hinit, hlast, htested⟩ := ih fun _ => hjoin
        refine ⟨init, s, hinit, fun hne => ?_, htested⟩
        have := hlast hne
        omega

/-- How many items are in the batch at the end: those of the run that the row ends in, less the full batches. -/
theorem pendingAfter_eq (hcap : 0 < cap) (bits : List Bool) :
    pendingAfter cap 0 bits = (runBefore (fun taken => !taken) bits).length % cap := by
  induction bits using reverseRecOn with
  | nil => exact (Nat.zero_mod cap).symm
  | append_singleton bits taken ih =>
    rw [runBefore_concat]
    show (bits ++ [taken]).foldl _ 0 = _
    rw [foldl_append]
    show (if taken = true ∨ cap ≤ pendingAfter cap 0 bits + 1 then 0 else pendingAfter cap 0 bits + 1) = _
    rw [ih]
    cases taken with
    | true => simp
    | false =>
      have hmod := Nat.mod_lt (runBefore (fun taken => !taken) bits).length hcap
      simp only [Bool.false_eq_true, false_or, Bool.not_false, if_true, length_cons]
      rw [← Nat.mod_add_mod]
      split_ifs with hfull
      · rw [show _ + 1 = cap from Nat.le_antisymm hmod hfull, Nat.mod_self]
      · rw [Nat.mod_eq_of_lt (not_le.mp hfull)]

/-! ## A resumed row -/

theorem untaken_sublist (bits : List Bool) (item : ℕ) : untaken bits item <+ range' item bits.length := by
  induction bits generalizing item with
  | nil => exact Sublist.refl _
  | cons taken bits ih =>
    rw [length_cons, range'_succ]
    cases taken with
    | true => exact (ih (item + 1)).cons item
    | false => exact (ih (item + 1)).cons_cons item

theorem mem_untaken {bits : List Bool} {item c : ℕ} :
    c ∈ untaken bits item ↔ item ≤ c ∧ bits[c - item]? = some false := by
  induction bits generalizing item with
  | nil => exact iff_of_false not_mem_nil fun h => by cases h.2
  | cons taken bits ih =>
    rw [untaken, mem_append, ih]
    rcases Nat.lt_trichotomy c item with hlt | rfl | hlt
    · refine iff_of_false (not_or.mpr ⟨fun hmem => ?_, fun h => ?_⟩) fun h => by omega
      · split_ifs at hmem
        · exact not_mem_nil hmem
        · obtain rfl := mem_singleton.mp hmem
          exact lt_irrefl _ hlt
      · omega
    · rw [Nat.sub_self]
      cases taken <;> simp
    · obtain ⟨k, rfl⟩ : ∃ k, c = item + 1 + k := Nat.exists_eq_add_of_lt hlt |>.imp fun k hk => by omega
      have hne : item + 1 + k ≠ item := by omega
      rw [show item + 1 + k - item = k + 1 by omega, show item + 1 + k - (item + 1) = k by omega, getElem?_cons_succ]
      cases taken
      · simp only [Bool.false_eq_true, if_false, mem_singleton, hne, false_or]
        exact and_congr (iff_of_true (by omega) (by omega)) Iff.rfl
      · simp only [if_true, not_mem_nil, false_or]
        exact and_congr (iff_of_true (by omega) (by omega)) Iff.rfl

/-- What is flushed is not taken, and it is flushed once. -/
theorem passed_sublist_untaken (cap r : ℕ) (bits : List Bool) : passed r (flushes cap bits 0 0 0) <+ untaken bits 0 := by
  exact flatMap_flushes_zero cap bits ▸ passed_sublist r (flushes cap bits 0 0 0)

theorem nodup_passed (cap r : ℕ) (bits : List Bool) : (passed r (flushes cap bits 0 0 0)).Nodup :=
  Nodup.sublist ((passed_sublist_untaken cap r bits).trans (untaken_sublist bits 0)) nodup_range'

/-- **From the offset on no item is left out** exactly if the batch at the end does not start before the offset, or is
before it as a whole. -/
theorem forall_mem_passed_iff (bits : List Bool) (r : ℕ) :
    (∀ c ∈ untaken bits 0, r ≤ c → c ∈ passed r (flushes cap bits 0 0 0)) ↔
      r ≤ bits.length - pendingAfter cap 0 bits ∨ bits.length ≤ r := by
  have hall := flatMap_flushes_zero cap bits
  obtain ⟨init, s, hflushes, hlast, htested⟩ :=
    exists_flushes_eq cap bits (show 0 ≠ 0 → 0 + 0 = 0 from fun h => absurd rfl h)
  rw [Nat.zero_add] at hlast
  have hnodup : (untaken bits 0).Nodup := Nodup.sublist (untaken_sublist bits 0) nodup_range'
  set n := pendingAfter cap 0 bits
  rw [← hall, hflushes] at hnodup ⊢
  rw [flatMap_append, flatMap_singleton] at hnodup
  constructor
  · intro h
    by_contra hnot
    obtain ⟨hstart, hend⟩ := not_or.mp hnot
    have hsum := hlast (by omega)
    -- the last item of the row is in the batch at the end, and only there
    have hmem : bits.length - 1 ∈ (Flush.mk s s n).items := 
      mem_range'_1.mpr (show s ≤ _ ∧ _ < s + n by omega)
    obtain ⟨f, hf, hpassed⟩ := mem_flatMap.mp
      (h (bits.length - 1) (mem_flatMap.mpr ⟨_, mem_append_right _ mem_cons_self, hmem⟩) (by omega))
    split_ifs at hpassed with hskip
    · exact absurd hpassed not_mem_nil
    · rcases mem_append.mp hf with hf | hf
      · exact (nodup_append.mp hnodup).2.2 _ (mem_flatMap.mpr ⟨f, hf, hpassed⟩) _ hmem rfl
      · obtain rfl := mem_singleton.mp hf
        dsimp only at hskip
        omega
  · intro hpending c hc hrc
    obtain ⟨f, hf, hc⟩ := mem_flatMap.mp hc
    refine mem_flatMap.mpr ⟨f, hf, ?_⟩
    rw [if_neg]
    · exact hc
    · rcases mem_append.mp hf with hf | hf
      · have := htested f hf c hc
        omega
      · obtain rfl := mem_singleton.mp hf
        obtain ⟨h1, h2⟩ := mem_range'_1.mp hc
        dsimp only at h1 h2 ⊢
        have := hlast (by omega)
        omega

end RecoveryQt
