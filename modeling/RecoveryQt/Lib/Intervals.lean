import Mathlib.Order.Basic
import Mathlib.Data.List.Basic
import Mathlib.Data.List.Pairwise

/-!
# Packed lists of intervals

A list of half-open intervals `[start b, stop b)` over a preorder is packed between two bounds
when its members are nonempty and each begins no earlier than the one before it ends.

* `Packed`: the predicate;
* `Packed.append`, `Packed.mono`: how packed lists compose;
* `Packed.mem`, `Packed.pairwise_disjoint`, `Packed.pairwise_start_lt`: what it gives.
-/

namespace RecoveryQt

variable {α β : Type*} [Preorder α] {start stop : β → α}

/-- The intervals lie one after the other between `lo` and `hi`. -/
def Packed (start stop : β → α) (lo hi : α) : List β → Prop
  | [] => lo ≤ hi
  | b :: bs => lo ≤ start b ∧ start b < stop b ∧ Packed start stop (stop b) hi bs

theorem Packed.le {lo hi : α} {bs : List β} (h : Packed start stop lo hi bs) : lo ≤ hi := by
  induction bs generalizing lo with
  | nil => exact h
  | cons b bs ih => exact h.1.trans (h.2.1.le.trans (ih h.2.2))

theorem Packed.singleton {lo hi : α} {b : β} (h1 : lo ≤ start b) (h2 : start b < stop b)
    (h3 : stop b ≤ hi) : Packed start stop lo hi [b] := ⟨h1, h2, h3⟩

theorem Packed.mono {lo lo' hi hi' : α} {bs : List β} (h : Packed start stop lo hi bs)
    (hlo : lo' ≤ lo) (hhi : hi ≤ hi') : Packed start stop lo' hi' bs := by
  induction bs generalizing lo lo' with
  | nil => exact hlo.trans (h.trans hhi)
  | cons b bs ih => exact ⟨hlo.trans h.1, h.2.1, ih h.2.2 le_rfl⟩

theorem Packed.append {lo mid hi : α} {bs cs : List β} (h : Packed start stop lo mid bs)
    (h' : Packed start stop mid hi cs) : Packed start stop lo hi (bs ++ cs) := by
  induction bs generalizing lo with
  | nil => exact h'.mono h le_rfl
  | cons b bs ih => exact ⟨h.1, h.2.1, ih h.2.2⟩

/-- Every member is a nonempty interval between the bounds. -/
theorem Packed.mem {lo hi : α} {bs : List β} (h : Packed start stop lo hi bs) {b : β}
    (hb : b ∈ bs) : lo ≤ start b ∧ start b < stop b ∧ stop b ≤ hi := by
  induction bs generalizing lo with
  | nil => cases hb
  | cons c bs ih =>
    obtain ⟨h1, h2, h3⟩ := h
    rcases List.mem_cons.mp hb with rfl | hb
    · exact ⟨h1, h2, h3.le⟩
    · obtain ⟨h4, h5⟩ := ih h3 hb
      exact ⟨h1.trans (h2.le.trans h4), h5⟩

theorem Packed.pairwise_disjoint {lo hi : α} {bs : List β} (h : Packed start stop lo hi bs) :
    bs.Pairwise fun b c => stop b ≤ start c := by
  induction bs generalizing lo with
  | nil => exact List.Pairwise.nil
  | cons b bs ih => exact List.Pairwise.cons (fun c hc => (h.2.2.mem hc).1) (ih h.2.2)

theorem Packed.pairwise_start_lt {lo hi : α} {bs : List β} (h : Packed start stop lo hi bs) :
    bs.Pairwise fun b c => start b < start c :=
  h.pairwise_disjoint.imp_of_mem fun hb _ hbc => (h.mem hb).2.1.trans_le hbc

end RecoveryQt
