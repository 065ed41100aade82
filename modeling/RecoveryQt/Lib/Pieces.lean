import Mathlib.Data.List.Basic
import Mathlib.Tactic.Ring

/-!
# Content laid out in pieces

A content of `rem` items is stored in pieces of `S` items; item `i` of the piece `c` is `f c i`.
The pieces are read one after the other and the last one is cut at the length of the content.

* `pieces`: the content read piece by piece;
* `pieces_eq_map`: its items by their index;
* `length_pieces`, `pieces_take`, `pieces_of_le`: its length, and the pieces it depends on.
-/

namespace RecoveryQt

open List

variable {α β : Type*}

/-- The content read piece by piece, `S` items a piece, until `rem` items are read. -/
def pieces (f : α → ℕ → β) (S : ℕ) : ℕ → List α → List β
  | _, [] => []
  | rem, c :: l => (range (min S rem)).map (f c) ++ pieces f S (rem - min S rem) l

@[simp] theorem pieces_nil (f : α → ℕ → β) (S rem : ℕ) : pieces f S rem [] = [] := by
  cases rem <;> rfl

@[simp] theorem pieces_zero (f : α → ℕ → β) (S : ℕ) (l : List α) : pieces f S 0 l = [] := by
  induction l with
  | nil => rfl
  | cons c l ih => simp [pieces, ih]

/-- The length of a content is cut by the pieces there are. -/
theorem length_pieces (f : α → ℕ → β) (S rem : ℕ) (l : List α) :
    (pieces f S rem l).length = min rem (l.length * S) := by
  induction l generalizing rem with
  | nil => simp
  | cons c l ih =>
    rw [pieces, length_append, length_map, length_range, ih, length_cons, Nat.succ_mul]
    omega

theorem map_pieces {γ : Type*} (g : β → γ) (f : α → ℕ → β) (S rem : ℕ) (l : List α) :
    (pieces f S rem l).map g = pieces (fun c i => g (f c i)) S rem l := by
  induction l generalizing rem with
  | nil => simp
  | cons c l ih => rw [pieces, map_append, map_map, ih, pieces]; rfl

/-- Only the items inside a piece matter. -/
theorem pieces_congr {f g : α → ℕ → β} {S rem : ℕ} {l : List α}
    (h : ∀ c ∈ l, ∀ i < S, f c i = g c i) : pieces f S rem l = pieces g S rem l := by
  induction l generalizing rem with
  | nil => simp
  | cons c l ih =>
    rw [pieces, pieces, ih fun x hx => h x (mem_cons_of_mem c hx)]
    congr 1
    exact map_congr_left fun i hi => h c mem_cons_self i (by have := mem_range.mp hi; omega)

theorem pieces_map {γ : Type*} (f : α → ℕ → β) (g : γ → α) (S rem : ℕ) (l : List γ) :
    pieces f S rem (l.map g) = pieces (fun c => f (g c)) S rem l := by
  induction l generalizing rem with
  | nil => simp
  | cons c l ih => rw [map_cons, pieces, pieces, ih]

/-- Only the pieces that the content reaches matter. -/
theorem pieces_take (f : α → ℕ → β) {S rem n : ℕ} (hn : rem ≤ n * S) (l : List α) :
    pieces f S rem (l.take n) = pieces f S rem l := by
  induction l generalizing rem n with
  | nil => simp
  | cons c l ih =>
    cases n with
    | zero =>
      rw [Nat.zero_mul, Nat.le_zero] at hn
      rw [hn, pieces_zero, pieces_zero]
    | succ n =>
      rw [take_succ_cons, pieces, pieces, ih]
      rw [Nat.succ_mul] at hn
      omega

/-- A content that fits in one piece does not depend on the size of the pieces. -/
theorem pieces_of_le (f : α → ℕ → β) {S S' rem : ℕ} (hS : rem ≤ S) (hS' : rem ≤ S') (l : List α) :
    pieces f S rem l = pieces f S' rem l := by
  cases l with
  | nil => simp
  | cons c l => rw [pieces, pieces, Nat.min_eq_right hS, Nat.min_eq_right hS', Nat.sub_self,
      pieces_zero, pieces_zero]

/-- **The items of a content by their index.** -/
theorem pieces_eq_map [Inhabited α] (f : α → ℕ → β) {S : ℕ} (hS : 0 < S) (rem : ℕ) (l : List α) :
    pieces f S rem l =
      (range (min rem (l.length * S))).map fun b => f (l.getD (b / S) default) (b % S) := by
  induction l generalizing rem with
  | nil => simp
  | cons c l ih =>
    have hcut : min rem ((c :: l).length * S) =
        min S rem + min (rem - min S rem) (l.length * S) := by
      rw [length_cons, Nat.succ_mul]
      omega
    rw [pieces, ih, hcut, range_add, map_append, map_map]
    congr 1
    · refine map_congr_left fun i hi => ?_
      have hi : i < S := by have := mem_range.mp hi; omega
      rw [Nat.div_eq_of_lt hi, Nat.mod_eq_of_lt hi, getD_cons_zero]
    · refine map_congr_left fun i hi => ?_
      -- a second piece is reached only after a whole first one
      have hmin : min S rem = S := by have := mem_range.mp hi; omega
      show _ = f ((c :: l).getD ((min S rem + i) / S) default) ((min S rem + i) % S)
      rw [hmin, Nat.add_div_left _ hS, Nat.add_mod_left, getD_cons_succ]

theorem getElem?_pieces [Inhabited α] (f : α → ℕ → β) {S : ℕ} (hS : 0 < S) {rem b : ℕ} {l : List α}
    (hb : b < rem) (hl : b < l.length * S) :
    (pieces f S rem l)[b]? = some (f (l.getD (b / S) default) (b % S)) := by
  rw [pieces_eq_map f hS, getElem?_map, getElem?_range (Nat.lt_min.mpr ⟨hb, hl⟩), Option.map_some]

/-- Two layouts of the same content hold the same items. -/
theorem item_eq_of_pieces_eq [Inhabited α] {f g : α → ℕ → β} {S T rem : ℕ} {l l' : List α}
    (hS : 0 < S) (hT : 0 < T) (h : pieces f S rem l = pieces g T rem l') (hl : rem ≤ l.length * S)
    (hl' : rem ≤ l'.length * T) {b : ℕ} (hb : b < rem) :
    f (l.getD (b / S) default) (b % S) = g (l'.getD (b / T) default) (b % T) := by
  have hitem := congrArg (·[b]?) h
  simp only [getElem?_pieces f hS hb (hb.trans_le hl), getElem?_pieces g hT hb (hb.trans_le hl')]
    at hitem
  exact Option.some.inj hitem

end RecoveryQt
