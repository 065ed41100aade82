import Mathlib.Data.List.Basic

/-!
# Ranges of a content, and its blocks

A content gives an item for each position. It is transformed block by block, each block with its number.

* `slice`: the items of a range; `slice_add`, `take_slice`, `drop_slice`: ranges in a row and parts of one;
* `slice_getD`: the content that a list is;
* `overwrite`: bytes written over a content; `slice_overwrite`, `slice_overwrite_of_disjoint`: what is read then;
* `mapBlocks`, `mapBlocks_eq_flatMap`: a number of blocks, each transformed with its number;
* `blockwise`: the content that the blocks are transformed to;
* **`mapBlocks_slice`**: transforming a range of whole blocks gives that range of it;
* `mapBlocks_inverse`: transforming the blocks back;
* `cutBlocks`: the blocks of a message, and what is left of it; **`cutBlocks_append`**: a message that begins with blocks.
-/

namespace RecoveryQt

open List

variable {α β : Type*}

/-- The `n` items of a content from a position on. -/
def slice (g : ℕ → α) (start n : ℕ) : List α := (range n).map fun i => g (start + i)

@[simp] theorem length_slice (g : ℕ → α) (start n : ℕ) : (slice g start n).length = n := by
  rw [slice, length_map, length_range]

@[simp] theorem slice_zero (g : ℕ → α) (start : ℕ) : slice g start 0 = [] := rfl

/-- Two ranges in a row. -/
theorem slice_add (g : ℕ → α) (start m n : ℕ) :
    slice g start (m + n) = slice g start m ++ slice g (start + m) n := by
  rw [slice, range_add, map_append, map_map]
  congr 1
  apply map_congr_left
  intro i _
  rw [Function.comp_apply, Nat.add_assoc]

theorem take_slice (g : ℕ → α) (start : ℕ) {m n : ℕ} (h : m ≤ n) :
    (slice g start n).take m = slice g start m := by
  obtain ⟨k, rfl⟩ := Nat.exists_eq_add_of_le h
  rw [slice_add, take_left' (length_slice g start m)]

theorem drop_slice (g : ℕ → α) (start : ℕ) {m n : ℕ} (h : m ≤ n) :
    (slice g start n).drop m = slice g (start + m) (n - m) := by
  obtain ⟨k, rfl⟩ := Nat.exists_eq_add_of_le h
  rw [slice_add, drop_left' (length_slice g start m), Nat.add_sub_cancel_left]

/-- A range is what it holds at each position. -/
theorem slice_eq_of_getElem? {g : ℕ → α} {start : ℕ} {l : List α}
    (h : ∀ i < l.length, l[i]? = some (g (start + i))) : l = slice g start l.length := by
  apply ext_getElem?
  intro i
  rcases Nat.lt_or_ge i l.length with hi | hi
  · rw [h i hi, slice, getElem?_map, getElem?_range hi, Option.map_some]
  · rw [getElem?_eq_none hi, getElem?_eq_none (by rwa [length_slice])]

theorem slice_congr {g g' : ℕ → α} {start n : ℕ} (h : ∀ p, start ≤ p → p < start + n → g p = g' p) :
    slice g start n = slice g' start n := by
  apply map_congr_left
  intro i hi
  have hi := mem_range.mp hi
  exact h _ (by omega) (by omega)

/-- A range that is a shorter content from its beginning on. -/
theorem slice_shift {g g' : ℕ → α} {start n : ℕ} (h : ∀ i < n, g (start + i) = g' i) : slice g start n = slice g' 0 n :=
  map_congr_left fun i hi => by rw [h i (mem_range.mp hi), Nat.zero_add]

/-- The items of a list, and a default behind them. -/
theorem slice_getD (l : List α) (a : α) (n : ℕ) : slice (fun i => l.getD i a) 0 n = l.takeD n a := by
  induction n generalizing l with
  | zero => rfl
  | succ n ih =>
    rw [takeD_succ, ← ih, slice, slice, range_succ_eq_map, map_cons, map_map, head?_eq_getElem?]
    refine congrArg _ (map_congr_left fun i _ => ?_)
    simp only [Function.comp_apply, Nat.zero_add, getD_eq_getElem?_getD, getElem?_tail, Nat.succ_eq_add_one]

/-- The content with bytes written at an offset. -/
def overwrite (bytes : List UInt8) (offset : ℕ) (g : ℕ → UInt8) (p : ℕ) : UInt8 :=
  if offset ≤ p then bytes.getD (p - offset) (g p) else g p

section Overwrite

variable {bytes : List UInt8} {offset : ℕ}

theorem overwrite_of_out {p : ℕ} (h : p < offset ∨ offset + bytes.length ≤ p) (g : ℕ → UInt8) :
    overwrite bytes offset g p = g p := by
  rw [overwrite]
  split_ifs
  · rw [getD_eq_getElem?_getD, getElem?_eq_none (by omega), Option.getD_none]
  · rfl

/-- What was written is read. -/
theorem slice_overwrite {n : ℕ} (h : bytes.length = n) (g : ℕ → UInt8) :
    slice (overwrite bytes offset g) offset n = bytes := by
  subst h
  apply Eq.symm
  apply slice_eq_of_getElem?
  intro i hi
  rw [overwrite, if_pos (Nat.le_add_right _ _), Nat.add_sub_cancel_left, getD_eq_getElem?_getD,
    getElem?_eq_getElem hi, Option.getD_some]

/-- A range beside what was written is as before. -/
theorem slice_overwrite_of_disjoint {start n : ℕ} (h : start + n ≤ offset ∨ offset + bytes.length ≤ start)
    (g : ℕ → UInt8) : slice (overwrite bytes offset g) start n = slice g start n := by
  apply slice_congr
  intro p hstart hend
  exact overwrite_of_out (by omega) g

end Overwrite

/-- Transform `m` blocks of `n` items, the first of which has the number `k`. -/
def mapBlocks (n : ℕ) (f : ℕ → List α → List β) : ℕ → ℕ → List α → List β
  | 0, _, _ => []
  | m + 1, k, l => f k (l.take n) ++ mapBlocks n f m (k + 1) (l.drop n)

/-- The transformed blocks, each taken from where it is. -/
theorem mapBlocks_eq_flatMap (n : ℕ) (f : ℕ → List α → List β) (m k : ℕ) (l : List α) :
    mapBlocks n f m k l = (range m).flatMap fun i => f (k + i) ((l.drop (i * n)).take n) := by
  induction m generalizing k l with
  | zero => rfl
  | succ m ih =>
    rw [mapBlocks, ih, range_succ_eq_map, flatMap_cons, flatMap_map, Nat.zero_mul, drop_zero, Nat.add_zero]
    congr 2
    funext i
    rw [drop_drop, Nat.succ_mul, Nat.add_comm n, Nat.succ_eq_add_one, Nat.add_assoc, Nat.add_comm 1]

/-- The content that the blocks of `n` items are transformed to, with `b` where a block comes out short. -/
def blockwise (b : β) (n : ℕ) (f : ℕ → List α → List β) (g : ℕ → α) (i : ℕ) : β :=
  (f (i / n) (slice g (i / n * n) n)).getD (i % n) b

/-- A block of the transformed content. -/
theorem slice_blockwise {b : β} {n : ℕ} (hn : 0 < n) {f : ℕ → List α → List β} {g : ℕ → α} {k : ℕ}
    (hf : (f k (slice g (k * n) n)).length = n) :
    slice (blockwise b n f g) (k * n) n = f k (slice g (k * n) n) := by
  have hitem : ∀ i < n, blockwise b n f g (k * n + i) = (f k (slice g (k * n) n)).getD i b := by
    intro i hi
    have hdiv : (k * n + i) / n = k := by
      rw [Nat.mul_comm, Nat.mul_add_div hn, Nat.div_eq_of_lt hi, Nat.add_zero]
    have hmod : (k * n + i) % n = i := by
      rw [Nat.mul_comm, Nat.mul_add_mod, Nat.mod_eq_of_lt hi]
    rw [blockwise, hdiv, hmod]
  have h : f k (slice g (k * n) n) =
      slice (blockwise b n f g) (k * n) (f k (slice g (k * n) n)).length := by
    apply slice_eq_of_getElem?
    intro i hi
    rw [hitem i (hf ▸ hi), getD_eq_getElem?_getD, getElem?_eq_getElem hi, Option.getD_some]
  rw [hf] at h
  exact h.symm

/-- **A range of whole blocks** is transformed to that range of the transformed content. -/
theorem mapBlocks_slice {b : β} {n : ℕ} (hn : 0 < n) {f : ℕ → List α → List β} {g : ℕ → α}
    (hf : ∀ k, (f k (slice g (k * n) n)).length = n) (m k : ℕ) :
    mapBlocks n f m k (slice g (k * n) (m * n)) = slice (blockwise b n f g) (k * n) (m * n) := by
  induction m generalizing k with
  | zero => rw [Nat.zero_mul]; rfl
  | succ m ih =>
    have hsplit : (m + 1) * n = n + m * n := by rw [Nat.succ_mul, Nat.add_comm]
    have hnext : k * n + n = (k + 1) * n := (Nat.succ_mul k n).symm
    rw [mapBlocks, hsplit, take_slice g _ (Nat.le_add_right n _), drop_slice g _ (Nat.le_add_right n _),
      Nat.add_sub_cancel_left, hnext, ih, slice_add, hnext, slice_blockwise hn (hf k)]

/-- The blocks only depend on their numbers from the first one on. -/
theorem mapBlocks_shift (n : ℕ) (f : ℕ → List α → List β) (m k j : ℕ) (l : List α) :
    mapBlocks n (fun i => f (j + i)) m k l = mapBlocks n f m (j + k) l := by
  induction m generalizing k l with
  | zero => rfl
  | succ m ih => rw [mapBlocks, mapBlocks, ih, Nat.add_assoc]

theorem length_mapBlocks {n : ℕ} {f : ℕ → List α → List β}
    (hf : ∀ k (l : List α), l.length = n → (f k l).length = n) (m k : ℕ) {l : List α}
    (hl : m * n ≤ l.length) : (mapBlocks n f m k l).length = m * n := by
  induction m generalizing k l with
  | zero => rw [Nat.zero_mul]; rfl
  | succ m ih =>
    rw [Nat.succ_mul] at hl ⊢
    rw [mapBlocks, length_append, hf k _ (length_take_of_le (by omega)),
      ih (k + 1) (by rw [length_drop]; omega), Nat.add_comm]

/-- **The blocks are transformed back** by the inverse of each. -/
theorem mapBlocks_inverse {n : ℕ} {f : ℕ → List α → List β} {g : ℕ → List β → List α}
    (hf : ∀ k (l : List α), l.length = n → (f k l).length = n)
    (hg : ∀ k (l : List α), l.length = n → g k (f k l) = l) (m k : ℕ) {l : List α}
    (hl : l.length = m * n) : mapBlocks n g m k (mapBlocks n f m k l) = l := by
  induction m generalizing k l with
  | zero => exact (eq_nil_of_length_eq_zero (by rw [hl, Nat.zero_mul])).symm
  | succ m ih =>
    rw [Nat.succ_mul] at hl
    have hblock : (l.take n).length = n := length_take_of_le (by omega)
    rw [mapBlocks, mapBlocks, take_left' (hf k _ hblock), drop_left' (hf k _ hblock), hg k _ hblock,
      ih (k + 1) (by rw [length_drop]; omega), take_append_drop]

/-! ## Messages

A message is cut in blocks of one length, and what is left of it at its end: one block at most, and not nothing. -/

section Messages

variable {n : ℕ}

/-- The blocks of a message, and what is left of it. -/
def cutBlocks (n : ℕ) (message : List α) : List (List α) × List α :=
  if 0 < n ∧ n < message.length then
    let rest := cutBlocks n (message.drop n)
    (message.take n :: rest.1, rest.2)
  else ([], message)
termination_by message.length
decreasing_by
  rw [length_drop]
  omega

theorem cutBlocks_of_le {message : List α} (h : message.length ≤ n) : cutBlocks n message = ([], message) := by
  rw [cutBlocks, if_neg (by omega)]

theorem cutBlocks_of_lt (hn : 0 < n) {message : List α} (h : n < message.length) :
    cutBlocks n message = (message.take n :: (cutBlocks n (message.drop n)).1, (cutBlocks n (message.drop n)).2) := by
  conv_lhs => rw [cutBlocks]
  exact if_pos ⟨hn, h⟩

/-- The blocks and the rest are the message. -/
theorem flatten_cutBlocks (n : ℕ) (message : List α) :
    (cutBlocks n message).1.flatten ++ (cutBlocks n message).2 = message := by
  induction message using cutBlocks.induct n with
  | case1 message h ih => rw [cutBlocks_of_lt h.1 h.2, flatten_cons, append_assoc, ih, take_append_drop]
  | case2 message h =>
    rw [cutBlocks, if_neg h]
    rfl

theorem cutBlocks_blocks (n : ℕ) (message : List α) : ∀ b ∈ (cutBlocks n message).1, b.length = n := by
  induction message using cutBlocks.induct n with
  | case1 message h ih =>
    rw [cutBlocks_of_lt h.1 h.2]
    exact forall_mem_cons.mpr ⟨length_take_of_le (Nat.le_of_lt h.2), ih⟩
  | case2 message h =>
    rw [cutBlocks, if_neg h]
    exact fun _ hb => absurd hb not_mem_nil

/-- The blocks and the rest make up the length of the message. -/
theorem length_cutBlocks (n : ℕ) (message : List α) :
    n * (cutBlocks n message).1.length + (cutBlocks n message).2.length = message.length := by
  induction message using cutBlocks.induct n with
  | case1 message h ih =>
    rw [cutBlocks_of_lt h.1 h.2, length_cons, Nat.mul_succ, Nat.add_right_comm, ih, length_drop,
      Nat.sub_add_cancel (Nat.le_of_lt h.2)]
  | case2 message h =>
    rw [cutBlocks, if_neg h]
    exact Nat.zero_add _

/-- What is left is a block at most, and nothing for the empty message only. -/
theorem cutBlocks_rest (hn : 0 < n) (message : List α) :
    (cutBlocks n message).2.length ≤ n ∧ ((cutBlocks n message).2 = [] → message = []) := by
  induction message using cutBlocks.induct n with
  | case1 message h ih =>
    rw [cutBlocks_of_lt h.1 h.2]
    refine ⟨ih.1, fun hnil => absurd (drop_eq_nil_iff.mp (ih.2 hnil)) (Nat.not_le.mpr h.2)⟩
  | case2 message h =>
    rw [cutBlocks, if_neg h]
    exact ⟨Nat.le_of_not_lt fun hlt => h ⟨hn, hlt⟩, id⟩

/-- **A message that begins with blocks**, of which the last one is not its end. -/
theorem cutBlocks_append (hn : 0 < n) {blocks : List (List α)} (hblocks : ∀ b ∈ blocks, b.length = n) {message : List α}
    (h : message ≠ []) :
    cutBlocks n (blocks.flatten ++ message) = (blocks ++ (cutBlocks n message).1, (cutBlocks n message).2) := by
  induction blocks with
  | nil => rfl
  | cons b blocks ih =>
    obtain ⟨hb, hblocks⟩ := forall_mem_cons.mp hblocks
    have hpos := length_pos_of_ne_nil h
    rw [flatten_cons, append_assoc, cutBlocks_of_lt hn (by rw [length_append, length_append]; omega), take_left' hb,
      drop_left' hb, ih hblocks]
    rfl

end Messages

end RecoveryQt
