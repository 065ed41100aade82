import Mathlib.Data.List.Basic
import Mathlib.Data.List.TakeWhile
import Mathlib.Tactic.Ring

/-!
# Records of bytes

* `ascii`: a text as bytes; `leBytes`, `leNat`, `numAt`: little-endian numbers of a fixed width;
* `cString`: a string up to its zero;
* `takeBytes`: read a number of bytes from a stream, or fail at its end;
* `readMany`, `readUpTo`: read a number of items, all of them or as many as there are;
* `take_drop_append_of_le`, `take_drop_append_left`, `take_drop_flatMap`: a field of a record, an item of a table;
* `takeBytes_append`, `readMany_flatMap`, `readUpTo_flatMap`: what was written is read back;
* `Streams`, **`Streams.truncated`**: a reader that does not look behind what it reads, and fails on
  each proper prefix of it;
* **`length_readUpTo_truncated`**, `length_readUpTo_iff`: items that were cut are fewer.
-/

namespace RecoveryQt

open List

/-- A text as bytes. -/
def ascii (s : String) : List UInt8 := s.toList.map fun c => c.toNat.toUInt8

/-- The `w` little-endian bytes of a number. -/
def leBytes : ℕ → ℕ → List UInt8
  | 0, _ => []
  | w + 1, n => UInt8.ofNat n :: leBytes w (n / 256)

/-- The number with these little-endian bytes. -/
def leNat : List UInt8 → ℕ
  | [] => 0
  | b :: l => b.toNat + 256 * leNat l

@[simp] theorem length_leBytes (w n : ℕ) : (leBytes w n).length = w := by
  induction w generalizing n with
  | zero => rfl
  | succ w ih => rw [leBytes, length_cons, ih]

/-- **A number is read back modulo its width.** -/
theorem leNat_leBytes (w n : ℕ) : leNat (leBytes w n) = n % 256 ^ w := by
  induction w generalizing n with
  | zero => rw [Nat.pow_zero, Nat.mod_one]; rfl
  | succ w ih =>
    rw [leBytes, leNat, ih, UInt8.toNat_ofNat']
    show n % 256 + 256 * (n / 256 % 256 ^ w) = n % 256 ^ (w + 1)
    rw [Nat.pow_succ', Nat.mod_mul]

theorem leNat_leBytes_of_lt {w n : ℕ} (h : n < 256 ^ w) : leNat (leBytes w n) = n := by
  rw [leNat_leBytes, Nat.mod_eq_of_lt h]

theorem UInt64.ofNat_leNat (x : UInt64) : UInt64.ofNat (leNat (leBytes 8 x.toNat)) = x := by
  rw [leNat_leBytes_of_lt x.toNat_lt, UInt64.ofNat_toNat]

theorem UInt32.ofNat_leNat (x : UInt32) : UInt32.ofNat (leNat (leBytes 4 x.toNat)) = x := by
  rw [leNat_leBytes_of_lt x.toNat_lt, UInt32.ofNat_toNat]

/-- The number in `n` bytes of a buffer. -/
def numAt (buffer : List UInt8) (offset n : ℕ) : ℕ := leNat ((buffer.drop offset).take n)

section Fields

variable {α β : Type*} {l : List α} {n : ℕ}

/-- A field behind the first ones. -/
theorem take_drop_append_of_le {offset : ℕ} (h : l.length ≤ offset) (r : List α) :
    ((l ++ r).drop offset).take n = (r.drop (offset - l.length)).take n := by
  rw [drop_append, drop_eq_nil_of_le h, nil_append]

/-- The first field. -/
theorem take_drop_append_left (h : l.length = n) (r : List α) : ((l ++ r).drop 0).take n = l := by
  rw [drop_zero, take_left' h]

/-- Items of `n` bytes, from one on. -/
theorem drop_flatMap {f : β → List α} {l : List β} (h : ∀ b ∈ l, (f b).length = n) (i : ℕ) :
    (l.flatMap f).drop (i * n) = (l.drop i).flatMap f := by
  induction i generalizing l with
  | zero => rw [Nat.zero_mul, drop_zero, drop_zero]
  | succ i ih =>
    cases l with
    | nil => simp
    | cons b l =>
      rw [flatMap_cons, drop_succ_cons, Nat.succ_mul, Nat.add_comm, ← drop_drop, drop_left' (h b mem_cons_self),
        ih fun b hb => h b (mem_cons_of_mem _ hb)]

/-- An item of a table. -/
theorem take_drop_flatMap {f : β → List α} {l : List β} (h : ∀ b ∈ l, (f b).length = n) {i : ℕ}
    (hi : i < l.length) : ((l.flatMap f).drop (i * n)).take n = f l[i] := by
  rw [drop_flatMap h, drop_eq_getElem_cons hi, flatMap_cons, take_left' (h _ (getElem_mem hi))]

end Fields

/-- The string at the start of a buffer. -/
def cString (s : List UInt8) : List UInt8 := s.takeWhile (· ≠ 0)

/-- A string without zeros ends with its last byte. -/
theorem takeWhile_ne_zero {l : List UInt8} (h : ∀ b ∈ l, b ≠ 0) : l.takeWhile (· ≠ 0) = l :=
  takeWhile_eq_self_iff.mpr fun b hb => by simpa using h b hb

/-- What ends a string ends it wherever it stands. -/
theorem takeWhile_append_cons {α : Type*} {p : α → Bool} {a : α} (h : p a = false) (l rest : List α) :
    (l ++ a :: rest).takeWhile p = l.takeWhile p := by
  rw [takeWhile_append]
  split_ifs with hall
  · rw [takeWhile_cons_of_neg (by rw [h]; exact Bool.false_ne_true), append_nil, ( takeWhile_prefix _).eq_of_length hall]
  · rfl

theorem takeWhile_append_replicate {α : Type*} {p : α → Bool} {a : α} (h : p a = false) (l : List α) (n : ℕ) :
    (l ++ replicate n a).takeWhile p = l.takeWhile p := by
  cases n with
  | zero => rw [replicate_zero, append_nil]
  | succ n => exact takeWhile_append_cons h l _

/-- `(n + 7) & ~7`. -/
def roundUp8 (n : ℕ) : ℕ := (n + 7) / 8 * 8

/-- Read `n` bytes, or fail when there are fewer. -/
def takeBytes (n : ℕ) (s : List UInt8) : Option (List UInt8 × List UInt8) :=
  if n ≤ s.length then some (s.take n, s.drop n) else none

theorem takeBytes_append {n : ℕ} {l : List UInt8} (hn : l.length = n) (s : List UInt8) :
    takeBytes n (l ++ s) = some (l, s) := by
  subst hn
  rw [takeBytes, if_pos (by rw [length_append]; omega), take_left, drop_left]

theorem length_of_takeBytes {n : ℕ} {s l rest : List UInt8} (h : takeBytes n s = some (l, rest)) :
    l.length = n ∧ n + rest.length = s.length := by
  unfold takeBytes at h
  split_ifs at h with hn
  obtain ⟨rfl, rfl⟩ := Prod.mk.inj (Option.some.inj h)
  rw [length_take, length_drop]
  omega

section Items

variable {α β : Type*} (read : List UInt8 → Option (α × List UInt8))

/-- Read `n` items, or fail when one cannot be read. -/
def readMany : ℕ → List UInt8 → Option (List α × List UInt8)
  | 0, s => some ([], s)
  | n + 1, s => do
    let (a, s) ← read s
    let (l, s) ← readMany n s
    return (a :: l, s)

/-- Read `n` items, or as many as there are before the first that cannot be read. -/
def readUpTo : ℕ → List UInt8 → List α
  | 0, _ => []
  | n + 1, s =>
    match read s with
    | none => []
    | some (a, s) => a :: readUpTo n s

variable {read}

/-- **Items are read back.** -/
theorem readMany_flatMap {write : β → List UInt8} {g : β → α} {l : List β}
    (h : ∀ b ∈ l, ∀ s, read (write b ++ s) = some (g b, s)) (s : List UInt8) :
    readMany read l.length (l.flatMap write ++ s) = some (l.map g, s) := by
  induction l with
  | nil => rfl
  | cons b l ih =>
    rw [length_cons, flatMap_cons, append_assoc, readMany, h b mem_cons_self]
    show (readMany read l.length (l.flatMap write ++ s)).bind _ = _
    rw [ih fun b hb => h b (mem_cons_of_mem _ hb)]
    rfl

/-- Items of a fixed size. -/
theorem length_of_readMany {w : ℕ} (h : ∀ s a rest, read s = some (a, rest) → w + rest.length = s.length)
    {n : ℕ} {s rest : List UInt8} {l : List α} (hread : readMany read n s = some (l, rest)) :
    l.length = n ∧ w * n + rest.length = s.length := by
  induction n generalizing s l with
  | zero =>
    obtain ⟨rfl, rfl⟩ := Prod.mk.inj (Option.some.inj hread)
    rw [Nat.mul_zero, Nat.zero_add]
    exact ⟨rfl, rfl⟩
  | succ n ih =>
    obtain ⟨⟨a, s'⟩, ha, hread⟩ := Option.bind_eq_some_iff.mp hread
    obtain ⟨⟨l', rest'⟩, hl, hread⟩ := Option.bind_eq_some_iff.mp hread
    obtain ⟨rfl, rfl⟩ := Prod.mk.inj (Option.some.inj hread)
    obtain ⟨hlen, hsum⟩ := ih hl
    have hfirst := h s a s' ha
    rw [length_cons, hlen, Nat.mul_succ]
    exact ⟨rfl, by omega⟩

theorem readUpTo_flatMap {write : β → List UInt8} {g : β → α} {l : List β}
    (h : ∀ b ∈ l, ∀ s, read (write b ++ s) = some (g b, s)) (s : List UInt8) :
    readUpTo read l.length (l.flatMap write ++ s) = l.map g := by
  induction l with
  | nil => rfl
  | cons b l ih =>
    rw [length_cons, flatMap_cons, append_assoc, readUpTo, h b mem_cons_self, map_cons]
    exact congrArg _ (ih fun b hb => h b (mem_cons_of_mem _ hb))

/-- All items are read back, if more are asked for and none can be read at the end. -/
theorem readUpTo_all {write : β → List UInt8} {g : β → α} {l : List β} (hnil : read [] = none)
    (h : ∀ b ∈ l, ∀ s, read (write b ++ s) = some (g b, s)) {n : ℕ} (hn : l.length ≤ n) :
    readUpTo read n (l.flatMap write) = l.map g := by
  induction l generalizing n with
  | nil =>
    cases n with
    | zero => rfl
    | succ n =>
      rw [flatMap_nil, readUpTo, hnil]
      rfl
  | cons b l ih =>
    cases n with
    | zero => exact absurd hn (Nat.not_succ_le_zero _)
    | succ n =>
      rw [flatMap_cons, readUpTo, h b mem_cons_self, map_cons]
      exact congrArg _ (ih (fun c hc => h c (mem_cons_of_mem b hc)) (Nat.le_of_succ_le_succ hn))

/-- Each item was read from a part of the stream. -/
theorem exists_read_of_mem_readUpTo {n : ℕ} {s : List UInt8} {a : α} (h : a ∈ readUpTo read n s) :
    ∃ s' rest, read s' = some (a, rest) := by
  induction n generalizing s with
  | zero => cases h
  | succ n ih =>
    rw [readUpTo] at h
    cases hread : read s with
    | none =>
      rw [hread] at h
      cases h
    | some x =>
      obtain ⟨b, rest⟩ := x
      rw [hread] at h
      rcases mem_cons.mp h with rfl | h
      · exact ⟨s, rest, hread⟩
      · exact ih h

/-- **The items read take up no more than the stream.** -/
theorem sum_readUpTo_le {size : α → ℕ}
    (h : ∀ s a rest, read s = some (a, rest) → size a + rest.length ≤ s.length) (n : ℕ)
    (s : List UInt8) : ((readUpTo read n s).map size).sum ≤ s.length := by
  induction n generalizing s with
  | zero => exact Nat.zero_le _
  | succ n ih =>
    rw [readUpTo]
    cases hread : read s with
    | none => exact Nat.zero_le _
    | some x =>
      obtain ⟨a, rest⟩ := x
      show (size a :: (readUpTo read n rest).map size).sum ≤ s.length
      rw [sum_cons]
      have hsize := h s a rest hread
      have hrest := ih rest
      omega

end Items

/-! ## Truncated streams -/

section Truncated

variable {α β : Type*}

/-- The reader does not look behind what it reads. -/
def Streams (read : List UInt8 → Option (α × List UInt8)) : Prop :=
  ∀ s t a rest, read s = some (a, rest) → read (s ++ t) = some (a, rest ++ t)

theorem streams_takeBytes (n : ℕ) : Streams (takeBytes n) := by
  intro s t l rest h
  unfold takeBytes at h
  split_ifs at h with hn
  obtain ⟨rfl, rfl⟩ := Prod.mk.inj (Option.some.inj h)
  rw [takeBytes, if_pos (hn.trans (by rw [length_append]; omega)), take_append_of_le_length hn,
    drop_append_of_le_length hn]

theorem streams_some (a : α) : Streams fun s => some (a, s) := by
  intro s t b rest h
  obtain ⟨rfl, rfl⟩ := Prod.mk.inj (Option.some.inj h)
  rfl

theorem streams_none : Streams fun _ => (none : Option (α × List UInt8)) := by
  intro s t b rest h
  cases h

/-- A reader that goes on with another one. -/
theorem Streams.bind {read : List UInt8 → Option (α × List UInt8)}
    {next : α × List UInt8 → Option (β × List UInt8)} (h : Streams read)
    (hnext : ∀ a, Streams fun s => next (a, s)) : Streams fun s => (read s).bind next := by
  intro s t b rest hs
  obtain ⟨⟨a, r⟩, ha, hb⟩ := Option.bind_eq_some_iff.mp hs
  show (read (s ++ t)).bind next = _
  rw [h s t a r ha]
  exact hnext a r t b rest hb

theorem Streams.ite {read read' : List UInt8 → Option (α × List UInt8)} (h : Streams read)
    (h' : Streams read') (p : Prop) [Decidable p] : Streams fun s => if p then read s else read' s := by
  by_cases hp : p
  · simpa [hp] using h
  · simpa [hp] using h'

theorem Streams.readMany {read : List UInt8 → Option (α × List UInt8)} (h : Streams read) (n : ℕ) :
    Streams (readMany read n) := by
  induction n with
  | zero => exact streams_some []
  | succ n ih => exact h.bind fun a => ih.bind fun l => streams_some (a :: l)

/-- **What is cut is not read.** -/
theorem Streams.truncated {read : List UInt8 → Option (α × List UInt8)} (h : Streams read)
    {s p : List UInt8} {a : α} (hs : read s = some (a, [])) (hp : p <+: s) (hne : p ≠ s) :
    read p = none := by
  obtain ⟨t, rfl⟩ := hp
  cases hread : read p with
  | none => rfl
  | some x =>
    obtain ⟨b, rest⟩ := x
    rw [h p t b rest hread] at hs
    have hnil : rest ++ t = [] := (Prod.mk.inj (Option.some.inj hs)).2
    rw [(append_eq_nil_iff.mp hnil).2, List.append_nil] at hne
    exact absurd rfl hne

/-- **Items that were cut are fewer.** -/
theorem length_readUpTo_truncated {read : List UInt8 → Option (α × List UInt8)}
    (hread : Streams read) {write : β → List UInt8} {g : β → α} {l : List β}
    (h : ∀ b ∈ l, ∀ s, read (write b ++ s) = some (g b, s)) {p : List UInt8}
    (hp : p <+: l.flatMap write) (hne : p ≠ l.flatMap write) (n : ℕ) :
    (readUpTo read n p).length < l.length := by
  induction l generalizing p n with
  | nil => exact absurd (prefix_nil.mp hp) hne
  | cons b l ih =>
    rw [flatMap_cons] at hp hne
    cases n with
    | zero => exact Nat.succ_pos _
    | succ n =>
      rw [readUpTo]
      rcases prefix_or_prefix_of_prefix (prefix_append (write b) _) hp with hb | hb
      · -- the first item is whole
        obtain ⟨q, rfl⟩ := hb
        rw [h b mem_cons_self]
        refine Nat.succ_lt_succ (ih (fun c hc => h c (mem_cons_of_mem b hc)) ?_ ?_ n)
        · exact (prefix_append_right_inj _).mp hp
        · exact fun hq => hne (by rw [hq])
      · by_cases hwhole : p = write b
        · have hfirst := h b mem_cons_self []
          rw [List.append_nil] at hfirst
          have hrest : l.flatMap write ≠ [] := by
            intro hnil
            rw [hnil, List.append_nil] at hne
            exact hne hwhole
          rw [hwhole, hfirst]
          exact Nat.succ_lt_succ
            (ih (fun c hc => h c (mem_cons_of_mem b hc)) nil_prefix hrest.symm n)
        · have hfirst := h b mem_cons_self []
          rw [List.append_nil] at hfirst
          rw [hread.truncated hfirst hb hwhole]
          exact Nat.succ_pos _

/-- **All items are read exactly when they are all there.** -/
theorem length_readUpTo_iff {read : List UInt8 → Option (α × List UInt8)} (hread : Streams read)
    {write : β → List UInt8} {g : β → α} {l : List β}
    (h : ∀ b ∈ l, ∀ s, read (write b ++ s) = some (g b, s)) {p s : List UInt8}
    (hp : p <+: l.flatMap write ++ s) :
    (readUpTo read l.length p).length = l.length ↔ (l.flatMap write).length ≤ p.length := by
  constructor
  · intro hlen
    by_contra hshort
    have hcut : p <+: l.flatMap write :=
      prefix_of_prefix_length_le hp (prefix_append _ s) (not_le.mp hshort).le
    have hne : p ≠ l.flatMap write := fun heq => hshort (heq ▸ le_rfl)
    exact absurd hlen (length_readUpTo_truncated hread h hcut hne l.length).ne
  · intro hle
    obtain ⟨q, rfl⟩ := prefix_of_prefix_length_le (prefix_append _ s) hp hle
    rw [readUpTo_flatMap h, length_map]

end Truncated

end RecoveryQt
