import RecoveryQt.Lib.Codec
import RecoveryQt.Lib.Json
import Mathlib.Data.List.DropRight
import Mathlib.Data.List.TakeWhile
import Mathlib.Data.Nat.Digits.Defs

/-!
# The JSON of the LUKS2 metadata

* `parseValue`, `parseMembers`, `parseElems`, `jsonParse`: the parser, over what is left of the input;
* `jsonGet`, `jsonItem`, `jsonAt`, `jsonU64`: the lookups;
* `parseMembers_succ`, `parseElems_succ`: what one round of a loop does;
* `parseValue_suffix`: what is left is the end of the input;
* **`jsonParse_stable`**: the rounds that `jsonParse` has are enough.
-/

namespace RecoveryQt

open List

/-- `jnode_t`. A number is kept as its text. -/
abbrev JNode := JsonValue (List UInt8) (List UInt8)

/-- `json_skip_ws`. -/
def skipWs (s : List UInt8) : List UInt8 := s.dropWhile isWhite

/-- What is left behind the byte `b`, if that is the next one. -/
def expect (b : UInt8) : List UInt8 → Option (List UInt8)
  | [] => none
  | c :: s => if c = b then some s else none

/-- The first pass of `json_parse_string`: the bytes up to the closing quote, and those behind it. -/
def stringEnd : List UInt8 → Option (List UInt8 × List UInt8)
  | [] => none
  | [c] => if c = 0x22 then some ([], []) else none
  | c :: e :: s =>
    if c = 0x22 then some ([], e :: s)
    else if c = 0x5C then (stringEnd s).map fun p => (c :: e :: p.1, p.2)
    else (stringEnd (e :: s)).map fun p => (c :: p.1, p.2)

/-- The byte of an escape. -/
def unescapeByte (e : UInt8) : UInt8 :=
  if e = 0x6E then 0x0A else if e = 0x74 then 0x09 else if e = 0x72 then 0x0D else e

/-- The second pass of `json_parse_string`. -/
def unescape : List UInt8 → List UInt8
  | [] => []
  | [c] => [c]
  | c :: e :: s => if c = 0x5C then unescapeByte e :: unescape s else c :: unescape (e :: s)

/-- `json_parse_string`. -/
def parseString (s : List UInt8) : Option (List UInt8 × List UInt8) := do
  let t ← expect 0x22 s
  let (body, r) ← stringEnd t
  return (unescape body, r)

/-- A byte of the text of a number. -/
def isNumberByte (b : UInt8) : Bool :=
  isDigit b || b = 0x2D || b = 0x2B || b = 0x2E || b = 0x65 || b = 0x45

mutual

/-- `json_parse_value`, within `n` rounds. -/
def parseValue : ℕ → List UInt8 → Option (JNode × List UInt8)
  | 0, _ => none
  | n + 1, s =>
    match skipWs s with
    | [] => none
    | c :: t =>
      if c = 0x7B then parseObject n t
      else if c = 0x5B then parseArray n t
      else if c = 0x22 then (parseString (c :: t)).map fun p => (.str p.1, p.2)
      else if c = 0x74 then some (.bool true, (c :: t).drop 4)
      else if c = 0x66 then some (.bool false, (c :: t).drop 5)
      else if c = 0x6E then some (.null, (c :: t).drop 4)
      else some (.num ((c :: t).takeWhile isNumberByte), (c :: t).dropWhile isNumberByte)

/-- `json_parse_object`, behind the opening brace. -/
def parseObject : ℕ → List UInt8 → Option (JNode × List UInt8)
  | 0, _ => none
  | n + 1, s =>
    match expect 0x7D (skipWs s) with
    | some r => some (.obj [], r)
    | none => (parseMembers n (skipWs s)).map fun p => (.obj p.1, p.2)

/-- The loop of `json_parse_object`. -/
def parseMembers : ℕ → List UInt8 → Option (List (List UInt8 × JNode) × List UInt8)
  | 0, _ => none
  | n + 1, s =>
    if s = [] then some ([], [])
    else do
      let (key, r) ← parseString (skipWs s)
      let t ← expect 0x3A (skipWs r)
      let (val, r) ← parseValue n t
      match expect 0x2C (skipWs r) with
      | some t => (parseMembers n t).map fun p => ((key, val) :: p.1, p.2)
      | none => (expect 0x7D (skipWs r)).map fun t => ([(key, val)], t)

/-- `json_parse_array`, behind the opening bracket. -/
def parseArray : ℕ → List UInt8 → Option (JNode × List UInt8)
  | 0, _ => none
  | n + 1, s =>
    match expect 0x5D (skipWs s) with
    | some r => some (.arr [], r)
    | none => (parseElems n (skipWs s)).map fun p => (.arr p.1, p.2)

/-- The loop of `json_parse_array`. -/
def parseElems : ℕ → List UInt8 → Option (List JNode × List UInt8)
  | 0, _ => none
  | n + 1, s =>
    if s = [] then some ([], [])
    else do
      let (val, r) ← parseValue n s
      match expect 0x2C (skipWs r) with
      | some t => (parseElems n t).map fun p => (val :: p.1, p.2)
      | none => (expect 0x5D (skipWs r)).map fun t => ([val], t)

end

/-- `json_parse`, with what it leaves of the input. -/
def jsonParse (s : List UInt8) : Option (JNode × List UInt8) := parseValue (3 * s.length + 1) s

/-- `json_get`. -/
def jsonGet (n : JNode) (key : List UInt8) : Option JNode :=
  match n with
  | .obj child => (child.find? fun m => cString m.1 = cString key).map Prod.snd
  | _ => none

/-- `child`, and `next` of it `i` times. -/
def jsonItem (n : JNode) (i : ℕ) : Option JNode := n.items[i]?

/-- `json_str`: the text of a string or of a number. -/
def jsonStr (n : JNode) (key : List UInt8) : Option (List UInt8) :=
  match jsonGet n key with
  | some (.str s) => some s
  | some (.num s) => some s
  | _ => none

/-- `strtoull` with base 10: white space, a sign and digits. What does not fit is the largest value. -/
def strtoull (s : List UInt8) : ℕ :=
  let t := s.dropWhile fun b => b = 0x20 || 0x09 ≤ b && b ≤ 0x0D
  let u := if t.head? = some 0x2D ∨ t.head? = some 0x2B then t.tail else t
  let v := Nat.ofDigits 10 ((u.takeWhile isDigit).map fun b => (b - 0x30).toNat).reverse
  if 2 ^ 64 ≤ v then 2 ^ 64 - 1 else if t.head? = some 0x2D then (2 ^ 64 - v) % 2 ^ 64 else v

/-- `json_u64`: every number has its text, so that this is all of it. -/
def jsonU64 (n : JNode) (key : List UInt8) (dflt : ℕ) : ℕ :=
  match jsonStr n key with
  | some s => strtoull s
  | none => dflt

/-- Lookups one after the other, by key and by index. -/
def jsonAt (n : JNode) (path : List (JsonStep (List UInt8))) : Option JNode :=
  path.foldlM (fun n step => match step with
    | .key k => jsonGet n k
    | .index i => jsonItem n i) n

/-! ## The pieces of the parser -/

theorem skipWs_append {w : List UInt8} (hw : White w) (s : List UInt8) : skipWs (w ++ s) = skipWs s :=
  dropWhile_append_of_pos fun b hb => hw b hb

theorem skipWs_cons {b : UInt8} (hb : isWhite b = false) (s : List UInt8) : skipWs (b :: s) = b :: s :=
  dropWhile_cons_of_neg (by rw [hb]; exact Bool.false_ne_true)

/-- White space is left out, and nothing else. -/
theorem exists_white (s : List UInt8) : ∃ w, White w ∧ s = w ++ skipWs s :=
  ⟨s.takeWhile isWhite, fun _ hb => mem_takeWhile_imp hb, takeWhile_append_dropWhile.symm⟩

theorem expect_eq_some {b : UInt8} {s t : List UInt8} : expect b s = some t ↔ s = b :: t := by
  cases s with
  | nil => simp [expect]
  | cons c s => by_cases h : c = b <;> simp [expect, h]

@[simp] theorem expect_cons_self (b : UInt8) (s : List UInt8) : expect b (b :: s) = some s :=
  expect_eq_some.mpr rfl

theorem stringEnd_cons {c : UInt8} (hquote : c ≠ 0x22) (hback : c ≠ 0x5C) (s : List UInt8) :
    stringEnd (c :: s) = (stringEnd s).map fun p => (c :: p.1, p.2) := by
  cases s with
  | nil => exact if_neg hquote
  | cons e s => rw [stringEnd, if_neg hquote, if_neg hback]

theorem stringEnd_quote (s : List UInt8) : stringEnd (0x22 :: s) = some ([], s) := by cases s <;> rfl

theorem stringEnd_escape (e : UInt8) (s : List UInt8) :
    stringEnd (0x5C :: e :: s) = (stringEnd s).map fun p => (0x5C :: e :: p.1, p.2) := by
  rw [stringEnd, if_neg (by decide), if_pos rfl]

/-- The first pass stops at a quote. -/
theorem eq_of_stringEnd {t : List UInt8} {p : List UInt8 × List UInt8} (h : stringEnd t = some p) :
    t = p.1 ++ 0x22 :: p.2 := by
  induction t using stringEnd.induct generalizing p with
  | case1 => simp [stringEnd] at h
  | case2 =>
    simp only [stringEnd, if_true, Option.some.injEq] at h
    rw [← h, nil_append]
  | case3 c hc => simp [stringEnd, hc] at h
  | case4 e s =>
    simp only [stringEnd, if_true, Option.some.injEq] at h
    rw [← h, nil_append]
  | case5 e s _ ih =>
    rw [stringEnd, if_neg (by decide), if_pos rfl, Option.map_eq_some_iff] at h
    obtain ⟨q, hq, rfl⟩ := h
    rw [ih hq, cons_append, cons_append]
  | case6 c e s hquote hback ih =>
    rw [stringEnd, if_neg hquote, if_neg hback, Option.map_eq_some_iff] at h
    obtain ⟨q, hq, rfl⟩ := h
    rw [ih hq, cons_append]

theorem eq_of_parseString {s x r : List UInt8} (h : parseString s = some (x, r)) :
    ∃ body, stringEnd (body ++ 0x22 :: r) = some (body, r) ∧ s = 0x22 :: (body ++ 0x22 :: r) := by
  simp only [parseString, Option.bind_eq_bind, Option.bind_eq_some_iff, expect_eq_some] at h
  obtain ⟨t, rfl, q, hq, ⟨⟩⟩ := h
  have ht := eq_of_stringEnd hq
  exact ⟨q.1, ht ▸ hq, congrArg _ ht⟩

variable {n : ℕ} {s r : List UInt8}

/-- Behind an element stands a comma, or the closing bracket. -/
theorem behind_eq_some {α : Type*} {close : UInt8} (hclose : close ≠ 0x2C) {x : α}
    {more : List UInt8 → Option (List α × List UInt8)} {vs : List α} {u : List UInt8} :
    (match expect 0x2C u with
      | some t => (more t).map fun p => (x :: p.1, p.2)
      | none => (expect close u).map fun t => ([x], t)) = some (vs, r) ↔
    (∃ t vs', u = 0x2C :: t ∧ more t = some (vs', r) ∧ vs = x :: vs') ∨ u = close :: r ∧ vs = [x] := by
  cases h : expect 0x2C u with
  | none =>
    have hu : ∀ t, u ≠ 0x2C :: t := fun t ht => by rw [ht, expect_cons_self] at h; cases h
    simp [hu, Option.map_eq_some_iff, expect_eq_some]
    exact fun _ => eq_comm
  | some t =>
    obtain rfl := expect_eq_some.mp h
    have hcons : 0x2C :: t ≠ close :: r := fun hr => hclose (List.cons.inj hr).1.symm
    simp [hcons, Option.map_eq_some_iff]
    exact exists_congr fun _ => and_congr_right fun _ => eq_comm

/-- What one round of the loop of an object does. -/
theorem parseMembers_succ {ms : List (List UInt8 × JNode)} :
    parseMembers (n + 1) s = some (ms, r) ↔ s = [] ∧ ms = [] ∧ r = [] ∨
      ∃ key u t val u', s ≠ [] ∧ parseString (skipWs s) = some (key, u) ∧ skipWs u = 0x3A :: t ∧
        parseValue n t = some (val, u') ∧
        ((∃ t' ms', skipWs u' = 0x2C :: t' ∧ parseMembers n t' = some (ms', r) ∧ ms = (key, val) :: ms') ∨
          skipWs u' = 0x7D :: r ∧ ms = [(key, val)]) := by
  rw [parseMembers]
  by_cases hs : s = []
  · simp [hs, eq_comm]
  · simp only [if_neg hs, Option.bind_eq_bind, Option.bind_eq_some_iff, expect_eq_some, Prod.exists,
      behind_eq_some (show (0x7D : UInt8) ≠ 0x2C by decide)]
    simp [hs]

/-- What one round of the loop of an array does. -/
theorem parseElems_succ {vs : List JNode} :
    parseElems (n + 1) s = some (vs, r) ↔ s = [] ∧ vs = [] ∧ r = [] ∨
      ∃ val u, s ≠ [] ∧ parseValue n s = some (val, u) ∧
        ((∃ t vs', skipWs u = 0x2C :: t ∧ parseElems n t = some (vs', r) ∧ vs = val :: vs') ∨
          skipWs u = 0x5D :: r ∧ vs = [val]) := by
  rw [parseElems]
  by_cases hs : s = []
  · simp [hs, eq_comm]
  · simp only [if_neg hs, Option.bind_eq_bind, Option.bind_eq_some_iff, Prod.exists,
      behind_eq_some (show (0x5D : UInt8) ≠ 0x2C by decide)]
    simp [hs]

/-- Behind an opening bracket stands the closing one, or what the loop reads. -/
theorem opened_eq_some {α : Type*} {close : UInt8} {f : List α → JNode} {more : Option (List α × List UInt8)}
    {u : List UInt8} {v : JNode} :
    (match expect close u with
      | some t => some (f [], t)
      | none => more.map fun p => (f p.1, p.2)) = some (v, r) ↔
    u = close :: r ∧ v = f [] ∨ u.head? ≠ some close ∧ ∃ xs, more = some (xs, r) ∧ v = f xs := by
  cases h : expect close u with
  | none =>
    have hu : u.head? ≠ some close := fun hu => by
      obtain ⟨t, rfl⟩ := head?_eq_some_iff.mp hu
      rw [expect_cons_self] at h
      cases h
    have hcons : u ≠ close :: r := fun hr => hu (by rw [hr, head?_cons])
    simp [hu, hcons, Option.map_eq_some_iff]
    exact exists_congr fun _ => and_congr_right fun _ => eq_comm
  | some t =>
    obtain rfl := expect_eq_some.mp h
    simp [eq_comm, and_comm]

theorem parseObject_succ {v : JNode} : parseObject (n + 1) s = some (v, r) ↔
    skipWs s = 0x7D :: r ∧ v = .obj [] ∨
      (skipWs s).head? ≠ some 0x7D ∧ ∃ ms, parseMembers n (skipWs s) = some (ms, r) ∧ v = .obj ms := by
  rw [parseObject, opened_eq_some]

theorem parseArray_succ {v : JNode} : parseArray (n + 1) s = some (v, r) ↔
    skipWs s = 0x5D :: r ∧ v = .arr [] ∨
      (skipWs s).head? ≠ some 0x5D ∧ ∃ vs, parseElems n (skipWs s) = some (vs, r) ∧ v = .arr vs := by
  rw [parseArray, opened_eq_some]

/-- What the dispatch on the first byte does. -/
theorem parseValue_succ (n : ℕ) {c : UInt8} {t : List UInt8} (h : skipWs s = c :: t) :
    parseValue (n + 1) s =
      if c = 0x7B then parseObject n t
      else if c = 0x5B then parseArray n t
      else if c = 0x22 then (parseString (c :: t)).map fun p => (.str p.1, p.2)
      else if c = 0x74 then some (.bool true, (c :: t).drop 4)
      else if c = 0x66 then some (.bool false, (c :: t).drop 5)
      else if c = 0x6E then some (.null, (c :: t).drop 4)
      else some (.num ((c :: t).takeWhile isNumberByte), (c :: t).dropWhile isNumberByte) := by
  rw [parseValue, h]

theorem parseValue_number (n : ℕ) {c : UInt8} {t : List UInt8} (h : skipWs s = c :: t) (hc : isNumberByte c) :
    parseValue (n + 1) s =
      some (.num ((c :: t).takeWhile isNumberByte), (c :: t).dropWhile isNumberByte) := by
  have hother : ∀ b, isNumberByte b = false → c ≠ b := by
    rintro b hb rfl
    rw [hb] at hc
    exact Bool.false_ne_true hc
  rw [parseValue_succ n h, if_neg (hother _ rfl), if_neg (hother _ rfl), if_neg (hother _ rfl),
    if_neg (hother _ rfl), if_neg (hother _ rfl), if_neg (hother _ rfl)]

theorem ne_nil_of_parseValue {v : JNode} (h : parseValue n s = some (v, r)) : skipWs s ≠ [] := by
  intro hs
  cases n with
  | zero => simp [parseValue] at h
  | succ n => simp [parseValue, hs] at h

@[simp] theorem skipWs_skipWs (s : List UInt8) : skipWs (skipWs s) = skipWs s :=
  dropWhile_idempotent isWhite s

theorem parseValue_skipWs (n : ℕ) (s : List UInt8) : parseValue n (skipWs s) = parseValue n s := by
  cases n with
  | zero => rw [parseValue, parseValue]
  | succ n => rw [parseValue, parseValue, skipWs_skipWs]

theorem ne_nil_of_skipWs (h : skipWs s ≠ []) : s ≠ [] := fun hs => h (by rw [hs]; rfl)

/-- White space before the first element changes nothing. -/
theorem parseElems_skipWs (n : ℕ) (h : skipWs s ≠ []) : parseElems n (skipWs s) = parseElems n s := by
  cases n with
  | zero => rw [parseElems, parseElems]
  | succ n => rw [parseElems, parseElems, if_neg h, if_neg (ne_nil_of_skipWs h), parseValue_skipWs]

theorem parseMembers_skipWs (n : ℕ) (h : skipWs s ≠ []) : parseMembers n (skipWs s) = parseMembers n s := by
  cases n with
  | zero => rw [parseMembers, parseMembers]
  | succ n => rw [parseMembers, parseMembers, if_neg h, if_neg (ne_nil_of_skipWs h), skipWs_skipWs]

/-! ## The first byte of a value -/

theorem isWhite_of_isNumberByte {b : UInt8} (h : isNumberByte b) : isWhite b = false := by
  by_contra hw
  simp only [isWhite, Bool.not_eq_false, Bool.or_eq_true, decide_eq_true_eq] at hw
  rcases hw with ((rfl | rfl) | rfl) | rfl <;> exact absurd h (by decide)

/-- No byte follows that would make a number longer. -/
def Delimited (r : List UInt8) : Prop := ∀ c ∈ r.head?, isNumberByte c = false

theorem Delimited.append {w r : List UInt8} (hr : Delimited r) (hw : White w) : Delimited (w ++ r) := by
  cases w with
  | nil => exact hr
  | cons b w =>
    rintro c ⟨⟩
    by_contra hc
    rw [Bool.not_eq_false] at hc
    exact absurd (hw b mem_cons_self) (by rw [isWhite_of_isNumberByte hc]; decide)

theorem takeWhile_number {t r : List UInt8} (ht : ∀ b ∈ t, isNumberByte b) (hr : Delimited r) :
    (t ++ r).takeWhile isNumberByte = t ∧ (t ++ r).dropWhile isNumberByte = r := by
  rw [takeWhile_append_of_pos ht, dropWhile_append_of_pos ht]
  cases r with
  | nil => exact ⟨append_nil t, rfl⟩
  | cons b r =>
    have hb : isNumberByte b = false := hr b rfl
    simp [hb]

section Texts

variable {σ ν : Type*} {string : σ → List UInt8 → Prop} {number : ν → List UInt8 → Prop}

/-- A byte with which a value starts. -/
def StartsValue (c : UInt8) : Prop := isNumberByte c ∨ c ∈ [0x6E, 0x74, 0x66, 0x22, 0x5B, 0x7B]

theorem StartsValue.isWhite {c : UInt8} (h : StartsValue c) : isWhite c = false := by
  rcases h with h | h
  · exact isWhite_of_isNumberByte h
  · simp only [mem_cons, not_mem_nil, or_false] at h
    rcases h with rfl | rfl | rfl | rfl | rfl | rfl <;> rfl

theorem not_startsValue_of_mem {c : UInt8} (h : c ∈ [0x2C, 0x3A, 0x5D, 0x7D]) : ¬ StartsValue c := by
  simp only [mem_cons, not_mem_nil, or_false] at h
  rcases h with rfl | rfl | rfl | rfl <;> exact fun h => absurd h (by unfold StartsValue; decide)

/-- The texts of numbers are made of the bytes that the parser takes for one. -/
def NumberBytes (number : ν → List UInt8 → Prop) : Prop :=
  ∀ x t, number x t → t ≠ [] ∧ ∀ b ∈ t, isNumberByte b

theorem ValueText.head (hnum : NumberBytes number) {v : JsonValue σ ν} {t : List UInt8}
    (h : ValueText string number v t) : ∃ c u, t = c :: u ∧ StartsValue c := by
  cases h with
  | num h =>
    obtain ⟨hne, hall⟩ := hnum _ _ h
    obtain ⟨c, u, rfl⟩ := exists_cons_of_ne_nil hne
    exact ⟨c, u, rfl, .inl (hall c mem_cons_self)⟩
  | null => exact ⟨_, _, rfl, .inr (by decide)⟩
  | yes => exact ⟨_, _, rfl, .inr (by decide)⟩
  | no => exact ⟨_, _, rfl, .inr (by decide)⟩
  | str => exact ⟨_, _, rfl, .inr (by decide)⟩
  | arrNil => exact ⟨_, _, rfl, .inr (by decide)⟩
  | arr => exact ⟨_, _, rfl, .inr (by decide)⟩
  | objNil => exact ⟨_, _, rfl, .inr (by decide)⟩
  | obj => exact ⟨_, _, rfl, .inr (by decide)⟩

end Texts

/-! ## The rounds are enough -/

theorem skipWs_suffix (s : List UInt8) : skipWs s <:+ s := dropWhile_suffix _

theorem suffix_of_skipWs {b : UInt8} (h : skipWs s = b :: r) : r <:+ s :=
  (suffix_cons b r).trans (h ▸ skipWs_suffix s)

theorem length_lt_of_skipWs {b : UInt8} (h : skipWs s = b :: r) : r.length < s.length := by
  have := (skipWs_suffix s).length_le
  rwa [h, length_cons] at this

theorem parseString_suffix {x : List UInt8} (h : parseString s = some (x, r)) : r <:+ s := by
  obtain ⟨body, -, rfl⟩ := eq_of_parseString h
  exact ((suffix_cons _ _).trans (suffix_append _ _)).trans (suffix_cons _ _)

mutual

/-- What is left is the end of the input. -/
theorem parseValue_suffix : ∀ {n : ℕ} {s r : List UInt8} {v : JNode},
    parseValue n s = some (v, r) → r <:+ s
  | 0, _, _, _, h => by simp [parseValue] at h
  | n + 1, s, r, v, h => by
    obtain ⟨c, t, hct⟩ := exists_cons_of_ne_nil (ne_nil_of_parseValue h)
    have hs : c :: t <:+ s := hct ▸ skipWs_suffix s
    rw [parseValue_succ n hct] at h
    refine IsSuffix.trans ?_ hs
    split_ifs at h
    · exact (parseObject_suffix h).trans (suffix_cons c t)
    · exact (parseArray_suffix h).trans (suffix_cons c t)
    · obtain ⟨p, hp, ⟨⟩⟩ := Option.map_eq_some_iff.mp h
      exact parseString_suffix hp
    · cases h
      exact drop_suffix _ _
    · cases h
      exact drop_suffix _ _
    · cases h
      exact drop_suffix _ _
    · cases h
      exact dropWhile_suffix _

theorem parseObject_suffix : ∀ {n : ℕ} {s r : List UInt8} {v : JNode},
    parseObject n s = some (v, r) → r <:+ s
  | 0, _, _, _, h => by simp [parseObject] at h
  | n + 1, s, r, v, h => by
    rcases parseObject_succ.mp h with ⟨hs, -⟩ | ⟨-, ms, hms, -⟩
    · exact suffix_of_skipWs hs
    · exact (parseMembers_suffix hms).trans (skipWs_suffix s)

theorem parseMembers_suffix : ∀ {n : ℕ} {s r : List UInt8} {ms : List (List UInt8 × JNode)},
    parseMembers n s = some (ms, r) → r <:+ s
  | 0, _, _, _, h => by simp [parseMembers] at h
  | n + 1, s, r, ms, h => by
    rcases parseMembers_succ.mp h with ⟨rfl, -, rfl⟩ | ⟨key, u, t, val, u', -, hkey, ht, hval, hbehind⟩
    · exact suffix_rfl
    have hu : u <:+ s := (parseString_suffix hkey).trans (skipWs_suffix s)
    have hu' : u' <:+ s := (parseValue_suffix hval).trans ((suffix_of_skipWs ht).trans hu)
    rcases hbehind with ⟨t', ms', h', hms', -⟩ | ⟨h', -⟩
    · exact (parseMembers_suffix hms').trans ((suffix_of_skipWs h').trans hu')
    · exact (suffix_of_skipWs h').trans hu'

theorem parseArray_suffix : ∀ {n : ℕ} {s r : List UInt8} {v : JNode},
    parseArray n s = some (v, r) → r <:+ s
  | 0, _, _, _, h => by simp [parseArray] at h
  | n + 1, s, r, v, h => by
    rcases parseArray_succ.mp h with ⟨hs, -⟩ | ⟨-, vs, hvs, -⟩
    · exact suffix_of_skipWs hs
    · exact (parseElems_suffix hvs).trans (skipWs_suffix s)

theorem parseElems_suffix : ∀ {n : ℕ} {s r : List UInt8} {vs : List JNode},
    parseElems n s = some (vs, r) → r <:+ s
  | 0, _, _, _, h => by simp [parseElems] at h
  | n + 1, s, r, vs, h => by
    rcases parseElems_succ.mp h with ⟨rfl, -, rfl⟩ | ⟨val, u, -, hval, hbehind⟩
    · exact suffix_rfl
    rcases hbehind with ⟨t, vs', h', hvs', -⟩ | ⟨h', -⟩
    · exact (parseElems_suffix hvs').trans ((suffix_of_skipWs h').trans (parseValue_suffix hval))
    · exact (suffix_of_skipWs h').trans (parseValue_suffix hval)

end

mutual

/-- Rounds beyond the length of the input change nothing. -/
theorem parseValue_stable : ∀ {n : ℕ} {s : List UInt8}, 3 * s.length + 1 ≤ n →
    parseValue (n + 1) s = parseValue n s
  | 0, _, h => absurd h (by omega)
  | n + 1, s, h => by
    cases hs : skipWs s with
    | nil => rw [parseValue, parseValue, hs]
    | cons c t =>
      have ht : t.length < s.length := length_lt_of_skipWs hs
      rw [parseValue_succ _ hs, parseValue_succ _ hs, parseObject_stable (by omega), parseArray_stable (by omega)]

theorem parseObject_stable : ∀ {n : ℕ} {s : List UInt8}, 3 * s.length + 3 ≤ n →
    parseObject (n + 1) s = parseObject n s
  | 0, _, h => absurd h (by omega)
  | n + 1, s, h => by
    have hs := (skipWs_suffix s).length_le
    rw [parseObject, parseObject, parseMembers_stable (by omega)]

theorem parseArray_stable : ∀ {n : ℕ} {s : List UInt8}, 3 * s.length + 3 ≤ n →
    parseArray (n + 1) s = parseArray n s
  | 0, _, h => absurd h (by omega)
  | n + 1, s, h => by
    have hs := (skipWs_suffix s).length_le
    rw [parseArray, parseArray, parseElems_stable (by omega)]

theorem parseMembers_stable : ∀ {n : ℕ} {s : List UInt8}, 3 * s.length + 2 ≤ n →
    parseMembers (n + 1) s = parseMembers n s
  | 0, _, h => absurd h (by omega)
  | n + 1, s, h => by
    refine Option.ext fun ⟨ms, r⟩ => ?_
    rw [parseMembers_succ, parseMembers_succ]
    refine or_congr_right (exists_congr fun key => exists_congr fun u => exists_congr fun t =>
      exists_congr fun val => exists_congr fun u' => and_congr_right fun _ => and_congr_right fun hkey =>
        and_congr_right fun ht => ?_)
    have hu := (parseString_suffix hkey).length_le
    have hs := (skipWs_suffix s).length_le
    have hlt := length_lt_of_skipWs ht
    rw [parseValue_stable (by omega)]
    refine and_congr_right fun hval => or_congr_left (exists_congr fun t' => exists_congr fun ms' =>
      and_congr_right fun ht' => ?_)
    have hlt' := length_lt_of_skipWs ht'
    have hle := (parseValue_suffix hval).length_le
    rw [parseMembers_stable (by omega)]

theorem parseElems_stable : ∀ {n : ℕ} {s : List UInt8}, 3 * s.length + 2 ≤ n →
    parseElems (n + 1) s = parseElems n s
  | 0, _, h => absurd h (by omega)
  | n + 1, s, h => by
    refine Option.ext fun ⟨vs, r⟩ => ?_
    rw [parseElems_succ, parseElems_succ, parseValue_stable (by omega)]
    refine or_congr_right (exists_congr fun val => exists_congr fun u => and_congr_right fun _ =>
      and_congr_right fun hval => or_congr_left (exists_congr fun t => exists_congr fun vs' =>
        and_congr_right fun ht => ?_))
    have hlt := length_lt_of_skipWs ht
    have hle := (parseValue_suffix hval).length_le
    rw [parseElems_stable (by omega)]

end

/-- **The rounds are enough**: with more of them the parser does the same. -/
theorem jsonParse_stable (hn : 3 * s.length + 1 ≤ n) : parseValue n s = jsonParse s := by
  induction n, hn using Nat.le_induction with
  | base => rfl
  | succ n hn ih => rw [parseValue_stable hn, ih]

end RecoveryQt
