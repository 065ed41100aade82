import Mathlib.Data.List.Basic

/-!
# The texts of JSON values

The grammar of RFC 8259 over bytes, for any way to write the strings and the numbers.

* `JsonValue`: the values, over a type of strings and one of numbers;
* `ValueText`, `ElementsText`, `MembersText`: the texts of a value, and of what stands in its brackets;
* `StringText`, `NumberText`: the strings and the numbers of the RFC;
* `IsJson`: the texts of the RFC, with white space before them.
-/

namespace RecoveryQt

open List

/-- A JSON value. -/
inductive JsonValue (σ ν : Type*)
  | null
  | bool (b : Bool)
  | num (x : ν)
  | str (s : σ)
  | arr (child : List (JsonValue σ ν))
  | obj (child : List (σ × JsonValue σ ν))

namespace JsonValue

variable {σ ν ν' : Type*}

/-- The value with its numbers written another way. -/
def mapNum (f : ν → ν') : JsonValue σ ν → JsonValue σ ν'
  | null => null
  | bool b => bool b
  | num x => num (f x)
  | str s => str s
  | arr child => arr (child.map (mapNum f))
  | obj child => obj (child.map fun m => (m.1, mapNum f m.2))
decreasing_by
  · decreasing_trivial
  · rename_i hm
    have hlt := sizeOf_lt_of_mem hm
    obtain ⟨k, v⟩ := m
    rw [Prod.mk.sizeOf_spec] at hlt
    simp only [obj.sizeOf_spec]
    omega

/-- The elements of an array, and the values of an object. -/
def items : JsonValue σ ν → List (JsonValue σ ν)
  | arr child => child
  | obj child => child.map Prod.snd
  | _ => []

/-- The first member of the name `k`. -/
def member? [DecidableEq σ] (v : JsonValue σ ν) (k : σ) : Option (JsonValue σ ν) :=
  match v with
  | obj child => (child.find? fun m => m.1 = k).map Prod.snd
  | _ => none

theorem items_mapNum (f : ν → ν') (v : JsonValue σ ν) : (v.mapNum f).items = v.items.map (mapNum f) := by
  cases v <;> simp [mapNum, items, Function.comp_def]

end JsonValue

/-- A step into a value: to a member or to an element. -/
inductive JsonStep (σ : Type*)
  | key (k : σ)
  | index (i : ℕ)

namespace JsonValue

variable {σ ν : Type*} [DecidableEq σ]

/-- Where a step leads. -/
def step? (v : JsonValue σ ν) : JsonStep σ → Option (JsonValue σ ν)
  | .key k => v.member? k
  | .index i => v.items[i]?

/-- Where a path leads. -/
def at? (v : JsonValue σ ν) (path : List (JsonStep σ)) : Option (JsonValue σ ν) := path.foldlM step? v

end JsonValue

/-! ## The grammar -/

/-- White space. -/
def isWhite (b : UInt8) : Bool := b = 0x20 || b = 0x09 || b = 0x0A || b = 0x0D

/-- Nothing but white space. -/
def White (w : List UInt8) : Prop := ∀ b ∈ w, isWhite b

section Grammar

variable {σ ν : Type*} (string : σ → List UInt8 → Prop) (number : ν → List UInt8 → Prop)

mutual

/-- A value without white space around it. -/
inductive ValueText : JsonValue σ ν → List UInt8 → Prop
  | null : ValueText .null [0x6E, 0x75, 0x6C, 0x6C]
  | yes : ValueText (.bool true) [0x74, 0x72, 0x75, 0x65]
  | no : ValueText (.bool false) [0x66, 0x61, 0x6C, 0x73, 0x65]
  | num {x t} (h : number x t) : ValueText (.num x) t
  | str {s t} (h : string s t) : ValueText (.str s) (0x22 :: (t ++ [0x22]))
  | arrNil {w} (h : White w) : ValueText (.arr []) (0x5B :: (w ++ [0x5D]))
  | arr {vs t} (h : ElementsText vs t) : ValueText (.arr vs) (0x5B :: (t ++ [0x5D]))
  | objNil {w} (h : White w) : ValueText (.obj []) (0x7B :: (w ++ [0x7D]))
  | obj {ms t} (h : MembersText ms t) : ValueText (.obj ms) (0x7B :: (t ++ [0x7D]))

/-- A value with white space around it. -/
inductive ElementText : JsonValue σ ν → List UInt8 → Prop
  | mk {v w t w'} (hw : White w) (h : ValueText v t) (hw' : White w') : ElementText v (w ++ (t ++ w'))

/-- Elements with commas between them. -/
inductive ElementsText : List (JsonValue σ ν) → List UInt8 → Prop
  | last {v t} (h : ElementText v t) : ElementsText [v] t
  | cons {v vs t t'} (h : ElementText v t) (h' : ElementsText vs t') :
      ElementsText (v :: vs) (t ++ 0x2C :: t')

/-- A name, a colon and an element. -/
inductive MemberText : σ × JsonValue σ ν → List UInt8 → Prop
  | mk {k v w s w' t} (hw : White w) (hs : string k s) (hw' : White w') (h : ElementText v t) :
      MemberText (k, v) (w ++ 0x22 :: (s ++ 0x22 :: (w' ++ 0x3A :: t)))

/-- Members with commas between them. -/
inductive MembersText : List (σ × JsonValue σ ν) → List UInt8 → Prop
  | last {m t} (h : MemberText m t) : MembersText [m] t
  | cons {m ms t t'} (h : MemberText m t) (h' : MembersText ms t') :
      MembersText (m :: ms) (t ++ 0x2C :: t')

end

end Grammar

/-! ## Strings and numbers -/

/-- Between the quotes of a string: characters, encoded in UTF-8, and escapes. -/
inductive StringText : List UInt8 → Prop
  | nil : StringText []
  | char (c : Char) {t} (hc : 0x20 ≤ c.toNat) (hquote : c.toNat ≠ 0x22) (hback : c.toNat ≠ 0x5C)
      (h : StringText t) : StringText (String.utf8EncodeChar c ++ t)
  | escape {e t} (he : e ∈ [0x22, 0x5C, 0x2F, 0x62, 0x66, 0x6E, 0x72, 0x74]) (h : StringText t) :
      StringText (0x5C :: e :: t)
  | unicode {x t} (hx : x.length = 4)
      (hex : ∀ b ∈ x, 0x30 ≤ b ∧ b ≤ 0x39 ∨ 0x41 ≤ b ∧ b ≤ 0x46 ∨ 0x61 ≤ b ∧ b ≤ 0x66)
      (h : StringText t) : StringText (0x5C :: 0x75 :: (x ++ t))

/-- A decimal digit. -/
def isDigit (b : UInt8) : Bool := 0x30 ≤ b && b ≤ 0x39

/-- One digit or more. -/
def Digits (t : List UInt8) : Prop := t ≠ [] ∧ ∀ b ∈ t, isDigit b

/-- An integer, written without needless zeros. -/
def IntText (t : List UInt8) : Prop := Digits t ∧ (t.head? = some 0x30 → t = [0x30])

/-- A number: a sign, an integer, a fraction and an exponent, of which all but the integer may be left out. -/
def NumberText (t : List UInt8) : Prop :=
  ∃ sign int frac exp, t = sign ++ int ++ frac ++ exp ∧ (sign = [] ∨ sign = [0x2D]) ∧ IntText int ∧
    (frac = [] ∨ ∃ ds, Digits ds ∧ frac = 0x2E :: ds) ∧
    (exp = [] ∨ ∃ e s ds, (e = 0x65 ∨ e = 0x45) ∧ (s = [] ∨ s = [0x2B] ∨ s = [0x2D]) ∧ Digits ds ∧
      exp = e :: (s ++ ds))

/-- A string of the RFC, kept as it is written. -/
def RfcString (s t : List UInt8) : Prop := s = t ∧ StringText t

/-- A number of the RFC, kept as it is written. -/
def RfcNumber (x t : List UInt8) : Prop := x = t ∧ NumberText t

/-- A text of the RFC, behind white space. -/
def IsJson (t : List UInt8) : Prop :=
  ∃ v w u, t = w ++ u ∧ White w ∧ ValueText RfcString RfcNumber v u

/-! ## The bytes of strings -/

/-- A character that is neither a quote nor a backslash is encoded without these bytes. -/
theorem plain_of_mem_utf8EncodeChar {c : Char} (hquote : c.toNat ≠ 0x22) (hback : c.toNat ≠ 0x5C) {b : UInt8}
    (hb : b ∈ String.utf8EncodeChar c) : b ≠ 0x22 ∧ b ≠ 0x5C := by
  have hne : ∀ n k, n < 0x100 → k < 0x100 → n ≠ k → UInt8.ofNat n ≠ UInt8.ofNat k := by
    intro n k hn hk hnk h
    have := congrArg UInt8.toNat h
    rw [UInt8.toNat_ofNat_of_lt' hn, UInt8.toNat_ofNat_of_lt' hk] at this
    exact hnk this
  have hhigh : ∀ n, 0x80 ≤ n → n < 0x100 → UInt8.ofNat n ≠ 0x22 ∧ UInt8.ofNat n ≠ 0x5C := fun n hlow hlt =>
    ⟨hne n 0x22 hlt (by decide) (by omega), hne n 0x5C hlt (by decide) (by omega)⟩
  have hv : c.val.toNat = c.toNat := rfl
  simp only [String.utf8EncodeChar] at hb
  split_ifs at hb with hascii
  · rw [mem_singleton.mp hb]
    exact ⟨hne _ 0x22 (by omega) (by decide) hquote, hne _ 0x5C (by omega) (by decide) hback⟩
  all_goals
    -- every byte of a longer encoding is at least 0x80
    simp only [mem_cons, not_mem_nil, or_false] at hb
    rcases hb with rfl | hb
    · exact hhigh _ (by omega) (by omega)
  · rw [hb]
    exact hhigh _ (by omega) (by omega)
  · rcases hb with rfl | rfl <;> exact hhigh _ (by omega) (by omega)
  · rcases hb with rfl | rfl | rfl <;> exact hhigh _ (by omega) (by omega)

end RecoveryQt
