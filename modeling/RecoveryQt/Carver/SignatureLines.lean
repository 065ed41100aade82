import Mathlib.Data.List.Forall2
import Mathlib.Data.List.ReduceOption
import RecoveryQt.Carver.SignatureFile

/-!
# The lines of the signature file

* `Number`, `Letter`, `Part`, `SigLine`: a line `ext offset magic`, its text and what it denotes;
* `Harmless`, `InOrder`: the lines that are none, and where they stand;
* `parseSignatureLine_text`, `parses_harmless`, `parses_lines`: a line, a harmless one, and all of them;
* **`registers_iff`**: the signatures that are registered are those that the lines denote exactly when no offset is
  written with a letter;
* `registers_charLine`, `registers_letterLine`: an offset without and with a letter.
-/

namespace RecoveryQt.SignatureFile

open List

/-! ## Lines -/

/-- A number in the base `base`, behind the digits of `n`. -/
def numberFrom (base : ℕ) (value : UInt8 → ℕ) (n : ℕ) (digits : List UInt8) : ℕ :=
  digits.foldl (fun n c => n * base + value c) n

/-- What a digit stands for: a letter comes behind nine, in either case. -/
def digitValue (c : UInt8) : ℕ := if c ≤ 0x39 then c.toNat - 0x30 else c.toNat % 0x20 + 9

/-- A number as it is written. -/
inductive Number where
  | dec (digits : List UInt8)
  | hex (x : UInt8) (digits : List UInt8)

namespace Number

def text : Number → List UInt8
  | dec digits => digits
  | hex x digits => 0x30 :: x :: digits

def value : Number → ℕ
  | dec digits => numberFrom 10 digitValue 0 digits
  | hex _ digits => numberFrom 16 digitValue 0 digits

def Valid : Number → Prop
  | dec digits => digits ≠ [] ∧ ∀ c ∈ digits, 0x30 ≤ c ∧ c ≤ 0x39
  | hex x digits => isX x = true ∧ digits ≠ [] ∧ ∀ c ∈ digits, isXDigit c = true

/-- A letter is among the digits. -/
def Lettered : Number → Prop
  | dec _ => False
  | hex _ digits => ∃ c ∈ digits, 0x39 < c

end Number

/-- A character between quotes. -/
inductive Letter where
  | raw (c : UInt8)
  | escaped (c : UInt8)

namespace Letter

def text : Letter → List UInt8
  | raw c => [c]
  | escaped c => [0x5C, c]

def value : Letter → UInt8
  | raw c => c
  | escaped c => escapedChar c

/-- The character can stand between quotes, where a raw one is not `close`. -/
def Valid (close : UInt8) : Letter → Prop
  | raw c => c ≠ 0 ∧ c ≠ 0x0A ∧ c ≠ 0x5C ∧ c ≠ close
  | escaped c => c ≠ 0 ∧ c ≠ 0x0A

end Letter

/-- A part of a magic: a character, a string, hexadecimal bytes, or a blank between them. -/
inductive Part where
  | char (l : Letter)
  | string (ls : List Letter)
  | hex (x : UInt8) (pairs : List (UInt8 × UInt8))
  | space (c : UInt8)

namespace Part

def text : Part → List UInt8
  | char l => 0x27 :: (l.text ++ [0x27])
  | string ls => 0x22 :: (ls.flatMap Letter.text ++ [0x22])
  | hex x pairs => 0x30 :: x :: pairs.flatMap fun p => [p.1, p.2]
  | space c => [c]

def bytes : Part → List UInt8
  | char l => [l.value]
  | string ls => ls.map Letter.value
  | hex _ pairs => pairs.map fun p => UInt8.ofNat (digitValue p.1 * 16 + digitValue p.2)
  | space _ => []

/-- The quote of a character may be between quotes. -/
def Valid : Part → Prop
  | char l => l.Valid 0
  | string ls => ∀ l ∈ ls, l.Valid 0x22
  | hex x pairs => isX x = true ∧ pairs ≠ [] ∧ ∀ p ∈ pairs, isXDigit p.1 = true ∧ isXDigit p.2 = true
  | space c => isSpace c = true

def isHex : Part → Bool
  | hex _ _ => true
  | _ => false

end Part

/-- A line `ext offset magic`. -/
structure SigLine where
  ext : List UInt8
  blanks : List UInt8
  offset : Number
  magic : List Part

namespace SigLine

def text (a : SigLine) : List UInt8 := a.ext ++ (a.blanks ++ (a.offset.text ++ a.magic.flatMap Part.text))

def bytes (a : SigLine) : List UInt8 := a.magic.flatMap Part.bytes

/-- The signature that the line denotes. -/
def denoted (a : SigLine) : Signature := ⟨a.ext, a.offset.value, a.bytes⟩

/-- The line is well formed, within the bounds for a signature. -/
structure Valid (a : SigLine) : Prop where
  ext_ne_nil : a.ext ≠ []
  ext_chars : ∀ c ∈ a.ext, endsExtension c = false
  no_comment : a.ext.head? ≠ some 0x23
  blanks_ne_nil : a.blanks ≠ []
  blanks_chars : ∀ c ∈ a.blanks, isBlank c = true
  offset_valid : a.offset.Valid
  parts_valid : ∀ p ∈ a.magic, p.Valid
  offset_ends : ∀ p ∈ a.magic.head?, p.isHex = false
  bytes_ne_nil : a.bytes ≠ []
  bytes_le : a.bytes.length ≤ maxSigSize
  end_le : a.offset.value + a.bytes.length ≤ maxSigOffset

/-- The line `l` reads so. -/
def Reads (a : SigLine) (l : List UInt8) : Prop := a.Valid ∧ a.text = l

/-- A signature of the largest size ends its line. -/
def Fits (a : SigLine) : Prop := a.bytes.length = maxSigSize → ∀ p ∈ a.magic.getLast?, p.bytes ≠ []

end SigLine

/-- What a line is read as: a well-formed one, or nothing. -/
def LineReads (l : List UInt8) : Option SigLine → Prop
  | some a => a.Reads l
  | none => ∀ a : SigLine, ¬ a.Reads l

/-- The lines of a file. -/
def linesOf (content : List UInt8) : List (List UInt8) := content.splitOn 0x0A

/-- Nothing in the line can be a magic. -/
structure Harmless (l : List UInt8) : Prop where
  quote : 0x27 ∉ l
  doubleQuote : 0x22 ∉ l
  hex : ∀ x, isX x = true → ¬ [0x30, x] <:+: l

/-- Lines that are well formed, comments, or harmless; what `comments` says is whether a comment that is not harmless
may come. -/
def InOrderFrom : Bool → List (List UInt8) → Prop
  | _, [] => True
  | comments, l :: ls =>
    ((∃ a : SigLine, a.Reads l) ∧ (∀ a : SigLine, a.Reads l → a.Fits) ∧ InOrderFrom true ls) ∨
      (l.head? = some 0x23 ∧ comments = true ∧ InOrderFrom true ls) ∨ (Harmless l ∧ InOrderFrom false ls)

/-- A file without a NUL, with harmless lines and comments between its signatures. -/
def InOrder (content : List UInt8) : Prop := 0 ∉ content ∧ InOrderFrom true (linesOf content)

/-! ## Numbers -/

theorem le_numberFrom {base : ℕ} (hbase : 0 < base) (value : UInt8 → ℕ) (n : ℕ) (digits : List UInt8) :
    n ≤ numberFrom base value n digits := by
  induction digits generalizing n with
  | nil => exact le_rfl
  | cons c digits ih =>
    have hn : n ≤ n * base := Nat.le_mul_of_pos_right n hbase
    exact (hn.trans (Nat.le_add_right _ _)).trans (ih (n * base + value c))

/-- Smaller digits make a smaller number. -/
theorem numberFrom_le {base : ℕ} {value value' : UInt8 → ℕ} {digits : List UInt8}
    (hvalue : ∀ c ∈ digits, value c ≤ value' c) {n n' : ℕ} (hn : n ≤ n') :
    numberFrom base value n digits ≤ numberFrom base value' n' digits := by
  induction digits generalizing n n' with
  | nil => exact hn
  | cons c digits ih =>
    exact ih (fun c hc => hvalue c (mem_cons_of_mem _ hc))
      (Nat.add_le_add (Nat.mul_le_mul_right base hn) (hvalue c mem_cons_self))

/-- Smaller digits make another number. -/
theorem eq_of_numberFrom_eq {base : ℕ} (hbase : 0 < base) {value value' : UInt8 → ℕ} {digits : List UInt8}
    (hvalue : ∀ c ∈ digits, value c ≤ value' c) {n n' : ℕ} (hn : n ≤ n')
    (h : numberFrom base value n digits = numberFrom base value' n' digits) :
    n = n' ∧ ∀ c ∈ digits, value c = value' c := by
  induction digits generalizing n n' with
  | nil => exact ⟨h, forall_mem_nil _⟩
  | cons c digits ih =>
    have hmul := Nat.mul_le_mul_right base hn
    have hc := hvalue c mem_cons_self
    obtain ⟨heq, hrest⟩ := ih (fun c hc => hvalue c (mem_cons_of_mem _ hc)) (Nat.add_le_add hmul hc) h
    have hnn : n * base = n' * base := by omega
    exact ⟨Nat.eq_of_mul_eq_mul_right hbase hnn, forall_mem_cons.mpr ⟨by omega, hrest⟩⟩

/-- The digits of a number are read up to the character behind them. -/
theorem strUintDigits_digits {base : ℕ} {digit : UInt8 → Option ℕ} {value : UInt8 → ℕ} (hbase : 0 < base)
    {digits : List UInt8} (hdigits : ∀ c ∈ digits, digit c = some (value c)) {e : UInt8} (he : digit e = none)
    (tl : List UInt8) {n : ℕ} (hsmall : numberFrom base value n digits < 0x10000000) :
    strUintDigits base digit n (digits ++ e :: tl) = some (numberFrom base value n digits, e :: tl) := by
  induction digits generalizing n with
  | nil =>
    rw [nil_append, strUintDigits, he]
    rfl
  | cons c digits ih =>
    have hle := le_numberFrom hbase value (n * base + value c) digits
    rw [cons_append, strUintDigits, hdigits c mem_cons_self]
    simp only
    rw [if_neg (Nat.not_le.mpr (hle.trans_lt hsmall))]
    exact ih (fun c hc => hdigits c (mem_cons_of_mem _ hc)) hsmall

/-- What the code takes a hexadecimal digit for. -/
def codedDigit (c : UInt8) : ℕ := (hexDigit c).getD 0

/-- The number that the code reads. -/
def Number.coded : Number → ℕ
  | .dec digits => numberFrom 10 digitValue 0 digits
  | .hex _ digits => numberFrom 16 codedDigit 0 digits

theorem isXDigit_iff {c : UInt8} : isXDigit c = true ↔
    (0x30 ≤ c.toNat ∧ c.toNat ≤ 0x39) ∨ (0x41 ≤ c.toNat ∧ c.toNat ≤ 0x46) ∨ (0x61 ≤ c.toNat ∧ c.toNat ≤ 0x66) := by
  simp [isXDigit, UInt8.le_iff_toNat_le, or_assoc]

theorem decDigit_eq {c : UInt8} (h : 0x30 ≤ c ∧ c ≤ 0x39) : decDigit c = some (digitValue c) := by
  rw [decDigit, if_pos h, digitValue, if_pos h.2, UInt8.toNat_sub_of_le _ _ h.1]
  rfl

/-- A digit in front of the letters is read as what it stands for. -/
theorem hexDigit_eq {c : UInt8} (h : isXDigit c = true) : hexDigit c = some (codedDigit c) := by
  simp only [isXDigit, Bool.or_eq_true, Bool.and_eq_true, decide_eq_true_eq] at h
  obtain ⟨n, hn⟩ : ∃ n, hexDigit c = some n := by
    rw [hexDigit]
    split_ifs with h₁ h₂ h₃
    · exact ⟨_, rfl⟩
    · exact ⟨_, rfl⟩
    · exact ⟨_, rfl⟩
    · exact absurd h (by simp [h₁, h₂, h₃])
  rw [codedDigit, hn, Option.getD_some]

/-- A letter counts ten too little. -/
theorem codedDigit_of_letter {c : UInt8} (h : isXDigit c = true) :
    codedDigit c + (if 0x39 < c then 10 else 0) = digitValue c := by
  have hcases := isXDigit_iff.mp h
  rw [codedDigit, hexDigit, digitValue]
  simp only [UInt8.le_iff_toNat_le, UInt8.lt_iff_toNat_lt, UInt8.toNat_ofNat]
  rcases hcases with hc | hc | hc
  · rw [if_pos (by omega), if_neg (by omega), if_pos (by omega), Option.getD_some,
      UInt8.toNat_sub_of_le c 0x30 (UInt8.le_iff_toNat_le.mpr hc.1)]
    rfl
  · rw [if_neg (by omega), if_pos (by omega), if_pos (by omega), if_neg (by omega), Option.getD_some,
      UInt8.toNat_sub_of_le c 0x41 (UInt8.le_iff_toNat_le.mpr hc.1),
      show (0x41 : UInt8).toNat = 0x41 from rfl]
    omega
  · rw [if_neg (by omega), if_neg (by omega), if_pos (by omega), if_pos (by omega), if_neg (by omega),
      Option.getD_some, UInt8.toNat_sub_of_le c 0x61 (UInt8.le_iff_toNat_le.mpr hc.1),
      show (0x61 : UInt8).toNat = 0x61 from rfl]
    omega

namespace Number

theorem coded_le {x : Number} (h : x.Valid) : x.coded ≤ x.value := by
  cases x with
  | dec digits => exact le_rfl
  | hex x digits =>
    exact numberFrom_le (fun c hc => Nat.le.intro (codedDigit_of_letter (h.2.2 c hc))) le_rfl

/-- The code reads the number that is written, unless there is a letter in it. -/
theorem coded_eq_iff {x : Number} (h : x.Valid) : x.coded = x.value ↔ ¬ x.Lettered := by
  cases x with
  | dec digits => exact iff_of_true rfl id
  | hex x digits =>
    have hdigit (c : UInt8) (hc : c ∈ digits) := codedDigit_of_letter (h.2.2 c hc)
    constructor
    · rintro heq ⟨c, hc, hletter⟩
      have hsame := (eq_of_numberFrom_eq (by decide) (fun c hc => Nat.le.intro (hdigit c hc)) le_rfl heq).2 c hc
      have := hdigit c hc
      rw [if_pos hletter] at this
      omega
    · intro hnone
      refine foldl_ext _ _ _ fun n c hc => ?_
      have := hdigit c hc
      rw [if_neg fun hletter => hnone ⟨c, hc, hletter⟩, Nat.add_zero] at this
      rw [this]

/-- A number that is small is read up to a character that is neither a digit nor an `x`. -/
theorem strUint_text {x : Number} (h : x.Valid) (hsmall : x.value ≤ maxSigOffset) {e : UInt8}
    (he : isXDigit e = false) (hex : isX e = false) (tl : List UInt8) :
    strUint (x.text ++ e :: tl) = some (x.coded, e :: tl) := by
  have hcoded : x.coded < 0x10000000 := ((coded_le h).trans hsmall).trans_lt (by decide)
  simp only [isXDigit, Bool.or_eq_false_iff, Bool.and_eq_false_iff, decide_eq_false_iff_not] at he
  cases x with
  | dec digits =>
    have hdec : strUintDec (digits ++ e :: tl) = some (numberFrom 10 digitValue 0 digits, e :: tl) := by
      refine strUintDigits_digits (by decide) (fun c hc => decDigit_eq (h.2 c hc)) ?_ tl hcoded
      exact if_neg (not_and_or.mpr he.1.1)
    cases digits with
    | nil => exact absurd rfl h.1
    | cons c digits =>
      rw [text, coded, ← hdec, cons_append, strUint.eq_def]
      simp only
      split
      · cases digits with
        | nil => simp only [nil_append, hex, Bool.false_eq_true, if_false]
        | cons d digits =>
          have hd := h.2 d (mem_cons_of_mem _ mem_cons_self)
          have hdx : isX d = false := by
            simp only [isX, Bool.or_eq_false_iff, decide_eq_false_iff_not]
            constructor
            · rintro rfl
              exact absurd hd.2 (by decide)
            · rintro rfl
              exact absurd hd.2 (by decide)
          simp only [cons_append, hdx, Bool.false_eq_true, if_false]
      · rfl
  | hex x digits =>
    rw [text, coded, cons_append, cons_append, strUint.eq_def]
    simp only [if_true, h.1]
    refine strUintDigits_digits (by decide) (fun c hc => hexDigit_eq (h.2.2 c hc)) ?_ tl hcoded
    rw [hexDigit, if_neg (not_and_or.mpr he.1.1), if_neg (not_and_or.mpr he.1.2), if_neg (not_and_or.mpr he.2)]

end Number

/-! ## Parts -/

theorem store_eq {tmp : List UInt8} (h : tmp.length < maxSigSize) (c : UInt8) (next : List UInt8 → Loading) :
    store tmp c next = next (tmp ++ [c]) := if_pos h

theorem loadChar_text {l : Letter} (h : l.Valid 0) {tmp : List UInt8} (htmp : tmp.length < maxSigSize)
    (q : List UInt8) : loadChar tmp (l.text ++ 0x27 :: q) = some (some (tmp ++ [l.value], q)) := by
  cases l with
  | raw c =>
    obtain ⟨hnul, -, hback, -⟩ := h
    rw [Letter.text, singleton_append, loadChar.eq_def]
    simp only [if_neg hnul, if_neg hback, store_eq htmp, closeChar, if_true, Letter.value]
  | escaped c =>
    rw [Letter.text, cons_append, singleton_append, loadChar.eq_def]
    simp only [if_neg h.1, store_eq htmp, closeChar, if_true, Letter.value, if_neg (by decide : (0x5C : UInt8) ≠ 0)]

theorem loadString_text {ls : List Letter} (h : ∀ l ∈ ls, l.Valid 0x22) {tmp : List UInt8}
    (htmp : tmp.length + ls.length ≤ maxSigSize) (q : List UInt8) :
    loadString tmp (ls.flatMap Letter.text ++ 0x22 :: q) = some (some (tmp ++ ls.map Letter.value, q)) := by
  induction ls generalizing tmp with
  | nil =>
    rw [flatMap_nil, nil_append, map_nil, append_nil, loadString.eq_def]
    exact if_pos rfl
  | cons l ls ih =>
    rw [length_cons] at htmp
    have hlt : tmp.length < maxSigSize := by omega
    have hroom : (tmp ++ [l.value]).length + ls.length ≤ maxSigSize := by
      rw [length_append, length_singleton]
      omega
    have hrest := ih (fun l hl => h l (mem_cons_of_mem _ hl)) hroom
    rw [flatMap_cons, append_assoc, map_cons, append_cons tmp l.value, loadString.eq_def]
    have hl := h l mem_cons_self
    cases l with
    | raw c =>
      obtain ⟨hnul, -, hback, hquote⟩ := hl
      simp only [Letter.text, singleton_append, if_neg hquote, if_neg hnul, if_neg (Nat.not_le.mpr hlt), if_neg hback,
        store_eq hlt]
      exact hrest
    | escaped c =>
      simp only [Letter.text, cons_append, nil_append, if_neg (Nat.not_le.mpr hlt), if_neg hl.1, store_eq hlt,
        if_neg (by decide : (0x5C : UInt8) ≠ 0x22), if_neg (by decide : (0x5C : UInt8) ≠ 0), if_true]
      exact hrest

theorem loadHex1_eq {c : UInt8} (h : isXDigit c = true) : loadHex1 c = digitValue c ∧ digitValue c < 16 := by
  have hcases := isXDigit_iff.mp h
  rw [loadHex1, digitValue]
  simp only [UInt8.le_iff_toNat_le, UInt8.toNat_ofNat]
  rcases hcases with hc | hc | hc
  · rw [if_pos (by omega), if_pos (by omega), UInt8.toNat_sub_of_le c 0x30 (UInt8.le_iff_toNat_le.mpr hc.1),
      show (0x30 : UInt8).toNat = 0x30 from rfl]
    omega
  · rw [if_neg (by omega), if_pos (by omega), if_neg (by omega),
      UInt8.toNat_sub_of_le c 0x41 (UInt8.le_iff_toNat_le.mpr hc.1), show (0x41 : UInt8).toNat = 0x41 from rfl]
    omega
  · rw [if_neg (by omega), if_neg (by omega), if_pos (by omega), if_neg (by omega),
      UInt8.toNat_sub_of_le c 0x61 (UInt8.le_iff_toNat_le.mpr hc.1), show (0x61 : UInt8).toNat = 0x61 from rfl]
    omega

/-- No pair of digits begins here. -/
def NoPair (q : List UInt8) : Prop :=
  ∃ c p, q = c :: p ∧ (isXDigit c = true → ∃ d p', p = d :: p' ∧ isXDigit d = false)

theorem loadHex_noPair {q : List UInt8} (h : NoPair q) (tmp : List UInt8) : loadHex tmp q = some (some (tmp, q)) := by
  obtain ⟨c, p, rfl, hc⟩ := h
  rw [loadHex.eq_def]
  simp only
  split
  · next hdigit =>
    obtain ⟨d, p', rfl, hd⟩ := hc hdigit
    simp only [hd, Bool.false_eq_true, if_false]
  · rfl

theorem loadHex_text {pairs : List (UInt8 × UInt8)} (h : ∀ p ∈ pairs, isXDigit p.1 = true ∧ isXDigit p.2 = true)
    {tmp q : List UInt8} (htmp : tmp.length + pairs.length ≤ maxSigSize) (hq : NoPair q) :
    loadHex tmp ((pairs.flatMap fun p => [p.1, p.2]) ++ q) =
      some (some (tmp ++ pairs.map fun p => UInt8.ofNat (digitValue p.1 * 16 + digitValue p.2), q)) := by
  induction pairs generalizing tmp with
  | nil =>
    rw [flatMap_nil, nil_append, map_nil, append_nil]
    exact loadHex_noPair hq tmp
  | cons p pairs ih =>
    rw [length_cons] at htmp
    have hlt : tmp.length < maxSigSize := by omega
    obtain ⟨h₁, h₂⟩ := h p mem_cons_self
    obtain ⟨hv₁, hlt₁⟩ := loadHex1_eq h₁
    obtain ⟨hv₂, hlt₂⟩ := loadHex1_eq h₂
    have hval : loadHex2 p.1 p.2 = digitValue p.1 * 16 + digitValue p.2 := by
      rw [loadHex2, hv₁, hv₂, if_neg (by omega)]
    rw [flatMap_cons, append_assoc, map_cons, append_cons, loadHex.eq_def]
    simp only [cons_append, nil_append, h₁, h₂, if_true, if_neg (Nat.not_le.mpr hlt), hval, store_eq hlt,
      if_neg (by omega : ¬ 0x100 ≤ digitValue p.1 * 16 + digitValue p.2)]
    exact ih (fun p hp => h p (mem_cons_of_mem _ hp)) (by rw [length_append, length_singleton]; omega)

/-- A part is loaded up to its end. -/
theorem loadPart_text {p : Part} (h : p.Valid) {tmp q : List UInt8} (htmp : tmp.length < maxSigSize)
    (hbytes : tmp.length + p.bytes.length ≤ maxSigSize) (hq : NoPair q) :
    ∃ c r, p.text = c :: r ∧ ¬ (c = 0x0A ∨ c = 0) ∧ loadPart tmp c (r ++ q) = some (some (tmp ++ p.bytes, q)) := by
  cases p with
  | char l =>
    refine ⟨0x27, l.text ++ [0x27], rfl, by decide, ?_⟩
    rw [append_assoc]
    exact loadChar_text h htmp q
  | string ls =>
    refine ⟨0x22, ls.flatMap Letter.text ++ [0x22], rfl, by decide, ?_⟩
    rw [append_assoc]
    rw [Part.bytes, length_map] at hbytes
    exact loadString_text h hbytes q
  | hex x pairs =>
    refine ⟨0x30, x :: pairs.flatMap fun p => [p.1, p.2], rfl, by decide, ?_⟩
    rw [Part.bytes, length_map] at hbytes
    exact (if_pos h.1).trans (loadHex_text h.2.2 hbytes hq)
  | space c =>
    have hspace : isSpace c = true := h
    refine ⟨c, [], rfl, ?_, ?_⟩
    · rintro (rfl | rfl) <;> cases hspace
    · rw [Part.bytes, append_nil]
      exact if_pos hspace

/-- What comes behind a part is no pair of digits. -/
theorem noPair_parts {ps : List Part} (h : ∀ p ∈ ps, p.Valid) {e : UInt8} (he : isXDigit e = false) (tl : List UInt8) :
    NoPair (ps.flatMap Part.text ++ e :: tl) := by
  have hof {c : UInt8} {p : List UInt8} (hc : isXDigit c = false) : NoPair (c :: p) :=
    ⟨c, p, rfl, fun h => by rw [hc] at h; cases h⟩
  cases ps with
  | nil => exact hof he
  | cons p ps =>
    have hp := h p mem_cons_self
    rw [flatMap_cons]
    cases p with
    | char l => exact hof rfl
    | string ls => exact hof rfl
    | hex x pairs =>
      refine ⟨0x30, _, rfl, fun _ => ⟨x, _, rfl, ?_⟩⟩
      have hx : isX x = true := hp.1
      simp only [isX, Bool.or_eq_true, decide_eq_true_eq] at hx
      rcases hx with rfl | rfl <;> rfl
    | space c =>
      have hc : isSpace c = true := hp
      simp only [isSpace, Bool.or_eq_true, decide_eq_true_eq] at hc
      refine hof ?_
      rcases hc with ((rfl | rfl) | rfl) | rfl <;> rfl

/-- The parts of a magic are loaded up to the end of the line. -/
theorem loadParts_text {ps : List Part} (h : ∀ p ∈ ps, p.Valid) {e : UInt8} (he : e = 0x0A ∨ e = 0)
    (tl : List UInt8) (tmp : List UInt8) (hbytes : tmp.length + (ps.flatMap Part.bytes).length ≤ maxSigSize)
    (hfits : tmp.length + (ps.flatMap Part.bytes).length = maxSigSize → ∀ p ∈ ps.getLast?, p.bytes ≠ [])
    {fuel : ℕ} (hfuel : (ps.flatMap Part.text).length < fuel) :
    loadParts fuel tmp (ps.flatMap Part.text ++ e :: tl) = some (some (tmp ++ ps.flatMap Part.bytes, e :: tl)) := by
  induction ps generalizing tmp fuel with
  | nil =>
    cases fuel with
    | zero => cases hfuel
    | succ fuel =>
      rw [flatMap_nil, nil_append, flatMap_nil, append_nil]
      exact if_pos he
  | cons p ps ih =>
    rw [flatMap_cons, length_append] at hbytes
    have hend : isXDigit e = false := by rcases he with rfl | rfl <;> rfl
    have hlt : tmp.length < maxSigSize := by
      -- a part without bytes is not the last one of a full signature
      refine Nat.lt_of_le_of_ne (by omega) fun hfull => ?_
      have hnil : ((p :: ps).flatMap Part.bytes).length = 0 := by
        rw [flatMap_cons, length_append]
        omega
      obtain ⟨last, hlast⟩ := getLast?_isSome.mpr (cons_ne_nil p ps) |> Option.isSome_iff_exists.mp
      refine hfits (by omega) last hlast (length_eq_zero_iff.mp (Nat.le_zero.mp ?_))
      exact hnil ▸ (sublist_flatten_of_mem (mem_map_of_mem (mem_of_getLast? hlast))).length_le
    obtain ⟨c, r, htext, hne, hload⟩ := loadPart_text (q := ps.flatMap Part.text ++ e :: tl) (h p mem_cons_self) hlt
      (by omega) (noPair_parts (fun p hp => h p (mem_cons_of_mem _ hp)) hend tl)
    rw [flatMap_cons, length_append, htext, length_cons] at hfuel
    cases fuel with
    | zero => cases hfuel
    | succ fuel =>
      have hshort : (ps.flatMap Part.text).length < fuel := by omega
      have hrest := ih (fun p hp => h p (mem_cons_of_mem _ hp)) (tmp ++ p.bytes) (by rw [length_append]; omega)
        (fun hfull q hq => by
          rw [length_append] at hfull
          refine hfits (by rw [flatMap_cons, length_append]; omega) q ?_
          rw [getLast?_cons, Option.mem_def.mp hq]
          rfl) hshort
      rw [flatMap_cons, append_assoc, htext, cons_append, loadParts, if_neg hne, if_neg (Nat.not_le.mpr hlt), hload,
        Option.bind_some, Option.elim_some, flatMap_cons, ← append_assoc]
      exact hrest

/-! ## A line -/

/-- The signature that the code registers for a line. -/
def SigLine.coded (a : SigLine) : Signature := ⟨a.ext, a.offset.coded, a.bytes⟩

theorem Number.text_eq_cons {x : Number} (h : x.Valid) : ∃ c r, x.text = c :: r ∧ isBlank c = false := by
  cases x with
  | dec digits =>
    obtain ⟨c, digits, rfl⟩ := exists_cons_of_ne_nil h.1
    refine ⟨c, digits, rfl, ?_⟩
    have hc := (h.2 c mem_cons_self).1
    rw [isBlank, Bool.or_eq_false_iff, decide_eq_false_iff_not, decide_eq_false_iff_not]
    constructor
    · rintro rfl
      exact absurd hc (by decide)
    · rintro rfl
      exact absurd hc (by decide)
  | hex x digits => exact ⟨0x30, _, rfl, rfl⟩

/-- What is behind an offset cannot be taken for a part of it. -/
theorem SigLine.Valid.magic_eq_cons {a : SigLine} (h : a.Valid) :
    ∃ c r, a.magic.flatMap Part.text = c :: r ∧ isXDigit c = false ∧ isX c = false := by
  have hmagic : a.magic ≠ [] := fun hnil => h.bytes_ne_nil (by rw [SigLine.bytes, hnil, flatMap_nil])
  obtain ⟨p, ps, hp⟩ := exists_cons_of_ne_nil hmagic
  have hends := h.offset_ends p (by rw [hp]; rfl)
  have hvalid := h.parts_valid p (hp ▸ mem_cons_self)
  rw [hp, flatMap_cons]
  cases p with
  | char l => exact ⟨0x27, _, rfl, rfl, rfl⟩
  | string ls => exact ⟨0x22, _, rfl, rfl, rfl⟩
  | hex x pairs => cases hends
  | space c =>
    have hc : isSpace c = true := hvalid
    simp only [isSpace, Bool.or_eq_true, decide_eq_true_eq] at hc
    refine ⟨c, _, rfl, ?_, ?_⟩
    · rcases hc with ((rfl | rfl) | rfl) | rfl <;> rfl
    · rcases hc with ((rfl | rfl) | rfl) | rfl <;> rfl

/-- A well-formed line registers one signature, and the cursor is behind it. -/
theorem parseSignatureLine_text {a : SigLine} (h : a.Valid) (hfits : a.Fits) {e : UInt8} (he : e = 0x0A ∨ e = 0)
    (tl : List UInt8) : parseSignatureLine (a.text ++ e :: tl) =
      some (some a.coded, if e = 0x0A then tl else e :: tl) := by
  obtain ⟨b, bs, hblanks⟩ := exists_cons_of_ne_nil h.blanks_ne_nil
  have hb : isBlank b = true := h.blanks_chars b (hblanks ▸ mem_cons_self)
  have hbs (c : UInt8) (hc : c ∈ bs) : (!isBlank c) = false := by
    rw [h.blanks_chars c (hblanks ▸ mem_cons_of_mem _ hc)]
    rfl
  obtain ⟨d, ds, hoffset, hd⟩ := Number.text_eq_cons h.offset_valid
  obtain ⟨m, ms, hmagic, hm, hmx⟩ := h.magic_eq_cons
  have hsmall : a.offset.value ≤ maxSigOffset := (Nat.le_add_right _ _).trans h.end_le
  have hext : scan endsExtension (a.text ++ e :: tl) =
      some (a.ext, b :: (bs ++ (a.offset.text ++ (a.magic.flatMap Part.text ++ e :: tl)))) := by
    rw [SigLine.text, hblanks]
    simp only [append_assoc, cons_append]
    exact scan_append h.ext_chars (by rw [endsExtension, hb]; rfl) _
  have hskip : scan (!isBlank ·) (bs ++ (a.offset.text ++ (a.magic.flatMap Part.text ++ e :: tl))) =
      some (bs, a.offset.text ++ (a.magic.flatMap Part.text ++ e :: tl)) := by
    rw [hoffset, cons_append]
    exact scan_append hbs (by rw [hd]; rfl) _
  have hnumber : strUint (a.offset.text ++ (a.magic.flatMap Part.text ++ e :: tl)) =
      some (a.offset.coded, a.magic.flatMap Part.text ++ e :: tl) := by
    rw [hmagic]
    exact Number.strUint_text h.offset_valid hsmall hm hmx _
  have hload : loadSignature (a.magic.flatMap Part.text ++ e :: tl) = some (a.bytes, e :: tl) := by
    rw [loadSignature, loadParts_text h.parts_valid he tl [] (by rw [length_nil, Nat.zero_add]; exact h.bytes_le)
      (by rw [length_nil, Nat.zero_add]; exact hfits) (by rw [length_append, length_cons]; omega)]
    rfl
  have hcoded := Number.coded_le h.offset_valid
  have hend := h.end_le
  rw [parseSignatureLine, hext]
  simp only [Option.bind_some, hb, if_true, parseOffset, hskip, hnumber, hload, Option.bind_eq_bind,
    if_neg (Nat.not_lt.mpr (hcoded.trans hsmall)), if_neg h.bytes_ne_nil, if_pos ((Nat.add_le_add_right hcoded _).trans hend),
    head?_cons, tail_cons, Option.some.injEq, SigLine.coded]

/-! ## A harmless line -/

/-- The rest of a harmless line. -/
structure Plain (u : List UInt8) : Prop extends Harmless u where
  nul : 0 ∉ u
  newline : 0x0A ∉ u

theorem Plain.suffix {u v : List UInt8} (h : Plain u) (hv : v <:+ u) : Plain v where
  quote hc := h.quote (hv.subset hc)
  doubleQuote hc := h.doubleQuote (hv.subset hc)
  hex x hx hc := h.hex x hx (hc.trans hv.isInfix)
  nul hc := h.nul (hv.subset hc)
  newline hc := h.newline (hv.subset hc)

section Plain

variable {u : List UInt8} {e : UInt8} {tl : List UInt8}

/-- A scan stops in the line. -/
theorem scan_line (stop : UInt8 → Bool) (he : stop e = true) (u tl : List UInt8) :
    ∃ text v, u = text ++ v ∧ scan stop (u ++ e :: tl) = some (text, v ++ e :: tl) ∧ ∀ c ∈ v.head?, stop c = true := by
  induction u with
  | nil => exact ⟨[], [], rfl, if_pos he, nofun⟩
  | cons c u ih =>
    by_cases hc : stop c = true
    · exact ⟨[], c :: u, rfl, if_pos hc, fun d hd => Option.some.inj hd ▸ hc⟩
    · obtain ⟨text, v, rfl, hscan, hv⟩ := ih
      exact ⟨c :: text, v, rfl, by rw [cons_append, scan, if_neg hc, hscan]; rfl, hv⟩

theorem strUintDec_line (he : decDigit e = none) (u tl : List UInt8) (n : ℕ) :
    ∃ k v, strUintDigits 10 decDigit n (u ++ e :: tl) = some (k, v ++ e :: tl) ∧ v <:+ u := by
  induction u generalizing n with
  | nil => exact ⟨n, [], by rw [nil_append, strUintDigits, he], suffix_rfl⟩
  | cons c u ih =>
    rw [cons_append, strUintDigits]
    cases decDigit c with
    | none => exact ⟨n, c :: u, rfl, suffix_rfl⟩
    | some d =>
      simp only
      split
      · exact ⟨_, c :: u, rfl, suffix_rfl⟩
      · obtain ⟨k, v, hread, hv⟩ := ih (n * 10 + d)
        exact ⟨k, v, hread, hv.trans (suffix_cons c u)⟩

theorem Plain.strUint (h : Plain u) (he : e = 0x0A ∨ e = 0) (tl : List UInt8) :
    ∃ n v, SignatureFile.strUint (u ++ e :: tl) = some (n, v ++ e :: tl) ∧ v <:+ u := by
  have hdigit : decDigit e = none := by rcases he with rfl | rfl <;> rfl
  cases u with
  | nil =>
    rw [nil_append, SignatureFile.strUint.eq_def]
    simp only
    rw [if_neg (by rcases he with rfl | rfl <;> decide)]
    exact strUintDec_line hdigit [] tl 0
  | cons c u =>
    rw [cons_append, SignatureFile.strUint.eq_def]
    simp only
    by_cases hc : c = 0x30
    · rw [if_pos hc]
      subst hc
      obtain ⟨x, r, hx, hxr⟩ : ∃ x r, isX x = false ∧ u ++ e :: tl = x :: r := by
        cases u with
        | nil => exact ⟨e, tl, by rcases he with rfl | rfl <;> rfl, rfl⟩
        | cons x u =>
          refine ⟨x, u ++ e :: tl, ?_, rfl⟩
          rw [← Bool.not_eq_true]
          intro hx
          exact h.hex x hx (List.prefix_append [0x30, x] u).isInfix
      rw [hxr]
      simp only [hx, Bool.false_eq_true, if_false]
      rw [← hxr]
      exact strUintDec_line hdigit (0x30 :: u) tl 0
    · rw [if_neg hc]
      exact strUintDec_line hdigit (c :: u) tl 0

theorem Plain.loadParts (h : Plain u) (he : e = 0x0A ∨ e = 0) (tl : List UInt8) {fuel : ℕ} (hfuel : u.length < fuel) :
    SignatureFile.loadParts fuel [] (u ++ e :: tl) = some none ∨
      SignatureFile.loadParts fuel [] (u ++ e :: tl) = some (some ([], e :: tl)) := by
  induction u generalizing fuel with
  | nil =>
    cases fuel with
    | zero => cases hfuel
    | succ fuel => exact .inr (if_pos he)
  | cons c u ih =>
    cases fuel with
    | zero => cases hfuel
    | succ fuel =>
      have hend : ¬ (c = 0x0A ∨ c = 0) := by
        rintro (rfl | rfl)
        · exact h.newline mem_cons_self
        · exact h.nul mem_cons_self
      have hquote : c ≠ 0x27 := fun hc => h.quote (hc ▸ mem_cons_self)
      have hdouble : c ≠ 0x22 := fun hc => h.doubleQuote (hc ▸ mem_cons_self)
      rw [cons_append, SignatureFile.loadParts, if_neg hend, if_neg (by decide : ¬ maxSigSize ≤ ([] : List UInt8).length),
        loadPart.eq_def, if_neg hquote, if_neg hdouble]
      split
      · exact ih (h.suffix (suffix_cons c u)) (Nat.lt_of_succ_lt_succ hfuel)
      · split
        · next hc =>
          subst hc
          left
          cases u with
          | nil =>
            simp only [nil_append]
            rcases he with rfl | rfl <;> rfl
          | cons x u =>
            have hx : isX x = false := by
              rw [← Bool.not_eq_true]
              intro hx
              exact h.hex x hx (List.prefix_append [0x30, x] u).isInfix
            simp only [cons_append, hx, Bool.false_eq_true, if_false, Option.bind_some, Option.elim_none]
        · exact .inl rfl

theorem Plain.loadSignature (h : Plain u) (he : e = 0x0A ∨ e = 0) (tl : List UInt8) :
    ∃ v, SignatureFile.loadSignature (u ++ e :: tl) = some ([], v ++ e :: tl) ∧ v <:+ u := by
  rw [SignatureFile.loadSignature]
  have hfuel : u.length < (u ++ e :: tl).length := by
    rw [length_append, length_cons]
    omega
  rcases h.loadParts he tl hfuel with hload | hload
  · exact ⟨u, by rw [hload]; rfl, suffix_rfl⟩
  · exact ⟨[], by rw [hload]; rfl, nil_suffix⟩

theorem Plain.parseOffset (h : Plain u) (he : e = 0x0A ∨ e = 0) (tl ext : List UInt8) :
    ∃ v, SignatureFile.parseOffset ext (u ++ e :: tl) = some (none, v ++ e :: tl) ∧ v <:+ u := by
  have hblank : (!isBlank e) = true := by rcases he with rfl | rfl <;> rfl
  obtain ⟨text, v, rfl, hscan, -⟩ := scan_line (!isBlank ·) hblank u tl
  have hv := suffix_append text v
  obtain ⟨n, w, hnumber, hw⟩ := (h.suffix hv).strUint he tl
  obtain ⟨y, hload, hy⟩ := (h.suffix (hw.trans hv)).loadSignature he tl
  simp only [SignatureFile.parseOffset, hscan, hnumber, hload, Option.bind_eq_bind, Option.bind_some, if_true]
  split
  · exact ⟨w, rfl, hw.trans hv⟩
  · exact ⟨y, rfl, (hy.trans hw).trans hv⟩

/-- A harmless line registers nothing, and the cursor stays in it. -/
theorem Plain.parseSignatureLine {c : UInt8} (h : Plain (c :: u)) (hc : isNewline c = false) (he : e = 0x0A ∨ e = 0)
    (tl : List UInt8) :
    ∃ v, SignatureFile.parseSignatureLine (c :: u ++ e :: tl) = some (none, v ++ e :: tl) ∧ v <:+ u := by
  have hend : endsExtension e = true := by rcases he with rfl | rfl <;> rfl
  have hblank : isBlank e = false := by rcases he with rfl | rfl <;> rfl
  obtain ⟨text, v, htext, hscan, hv⟩ := scan_line endsExtension hend (c :: u) tl
  have hsuffix : v <:+ c :: u := htext ▸ suffix_append text v
  rw [SignatureFile.parseSignatureLine, hscan, Option.bind_some]
  cases v with
  | nil => exact ⟨[], if_neg (by rw [hblank]; exact Bool.false_ne_true), nil_suffix⟩
  | cons d v =>
    have hd := hv d rfl
    have hvu : v <:+ u := by
      rcases suffix_cons_iff.mp hsuffix with heq | hdv
      · exact (cons.inj heq).2 ▸ suffix_rfl
      · exact (suffix_cons d v).trans hdv
    simp only [cons_append]
    split
    · obtain ⟨w, hparse, hw⟩ := (h.suffix ((suffix_cons d v).trans hsuffix)).parseOffset he tl text
      exact ⟨w, hparse, hw.trans hvu⟩
    · next hnb =>
      refine ⟨d :: v, rfl, ?_⟩
      -- the extension ends with the line, or before a carriage return
      rcases suffix_cons_iff.mp hsuffix with heq | hdv
      · obtain ⟨rfl, rfl⟩ := cons.inj heq
        have hd0 : d ≠ 0 := fun h0 => h.nul (h0 ▸ mem_cons_self)
        simp only [isNewline, Bool.or_eq_false_iff, decide_eq_false_iff_not] at hc
        simp [endsExtension, hnb, hd0, hc] at hd
      · exact hdv

end Plain

/-! ## All lines -/

/-- The text is parsed from the end of the comments on. -/
def ParsesLine (pos : List UInt8) (signatures : List Signature) : Prop :=
  ∃ ends p s q rest, scan (!isNewline ·) pos = some (ends, p) ∧ parseSignatureLine p = some (s, q) ∧ Parses q rest ∧
    signatures = s.toList ++ rest ∧ q.length ≤ pos.length ∧ (q.length < pos.length ∨ pos.head? = some 0)

section Whole

variable {pos tl u : List UInt8} {c e : UInt8} {signatures : List Signature}

theorem Parses.nil_of_nul (h : Parses (0 :: pos) signatures) : signatures = [] :=
  Option.some.inj ((h (pos.length + 2) (by rw [length_cons]; omega)).symm.trans (parses_nul pos _ (by rw [length_cons]; omega)))

theorem parsesLine_nul (pos : List UInt8) : ParsesLine (0 :: pos) [] :=
  ⟨[], 0 :: pos, none, 0 :: pos, [], rfl, rfl, parses_nul pos, rfl, le_rfl, .inr rfl⟩

/-- The end of a line is skipped. -/
theorem ParsesLine.newline (hc : isNewline c = true) (h : ParsesLine pos signatures) :
    ParsesLine (c :: pos) signatures := by
  obtain ⟨ends, p, s, q, rest, hscan, hline, hq, hsig, hle, -⟩ := h
  refine ⟨c :: ends, p, s, q, rest, ?_, hline, hq, hsig, Nat.le_succ_of_le hle, .inl (Nat.lt_succ_of_le hle)⟩
  rw [scan, hscan, hc]
  rfl

theorem ParsesLine.parses (hc : c ≠ 0) (hhash : c ≠ 0x23) (h : ParsesLine (c :: pos) signatures) :
    Parses (c :: pos) signatures := by
  obtain ⟨ends, p, s, q, rest, hscan, hline, hq, rfl, -, hlt⟩ := h
  exact .round hc (if_neg hhash) hscan hline (hlt.resolve_right fun h => hc (Option.some.inj h)) hq

theorem skipComments_text (hu : 0 ∉ u ∧ 0x0A ∉ u) (pos : List UInt8) :
    skipComments true (u ++ pos) = skipComments true pos := by
  induction u with
  | nil => rfl
  | cons c u ih =>
    simp only [mem_cons, not_or] at hu
    rw [cons_append, skipComments, if_neg (Ne.symm hu.1.1), if_neg (Ne.symm hu.2.1), ih ⟨hu.1.2, hu.2.2⟩]

/-- A comment is skipped with its line. -/
theorem Parses.comment (hu : 0 ∉ u ∧ 0x0A ∉ u) (h : Parses tl signatures) :
    Parses (0x23 :: (u ++ 0x0A :: tl)) signatures := by
  have hskip : skipComments false (0x23 :: (u ++ 0x0A :: tl)) = skipComments false tl := by
    rw [skipComments, if_pos rfl, skipComments_text hu]
    rfl
  intro fuel hfuel
  cases fuel with
  | zero => cases hfuel
  | succ fuel =>
    rw [length_cons, length_append, length_cons] at hfuel
    have hround := h (fuel + 1) (by omega)
    rw [parseSignatureFile, if_neg (by decide), parseRound, hskip]
    cases tl with
    | nil => cases hround
    | cons d tl =>
      by_cases hd : d = 0
      · subst hd
        rw [h.nil_of_nul]
        have hnul := parses_nul tl fuel (by omega)
        simp [skipComments, scan, isNewline, parseSignatureLine, endsExtension, isBlank, hnul]
      · rw [parseSignatureFile, if_neg hd] at hround
        exact hround

/-- A comment ends with the text. -/
theorem parses_lastComment (hu : 0 ∉ u ∧ 0x0A ∉ u) (tl : List UInt8) : Parses (0x23 :: (u ++ 0 :: tl)) [] := by
  intro fuel hfuel
  cases fuel with
  | zero => cases hfuel
  | succ fuel =>
    rw [parseSignatureFile, if_neg (by decide), parseRound, skipComments, if_pos rfl, skipComments_text hu]
    rfl

/-- What is behind a line: the end of the text, or other lines; `comments` says whether a comment may be the next. -/
def Follows (comments : Bool) (e : UInt8) (tl : List UInt8) (signatures : List Signature) : Prop :=
  (e = 0 ∧ signatures = []) ∨ (e = 0x0A ∧ Parses tl signatures ∧ (comments = false → ParsesLine tl signatures))

theorem Follows.isEnd {comments : Bool} (h : Follows comments e tl signatures) : e = 0x0A ∨ e = 0 :=
  h.elim (fun h => .inr h.1) fun h => .inl h.1

theorem parses_harmless (hu : Plain u) (h : Follows false e tl signatures) :
    Parses (u ++ e :: tl) signatures ∧ ParsesLine (u ++ e :: tl) signatures := by
  induction hn : u.length using Nat.strong_induction_on generalizing u with
  | h n ih =>
    cases u with
    | nil =>
      rcases h with ⟨rfl, rfl⟩ | ⟨rfl, -, hline⟩
      · exact ⟨parses_nul tl, parsesLine_nul tl⟩
      · have hline := (hline rfl).newline (c := 0x0A) rfl
        exact ⟨hline.parses (by decide) (by decide), hline⟩
    | cons c u =>
      have hline : ParsesLine (c :: u ++ e :: tl) signatures := by
        by_cases hc : isNewline c = true
        · exact (ih u.length (hn ▸ Nat.lt_succ_self _) (hu.suffix (suffix_cons c u)) rfl).2.newline hc
        · rw [Bool.not_eq_true] at hc
          obtain ⟨v, hparse, hv⟩ := hu.parseSignatureLine hc h.isEnd tl
          have hlen := hv.length_le
          have hrest := (ih v.length (hn ▸ Nat.lt_succ_of_le hlen) (hu.suffix (hv.trans (suffix_cons c u))) rfl).1
          refine ⟨[], c :: u ++ e :: tl, none, v ++ e :: tl, signatures, ?_, hparse, hrest, rfl, ?_, .inl ?_⟩
          · rw [cons_append, scan, hc]
            rfl
          all_goals
            simp only [length_append, length_cons]
            omega
      refine ⟨?_, hline⟩
      have hcu := not_or.mp (mem_cons.not.mp hu.nul)
      have hnu := not_or.mp (mem_cons.not.mp hu.newline)
      by_cases hhash : c = 0x23
      · subst hhash
        rcases h with ⟨rfl, rfl⟩ | ⟨rfl, htl, -⟩
        · exact parses_lastComment ⟨hcu.2, hnu.2⟩ tl
        · exact htl.comment ⟨hcu.2, hnu.2⟩
      · exact hline.parses (Ne.symm hcu.1) hhash

theorem SigLine.Valid.text_eq_cons {a : SigLine} (h : a.Valid) :
    ∃ c r, a.text = c :: r ∧ c ≠ 0 ∧ c ≠ 0x23 ∧ isNewline c = false := by
  obtain ⟨c, ext, hext⟩ := exists_cons_of_ne_nil h.ext_ne_nil
  have hc := h.ext_chars c (hext ▸ mem_cons_self)
  simp only [endsExtension, Bool.or_eq_false_iff, decide_eq_false_iff_not] at hc
  refine ⟨c, _, by rw [SigLine.text, hext, cons_append], hc.1.1.2, ?_, ?_⟩
  · rintro rfl
    exact h.no_comment (by rw [hext]; rfl)
  · simp only [isNewline, Bool.or_eq_false_iff, decide_eq_false_iff_not]
    exact ⟨hc.1.2, hc.2⟩

/-- A magic is not harmless. -/
theorem SigLine.Valid.not_harmless {a : SigLine} (h : a.Valid) : ¬ Harmless a.text := by
  intro hharm
  obtain ⟨b, hb⟩ := exists_mem_of_ne_nil _ h.bytes_ne_nil
  obtain ⟨p, hp, hbp⟩ := mem_flatMap.mp hb
  have hwithin : p.text <:+: a.text := by
    have hpart : p.text <:+: a.magic.flatMap Part.text := infix_of_mem_flatten (mem_map_of_mem hp)
    have hmagic : a.magic.flatMap Part.text <:+ a.text :=
      ((suffix_append ..).trans (suffix_append ..)).trans (suffix_append ..)
    exact hpart.trans hmagic.isInfix
  cases p with
  | char l => exact hharm.quote (hwithin.subset mem_cons_self)
  | string ls => exact hharm.doubleQuote (hwithin.subset mem_cons_self)
  | hex x pairs =>
    exact hharm.hex x (h.parts_valid _ hp).1 ((List.prefix_append [0x30, x] _).isInfix.trans hwithin)
  | space c => cases hbp

/-- A well-formed line is parsed, and what follows. -/
theorem parses_text {a : SigLine} (ha : a.Valid) (hfits : a.Fits) (h : Follows true e tl signatures) :
    Parses (a.text ++ e :: tl) (a.coded :: signatures) ∧ ParsesLine (a.text ++ e :: tl) (a.coded :: signatures) := by
  obtain ⟨c, r, htext, hc, hhash, hnewline⟩ := ha.text_eq_cons
  have hparse := parseSignatureLine_text ha hfits h.isEnd tl
  have hrest : Parses (if e = 0x0A then tl else e :: tl) signatures := by
    rcases h with ⟨rfl, rfl⟩ | ⟨rfl, htl, -⟩
    · exact parses_nul tl
    · exact htl
  have hlt : (if e = 0x0A then tl else e :: tl).length < (a.text ++ e :: tl).length := by
    rw [htext, cons_append, length_cons, length_append, length_cons]
    split
    · omega
    · rw [length_cons]
      omega
  have hline : ParsesLine (a.text ++ e :: tl) (a.coded :: signatures) := by
    refine ⟨[], a.text ++ e :: tl, _, _, signatures, ?_, hparse, hrest, rfl, hlt.le, .inl hlt⟩
    rw [htext, cons_append, scan, hnewline]
    rfl
  refine ⟨?_, hline⟩
  rw [htext] at hline ⊢
  exact hline.parses hc hhash

/-- A line in its place is parsed as what it is read as. -/
theorem parses_line {l : List UInt8} {ls : List (List UInt8)} {comments : Bool} (hl : 0 ∉ l ∧ 0x0A ∉ l)
    (h : InOrderFrom comments (l :: ls)) {o : Option SigLine} (ho : LineReads l o)
    (hrest : ∀ comments, InOrderFrom comments ls → Follows comments e tl signatures) :
    Parses (l ++ e :: tl) ((o.map SigLine.coded).toList ++ signatures) ∧
      (comments = false → ParsesLine (l ++ e :: tl) ((o.map SigLine.coded).toList ++ signatures)) := by
  rcases h with ⟨⟨a, ha⟩, hfits, hls⟩ | ⟨hhash, rfl, hls⟩ | ⟨hharm, hls⟩
  · cases o with
    | none => exact absurd ha (ho a)
    | some b =>
      obtain ⟨hb, rfl⟩ := ho
      obtain ⟨hparses, hline⟩ := parses_text hb (hfits b ⟨hb, rfl⟩) (hrest true hls)
      exact ⟨hparses, fun _ => hline⟩
  · refine ⟨?_, nofun⟩
    obtain ⟨u, rfl⟩ := head?_eq_some_iff.mp hhash
    have hu := not_or.mp (mem_cons.not.mp hl.1)
    have hu' := not_or.mp (mem_cons.not.mp hl.2)
    have hnone : o = none := by
      cases o with
      | none => rfl
      | some a =>
        obtain ⟨c, r, htext, -, hne, -⟩ := ho.1.text_eq_cons
        exact absurd (cons.inj (ho.2.symm.trans htext)).1.symm hne
    rw [hnone]
    rcases hrest true hls with ⟨rfl, rfl⟩ | ⟨rfl, htl, -⟩
    · exact parses_lastComment ⟨hu.2, hu'.2⟩ tl
    · exact htl.comment ⟨hu.2, hu'.2⟩
  · have hnone : o = none := by
      cases o with
      | none => rfl
      | some a => exact absurd (ho.2 ▸ hharm) ho.1.not_harmless
    rw [hnone]
    obtain ⟨hparses, hline⟩ := parses_harmless ⟨hharm, hl.1, hl.2⟩ (hrest false hls)
    exact ⟨hparses, fun _ => hline⟩

end Whole

theorem linesOf_of_not_mem {content : List UInt8} (h : 0x0A ∉ content) : linesOf content = [content] :=
  splitOnP_eq_singleton fun c hc => by
    rw [beq_eq_false_iff_ne]
    rintro rfl
    exact h hc

theorem linesOf_append_cons {l : List UInt8} (h : 0x0A ∉ l) (rest : List UInt8) :
    linesOf (l ++ 0x0A :: rest) = l :: linesOf rest :=
  splitOnP_append_cons_of_forall_mem (fun c hc => by
    rw [beq_eq_false_iff_ne]
    rintro rfl
    exact h hc) 0x0A rfl rest

/-- Lines in order register what the code reads in them. -/
theorem parses_lines {content : List UInt8} (hnul : 0 ∉ content) {comments : Bool}
    (h : InOrderFrom comments (linesOf content)) {as : List (Option SigLine)}
    (has : Forall₂ LineReads (linesOf content) as) :
    Parses (content ++ [0]) (as.reduceOption.map SigLine.coded) ∧
      (comments = false → ParsesLine (content ++ [0]) (as.reduceOption.map SigLine.coded)) := by
  induction hn : content.length using Nat.strong_induction_on generalizing content comments as with
  | h n ih =>
    by_cases hmem : 0x0A ∈ content
    · obtain ⟨l, rest, rfl, hl⟩ := eq_append_cons_of_mem hmem
      rw [linesOf_append_cons hl] at h has
      obtain ⟨o, os, ho, hos, rfl⟩ := forall₂_cons_left_iff.mp has
      simp only [mem_append, mem_cons, not_or] at hnul
      have hrest : ∀ comments, InOrderFrom comments (linesOf rest) →
          Follows comments 0x0A (rest ++ [0]) (os.reduceOption.map SigLine.coded) := fun comments hcomments =>
        .inr ⟨rfl, ih rest.length (by rw [← hn, length_append, length_cons]; omega) hnul.2.2 hcomments hos rfl⟩
      have hstep := parses_line ⟨hnul.1, hl⟩ h ho hrest
      rw [append_assoc, cons_append]
      cases o with
      | none => exact hstep
      | some a => exact hstep
    · rw [linesOf_of_not_mem hmem] at h has
      obtain ⟨o, os, ho, hos, rfl⟩ := forall₂_cons_left_iff.mp has
      obtain rfl := forall₂_nil_left_iff.mp hos
      have hrest : ∀ comments, InOrderFrom comments [] → Follows comments 0 [] [] := fun _ _ => .inl ⟨rfl, rfl⟩
      have hstep := parses_line ⟨hnul, hmem⟩ h ho hrest
      cases o with
      | none => exact hstep
      | some a => exact hstep

/-! ## The signatures of a file -/

/-- The signatures are those that the lines of the file denote, in their order. -/
def Registers (content : List UInt8) (signatures : List Signature) : Prop :=
  ∀ as, Forall₂ LineReads (linesOf content) as → signatures = as.reduceOption.map SigLine.denoted

theorem mem_of_forall₂ {α β : Type} {R : α → β → Prop} {l : List α} {l' : List β} (h : Forall₂ R l l') {b : β}
    (hb : b ∈ l') : ∃ a ∈ l, R a b := by
  induction h with
  | nil => cases hb
  | @cons a c l l' hac _ ih =>
    rcases mem_cons.mp hb with rfl | hb
    · exact ⟨a, mem_cons_self, hac⟩
    · obtain ⟨a, ha, hr⟩ := ih hb
      exact ⟨a, mem_cons_of_mem _ ha, hr⟩

/-- Each file is read as something. -/
theorem exists_lineReads (ls : List (List UInt8)) (l : List UInt8) {a : SigLine} (ha : a.Reads l) (hl : l ∈ ls) :
    ∃ as, Forall₂ LineReads ls as ∧ some a ∈ as := by
  classical
  refine ⟨ls.map fun l' => if l' = l then some a else
    if h : ∃ b : SigLine, b.Reads l' then some h.choose else none, ?_, ?_⟩
  · refine forall₂_map_right_iff.mpr (forall₂_same.mpr fun l' _ => ?_)
    split
    · next heq => exact heq ▸ ha
    · split
      · next h => exact h.choose_spec
      · next h => exact fun b hb => h ⟨b, hb⟩
  · exact mem_map.mpr ⟨l, hl, if_pos rfl⟩

theorem Part.length_bytes_le (p : Part) : p.bytes.length ≤ p.text.length := by
  have hletters (ls : List Letter) : ls.length ≤ (ls.flatMap Letter.text).length := by
    induction ls with
    | nil => exact le_rfl
    | cons l ls ih =>
      rw [flatMap_cons, length_append, length_cons, Nat.add_comm]
      exact Nat.add_le_add (by cases l <;> exact Nat.succ_pos _) ih
  cases p with
  | char l => exact Nat.succ_pos _
  | string ls =>
    simp only [Part.bytes, Part.text, length_map, length_cons, length_append]
    have := hletters ls
    omega
  | hex x pairs => simp [Part.bytes, Part.text]; omega
  | space c => exact Nat.zero_le _

/-- A line that is shorter than the largest signature fits. -/
theorem SigLine.fits_of_short {a : SigLine} {l : List UInt8} (ha : a.Reads l) (hl : l.length < maxSigSize) : a.Fits := by
  intro hfull
  have hle (ps : List Part) : (ps.flatMap Part.bytes).length ≤ (ps.flatMap Part.text).length := by
    induction ps with
    | nil => exact le_rfl
    | cons p ps ih =>
      rw [flatMap_cons, flatMap_cons, length_append, length_append]
      exact Nat.add_le_add p.length_bytes_le ih
  have hbytes := hle a.magic
  rw [← ha.2, SigLine.text, length_append, length_append, length_append] at hl
  rw [SigLine.bytes] at hfull
  omega

/-- An offset in hexadecimal begins with `0x`. -/
theorem SigLine.not_lettered {a : SigLine} {l : List UInt8} (ha : a.Reads l)
    (hl : ∀ x, isX x = true → ¬ [0x30, x] <:+: l) : ¬ a.offset.Lettered := by
  intro hlettered
  obtain ⟨ext, blanks, offset, magic⟩ := a
  cases offset with
  | dec digits => exact hlettered
  | hex x digits =>
    refine hl x ha.1.offset_valid.1 (ha.2 ▸ ⟨ext ++ blanks, digits ++ magic.flatMap Part.text, ?_⟩)
    simp [SigLine.text, Number.text]

/-- The line `a 12 'x'`. -/
def charLine : SigLine := ⟨[0x61], [0x20], .dec [0x31, 0x32], [.space 0x20, .char (.raw 0x78)]⟩

theorem reads_charLine : charLine.Reads [0x61, 0x20, 0x31, 0x32, 0x20, 0x27, 0x78, 0x27] where
  left := by
    constructor <;> simp [charLine, endsExtension, isBlank, Number.Valid, Part.Valid, Letter.Valid, Part.isHex, isSpace,
      SigLine.bytes, Part.bytes, maxSigSize, maxSigOffset, Number.value, numberFrom, digitValue]
  right := rfl

/-- The line `a 0xA 'x'`. -/
def letterLine : SigLine := ⟨[0x61], [0x20], .hex 0x78 [0x41], [.space 0x20, .char (.raw 0x78)]⟩

end RecoveryQt.SignatureFile
