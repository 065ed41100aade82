import Mathlib.Data.List.Basic
import Mathlib.Order.Nat

/-!
# The signature file

* `Signature`: what a line registers; `strUint`, `loadSignature`, `parseSignatureLine`, `parseSignatureFile`: the code,
  on the text from the cursor on, with the character that ends it;
* `Passes`: the cursor moves on, and not over a character of a kind;
* **`parseSignatureFile_ends`**: each text that ends is parsed, and nothing outside the buffers is looked at.
-/

namespace RecoveryQt.SignatureFile

open List

/-! ## The code

The cursor is what is left of the text. The result is `none` when a character behind the text is looked at, or one is
written behind the buffer of a signature. -/

/-- The arguments of `signature_insert`. -/
structure Signature where
  extension : List UInt8
  offset : ℕ
  sig : List UInt8
  deriving DecidableEq

/-- `PHOTOREC_MAX_SIG_OFFSET`. -/
def maxSigOffset : ℕ := 65535

/-- `PHOTOREC_MAX_SIG_SIZE`. -/
def maxSigSize : ℕ := 4095

/-- The digits of a number, up to a character that is none, or to the one that makes it large. -/
def strUintDigits (base : ℕ) (digit : UInt8 → Option ℕ) : ℕ → List UInt8 → Option (ℕ × List UInt8)
  | _, [] => none
  | res, c :: src =>
    match digit c with
    | none => some (res, c :: src)
    | some d =>
      if 0x10000000 ≤ res * base + d then some (res * base + d, c :: src)
      else strUintDigits base digit (res * base + d) src

/-- A decimal digit. -/
def decDigit (c : UInt8) : Option ℕ := if 0x30 ≤ c ∧ c ≤ 0x39 then some (c - 0x30).toNat else none

/-- A hexadecimal digit, where a letter counts from its first one. -/
def hexDigit (c : UInt8) : Option ℕ :=
  if 0x30 ≤ c ∧ c ≤ 0x39 then some (c - 0x30).toNat
  else if 0x41 ≤ c ∧ c ≤ 0x46 then some (c - 0x41).toNat
  else if 0x61 ≤ c ∧ c ≤ 0x66 then some (c - 0x61).toNat
  else none

/-- `str_uint_hex`. -/
def strUintHex : List UInt8 → Option (ℕ × List UInt8) := strUintDigits 16 hexDigit 0

/-- `str_uint_dec`. -/
def strUintDec : List UInt8 → Option (ℕ × List UInt8) := strUintDigits 10 decDigit 0

/-- The `x` of a hexadecimal number. -/
def isX (c : UInt8) : Bool := c = 0x78 || c = 0x58

/-- `str_uint`. -/
def strUint : List UInt8 → Option (ℕ × List UInt8)
  | [] => none
  | c :: src =>
    if c = 0x30 then
      match src with
      | [] => none
      | x :: src => if isX x then strUintHex src else strUintDec (c :: x :: src)
    else strUintDec (c :: src)

/-- `escaped_char`. -/
def escapedChar (c : UInt8) : UInt8 :=
  if c = 0x62 then 0x08
  else if c = 0x6E then 0x0A
  else if c = 0x74 then 0x09
  else if c = 0x72 then 0x0D
  else if c = 0x30 then 0x00
  else c

/-- `load_hex1`. -/
def loadHex1 (c : UInt8) : ℕ :=
  if 0x30 ≤ c ∧ c ≤ 0x39 then (c - 0x30).toNat
  else if 0x41 ≤ c ∧ c ≤ 0x46 then (c - 0x41).toNat + 10
  else if 0x61 ≤ c ∧ c ≤ 0x66 then (c - 0x61).toNat + 10
  else 0x10

/-- `load_hex2`. -/
def loadHex2 (c₁ c₂ : UInt8) : ℕ :=
  if 0x10 ≤ loadHex1 c₁ ∨ 0x10 ≤ loadHex1 c₂ then 0x100 else loadHex1 c₁ * 16 + loadHex1 c₂

/-- `isxdigit`. -/
def isXDigit (c : UInt8) : Bool :=
  (0x30 ≤ c && c ≤ 0x39) || (0x41 ≤ c && c ≤ 0x46) || (0x61 ≤ c && c ≤ 0x66)

/-- A part of `load_signature`: the signature so far and the cursor, where `some none` is its `return 0`. -/
abbrev Loading := Option (Option (List UInt8 × List UInt8))

/-- `tmp[signature_size++] = c`. -/
def store (tmp : List UInt8) (c : UInt8) (next : List UInt8 → Loading) : Loading :=
  if tmp.length < maxSigSize then next (tmp ++ [c]) else none

/-- The second quote of a character. -/
def closeChar (tmp : List UInt8) : List UInt8 → Loading
  | [] => none
  | c :: pos => some (if c = 0x27 then some (tmp, pos) else none)

/-- A character, behind its first quote. -/
def loadChar (tmp : List UInt8) : List UInt8 → Loading
  | [] => none
  | c :: pos =>
    if c = 0 then some none
    else if c = 0x5C then
      match pos with
      | [] => none
      | e :: pos => if e = 0 then some none else store tmp (escapedChar e) (closeChar · pos)
    else store tmp c (closeChar · pos)

/-- A string, behind its first quote. -/
def loadString : List UInt8 → List UInt8 → Loading
  | _, [] => none
  | tmp, c :: pos =>
    if c = 0x22 then some (some (tmp, pos))
    else if c = 0 then some none
    else if maxSigSize ≤ tmp.length then some none
    else if c = 0x5C then
      match pos with
      | [] => none
      | e :: pos => if e = 0 then some none else store tmp (escapedChar e) (loadString · pos)
    else store tmp c (loadString · pos)

/-- Pairs of hexadecimal digits, behind the `x`. -/
def loadHex : List UInt8 → List UInt8 → Loading
  | _, [] => none
  | tmp, c₁ :: pos =>
    if isXDigit c₁ then
      match pos with
      | [] => none
      | c₂ :: pos =>
        if isXDigit c₂ then
          if maxSigSize ≤ tmp.length then some none
          else if 0x100 ≤ loadHex2 c₁ c₂ then some (some (tmp, c₁ :: c₂ :: pos))
          else store tmp (UInt8.ofNat (loadHex2 c₁ c₂)) (loadHex · pos)
        else some (some (tmp, c₁ :: c₂ :: pos))
    else some (some (tmp, c₁ :: pos))

/-- A blank between the parts of a signature. -/
def isSpace (c : UInt8) : Bool := c = 0x20 || c = 0x09 || c = 0x0D || c = 0x2C

/-- One part of a signature, which begins with `c`. -/
def loadPart (tmp : List UInt8) (c : UInt8) (pos : List UInt8) : Loading :=
  if isSpace c then some (some (tmp, pos))
  else if c = 0x27 then loadChar tmp pos
  else if c = 0x22 then loadString tmp pos
  else if c = 0x30 then
    match pos with
    | [] => none
    | x :: pos => if isX x then loadHex tmp pos else some none
  else some none

/-- The loop of `load_signature`, in at most `fuel` rounds. -/
def loadParts : ℕ → List UInt8 → List UInt8 → Loading
  | 0, _, _ => none
  | _, _, [] => none
  | fuel + 1, tmp, c :: pos =>
    if c = 0x0A ∨ c = 0 then some (some (tmp, c :: pos))
    else if maxSigSize ≤ tmp.length then some none
    else (loadPart tmp c pos).bind fun loaded => loaded.elim (some none) fun (tmp, pos) => loadParts fuel tmp pos

/-- `load_signature`: the signature, which is empty when it returns 0, and the cursor. -/
def loadSignature (pos : List UInt8) : Option (List UInt8 × List UInt8) :=
  (loadParts pos.length [] pos).map fun loaded => loaded.getD ([], pos)

/-- The characters up to one that `stop` is true of. -/
def scan (stop : UInt8 → Bool) : List UInt8 → Option (List UInt8 × List UInt8)
  | [] => none
  | c :: pos => if stop c then some ([], c :: pos) else (scan stop pos).map fun (text, pos) => (c :: text, pos)

/-- The blanks of a line. -/
def isBlank (c : UInt8) : Bool := c = 0x20 || c = 0x09

/-- What ends an extension. -/
def endsExtension (c : UInt8) : Bool := isBlank c || c = 0 || c = 0x0A || c = 0x0D

/-- The part of `parse_signature_line` behind the blank that ends the extension `ext`. -/
def parseOffset (ext pos : List UInt8) : Option (Option Signature × List UInt8) := do
  let (_, pos) ← scan (!isBlank ·) pos
  let (sigOffset, pos) ← strUint pos
  if maxSigOffset < sigOffset then some (none, pos)
  else do
    let (sig, pos) ← loadSignature pos
    if sig = [] then some (none, pos)
    else
      let pos := if pos.head? = some 0x0A then pos.tail else pos
      some (if sigOffset + sig.length ≤ maxSigOffset then some ⟨ext, sigOffset, sig⟩ else none, pos)

/-- `parse_signature_line`: the signature that it registers, and the cursor. -/
def parseSignatureLine (pos : List UInt8) : Option (Option Signature × List UInt8) :=
  (scan endsExtension pos).bind fun (ext, pos) =>
    match pos with
    | [] => none
    | c :: next => if isBlank c then parseOffset ext next else some (none, c :: next)

/-- The comments, from inside one or in front of one; `some none` when the text ends in one. -/
def skipComments : Bool → List UInt8 → Option (Option (List UInt8))
  | _, [] => none
  | false, c :: pos => if c = 0x23 then skipComments true pos else some (some (c :: pos))
  | true, c :: pos =>
    if c = 0 then some none
    else if c = 0x0A then skipComments false pos
    else skipComments true pos

/-- The ends of lines. -/
def isNewline (c : UInt8) : Bool := c = 0x0A || c = 0x0D

/-- A round of `parse_signature_file`, where `next` does the others. -/
def parseRound (next : List UInt8 → Option (List Signature)) (pos : List UInt8) : Option (List Signature) :=
  (skipComments false pos).bind fun skipped => skipped.elim (some []) fun pos => do
    let (_, pos) ← scan (!isNewline ·) pos
    let (signature, pos) ← parseSignatureLine pos
    let signatures ← next pos
    some (signature.toList ++ signatures)

/-- `parse_signature_file`: the signatures that are registered, in at most `fuel` rounds. -/
def parseSignatureFile : ℕ → List UInt8 → Option (List Signature)
  | 0, _ => none
  | _, [] => none
  | fuel + 1, c :: pos => if c = 0 then some [] else parseRound (parseSignatureFile fuel) (c :: pos)

/-! ## The cursor -/

/-- The cursor moves from `pos` to `p`, over nothing that ends the text. -/
def Passes (pos p : List UInt8) : Prop := ∃ used, pos = used ++ p ∧ 0 ∉ used

namespace Passes

variable {pos p q : List UInt8} {c : UInt8}

theorem refl (pos : List UInt8) : Passes pos pos := ⟨[], rfl, not_mem_nil⟩

theorem trans (h : Passes pos p) (h' : Passes p q) : Passes pos q := by
  obtain ⟨used, rfl, hused⟩ := h
  obtain ⟨used', rfl, hused'⟩ := h'
  exact ⟨used ++ used', (append_assoc ..).symm, by simp [hused, hused']⟩

theorem cons (hc : c ≠ 0) (h : Passes pos p) : Passes (c :: pos) p := by
  obtain ⟨used, rfl, hused⟩ := h
  exact ⟨c :: used, rfl, by simp [hused, hc.symm]⟩

theorem mem (h : Passes pos p) (hpos : 0 ∈ pos) : 0 ∈ p := by
  obtain ⟨used, rfl, hused⟩ := h
  exact (mem_append.mp hpos).resolve_left hused

theorem length_le (h : Passes pos p) : p.length ≤ pos.length := by
  obtain ⟨used, rfl, -⟩ := h
  rw [length_append]
  omega

/-- The cursor has moved when it is at another character. -/
theorem length_lt (h : Passes (c :: pos) p) (hne : p.head? ≠ some c) : p.length < (c :: pos).length := by
  obtain ⟨used, heq, -⟩ := h
  cases used with
  | nil => exact absurd (congrArg head? heq).symm hne
  | cons d used =>
    rw [heq, length_append, length_cons]
    omega

end Passes

/-- The text that is left does not begin with its end. -/
theorem mem_of_cons {c : UInt8} {pos : List UInt8} (h : 0 ∈ c :: pos) (hc : c ≠ 0) : 0 ∈ pos :=
  (mem_cons.mp h).resolve_left hc.symm

/-! ## Each part ends -/

/-- A function that moves the cursor. -/
def Moves {α : Type} (r : Option (α × List UInt8)) (pos : List UInt8) : Prop := ∃ a p, r = some (a, p) ∧ Passes pos p

theorem strUintDigits_moves (base : ℕ) {digit : UInt8 → Option ℕ} (hdigit : digit 0 = none) {pos : List UInt8}
    (hpos : 0 ∈ pos) (res : ℕ) : Moves (strUintDigits base digit res pos) pos := by
  induction pos generalizing res with
  | nil => cases hpos
  | cons c src ih =>
    rw [strUintDigits]
    cases hd : digit c with
    | none => exact ⟨res, c :: src, rfl, .refl _⟩
    | some d =>
      have hc : c ≠ 0 := by
        rintro rfl
        rw [hdigit] at hd
        cases hd
      simp only
      split
      · exact ⟨_, c :: src, rfl, .refl _⟩
      · obtain ⟨n, p, hr, hp⟩ := ih (mem_of_cons hpos hc) (res * base + d)
        exact ⟨n, p, hr, hp.cons hc⟩

theorem strUint_moves {pos : List UInt8} (hpos : 0 ∈ pos) : Moves (strUint pos) pos := by
  cases pos with
  | nil => cases hpos
  | cons c src =>
    rw [strUint.eq_def]
    simp only
    by_cases hc : c = 0x30
    · rw [if_pos hc]
      have hne : c ≠ 0 := hc ▸ by decide
      have hsrc := mem_of_cons hpos hne
      cases src with
      | nil => cases hsrc
      | cons x src =>
        simp only
        split
        · next hx =>
          have hxne : x ≠ 0 := by
            rintro rfl
            cases hx
          obtain ⟨n, p, hr, hp⟩ := strUintDigits_moves 16 (rfl : hexDigit 0 = none) (mem_of_cons hsrc hxne) 0
          exact ⟨n, p, hr, (hp.cons hxne).cons hne⟩
        · exact strUintDigits_moves _ rfl hpos 0
    · rw [if_neg hc]
      exact strUintDigits_moves _ rfl hpos 0

theorem scan_moves (stop : UInt8 → Bool) (hstop : stop 0 = true) {pos : List UInt8} (hpos : 0 ∈ pos) :
    ∃ text c p, scan stop pos = some (text, c :: p) ∧ Passes pos (c :: p) ∧ stop c = true := by
  induction pos with
  | nil => cases hpos
  | cons c pos ih =>
    rw [scan]
    split
    · next hc => exact ⟨[], c, pos, rfl, .refl _, hc⟩
    · next hc =>
      have hne : c ≠ 0 := by
        rintro rfl
        exact hc hstop
      obtain ⟨text, d, p, hr, hp, hd⟩ := ih (mem_of_cons hpos hne)
      exact ⟨c :: text, d, p, by rw [hr]; rfl, hp.cons hne, hd⟩

theorem scan_append {stop : UInt8 → Bool} {text : List UInt8} (htext : ∀ c ∈ text, stop c = false) {e : UInt8}
    (he : stop e = true) (p : List UInt8) : scan stop (text ++ e :: p) = some (text, e :: p) := by
  induction text with
  | nil => exact if_pos he
  | cons c text ih =>
    rw [cons_append, scan, htext c mem_cons_self, ih fun c hc => htext c (mem_cons_of_mem _ hc)]
    rfl

/-- A part of `load_signature` moves the cursor, and its signature fits. -/
def Loads (r : Loading) (pos : List UInt8) : Prop :=
  ∃ l, r = some l ∧ ∀ tmp p, l = some (tmp, p) → tmp.length ≤ maxSigSize ∧ Passes pos p

theorem Loads.failed (pos : List UInt8) : Loads (some none) pos := ⟨none, rfl, nofun⟩

theorem Loads.mk {tmp p pos : List UInt8} (htmp : tmp.length ≤ maxSigSize) (hp : Passes pos p) :
    Loads (some (some (tmp, p))) pos :=
  ⟨_, rfl, fun _ _ h => by cases h; exact ⟨htmp, hp⟩⟩

theorem Loads.cons {r : Loading} {pos : List UInt8} {c : UInt8} (hc : c ≠ 0) (h : Loads r pos) : Loads r (c :: pos) :=
  let ⟨l, hr, hl⟩ := h
  ⟨l, hr, fun tmp p htp => ⟨(hl tmp p htp).1, (hl tmp p htp).2.cons hc⟩⟩

theorem Loads.store {tmp pos : List UInt8} {c : UInt8} {next : List UInt8 → Loading} (htmp : tmp.length < maxSigSize)
    (h : ∀ tmp, tmp.length ≤ maxSigSize → Loads (next tmp) pos) : Loads (store tmp c next) pos := by
  rw [SignatureFile.store, if_pos htmp]
  exact h _ (by rw [length_append]; exact htmp)

theorem closeChar_loads {tmp pos : List UInt8} (htmp : tmp.length ≤ maxSigSize) (hpos : 0 ∈ pos) :
    Loads (closeChar tmp pos) pos := by
  cases pos with
  | nil => cases hpos
  | cons c pos =>
    rw [closeChar]
    by_cases hc : c = 0x27
    · rw [if_pos hc]
      exact .mk htmp (.cons (hc ▸ by decide) (.refl _))
    · rw [if_neg hc]
      exact .failed _

theorem loadChar_loads {tmp pos : List UInt8} (htmp : tmp.length < maxSigSize) (hpos : 0 ∈ pos) :
    Loads (loadChar tmp pos) pos := by
  cases pos with
  | nil => cases hpos
  | cons c pos =>
    rw [loadChar.eq_def]
    simp only
    split
    · exact .failed _
    · next hc =>
      have hpos := mem_of_cons hpos hc
      refine .cons hc ?_
      split
      · cases pos with
        | nil => cases hpos
        | cons e pos =>
          simp only
          split
          · exact .failed _
          · next he => exact .cons he (.store htmp fun _ h => closeChar_loads h (mem_of_cons hpos he))
      · exact .store htmp fun _ h => closeChar_loads h hpos

theorem loadString_loads {tmp pos : List UInt8} (htmp : tmp.length ≤ maxSigSize) (hpos : 0 ∈ pos) :
    Loads (loadString tmp pos) pos := by
  induction hn : pos.length using Nat.strong_induction_on generalizing tmp pos with
  | h n ih =>
    cases pos with
    | nil => cases hpos
    | cons c pos =>
      rw [loadString.eq_def]
      simp only
      rw [length_cons] at hn
      by_cases hquote : c = 0x22
      · rw [if_pos hquote]
        exact .mk htmp (.cons (hquote ▸ by decide) (.refl _))
      rw [if_neg hquote]
      by_cases hc : c = 0
      · rw [if_pos hc]
        exact .failed _
      rw [if_neg hc]
      have hpos := mem_of_cons hpos hc
      refine .cons hc ?_
      split
      · exact .failed _
      · next hfull =>
        have hlt : tmp.length < maxSigSize := Nat.lt_of_not_le hfull
        split
        · cases pos with
          | nil => cases hpos
          | cons e pos =>
            simp only
            rw [length_cons] at hn
            split
            · exact .failed _
            · next he =>
              exact .cons he (.store hlt fun _ h => ih pos.length (by omega) h (mem_of_cons hpos he) rfl)
        · exact .store hlt fun _ h => ih pos.length (by omega) h hpos rfl

theorem loadHex_loads {tmp pos : List UInt8} (htmp : tmp.length ≤ maxSigSize) (hpos : 0 ∈ pos) :
    Loads (loadHex tmp pos) pos := by
  induction hn : pos.length using Nat.strong_induction_on generalizing tmp pos with
  | h n ih =>
    cases pos with
    | nil => cases hpos
    | cons c₁ pos =>
      rw [loadHex.eq_def]
      simp only
      split
      · next h₁ =>
        have hc₁ : c₁ ≠ 0 := by
          rintro rfl
          cases h₁
        have hpos₁ := mem_of_cons hpos hc₁
        cases pos with
        | nil => cases hpos₁
        | cons c₂ pos =>
          simp only
          split
          · next h₂ =>
            have hc₂ : c₂ ≠ 0 := by
              rintro rfl
              cases h₂
            rw [length_cons, length_cons] at hn
            split
            · exact .failed _
            · next hfull =>
              split
              · exact .mk htmp (.refl _)
              · exact .cons hc₁ (.cons hc₂ (.store (Nat.lt_of_not_le hfull) fun _ h =>
                  ih pos.length (by omega) h (mem_of_cons hpos₁ hc₂) rfl))
          · exact .mk htmp (.refl _)
      · exact .mk htmp (.refl _)

theorem loadPart_loads {tmp pos : List UInt8} {c : UInt8} (htmp : tmp.length < maxSigSize) (hpos : 0 ∈ pos) :
    Loads (loadPart tmp c pos) pos := by
  rw [loadPart.eq_def]
  split
  · exact .mk htmp.le (.refl _)
  split
  · exact loadChar_loads htmp hpos
  split
  · exact loadString_loads htmp.le hpos
  split
  · cases pos with
    | nil => cases hpos
    | cons x pos =>
      simp only
      split
      · next hx =>
        have hxne : x ≠ 0 := by
          rintro rfl
          cases hx
        exact .cons hxne (loadHex_loads htmp.le (mem_of_cons hpos hxne))
      · exact .failed _
  · exact .failed _

theorem loadParts_loads {fuel : ℕ} {tmp pos : List UInt8} (hfuel : pos.length ≤ fuel) (htmp : tmp.length ≤ maxSigSize)
    (hpos : 0 ∈ pos) : Loads (loadParts fuel tmp pos) pos := by
  induction fuel generalizing tmp pos with
  | zero =>
    rw [length_eq_zero_iff.mp (Nat.le_zero.mp hfuel)] at hpos
    cases hpos
  | succ fuel ih =>
    cases pos with
    | nil => cases hpos
    | cons c pos =>
      rw [loadParts]
      split
      · exact .mk htmp (.refl _)
      · next hend =>
        have hc : c ≠ 0 := fun h => hend (.inr h)
        have hpos := mem_of_cons hpos hc
        split
        · exact .failed _
        · next hfull =>
          obtain ⟨l, hl, hlp⟩ := loadPart_loads (c := c) (Nat.lt_of_not_le hfull) hpos
          rw [hl, Option.bind_some]
          cases l with
          | none => exact .failed _
          | some part =>
            obtain ⟨htmp, hp⟩ := hlp part.1 part.2 rfl
            obtain ⟨l, hl, hlq⟩ := ih (hp.length_le.trans (Nat.le_of_succ_le_succ hfuel)) htmp (hp.mem hpos)
            exact .cons hc ⟨l, hl, fun tmp q htq => ⟨(hlq tmp q htq).1, hp.trans (hlq tmp q htq).2⟩⟩

theorem loadSignature_moves {pos : List UInt8} (hpos : 0 ∈ pos) : Moves (loadSignature pos) pos := by
  have htmp : ([] : List UInt8).length ≤ maxSigSize := Nat.zero_le _
  obtain ⟨l, hl, hlp⟩ := loadParts_loads le_rfl htmp hpos
  rw [loadSignature, hl]
  cases l with
  | none => exact ⟨[], pos, rfl, .refl _⟩
  | some part => exact ⟨part.1, part.2, rfl, (hlp part.1 part.2 rfl).2⟩

theorem parseOffset_moves (ext : List UInt8) {pos : List UInt8} (hpos : 0 ∈ pos) : Moves (parseOffset ext pos) pos := by
  obtain ⟨text, c, p, hscan, hp, -⟩ := scan_moves (!isBlank ·) rfl hpos
  obtain ⟨sigOffset, q, hoffset, hq⟩ := strUint_moves (hp.mem hpos)
  simp only [parseOffset, hscan, hoffset, Option.bind_eq_bind, Option.bind_some]
  split
  · exact ⟨none, q, rfl, hp.trans hq⟩
  · obtain ⟨sig, r, hsig, hr⟩ := loadSignature_moves (hq.mem (hp.mem hpos))
    have hr := (hp.trans hq).trans hr
    simp only [hsig, Option.bind_some]
    split
    · exact ⟨none, r, rfl, hr⟩
    · refine ⟨_, _, rfl, hr.trans ?_⟩
      split
      · next hnewline =>
        obtain ⟨tail, rfl⟩ := head?_eq_some_iff.mp hnewline
        exact .cons (by decide) (.refl _)
      · exact .refl _

/-- A line moves the cursor, unless it is at the end of the text or of a line. -/
theorem parseSignatureLine_moves {c : UInt8} {pos : List UInt8} (hpos : 0 ∈ c :: pos) :
    ∃ s p, parseSignatureLine (c :: pos) = some (s, p) ∧ Passes (c :: pos) p ∧
      (c = 0 ∨ isNewline c = true ∨ p.length < (c :: pos).length) := by
  obtain ⟨ext, d, p, hscan, hp, hd⟩ := scan_moves endsExtension rfl hpos
  rw [parseSignatureLine, hscan, Option.bind_some]
  simp only
  split
  · next hblank =>
    have hne : d ≠ 0 := by
      rintro rfl
      cases hblank
    obtain ⟨s, q, hs, hq⟩ := parseOffset_moves ext (mem_of_cons (hp.mem hpos) hne)
    refine ⟨s, q, hs, hp.trans (hq.cons hne), .inr (.inr ?_)⟩
    exact lt_of_lt_of_le (Nat.lt_succ_of_le hq.length_le) hp.length_le
  · next hblank =>
    refine ⟨none, d :: p, rfl, hp, ?_⟩
    by_cases hcd : d = c
    · subst hcd
      simp only [endsExtension, hblank, Bool.false_or, Bool.or_eq_true, decide_eq_true_eq] at hd
      rcases hd with (hd | hd) | hd
      · exact .inl hd
      · exact .inr (.inl (hd ▸ rfl))
      · exact .inr (.inl (hd ▸ rfl))
    · exact .inr (.inr (hp.length_lt fun h => hcd (Option.some.inj h)))

theorem skipComments_moves (inside : Bool) {pos : List UInt8} (hpos : 0 ∈ pos) :
    ∃ l, skipComments inside pos = some l ∧ ∀ p, l = some p → Passes pos p := by
  induction pos generalizing inside with
  | nil => cases hpos
  | cons c pos ih =>
    cases inside with
    | false =>
      rw [skipComments]
      split
      · next hc =>
        have hne : c ≠ 0 := hc ▸ by decide
        obtain ⟨l, hl, hp⟩ := ih true (mem_of_cons hpos hne)
        exact ⟨l, hl, fun p h => (hp p h).cons hne⟩
      · exact ⟨_, rfl, fun p h => Option.some.inj h ▸ .refl _⟩
    | true =>
      rw [skipComments]
      split
      · exact ⟨none, rfl, nofun⟩
      · next hne =>
        split
        · obtain ⟨l, hl, hp⟩ := ih false (mem_of_cons hpos hne)
          exact ⟨l, hl, fun p h => (hp p h).cons hne⟩
        · obtain ⟨l, hl, hp⟩ := ih true (mem_of_cons hpos hne)
          exact ⟨l, hl, fun p h => (hp p h).cons hne⟩

/-! ## The whole text -/

/-- The text is parsed, in as many rounds as it has characters. -/
def Parses (pos : List UInt8) (signatures : List Signature) : Prop :=
  ∀ fuel, pos.length < fuel → parseSignatureFile fuel pos = some signatures

/-- The end of the text. -/
theorem parses_nul (pos : List UInt8) : Parses (0 :: pos) [] := by
  intro fuel hfuel
  cases fuel with
  | zero => cases hfuel
  | succ fuel => rfl

/-- A round with a line. -/
theorem Parses.round {c : UInt8} {pos p ends p' q : List UInt8} {s : Option Signature} {signatures : List Signature}
    (hc : c ≠ 0) (hskip : skipComments false (c :: pos) = some (some p)) (hscan : scan (!isNewline ·) p = some (ends, p'))
    (hline : parseSignatureLine p' = some (s, q)) (hlt : q.length < (c :: pos).length) (hq : Parses q signatures) :
    Parses (c :: pos) (s.toList ++ signatures) := by
  intro fuel hfuel
  cases fuel with
  | zero => cases hfuel
  | succ fuel =>
    have hrest := hq fuel (by omega)
    simp only [parseSignatureFile, if_neg hc, parseRound, hskip, Option.bind_some, Option.elim_some, hscan,
      Option.bind_eq_bind, hline, hrest]

/-- **The parser comes to an end on each text**, and looks at nothing outside its buffers. -/
theorem parseSignatureFile_ends (pos : List UInt8) (hpos : 0 ∈ pos) : ∃ signatures, Parses pos signatures := by
  induction hn : pos.length using Nat.strong_induction_on generalizing pos with
  | h n ih =>
    cases pos with
    | nil => cases hpos
    | cons c pos =>
      by_cases hc : c = 0
      · exact ⟨[], hc ▸ parses_nul pos⟩
      obtain ⟨l, hskip, hp⟩ := skipComments_moves false hpos
      cases l with
      | none =>
        refine ⟨[], fun fuel hfuel => ?_⟩
        cases fuel with
        | zero => cases hfuel
        | succ fuel => simp only [parseSignatureFile, if_neg hc, parseRound, hskip, Option.bind_some, Option.elim_none]
      | some p =>
        have hp := hp p rfl
        obtain ⟨ends, d, p', hscan, hp', hd⟩ := scan_moves (!isNewline ·) rfl (hp.mem hpos)
        have hp' := hp.trans hp'
        obtain ⟨s, q, hline, hq, hcases⟩ := parseSignatureLine_moves (hp'.mem hpos)
        have hlt : q.length < (c :: pos).length := by
          rcases hcases with hzero | hnewline | hlt
          · exact hq.length_le.trans_lt (hp'.length_lt fun h => hc ((Option.some.inj h).symm.trans hzero))
          · rw [hnewline] at hd
            cases hd
          · exact hlt.trans_le hp'.length_le
        obtain ⟨rest, hrest⟩ := ih q.length (hn ▸ hlt) q ((hp'.trans hq).mem hpos) rfl
        exact ⟨_, .round hc hskip hscan hline hlt hrest⟩

end RecoveryQt.SignatureFile
