import RecoveryQt.Luks.Open

/-!
# Salts and digests in base64

* `base64`: the padded text of a byte string;
* `b64Written`, `b64Return`: the bytes that `b64_decode` writes, whatever comes of it, and its result;
* `b64Loop_filter`: what the loop skips does not matter; `b64Loop_char`: one character;
* `b64Loop_base64`: the loop on a whole text, with any bits left over in the accumulator;
* `length_b64Written_le`: nothing is written behind the output;
* **`b64Decode_base64`**: a text decodes to its byte string, or not at all.
-/

namespace RecoveryQt

open List

/-- The character for six bits. -/
def base64Char (v : ℕ) : UInt8 :=
  if v < 26 then UInt8.ofNat (65 + v)
  else if v < 52 then UInt8.ofNat (97 + (v - 26))
  else if v < 62 then UInt8.ofNat (48 + (v - 52))
  else if v = 62 then 43
  else 47

/-- The text of a byte string: four characters for three bytes, the last ones padded with `=`. -/
def base64 : List UInt8 → List UInt8
  | [] => []
  | [a] => [base64Char (a.toNat / 4), base64Char (a.toNat % 4 * 16), 61, 61]
  | [a, b] => [base64Char (a.toNat / 4), base64Char (a.toNat % 4 * 16 + b.toNat / 16), base64Char (b.toNat % 16 * 4), 61]
  | a :: b :: c :: s =>
    base64Char (a.toNat / 4) :: base64Char (a.toNat % 4 * 16 + b.toNat / 16) ::
      base64Char (b.toNat % 16 * 4 + c.toNat / 64) :: base64Char (c.toNat % 64) :: base64 s

example : base64 (ascii "Mane") = ascii "TWFuZQ==" := by decide

/-- White space that `b64_decode` skips. -/
def b64Space (c : UInt8) : Bool := c = 10 ∨ c = 13 ∨ c = 32

/-- The bytes in `out` when the loop of `b64_decode` is over, in whatever way. -/
def b64Written (outMax : ℕ) : List UInt8 → ℕ → ℕ → List UInt8 → List UInt8
  | [], _, _, out => out
  | c :: p, buf, bits, out =>
    if c = 61 ∨ c = 10 ∨ c = 13 ∨ c = 32 then b64Written outMax p buf bits out
    else
      match b64Val c with
      | none => out
      | some v =>
        let buf := (buf * 64 + v) % 2 ^ 32
        if 8 ≤ bits + 6 then
          if outMax ≤ out.length then out
          else b64Written outMax p buf (bits + 6 - 8) (out ++ [UInt8.ofNat (buf / 2 ^ (bits + 6 - 8))])
        else b64Written outMax p buf (bits + 6) out

/-- The result of `b64_decode`, `(int)n` or -1. -/
def b64Return (decoded : Option (List UInt8)) : Int32 := decoded.elim (-1) fun out => Int32.ofNat out.length

/-- **Nothing is written behind the output**, whatever the text is. -/
theorem length_b64Written_le (outMax : ℕ) (text : List UInt8) (buf bits : ℕ) {out : List UInt8}
    (h : out.length ≤ outMax) : (b64Written outMax text buf bits out).length ≤ outMax := by
  fun_induction b64Written outMax text buf bits out with
  | case1 => exact h
  | case2 _ _ _ _ _ _ ih => exact ih h
  | case3 => exact h
  | case4 => exact h
  | case5 _ _ _ _ _ _ _ _ _ _ hroom ih =>
    refine ih ?_
    rw [length_append, length_singleton]
    exact Nat.lt_of_not_le hroom
  | case6 _ _ _ _ _ _ _ _ _ _ ih => exact ih h

/-- A decoded string is what was written. -/
theorem b64Written_eq {outMax : ℕ} {text : List UInt8} {buf bits : ℕ} {out s : List UInt8}
    (h : b64Loop outMax text buf bits out = some s) : b64Written outMax text buf bits out = s := by
  fun_induction b64Loop outMax text buf bits out with
  | case1 _ _ out => exact Option.some.inj h
  | case2 _ _ _ _ _ hskip ih => rw [b64Written, if_pos hskip, ih h]
  | case3 => cases h
  | case4 => cases h
  | case5 _ _ _ _ _ hskip _ hv _ hbits hroom ih =>
    rw [b64Written, if_neg hskip, hv]
    simp only [if_pos hbits, if_neg hroom]
    exact ih h
  | case6 _ _ _ _ _ hskip _ hv _ hbits ih =>
    rw [b64Written, if_neg hskip, hv]
    simp only [if_neg hbits]
    exact ih h

theorem b64Loop_skip {outMax : ℕ} {c : UInt8} (h : c = 61 ∨ c = 10 ∨ c = 13 ∨ c = 32) (text : List UInt8) (buf bits : ℕ)
    (out : List UInt8) : b64Loop outMax (c :: text) buf bits out = b64Loop outMax text buf bits out := by
  rw [b64Loop, if_pos h]

/-- White space may stand anywhere. -/
theorem b64Loop_filter (outMax : ℕ) (text : List UInt8) (buf bits : ℕ) (out : List UInt8) :
    b64Loop outMax (text.filter fun c => !b64Space c) buf bits out = b64Loop outMax text buf bits out := by
  induction text generalizing buf bits out with
  | nil => rfl
  | cons c text ih =>
    by_cases hspace : b64Space c = true
    · have hskip : c = 61 ∨ c = 10 ∨ c = 13 ∨ c = 32 := Or.inr (by simpa [b64Space] using hspace)
      rw [filter_cons_of_neg (by simp [hspace]), b64Loop_skip hskip, ih]
    · rw [filter_cons_of_pos (by simp [hspace]), b64Loop, b64Loop]
      simp only [ih]

theorem b64Val_base64Char : ∀ v < 64, b64Val (base64Char v) = some v ∧
    ¬ (base64Char v = 61 ∨ base64Char v = 10 ∨ base64Char v = 13 ∨ base64Char v = 32) := by decide

/-- One character gives six bits, and a byte with two bits that were there. -/
theorem b64Loop_char (outMax : ℕ) {v : ℕ} (hv : v < 64) (text : List UInt8) (buf bits : ℕ) (out : List UInt8) :
    b64Loop outMax (base64Char v :: text) buf bits out =
      if 2 ≤ bits then
        if outMax ≤ out.length then none
        else b64Loop outMax text ((buf * 64 + v) % 2 ^ 32) (bits - 2)
          (out ++ [UInt8.ofNat ((buf * 64 + v) % 2 ^ 32 / 2 ^ (bits - 2))])
      else b64Loop outMax text ((buf * 64 + v) % 2 ^ 32) (bits + 6) out := by
  obtain ⟨hval, hskip⟩ := b64Val_base64Char v hv
  rw [b64Loop, if_neg hskip, hval]
  have hbits : bits + 6 - 8 = bits - 2 := by omega
  simp only [hbits]
  exact if_congr (by omega) rfl rfl

theorem UInt8.ofNat_eq_of_mod {n : ℕ} {a : UInt8} (h : n % 256 = a.toNat) : UInt8.ofNat n = a := by
  apply UInt8.toNat_inj.mp
  rwa [UInt8.toNat_ofNat']


/-- The first two characters of a group give its first byte, and the four bits `w` are left over. -/
theorem b64Loop_first (outMax : ℕ) (a : UInt8) {w : ℕ} (hw : w < 16) (text : List UInt8) (buf : ℕ) (out : List UInt8) :
    ∃ buf', buf' % 16 = w ∧
      b64Loop outMax (base64Char (a.toNat / 4) :: base64Char (a.toNat % 4 * 16 + w) :: text) buf 0 out =
        if outMax ≤ out.length then none else b64Loop outMax text buf' 4 (out ++ [a]) := by
  have ha := a.toNat_lt
  refine ⟨((buf * 64 + a.toNat / 4) % 2 ^ 32 * 64 + (a.toNat % 4 * 16 + w)) % 2 ^ 32, by omega, ?_⟩
  rw [b64Loop_char outMax (by omega), if_neg (by decide), b64Loop_char outMax (by omega), if_pos (by decide),
    UInt8.ofNat_eq_of_mod (a := a) (by omega)]

/-- The next character gives the second byte, and the two bits `w` are left over. -/
theorem b64Loop_second (outMax : ℕ) (b : UInt8) {w : ℕ} (hw : w < 4) (text : List UInt8) {buf : ℕ}
    (hbuf : buf % 16 = b.toNat / 16) (out : List UInt8) :
    ∃ buf', buf' % 4 = w ∧ b64Loop outMax (base64Char (b.toNat % 16 * 4 + w) :: text) buf 4 out =
      if outMax ≤ out.length then none else b64Loop outMax text buf' 2 (out ++ [b]) := by
  have hb := b.toNat_lt
  refine ⟨(buf * 64 + (b.toNat % 16 * 4 + w)) % 2 ^ 32, by omega, ?_⟩
  rw [b64Loop_char outMax (by omega), if_pos (by decide), UInt8.ofNat_eq_of_mod (a := b) (by omega)]

/-- The last character gives the third byte, and nothing is left over. -/
theorem b64Loop_third (outMax : ℕ) (c : UInt8) (text : List UInt8) {buf : ℕ} (hbuf : buf % 4 = c.toNat / 64)
    (out : List UInt8) : ∃ buf', b64Loop outMax (base64Char (c.toNat % 64) :: text) buf 2 out =
      if outMax ≤ out.length then none else b64Loop outMax text buf' 0 (out ++ [c]) := by
  have hc := c.toNat_lt
  refine ⟨(buf * 64 + c.toNat % 64) % 2 ^ 32, ?_⟩
  rw [b64Loop_char outMax (by omega), if_pos (by decide), UInt8.ofNat_eq_of_mod (a := c) (by omega)]

/-- **The loop on a whole text**, with anything in the accumulator. -/
theorem b64Loop_base64 (outMax : ℕ) (s : List UInt8) (buf : ℕ) (out : List UInt8) (hout : out.length ≤ outMax) :
    b64Loop outMax (base64 s) buf 0 out = if out.length + s.length ≤ outMax then some (out ++ s) else none := by
  have hpad : (61 : UInt8) = 61 ∨ (61 : UInt8) = 10 ∨ (61 : UInt8) = 13 ∨ (61 : UInt8) = 32 := Or.inl rfl
  fun_induction base64 s generalizing buf out with
  | case1 =>
    rw [b64Loop, length_nil, if_pos (by omega), append_nil]
  | case2 a =>
    obtain ⟨buf₁, -, h₁⟩ := b64Loop_first outMax a (w := 0) (by decide) [61, 61] buf out
    rw [Nat.add_zero] at h₁
    rw [h₁, b64Loop_skip hpad, b64Loop_skip hpad, b64Loop, length_singleton]
    split_ifs <;> first | rfl | omega
  | case3 a b =>
    have hb := b.toNat_lt
    obtain ⟨buf₁, hbuf₁, h₁⟩ := b64Loop_first outMax a (w := b.toNat / 16) (by omega)
      [base64Char (b.toNat % 16 * 4), 61] buf out
    obtain ⟨buf₂, -, h₂⟩ := b64Loop_second outMax b (w := 0) (by decide) [61] hbuf₁ (out ++ [a])
    rw [Nat.add_zero] at h₂
    rw [h₁, h₂, b64Loop_skip hpad, b64Loop, length_append, length_singleton, append_assoc]
    simp only [length_cons, length_nil]
    split_ifs <;> first | rfl | omega
  | case4 a b c s ih =>
    have hb := b.toNat_lt
    have hc := c.toNat_lt
    obtain ⟨buf₁, hbuf₁, h₁⟩ := b64Loop_first outMax a (w := b.toNat / 16) (by omega)
      (base64Char (b.toNat % 16 * 4 + c.toNat / 64) :: base64Char (c.toNat % 64) :: base64 s) buf out
    obtain ⟨buf₂, hbuf₂, h₂⟩ := b64Loop_second outMax b (w := c.toNat / 64) (by omega)
      (base64Char (c.toNat % 64) :: base64 s) hbuf₁ (out ++ [a])
    obtain ⟨buf₃, h₃⟩ := b64Loop_third outMax c (base64 s) hbuf₂ (out ++ [a] ++ [b])
    rw [h₁, h₂, h₃]
    simp only [length_append, length_cons, length_nil]
    split_ifs with h₁ h₂ h₃ h₄ h₄ <;> try first | rfl | omega
    · rw [ih _ _ (by simpa using by omega), if_pos (by simpa using by omega)]
      simp
    · rw [ih _ _ (by simpa using by omega), if_neg (by simpa using by omega)]

/-- **A text decodes to its byte string** when the output has room for it, white space or not, and the result is the
length; when it has not, the decoder fails and has written no more than there is room for. -/
theorem b64Decode_base64 (s text : List UInt8) (outMax : ℕ) (hmax : outMax < 2 ^ 31)
    (htext : (text.filter fun c => !b64Space c) = base64 s) :
    (s.length ≤ outMax → b64Decode outMax text = some s ∧ (b64Return (b64Decode outMax text)).toInt = s.length) ∧
    (outMax < s.length → b64Decode outMax text = none ∧ b64Return (b64Decode outMax text) = -1 ∧
      (b64Written outMax text 0 0 []).length ≤ outMax) := by
  have hdecode : b64Decode outMax text = if s.length ≤ outMax then some s else none := by
    rw [b64Decode, ← b64Loop_filter, htext, b64Loop_base64 outMax s 0 [] (Nat.zero_le _), length_nil, Nat.zero_add,
      nil_append]
  constructor
  · intro h
    rw [hdecode, if_pos h]
    refine ⟨rfl, ?_⟩
    rw [b64Return, Option.elim_some, Int32.toInt_ofNat_of_lt (h.trans_lt hmax)]
  · intro h
    rw [hdecode, if_neg (not_le.mpr h)]
    exact ⟨rfl, rfl, length_b64Written_le outMax text 0 0 (Nat.zero_le _)⟩

/-- Four bytes, with a line end in the middle of the text and another one behind it. -/
theorem b64Decode_lines : 4 < 2 ^ 31 ∧
    (ascii "TWFu\nZQ==\r\n").filter (fun c => !b64Space c) = base64 (ascii "Mane") ∧
    b64Decode 4 (ascii "TWFu\nZQ==\r\n") = some (ascii "Mane") := by
  have htext : (ascii "TWFu\nZQ==\r\n").filter (fun c => !b64Space c) = base64 (ascii "Mane") := by decide
  exact ⟨by decide, htext, ((b64Decode_base64 _ _ 4 (by decide) htext).1 (by decide)).1⟩

end RecoveryQt
