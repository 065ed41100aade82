import Mathlib.Algebra.GroupWithZero.Nat
import Mathlib.Algebra.Order.BigOperators.Group.List

/-!
# Texts in UTF-16 and in UTF-8

* `utf16Units`, `utf16`: the units of a character and of a text; `utf8`: the bytes of a text;
* `IsHigh`, `IsLow`: the two halves of a pair;
* `decodeUtf16`: the text of units; **`decodeUtf16_eq_some_iff`**: it is the inverse of `utf16`;
* `unitWidth`: the bytes that a unit accounts for; **`length_utf8`**: these are the bytes of the text;
* **`utf16_eq_append`**: units are cut between two characters, or in a pair.
-/

namespace RecoveryQt

open List

/-- The units of a character. -/
def utf16Units (c : Char) : List UInt16 :=
  if c.toNat < 0x10000 then [UInt16.ofNat c.toNat]
  else [UInt16.ofNat (0xD800 + (c.toNat - 0x10000) / 0x400), UInt16.ofNat (0xDC00 + (c.toNat - 0x10000) % 0x400)]

/-- The units of a text. -/
def utf16 (l : List Char) : List UInt16 := l.flatMap utf16Units

/-- The bytes of a text. -/
def utf8 (l : List Char) : List UInt8 := l.flatMap String.utf8EncodeChar

/-- The first half of a pair. -/
def IsHigh (u : UInt16) : Prop := 0xD800 ≤ u.toNat ∧ u.toNat < 0xDC00

/-- The second half of a pair. -/
def IsLow (u : UInt16) : Prop := 0xDC00 ≤ u.toNat ∧ u.toNat < 0xE000

instance : DecidablePred IsHigh := fun u => inferInstanceAs (Decidable (0xD800 ≤ u.toNat ∧ u.toNat < 0xDC00))
instance : DecidablePred IsLow := fun u => inferInstanceAs (Decidable (0xDC00 ≤ u.toNat ∧ u.toNat < 0xE000))

/-! ## Characters -/

theorem toNat_char_cases (c : Char) : c.toNat < 0xD800 ∨ 0xE000 ≤ c.toNat ∧ c.toNat < 0x110000 := by
  rcases c.valid with h | h
  · exact .inl h
  · exact .inr ⟨h.1, h.2⟩

theorem toNat_ofNat_char {n : ℕ} (h : n < 0xD800 ∨ 0xE000 ≤ n ∧ n < 0x110000) : (Char.ofNat n).toNat = n := by
  have hvalid : n.isValidChar := by
    rcases h with h | h
    · exact .inl h
    · exact .inr ⟨by omega, h.2⟩
  rw [Char.ofNat, dif_pos hvalid]
  rfl

/-- A character of one unit, which is no half. -/
theorem utf16Units_of_lt {c : Char} (h : c.toNat < 0x10000) :
    utf16Units c = [UInt16.ofNat c.toNat] ∧ (UInt16.ofNat c.toNat).toNat = c.toNat ∧
      ¬ IsHigh (UInt16.ofNat c.toNat) ∧ ¬ IsLow (UInt16.ofNat c.toNat) := by
  have htoNat : (UInt16.ofNat c.toNat).toNat = c.toNat := UInt16.toNat_ofNat_of_lt' h
  have hcases := toNat_char_cases c
  refine ⟨if_pos h, htoNat, ?_, ?_⟩
  · rw [IsHigh, htoNat]
    omega
  · rw [IsLow, htoNat]
    omega

/-- A character of two units, the two halves of a pair. -/
theorem utf16Units_of_ge {c : Char} (h : 0x10000 ≤ c.toNat) : ∃ u v, utf16Units c = [u, v] ∧ IsHigh u ∧ IsLow v ∧
    c.toNat = 0x10000 + (u.toNat - 0xD800) * 0x400 + (v.toNat - 0xDC00) := by
  have hcases := toNat_char_cases c
  have hu : (UInt16.ofNat (0xD800 + (c.toNat - 0x10000) / 0x400)).toNat = 0xD800 + (c.toNat - 0x10000) / 0x400 :=
    UInt16.toNat_ofNat_of_lt' (show _ < 65536 by omega)
  have hv : (UInt16.ofNat (0xDC00 + (c.toNat - 0x10000) % 0x400)).toNat = 0xDC00 + (c.toNat - 0x10000) % 0x400 :=
    UInt16.toNat_ofNat_of_lt' (show _ < 65536 by omega)
  refine ⟨_, _, if_neg (Nat.not_lt.mpr h), ?_, ?_, ?_⟩
  · rw [IsHigh, hu]
    omega
  · rw [IsLow, hv]
    omega
  · rw [hu, hv]
    omega

/-! ## Decoding -/

/-- The text of units, if they are one. -/
def decodeUtf16 : List UInt16 → Option (List Char)
  | [] => some []
  | [u] => if IsHigh u ∨ IsLow u then none else some [Char.ofNat u.toNat]
  | u :: v :: l =>
    if IsLow u then none
    else if IsHigh u then
      if IsLow v then
        (decodeUtf16 l).map (cons (Char.ofNat (0x10000 + (u.toNat - 0xD800) * 0x400 + (v.toNat - 0xDC00))))
      else none
    else (decodeUtf16 (v :: l)).map (cons (Char.ofNat u.toNat))

theorem decodeUtf16_cons {u : UInt16} (h : ¬ IsHigh u) (h' : ¬ IsLow u) (l : List UInt16) :
    decodeUtf16 (u :: l) = (decodeUtf16 l).map (cons (Char.ofNat u.toNat)) := by
  cases l with
  | nil => exact if_neg (not_or.mpr ⟨h, h'⟩)
  | cons v l => rw [decodeUtf16, if_neg h', if_neg h]

theorem decodeUtf16_utf16 (l : List Char) : decodeUtf16 (utf16 l) = some l := by
  induction l with
  | nil => rfl
  | cons c l ih =>
    rw [utf16, flatMap_cons]
    rcases Nat.lt_or_ge c.toNat 0x10000 with h | h
    · obtain ⟨hunits, htoNat, hhigh, hlow⟩ := utf16Units_of_lt h
      rw [hunits, singleton_append, decodeUtf16_cons hhigh hlow, htoNat, Char.ofNat_toNat]
      exact congrArg (Option.map (cons c)) ih
    · obtain ⟨u, v, hunits, hu, hv, hc⟩ := utf16Units_of_ge h
      have hnot : ¬ IsLow u := fun hlow => by
        unfold IsHigh at hu
        unfold IsLow at hlow
        omega
      rw [hunits]
      show decodeUtf16 (u :: v :: utf16 l) = _
      rw [decodeUtf16, if_neg hnot, if_pos hu, if_pos hv, ← hc, Char.ofNat_toNat, ih, Option.map_some]

theorem utf16_decodeUtf16 {units : List UInt16} {l : List Char} (h : decodeUtf16 units = some l) : utf16 l = units := by
  -- a unit that is no half is that of its character, and a pair is that of its own
  have hsingle : ∀ {u : UInt16}, ¬ IsHigh u → ¬ IsLow u → utf16Units (Char.ofNat u.toNat) = [u] := by
    intro u hhigh hlow
    have hlt := u.toNat_lt
    have htoNat : (Char.ofNat u.toNat).toNat = u.toNat := by
      apply toNat_ofNat_char
      unfold IsHigh at hhigh
      unfold IsLow at hlow
      omega
    rw [utf16Units, htoNat, if_pos hlt, UInt16.ofNat_toNat]
  have hpair : ∀ {u v : UInt16}, IsHigh u → IsLow v →
      utf16Units (Char.ofNat (0x10000 + (u.toNat - 0xD800) * 0x400 + (v.toNat - 0xDC00))) = [u, v] := by
    intro u v hu hv
    unfold IsHigh at hu
    unfold IsLow at hv
    have htoNat : (Char.ofNat (0x10000 + (u.toNat - 0xD800) * 0x400 + (v.toNat - 0xDC00))).toNat =
        0x10000 + (u.toNat - 0xD800) * 0x400 + (v.toNat - 0xDC00) := toNat_ofNat_char (by omega)
    have hhigh : 0xD800 + (0x10000 + (u.toNat - 0xD800) * 0x400 + (v.toNat - 0xDC00) - 0x10000) / 0x400 = u.toNat := by
      omega
    have hlow : 0xDC00 + (0x10000 + (u.toNat - 0xD800) * 0x400 + (v.toNat - 0xDC00) - 0x10000) % 0x400 = v.toNat := by
      omega
    rw [utf16Units, if_neg (by omega), htoNat, hhigh, hlow, UInt16.ofNat_toNat, UInt16.ofNat_toNat]
  fun_induction decodeUtf16 units generalizing l with
  | case1 =>
    obtain rfl := Option.some.inj h
    rfl
  | case2 => cases h
  | case3 u hu =>
    obtain rfl := Option.some.inj h
    rw [not_or] at hu
    rw [utf16, flatMap_cons, hsingle hu.1 hu.2]
    rfl
  | case4 => cases h
  | case5 u v rest hlow hhigh hv ih =>
    obtain ⟨l', hl', rfl⟩ := Option.map_eq_some_iff.mp h
    rw [utf16, flatMap_cons, hpair hhigh hv, ← ih hl']
    rfl
  | case6 => cases h
  | case7 u v rest hlow hhigh ih =>
    obtain ⟨l', hl', rfl⟩ := Option.map_eq_some_iff.mp h
    rw [utf16, flatMap_cons, hsingle hhigh hlow, ← ih hl']
    rfl

/-- **Decoding is the inverse.** -/
theorem decodeUtf16_eq_some_iff {units : List UInt16} {l : List Char} : decodeUtf16 units = some l ↔ utf16 l = units :=
  ⟨utf16_decodeUtf16, fun h => h ▸ decodeUtf16_utf16 l⟩

/-! ## Lengths -/

/-- The bytes of UTF-8 that a unit accounts for, half of a pair for two of the four. -/
def unitWidth (u : UInt16) : ℕ :=
  if u.toNat < 0x80 then 1 else if u.toNat < 0x800 ∨ IsHigh u ∨ IsLow u then 2 else 3

/-- The bytes that units account for. -/
def bytesOf (l : List UInt16) : ℕ := (l.map unitWidth).sum

@[simp] theorem bytesOf_nil : bytesOf [] = 0 := rfl

@[simp] theorem bytesOf_append (l r : List UInt16) : bytesOf (l ++ r) = bytesOf l + bytesOf r := by
  rw [bytesOf, map_append, sum_append]
  rfl

theorem bytesOf_cons (u : UInt16) (l : List UInt16) : bytesOf (u :: l) = unitWidth u + bytesOf l := sum_cons

theorem utf8Size_eq (c : Char) : c.utf8Size =
    if c.toNat < 0x80 then 1 else if c.toNat < 0x800 then 2 else if c.toNat < 0x10000 then 3 else 4 := by
  unfold Char.utf8Size
  simp only [UInt32.le_iff_toNat_le, ← Nat.lt_succ_iff]
  rfl

theorem unitWidth_of_pair {u v : UInt16} (hu : IsHigh u) (hv : IsLow v) : unitWidth u = 2 ∧ unitWidth v = 2 := by
  unfold unitWidth
  have hu' := hu
  have hv' := hv
  unfold IsHigh at hu'
  unfold IsLow at hv'
  rw [if_neg (by omega), if_pos (.inr (.inl hu)), if_neg (by omega), if_pos (.inr (.inr hv))]
  exact ⟨rfl, rfl⟩

theorem bytesOf_utf16Units (c : Char) : bytesOf (utf16Units c) = (String.utf8EncodeChar c).length := by
  rw [String.length_utf8EncodeChar, utf8Size_eq]
  rcases Nat.lt_or_ge c.toNat 0x10000 with h | h
  · obtain ⟨hunits, htoNat, hhigh, hlow⟩ := utf16Units_of_lt h
    rw [hunits, bytesOf_cons, bytesOf_nil, Nat.add_zero, unitWidth, htoNat]
    simp only [hhigh, hlow, or_false, if_pos h]
  · obtain ⟨u, v, hunits, hu, hv, hc⟩ := utf16Units_of_ge h
    obtain ⟨hu, hv⟩ := unitWidth_of_pair hu hv
    rw [hunits, bytesOf_cons, bytesOf_cons, bytesOf_nil, hu, hv, if_neg (by omega), if_neg (by omega),
      if_neg (by omega)]

/-- **The bytes of a text** are those its units account for. -/
theorem length_utf8 (l : List Char) : (utf8 l).length = bytesOf (utf16 l) := by
  induction l with
  | nil => rfl
  | cons c l ih =>
    rw [utf8, flatMap_cons, length_append, utf16, flatMap_cons, bytesOf_append, bytesOf_utf16Units]
    exact congrArg _ ih

theorem one_le_unitWidth (u : UInt16) : 1 ≤ unitWidth u := by
  unfold unitWidth
  split_ifs <;> decide

theorem length_le_bytesOf (l : List UInt16) : l.length ≤ bytesOf l := by
  induction l with
  | nil => exact Nat.le_refl _
  | cons u l ih =>
    have hu := one_le_unitWidth u
    rw [length_cons, bytesOf_cons]
    omega

theorem bytesOf_le (l : List UInt16) : bytesOf l ≤ 3 * l.length := by
  induction l with
  | nil => exact Nat.le_refl _
  | cons u l ih =>
    have hu : unitWidth u ≤ 3 := by
      unfold unitWidth
      split_ifs <;> decide
    rw [length_cons, bytesOf_cons]
    omega

/-- Units that are no text account for more bytes than there are units, as there is half of a pair among them. -/
theorem length_lt_bytesOf {l : List UInt16} (h : decodeUtf16 l = none) : l.length < bytesOf l := by
  induction l with
  | nil => cases h
  | cons u l ih =>
    have hle := length_le_bytesOf l
    have hu := one_le_unitWidth u
    rw [length_cons, bytesOf_cons]
    by_cases hhalf : IsHigh u ∨ IsLow u
    · have htwo : unitWidth u = 2 := by
        have hge : ¬ u.toNat < 0x80 := by
          unfold IsHigh IsLow at hhalf
          omega
        rw [unitWidth, if_neg hge, if_pos (.inr hhalf)]
      omega
    · rw [not_or] at hhalf
      rw [decodeUtf16_cons hhalf.1 hhalf.2, Option.map_eq_none_iff] at h
      have := ih h
      omega

/-! ## Zeros -/

/-- The bytes of a character other than zero are no zeros. -/
theorem utf8EncodeChar_ne_zero {c : Char} (h : 0 < c.toNat) : ∀ b ∈ String.utf8EncodeChar c, b ≠ 0 := by
  have hne : ∀ {n : ℕ}, 0 < n → n < 256 → UInt8.ofNat n ≠ 0 := by
    intro n hn hlt h0
    have htoNat := congrArg UInt8.toNat h0
    rw [UInt8.toNat_ofNat_of_lt' hlt] at htoNat
    exact Nat.ne_of_gt hn htoNat
  have hlt : c.val.toNat < 0x110000 := by
    rcases toNat_char_cases c with h' | h'
    · exact Nat.lt_trans h' (by decide)
    · exact h'.2
  have hpos : 0 < c.val.toNat := h
  unfold String.utf8EncodeChar
  dsimp only
  split_ifs with hone htwo hthree <;>
    simp only [mem_cons, not_mem_nil, or_false, forall_eq_or_imp, forall_eq]
  · exact hne hpos (by omega)
  · exact ⟨hne (by omega) (by omega), hne (by omega) (by omega)⟩
  · exact ⟨hne (by omega) (by omega), hne (by omega) (by omega), hne (by omega) (by omega)⟩
  · exact ⟨hne (by omega) (by omega), hne (by omega) (by omega), hne (by omega) (by omega), hne (by omega) (by omega)⟩

/-- The units of a text are no zeros exactly when its characters are none. -/
theorem utf16_ne_zero_iff {l : List Char} : (∀ u ∈ utf16 l, u ≠ 0) ↔ ∀ c ∈ l, 0 < c.toNat := by
  have hchar : ∀ c : Char, (∀ u ∈ utf16Units c, u ≠ 0) ↔ 0 < c.toNat := by
    intro c
    rcases Nat.lt_or_ge c.toNat 0x10000 with h | h
    · obtain ⟨hunits, htoNat, -, -⟩ := utf16Units_of_lt h
      rw [hunits, forall_mem_singleton, Ne, ← UInt16.toNat_inj, htoNat]
      exact Nat.pos_iff_ne_zero.symm
    · obtain ⟨u, v, hunits, hu, hv, -⟩ := utf16Units_of_ge h
      refine iff_of_true ?_ (Nat.lt_of_lt_of_le (by decide) h)
      rw [hunits]
      intro w hw
      rcases mem_pair.mp hw with rfl | rfl
      · rintro rfl
        exact absurd hu (by decide)
      · rintro rfl
        exact absurd hv (by decide)
  unfold utf16
  rw [forall_mem_flatMap]
  exact forall₂_congr fun c _ => hchar c

/-! ## Cuts -/

/-- **Units are cut** between two characters, or in a pair. -/
theorem utf16_eq_append {l : List Char} {a b : List UInt16} (h : utf16 l = a ++ b) :
    (∃ l₁ l₂, l = l₁ ++ l₂ ∧ utf16 l₁ = a ∧ utf16 l₂ = b) ∨
      (∃ u ∈ a.getLast?, IsHigh u) ∧ ∃ v ∈ b.head?, IsLow v := by
  induction l generalizing a with
  | nil =>
    obtain ⟨rfl, rfl⟩ := append_eq_nil_iff.mp h.symm
    exact .inl ⟨[], [], rfl, rfl, rfl⟩
  | cons c l ih =>
    rw [utf16, flatMap_cons] at h
    rcases append_eq_append_iff.mp h with ⟨a', rfl, hrest⟩ | ⟨b', hunits, hb⟩
    · -- the cut is behind the character
      rcases ih hrest with ⟨l₁, l₂, rfl, rfl, rfl⟩ | ⟨⟨u, hu, hhigh⟩, hlow⟩
      · exact .inl ⟨c :: l₁, l₂, rfl, rfl, rfl⟩
      · refine .inr ⟨⟨u, ?_, hhigh⟩, hlow⟩
        rw [getLast?_append, Option.mem_def.mp hu]
        rfl
    · -- the cut is in front of it, in it or right behind it
      rcases Nat.lt_or_ge c.toNat 0x10000 with hc | hc
      · rw [(utf16Units_of_lt hc).1] at hunits
        rcases append_eq_singleton_iff.mp hunits.symm with ⟨rfl, rfl⟩ | ⟨rfl, rfl⟩
        · refine .inl ⟨[], c :: l, rfl, rfl, ?_⟩
          rw [hb, utf16, flatMap_cons, (utf16Units_of_lt hc).1]
        · exact .inl ⟨[c], l, rfl, (append_nil _).trans (utf16Units_of_lt hc).1, hb.symm⟩
      · obtain ⟨u, v, huv, hhigh, hlow, -⟩ := utf16Units_of_ge hc
        rw [huv] at hunits
        match a, hunits with
        | [], hunits =>
          refine .inl ⟨[], c :: l, rfl, rfl, ?_⟩
          rw [hb, utf16, flatMap_cons, huv]
          exact congrArg (· ++ _) hunits
        | [x], hunits =>
          obtain ⟨rfl, rfl⟩ := List.cons.inj hunits
          exact .inr ⟨⟨u, rfl, hhigh⟩, v, by rw [hb]; rfl, hlow⟩
        | [x, y], hunits =>
          obtain ⟨hx, htail⟩ := List.cons.inj hunits
          obtain ⟨hy, hnil⟩ : v = y ∧ [] = b' := List.cons.inj htail
          refine .inl ⟨[c], l, rfl, ?_, ?_⟩
          · rw [utf16, flatMap_cons, flatMap_nil, append_nil, huv, hx, hy]
          · rw [hb, ← hnil]
            rfl
        | x :: y :: z :: a, hunits => simp at hunits

end RecoveryQt
