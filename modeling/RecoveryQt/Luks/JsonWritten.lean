import RecoveryQt.Luks.Json
import Mathlib.Data.List.Find
import Mathlib.Data.Nat.Digits.Lemmas
import Mathlib.Tactic.FinCases
import Mathlib.Tactic.IntervalCases

/-!
# Documents of integers are read back

* `SupportedString`: the strings with the escapes that the parser knows;
* `decimal`: the text of an integer;
* `WrittenJson`: the texts of a document, with any white space between the tokens;
* `parseValue_text`, `parseElems_text`, `parseMembers_text`: what the parser makes of the pieces;
* **`jsonParse_writtenJson`**: such a text gives the document back, and so do the lookups.
-/

namespace RecoveryQt

open List

/-- The texts of a string, between its quotes: any byte but zero stands for itself, if it is no quote and no
backslash, and six escapes are known. -/
inductive SupportedString : List UInt8 → List UInt8 → Prop
  | nil : SupportedString [] []
  | byte {b s t} (hzero : b ≠ 0) (hquote : b ≠ 0x22) (hback : b ≠ 0x5C) (h : SupportedString s t) :
      SupportedString (b :: s) (b :: t)
  | escape {e b s t}
      (he : (e, b) ∈ ([(0x6E, 0x0A), (0x74, 0x09), (0x72, 0x0D), (0x2F, 0x2F), (0x5C, 0x5C),
        (0x22, 0x22)] : List (UInt8 × UInt8)))
      (h : SupportedString s t) : SupportedString (b :: s) (0x5C :: e :: t)

/-- The digits of a number. -/
def decimalNat (n : ℕ) : List UInt8 :=
  if n = 0 then [0x30] else (Nat.digits 10 n).reverse.map fun d => 0x30 + UInt8.ofNat d

/-- The text of an integer. -/
def decimal : ℤ → List UInt8
  | .ofNat n => decimalNat n
  | .negSucc n => 0x2D :: decimalNat (n + 1)

/-- A text of a document, with white space between its tokens and around it. -/
def WrittenJson (v : JsonValue (List UInt8) ℤ) (s : List UInt8) : Prop :=
  ElementText SupportedString (fun z t => t = decimal z) v s

/-! ## The leaves -/

theorem SupportedString.unescape {x t : List UInt8} (h : SupportedString x t) : unescape t = x := by
  induction h with
  | nil => rfl
  | @byte b s t _ _ hback _ ih =>
    cases t with
    | nil => rw [← ih]; rfl
    | cons e t => rw [RecoveryQt.unescape, if_neg hback, ih]
  | @escape e b s t he _ ih =>
    rw [RecoveryQt.unescape, if_pos rfl, ih]
    congr 1
    fin_cases he <;> rfl

theorem SupportedString.stringEnd {x t : List UInt8} (h : SupportedString x t) (r : List UInt8) :
    stringEnd (t ++ 0x22 :: r) = some (t, r) := by
  induction h with
  | nil => exact stringEnd_quote r
  | byte _ hquote hback _ ih => rw [cons_append, stringEnd_cons hquote hback, ih, Option.map_some]
  | escape _ _ ih => rw [cons_append, cons_append, stringEnd_escape, ih, Option.map_some]

theorem parseString_text {x t : List UInt8} (h : SupportedString x t) (r : List UInt8) :
    parseString (0x22 :: (t ++ 0x22 :: r)) = some (x, r) := by
  simp only [parseString, expect_cons_self, Option.bind_eq_bind, Option.bind_some, h.stringEnd r, h.unescape]
  rfl

theorem decimalNat_ne_nil (n : ℕ) : decimalNat n ≠ [] := by
  unfold decimalNat
  split_ifs with h
  · exact cons_ne_nil _ _
  · rw [Ne, map_eq_nil_iff, reverse_eq_nil_iff, Nat.digits_eq_nil_iff_eq_zero]
    exact h

theorem isDigit_of_mem_decimalNat {n : ℕ} {b : UInt8} (h : b ∈ decimalNat n) : isDigit b := by
  unfold decimalNat at h
  split_ifs at h with hn
  · rw [mem_singleton.mp h]
    rfl
  · obtain ⟨d, hd, rfl⟩ := mem_map.mp h
    have hd : d < 10 := Nat.digits_lt_base (by decide) (mem_reverse.mp hd)
    interval_cases d <;> rfl

theorem decimal_ne_nil (z : ℤ) : decimal z ≠ [] := by
  cases z with
  | ofNat n => exact decimalNat_ne_nil n
  | negSucc n => exact cons_ne_nil _ _

theorem isNumberByte_of_mem_decimal {z : ℤ} {b : UInt8} (h : b ∈ decimal z) : isNumberByte b := by
  have hdigit : ∀ {n}, b ∈ decimalNat n → isNumberByte b := fun h => by
    rw [isNumberByte, isDigit_of_mem_decimalNat h]
    rfl
  cases z with
  | ofNat n => exact hdigit h
  | negSucc n =>
    rcases mem_cons.mp h with rfl | h
    · rfl
    · exact hdigit h

theorem decimal_numberBytes : NumberBytes fun z t => t = decimal z := fun z _ ht =>
  ⟨ht ▸ decimal_ne_nil z, fun _ hb => isNumberByte_of_mem_decimal (ht ▸ hb)⟩

/-! ## The pieces of a document -/

theorem skipWs_text {v : JsonValue (List UInt8) ℤ} {t w : List UInt8} (hw : White w)
    (h : ValueText SupportedString (fun z t => t = decimal z) v t) (r : List UInt8) :
    skipWs (w ++ (t ++ r)) = t ++ r := by
  obtain ⟨c, u, rfl, hc⟩ := h.head decimal_numberBytes
  rw [skipWs_append hw, cons_append, skipWs_cons hc.isWhite]

theorem skipWs_elements {vs : List (JsonValue (List UInt8) ℤ)} {t : List UInt8}
    (h : ElementsText SupportedString (fun z t => t = decimal z) vs t) (r : List UInt8) :
    ∃ c u, skipWs (t ++ r) = c :: u ∧ StartsValue c := by
  have helement : ∀ {v t}, ElementText SupportedString (fun z t => t = decimal z) v t →
      ∀ r, ∃ c u, skipWs (t ++ r) = c :: u ∧ StartsValue c := by
    rintro _ _ (⟨hw, h, -⟩) r
    rw [append_assoc, append_assoc, skipWs_text hw h]
    obtain ⟨c, u, rfl, hc⟩ := h.head decimal_numberBytes
    exact ⟨c, _, rfl, hc⟩
  cases h with
  | last h => exact helement h r
  | @cons _ _ t t' h _ =>
    rw [append_assoc]
    exact helement h _

theorem skipWs_members {ms : List (List UInt8 × JsonValue (List UInt8) ℤ)} {t : List UInt8}
    (h : MembersText SupportedString (fun z t => t = decimal z) ms t) (r : List UInt8) :
    ∃ u, skipWs (t ++ r) = 0x22 :: u := by
  cases h with
  | last h =>
    obtain ⟨hw, -, -, -⟩ := h
    exact ⟨_, by rw [append_assoc, skipWs_append hw, cons_append, skipWs_cons rfl]⟩
  | cons h _ =>
    obtain ⟨hw, -, -, -⟩ := h
    exact ⟨_, by rw [append_assoc, append_assoc, skipWs_append hw, cons_append, skipWs_cons rfl]⟩

mutual

/-- What the parser makes of a value. -/
theorem parseValue_text : ∀ {v : JsonValue (List UInt8) ℤ} {t : List UInt8},
    ValueText SupportedString (fun z t => t = decimal z) v t → ∀ {n : ℕ} {w r : List UInt8},
    3 * t.length + 1 ≤ n → White w → Delimited r → parseValue n (w ++ (t ++ r)) = some (v.mapNum decimal, r)
  | _, _, h, 0, _, _, hn, _, _ => absurd hn (by omega)
  | _, t, h, n + 1, w, r, hn, hw, hr => by
    have hskip := skipWs_text hw h r
    cases h with
    | null =>
      rw [parseValue_succ n hskip, JsonValue.mapNum]
      rfl
    | yes =>
      rw [parseValue_succ n hskip, JsonValue.mapNum]
      rfl
    | no =>
      rw [parseValue_succ n hskip, JsonValue.mapNum]
      rfl
    | @num z _ h =>
      obtain ⟨hne, hall⟩ := decimal_numberBytes z _ h
      obtain ⟨htake, hdrop⟩ := takeWhile_number hall hr
      obtain ⟨c, u, rfl⟩ := exists_cons_of_ne_nil hne
      have hc : isNumberByte c := hall c mem_cons_self
      rw [cons_append] at hskip htake hdrop
      rw [cons_append, parseValue_number n hskip hc, htake, hdrop, JsonValue.mapNum, ← h]
    | str h =>
      rw [cons_append, append_assoc] at hskip ⊢
      rw [parseValue_succ n hskip, if_neg (by decide), if_neg (by decide), if_pos rfl, singleton_append,
        parseString_text h, JsonValue.mapNum]
      rfl
    | @arrNil w' hw' =>
      rw [cons_append, append_assoc] at hskip ⊢
      rw [parseValue_succ n hskip, if_neg (by decide), if_pos rfl, JsonValue.mapNum]
      obtain ⟨n, rfl⟩ := Nat.exists_eq_succ_of_ne_zero (show n ≠ 0 by simp at hn; omega)
      exact parseArray_succ.mpr (.inl ⟨by rw [skipWs_append hw', singleton_append, skipWs_cons rfl], rfl⟩)
    | @arr vs t h =>
      obtain ⟨c, u, hu, hc⟩ := skipWs_elements h (0x5D :: r)
      simp only [length_cons, length_append, length_nil] at hn
      obtain ⟨n, rfl⟩ := Nat.exists_eq_succ_of_ne_zero (show n ≠ 0 by omega)
      rw [cons_append, append_assoc, singleton_append] at hskip ⊢
      rw [parseValue_succ _ hskip, if_neg (by decide), if_pos rfl, JsonValue.mapNum]
      refine parseArray_succ.mpr (.inr ⟨?_, _, ?_, rfl⟩)
      · rw [hu, head?_cons]
        rintro ⟨⟩
        exact not_startsValue_of_mem (by decide) hc
      · rw [parseElems_skipWs _ (by rw [hu]; exact cons_ne_nil c u)]
        exact parseElems_text h (by omega)
    | @objNil w' hw' =>
      rw [cons_append, append_assoc] at hskip ⊢
      rw [parseValue_succ n hskip, if_pos rfl, JsonValue.mapNum]
      obtain ⟨n, rfl⟩ := Nat.exists_eq_succ_of_ne_zero (show n ≠ 0 by simp at hn; omega)
      exact parseObject_succ.mpr (.inl ⟨by rw [skipWs_append hw', singleton_append, skipWs_cons rfl], rfl⟩)
    | @obj ms t h =>
      obtain ⟨u, hu⟩ := skipWs_members h (0x7D :: r)
      simp only [length_cons, length_append, length_nil] at hn
      obtain ⟨n, rfl⟩ := Nat.exists_eq_succ_of_ne_zero (show n ≠ 0 by omega)
      rw [cons_append, append_assoc, singleton_append] at hskip ⊢
      rw [parseValue_succ _ hskip, if_pos rfl, JsonValue.mapNum]
      refine parseObject_succ.mpr (.inr ⟨?_, _, ?_, rfl⟩)
      · rw [hu, head?_cons]
        decide
      · rw [parseMembers_skipWs _ (by rw [hu]; exact cons_ne_nil _ u)]
        exact parseMembers_text h (by omega)

/-- What the parser makes of a value with white space around it. -/
theorem parseValue_element : ∀ {v : JsonValue (List UInt8) ℤ} {t : List UInt8},
    ElementText SupportedString (fun z t => t = decimal z) v t → ∀ {n : ℕ} {r : List UInt8},
    3 * t.length + 1 ≤ n → Delimited r →
    ∃ u, parseValue n (t ++ r) = some (v.mapNum decimal, u) ∧ skipWs u = skipWs r
  | _, _, @ElementText.mk _ _ _ _ _ _ _ w' hw h hw', n, r, hn, hr => by
    refine ⟨w' ++ r, ?_, skipWs_append hw' r⟩
    rw [append_assoc, append_assoc, parseValue_text h ?_ hw (hr.append hw')]
    simp only [length_append] at hn
    omega

/-- What the loop of an array makes of the elements. -/
theorem parseElems_text : ∀ {vs : List (JsonValue (List UInt8) ℤ)} {t : List UInt8},
    ElementsText SupportedString (fun z t => t = decimal z) vs t → ∀ {n : ℕ} {r : List UInt8},
    3 * t.length + 2 ≤ n →
    parseElems n (t ++ 0x5D :: r) = some (vs.map (JsonValue.mapNum decimal), r)
  | _, _, h, 0, _, hn => absurd hn (by omega)
  | _, _, .last h, n + 1, r, hn => by
    obtain ⟨u, hval, hu⟩ := parseValue_element h (n := n) (by omega) (r := 0x5D :: r) (by rintro c ⟨⟩; rfl)
    rw [skipWs_cons rfl] at hu
    exact parseElems_succ.mpr (.inr ⟨_, u, append_ne_nil_of_right_ne_nil _ (cons_ne_nil _ _), hval,
      .inr ⟨hu, rfl⟩⟩)
  | _, _, @ElementsText.cons _ _ _ _ _ _ t t' h h', n + 1, r, hn => by
    simp only [length_append, length_cons] at hn
    obtain ⟨u, hval, hu⟩ := parseValue_element h (n := n) (by omega) (r := 0x2C :: (t' ++ 0x5D :: r))
      (by rintro c ⟨⟩; rfl)
    rw [skipWs_cons rfl] at hu
    rw [append_assoc, cons_append]
    exact parseElems_succ.mpr (.inr ⟨_, u, append_ne_nil_of_right_ne_nil _ (cons_ne_nil _ _), hval,
      .inl ⟨_, _, hu, parseElems_text h' (by omega), rfl⟩⟩)

/-- What the parser makes of a member, up to its value. -/
theorem parseMember_text : ∀ {m : List UInt8 × JsonValue (List UInt8) ℤ} {t : List UInt8},
    MemberText SupportedString (fun z t => t = decimal z) m t → ∀ {n : ℕ} {r : List UInt8},
    3 * t.length + 1 ≤ n → Delimited r →
    ∃ u t' u', parseString (skipWs (t ++ r)) = some (m.1, u) ∧ skipWs u = 0x3A :: t' ∧
      parseValue n t' = some (m.2.mapNum decimal, u') ∧ skipWs u' = skipWs r
  | _, _, @MemberText.mk _ _ _ _ _ _ w s w' t hw hs hw' h, n, r, hn, hr => by
    simp only [length_append, length_cons] at hn
    obtain ⟨u', hval, hu'⟩ := parseValue_element h (n := n) (by omega) hr
    refine ⟨w' ++ 0x3A :: (t ++ r), t ++ r, u', ?_, ?_, hval, hu'⟩
    · rw [append_assoc, skipWs_append hw, cons_append, skipWs_cons rfl, append_assoc, cons_append,
        append_assoc, cons_append, parseString_text hs]
    · rw [skipWs_append hw', skipWs_cons rfl]

/-- What the loop of an object makes of the members. -/
theorem parseMembers_text : ∀ {ms : List (List UInt8 × JsonValue (List UInt8) ℤ)} {t : List UInt8},
    MembersText SupportedString (fun z t => t = decimal z) ms t → ∀ {n : ℕ} {r : List UInt8},
    3 * t.length + 2 ≤ n →
    parseMembers n (t ++ 0x7D :: r) = some (ms.map fun m => (m.1, m.2.mapNum decimal), r)
  | _, _, h, 0, _, hn => absurd hn (by omega)
  | _, _, .last h, n + 1, r, hn => by
    obtain ⟨u, t', u', hkey, hcolon, hval, hu⟩ := parseMember_text h (n := n) (by omega) (r := 0x7D :: r)
      (by rintro c ⟨⟩; rfl)
    rw [skipWs_cons rfl] at hu
    exact parseMembers_succ.mpr (.inr ⟨_, u, t', _, u', append_ne_nil_of_right_ne_nil _ (cons_ne_nil _ _),
      hkey, hcolon, hval, .inr ⟨hu, rfl⟩⟩)
  | _, _, @MembersText.cons _ _ _ _ _ _ t t' h h', n + 1, r, hn => by
    simp only [length_append, length_cons] at hn
    obtain ⟨u, x, u', hkey, hcolon, hval, hu⟩ := parseMember_text h (n := n) (by omega)
      (r := 0x2C :: (t' ++ 0x7D :: r)) (by rintro c ⟨⟩; rfl)
    rw [skipWs_cons rfl] at hu
    rw [append_assoc, cons_append]
    exact parseMembers_succ.mpr (.inr ⟨_, u, x, _, u', append_ne_nil_of_right_ne_nil _ (cons_ne_nil _ _),
      hkey, hcolon, hval, .inl ⟨_, _, hu, parseMembers_text h' (by omega), rfl⟩⟩)

end

/-! ## The lookups -/

theorem SupportedString.cString {x t : List UInt8} (h : SupportedString x t) : cString x = x := by
  have hall : ∀ b ∈ x, b ≠ 0 := by
    induction h with
    | nil => exact fun b hb => absurd hb not_mem_nil
    | byte hzero _ _ _ ih => exact forall_mem_cons.mpr ⟨hzero, ih⟩
    | @escape e b s t he _ ih =>
      refine forall_mem_cons.mpr ⟨?_, ih⟩
      fin_cases he <;> decide
  exact takeWhile_eq_self_iff.mpr fun b hb => decide_eq_true (hall b hb)

/-- A value that stands in some document. -/
def InDocument (v : JsonValue (List UInt8) ℤ) : Prop :=
  ∃ t, ValueText SupportedString (fun z t => t = decimal z) v t

theorem ElementText.inDocument {v : JsonValue (List UInt8) ℤ} {t : List UInt8}
    (h : ElementText SupportedString (fun z t => t = decimal z) v t) : InDocument v := by
  obtain ⟨-, h, -⟩ := h
  exact ⟨_, h⟩

theorem inDocument_of_elements : ∀ {vs : List (JsonValue (List UInt8) ℤ)} {t : List UInt8},
    ElementsText SupportedString (fun z t => t = decimal z) vs t → ∀ v ∈ vs, InDocument v
  | _, _, .last h => forall_mem_singleton.mpr h.inDocument
  | _, _, .cons h h' => forall_mem_cons.mpr ⟨h.inDocument, inDocument_of_elements h'⟩

theorem inDocument_of_members : ∀ {ms : List (List UInt8 × JsonValue (List UInt8) ℤ)} {t : List UInt8},
    MembersText SupportedString (fun z t => t = decimal z) ms t →
    ∀ m ∈ ms, cString m.1 = m.1 ∧ InDocument m.2
  | _, _, .last (.mk _ hs _ h) => forall_mem_singleton.mpr ⟨hs.cString, h.inDocument⟩
  | _, _, .cons (.mk _ hs _ h) h' =>
    forall_mem_cons.mpr ⟨⟨hs.cString, h.inDocument⟩, inDocument_of_members h'⟩

theorem InDocument.members {ms : List (List UInt8 × JsonValue (List UInt8) ℤ)} (h : InDocument (.obj ms)) :
    ∀ m ∈ ms, cString m.1 = m.1 ∧ InDocument m.2 := by
  obtain ⟨t, h⟩ := h
  cases h with
  | objNil => exact fun m hm => absurd hm not_mem_nil
  | obj h => exact inDocument_of_members h

theorem InDocument.items {v : JsonValue (List UInt8) ℤ} (h : InDocument v) : ∀ x ∈ v.items, InDocument x := by
  cases v with
  | obj ms =>
    intro x hx
    obtain ⟨m, hm, rfl⟩ := mem_map.mp hx
    exact (h.members m hm).2
  | arr vs =>
    obtain ⟨t, h⟩ := h
    cases h with
    | arrNil => exact fun x hx => absurd hx not_mem_nil
    | arr h => exact inDocument_of_elements h
  | _ => exact fun x hx => absurd hx not_mem_nil

/-- A lookup by key finds the member of that name. -/
theorem InDocument.jsonGet {v : JsonValue (List UInt8) ℤ} (h : InDocument v) {k : List UInt8}
    (hk : cString k = k) : jsonGet (v.mapNum decimal) k = (v.member? k).map (JsonValue.mapNum decimal) := by
  cases v with
  | obj ms =>
    rw [JsonValue.mapNum, RecoveryQt.jsonGet, JsonValue.member?, find?_map, Option.map_map, Option.map_map]
    refine congrArg _ (find?_congr fun m hm => ?_)
    simp only [Function.comp_apply, (h.members m hm).1, hk]
  | _ => rw [JsonValue.mapNum]; rfl

theorem InDocument.member {v x : JsonValue (List UInt8) ℤ} (h : InDocument v) {k : List UInt8}
    (hx : v.member? k = some x) : InDocument x := by
  cases v with
  | obj ms =>
    obtain ⟨m, hm, rfl⟩ := Option.map_eq_some_iff.mp hx
    exact (h.members m (mem_of_find?_eq_some hm)).2
  | _ => cases hx

theorem InDocument.jsonAt {v : JsonValue (List UInt8) ℤ} (h : InDocument v)
    {path : List (JsonStep (List UInt8))} (hpath : ∀ k, .key k ∈ path → cString k = k) :
    jsonAt (v.mapNum decimal) path = (v.at? path).map (JsonValue.mapNum decimal) := by
  induction path generalizing v with
  | nil => rfl
  | cons step path ih =>
    have hrest : ∀ k, .key k ∈ path → cString k = k := fun k hk => hpath k (mem_cons_of_mem _ hk)
    have hstep : ∀ o : Option (JsonValue (List UInt8) ℤ), (∀ x ∈ o, InDocument x) →
        ((o.map (JsonValue.mapNum decimal)).bind fun n => RecoveryQt.jsonAt n path) =
          (o.bind fun v => v.at? path).map (JsonValue.mapNum decimal) := by
      rintro (_ | x) ho
      · rfl
      · exact ih (ho x rfl) hrest
    cases step with
    | key k =>
      have hkey := hstep (v.member? k) fun x hx => h.member hx
      rw [← h.jsonGet (hpath k mem_cons_self)] at hkey
      exact hkey
    | index i =>
      have hindex := hstep v.items[i]? fun x hx => h.items x (mem_of_getElem? hx)
      rw [← getElem?_map, ← JsonValue.items_mapNum] at hindex
      exact hindex

/-- The digits of a number have its value. -/
theorem ofDigits_decimalNat (n : ℕ) :
    Nat.ofDigits 10 ((decimalNat n).map fun b => (b - 0x30).toNat).reverse = n := by
  unfold decimalNat
  split_ifs with h
  · rw [h]
    rfl
  · have hdigits : ((Nat.digits 10 n).map fun d => (0x30 + UInt8.ofNat d - 0x30).toNat) = Nat.digits 10 n := by
      refine (map_congr_left fun d hd => ?_).trans (map_id _)
      have hd : d < 10 := Nat.digits_lt_base (by decide) hd
      interval_cases d <;> rfl
    rw [map_map, map_reverse, reverse_reverse, Function.comp_def, hdigits, Nat.ofDigits_digits]

theorem strtoull_decimal {n : ℕ} (hn : n < 2 ^ 64) : strtoull (decimal n) = n := by
  have hall : ∀ b ∈ decimal n, isDigit b := fun b hb => isDigit_of_mem_decimalNat hb
  obtain ⟨c, u, hu⟩ := exists_cons_of_ne_nil (decimal_ne_nil n)
  have hc : isDigit c := hall c (hu ▸ mem_cons_self)
  have hspace : ((decimal n).dropWhile fun b => b = 0x20 || 0x09 ≤ b && b ≤ 0x0D) = decimal n := by
    rw [hu]
    refine dropWhile_cons_of_neg fun hspace => ?_
    simp only [isDigit, Bool.and_eq_true, Bool.or_eq_true, decide_eq_true_eq] at hc hspace
    rcases hspace with rfl | hspace
    · exact absurd hc.1 (by decide)
    · exact absurd (UInt8.le_trans hc.1 hspace.2) (by decide)
  have hsign : ∀ b, isDigit b = false → (decimal n).head? ≠ some b := by
    rintro b hb hhead
    rw [hu, head?_cons, Option.some.injEq] at hhead
    rw [hhead, hb] at hc
    exact Bool.false_ne_true hc
  have hvalue := ofDigits_decimalNat n
  rw [strtoull]
  simp only [hspace, hsign 0x2D rfl, hsign 0x2B rfl, or_self, if_false, takeWhile_eq_self_iff.mpr hall]
  rw [show decimal n = decimalNat n from rfl, hvalue, if_neg (not_le.mpr hn)]

/-- An integer of a document is read as what it is, if it fits in 64 bits. -/
theorem InDocument.jsonU64 {v : JsonValue (List UInt8) ℤ} (h : InDocument v) {k : List UInt8}
    (hk : cString k = k) {n : ℕ} (hn : n < 2 ^ 64) (hmember : v.member? k = some (.num n)) (dflt : ℕ) :
    jsonU64 (v.mapNum decimal) k dflt = n := by
  rw [RecoveryQt.jsonU64, jsonStr, h.jsonGet hk, hmember, Option.map_some, JsonValue.mapNum]
  exact strtoull_decimal hn

/-- **A document is read back**, and every path of lookups leads in what was read where it leads in the
document. -/
theorem jsonParse_writtenJson {v : JsonValue (List UInt8) ℤ} {s : List UInt8} (h : WrittenJson v s) :
    (jsonParse s).map Prod.fst = some (v.mapNum decimal) ∧
      ∀ path : List (JsonStep (List UInt8)), (∀ k, .key k ∈ path → cString k = k) →
        jsonAt (v.mapNum decimal) path = (v.at? path).map (JsonValue.mapNum decimal) := by
  refine ⟨?_, fun path hpath => (ElementText.inDocument h).jsonAt hpath⟩
  obtain ⟨u, hu, -⟩ := parseValue_element h (le_refl (3 * s.length + 1)) (r := []) (by rintro c ⟨⟩)
  rw [append_nil] at hu
  rw [jsonParse, hu, Option.map_some]

theorem white_nil : White [] := fun _ hb => absurd hb not_mem_nil

/-- The text of `[7, {"a":true}]`. -/
def listText : List UInt8 :=
  0x5B :: (([] ++ ([0x37] ++ []) ++ 0x2C :: ([0x20] ++ ((0x7B :: (([] ++ 0x22 :: ([0x61] ++ 0x22 :: ([] ++
    0x3A :: ([] ++ ([0x74, 0x72, 0x75, 0x65] ++ []))))) ++ [0x7D])) ++ []))) ++ [0x5D])

theorem listText_read : (jsonParse listText).map Prod.fst =
    some (JsonValue.mapNum decimal (.arr [.num 7, .obj [([0x61], .bool true)]])) ∧
      ∀ path : List (JsonStep (List UInt8)), (∀ k, .key k ∈ path → cString k = k) →
        jsonAt (JsonValue.mapNum decimal (.arr [.num 7, .obj [([0x61], .bool true)]])) path =
          (JsonValue.at? (.arr [.num 7, .obj [([0x61], .bool true)]]) path).map (JsonValue.mapNum decimal) := by
  have hseven : ElementText SupportedString (fun z t => t = decimal z) (.num 7) ([] ++ ([0x37] ++ [])) :=
    .mk white_nil (.num rfl) white_nil
  have htrue : MemberText SupportedString (fun z t => t = decimal z) ([0x61], .bool true)
      ([] ++ 0x22 :: ([0x61] ++ 0x22 :: ([] ++ 0x3A :: ([] ++ ([0x74, 0x72, 0x75, 0x65] ++ []))))) :=
    .mk white_nil (.byte (by decide) (by decide) (by decide) .nil) white_nil (.mk white_nil .yes white_nil)
  have hobject := ElementText.mk (forall_mem_singleton.mpr rfl : White [0x20]) (.obj (.last htrue)) white_nil
  have h : WrittenJson (.arr [.num 7, .obj [([0x61], .bool true)]]) ([] ++ (listText ++ [])) :=
    .mk white_nil (.arr (.cons hseven (.last hobject))) white_nil
  exact jsonParse_writtenJson h

end RecoveryQt
