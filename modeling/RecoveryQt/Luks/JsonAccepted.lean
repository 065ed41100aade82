import RecoveryQt.Luks.Json

/-!
# What the JSON parser accepts

* `lexeme`, `lexemes`: the marks and words of an input;
* `Spelled`: read one by one up to where the brackets are closed, the words are spelled as in the RFC,
  and a value stands where one is due;
* `StringText.stringEnd`: the first pass finds the end of a string of the RFC;
* `ValueText.spelled`: the texts of the RFC are spelled so;
* `spelled_parseValue`: what the parser takes and is spelled so is a text of the RFC;
* **`accepted_isJson_iff`**.
-/

namespace RecoveryQt

open List

/-! ## Marks and words -/

/-- A bracket, comma or colon; or the text of a string, literal or number. -/
inductive Lexeme
  | mark (b : UInt8)
  | word (t : List UInt8)
  deriving DecidableEq

/-- The first of an input, and what follows. A word that starts with a letter has as many bytes as the literal
of that letter. -/
def lexeme (s : List UInt8) : Option (Lexeme × List UInt8) :=
  match skipWs s with
  | [] => none
  | c :: t =>
    if c ∈ [0x7B, 0x7D, 0x5B, 0x5D, 0x2C, 0x3A] then some (.mark c, t)
    else if c = 0x22 then (stringEnd t).map fun p => (.word (0x22 :: (p.1 ++ [0x22])), p.2)
    else if c = 0x66 then some (.word ((c :: t).take 5), (c :: t).drop 5)
    else if c = 0x74 ∨ c = 0x6E then some (.word ((c :: t).take 4), (c :: t).drop 4)
    else if isNumberByte c then
      some (.word ((c :: t).takeWhile isNumberByte), (c :: t).dropWhile isNumberByte)
    else none

theorem length_lt_of_lexeme {s r : List UInt8} {l : Lexeme} (h : lexeme s = some (l, r)) :
    r.length < s.length := by
  unfold lexeme at h
  cases hs : skipWs s with
  | nil => simp [hs] at h
  | cons c t =>
    have hlt := length_lt_of_skipWs hs
    have hle : t.length < s.length := hlt
    simp only [hs] at h
    split_ifs at h with h1 h2 h3 h4 h5
    · cases h
      exact hlt
    · obtain ⟨p, hp, ⟨⟩⟩ := Option.map_eq_some_iff.mp h
      rw [eq_of_stringEnd hp, length_append, length_cons] at hlt
      omega
    · cases h
      simp only [length_drop, length_cons]
      omega
    · cases h
      simp only [length_drop, length_cons]
      omega
    · cases h
      rw [dropWhile_cons_of_pos h5]
      exact (length_dropWhile_le _ _).trans_lt hlt

/-- The marks and words of an input, up to the first byte that starts none. -/
def lexemes (s : List UInt8) : List Lexeme :=
  match _h : lexeme s with
  | none => []
  | some (l, r) => l :: lexemes r
termination_by s.length
decreasing_by exact length_lt_of_lexeme _h

/-- A string, a number or a literal, spelled as in the RFC. -/
def IsWord (t : List UInt8) : Prop :=
  t = [0x6E, 0x75, 0x6C, 0x6C] ∨ t = [0x74, 0x72, 0x75, 0x65] ∨ t = [0x66, 0x61, 0x6C, 0x73, 0x65] ∨
    NumberText t ∨ ∃ body, StringText body ∧ t = 0x22 :: (body ++ [0x22])

/-- Where the reading stands: where a value or a name is due, behind an opening bracket, or behind a value or
a name. -/
inductive Place
  | due
  | opened (close : UInt8)
  | done
  deriving DecidableEq

/-- Up to where all `depth` brackets are closed every word is spelled as in the RFC; and commas, colons and
closing brackets stand behind values, but for the closing bracket of an empty pair. -/
def Spelled : ℕ → Place → List Lexeme → Prop
  | _, _, [] => False
  | depth, _, .word t :: ls => IsWord t ∧ (depth = 0 ∨ Spelled depth .done ls)
  | depth, p, .mark b :: ls =>
    if b = 0x7B then Spelled (depth + 1) (.opened 0x7D) ls
    else if b = 0x5B then Spelled (depth + 1) (.opened 0x5D) ls
    else if b = 0x2C ∨ b = 0x3A then p = .done ∧ Spelled depth .due ls
    else (p = .done ∨ p = .opened b) ∧ (depth = 1 ∨ Spelled (depth - 1) .done ls)

variable {s r : List UInt8} {depth : ℕ} {p : Place}

theorem lexemes_eq (s : List UInt8) : lexemes s = (lexeme s).elim [] fun q => q.1 :: lexemes q.2 := by
  rw [lexemes]
  split <;> rename_i h <;> rw [h] <;> rfl

theorem lexemes_of_lexeme {l : Lexeme} (h : lexeme s = some (l, r)) : lexemes s = l :: lexemes r := by
  rw [lexemes_eq, h]
  rfl

/-- White space in front changes nothing. -/
theorem lexemes_congr {s' : List UInt8} (h : skipWs s = skipWs s') : lexemes s = lexemes s' := by
  rw [lexemes_eq, lexemes_eq, lexeme, lexeme, h]

theorem lexemes_mark {b : UInt8} (hb : b ∈ [0x7B, 0x7D, 0x5B, 0x5D, 0x2C, 0x3A]) (h : skipWs s = b :: r) :
    lexemes s = .mark b :: lexemes r :=
  lexemes_of_lexeme (by rw [lexeme, h]; exact if_pos hb)

/-! ## The texts of the RFC are spelled so -/

theorem stringEnd_plain {l : List UInt8} (hl : ∀ b ∈ l, b ≠ 0x22 ∧ b ≠ 0x5C) (s : List UInt8) :
    stringEnd (l ++ s) = (stringEnd s).map fun p => (l ++ p.1, p.2) := by
  induction l with
  | nil => simp
  | cons b l ih =>
    obtain ⟨hb, hl⟩ := forall_mem_cons.mp hl
    rw [cons_append, stringEnd_cons hb.1 hb.2, ih hl, Option.map_map]
    rfl

/-- The first pass finds the end of a string of the RFC. -/
theorem StringText.stringEnd {t : List UInt8} (h : StringText t) (r : List UInt8) :
    stringEnd (t ++ 0x22 :: r) = some (t, r) := by
  induction h with
  | nil => exact stringEnd_quote r
  | char c _ hquote hback _ ih =>
    rw [append_assoc, stringEnd_plain fun b hb => plain_of_mem_utf8EncodeChar hquote hback hb, ih, Option.map_some]
  | escape _ _ ih => rw [cons_append, cons_append, stringEnd_escape, ih, Option.map_some]
  | @unicode x t _ hex _ ih =>
    have hplain : ∀ b ∈ x, b ≠ 0x22 ∧ b ≠ 0x5C := fun b hb => by
      have := hex b hb
      constructor <;> · rintro rfl; exact absurd this (by decide)
    rw [cons_append, cons_append, append_assoc, stringEnd_escape, stringEnd_plain hplain, ih, Option.map_some,
      Option.map_some]

theorem isNumberByte_of_isDigit {b : UInt8} (h : isDigit b) : isNumberByte b := by
  rw [isNumberByte, h]
  rfl

theorem rfc_numberBytes : NumberBytes RfcNumber := by
  rintro _ t ⟨rfl, sign, int, frac, exp, rfl, hsign, ⟨⟨hne, hint⟩, -⟩, hfrac, hexp⟩
  refine ⟨by simp [hne], ?_⟩
  simp only [forall_mem_append]
  refine ⟨⟨⟨?_, fun b hb => isNumberByte_of_isDigit (hint b hb)⟩, ?_⟩, ?_⟩
  · rcases hsign with rfl | rfl
    · exact fun b hb => absurd hb not_mem_nil
    · exact forall_mem_singleton.mpr rfl
  · rcases hfrac with rfl | ⟨ds, hds, rfl⟩
    · exact fun b hb => absurd hb not_mem_nil
    · exact forall_mem_cons.mpr ⟨rfl, fun b hb => isNumberByte_of_isDigit (hds.2 b hb)⟩
  · rcases hexp with rfl | ⟨e, s, ds, he, hs, hds, rfl⟩
    · exact fun b hb => absurd hb not_mem_nil
    · refine forall_mem_cons.mpr ⟨by rcases he with rfl | rfl <;> rfl, forall_mem_append.mpr ⟨?_, fun b hb =>
        isNumberByte_of_isDigit (hds.2 b hb)⟩⟩
      rcases hs with rfl | rfl | rfl
      · exact fun b hb => absurd hb not_mem_nil
      · exact forall_mem_singleton.mpr rfl
      · exact forall_mem_singleton.mpr rfl

theorem spelled_word {t : List UInt8} (ht : lexeme (t ++ r) = some (.word t, r)) (hword : IsWord t)
    (hr : depth = 0 ∨ Spelled depth .done (lexemes r)) : Spelled depth p (lexemes (t ++ r)) := by
  rw [lexemes_of_lexeme ht]
  exact ⟨hword, hr⟩

theorem spelled_string {body : List UInt8} (h : StringText body)
    (hr : depth = 0 ∨ Spelled depth .done (lexemes r)) :
    Spelled depth p (lexemes (0x22 :: (body ++ 0x22 :: r))) := by
  have hword := spelled_word (p := p) (t := 0x22 :: (body ++ [0x22])) (r := r) (by
    rw [lexeme, cons_append, append_assoc, skipWs_cons rfl, singleton_append]
    simp only [h.stringEnd]
    rfl) (.inr (.inr (.inr (.inr ⟨body, h, rfl⟩)))) hr
  rwa [cons_append, append_assoc, singleton_append] at hword

theorem spelled_number {t : List UInt8} (h : NumberText t) (hdel : Delimited r)
    (hr : depth = 0 ∨ Spelled depth .done (lexemes r)) : Spelled depth p (lexemes (t ++ r)) := by
  obtain ⟨hne, hall⟩ := rfc_numberBytes _ t ⟨rfl, h⟩
  obtain ⟨htake, hdrop⟩ := takeWhile_number hall hdel
  obtain ⟨c, u, rfl⟩ := exists_cons_of_ne_nil hne
  have hc : isNumberByte c := hall c mem_cons_self
  have hother : ∀ b, isNumberByte b = false → c ≠ b := by
    rintro b hb rfl
    rw [hb] at hc
    exact Bool.false_ne_true hc
  refine spelled_word ?_ (.inr (.inr (.inr (.inl h)))) hr
  rw [cons_append] at htake hdrop
  rw [lexeme, cons_append, skipWs_cons (isWhite_of_isNumberByte hc)]
  simp only [mem_cons, not_mem_nil, or_false, hother 0x7B rfl, hother 0x7D rfl, hother 0x5B rfl, hother 0x5D rfl,
    hother 0x2C rfl, hother 0x3A rfl, hother 0x22 rfl, hother 0x66 rfl, hother 0x74 rfl, hother 0x6E rfl, hc,
    htake, hdrop, if_false, if_true]

/-- Behind what stands in the brackets comes the closing one. -/
theorem spelled_close {close : UInt8} (hclose : close = 0x7D ∨ close = 0x5D)
    (hp : p = .done ∨ p = .opened close) (hr : depth = 0 ∨ Spelled depth .done (lexemes r)) :
    Spelled (depth + 1) p (lexemes (close :: r)) := by
  have hmark : lexemes (close :: r) = .mark close :: lexemes r := by
    rcases hclose with rfl | rfl <;> exact lexemes_mark (by decide) (skipWs_cons rfl r)
  rw [hmark, Spelled]
  have hne : close ≠ 0x7B ∧ close ≠ 0x5B ∧ close ≠ 0x2C ∧ close ≠ 0x3A := by
    rcases hclose with rfl | rfl <;> decide
  rw [if_neg hne.1, if_neg hne.2.1, if_neg (not_or.mpr hne.2.2)]
  exact ⟨hp, hr.imp (congrArg (· + 1)) id⟩

theorem spelled_comma {b : UInt8} (hb : b = 0x2C ∨ b = 0x3A) (hr : Spelled depth .due (lexemes r)) :
    Spelled depth .done (lexemes (b :: r)) := by
  have hmark : lexemes (b :: r) = .mark b :: lexemes r := by
    rcases hb with rfl | rfl <;> exact lexemes_mark (by decide) (skipWs_cons rfl r)
  have hne : b ≠ 0x7B ∧ b ≠ 0x5B := by rcases hb with rfl | rfl <;> decide
  rw [hmark, Spelled, if_neg hne.1, if_neg hne.2, if_pos hb]
  exact ⟨rfl, hr⟩

theorem delimited_of_mem {b : UInt8} (hb : b ∈ [0x2C, 0x3A, 0x5D, 0x7D]) (r : List UInt8) :
    Delimited (b :: r) := by
  rintro c ⟨⟩
  exact Bool.eq_false_iff.mpr fun hnum => not_startsValue_of_mem hb (.inl hnum)

mutual

/-- The values of the RFC are spelled so. -/
theorem ValueText.spelled : ∀ {v : JNode} {t : List UInt8}, ValueText RfcString RfcNumber v t →
    ∀ {depth : ℕ} {p : Place} {r : List UInt8}, ((∃ x, v = .num x) → Delimited r) →
    (depth = 0 ∨ Spelled depth .done (lexemes r)) → Spelled depth p (lexemes (t ++ r))
  | _, _, .null, _, _, _, _, hr => spelled_word rfl (.inl rfl) hr
  | _, _, .yes, _, _, _, _, hr => spelled_word rfl (.inr (.inl rfl)) hr
  | _, _, .no, _, _, _, _, hr => spelled_word rfl (.inr (.inr (.inl rfl))) hr
  | _, _, .num h, _, _, _, hdel, hr => spelled_number h.2 (hdel ⟨_, rfl⟩) hr
  | _, _, .str ⟨_, h⟩, _, _, r, _, hr => by
    rw [cons_append, append_assoc, singleton_append]
    exact spelled_string h hr
  | _, _, @ValueText.arrNil _ _ _ _ w hw, _, _, r, _, hr => by
    have hmark := lexemes_mark (s := 0x5B :: (w ++ 0x5D :: r)) (by decide) (skipWs_cons rfl _)
    rw [cons_append, append_assoc, singleton_append, hmark, lexemes_congr (skipWs_append hw (0x5D :: r))]
    exact spelled_close (.inr rfl) (.inr rfl) hr
  | _, _, @ValueText.arr _ _ _ _ vs t h, _, _, r, _, hr => by
    have hmark := lexemes_mark (s := 0x5B :: (t ++ 0x5D :: r)) (by decide) (skipWs_cons rfl _)
    rw [cons_append, append_assoc, singleton_append, hmark]
    exact h.spelled (delimited_of_mem (by decide) r) (spelled_close (.inr rfl) (.inl rfl) hr)
  | _, _, @ValueText.objNil _ _ _ _ w hw, _, _, r, _, hr => by
    have hmark := lexemes_mark (s := 0x7B :: (w ++ 0x7D :: r)) (by decide) (skipWs_cons rfl _)
    rw [cons_append, append_assoc, singleton_append, hmark, lexemes_congr (skipWs_append hw (0x7D :: r))]
    exact spelled_close (.inl rfl) (.inr rfl) hr
  | _, _, @ValueText.obj _ _ _ _ ms t h, _, _, r, _, hr => by
    have hmark := lexemes_mark (s := 0x7B :: (t ++ 0x7D :: r)) (by decide) (skipWs_cons rfl _)
    rw [cons_append, append_assoc, singleton_append, hmark]
    exact h.spelled (delimited_of_mem (by decide) r) (spelled_close (.inl rfl) (.inl rfl) hr)

theorem ElementText.spelled : ∀ {v : JNode} {t : List UInt8}, ElementText RfcString RfcNumber v t →
    ∀ {depth : ℕ} {p : Place} {r : List UInt8}, Delimited r → (depth = 0 ∨ Spelled depth .done (lexemes r)) →
    Spelled depth p (lexemes (t ++ r))
  | _, _, .mk hw h hw', _, _, r, hdel, hr => by
    rw [append_assoc, append_assoc, lexemes_congr (skipWs_append hw _)]
    exact h.spelled (fun _ => hdel.append hw') (by rwa [lexemes_congr (skipWs_append hw' r)])

/-- The elements of the RFC are spelled so, and the closing bracket is left. -/
theorem ElementsText.spelled : ∀ {vs : List JNode} {t : List UInt8}, ElementsText RfcString RfcNumber vs t →
    ∀ {depth : ℕ} {p : Place} {r : List UInt8}, Delimited r → Spelled (depth + 1) .done (lexemes r) →
    Spelled (depth + 1) p (lexemes (t ++ r))
  | _, _, .last h, _, _, _, hdel, hr => h.spelled hdel (.inr hr)
  | _, _, .cons h h', _, _, _, hdel, hr => by
    rw [append_assoc, cons_append]
    exact h.spelled (delimited_of_mem (by decide) _) (.inr (spelled_comma (.inl rfl) (h'.spelled hdel hr)))

theorem MemberText.spelled : ∀ {m : List UInt8 × JNode} {t : List UInt8}, MemberText RfcString RfcNumber m t →
    ∀ {depth : ℕ} {p : Place} {r : List UInt8}, Delimited r → Spelled (depth + 1) .done (lexemes r) →
    Spelled (depth + 1) p (lexemes (t ++ r))
  | _, _, @MemberText.mk _ _ _ _ _ _ w s w' t hw ⟨_, hs⟩ hw' h, depth, _, r, hdel, hr => by
    have hcolon : Spelled (depth + 1) .done (lexemes (w' ++ 0x3A :: (t ++ r))) := by
      rw [lexemes_congr (skipWs_append hw' _)]
      exact spelled_comma (.inr rfl) (h.spelled hdel (.inr hr))
    rw [append_assoc, lexemes_congr (skipWs_append hw _), cons_append, append_assoc, cons_append, append_assoc,
      cons_append]
    exact spelled_string hs (.inr hcolon)

/-- The members of the RFC are spelled so, and the closing bracket is left. -/
theorem MembersText.spelled : ∀ {ms : List (List UInt8 × JNode)} {t : List UInt8},
    MembersText RfcString RfcNumber ms t →
    ∀ {depth : ℕ} {p : Place} {r : List UInt8}, Delimited r → Spelled (depth + 1) .done (lexemes r) →
    Spelled (depth + 1) p (lexemes (t ++ r))
  | _, _, .last h, _, _, _, hdel, hr => h.spelled hdel hr
  | _, _, .cons h h', _, _, _, hdel, hr => by
    rw [append_assoc, cons_append]
    exact h.spelled (delimited_of_mem (by decide) _) (spelled_comma (.inl rfl) (h'.spelled hdel hr))

end

/-! ## What the parser takes is a text of the RFC, if it is spelled so -/

theorem isNumberByte_of_numberText {c : UInt8} {t : List UInt8} (h : NumberText (c :: t)) : isNumberByte c :=
  (rfc_numberBytes _ _ ⟨rfl, h⟩).2 c mem_cons_self

/-- A word that starts as a string is one. -/
theorem IsWord.string {body : List UInt8} (h : IsWord (0x22 :: (body ++ [0x22]))) : StringText body := by
  rcases h with h | h | h | h | ⟨body', hbody, h⟩
  · cases h
  · cases h
  · cases h
  · exact absurd (isNumberByte_of_numberText h) (by decide)
  · rwa [append_cancel_right (List.cons.inj h).2]

theorem IsWord.literal_true {t : List UInt8} (h : IsWord (0x74 :: t)) :
    0x74 :: t = [0x74, 0x72, 0x75, 0x65] := by
  rcases h with h | h | h | h | ⟨body', hbody, h⟩
  · cases h
  · exact h
  · cases h
  · exact absurd (isNumberByte_of_numberText h) (by decide)
  · cases h

theorem IsWord.literal_false {t : List UInt8} (h : IsWord (0x66 :: t)) :
    0x66 :: t = [0x66, 0x61, 0x6C, 0x73, 0x65] := by
  rcases h with h | h | h | h | ⟨body', hbody, h⟩
  · cases h
  · cases h
  · exact h
  · exact absurd (isNumberByte_of_numberText h) (by decide)
  · cases h

theorem IsWord.literal_null {t : List UInt8} (h : IsWord (0x6E :: t)) :
    0x6E :: t = [0x6E, 0x75, 0x6C, 0x6C] := by
  rcases h with h | h | h | h | ⟨body', hbody, h⟩
  · exact h
  · cases h
  · cases h
  · exact absurd (isNumberByte_of_numberText h) (by decide)
  · cases h

/-- A word that starts neither as a string nor as a literal is a number. -/
theorem IsWord.number {c : UInt8} {t : List UInt8} (h : IsWord (c :: t)) (hc : c ∉ [0x22, 0x74, 0x66, 0x6E]) :
    NumberText (c :: t) := by
  rcases h with h | h | h | h | ⟨body', hbody, h⟩
  · exact absurd (List.cons.inj h).1 fun h => hc (by rw [h]; decide)
  · exact absurd (List.cons.inj h).1 fun h => hc (by rw [h]; decide)
  · exact absurd (List.cons.inj h).1 fun h => hc (by rw [h]; decide)
  · exact h
  · exact absurd (List.cons.inj h).1 fun h => hc (by rw [h]; decide)

theorem spelled_of_word {t : List UInt8} (ht : lexeme s = some (.word t, r)) (h : Spelled depth p (lexemes s)) :
    IsWord t ∧ (depth = 0 ∨ Spelled depth .done (lexemes r)) := by
  rwa [lexemes_of_lexeme ht] at h

theorem spelled_of_string {body : List UInt8} (hs : skipWs s = 0x22 :: (body ++ 0x22 :: r))
    (hend : stringEnd (body ++ 0x22 :: r) = some (body, r)) (h : Spelled depth p (lexemes s)) :
    StringText body ∧ (depth = 0 ∨ Spelled depth .done (lexemes r)) := by
  have hword : lexeme s = some (.word (0x22 :: (body ++ [0x22])), r) := by
    rw [lexeme, hs]
    simp only [hend]
    rfl
  exact (spelled_of_word hword h).imp IsWord.string id

theorem spelled_of_comma {b : UInt8} (hb : b = 0x2C ∨ b = 0x3A) (hs : skipWs s = b :: r)
    (h : Spelled depth p (lexemes s)) : Spelled depth .due (lexemes r) := by
  have hmark : lexemes s = .mark b :: lexemes r := by
    rcases hb with rfl | rfl <;> exact lexemes_mark (by decide) hs
  have hne : b ≠ 0x7B ∧ b ≠ 0x5B := by rcases hb with rfl | rfl <;> decide
  rw [hmark, Spelled, if_neg hne.1, if_neg hne.2, if_pos hb] at h
  exact h.2

theorem spelled_of_close {close : UInt8} (hclose : close = 0x7D ∨ close = 0x5D) (hs : skipWs s = close :: r)
    (h : Spelled depth p (lexemes s)) :
    (p = .done ∨ p = .opened close) ∧ (depth = 1 ∨ Spelled (depth - 1) .done (lexemes r)) := by
  have hmark : lexemes s = .mark close :: lexemes r := by
    rcases hclose with rfl | rfl <;> exact lexemes_mark (by decide) hs
  have hne : close ≠ 0x7B ∧ close ≠ 0x5B ∧ close ≠ 0x2C ∧ close ≠ 0x3A := by
    rcases hclose with rfl | rfl <;> decide
  rwa [hmark, Spelled, if_neg hne.1, if_neg hne.2.1, if_neg (not_or.mpr hne.2.2)] at h

theorem not_spelled_nil (hs : skipWs s = []) : ¬ Spelled depth p (lexemes s) := by
  rw [lexemes_eq, lexeme, hs]
  exact id

theorem skipWs_of_mark {b : UInt8} (h : lexeme s = some (.mark b, r)) : skipWs s = b :: r := by
  unfold lexeme at h
  cases hs : skipWs s with
  | nil => simp [hs] at h
  | cons c t =>
    simp only [hs] at h
    split_ifs at h
    · cases h
      rfl
    · obtain ⟨q, -, hq⟩ := Option.map_eq_some_iff.mp h
      cases hq
    all_goals cases h

/-- Where no closing bracket follows the opening one a value is due. -/
theorem Spelled.due_of_opened {close : UInt8} (h : Spelled depth (.opened close) (lexemes s))
    (hs : (skipWs s).head? ≠ some close) : Spelled depth .due (lexemes s) := by
  cases hl : lexeme s with
  | none =>
    rw [lexemes_eq, hl] at h
    exact h.elim
  | some q =>
    obtain ⟨l, r⟩ := q
    rw [lexemes_of_lexeme hl] at h ⊢
    cases l with
    | word t => exact h
    | mark b =>
      rw [Spelled] at h ⊢
      split_ifs at h ⊢
      · exact h
      · exact h
      · exact absurd h.1 (by decide)
      · rcases h.1 with hp | hp
        · cases hp
        · cases hp
          exact absurd (by rw [skipWs_of_mark hl, head?_cons]) hs

/-- A word that starts otherwise is a number of the RFC. -/
theorem spelled_of_number {c : UInt8} {t : List UInt8} (hs : skipWs s = c :: t)
    (hc : c ∉ [0x7B, 0x7D, 0x5B, 0x5D, 0x2C, 0x3A] ∧ c ∉ [0x22, 0x74, 0x66, 0x6E])
    (h : Spelled depth p (lexemes s)) :
    NumberText ((c :: t).takeWhile isNumberByte) ∧
      (depth = 0 ∨ Spelled depth .done (lexemes ((c :: t).dropWhile isNumberByte))) := by
  obtain ⟨hmark, hother⟩ := hc
  have hlexeme : lexeme s = if isNumberByte c then
      some (.word ((c :: t).takeWhile isNumberByte), (c :: t).dropWhile isNumberByte) else none := by
    simp only [mem_cons, not_mem_nil, or_false, not_or] at hother
    rw [lexeme, hs]
    simp only [hmark, hother, or_self, if_false]
  by_cases hnum : isNumberByte c
  · obtain ⟨hword, hrest⟩ := spelled_of_word (hlexeme.trans (if_pos hnum)) h
    refine ⟨?_, hrest⟩
    rw [takeWhile_cons_of_pos hnum] at hword ⊢
    exact hword.number hother
  · rw [lexemes_eq, hlexeme, if_neg hnum] at h
    exact h.elim

/-- Where a value is due there is no comma, colon or closing bracket. -/
theorem not_spelled_due {b : UInt8} (hb : b ∈ [0x2C, 0x3A, 0x5D, 0x7D]) (hs : skipWs s = b :: r) :
    ¬ Spelled depth .due (lexemes s) := by
  have hmark : lexemes s = .mark b :: lexemes r := lexemes_mark (by revert hb; simp; tauto) hs
  rw [hmark, Spelled]
  simp only [mem_cons, not_mem_nil, or_false] at hb
  rcases hb with rfl | rfl | rfl | rfl <;> simp

mutual

/-- What the parser takes for a value is one of the RFC, if it is spelled so. -/
theorem isJson_of_parseValue : ∀ {n : ℕ} {s r : List UInt8} {v : JNode} {depth : ℕ},
    parseValue n s = some (v, r) → Spelled depth .due (lexemes s) →
    ∃ t, s = t ++ r ∧ IsJson t ∧ (depth = 0 ∨ Spelled depth .done (lexemes r))
  | 0, _, _, _, _, h, _ => by simp [parseValue] at h
  | n + 1, s, r, v, depth, h, hspelled => by
    obtain ⟨w, hw, hws⟩ := exists_white s
    obtain ⟨c, t, hct⟩ := exists_cons_of_ne_nil (ne_nil_of_parseValue h)
    rw [hct] at hws
    suffices hvalue : ∃ u v', c :: t = u ++ r ∧ ValueText RfcString RfcNumber v' u ∧
        (depth = 0 ∨ Spelled depth .done (lexemes r)) by
      obtain ⟨u, v', hu, htext, hrest⟩ := hvalue
      exact ⟨w ++ u, by rw [hws, hu, append_assoc], ⟨v', w, u, rfl, hw, htext⟩, hrest⟩
    rw [parseValue_succ n hct] at h
    split_ifs at h with hobject harray hstring htrue hfalse hnull
    · obtain rfl := hobject
      rw [lexemes_mark (by decide) hct, Spelled, if_pos rfl] at hspelled
      obtain ⟨u, v', hu, htext, hrest⟩ := isJson_of_parseObject h hspelled
      exact ⟨0x7B :: u, v', congrArg _ hu, htext, hrest⟩
    · obtain rfl := harray
      rw [lexemes_mark (by decide) hct, Spelled, if_neg (by decide), if_pos rfl] at hspelled
      obtain ⟨u, v', hu, htext, hrest⟩ := isJson_of_parseArray h hspelled
      exact ⟨0x5B :: u, v', congrArg _ hu, htext, hrest⟩
    · obtain ⟨⟨x, r'⟩, hq, hv⟩ := Option.map_eq_some_iff.mp h
      cases hv
      obtain ⟨body, hend, hbody⟩ := eq_of_parseString hq
      obtain ⟨htext, hrest⟩ := spelled_of_string (hct.trans hbody) hend hspelled
      exact ⟨_, .str body, by rw [hbody, cons_append, append_assoc, singleton_append], .str ⟨rfl, htext⟩, hrest⟩
    · cases h
      obtain rfl := htrue
      obtain ⟨hword, hrest⟩ := spelled_of_word (t := (0x74 :: t).take 4) (by rw [lexeme, hct]; rfl) hspelled
      have htake : take 4 (0x74 :: t) = _ := hword.literal_true
      exact ⟨_, .bool true, (take_append_drop 4 (0x74 :: t)).symm, htake ▸ .yes, hrest⟩
    · cases h
      obtain rfl := hfalse
      obtain ⟨hword, hrest⟩ := spelled_of_word (t := (0x66 :: t).take 5) (by rw [lexeme, hct]; rfl) hspelled
      have htake : take 5 (0x66 :: t) = _ := hword.literal_false
      exact ⟨_, .bool false, (take_append_drop 5 (0x66 :: t)).symm, htake ▸ .no, hrest⟩
    · cases h
      obtain rfl := hnull
      obtain ⟨hword, hrest⟩ := spelled_of_word (t := (0x6E :: t).take 4) (by rw [lexeme, hct]; rfl) hspelled
      have htake : take 4 (0x6E :: t) = _ := hword.literal_null
      exact ⟨_, .null, (take_append_drop 4 (0x6E :: t)).symm, htake ▸ .null, hrest⟩
    · cases h
      have hdue : c ∉ [0x2C, 0x3A, 0x5D, 0x7D] := fun hc => not_spelled_due hc hct hspelled
      obtain ⟨htext, hrest⟩ := spelled_of_number hct (by simp_all) hspelled
      exact ⟨_, .num _, takeWhile_append_dropWhile.symm, .num ⟨rfl, htext⟩, hrest⟩

/-- Behind an opening brace. -/
theorem isJson_of_parseObject : ∀ {n : ℕ} {s r : List UInt8} {v : JNode} {depth : ℕ},
    parseObject n s = some (v, r) → Spelled (depth + 1) (.opened 0x7D) (lexemes s) →
    ∃ u v', s = u ++ r ∧ ValueText RfcString RfcNumber v' (0x7B :: u) ∧
      (depth = 0 ∨ Spelled depth .done (lexemes r))
  | 0, _, _, _, _, h, _ => by simp [parseObject] at h
  | n + 1, s, r, v, depth, h, hspelled => by
    obtain ⟨w, hw, hws⟩ := exists_white s
    rcases parseObject_succ.mp h with ⟨hs, -⟩ | ⟨-, ms, hms, -⟩
    · rw [hs] at hws
      exact ⟨w ++ [0x7D], _, by rw [append_assoc, singleton_append, ← hws], .objNil hw,
        (spelled_of_close (.inl rfl) hs hspelled).2.imp Nat.succ.inj id⟩
    · rw [parseMembers_skipWs n fun hs => not_spelled_nil hs hspelled] at hms
      obtain ⟨u, ms', hu, htext, hrest⟩ := isJson_of_parseMembers hms hspelled
      exact ⟨u ++ [0x7D], _, by rw [append_assoc, singleton_append, ← hu], .obj htext, hrest⟩

/-- The members up to the closing brace. -/
theorem isJson_of_parseMembers : ∀ {n : ℕ} {s r : List UInt8} {ms : List (List UInt8 × JNode)} {depth : ℕ}
    {p : Place}, parseMembers n s = some (ms, r) → Spelled (depth + 1) p (lexemes s) →
    ∃ u ms', s = u ++ 0x7D :: r ∧ MembersText RfcString RfcNumber ms' u ∧
      (depth = 0 ∨ Spelled depth .done (lexemes r))
  | 0, _, _, _, _, _, h, _ => by simp [parseMembers] at h
  | n + 1, s, r, ms, depth, p, h, hspelled => by
    rcases parseMembers_succ.mp h with ⟨rfl, -⟩ | ⟨key, x, t, val, y, -, hkey, hcolon, hval, hbehind⟩
    · exact absurd hspelled (not_spelled_nil rfl)
    obtain ⟨w, hw, hws⟩ := exists_white s
    obtain ⟨w', hw', hws'⟩ := exists_white x
    obtain ⟨w'', hw'', hws''⟩ := exists_white y
    obtain ⟨body, hend, hbody⟩ := eq_of_parseString hkey
    obtain ⟨hstring, hx⟩ := spelled_of_string hbody hend hspelled
    have hx := hx.resolve_left (Nat.succ_ne_zero depth)
    obtain ⟨u, hu, ⟨v', w₁, u₁, hu₁, hw₁, hvalue⟩, hy⟩ :=
      isJson_of_parseValue hval (spelled_of_comma (.inr rfl) hcolon hx)
    have hy := hy.resolve_left (Nat.succ_ne_zero depth)
    obtain ⟨e, hmember, hs⟩ : ∃ e, MemberText RfcString RfcNumber (body, v') e ∧ s = e ++ skipWs y := by
      refine ⟨_, .mk hw ⟨rfl, hstring⟩ hw' (.mk hw₁ hvalue hw''), ?_⟩
      rw [hcolon] at hws'
      simp only [append_assoc, cons_append]
      rw [← hws'', ← append_assoc w₁, ← hu₁, ← hu, ← hws', ← hbody, ← hws]
    rcases hbehind with ⟨t', ms', hcomma, hmore, -⟩ | ⟨hclose, -⟩
    · obtain ⟨u', ms'', hu', htext, hrest⟩ := isJson_of_parseMembers hmore (spelled_of_comma (.inl rfl) hcomma hy)
      have happend : s = e ++ 0x2C :: u' ++ 0x7D :: r := by
        rw [hs, hcomma, hu', append_assoc _ (0x2C :: u')]
        rfl
      exact ⟨_, _, happend, .cons hmember htext, hrest⟩
    · exact ⟨_, _, by rw [hs, hclose], .last hmember, (spelled_of_close (.inl rfl) hclose hy).2.imp Nat.succ.inj id⟩

/-- Behind an opening bracket. -/
theorem isJson_of_parseArray : ∀ {n : ℕ} {s r : List UInt8} {v : JNode} {depth : ℕ},
    parseArray n s = some (v, r) → Spelled (depth + 1) (.opened 0x5D) (lexemes s) →
    ∃ u v', s = u ++ r ∧ ValueText RfcString RfcNumber v' (0x5B :: u) ∧
      (depth = 0 ∨ Spelled depth .done (lexemes r))
  | 0, _, _, _, _, h, _ => by simp [parseArray] at h
  | n + 1, s, r, v, depth, h, hspelled => by
    obtain ⟨w, hw, hws⟩ := exists_white s
    rcases parseArray_succ.mp h with ⟨hs, -⟩ | ⟨hhead, vs, hvs, -⟩
    · rw [hs] at hws
      exact ⟨w ++ [0x5D], _, by rw [append_assoc, singleton_append, ← hws], .arrNil hw,
        (spelled_of_close (.inr rfl) hs hspelled).2.imp Nat.succ.inj id⟩
    · rw [parseElems_skipWs n fun hs => not_spelled_nil hs hspelled] at hvs
      obtain ⟨u, vs', hu, htext, hrest⟩ := isJson_of_parseElems hvs (hspelled.due_of_opened hhead)
      exact ⟨u ++ [0x5D], _, by rw [append_assoc, singleton_append, ← hu], .arr htext, hrest⟩

/-- The elements up to the closing bracket. -/
theorem isJson_of_parseElems : ∀ {n : ℕ} {s r : List UInt8} {vs : List JNode} {depth : ℕ},
    parseElems n s = some (vs, r) → Spelled (depth + 1) .due (lexemes s) →
    ∃ u vs', s = u ++ 0x5D :: r ∧ ElementsText RfcString RfcNumber vs' u ∧
      (depth = 0 ∨ Spelled depth .done (lexemes r))
  | 0, _, _, _, _, h, _ => by simp [parseElems] at h
  | n + 1, s, r, vs, depth, h, hspelled => by
    rcases parseElems_succ.mp h with ⟨rfl, -⟩ | ⟨val, y, -, hval, hbehind⟩
    · exact absurd hspelled (not_spelled_nil rfl)
    obtain ⟨w', hw', hws'⟩ := exists_white y
    obtain ⟨u, hu, ⟨v', w, u₁, hu₁, hw, hvalue⟩, hy⟩ := isJson_of_parseValue hval hspelled
    have hy := hy.resolve_left (Nat.succ_ne_zero depth)
    obtain ⟨e, helement, hs⟩ : ∃ e, ElementText RfcString RfcNumber v' e ∧ s = e ++ skipWs y := by
      refine ⟨_, .mk hw hvalue hw', ?_⟩
      rw [append_assoc, append_assoc, ← hws', ← append_assoc w, ← hu₁, ← hu]
    rcases hbehind with ⟨t, vs', hcomma, hmore, -⟩ | ⟨hclose, -⟩
    · obtain ⟨u', vs'', hu', htext, hrest⟩ := isJson_of_parseElems hmore (spelled_of_comma (.inl rfl) hcomma hy)
      have happend : s = e ++ 0x2C :: u' ++ 0x5D :: r := by
        rw [hs, hcomma, hu', append_assoc _ (0x2C :: u')]
        rfl
      exact ⟨_, _, happend, .cons helement htext, hrest⟩
    · exact ⟨_, _, by rw [hs, hclose], .last helement, (spelled_of_close (.inr rfl) hclose hy).2.imp Nat.succ.inj id⟩

end

/-! ## The texts that the parser accepts -/

theorem delimited_dropWhile (s : List UInt8) : Delimited (s.dropWhile isNumberByte) := by
  intro c hc
  have hhead := head?_dropWhile_not isNumberByte s
  rw [Option.mem_def.mp hc] at hhead
  exact hhead

theorem spelled_of_isJson {v : JNode} {t : List UInt8} (h : jsonParse (t ++ r) = some (v, r))
    (ht : IsJson t) : Spelled 0 .due (lexemes (t ++ r)) := by
  obtain ⟨v', w, u, rfl, hw, htext⟩ := ht
  have hskip : skipWs (w ++ u ++ r) = u ++ r := by
    obtain ⟨c, u', rfl, hc⟩ := htext.head rfc_numberBytes
    rw [append_assoc, skipWs_append hw, cons_append, skipWs_cons hc.isWhite]
  rw [append_assoc, lexemes_congr (skipWs_append hw _)]
  refine htext.spelled ?_ (.inl rfl)
  -- the parser takes as many bytes for a number as it can
  rintro ⟨x, rfl⟩
  cases htext with
  | num htext =>
    obtain ⟨hne, hall⟩ := rfc_numberBytes x u htext
    obtain ⟨c, u', rfl⟩ := exists_cons_of_ne_nil hne
    rw [jsonParse, parseValue_number _ hskip (hall c mem_cons_self), Option.some.injEq, Prod.mk.injEq] at h
    rw [← h.2]
    exact delimited_dropWhile _

/-- **The parser accepts what is spelled as in the RFC, and more**: the bytes that it takes are a text of the RFC
exactly if the marks and words of the input are spelled so up to where the value ends. -/
theorem accepted_isJson_iff {v : JNode} (h : jsonParse s = some (v, r)) :
    (∃ t, s = t ++ r ∧ IsJson t) ↔ Spelled 0 .due (lexemes s) := by
  constructor
  · rintro ⟨t, rfl, ht⟩
    exact spelled_of_isJson h ht
  · intro hspelled
    obtain ⟨t, ht, hjson, -⟩ := isJson_of_parseValue h hspelled
    exact ⟨t, ht, hjson⟩

/-- The text of `{"0":1}`. -/
def memberText : List UInt8 := [0x7B, 0x22, 0x30, 0x22, 0x3A, 0x31, 0x7D]

theorem memberText_isJson_iff :
    (∃ t, memberText = t ++ [] ∧ IsJson t) ↔ Spelled 0 .due (lexemes memberText) :=
  accepted_isJson_iff (show jsonParse memberText = some (.obj [([0x30], .num [0x31])], []) from rfl)

/-- The text of `{"0":1,"1":2}`, cut behind the comma. -/
def cutText : List UInt8 := [0x7B, 0x22, 0x30, 0x22, 0x3A, 0x31, 0x2C]

/-- A document that is cut behind a comma is accepted without the members behind it. -/
theorem cutText_accepted : jsonParse cutText = some (.obj [([0x30], .num [0x31])], []) ∧
    ¬ ∃ t, cutText = t ++ [] ∧ IsJson t := by
  have h : jsonParse cutText = some (.obj [([0x30], .num [0x31])], []) := rfl
  refine ⟨h, ?_⟩
  rintro ⟨t, ht, hjson⟩
  rw [ht] at h
  have hspelled := spelled_of_isJson h hjson
  rw [← ht] at hspelled
  rw [cutText, lexemes_of_lexeme rfl, lexemes_of_lexeme rfl, lexemes_of_lexeme rfl, lexemes_of_lexeme rfl,
    lexemes_of_lexeme rfl, lexemes_eq] at hspelled
  simp [Spelled, lexeme, skipWs] at hspelled

end RecoveryQt
