import RecoveryQt.Exfat.Directory

/-!
# Names in pieces of 15 units

* `Iconv.Conforms`: what is known of `iconv`;
* `namePiece`, `pieceBytes`: the units of a file-name entry, and what they add to the name;
* `appendPieces`: the name after a number of entries;
* **`appendPieces_eq_utf8_iff`**: a name whose pieces can be converted is whole, and any other one is too short;
* `UncutPieces`, **`goodPieces_iff`**: these are the names with no pair cut between two pieces.
-/

namespace RecoveryQt

open List

/-- `iconv` from UTF-16LE to UTF-8: it keeps to the room for its output, converts a text that fits in there, and fails
on units that are no text. -/
structure Iconv.Conforms (iconv : Iconv) : Prop where
  bounded : iconv.Bounded
  converts : ∀ l n, (utf8 l).length ≤ n → iconv (utf16 l) n = ⟨true, utf8 l⟩
  refuses : ∀ units n, decodeUtf16 units = none → (iconv units n).ok = false

/-! ## Pieces of a name -/

section Pieces

variable (units : List UInt16)

/-- The units of a file-name entry. -/
def namePiece (k : ℕ) : List UInt16 := (units.drop (15 * k)).take 15

/-- What an entry adds to the name: its units converted, or else the low bytes up to a zero. -/
def pieceBytes (k : ℕ) : List UInt8 :=
  match decodeUtf16 (namePiece units k) with
  | some l => utf8 l
  | none => cString ((namePiece units k).map UInt16.toUInt8)

/-- The name after a number of entries. -/
def appendPieces : ℕ → List UInt8
  | 0 => []
  | k + 1 => (appendPieces k).take 255 ++ pieceBytes units k

/-- The first `k` pieces can be converted, and none of them starts behind 255 bytes. -/
def GoodPieces (k : ℕ) : Prop :=
  ∀ i < k, decodeUtf16 (namePiece units i) ≠ none ∧ bytesOf (units.take (15 * i)) ≤ 255

variable {units}

theorem take_succ_piece (k : ℕ) : units.take (15 * (k + 1)) = units.take (15 * k) ++ namePiece units k := by
  rw [Nat.mul_succ, take_add]
  rfl

theorem length_pieceBytes_le (k : ℕ) : (pieceBytes units k).length ≤ bytesOf (namePiece units k) := by
  unfold pieceBytes
  cases h : decodeUtf16 (namePiece units k) with
  | some l => exact (length_utf8 l).trans (congrArg _ (decodeUtf16_eq_some_iff.mp h)) |>.le
  | none =>
    calc (cString ((namePiece units k).map UInt16.toUInt8)).length ≤ ((namePiece units k).map UInt16.toUInt8).length :=
          (takeWhile_sublist _).length_le
      _ = (namePiece units k).length := length_map _
      _ ≤ bytesOf (namePiece units k) := length_le_bytesOf _

theorem length_pieceBytes_lt {k : ℕ} (h : decodeUtf16 (namePiece units k) = none) :
    (pieceBytes units k).length < bytesOf (namePiece units k) := by
  have hle : (cString ((namePiece units k).map UInt16.toUInt8)).length ≤ ((namePiece units k).map UInt16.toUInt8).length :=
    (takeWhile_sublist _).length_le
  rw [length_map] at hle
  unfold pieceBytes
  rw [h]
  exact Nat.lt_of_le_of_lt hle (length_lt_bytesOf h)

theorem length_appendPieces_le (k : ℕ) : (appendPieces units k).length ≤ bytesOf (units.take (15 * k)) := by
  induction k with
  | zero => exact Nat.zero_le _
  | succ k ih =>
    have hpiece : (pieceBytes units k).length ≤ bytesOf (namePiece units k) := length_pieceBytes_le k
    rw [take_succ_piece, bytesOf_append, appendPieces, length_append, length_take]
    omega

/-- **A bad piece** leaves the name too short. -/
theorem length_appendPieces_lt {k : ℕ} (h : ¬ GoodPieces units k) :
    (appendPieces units k).length < bytesOf (units.take (15 * k)) := by
  induction k with
  | zero => exact absurd (fun i hi => absurd hi (Nat.not_lt_zero i)) h
  | succ k ih =>
    have hle : (appendPieces units k).length ≤ bytesOf (units.take (15 * k)) := length_appendPieces_le k
    have hpiece : (pieceBytes units k).length ≤ bytesOf (namePiece units k) := length_pieceBytes_le k
    rw [take_succ_piece, bytesOf_append, appendPieces, length_append, length_take]
    by_cases hgood : GoodPieces units k
    · -- the last of the pieces is the bad one
      have hlast : ¬(decodeUtf16 (namePiece units k) ≠ none ∧ bytesOf (units.take (15 * k)) ≤ 255) := by
        intro hlast
        refine h fun i hi => ?_
        rcases Nat.lt_succ_iff_lt_or_eq.mp hi with hi | rfl
        · exact hgood i hi
        · exact hlast
      by_cases hnone : decodeUtf16 (namePiece units k) = none
      · have := length_pieceBytes_lt hnone
        omega
      · have : ¬ bytesOf (units.take (15 * k)) ≤ 255 := fun hle => hlast ⟨hnone, hle⟩
        omega
    · have := ih hgood
      omega

/-- **Good pieces** make up the name. -/
theorem appendPieces_eq {k : ℕ} (h : GoodPieces units k) :
    ∃ l, utf16 l = units.take (15 * k) ∧ appendPieces units k = utf8 l := by
  induction k with
  | zero => exact ⟨[], rfl, rfl⟩
  | succ k ih =>
    obtain ⟨l, hl, hname⟩ := ih fun i hi => h i (Nat.lt_succ_of_lt hi)
    obtain ⟨hsome, hle⟩ := h k (Nat.lt_succ_self k)
    obtain ⟨p, hp⟩ := Option.ne_none_iff_exists'.mp hsome
    have hpiece := decodeUtf16_eq_some_iff.mp hp
    have hlength : (utf8 l).length ≤ 255 := by rwa [length_utf8, hl]
    refine ⟨l ++ p, ?_, ?_⟩
    · rw [take_succ_piece, ← hl, ← hpiece]
      exact flatMap_append
    · rw [appendPieces, hname, take_of_length_le hlength, pieceBytes, hp]
      exact flatMap_append.symm

/-- **A name is whole** exactly when all its pieces are good. -/
theorem appendPieces_eq_utf8_iff {chars : List Char} {k : ℕ} (hk : (utf16 chars).length ≤ 15 * k) :
    appendPieces (utf16 chars) k = utf8 chars ↔ GoodPieces (utf16 chars) k := by
  constructor
  · intro h
    by_contra hbad
    have hlt := length_appendPieces_lt hbad
    rw [take_of_length_le hk, h, length_utf8] at hlt
    exact Nat.lt_irrefl _ hlt
  · intro h
    obtain ⟨l, hl, hname⟩ := appendPieces_eq h
    rw [take_of_length_le hk] at hl
    have hsame : some l = some chars := by
      rw [← decodeUtf16_eq_some_iff.mpr hl, decodeUtf16_utf16]
    rw [hname, Option.some.inj hsame]

/-- No pair is cut in front of a piece. -/
def UncutPieces (units : List UInt16) (k : ℕ) : Prop :=
  ∀ i < k, (∀ u ∈ (units.drop (15 * i)).head?, ¬ IsLow u) ∧ bytesOf (units.take (15 * i)) ≤ 255

theorem goodPieces_iff {chars : List Char} {k : ℕ} (hk : (utf16 chars).length ≤ 15 * k) :
    GoodPieces (utf16 chars) k ↔ UncutPieces (utf16 chars) k := by
  have hhead : ∀ i, (namePiece (utf16 chars) i).head? = ((utf16 chars).drop (15 * i)).head? := by
    intro i
    rw [namePiece, head?_take, if_neg (by decide)]
  constructor
  · intro h i hi
    refine ⟨fun u hu hlow => ?_, (h i hi).2⟩
    have hu : u ∈ (namePiece (utf16 chars) i).head? := (hhead i).symm ▸ hu
    obtain ⟨rest, hrest⟩ := head?_eq_some_iff.mp hu
    refine (h i hi).1 ?_
    rw [hrest]
    cases rest with
    | nil => exact if_pos (.inr hlow)
    | cons v rest => exact if_pos hlow
  · intro h i hi
    refine ⟨?_, (h i hi).2⟩
    -- the units from the piece on are a text, and so is the piece
    obtain ⟨l₂, hl₂⟩ : ∃ l₂, utf16 l₂ = (utf16 chars).drop (15 * i) := by
      rcases utf16_eq_append (take_append_drop (15 * i) (utf16 chars)).symm with ⟨_, l₂, _, _, hl₂⟩ | ⟨-, u, hu, hlow⟩
      · exact ⟨l₂, hl₂⟩
      · exact absurd hlow ((h i hi).1 u hu)
    have hcut : utf16 l₂ = namePiece (utf16 chars) i ++ (utf16 chars).drop (15 * (i + 1)) := by
      rw [hl₂, Nat.mul_succ, ← drop_drop]
      exact (take_append_drop 15 _).symm
    rcases utf16_eq_append hcut with ⟨p, _, _, hp, _⟩ | ⟨-, u, hu, hlow⟩
    · rw [decodeUtf16_eq_some_iff.mpr hp]
      exact Option.some_ne_none p
    · by_cases hi' : i + 1 < k
      · exact absurd hlow ((h (i + 1) hi').1 u hu)
      · rw [drop_eq_nil_of_le (Nat.le_trans hk (Nat.mul_le_mul_left 15 (Nat.not_lt.mp hi')))] at hu
        cases hu

end Pieces

end RecoveryQt
