import Mathlib.Data.List.Basic

/-!
# Linear search in a buffer

A buffer is a function of the position.

* `hasBytes`: the buffer has given bytes at a position;
* `firstIndex?`, `lastIndex?`: the first and the last position below a bound with a property;
* `firstIndex?_eq_some_iff`, `lastIndex?_eq_some_iff`: what they find;
* `firstIndex?_of_match`, `lastIndex?_of_match`: a search that can succeed does not pass the position that it can find.
-/

namespace RecoveryQt

open List

/-- `memcmp` of the bytes at a position. -/
def hasBytes (buffer : ℕ → UInt8) : ℕ → List UInt8 → Bool
  | _, [] => true
  | i, c :: cs => buffer i == c && hasBytes buffer (i + 1) cs

/-- The first position below `n`. -/
def firstIndex? (p : ℕ → Bool) (n : ℕ) : Option ℕ := (range n).find? p

/-- The last position below `n`. -/
def lastIndex? (p : ℕ → Bool) (n : ℕ) : Option ℕ := (range n).reverse.find? p

variable {p : ℕ → Bool} {n i : ℕ}

theorem hasBytes_iff {buffer : ℕ → UInt8} {bytes : List UInt8} :
    hasBytes buffer i bytes = true ↔ ∀ k (hk : k < bytes.length), buffer (i + k) = bytes[k] := by
  induction bytes generalizing i with
  | nil => simp [hasBytes]
  | cons c cs ih =>
    rw [hasBytes, Bool.and_eq_true, beq_iff_eq, ih]
    constructor
    · rintro ⟨hc, hcs⟩ k hk
      cases k with
      | zero => exact hc
      | succ k =>
        have := hcs k (Nat.lt_of_succ_lt_succ hk)
        rwa [Nat.add_right_comm] at this
    · intro h
      refine ⟨h 0 (Nat.succ_pos _), fun k hk => ?_⟩
      have := h (k + 1) (Nat.succ_lt_succ hk)
      rwa [Nat.add_right_comm]

theorem hasBytes_congr {buffer buffer' : ℕ → UInt8} {bytes : List UInt8}
    (h : ∀ k < bytes.length, buffer (i + k) = buffer' (i + k)) : hasBytes buffer i bytes = hasBytes buffer' i bytes := by
  rw [Bool.eq_iff_iff, hasBytes_iff, hasBytes_iff]
  exact forall₂_congr fun k hk => by rw [h k hk]

theorem firstIndex?_eq_some_iff :
    firstIndex? p n = some i ↔ p i = true ∧ i < n ∧ ∀ j < i, p j = false := by
  simp [firstIndex?]

theorem firstIndex?_eq_none_iff : firstIndex? p n = none ↔ ∀ i < n, p i = false := by
  simp [firstIndex?]

/-- The first position is not behind one that has the property. -/
theorem firstIndex?_of_match {m : ℕ} (hm : m < n) (hp : p m = true) :
    ∃ i ≤ m, firstIndex? p n = some i ∧ (m ≤ i ↔ ∀ j < m, p j = false) := by
  cases h : firstIndex? p n with
  | none => simp [firstIndex?_eq_none_iff.mp h m hm] at hp
  | some i =>
    obtain ⟨hi, -, hbefore⟩ := firstIndex?_eq_some_iff.mp h
    have hle : i ≤ m := by
      by_contra hlt
      simp [hbefore m (by omega)] at hp
    refine ⟨i, hle, rfl, fun hge j hj => hbefore j (by omega), fun hall => ?_⟩
    by_contra hlt
    simp [hall i (by omega)] at hi

theorem lastIndex?_eq_some_iff :
    lastIndex? p n = some i ↔ p i = true ∧ i < n ∧ ∀ j, i < j → j < n → p j = false := by
  induction n with
  | zero => simp [lastIndex?]
  | succ n ih =>
    have hlast : lastIndex? p (n + 1) = if p n = true then some n else lastIndex? p n := by
      rw [lastIndex?, range_succ, reverse_append, reverse_singleton, singleton_append, find?_cons]
      cases hp : p n <;> simp [lastIndex?]
    rw [hlast]
    split_ifs with hp
    · constructor
      · intro h
        obtain rfl := Option.some.inj h
        exact ⟨hp, Nat.lt_succ_self _, fun j hj hj' => absurd hj' (by omega)⟩
      · rintro ⟨hi, hlt, hall⟩
        rcases Nat.lt_or_eq_of_le (Nat.le_of_lt_succ hlt) with hlt | rfl
        · have := hall n hlt (Nat.lt_succ_self n)
          simp [hp] at this
        · rfl
    · rw [ih]
      constructor
      · rintro ⟨hi, hlt, hall⟩
        refine ⟨hi, by omega, fun j hj hj' => ?_⟩
        rcases Nat.lt_or_eq_of_le (Nat.le_of_lt_succ hj') with hlt | rfl
        · exact hall j hj hlt
        · simpa using hp
      · rintro ⟨hi, hlt, hall⟩
        refine ⟨hi, ?_, fun j hj hj' => hall j hj (by omega)⟩
        rcases Nat.lt_or_eq_of_le (Nat.le_of_lt_succ hlt) with hlt | rfl
        · exact hlt
        · exact absurd hi hp

theorem lastIndex?_eq_none_iff : lastIndex? p n = none ↔ ∀ i < n, p i = false := by
  simp [lastIndex?]

/-- The last position is not before one that has the property. -/
theorem lastIndex?_of_match (hi : i < n) (hp : p i = true) : ∃ j, i ≤ j ∧ lastIndex? p n = some j := by
  cases h : lastIndex? p n with
  | none => simp [lastIndex?_eq_none_iff.mp h i hi] at hp
  | some j =>
    refine ⟨j, ?_, rfl⟩
    by_contra hlt
    have := (lastIndex?_eq_some_iff.mp h).2.2 i (by omega) hi
    simp [hp] at this

end RecoveryQt
