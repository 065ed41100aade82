import Mathlib.Data.List.Basic

/-!
# Output streams that fail

A file is opened for writing, written by a sequence of calls, and closed.

* `StreamFaults`: what happens to it;
* `writeCalls`: calls that end with the first one that fails;
* **`writeCalls_ok_iff`**, `writeCalls_flatten`: when all calls succeed, and what was written then;
* **`writeCalls_cut`**: what was written when one of them fails;
* `uncheckedCalls`: calls that go on behind one that fails;
* **`length_uncheckedCalls_iff`**, `uncheckedCalls_flatten`: when all their bytes were written.
-/

namespace RecoveryQt

open List

/-- What happens to a stream: whether the file can be opened, which of the calls fail, and how many of
the bytes that it took are in the file after it was closed. -/
structure StreamFaults where
  opens : Bool
  fails : ℕ → Bool
  kept : ℕ

/-- Calls that end with the first one that fails: the bytes that the stream took, and whether those are
all. A call that fails does not take its last byte. -/
def writeCalls : (ℕ → Bool) → List (List UInt8) → List UInt8 × Bool
  | _, [] => ([], true)
  | fails, w :: ws =>
    if fails 0 then (w.dropLast, false)
    else (w ++ (writeCalls (fun n => fails (n + 1)) ws).1, (writeCalls (fun n => fails (n + 1)) ws).2)

variable {fails : ℕ → Bool} {w : List UInt8} {ws : List (List UInt8)}

theorem writeCalls_cons_fail (h : fails 0 = true) : writeCalls fails (w :: ws) = (w.dropLast, false) := by
  rw [writeCalls, if_pos h]

theorem writeCalls_cons_ok (h : fails 0 = false) : writeCalls fails (w :: ws) =
    (w ++ (writeCalls (fun n => fails (n + 1)) ws).1, (writeCalls (fun n => fails (n + 1)) ws).2) := by
  rw [writeCalls, if_neg (by simp [h])]

/-- **All calls succeed** exactly when none of them fails. -/
theorem writeCalls_ok_iff : (writeCalls fails ws).2 = true ↔ ∀ n < ws.length, fails n = false := by
  induction ws generalizing fails with
  | nil => exact iff_of_true rfl fun n hn => absurd hn (Nat.not_lt_zero n)
  | cons w ws ih =>
    cases h : fails 0 with
    | true =>
      rw [writeCalls_cons_fail h]
      exact iff_of_false (by simp) fun hall => by simp [hall 0 (Nat.succ_pos _)] at h
    | false =>
      rw [writeCalls_cons_ok h, ih]
      constructor
      · intro hall n hn
        cases n with
        | zero => exact h
        | succ n => exact hall n (Nat.lt_of_succ_lt_succ hn)
      · exact fun hall n hn => hall (n + 1) (Nat.succ_lt_succ hn)

/-- Then the bytes of all of them were taken. -/
theorem writeCalls_flatten (h : (writeCalls fails ws).2 = true) : (writeCalls fails ws).1 = ws.flatten := by
  induction ws generalizing fails with
  | nil => rfl
  | cons w ws ih =>
    cases hzero : fails 0 with
    | true =>
      rw [writeCalls_cons_fail hzero] at h
      cases h
    | false =>
      rw [writeCalls_cons_ok hzero] at h ⊢
      rw [flatten_cons, ih h]

/-- **When a call fails**, a proper part of the bytes was taken. -/
theorem writeCalls_cut (hws : ∀ w ∈ ws, w ≠ []) (h : (writeCalls fails ws).2 = false) :
    (writeCalls fails ws).1 <+: ws.flatten ∧ (writeCalls fails ws).1.length < ws.flatten.length := by
  induction ws generalizing fails with
  | nil => cases h
  | cons w ws ih =>
    rw [flatten_cons, length_append]
    cases hzero : fails 0 with
    | true =>
      rw [writeCalls_cons_fail hzero, length_dropLast]
      have hpos := length_pos_of_ne_nil (hws w mem_cons_self)
      have hdrop : w.dropLast <+: w := dropLast_prefix w
      exact ⟨hdrop.trans (prefix_append w _), by omega⟩
    | false =>
      rw [writeCalls_cons_ok hzero] at h ⊢
      obtain ⟨hpre, hlen⟩ := ih (fun v hv => hws v (mem_cons_of_mem w hv)) h
      rw [length_append]
      exact ⟨(prefix_append_right_inj w).mpr hpre, Nat.add_lt_add_left hlen _⟩

/-! ### Results that are dropped -/

/-- Calls that go on behind one that fails: of each the first `taken n` bytes are written. -/
def uncheckedCalls : (ℕ → ℕ) → List (List UInt8) → List UInt8
  | _, [] => []
  | taken, w :: ws => w.take (taken 0) ++ uncheckedCalls (fun n => taken (n + 1)) ws

variable {taken : ℕ → ℕ}

theorem length_uncheckedCalls_le : (uncheckedCalls taken ws).length ≤ ws.flatten.length := by
  induction ws generalizing taken with
  | nil => exact Nat.le_refl _
  | cons w ws ih =>
    rw [uncheckedCalls, flatten_cons, length_append, length_append, length_take]
    exact Nat.add_le_add (Nat.min_le_right _ _) ih

/-- **Nothing is missing** exactly when each call wrote all its bytes. -/
theorem length_uncheckedCalls_iff : ws.flatten.length ≤ (uncheckedCalls taken ws).length ↔
    ∀ n v, ws[n]? = some v → v.length ≤ taken n := by
  induction ws generalizing taken with
  | nil => simp
  | cons w ws ih =>
    have hrest : (uncheckedCalls (fun n => taken (n + 1)) ws).length ≤ ws.flatten.length :=
      length_uncheckedCalls_le
    have hiff := @ih fun n => taken (n + 1)
    rw [uncheckedCalls, flatten_cons, length_append, length_append, length_take]
    constructor
    · intro h n v hv
      cases n with
      | zero =>
        obtain rfl := Option.some.inj hv
        omega
      | succ n => exact hiff.mp (by omega) n v hv
    · intro h
      have hfirst := h 0 w rfl
      have hbehind := hiff.mpr fun n v hv => h (n + 1) v hv
      omega

theorem uncheckedCalls_flatten (h : ∀ n v, ws[n]? = some v → v.length ≤ taken n) :
    uncheckedCalls taken ws = ws.flatten := by
  induction ws generalizing taken with
  | nil => rfl
  | cons w ws ih =>
    rw [uncheckedCalls, flatten_cons, take_of_length_le (h 0 w rfl), ih fun n v hv => h (n + 1) v hv]

end RecoveryQt
