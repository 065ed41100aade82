import Mathlib.Data.List.Basic

/-!
# Cyclic redundancy checks, bit by bit

A reflected check: the register is shifted to the right, and bits come in at its low end. The polynomial is given
without its highest coefficient, reflected.

* `crcBit`, `crcBits`: the register after a bit, and after bits in a row;
* `lowBits`: the low bits of a number, the lowest first;
* **`crcBits_lowBits`**: bits that come in one by one, or all at once into the register;
* **`crcBits_lowBits_table`**: bits in a row by a table of what they leave of an empty register.
-/

namespace RecoveryQt

open List

variable {w : ℕ} (poly : BitVec w)

/-- The register after a bit: the polynomial is subtracted when the bit that is shifted out differs from it. -/
def crcBit (crc : BitVec w) (b : Bool) : BitVec w := (crc >>> 1) ^^^ if crc.getLsbD 0 ^^ b then poly else 0#w

/-- The register after bits in a row. -/
def crcBits (crc : BitVec w) (bits : List Bool) : BitVec w := bits.foldl (crcBit poly) crc

/-- The `n` low bits of a number, the lowest first. -/
def lowBits (n : ℕ) (x : BitVec w) : List Bool := (range n).map x.getLsbD

theorem crcBits_append (crc : BitVec w) (a b : List Bool) : crcBits poly crc (a ++ b) = crcBits poly (crcBits poly crc a) b :=
  foldl_append

theorem lowBits_succ (n : ℕ) (x : BitVec w) : lowBits (n + 1) x = x.getLsbD 0 :: lowBits n (x >>> 1) := by
  rw [lowBits, range_succ_eq_map, map_cons, map_map, lowBits]
  congr 1
  apply map_congr_left
  intro i _
  rw [Function.comp_apply, BitVec.getLsbD_ushiftRight, Nat.succ_eq_one_add]

theorem lowBits_congr {v n : ℕ} {x : BitVec w} {y : BitVec v} (h : ∀ i < n, x.getLsbD i = y.getLsbD i) :
    lowBits n x = lowBits n y :=
  map_congr_left fun i hi => h i (mem_range.mp hi)

/-- A bit that comes in, and the bits behind it in the register already. -/
theorem crcBit_xor (crc x : BitVec w) :
    crcBit poly crc (x.getLsbD 0) ^^^ (x >>> 1) = crcBit poly (crc ^^^ x) false := by
  rw [crcBit, crcBit, BitVec.ushiftRight_xor_distrib, BitVec.getLsbD_xor, Bool.xor_false, BitVec.xor_assoc,
    BitVec.xor_comm _ (x >>> 1), ← BitVec.xor_assoc]

/-- **Bits come in** one by one, or all at once: with the bits of `x` in the register, it is shifted. -/
theorem crcBits_lowBits (n : ℕ) (crc x : BitVec w) :
    crcBits poly crc (lowBits n x) ^^^ (x >>> n) = crcBits poly (crc ^^^ x) (replicate n false) := by
  induction n generalizing crc x with
  | zero => rw [BitVec.ushiftRight_zero]; rfl
  | succ n ih =>
    calc crcBits poly crc (lowBits (n + 1) x) ^^^ (x >>> (n + 1))
        = crcBits poly (crcBit poly crc (x.getLsbD 0)) (lowBits n (x >>> 1)) ^^^ ((x >>> 1) >>> n) := by
          rw [lowBits_succ, Nat.add_comm n 1, BitVec.shiftRight_add]
          rfl
      _ = crcBits poly (crcBit poly crc (x.getLsbD 0) ^^^ (x >>> 1)) (replicate n false) := ih ..
      _ = crcBits poly (crc ^^^ x) (replicate (n + 1) false) := by
          rw [crcBit_xor]
          rfl

/-- **Bits in a row by a table**: what the low bits of the register, with those of `x`, leave of an empty register, and
the rest of the register. -/
theorem crcBits_lowBits_table {n : ℕ} (crc : BitVec w) {x : BitVec w} (hx : x >>> n = 0#w) :
    crcBits poly crc (lowBits n x) = crcBits poly 0#w (lowBits n (crc ^^^ x)) ^^^ (crc >>> n) := by
  have hin := crcBits_lowBits poly n crc x
  have hempty := crcBits_lowBits poly n 0#w (crc ^^^ x)
  rw [hx, BitVec.xor_zero] at hin
  rw [BitVec.zero_xor, BitVec.ushiftRight_xor_distrib, hx, BitVec.xor_zero] at hempty
  rw [hin, ← hempty]

end RecoveryQt
