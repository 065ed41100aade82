import RecoveryQt.Lib.Blocks
import RecoveryQt.Lib.Sweep
import Mathlib.Order.MinMax

/-!
# Loops over a bitmap

A bitmap is read in blocks, and its bits are gone through from the lowest of the first byte on, up to a limit.

* `bitOf`: a bit; `sweepByte`, `sweepBuffer`, `sweepBitmap`: the loops;
* **`sweepBitmap_listed`**: each bit below the limit is gone through once, in order.
-/

namespace RecoveryQt

open List

variable {β : Type*}

/-- A bit of a bitmap. -/
def bitOf (bitmap : ℕ → UInt8) (n : ℕ) : Bool := (bitmap (n / 8)).toNat.testBit (n % 8)

section

variable (limit : ℕ) (f : ℕ → Bool → List β)

/-- The loop over the bits of a byte, of which the first one has the number `first`. -/
def sweepByte (first : ℕ) (b : UInt8) : Swept β :=
  sweep (fun k => sweepOne limit (first + k) (f (first + k) (b.toNat.testBit k))) 0 8

/-- The loop over the bytes of a buffer. -/
def sweepBuffer (i : ℕ) (buffer : List UInt8) : Swept β :=
  sweep (fun j => sweepByte limit f ((i + j) * 8) (buffer.getD j 0)) 0 buffer.length

/-- The loop over the blocks. It ends with a block that cannot be read. -/
def sweepBitmap (block size : ℕ) (bitmap : ℕ → UInt8) (bad : ℕ → Bool) : Swept β :=
  sweep (fun m =>
    if bad (block * m) then ⟨[], true⟩
    else sweepBuffer limit f (block * m) (slice bitmap (block * m) (min (size - block * m) block)))
    0 ((size + (block - 1)) / block)

end

variable {limit : ℕ} {f : ℕ → Bool → List β} {bitmap : ℕ → UInt8}

theorem covers_sweepByte {i : ℕ} {b : UInt8} (hb : b = bitmap i) :
    (sweepByte limit f (i * 8) b).Covers limit (fun n => f n (bitOf bitmap n)) (i * 8) ((i + 1) * 8) := by
  have hend : (i + 1) * 8 = i * 8 + (0 + 8) := by omega
  rw [hend]
  refine covers_sweep (p := fun k => i * 8 + k) (i := 0) (n := 8) (fun _ _ h => Nat.add_le_add_left h _) fun k hk => ?_
  have hbit : bitOf bitmap (i * 8 + k) = b.toNat.testBit k := by
    rw [bitOf, hb, show (i * 8 + k) / 8 = i by omega, show (i * 8 + k) % 8 = k by omega]
  rw [← hbit]
  exact Swept.covers_one (f := fun n => f n (bitOf bitmap n)) _

theorem covers_sweepBuffer (i size : ℕ) :
    (sweepBuffer limit f i (slice bitmap i size)).Covers limit (fun n => f n (bitOf bitmap n)) (i * 8)
      ((i + size) * 8) := by
  rw [sweepBuffer, length_slice, show i + size = i + (0 + size) by omega]
  refine covers_sweep (p := fun j => (i + j) * 8) (i := 0) (n := size)
    (fun _ _ h => Nat.mul_le_mul_right 8 (Nat.add_le_add_left h i))
    fun j hj => covers_sweepByte ?_
  rw [getD_eq_getElem?_getD, slice, getElem?_map, getElem?_range (by omega)]
  rfl

theorem covers_sweepBitmap {block : ℕ} (hblock : 0 < block) (size : ℕ) {bad : ℕ → Bool} (hreads : ∀ i, bad i = false) :
    (sweepBitmap limit f block size bitmap bad).Covers limit (fun n => f n (bitOf bitmap n)) 0 (size * 8) := by
  set q := (size + (block - 1)) / block with hq
  have hdiv := Nat.div_add_mod (size + (block - 1)) block
  have hmod := Nat.mod_lt (size + (block - 1)) hblock
  rw [← hq] at hdiv
  have hmono : Monotone fun m => min (block * m) size * 8 := fun a b h =>
    Nat.mul_le_mul_right 8 (min_le_min_right _ (Nat.mul_le_mul_left block h))
  have hend : size * 8 = min (block * (0 + q)) size * 8 := by
    rw [Nat.zero_add]
    omega
  have hstart : 0 = min (block * 0) size * 8 := by omega
  rw [hstart, hend]
  refine covers_sweep (p := fun m => min (block * m) size * 8) hmono fun m hm => ?_
  have hlast : block * m + block ≤ block * q := Nat.mul_le_mul_left block (show m + 1 ≤ q by omega)
  rw [if_neg (by rw [hreads]; exact Bool.false_ne_true)]
  have hfirst : min (block * m) size * 8 = block * m * 8 := by omega
  have hnext : min (block * (m + 1)) size * 8 = (block * m + min (size - block * m) block) * 8 := by
    rw [show block * (m + 1) = block * m + block from rfl]
    omega
  rw [hfirst, hnext]
  exact covers_sweepBuffer _ _

/-- **Each bit below the limit is gone through once**, in order, if all blocks can be read. -/
theorem sweepBitmap_listed (limit : ℕ) (f : ℕ → Bool → List β) (bitmap : ℕ → UInt8) {block : ℕ} (hblock : 0 < block) (size : ℕ) {bad : ℕ → Bool} (hreads : ∀ i, bad i = false) :
    (sweepBitmap limit f block size bitmap bad).listed =
      (range (min (8 * size) limit)).flatMap fun n => f n (bitOf bitmap n) := by
  rw [(covers_sweepBitmap hblock size hreads).listed, ← range_eq_range', Nat.sub_zero, Nat.mul_comm]

end RecoveryQt
