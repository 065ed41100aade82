import RecoveryQt.Carver.Footer
import RecoveryQt.Lib.Reading

/-!
# What `carver_check_footer` looks at

The footer checks once more, as readings of the buffer.

* `readPng`, …, `readWdp`, `readFooter`: the bytes that the checks look at;
* **`value_readFooter`**: their results are those of `carver_check_footer`;
* **`within_readFooter`**: they look at nothing behind the buffer.
-/

namespace RecoveryQt

open List Reading

variable {b : ℕ → UInt8}

/-! ## The formats -/

/-- `le16` of two bytes. -/
def readLe16 (i : ℕ) : Reading ℕ := do
  let x ← byteAt i
  let y ← byteAt (i + 1)
  pure (x.toNat + 256 * y.toNat)

/-- `le32` of four bytes. -/
def readLe32 (i : ℕ) : Reading ℕ := do
  let x ← readLe16 i
  let y ← readLe16 (i + 2)
  pure (x + 65536 * y)

section Formats

variable (bufferSize : ℕ)

def readPng : Reading ℤ := do
  let found ← findUp (fun i =>
    orElse (andThen (memcmpAt (i + 4) [0x49, 0x45, 0x4e, 0x44]) (bytesAt i [0, 0, 0, 0]))
      (memcmpAt (i + 4) [0x4d, 0x45, 0x4e, 0x44])) (bufferSize - 8)
  pure (endOf found 12)

/-- The loop over the `SOI` markers, which stops at the second one. -/
def readSoi : ℕ → ℕ → ℕ → Reading Bool
  | 0, _, _ => pure false
  | n + 1, j, soiCount => do
    let r ← bytesAt j [0xff, 0xd8, 0xff]
    if r then
      if 1 < soiCount + 1 then pure true else readSoi n (j + 1) (soiCount + 1)
    else readSoi n (j + 1) soiCount

/-- `EOI` ends at a position. -/
def readEoi (i : ℕ) : Reading Bool :=
  if 0 < i then andThen (isByte i 0xd9) (isByte (i - 1) 0xff) else pure false

def readJpg : Reading ℤ := do
  let second ← readSoi (bufferSize - 3) 0 0
  if second then pure (-1)
  else do
    let found ← findDown readEoi (bufferSize - 1)
    pure (endOf found 1)

def readZip : Reading ℤ := do
  let found ← findUp (fun i => bytesAt i [0x50, 0x4b, 0x05, 0x06]) (bufferSize - 4)
  match found with
  | none => pure (-1)
  | some i =>
    if bufferSize < i + 22 then pure ↑(i + 22)
    else do
      let commentLen ← readLe16 (i + 20)
      pure ↑(i + 22 + commentLen)

def readGif : Reading ℤ := do
  let found ← findUp (fun i => isByte i 0x3b) bufferSize
  pure (endOf found 1)

def readPdf : Reading ℤ := do
  let found ← findDown
    (fun i => if 0 < i then bytesAt i [0x25, 0x25, 0x45, 0x4f, 0x46] else pure false) (bufferSize - 4)
  pure (endOf found 5)

def readOgg : Reading ℤ := do
  let last ← lastUp (fun i => memcmpAt i [0x4f, 0x67, 0x67, 0x53]) (bufferSize - 4)
  pure (last.elim (-1) fun i => if i + 27 < bufferSize then ↑(i + 27) else -1)

def readMpg : Reading ℤ := do
  let found ← findDown (fun i => if 0 < i then bytesAt i [0x00, 0x00, 0x01, 0xb9] else pure false) (bufferSize - 3)
  pure (endOf found 4)

/-- A size from the header that is more than `least`, and the `extra` bytes before it. -/
def readSize (at_ least extra : ℕ) : Reading ℤ := do
  let size ← readLe32 at_
  pure (if least < size then asInt (size + extra) else -1)

def readBmp : Reading ℤ := readSize 2 0 0
def readRiff : Reading ℤ := readSize 4 0 8
def readFlv : Reading ℤ := readSize 5 9 0
def readWdp : Reading ℤ := readSize 12 16 0

end Formats

/-- The check of a format, by the extension of its hint. -/
def readFooterOf (ext : List UInt8) (bufferSize : ℕ) : Reading ℤ :=
  if ext = extPng ∨ ext = extMng ∨ ext = extJng then readPng bufferSize
  else if ext = extJpg then readJpg bufferSize
  else if ext = extZip then readZip bufferSize
  else if ext = extGif then readGif bufferSize
  else if ext = extPdf then readPdf bufferSize
  else if ext = extOgg then readOgg bufferSize
  else if ext = extBmp then readBmp
  else if ext = extRiff ∨ ext = extWav ∨ ext = extAvi then readRiff
  else if ext = extMpg then readMpg bufferSize
  else if ext = extFlv then readFlv
  else if ext = extWdp then readWdp
  else pure (-1)

/-- **`carver_check_footer`** as a reading. -/
def readFooter (bufferSize : ℕ) (hint : FileHint) : Reading ℤ :=
  if bufferSize < 128 then pure (-1) else hint.extension.elim (pure (-1)) fun ext => readFooterOf ext bufferSize

/-! ## Results -/

@[simp] theorem value_readLe16 (i : ℕ) : (readLe16 i).value b = le16At b i := rfl

@[simp] theorem value_readLe32 (i : ℕ) : (readLe32 i).value b = le32At b i := rfl

/-- There is a second marker exactly if more than one is counted. -/
theorem value_readSoi (n j : ℕ) {soi : ℕ} (hsoi : soi ≤ 1) :
    (readSoi n j soi).value b =
      decide (1 < soi + (range n).countP fun k => hasBytes b (j + k) [0xff, 0xd8, 0xff]) := by
  induction n generalizing j soi with
  | zero => exact (decide_eq_false (by rw [range_zero, countP_nil]; omega)).symm
  | succ n ih =>
    have hshift : (fun k => hasBytes b (j + k) [0xff, 0xd8, 0xff]) ∘ Nat.succ =
        fun k => hasBytes b (j + 1 + k) [0xff, 0xd8, 0xff] := by
      funext k
      rw [Function.comp_apply, Nat.succ_eq_add_one, Nat.add_right_comm, Nat.add_assoc]
    rw [readSoi, value_bind, value_bytesAt, range_succ_eq_map, countP_cons, countP_map, hshift, Nat.add_zero]
    cases hasBytes b j [0xff, 0xd8, 0xff] with
    | true =>
      rw [if_pos rfl]
      split
      next hlt => exact (decide_eq_true (by simp; omega)).symm
      next hle =>
        rw [ih (j + 1) (by omega)]
        congr 1
        simp
        omega
    | false =>
      rw [if_neg Bool.false_ne_true, ih (j + 1) hsoi]
      simp

theorem value_readEoi (i : ℕ) : (readEoi i).value b = isEoi b i := by
  unfold readEoi isEoi
  by_cases hi : 0 < i
  · rw [if_pos hi, value_andThen, value_isByte, value_isByte, decide_eq_true hi, Bool.true_and]
  · rw [if_neg hi, value_pure, decide_eq_false hi, Bool.false_and, Bool.false_and]

/-- Bytes at a position that is not the first one. -/
theorem value_bytesBehind (i : ℕ) (bytes : List UInt8) :
    (if 0 < i then bytesAt i bytes else pure false).value b = (decide (0 < i) && hasBytes b i bytes) := by
  by_cases hi : 0 < i
  · rw [if_pos hi, value_bytesAt, decide_eq_true hi, Bool.true_and]
  · rw [if_neg hi, value_pure, decide_eq_false hi, Bool.false_and]

theorem value_readPng (n : ℕ) : (readPng n).value b = footerPng b n := by
  rw [readPng, value_bind, value_findUp, value_pure, footerPng]
  simp only [value_orElse, value_andThen, value_memcmpAt, value_bytesAt]
  rfl

theorem value_readJpg (n : ℕ) : (readJpg n).value b = footerJpg b n := by
  rw [readJpg, value_bind, value_readSoi _ _ (Nat.zero_le 1), footerJpg, soiCount]
  simp only [Nat.zero_add, decide_eq_true_eq]
  split
  · rfl
  · rw [value_bind, value_findDown, value_pure]
    simp only [value_readEoi]

theorem value_readZip (n : ℕ) : (readZip n).value b = footerZip b n := by
  rw [readZip, value_bind, value_findUp, footerZip]
  simp only [value_bytesAt]
  cases firstIndex? (fun i => hasBytes b i [0x50, 0x4b, 0x05, 0x06]) (n - 4) with
  | none => rfl
  | some i =>
    show (if n < i + 22 then pure ↑(i + 22) else _ : Reading ℤ).value b = if n < i + 22 then _ else _
    split <;> rfl

theorem value_readGif (n : ℕ) : (readGif n).value b = footerGif b n := by
  rw [readGif, value_bind, value_findUp, value_pure]
  rfl

theorem value_readPdf (n : ℕ) : (readPdf n).value b = footerPdf b n := by
  rw [readPdf, value_bind, value_findDown, value_pure, footerPdf]
  simp only [value_bytesBehind]

theorem value_readMpg (n : ℕ) : (readMpg n).value b = footerMpg b n := by
  rw [readMpg, value_bind, value_findDown, value_pure, footerMpg]
  simp only [value_bytesBehind]

theorem value_readOgg (n : ℕ) : (readOgg n).value b = footerOgg b n := by
  rw [readOgg, value_bind, value_lastUp, value_pure]
  rfl

theorem value_ite {α : Type} (c : Prop) [Decidable c] (m m' : Reading α) :
    (if c then m else m').value b = if c then m.value b else m'.value b := apply_ite (fun m : Reading α => m.value b) c m m'

theorem value_readFooterOf (ext : List UInt8) (n : ℕ) : (readFooterOf ext n).value b = footerOf ext b n := by
  unfold readFooterOf footerOf
  have hbmp : readBmp.value b = footerBmp b := rfl
  have hriff : readRiff.value b = footerRiff b := rfl
  have hflv : readFlv.value b = footerFlv b := rfl
  have hwdp : readWdp.value b = footerWdp b := rfl
  simp only [value_ite, value_readPng, value_readJpg, value_readZip, value_readGif, value_readPdf, value_readOgg,
    value_readMpg, hbmp, hriff, hflv, hwdp, value_pure]

/-- **The results** are those of the footer checks. -/
theorem value_readFooter (n : ℕ) (hint : FileHint) : (readFooter n hint).value b = carverCheckFooter b n hint := by
  unfold readFooter carverCheckFooter
  rw [value_ite, value_pure]
  cases hint.extension with
  | none => rfl
  | some ext => rw [Option.elim_some, Option.elim_some, value_readFooterOf]

/-! ## Bounds -/

variable {n : ℕ}

theorem within_readLe16 {i : ℕ} (h : i + 2 ≤ n) : Within b n (readLe16 i) := by
  simp [readLe16]
  omega

theorem within_readLe32 {i : ℕ} (h : i + 4 ≤ n) : Within b n (readLe32 i) :=
  within_bind.mpr ⟨within_readLe16 (by omega), within_bind.mpr ⟨within_readLe16 (by omega), within_pure _⟩⟩

theorem within_ite {α : Type} {c : Prop} [Decidable c] {m m' : Reading α} (h : c → Within b n m)
    (h' : ¬ c → Within b n m') : Within b n (if c then m else m') := by
  split
  next hc => exact h hc
  next hc => exact h' hc

theorem within_bytesBehind {i : ℕ} {bytes : List UInt8} (h : i + bytes.length ≤ n) :
    Within b n (if 0 < i then bytesAt i bytes else pure false) :=
  within_ite (fun _ => within_bytesAt h) fun _ => within_pure _

theorem within_readSoi (m : ℕ) {j : ℕ} (h : j + m + 2 ≤ n) (soi : ℕ) : Within b n (readSoi m j soi) := by
  induction m generalizing j soi with
  | zero => exact within_pure _
  | succ m ih =>
    refine within_bind.mpr ⟨within_bytesAt (by rw [length_cons, length_cons, length_singleton]; omega), ?_⟩
    exact within_ite (fun _ => within_ite (fun _ => within_pure _) fun _ => ih (by omega) _) fun _ => ih (by omega) _

theorem within_readPng (hn : 8 ≤ n) : Within b n (readPng n) := by
  refine within_bind.mpr ⟨within_findUp fun i hi => ?_, within_pure _⟩
  refine within_orElse (within_andThen ?_ fun _ => within_bytesAt ?_) ?_
  · exact within_memcmpAt_of_le (by simp; omega)
  · simp
    omega
  · exact within_memcmpAt_of_le (by simp; omega)

theorem within_readEoi {i : ℕ} (h : i < n) : Within b n (readEoi i) :=
  within_ite (fun _ => within_andThen (within_isByte.mpr h) fun _ => within_isByte.mpr (by omega)) fun _ => within_pure _

theorem within_readJpg (hn : 3 ≤ n) : Within b n (readJpg n) := by
  refine within_bind.mpr ⟨within_readSoi _ (by omega) _, within_ite (fun _ => within_pure _) fun _ => ?_⟩
  exact within_bind.mpr ⟨within_findDown fun i hi => within_readEoi (by omega), within_pure _⟩

theorem within_readZip : Within b n (readZip n) := by
  refine within_bind.mpr ⟨within_findUp fun i hi => within_bytesAt (by simp; omega), ?_⟩
  split
  · exact within_pure _
  · refine within_ite (fun _ => within_pure _) fun hle => ?_
    exact within_bind.mpr ⟨within_readLe16 (by omega), within_pure _⟩

theorem within_readGif : Within b n (readGif n) :=
  within_bind.mpr ⟨within_findUp fun _ hi => within_isByte.mpr hi, within_pure _⟩

theorem within_readPdf (hn : 4 ≤ n) : Within b n (readPdf n) :=
  within_bind.mpr ⟨within_findDown fun i hi => within_bytesBehind (by simp; omega), within_pure _⟩

theorem within_readMpg (hn : 3 ≤ n) : Within b n (readMpg n) :=
  within_bind.mpr ⟨within_findDown fun i hi => within_bytesBehind (by simp; omega), within_pure _⟩

theorem within_readOgg : Within b n (readOgg n) :=
  within_bind.mpr ⟨within_lastUp fun i hi => within_memcmpAt_of_le (by simp; omega), within_pure _⟩

theorem within_readSize {i : ℕ} (h : i + 4 ≤ n) (least extra : ℕ) : Within b n (readSize i least extra) :=
  within_bind.mpr ⟨within_readLe32 h, within_pure _⟩

/-- **Footer checks look at nothing behind the buffer**, whatever its size. -/
theorem within_readFooter (n : ℕ) (hint : FileHint) : Within b n (readFooter n hint) := by
  refine within_ite (fun _ => within_pure _) fun hn => ?_
  have hn : 128 ≤ n := not_lt.mp hn
  cases hint.extension with
  | none => exact within_pure _
  | some ext =>
    show Within b n (readFooterOf ext n)
    refine within_ite (fun _ => within_readPng (by omega)) fun _ => within_ite (fun _ => within_readJpg (by omega)) fun _ =>
      within_ite (fun _ => within_readZip) fun _ => within_ite (fun _ => within_readGif) fun _ =>
      within_ite (fun _ => within_readPdf (by omega)) fun _ => within_ite (fun _ => within_readOgg) fun _ =>
      within_ite (fun _ => within_readSize (by omega) _ _) fun _ => within_ite (fun _ => within_readSize (by omega) _ _) fun _ =>
      within_ite (fun _ => within_readMpg (by omega)) fun _ => within_ite (fun _ => within_readSize (by omega) _ _) fun _ =>
      within_ite (fun _ => within_readSize (by omega) _ _) fun _ => within_pure _

end RecoveryQt
