import RecoveryQt.Carver.Model
import RecoveryQt.Fat.Model
import RecoveryQt.Lib.Indices

/-!
# `carver_check_footer`

The footer check of a format looks for the end of a file in the bytes of a buffer, or reads its size from the header.

* `footerPng`, `footerJpg`, `footerZip`, `footerGif`, `footerPdf`, `footerOgg`, `footerBmp`, `footerRiff`,
  `footerMpg`, `footerFlv`, `footerWdp`: the formats;
* `carverCheckFooter`: `carver_check_footer`.
-/

namespace RecoveryQt

open List

/-- An `unsigned int` as an `int`; a sum of an `int` that leaves its range wraps. -/
def asInt (n : ℕ) : ℤ :=
  if n % 4294967296 < 2147483648 then ↑(n % 4294967296) else ↑(n % 4294967296) - 4294967296

/-- `-1`, or where something that was found ends. -/
def endOf (found : Option ℕ) (length : ℕ) : ℤ := found.elim (-1) fun i => i + length

section Formats

variable (buffer : ℕ → UInt8) (bufferSize : ℕ)

/-- The end of the PNG, or of the MNG: `IEND` without data, or `MEND`. -/
def isPngEnd (i : ℕ) : Bool :=
  hasBytes buffer (i + 4) [0x49, 0x45, 0x4e, 0x44] && hasBytes buffer i [0, 0, 0, 0] ||
    hasBytes buffer (i + 4) [0x4d, 0x45, 0x4e, 0x44]

/-- `png`, `mng`, `jng`: the first end. -/
def footerPng : ℤ := endOf (firstIndex? (isPngEnd buffer) (bufferSize - 8)) 12

/-- The number of `SOI` markers. -/
def soiCount : ℕ := (range (bufferSize - 3)).countP fun j => hasBytes buffer j [0xff, 0xd8, 0xff]

/-- `EOI` ends at a position. -/
def isEoi (i : ℕ) : Bool := decide (0 < i) && buffer i == 0xd9 && buffer (i - 1) == 0xff

/-- `jpg`: the last `EOI`, unless there is a second picture. -/
def footerJpg : ℤ :=
  if 1 < soiCount buffer bufferSize then -1
  else endOf (lastIndex? (isEoi buffer) (bufferSize - 1)) 1

/-- `zip`: the first end of a central directory, with its comment. -/
def footerZip : ℤ :=
  (firstIndex? (fun i => hasBytes buffer i [0x50, 0x4b, 0x05, 0x06]) (bufferSize - 4)).elim (-1) fun i =>
    if bufferSize < i + 22 then ↑(i + 22) else ↑(i + 22 + le16At buffer (i + 20))

/-- `gif`: the first byte `0x3B`. -/
def footerGif : ℤ := endOf (firstIndex? (fun i => buffer i == 0x3b) bufferSize) 1

/-- `pdf`: the last `%%EOF`, but for the start of the buffer. -/
def footerPdf : ℤ :=
  endOf (lastIndex? (fun i => decide (0 < i) && hasBytes buffer i [0x25, 0x25, 0x45, 0x4f, 0x46]) (bufferSize - 4)) 5

/-- The last page header of an Ogg stream. -/
def lastOggs : Option ℕ := lastIndex? (fun i => hasBytes buffer i [0x4f, 0x67, 0x67, 0x53]) (bufferSize - 4)

/-- `ogg`: 27 bytes behind the last page header. -/
def footerOgg : ℤ := (lastOggs buffer bufferSize).elim (-1) fun i => if i + 27 < bufferSize then ↑(i + 27) else -1

/-- `bmp`: the size in the header. -/
def footerBmp : ℤ := if 0 < le32At buffer 2 then asInt (le32At buffer 2) else -1

/-- `riff`, `wav`, `avi`: the size in the header, and the eight bytes before it. -/
def footerRiff : ℤ := if 0 < le32At buffer 4 then asInt (le32At buffer 4 + 8) else -1

/-- `mpg`: the last program end code, but for the start of the buffer. -/
def footerMpg : ℤ :=
  endOf (lastIndex? (fun i => decide (0 < i) && hasBytes buffer i [0x00, 0x00, 0x01, 0xb9]) (bufferSize - 3)) 4

/-- `flv`: what stands in bytes 5 to 8. -/
def footerFlv : ℤ := if 9 < le32At buffer 5 then asInt (le32At buffer 5) else -1

/-- `wdp`: what stands in bytes 12 to 15. -/
def footerWdp : ℤ := if 16 < le32At buffer 12 then asInt (le32At buffer 12) else -1

end Formats

/-! ## Extensions -/

def extPng : List UInt8 := [0x70, 0x6e, 0x67]
def extMng : List UInt8 := [0x6d, 0x6e, 0x67]
def extJng : List UInt8 := [0x6a, 0x6e, 0x67]
def extJpg : List UInt8 := [0x6a, 0x70, 0x67]
def extZip : List UInt8 := [0x7a, 0x69, 0x70]
def extGif : List UInt8 := [0x67, 0x69, 0x66]
def extPdf : List UInt8 := [0x70, 0x64, 0x66]
def extOgg : List UInt8 := [0x6f, 0x67, 0x67]
def extBmp : List UInt8 := [0x62, 0x6d, 0x70]
def extRiff : List UInt8 := [0x72, 0x69, 0x66, 0x66]
def extWav : List UInt8 := [0x77, 0x61, 0x76]
def extAvi : List UInt8 := [0x61, 0x76, 0x69]
def extMpg : List UInt8 := [0x6d, 0x70, 0x67]
def extFlv : List UInt8 := [0x66, 0x6c, 0x76]
def extWdp : List UInt8 := [0x77, 0x64, 0x70]

/-- The check of a format, by the extension of its hint. -/
def footerOf (ext : List UInt8) (buffer : ℕ → UInt8) (bufferSize : ℕ) : ℤ :=
  if ext = extPng ∨ ext = extMng ∨ ext = extJng then footerPng buffer bufferSize
  else if ext = extJpg then footerJpg buffer bufferSize
  else if ext = extZip then footerZip buffer bufferSize
  else if ext = extGif then footerGif buffer bufferSize
  else if ext = extPdf then footerPdf buffer bufferSize
  else if ext = extOgg then footerOgg buffer bufferSize
  else if ext = extBmp then footerBmp buffer
  else if ext = extRiff ∨ ext = extWav ∨ ext = extAvi then footerRiff buffer
  else if ext = extMpg then footerMpg buffer bufferSize
  else if ext = extFlv then footerFlv buffer
  else if ext = extWdp then footerWdp buffer
  else -1

/-- **`carver_check_footer`.** -/
def carverCheckFooter (buffer : ℕ → UInt8) (bufferSize : ℕ) (hint : FileHint) : ℤ :=
  if bufferSize < 128 then -1 else hint.extension.elim (-1) fun ext => footerOf ext buffer bufferSize

/-! ## Sizes from the header -/

/-- What a check reads from a field of the header, as the unsigned value that stands there: the size, when it is more
than the check asks for. -/
def storedSize? (buffer : ℕ → UInt8) (ext : List UInt8) : Option ℕ :=
  if ext = extBmp then (if 0 < le32At buffer 2 then some (le32At buffer 2) else none)
  else if ext = extRiff ∨ ext = extWav ∨ ext = extAvi then
    (if 0 < le32At buffer 4 then some (le32At buffer 4 + 8) else none)
  else if ext = extFlv then (if 9 < le32At buffer 5 then some (le32At buffer 5) else none)
  else if ext = extWdp then (if 16 < le32At buffer 12 then some (le32At buffer 12) else none)
  else none

theorem asInt_of_lt {n : ℕ} (h : n < 2147483648) : asInt n = n := by
  unfold asInt
  split_ifs <;> omega

/-- A value is used as it stands exactly if its highest bit is not set. -/
theorem asInt_eq_iff {n : ℕ} : asInt n = n ↔ n < 2147483648 := by
  refine ⟨fun h => ?_, asInt_of_lt⟩
  unfold asInt at h
  split_ifs at h <;> omega

/-- **A check that finds a size uses it** as an `int`. -/
theorem footerOf_stored {buffer : ℕ → UInt8} (bufferSize : ℕ) {ext : List UInt8} {n : ℕ}
    (h : storedSize? buffer ext = some n) : footerOf ext buffer bufferSize = asInt n := by
  unfold storedSize? at h
  split_ifs at h with hbmp hpos hriff hpos hflv hmin hwdp hmin <;> obtain rfl := Option.some.inj h
  · subst hbmp
    exact if_pos hpos
  · obtain rfl | rfl | rfl := hriff <;> exact if_pos hpos
  · subst hflv
    exact if_pos hmin
  · subst hwdp
    exact if_pos hmin

end RecoveryQt
