import RecoveryQt.Backup.Live
import RecoveryQt.Fat.DirectoryFormat
import RecoveryQt.Lib.Codec

/-!
# The directories of an ISO 9660 volume

A read of bytes that a buffer does not have is a failure of the model.

* `bytesAt`: a read;
* `ucs2beToUtf8`, `rockridgeName`, `plainName`: the three kinds of names; `isoNameFromRecord`: the name of a record;
* `isoDateToUnix`: a date;
* `IsoExtent`: the directory that is read; **`IsoExtent.isoParseDirBlock`**: its files.
-/

namespace RecoveryQt

open List

/-- `n` bytes of a buffer from a position on, if it has them. -/
def bytesAt (l : List UInt8) (i n : ℕ) : Option (List UInt8) :=
  if i + n ≤ l.length then some ((l.drop i).take n) else none

/-! ## Names -/

/-- `DIR_NAME_LEN`. -/
def isoNameLen : ℕ := 1024

/-- `iso_ucs2be_to_utf8`, behind what is written already. -/
def ucs2beToUtf8 : List UInt8 → List UInt8 → List UInt8
  | hi :: lo :: src, dst =>
    let wc := hi.toNat * 256 + lo.toNat
    if wc = 0 ∨ isoNameLen ≤ dst.length + (utf8Bytes wc).length then dst
    else ucs2beToUtf8 src (dst ++ utf8Bytes wc)
  | _, dst => dst

/-- The loop of `iso_rockridge_name` over the entries of a system use area: the name, if one is found. -/
def rockridgeLoop : List UInt8 → List UInt8 → Bool → Option (Option (List UInt8))
  | s :: t :: len :: version :: rest, dst, found =>
    if len.toNat < 4 ∨ rest.length + 4 < len.toNat then some (if found then some dst else none)
    else if s = 78 ∧ t = 77 ∧ 5 ≤ len.toNat then
      match rest with
      | [] => none
      | flags :: content =>
        if flags &&& 6 ≠ 0 then some none
        else match bytesAt content 0 (len.toNat - 5) with
          | none => none
          | some name =>
            let dst := dst ++ name.take (isoNameLen - 1 - dst.length)
            if flags &&& 1 = 0 then some (some dst)
            else rockridgeLoop ((flags :: content).drop (len.toNat - 4)) dst true
    else rockridgeLoop (rest.drop (len.toNat - 4)) dst found
  | _, dst, found => some (if found then some dst else none)
termination_by su => su.length
decreasing_by all_goals (simp only [length_drop, length_cons]; omega)

/-- The system use area behind an `SP` entry at its start. -/
def skipSp : List UInt8 → List UInt8
  | s :: p :: len :: a :: b :: c :: skip :: rest =>
    if s = 83 ∧ p = 80 ∧ len = 7 then rest.drop skip.toNat else s :: p :: len :: a :: b :: c :: skip :: rest
  | su => su

/-- `iso_rockridge_name`. -/
def rockridgeName (su : List UInt8) : Option (Option (List UInt8)) := rockridgeLoop (skipSp su) [] false

/-- An identifier without its version, and without a dot at its end. -/
def plainName (name : List UInt8) : List UInt8 :=
  let dst := (name.takeWhile (· ≠ 59)).take (isoNameLen - 1)
  if 1 < dst.length ∧ dst.getLast? = some 46 then dst.dropLast else dst

/-- The name that is written for an identifier: of the system use area, if there is one in it. -/
def isoText (joliet : Bool) (record name : List UInt8) : Option (List UInt8) :=
  if joliet then some (ucs2beToUtf8 name [])
  else
    let suOff := 33 + name.length + (33 + name.length) % 2
    if suOff < record.length then
      (bytesAt record suOff (record.length - suOff)).bind fun su =>
        (rockridgeName su).map fun alternate => alternate.getD (plainName name)
    else some (plainName name)

/-- What is written as a C string, `"?"` for an empty one. -/
def orQuestion (dst : List UInt8) : List UInt8 :=
  if cString dst = [] then ascii "?" else cString dst

/-- `iso_name_from_record`. -/
def isoNameFromRecord (joliet : Bool) (record : List UInt8) : Option (List UInt8) := do
  let nameLen ← record[32]?
  let name ← bytesAt record 33 nameLen.toNat
  if name = [0] then some (ascii ".")
  else if name = [1] then some (ascii "..")
  else (isoText joliet record name).map orQuestion

/-! ## Dates -/

/-- `iso_date_to_unix`. -/
def isoDateToUnix (p : List UInt8) : ℤ :=
  let at_ (i : ℕ) : ℕ := (p.getD i 0).toNat
  let year := 1900 + at_ 0
  let mon := at_ 1
  let day := at_ 2
  if mon < 1 ∨ 12 < mon ∨ day < 1 ∨ 31 < day then 0
  else
    let y := if mon ≤ 2 then year - 1 else year
    let era := y / 400
    let yoe := y - era * 400
    let doy := (153 * (if 2 < mon then mon - 3 else mon + 9) + 2) / 5 + day - 1
    let doe := yoe * 365 + yoe / 4 - yoe / 100 + doy
    let days : ℤ := era * 146097 + doe - 719468
    days * 86400 + at_ 3 * 3600 + at_ 4 * 60 + at_ 5 - (p.getD 6 0).toInt8.toInt * 15 * 60

/-! ## Directories -/

/-- The bytes of a directory, `block_size` and `joliet`. A directory has at most 16 MiB and a block at most 4096 bytes,
so that no sum of positions is `2 ^ 32` or more. -/
structure IsoExtent where
  bytes : List UInt8
  blockSize : ℕ
  joliet : Bool
  blockSize_pos : 0 < blockSize
  fits : bytes.length + blockSize + 255 < 2 ^ 32

/-- What is read of a record: `extent`, `data_len` and `flags`. -/
structure IsoHeader where
  extent : UInt32
  dataLen : UInt32
  flags : UInt8

/-- The header of a record. -/
def isoHeader (record : List UInt8) : Option IsoHeader := do
  let location ← bytesAt record 2 4
  let xar ← record[1]?
  let dataLen ← bytesAt record 10 4
  let flags ← record[25]?
  some ⟨UInt32.ofNat (leNat location) + xar.toUInt32, UInt32.ofNat (leNat dataLen), flags⟩

/-- `ISO_FLAG_MULTI` and `ISO_FLAG_DIR`. -/
def IsoHeader.isMulti (h : IsoHeader) : Bool := h.flags &&& 0x80 != 0
def IsoHeader.isDir (h : IsoHeader) : Bool := h.flags &&& 0x02 != 0

/-- `new_file` for the last record of a file, behind sections of `multi_size` bytes that start at `multi_extent`. -/
def isoFile (joliet : Bool) (record : List UInt8) (h : IsoHeader) (multiSize : UInt64) (multiExtent : UInt32) :
    Option FileInfo := do
  let name ← isoNameFromRecord joliet record
  let date ← bytesAt record 18 7
  some {
    name := name
    stIno := (if 0 < multiSize then multiExtent else h.extent).toNat
    stSize := multiSize + h.dataLen.toUInt64
    tdMtime := UInt64.ofInt (isoDateToUnix date)
    isDir := h.isDir
    deleted := false }

namespace IsoExtent

variable (e : IsoExtent)

/-- The loop of `iso_parse_dir_block` from a position on. -/
def parseFrom (offset : ℕ) (multiSize : UInt64) (multiExtent : UInt32) : Option (List FileInfo) :=
  if _hoffset : offset + 33 < e.bytes.length then
    match e.bytes[offset]? with
    | none => none
    | some recLen =>
      if _hzero : recLen = 0 then parseFrom ((offset / e.blockSize + 1) * e.blockSize) multiSize multiExtent
      else if _hlen : e.bytes.length < offset + recLen.toNat ∨ recLen.toNat < 34 then some []
      else match bytesAt e.bytes offset recLen.toNat with
        | none => none
        | some record =>
          match record[32]?, isoHeader record with
          | some nameLen, some h =>
            if recLen.toNat < 33 + nameLen.toNat then some []
            else if h.isMulti then
              parseFrom (offset + recLen.toNat) (multiSize + h.dataLen.toUInt64)
                (if multiSize = 0 then h.extent else multiExtent)
            else match isoFile e.joliet record h multiSize multiExtent with
              | none => none
              | some file => (parseFrom (offset + recLen.toNat) 0 0).map (cons file)
          | _, _ => none
  else some []
termination_by e.bytes.length - offset
decreasing_by
  · have hpos := e.blockSize_pos
    have hmod := Nat.mod_lt offset hpos
    have hdiv := Nat.div_add_mod' offset e.blockSize
    rw [Nat.add_mul, Nat.one_mul]
    omega
  · omega
  · omega

/-- **`iso_parse_dir_block`**. -/
def isoParseDirBlock : Option (List FileInfo) := e.parseFrom 0 0 0

end IsoExtent

end RecoveryQt
