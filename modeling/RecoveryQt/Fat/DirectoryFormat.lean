import RecoveryQt.Fat.DirectoryBounds

/-!
# Directories of FAT volumes with long names

The format that `dir_fat_aux` is to read.

* `utf8Bytes`, `utf16Bytes`: a name in UTF-16 as bytes;
* `LiveEntry`: a file or directory with its 8.3 name, and its long name if it has one;
* `LiveEntry.shortByte`, `LiveEntry.slotByte`: the bytes of its entry and of the slots of its long name;
* `DirItem`, `dirRecords`: live entries, with deleted ones between them; `Encodes`: a buffer that holds them;
* `LiveEntry.file`: what is to be listed; `DirBuffer.Lists`: exactly these files are listed as present.
-/

namespace RecoveryQt

open List StateTransition

/-! ## Names in UTF-16 -/

/-- The bytes of a character in UTF-8; the same pattern for a number that is none. -/
def utf8Bytes (c : ℕ) : List UInt8 :=
  if c < 0x80 then [UInt8.ofNat c]
  else if c < 0x800 then [UInt8.ofNat (0xC0 + c / 64), UInt8.ofNat (0x80 + c % 64)]
  else if c < 0x10000 then
    [UInt8.ofNat (0xE0 + c / 4096), UInt8.ofNat (0x80 + c / 64 % 64), UInt8.ofNat (0x80 + c % 64)]
  else
    [UInt8.ofNat (0xF0 + c / 262144), UInt8.ofNat (0x80 + c / 4096 % 64), UInt8.ofNat (0x80 + c / 64 % 64),
      UInt8.ofNat (0x80 + c % 64)]

/-- A unit that is half of a character. -/
def IsSurrogate (u : ℕ) : Prop := 0xD800 ≤ u ∧ u < 0xE000

instance : DecidablePred IsSurrogate := fun u => inferInstanceAs (Decidable (0xD800 ≤ u ∧ u < 0xE000))

/-- The bytes of a name in UTF-16: a high surrogate and a low one are one character. -/
def utf16Bytes : List ℕ → List UInt8
  | [] => []
  | [u] => utf8Bytes u
  | u :: v :: l =>
    if (0xD800 ≤ u ∧ u < 0xDC00) ∧ 0xDC00 ≤ v ∧ v < 0xE000 then
      utf8Bytes (0x10000 + (u - 0xD800) * 1024 + (v - 0xDC00)) ++ utf16Bytes l
    else utf8Bytes u ++ utf16Bytes (v :: l)

/-! ## Entries -/

/-- A byte of a little-endian number. -/
def leByte (n i : ℕ) : UInt8 := UInt8.ofNat (n / 256 ^ i % 256)

/-- A live entry of a volume with cluster numbers of `bits` bits. The name is given without the blanks at its end,
and as it is meant: a first byte 0xE5 is stored as 0x05. `reserved` are the bits of the cluster number that do not belong
to it, and `other` the bytes that are not looked at. -/
structure LiveEntry (bits : ℕ) where
  base : List UInt8
  ext : List UInt8
  attr : UInt8
  other : ℕ → UInt8
  cluster : ℕ
  reserved : ℕ
  time : UInt16
  date : UInt16
  size : UInt32
  long : List UInt16
  base_ne : base ≠ []
  base_length : base.length ≤ 8
  ext_length : ext.length ≤ 3
  base_chars : ∀ c ∈ base, c ≠ 0
  base_first : ∀ c ∈ base.head?, c ≠ 0x05 ∧ c ≠ 0x20
  base_last : base.getLast? ≠ some 0x20
  ext_chars : ∀ c ∈ ext, c ≠ 0
  ext_last : ext.getLast? ≠ some 0x20
  attr_file : attr &&& attrVolume = 0
  cluster_lt : cluster < 2 ^ bits
  start_lt : cluster + 2 ^ bits * reserved < 2 ^ 32
  long_length : long.length ≤ 255
  long_units : ∀ u ∈ long, u ≠ 0

namespace LiveEntry

variable {bits : ℕ} (x : LiveEntry bits)

/-- The name as it is stored. -/
def stored : List UInt8 := if x.base.head? = some deletedFlag then 0x05 :: x.base.tail else x.base

/-- The 11 bytes of the name. -/
def nameByte (i : ℕ) : UInt8 := if i < 8 then x.stored.getD i 0x20 else x.ext.getD (i - 8) 0x20

/-- The checksum of the 8.3 name, which its slots have. -/
def checksum : UInt8 := sumBytes 0 ((range 11).map x.nameByte)

/-- The bytes of the entry. -/
def shortByte (o : ℕ) : UInt8 :=
  let start := x.cluster + 2 ^ bits * x.reserved
  if o < 11 then x.nameByte o
  else if o = 11 then x.attr
  else if o < 20 then x.other o
  else if o < 22 then leByte (start / 65536) (o - 20)
  else if o < 24 then leByte x.time.toNat (o - 22)
  else if o < 26 then leByte x.date.toNat (o - 24)
  else if o < 28 then leByte (start % 65536) (o - 26)
  else leByte x.size.toNat (o - 28)

/-- The slots of the long name. -/
def slots : ℕ := (x.long.length + 12) / 13

/-- The units of the slots: the long name, a zero if there is room, and 0xFFFF. -/
def unit (i : ℕ) : ℕ :=
  if h : i < x.long.length then x.long[i].toNat else if i = x.long.length then 0 else 0xFFFF

/-- The bytes of slot `j + 1`. -/
def slotByte (j o : ℕ) : UInt8 :=
  if o = 0 then UInt8.ofNat (if j + 1 = x.slots then j + 1 + 0x40 else j + 1)
  else if o = 11 then attrExt
  else if o = 13 then x.checksum
  else if o = 12 ∨ o = 26 ∨ o = 27 then 0
  else if o < 11 then leByte (x.unit (13 * j + (o - 1) / 2)) ((o - 1) % 2)
  else if o < 26 then leByte (x.unit (13 * j + 5 + (o - 14) / 2)) ((o - 14) % 2)
  else leByte (x.unit (13 * j + 11 + (o - 28) / 2)) ((o - 28) % 2)

/-- The slots, the last one first, and the entry. -/
def records : List (ℕ → UInt8) := ((range x.slots).reverse.map x.slotByte) ++ [x.shortByte]

/-- The 8.3 name, with a dot before the extension, in units. -/
def shortName : List ℕ := (x.base ++ if x.ext = [] then [] else 0x2E :: x.ext).map UInt8.toNat

/-- The long name, or the 8.3 name where there is none. -/
def fullName : List ℕ := if x.long = [] then x.shortName else x.long.map UInt16.toNat

/-- The file that is to be listed. -/
def file : DirFile where
  name := utf16Bytes x.fullName
  stIno := x.cluster
  stMode := msdosMkmode x.attr
  stSize := x.size.toNat
  time := x.time.toNat
  date := x.date.toNat
  deleted := false

end LiveEntry

/-- A live entry with its slots; or a deleted entry, or a deleted slot. -/
inductive DirItem (bits : ℕ)
  | live (x : LiveEntry bits)
  | deleted (record : ℕ → UInt8) (h : record 0 = deletedFlag)

/-- The records of 32 bytes of a directory. -/
def dirRecords {bits : ℕ} (items : List (DirItem bits)) : List (ℕ → UInt8) :=
  items.flatMap fun
    | .live x => x.records
    | .deleted record _ => [record]

/-- The live entries. -/
def liveEntries {bits : ℕ} (items : List (DirItem bits)) : List (LiveEntry bits) :=
  items.filterMap fun
    | .live x => some x
    | .deleted _ _ => none

namespace DirBuffer

variable (b : DirBuffer)

/-- A buffer of whole entries that begins with a directory; behind it the buffer ends, or an entry of zeros ends
the directory. -/
structure Encodes {bits : ℕ} (items : List (DirItem bits)) : Prop where
  pos : 0 < b.size
  entries : 32 ∣ b.size
  inside : 32 * (dirRecords items).length ≤ b.size
  holds : ∀ i record, (dirRecords items)[i]? = some record → ∀ o < 32, b.byte i o = record o
  tail : b.size = 32 * (dirRecords items).length ∨ ∀ o < 32, b.byte (dirRecords items).length o = 0

/-- The decoder stays in its arrays and returns, and the files that it lists as present are those of the live
entries, in order. -/
def Lists (param : DirParam) (items : List (DirItem param.bits)) : Prop :=
  b.InBounds param ∧ ∀ unicode, ∃ m, Reaches (b.step param) (start unicode) m ∧ m.goto = .done ∧
    m.list.filter (fun f => !f.deleted) = (liveEntries items).map LiveEntry.file

end DirBuffer

end RecoveryQt
