import RecoveryQt.Fat.Model
import Mathlib.Computability.StateTransition

/-!
# The entries of a FAT directory

`dir_fat_aux`, one label of the source after the other. A pass through a label reads bytes of the buffer, writes
units of `unicode` and goes to the next label.

* `DirBuffer`: the buffer, in entries of 32 bytes; `DirParam`: the flags;
* `DirFile`: an entry of the list;
* `sumBytes`, `shortUnits`, `nameBytes`: the checksum, the 8.3 name, the conversion of a name;
* `DirGoto`, `DirState`, `DirPass`: the labels, the variables and what a pass does;
* `DirBuffer.pass`, `DirBuffer.step`: `dir_fat_aux`.
-/

namespace RecoveryQt

open List

/-- `ATTR_EXT`: the attributes of a slot of a long name. -/
def attrExt : UInt8 := 0x0F

/-- `ATTR_VOLUME`. -/
def attrVolume : UInt8 := 0x08

/-- `ATTR_DIR`. -/
def attrDir : UInt8 := 0x10

/-- `ATTR_RO`. -/
def attrRo : UInt8 := 0x01

/-- `DELETED_FLAG`. -/
def deletedFlag : UInt8 := 0xE5

/-- `FLAG_LIST_DELETED`, `FLAG_LIST_MASK12` and `FLAG_LIST_MASK16` in `param`. -/
structure DirParam where
  listDeleted : Bool
  mask12 : Bool
  mask16 : Bool

/-- The bits of a cluster number. -/
def DirParam.bits (param : DirParam) : ℕ := if param.mask12 then 12 else if param.mask16 then 16 else 28

/-- A `file_info_t`: its name, `st_ino`, `st_mode`, `st_size`, the two arguments of `date_dos2unix` and whether
its status is `FILE_STATUS_DELETED`. -/
@[ext] structure DirFile where
  name : List UInt8
  stIno : ℕ
  stMode : ℕ
  stSize : ℕ
  time : ℕ
  date : ℕ
  deleted : Bool
  deriving DecidableEq

/-! ## Names -/

/-- The checksum of an 8.3 name, from a first value on. -/
def sumBytes (sum : UInt8) (l : List UInt8) : UInt8 :=
  l.foldl (fun sum c => (((sum &&& 1) <<< 7) ||| ((sum &&& 0xFE) >>> 1)) + c) sum

/-- `toupper` of a letter of ASCII. -/
def toupper (c : ℕ) : ℕ := if 0x61 ≤ c ∧ c ≤ 0x7A then c - 0x20 else c

/-- `wctomb` where characters are encoded in UTF-8: what is no character is refused. -/
def wctomb (c : ℕ) : Option (List UInt8) :=
  if c.isValidChar then some (String.utf8EncodeChar (Char.ofNat c)) else none

/-- `unicode` with the units `l` written from `offset` on. -/
def writeUnits (unicode : ℕ → ℕ) (offset : ℕ) (l : List ℕ) : ℕ → ℕ := fun i =>
  if offset ≤ i then l.getD (i - offset) (unicode i) else unicode i

/-- The loop that writes the name of a file, from unit `i` on, for at most `n` rounds: the name, and `utf8`. -/
def nameBytes (unicode : ℕ → ℕ) : ℕ → ℕ → Bool → List UInt8 → List UInt8 × Bool
  | 0, _, utf8, out => (out, utf8)
  | n + 1, i, utf8, out =>
    if out.length < dirNameLen - 2 ∧ unicode i ≠ 0 then
      if utf8 ∧ 0x7F < unicode i then
        match wctomb (unicode i) with
        | none => nameBytes unicode n (i + 1) false (out ++ [UInt8.ofNat (unicode i)])
        | some bytes => nameBytes unicode n (i + 1) utf8 (out ++ bytes)
      else nameBytes unicode n (i + 1) utf8 (out ++ [UInt8.ofNat (unicode i)])
    else (out, utf8)

/-- `MSDOS_MKMODE` of the mask 0755. -/
def msdosMkmode (attr : UInt8) : ℕ :=
  (0o755 &&& (if attr &&& attrRo ≠ 0 then 0o555 else 0o777)) |||
    (if attr &&& attrDir ≠ 0 then 0o040000 else 0o100000)

/-! ## The variables -/

/-- Where `dir_fat_aux` stands. The loops have their own labels: over deleted slots, from the first of them
on and with its checksum; and over live slots, with the number of the slot and the checksum of the first. -/
inductive DirGoto
  | getNew
  | parseLongDeleted
  | deletedSlot (initial : ℕ) (sum : UInt8)
  | parseLongDeletedNext (initial : ℕ) (sum : UInt8)
  | parseLong
  | slot (slot : ℕ) (sum : UInt8)
  | nextSlot (slot : ℕ) (sum : UInt8)
  | aliasEntry (sum : UInt8)
  | recEnd
  | done
  deriving DecidableEq

/-- The variables: `de` is the number of the entry. -/
structure DirState where
  goto : DirGoto
  de : ℕ
  longSlots : ℕ
  deleted : Bool
  unicode : ℕ → ℕ
  utf8 : Bool
  list : List DirFile

/-- What is read of the buffer and written to `unicode` on the way to the next label. -/
structure DirPass where
  reads : List ℕ
  writes : List ℕ
  next : DirState

/-! ## The buffer -/

/-- The buffer and its size. -/
structure DirBuffer where
  content : ℕ → UInt8
  size : ℕ

namespace DirBuffer

variable (b : DirBuffer) (param : DirParam)

/-- The positions of some bytes of an entry. -/
def positions (de : ℕ) (l : List ℕ) : List ℕ := l.map (32 * de + ·)

/-- A byte of an entry. -/
def byte (de o : ℕ) : UInt8 := b.content (32 * de + o)

/-- `de->attr`. -/
def attr (de : ℕ) : UInt8 := b.byte de 11

/-- `ds->id`, which is `de->name[0]`. -/
def id (de : ℕ) : UInt8 := b.byte de 0

/-- `ds->alias_checksum`. -/
def aliasChecksum (de : ℕ) : UInt8 := b.byte de 13

/-- `de->name`. -/
def name (de : ℕ) : List UInt8 := (range 8).map (b.byte de)

/-- `de->ext`. -/
def ext (de : ℕ) : List UInt8 := (range' 8 3).map (b.byte de)

/-- The entry begins behind the buffer. -/
def past (de : ℕ) : Bool := b.size ≤ 32 * de

/-- Where the 13 units of a slot are: `name0_4`, `name5_10` and `name11_12`. -/
def unitOffsets : List ℕ := [1, 3, 5, 7, 9, 14, 16, 18, 20, 22, 24, 28, 30]

/-- The bytes of these units. -/
def unitReads : List ℕ := unitOffsets.flatMap fun o => [o, o + 1]

/-- `fat16_towchar` of the units of a slot. -/
def units (de : ℕ) : List ℕ := unitOffsets.map fun o => le16At b.content (32 * de + o)

/-- The slots from `ds` on, the last one first, written below unit `13 * n`. -/
def deletedUnits (unicode : ℕ → ℕ) (ds : ℕ) : ℕ → ℕ → ℕ
  | 0 => unicode
  | n + 1 => deletedUnits (writeUnits unicode (13 * n) (b.units ds)) (ds + 1) n

/-- The cluster of an entry, as the type of the volume has it. -/
def inode (de : ℕ) : ℕ :=
  (65536 * le16At b.content (32 * de + 20) + le16At b.content (32 * de + 26)) % 2 ^ param.bits

/-- The units of the 8.3 name. -/
def shortUnits (de : ℕ) : List ℕ :=
  (((b.name de).takeWhile (· ≠ 0x20)) ++
    if b.byte de 8 ≠ 0x20 then 0x2E :: (b.ext de).takeWhile (· ≠ 0x20) else []).map UInt8.toNat

/-- A deleted entry with a cluster, whose name has no zero behind its first byte. -/
def shownDeleted (de : ℕ) : Bool :=
  param.listDeleted && b.inode param de ≠ 0 && (b.name de).tail.all (· ≠ 0)

/-- What stands for the first character of a deleted entry: a dot, for the first two entries of a directory. -/
def firstUnit (de : ℕ) (unicode : ℕ → ℕ) (list : List DirFile) : ℕ :=
  if b.attr de &&& attrDir = attrDir ∧
      (list.length = 0 ∧ unicode 1 = 0 ∨ list.length = 1 ∧ unicode 1 = 0x2E ∧ unicode 2 = 0) then 0x2E
  else 0x5F

/-- At `RecEnd`, the name in `unicode` and the status; the name of the entry itself where no slots go with it. -/
def named (m : DirState) : DirState :=
  if m.longSlots = 0 ∧ b.attr m.de ≠ attrExt then
    let unicode := writeUnits m.unicode 0 (b.shortUnits m.de ++ [0])
    if unicode 0 = deletedFlag.toNat ∧ b.shownDeleted param m.de then
      { m with unicode := Function.update unicode 0 (b.firstUnit m.de unicode m.list), deleted := true }
    else { m with unicode := unicode }
  else m

/-- The entry is no slot, or belongs to slots; and it is no volume label. -/
def isFile (m : DirState) : Bool :=
  (b.attr m.de ≠ attrExt ∨ m.longSlots ≠ 0) ∧ b.attr m.de &&& attrVolume = 0

/-- The entry goes to the list. -/
def listed (m : DirState) : Bool :=
  b.isFile m ∧ m.unicode 0 ≠ 0 ∧ m.unicode 0 ≠ deletedFlag.toNat

/-- What goes to the list. -/
def file (m : DirState) : DirFile where
  name := (nameBytes m.unicode (dirNameLen - 2) 0 m.utf8 []).1
  stIno := b.inode param m.de
  stMode := msdosMkmode (b.attr m.de)
  stSize := le32At b.content (32 * m.de + 28)
  time := le16At b.content (32 * m.de + 22)
  date := le16At b.content (32 * m.de + 24)
  deleted := m.deleted

/-- The list and `utf8` behind an entry, named as it is. -/
def append (m : DirState) : DirState :=
  if b.listed m then
    { m with
      list := m.list ++ [b.file param m]
      utf8 := (nameBytes m.unicode (dirNameLen - 2) 0 m.utf8 []).2 }
  else m

/-- There is another entry: it begins before the last byte of the buffer, and not with a zero. -/
def more (de : ℕ) : Bool := 32 * de + 1 < b.size ∧ b.id de ≠ 0

/-- From a label to the next one. -/
def pass (m : DirState) : DirPass :=
  match m.goto with
  | .getNew =>
    { reads := positions m.de ([11] ++ if b.attr m.de = attrExt then [0] else [])
      writes := [0]
      next := { m with
        goto :=
          if b.attr m.de = attrExt then
            if b.id m.de = deletedFlag ∧ param.listDeleted then .parseLongDeleted else .parseLong
          else .recEnd
        longSlots := 0
        deleted := false
        unicode := Function.update m.unicode 0 0 } }
  | .parseLongDeleted =>
    { reads := positions m.de [13]
      writes := []
      next := { m with goto := .deletedSlot m.de (b.aliasChecksum m.de), longSlots := 0 } }
  | .deletedSlot initial sum =>
    if b.past m.de then ⟨[], [], { m with goto := .done }⟩
    else if b.id m.de ≠ deletedFlag then ⟨positions m.de [0], [], { m with goto := .getNew }⟩
    else if b.attr m.de ≠ attrExt then
      ⟨positions m.de [0, 11], [], { m with goto := .parseLongDeletedNext initial sum }⟩
    else if b.aliasChecksum m.de ≠ sum then
      ⟨positions m.de [0, 11, 13], [], { m with goto := .parseLongDeleted }⟩
    else
      -- `long_slots` is an `unsigned char`
      ⟨positions m.de [0, 11, 13], [], { m with de := m.de + 1, longSlots := (m.longSlots + 1) % 256 }⟩
  | .parseLongDeletedNext initial sum =>
    if b.attr m.de &&& attrVolume ≠ 0 then
      ⟨positions m.de [11], [], { m with goto := .recEnd, longSlots := 0 }⟩
    else
      let unicode := b.deletedUnits (Function.update m.unicode (m.longSlots * 13) 0) initial m.longSlots
      let same := sumBytes (UInt8.ofNat (toupper (unicode 0))) ((b.name m.de).tail ++ b.ext m.de) = sum
      { reads := (range m.longSlots).flatMap (fun i => positions (initial + i) unitReads) ++
          positions m.de (11 :: range' 1 10)
        writes := m.longSlots * 13 :: range (13 * m.longSlots)
        next := { m with
          goto := .recEnd
          longSlots := if same then m.longSlots else 0
          deleted := if same then true else m.deleted
          unicode := unicode } }
  | .parseLong =>
    let slots := (b.id m.de &&& ~~~ 0x40).toNat
    if b.id m.de &&& 0x40 = 0 ∨ 20 < slots ∨ slots = 0 then ⟨positions m.de [0], [], { m with goto := .recEnd }⟩
    else
      ⟨positions m.de [0, 13], [],
        { m with goto := .slot (slots - 1) (b.aliasChecksum m.de), longSlots := slots }⟩
  | .slot slot sum =>
    let unicode := writeUnits m.unicode (13 * slot) (b.units m.de)
    let last := b.id m.de &&& 0x40 ≠ 0
    { reads := positions m.de (0 :: unitReads)
      writes := range' (13 * slot) 13 ++ if last then [13 * slot + 13] else []
      next := { m with
        goto := .nextSlot slot sum
        de := m.de + 1
        unicode := if last then Function.update unicode (13 * slot + 13) 0 else unicode } }
  | .nextSlot slot sum =>
    if b.past m.de then ⟨[], [], { m with goto := .done }⟩
    else if slot = 0 then ⟨[], [], { m with goto := .aliasEntry sum }⟩
    else if b.attr m.de ≠ attrExt then ⟨positions m.de [11], [], { m with goto := .recEnd, longSlots := 0 }⟩
    else if (b.id m.de &&& ~~~ 0x40).toNat ≠ slot then ⟨positions m.de [11, 0], [], { m with goto := .parseLong }⟩
    else if b.aliasChecksum m.de ≠ sum then ⟨positions m.de [11, 0, 13], [], { m with goto := .parseLong }⟩
    else ⟨positions m.de [11, 0, 13], [], { m with goto := .slot (slot - 1) sum }⟩
  | .aliasEntry sum =>
    if b.attr m.de = attrExt then ⟨positions m.de [11], [], { m with goto := .parseLong }⟩
    else if (b.id m.de = 0 ∨ b.id m.de = deletedFlag) ∨ b.attr m.de &&& attrVolume ≠ 0 then
      ⟨positions m.de [11, 0], [], { m with goto := .recEnd, longSlots := 0 }⟩
    else
      ⟨positions m.de (11 :: range 11), [],
        { m with
          goto := .recEnd
          longSlots := if sumBytes 0 (b.name m.de ++ b.ext m.de) = sum then m.longSlots else 0 }⟩
  | .recEnd =>
    let m := b.named param m
    { reads := positions m.de ([20, 21, 26, 27, 11] ++
          (if m.longSlots = 0 ∧ b.attr m.de ≠ attrExt then range 11 else []) ++
          (if b.listed m then range' 22 4 ++ range' 28 4 else [])) ++
        (if 32 * (m.de + 1) + 1 < b.size then positions (m.de + 1) [0] else [])
      writes := if m.longSlots = 0 ∧ b.attr m.de ≠ attrExt then range ((b.shortUnits m.de).length + 1) else []
      next :=
        if b.isFile m ∧ m.unicode 0 = 0 then { m with goto := .done }
        else
          { b.append param m with
            goto := if b.more (m.de + 1) then .getNew else .done
            de := m.de + 1 } }
  | .done => ⟨[], [], m⟩

/-- The next label, until the function returns. -/
def step (m : DirState) : Option DirState := if m.goto = .done then none else some (b.pass param m).next

/-- The variables at the start, with an empty list. What `unicode` holds is not known. -/
def start (unicode : ℕ → ℕ) : DirState := ⟨.getNew, 0, 0, false, unicode, true, []⟩

end DirBuffer

end RecoveryQt
