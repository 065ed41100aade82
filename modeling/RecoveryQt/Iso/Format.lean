import RecoveryQt.Iso.Model

/-!
# Directories as ECMA-119 prescribes them

* `IsoRecord`, `IsoRecord.encode`: a directory record;
* `JolietName`, `PlainName`, `IsoName`: the names of files and directories, their identifiers and system use areas;
* `IsoItem`: a file or directory with the records of its sections; `IsoItem.listed`: what is to be listed of it;
* `IsoDirectory`: records in blocks; `IsoDirectory.bytes`: its bytes.
-/

namespace RecoveryQt

open List

/-! ## Records -/

/-- A section of a file: where it is, how long it is, and what else its record holds. -/
structure IsoSection where
  xar : UInt8
  location : UInt32
  dataLength : UInt32
  date : List UInt8
  length_date : date.length = 7
  flags : UInt8
  unitSize : UInt8
  gap : UInt8
  volume : UInt16
  systemUse : List UInt8

/-- The first block of its data. -/
def IsoSection.extent (s : IsoSection) : UInt32 := s.location + s.xar.toUInt32

/-- A record: a section under an identifier. -/
structure IsoRecord extends IsoSection where
  identifier : List UInt8
  identifier_ne : identifier ≠ []
  length_le : 33 + identifier.length + (33 + identifier.length) % 2 + systemUse.length ≤ 255

namespace IsoRecord

variable (r : IsoRecord)

/-- A number in both byte orders. -/
def bothBytes (w n : ℕ) : List UInt8 := leBytes w n ++ (leBytes w n).reverse

/-- The padding behind an identifier of even length. -/
def padding : List UInt8 := replicate ((33 + r.identifier.length) % 2) 0

/-- `LEN_DR`. -/
def length : ℕ := 33 + r.identifier.length + (33 + r.identifier.length) % 2 + r.systemUse.length

/-- The bytes of a record. -/
def encode : List UInt8 :=
  [UInt8.ofNat r.length, r.xar] ++ bothBytes 4 r.location.toNat ++ bothBytes 4 r.dataLength.toNat ++ r.date ++
    [r.flags, r.unitSize, r.gap] ++ bothBytes 2 r.volume.toNat ++ [UInt8.ofNat r.identifier.length] ++ r.identifier ++
    r.padding ++ r.systemUse

end IsoRecord

/-! ## Names -/

/-- Characters in UCS-2, the high byte of each first. -/
def ucs2be (l : List Char) : List UInt8 := l.flatMap fun c => [UInt8.ofNat (c.toNat / 256), UInt8.ofNat c.toNat]

/-- An identifier of a Joliet volume: a name, and the version number of a file if it is recorded. -/
structure JolietName where
  chars : List Char
  version : Option (List Char)
  ne_nil : chars ≠ []
  plain : ∀ c ∈ chars ++ version.getD [], 0 < c.toNat ∧ c.toNat < 0x10000

/-- Its characters, with the version behind a semicolon. -/
def JolietName.recorded (n : JolietName) : List Char := n.chars ++ n.version.elim [] fun v => ';' :: v

/-- An entry of a system use area: one of Rock Ridge with a part of a name, or another one. -/
inductive SuspEntry
  | other (s t version : UInt8) (data : List UInt8)
  | nm (version flags : UInt8) (content : List UInt8)

namespace SuspEntry

/-- The bytes of an entry. -/
def encode : SuspEntry → List UInt8
  | other s t version data => [s, t, UInt8.ofNat (4 + data.length), version] ++ data
  | nm version flags content => [78, 77, UInt8.ofNat (5 + content.length), version, flags] ++ content

/-- The part of the name. -/
def part : SuspEntry → List UInt8
  | other .. => []
  | nm _ _ content => content

def isNm : SuspEntry → Bool
  | other .. => false
  | nm .. => true

/-- The name goes on in another entry. -/
def continues : SuspEntry → Bool
  | other .. => false
  | nm _ flags _ => flags &&& 1 != 0

/-- An entry is short enough; no other one has the signature of a name, or of the entry that stands in the record of the
root directory for itself only; and no name is that of the directory itself or of its parent. -/
def Valid : SuspEntry → Prop
  | other s t _ data => 4 + data.length < 256 ∧ (s, t) ≠ (78, 77) ∧ (s, t) ≠ (83, 80)
  | nm _ flags content => 5 + content.length < 256 ∧ flags &&& 6 = 0

end SuspEntry

/-- An identifier of another volume, with the entries of its system use area: a name, for a file the extension and the
version number if it is recorded, and the bytes behind the last entry. -/
structure PlainName where
  base : List UInt8
  ext : Option (List UInt8 × Option (List UInt8))
  entries : List SuspEntry
  rest : List UInt8
  ne_nil : base ++ ext.elim [] Prod.fst ≠ []
  plain : ∀ b ∈ base ++ ext.elim [] Prod.fst, 0x20 < b ∧ b ≠ 46 ∧ b ≠ 59
  valid : ∀ x ∈ entries, x.Valid
  rest_lt : rest.length < 4
  continued : ∀ x ∈ (entries.filter SuspEntry.isNm).dropLast, x.continues = true
  ended : ∀ x ∈ (entries.filter SuspEntry.isNm).getLast?, x.continues = false
  alternate_ne : entries.filter SuspEntry.isNm ≠ [] → entries.flatMap SuspEntry.part ≠ []
  alternate_plain : ∀ b ∈ entries.flatMap SuspEntry.part, b ≠ 0

namespace PlainName

variable (n : PlainName)

/-- The identifier. -/
def identifier : List UInt8 :=
  n.base ++ n.ext.elim [] fun x => 46 :: x.1 ++ x.2.elim [] fun v => 59 :: v

/-- The identifier without a version, and without the dot of an empty extension. -/
def shown : List UInt8 := n.base ++ n.ext.elim [] fun x => if x.1 = [] then [] else 46 :: x.1

/-- The system use area. -/
def systemUse : List UInt8 := n.entries.flatMap SuspEntry.encode ++ n.rest

/-- The name: that of Rock Ridge, if there is one. -/
def text : List UInt8 :=
  if n.entries.filter SuspEntry.isNm = [] then n.shown else n.entries.flatMap SuspEntry.part

end PlainName

/-- A name on a volume with Joliet names, or without: that of the directory itself or of its parent, with any system use
area, or that of a file or directory. -/
inductive IsoName : Bool → Type
  | dots {joliet : Bool} (parent : Bool) (systemUse : List UInt8) : IsoName joliet
  | joliet (n : JolietName) (systemUse : List UInt8) : IsoName true
  | plain (n : PlainName) : IsoName false

namespace IsoName

variable {joliet : Bool}

def identifier : {joliet : Bool} → IsoName joliet → List UInt8
  | _, dots parent _ => [if parent then 1 else 0]
  | _, .joliet n _ => ucs2be n.recorded
  | _, plain n => n.identifier

def systemUse : {joliet : Bool} → IsoName joliet → List UInt8
  | _, dots _ su => su
  | _, .joliet _ su => su
  | _, plain n => n.systemUse

/-- The name in UTF-8, or in the encoding of the volume. -/
def text : {joliet : Bool} → IsoName joliet → List UInt8
  | _, dots parent _ => if parent then ascii ".." else ascii "."
  | _, .joliet n _ => n.chars.flatMap String.utf8EncodeChar
  | _, plain n => n.text

/-- The name is recorded with a version that belongs to Joliet. -/
def HasJolietVersion : {joliet : Bool} → IsoName joliet → Prop
  | _, .joliet n _ => n.version ≠ none
  | _, _ => False

end IsoName

/-! ## Files and directories -/

/-- A file or directory: its name, and its sections, the last of which is marked as such and holds its system use
area. -/
structure IsoItem (joliet : Bool) where
  name : IsoName joliet
  first : List IsoSection
  last : IsoSection
  multi : ∀ s ∈ first, s.flags &&& 0x80 ≠ 0
  final : last.flags &&& 0x80 = 0
  last_systemUse : last.systemUse = name.systemUse
  length_le : ∀ s ∈ first ++ [last],
    33 + name.identifier.length + (33 + name.identifier.length) % 2 + s.systemUse.length ≤ 255

/-- What is to be listed of a file or directory: its name, its first block, its size, and whether it is a directory. -/
structure IsoListed where
  name : List UInt8
  extent : ℕ
  size : ℕ
  isDir : Bool
  deriving DecidableEq

namespace IsoItem

variable {joliet : Bool} (x : IsoItem joliet)

theorem identifier_ne : x.name.identifier ≠ [] := by
  cases x.name with
  | dots parent su => exact cons_ne_nil _ _
  | joliet n su =>
    obtain ⟨c, cs, hc⟩ := exists_cons_of_ne_nil n.ne_nil
    show ucs2be (n.chars ++ _) ≠ []
    rw [hc]
    exact cons_ne_nil _ _
  | plain n =>
    intro h
    obtain ⟨hbase, hrest⟩ := append_eq_nil_iff.mp h
    cases hext : n.ext with
    | none => exact n.ne_nil (by rw [hbase, hext]; rfl)
    | some e =>
      rw [hext] at hrest
      cases hrest

/-- The sections. -/
def sections : List IsoSection := x.first ++ [x.last]

/-- The records of the sections. -/
def records : List IsoRecord :=
  x.sections.attach.map fun s => ⟨s.1, x.name.identifier, x.identifier_ne, x.length_le s.1 s.2⟩

/-- What is to be listed. -/
def listed : IsoListed where
  name := x.name.text
  extent := (x.sections.head (by simp [sections])).extent.toNat
  size := (x.sections.map fun s => s.dataLength.toNat).sum
  isDir := x.last.flags &&& 2 != 0

end IsoItem

/-! ## Directories -/

/-- A directory: the records of its files and directories in a number of blocks. -/
structure IsoDirectory where
  joliet : Bool
  items : List (IsoItem joliet)
  blockSize : ℕ
  blocks : List (List IsoRecord)
  flatten_blocks : blocks.flatten = items.flatMap IsoItem.records
  blockSize_ge : 255 ≤ blockSize
  inBlock : ∀ b ∈ blocks, (b.map IsoRecord.length).sum ≤ blockSize
  fits : blocks.length * blockSize + blockSize + 255 < 2 ^ 32

namespace IsoDirectory

variable (d : IsoDirectory)

/-- A block: its records, and zeros behind them. -/
def blockBytes (b : List IsoRecord) : List UInt8 :=
  b.flatMap IsoRecord.encode ++ replicate (d.blockSize - (b.map IsoRecord.length).sum) 0

/-- The bytes of the directory. -/
def bytes : List UInt8 := d.blocks.flatMap d.blockBytes

end IsoDirectory

end RecoveryQt
