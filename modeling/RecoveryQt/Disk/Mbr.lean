import RecoveryQt.Disk.Chs
import RecoveryQt.Disk.Extended
import RecoveryQt.Disk.Gpt

/-!
# The partition table of a PC

* `DosEntry`, `partition2I386Entry`: an entry of the table, and that of a partition;
* `writeMbrI386`, `nextExtOffset`, `writeAllLogI386`, `writePartI386`: the code that writes a table;
* `readPartI386`: the code that reads it.
-/

namespace RecoveryQt

open List hiding Vector
open PartitionStruct

/-! ## Entries -/

/-- `struct partition_dos`, with all its fields. -/
structure DosEntry where
  bootInd : UInt8
  head : UInt8
  sector : UInt8
  cyl : UInt8
  sysInd : UInt8
  endHead : UInt8
  endSector : UInt8
  endCyl : UInt8
  start4 : UInt32
  size4 : UInt32
  deriving DecidableEq

/-- The entry as it is on the disk. -/
def DosEntry.bytes (p : DosEntry) : List UInt8 :=
  [p.bootInd, p.head, p.sector, p.cyl, p.sysInd, p.endHead, p.endSector, p.endCyl] ++ leBytes 4 p.start4.toNat ++
    leBytes 4 p.size4.toNat

/-- `TAB_PART`. -/
def tabPart : ℕ := 0x1BE

/-- `is_extended`, of the type of a partition. -/
def isExtendedType (partType : UInt32) : Bool := partType = 0x0F || partType = 0x05 || partType = 0x85

/-- A number of sectors, at most what an entry can hold. -/
def sectors32 (n : UInt64) : UInt32 := if n ≤ 0xFFFFFFFF then n.toUInt32 else 0xFFFFFFFF

/-- The head, the sector and the cylinder of an entry, where a cylinder behind 1023 is the last one. -/
def chsBytes (geom : ChsGeometry) (c : Chs) : UInt8 × UInt8 × UInt8 :=
  if c.cylinder > 1023 then
    (UInt8.ofNat (geom.headsPerCylinder - 1), UInt8.ofNat (geom.sectorsPerHead ||| ((1023 >>> 8) <<< 6)), UInt8.ofNat 1023)
  else (UInt8.ofNat c.head, UInt8.ofNat (c.sector ||| ((c.cylinder >>> 8) <<< 6)), UInt8.ofNat c.cylinder)

/-- `partition2_i386_entry`. -/
def partition2I386Entry (geom : ChsGeometry) (disk : Disk) (pos : UInt64) (partition : PartitionStruct) : DosEntry :=
  let start := chsBytes geom (offset2CHS geom disk.sectorSize partition.partOffset)
  let stop := chsBytes geom (offset2CHS geom disk.sectorSize
    (partition.partOffset + partition.partSize - disk.sectorSize64))
  { bootInd := if partition.status = .primBoot then 0x80 else 0
    sysInd := partition.partTypeI386.toUInt8
    start4 := sectors32 ((partition.partOffset - pos) / disk.sectorSize64)
    head := start.1
    sector := start.2.1
    cyl := start.2.2
    endHead := stop.1
    endSector := stop.2.1
    endCyl := stop.2.2
    size4 := sectors32 (partition.partSize / disk.sectorSize64) }

/-! ## The first sector -/

/-- `mbr_code_testdisk`, up to the disk signature. -/
def mbrCodeTestdisk : List UInt8 := [
  0xfc, 0x31, 0xc0, 0x8e, 0xd0, 0x31, 0xe4, 0x8e, 0xd8, 0x8e, 0xc0, 0xbe, 0x00, 0x7c, 0xbf, 0x00, 0x06, 0xb9, 0x00,
  0x01, 0xf3, 0xa5, 0xbe, 0xee, 0x07, 0xb0, 0x08, 0xea, 0x20, 0x06, 0x00, 0x00, 0x80, 0x3e, 0xb3, 0x07, 0xff, 0x75,
  0x04, 0x88, 0x16, 0xb3, 0x07, 0x80, 0x3c, 0x00, 0x74, 0x04, 0x08, 0x06, 0xaf, 0x07, 0x83, 0xee, 0x10, 0xd0, 0xe8,
  0x73, 0xf0, 0x90, 0x90, 0x90, 0x90, 0x90, 0x90, 0x90, 0x90, 0x90, 0x90, 0x90, 0x90, 0x90, 0x90, 0x90, 0x90, 0x90,
  0x90, 0x90, 0x90, 0x90, 0x90, 0x90, 0x90, 0x90, 0x90, 0x90, 0x90, 0x90, 0x90, 0x90, 0x90, 0x90, 0x90, 0x90, 0x90,
  0x90, 0x90, 0x90, 0x90, 0x90, 0x90, 0x90, 0x90, 0x90, 0x90, 0x90, 0x90, 0x90, 0x90, 0x90, 0x90, 0x90, 0x90, 0x90,
  0x90, 0x90, 0x90, 0x90, 0x90, 0x90, 0x90, 0x90, 0x90, 0x90, 0x90, 0x90, 0xbe, 0xbe, 0x07, 0xb0, 0x00, 0xb9, 0x04,
  0x00, 0x80, 0x3c, 0x00, 0x75, 0x6e, 0xfe, 0xc0, 0x83, 0xc6, 0x10, 0xe2, 0xf4, 0x31, 0xdb, 0xb4, 0x0e, 0xbe, 0x9d,
  0x07, 0x8a, 0x0e, 0xaf, 0x07, 0xac, 0xd0, 0xe9, 0x73, 0x02, 0xcd, 0x10, 0x08, 0xc9, 0x75, 0xf5, 0xb0, 0x3a, 0xcd,
  0x10, 0x31, 0xc0, 0xcd, 0x16, 0x3c, 0x00, 0x74, 0xf8, 0xbe, 0x8b, 0x07, 0xb9, 0x02, 0x00, 0xe8, 0xba, 0x00, 0x3c,
  0x0d, 0x74, 0xb4, 0x3c, 0x61, 0x72, 0x06, 0x3c, 0x7a, 0x77, 0x02, 0x2c, 0x20, 0x88, 0xc3, 0xbe, 0x9d, 0x07, 0x8a,
  0x0e, 0xaf, 0x07, 0xac, 0xd0, 0xe9, 0x73, 0x04, 0x38, 0xc3, 0x74, 0x06, 0x08, 0xc9, 0x75, 0xf3, 0xeb, 0xaf, 0xb8,
  0x0d, 0x0e, 0x31, 0xdb, 0xcd, 0x10, 0x8d, 0x84, 0x62, 0x00, 0x3c, 0x07, 0x75, 0x07, 0xb0, 0x1f, 0xa2, 0xaf, 0x07,
  0xeb, 0x99, 0x31, 0xd2, 0xb9, 0x01, 0x00, 0x3c, 0x04, 0x74, 0x11, 0x73, 0xf3, 0x30, 0xe4, 0xb1, 0x04, 0xd2, 0xe0,
  0xbe, 0xbe, 0x07, 0x01, 0xc6, 0x8a, 0x16, 0xb3, 0x07, 0xbf, 0x05, 0x00, 0x56, 0xf6, 0xc2, 0x80, 0x74, 0x31, 0xb4,
  0x41, 0xbb, 0xaa, 0x55, 0x52, 0xcd, 0x13, 0x5a, 0x5e, 0x56, 0x72, 0x1e, 0x81, 0xfb, 0x55, 0xaa, 0x75, 0x18, 0xf6,
  0xc1, 0x01, 0x74, 0x13, 0x8b, 0x44, 0x08, 0x8b, 0x5c, 0x0a, 0xbe, 0x8d, 0x07, 0x89, 0x44, 0x08, 0x89, 0x5c, 0x0a,
  0xb4, 0x42, 0xeb, 0x0c, 0x8a, 0x74, 0x01, 0x8b, 0x4c, 0x02, 0xb8, 0x01, 0x02, 0xbb, 0x00, 0x7c, 0x50, 0xc6, 0x06,
  0x8f, 0x07, 0x01, 0xcd, 0x13, 0x58, 0x5e, 0x73, 0x05, 0x4f, 0x75, 0xb4, 0xeb, 0x93, 0x81, 0x3e, 0xfe, 0x7d, 0x55,
  0xaa, 0x75, 0xf6, 0xea, 0x00, 0x7c, 0x00, 0x00, 0xbe, 0x83, 0x07, 0xb9, 0x0a, 0x00, 0x50, 0xb4, 0x0e, 0x31, 0xdb,
  0xac, 0xcd, 0x10, 0xe2, 0xfb, 0x58, 0xc3, 0x54, 0x65, 0x73, 0x74, 0x44, 0x69, 0x73, 0x6b, 0x0d, 0x0a, 0x10, 0x00,
  0x01, 0x00, 0x00, 0x7c, 0x00, 0x00, 0x00, 0x00, 0x00, 0x00, 0x00, 0x00, 0x00, 0x00, 0x31, 0x32, 0x33, 0x34, 0x46,
  0x00, 0x00, 0x41, 0x4e, 0x44, 0x54, 0x6d, 0x62, 0x72, 0x00, 0x02, 0x02, 0x02, 0x1f, 0xc7, 0x00, 0x00, 0x80, 0x00,
  0x00, 0x00, 0x00]

/-- `write_MBR_code_i386_aux`. -/
def writeMbrCodeI386Aux (buffer : ℕ → UInt8) : ℕ → UInt8 := overwrite [0x55, 0xAA] 0x1FE (overwrite mbrCodeTestdisk 0 buffer)

/-- The mark at the end of a sector. -/
def hasMark (buffer : ℕ → UInt8) : Bool := buffer 0x1FE = 0x55 && buffer 0x1FF = 0xAA

/-- The Mac signature is removed. -/
def removeMac (buffer : ℕ → UInt8) : ℕ → UInt8 :=
  if buffer 0 = 0x45 ∧ buffer 1 = 0x52 then Function.update buffer 0 0 else buffer

/-- The Sun signature is removed. -/
def removeSun (buffer : ℕ → UInt8) : ℕ → UInt8 :=
  if buffer 0x1FC = 0xDA ∧ buffer 0x1FD = 0xBE then Function.update buffer 0x1FC 0 else buffer

/-- `*pt_offset(buffer, i) = p`. -/
def putDosEntry (i : ℕ) (p : DosEntry) (buffer : ℕ → UInt8) : ℕ → UInt8 := overwrite p.bytes (tabPart + 16 * i) buffer

/-- A partition of the list is put in the table, if it is not a logical one. -/
def putPrimary (geom : ChsGeometry) (disk : Disk) (buffer : ℕ → UInt8) (p : PartitionStruct) : ℕ → UInt8 :=
  if p.status = .prim ∨ p.status = .primBoot ∨ p.status = .ext then
    if 1 ≤ p.order ∧ p.order ≤ 4 then putDosEntry (p.order.toNat - 1) (partition2I386Entry geom disk 0 p) buffer else buffer
  else buffer

/-- A buffer with the first bytes of another one, and the mark. -/
def keepCode (org : ℕ → UInt8) : ℕ → UInt8 :=
  overwrite [0x55, 0xAA] 0x1FE (overwrite (slice org 0 tabPart) 0 fun _ => 0)

/-- The first sector, as `write_mbr_i386` writes it. -/
def mbrSector (geom : ChsGeometry) (disk : Disk) (list : List PartitionStruct) : List UInt8 :=
  let org := (disk.pread 512 0).getD fun _ => 0
  let buffer := if hasMark org then keepCode org else writeMbrCodeI386Aux fun _ => 0
  slice (list.foldl (putPrimary geom disk) (removeSun (removeMac buffer))) 0 512

/-- `disk_car->pwrite`, and whether it fails: a write that fails leaves the disk as it was. -/
def Disk.tryWrite (refuses : ℕ → ℕ → Bool) (bytes : List UInt8) (offset : UInt64) (disk : Disk) : ℕ × Disk :=
  match disk.writeBytes refuses bytes offset with
  | none => (1, disk)
  | some written => (0, written)

/-- `write_mbr_i386`, with `ro` not set. -/
def writeMbrI386 (refuses : ℕ → ℕ → Bool) (geom : ChsGeometry) (disk : Disk) (list : List PartitionStruct) : ℕ × Disk :=
  if disk.sectorSize < 512 then (0, disk) else disk.tryWrite refuses (mbrSector geom disk list) 0

/-! ## The extended partition -/

/-- The place in front of the first sector of a head: `nextext_start.head--`, with the borrow. -/
def Chs.previousHead (geom : ChsGeometry) (c : Chs) : Chs :=
  if c.head > 0 then { c with head := c.head - 1 }
  else { c with head := geom.headsPerCylinder - 1, cylinder := (c.cylinder + (2 ^ 64 - 1)) % 2 ^ 64 }

/-- `bloc_nextext->part_offset`: where the record of the logical partition `next` goes, behind the one of `element`. -/
def nextExtOffset (geom : ChsGeometry) (disk : Disk) (element next : PartitionStruct) : UInt64 :=
  let nearest := offset2CHS geom disk.sectorSize (next.partOffset - disk.sectorSize64)
  let front := if nearest.sector ≠ geom.sectorsPerHead then nearest.previousHead geom else nearest
  let last := element.partOffset + element.partSize - 1
  if CHS2offset geom disk.sectorSize { front with sector := 1 } ≤ last then
    if CHS2offset geom disk.sectorSize { nearest with sector := 1 } ≤ last then CHS2offset geom disk.sectorSize nearest
    else CHS2offset geom disk.sectorSize { nearest with sector := 1 }
  else CHS2offset geom disk.sectorSize { front with sector := 1 }

/-- `bloc_nextext`. -/
def blocNextext (geom : ChsGeometry) (disk : Disk) (element next : PartitionStruct) : PartitionStruct :=
  let offset := nextExtOffset geom disk element next
  { partitionNew with
    partTypeI386 := 0x05
    partOffset := offset
    partSize := next.partOffset + next.partSize - offset }

/-- The record of `element`, with its entry and that of the partition `next` behind it. -/
def logBuffer (geom : ChsGeometry) (disk : Disk) (mainExt pos : UInt64) (element : PartitionStruct)
    (next : Option PartitionStruct) (buffer : ℕ → UInt8) : ℕ → UInt8 :=
  let buffer := putDosEntry 0 (partition2I386Entry geom disk pos element) buffer
  next.elim buffer fun next =>
    putDosEntry 1 (partition2I386Entry geom disk mainExt (blocNextext geom disk element next)) buffer

/-- The sector at `pos` without its entries, but with the mark. -/
def emptyRecord (disk : Disk) (pos : UInt64) : ℕ → UInt8 := keepCode ((disk.pread 512 pos.toNat).getD fun _ => 0)

/-- The loop of `write_all_log_i386` over the partitions behind the extended one, with `current_pos` and `res`. -/
def writeLogLoop (refuses : ℕ → ℕ → Bool) (geom : ChsGeometry) (mainExt : UInt64) :
    UInt64 → List PartitionStruct → Disk → ℕ × Disk
  | _, [], disk => (0, disk)
  | pos, element :: rest, disk =>
    if element.status = .log then
      let next := rest.head?.filter fun next => next.status = .log
      let written := disk.tryWrite refuses (slice (logBuffer geom disk mainExt pos element next (emptyRecord disk pos)) 0 512) pos
      let others := writeLogLoop refuses geom mainExt (next.elim pos (nextExtOffset geom disk element)) rest written.2
      (max written.1 others.1, others.2)
    else (0, disk)

/-- `pos_ext`: the last extended partition of the list, and what is behind it. -/
def posExt : List PartitionStruct → Option (PartitionStruct × List PartitionStruct)
  | [] => none
  | element :: rest =>
    (posExt rest).or (if element.status = .ext ∧ isExtendedType element.partTypeI386 then some (element, rest) else none)

/-- `write_all_log_i386`, with `ro` not set. -/
def writeAllLogI386 (refuses : ℕ → ℕ → Bool) (geom : ChsGeometry) (disk : Disk) (list : List PartitionStruct) : ℕ × Disk :=
  match posExt list with
  | none => (0, disk)
  | some (ext, rest) =>
    if (rest.head?.filter fun next => next.status = .log) = none then
      disk.tryWrite refuses (slice (emptyRecord disk ext.partOffset) 0 512) ext.partOffset
    else writeLogLoop refuses geom ext.partOffset ext.partOffset rest disk

/-- `write_part_i386`. -/
def writePartI386 (refuses : ℕ → ℕ → Bool) (geom : ChsGeometry) (disk : Disk) (list : List PartitionStruct) : ℕ × Disk :=
  let mbr := writeMbrI386 refuses geom disk list
  let log := writeAllLogI386 refuses geom mbr.2 list
  (mbr.1 + log.1, log.2)

/-! ## Reading -/

section Read

/- `check_part_i386` on the disk. -/
variable (check : PartitionStruct → PartitionStruct) (disk : Disk)

/-- The status of an entry of the first sector. -/
def primStatus (buffer : ℕ → UInt8) (i : ℕ) : StatusType :=
  if isExtended (ptOffset buffer i).sysInd then .ext
  else if buffer (tabPart + 16 * i) ≠ 0 then .primBoot else .prim

/-- One entry of the first sector. -/
def takePrimary (buffer : ℕ → UInt8) (list : List PartitionStruct) (i : ℕ) : List PartitionStruct :=
  let p := ptOffset buffer i
  if p.sysInd = 0 then list
  else (insertNewPartition false (i386Entry2partition check disk 0 p (primStatus buffer i) (UInt32.ofNat (i + 1))) list).1

/-- `read_part_i386`, with at most `fuel` records. -/
def readPartI386 (fuel : ℕ) : Option (List PartitionStruct) :=
  match disk.pread disk.sectorSize 0 with
  | none => some []
  | some buffer =>
    if hasMark buffer then getExtDataI386 check disk fuel ((range 4).foldl (takePrimary check disk buffer) []) else some []

end Read

end RecoveryQt
