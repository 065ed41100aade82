import RecoveryQt.Crc
import RecoveryQt.Disk.PartitionList
import RecoveryQt.Lib.Blocks
import RecoveryQt.Lib.Codec
import RecoveryQt.Restore.Model

/-!
# GUID partition tables

The file system checks, the protective MBR, new GUIDs and the writes that fail are parameters.

* `gptCrc`: the checksum;
* `gptSysTypes`: the types that are known;
* `GptHdr`, `GptEnt`: a header and an entry, `bytes` and `ofBytes`;
* `gptHeader`, `gptTable`, `readPartGptAux`, `readPartGpt`: reading;
* `findGptEntry`, `partitionGenerateGptEntry`, `gptEntries`, `gptPrimary`, `gptAlternate`, `writePartGpt`: writing.
-/

namespace RecoveryQt

open List hiding Vector

/-! ## Checksums -/

/-- `get_crc32(buf, len, 0xFFFFFFFF) ^ 0xFFFFFFFF`. -/
def gptCrc (buf : List UInt8) : UInt32 := getCrc32 buf 0xFFFFFFFF ^^^ 0xFFFFFFFF

/-! ## Headers and entries -/

/-- The bytes of a buffer at an offset. -/
def vectorAt (n : ℕ) (buffer : List UInt8) (offset : ℕ) : Vector UInt8 n :=
  Vector.ofFn fun i => buffer.getD (offset + i) 0

/-- The fields of an `efi_guid_t`. -/
def EfiGuid.ofFields (timeLow : UInt32) (timeMid timeHiAndVersion : UInt16) (clockSeqHiAndReserved clockSeqLow : UInt8)
    (node : Vector UInt8 6) : EfiGuid :=
  vectorAt 16 (leBytes 4 timeLow.toNat ++ leBytes 2 timeMid.toNat ++ leBytes 2 timeHiAndVersion.toNat ++
    clockSeqHiAndReserved :: clockSeqLow :: node.toList) 0

/-- `gpt_sys_types`, up to `GPT_ENT_TYPE_UNUSED`. -/
def gptSysTypes : List EfiGuid := [
  .ofFields 0xc12a7328 0xf81f 0x11d2 0xba 0x4b #v[0x00, 0xa0, 0xc9, 0x3e, 0xc9, 0x3b],
  .ofFields 0xbc13c2ff 0x59e6 0x4262 0xa3 0x52 #v[0xb2, 0x75, 0xfd, 0x6f, 0x71, 0x72],
  .ofFields 0x024dee41 0x33e7 0x11d3 0x9d 0x69 #v[0x00, 0x08, 0xc7, 0x81, 0xf3, 0x9f],
  .ofFields 0x516e7cb4 0x6ecf 0x11d6 0x8f 0xf8 #v[0x00, 0x02, 0x2d, 0x09, 0x71, 0x2b],
  .ofFields 0x516e7cb5 0x6ecf 0x11d6 0x8f 0xf8 #v[0x00, 0x02, 0x2d, 0x09, 0x71, 0x2b],
  .ofFields 0x516e7cb6 0x6ecf 0x11d6 0x8f 0xf8 #v[0x00, 0x02, 0x2d, 0x09, 0x71, 0x2b],
  .ofFields 0x516e7cb8 0x6ecf 0x11d6 0x8f 0xf8 #v[0x00, 0x02, 0x2d, 0x09, 0x71, 0x2b],
  .ofFields 0x0516e7cb 0x6ecf 0x11d6 0x8f 0xf8 #v[0x00, 0x02, 0x2d, 0x09, 0x71, 0x2b],
  .ofFields 0xe3c9e316 0x0b5c 0x4db8 0x81 0x7d #v[0xf9, 0x2d, 0xf0, 0x02, 0x15, 0xae],
  .ofFields 0xebd0a0a2 0xb9e5 0x4433 0x87 0xc0 #v[0x68, 0xb6, 0xb7, 0x26, 0x99, 0xc7],
  .ofFields 0x5808c8aa 0x7e8f 0x42e0 0x85 0xd2 #v[0xe1, 0xe9, 0x04, 0x34, 0xcf, 0xb3],
  .ofFields 0xaf9b60a0 0x1431 0x4f62 0xbc 0x68 #v[0x33, 0x11, 0x71, 0x4a, 0x69, 0xad],
  .ofFields 0xde94bba4 0x06d1 0x4d40 0xa1 0x6a #v[0xbf, 0xd5, 0x01, 0x79, 0xd6, 0xac],
  .ofFields 0xe75caf8f 0xf680 0x4cee 0xaf 0xa3 #v[0xb0, 0x01, 0xe5, 0x6e, 0xfc, 0x2d],
  .ofFields 0xa19d880f 0x05fc 0x4d3b 0xa0 0x06 #v[0x74, 0x3f, 0x0f, 0x84, 0x91, 0x1e],
  .ofFields 0x0657fd6d 0xa4ab 0x43c4 0x84 0xe5 #v[0x09, 0x33, 0xc8, 0x4b, 0x4f, 0x4f],
  .ofFields 0xe6d6d379 0xf507 0x44c2 0xa2 0x3c #v[0x23, 0x8f, 0x2a, 0x3d, 0xf9, 0x28],
  .ofFields 0x8da63339 0x0007 0x60c0 0xc4 0x36 #v[0x08, 0x3a, 0xc8, 0x23, 0x09, 0x08],
  .ofFields 0x933ac7e1 0x2eb4 0x4f13 0xb8 0x44 #v[0x0e, 0x14, 0xe2, 0xae, 0xf9, 0x15],
  .ofFields 0x3b8f8425 0x20e0 0x4f3b 0x90 0x7f #v[0x1a, 0x25, 0xa7, 0x6f, 0x98, 0xe8],
  .ofFields 0x0fc63daf 0x8483 0x4772 0x8e 0x79 #v[0x3d, 0x69, 0xd8, 0x47, 0x7d, 0xe4],
  .ofFields 0x75894c1e 0x3aeb 0x11d3 0xb7 0xc1 #v[0x7b, 0x03, 0xa0, 0x00, 0x00, 0x00],
  .ofFields 0xe2a1e728 0x32e3 0x11d6 0xa6 0x82 #v[0x7b, 0x03, 0xa0, 0x00, 0x00, 0x00],
  .ofFields 0x7c3457ef 0x0000 0x11aa 0xaa 0x11 #v[0x00, 0x30, 0x65, 0x43, 0xec, 0xac],
  .ofFields 0x48465300 0x0000 0x11aa 0xaa 0x11 #v[0x00, 0x30, 0x65, 0x43, 0xec, 0xac],
  .ofFields 0x55465300 0x0000 0x11aa 0xaa 0x11 #v[0x00, 0x30, 0x65, 0x43, 0xec, 0xac],
  .ofFields 0x52414944 0x0000 0x11aa 0xaa 0x11 #v[0x00, 0x30, 0x65, 0x43, 0xec, 0xac],
  .ofFields 0x52414944 0x5f4f 0x11aa 0xaa 0x11 #v[0x00, 0x30, 0x65, 0x43, 0xec, 0xac],
  .ofFields 0x426f6f74 0x0000 0x11aa 0xaa 0x11 #v[0x00, 0x30, 0x65, 0x43, 0xec, 0xac],
  .ofFields 0x4c616265 0x6c00 0x11aa 0xaa 0x11 #v[0x00, 0x30, 0x65, 0x43, 0xec, 0xac],
  .ofFields 0x5265636f 0x7665 0x11aa 0xaa 0x11 #v[0x00, 0x30, 0x65, 0x43, 0xec, 0xac],
  .ofFields 0x53746f72 0x6167 0x11aa 0xaa 0x11 #v[0x00, 0x30, 0x65, 0x43, 0xec, 0xac],
  .ofFields 0x6a82cb45 0x1dd2 0x11b2 0x99 0xa6 #v[0x08, 0x00, 0x20, 0x73, 0x66, 0x31],
  .ofFields 0x6a85cf4d 0x1dd2 0x11b2 0x99 0xa6 #v[0x08, 0x00, 0x20, 0x73, 0x66, 0x31],
  .ofFields 0x6a87c46f 0x1dd2 0x11b2 0x99 0xa6 #v[0x08, 0x00, 0x20, 0x73, 0x66, 0x31],
  .ofFields 0x6a8b642b 0x1dd2 0x11b2 0x99 0xa6 #v[0x08, 0x00, 0x20, 0x73, 0x66, 0x31],
  .ofFields 0x6a898cc3 0x1dd2 0x11b2 0x99 0xa6 #v[0x08, 0x00, 0x20, 0x73, 0x66, 0x31],
  .ofFields 0x6a8ef2e9 0x1dd2 0x11b2 0x99 0xa6 #v[0x08, 0x00, 0x20, 0x73, 0x66, 0x31],
  .ofFields 0x6a90ba39 0x1dd2 0x11b2 0x96 0xa6 #v[0x08, 0x00, 0x20, 0x73, 0x66, 0x31],
  .ofFields 0x6a9283a5 0x1dd2 0x11b2 0x96 0xa6 #v[0x08, 0x00, 0x20, 0x73, 0x66, 0x31],
  .ofFields 0x6a945a3b 0x1dd2 0x11b2 0x96 0xa6 #v[0x08, 0x00, 0x20, 0x73, 0x66, 0x31],
  .ofFields 0x6a9630d1 0x1dd2 0x11b2 0x96 0xa6 #v[0x08, 0x00, 0x20, 0x73, 0x66, 0x31],
  .ofFields 0x6a980767 0x1dd2 0x11b2 0x96 0xa6 #v[0x08, 0x00, 0x20, 0x73, 0x66, 0x31],
  .ofFields 0x6a96237f 0x1dd2 0x11b2 0x96 0xa6 #v[0x08, 0x00, 0x20, 0x73, 0x66, 0x31],
  .ofFields 0x6a8d2ac7 0x1dd2 0x11b2 0x96 0xa6 #v[0x08, 0x00, 0x20, 0x73, 0x66, 0x31],
  .ofFields 0x42465331 0x3ba3 0x10f1 0x80 0x2a #v[0x48, 0x61, 0x69, 0x6b, 0x75, 0x21]]

/-- `GPT_HDR_SIG`. -/
def gptHdrSig : Vector UInt8 8 := #v[0x45, 0x46, 0x49, 0x20, 0x50, 0x41, 0x52, 0x54]

/-- `struct gpt_hdr`, without the padding. -/
structure GptHdr where
  hdrSig : Vector UInt8 8
  hdrRevision : UInt32
  hdrSize : UInt32
  hdrCrcSelf : UInt32
  reserved : UInt32
  hdrLbaSelf : UInt64
  hdrLbaAlt : UInt64
  hdrLbaStart : UInt64
  hdrLbaEnd : UInt64
  hdrGuid : EfiGuid
  hdrLbaTable : UInt64
  hdrEntries : UInt32
  hdrEntsz : UInt32
  hdrCrcTable : UInt32
  deriving DecidableEq

/-- The 92 bytes of a header. -/
def GptHdr.bytes (h : GptHdr) : List UInt8 :=
  h.hdrSig.toList ++ (leBytes 4 h.hdrRevision.toNat ++ (leBytes 4 h.hdrSize.toNat ++ (leBytes 4 h.hdrCrcSelf.toNat ++
    (leBytes 4 h.reserved.toNat ++ (leBytes 8 h.hdrLbaSelf.toNat ++ (leBytes 8 h.hdrLbaAlt.toNat ++
    (leBytes 8 h.hdrLbaStart.toNat ++ (leBytes 8 h.hdrLbaEnd.toNat ++ (h.hdrGuid.toList ++
    (leBytes 8 h.hdrLbaTable.toNat ++ (leBytes 4 h.hdrEntries.toNat ++ (leBytes 4 h.hdrEntsz.toNat ++
    leBytes 4 h.hdrCrcTable.toNat))))))))))))

/-- The header at the start of a buffer. -/
def GptHdr.ofBytes (buffer : List UInt8) : GptHdr where
  hdrSig := vectorAt 8 buffer 0x00
  hdrRevision := UInt32.ofNat (numAt buffer 0x08 4)
  hdrSize := UInt32.ofNat (numAt buffer 0x0c 4)
  hdrCrcSelf := UInt32.ofNat (numAt buffer 0x10 4)
  reserved := UInt32.ofNat (numAt buffer 0x14 4)
  hdrLbaSelf := UInt64.ofNat (numAt buffer 0x18 8)
  hdrLbaAlt := UInt64.ofNat (numAt buffer 0x20 8)
  hdrLbaStart := UInt64.ofNat (numAt buffer 0x28 8)
  hdrLbaEnd := UInt64.ofNat (numAt buffer 0x30 8)
  hdrGuid := vectorAt 16 buffer 0x38
  hdrLbaTable := UInt64.ofNat (numAt buffer 0x48 8)
  hdrEntries := UInt32.ofNat (numAt buffer 0x50 4)
  hdrEntsz := UInt32.ofNat (numAt buffer 0x54 4)
  hdrCrcTable := UInt32.ofNat (numAt buffer 0x58 4)

/-- `struct gpt_ent`, with `ent_name` as its units. -/
structure GptEnt where
  entType : EfiGuid
  entUuid : EfiGuid
  entLbaStart : UInt64
  entLbaEnd : UInt64
  entAttr : UInt64
  entName : Vector UInt16 36
  deriving DecidableEq

/-- An entry as `MALLOC` leaves it. -/
def GptEnt.zero : GptEnt := ⟨EfiGuid.unused, EfiGuid.unused, 0, 0, 0, Vector.replicate 36 0⟩

/-- The 128 bytes of an entry. -/
def GptEnt.bytes (e : GptEnt) : List UInt8 :=
  e.entType.toList ++ (e.entUuid.toList ++ (leBytes 8 e.entLbaStart.toNat ++ (leBytes 8 e.entLbaEnd.toNat ++
    (leBytes 8 e.entAttr.toNat ++ e.entName.toList.flatMap fun c => leBytes 2 c.toNat))))

/-- The entry at the start of a buffer. -/
def GptEnt.ofBytes (buffer : List UInt8) : GptEnt where
  entType := vectorAt 16 buffer 0
  entUuid := vectorAt 16 buffer 16
  entLbaStart := UInt64.ofNat (numAt buffer 32 8)
  entLbaEnd := UInt64.ofNat (numAt buffer 40 8)
  entAttr := UInt64.ofNat (numAt buffer 48 8)
  entName := Vector.ofFn fun i => UInt16.ofNat (numAt buffer (56 + i * 2) 2)

/-- Entries of `entsz` bytes in a row. -/
def gptEntsOfBytes (entries entsz : ℕ) (table : List UInt8) : List GptEnt :=
  (range entries).map fun i => GptEnt.ofBytes (table.drop (i * entsz))

/-- `UCSle2str`, into a buffer of zeros. -/
def UCSle2str (units : List UInt16) : List UInt8 :=
  (units.takeWhile (· ≠ 0)).map fun c => if c &&& 0xFF00 ≠ 0 then 0x3F else c.toUInt8

/-- `str2UCSle`: what is behind the zero stays. A `char` has a sign. -/
def str2UCSle (units : Vector UInt16 36) (text : List UInt8) : Vector UInt16 36 :=
  Vector.ofFn fun i =>
    match (cString text)[i.val]? with
    | some c => c.toInt8.toInt16.toUInt16
    | none => if i.val = (cString text).length then 0 else units[i]

/-- `sector_size` as an operand of 64 bits. -/
def Disk.sectorSize64 (disk : Disk) : UInt64 := UInt64.ofNat disk.sectorSize

/-! ## Reading -/

/-- The buffer of a header with a `hdr_crc_self` of zero. -/
def clearCrcSelf (buffer : List UInt8) : List UInt8 := buffer.take 0x10 ++ (leBytes 4 0 ++ buffer.drop 0x14)

/-- The checks of a header, in front of the table. -/
def gptHeaderOk (disk : Disk) (hdrLba : UInt64) (buffer : List UInt8) (gpt : GptHdr) : Bool :=
  gpt.hdrSig = gptHdrSig &&
    (92 ≤ gpt.hdrSize.toNat && gpt.hdrSize.toNat ≤ disk.sectorSize) &&
    gptCrc ((clearCrcSelf buffer).take gpt.hdrSize.toNat) = gpt.hdrCrcSelf &&
    gpt.hdrLbaSelf = hdrLba &&
    gpt.hdrLbaStart < gpt.hdrLbaEnd &&
    (gpt.hdrEntries ≠ 0 && gpt.hdrEntries ≤ 4096) &&
    (gpt.hdrEntsz % 8 = 0 && 128 ≤ gpt.hdrEntsz && gpt.hdrEntsz ≤ 4096) &&
    16384 ≤ gpt.hdrEntries * gpt.hdrEntsz &&
    !(hdrLba = 1 && (gpt.hdrLbaTable * disk.sectorSize64 ≤ gpt.hdrLbaSelf + gpt.hdrSize.toUInt64 - 1 ||
      gpt.hdrLbaStart * disk.sectorSize64 ≤ gpt.hdrLbaTable * disk.sectorSize64))

/-- The header that is accepted at a sector. -/
def gptHeader (disk : Disk) (hdrLba : UInt64) : Option GptHdr :=
  (disk.readBytes disk.sectorSize (hdrLba * disk.sectorSize64)).bind fun buffer =>
    if gptHeaderOk disk hdrLba buffer (GptHdr.ofBytes buffer) then some (GptHdr.ofBytes buffer) else none

/-- The entries of a header, when they can be read and have its checksum. -/
def gptTable (disk : Disk) (gpt : GptHdr) : Option (List GptEnt) :=
  (disk.readBytes (gpt.hdrEntries * gpt.hdrEntsz).toNat (gpt.hdrLbaTable * disk.sectorSize64)).bind fun table =>
    if gptCrc table = gpt.hdrCrcTable then
      some (gptEntsOfBytes gpt.hdrEntries.toNat gpt.hdrEntsz.toNat table)
    else none

/-- The entries that are no partition are skipped. -/
def GptEnt.isPartition (e : GptEnt) : Bool := e.entType ≠ EfiGuid.unused && e.entLbaStart < e.entLbaEnd

section Read

/- `check_part_gpt`. -/
variable (check : Disk → PartitionStruct → PartitionStruct)

/-- The partition of the entry with the index `i`. -/
def GptEnt.newPartition (disk : Disk) (e : GptEnt) (i : ℕ) : PartitionStruct :=
  check disk { partitionNew with
    order := UInt32.ofNat (i + 1)
    partUuid := e.entUuid
    partTypeGpt := e.entType
    partOffset := e.entLbaStart * disk.sectorSize64
    partSize := (e.entLbaEnd - e.entLbaStart + 1) * disk.sectorSize64
    status := .prim
    partname := UCSle2str e.entName.toList }

/-- The loop over the entries. -/
def gptPartitions (disk : Disk) (entries : List GptEnt) : List PartitionStruct :=
  (entries.zipIdx.filter fun e => e.1.isPartition).foldl (fun list e =>
    (PartitionStruct.insertNewPartition false (e.1.newPartition check disk e.2) list).1) []

/-- `read_part_gpt_aux`. -/
def readPartGptAux (disk : Disk) (hdrLba : UInt64) : List PartitionStruct :=
  match gptHeader disk hdrLba with
  | none => []
  | some gpt =>
    match gptTable disk gpt with
    | none => []
    | some entries => gptPartitions check disk entries

/-- `(disk_size - 1) / sector_size`. -/
def Disk.lastLba (disk : Disk) : UInt64 := (UInt64.ofNat disk.diskSize - 1) / disk.sectorSize64

/-- `read_part_gpt`. -/
def readPartGpt (disk : Disk) : List PartitionStruct :=
  match readPartGptAux check disk 1 with
  | [] => readPartGptAux check disk disk.lastLba
  | list => list

end Read

/-! ## Writing -/

/-- What the writer depends on: the writes that fail, by their count and offset, the GUIDs that are generated, and
the first 512 bytes as `write_part_i386` leaves them. -/
structure GptHost where
  refuses : ℕ → ℕ → Bool
  uuids : ℕ → EfiGuid
  mbr : Disk → List PartitionStruct → Vector UInt8 512

/-- `disk->pwrite`: the disk afterwards, or `none` when the result is not the count asked for. -/
def Disk.writeBytes (refuses : ℕ → ℕ → Bool) (bytes : List UInt8) (offset : UInt64) (disk : Disk) : Option Disk :=
  if refuses bytes.length offset.toNat then none
  else some { disk with content := overwrite bytes offset.toNat disk.content }

/-- `find_gpt_entry`: the entry. -/
def findGptEntry (lbaStart : UInt64) (entriesOrg : List GptEnt) : Option GptEnt :=
  match entriesOrg.findIdx? fun e => e.entLbaStart = lbaStart && e.entUuid ≠ EfiGuid.unused with
  | none => none
  | some i => entriesOrg[i]?.filter fun e => (entriesOrg.take i).all fun f => f.entUuid ≠ e.entUuid

/-- `partition_generate_gpt_entry`, over the entry that was there, with the GUID `uuid` if one is generated. -/
def partitionGenerateGptEntry (disk : Disk) (entriesOrg : List GptEnt) (uuid : EfiGuid) (partition : PartitionStruct)
    (entry : GptEnt) : GptEnt where
  entType := partition.partTypeGpt
  entLbaStart := partition.partOffset / disk.sectorSize64
  entLbaEnd := (partition.partOffset + partition.partSize - 1) / disk.sectorSize64
  entName := str2UCSle entry.entName partition.partname
  entUuid :=
    match findGptEntry (partition.partOffset / disk.sectorSize64) entriesOrg with
    | some org => org.entUuid
    | none => if partition.partUuid ≠ EfiGuid.unused then partition.partUuid else uuid
  entAttr := 0

/-- `gpt_entries_org`. -/
def gptEntriesOrg (disk : Disk) : List GptEnt :=
  match disk.readBytes 16384 (2 * UInt32.ofNat disk.sectorSize).toUInt64 with
  | none => replicate 128 GptEnt.zero
  | some table => gptEntsOfBytes 128 128 table

/-- A partition is put at its order. It has the number `p.2` among the partitions. -/
def fillEntry (uuids : ℕ → EfiGuid) (disk : Disk) (entries : List GptEnt) (p : PartitionStruct × ℕ) : List GptEnt :=
  if 0 < p.1.order && p.1.order ≤ 128 then
    entries.modify (p.1.order.toNat - 1) (partitionGenerateGptEntry disk (gptEntriesOrg disk) (uuids p.2) p.1)
  else entries

/-- `gpt_entries`. -/
def gptEntries (uuids : ℕ → EfiGuid) (disk : Disk) (list : List PartitionStruct) : List GptEnt :=
  (list.zipIdx 1).foldl (fillEntry uuids disk) (replicate 128 GptEnt.zero)

/-- The bytes of the entries. -/
def gptEntryBytes (entries : List GptEnt) : List UInt8 := entries.flatMap GptEnt.bytes

/-- A header with its checksum. -/
def GptHdr.sealed (h : GptHdr) : GptHdr := { h with hdrCrcSelf := gptCrc { h with hdrCrcSelf := 0 }.bytes }

/-- A header in a sector. -/
def GptHdr.sector (h : GptHdr) (sectorSize : ℕ) : List UInt8 := (h.bytes ++ replicate sectorSize 0).take sectorSize

/-- `(disk_size - 1 - gpt_entries_size) / sector_size`. -/
def Disk.altTableLba (disk : Disk) : UInt64 := (UInt64.ofNat disk.diskSize - 1 - 16384) / disk.sectorSize64

/-- `gpt`, at the place `self`, with the table at `table`. -/
def gptHdrAt (uuids : ℕ → EfiGuid) (disk : Disk) (entries : List GptEnt) (self alt table : UInt64) : GptHdr :=
  GptHdr.sealed
    { hdrSig := gptHdrSig
      hdrRevision := 0x00010000
      hdrSize := 92
      hdrCrcSelf := 0
      reserved := 0
      hdrLbaSelf := self
      hdrLbaAlt := alt
      hdrLbaStart := 1 + 16384 / disk.sectorSize64 + 1
      hdrLbaEnd := disk.altTableLba - 1
      hdrGuid :=
        match disk.readBytes disk.sectorSize disk.sectorSize64 with
        | some org => (GptHdr.ofBytes org).hdrGuid
        | none => uuids 0
      hdrLbaTable := table
      hdrEntries := 128
      hdrEntsz := 128
      hdrCrcTable := gptCrc (gptEntryBytes entries) }

/-- The primary header. -/
def gptPrimary (uuids : ℕ → EfiGuid) (disk : Disk) (entries : List GptEnt) : GptHdr :=
  gptHdrAt uuids disk entries 1 disk.lastLba 2

/-- The alternate header. -/
def gptAlternate (uuids : ℕ → EfiGuid) (disk : Disk) (entries : List GptEnt) : GptHdr :=
  gptHdrAt uuids disk entries disk.lastLba 1 disk.altTableLba

/-- `write_part_gpt_i386`: `write_mbr_i386` does nothing on smaller sectors. -/
def writePartGptI386 (host : GptHost) (disk : Disk) (list : List PartitionStruct) : Disk :=
  if disk.sectorSize < 512 then disk
  else { disk with content := overwrite (host.mbr disk list).toList 0 disk.content }

/-- `write_part_gpt`: the disk afterwards, or `none` for a result of 1. -/
def writePartGpt (host : GptHost) (disk : Disk) (list : List PartitionStruct) (ro : Bool) : Option Disk :=
  if ro then some disk
  else
    let entries := gptEntries host.uuids disk list
    let write (gpt : GptHdr) (d : Disk) : Option Disk := do
      let d ← d.writeBytes host.refuses (gptEntryBytes entries) (gpt.hdrLbaTable * disk.sectorSize64)
      d.writeBytes host.refuses (gpt.sector disk.sectorSize) (gpt.hdrLbaSelf * disk.sectorSize64)
    do
      let d ← write (gptPrimary host.uuids disk entries) disk
      let d ← write (gptAlternate host.uuids disk entries) d
      return writePartGptI386 host d list

end RecoveryQt
