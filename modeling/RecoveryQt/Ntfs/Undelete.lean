import RecoveryQt.Lib.Blocks
import RecoveryQt.Lib.Codec
import RecoveryQt.Lib.Sweep
import RecoveryQt.Ntfs.Parents
import RecoveryQt.Scan.Run

/-!
# The scan of the MFT

`scan_disk` reads the bitmap of the MFT in blocks of 8 KiB and lists the data streams of the records that are free. The
records, their attributes and run lists are as libntfs decodes them.

* `RunList`, `DataAttr`, `AttrList`, `MftRecord`: a record; `MftVolume`: a volume;
* `attrListBuf`, `dataEntries`, `getData`, `processAttributeList`, `readRecord`: the data of a file;
* `calcPercentage`, `ufileToFileData`: what can be recovered of it, and its entries;
* `scanBitmap`, `scanDisk`: the scan.
-/

namespace RecoveryQt

open List

/-! ## Records -/

/-- A run list up to its end, with any number of clusters. -/
structure RunList where
  runs : List (NtfsLcn × ℕ)
  length_pos : ∀ r ∈ runs, 0 < r.2

/-- The value of a data attribute that is resident; else its lowest VCN, its sizes, and its run list, which may fail to
decompress. -/
inductive DataContent where
  | resident (value : List UInt8)
  | nonResident (lowestVcn : ℕ) (dataSize initializedSize : UInt64) (rl : Option RunList)

/-- A data attribute. -/
structure DataAttr where
  uname : List UInt16
  compressed : Bool
  encrypted : Bool
  content : DataContent

/-- An attribute list: its value, or its size and its run list. -/
inductive AttrList where
  | resident (value : List UInt8)
  | nonResident (dataSize : UInt64) (rl : Option RunList)

/-- A record of the MFT: whether it has the magic number, its sequence number, whether it is in use, the reference of its
base record, the time of its standard information, and its other attributes. -/
structure MftRecord where
  magicFile : Bool
  sequenceNumber : UInt16
  inUse : Bool
  baseRecord : UInt64
  standardInformation : Option UInt64
  attributeList : Option AttrList
  indexRoot : Bool
  data : List DataAttr

/-- A volume: the bitmap of the MFT with its initialized size and the reads of it that fail, the initialized size of the
MFT, its records and the names that `get_filenames` prefers for them, and the clusters. -/
structure MftVolume where
  bitmapSize : ℕ
  bitmap : ℕ → UInt8
  bitmapBad : ℕ → Bool
  mftSize : ℕ
  recordSizeBits : ℕ
  record : ℕ → Option MftRecord
  fileNames : ℕ → Option (List UInt8) × Option (List UInt8)
  clusterSize : ℕ
  cluster : ℕ → Option (List UInt8)
  length_cluster : ∀ lcn, ∀ c ∈ cluster lcn, c.length = clusterSize
  clusterInUse : ℕ → Bool
  ucstombs : List UInt16 → Option (List UInt8)

/-- The size of the data. -/
def DataContent.sizeData : DataContent → UInt64
  | .resident value => UInt64.ofNat value.length
  | .nonResident _ dataSize _ _ => dataSize

/-- The size up to which it is initialized, which is not set for a resident attribute. -/
def DataContent.sizeInit : DataContent → UInt64
  | .resident _ => 0
  | .nonResident _ _ initializedSize _ => initializedSize

/-- It is the beginning of its stream. -/
def DataContent.Starts : DataContent → Prop
  | .resident _ => True
  | .nonResident lowestVcn _ _ _ => lowestVcn = 0

instance (c : DataContent) : Decidable c.Starts :=
  match c with
  | .resident _ => inferInstanceAs (Decidable True)
  | .nonResident lowestVcn _ _ _ => inferInstanceAs (Decidable (lowestVcn = 0))

/-! ## Attribute lists -/

/-- `AT_DATA`. -/
def atData : ℕ := 0x80

/-- The records that the entries of a list name for data attributes. -/
def dataEntries (list : List UInt8) : List ℕ :=
  if list.length < 26 then []
  else
    let entryLen := numAt list 4 2
    if entryLen < 26 ∨ list.length < entryLen then []
    else
      (if numAt list 0 4 = atData then [mref (UInt64.ofNat (numAt list 16 8))] else []) ++ dataEntries (list.drop entryLen)
  termination_by list.length
  decreasing_by
    rw [length_drop]
    omega

namespace MftVolume

variable (vol : MftVolume)

/-- The clusters of a run behind what is read, up to the size of the list; the run ends with a cluster that cannot be
read. -/
def readRun (total lcn : ℕ) : ℕ → List UInt8 → List UInt8
  | 0, buf => buf
  | n + 1, buf =>
    if total ≤ buf.length then buf
    else
      match vol.cluster lcn with
      | none => buf
      | some c => readRun total (lcn + 1) n (buf ++ c.take (total - buf.length))

/-- The runs of a list. Holes are left out. -/
def readRuns (total : ℕ) : List (NtfsLcn × ℕ) → List UInt8 → List UInt8
  | [], buf => buf
  | (.at lcn, n) :: l, buf =>
    if total ≤ (vol.readRun total lcn n buf).length then vol.readRun total lcn n buf
    else readRuns total l (vol.readRun total lcn n buf)
  | (.hole, _) :: l, buf => readRuns total l buf
  | (.notMapped, _) :: l, buf => readRuns total l buf

/-- `attr_list_buf`; a list that is not resident has at most 256 KiB, and zeros where nothing was read. -/
def attrListBuf : AttrList → Option (List UInt8)
  | .resident value => some value
  | .nonResident dataSize rl =>
    if dataSize = 0 ∨ 256 * 1024 < dataSize then none
    else
      match rl with
      | none => none
      | some rl =>
        let buf := vol.readRuns dataSize.toNat rl.runs []
        if rl.runs = [] ∨ buf = [] then none else some (buf ++ replicate (dataSize.toNat - buf.length) 0)

/-- The records that `process_attribute_list` follows. -/
def followed (rec : MftRecord) : List ℕ := ((rec.attributeList.bind vol.attrListBuf).map dataEntries).getD []

/-- `get_data` of a record, if it can be read. -/
def getData (n : ℕ) : List DataAttr := ((vol.record n).map MftRecord.data).getD []

/-- `process_attribute_list`: the data that it adds. -/
def processAttributeList (rec : MftRecord) : List DataAttr := (vol.followed rec).flatMap vol.getData

end MftVolume

/-! ## Files -/

/-- `struct ufile`. -/
structure Ufile where
  inode : ℕ
  date : UInt64
  prefName : Option (List UInt8)
  prefPname : Option (List UInt8)
  directory : Bool
  data : List DataAttr

namespace MftVolume

variable (vol : MftVolume)

/-- The file of a record that is read. -/
def ufile (n : ℕ) (rec : MftRecord) : Ufile where
  inode := n
  date := rec.standardInformation.getD 0
  prefName := (vol.fileNames n).1
  prefPname := (vol.fileNames n).2
  directory := rec.indexRoot
  data := rec.data ++ if rec.attributeList.isSome ∨ rec.standardInformation = none then vol.processAttributeList rec else []

/-- `read_record`. -/
def readRecord (n : ℕ) : Option Ufile :=
  (vol.record n).bind fun rec =>
    if rec.magicFile = false ∨ rec.sequenceNumber = 0 ∨ rec.inUse then none else some (vol.ufile n rec)

/-- The clusters of a run that are in use, and those that are free. -/
def countRun : NtfsLcn × ℕ → ℕ × ℕ
  | (.at lcn, n) => ((range n).countP fun j => vol.clusterInUse (lcn + j),
      (range n).countP fun j => !vol.clusterInUse (lcn + j))
  | (.hole, n) => (0, n)
  | (.notMapped, n) => (n, 0)

/-- The clusters of a run list that are in use. -/
def clustersInUse (runs : List (NtfsLcn × ℕ)) : ℕ := (runs.map fun r => (vol.countRun r).1).sum

/-- The clusters of a run list that are free. -/
def clustersFree (runs : List (NtfsLcn × ℕ)) : ℕ := (runs.map fun r => (vol.countRun r).2).sum

/-- The percentage of a run list. The counters and the product are `unsigned int`; a sum of zero, for which there is no
percentage, is one of zero here. -/
def runsPercent (runs : List (NtfsLcn × ℕ)) : ℕ :=
  vol.clustersFree runs * 100 % 2 ^ 32 / ((vol.clustersInUse runs + vol.clustersFree runs) % 2 ^ 32)

/-- A round of `calc_percentage`. -/
def percentStep (percent : ℕ) (d : DataAttr) : ℕ :=
  if d.encrypted ∨ d.compressed then percent
  else
    match d.content with
    | .resident _ => 100
    | .nonResident _ _ _ none => percent
    | .nonResident _ _ _ (some rl) => if rl.runs = [] then percent else max percent (vol.runsPercent rl.runs)

/-- `calc_percentage`. -/
def calcPercentage (file : Ufile) : ℕ := if file.directory ∨ file.data = [] then 0 else file.data.foldl vol.percentStep 0

/-- The name of a stream, if it has one and that can be translated. -/
def streamName (d : DataAttr) : Option (List UInt8) := if d.uname = [] then none else vol.ucstombs d.uname

/-- `ufile_to_file_data`. -/
def ufileToFileData (file : Ufile) (d : DataAttr) : FileInfo where
  name := (file.prefPname.elim [] fun p => p ++ [slash]) ++ file.prefName.getD (ascii "inode_" ++ decimalBytes file.inode) ++
    (vol.streamName d).elim [] fun s => 0x3a :: s
  stIno := file.inode
  stSize := max d.content.sizeInit d.content.sizeData
  tdMtime := file.date
  isDir := file.directory
  deleted := false

/-- The recoverable percentage of a record. -/
def percent (n : ℕ) : ℕ := (vol.readRecord n).elim 0 vol.calcPercentage

/-- What is added for a record: an entry for each data attribute of the file, which has the name of its stream. -/
def added (n : ℕ) : List (List UInt16 × FileInfo) :=
  match vol.readRecord n with
  | none => []
  | some file => if 0 < vol.calcPercentage file then file.data.map fun d => (d.uname, vol.ufileToFileData file d) else []

/-! ## The bitmap -/

/-- `nr_mft_records`. -/
def nrMftRecords : ℕ := vol.mftSize / 2 ^ vol.recordSizeBits

section Scan

variable {β : Type*} (f : ℕ → List β)

/-- The loop over the bits of a byte, of which the first one is that of the record `first`. -/
def scanByte (first : ℕ) (b : UInt8) : Swept β :=
  sweep (fun k => sweepOne vol.nrMftRecords (first + k) (if b.toNat.testBit k then [] else f (first + k))) 0 8

/-- The loop over the bytes of the buffer. -/
def scanBuffer (i : ℕ) (buffer : List UInt8) : Swept β :=
  sweep (fun j => vol.scanByte f ((i + j) * 8) (buffer.getD j 0)) 0 buffer.length

/-- The loop over the blocks, with what is done for a free record. It ends with a block that cannot be read. -/
def scanBitmap : Swept β :=
  sweep (fun m =>
    if vol.bitmapBad (8192 * m) then ⟨[], true⟩
    else vol.scanBuffer f (8192 * m) (slice vol.bitmap (8192 * m) (min (vol.bitmapSize - 8192 * m) 8192)))
    0 ((vol.bitmapSize + 8191) / 8192)

end Scan

/-- `filesort`: the first one comes before the second one. -/
def filesort (a b : FileInfo) : Bool :=
  if a.isDir ≠ b.isDir then a.isDir
  else if a.isDir ∧ a.name = [46] then true
  else if a.isDir ∧ a.name = [46, 46] ∧ b.name ≠ [46] then true
  else if b.isDir ∧ b.name = [46] then false
  else if b.isDir ∧ b.name = [46, 46] ∧ a.name ≠ [46] then false
  else decide (a.name ≤ b.name)

/-- The records that are read. -/
def visited : List ℕ := (vol.scanBitmap fun n => [n]).listed

/-- **`scan_disk`.** -/
def scanDisk : List FileInfo := ((vol.scanBitmap vol.added).listed.map Prod.snd).mergeSort filesort

end MftVolume

end RecoveryQt
