import RecoveryQt.Disk
import RecoveryQt.Lib.Trace

/-!
# The carver's scan loop

`carver_scan` reads the partition chunk by chunk, walks the sectors of each chunk and, in a
sector, the positions at which `carver_check_header` is asked for a header. The header and
footer checks of the file formats are the parameters `checkHeader` and `checkFooter`.

* `OpenFile`, `CarvedEntry`, `CarverEvent`: the file in progress, what is handed to
  `carver_add_entry`, and the trace of a scan;
* `expire`, `byteStep`, `sectorStep`, `chunkStep`, `chunkLoop`, `carverScan`: the loops.
-/

namespace RecoveryQt

def carverChunkSize : ℕ := 512 * 1024
def carverChunkOverlap : ℕ := 64 * 1024
def carverMaxGap : ℕ := 4 * 1024 * 1024
def carverMinSize : ℕ := 512
def maxOrphanFiles : ℕ := 10000000

/-- `file_hint_t`: two hints are the same object when their addresses are equal. -/
structure FileHint where
  addr : ℕ
  extension : Option (List UInt8)
  maxFilesize : ℕ
  deriving DecidableEq

/-- `file_stat_t`. -/
structure FileStat where
  fileHint : FileHint
  deriving DecidableEq

/-- What `carver_scan` is called with, and the answers of the code it calls.
`cancel chunkPos` is the answer of `g_carver_cancel` at the end of the chunk at `chunkPos`. -/
structure CarverEnv where
  disk : Disk
  partition : Partition
  deepScan : Bool
  checkHeader : (ℕ → UInt8) → ℕ → ℕ → Option FileStat → ℕ → Option FileHint
  checkFooter : (ℕ → UInt8) → ℕ → FileHint → ℤ
  fileStats : List FileStat
  cancel : ℕ → Bool
  resumeOffset : ℕ

/-- The file in progress: `in_file_start`, `in_file_hint`, `in_file_stat`, `in_file_footer_at`.
The source reads these variables only while `in_file` is set, and then the hint is not `NULL`. -/
structure OpenFile where
  start : ℕ
  hint : FileHint
  stat : Option FileStat
  footerAt : ℕ

/-- The arguments of one `carver_add_entry` call. -/
structure CarvedEntry where
  offset : ℕ
  size : ℕ
  hint : FileHint
  deriving DecidableEq

/-- The end of a carved interval. -/
def CarvedEntry.stop (e : CarvedEntry) : ℕ := e.offset + e.size

/-- What a scan does, in order: sector `i` of the chunk at `chunkPos` is looked at, a position is
submitted to `carver_check_header`, an entry is handed to `carver_add_entry`. -/
inductive CarverEvent where
  | visit (chunkPos i : ℕ)
  | header (offset : ℕ)
  | entry (e : CarvedEntry)

def CarverEvent.visit? : CarverEvent → Option (ℕ × ℕ)
  | .visit c i => some (c, i)
  | _ => none

def CarverEvent.header? : CarverEvent → Option ℕ
  | .header o => some o
  | _ => none

def CarverEvent.entry? : CarverEvent → Option CarvedEntry
  | .entry e => some e
  | _ => none

/-- Every event but the entries handed out. -/
def CarverEvent.examined? : CarverEvent → Option CarverEvent
  | .entry _ => none
  | ev => some ev

/-- The gap limit of a hint: `max_filesize`, or `CARVER_MAX_GAP` when that is `0`. -/
def gapLimit (h : FileHint) : ℕ := if h.maxFilesize = 0 then carverMaxGap else h.maxFilesize

/-- `carver_sector_constant`. -/
def carverSectorConstant (sector : ℕ → UInt8) (size : ℕ) : Prop :=
  16 ≤ size ∧ (sector 0 = 0x00 ∨ sector 0 = 0xFF) ∧ ∀ i < size, sector i = sector 0

instance (sector : ℕ → UInt8) (size : ℕ) : Decidable (carverSectorConstant sector size) := by
  unfold carverSectorConstant; infer_instance

/-- `carver_find_stat`. -/
def carverFindStat (stats : List FileStat) (h : FileHint) : Option FileStat :=
  stats.find? fun fs => fs.fileHint = h

/-- A file that no header ends: it is closed at its footer once `bound` has passed it, or at the
gap limit once `bound` is further than that. The constant-sector branch calls this with the end
of the sector, the branch without a header with the position itself. -/
def expire (bound : ℕ) (f : OpenFile) : Option OpenFile × List CarvedEntry :=
  if 0 < f.footerAt ∧ f.footerAt ≤ bound then
    (none, if carverMinSize ≤ f.footerAt - f.start then [⟨f.start, f.footerAt - f.start, f.hint⟩]
      else [])
  else if gapLimit f.hint < bound - f.start then
    (none, [⟨f.start, min (bound - f.start) (gapLimit f.hint), f.hint⟩])
  else (some f, [])

/-- `skip_match`: the header found is one the file in progress repeats. -/
def skipMatch (pos : ℕ) (hint : FileHint) (f : OpenFile) : Prop :=
  f.hint = hint ∧
    if 0 < f.footerAt then pos < f.footerAt else pos - f.start < carverChunkSize / 8

instance (pos : ℕ) (hint : FileHint) (f : OpenFile) : Decidable (skipMatch pos hint f) := by
  unfold skipMatch; infer_instance

namespace CarverEnv

variable (env : CarverEnv)

abbrev sectorSize : ℕ := env.disk.sectorSize
abbrev partOffset : ℕ := env.partition.partOffset

def partSectors : ℕ := env.partition.partSize / env.sectorSize

/-- The end of the partition, in whole sectors. -/
def partEnd : ℕ := env.partOffset + env.partSectors * env.sectorSize

/-- The size of the file in progress when a header is found at `pos`: up to the header, the gap
limit and the footer. The footer is looked for in the bytes of the new header. -/
def closingSize (bytes : ℕ → UInt8) (rem pos : ℕ) (f : OpenFile) : ℕ :=
  let diff := min (pos - f.start) (gapLimit f.hint)
  if 0 < f.footerAt then min diff (f.footerAt - f.start)
  else
    let footerAt := env.checkFooter bytes rem f.hint
    if 0 < footerAt ∧ footerAt.toNat < diff then footerAt.toNat else diff

/-- The file a header opens. -/
def openAt (bytes : ℕ → UInt8) (rem pos : ℕ) (hint : FileHint) : OpenFile where
  start := pos
  hint := hint
  stat := carverFindStat env.fileStats hint
  footerAt :=
    let footerAt := env.checkFooter bytes rem hint
    if 0 < footerAt then pos + footerAt.toNat else 0

/-- What a position does to the file in progress, given the answer of the header check. -/
def positionStep (bytes : ℕ → UInt8) (rem pos : ℕ) (found : Option FileHint) :
    Option OpenFile → Option OpenFile × List CarvedEntry
  | none => (found.map (env.openAt bytes rem pos), [])
  | some f =>
    match found with
    | none => expire pos f
    | some hint =>
      if skipMatch pos hint f then (some f, [])
      else
        let size := env.closingSize bytes rem pos f
        (some (env.openAt bytes rem pos hint),
          if carverMinSize ≤ size then [⟨f.start, size, f.hint⟩] else [])

/-- The answer of `carver_check_header` at `pos`. -/
def headerAt (bytes : ℕ → UInt8) (rem pos : ℕ) (s : Option OpenFile) : Option FileHint :=
  env.checkHeader bytes rem pos (s.bind OpenFile.stat) (s.elim 0 fun f => pos - f.start)

/-- The body of the `byte_off` loop. -/
def byteStep (sectorBuf : ℕ → UInt8) (bufRemaining absOffset : ℕ) (s : Option OpenFile)
    (byteOff : ℕ) : Option OpenFile × List CarverEvent :=
  let bytes := fun j => sectorBuf (byteOff + j)
  let rem := bufRemaining - byteOff
  let pos := absOffset + byteOff
  let r := env.positionStep bytes rem pos (env.headerAt bytes rem pos s) s
  (r.1, .header pos :: r.2.map .entry)

/-- The values `byte_off` takes: one per sector, or in a deep scan one per byte as long as a whole
sector remains in the buffer. -/
def byteOffs (bufRemaining : ℕ) : List ℕ :=
  if env.deepScan then (List.range env.sectorSize).takeWhile fun b => env.sectorSize ≤ bufRemaining - b
  else if env.sectorSize ≤ bufRemaining then [0] else []

/-- `CARVER_CHUNK_SIZE / sector_size`: the sectors by which `chunk_pos` advances. -/
def chunkStride : ℕ := carverChunkSize / env.sectorSize

/-- `chunk_size`: the last chunk is shortened to the end of the partition. -/
def chunkSize (chunkPos : ℕ) : ℕ :=
  if (env.partSectors - chunkPos) * env.sectorSize < carverChunkSize then
    (env.partSectors - chunkPos) * env.sectorSize
  else carverChunkSize

def readOffset (chunkPos : ℕ) : ℕ :=
  if chunkPos = 0 then env.partOffset
  else env.partOffset + chunkPos * env.sectorSize - carverChunkOverlap

def skipSectors (chunkPos : ℕ) : ℕ :=
  if chunkPos = 0 then 0 else carverChunkOverlap / env.sectorSize

def chunkSectors (chunkPos : ℕ) : ℕ := env.chunkSize chunkPos / env.sectorSize

/-- The sectors of the chunk that its loop visits. -/
def chunkVisits (chunkPos : ℕ) : List ℕ :=
  List.range' (env.skipSectors chunkPos) (env.chunkSectors chunkPos - env.skipSectors chunkPos)

/-- `abs_offset` of sector `i` of the chunk. -/
def absOffset (chunkPos i : ℕ) : ℕ := env.readOffset chunkPos + i * env.sectorSize

/-- The body of the sector loop, on the chunk buffer. -/
def sectorStep (chunkPos : ℕ) (buffer : ℕ → UInt8) (s : Option OpenFile) (i : ℕ) :
    Option OpenFile × List CarverEvent :=
  let sectorBuf := fun j => buffer (i * env.sectorSize + j)
  let absOffset := env.absOffset chunkPos i
  let r :=
    if carverSectorConstant sectorBuf env.sectorSize then
      match s with
      | none => (none, [])
      | some f =>
        let q := expire (absOffset + env.sectorSize) f
        (q.1, q.2.map .entry)
    else
      let bufRemaining := env.chunkSize chunkPos - i * env.sectorSize
      traceFold (env.byteStep sectorBuf bufRemaining absOffset) s (env.byteOffs bufRemaining)
  (r.1, .visit chunkPos i :: r.2)

/-- The sector loop of one chunk. -/
def chunkStep (chunkPos : ℕ) (buffer : ℕ → UInt8) (s : Option OpenFile) :
    Option OpenFile × List CarverEvent :=
  traceFold (env.sectorStep chunkPos buffer) s (env.chunkVisits chunkPos)

/-- The chunk read at `chunkPos`. -/
def chunkRead (chunkPos : ℕ) : Option (ℕ → UInt8) :=
  env.disk.pread (env.chunkSize chunkPos) (env.readOffset chunkPos)

/-- How the chunk loop ended: the file in progress, the events, and `chunk_pos` when it was
cancelled. -/
structure ChunkEnd where
  inFile : Option OpenFile
  events : List CarverEvent
  cancelledAt : Option ℕ

/-- The chunk loop over the values of `chunk_pos`: a read that fails and a cancellation leave it. -/
def chunkLoop : List ℕ → Option OpenFile → ChunkEnd
  | [], s => ⟨s, [], none⟩
  | chunkPos :: rest, s =>
    match env.chunkRead chunkPos with
    | none => ⟨s, [], none⟩
    | some buffer =>
      let r := env.chunkStep chunkPos buffer s
      if env.cancel chunkPos then ⟨r.1, r.2, some chunkPos⟩
      else
        let q := chunkLoop rest r.1
        ⟨q.inFile, r.2 ++ q.events, q.cancelledAt⟩

/-- The first value of `chunk_pos`: the resume offset rounded down to a chunk, or `0`. -/
def startPos : ℕ :=
  if 0 < env.resumeOffset then
    let chunkPos := env.resumeOffset / env.sectorSize / env.chunkStride * env.chunkStride
    if env.partSectors ≤ chunkPos then 0 else chunkPos
  else 0

/-- The values of `chunk_pos` from `start` up to `part_sectors`. -/
def chunkPositions (start : ℕ) : List ℕ :=
  (List.range ((env.partSectors - start + env.chunkStride - 1) / env.chunkStride)).map
    fun k => start + k * env.chunkStride

/-- The entry that closes the file still open at the end of the partition. -/
def finalEntry (f : OpenFile) : CarvedEntry :=
  let toEnd := env.partEnd - f.start
  let toFooter := if 0 < f.footerAt ∧ f.footerAt - f.start < toEnd then f.footerAt - f.start else toEnd
  let size := if 0 < f.hint.maxFilesize ∧ f.hint.maxFilesize < toFooter then f.hint.maxFilesize
    else toFooter
  ⟨f.start, size, f.hint⟩

/-- The chunk loop as `carver_scan` starts it. -/
def scanLoop : ChunkEnd := env.chunkLoop (env.chunkPositions env.startPos) none

/-- **`carver_scan`**: the events of the chunk loop and of the closing branch. -/
def carverScan : List CarverEvent :=
  let r := env.scanLoop
  r.events ++ if r.cancelledAt.isSome then [] else (r.inFile.map fun f => .entry (env.finalEntry f)).toList

/-- The progress saved when the scan is cancelled, in bytes. -/
def savedProgress : Option ℕ := env.scanLoop.cancelledAt.map (· * env.sectorSize)

def entries : List CarvedEntry := env.carverScan.filterMap CarverEvent.entry?
def visits : List (ℕ × ℕ) := env.carverScan.filterMap CarverEvent.visit?
def headers : List ℕ := env.carverScan.filterMap CarverEvent.header?

end CarverEnv

end RecoveryQt
