import RecoveryQt.Lib.Codec
import RecoveryQt.Tree.Model

/-!
# Session files

A session file is a header, one entry for each node, and a terminator.

* `SessionArgs`, `SessionHeader`: the arguments of `session_save`, and the header as
  `session_load` returns it;
* `writeSessionHeader`, `readSessionHeader`, **`readSessionHeader_write`**: the header;
* `SessionEntry`, `writeSessionEntry`, `readSessionEntry`, **`readSessionEntry_write`**: an entry
  without its clusters;
* `readClusterList`: the clusters of an entry.
-/

namespace RecoveryQt

open List

/-- A C string; a null pointer is saved as the empty one. -/
structure CString where
  bytes : List UInt8
  ne_zero : ∀ b ∈ bytes, b ≠ 0
  deriving DecidableEq

/-- The C string in a buffer. -/
def CString.ofBuffer (l : List UInt8) : CString where
  bytes := l.takeWhile (· ≠ 0)
  ne_zero := fun _ hb => by simpa using mem_takeWhile_imp hb

@[simp] theorem CString.ofBuffer_bytes (s : CString) : CString.ofBuffer s.bytes = s := by
  have h : s.bytes.takeWhile (· ≠ 0) = s.bytes := takeWhile_ne_zero s.ne_zero
  cases s
  simp only [ofBuffer, h]

/-! ## The header -/

/-- `SESSION_VERSION`. -/
def sessionVersion : UInt32 := 1

/-- `SESSION_MAX_MODEL`. -/
def sessionMaxModel : ℕ := 256

/-- `SESSION_HEADER_END`. -/
def sessionHeaderEnd : ℕ := 116

/-- `RECOVRY_SES`, with the byte that ends the string. -/
def sessionMagic : List UInt8 := [82, 69, 67, 79, 86, 82, 89, 95, 83, 69, 83, 0]

/-- The header fields of `session_info_t`. -/
structure SessionHeader where
  version : UInt32
  flags : UInt32
  opType : UInt32
  timestamp : UInt64
  progress1 : UInt64
  progress2 : UInt64
  resumePhase : UInt32
  resumeOffset : UInt64
  sectorSize : UInt32
  diskSize : UInt64
  partOffset : UInt64
  partSize : UInt64
  upartType : UInt32
  partTypeI386 : UInt32
  encrypted : UInt32
  luksOffset : UInt64
  devicePath : CString
  model : CString
  extFilter : CString

/-- The arguments of `session_save` but for the tree: what it reads of the disk and the partition,
and the time. -/
structure SessionArgs where
  flags : UInt32
  opType : UInt32
  now : UInt64
  progress1 : UInt64
  progress2 : UInt64
  resumePhase : UInt32
  resumeOffset : UInt64
  sectorSize : UInt32
  diskSize : UInt64
  partOffset : UInt64
  partSize : UInt64
  upartType : UInt32
  partTypeI386 : UInt32
  device : CString
  model : CString
  extFilter : CString

/-- `flags & SESSION_FLAG_LUKS_DECRYPTED`. -/
def SessionArgs.luksDecrypted (a : SessionArgs) : Prop := a.flags &&& 8 ≠ 0

instance (a : SessionArgs) : Decidable a.luksDecrypted := by
  unfold SessionArgs.luksDecrypted; infer_instance

/-- The header that stands for the arguments. -/
def SessionArgs.header (a : SessionArgs) : SessionHeader where
  version := sessionVersion
  flags := a.flags
  opType := a.opType
  timestamp := a.now
  progress1 := a.progress1
  progress2 := a.progress2
  resumePhase := a.resumePhase
  resumeOffset := a.resumeOffset
  sectorSize := a.sectorSize
  diskSize := a.diskSize
  partOffset := a.partOffset
  partSize := a.partSize
  upartType := a.upartType
  partTypeI386 := a.partTypeI386
  encrypted := if a.luksDecrypted then 1 else 0
  luksOffset := if a.luksDecrypted then a.partOffset else 0
  devicePath := a.device
  model := a.model
  extFilter := a.extFilter

/-- What is written of a string: its length is taken as a `uint16_t`. -/
def cut16 (l : List UInt8) : List UInt8 := l.take (l.length % 65536)

/-- What is written of the model: nothing if it is too long. -/
def sessionModel (l : List UInt8) : List UInt8 := cut16 (if sessionMaxModel < l.length then [] else l)

/-- The fixed part of the header. -/
def sessionHeaderBytes (a : SessionArgs) : List UInt8 :=
  sessionMagic ++ (leBytes 4 sessionVersion.toNat ++ (leBytes 4 a.flags.toNat ++
  (leBytes 4 a.opType.toNat ++ (leBytes 8 a.now.toNat ++ (leBytes 8 a.progress1.toNat ++
  (leBytes 8 a.progress2.toNat ++ (leBytes 4 a.resumePhase.toNat ++
  (leBytes 8 a.resumeOffset.toNat ++ (leBytes 4 a.sectorSize.toNat ++
  (leBytes 8 a.diskSize.toNat ++ (leBytes 8 a.partOffset.toNat ++ (leBytes 8 a.partSize.toNat ++
  (leBytes 4 a.upartType.toNat ++ (leBytes 4 a.partTypeI386.toNat ++
  (leBytes 4 (if a.luksDecrypted then 1 else 0) ++
  (leBytes 8 (if a.luksDecrypted then a.partOffset.toNat else 0) ++
  (leBytes 2 (cut16 a.device.bytes).length ++ (leBytes 2 (sessionModel a.model.bytes).length ++
  (leBytes 2 (cut16 a.extFilter.bytes).length ++ leBytes 2 0)))))))))))))))))))

/-- The strings of the header. -/
def sessionStrings (a : SessionArgs) : List UInt8 :=
  cut16 a.device.bytes ++ (sessionModel a.model.bytes ++ cut16 a.extFilter.bytes)

/-- The first part of `session_save`: the header, padded to a multiple of 8. -/
def writeSessionHeader (a : SessionArgs) : List UInt8 :=
  sessionHeaderBytes a ++ sessionStrings a ++
    replicate (roundUp8 (sessionHeaderEnd + (sessionStrings a).length) -
      (sessionHeaderEnd + (sessionStrings a).length)) 0

/-- The first part of `session_load`: the header, and the stream behind it. -/
def readSessionHeader (file : List UInt8) : Option (SessionHeader × List UInt8) := do
  let (buffer, s) ← takeBytes sessionHeaderEnd file
  if buffer.take 12 ≠ sessionMagic then none
  else if UInt32.ofNat (numAt buffer 12 4) ≠ sessionVersion then none
  else
    let (device, s) ← takeBytes (numAt buffer 108 2) s
    let (model, s) ← takeBytes (numAt buffer 110 2) s
    let (filter, s) ← takeBytes (numAt buffer 112 2) s
    let strEnd := sessionHeaderEnd + numAt buffer 108 2 + numAt buffer 110 2 + numAt buffer 112 2
    let (_, s) ← takeBytes (roundUp8 strEnd - strEnd) s
    some ({
      version := UInt32.ofNat (numAt buffer 12 4)
      flags := UInt32.ofNat (numAt buffer 16 4)
      opType := UInt32.ofNat (numAt buffer 20 4)
      timestamp := UInt64.ofNat (numAt buffer 24 8)
      progress1 := UInt64.ofNat (numAt buffer 32 8)
      progress2 := UInt64.ofNat (numAt buffer 40 8)
      resumePhase := UInt32.ofNat (numAt buffer 48 4)
      resumeOffset := UInt64.ofNat (numAt buffer 52 8)
      sectorSize := UInt32.ofNat (numAt buffer 60 4)
      diskSize := UInt64.ofNat (numAt buffer 64 8)
      partOffset := UInt64.ofNat (numAt buffer 72 8)
      partSize := UInt64.ofNat (numAt buffer 80 8)
      upartType := UInt32.ofNat (numAt buffer 88 4)
      partTypeI386 := UInt32.ofNat (numAt buffer 92 4)
      encrypted := UInt32.ofNat (numAt buffer 96 4)
      luksOffset := UInt64.ofNat (numAt buffer 100 8)
      devicePath := CString.ofBuffer device
      model := CString.ofBuffer model
      extFilter := CString.ofBuffer filter }, s)

@[simp] theorem length_sessionHeaderBytes (a : SessionArgs) :
    (sessionHeaderBytes a).length = sessionHeaderEnd := by
  simp only [sessionHeaderBytes, length_append, length_leBytes]
  rfl

theorem length_cut16_lt (l : List UInt8) : (cut16 l).length < 65536 := by
  rw [cut16, length_take]
  omega

theorem length_sessionModel_lt (l : List UInt8) : (sessionModel l).length < 65536 := length_cut16_lt _

/-- **The header is read back**, with the strings that were written of it. -/
theorem readSessionHeader_write (a : SessionArgs) (s : List UInt8) :
    readSessionHeader (writeSessionHeader a ++ s) =
      some ({ a.header with
        devicePath := CString.ofBuffer (cut16 a.device.bytes)
        model := CString.ofBuffer (sessionModel a.model.bytes)
        extFilter := CString.ofBuffer (cut16 a.extFilter.bytes) }, s) := by
  have hdevice : numAt (sessionHeaderBytes a) 108 2 = (cut16 a.device.bytes).length := by
    show leNat (leBytes 2 (cut16 a.device.bytes).length) = _
    exact leNat_leBytes_of_lt (length_cut16_lt _)
  have hmodel : numAt (sessionHeaderBytes a) 110 2 = (sessionModel a.model.bytes).length := by
    show leNat (leBytes 2 (sessionModel a.model.bytes).length) = _
    exact leNat_leBytes_of_lt (length_sessionModel_lt _)
  have hfilter : numAt (sessionHeaderBytes a) 112 2 = (cut16 a.extFilter.bytes).length := by
    show leNat (leBytes 2 (cut16 a.extFilter.bytes).length) = _
    exact leNat_leBytes_of_lt (length_cut16_lt _)
  have hmagic : (sessionHeaderBytes a).take 12 = sessionMagic := rfl
  have hversion : UInt32.ofNat (numAt (sessionHeaderBytes a) 12 4) = sessionVersion :=
    UInt32.ofNat_leNat sessionVersion
  have hlen : sessionHeaderEnd + (cut16 a.device.bytes).length + (sessionModel a.model.bytes).length +
      (cut16 a.extFilter.bytes).length = sessionHeaderEnd + (sessionStrings a).length := by
    rw [sessionStrings, length_append, length_append]
    omega
  have hencrypted : UInt32.ofNat (leNat (leBytes 4 (if a.luksDecrypted then 1 else 0))) =
      if a.luksDecrypted then 1 else 0 := by
    split_ifs <;> rfl
  have hluks : UInt64.ofNat (leNat (leBytes 8 (if a.luksDecrypted then a.partOffset.toNat else 0))) =
      if a.luksDecrypted then a.partOffset else 0 := by
    split_ifs
    · exact UInt64.ofNat_leNat a.partOffset
    · rfl
  rw [readSessionHeader, writeSessionHeader, append_assoc, append_assoc,
    takeBytes_append (length_sessionHeaderBytes a)]
  simp only [Option.bind_eq_bind, Option.bind_some, hdevice, hmodel, hfilter]
  rw [if_neg (not_not.mpr hmagic), if_neg (not_not.mpr hversion), hlen, sessionStrings, append_assoc,
    append_assoc, takeBytes_append rfl, Option.bind_some, takeBytes_append rfl, Option.bind_some,
    takeBytes_append rfl, Option.bind_some, ← sessionStrings, takeBytes_append (length_replicate ..),
    Option.bind_some]
  congr 2
  have hfields : SessionHeader.mk (UInt32.ofNat (leNat (leBytes 4 sessionVersion.toNat)))
      (UInt32.ofNat (leNat (leBytes 4 a.flags.toNat)))
      (UInt32.ofNat (leNat (leBytes 4 a.opType.toNat)))
      (UInt64.ofNat (leNat (leBytes 8 a.now.toNat)))
      (UInt64.ofNat (leNat (leBytes 8 a.progress1.toNat)))
      (UInt64.ofNat (leNat (leBytes 8 a.progress2.toNat)))
      (UInt32.ofNat (leNat (leBytes 4 a.resumePhase.toNat)))
      (UInt64.ofNat (leNat (leBytes 8 a.resumeOffset.toNat)))
      (UInt32.ofNat (leNat (leBytes 4 a.sectorSize.toNat)))
      (UInt64.ofNat (leNat (leBytes 8 a.diskSize.toNat)))
      (UInt64.ofNat (leNat (leBytes 8 a.partOffset.toNat)))
      (UInt64.ofNat (leNat (leBytes 8 a.partSize.toNat)))
      (UInt32.ofNat (leNat (leBytes 4 a.upartType.toNat)))
      (UInt32.ofNat (leNat (leBytes 4 a.partTypeI386.toNat)))
      (UInt32.ofNat (leNat (leBytes 4 (if a.luksDecrypted then 1 else 0))))
      (UInt64.ofNat (leNat (leBytes 8 (if a.luksDecrypted then a.partOffset.toNat else 0))))
      (CString.ofBuffer (cut16 a.device.bytes)) (CString.ofBuffer (sessionModel a.model.bytes))
      (CString.ofBuffer (cut16 a.extFilter.bytes)) =
      { a.header with
        devicePath := CString.ofBuffer (cut16 a.device.bytes)
        model := CString.ofBuffer (sessionModel a.model.bytes)
        extFilter := CString.ofBuffer (cut16 a.extFilter.bytes) } := by
    simp only [UInt64.ofNat_leNat, UInt32.ofNat_leNat, hencrypted, hluks]
    rfl
  exact hfields

/-! ## Entries -/

/-- `SESSION_MAX_PATH`. -/
def sessionMaxPath : ℕ := 4096

/-- The fields of an entry but for its clusters. -/
structure SessionEntry where
  path : List UInt8
  flags : UInt8
  size : UInt64
  firstSector : UInt64
  numSectors : UInt64
  mtime : UInt64
  sectorSize : UInt32
  clusterCount : UInt32
  clusterSize : UInt32

/-- The fixed part of an entry. -/
def sessionEntryBytes (e : SessionEntry) : List UInt8 :=
  leBytes 2 e.path.length ++ (e.flags :: (leBytes 8 e.size.toNat ++
  (leBytes 8 e.firstSector.toNat ++ (leBytes 8 e.numSectors.toNat ++ (leBytes 8 e.mtime.toNat ++
  (leBytes 4 e.sectorSize.toNat ++ (leBytes 4 e.clusterCount.toNat ++
  leBytes 4 e.clusterSize.toNat)))))))

/-- `session_write_node_rec`, up to the path. -/
def writeSessionEntry (e : SessionEntry) : List UInt8 := sessionEntryBytes e ++ cut16 e.path

/-- The terminator. -/
def sessionEnd : List UInt8 := leBytes 2 0xFFFF

/-- The body of the loop of `session_read_tree`, up to the path: `none` where the loop breaks. -/
def readSessionEntry (s : List UInt8) : Option (SessionEntry × List UInt8) := do
  let (buffer, s) ← takeBytes 47 s
  if numAt buffer 0 2 = 0xFFFF then none
  else if sessionMaxPath ≤ numAt buffer 0 2 then none
  else
    let (path, s) ← takeBytes (numAt buffer 0 2) s
    some ({
      path := path
      flags := buffer.getD 2 0
      size := UInt64.ofNat (numAt buffer 3 8)
      firstSector := UInt64.ofNat (numAt buffer 11 8)
      numSectors := UInt64.ofNat (numAt buffer 19 8)
      mtime := UInt64.ofNat (numAt buffer 27 8)
      sectorSize := UInt32.ofNat (numAt buffer 35 4)
      clusterCount := UInt32.ofNat (numAt buffer 39 4)
      clusterSize := UInt32.ofNat (numAt buffer 43 4) }, s)

@[simp] theorem length_sessionEntryBytes (e : SessionEntry) : (sessionEntryBytes e).length = 47 := by
  simp only [sessionEntryBytes, length_append, length_cons, length_leBytes]

/-- **An entry is read back.** -/
theorem readSessionEntry_write (e : SessionEntry) (hlen : e.path.length < sessionMaxPath)
    (s : List UInt8) : readSessionEntry (writeSessionEntry e ++ s) = some (e, s) := by
  unfold sessionMaxPath at hlen
  have hpathLen : numAt (sessionEntryBytes e) 0 2 = e.path.length := by
    show leNat (leBytes 2 e.path.length) = _
    exact leNat_leBytes_of_lt (by omega)
  have hwhole : cut16 e.path = e.path := take_of_length_le (by omega)
  have hfields : SessionEntry.mk e.path ((sessionEntryBytes e).getD 2 0)
      (UInt64.ofNat (leNat (leBytes 8 e.size.toNat)))
      (UInt64.ofNat (leNat (leBytes 8 e.firstSector.toNat)))
      (UInt64.ofNat (leNat (leBytes 8 e.numSectors.toNat)))
      (UInt64.ofNat (leNat (leBytes 8 e.mtime.toNat)))
      (UInt32.ofNat (leNat (leBytes 4 e.sectorSize.toNat)))
      (UInt32.ofNat (leNat (leBytes 4 e.clusterCount.toNat)))
      (UInt32.ofNat (leNat (leBytes 4 e.clusterSize.toNat))) = e := by
    simp only [UInt64.ofNat_leNat, UInt32.ofNat_leNat]
    rfl
  rw [readSessionEntry, writeSessionEntry, hwhole, append_assoc,
    takeBytes_append (length_sessionEntryBytes e)]
  simp only [Option.bind_eq_bind, Option.bind_some, hpathLen]
  rw [if_neg (by omega), if_neg (by unfold sessionMaxPath; omega), takeBytes_append rfl,
    Option.bind_some]
  exact congrArg (fun x => some (x, s)) hfields

/-- Reading an entry uses some of the stream. -/
theorem length_readSessionEntry_lt {s rest : List UInt8} {e : SessionEntry}
    (h : readSessionEntry s = some (e, rest)) : rest.length < s.length := by
  rw [readSessionEntry, takeBytes] at h
  split_ifs at h with hlen
  · simp only [Option.bind_eq_bind, Option.bind_some] at h
    split_ifs at h
    rw [takeBytes] at h
    split_ifs at h
    · simp only [Option.bind_some, Option.some.injEq, Prod.mk.injEq] at h
      rw [← h.2, length_drop, length_drop]
      omega
    · cases h
  · cases h

/-- The loop stops at the terminator. -/
theorem readSessionEntry_sessionEnd : readSessionEntry sessionEnd = none := rfl

/-- The clusters of an entry. At the end of the stream the rest of the list stays `0`. -/
def readClusterList : ℕ → List UInt8 → List UInt64 × List UInt8
  | 0, s => ([], s)
  | n + 1, s =>
    match takeBytes 8 s with
    | none => (replicate (n + 1) 0, [])
    | some (b, s) =>
      let (l, s) := readClusterList n s
      (UInt64.ofNat (leNat b) :: l, s)

theorem length_readClusterList_le (n : ℕ) (s : List UInt8) :
    (readClusterList n s).2.length ≤ s.length := by
  induction n generalizing s with
  | zero => exact le_rfl
  | succ n ih =>
    rw [readClusterList, takeBytes]
    split_ifs with h
    · refine (ih _).trans ?_
      rw [length_drop]
      omega
    · exact Nat.zero_le _

/-- **The clusters are read back.** -/
theorem readClusterList_write (l : List UInt64) (s : List UInt8) :
    readClusterList l.length ((l.flatMap fun c => leBytes 8 c.toNat) ++ s) = (l, s) := by
  induction l with
  | nil => rfl
  | cons c l ih =>
    rw [length_cons, flatMap_cons, append_assoc, readClusterList, takeBytes_append (length_leBytes 8 _)]
    simp only [ih, UInt64.ofNat_leNat]

end RecoveryQt
