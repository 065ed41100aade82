import RecoveryQt.Lib.Stream
import RecoveryQt.Session.Truncated

/-!
# A checkpoint that fails

`session_save` writes over the file of the last checkpoint. Every write is checked, the end of the file
is not: `fclose` writes what is still buffered, and its result is dropped.

* `sessionHeaderCalls`, `sessionNodeCalls`, `sessionCalls`: the writes of `session_save`, in order;
* `flatten_sessionHeaderCalls`, `flatten_sessionNodesCalls`: together they write the file;
* `sessionSaveFile`: the file after a save whose writes may fail, and the result;
* `SavesAtomically`: a save that fails leaves the earlier session, and one that succeeds the new one;
* **`savesAtomically_iff`**: it does exactly when the file cannot be opened or nothing fails.
-/

namespace RecoveryQt

open List

/-! ## The writes -/

/-- The writes of the fixed part of the header. -/
def sessionFieldCalls (a : SessionArgs) : List (List UInt8) :=
  [sessionMagic, leBytes 4 sessionVersion.toNat, leBytes 4 a.flags.toNat, leBytes 4 a.opType.toNat,
    leBytes 8 a.now.toNat, leBytes 8 a.progress1.toNat, leBytes 8 a.progress2.toNat,
    leBytes 4 a.resumePhase.toNat, leBytes 8 a.resumeOffset.toNat, leBytes 4 a.sectorSize.toNat,
    leBytes 8 a.diskSize.toNat, leBytes 8 a.partOffset.toNat, leBytes 8 a.partSize.toNat,
    leBytes 4 a.upartType.toNat, leBytes 4 a.partTypeI386.toNat,
    leBytes 4 (if a.luksDecrypted then 1 else 0),
    leBytes 8 (if a.luksDecrypted then a.partOffset.toNat else 0),
    leBytes 2 (cut16 a.device.bytes).length, leBytes 2 (sessionModel a.model.bytes).length,
    leBytes 2 (cut16 a.extFilter.bytes).length, leBytes 2 0]

/-- The writes of the header: the fixed part, the strings that are not empty, and the padding. -/
def sessionHeaderCalls (a : SessionArgs) : List (List UInt8) :=
  sessionFieldCalls a ++
  [cut16 a.device.bytes, sessionModel a.model.bytes, cut16 a.extFilter.bytes].filter (· ≠ []) ++
  replicate (roundUp8 (sessionHeaderEnd + (sessionStrings a).length) -
    (sessionHeaderEnd + (sessionStrings a).length)) [0]

/-- The writes of a node. -/
def sessionNodeCalls (e : SessionEntry) (clusters : List UInt64) : List (List UInt8) :=
  [leBytes 2 e.path.length, [e.flags], leBytes 8 e.size.toNat, leBytes 8 e.firstSector.toNat,
    leBytes 8 e.numSectors.toNat, leBytes 8 e.mtime.toNat, leBytes 4 e.sectorSize.toNat,
    leBytes 4 e.clusterCount.toNat, leBytes 4 e.clusterSize.toNat, cut16 e.path] ++
  clusters.map fun c => leBytes 8 c.toNat

/-- The writes of `session_write_node_rec` for the siblings below the path `up`. -/
def sessionNodesCalls (up : List Name) : Forest Name NodeInfo → List (List UInt8)
  | .nil => []
  | .cons n x ch nx =>
    (if (treeGetPath (up ++ [n])).length % 65536 = 0 then []
    else sessionNodeCalls (sessionEntry (treeGetPath (up ++ [n])) x) x.clusters.list ++
      if x.isDir then sessionNodesCalls (up ++ [n]) ch else []) ++ sessionNodesCalls up nx

/-- The writes behind the header: the tree and the terminator. -/
def sessionTreeCalls (t : ScanTree) : List (List UInt8) := sessionNodesCalls [] t.top ++ [sessionEnd]

/-- The writes of `session_save`. -/
def sessionCalls (a : SessionArgs) (t : ScanTree) : List (List UInt8) :=
  sessionHeaderCalls a ++ sessionTreeCalls t

theorem flatten_sessionHeaderCalls (a : SessionArgs) :
    (sessionHeaderCalls a).flatten = writeSessionHeader a := by
  have hfields : (sessionFieldCalls a).flatten = sessionHeaderBytes a := by
    rw [sessionFieldCalls, sessionHeaderBytes]
    simp only [flatten_cons, flatten_nil, List.append_nil]
  have hstrings : ([cut16 a.device.bytes, sessionModel a.model.bytes,
      cut16 a.extFilter.bytes].filter (· ≠ [])).flatten = sessionStrings a := by
    rw [flatten_filter_ne_nil, sessionStrings]
    simp only [flatten_cons, flatten_nil, List.append_nil]
  rw [sessionHeaderCalls, flatten_append, flatten_append, hfields, hstrings,
    flatten_replicate_singleton, writeSessionHeader]

theorem sessionHeaderCalls_ne_nil (a : SessionArgs) : ∀ w ∈ sessionHeaderCalls a, w ≠ [] := by
  intro w hw
  rw [sessionHeaderCalls, mem_append, mem_append] at hw
  rcases hw with (hw | hw) | hw
  · have hfields : ∀ v ∈ sessionFieldCalls a, v ≠ [] := by
      simp [sessionFieldCalls, sessionMagic, leBytes]
    exact hfields w hw
  · simpa using (mem_filter.mp hw).2
  · rw [eq_of_mem_replicate hw]
    exact cons_ne_nil _ _

theorem flatten_sessionNodeCalls (path : List UInt8) (x : NodeInfo) :
    (sessionNodeCalls (sessionEntry path x) x.clusters.list).flatten = writeNode path x := by
  rw [sessionNodeCalls, flatten_append, writeNode, writeSessionEntry, sessionEntryBytes, flatMap_def]
  simp only [flatten_cons, flatten_nil, append_assoc, List.append_nil, cons_append, nil_append]

theorem flatten_sessionNodesCalls (up : List Name) (f : Forest Name NodeInfo) :
    (sessionNodesCalls up f).flatten = writeNodes up f := by
  induction f generalizing up with
  | nil => rfl
  | cons n x ch nx ihc ihn =>
    have hchildren : (if x.isDir then sessionNodesCalls (up ++ [n]) ch else []).flatten =
        if x.isDir then writeNodes (up ++ [n]) ch else [] := by
      split_ifs
      · exact ihc (up ++ [n])
      · rfl
    rw [sessionNodesCalls, writeNodes, flatten_append, ihn]
    by_cases hpath : (treeGetPath (up ++ [n])).length % 65536 = 0
    · rw [if_pos hpath, if_pos hpath, flatten_nil]
    · rw [if_neg hpath, if_neg hpath, flatten_append, flatten_sessionNodeCalls, hchildren]

/-- **The writes make up the file.** -/
theorem flatten_sessionCalls (a : SessionArgs) (t : ScanTree) :
    (sessionCalls a t).flatten = sessionSave a t := by
  rw [sessionCalls, sessionTreeCalls, flatten_append, flatten_append, flatten_sessionHeaderCalls,
    flatten_sessionNodesCalls]
  simp [sessionSave]

/-! ## The file after a save -/

/-- `session_save`: the file that is left of the one that was there, if any, and whether it returns `0`.
The file is removed when the tree or the terminator cannot be written, and left as it is when the header
cannot. -/
def sessionSaveFile (f : StreamFaults) (a : SessionArgs) (t : ScanTree) (earlier : Option (List UInt8)) :
    Option (List UInt8) × Bool :=
  if f.opens = false then (earlier, false)
  else
    let header := writeCalls f.fails (sessionHeaderCalls a)
    if header.2 = false then (some (header.1.take f.kept), false)
    else
      let tree := writeCalls (fun n => f.fails ((sessionHeaderCalls a).length + n)) (sessionTreeCalls t)
      if tree.2 = false then (none, false)
      else (some ((header.1 ++ tree.1).take f.kept), true)

/-- A save that fails leaves the earlier file, and one that succeeds leaves the new session. -/
def SavesAtomically (f : StreamFaults) (a : SessionArgs) (t : ScanTree) (earlier : List UInt8) : Prop :=
  ((sessionSaveFile f a t (some earlier)).2 = false →
    (sessionSaveFile f a t (some earlier)).1 = some earlier) ∧
  ((sessionSaveFile f a t (some earlier)).2 = true →
    (sessionSaveFile f a t (some earlier)).1 = some (sessionSave a t))

/-- Nothing fails behind `fopen`. -/
def StreamFaults.Completes (f : StreamFaults) (a : SessionArgs) (t : ScanTree) : Prop :=
  (∀ n < (sessionCalls a t).length, f.fails n = false) ∧ (sessionSave a t).length ≤ f.kept

variable {f : StreamFaults} (a : SessionArgs) (t : ScanTree)

/-- The header and the tree are both written when no write fails. -/
theorem writeCalls_session_iff : (∀ n < (sessionCalls a t).length, f.fails n = false) ↔
    (writeCalls f.fails (sessionHeaderCalls a)).2 = true ∧
      (writeCalls (fun n => f.fails ((sessionHeaderCalls a).length + n)) (sessionTreeCalls t)).2 =
        true := by
  rw [writeCalls_ok_iff, writeCalls_ok_iff, sessionCalls, length_append]
  constructor
  · exact fun h => ⟨fun n hn => h n (by omega), fun n hn => h _ (by omega)⟩
  · rintro ⟨hheader, htree⟩ n hn
    rcases lt_or_ge n (sessionHeaderCalls a).length with hlt | hge
    · exact hheader n hlt
    · have := htree (n - (sessionHeaderCalls a).length) (by omega)
      rwa [Nat.add_sub_cancel' hge] at this

/-- A header that was cut is no session. -/
theorem cut_header_ne {p : List UInt8} (hp : p <+: writeSessionHeader a)
    (hlen : p.length < (writeSessionHeader a).length) (a₀ : SessionArgs) (t₀ : ScanTree) :
    p ≠ sessionSave a₀ t₀ := by
  rintro rfl
  have hnone : readSessionHeader (sessionSave a₀ t₀) = none := by
    apply (readSessionHeader_truncated_iff a (s := []) ?_).mpr hlen
    rwa [List.append_nil]
  rw [sessionSave, readSessionHeader_write] at hnone
  cases hnone

/-- **A save keeps the session that was there, or leaves the new one**, exactly when the file cannot be
opened, or no write fails and what was written is in the file when it is closed. -/
theorem savesAtomically_iff (f : StreamFaults) (a : SessionArgs) (t : ScanTree) (a₀ : SessionArgs)
    (t₀ : ScanTree) : SavesAtomically f a t (sessionSave a₀ t₀) ↔ f.opens = false ∨ f.Completes a t := by
  rw [SavesAtomically, sessionSaveFile]
  cases hopens : f.opens with
  | false => simp
  | true =>
    rw [if_neg (by simp), StreamFaults.Completes, writeCalls_session_iff]
    dsimp only
    cases hheader : (writeCalls f.fails (sessionHeaderCalls a)).2 with
    | false =>
      -- the header is cut, and the file stays
      rw [if_pos rfl]
      obtain ⟨hpre, hlen⟩ := writeCalls_cut (sessionHeaderCalls_ne_nil a) hheader
      rw [flatten_sessionHeaderCalls] at hpre hlen
      have htake : (writeCalls f.fails (sessionHeaderCalls a)).1.take f.kept <+:
          (writeCalls f.fails (sessionHeaderCalls a)).1 := take_prefix _ _
      have hcut : (writeCalls f.fails (sessionHeaderCalls a)).1.take f.kept ≠ sessionSave a₀ t₀ := by
        apply cut_header_ne a (htake.trans hpre)
        rw [length_take]
        exact (Nat.min_le_right _ _).trans_lt hlen
      simp [hcut]
    | true =>
      rw [if_neg (by simp), writeCalls_flatten hheader, flatten_sessionHeaderCalls]
      cases htree : (writeCalls (fun n => f.fails ((sessionHeaderCalls a).length + n))
          (sessionTreeCalls t)).2 with
      | false => simp
      | true =>
        have hall : writeSessionHeader a ++ (sessionTreeCalls t).flatten = sessionSave a t := by
          rw [← flatten_sessionCalls, sessionCalls, flatten_append, flatten_sessionHeaderCalls]
        rw [if_neg (by simp), writeCalls_flatten htree, hall]
        simp

/-! ## A disk that is full -/

/-- The first write fails. -/
def fullDisk : StreamFaults := ⟨true, fun _ => true, 0⟩

/-- The buffer takes every write, and cannot be written when the file is closed. -/
def lateFullDisk : StreamFaults := ⟨true, fun _ => false, 0⟩

/-- The earlier session is lost when the disk is full, and a save that leaves nothing in the file
succeeds. -/
theorem fullDisk_not_savesAtomically :
    ¬ SavesAtomically fullDisk carveArgs oneFile (sessionSave carveArgs treeNew) ∧
      ¬ SavesAtomically lateFullDisk carveArgs oneFile (sessionSave carveArgs treeNew) := by
  have hne : ∀ t, some [] ≠ some (sessionSave carveArgs t) := by
    intro t h
    have hnil := (append_eq_nil_iff.mp (Option.some.inj h).symm).2
    exact absurd (append_eq_nil_iff.mp hnil).2 (by decide)
  have hfull : sessionSaveFile fullDisk carveArgs oneFile (some (sessionSave carveArgs treeNew)) =
      (some [], false) := rfl
  have hlate : sessionSaveFile lateFullDisk carveArgs oneFile (some (sessionSave carveArgs treeNew)) =
      (some [], true) := by
    obtain ⟨hheader, htree⟩ := (writeCalls_session_iff (f := lateFullDisk) carveArgs oneFile).mp
      fun _ _ => rfl
    rw [sessionSaveFile, if_neg (by simp [lateFullDisk])]
    dsimp only
    rw [hheader, if_neg (by simp), htree, if_neg (by simp)]
    rfl
  constructor
  · rintro ⟨hfail, -⟩
    rw [hfull] at hfail
    exact hne treeNew (hfail rfl)
  · rintro ⟨-, hok⟩
    rw [hlate] at hok
    exact hne oneFile (hok rfl)

end RecoveryQt
