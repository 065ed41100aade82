import RecoveryQt.Window.Volumes

/-!
# A session finds its partition again

A session may be begun on an entry of the table, on the whole disk or on a ghost; `onContinueSession`
looks for it in the table only, by offset and size.

* `SessionPartOf`, **`sessionPartOf_choosePart`**: the partitions on which a session may be begun;
* `FindsAgain`: after the session is saved and loaded it is resumed on the same volume;
* **`findsAgain_iff`**: this is so exactly if the device path opens the disk and the table has such an
  entry with no other of that offset and size before it;
* `ghost_not_findsAgain`, `wholeDisk_findsAgain`: never for a ghost, and for the whole disk if there is no
  table.
-/

namespace RecoveryQt

open List

variable {D : Type*} (env : DiskEnv D)

/-- A partition on which a session may be begun: an entry of the table, the whole disk, or a ghost. -/
inductive SessionPartOf (d : D) (p : Part) : Prop where
  | entry (h : p ∈ detectPartitions env d)
  | wholeDisk (h : p = wholeDiskPartition env d)
  | ghost (h : matchesKnownPartition (detectPartitions env d) (env.info d).sectorSize p = false)

/-- A handler chooses one of them. -/
theorem sessionPartOf_choosePart {s : Window D} (h : s.Synced env) {d : D} (hd : s.currentDisk = some d)
    {idx : ℤ} {p : Part} {encrypted : Bool} (hp : s.choosePart env idx = some (p, encrypted)) :
    SessionPartOf env d p := by
  unfold Window.choosePart at hp
  split_ifs at hp with hwhole
  · rw [hd, Option.map_some] at hp
    cases hp
    exact .wholeDisk rfl
  · obtain ⟨i, hi, hp⟩ := Option.bind_eq_some_iff.mp hp
    obtain ⟨p', hp', hpair⟩ := Option.map_eq_some_iff.mp hp
    cases hpair
    obtain ⟨hlist, ghosts, hparts, hunknown⟩ := h.2 d hd
    split_ifs at hp' with hghost
    · cases hp'
      unfold Window.infoAt at hi
      split_ifs at hi with hidx
      have hmem := mem_of_getElem? hi
      rw [hparts, mem_append] at hmem
      obtain hmem | hmem := hmem
      · obtain ⟨q, -, rfl⟩ := mem_map.mp hmem
        cases hghost
      · obtain ⟨g, hg, rfl⟩ := mem_map.mp hmem
        exact .ghost (hunknown g hg)
    · unfold Window.rawAt at hp'
      split_ifs at hp' with hidx
      rw [hlist] at hp'
      exact .entry (mem_of_getElem? hp')

/-- What `onContinueSession` resumes the session on. -/
def resumeTarget (h : SessionHeader) (unlocked : Option D) : Option (D × Part) :=
  (sessionDisk env h unlocked).bind fun d =>
    if h.resumes then (matchingPart env h d).map fun p => (d, p) else none

/-- The tree is filled further from there. -/
theorem onContinueSession_of_resumeTarget {h : SessionHeader} {unlocked : Option D} {d : D} {p : Part}
    (htarget : resumeTarget env h unlocked = some (d, p)) (s : Window D) :
    (s.onContinueSession env h unlocked).currentDisk = some d ∧
      (s.onContinueSession env h unlocked).scanTree = some [(d, h.key), (d, p.key)] := by
  obtain ⟨d', hdisk, htarget⟩ := Option.bind_eq_some_iff.mp htarget
  split_ifs at htarget with hresumes
  obtain ⟨p', hp, hpair⟩ := Option.map_eq_some_iff.mp htarget
  cases hpair
  simp only [Window.onContinueSession, hdisk, hp, hresumes, if_true, Window.openDisk, and_self]

/-- What the user gives to `beginSession`, for the partition of the disk. -/
def sessionRequest (d : D) (p : Part) (filepath : CString) (tree : ℕ) (extFilter : CString) :
    SessionRequest := ⟨filepath, tree, env.info d, p.toSessionPart, extFilter⟩

/-- A save of the session before the operation has ended. -/
def sessionCheckpoint (r : SessionRequest) (carve : Bool) (progress1 progress2 : UInt64) : SessionSave :=
  ⟨r.saveCtx (if carve then sessionOpCarve else sessionOpDeepScan), progress1, progress2, 0, none⟩

/-- The file is loaded, and the session is resumed on the disk and on a partition like the given one. -/
def FindsAgain (d : D) (p : Part) (file : List UInt8) : Prop :=
  ∃ info, sessionLoad file = some info ∧ ∃ q, resumeTarget env info.header none = some (d, q) ∧
    q.key = p.key

section Checkpoint

variable (d : D) (p : Part) (filepath extFilter : CString) (tree : ℕ) (carve : Bool)
  (progress1 progress2 now : UInt64)

/-- The arguments of the save. -/
def checkpointArgs : SessionArgs :=
  (sessionCheckpoint (sessionRequest env d p filepath tree extFilter) carve progress1 progress2).args now

/-- The device path as it is loaded. -/
def loadedDevice : CString := CString.ofBuffer (cut16 (env.info d).device.bytes)

theorem resumes_checkpoint : (checkpointArgs env d p filepath extFilter tree carve progress1 progress2
    now).loaded.resumes = true := by
  have hcompleted : ¬ (checkpointArgs env d p filepath extFilter tree carve progress1 progress2
      now).loaded.completed := by
    show ¬ (0 : UInt32) &&& sessionFlagCompleted ≠ 0
    decide
  have hop : (checkpointArgs env d p filepath extFilter tree carve progress1 progress2 now).loaded.opType =
      if carve then sessionOpCarve else sessionOpDeepScan := rfl
  rw [SessionHeader.resumes, hop, decide_eq_true_iff]
  refine ⟨hcompleted, ?_⟩
  cases carve
  · exact .inr rfl
  · exact .inl rfl

/-- The session is looked for on the disk behind the device path. -/
theorem resumeTarget_checkpoint : resumeTarget env (checkpointArgs env d p filepath extFilter tree carve
    progress1 progress2 now).loaded none = (env.openDevice (loadedDevice env d)).bind fun d' =>
      ((detectPartitions env d').find? fun q =>
        q.partOffset = p.partOffset && q.partSize = p.partSize).map fun q => (d', q) := by
  have hplain : ¬ (checkpointArgs env d p filepath extFilter tree carve progress1 progress2
      now).loaded.luksDecrypted := by
    show ¬ (0 : UInt32) &&& 8 ≠ 0
    decide
  rw [resumeTarget, sessionDisk, resumes_checkpoint]
  show ((env.openDevice (loadedDevice env d)).bind _).bind _ = _
  rw [Option.bind_assoc]
  congr 1
  funext d'
  rw [if_neg hplain, Option.bind_some, if_pos rfl]
  rfl

/-- A session is resumed on its own partition exactly if its device path opens its disk, and the table of
the disk has an entry with the partition's offset, size and type and none before it that shares the offset
and the size. -/
theorem findsAgain_iff (t : ScanTree) : FindsAgain env d p (sessionSave (checkpointArgs env d p filepath
    extFilter tree carve progress1 progress2 now) t) ↔
      env.openDevice (loadedDevice env d) = some d ∧
        ∃ before q after, detectPartitions env d = before ++ q :: after ∧ q.key = p.key ∧
          ∀ r ∈ before, ¬ (r.partOffset = p.partOffset ∧ r.partSize = p.partSize) := by
  have hload := sessionLoad_header (checkpointArgs env d p filepath extFilter tree carve progress1 progress2
    now) (writeNodes [] t.top ++ sessionEnd)
  have hfind : FindsAgain env d p (sessionSave (checkpointArgs env d p filepath extFilter tree carve
      progress1 progress2 now) t) ↔ ∃ q, ((env.openDevice (loadedDevice env d)).bind fun d' =>
      ((detectPartitions env d').find? fun q =>
        q.partOffset = p.partOffset && q.partSize = p.partSize).map fun q => (d', q)) = some (d, q) ∧
        q.key = p.key := by
    rw [← resumeTarget_checkpoint env d p filepath extFilter tree carve progress1 progress2 now]
    constructor
    · rintro ⟨info, hload', h⟩
      obtain rfl := Option.some.inj (hload.symm.trans hload')
      exact h
    · exact fun h => ⟨_, hload, h⟩
  rw [hfind]
  constructor
  · rintro ⟨q, hq, hkey⟩
    obtain ⟨d', hopen, hq⟩ := Option.bind_eq_some_iff.mp hq
    obtain ⟨q', hq, hpair⟩ := Option.map_eq_some_iff.mp hq
    cases hpair
    obtain ⟨-, before, after, hlist, hbefore⟩ := find?_eq_some_iff_append.mp hq
    refine ⟨hopen, before, q, after, hlist, hkey, fun r hr heq => ?_⟩
    simpa [heq.1, heq.2] using hbefore r hr
  · rintro ⟨hopen, before, q, after, hlist, hkey, hbefore⟩
    have hoffset : q.partOffset = p.partOffset := congrArg PartKey.partOffset hkey
    have hsize : q.partSize = p.partSize := congrArg PartKey.partSize hkey
    refine ⟨q, ?_, hkey⟩
    rw [hopen, Option.bind_some, find?_eq_some_iff_append.mpr ⟨?_, before, after, hlist, ?_⟩, Option.map_some]
    · rw [hoffset, hsize, decide_eq_true rfl, decide_eq_true rfl, Bool.and_self]
    · intro r hr
      rw [Bool.not_eq_true', Bool.and_eq_false_iff, decide_eq_false_iff_not, decide_eq_false_iff_not]
      exact Classical.not_and_iff_not_or_not.mp (hbefore r hr)

/-- **A ghost is not found.** Its offset is not that of an entry. -/
theorem ghost_not_findsAgain (hghost : matchesKnownPartition (detectPartitions env d)
    (env.info d).sectorSize p = false) (t : ScanTree) : ¬ FindsAgain env d p (sessionSave (checkpointArgs
      env d p filepath extFilter tree carve progress1 progress2 now) t) := by
  rw [findsAgain_iff]
  rintro ⟨-, before, q, after, hlist, hkey, -⟩
  have hoffset : q.partOffset = p.partOffset := congrArg PartKey.partOffset hkey
  have hq : q ∈ detectPartitions env d := hlist ▸ mem_append_right _ mem_cons_self
  have hfar := any_eq_false.mp hghost q hq
  rw [hoffset] at hfar
  simp at hfar

/-- **The whole disk is found** where there is no table and no LUKS container at its start. -/
theorem wholeDisk_findsAgain (hopen : env.openDevice (loadedDevice env d) = some d)
    (htable : env.readPart d = []) (hluks : env.checkLuks d 0 = false) (t : ScanTree) :
    FindsAgain env d (wholeDiskPartition env d) (sessionSave (checkpointArgs env d
      (wholeDiskPartition env d) filepath extFilter tree carve progress1 progress2 now) t) := by
  have hlist : detectPartitions env d = [wholeDiskPartition env d] := by
    rw [detectPartitions, htable, map_nil]
    show [checkPartitionLuks env d (wholeDiskPartition env d)] = _
    rw [checkPartitionLuks, if_neg]
    rw [show (wholeDiskPartition env d).partOffset = 0 from rfl, hluks]
    exact Bool.false_ne_true
  rw [findsAgain_iff]
  exact ⟨hopen, [], _, [], hlist, rfl, nofun⟩

end Checkpoint

/-! ## A ghost behind the partitions -/

/-- A partition that a search finds at the end of the disk. -/
def ghostPart : Part := ⟨⟨4194304, 1048576, 0, 0⟩, []⟩

theorem ghostPart_not_findsAgain : SessionPartOf twoParts () ghostPart ∧
    ¬ FindsAgain twoParts () ghostPart (sessionSave (checkpointArgs twoParts () ghostPart
      sessionFile jpegFilter 0 true 524288 0 0) treeNew) := by
  have hghost : matchesKnownPartition (detectPartitions twoParts ()) (twoParts.info ()).sectorSize
      ghostPart = false := by decide
  exact ⟨.ghost hghost, ghost_not_findsAgain _ _ _ _ _ _ _ _ _ _ hghost _⟩

end RecoveryQt
