import RecoveryQt.Restore.Destination

/-!
# Where restored files stay

A file is restored below the destination, unless the names of its path lead out of it: nothing takes
a `..` from the tree or from the paths.

* `Inside`: names that lead below the directory they start in;
* `Contained`, **`restoresContained_iff`**: when the paths built for the files of a tree do;
* `dotDotTree`: a session file with a name `..`.
-/

namespace RecoveryQt

open List

/-- The names lead below the directory `q` where they start. They may climb above it only to come
back by the names of the directories that they left, and some name is behind that. -/
def Inside (q l : List Name) : Prop :=
  Below (q.drop (q.length - (route Name.IsDot Name.IsDotDot l).climb))
    (route Name.IsDot Name.IsDotDot l).down

/-- Names without `.` and `..` stay inside. -/
theorem inside_of_plain {l : List Name} (hl : ∀ n ∈ l, ¬ n.IsDots) (hne : l ≠ []) (q : List Name) :
    Inside q l := by
  have hroute : route Name.IsDot Name.IsDotDot l = ⟨0, l⟩ :=
    route_of_plain fun n hn => not_or.mp (hl n hn)
  rw [Inside, ← Route.below_iff, hroute, Route.below_of_climb rfl]
  exact hne

section Paths

variable (cwd : List Name) (destDir : DestDir)

/-- A file of `restore_orphan`: the names that have room behind the destination lead below it. A
destination that fills the buffer is cut itself. -/
def OrphanContained (path : List Name) : Prop :=
  if destDir.bytes.length < pathMax then
    Inside (target cwd destDir.bytes) (keptPath (pathMax - 1 - destDir.bytes.length) path).names
  else Below (target cwd destDir.bytes) (target cwd (destDir.bytes.take (pathMax - 1)))

/-- A file of `fopen_local`: so do the names in `current_directory`, with the last one stripped, and,
when that path cannot be opened, without. -/
def LocalContained (a : Answers) (path : List Name) : Prop :=
  Inside (target cwd destDir.bytes) (keptPath (dirNameLen - 1) path).strip ∧
    (a.first = false → Inside (target cwd destDir.bytes) (keptPath (dirNameLen - 1) path).names)

/-- The names of a file keep it below the destination. -/
def Contained (a : Answers) (f : FileAt) : Prop :=
  if f.info.raw then OrphanContained cwd destDir f.path
  else a.called = true → LocalContained cwd destDir a f.path

theorem below_orphanPath_iff (path : List Name) :
    Below (target cwd destDir.bytes) (target cwd (orphanPath destDir path)) ↔
      OrphanContained cwd destDir path := by
  unfold OrphanContained
  split_ifs with hroom
  · rw [target_orphanPath cwd destDir path hroom, Route.below_iff]
    rfl
  · have hcut : orphanPath destDir path = destDir.bytes.take (pathMax - 1) :=
      take_append_of_le_length (by omega)
    rw [hcut]

theorem below_fopenLocal_iff (a : Answers) (path : List Name) :
    (∀ s ∈ fopenLocal a.einval a.first a.second destDir.bytes (currentDirectory path),
        Below (target cwd destDir.bytes) (target cwd s)) ↔
      LocalContained cwd destDir a path := by
  have hstrip : Below (target cwd destDir.bytes)
      (target cwd (stripFn (destDir.bytes ++ currentDirectory path))) ↔
        Inside (target cwd destDir.bytes) (keptPath (dirNameLen - 1) path).strip := by
    rw [target_stripFn, Route.below_iff]
    rfl
  have hplain : Below (target cwd destDir.bytes)
      (target cwd (destDir.bytes ++ currentDirectory path)) ↔
        Inside (target cwd destDir.bytes) (keptPath (dirNameLen - 1) path).names := by
    rw [target_localPath, Route.below_iff]
    rfl
  rw [LocalContained, ← hstrip, ← hplain]
  constructor
  · intro h
    exact ⟨h _ ((mem_fopenLocal (currentDirectory_ne_nil path)).mpr (.inl rfl)), fun hfirst =>
      h _ ((mem_fopenLocal (currentDirectory_ne_nil path)).mpr (.inr ⟨hfirst, rfl⟩))⟩
  · intro h s hs
    rcases (mem_fopenLocal (currentDirectory_ne_nil path)).mp hs with rfl | ⟨hfirst, rfl⟩
    · exact h.1
    · exact h.2 hfirst

/-- **The paths built for a file** lead below the destination when its names do. -/
theorem below_builtPaths_iff (a : Answers) (f : FileAt) :
    (∀ s ∈ builtPaths destDir a f, Below (target cwd destDir.bytes) (target cwd s)) ↔
      Contained cwd destDir a f := by
  unfold builtPaths Contained
  split_ifs with hraw hcalled
  · rw [forall_mem_singleton]
    exact below_orphanPath_iff cwd destDir f.path
  · rw [below_fopenLocal_iff]
    exact (imp_iff_right hcalled).symm
  · exact iff_of_true (fun s hs => absurd hs not_mem_nil) fun h => absurd h hcalled

end Paths

/-- Every path that the call builds for a file of the tree leads below the destination. -/
def RestoresContained (cwd : List Name) (destDir : DestDir) (answers : FileAt → Answers)
    (t : ScanTree) (call : RestoreCall) : Prop :=
  ∀ f ∈ call.restored t, ∀ s ∈ builtPaths destDir (answers f) f,
    Below (target cwd destDir.bytes) (target cwd s)

/-- **Restored files stay below the destination** exactly when the names of each of them keep it
there. -/
theorem restoresContained_iff (cwd : List Name) (destDir : DestDir) (answers : FileAt → Answers)
    (t : ScanTree) (call : RestoreCall) :
    RestoresContained cwd destDir answers t call ↔
      ∀ f ∈ call.restored t, Contained cwd destDir (answers f) f :=
  forall₂_congr fun f _ => below_builtPaths_iff cwd destDir (answers f) f

/-! ## A name that leads out -/

/-- A marked file of one sector without a filesystem. -/
def dotDotNode : NodeInfo :=
  { nodeAlloc ⟨false, 512, 0x100000, 1, 0, 512, false⟩ with marked := true, orphan := true }

/-- The tree of a session file with the path `/../../x`. -/
def dotDotTree : ScanTree :=
  sessionReadTree (writeNode [47, 46, 46, 47, 46, 46, 47, 120] dotDotNode ++ sessionEnd) treeNew

/-- **The file is restored to `/x`.** -/
theorem dotDotTree_not_contained :
    ¬ RestoresContained [] dirD (fun _ => opensAll) dotDotTree .files := by
  have hload : dotDotTree = treeNew.load [47, 46, 46, 47, 46, 46, 47, 120] dotDotNode := by
    rw [dotDotTree, sessionReadTree_writeNode (by decide) (by decide), sessionReadTree_sessionEnd]
  intro h
  rw [hload] at h
  revert h
  unfold RestoresContained
  decide

end RecoveryQt
