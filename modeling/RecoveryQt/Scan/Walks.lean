import RecoveryQt.Scan.Run
import RecoveryQt.Lib.GraphWalk

/-!
# The walks of a volume, on any directory graph

* `scanWalker`, `backupDirWalker`, `countWalker`, `liveWalker`: `scan_dir_recursive`, `backup_walk_dir`,
  `count_live_files` and `backup_walk_live` as walks that descend on their own;
* `scanDirRecursive_runs`, `LiveFs.walk_runs`: they compute the functions of a scan and of a backup;
* `SafeWalk`: a walk ends, and reads no directory below itself; `runs_safe`;
* `countWalker_eq`, `liveWalker_le`: what the two passes of a comparison come to;
* **`walks_safe`**: all four, and the room in the array of the second pass.
-/

namespace RecoveryQt

open List Walker

/-- The inode of a directory. -/
def FileInfo.dirInode (fi : FileInfo) : Option ℕ := if fi.isDir then some fi.stIno else none

/-- `scan_dir_recursive`, on the items that are added to the tree. -/
def scanWalker (v : ScanVolume) : Walker FileInfo (List UInt8) (List ScanItem) where
  maxDepth := 256
  list := v.getDir
  skips fi := fi.isDir && fi.isDots
  dir := FileInfo.dirInode
  below path fi := joinPath path fi.name
  emit items path fi := some (items ++ [fi.scanItem v.sectorSize path])
  strict := false

/-- `backup_walk_dir`, on the entries that are written. -/
def backupDirWalker (fs : LiveFs) : Walker FileInfo (List UInt8) (List (List UInt8 × FileInfo)) where
  maxDepth := backupMaxDepth
  list := fs.getDir
  skips := FileInfo.skipped
  dir := FileInfo.dirInode
  below path fi := joinPath path fi.name
  emit entries path fi := some (entries ++ [(path, fi)])
  strict := false

/-- `count_live_files`, on `count` and `total_size`. -/
def countWalker (fs : LiveFs) : Walker FileInfo (List UInt8) (UInt32 × UInt64) where
  maxDepth := backupMaxDepth
  list := fs.getDir
  skips := FileInfo.skipped
  dir := FileInfo.dirInode
  below path fi := joinPath path fi.name
  emit counts _ fi := some (counts.1 + 1, if fi.isDir then counts.2 else counts.2 + fi.stSize)
  strict := false

/-- `backup_walk_live`, on the filled part of `path_array`. -/
def liveWalker (fs : LiveFs) (pathCapacity : UInt32) :
    Walker FileInfo (List UInt8) (List (List UInt8 × FileInfo)) where
  maxDepth := backupMaxDepth
  list := fs.getDir
  skips := FileInfo.skipped
  dir := FileInfo.dirInode
  below path fi := joinPath path fi.name
  emit entries path fi := if pathCapacity.toNat ≤ entries.length then none else some (entries ++ [(path, fi)])
  strict := true

/-! ## The functions of a scan and of a backup -/

theorem dirInode_eq_some_iff {fi : FileInfo} {inode : ℕ} :
    fi.dirInode = some inode ↔ fi.isDir = true ∧ fi.stIno = inode := by
  simp [FileInfo.dirInode]

/-- The rule of all four walks for a directory. -/
theorem enters_iff {γ σ : Type*} {w : Walker FileInfo γ σ} (hw : w.dir = FileInfo.dirInode) {known : List ℕ}
    {fi : FileInfo} : (∃ inode, w.Enters known fi inode) ↔ fi.isDir = true ∧ fi.stIno ∉ known := by
  simp only [Enters, hw, dirInode_eq_some_iff]
  exact ⟨fun ⟨_, ⟨hdir, heq⟩, hnot⟩ => ⟨hdir, heq ▸ hnot⟩, fun h => ⟨_, ⟨h.1, rfl⟩, h.2⟩⟩

/-- The loop over a directory, when the walks into deeper ones find what they are to. -/
theorem dirEntries_runs {β : Type*} {w : Walker FileInfo (List UInt8) (List β)} {item : List UInt8 → FileInfo → β}
    (hw : w.dir = FileInfo.dirInode) (hemit : ∀ s path fi, w.emit s path fi = some (s ++ [item path fi]))
    (hstrict : w.strict = false) {known : List ℕ} {f : List UInt8 → ℕ → List β}
    (hnested : ∀ path inode s, ∃ ok visits, w.Runs (.dir known path inode) s ok (s ++ f path inode) visits)
    (path : List UInt8) (l : List FileInfo) (s : List β) : ∃ ok visits, w.Runs (.entries known path l) s ok
      (s ++ l.flatMap fun fi => if w.skips fi then [] else item (w.below path fi) fi ::
        if fi.isDir ∧ fi.stIno ∉ known then f (w.below path fi) fi.stIno else []) visits := by
  refine entries_flatMap hemit hstrict (fun fi inode henters s => ?_) (fun fi hstays => ?_) l s
  · obtain ⟨hdir, hnot⟩ := (enters_iff hw).mp ⟨inode, henters⟩
    have hinode := henters.1
    rw [hw, dirInode_eq_some_iff] at hinode
    rw [if_pos ⟨hdir, hnot⟩, hinode.2]
    exact hnested (w.below path fi) inode s
  · exact if_neg fun henters => not_exists.mpr hstays ((enters_iff hw).mpr henters)

/-- **`scan_dir_recursive`** adds the items of the function of the scan. -/
theorem scanDirRecursive_runs (v : ScanVolume) {room : ℕ} {known : List ℕ} (hroom : known.length + room = 256)
    (path : List UInt8) (inode : ℕ) (s : List ScanItem) : ∃ ok visits,
      (scanWalker v).Runs (.dir known path inode) s ok (s ++ v.scanDirRecursive room known path inode) visits := by
  induction room generalizing known path inode s with
  | zero => exact ⟨_, _, by simpa [ScanVolume.scanDirRecursive] using Runs.deep (w := scanWalker v) hroom.ge⟩
  | succ room ih =>
    have hdepth : known.length < (scanWalker v).maxDepth := show known.length < 256 by omega
    rw [ScanVolume.scanDirRecursive]
    cases hlist : v.getDir inode with
    | none => exact ⟨_, _, by simpa using Runs.failed hdepth hlist⟩
    | some l =>
      have hroom' : (known ++ [inode]).length + room = 256 := by
        rw [length_append, length_singleton]
        omega
      obtain ⟨ok, visits, hrun⟩ := dirEntries_runs (w := scanWalker v) rfl (fun _ _ _ => rfl) rfl
        (fun path inode s => ih hroom' path inode s) path l s
      refine ⟨ok, (known, inode) :: visits, Runs.listed hdepth hlist ?_⟩
      simpa [scanWalker] using hrun

theorem mapM_some {α β : Type*} (f : α → β) (l : List α) : (l.mapM fun a => some (f a)) = some (l.map f) := by
  induction l with
  | nil => rfl
  | cons a l ih =>
    rw [mapM_cons, ih]
    rfl

/-- **`backup_walk_dir`** writes the entries of the walk of a backup. -/
theorem LiveFs.walk_runs (fs : LiveFs) {room : ℕ} {known : List ℕ} (hroom : known.length + room = backupMaxDepth)
    (path : List UInt8) (inode : ℕ) (s : List (List UInt8 × FileInfo)) : ∃ ok visits,
      (backupDirWalker fs).Runs (.dir known path inode) s ok (s ++ (fs.walk false room known path inode).getD [])
        visits := by
  induction room generalizing known path inode s with
  | zero => exact ⟨_, _, by simpa [LiveFs.walk] using Runs.deep (w := backupDirWalker fs) hroom.ge⟩
  | succ room ih =>
    have hdepth : known.length < (backupDirWalker fs).maxDepth := show known.length < backupMaxDepth by omega
    rw [LiveFs.walk]
    cases hlist : fs.getDir inode with
    | none => exact ⟨_, _, by simpa using Runs.failed hdepth hlist⟩
    | some l =>
      have hroom' : (known ++ [inode]).length + room = backupMaxDepth := by
        rw [length_append, length_singleton]
        omega
      obtain ⟨ok, visits, hrun⟩ := dirEntries_runs (w := backupDirWalker fs) rfl (fun _ _ _ => rfl) rfl
        (fun path inode s => ih hroom' path inode s) path l s
      refine ⟨ok, (known, inode) :: visits, Runs.listed hdepth hlist ?_⟩
      have hentry : ∀ fi : FileInfo, (if fi.skipped then some []
          else LiveFs.listEntry false (joinPath path fi.name) fi
            (if fi.isDir ∧ fi.stIno ∉ known ++ [inode] then
              fs.walk false room (known ++ [inode]) (joinPath path fi.name) fi.stIno
            else some [])) =
          some (if fi.skipped then []
            else (joinPath path fi.name, fi) ::
              if fi.isDir ∧ fi.stIno ∉ known ++ [inode] then
                (fs.walk false room (known ++ [inode]) (joinPath path fi.name) fi.stIno).getD []
              else []) := by
        intro fi
        rw [apply_ite some]
        refine if_congr Iff.rfl rfl ?_
        split_ifs
        · cases fs.walk false room (known ++ [inode]) (joinPath path fi.name) fi.stIno <;> rfl
        · rfl
      simp only [hentry, mapM_some, Option.map_some, Option.getD_some, ← flatMap_def]
      exact hrun

/-! ## Runs from the root -/

/-- A walk from a directory ends, and no directory that it reads is below itself or deeper than 255 others. -/
def SafeWalk {σ : Type*} (w : Walker FileInfo (List UInt8) σ) (inode : ℕ) (s : σ) : Prop :=
  ∃ ok s' visits, w.Runs (.dir [] rootPath inode) s ok s' visits ∧ ∀ v ∈ visits, v.2 ∉ v.1 ∧ v.1.Nodup ∧ v.1.length < 256

theorem runs_safe {σ : Type*} {w : Walker FileInfo (List UInt8) σ} (hw : w.maxDepth = 256) (inode : ℕ) (s : σ) :
    SafeWalk w inode s := by
  obtain ⟨ok, s', visits, hrun⟩ := runs_exists w [] rootPath inode s
  refine ⟨ok, s', visits, hrun, fun v hv => ?_⟩
  obtain ⟨-, hnodup, hnot, hdepth⟩ := visits_acyclic hrun ⟨nodup_nil, not_mem_nil⟩ v hv
  exact ⟨hnot, hnodup, hw ▸ hdepth⟩

variable (fs : LiveFs)

/-- `count_live_files` counts what `backup_walk_dir` writes, in 32 bits. -/
theorem countWalker_eq {inode : ℕ} {ok ok' : Bool} {counts : UInt32 × UInt64}
    {l : List (List UInt8 × FileInfo)} {visits visits' : List (List ℕ × ℕ)}
    (hc : (countWalker fs).Runs (.dir [] rootPath inode) (0, 0) ok counts visits)
    (hl : (backupDirWalker fs).Runs (.dir [] rootPath inode) [] ok' l visits') : counts.1 = UInt32.ofNat l.length := by
  let g : UInt32 × UInt64 → List UInt8 × FileInfo → UInt32 × UInt64 := fun counts e =>
    (counts.1 + 1, if e.2.isDir then counts.2 else counts.2 + e.2.stSize)
  have hfold := runs_foldl (w := countWalker fs) (g := g) (fun _ _ _ => rfl) rfl (0, 0) hl
  obtain ⟨-, rfl, -⟩ := runs_unique hc hfold
  have hcount : ∀ (l : List (List UInt8 × FileInfo)) (c : UInt32 × UInt64),
      (l.foldl g c).1 = c.1 + UInt32.ofNat l.length := by
    intro l
    induction l with
    | nil => exact fun c => (UInt32.add_zero _).symm
    | cons e l ih =>
      intro c
      rw [foldl_cons, ih, length_cons, UInt32.ofNat_add, UInt32.add_assoc, UInt32.add_comm (UInt32.ofNat l.length)]
      rfl
  rw [hcount, UInt32.zero_add]

/-- `backup_walk_live` fills no more of the array than there is, nor more than `backup_walk_dir` writes, and as much
when it succeeds. -/
theorem liveWalker_le {capacity : UInt32} {inode : ℕ} {ok ok' : Bool} {l l' : List (List UInt8 × FileInfo)}
    {visits visits' : List (List ℕ × ℕ)}
    (h : (liveWalker fs capacity).Runs (.dir [] rootPath inode) [] ok l visits)
    (hl : (backupDirWalker fs).Runs (.dir [] rootPath inode) [] ok' l' visits') :
    l.length ≤ capacity.toNat ∧ l <+: l' ∧ (ok = true → l = l') := by
  have hemit : ∀ s path fi s', (liveWalker fs capacity).emit s path fi = some s' →
      s.length < capacity.toNat ∧ s' = s ++ [(path, fi)] := by
    intro s path fi s' heq
    simp only [liveWalker, Option.ite_none_left_eq_some, not_le, Option.some.injEq] at heq
    exact ⟨heq.1, heq.2.symm⟩
  refine ⟨?_, runs_prefix (fun s path fi s' heq => (hemit s path fi s' heq).2) rfl h hl⟩
  refine runs_invariant (P := fun s => s.length ≤ capacity.toNat) (fun s path fi s' _ heq => ?_) h (Nat.zero_le _)
  obtain ⟨hroom, rfl⟩ := hemit s path fi s' heq
  rw [length_append, length_singleton]
  exact hroom

/-- **All walks end on any graph**, with no directory below itself, and the array of the collecting walk is not
overrun, whatever its capacity is. When that walk succeeds it has collected as many entries as were counted. -/
theorem walks_safe (v : ScanVolume) (inode : ℕ) :
    SafeWalk (scanWalker v) inode [] ∧ SafeWalk (backupDirWalker fs) inode [] ∧ SafeWalk (countWalker fs) inode (0, 0) ∧
      ∀ capacity, SafeWalk (liveWalker fs capacity) inode [] ∧
        ∀ ok l visits, (liveWalker fs capacity).Runs (.dir [] rootPath inode) [] ok l visits →
          l.length ≤ capacity.toNat ∧
            ∀ okc counts visitsc, (countWalker fs).Runs (.dir [] rootPath inode) (0, 0) okc counts visitsc →
              ok = true → counts.1 = UInt32.ofNat l.length := by
  refine ⟨runs_safe rfl _ _, runs_safe rfl _ _, runs_safe rfl _ _, fun capacity => ⟨runs_safe rfl _ _, ?_⟩⟩
  intro ok l visits hrun
  obtain ⟨ok', l', visits', hlist⟩ := runs_exists (backupDirWalker fs) [] rootPath inode []
  obtain ⟨hle, -, heq⟩ := liveWalker_le fs hrun hlist
  refine ⟨hle, fun okc counts visitsc hcount hok => ?_⟩
  rw [heq hok]
  exact countWalker_eq fs hcount hlist

end RecoveryQt
