import RecoveryQt.Restore.Destination

/-!
# Which restored files overwrite another

Two files of the tree are restored to one file of the host when the names that are left of their
paths lead to one place: `tree_get_path` and the buffers cut a path, and `strip_fn` takes spaces and
dots from its end.

* `place`, **`target_writtenPath`**: where a file is written, by its names;
* **`restoresDistinct_iff`**: when no two files are written to one place;
* `KeepsPath`, `restoresDistinct_of_keepsPath`: no two files whose paths are left as they are;
* `dottedTree`: two names of which only one ends in a dot.
-/

namespace RecoveryQt

open List

section Place

variable (cwd : List Name) (destDir : DestDir) (a : Answers) (f : FileAt)

/-- A file that is written. -/
def Written : Prop := a.opened = true ∧ (f.info.raw ∨ a.called = true)

instance : Decidable (Written a f) := inferInstanceAs (Decidable (_ ∧ _))

/-- The names that are left of the path of a file. -/
def writtenNames : List Name :=
  if f.info.raw then (keptPath (pathMax - 1 - destDir.bytes.length) f.path).names
  else if a.first then (keptPath (dirNameLen - 1) f.path).strip
  else (keptPath (dirNameLen - 1) f.path).names

/-- Where these names lead. A destination that fills the buffer of `restore_orphan` leaves no room for
any of them, and is cut. -/
def place : List Name :=
  if f.info.raw ∧ pathMax ≤ destDir.bytes.length then
    target cwd (destDir.bytes.take (pathMax - 1))
  else
    (route Name.IsDot Name.IsDotDot (writtenNames destDir a f)).lead (target cwd destDir.bytes)

theorem place_of_raw (hraw : f.info.raw) :
    place cwd destDir a f = target cwd (orphanPath destDir f.path) := by
  rw [place, writtenNames, if_pos hraw]
  split_ifs with h
  · have hcut : orphanPath destDir f.path = destDir.bytes.take (pathMax - 1) :=
      take_append_of_le_length (h.2.trans' (Nat.sub_le _ _))
    rw [hcut]
  · have hroom : destDir.bytes.length < pathMax := Nat.lt_of_not_le fun hle => h ⟨hraw, hle⟩
    exact (target_orphanPath cwd destDir f.path hroom).symm

theorem place_of_local (hraw : ¬ f.info.raw) :
    place cwd destDir a f = target cwd
      (if a.first then stripFn (destDir.bytes ++ currentDirectory f.path)
        else destDir.bytes ++ currentDirectory f.path) := by
  rw [place, writtenNames, if_neg hraw, if_neg fun h => hraw h.1]
  split_ifs
  · exact (target_stripFn cwd destDir f.path).symm
  · exact (target_localPath cwd destDir f.path).symm

/-- **The file that is written** is where the names lead. -/
theorem target_writtenPath :
    (writtenPath destDir a f).map (target cwd) =
      if Written a f then some (place cwd destDir a f) else none := by
  rw [writtenPath, builtPaths]
  by_cases hw : Written a f
  · rw [if_pos hw, if_pos hw.1]
    by_cases hraw : f.info.raw
    · rw [if_pos hraw, place_of_raw cwd destDir a f hraw]
      rfl
    · rw [if_neg hraw, if_pos (hw.2.resolve_left hraw), place_of_local cwd destDir a f hraw,
        getLast?_fopenLocal a.einval a.first a.second (currentDirectory_ne_nil f.path)]
      rfl
  · rw [if_neg hw]
    by_cases hopened : a.opened = true
    · have hno : ¬ (f.info.raw ∨ a.called = true) := fun h => hw ⟨hopened, h⟩
      obtain ⟨hraw, hcalled⟩ := not_or.mp hno
      rw [if_pos hopened, if_neg hraw, if_neg hcalled]
      rfl
    · rw [if_neg hopened]
      rfl

end Place

section Distinct

variable (cwd : List Name) (destDir : DestDir) (answers : FileAt → Answers) (t : ScanTree)

/-- The names that are left of two files lead to one place. -/
def SamePlace (f g : FileAt) : Prop :=
  place cwd destDir (answers f) f = place cwd destDir (answers g) g

/-- The paths written for some files lead to different files of the host. -/
theorem pairwise_target_iff (l : List FileAt) :
    ((l.filterMap fun f => writtenPath destDir (answers f) f).Pairwise
        fun s s' => target cwd s ≠ target cwd s') ↔
      (l.filter fun f => Written (answers f) f).Pairwise
        fun f g => ¬ SamePlace cwd destDir answers f g := by
  have hplace : ∀ f s, writtenPath destDir (answers f) f = some s →
      Written (answers f) f ∧ target cwd s = place cwd destDir (answers f) f := by
    intro f s hs
    have h := target_writtenPath cwd destDir (answers f) f
    rw [hs, Option.map_some] at h
    split_ifs at h with hw
    exact ⟨hw, Option.some.inj h⟩
  have hwritten : ∀ f, Written (answers f) f → ∃ s, writtenPath destDir (answers f) f = some s := by
    intro f hw
    have h := target_writtenPath cwd destDir (answers f) f
    rw [if_pos hw] at h
    obtain ⟨s, hs, -⟩ := Option.map_eq_some_iff.mp h
    exact ⟨s, hs⟩
  rw [pairwise_filterMap, pairwise_filter]
  refine iff_of_eq (congrArg (fun R => Pairwise R l) ?_)
  funext f g
  refine propext ⟨fun h hf hg => ?_, fun h s hs s' hs' => ?_⟩
  · obtain ⟨s, hs⟩ := hwritten f (of_decide_eq_true hf)
    obtain ⟨s', hs'⟩ := hwritten g (of_decide_eq_true hg)
    have hne := h s hs s' hs'
    rwa [(hplace f s hs).2, (hplace g s' hs').2] at hne
  · rw [(hplace f s hs).2, (hplace g s' hs').2]
    exact h (decide_eq_true (hplace f s hs).1) (decide_eq_true (hplace g s' hs').1)

/-- The files of the host that `restore_files` writes for the marked files are different ones. -/
def RestoresDistinct : Prop :=
  (t.markedFiles.filterMap fun f => writtenPath destDir (answers f) f).Pairwise
    fun s s' => target cwd s ≠ target cwd s'

/-- **No restored file overwrites another** exactly when the names left of the files that are written
lead to different places. -/
theorem restoresDistinct_iff :
    RestoresDistinct cwd destDir answers t ↔
      (t.markedFiles.filter fun f => Written (answers f) f).Pairwise
        fun f g => ¬ SamePlace cwd destDir answers f g :=
  pairwise_target_iff cwd destDir answers t.markedFiles

end Distinct

/-! ## Paths that are left as they are -/

theorem cutNames_of_short {k : ℕ} {l : List Name} (h : (renderPath l).length ≤ k) :
    cutNames k l = ⟨l, false⟩ := by
  induction l generalizing k with
  | nil => rw [cutNames]
  | cons n l ih =>
    rw [length_renderPath_cons] at h
    obtain ⟨k, rfl⟩ : ∃ j, k = j + 1 := ⟨k - 1, by omega⟩
    rw [cutNames, if_pos (by omega), ih (by omega)]

/-- Nothing is lost of the path of a file: it has no `.` and `..`, the array and the buffer take all of
it, and `strip_fn` leaves its last name alone. -/
structure KeepsPath (destDir : DestDir) (a : Answers) (f : FileAt) : Prop where
  ne_nil : f.path ≠ []
  plain : ∀ n ∈ f.path, ¬ n.IsDots
  short : f.path.length < chainMax
  fits : (renderPath f.path).length + 2 ≤
    if f.info.raw then pathMax - 1 - destDir.bytes.length else dirNameLen - 1
  unstripped : a.first = true → ∀ n ∈ f.path.getLast?, n.strip = [n]

variable {destDir : DestDir} {a : Answers} {f : FileAt}

theorem KeepsPath.writtenNames_eq (h : KeepsPath destDir a f) :
    writtenNames destDir a f = f.path := by
  have hfits := h.fits
  unfold writtenNames keptPath
  rw [if_pos h.short, if_pos h.short]
  split_ifs at hfits ⊢ with hraw hfirst
  · rw [cutNames_of_short (by omega)]
  · rw [cutNames_of_short (by omega), HostPath.strip, if_neg Bool.false_ne_true]
    obtain ⟨l, n, hn⟩ := (eq_nil_or_concat' f.path).resolve_left h.ne_nil
    have hstrip := h.unstripped hfirst n (by rw [hn]; simp)
    simp [hn, hstrip]
  · rw [cutNames_of_short (by omega)]

/-- Such a file is written under its own path. -/
theorem KeepsPath.place_eq (h : KeepsPath destDir a f) (cwd : List Name) :
    place cwd destDir a f = target cwd destDir.bytes ++ f.path := by
  have hroom : ¬ (f.info.raw ∧ pathMax ≤ destDir.bytes.length) := by
    rintro ⟨hraw, hle⟩
    have hfits := h.fits
    rw [if_pos hraw] at hfits
    omega
  have hroute : route Name.IsDot Name.IsDotDot f.path = ⟨0, f.path⟩ :=
    route_of_plain fun n hn => not_or.mp (h.plain n hn)
  rw [place, if_neg hroom, h.writtenNames_eq, hroute, Route.lead, Nat.sub_zero, take_length]

/-- **Files whose paths are left as they are** do not overwrite one another. -/
theorem restoresDistinct_of_keepsPath {cwd : List Name} {answers : FileAt → Answers} {t : ScanTree}
    (hkeeps : ∀ f ∈ t.markedFiles, KeepsPath destDir (answers f) f)
    (hpaths : t.markedFiles.Pairwise fun f g => f.path ≠ g.path) :
    RestoresDistinct cwd destDir answers t := by
  rw [RestoresDistinct, pairwise_target_iff, pairwise_filter]
  refine hpaths.imp_of_mem fun {f g} hf hg hne _ _ hsame => hne ?_
  rw [SamePlace, (hkeeps f hf).place_eq, (hkeeps g hg).place_eq] at hsame
  exact append_cancel_left hsame

/-! ## A name that ends in a dot -/

/-- A marked file of the filesystem. -/
def markedNode : NodeInfo := { nodeAlloc ⟨false, 512, 12, 0, 0, 512, false⟩ with marked := true }

/-- The tree of the marked files `/a` and `/a.`. -/
def dottedTree : ScanTree := (treeNew.load [47, 97] markedNode).load [47, 97, 46] markedNode

/-- **Both are written to `/d/a`.** -/
theorem dottedTree_not_distinct :
    (dottedTree.markedFiles.Pairwise fun f g => f.path ≠ g.path) ∧
      ¬ RestoresDistinct [] dirD (fun _ => opensAll) dottedTree := by
  unfold RestoresDistinct
  decide

end RecoveryQt
