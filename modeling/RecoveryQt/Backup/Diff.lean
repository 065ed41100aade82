import RecoveryQt.Backup.Compare

/-!
# What a comparison marks

* `Gone`, `Changed`, `DiffExact`: the marks are exactly the differences of the trees;
* `Comparable`: no directory is dated, nothing that differs is too deep to be walked, and the size of
  the disk is not taken for a mismatch;
* **`diffExact_iff`**: the marks are exact exactly when the trees are comparable.
-/

namespace RecoveryQt

open List

/-- The same size and time. -/
def FileInfo.SameStat (x y : FileInfo) : Prop := y.stSize = x.stSize ∧ y.tdMtime = x.tdMtime

/-- The path is in both trees, with another size or time. -/
def Changed (before after : LiveTree) (p : List Name) : Prop :=
  ∃ x y, before.tree.label? p = some x ∧ after.tree.label? p = some y ∧ ¬ x.SameStat y

/-- The marks are exactly the differences of the two trees, and the root has none. -/
def DiffExact (t : ScanTree) (before after : LiveTree) : Prop :=
  (∀ p, t.DeletedAt p ↔ Gone before after p) ∧ (∀ p, t.ModifiedAt p ↔ Changed before after p) ∧
    t.root.deleted = false ∧ t.root.backupModified = false

/-! ## Exact marks -/

/-- The path is in the tree with the size and time of `x`. -/
def Kept (after : LiveTree) (p : List Name) (x : FileInfo) : Prop :=
  ∃ y, after.tree.label? p = some y ∧ x.SameStat y

/-- **When the marks are exact.** Nothing may differ when the disk is taken for another one. Else
nothing may differ below the depth limit, and above it a directory that is still there is the same
exactly if it shows neither size nor time. -/
def Comparable (env : BackupEnv) (before after : LiveTree) : Prop :=
  ∀ p x, before.tree.label? p = some x →
    if env.Refused ∨ backupMaxDepth < p.length then Kept after p x
    else x.isDir = true → ∀ y, after.tree.label? p = some y →
      (y.stSize = 0 ∧ y.tdMtime = 0 ↔ x.SameStat y)

/-- The two nodes at a path are determined by it. -/
theorem exists_labels_iff {before after : LiveTree} {p : List Name} {x y : FileInfo}
    {P : FileInfo → FileInfo → Prop} (hx : before.tree.label? p = some x)
    (hy : after.tree.label? p = some y) :
    (∃ x' y', before.tree.label? p = some x' ∧ after.tree.label? p = some y' ∧ P x' y') ↔ P x y := by
  constructor
  · rintro ⟨x', y', hx', hy', h⟩
    obtain rfl := Option.some.inj (hx.symm.trans hx')
    obtain rfl := Option.some.inj (hy.symm.trans hy')
    exact h
  · exact fun h => ⟨x, y, hx, hy, h⟩

/-- A path of `before` is gone, changed or kept. -/
theorem kept_iff {before after : LiveTree} {p : List Name} {x : FileInfo}
    (hx : before.tree.label? p = some x) :
    Kept after p x ↔ ¬ Gone before after p ∧ ¬ Changed before after p := by
  constructor
  · rintro ⟨y, hy, hsame⟩
    constructor
    · rintro ⟨_, -, hnone⟩
      rw [hy] at hnone
      cases hnone
    · rw [Changed, exists_labels_iff hx hy, not_not]
      exact hsame
  · rintro ⟨hgone, hchanged⟩
    cases hy : after.tree.label? p with
    | none => exact absurd ⟨x, hx, hy⟩ hgone
    | some y =>
      refine ⟨y, hy, ?_⟩
      by_contra hne
      exact hchanged ⟨x, y, hx, hy, hne⟩

/-- What is recorded of a file is its size and time, and of a directory that it has none. -/
theorem FileInfo.recorded_iff (x y : FileInfo) : (y.stSize, y.tdMtime) ≠ x.recorded ↔
    if x.isDir then ¬ (y.stSize = 0 ∧ y.tdMtime = 0) else ¬ x.SameStat y := by
  unfold FileInfo.recorded FileInfo.SameStat
  split_ifs <;> rw [ne_eq, Prod.mk.injEq]

/-- **The marks are exact exactly when the trees are comparable.** -/
theorem diffExact_iff (env : BackupEnv) {before after : LiveTree} (hbefore : before.Fits)
    (hafter : after.Fits) (hcounts : CountsFit before after) :
    DiffExact (restoredTree env before.fs after.fs) before after ↔ Comparable env before after := by
  have hroot := restoredTree_root env hbefore hafter hcounts
  rw [DiffExact, and_iff_left hroot]
  by_cases hrefused : env.Refused
  · rw [restoredTree_refused env hbefore hafter hcounts hrefused]
    simp only [Comparable, hrefused, true_or, if_true]
    constructor
    · rintro ⟨hdel, hmod⟩ p x hx
      rw [kept_iff hx, ← hdel, ← hmod]
      exact ⟨ScanTree.not_deletedAt rfl p, ScanTree.not_modifiedAt rfl p⟩
    · intro h
      constructor
      · refine fun p => iff_of_false (ScanTree.not_deletedAt rfl p) fun hgone => ?_
        obtain ⟨x, hx, -⟩ := id hgone
        exact ((kept_iff hx).mp (h p x hx)).1 hgone
      · refine fun p => iff_of_false (ScanTree.not_modifiedAt rfl p) fun hchanged => ?_
        obtain ⟨x, -, hx, -⟩ := id hchanged
        exact ((kept_iff hx).mp (h p x hx)).2 hchanged
  · have hmarks := restoredTree_marks env hbefore hafter hcounts hrefused
    simp only [fun p => (hmarks p).1, fun p => (hmarks p).2, Comparable, hrefused, false_or]
    constructor
    · rintro ⟨hdel, hmod⟩ p x hx
      split_ifs with hdeep
      · rw [kept_iff hx, ← hdel, ← hmod]
        exact ⟨fun h => absurd h.1 (Nat.not_le.mpr hdeep), fun h => absurd h.1 (Nat.not_le.mpr hdeep)⟩
      · intro hdir y hy
        have hp := hmod p
        rw [Changed, exists_labels_iff hx hy, exists_labels_iff hx hy,
          and_iff_right (Nat.le_of_not_lt hdeep), FileInfo.recorded_iff, if_pos hdir, not_iff_not] at hp
        exact hp
    · intro h
      have hnear : ∀ {p x}, before.tree.label? p = some x → ¬ Kept after p x →
          p.length ≤ backupMaxDepth := by
        intro p x hx hkept
        by_contra hdeep
        have hp := h p x hx
        rw [if_pos (Nat.lt_of_not_le hdeep)] at hp
        exact hkept hp
      have hdiffer : ∀ {p x y}, p.length ≤ backupMaxDepth → before.tree.label? p = some x →
          after.tree.label? p = some y →
          ((y.stSize, y.tdMtime) ≠ x.recorded ↔ ¬ x.SameStat y) := by
        intro p x y hlen hx hy
        have hp := h p x hx
        rw [if_neg (Nat.not_lt.mpr hlen)] at hp
        rw [FileInfo.recorded_iff]
        split_ifs with hdir
        · rw [hp hdir y hy]
        · rfl
      constructor
      · refine fun p => and_iff_right_of_imp fun hgone => ?_
        obtain ⟨x, hx, -⟩ := id hgone
        exact hnear hx fun hkept => ((kept_iff hx).mp hkept).1 hgone
      · intro p
        constructor
        · rintro ⟨hlen, x, y, hx, hy, hne⟩
          exact ⟨x, y, hx, hy, (hdiffer hlen hx hy).mp hne⟩
        · rintro ⟨x, y, hx, hy, hne⟩
          have hlen := hnear hx fun hkept => ((kept_iff hx).mp hkept).2 ⟨x, y, hx, hy, hne⟩
          exact ⟨hlen, x, y, hx, hy, (hdiffer hlen hx hy).mpr hne⟩

/-! ## A directory that is dated -/

/-- A volume that fills its disk. -/
def wholeDisk : BackupEnv where
  disk := ⟨512, 1048576, fun _ => 0, fun _ _ => false⟩
  partition := ⟨0, 1048576, .fat16, 0⟩
  clusterBytes := 512
  dataOffset := 0
  created := 0
  model := []

theorem wholeDisk_not_refused : ¬ wholeDisk.Refused := by decide

/-- The name `D`. -/
def directoryName : Name := IsName.name (show IsName [68] by decide)

/-- The directory `D`, with a time. -/
def directoryInfo (mtime : UInt64) : FileInfo := ⟨[68], 2, 0, mtime, true, false⟩

/-- A filesystem with one empty directory. -/
def oneDirectory (mtime : UInt64) : LiveTree where
  fs := {
    currentInode := 1
    getDir := fun inode => if inode = 1 then some [directoryInfo mtime] else some []
    collect := fun _ => ⟨true, true, [], Clusters.none.length_lt⟩ }
  tree := .cons directoryName (directoryInfo mtime) .nil .nil
  rootList := [directoryInfo mtime]
  root := rfl
  shows := ⟨[], rfl, rfl, .inl ⟨rfl, (by simp [directoryInfo]), [], rfl, rfl⟩, rfl⟩
  distinct := ⟨by simp [Forest.names], trivial, trivial⟩

/-- Its only path is that of the directory. -/
theorem oneDirectory_label {mtime : UInt64} {p : List Name} {x : FileInfo}
    (h : (oneDirectory mtime).tree.label? p = some x) :
    renderPath p = [slash, 68] ∧ x = directoryInfo mtime := by
  obtain ⟨n, ns, rfl⟩ : ∃ n ns, p = n :: ns := by
    cases p with
    | nil => cases h
    | cons n ns => exact ⟨n, ns, rfl⟩
  rw [oneDirectory, Forest.label?_cons, Forest.label?_nil, Forest.label?_nil] at h
  split_ifs at h with hn hns
  · subst hn hns
    exact ⟨rfl, (Option.some.inj h).symm⟩

theorem oneDirectory_fits (mtime : UInt64) : (oneDirectory mtime).Fits := by
  intro p x h
  rw [(oneDirectory_label h).1]
  decide

theorem oneDirectory_count (mtime : UInt64) : (oneDirectory mtime).count = 1 := by
  rw [LiveTree.count, show backupMaxDepth = 254 + 1 + 1 from rfl, oneDirectory, Forest.paths,
    Forest.paths, Forest.paths]
  rfl

theorem oneDirectory_countsFit (mtime : UInt64) :
    CountsFit (oneDirectory mtime) (oneDirectory mtime) := by
  rw [CountsFit, oneDirectory_count]
  decide

/-- A directory with a time is marked modified, although nothing has changed. -/
theorem dated_directory_not_diffExact :
    ¬ DiffExact (restoredTree wholeDisk (oneDirectory 5).fs (oneDirectory 5).fs)
      (oneDirectory 5) (oneDirectory 5) := by
  intro h
  have hlabel : (oneDirectory 5).tree.label? [directoryName] =
    some (directoryInfo 5) := rfl
  have hmarks := restoredTree_marks wholeDisk (oneDirectory_fits 5) (oneDirectory_fits 5)
    (oneDirectory_countsFit 5) wholeDisk_not_refused [directoryName]
  have hmod := (h.2.1 [directoryName]).mp
    (hmarks.2.mpr ⟨by decide, directoryInfo 5, directoryInfo 5, hlabel, hlabel, by decide⟩)
  rw [Changed, exists_labels_iff hlabel hlabel] at hmod
  exact hmod ⟨rfl, rfl⟩

/-- A directory without a time is not marked. -/
theorem undated_directory_diffExact :
    DiffExact (restoredTree wholeDisk (oneDirectory 0).fs (oneDirectory 0).fs)
      (oneDirectory 0) (oneDirectory 0) := by
  apply (diffExact_iff wholeDisk (oneDirectory_fits 0) (oneDirectory_fits 0)
    (oneDirectory_countsFit 0)).mpr
  intro p x hx
  obtain ⟨-, rfl⟩ := oneDirectory_label hx
  split_ifs with h
  · exact ⟨directoryInfo 0, hx, rfl, rfl⟩
  · intro _ y hy
    obtain ⟨-, rfl⟩ := oneDirectory_label hy
    exact iff_of_true ⟨rfl, rfl⟩ ⟨rfl, rfl⟩

end RecoveryQt
