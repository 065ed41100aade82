import RecoveryQt.Backup.Model

/-!
# The marks of a backup

* `ScanTree.DeletedAt`, `ScanTree.ModifiedAt`: the node at a path is marked;
* **`restoreEntry_marks`**: an entry sets the mark of its path and no other;
* **`foldl_restoreEntry_marks`**: after a list of entries with different paths, the nodes marked are
  those of the entries.
-/

namespace RecoveryQt

open List

/-- The node at a path is marked deleted. -/
def ScanTree.DeletedAt (t : ScanTree) (p : List Name) : Prop :=
  ∃ x, t.top.label? p = some x ∧ x.deleted = true

/-- The node at a path is marked `backup_modified`. -/
def ScanTree.ModifiedAt (t : ScanTree) (p : List Name) : Prop :=
  ∃ x, t.top.label? p = some x ∧ x.backupModified = true

section Entry

variable (sectorSize clusterBytes : UInt32) {mark : BackupMark} {e : BackupEntry} {p : List Name}

/-- The siblings of the root after an entry that is marked. -/
theorem restoreEntry_top (hmark : mark ≠ .same) (hpath : pathTokens e.path = p) (hp : p ≠ [])
    (t : ScanTree) :
    (restoreEntry sectorSize clusterBytes mark t e).top =
      (t.top.insertPath dirInfo (nodeAlloc (restoreArgs e sectorSize mark))
        (NodeInfo.readd (restoreArgs e sectorSize mark)) p).modify
          (NodeInfo.setBackup e clusterBytes mark) p := by
  obtain ⟨n, ns, rfl⟩ := exists_cons_of_ne_nil hp
  rw [restoreEntry, if_neg hmark, hpath, ScanTree.addPath, hpath]
  rfl

theorem restoreEntry_root (hpath : pathTokens e.path = p) (hp : p ≠ []) (t : ScanTree) :
    (restoreEntry sectorSize clusterBytes mark t e).root = t.root := by
  obtain ⟨n, ns, rfl⟩ := exists_cons_of_ne_nil hp
  rw [restoreEntry]
  split_ifs
  · rfl
  · rw [hpath, ScanTree.addPath, hpath]
    rfl

/-- The node of the entry: it was there, or it is new. -/
theorem restoreEntry_label_self (hmark : mark ≠ .same) (hpath : pathTokens e.path = p) (hp : p ≠ [])
    (t : ScanTree) :
    (restoreEntry sectorSize clusterBytes mark t e).top.label? p =
      some (NodeInfo.setBackup e clusterBytes mark
        ((t.top.label? p).elim (nodeAlloc (restoreArgs e sectorSize mark))
          (NodeInfo.readd (restoreArgs e sectorSize mark)))) := by
  rw [restoreEntry_top sectorSize clusterBytes hmark hpath hp, Forest.label?_modify_self,
    Forest.label?_insertPath_self _ hp]
  rfl

/-- Another node is left alone; a missing one on the way is created as a directory. -/
theorem restoreEntry_label_other (hmark : mark ≠ .same) (hpath : pathTokens e.path = p)
    (hp : p ≠ []) {q : List Name} (hq : q ≠ []) (hne : q ≠ p) (t : ScanTree) :
    (restoreEntry sectorSize clusterBytes mark t e).top.label? q =
      if q <+: p then some ((t.top.label? q).getD dirInfo) else t.top.label? q := by
  rw [restoreEntry_top sectorSize clusterBytes hmark hpath hp, Forest.label?_modify_other _ hne]
  split_ifs with hpre
  · exact Forest.label?_insertPath_mid _ hq hpre hne
  · exact Forest.label?_insertPath_other _ hpre

theorem NodeInfo.setBackup_deleted (e : BackupEntry) (clusterBytes : UInt32) (mark : BackupMark)
    (x : NodeInfo) : (x.setBackup e clusterBytes mark).deleted = x.deleted := rfl

theorem NodeInfo.setBackup_backupModified (e : BackupEntry) (clusterBytes : UInt32)
    (mark : BackupMark) (x : NodeInfo) :
    (x.setBackup e clusterBytes mark).backupModified = decide (mark = .modified) := rfl

/-- What `tree_add_path` does to the deleted flag of an existing node. -/
theorem NodeInfo.readd_deleted_iff (a : AddArgs) (x : NodeInfo) :
    (x.readd a).deleted = true ↔ x.deleted = true ∨ a.deleted = true := by
  unfold NodeInfo.readd
  split_ifs with h hdir
  · exact iff_of_true rfl (.inr h.2)
  · exact iff_of_true rfl (.inr h.2)
  · constructor
    · exact Or.inl
    · rintro (hx | ha)
      · exact hx
      · by_contra hx
        exact h ⟨by simpa using hx, ha⟩

/-- **An entry sets the mark of its path and no other.** -/
theorem restoreEntry_marks (hpath : pathTokens e.path = p) (hp : p ≠ []) (t : ScanTree)
    {q : List Name} (hq : q ≠ []) :
    ((restoreEntry sectorSize clusterBytes mark t e).DeletedAt q ↔
      t.DeletedAt q ∨ q = p ∧ mark = .deleted) ∧
    ((restoreEntry sectorSize clusterBytes mark t e).ModifiedAt q ↔
      t.ModifiedAt q ∧ (q = p → mark = .same) ∨ q = p ∧ mark = .modified) := by
  by_cases hmark : mark = .same
  · rw [restoreEntry, if_pos hmark, hmark]
    simp
  by_cases hqp : q = p
  · subst hqp
    unfold ScanTree.DeletedAt ScanTree.ModifiedAt
    rw [restoreEntry_label_self sectorSize clusterBytes hmark hpath hp]
    simp only [Option.some.injEq, exists_eq_left', NodeInfo.setBackup_deleted,
      NodeInfo.setBackup_backupModified, decide_eq_true_eq, true_and, true_implies, hmark, and_false,
      false_or, and_true]
    cases hlabel : t.top.label? q with
    | none =>
      show (decide (mark = .deleted) = true) ↔ _
      simp
    | some x =>
      rw [Option.elim_some, NodeInfo.readd_deleted_iff]
      show (x.deleted = true ∨ decide (mark = .deleted) = true) ↔ _
      simp
  · unfold ScanTree.DeletedAt ScanTree.ModifiedAt
    rw [restoreEntry_label_other sectorSize clusterBytes hmark hpath hp hq hqp]
    simp only [hqp, false_and, or_false, false_implies, and_true]
    split_ifs with hpre
    · cases hlabel : t.top.label? q with
      | none => simp [dirInfo, nodeAlloc]
      | some x => simp
    · exact ⟨Iff.rfl, Iff.rfl⟩

end Entry

/-- **The marks after a list of entries with different paths.** Each entry `f a` has the path `p a`
and gets the mark `m a`. -/
theorem foldl_restoreEntry_marks {α : Type*} (sectorSize clusterBytes : UInt32) (e : α → BackupEntry)
    (p : α → List Name) (m : α → BackupMark) {l : List α} (hpath : ∀ a ∈ l, pathTokens (e a).path = p a)
    (hp : ∀ a ∈ l, p a ≠ []) (hnodup : (l.map p).Nodup) (t : ScanTree)
    (hnew : ∀ a ∈ l, ¬ t.ModifiedAt (p a)) {q : List Name} (hq : q ≠ []) :
    ((l.foldl (fun t a => restoreEntry sectorSize clusterBytes (m a) t (e a)) t).DeletedAt q ↔
      t.DeletedAt q ∨ ∃ a ∈ l, p a = q ∧ m a = .deleted) ∧
    ((l.foldl (fun t a => restoreEntry sectorSize clusterBytes (m a) t (e a)) t).ModifiedAt q ↔
      t.ModifiedAt q ∨ ∃ a ∈ l, p a = q ∧ m a = .modified) := by
  induction l generalizing t with
  | nil => simp
  | cons a l ih =>
    have hstep : ∀ q, q ≠ [] →
        ((restoreEntry sectorSize clusterBytes (m a) t (e a)).DeletedAt q ↔
          t.DeletedAt q ∨ q = p a ∧ m a = .deleted) ∧
        ((restoreEntry sectorSize clusterBytes (m a) t (e a)).ModifiedAt q ↔
          t.ModifiedAt q ∧ (q = p a → m a = .same) ∨ q = p a ∧ m a = .modified) := fun q hq =>
      restoreEntry_marks sectorSize clusterBytes (hpath a mem_cons_self) (hp a mem_cons_self) t hq
    rw [map_cons, nodup_cons] at hnodup
    rw [foldl_cons]
    obtain ⟨hdel, hmod⟩ := ih (fun b hb => hpath b (mem_cons_of_mem a hb))
      (fun b hb => hp b (mem_cons_of_mem a hb)) hnodup.2
      (restoreEntry sectorSize clusterBytes (m a) t (e a)) fun b hb => by
        have hne : p b ≠ p a := fun h => hnodup.1 (h ▸ mem_map_of_mem hb)
        rw [(hstep (p b) (hp b (mem_cons_of_mem a hb))).2]
        rintro (⟨h, -⟩ | ⟨h, -⟩)
        · exact hnew b (mem_cons_of_mem a hb) h
        · exact hne h
    have hnew := hnew a mem_cons_self
    rw [hdel, hmod, (hstep q hq).1, (hstep q hq).2]
    constructor
    · simp only [exists_mem_cons_iff]
      rw [or_assoc, eq_comm (a := q)]
    · simp only [exists_mem_cons_iff]
      constructor
      · rintro ((⟨h, -⟩ | ⟨rfl, h⟩) | h)
        · exact .inl h
        · exact .inr (.inl ⟨rfl, h⟩)
        · exact .inr (.inr h)
      · rintro (h | ⟨rfl, h⟩ | h)
        · exact .inl (.inl ⟨h, fun hqa => absurd (hqa ▸ h) hnew⟩)
        · exact .inl (.inr ⟨rfl, h⟩)
        · exact .inr h

end RecoveryQt
