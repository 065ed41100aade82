import RecoveryQt.Backup.Model

/-!
# When a backup file is read as it was written

* `patchCount`, `backupBytes`: a file as `backup_create` writes it, with the count put in at the end;
* `readBackup`: the header reader and the entry loop of `backup_restore`;
* **`readBackup_backupBytes`**: what is read of a file, whatever the number of entries;
* **`backupRoundTrip_iff`**: when that is what was written.
-/

namespace RecoveryQt

open List

/-- `fseek(f_out, 64, SEEK_SET)` and `write_le32` of the count. -/
def patchCount (file : List UInt8) (count : UInt32) : List UInt8 :=
  file.take 64 ++ leBytes 4 count.toNat ++ file.drop 68

/-- A header, a sequence of entries, and then the count in the header. -/
def backupBytes (h : BackupHeader) (es : List BackupEntry) : List UInt8 :=
  patchCount (writeBackupHeader h ++ es.flatMap writeBackupEntry) (UInt32.ofNat es.length)

/-- The header reader and the entry loop of `backup_restore`. -/
def readBackup (file : List UInt8) : Option (BackupHeader × List BackupEntry) :=
  (readBackupHeader file).map fun x => (x.1, readUpTo readBackupEntry x.1.fileCount.toNat x.2)

/-- An entry that can be recorded: the path is a C string that fits in the buffer, and the number of
clusters is a `uint32_t`. -/
structure BackupEntry.Recordable (e : BackupEntry) : Prop where
  path_length : e.path.length < backupMaxPath
  path_ne_zero : ∀ b ∈ e.path, b ≠ 0
  clusters_length : e.clusters.length < 2 ^ 32

/-- The same header and the same entries are read. -/
def BackupRoundTrip (h : BackupHeader) (es : List BackupEntry) : Prop :=
  readBackup (backupBytes h es) = some ({ h with fileCount := UInt32.ofNat es.length }, es)

/-- **The count is put into the header**, and nothing else changes. -/
theorem patchCount_writeBackupHeader (h : BackupHeader) (s : List UInt8) (count : UInt32) :
    patchCount (writeBackupHeader h ++ s) count =
      writeBackupHeader { h with fileCount := count } ++ s := by
  rw [writeBackupHeader, writeBackupHeader, append_assoc, append_assoc, append_assoc, append_assoc]
  generalize h.model.take 255 ++ (replicate _ 0 ++ s) = rest
  rfl

/-- An entry that can be recorded is read without the clusters that are not written. -/
theorem BackupEntry.Recordable.asRead_eq_iff {e : BackupEntry} (he : e.Recordable) :
    e.asRead = e ↔ (e.noClusters = true → e.clusters = []) := by
  constructor
  · intro h hno
    rw [← h, asRead, if_pos hno]
  · intro h
    rw [asRead, takeWhile_ne_zero he.path_ne_zero]
    split_ifs with hno
    · rw [← h hno]
    · rfl

/-- The entries that are read of those written, as many as the count says. -/
theorem readUpTo_entries {es : List BackupEntry}
    (hes : ∀ e ∈ es, ∀ s, readBackupEntry (writeBackupEntry e ++ s) = some (e.asRead, s)) :
    readUpTo readBackupEntry (UInt32.ofNat es.length).toNat (es.flatMap writeBackupEntry) =
      (es.take (es.length % 2 ^ 32)).map BackupEntry.asRead := by
  have hcount : (UInt32.ofNat es.length).toNat = (es.take (es.length % 2 ^ 32)).length := by
    rw [UInt32.toNat_ofNat', length_take, Nat.min_eq_left (Nat.mod_le _ _)]
  have hsplit : es.flatMap writeBackupEntry = (es.take (es.length % 2 ^ 32)).flatMap writeBackupEntry ++
      (es.drop (es.length % 2 ^ 32)).flatMap writeBackupEntry := by
    rw [← flatMap_append, take_append_drop]
  rw [hcount, hsplit, readUpTo_flatMap fun e he => hes e (mem_of_mem_take he)]

/-- **What is read of a file**: the first entries, as many as the count says. -/
theorem readBackup_backupBytes {h : BackupHeader} (hmodel : h.model.length ≤ 255) {es : List BackupEntry}
    (hes : ∀ e ∈ es, e.Recordable) : readBackup (backupBytes h es) =
      some ({ h with fileCount := UInt32.ofNat es.length },
        (es.take (es.length % 2 ^ 32)).map BackupEntry.asRead) := by
  have hread : ∀ e ∈ es, ∀ s, readBackupEntry (writeBackupEntry e ++ s) = some (e.asRead, s) :=
    fun e he => readBackupEntry_asRead e (hes e he).path_length (hes e he).clusters_length
  rw [readBackup, backupBytes, patchCount_writeBackupHeader, readBackupHeader_write, Option.map_some,
    take_of_length_le hmodel]
  show some (_, readUpTo readBackupEntry (UInt32.ofNat es.length).toNat _) = _
  rw [readUpTo_entries hread]

/-- **A file is read as it was written** exactly when the count did not wrap, and no entry has clusters
that its flags deny. -/
theorem backupRoundTrip_iff {h : BackupHeader} (hmodel : h.model.length ≤ 255) {es : List BackupEntry}
    (hes : ∀ e ∈ es, e.Recordable) : BackupRoundTrip h es ↔
      es.length < 2 ^ 32 ∧ ∀ e ∈ es, e.noClusters = true → e.clusters = [] := by
  rw [BackupRoundTrip, readBackup_backupBytes hmodel hes, Option.some_inj, Prod.mk.injEq,
    and_iff_right rfl]
  have hself : es.map BackupEntry.asRead = es ↔ ∀ e ∈ es, e.noClusters = true → e.clusters = [] := by
    nth_rewrite 2 [← map_id es]
    rw [map_inj_left]
    exact forall₂_congr fun e he => (hes e he).asRead_eq_iff
  constructor
  · intro heq
    have hlen := congrArg length heq
    rw [length_map, length_take, Nat.min_eq_left (Nat.mod_le _ _)] at hlen
    have hlt : es.length < 2 ^ 32 := hlen ▸ Nat.mod_lt _ (by decide)
    rw [Nat.mod_eq_of_lt hlt, take_length] at heq
    exact ⟨hlt, hself.mp heq⟩
  · rintro ⟨hlt, hclusters⟩
    rw [Nat.mod_eq_of_lt hlt, take_length]
    exact hself.mpr hclusters

/-! ## An entry that denies its clusters -/

/-- A header of a volume that fills a 1 MiB disk. -/
def wholeHeader : BackupHeader := ⟨0, 0, 1048576, 512, 0, 1048576, 512, 0, 0, 0, []⟩

/-- The file `/f`, of one cluster. -/
def oneCluster (noClusters : Bool) : BackupEntry := ⟨[slash, 102], false, noClusters, 512, 0, [16384]⟩

theorem oneCluster_recordable (noClusters : Bool) : (oneCluster noClusters).Recordable :=
  ⟨show 2 < backupMaxPath by decide, by simp [oneCluster, slash], show 1 < 2 ^ 32 by decide⟩

/-- Its clusters are not written. -/
theorem oneCluster_not_backupRoundTrip : wholeHeader.model.length ≤ 255 ∧ (oneCluster true).Recordable ∧
    ¬ BackupRoundTrip wholeHeader [oneCluster true] := by
  refine ⟨Nat.zero_le _, oneCluster_recordable true, ?_⟩
  rw [BackupRoundTrip, readBackup_backupBytes (Nat.zero_le _)
    fun e he => mem_singleton.mp he ▸ oneCluster_recordable true]
  intro h
  cases h

/-- A file that has its clusters is read as it was written. -/
theorem oneCluster_backupRoundTrip : BackupRoundTrip wholeHeader [oneCluster false] := by
  refine (backupRoundTrip_iff (Nat.zero_le _)
    fun e he => mem_singleton.mp he ▸ oneCluster_recordable false).mpr ⟨by decide, ?_⟩
  intro e he hno
  obtain rfl := mem_singleton.mp he
  cases hno

end RecoveryQt
