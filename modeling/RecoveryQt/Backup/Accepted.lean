import RecoveryQt.Backup.Complete

/-!
# Backups where they were made

`backup_restore` compares the size of the disk with the one that the header of a backup gives: the size
of the disk for a partition at its start, and else that of the partition.

* `PartitionOnDisk`: a partition that lies on its disk;
* `AcceptedBack`: a backup is read from its first entry on, and its size passes;
* `readBackupHeader_create`: what `backup_create` writes is read from its first entry on;
* **`sizeMismatch_onDisk_iff`**: when the guard refuses a partition of the disk;
* **`acceptedBack_iff`**: when a backup is accepted on the disk and the partition that it was made of.
-/

namespace RecoveryQt

open List

/-- The partition lies on its disk, whose size is a `uint64_t`. -/
structure PartitionOnDisk (d : Disk) (p : Partition) : Prop where
  fits : p.partOffset + p.partSize ≤ d.diskSize
  size_lt : d.diskSize < 2 ^ 64

/-- The header of a file gives the model name with its padding, the entries start right behind it, and the
guard passes on this disk. -/
def AcceptedBack (env : BackupEnv) (entries file : List UInt8) : Prop :=
  ∃ h rest, readBackupHeader file = some (h, entries ++ rest) ∧ h.model = env.model.take 255 ∧
    ¬ sizeMismatch (UInt64.ofNat env.disk.diskSize) h

/-! ## The header -/

/-- **The entries are read from the first one on**, whatever fails when they are written. -/
theorem readBackupHeader_create {env : BackupEnv} {fs : LiveFs} {f : BackupFaults} {file : List UInt8}
    (hfile : backupCreateFile env fs f = some file) : ∃ es count rest, backupEntries fs = some es ∧
      readBackupHeader file = some ({ env.header count with model := env.model.take 255 }, f.body es ++ rest) := by
  unfold backupCreateFile at hfile
  split_ifs at hfile
  cases hes : backupEntries fs with
  | none => simp [hes] at hfile
  | some es =>
    simp only [hes] at hfile
    split_ifs at hfile
    obtain rfl := Option.some.inj hfile
    unfold BackupFaults.putCount
    split_ifs
    · exact ⟨es, 0, [], rfl, by rw [append_nil, readBackupHeader_write]; rfl⟩
    · exact ⟨es, 0, _, rfl, by rw [append_assoc, readBackupHeader_write]; rfl⟩
    · refine ⟨es, UInt32.ofNat es.length, [], rfl, ?_⟩
      rw [patchCount_writeBackupHeader, append_nil, readBackupHeader_write]
      rfl

/-! ## The guard -/

theorem toInt64_neg_iff (x : UInt64) : x.toInt64 < 0 ↔ 2 ^ 63 ≤ x.toNat := by
  rw [Int64.lt_iff_toInt_lt]
  show x.toBitVec.toInt < 0 ↔ _
  rw [BitVec.toInt_neg_iff]
  show 2 ^ 64 ≤ 2 * x.toNat ↔ _
  omega

/-- The distance of two sizes as the guard computes it. -/
theorem toNat_sizeDiff (x : UInt64) :
    (if x.toInt64 < 0 then -x.toInt64 else x.toInt64).toUInt64.toNat = min x.toNat (2 ^ 64 - x.toNat) := by
  have hlt := x.toNat_lt
  split_ifs with hneg
  · have hbig := (toInt64_neg_iff x).mp hneg
    rw [Int64.toUInt64_neg, UInt64.toUInt64_toInt64, UInt64.toNat_neg]
    show (2 ^ 64 - x.toNat) % 2 ^ 64 = _
    omega
  · have hsmall := mt (toInt64_neg_iff x).mpr hneg
    rw [UInt64.toUInt64_toInt64]
    omega

section OnDisk

variable {env : BackupEnv} (hon : PartitionOnDisk env.disk env.partition)

/-- The partition is at the start of the disk, it has no size, or it takes up at least two thirds of it; the
distance is that of 64-bit numbers. -/
def SizesPass (env : BackupEnv) : Prop :=
  env.partition.partOffset = 0 ∨ env.partition.partSize = 0 ∨
    min (env.disk.diskSize - env.partition.partSize) (2 ^ 64 - (env.disk.diskSize - env.partition.partSize)) ≤
      env.partition.partSize / 2

instance (env : BackupEnv) : Decidable (SizesPass env) := by unfold SizesPass; infer_instance

/-- The guard depends on two numbers. -/
theorem sizeMismatch_iff (diskSize : UInt64) (h : BackupHeader) : sizeMismatch diskSize h ↔
    ∃ origSize, origSize = (if h.partOffset = 0 ∨ h.partSize = 0 then h.diskSize else h.partSize) ∧
      0 < origSize.toNat ∧ origSize.toNat / 2 <
        min (diskSize - origSize).toNat (2 ^ 64 - (diskSize - origSize).toNat) := by
  have horig : (if (if h.partOffset = 0 then h.diskSize else h.partSize) = 0 then h.diskSize
      else if h.partOffset = 0 then h.diskSize else h.partSize) =
      if h.partOffset = 0 ∨ h.partSize = 0 then h.diskSize else h.partSize := by
    by_cases hoff : h.partOffset = 0
    · simp [hoff]
    · by_cases hsize : h.partSize = 0 <;> simp [hoff, hsize]
  unfold sizeMismatch
  simp only [horig, ← UInt64.toInt64_sub, UInt64.lt_iff_toNat_lt, toNat_sizeDiff, exists_eq_left]
  rfl

include hon in
/-- **The guard compares the disk with the partition**, unless that is at its start. -/
theorem sizeMismatch_onDisk_iff (count : UInt32) (model : List UInt8) :
    ¬ sizeMismatch (UInt64.ofNat env.disk.diskSize) { env.header count with model := model } ↔ SizesPass env := by
  have hsize := hon.size_lt
  have hfits := hon.fits
  have hdisk : (UInt64.ofNat env.disk.diskSize).toNat = env.disk.diskSize := UInt64.toNat_ofNat_of_lt' hsize
  have hpart : (UInt64.ofNat env.partition.partSize).toNat = env.partition.partSize :=
    UInt64.toNat_ofNat_of_lt' (show env.partition.partSize < 2 ^ 64 by omega)
  have hoffset : UInt64.ofNat env.partition.partOffset = 0 ↔ env.partition.partOffset = 0 := by
    rw [← UInt64.toNat_inj, UInt64.toNat_ofNat_of_lt' (show env.partition.partOffset < 2 ^ 64 by omega)]
    rfl
  have hzero : UInt64.ofNat env.partition.partSize = 0 ↔ env.partition.partSize = 0 := by
    rw [← UInt64.toNat_inj, hpart]
    rfl
  rw [sizeMismatch_iff]
  simp only [BackupEnv.header, hoffset, hzero, exists_eq_left, SizesPass]
  by_cases hwhole : env.partition.partOffset = 0 ∨ env.partition.partSize = 0
  · rw [if_pos hwhole, UInt64.sub_self]
    exact iff_of_true (fun h => absurd h.2 (by simp)) (hwhole.imp_right Or.inl)
  · obtain ⟨hoff, hpos⟩ := not_or.mp hwhole
    have hdiff : (UInt64.ofNat env.disk.diskSize - UInt64.ofNat env.partition.partSize).toNat =
        env.disk.diskSize - env.partition.partSize := by
      rw [UInt64.toNat_sub_of_le _ _ (by rw [UInt64.le_iff_toNat_le, hdisk, hpart]; omega), hdisk, hpart]
    rw [if_neg hwhole, hpart, hdiff, or_iff_right hoff, or_iff_right hpos, not_and, not_lt]
    exact ⟨fun h => h (Nat.pos_of_ne_zero hpos), fun h _ => h⟩

include hon in
/-- **A backup is accepted where it was made** exactly when the sizes pass. -/
theorem acceptedBack_iff {fs : LiveFs} {f : BackupFaults} {file : List UInt8}
    (hfile : backupCreateFile env fs f = some file) :
    (∃ es, backupEntries fs = some es ∧ AcceptedBack env (f.body es) file) ↔ SizesPass env := by
  obtain ⟨es, count, rest, hes, hread⟩ := readBackupHeader_create hfile
  constructor
  · rintro ⟨es', -, h, rest', hread', -, hsizes⟩
    rw [hread] at hread'
    obtain ⟨rfl, -⟩ := Prod.mk.inj (Option.some.inj hread')
    exact (sizeMismatch_onDisk_iff hon count _).mp hsizes
  · intro hsizes
    exact ⟨es, hes, _, rest, hread, rfl, (sizeMismatch_onDisk_iff hon count _).mpr hsizes⟩

end OnDisk

/-! ## A partition in the middle of a disk -/

/-- A partition of a disk of 1 MiB. -/
def partOfDisk (offset size : ℕ) : BackupEnv where
  disk := ⟨512, 1048576, fun _ => 0, fun _ _ => false⟩
  partition := ⟨offset, size, .fat16, 0⟩
  clusterBytes := 512
  dataOffset := 0
  created := 0
  model := []

theorem backupCreateFile_partOfDisk (offset size : ℕ) : ∃ file,
    backupCreateFile (partOfDisk offset size) (oneDirectory 5).fs noFaults = some file := by
  have hcount : (rootEntry :: ((oneDirectory 5).tree.paths backupMaxDepth).map (oneDirectory 5).entry).length =
      2 := by
    rw [length_cons, length_map]
    exact congrArg (· + 1) (oneDirectory_count 5)
  rw [backupCreateFile, if_neg (by decide), (oneDirectory 5).backupEntries_eq (oneDirectory_fits 5)]
  simp only [hcount]
  exact ⟨_, rfl⟩

/-- A partition that starts behind the first sector and takes up the rest is accepted. -/
theorem mostOfDisk_accepted : ∃ file,
    backupCreateFile (partOfDisk 512 1048064) (oneDirectory 5).fs noFaults = some file ∧
    ∃ es, backupEntries (oneDirectory 5).fs = some es ∧
      AcceptedBack (partOfDisk 512 1048064) (noFaults.body es) file := by
  obtain ⟨file, hfile⟩ := backupCreateFile_partOfDisk 512 1048064
  exact ⟨file, hfile, (@acceptedBack_iff (partOfDisk 512 1048064) ⟨by decide, by decide⟩ _ _ _ hfile).mpr
    (by decide)⟩

/-- A partition of 64 KiB is refused, although the file was written without a failure. -/
theorem partOfDisk_refused : PartitionOnDisk (partOfDisk 4096 65536).disk (partOfDisk 4096 65536).partition ∧
    ∃ file, backupCreateFile (partOfDisk 4096 65536) (oneDirectory 5).fs noFaults = some file ∧
      ∀ entries, ¬ AcceptedBack (partOfDisk 4096 65536) entries file := by
  have hon : PartitionOnDisk (partOfDisk 4096 65536).disk (partOfDisk 4096 65536).partition :=
    ⟨by decide, by decide⟩
  obtain ⟨file, hfile⟩ := backupCreateFile_partOfDisk 4096 65536
  refine ⟨hon, file, hfile, ?_⟩
  rintro entries ⟨h, rest, hread, -, hsizes⟩
  obtain ⟨es, count, rest', -, hread'⟩ := readBackupHeader_create hfile
  rw [hread'] at hread
  obtain ⟨rfl, -⟩ := Prod.mk.inj (Option.some.inj hread)
  exact absurd ((sizeMismatch_onDisk_iff hon count _).mp hsizes) (by decide)

end RecoveryQt
