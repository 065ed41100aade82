import RecoveryQt.Backup.Diff
import RecoveryQt.Backup.RoundTrip

/-!
# Backup files that were cut

* `LiveFs.length_lt_of_mem_walk`, `recordable_of_mem_backupEntries`: the entries of a backup can be read;
* `BackupEnv.Restores`, **`backupRestore_success_iff`**: when a comparison succeeds;
* `LoadedWhole`: it does so with all the entries that the header announces;
* **`loadedWhole_iff`**: what is left of a file is not loaded in part exactly when its fixed header was cut,
  the comparison fails anyway, or the entries announced are still there;
* `headerOnly_not_loadedWhole`: a file of two entries, cut behind the header, is loaded without them.
-/

namespace RecoveryQt

open List

/-! ## The entries of a backup -/

theorem length_joinPath_lt (path name : List UInt8) : (joinPath path name).length < backupMaxPath := by
  rw [joinPath, length_take]
  unfold backupMaxPath
  omega

namespace LiveFs

variable {fs : LiveFs}

/-- The paths listed for a directory fit in the buffer, if those of the directories below it do. -/
theorem length_lt_of_mem_listDir {strict : Bool} {room : ℕ}
    (hbelow : ∀ known path inode l, fs.walk strict room known path inode = some l →
      ∀ x ∈ l, x.1.length < backupMaxPath) {known : List ℕ} {path : List UInt8} {dirList : List FileInfo}
    {l : List (List UInt8 × FileInfo)} (h : fs.listDir strict room known path dirList = some l) :
    ∀ x ∈ l, x.1.length < backupMaxPath := by
  induction dirList generalizing l with
  | nil =>
    obtain rfl : [] = l := Option.some.inj h
    exact fun x hx => absurd hx not_mem_nil
  | cons fi dirList ih =>
    rw [listDir_cons] at h
    obtain ⟨first, hfirst, h⟩ := Option.bind_eq_some_iff.mp h
    obtain ⟨rest, hrest, rfl⟩ := Option.map_eq_some_iff.mp h
    intro x hx
    rcases mem_append.mp hx with hx | hx
    · split_ifs at hfirst with hskip hdir
      · obtain rfl := Option.some.inj hfirst
        cases hx
      · -- a directory that is descended into
        cases hnested : fs.walk strict room known (joinPath path fi.name) fi.stIno with
        | none =>
          rw [hnested, listEntry] at hfirst
          split_ifs at hfirst
          obtain rfl := Option.some.inj hfirst
          rw [mem_singleton.mp hx]
          exact length_joinPath_lt path fi.name
        | some nested =>
          rw [hnested] at hfirst
          obtain rfl := Option.some.inj hfirst
          rcases mem_cons.mp hx with rfl | hx
          · exact length_joinPath_lt path fi.name
          · exact hbelow _ _ _ _ hnested x hx
      · obtain rfl := Option.some.inj hfirst
        rw [mem_singleton.mp hx]
        exact length_joinPath_lt path fi.name
    · exact ih hrest x hx

/-- **Every path that a walk lists fits in the buffer.** -/
theorem length_lt_of_mem_walk {strict : Bool} {room inode : ℕ} {known : List ℕ} {path : List UInt8}
    {l : List (List UInt8 × FileInfo)} (h : fs.walk strict room known path inode = some l) :
    ∀ x ∈ l, x.1.length < backupMaxPath := by
  induction room generalizing known path inode l with
  | zero =>
    obtain rfl : [] = l := Option.some.inj h
    exact fun x hx => absurd hx not_mem_nil
  | succ room ih =>
    cases hget : fs.getDir inode with
    | none =>
      rw [walk, hget] at h
      cases h
    | some dirList =>
      rw [walk_succ hget] at h
      exact length_lt_of_mem_listDir (fun _ _ _ _ hl => ih hl) h

end LiveFs

/-- The entries of a backup are read, whatever their names. -/
theorem readBackupEntry_of_mem_backupEntries {fs : LiveFs} {es : List BackupEntry}
    (hes : backupEntries fs = some es) : ∀ e ∈ es, ∀ s,
      readBackupEntry (writeBackupEntry e ++ s) = some (e.asRead, s) := by
  obtain ⟨l, hl, rfl⟩ := Option.map_eq_some_iff.mp hes
  intro e he
  rcases mem_cons.mp he with rfl | he
  · exact readBackupEntry_asRead rootEntry (by decide) (by decide)
  · obtain ⟨x, hx, rfl⟩ := mem_map.mp he
    have hpath : (backupEntry fs x.1 x.2).path = x.1 := (backupEntry_fields fs x.1 x.2).1
    have hclusters : (backupEntry fs x.1 x.2).clusters.length < 2 ^ 32 := by
      rw [backupEntry]
      dsimp only
      split_ifs
      · exact Nat.two_pow_pos 32
      · exact Nat.two_pow_pos 32
      · exact (fs.collect x.2).length_lt
    refine readBackupEntry_asRead _ ?_ hclusters
    rw [hpath]
    exact LiveFs.length_lt_of_mem_walk hl x hx

theorem streams_readCluster : Streams readCluster := by
  have h : Streams fun s => (takeBytes 8 s).bind fun x => some (UInt64.ofNat (leNat x.1), x.2) := by
    apply (streams_takeBytes 8).bind
    intro l
    exact streams_some (UInt64.ofNat (leNat l))
  intro s t a rest hs
  rw [readCluster, Option.map_eq_bind] at hs ⊢
  exact h s t a rest hs

theorem streams_readBackupEntry : Streams readBackupEntry := by
  apply Streams.bind (streams_takeBytes 27)
  intro buffer
  apply Streams.bind (streams_takeBytes _)
  intro path
  apply Streams.ite
  · apply (streams_readCluster.readMany _).bind
    intro clusters
    exact streams_some _
  · apply (streams_some []).bind
    intro clusters
    exact streams_some _

/-! ## The comparison -/

/-- The comparison goes through with this header: the disk is not taken for another one, and the live
filesystem can be listed and fits in the array. -/
def BackupEnv.Restores (env : BackupEnv) (fs : LiveFs) (h : BackupHeader) : Prop :=
  ¬ sizeMismatch (UInt64.ofNat env.disk.diskSize) h ∧
    ∃ live, fs.walk true backupMaxDepth [] rootPath fs.currentInode = some live ∧
      live.length ≤ (liveCapacity (UInt32.ofNat ((fs.walk false backupMaxDepth [] rootPath
        fs.currentInode).elim 0 length)) h.fileCount).toNat

/-- **A comparison succeeds** exactly when the header can be read and it goes through. -/
theorem backupRestore_success_iff (env : BackupEnv) (fs : LiveFs) (file : List UInt8) (t : ScanTree) :
    (backupRestore env fs file t).2 = true ↔
      ∃ h body, readBackupHeader file = some (h, body) ∧ env.Restores fs h := by
  rw [backupRestore]
  cases hheader : readBackupHeader file with
  | none => simp
  | some x =>
    obtain ⟨h, body⟩ := x
    simp only [BackupEnv.Restores, Option.some.injEq, Prod.mk.injEq, and_assoc]
    split_ifs with hsize
    · simp [hsize]
    · cases hlive : fs.walk true backupMaxDepth [] rootPath fs.currentInode with
      | none => simp
      | some live =>
        simp only
        split_ifs with hcap
        · simp [hcap]
        · simp [hsize, Nat.le_of_not_lt hcap]

/-- The comparison of a file does not succeed with fewer entries than its header announces. -/
def LoadedWhole (env : BackupEnv) (fs : LiveFs) (file : List UInt8) : Prop :=
  ∀ t, (backupRestore env fs file t).2 = true → ∃ h es, readBackup file = some (h, es) ∧
    es.length = h.fileCount.toNat

/-! ## Files that were cut -/

/-- The fixed part of a header is refused when it is cut. -/
theorem readBackupHeader_short {p : List UInt8} (hlen : p.length < backupHeaderSize) :
    readBackupHeader p = none := by
  rw [readBackupHeader, takeBytes, if_neg (Nat.not_le.mpr hlen)]

/-- **What is read of a file that was cut behind the fixed part of its header.** -/
theorem readBackupHeader_cut (h : BackupHeader) {p s : List UInt8} (hp : p <+: writeBackupHeader h ++ s)
    (hlen : backupHeaderSize ≤ p.length) : ∃ m, readBackupHeader p =
      some ({ h with model := m }, p.drop (writeBackupHeader h).length) := by
  rw [writeBackupHeader, append_assoc, append_assoc] at hp
  obtain ⟨q, rfl⟩ := prefix_of_prefix_length_le (prefix_append _ _) hp (by rwa [length_headerBytes])
  exact ⟨_, readBackupHeader_fixed h q⟩

/-- Such a file is not loaded in part exactly when the comparison fails, or all entries are read. -/
theorem loadedWhole_cut_iff (env : BackupEnv) (fs : LiveFs) (h : BackupHeader) {p s : List UInt8}
    (hp : p <+: writeBackupHeader h ++ s) (hlen : backupHeaderSize ≤ p.length) : LoadedWhole env fs p ↔
      ¬ env.Restores fs h ∨ (readUpTo readBackupEntry h.fileCount.toNat
        (p.drop (writeBackupHeader h).length)).length = h.fileCount.toNat := by
  obtain ⟨m, hread⟩ := readBackupHeader_cut h hp hlen
  have hsuccess : ∀ t, (backupRestore env fs p t).2 = true ↔ env.Restores fs h := by
    intro t
    rw [backupRestore_success_iff, hread]
    constructor
    · rintro ⟨_, _, heq, hrestores⟩
      obtain ⟨rfl, -⟩ := Prod.mk.inj (Option.some.inj heq)
      exact hrestores
    · exact fun hrestores => ⟨_, _, rfl, hrestores⟩
  have hbackup : readBackup p = some ({ h with model := m }, readUpTo readBackupEntry
      h.fileCount.toNat (p.drop (writeBackupHeader h).length)) := by
    rw [readBackup, hread]
    rfl
  rw [LoadedWhole, ← imp_iff_not_or]
  constructor
  · intro hwhole hrestores
    obtain ⟨h', es, heq, hcount⟩ := hwhole treeNew ((hsuccess treeNew).mpr hrestores)
    obtain ⟨rfl, rfl⟩ := Prod.mk.inj (Option.some.inj (hbackup.symm.trans heq))
    exact hcount
  · exact fun hcount t ht => ⟨_, _, hbackup, hcount ((hsuccess t).mp ht)⟩

theorem length_writeBackupEntry_pos (e : BackupEntry) : 0 < (writeBackupEntry e).length := by
  rw [writeBackupEntry, length_append, length_append, length_entryBytes]
  omega

section Cut

variable {env₀ : BackupEnv} {fs₀ : LiveFs} {es : List BackupEntry}

/-- The header of a backup of these entries. -/
def BackupEnv.writtenHeader (env₀ : BackupEnv) (es : List BackupEntry) : BackupHeader :=
  env₀.header (UInt32.ofNat es.length)

/-- The bytes of the header and of the entries that it announces. -/
def announcedLength (env₀ : BackupEnv) (es : List BackupEntry) : ℕ :=
  (writeBackupHeader (env₀.writtenHeader es)).length +
    ((es.take (es.length % 2 ^ 32)).flatMap writeBackupEntry).length

/-- **What is left of a file is not loaded in part** exactly when the fixed header was cut, the comparison
fails anyway, or the entries announced are still there. -/
theorem loadedWhole_iff (hes : backupEntries fs₀ = some es) {file : List UInt8}
    (hfile : backupCreate env₀ fs₀ = some file) {p : List UInt8} (hp : p <+: file)
    (env : BackupEnv) (fs : LiveFs) : LoadedWhole env fs p ↔
      p.length < backupHeaderSize ∨ ¬ env.Restores fs (env₀.writtenHeader es) ∨
        announcedLength env₀ es ≤ p.length := by
  rw [backupCreate, hes] at hfile
  simp only at hfile
  split_ifs at hfile with hone
  obtain rfl : writeBackupHeader (env₀.writtenHeader es) ++ es.flatMap writeBackupEntry = file :=
    Option.some.inj hfile
  rcases lt_or_ge p.length backupHeaderSize with hshort | hlen
  · refine iff_of_true (fun t ht => ?_) (.inl hshort)
    obtain ⟨h, body, hread, -⟩ := (backupRestore_success_iff env fs p t).mp ht
    rw [readBackupHeader_short hshort] at hread
    cases hread
  -- the entries announced, and the bytes left of them
  have hcount : (env₀.writtenHeader es).fileCount.toNat = (es.take (es.length % 2 ^ 32)).length := by
    rw [length_take, Nat.min_eq_left (Nat.mod_le _ _)]
    exact UInt32.toNat_ofNat'
  have hbody : p.drop (writeBackupHeader (env₀.writtenHeader es)).length <+:
      (es.take (es.length % 2 ^ 32)).flatMap writeBackupEntry ++
        (es.drop (es.length % 2 ^ 32)).flatMap writeBackupEntry := by
    have hdrop := hp.drop (writeBackupHeader (env₀.writtenHeader es)).length
    rwa [drop_left, ← take_append_drop (es.length % 2 ^ 32) es, flatMap_append,
      take_append_drop] at hdrop
  have hpos : 0 < ((es.take (es.length % 2 ^ 32)).flatMap writeBackupEntry).length := by
    have hne : es.take (es.length % 2 ^ 32) ≠ [] := by
      rw [ne_eq, ← length_eq_zero_iff, ← hcount]
      intro hzero
      exact hone (UInt32.le_iff_toNat_le.mpr (hzero ▸ Nat.zero_le 1))
    obtain ⟨e, l, hl⟩ := exists_cons_of_ne_nil hne
    rw [hl, flatMap_cons, length_append]
    exact Nat.add_pos_left (length_writeBackupEntry_pos e) _
  have hread : ∀ e ∈ es.take (es.length % 2 ^ 32), ∀ s,
      readBackupEntry (writeBackupEntry e ++ s) = some (e.asRead, s) :=
    fun e he => readBackupEntry_of_mem_backupEntries hes e (mem_of_mem_take he)
  rw [loadedWhole_cut_iff env fs _ hp hlen, hcount,
    length_readUpTo_iff streams_readBackupEntry hread hbody, length_drop, announcedLength,
    or_iff_right (Nat.not_lt.mpr hlen)]
  apply or_congr_right
  omega

end Cut

/-! ## A file without its entries -/

/-- The file of the root and a directory. -/
def directoryFile : List UInt8 := backupFile wholeDisk (oneDirectory 5)

theorem backupCreate_directoryFile :
    backupCreate wholeDisk (oneDirectory 5).fs = some directoryFile := by
  rw [backupCreate_eq wholeDisk (oneDirectory_fits 5) (by rw [oneDirectory_count]; decide),
    oneDirectory_count]
  rfl

theorem wholeDisk_restores :
    wholeDisk.Restores (oneDirectory 5).fs (wholeDisk.header (UInt32.ofNat 2)) := by
  refine ⟨by decide, _, (oneDirectory 5).walk_eq (oneDirectory_fits 5) true, ?_⟩
  rw [(oneDirectory 5).walk_eq (oneDirectory_fits 5) false, Option.elim_some, length_map]
  show (oneDirectory 5).count ≤ (liveCapacity (UInt32.ofNat (oneDirectory 5).count) 2).toNat
  rw [oneDirectory_count]
  decide

/-- The header alone is loaded, without the two entries that it announces. -/
theorem headerOnly_not_loadedWhole : ∃ p, p <+: directoryFile ∧ p ≠ directoryFile ∧
    backupCreate wholeDisk (oneDirectory 5).fs = some directoryFile ∧
    ¬ LoadedWhole wholeDisk (oneDirectory 5).fs p := by
  have hheader : wholeDisk.header (UInt32.ofNat ((oneDirectory 5).count + 1)) =
      wholeDisk.header (UInt32.ofNat 2) := by rw [oneDirectory_count]
  have hlen : (writeBackupHeader (wholeDisk.header (UInt32.ofNat 2))).length = backupHeaderSize :=
    length_writeBackupHeader _
  refine ⟨writeBackupHeader (wholeDisk.header (UInt32.ofNat 2)), ?_, ?_, backupCreate_directoryFile, ?_⟩
  · rw [directoryFile, backupFile, hheader]
    exact prefix_append _ _
  · rw [directoryFile, backupFile, hheader]
    intro h
    have hnil := self_eq_append_right.mp h
    rw [flatMap_cons, append_eq_nil_iff] at hnil
    exact absurd (congrArg length hnil.1) (length_writeBackupEntry_pos rootEntry).ne'
  · rw [loadedWhole_cut_iff _ _ _ (prefix_append _ []) hlen.ge, drop_length]
    intro h
    rcases h with h | h
    · exact h wholeDisk_restores
    · cases h

/-- A file of ten bytes is refused. -/
theorem shortHeader_loadedWhole : LoadedWhole wholeDisk (oneDirectory 5).fs (directoryFile.take 10) := by
  have htake : directoryFile.take 10 <+: directoryFile := take_prefix 10 _
  apply (loadedWhole_iff ((oneDirectory 5).backupEntries_eq (oneDirectory_fits 5))
    backupCreate_directoryFile htake wholeDisk (oneDirectory 5).fs).mpr
  left
  rw [length_take]
  exact (Nat.min_le_left 10 _).trans_lt (by decide)

end RecoveryQt
