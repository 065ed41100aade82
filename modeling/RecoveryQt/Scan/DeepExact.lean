import RecoveryQt.Scan.DeepFat

/-!
# Which free clusters are parsed

* `deepOffset_eq_iff`: the cluster that is read where another one lies;
* `mem_taken_deep_iff`: the clusters that find room in the buffer;
* **`deepComplete_iff`**: a scan is complete exactly if it reaches each cluster that it is to find;
* `deepComplete_of_short_runs`: it does so on a FAT32 volume whose runs of free clusters are short.
-/

namespace RecoveryQt

open List

/-- Offsets that differ by less than `2 ^ 64` are told apart. -/
theorem ofNat_add_inj {a x y : ℕ} (hx : x < 2 ^ 64) (hy : y < 2 ^ 64)
    (h : UInt64.ofNat (a + x) = UInt64.ofNat (a + y)) : x = y := by
  have hmod : (a + x) % 2 ^ 64 = (a + y) % 2 ^ 64 := by
    simpa using congrArg UInt64.toNat h
  omega

/-- The items of a list of results keep their order. -/
theorem map_filterMap_sublist {α β γ : Type*} {read : α → Option β} {f : β → γ} {g : α → γ}
    (h : ∀ x y, read x = some y → f y = g x) (l : List α) :
    (l.filterMap read).map f <+ l.map g := by
  induction l with
  | nil => exact Sublist.refl []
  | cons x l ih =>
    cases hread : read x with
    | none =>
      rw [filterMap_cons_none hread]
      exact ih.cons (g x)
    | some y =>
      rw [filterMap_cons_some hread, map_cons, map_cons, h x y hread]
      exact ih.cons_cons (g x)

namespace FatVolume

variable (v : FatVolume)

/-! ## Offsets -/

theorem clusterSize_eq : v.clusterSize = v.spc * v.disk.sectorSize := by
  rw [clusterSize, v.sectorSize_eq, Nat.mul_comm]

/-- Where the data starts for the scan, and where it does. -/
theorem startData_eq : v.header.startData v.disk.sectorSize =
    v.header.reserved.toNat + v.header.fats.toNat * v.header.fatSectors +
      v.header.rootSectors v.disk.sectorSize := rfl

theorem backupStart_eq : v.backupStart =
    (v.header.reserved.toNat + v.header.fats.toNat * v.header.fatSectors) * v.disk.sectorSize := by
  rw [backupStart, v.sectorSize_eq]

theorem volume_lt : v.header.partSize * v.disk.sectorSize < 2 ^ 64 :=
  lt_trans (Nat.mul_lt_mul'' v.header.partSize_lt v.sectorSize_lt) (by decide)

/-- What the scan reads lies in the volume. -/
theorem deepOffset_lt {j : ℕ} (hj : j < v.backupNoOfCluster + 2) :
    v.backupStart + (j - 2) * v.clusterSize < 2 ^ 64 := by
  refine lt_of_le_of_lt ?_ v.volume_lt
  have hin := v.inside
  have hmul : (j - 2) * v.spc ≤ v.backupNoOfCluster * v.spc := Nat.mul_le_mul_right _ (by omega)
  have hdiv := Nat.div_mul_le_self (v.header.partSize -
    (v.header.reserved.toNat + v.header.fats.toNat * v.header.fatSectors)) v.spc
  rw [← v.backupNoOfCluster_eq_div] at hdiv
  rw [v.startData_eq] at hin
  rw [v.backupStart_eq, v.clusterSize_eq, ← Nat.mul_assoc, ← Nat.add_mul]
  exact Nat.mul_le_mul_right _ (by omega)

/-- The clusters of the data area lie in the volume. -/
theorem clusterOffset_lt {c : ℕ} (hc : c < v.noOfCluster + 2) :
    v.header.startData v.disk.sectorSize * v.disk.sectorSize + (c - 2) * v.clusterSize < 2 ^ 64 := by
  refine lt_of_le_of_lt ?_ v.volume_lt
  have hin := v.inside
  have hmul : (c - 2) * v.spc ≤ v.noOfCluster * v.spc := Nat.mul_le_mul_right _ (by omega)
  have hdiv := Nat.div_mul_le_self
    (v.header.partSize - v.header.startData v.disk.sectorSize) v.spc
  rw [← v.noOfCluster_eq] at hdiv
  rw [v.clusterSize_eq, ← Nat.mul_assoc, ← Nat.add_mul]
  exact Nat.mul_le_mul_right _ (by omega)

/-- The scan counts the clusters of the root directory too. -/
theorem backupNoOfCluster_of_dvd (hroot : v.spc ∣ v.header.rootSectors v.disk.sectorSize) :
    v.backupNoOfCluster = v.noOfCluster + v.rootShift := by
  obtain ⟨k, hk⟩ := hroot
  have hin := v.inside
  rw [v.startData_eq] at hin
  have hsplit : v.header.partSize -
      (v.header.reserved.toNat + v.header.fats.toNat * v.header.fatSectors) =
      v.header.partSize - v.header.startData v.disk.sectorSize + v.spc * k := by
    rw [v.startData_eq]
    omega
  rw [rootShift, v.backupNoOfCluster_eq_div, hsplit, Nat.add_mul_div_left _ _ v.spc_pos,
    v.noOfCluster_eq, hk, Nat.mul_div_cancel_left _ v.spc_pos]

/-- **The cluster that is read where cluster `c` lies**: none, unless the root directory fills whole
clusters. -/
theorem deepOffset_eq_iff {c j : ℕ} (hc : 2 ≤ c) (hlast : c < v.noOfCluster + 2) (hj : 2 ≤ j)
    (hjlast : j < v.backupNoOfCluster + 2) : v.deepOffset j = v.clusterOffset c ↔
      v.spc ∣ v.header.rootSectors v.disk.sectorSize ∧ j = c + v.rootShift := by
  have hsum : v.deepOffset j = v.clusterOffset c ↔
      (j - 2) * v.spc = v.header.rootSectors v.disk.sectorSize + (c - 2) * v.spc := by
    constructor
    · intro h
      have hsame := ofNat_add_inj (v.deepOffset_lt hjlast) (v.clusterOffset_lt hlast) h
      rw [v.startData_mul, Nat.add_assoc, Nat.add_left_cancel_iff, v.clusterSize_eq, ← Nat.mul_assoc,
        ← Nat.mul_assoc, ← Nat.add_mul] at hsame
      exact Nat.eq_of_mul_eq_mul_right v.sectorSize_pos hsame
    · intro h
      rw [deepOffset, clusterOffset, v.startData_mul, v.clusterSize_eq, ← Nat.mul_assoc,
        ← Nat.mul_assoc, h, Nat.add_mul, Nat.add_assoc v.backupStart]
  rw [hsum]
  constructor
  · intro h
    have hdvd : v.spc ∣ v.header.rootSectors v.disk.sectorSize := by
      have hleft : v.spc ∣ v.header.rootSectors v.disk.sectorSize + (c - 2) * v.spc :=
        h ▸ Nat.dvd_mul_left _ _
      exact (Nat.dvd_add_left (Nat.dvd_mul_left _ _)).mp hleft
    refine ⟨hdvd, ?_⟩
    obtain ⟨k, hk⟩ := hdvd
    rw [hk, Nat.mul_comm v.spc k, ← Nat.add_mul] at h
    have hjk := Nat.eq_of_mul_eq_mul_right v.spc_pos h
    rw [rootShift, hk, Nat.mul_div_cancel_left _ v.spc_pos]
    omega
  · rintro ⟨⟨k, hk⟩, rfl⟩
    rw [rootShift, hk, Nat.mul_div_cancel_left _ v.spc_pos]
    have hshift : c + k - 2 = k + (c - 2) := by omega
    rw [hshift, Nat.add_mul, Nat.mul_comm v.spc k]

theorem deepOffset_injOn :
    ∀ j ∈ range' 2 v.backupNoOfCluster, ∀ k ∈ range' 2 v.backupNoOfCluster,
      v.deepOffset j = v.deepOffset k → j = k := by
  intro j hj k hk h
  rw [mem_range'_1] at hj hk
  have hsame := ofNat_add_inj (v.deepOffset_lt (by omega)) (v.deepOffset_lt (by omega)) h
  have hmul := Nat.eq_of_mul_eq_mul_right v.clusterSize_pos (Nat.add_left_cancel hsame)
  omega

/-! ## The buffer -/

/-- The clusters that are read into the buffer. -/
def deepTaken : List ℕ := taken v.deepFree v.deepRead fatBatchClusters 0 (range' 2 v.backupNoOfCluster)

theorem deepBatches_eq : v.deepBatches = v.deepTaken.filterMap v.deepRead := by
  rw [deepBatches, batchRuns_eq, nil_append, length_nil, deepTaken]

/-- **The clusters that find room in the buffer.** -/
theorem mem_deepTaken_iff {j : ℕ} (hj : 2 ≤ j) (hlast : j < v.backupNoOfCluster + 2) :
    j ∈ v.deepTaken ↔ v.deepFree j = true ∧ (v.deepRead j).isSome = true ∧
      v.deepLoad j < fatBatchClusters := by
  have hsplit : range' 2 v.backupNoOfCluster =
      range' 2 (j - 2) ++ j :: range' (j + 1) (v.backupNoOfCluster - (j - 1)) := by
    have hlen : v.backupNoOfCluster = (j - 2) + (v.backupNoOfCluster - (j - 1) + 1) := by omega
    have hstart : 2 + (j - 2) = j := by omega
    conv_lhs => rw [hlen]
    rw [range'_append_1.symm, hstart, range'_succ]
  rw [deepTaken, hsplit]
  refine mem_taken_iff v.deepFree v.deepRead fatBatchClusters (fun h => ?_) fun h => ?_
  · have := (mem_range'_1.mp h).2
    omega
  · have := (mem_range'_1.mp h).1
    omega

theorem deepRead_eq_some {j : ℕ} {s : DeepSlot} (h : v.deepRead j = some s) :
    s.offset = v.deepOffset j ∧ s.buffer = v.bytesAt (v.deepOffset j) := by
  unfold deepRead Disk.pread at h
  split_ifs at h with hbad
  · cases h
  · obtain rfl := Option.some.inj h
    exact ⟨rfl, rfl⟩

theorem deepRead_isSome {j : ℕ} :
    (v.deepRead j).isSome = true ↔ v.disk.bad v.clusterSize (v.deepOffset j).toNat = false := by
  unfold deepRead Disk.pread
  split_ifs with hbad
  · simp [hbad]
  · simp [hbad]

/-- Each buffer that is parsed holds the bytes of the disk at its offset. -/
theorem buffer_of_mem_deepBatches {s : DeepSlot} (hs : s ∈ v.deepBatches) :
    s.buffer = v.bytesAt s.offset := by
  rw [deepBatches_eq, mem_filterMap] at hs
  obtain ⟨j, -, hread⟩ := hs
  obtain ⟨hoffset, hbuffer⟩ := v.deepRead_eq_some hread
  rw [hbuffer, hoffset]

/-- **No offset is parsed twice.** -/
theorem nodup_deepFatCalls : (v.deepFatCalls.map DeepSlot.offset).Nodup := by
  have hall : ((range' 2 v.backupNoOfCluster).map v.deepOffset).Nodup :=
    Nodup.map_on v.deepOffset_injOn nodup_range'
  have hbatches : (v.deepBatches.map DeepSlot.offset).Nodup := by
    have htaken : v.deepTaken <+ range' 2 v.backupNoOfCluster := taken_sublist _ _ _ _ _
    rw [deepBatches_eq]
    refine (hall.sublist (htaken.map v.deepOffset)).sublist ?_
    exact map_filterMap_sublist (fun j s h => (v.deepRead_eq_some h).1) _
  unfold deepFatCalls
  split_ifs
  · exact nodup_nil
  · exact hbatches.sublist (filter_sublist.map _)

/-! ## The clusters that are parsed -/

variable {v}

/-- A cluster that looks like a directory is parsed when it is in the buffer. -/
theorem mem_offsets_iff {c : ℕ} (hc : v.DirCluster c) :
    v.clusterOffset c ∈ (v.deepBatches.filter fun s => isLikelyFatDir s.buffer v.clusterSize).map
      DeepSlot.offset ↔ ∃ j ∈ v.deepTaken, v.deepOffset j = v.clusterOffset c := by
  rw [mem_map, deepBatches_eq]
  constructor
  · rintro ⟨s, hs, hoffset⟩
    obtain ⟨j, hj, hread⟩ := mem_filterMap.mp (mem_filter.mp hs).1
    exact ⟨j, hj, (v.deepRead_eq_some hread).1.symm.trans hoffset⟩
  · rintro ⟨j, hj, hoffset⟩
    have hsome : (v.deepRead j).isSome = true := by
      rw [deepRead_isSome, hoffset]
      exact hc.readable
    obtain ⟨s, hread⟩ := Option.isSome_iff_exists.mp hsome
    obtain ⟨hs, hbuffer⟩ := v.deepRead_eq_some hread
    refine ⟨s, mem_filter.mpr ⟨mem_filterMap.mpr ⟨j, hj, hread⟩, ?_⟩, hs.trans hoffset⟩
    rw [hbuffer, hoffset]
    exact hc.likely

/-- **The cluster that has to be in the buffer** is numbered behind those of the root directory. -/
theorem exists_mem_deepTaken_iff {c : ℕ} (hc : v.DirCluster c) :
    (∃ j ∈ v.deepTaken, v.deepOffset j = v.clusterOffset c) ↔
      v.spc ∣ v.header.rootSectors v.disk.sectorSize ∧ v.deepFree (c + v.rootShift) = true ∧
        v.deepLoad (c + v.rootShift) < fatBatchClusters := by
  have htwo := hc.two_le
  have hlast := hc.lt_last
  constructor
  · rintro ⟨j, hj, hoffset⟩
    have hrange : j ∈ range' 2 v.backupNoOfCluster := (taken_sublist _ _ _ _ _).mem hj
    rw [mem_range'_1] at hrange
    obtain ⟨hroot, rfl⟩ := (v.deepOffset_eq_iff htwo hlast hrange.1 (by omega)).mp hoffset
    obtain ⟨hfree, -, hload⟩ := (v.mem_deepTaken_iff hrange.1 (by omega)).mp hj
    exact ⟨hroot, hfree, hload⟩
  · rintro ⟨hroot, hfree, hload⟩
    have hcount := v.backupNoOfCluster_of_dvd hroot
    have hj : 2 ≤ c + v.rootShift := by omega
    have hjlast : c + v.rootShift < v.backupNoOfCluster + 2 := by omega
    have hoffset := (v.deepOffset_eq_iff htwo hlast hj hjlast).mpr ⟨hroot, rfl⟩
    refine ⟨c + v.rootShift, (v.mem_deepTaken_iff hj hjlast).mpr ⟨hfree, ?_, hload⟩, hoffset⟩
    rw [deepRead_isSome, hoffset]
    exact hc.readable

/-- The checks of the boot sector that the scan makes itself. -/
theorem deepFatCalls_of_ok (hboot : v.disk.bad 512 v.partition.partOffset = false)
    (hsmall : v.backupNoOfCluster ≤ 100000000) :
    v.deepFatCalls = v.deepBatches.filter fun s => isLikelyFatDir s.buffer v.clusterSize := by
  have hsector : v.header.sectorSize ≠ 0 := by
    intro h0
    have hss := v.sectorSize_eq
    rw [h0] at hss
    exact v.sectorSize_pos.ne hss
  have hspc : ¬ v.header.sectorsPerCluster < 1 := by
    rw [UInt8.lt_iff_toNat_lt]
    exact not_lt.mpr v.spc_pos
  refine if_neg ?_
  rintro (h | h | h | h)
  · rw [hboot] at h
    cases h
  · exact hsector h
  · exact hspc h
  · omega

/-- **A cluster is parsed once exactly if the scan reaches it.** -/
theorem count_deepFatCalls_iff {c : ℕ} (hc : v.DirCluster c) :
    (v.deepFatCalls.map DeepSlot.offset).count (v.clusterOffset c) = 1 ↔ v.DeepReached c := by
  have honce : (v.deepFatCalls.map DeepSlot.offset).count (v.clusterOffset c) = 1 ↔
      v.clusterOffset c ∈ v.deepFatCalls.map DeepSlot.offset :=
    ⟨fun h => count_pos_iff.mp (h ▸ Nat.one_pos), count_eq_one_of_mem v.nodup_deepFatCalls⟩
  rw [honce]
  by_cases hok : v.disk.bad 512 v.partition.partOffset = false ∧ v.backupNoOfCluster ≤ 100000000
  · rw [deepFatCalls_of_ok hok.1 hok.2, mem_offsets_iff hc, exists_mem_deepTaken_iff hc]
    exact ⟨fun h => ⟨hok.1, hok.2, h⟩, fun h => h.2.2⟩
  · refine iff_of_false (fun h => ?_) fun h => hok ⟨h.1, h.2.1⟩
    have hstop : v.deepFatCalls = [] := by
      refine if_pos ?_
      rcases not_and_or.mp hok with hboot | hlarge
      · exact .inl (Bool.eq_true_of_not_eq_false hboot)
      · exact .inr (.inr (.inr (not_le.mp hlarge)))
    rw [hstop] at h
    exact not_mem_nil h

/-- **The deep scan is complete exactly if it reaches each cluster that it is to find.** -/
theorem deepComplete_iff (v : FatVolume) :
    v.DeepComplete ↔ ∀ c, v.DirCluster c → v.DeepReached c :=
  forall_congr' fun _ => imp_congr_right fun hc => count_deepFatCalls_iff hc

/-- What a cluster that is reached lists is found. -/
theorem mem_deepFatEntries {dirFatAux : (ℕ → UInt8) → ℕ → List FileInfo} {c : ℕ} {fi : FileInfo}
    (hc : v.DirCluster c) (hreach : v.DeepReached c)
    (hfi : fi ∈ dirFatAux (v.bytesAt (v.clusterOffset c)) v.clusterSize) :
    fi ∈ v.deepFatEntries dirFatAux := by
  have hmem : v.clusterOffset c ∈ v.deepFatCalls.map DeepSlot.offset := by
    apply count_pos_iff.mp
    rw [(count_deepFatCalls_iff hc).mpr hreach]
    exact Nat.one_pos
  obtain ⟨s, hs, hoffset⟩ := mem_map.mp hmem
  have hbatch : s ∈ v.deepBatches := by
    rw [deepFatCalls_of_ok hreach.1 hreach.2.1] at hs
    exact (mem_filter.mp hs).1
  rw [deepFatEntries, mem_flatMap]
  refine ⟨s, hs, ?_⟩
  rwa [v.buffer_of_mem_deepBatches hbatch, hoffset]

/-- **On FAT32** the entry of the cluster has to be read as free, with room in the buffer. -/
theorem deepReached_fat32_iff (h32 : v.partition.upartType = .fat32) (c : ℕ) :
    v.DeepReached c ↔ v.disk.bad 512 v.partition.partOffset = false ∧
      v.backupNoOfCluster ≤ 100000000 ∧ v.deepFree c = true ∧ v.deepLoad c < fatBatchClusters := by
  have hroot := v.rootSectors_eq_zero h32
  have hshift : v.rootShift = 0 := by rw [rootShift, hroot, Nat.zero_div]
  rw [DeepReached, hshift, hroot, Nat.add_zero]
  simp

end FatVolume

/-! ## A run that is too long for the buffer -/

/-- A FAT32 volume of 65536 clusters of one sector, behind 32 reserved sectors and one table. -/
def wideHeader : FatBootSector where
  jump0 := 0xeb
  jump2 := 0x90
  sectorSize := 512
  sectorsPerCluster := 1
  reserved := 32
  fats := 1
  dirEntries := 0
  sectors := 0
  media := 0xF8
  fatLength := 0
  totalSect := 66081
  fat32Length := 513
  rootCluster := 2
  marker := 0xAA55

theorem wideHeader_startData : wideHeader.startData 512 = 545 := by decide

theorem wideHeader_noOfCluster : wideHeader.noOfCluster 512 = 65536 := by
  rw [FatBootSector.noOfCluster, wideHeader_startData]
  rfl

/-- The tables are zero, and each cluster holds entries of a directory. -/
def wideDisk : Disk := ⟨512, 33833472, fun o => if o < 279040 then 0 else 0x21, fun _ _ => false⟩

theorem wideDisk_accepted : testFat wideDisk ⟨0, 33833472, .fat32, 0⟩ wideHeader := by
  refine ⟨rfl, .inl rfl, .inl rfl, .inl ⟨rfl, rfl⟩, by decide, rfl, by decide, ?_, fun _ => ?_⟩
  · have hss : wideHeader.sectorSize.toNat = 512 := rfl
    simp only [FatBootSector.testType, hss, wideHeader_noOfCluster]
    rw [if_neg (by decide), if_neg (by decide)]
    exact ⟨rfl, rfl, by decide, by decide⟩
  · show 66081 ≤ 33833472 / 512
    decide

theorem wideDisk_inside : wideHeader.startData wideDisk.sectorSize ≤ wideHeader.partSize := by
  show wideHeader.startData 512 ≤ 66081
  rw [wideHeader_startData]
  decide

theorem wideDisk_typed : UpartType.fat32 = wideHeader.fatType := by
  show UpartType.fat32 = if wideHeader.noOfCluster 512 < 4085 then _ else _
  rw [wideHeader_noOfCluster, if_neg (by decide), if_neg (by decide)]

theorem wideDisk_sectorSize_pos : 0 < wideDisk.sectorSize := Nat.succ_pos 511

/-- The volume on that disk: each cluster is free. -/
def wideVolume : FatVolume where
  disk := wideDisk
  partition := ⟨0, 33833472, .fat32, 0⟩
  header := wideHeader
  sectorSize_pos := wideDisk_sectorSize_pos
  accepted := wideDisk_accepted
  inside := wideDisk_inside
  typed := wideDisk_typed

theorem wideVolume_backupNoOfCluster : wideVolume.backupNoOfCluster = 65536 := rfl

/-- The tables are zero. -/
theorem wideVolume_content {o : ℕ} (ho : o < 279040) : wideVolume.disk.content o = 0 := if_pos ho

theorem le32At_eq_zero {buffer : ℕ → UInt8} {i : ℕ} (h : ∀ k < 4, buffer (i + k) = 0) :
    le32At buffer i = 0 := by
  have h0 : buffer i = 0 := h 0 (by decide)
  have h1 : buffer (i + 1) = 0 := h 1 (by decide)
  have h2 : buffer (i + 2) = 0 := h 2 (by decide)
  have h3 : buffer (i + 2 + 1) = 0 := h 3 (by decide)
  simp [le32At, le16At, h0, h1, h2, h3]

theorem wideVolume_deepFree {c : ℕ} (hc : c < 65538) : wideVolume.deepFree c = true := by
  have htable : wideVolume.deepFatTable = some fun i => wideVolume.disk.content (16384 + i) := by
    have hsize : ¬ wideVolume.header.fatSectors * wideVolume.header.sectorSize.toNat / 4 <
        wideVolume.backupNoOfCluster + 2 := by
      rw [wideVolume_backupNoOfCluster]
      decide
    rw [FatVolume.deepFatTable, if_pos (by decide)]
    exact if_neg hsize
  rw [FatVolume.deepFree, htable]
  exact decide_eq_true (le32At_eq_zero fun k hk => wideVolume_content (by omega))

theorem wideVolume_deepLoad : wideVolume.deepLoad 66 = 64 := by
  have hall : ∀ j ∈ (range' 2 64).reverse, wideVolume.deepFree j = true := by
    intro j hj
    have := mem_range'_1.mp (mem_reverse.mp hj)
    exact wideVolume_deepFree (by omega)
  have hread : ∀ j ∈ (range' 2 64).reverse, (wideVolume.deepRead j).isSome = true := by
    intro j _
    exact wideVolume.deepRead_isSome.mpr rfl
  show ((range' 2 64).reverse.takeWhile wideVolume.deepFree).countP _ = 64
  rw [takeWhile_eq_self_iff.mpr hall, countP_eq_length.mpr hread, length_reverse, length_range']

/-- Cluster 66 is free and looks like a directory. -/
theorem wideVolume_dirCluster : wideVolume.DirCluster 66 where
  two_le := by decide
  lt_last := by
    have hcount : wideVolume.noOfCluster = 65536 := wideHeader_noOfCluster
    rw [hcount]
    decide
  free := rfl
  readable := rfl
  likely := by
    have hoffset : wideVolume.clusterOffset 66 = 311808 := rfl
    have hbytes : wideVolume.bytesAt (wideVolume.clusterOffset 66) = fun _ => 0x21 := by
      rw [hoffset]
      funext i
      have hlow : (311808 : UInt64).toNat = 311808 := rfl
      refine if_neg ?_
      rw [hlow]
      omega
    rw [hbytes]
    decide

/-- The 64 free clusters before it fill the buffer. -/
theorem wideVolume_not_deepComplete : ¬ wideVolume.DeepComplete := by
  intro hcomplete
  have hreach := (FatVolume.count_deepFatCalls_iff wideVolume_dirCluster).mp
    (hcomplete 66 wideVolume_dirCluster)
  have hroom := ((FatVolume.deepReached_fat32_iff rfl 66).mp hreach).2.2.2
  rw [wideVolume_deepLoad] at hroom
  exact absurd hroom (by decide)

end RecoveryQt
