import RecoveryQt.Ext2.Exact
import RecoveryQt.Ntfs.Exact

/-!
# Cluster lists as positions in a file

* **`clusterLists_locate_iff`**: when each of the three cluster lists locates its file;
* `sparse_files_not_located`, `plain_files_located`: files with a hole, and files without one.
-/

namespace RecoveryQt

open List

/-- **The three cluster lists.** A list has the location of every cluster of its file exactly when
the ext2 file is small and has no hole, the NTFS file that is backed up is not too large and has no
hole, and the recovered NTFS file has its holes behind its end. -/
theorem clusterLists_locate_iff (fs : Ext2Fs) (inode : Ext2Inode) (attr : NtfsAttr) (data : MftData)
    (clusterSize : ℕ) (size : UInt64) (list : List UInt64) :
    (inode.WellFormed fs → ext2CollectBlocks fs inode = some list →
      (Locates (inode.location fs) (inode.blockCount fs) list ↔
        inode.blockCount fs ≤ 13 ∧ ∀ j < inode.blockCount fs, inode.blockMap fs j ≠ 0)) ∧
      (ntfsCollectClusters attr clusterSize = some list →
        (Locates (attr.location clusterSize) (attr.clusterCount clusterSize) list ↔
          attr.clusterCount clusterSize ≤ backupMaxClusters ∧
            ∀ j < attr.clusterCount clusterSize, attr.mapRunlist j = true ∧ 0 ≤ attr.vcnToLcn j)) ∧
      (ntfsFillClusters clusterSize size data = some list →
        (Locates (data.location clusterSize) (data.clusterCount clusterSize) list ↔
          ∃ dataSize rl, data = .nonResident dataSize (some rl) ∧
            data.clusterCount clusterSize ≤ (rl.places clusterSize).length ∧
            ∀ j (hj : j < (rl.places clusterSize).length),
              (rl.places clusterSize)[j] = none ↔ data.clusterCount clusterSize ≤ j)) := by
  refine ⟨?_, ?_, ?_⟩
  · intro hwf h
    exact ext2_locates_iff hwf h
  · intro h
    exact ntfsCollect_locates_iff h
  · intro h
    exact ntfsFill_locates_iff h

/-! ## Files of two clusters -/

/-- Blocks of 1024 bytes, and no indirect block. -/
def smallFs : Ext2Fs := ⟨10, by decide, fun _ => none⟩

/-- A file of two blocks; the first may be a hole. -/
def twoBlocks (first : UInt32) : Ext2Inode :=
  ⟨2048, 4, fun i => if i = 0 then first else if i = 1 then 21 else 0⟩

theorem twoBlocks_blockMap (first : UInt32) (j : ℕ) : (twoBlocks first).blockMap smallFs j =
    if j = 0 then first.toNat else if j = 1 then 21 else 0 := by
  have hindirect : ∀ level i, smallFs.lookup level (UInt32.toNat 0) i = 0 := by
    intro level i
    cases level <;> rfl
  have hhigh : ∀ i, 2 ≤ i → (twoBlocks first).iBlock i = 0 := by
    intro i hi
    show (if i = 0 then first else if i = 1 then 21 else 0) = 0
    rw [if_neg (by omega), if_neg (by omega)]
  unfold Ext2Inode.blockMap
  rw [hhigh 12 (by omega), hhigh 13 (by omega), hhigh 14 (by omega)]
  simp only [hindirect, ite_self]
  by_cases hj : j < 2
  · obtain rfl | rfl : j = 0 ∨ j = 1 := by omega
    · rfl
    · rfl
  · have hnone : (if j = 0 then first.toNat else if j = 1 then 21 else 0) = 0 := by
      rw [if_neg (by omega), if_neg (by omega)]
    rw [hhigh j (by omega), hnone]
    exact ite_self 0

theorem twoBlocks_blockCount (first : UInt32) : (twoBlocks first).blockCount smallFs = 2 := by
  simp [Ext2Inode.blockCount, twoBlocks, Ext2Fs.blockSize, smallFs]

theorem twoBlocks_collect (first : UInt32) : ext2CollectBlocks smallFs (twoBlocks first) =
    some ((if first = 0 then [] else [smallFs.position first.toNat]) ++ [smallFs.position 21]) := by
  have hdirect : (twoBlocks first).direct smallFs =
      (if first = 0 then [] else [smallFs.position first.toNat]) ++ [smallFs.position 21] := by
    simp [Ext2Inode.direct, twoBlocks, range_succ]
  have hindirect : ∀ level, (twoBlocks first).indirect smallFs level = some [] := by
    intro level
    apply if_pos
    show (if 12 + level = 0 then first else if 12 + level = 1 then 21 else 0) = 0
    rw [if_neg (by omega), if_neg (by omega)]
  rw [ext2CollectBlocks, hindirect, hindirect, hindirect, hdirect]
  simp

theorem twoBlocks_wellFormed {first : UInt32} (h : first ≠ 21) :
    (twoBlocks first).WellFormed smallFs where
  distinct i j hij hj _ := by
    rw [twoBlocks_blockCount] at hj
    rw [twoBlocks_blockMap, twoBlocks_blockMap, if_pos (by omega), if_neg (by omega),
      if_pos (by omega)]
    exact fun heq => h (UInt32.toNat_inj.mp heq)
  behind j hj := by
    rw [twoBlocks_blockCount] at hj
    rw [twoBlocks_blockMap, if_neg (by omega), if_neg (by omega)]
  double _ := rfl
  triple _ := rfl

/-- A data attribute of two clusters; the first may be a hole. -/
def twoClusters (first : ℤ) : NtfsAttr :=
  ⟨8192, fun _ => true, fun vcn => if vcn = 0 then first else 9⟩

theorem twoClusters_collect (first : ℤ) : ntfsCollectClusters (twoClusters first) 4096 = some
    ((if first < 0 then [] else [lcnPosition 4096 first.toNat]) ++ [lcnPosition 4096 9]) := by
  have hcount : (twoClusters first).clusterCount 4096 = 1 + 1 := by
    simp [NtfsAttr.clusterCount, twoClusters]
  have hcapacity : (twoClusters first).capacity 4096 = 3 := by
    rw [NtfsAttr.capacity, hcount]
    simp [twoClusters, backupMaxClusters]
  rw [ntfsCollectClusters, hcount]
  simp only [NtfsAttr.collectFrom, hcapacity]
  simp only [twoClusters]
  split_ifs <;> simp_all

/-- The run list of a file of two clusters. -/
def twoRuns (first : NtfsLcn) : NtfsRunlist := ⟨[(first, 1), (.at 9, 1)], by simp, by simp⟩

theorem twoRuns_fill (first : NtfsLcn) :
    ntfsFillClusters 4096 8192 (.nonResident 8192 (some (twoRuns first))) =
      some (NtfsRunlist.listRun 4096 (first, 1) ++ [lcnPosition 4096 9]) := by
  simp [ntfsFillClusters, twoRuns, NtfsRunlist.listRun]

/-- Each of the three functions shifts the clusters behind a hole. -/
theorem sparse_files_not_located :
    ((twoBlocks 0).WellFormed smallFs ∧
      ext2CollectBlocks smallFs (twoBlocks 0) = some [smallFs.position 21] ∧
      ¬ Locates ((twoBlocks 0).location smallFs) ((twoBlocks 0).blockCount smallFs)
        [smallFs.position 21]) ∧
      (ntfsCollectClusters (twoClusters (-1)) 4096 = some [lcnPosition 4096 9] ∧
        ¬ Locates ((twoClusters (-1)).location 4096) ((twoClusters (-1)).clusterCount 4096)
          [lcnPosition 4096 9]) ∧
      ntfsFillClusters 4096 8192 (.nonResident 8192 (some (twoRuns .hole))) =
        some [lcnPosition 4096 9] ∧
        ¬ Locates (MftData.location (.nonResident 8192 (some (twoRuns .hole))) 4096)
          (MftData.clusterCount (.nonResident 8192 (some (twoRuns .hole))) 4096)
          [lcnPosition 4096 9] := by
  refine ⟨⟨twoBlocks_wellFormed (by decide), twoBlocks_collect 0, ?_⟩, ⟨twoClusters_collect (-1), ?_⟩,
    twoRuns_fill .hole, ?_⟩
  · intro h
    exact absurd h.length_eq (by rw [twoBlocks_blockCount]; decide)
  · intro h
    exact absurd h.length_eq (by decide)
  · intro h
    exact absurd h.length_eq (by decide)

/-- Files without a hole are located. -/
theorem plain_files_located :
    Locates ((twoBlocks 20).location smallFs) 2
      [smallFs.position 20, smallFs.position 21] ∧
      Locates ((twoClusters 8).location 4096) 2 [lcnPosition 4096 8, lcnPosition 4096 9] ∧
      Locates (MftData.location (.nonResident 8192 (some (twoRuns (.at 4)))) 4096) 2
        [lcnPosition 4096 4, lcnPosition 4096 9] := by
  refine ⟨?_, ?_, ?_⟩
  · apply ((clusterLists_locate_iff smallFs (twoBlocks 20) (twoClusters 8) .missing 4096 8192 _).1
      (twoBlocks_wellFormed (by decide)) (twoBlocks_collect 20)).mpr
    rw [twoBlocks_blockCount]
    refine ⟨by decide, fun j hj => ?_⟩
    rw [twoBlocks_blockMap]
    split_ifs
    · decide
    · decide
    · omega
  · apply ((clusterLists_locate_iff smallFs (twoBlocks 20) (twoClusters 8) .missing 4096 8192 _).2.1
      (twoClusters_collect 8)).mpr
    refine ⟨by decide, fun j _ => ⟨rfl, ?_⟩⟩
    show 0 ≤ if j = 0 then (8 : ℤ) else 9
    split_ifs <;> decide
  · apply ((clusterLists_locate_iff smallFs (twoBlocks 20) (twoClusters 8)
      (.nonResident 8192 (some (twoRuns (.at 4)))) 4096 8192 _).2.2
      (twoRuns_fill (.at 4))).mpr
    refine ⟨8192, twoRuns (.at 4), rfl, by decide, fun j hj => ?_⟩
    have hlength : ((twoRuns (.at 4)).places 4096).length = 2 := rfl
    rw [hlength] at hj
    obtain rfl | rfl : j = 0 ∨ j = 1 := by omega
    · exact iff_of_false (by simp [NtfsRunlist.places, twoRuns, NtfsRunlist.placeRun]) (by decide)
    · exact iff_of_false (by simp [NtfsRunlist.places, twoRuns, NtfsRunlist.placeRun]) (by decide)

end RecoveryQt
