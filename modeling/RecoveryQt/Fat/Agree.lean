import RecoveryQt.Fat.Geometry
import RecoveryQt.Restore.Readable

/-!
# Backup and copy of a FAT file

* `FatVolume.backupPositions`, `FatVolume.copyPositions`: the disk positions that a restore from the
  backup and `fat_copy` read;
* `FatVolume.CopiesAgree`, `FatVolume.AgreeWhen`: the two agree and visit data clusters only, and
  when they do;
* **`FatVolume.fatCopiesAgree_iff`**: the two are equivalent.
-/

namespace RecoveryQt

open List

namespace FatVolume

variable (v : FatVolume)

/-- The data clusters `2 .. no_of_cluster + 1`. -/
def DataCluster (c : ℕ) : Prop := 2 ≤ c ∧ c ≤ v.noOfCluster + 1

/-- The disk positions that `restore_orphan` reads for the clusters of the backup. -/
def backupPositions (start size : ℕ) : List ℕ :=
  orphanPositions (UInt64.ofNat v.partition.partOffset) v.clusterSize size (v.collectClusters start)

/-- The disk positions that `fat_copy` reads. -/
def copyPositions (start size : ℕ) : List ℕ :=
  (v.fatCopy start size).flatMap fun r => (range r.2).map (r.1.toNat + ·)

/-- The clusters that `fat_copy` visits. -/
def copyVisited (start size : ℕ) : List ℕ := (v.fatFile start).visited start size .followCluster

/-- The backup and the copy read the same positions, and both visit data clusters only. -/
def CopiesAgree (start size : ℕ) : Prop :=
  v.backupPositions start size = v.copyPositions start size ∧
    (∀ c ∈ v.collectVisited start, v.DataCluster c) ∧
    ∀ c ∈ v.copyVisited start size, v.DataCluster c

/-- The chain of `start` has `k` links that `fat_collect_clusters` takes. -/
def Taken (start k : ℕ) : Prop :=
  ∀ j ≤ k, Linked (fun c => 2 ≤ c ∧ c ≤ v.backupNoOfCluster + 2)
    (fun c => isEOCFat c v.partition.upartType) v.next start j

/-- When the two agree. No cluster behind the data is taken; and the file is empty, or its start is
no cluster, or the volume is FAT32, has the clusters of the file on its chain, no more than a backup
records, and a cluster or the file fits in the buffer of a restore. -/
def AgreeWhen (start size : ℕ) : Prop :=
  (∀ k < backupMaxClusters, v.Taken start k → v.next^[k] start ≤ v.noOfCluster + 1) ∧
  (size = 0 ∨ start < 2 ∨ v.backupNoOfCluster + 2 < start ∨
    v.partition.upartType = .fat32 ∧ size ⌈/⌉ v.clusterSize ≤ backupMaxClusters ∧
    (∀ k < size ⌈/⌉ v.clusterSize, v.DataCluster (v.next^[k] start) ∧
      (k ≠ 0 → ¬ isEOCFat (v.next^[k] start) v.partition.upartType)) ∧
    (v.clusterSize ≤ blockSize ∨ size ≤ blockSize))

/-! ## Positions as pieces -/

theorem copyPositions_eq (start size : ℕ) : v.copyPositions start size =
    pieces (fun c i => (v.copyStart c).toNat + i) v.clusterSize size (v.copyVisited start size) := by
  rw [copyPositions, fatCopy, flatMap_map]
  exact (v.fatFile start).copyFrom_eq_pieces (fun c i => (v.copyStart c).toNat + i) start size
    .followCluster

theorem backupPositions_eq (start size : ℕ) : v.backupPositions start size =
    pieces (fun c i => (UInt64.ofNat v.partition.partOffset + v.collectOffset c).toNat + i)
      (min v.clusterSize blockSize) size (v.collectVisited start) := by
  rw [backupPositions, orphanPositions, collectClusters, pieces_map]

/-- The two offsets of a cluster differ by the root directory. -/
theorem copyStart_eq {c : ℕ} (hc : c ≤ v.noOfCluster + 2) :
    v.copyStart c = UInt64.ofNat v.partition.partOffset + v.collectOffset c +
      UInt64.ofNat (v.header.rootSectors v.disk.sectorSize * v.disk.sectorSize) := by
  have hsum : v.collectOffset c +
      UInt64.ofNat (v.header.rootSectors v.disk.sectorSize * v.disk.sectorSize) =
      UInt64.ofNat (v.backupStart + (c - 2) * v.spc * v.disk.sectorSize +
        v.header.rootSectors v.disk.sectorSize * v.disk.sectorSize) := by
    rw [collectOffset, v.sectorSize_eq, ← UInt64.ofNat_add]
  rw [copyStart, Nat.mod_eq_of_lt (v.mul_spc_lt hc), v.sectorSize_eq, Nat.add_mul, v.startData_mul,
    UInt64.add_assoc, hsum, Nat.add_right_comm]

theorem copyStart_eq_iff {c : ℕ} (hc : c ≤ v.noOfCluster + 2) :
    v.copyStart c = UInt64.ofNat v.partition.partOffset + v.collectOffset c ↔
      v.partition.upartType = .fat32 := by
  rw [v.copyStart_eq hc]
  constructor
  · intro h
    by_contra hne
    have hroot := Nat.mul_pos (v.rootSectors_pos hne) v.sectorSize_pos
    have hlt : v.header.rootSectors v.disk.sectorSize * v.disk.sectorSize < 2 ^ 64 := by
      have := v.startData_mul_lt
      rw [v.startData_mul] at this
      omega
    have h0 := congrArg UInt64.toNat (UInt64.add_eq_left.mp h)
    rw [UInt64.toNat_ofNat_of_lt' hlt] at h0
    exact hroot.ne' h0
  · intro h
    rw [v.rootSectors_eq_zero h, Nat.zero_mul]
    exact UInt64.add_zero _

/-- Two clusters do not lie one buffer apart when a cluster is larger than a buffer. -/
theorem collectOffset_ne {c w : ℕ} (hc : c ≤ v.noOfCluster + 2) (hw : w ≤ v.noOfCluster + 2)
    (hbig : blockSize < v.clusterSize) :
    (UInt64.ofNat v.partition.partOffset + v.collectOffset w).toNat ≠
      (UInt64.ofNat v.partition.partOffset + v.collectOffset c).toNat + blockSize := by
  have hB : blockSize = 65536 := rfl
  have hss := v.sectorSize_lt
  have hstart : v.backupStart < 2 ^ 51 := by
    have := v.startData_mul_lt
    rw [v.startData_mul] at this
    omega
  have hlt : ∀ x ≤ v.noOfCluster + 2, v.backupStart + (x - 2) * v.spc * v.disk.sectorSize < 2 ^ 52 :=
    fun x hx => by
      have := Nat.mul_lt_mul'' (v.mul_spc_lt hx) hss
      omega
  have hcs : ∀ x, (x - 2) * v.spc * v.disk.sectorSize = (x - 2) * v.clusterSize := fun x => by
    rw [clusterSize, v.sectorSize_eq, Nat.mul_assoc, Nat.mul_comm v.spc]
  have hltc := hlt c hc
  have hltw := hlt w hw
  rw [hcs] at hltc hltw
  rw [collectOffset, collectOffset, v.sectorSize_eq, hcs, hcs, UInt64.toNat_add, UInt64.toNat_add,
    UInt64.toNat_ofNat_of_lt' (lt_trans hltc (by decide)),
    UInt64.toNat_ofNat_of_lt' (lt_trans hltw (by decide))]
  intro heq
  have hP := (UInt64.ofNat v.partition.partOffset).toNat_lt
  -- the positions are one buffer apart, so the clusters are
  have hbuf : (w - 2) * v.clusterSize = (c - 2) * v.clusterSize + blockSize := by omega
  rcases Nat.lt_or_ge (c - 2) (w - 2) with hcw | hwc
  · have := Nat.mul_le_mul_right v.clusterSize (Nat.succ_le_of_lt hcw)
    rw [Nat.succ_mul] at this
    omega
  · have := Nat.mul_le_mul_right v.clusterSize hwc
    omega

/-! ## The exact condition -/

theorem lt_length_collectVisited {start k : ℕ} :
    k < (v.collectVisited start).length ↔ k < backupMaxClusters ∧ v.Taken start k :=
  lt_length_chainWalk

theorem collectVisited_data_iff {start : ℕ} :
    (∀ c ∈ v.collectVisited start, v.DataCluster c) ↔
      ∀ k < backupMaxClusters, v.Taken start k → v.next^[k] start ≤ v.noOfCluster + 1 := by
  constructor
  · intro h k hk htaken
    exact (h _ (mem_chainWalk.mpr ⟨k, hk, htaken, rfl⟩)).2
  · intro h c hc
    obtain ⟨k, hk, htaken, rfl⟩ := mem_chainWalk.mp hc
    exact ⟨(htaken k le_rfl).1.1, h k hk htaken⟩

/-- A cluster of a good chain is taken by a backup. -/
theorem taken_of_chain {start n k : ℕ} (hk : k < n)
    (hchain : ∀ j < n, v.DataCluster (v.next^[j] start) ∧
      (j ≠ 0 → ¬ isEOCFat (v.next^[j] start) v.partition.upartType)) : v.Taken start k := by
  intro j hj
  obtain ⟨⟨h2, hle⟩, heoc⟩ := hchain j (by omega)
  have := v.le_backupNoOfCluster
  exact ⟨⟨h2, by omega⟩, heoc⟩

/-- **On FAT32, along a good chain, backup and copy read the same positions.** -/
theorem positions_eq_of_chain {start size : ℕ} (h32 : v.partition.upartType = .fat32)
    (hmax : size ⌈/⌉ v.clusterSize ≤ backupMaxClusters)
    (hchain : ∀ k < size ⌈/⌉ v.clusterSize, v.DataCluster (v.next^[k] start) ∧
      (k ≠ 0 → ¬ isEOCFat (v.next^[k] start) v.partition.upartType))
    (hfit : v.clusterSize ≤ blockSize ∨ size ≤ blockSize) :
    v.backupPositions start size = v.copyPositions start size ∧
      ∀ c ∈ v.copyVisited start size, v.DataCluster c := by
  set n := size ⌈/⌉ v.clusterSize with hn
  have hsize : size ≤ n * v.clusterSize := by
    rw [Nat.mul_comm]
    exact (ceilDiv_le_iff_le_mul v.clusterSize_pos).mp hn.ge
  have hcopy : v.copyVisited start size = (range n).map fun k => v.next^[k] start :=
    (v.fatFile start).visited_of_chain fun k hk => by
      obtain ⟨⟨h2, hle⟩, -⟩ := hchain k hk
      exact ⟨h2, Nat.le_succ_of_le hle⟩
  have hlen : n ≤ (v.collectVisited start).length := by
    rcases Nat.eq_zero_or_pos n with h0 | hpos
    · omega
    · have := v.lt_length_collectVisited.mpr
        ⟨(by omega : n - 1 < backupMaxClusters), v.taken_of_chain (by omega) hchain⟩
      omega
  have hdata : ∀ c ∈ v.copyVisited start size, v.DataCluster c := by
    rw [hcopy]
    intro c hc
    obtain ⟨k, hk, rfl⟩ := mem_map.mp hc
    exact (hchain k (mem_range.mp hk)).1
  refine ⟨?_, hdata⟩
  have hpiece : v.backupPositions start size =
      pieces (fun c i => (UInt64.ofNat v.partition.partOffset + v.collectOffset c).toNat + i)
        v.clusterSize size (v.collectVisited start) := by
    rw [backupPositions_eq]
    rcases hfit with hcs | hshort
    · rw [Nat.min_eq_left hcs]
    · rcases Nat.le_total v.clusterSize blockSize with hcs | hcs
      · rw [Nat.min_eq_left hcs]
      · exact pieces_of_le _ (by omega) (by omega) _
  rw [hpiece, copyPositions_eq, ← pieces_take _ hsize (v.collectVisited start), collectVisited,
    take_chainWalk hlen, hcopy]
  refine pieces_congr fun c hc i _ => ?_
  rw [← hcopy] at hc
  have hc := hdata c hc
  rw [(v.copyStart_eq_iff (by have := hc.2; omega)).mpr h32]

theorem collectVisited_getD_zero {start : ℕ} (h : 0 < (v.collectVisited start).length) :
    (v.collectVisited start).getD 0 default = start := by
  rw [List.getD_eq_getElem?_getD, collectVisited, getElem?_chainWalk h]
  rfl

theorem copyVisited_getD_zero {start size : ℕ} (h2 : 2 ≤ start) (hle : start ≤ v.noOfCluster + 2)
    (hsize : 0 < size) : (v.copyVisited start size).getD 0 default = start := by
  rw [copyVisited, (v.fatFile start).visited_cons ⟨h2, hle, hsize⟩]
  rfl

/-- A start that the backup takes is read by both when they agree, and then the volume is FAT32, the
backup records the clusters of the file, and no cluster is cut. -/
theorem chain_of_copiesAgree {start size : ℕ} (h : v.CopiesAgree start size) (hsize : 0 < size)
    (htaken : v.Taken start 0) :
    v.partition.upartType = .fat32 ∧ size ⌈/⌉ v.clusterSize ≤ (v.collectVisited start).length ∧
      (v.clusterSize ≤ blockSize ∨ size ≤ blockSize) := by
  obtain ⟨hpos, hdata, hcopy⟩ := h
  have hcs := v.clusterSize_pos
  have hB : 0 < blockSize := by decide
  rw [backupPositions_eq, copyPositions_eq] at hpos
  set W := v.collectVisited start with hW
  set S := min v.clusterSize blockSize with hS
  have hW0 : 0 < W.length := v.lt_length_collectVisited.mpr ⟨by decide, htaken⟩
  have hstart : v.DataCluster start := hdata _ (mem_chainWalk.mpr ⟨0, by decide, htaken, rfl⟩)
  have hlast : start ≤ v.noOfCluster + 2 := Nat.le_succ_of_le hstart.2
  -- the copy reads the whole file, so the backup holds all of it
  have hall : size ≤ (v.copyVisited start size).length * v.clusterSize :=
    (v.fatFile start).copyFrom_all ⟨hstart.1, hlast⟩ fun x hx => Nat.lt_succ_of_le (hcopy x hx).2
  have hlen : size ≤ W.length * S := by
    have := congrArg length hpos
    rw [length_pieces, length_pieces] at this
    omega
  have hn : size ⌈/⌉ v.clusterSize ≤ W.length := by
    rw [ceilDiv_le_iff_le_mul hcs, Nat.mul_comm]
    exact hlen.trans (Nat.mul_le_mul_left _ (min_le_left _ _))
  -- the first byte of the file
  have hS0 : 0 < S := Nat.lt_min.mpr ⟨hcs, hB⟩
  have h0 := item_eq_of_pieces_eq hS0 hcs hpos hlen hall hsize
  simp only [Nat.zero_div, Nat.zero_mod, Nat.add_zero, UInt64.toNat_inj, hW,
    v.collectVisited_getD_zero hW0, v.copyVisited_getD_zero hstart.1 hlast hsize] at h0
  have h32 := (v.copyStart_eq_iff hlast).mp h0.symm
  refine ⟨h32, hn, ?_⟩
  by_contra hcut
  obtain ⟨hbig, hlong⟩ := not_or.mp hcut
  rw [not_le] at hbig hlong
  have hSB : S = blockSize := min_eq_right hbig.le
  -- the first byte behind the buffer of the first cluster
  have hW1 : 1 < W.length := by
    by_contra hle
    have : W.length = 1 := by omega
    rw [this, hSB] at hlen
    omega
  have hB1 := item_eq_of_pieces_eq hS0 hcs hpos hlen hall hlong
  rw [hSB, Nat.div_self hB, Nat.mod_self, Nat.div_eq_of_lt hbig, Nat.mod_eq_of_lt hbig,
    v.copyVisited_getD_zero hstart.1 hlast hsize, h0.symm, Nat.add_zero] at hB1
  have hw : W.getD 1 default ∈ W := by
    rw [List.getD_eq_getElem?_getD, getElem?_eq_getElem hW1]
    exact getElem_mem hW1
  exact v.collectOffset_ne hlast (Nat.le_succ_of_le (hdata _ hw).2) hbig hB1

/-- **Backup and copy agree exactly then**: for every volume, every content of its tables, every
start cluster and every size of a directory entry. -/
theorem fatCopiesAgree_iff (start size : UInt32) :
    v.CopiesAgree start.toNat size.toNat ↔ v.AgreeWhen start.toNat size.toNat := by
  rw [CopiesAgree, AgreeWhen, collectVisited_data_iff]
  set s := start.toNat
  set n := size.toNat
  have htake : v.Taken s 0 ↔ 2 ≤ s ∧ s ≤ v.backupNoOfCluster + 2 := by
    constructor
    · exact fun h => (h 0 le_rfl).1
    · intro h j hj
      obtain rfl := Nat.le_zero.mp hj
      exact ⟨h, fun h0 => absurd rfl h0⟩
  constructor
  · rintro ⟨hpos, hinside, hcopy⟩
    refine ⟨hinside, ?_⟩
    by_cases hsize : n = 0
    · exact .inl hsize
    by_cases htaken : v.Taken s 0
    · have hagree : v.CopiesAgree s n := ⟨hpos, v.collectVisited_data_iff.mpr hinside, hcopy⟩
      obtain ⟨h32, hlen, hfit⟩ := v.chain_of_copiesAgree hagree (Nat.pos_of_ne_zero hsize) htaken
      refine .inr (.inr (.inr ⟨h32, hlen.trans (length_chainWalk_le _ _), fun k hk => ?_, hfit⟩))
      obtain ⟨hmax, hk⟩ := v.lt_length_collectVisited.mp (hk.trans_le hlen)
      exact ⟨⟨(hk k le_rfl).1.1, hinside k hmax hk⟩, (hk k le_rfl).2⟩
    · rw [htake] at htaken
      omega
  · rintro ⟨hinside, hcase⟩
    have hnone : ¬ v.Taken s 0 → v.backupPositions s n = v.copyPositions s n ∧
        ∀ c ∈ v.copyVisited s n, v.DataCluster c := by
      intro htaken
      have hle := v.le_backupNoOfCluster
      have hW : v.collectVisited s = [] := by
        apply eq_nil_of_length_eq_zero
        exact Nat.eq_zero_of_not_pos fun h => htaken (v.lt_length_collectVisited.mp h).2
      have hV : v.copyVisited s n = [] := by
        rw [htake] at htaken
        apply (v.fatFile s).visited_of_not
        show ¬ (2 ≤ s ∧ s ≤ v.noOfCluster + 2 ∧ 0 < n)
        omega
      rw [backupPositions_eq, copyPositions_eq, hW, hV]
      simp
    rcases hcase with hsize | hlow | hhigh | ⟨h32, hmax, hchain, hfit⟩
    · have hV : v.copyVisited s n = [] := (v.fatFile s).visited_of_not (by omega)
      rw [backupPositions_eq, copyPositions_eq, hV, hsize]
      simpa using hinside
    · have := hnone (by rw [htake]; omega)
      exact ⟨this.1, hinside, this.2⟩
    · have := hnone (by rw [htake]; omega)
      exact ⟨this.1, hinside, this.2⟩
    · have := v.positions_eq_of_chain h32 hmax hchain hfit
      exact ⟨this.1, hinside, this.2⟩

end FatVolume

/-- The boot sector of a 1440 KiB floppy disk. -/
def floppyHeader : FatBootSector :=
  ⟨0xeb, 0x90, 512, 1, 1, 2, 224, 2880, 0xF0, 9, 0, 0, 0, 0xAA55⟩

theorem floppyHeader_startData : floppyHeader.startData 512 = 33 := rfl

theorem floppyHeader_noOfCluster : floppyHeader.noOfCluster 512 = 2847 := rfl

/-- A floppy disk with empty tables. -/
def floppy : FatVolume where
  disk := ⟨512, 1474560, fun _ => 0, fun _ _ => false⟩
  partition := ⟨0, 1474560, .fat12, 0⟩
  header := floppyHeader
  sectorSize_pos := Nat.succ_pos _
  accepted := by
    refine ⟨rfl, .inl rfl, .inr rfl, .inl ⟨rfl, rfl⟩, by decide, rfl, by decide, ?_, fun _ => ?_⟩
    · have hss : floppyHeader.sectorSize.toNat = 512 := rfl
      simp only [FatBootSector.testType, hss, floppyHeader_noOfCluster]
      rw [if_pos (by decide)]
      exact ⟨by decide, by decide, by decide⟩
    · show 2880 ≤ 1474560 / 512
      decide
  inside := by
    show floppyHeader.startData 512 ≤ 2880
    rw [floppyHeader_startData]
    decide
  typed := by
    show UpartType.fat12 = if floppyHeader.noOfCluster 512 < 4085 then _ else _
    rw [floppyHeader_noOfCluster, if_pos (by decide)]

/-- A one-byte file in its first cluster is copied from behind the root directory, and the backup
looks for it in the root directory. -/
theorem floppy_not_copiesAgree : ¬ floppy.CopiesAgree (2 : UInt32).toNat (1 : UInt32).toNat := by
  intro h
  have h32 := (floppy.chain_of_copiesAgree h (by decide) fun j hj => by
    obtain rfl := Nat.le_zero.mp hj
    exact ⟨⟨le_rfl, Nat.le_add_left _ _⟩, fun h0 => absurd rfl h0⟩).1
  exact absurd h32 (by decide)

end RecoveryQt
