import RecoveryQt.Exfat.Agree
import RecoveryQt.Ext2.Model
import RecoveryQt.Fat.Geometry
import RecoveryQt.Ntfs.Model

/-!
# What the code of a filesystem makes of an open volume

* `FsView`: the size of a cluster, and the clusters of a file by its inode;
* `FatVolume.view`, `ExfatVolume.view`, `NtfsVolume.view`, `Ext2Volume.view`: the four filesystems;
* **`bufferApart_of_multiples`**: clusters that are larger than the buffer of a restore lie further
  apart than that.
-/

namespace RecoveryQt

open List

/-- No cluster of the list begins one buffer behind another. -/
def BufferApart (l : List UInt64) : Prop := ∀ c ∈ l, ∀ c' ∈ l, c' ≠ c + UInt64.ofNat blockSize

/-- What the code of one filesystem reads behind `private_dir_data`: the size of a cluster and the
offset of the data, and `*_collect_clusters` by the inode of a file. Clusters that are larger than the
buffer of a restore lie further apart than that. -/
structure FsView where
  clusterSize : UInt32
  dataOffset : UInt64
  collect : ℕ → Option (List UInt64)
  clusterSize_pos : 0 < clusterSize.toNat
  length_lt : ∀ ino l, collect ino = some l → l.length < 2 ^ 32
  apart : blockSize < clusterSize.toNat → ∀ ino l, collect ino = some l → BufferApart l

/-- Positions that differ by multiples of `n` lie no buffer apart, also modulo `2 ^ 64`. -/
theorem ofNat_ne_add_blockSize {n : ℕ} (hn : n ∣ 2 ^ 64) (hbig : blockSize < n) (base i j : ℕ) :
    UInt64.ofNat (base + i * n) ≠ UInt64.ofNat (base + j * n) + UInt64.ofNat blockSize := by
  intro h
  rw [← UInt64.ofNat_add] at h
  have hmod : (base + i * n) % 2 ^ 64 = (base + j * n + blockSize) % 2 ^ 64 := by
    have := congrArg UInt64.toNat h
    rwa [UInt64.toNat_ofNat', UInt64.toNat_ofNat'] at this
  have hn' := congrArg (· % n) hmod
  simp only [Nat.mod_mod_of_dvd _ hn, Nat.add_right_comm _ (j * n), Nat.add_mul_mod_self_right] at hn'
  have hzero := Nat.sub_mod_eq_zero_of_mod_eq hn'.symm
  rw [Nat.add_sub_cancel_left, Nat.mod_eq_of_lt hbig] at hzero
  cases hzero

/-- Nor where nothing wraps. -/
theorem ofNat_ne_add_blockSize_of_lt {n base i j : ℕ} (hbig : blockSize < n)
    (hi : base + i * n < 2 ^ 63) (hj : base + j * n < 2 ^ 63) :
    UInt64.ofNat (base + i * n) ≠ UInt64.ofNat (base + j * n) + UInt64.ofNat blockSize := by
  intro h
  have hB : blockSize = 65536 := rfl
  rw [← UInt64.ofNat_add] at h
  have hnat := congrArg UInt64.toNat h
  rw [UInt64.toNat_ofNat_of_lt' (by show _ < 2 ^ 64; omega),
    UInt64.toNat_ofNat_of_lt' (by show _ < 2 ^ 64; omega)] at hnat
  rcases Nat.lt_or_ge j i with hji | hij
  · have := Nat.mul_le_mul_right n (Nat.succ_le_of_lt hji)
    rw [Nat.succ_mul] at this
    omega
  · have := Nat.mul_le_mul_right n hij
    omega

theorem FatVolume.clusterSize_lt (v : FatVolume) : v.clusterSize < 2 ^ 24 := by
  have h : v.clusterSize < 2 ^ 16 * 2 ^ 8 :=
    Nat.mul_lt_mul'' v.header.sectorSize.toNat_lt v.header.sectorsPerCluster.toNat_lt
  exact h

theorem FatVolume.bufferApart_collectClusters (v : FatVolume) (hbig : blockSize < v.clusterSize)
    (ino : ℕ) : BufferApart (v.collectClusters ino) := by
  have hoffset : ∀ c ∈ v.collectClusters ino, ∃ i,
      c = UInt64.ofNat (v.backupStart + i * v.clusterSize) ∧
      v.backupStart + i * v.clusterSize < 2 ^ 63 := by
    intro c hc
    obtain ⟨x, hx, rfl⟩ := mem_map.mp hc
    obtain ⟨k, -, hall, rfl⟩ := mem_chainWalk.mp hx
    have hle := (hall k le_rfl).1.2
    have hcs : (v.next^[k] ino - 2) * v.spc * v.header.sectorSize.toNat =
        (v.next^[k] ino - 2) * v.clusterSize := by
      rw [FatVolume.clusterSize, Nat.mul_assoc, Nat.mul_comm v.spc]
    refine ⟨v.next^[k] ino - 2, by rw [FatVolume.collectOffset, hcs], ?_⟩
    have hstart := v.startData_mul_lt
    rw [v.startData_mul] at hstart
    have hcount : (v.next^[k] ino - 2) * v.spc < 2 ^ 32 := by
      have hmul := Nat.mul_le_mul_right v.spc (show v.next^[k] ino - 2 ≤ v.backupNoOfCluster by omega)
      have hdiv := Nat.div_mul_le_self (v.header.partSize -
        (v.header.reserved.toNat + v.header.fats.toNat * v.header.fatSectors)) v.spc
      rw [← v.backupNoOfCluster_eq_div] at hdiv
      have := v.header.partSize_lt
      omega
    have hbytes := Nat.mul_lt_mul'' hcount v.header.sectorSize.toNat_lt
    rw [hcs] at hbytes
    omega
  intro c hc c' hc'
  obtain ⟨i, rfl, hi⟩ := hoffset c hc
  obtain ⟨i', rfl, hi'⟩ := hoffset c' hc'
  exact ofNat_ne_add_blockSize_of_lt hbig hi' hi

/-- The private data of the FAT driver. -/
def FatVolume.view (v : FatVolume) : FsView where
  clusterSize := UInt32.ofNat v.clusterSize
  dataOffset := UInt64.ofNat v.backupStart
  collect ino := some (v.collectClusters ino)
  clusterSize_pos := by
    rw [UInt32.toNat_ofNat_of_lt' (v.clusterSize_lt.trans (by decide))]
    exact v.clusterSize_pos
  length_lt ino l h := by
    rw [← Option.some.inj h, FatVolume.collectClusters, length_map]
    exact (length_chainWalk_le _ _).trans_lt (by decide)
  apart hbig ino l h := by
    rw [UInt32.toNat_ofNat_of_lt' (v.clusterSize_lt.trans (by decide))] at hbig
    rw [← Option.some.inj h]
    exact v.bufferApart_collectClusters hbig ino

/-- Positions that are multiples of a cluster behind one base. -/
theorem bufferApart_of_multiples {n : ℕ} (hn : n ∣ 2 ^ 64) (hbig : blockSize < n) (base : ℕ)
    {l : List UInt64}
    (hl : ∀ c ∈ l, ∃ i, c = UInt64.ofNat (base + i * n)) : BufferApart l := by
  intro c hc c' hc'
  obtain ⟨i, rfl⟩ := hl c hc
  obtain ⟨j, rfl⟩ := hl c' hc'
  exact ofNat_ne_add_blockSize hn hbig base j i

theorem ExfatVolume.toNat_clusterSize (v : ExfatVolume) :
    (UInt32.ofNat v.clusterSize).toNat = v.clusterSize :=
  UInt32.toNat_ofNat_of_lt' (v.clusterSize_le.trans_lt (by decide))

/-- The private data of the exFAT driver. -/
def ExfatVolume.view (v : ExfatVolume) : FsView where
  clusterSize := UInt32.ofNat v.clusterSize
  dataOffset := UInt64.ofNat (v.clusBlocknr * v.blockBytes)
  collect ino := some (v.collectClusters ino)
  clusterSize_pos := by
    rw [v.toNat_clusterSize]
    exact v.clusterSize_pos
  length_lt ino l h := by
    rw [← Option.some.inj h, ExfatVolume.collectClusters, length_map]
    exact (length_chainWalk_le _ _).trans_lt (by decide)
  apart hbig ino l h := by
    rw [v.toNat_clusterSize] at hbig
    have hdvd : v.clusterSize ∣ 2 ^ 64 := Nat.pow_dvd_pow 2 (v.cluster.trans (by decide))
    refine bufferApart_of_multiples hdvd hbig (v.clusBlocknr * v.blockBytes) fun c hc => ?_
    rw [← Option.some.inj h] at hc
    obtain ⟨x, -, rfl⟩ := mem_map.mp hc
    exact ⟨x - 2, rfl⟩

/-- An NTFS volume that libntfs has opened: the size of a cluster, and the data attributes that can be
opened. -/
structure NtfsVolume where
  clusterBits : ℕ
  clusterBits_lt : clusterBits < 32
  attr : ℕ → Option NtfsAttr

/-- `vol->cluster_size`. -/
def NtfsVolume.clusterSize (v : NtfsVolume) : ℕ := 2 ^ v.clusterBits

theorem NtfsVolume.toNat_clusterSize (v : NtfsVolume) :
    (UInt32.ofNat v.clusterSize).toNat = v.clusterSize :=
  UInt32.toNat_ofNat_of_lt' (Nat.pow_lt_pow_right (by decide) v.clusterBits_lt)

theorem NtfsAttr.mem_collectFrom {attr : NtfsAttr} {clusterSize room vcn count : ℕ} {c : UInt64}
    (h : c ∈ attr.collectFrom clusterSize room vcn count) : ∃ lcn, c = lcnPosition clusterSize lcn := by
  induction room generalizing vcn count with
  | zero => cases h
  | succ room ih =>
    rw [collectFrom] at h
    split_ifs at h
    · cases h
    · cases h
    · exact ih h
    · rcases mem_cons.mp h with rfl | h
      · exact ⟨_, rfl⟩
      · exact ih h

theorem NtfsAttr.capacity_le (attr : NtfsAttr) (clusterSize : ℕ) :
    attr.capacity clusterSize ≤ backupMaxClusters := by
  have hmax : backupMaxClusters = 1048576 := rfl
  rw [capacity]
  split_ifs <;> omega

theorem NtfsAttr.length_collectFrom_le_capacity (attr : NtfsAttr) {clusterSize : ℕ} (room vcn : ℕ)
    {count : ℕ} (h : count ≤ attr.capacity clusterSize) :
    count + (attr.collectFrom clusterSize room vcn count).length ≤ attr.capacity clusterSize := by
  induction room generalizing vcn count with
  | zero => exact h
  | succ room ih =>
    rw [collectFrom]
    split_ifs with hfull hmap hhole
    · exact h
    · exact h
    · exact ih (vcn + 1) h
    · rw [length_cons, Nat.add_comm _ 1, ← Nat.add_assoc]
      exact ih (vcn + 1) (Nat.lt_of_not_le hfull)

theorem ntfsCollectClusters_eq {attr : NtfsAttr} {clusterSize : ℕ} {l : List UInt64}
    (h : ntfsCollectClusters attr clusterSize = some l) :
    l = attr.collectFrom clusterSize (attr.clusterCount clusterSize) 0 0 := by
  rw [ntfsCollectClusters] at h
  split_ifs at h
  exact (Option.some.inj h).symm

/-- The private data of the NTFS driver. -/
def NtfsVolume.view (v : NtfsVolume) : FsView where
  clusterSize := UInt32.ofNat v.clusterSize
  dataOffset := 0
  collect ino := (v.attr ino).bind fun attr => ntfsCollectClusters attr v.clusterSize
  clusterSize_pos := by
    rw [v.toNat_clusterSize]
    exact Nat.two_pow_pos _
  length_lt ino l h := by
    obtain ⟨attr, -, h⟩ := Option.bind_eq_some_iff.mp h
    rw [ntfsCollectClusters_eq h]
    have hmax : backupMaxClusters = 1048576 := rfl
    have hlen := attr.length_collectFrom_le_capacity (attr.clusterCount v.clusterSize) 0
      (Nat.zero_le (attr.capacity v.clusterSize))
    have hcap := attr.capacity_le v.clusterSize
    omega
  apart hbig ino l h := by
    rw [v.toNat_clusterSize] at hbig
    obtain ⟨attr, -, h⟩ := Option.bind_eq_some_iff.mp h
    have hdvd : v.clusterSize ∣ 2 ^ 64 := Nat.pow_dvd_pow 2 (v.clusterBits_lt.le.trans (by decide))
    refine bufferApart_of_multiples hdvd hbig 0 fun c hc => ?_
    rw [ntfsCollectClusters_eq h] at hc
    obtain ⟨lcn, rfl⟩ := NtfsAttr.mem_collectFrom hc
    exact ⟨lcn, by rw [Nat.zero_add]; rfl⟩

theorem Ext2Fs.blockSize_le (fs : Ext2Fs) : fs.blockSize ≤ 65536 :=
  Nat.pow_le_pow_right Nat.two_pos fs.log_bounds.2

theorem Ext2Fs.toNat_blockSize (fs : Ext2Fs) : (UInt32.ofNat fs.blockSize).toNat = fs.blockSize :=
  UInt32.toNat_ofNat_of_lt' (fs.blockSize_le.trans_lt (by decide))

/-- An ext2 volume: the filesystem that libext2fs has opened, and the inodes that can be read. A list
of blocks fits in memory. -/
structure Ext2Volume where
  fs : Ext2Fs
  inode : ℕ → Option Ext2Inode
  length_lt : ∀ ino i l, inode ino = some i → ext2CollectBlocks fs i = some l → l.length < 2 ^ 32

/-- The private data of the ext2 driver. A block fits in the buffer of a restore. -/
def Ext2Volume.view (v : Ext2Volume) : FsView where
  clusterSize := UInt32.ofNat v.fs.blockSize
  dataOffset := 0
  collect ino := (v.inode ino).bind (ext2CollectBlocks v.fs)
  clusterSize_pos := by
    rw [v.fs.toNat_blockSize]
    exact Nat.two_pow_pos _
  length_lt ino l h := by
    obtain ⟨i, hi, h⟩ := Option.bind_eq_some_iff.mp h
    exact v.length_lt ino i l hi h
  apart hbig := by
    rw [v.fs.toNat_blockSize] at hbig
    exact absurd v.fs.blockSize_le (Nat.not_le.mpr hbig)

end RecoveryQt
