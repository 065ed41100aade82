import RecoveryQt.Exfat.Model
import Mathlib.Tactic.NormNum
import Mathlib.Tactic.Ring

/-!
# The sizes of an exFAT boot sector

* `shlInt`, `shlUInt64`: the shifts of the C types;
* `dirPartitionExfatInit`: the boot sectors that the directory code accepts;
* `ExfatSuperBlock.dirReads`, `ExfatSuperBlock.copyRead`: where the reads of a cluster go;
* **`ExfatSuperBlock.exactSizes_iff`**: the sizes are exact for cluster shifts up to 26 alone.
-/

namespace RecoveryQt

/-! ## Shifts -/

/-- `a << n` in an `int`. C gives a shift by 32 or more and a value that does not fit no meaning;
the processor takes the count modulo 32 and keeps 32 bits. -/
def shlInt (a n : ℕ) : ℤ := (BitVec.ofNat 32 a <<< (n % 32)).toInt

/-- `a << n` in a `uint64_t`. -/
def shlUInt64 (a n : ℕ) : ℕ := a * 2 ^ (n % 64) % 2 ^ 64

/-- An `int` as an `unsigned int`. -/
def toUnsigned (x : ℤ) : ℕ := (x % 2 ^ 32).toNat

/-- An `int` as a `size_t`. -/
def toSize (x : ℤ) : ℕ := (x % 2 ^ 64).toNat

theorem shlInt_of_lt {a n : ℕ} (hn : n < 32) (h : a * 2 ^ n < 2 ^ 31) :
    shlInt a n = a * 2 ^ n := by
  have ha : a ≤ a * 2 ^ n := Nat.le_mul_of_pos_right a (Nat.two_pow_pos n)
  have hval : (BitVec.ofNat 32 a <<< n).toNat = a * 2 ^ n := by
    rw [BitVec.toNat_shiftLeft, BitVec.toNat_ofNat, Nat.mod_eq_of_lt (by omega : a < 2 ^ 32),
      Nat.shiftLeft_eq, Nat.mod_eq_of_lt (by omega)]
  rw [shlInt, Nat.mod_eq_of_lt hn, BitVec.toInt_eq_toNat_of_lt (by omega), hval]
  exact Int.natCast_mul a (2 ^ n)

/-- A shift of an `int` that has its value fits. -/
theorem lt_of_shlInt_eq {a n : ℕ} (h : shlInt a n = a * 2 ^ n) : a * 2 ^ n < 2 ^ 31 := by
  have hlt : shlInt a n < 2 ^ 31 := BitVec.toInt_lt
  rw [h] at hlt
  exact_mod_cast hlt

theorem shlUInt64_of_lt {a n : ℕ} (hn : n < 64) (h : a * 2 ^ n < 2 ^ 64) :
    shlUInt64 a n = a * 2 ^ n := by
  rw [shlUInt64, Nat.mod_eq_of_lt hn, Nat.mod_eq_of_lt h]

theorem toUnsigned_natCast {n : ℕ} (h : n < 2 ^ 32) : toUnsigned n = n := by
  rw [toUnsigned]
  omega

theorem toSize_natCast {n : ℕ} (h : n < 2 ^ 64) : toSize n = n := by
  rw [toSize]
  omega

/-! ## The boot sector -/

/-- The boot sector in a buffer. -/
def ExfatSuperBlock.ofBuffer (b : ℕ → UInt8) : ExfatSuperBlock where
  oemId := (List.range 8).map fun i => b (3 + i)
  fatBlocknr := UInt32.ofNat (le32At b 0x50)
  clusBlocknr := UInt32.ofNat (le32At b 0x58)
  totalClusters := UInt32.ofNat (le32At b 0x5c)
  blocksizeBits := b 0x6c
  blockPerClusBits := b 0x6d
  signature := UInt16.ofNat (le16At b 0x1fe)

instance (h : ExfatSuperBlock) : Decidable (testExfat h) :=
  inferInstanceAs (Decidable (h.signature = 0xAA55 ∧ h.oemId = exfatOemId))

/-- `dir_partition_exfat_init`: the boot sector it keeps. It tests the signature and the name. -/
def dirPartitionExfatInit (d : Disk) (p : Partition) : Option ExfatSuperBlock :=
  (d.pread 0x200 p.partOffset).bind fun b =>
    if testExfat (.ofBuffer b) then some (.ofBuffer b) else none

namespace ExfatSuperBlock

variable (h : ExfatSuperBlock)

/-- `cluster_shift`. -/
def clusterShift : ℕ := h.blockPerClusBits.toNat + h.blocksizeBits.toNat

/-- The count of `exfat_read_cluster`: `1 << cluster_shift`, as the `unsigned int` of a `pread`. -/
def readCount : ℕ := toUnsigned (shlInt 1 h.clusterShift)

/-- The bytes that `exfat_dir` allocates: `NBR_CLUSTER_MAX << cluster_shift`. -/
def dirBuffer : ℕ := toSize (shlInt 30 h.clusterShift)

/-- The bytes that `exfat_copy` allocates: `1 << cluster_shift`. -/
def copyBuffer : ℕ := toSize (shlInt 1 h.clusterShift)

/-- The place in its buffer that `exfat_dir` reads its cluster number `k` into, and the count. -/
def dirRead (k : ℕ) : ℕ × ℕ := (shlUInt64 k h.clusterShift, h.readCount)

/-- The sizes are the exact values, and the reads of a cluster fit their buffers. -/
structure ExactSizes : Prop where
  /-- `1 << cluster_shift` of `exfat_dir` and `exfat_copy`. -/
  clusterSize : shlInt 1 h.clusterShift = 2 ^ h.clusterShift
  /-- `(uint64_t)1 << cluster_shift` of `exfat_collect_clusters`. -/
  clusterSize64 : shlUInt64 1 h.clusterShift = 2 ^ h.clusterShift
  /-- `30 << cluster_shift` of `exfat_dir`. -/
  bufferSize : shlInt 30 h.clusterShift = 30 * 2 ^ h.clusterShift
  dirReads : ∀ k < 30, (h.dirRead k).1 + (h.dirRead k).2 ≤ h.dirBuffer
  copyReads : h.readCount ≤ h.copyBuffer

variable {h}

/-- A directory buffer that fits an `int` bounds the shift. -/
theorem clusterShift_le (hsize : 30 * 2 ^ h.clusterShift < 2 ^ 31) : h.clusterShift ≤ 26 := by
  by_contra hlarge
  have hpow : 2 ^ 27 ≤ 2 ^ h.clusterShift := Nat.pow_le_pow_right (by decide) (by omega)
  omega

theorem exactSizes_of_le (hle : h.clusterShift ≤ 26) : h.ExactSizes := by
  have hpow : 2 ^ h.clusterShift ≤ 2 ^ 26 := Nat.pow_le_pow_right (by decide) hle
  have hone : shlInt 1 h.clusterShift = ((2 ^ h.clusterShift : ℕ) : ℤ) := by
    rw [shlInt_of_lt (by omega) (by omega)]
    push_cast
    ring
  have hthirty : shlInt 30 h.clusterShift = ((30 * 2 ^ h.clusterShift : ℕ) : ℤ) := by
    rw [shlInt_of_lt (by omega) (by omega)]
    push_cast
    ring
  have hcount : h.readCount = 2 ^ h.clusterShift := by
    rw [readCount, hone, toUnsigned_natCast (by omega)]
  refine ⟨by exact_mod_cast hone, ?_, by exact_mod_cast hthirty, fun k hk => ?_, ?_⟩
  · rw [shlUInt64_of_lt (by omega) (by omega), Nat.one_mul]
  · have hplace : k * 2 ^ h.clusterShift ≤ 29 * 2 ^ h.clusterShift :=
      Nat.mul_le_mul_right _ (by omega)
    rw [dirRead, dirBuffer, hthirty, toSize_natCast (by omega), hcount,
      shlUInt64_of_lt (by omega) (by omega)]
    show k * 2 ^ h.clusterShift + 2 ^ h.clusterShift ≤ _
    omega
  · rw [hcount, copyBuffer, hone, toSize_natCast (by omega)]

/-- **The sizes of a boot sector are exact for cluster shifts up to 26 alone.** -/
theorem exactSizes_iff (h : ExfatSuperBlock) : h.ExactSizes ↔ h.clusterShift ≤ 26 :=
  ⟨fun hsizes => clusterShift_le (lt_of_shlInt_eq (by exact_mod_cast hsizes.bufferSize)),
    exactSizes_of_le⟩

end ExfatSuperBlock

/-- The sizes of a valid volume are exact, as the model of its files takes them. -/
theorem ExfatVolume.exactSizes (v : ExfatVolume) : v.header.ExactSizes :=
  ExfatSuperBlock.exactSizes_of_le (Nat.le_succ_of_le v.cluster)

/-- A disk that starts with a boot sector of 512-byte blocks and `2 ^ 25` blocks in a cluster. -/
def hugeClusterDisk : Disk where
  sectorSize := 512
  diskSize := 8388608
  content i := if i = 0x6c then 9 else if i = 0x6d then 25 else if i = 0x1fe then 0x55 else
    if i = 0x1ff then 0xaa else if 3 ≤ i ∧ i < 11 then exfatOemId.getD (i - 3) 0 else 0
  bad _ _ := false

/-- `exfat_dir` accepts that boot sector, and its sizes are not exact. -/
theorem hugeClusterDisk_not_exactSizes :
    ∃ h, dirPartitionExfatInit hugeClusterDisk ⟨0, 8388608, .exfat, 0⟩ = some h ∧
      ¬ h.ExactSizes := by
  set h : ExfatSuperBlock := .ofBuffer fun i => hugeClusterDisk.content (0 + i) with hh
  have haccepted : testExfat h := by
    rw [hh]
    decide
  refine ⟨h, if_pos haccepted (e := none), fun hsizes => ?_⟩
  have hle := (ExfatSuperBlock.exactSizes_iff h).mp hsizes
  rw [hh] at hle
  exact absurd hle (by decide)

end RecoveryQt
