import RecoveryQt.Restore.Model
import RecoveryQt.Lib.Pieces

/-!
# Reads that succeed

On a disk whose reads succeed, a restore and a preview both read a content laid out in pieces: a
preview takes whole clusters, a restore at most one buffer of each.

* `blockPos`, `clusterPos`: where on the disk a byte of a range, or of a cluster list, is read;
* `readBlocks_readable`, `orphanClusters_readable`, `previewClusters_readable`: what the loops read;
* `orphanPositions`: the disk positions that a restore of a cluster list reads.
-/

namespace RecoveryQt

open List

/-- Every read succeeds. -/
def Disk.Readable (d : Disk) : Prop := ∀ count offset, d.bad count offset = false

/-- The disk position of byte `i` of a range read block by block: the 64-bit offset advances by
whole blocks, and a block is read without a wrap. -/
def blockPos (offset : UInt64) (i : ℕ) : ℕ :=
  (offset + UInt64.ofNat (i / blockSize * blockSize)).toNat + i % blockSize

/-- The disk position of byte `b` of a file that is read `S` bytes a cluster. -/
def clusterPos (partOffset : UInt64) (S : ℕ) (l : List UInt64) (b : ℕ) : ℕ :=
  blockPos (partOffset + l.getD (b / S) default) (b % S)

theorem blockPos_of_lt (offset : UInt64) {i : ℕ} (hi : i < blockSize) :
    blockPos offset i = offset.toNat + i := by
  rw [blockPos, Nat.div_eq_of_lt hi, Nat.mod_eq_of_lt hi, Nat.zero_mul]
  simp

theorem blockPos_add (offset : UInt64) (i : ℕ) :
    blockPos offset (blockSize + i) = blockPos (offset + UInt64.ofNat blockSize) i := by
  have hB : 0 < blockSize := by decide
  rw [blockPos, blockPos, Nat.add_div_left _ hB, Nat.add_mod_left, Nat.succ_mul,
    Nat.add_comm (i / blockSize * blockSize), UInt64.ofNat_add, UInt64.add_assoc]

/-- The bytes read are those of the disk. -/
theorem Disk.readBytes_eq (d : Disk) {count : ℕ} {offset : UInt64} {buffer : List UInt8}
    (h : d.readBytes count offset = some buffer) :
    buffer = (range count).map fun i => d.content (offset.toNat + i) := by
  rw [Disk.readBytes, Disk.pread] at h
  split_ifs at h
  · cases h
  · exact (Option.some.inj h).symm

section Readable

variable {d : Disk} (hd : d.Readable)
include hd

theorem Disk.Readable.readBytes (count : ℕ) (offset : UInt64) :
    d.readBytes count offset = some ((range count).map fun i => d.content (offset.toNat + i)) := by
  rw [Disk.readBytes, Disk.pread, if_neg (by simp [hd count])]
  rfl

/-- **A range read block by block.** -/
theorem readBlocks_readable (offset : UInt64) (remaining : ℕ) :
    readBlocks d offset remaining =
      ((range remaining).map fun i => d.content (blockPos offset i), .ok) := by
  fun_induction readBlocks d offset remaining with
  | case1 offset => rfl
  | case2 offset remaining h0 chunk hread => simp [hd.readBytes] at hread
  | case3 offset remaining h0 chunk buffer hread rest ih =>
    rw [hd.readBytes, Option.some.injEq] at hread
    have hsplit : remaining = chunk + (remaining - chunk) := by omega
    have hrest : rest = ((range (remaining - chunk)).map fun i =>
        d.content (blockPos (offset + UInt64.ofNat chunk) i), .ok) := ih
    rw [hrest, ← hread]
    conv_rhs => rw [hsplit, range_add, map_append, map_map]
    congr 2
    · refine map_congr_left fun i hi => ?_
      have hi : i < blockSize := by have := mem_range.mp hi; omega
      rw [blockPos_of_lt offset hi]
    · refine map_congr_left fun i hi => ?_
      -- a second block is read only after a whole first one
      have hchunk : chunk = blockSize := by have := mem_range.mp hi; omega
      show _ = d.content (blockPos offset (chunk + i))
      rw [hchunk, blockPos_add]

/-- **What the cluster loop of a restore reads**: at most one buffer a cluster. -/
theorem orphanClusters_readable (partOffset : UInt64) (clusterSize rem : ℕ) (l : List UInt64) :
    orphanClusters d partOffset clusterSize rem l =
      (pieces (fun c i => d.content (blockPos (partOffset + c) i)) (min clusterSize blockSize) rem l,
        .ok) := by
  induction l generalizing rem with
  | nil => simp [orphanClusters]
  | cons c l ih =>
    rw [orphanClusters]
    split_ifs with h0
    · rw [h0, pieces_zero]
    · have hchunk : min (min clusterSize rem) blockSize = min (min clusterSize blockSize) rem := by
        omega
      simp only [hd.readBytes, ih, hchunk, pieces]
      congr 2
      refine map_congr_left fun i hi => ?_
      rw [blockPos_of_lt _ (by have := mem_range.mp hi; omega)]

/-- **What the cluster loop of a preview reads**: whole clusters. -/
theorem previewClusters_readable (partOffset : UInt64) (clusterSize rem : ℕ) (l : List UInt64) :
    previewClusters d partOffset clusterSize rem l =
      some (pieces (fun c i => d.content (blockPos (partOffset + c) i)) clusterSize rem l) := by
  induction l generalizing rem with
  | nil => simp [previewClusters]
  | cons c l ih =>
    rw [previewClusters]
    split_ifs with h0
    · rw [h0, pieces_zero]
    · simp only [readBlocks_readable hd, ih, Option.map_some, pieces]

/-- A sector range is restored whole. -/
theorem length_restoreOrphan_sectors {p : Partition} {x : NodeInfo} (hx : ¬ x.clustered) :
    (restoreOrphan d p x).1.length = sectorBytes d.sectorSize x := by
  rw [restoreOrphan, if_neg hx, readBlocks_readable hd]
  simp

end Readable

/-- The disk positions that the cluster loop of `restore_orphan` reads, in order. -/
def orphanPositions (partOffset : UInt64) (clusterSize size : ℕ) (l : List UInt64) : List ℕ :=
  pieces (fun c i => (partOffset + c).toNat + i) (min clusterSize blockSize) size l

/-- **A restore writes the bytes at these positions.** -/
theorem orphanClusters_positions {d : Disk} (hd : d.Readable) (partOffset : UInt64)
    (clusterSize size : ℕ) (l : List UInt64) :
    orphanClusters d partOffset clusterSize size l =
      ((orphanPositions partOffset clusterSize size l).map d.content, .ok) := by
  rw [orphanClusters_readable hd, orphanPositions, map_pieces]
  congr 1
  exact pieces_congr fun c _ i hi => by rw [blockPos_of_lt _ (by omega)]

/-- A readable disk with a given content. -/
def contentDisk (sectorSize : ℕ) (content : ℕ → UInt8) : Disk := ⟨sectorSize, 0, content, fun _ _ => false⟩

theorem contentDisk_readable (sectorSize : ℕ) (content : ℕ → UInt8) :
    (contentDisk sectorSize content).Readable := fun _ _ => rfl

end RecoveryQt
