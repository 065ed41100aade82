import RecoveryQt.Carver.Entries
import RecoveryQt.Restore.Readable

/-!
# The length of a restored file

`restore_orphan` cuts the last cluster of a cluster list at the size of the file, a sector range is copied
whole.

* `RestoresLength`: what is written is as long as the node says; `NodeInfo.RangeFits`: when it is;
* **`restoresLength_iff`**;
* `carvedNode`, `carvedNode_rangeFits_iff`: the node of a carved file is restored in whole sectors.
-/

namespace RecoveryQt

open List

/-- A file that is restored has the size of its node. -/
def RestoresLength (d : Disk) (p : Partition) (x : NodeInfo) : Prop :=
  (restoreOrphan d p x).2 = .ok → (restoreOrphan d p x).1.length = x.size.toNat

/-- The clusters, of each of which at most one buffer is read, hold the size; or the sectors are the size,
counted with the sector size of the disk in 64 bits. -/
def NodeInfo.RangeFits (sectorSize : ℕ) (x : NodeInfo) : Prop :=
  if x.clustered then x.size.toNat ≤ x.clusters.list.length * min x.clusters.size.toNat blockSize
  else sectorBytes sectorSize x = x.size.toNat

instance (sectorSize : ℕ) (x : NodeInfo) : Decidable (x.RangeFits sectorSize) := by
  unfold NodeInfo.RangeFits
  infer_instance

section Readable

variable {d : Disk} (hd : d.Readable)
include hd

/-- On a disk whose reads succeed every orphan is reported as restored. -/
theorem restoreOrphan_ok (p : Partition) (x : NodeInfo) : (restoreOrphan d p x).2 = .ok := by
  unfold restoreOrphan
  split_ifs
  · rw [orphanClusters_positions hd]
  · rw [readBlocks_readable hd]

theorem length_restoreOrphan (p : Partition) (x : NodeInfo) : (restoreOrphan d p x).1.length =
    if x.clustered then min x.size.toNat (x.clusters.list.length * min x.clusters.size.toNat blockSize)
    else sectorBytes d.sectorSize x := by
  split_ifs with hx
  · rw [restoreOrphan, if_pos hx, orphanClusters_positions hd, length_map, orphanPositions, length_pieces]
  · exact length_restoreOrphan_sectors hd hx

/-- **A restored file has the recorded size** exactly when its clusters hold it, or its sectors are it. -/
theorem restoresLength_iff (p : Partition) (x : NodeInfo) : RestoresLength d p x ↔ x.RangeFits d.sectorSize := by
  rw [RestoresLength, imp_iff_right (restoreOrphan_ok hd p x), length_restoreOrphan hd]
  unfold NodeInfo.RangeFits
  split_ifs
  · exact min_eq_left_iff
  · exact Iff.rfl

end Readable

/-! ## Carved files -/

/-- The node of a carved file at a new path. -/
def carvedNode (partOffset sectorSize : ℕ) (e : CarvedEntry) : NodeInfo :=
  { nodeAlloc (carvedArgs partOffset sectorSize e) with orphan := true }

/-- A carved file is restored in whole sectors. -/
theorem carvedNode_rangeFits_iff (partOffset : ℕ) {sectorSize : ℕ} (hss : 0 < sectorSize) {e : CarvedEntry}
    (hsize : e.size + sectorSize < 2 ^ 64) :
    (carvedNode partOffset sectorSize e).RangeFits sectorSize ↔ sectorSize ∣ e.size := by
  have hnot : ¬ (carvedNode partOffset sectorSize e).clustered := fun h => h.1 rfl
  have hround := Nat.div_mul_le_self (e.size + sectorSize - 1) sectorSize
  have hcount : (e.size + sectorSize - 1) / sectorSize ≤ e.size + sectorSize - 1 := Nat.div_le_self _ _
  have hbytes : sectorBytes sectorSize (carvedNode partOffset sectorSize e) =
      (e.size + sectorSize - 1) / sectorSize * sectorSize := by
    show (UInt64.ofNat ((e.size + sectorSize - 1) / sectorSize) * UInt64.ofNat sectorSize).toNat = _
    rw [← UInt64.ofNat_mul, UInt64.toNat_ofNat', Nat.mod_eq_of_lt (by omega)]
  have hnode : (carvedNode partOffset sectorSize e).size.toNat = e.size :=
    (UInt64.toNat_ofNat' ..).trans (Nat.mod_eq_of_lt (by omega))
  rw [NodeInfo.RangeFits, if_neg hnot, hbytes, hnode]
  constructor
  · intro h
    exact ⟨_, by rw [← h, Nat.mul_comm]⟩
  · rintro ⟨k, hk⟩
    have hdiv : (e.size + sectorSize - 1) / sectorSize = k := by
      rw [Nat.div_eq_iff hss, hk, Nat.mul_comm k]
      omega
    rw [hdiv, hk, Nat.mul_comm]

/-- A PDF file of 1000 bytes at byte 4096 of a partition. -/
def smallPdf : CarvedEntry := ⟨4096, 1000, ⟨0, some [112, 100, 102], 0⟩⟩

/-- It is restored with 24 bytes of the disk behind it. -/
theorem smallPdf_not_restoresLength : (contentDisk 512 fun _ => 0).Readable ∧
    (restoreOrphan (contentDisk 512 fun _ => 0) ⟨0, 0, .unk, 0⟩ (carvedNode 0 512 smallPdf)).1.length = 1024 ∧
    ¬ RestoresLength (contentDisk 512 fun _ => 0) ⟨0, 0, .unk, 0⟩ (carvedNode 0 512 smallPdf) := by
  have hd := contentDisk_readable 512 fun _ => 0
  have hlen : (restoreOrphan (contentDisk 512 fun _ => 0) ⟨0, 0, .unk, 0⟩ (carvedNode 0 512 smallPdf)).1.length =
      1024 := (length_restoreOrphan_sectors hd (fun h => h.1 rfl)).trans (by decide)
  refine ⟨hd, hlen, fun h => ?_⟩
  exact absurd (hlen.symm.trans (h (restoreOrphan_ok hd _ _))) (by decide)

/-- A carved file of whole sectors. -/
theorem wholeSectors_restoresLength :
    RestoresLength (contentDisk 512 fun _ => 0) ⟨0, 0, .unk, 0⟩ (carvedNode 0 512 ⟨4096, 1024, ⟨0, none, 0⟩⟩) :=
  (restoresLength_iff (contentDisk_readable 512 fun _ => 0) _ _).mpr (by decide)

end RecoveryQt
