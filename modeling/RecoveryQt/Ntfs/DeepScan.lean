import RecoveryQt.Lib.BitSweep
import RecoveryQt.Lib.Flushes
import RecoveryQt.Scan.Resume

/-!
# The clusters of the deep scan of an NTFS volume

`scanner_deep_ntfs` goes through `$Bitmap`, reads the free clusters in batches of up to 64 and hands each of them to
`scan_cluster_indx`.

* `DeepNtfs.bits`, `DeepNtfs.scannerDeepNtfs`: the loop, with the clusters it hands over;
* `deepNtfsSkipping_eq`: the items of a scan are those of its flushes;
* `DeepNtfs.PassesFree`: each free cluster from the resume offset on is handed over once, and no other;
* **`DeepNtfs.passesFree_iff`**: when it is.
-/

namespace RecoveryQt

open List

/-- `max_batch`. -/
def maxBatch : ℕ := 64

/-- A volume: its disk and partition, the clusters, and `$Bitmap` with its initialized size and the reads of it that
fail. -/
structure DeepNtfs where
  disk : Disk
  partition : Partition
  clusterSize : ℕ
  nrClusters : ℕ
  bmpsize : ℕ
  bitmap : ℕ → UInt8
  bitmapBad : ℕ → Bool
  clusterSize_pos : 0 < clusterSize

/-- The first cluster that is not passed over. -/
def ScanResume.clusterStart (s : ScanResume) : ℕ := if s.phase = indxDeep then s.offset.toNat else 0

namespace DeepNtfs

variable (v : DeepNtfs) (s : ScanResume)

/-- The bits that the loop comes to, in blocks of 64 KiB. -/
def bits : List Bool :=
  (sweepBitmap v.nrClusters (fun _ used => [used]) 65536 v.bmpsize v.bitmap v.bitmapBad).listed

/-- Where a cluster is on the disk. -/
def clusterOffset (c : ℕ) : UInt64 := UInt64.ofNat v.partition.partOffset + UInt64.ofNat (c * v.clusterSize)

/-- The clusters of a batch with the place of the bytes that are handed over for each, if it can be read. -/
def flush (start count : ℕ) : List (ℕ × UInt64) :=
  if 0 < count ∧ (v.disk.pread (count * v.clusterSize) (v.clusterOffset start).toNat).isSome then
    (range count).map fun c => (start + c, v.clusterOffset start + UInt64.ofNat (c * v.clusterSize))
  else []

/-- `scanner_deep_ntfs`: the calls of `scan_cluster_indx`. -/
def scannerDeepNtfs : List (ℕ × UInt64) :=
  if v.nrClusters = 0 ∨ v.clusterSize = 0 then []
  else (flushes maxBatch v.bits 0 0 0).flatMap fun f => if s.skipsCluster f.tested then [] else v.flush f.start f.count

/-! ## The claim -/

/-- All reads succeed. -/
structure ReadsSucceed : Prop where
  bitmap : ∀ i, v.bitmapBad i = false
  clusters : ∀ count offset, v.disk.bad count offset = false

/-- The number of clusters that have a bit. -/
def mapped : ℕ := min (8 * v.bmpsize) v.nrClusters

/-- A cluster is free. -/
def Free (c : ℕ) : Prop := c < v.mapped ∧ bitOf v.bitmap c = false

/-- Only free clusters are handed over, with their bytes, and each from the resume offset on is, once. -/
structure PassesFree : Prop where
  free : ∀ p ∈ v.scannerDeepNtfs s, v.Free p.1 ∧ p.2 = v.clusterOffset p.1
  once : ∀ c, v.Free c → s.clusterStart ≤ c → ((v.scannerDeepNtfs s).map Prod.fst).count c = 1

/-- The length of the run of free clusters at the end of the bitmap. -/
def trailing : ℕ := (runBefore (fun used => !used) ((range v.mapped).map (bitOf v.bitmap))).length

end DeepNtfs

/-! ## The scan with its items -/

/-- The items of a scan that is resumed are those of the flushes that are not passed over. -/
theorem ResumableVolume.deepNtfsSkipping_eq (v : ResumableVolume) (skips : ℕ → Bool) (bits : List Bool)
    (cluster start count : ℕ) : v.deepNtfsSkipping skips bits cluster start count =
      (flushes maxBatch bits cluster start count).flatMap fun f =>
        if skips f.tested then [] else v.flush f.start f.count := by
  induction bits generalizing cluster start count with
  | nil => exact (append_nil _).symm
  | cons used bits ih =>
    cases used with
    | true =>
      rw [deepNtfsSkipping, flushes, flatMap_cons, ih]
    | false =>
      rw [deepNtfsSkipping, flushes]
      generalize (if count = 0 then cluster else start) = start'
      by_cases hfull : 64 ≤ count + 1
      · rw [if_pos hfull, if_pos (show maxBatch ≤ count + 1 from hfull), flatMap_cons, ih]
      · rw [if_neg hfull, if_neg (show ¬ maxBatch ≤ count + 1 from hfull), ih]

namespace DeepNtfs

variable {v : DeepNtfs} {s : ScanResume}

/-! ## The clusters that are handed over -/

theorem bits_eq (h : v.ReadsSucceed) : v.bits = (range v.mapped).map (bitOf v.bitmap) := by
  rw [bits, sweepBitmap_listed _ _ _ (by decide) _ h.bitmap]
  exact flatMap_pure_eq_map _ _

theorem mem_untaken_bits (h : v.ReadsSucceed) {c : ℕ} : c ∈ untaken v.bits 0 ↔ v.Free c := by
  rw [mem_untaken, bits_eq h, and_iff_right (Nat.zero_le c), Nat.sub_zero, getElem?_map, Option.map_eq_some_iff]
  simp only [List.getElem?_eq_some_iff, length_range, getElem_range, exists_prop, Free]
  exact ⟨fun ⟨_, ⟨hlt, rfl⟩, hbit⟩ => ⟨hlt, hbit⟩, fun hfree => ⟨c, ⟨hfree.1, rfl⟩, hfree.2⟩⟩

/-- A batch that can be read is handed over. -/
theorem flush_eq (h : v.ReadsSucceed) (start count : ℕ) :
    v.flush start count = (range' start count).map fun c => (c, v.clusterOffset c) := by
  have hread : (v.disk.pread (count * v.clusterSize) (v.clusterOffset start).toNat).isSome := by
    rw [Disk.pread, h.clusters]
    rfl
  rw [flush, range'_eq_map_range, map_map]
  cases count with
  | zero => rfl
  | succ n =>
    rw [if_pos ⟨Nat.succ_pos n, hread⟩]
    refine map_congr_left fun c _ => Prod.ext rfl ?_
    show v.clusterOffset start + UInt64.ofNat (c * v.clusterSize) = v.clusterOffset (start + c)
    rw [clusterOffset, clusterOffset, Nat.add_mul, UInt64.ofNat_add, UInt64.add_assoc]

theorem skipsCluster_iff (c : ℕ) : s.skipsCluster c = true ↔ c < s.clusterStart := by
  rw [ScanResume.skipsCluster, decide_eq_true_eq, ScanResume.clusterStart]
  split_ifs with hphase
  · rw [and_iff_right hphase]
    exact and_iff_right_of_imp fun hlt => UInt64.lt_iff_toNat_lt.mpr ((Nat.zero_le c).trans_lt hlt)
  · exact iff_of_false (fun h => hphase h.1) (Nat.not_lt_zero c)

/-- **The calls are those of the flushes** that are not passed over. -/
theorem scannerDeepNtfs_eq (h : v.ReadsSucceed) : v.scannerDeepNtfs s =
    (passed s.clusterStart (flushes maxBatch v.bits 0 0 0)).map fun c => (c, v.clusterOffset c) := by
  rw [scannerDeepNtfs]
  split_ifs with hnone
  · have hzero : v.mapped = 0 := by
      have := v.clusterSize_pos
      unfold mapped
      omega
    have hnil : passed s.clusterStart (flushes maxBatch v.bits 0 0 0) = [] := by
      have hsub := passed_sublist_untaken maxBatch s.clusterStart v.bits
      rw [bits_eq h, hzero] at hsub ⊢
      exact sublist_nil.mp hsub
    rw [hnil]
    rfl
  · rw [passed, map_flatMap]
    refine flatMap_congr fun f _ => ?_
    by_cases hskip : f.tested < s.clusterStart
    · rw [if_pos ((skipsCluster_iff _).mpr hskip), if_pos hskip]
      rfl
    · rw [if_neg fun hs => hskip ((skipsCluster_iff _).mp hs), if_neg hskip, flush_eq h]
      rfl

/-- **Each free cluster is handed over** exactly if the batch of free clusters that is left at the end of the bitmap does
not start before the resume offset, or ends there at the latest. -/
theorem passesFree_iff (v : DeepNtfs) (s : ScanResume) (h : v.ReadsSucceed) :
    v.PassesFree s ↔ s.clusterStart ≤ v.mapped - v.trailing % maxBatch ∨ v.mapped ≤ s.clusterStart := by
  have hlength : v.bits.length = v.mapped := by rw [bits_eq h, length_map, length_range]
  have hpending : pendingAfter maxBatch 0 v.bits = v.trailing % maxBatch := by
    rw [pendingAfter_eq (by decide), bits_eq h, trailing]
  have hfst : (v.scannerDeepNtfs s).map Prod.fst = passed s.clusterStart (flushes maxBatch v.bits 0 0 0) := by
    rw [scannerDeepNtfs_eq h, map_map]
    exact map_id _
  have hnodup := nodup_passed maxBatch s.clusterStart v.bits
  rw [← hlength, ← hpending, ← forall_mem_passed_iff]
  constructor
  · intro hpasses c hc hstart
    have hcount := hpasses.once c ((mem_untaken_bits h).mp hc) hstart
    rw [hfst] at hcount
    exact count_pos_iff.mp (by omega)
  · refine fun hall => ⟨fun p hp => ?_, fun c hc hstart => ?_⟩
    · rw [scannerDeepNtfs_eq h] at hp
      obtain ⟨c, hc, rfl⟩ := mem_map.mp hp
      exact ⟨(mem_untaken_bits h).mp ((passed_sublist_untaken _ _ _).subset hc), rfl⟩
    · rw [hfst]
      exact count_eq_one_of_mem hnodup (hall c ((mem_untaken_bits h).mpr hc) hstart)

end DeepNtfs

/-- A volume of eight free clusters. -/
def eightFree : DeepNtfs where
  disk := ⟨512, 4096, fun _ => 0, fun _ _ => false⟩
  partition := ⟨0, 4096, .ntfs, 0⟩
  clusterSize := 512
  nrClusters := 8
  bmpsize := 1
  bitmap _ := 0
  bitmapBad _ := false
  clusterSize_pos := by decide

theorem eightFree_readsSucceed : eightFree.ReadsSucceed := ⟨fun _ => rfl, fun _ _ => rfl⟩

/-- A scan of it that is not resumed. -/
theorem eightFree_passesFree :
    eightFree.PassesFree .fresh ↔ 0 ≤ eightFree.mapped - eightFree.trailing % maxBatch ∨ eightFree.mapped ≤ 0 :=
  DeepNtfs.passesFree_iff eightFree .fresh eightFree_readsSucceed

/-- A scan that is resumed at the fourth cluster hands over none of them. -/
theorem eightFree_not_passesFree : ¬ eightFree.PassesFree ⟨ScanResume.indxDeep, 4, 0⟩ := by
  intro h
  have hfree : eightFree.Free 7 := ⟨by decide, by decide⟩
  have honce := h.once 7 hfree (by decide)
  revert honce
  decide +kernel

end RecoveryQt
