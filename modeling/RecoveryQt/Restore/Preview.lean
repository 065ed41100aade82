import RecoveryQt.Restore.Readable

/-!
# Preview and restore

A preview of a cluster list takes whole clusters, a restore at most one buffer of each; a sector
range that the preview does not take itself is left to the memory capture.

* `PreviewAgrees`, `PreviewExact`: a preview shows what a restore writes, and when it does so
  whatever the disk holds;
* **`previewAgrees_iff`**: the two are equivalent.
-/

namespace RecoveryQt

open List

/-! ## What a preview shows -/

variable (copyFile : NodeInfo → List UInt8 × CopyFile)

/-- A preview shows the bytes a restore writes, or the first 64 MiB of a longer sector range. -/
def PreviewAgrees (d : Disk) (p : Partition) (x : NodeInfo) : Prop :=
  (readFileBytes copyFile d p x).getD [] = (restoreFile copyFile d p x).1 ∨
    ¬ x.clustered ∧ maxRead < sectorBytes d.sectorSize x ∧
      readFileBytes copyFile d p x = some ((restoreFile copyFile d p x).1.take maxRead)

/-- When the preview of a node shows what a restore writes, whatever the disk holds. A cluster list
has to be restored from the disk, and its clusters to fit in the buffer of a restore, unless the
file is short enough for one buffer a cluster and the bytes that follow lie at the same positions. A
sector range needs a nonzero start that the preview takes, or to be empty. -/
def PreviewExact (sectorSize : ℕ) (p : Partition) (x : NodeInfo) : Prop :=
  if x.clustered then
    x.raw ∧ (x.clusters.size.toNat ≤ blockSize ∨
      x.size.toNat ≤ x.clusters.list.length * blockSize ∧
      ∀ b < x.size.toNat,
        clusterPos (UInt64.ofNat p.partOffset) x.clusters.size.toNat x.clusters.list b =
          clusterPos (UInt64.ofNat p.partOffset) blockSize x.clusters.list b)
  else if x.orphan = true ∧ x.firstSector ≠ 0 ∧ 0 < x.numSectors then
    sectorBytes sectorSize x ≠ 0
  else ¬ x.raw ∨ sectorBytes sectorSize x = 0

/-- A statement about the content of every readable disk is one about every content. -/
theorem forall_readable_iff {sectorSize : ℕ} {Q : Disk → Prop} {P : (ℕ → UInt8) → Prop}
    (h : ∀ d : Disk, d.sectorSize = sectorSize → d.Readable → (Q d ↔ P d.content)) :
    (∀ d : Disk, d.sectorSize = sectorSize → d.Readable → Q d) ↔ ∀ content, P content := by
  constructor
  · intro hQ content
    have hd := contentDisk_readable sectorSize content
    exact (h _ rfl hd).mp (hQ _ rfl hd)
  · intro hP d hs hd
    exact (h d hs hd).mpr (hP d.content)

/-- Two lists of disk positions hold the same bytes on every disk only if they are the same. -/
theorem map_content_eq_iff {m n : ℕ} {q r : ℕ → ℕ} :
    (∀ content : ℕ → UInt8,
        ((range m).map fun b => content (q b)) = (range n).map fun b => content (r b)) ↔
      m = n ∧ ∀ b < m, q b = r b := by
  constructor
  · intro h
    have hmn : m = n := by simpa using congrArg length (h fun _ => 0)
    subst hmn
    refine ⟨rfl, fun b hb => ?_⟩
    have hmap := map_inj_left.mp (h fun o => if o = r b then 1 else 0) b (mem_range.mpr hb)
    by_contra hne
    simp [hne] at hmap
  · rintro ⟨rfl, h⟩ content
    exact map_congr_left fun b hb => by rw [h b (mem_range.mp hb)]

/-- The bytes of a cluster list read `S` bytes a cluster, on a disk with this content. -/
def clusterBytes (p : Partition) (x : NodeInfo) (S : ℕ) (content : ℕ → UInt8) : List UInt8 :=
  (range (min x.size.toNat (x.clusters.list.length * S))).map fun b =>
    content (clusterPos (UInt64.ofNat p.partOffset) S x.clusters.list b)

section Clustered

variable {copyFile} {d : Disk} {p : Partition} {x : NodeInfo}

theorem NodeInfo.clustered.size_pos (hx : x.clustered) : 0 < x.clusters.size.toNat :=
  Nat.pos_of_ne_zero fun h => hx.2 (UInt32.toNat_inj.mp h)

theorem readFileBytes_clustered (hd : d.Readable) (hsize : x.size ≠ 0) (hx : x.clustered) :
    readFileBytes copyFile d p x = some (clusterBytes p x x.clusters.size.toNat d.content) := by
  rw [readFileBytes, if_neg hsize, if_pos hx, previewClusters_readable hd,
    pieces_eq_map _ hx.size_pos]
  rfl

theorem restoreFile_clustered (hd : d.Readable) (hx : x.clustered) (hraw : x.raw) :
    (restoreFile copyFile d p x).1 =
      clusterBytes p x (min x.clusters.size.toNat blockSize) d.content := by
  have hS : 0 < min x.clusters.size.toNat blockSize := Nat.lt_min.mpr ⟨hx.size_pos, by decide⟩
  rw [restoreFile, if_pos hraw, restoreOrphan, if_pos hx, orphanClusters_readable hd,
    pieces_eq_map _ hS]
  rfl

/-- **A node with clusters that is restored from the disk.** -/
theorem previewAgrees_clustered (sectorSize : ℕ) (hsize : x.size ≠ 0) (hx : x.clustered)
    (hraw : x.raw) :
    (∀ d : Disk, d.sectorSize = sectorSize → d.Readable → PreviewAgrees copyFile d p x) ↔
      (x.clusters.size.toNat ≤ blockSize ∨
        x.size.toNat ≤ x.clusters.list.length * blockSize ∧
        ∀ b < x.size.toNat,
          clusterPos (UInt64.ofNat p.partOffset) x.clusters.size.toNat x.clusters.list b =
            clusterPos (UInt64.ofNat p.partOffset) blockSize x.clusters.list b) := by
  have hbytes : ∀ d : Disk, d.Readable → (PreviewAgrees copyFile d p x ↔
      clusterBytes p x x.clusters.size.toNat d.content =
        clusterBytes p x (min x.clusters.size.toNat blockSize) d.content) := by
    intro d hd
    rw [PreviewAgrees, readFileBytes_clustered hd hsize hx, restoreFile_clustered hd hx hraw]
    exact or_iff_left fun h => h.1 hx
  have hall : (∀ d : Disk, d.sectorSize = sectorSize → d.Readable → PreviewAgrees copyFile d p x) ↔
      ∀ content, clusterBytes p x x.clusters.size.toNat content =
        clusterBytes p x (min x.clusters.size.toNat blockSize) content :=
    forall_readable_iff fun d _ hd => hbytes d hd
  rw [hall]
  unfold clusterBytes
  rw [map_content_eq_iff]
  set cs := x.clusters.size.toNat
  set n := x.clusters.list.length
  have hn : 0 < n := length_pos_of_ne_nil hx.1
  by_cases hfit : cs ≤ blockSize
  · rw [Nat.min_eq_left hfit]
    simp [hfit]
  · have hlt : blockSize < cs := not_le.mp hfit
    rw [Nat.min_eq_right hlt.le]
    have hmul : n * blockSize < n * cs := Nat.mul_lt_mul_of_pos_left hlt hn
    constructor
    · rintro ⟨hlen, hpos⟩
      have hshort : x.size.toNat ≤ n * blockSize := by omega
      rw [Nat.min_eq_left (hshort.trans hmul.le)] at hpos
      exact .inr ⟨hshort, hpos⟩
    · rintro (hle | ⟨hshort, hpos⟩)
      · exact absurd hle hfit
      · rw [Nat.min_eq_left (hshort.trans hmul.le), Nat.min_eq_left hshort]
        exact ⟨rfl, hpos⟩

/-! ## Sector ranges -/

theorem length_restoreFile_sectors (hd : d.Readable) (hx : ¬ x.clustered) (hraw : x.raw) :
    (restoreFile copyFile d p x).1.length = sectorBytes d.sectorSize x := by
  rw [restoreFile, if_pos hraw]
  exact length_restoreOrphan_sectors hd hx

theorem orphan_raw (h : x.orphan = true) : x.raw := .inl h

/-- A sector range that the preview takes itself. -/
theorem previewAgrees_sectors (hd : d.Readable) (hsize : x.size ≠ 0) (hx : ¬ x.clustered)
    (horphan : x.orphan = true ∧ x.firstSector ≠ 0 ∧ 0 < x.numSectors) :
    PreviewAgrees copyFile d p x ↔ sectorBytes d.sectorSize x ≠ 0 := by
  have hwritten : (restoreFile copyFile d p x).1 =
      (range (sectorBytes d.sectorSize x)).map fun i =>
        d.content (blockPos (UInt64.ofNat p.partOffset + x.firstSector) i) := by
    rw [restoreFile, if_pos (orphan_raw horphan.1), restoreOrphan, if_neg hx, readBlocks_readable hd]
  have hshown : ∀ n, (if min (sectorBytes d.sectorSize x) maxRead = 0 then 4096
      else min (sectorBytes d.sectorSize x) maxRead) = n →
      readFileBytes copyFile d p x = some ((range n).map fun i =>
        d.content (blockPos (UInt64.ofNat p.partOffset + x.firstSector) i)) := by
    rintro n rfl
    rw [readFileBytes, if_neg hsize, if_neg hx, if_pos horphan]
    simp only [readBlocks_readable hd]
  rw [PreviewAgrees, hwritten]
  have hmax : maxRead = 67108864 := rfl
  by_cases h0 : sectorBytes d.sectorSize x = 0
  · -- the range is empty, the preview reads 4096 bytes of it
    rw [hshown 4096 (by rw [h0]; rfl)]
    refine iff_of_false (fun h => ?_) fun h => h h0
    rcases h with h | h
    · have hlen := congrArg length h
      rw [Option.getD_some, length_map, length_range, length_map, length_range, h0] at hlen
      exact absurd hlen (by decide)
    · omega
  · rw [hshown (min (sectorBytes d.sectorSize x) maxRead) (if_neg (by omega))]
    refine iff_of_true ?_ h0
    by_cases hlong : maxRead < sectorBytes d.sectorSize x
    · refine .inr ⟨hx, hlong, ?_⟩
      rw [← map_take, take_range, Nat.min_comm]
    · refine .inl ?_
      rw [Nat.min_eq_left (not_lt.mp hlong)]
      rfl

/-- A sector range that is left to the memory capture: the capture does not see `restore_orphan`. -/
theorem previewAgrees_captured (hd : d.Readable) (hsize : x.size ≠ 0) (hx : ¬ x.clustered)
    (horphan : ¬ (x.orphan = true ∧ x.firstSector ≠ 0 ∧ 0 < x.numSectors)) :
    PreviewAgrees copyFile d p x ↔ ¬ x.raw ∨ sectorBytes d.sectorSize x = 0 := by
  have hshown : readFileBytes copyFile d p x =
      if captured copyFile x = [] then none else some (captured copyFile x) := by
    rw [readFileBytes, if_neg hsize, if_neg hx, if_neg horphan]
  by_cases hraw : x.raw
  · have hnone : readFileBytes copyFile d p x = none := by
      rw [hshown, captured, if_pos hraw, if_pos rfl]
    have hlen : (restoreFile copyFile d p x).1.length = _ := length_restoreFile_sectors hd hx hraw
    rw [PreviewAgrees, hnone, ← hlen, length_eq_zero_iff, Option.getD_none,
      or_iff_left fun h => by simp at h, or_iff_right (not_not.mpr hraw)]
    exact eq_comm
  · refine iff_of_true (.inl ?_) (.inl hraw)
    rw [hshown, restoreFile, if_neg hraw, captured, if_neg hraw]
    split_ifs with hnil
    · exact hnil.symm
    · rfl

end Clustered

/-! ## The exact condition -/

/-- **Preview equals restore exactly on these nodes.** Fix the geometry and the node; the driver and
the content of the disk are arbitrary. -/
theorem previewAgrees_iff (sectorSize : ℕ) (p : Partition) (x : NodeInfo) (hsize : x.size ≠ 0) :
    (∀ (copyFile : NodeInfo → List UInt8 × CopyFile) (d : Disk), d.sectorSize = sectorSize →
      d.Readable → PreviewAgrees copyFile d p x) ↔ PreviewExact sectorSize p x := by
  rw [PreviewExact]
  split_ifs with hx horphan
  · by_cases hraw : x.raw
    · rw [and_iff_right hraw]
      constructor
      · intro h
        exact (previewAgrees_clustered sectorSize hsize hx hraw).mp (h fun _ => ([], .ok))
      · intro h copyFile
        exact (previewAgrees_clustered sectorSize hsize hx hraw).mpr h
    · -- a driver that writes one byte more than the preview shows
      refine iff_of_false (fun h => ?_) fun h => hraw h.1
      have hd := contentDisk_readable sectorSize fun _ => 0
      have hbytes := (h (fun _ => (clusterBytes p x x.clusters.size.toNat (fun _ => 0) ++ [0], .ok))
        _ rfl hd).resolve_right fun hs => hs.1 hx
      rw [readFileBytes_clustered hd hsize hx, restoreFile, if_neg hraw] at hbytes
      have hlen := congrArg length hbytes
      simp [contentDisk] at hlen
  · constructor
    · intro h
      exact (previewAgrees_sectors (contentDisk_readable sectorSize fun _ => 0) hsize hx horphan).mp
        (h (fun _ => ([], .ok)) _ rfl (contentDisk_readable _ _))
    · rintro h copyFile d rfl hd
      exact (previewAgrees_sectors hd hsize hx horphan).mpr h
  · constructor
    · intro h
      exact (previewAgrees_captured (contentDisk_readable sectorSize fun _ => 0) hsize hx horphan).mp
        (h (fun _ => ([], .ok)) _ rfl (contentDisk_readable _ _))
    · rintro h copyFile d rfl hd
      exact (previewAgrees_captured hd hsize hx horphan).mpr h

/-- A preview and a restore may read the same node differently only past the first buffer: a file
of at most 64 KiB with a cluster list, orphan or from a backup, is always shown as it is restored. -/
theorem previewExact_of_short (sectorSize : ℕ) (p : Partition) {x : NodeInfo} (hx : x.clustered)
    (hraw : x.raw) (hshort : x.size.toNat ≤ blockSize) : PreviewExact sectorSize p x := by
  rw [PreviewExact, if_pos hx]
  refine ⟨hraw, ?_⟩
  by_cases hfit : x.clusters.size.toNat ≤ blockSize
  · exact .inl hfit
  · refine .inr ⟨?_, fun b hb => ?_⟩
    · have hn : 0 < x.clusters.list.length := length_pos_of_ne_nil hx.1
      exact hshort.trans (Nat.le_mul_of_pos_left _ hn)
    · rw [clusterPos, clusterPos, Nat.div_eq_of_lt (by omega), Nat.mod_eq_of_lt (by omega),
        Nat.div_eq_of_lt (by omega), Nat.mod_eq_of_lt (by omega)]

/-- A file of 128 KiB in one exFAT cluster, missing from the filesystem a backup was made of. -/
def bigCluster : NodeInfo :=
  { nodeAlloc ⟨false, 131072, 0, 256, 0, 512, true⟩ with
    backupRestored := true
    clusters := ⟨[1048576], 131072, by decide, by decide⟩ }

theorem previewAgrees_iff_bigCluster :
    (∀ (copyFile : NodeInfo → List UInt8 × CopyFile) (d : Disk), d.sectorSize = 512 →
      d.Readable → PreviewAgrees copyFile d ⟨0, 0, .exfat, 0⟩ bigCluster) ↔
    PreviewExact 512 ⟨0, 0, .exfat, 0⟩ bigCluster :=
  previewAgrees_iff 512 ⟨0, 0, .exfat, 0⟩ bigCluster (by decide)

/-- The preview of that file has 128 KiB, what is restored has 64 KiB. -/
theorem bigCluster_not_previewAgrees :
    bigCluster.clusters.list ≠ [] ∧ bigCluster.size ≠ 0 ∧ (contentDisk 512 fun _ => 0).Readable ∧
      ¬ PreviewAgrees (fun _ => ([], .ok)) (contentDisk 512 fun _ => 0) ⟨0, 0, .exfat, 0⟩
        bigCluster := by
  have hd := contentDisk_readable 512 fun _ => 0
  have hx : bigCluster.clustered := by decide
  refine ⟨by decide, by decide, hd, fun h => ?_⟩
  have hlen := congrArg length (h.resolve_right fun hs => hs.1 hx)
  rw [readFileBytes_clustered hd (by decide) hx, restoreFile_clustered hd hx (by decide),
    Option.getD_some, clusterBytes, clusterBytes, length_map, length_range, length_map,
    length_range] at hlen
  exact absurd hlen (by decide)

end RecoveryQt
