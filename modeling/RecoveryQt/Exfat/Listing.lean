import RecoveryQt.Exfat.Agree
import RecoveryQt.Fat.DirChain

/-!
# The clusters of an exFAT directory

* `ExfatVolume.exfatDir`: `exfat_dir`, the clusters it hands to the directory decoder;
* `ExfatDirectory`: a directory of the volume, linked in the table or contiguous;
* `ExfatDirectory.ListsWhole`, `ExfatDirectory.WholeWhen`: it is read whole, and when it is;
* **`ExfatDirectory.listsWhole_iff`**: the two are equivalent.
-/

namespace RecoveryQt

open List

/-- `NBR_CLUSTER_MAX`. -/
def nbrClusterMax : ℕ := 30

namespace ExfatVolume

variable (v : ExfatVolume)

/-- Where `exfat_read_cluster` reads a cluster. -/
def readOffset (c : ℕ) : UInt64 := UInt64.ofNat v.partition.partOffset + v.clusterToOffset c

/-- Where a cluster is on the disk. -/
def diskOffset (c : ℕ) : UInt64 := UInt64.ofNat v.partition.partOffset + v.collectOffset c

/-- A read of a cluster at an offset succeeds. -/
def Readable (offset : UInt64) : Prop := v.disk.bad v.clusterSize offset.toNat = false

/-- What the loop of `exfat_dir` is called with. -/
def dirChain : DirChain where
  isEnd c := c == 0xFFFFFFFF
  last := v.totalClusters
  next := v.next
  reads c := (v.disk.pread v.clusterSize (v.readOffset c).toNat).isSome

/-- The first cluster: `first_cluster` as an `unsigned int`, or `rootdir_clusnr`. -/
def dirStart (rootdirClusnr : UInt32) (firstCluster : ℕ) : ℕ :=
  if firstCluster < 2 then rootdirClusnr.toNat else firstCluster % 2 ^ 32

/-- The clusters that `exfat_dir` reads, the last one perhaps in vain. -/
def dirReads (rootdirClusnr : UInt32) (firstCluster : ℕ) : List ℕ :=
  v.dirChain.attempts nbrClusterMax (dirStart rootdirClusnr firstCluster) .followCluster

/-- `exfat_dir`: the clusters in the buffer for `dir_exfat_aux`, with the offset each was read at. -/
def exfatDir (rootdirClusnr : UInt32) (firstCluster : ℕ) : List (ℕ × UInt64) :=
  (v.dirChain.filled nbrClusterMax (dirStart rootdirClusnr firstCluster) .followCluster).map
    fun c => (c, v.readOffset c)

/-- The clusters are linked in the table. -/
def Linked (l : List ℕ) : Prop :=
  (l.IsChain fun a b => v.next a = b) ∧ ∀ c ∈ l.getLast?, v.next c = 0xFFFFFFFF

/-- The clusters follow each other on the disk, and the table has no entry for them. -/
def Contiguous (l : List ℕ) : Prop :=
  (l.IsChain fun a b => b = a + 1) ∧ ∀ c ∈ l, v.next c = 0

end ExfatVolume

/-- A directory of a volume: valid clusters, no two the same, all of them readable. -/
structure ExfatDirectory (v : ExfatVolume) where
  first : ℕ
  tail : List ℕ
  nodup : (first :: tail).Nodup
  valid : ∀ c ∈ first :: tail, v.DataCluster c
  readable : ∀ c ∈ first :: tail, v.Readable (v.diskOffset c)
  laid : v.Linked (first :: tail) ∨ v.Contiguous (first :: tail)

namespace ExfatDirectory

variable {v : ExfatVolume} (d : ExfatDirectory v)

/-- The clusters of the directory, in order. -/
def clusters : List ℕ := d.first :: d.tail

/-- `exfat_dir` reads the clusters of the directory in their order, each from its place, and no
others; and whatever the table holds, it comes to an end. -/
structure ListsWhole : Prop where
  whole : ∀ root firstCluster, ExfatVolume.dirStart root firstCluster = d.first →
    v.exfatDir root firstCluster = d.clusters.map fun c => (c, v.diskOffset c)
  ends : ∀ root firstCluster, (v.dirReads root firstCluster).length ≤ nbrClusterMax

/-- When it does. The 32-bit offsets of the clusters do not wrap; and the directory is one
contiguous cluster, or linked, with at most 30 clusters, none behind `total_clusters` but as the
last one, reached from that cluster and with nothing to read behind it. -/
def WholeWhen : Prop :=
  (∀ c ∈ d.clusters, (c - 2) * v.blocksPerCluster + v.clusBlocknr < 2 ^ 32) ∧
    (v.Contiguous d.clusters ∧ d.tail = [] ∨
      v.Linked d.clusters ∧ d.clusters.length ≤ nbrClusterMax ∧
        ((∀ c ∈ d.tail, c ≤ v.totalClusters) ∨ v.dirChain.LastBehind nbrClusterMax d.clusters))

variable {d}

/-! ## The places of the clusters -/

theorem readOffset_eq_iff {c : ℕ} (h : v.DataCluster c) :
    v.readOffset c = v.diskOffset c ↔ (c - 2) * v.blocksPerCluster + v.clusBlocknr < 2 ^ 32 := by
  rw [← v.offset_eq_iff (Nat.le_succ_of_le h.2), ExfatVolume.readOffset, ExfatVolume.diskOffset,
    UInt64.add_right_inj, eq_comm]

/-- A cluster read at its place is taken by the loop. -/
theorem takes {c : ℕ} (hc : c ∈ d.clusters) (h : v.readOffset c = v.diskOffset c) :
    v.dirChain.Takes c := by
  have hvalid := d.valid c hc
  have hcount := v.count
  have hread : v.Readable (v.readOffset c) := h ▸ d.readable c hc
  refine ⟨?_, hvalid.1, ?_⟩
  · have hne : c ≠ 0xFFFFFFFF := by
      have := hvalid.2
      unfold ExfatVolume.totalClusters at this
      omega
    exact beq_false_of_ne hne
  · show (Disk.pread _ _ _).isSome
    rw [Disk.pread, if_neg (by rw [show Disk.bad _ _ _ = false from hread]; exact Bool.false_ne_true)]
    rfl

theorem start_root (d : ExfatDirectory v) :
    ExfatVolume.dirStart (UInt32.ofNat d.first) 0 = d.first := by
  have hle := (d.valid d.first mem_cons_self).2
  have hlt : v.totalClusters < 2 ^ 32 - 1 := by
    have := v.count
    unfold ExfatVolume.totalClusters
    omega
  exact UInt32.toNat_ofNat_of_lt' (by show _ < 2 ^ 32; omega)

/-- The directory is read whole exactly when its clusters are, and each from its place. -/
theorem whole_iff :
    (∀ root firstCluster, ExfatVolume.dirStart root firstCluster = d.first →
      v.exfatDir root firstCluster = d.clusters.map fun c => (c, v.diskOffset c)) ↔
      (∀ c ∈ d.clusters, v.readOffset c = v.diskOffset c) ∧
        v.dirChain.filled nbrClusterMax d.first .followCluster = d.clusters := by
  constructor
  · intro h
    have hmap := h _ _ d.start_root
    rw [ExfatVolume.exfatDir, d.start_root] at hmap
    have hfilled : v.dirChain.filled nbrClusterMax d.first .followCluster = d.clusters := by
      simpa only [map_map, Function.comp_def, map_id'] using congrArg (map Prod.fst) hmap
    rw [hfilled] at hmap
    exact ⟨fun c hc => (Prod.mk.inj (map_inj_left.mp hmap c hc)).2, hfilled⟩
  · rintro ⟨hoffset, hfilled⟩ root firstCluster hstart
    rw [ExfatVolume.exfatDir, hstart, hfilled]
    exact map_congr_left fun c hc => congrArg (c, ·) (hoffset c hc)

/-! ## The two layouts -/

theorem filled_contiguous (hlaid : v.Contiguous d.clusters) (htakes : ∀ c ∈ d.clusters, v.dirChain.Takes c) :
    v.dirChain.filled nbrClusterMax d.first .followCluster = d.clusters ↔ d.tail = [] := by
  have hfree : v.dirChain.next d.first = 0 := hlaid.2 _ mem_cons_self
  have hstep : v.dirChain.step d.first .followCluster = (0, .followCluster) := by
    rw [DirChain.step, hfree, if_neg, if_pos rfl]
    rintro (h | h)
    · exact absurd h.1 (by decide)
    · exact absurd h (by decide : ¬ ((0 : ℕ) == 0xFFFFFFFF) = true)
  rw [show nbrClusterMax = 29 + 1 from rfl, DirChain.filled_succ (htakes _ mem_cons_self), hstep,
    DirChain.filled_of_not (fun h => absurd h.2.1 (by decide)), clusters, cons.injEq,
    and_iff_right rfl]
  exact eq_comm

theorem filled_linked (hlaid : v.Linked d.clusters) (htakes : ∀ c ∈ d.clusters, v.dirChain.Takes c) :
    v.dirChain.filled nbrClusterMax d.first .followCluster = d.clusters ↔
      d.clusters.length ≤ nbrClusterMax ∧
        ((∀ c ∈ d.tail, c ≤ v.totalClusters) ∨ v.dirChain.LastBehind nbrClusterMax d.clusters) :=
  DirChain.filled_eq_iff
    ⟨hlaid.1, fun c hc => beq_iff_eq.mpr (hlaid.2 c hc), htakes⟩ d.nodup fun c hc => (d.valid c hc).2

/-- A cluster of a contiguous directory is not linked. -/
theorem not_linked (hlaid : v.Contiguous d.clusters) : ¬ v.Linked d.clusters := by
  rintro ⟨hlinks, hend⟩
  have hfree : v.next d.first = 0 := hlaid.2 _ mem_cons_self
  rcases htail : d.tail with _ | ⟨b, l⟩
  · rw [clusters, htail] at hend
    have := hend d.first rfl
    omega
  · rw [clusters, htail] at hlinks
    have hb := (d.valid b (htail ▸ mem_cons_of_mem _ mem_cons_self)).1
    have := hlinks.rel
    omega

/-- **A directory is read whole exactly then**: for every volume, every content of its table and
every directory. -/
theorem listsWhole_iff (d : ExfatDirectory v) : d.ListsWhole ↔ d.WholeWhen := by
  have hends : ∀ root firstCluster, (v.dirReads root firstCluster).length ≤ nbrClusterMax :=
    fun _ _ => DirChain.length_attempts_le _ _ _
  have hlists : d.ListsWhole ↔ (∀ c ∈ d.clusters, v.readOffset c = v.diskOffset c) ∧
      v.dirChain.filled nbrClusterMax d.first .followCluster = d.clusters :=
    ⟨fun h => whole_iff.mp h.whole, fun h => ⟨whole_iff.mpr h, hends⟩⟩
  have hoffsets : (∀ c ∈ d.clusters, v.readOffset c = v.diskOffset c) ↔
      ∀ c ∈ d.clusters, (c - 2) * v.blocksPerCluster + v.clusBlocknr < 2 ^ 32 :=
    forall₂_congr fun c hc => readOffset_eq_iff (d.valid c hc)
  rw [hlists, WholeWhen, ← hoffsets]
  refine and_congr_right fun hoffset => ?_
  have htakes : ∀ c ∈ d.clusters, v.dirChain.Takes c := fun c hc => takes hc (hoffset c hc)
  rcases d.laid with hlaid | hlaid
  · rw [filled_linked hlaid htakes]
    exact ⟨fun h => Or.inr ⟨hlaid, h⟩, fun h => h.elim (fun h => absurd hlaid (not_linked h.1)) And.right⟩
  · rw [filled_contiguous hlaid htakes]
    exact ⟨fun h => Or.inl ⟨hlaid, h⟩, fun h => h.elim And.right fun h => absurd h.1 (not_linked hlaid)⟩

end ExfatDirectory

/-- The table of the plain volume is empty. -/
theorem plainVolume_next (c : ℕ) : plainVolume.next c = 0 := rfl

/-- A directory of two clusters in a row on the plain volume. -/
def contiguousDirectory : ExfatDirectory plainVolume where
  first := 5
  tail := [6]
  nodup := by decide
  valid c hc := by
    rcases mem_pair.mp hc with rfl | rfl
    · exact ⟨by decide, by decide⟩
    · exact ⟨by decide, by decide⟩
  readable _ _ := rfl
  laid := Or.inr ⟨by decide, fun c _ => plainVolume_next c⟩

/-- `exfat_dir` stops behind its first cluster. -/
theorem contiguousDirectory_not_listsWhole : ¬ contiguousDirectory.ListsWhole := by
  intro h
  have hlaid : plainVolume.Contiguous contiguousDirectory.clusters :=
    ⟨by decide, fun c _ => plainVolume_next c⟩
  obtain ⟨-, ⟨-, htail⟩ | ⟨hlinked, -⟩⟩ := (ExfatDirectory.listsWhole_iff _).mp h
  · exact cons_ne_nil _ _ htail
  · exact ExfatDirectory.not_linked hlaid hlinked

end RecoveryQt
