import RecoveryQt.Exfat.Model
import Mathlib.Tactic.Ring

/-!
# Backup and copy of an exFAT file

* `ExfatVolume.CopiesAgree`, `ExfatVolume.AgreeWhen`: the backup records the offsets that
  `exfat_copy` reads and covers the file, and when it does;
* **`ExfatVolume.exfatCopiesAgree_iff`**: the two are equivalent.
-/

namespace RecoveryQt

open List

namespace ExfatVolume

variable (v : ExfatVolume)

/-- The valid cluster numbers `2 .. total_clusters + 1`. -/
def DataCluster (c : ℕ) : Prop := 2 ≤ c ∧ c ≤ v.totalClusters + 1

/-- The clusters that `exfat_copy` visits. -/
def copyVisited (start size : ℕ) : List ℕ := (v.exfatFile start).visited start size .followCluster

/-- On the disk, the recorded offsets are those that `exfat_copy` reads; and from a valid cluster on
both take the clusters of the file, that cluster among them. -/
def CopiesAgree (start size : ℕ) : Prop :=
  ((v.collectClusters start).map (UInt64.ofNat v.partition.partOffset + ·) =
      (v.exfatCopy start size).map Prod.fst) ∧
    (v.DataCluster start →
      (v.collectClusters start).length = size ⌈/⌉ v.clusterSize ∧
      (v.exfatCopy start size).length = size ⌈/⌉ v.clusterSize ∧
      start ∈ v.collectVisited start ∧ start ∈ v.copyVisited start size)

/-- When the two agree. The start is no cluster; or the file is not empty, the clusters of the file
are on its chain, up to `total_clusters` and within the 32-bit offsets, no more than a backup
records, and there the chain ends. -/
def AgreeWhen (start size : ℕ) : Prop :=
  (start < 2 ∨ v.totalClusters + 2 < start) ∨
    0 < size ∧ size ⌈/⌉ v.clusterSize ≤ backupMaxClusters ∧
    (∀ k < size ⌈/⌉ v.clusterSize, (2 ≤ v.next^[k] start ∧ v.next^[k] start ≤ v.totalClusters) ∧
      (v.next^[k] start - 2) * v.blocksPerCluster + v.clusBlocknr < 2 ^ 32) ∧
    (size ⌈/⌉ v.clusterSize = backupMaxClusters ∨
      ¬ (2 ≤ v.next^[size ⌈/⌉ v.clusterSize] start ∧
        v.next^[size ⌈/⌉ v.clusterSize] start ≤ v.totalClusters + 2))

/-! ## Offsets -/

theorem clusterSize_eq : v.clusterSize = v.blocksPerCluster * v.blockBytes := by
  rw [clusterSize, Nat.pow_add]
  rfl

theorem clusterSize_pos : 0 < v.clusterSize := Nat.two_pow_pos _

theorem clusterSize_le : v.clusterSize ≤ 2 ^ 25 := Nat.pow_le_pow_right (by decide) v.cluster

theorem blockBytes_le : v.blockBytes ≤ 2 ^ 12 := Nat.pow_le_pow_right (by decide) v.block.2

theorem collectOffset_toNat {w : ℕ} (hw : w ≤ v.totalClusters + 2) :
    (v.collectOffset w).toNat = (v.clusBlocknr + (w - 2) * v.blocksPerCluster) * v.blockBytes := by
  have hcount : v.totalClusters < 2 ^ 32 := v.header.totalClusters.toNat_lt
  have hblk : v.clusBlocknr < 2 ^ 32 := v.header.clusBlocknr.toNat_lt
  have h1 := Nat.mul_le_mul hblk.le v.blockBytes_le
  have h2 := Nat.mul_le_mul (show w - 2 ≤ 2 ^ 32 by omega) v.clusterSize_le
  rw [collectOffset, UInt64.toNat_ofNat_of_lt' (by show _ < 2 ^ 64; omega), clusterSize_eq,
    Nat.add_mul, Nat.mul_assoc]

theorem clusterToOffset_toNat (c : ℕ) :
    (v.clusterToOffset c).toNat =
      ((c - 2) * v.blocksPerCluster % 2 ^ 32 + v.clusBlocknr) % 2 ^ 32 * v.blockBytes := by
  have h1 := Nat.mul_le_mul (Nat.mod_lt ((c - 2) * v.blocksPerCluster % 2 ^ 32 + v.clusBlocknr)
    (show 0 < 2 ^ 32 by decide)).le v.blockBytes_le
  rw [clusterToOffset, UInt64.toNat_ofNat_of_lt' (by show _ < 2 ^ 64; omega)]

/-- The offsets of two clusters are equal when the 32-bit one has the value of the other. -/
theorem clusterToOffset_eq_iff {c w : ℕ} (hw : w ≤ v.totalClusters + 2) :
    v.collectOffset w = v.clusterToOffset c ↔
      v.clusBlocknr + (w - 2) * v.blocksPerCluster =
        ((c - 2) * v.blocksPerCluster % 2 ^ 32 + v.clusBlocknr) % 2 ^ 32 := by
  rw [← UInt64.toNat_inj, v.collectOffset_toNat hw, clusterToOffset_toNat]
  exact Nat.mul_left_inj (Nat.two_pow_pos _).ne'

/-- The 32-bit offset of a cluster is that of no later one. -/
theorem le_of_offset_eq {c w : ℕ} (hc : 2 ≤ c) (hw : w ≤ v.totalClusters + 2)
    (h : v.collectOffset w = v.clusterToOffset c) : w ≤ c := by
  rw [v.clusterToOffset_eq_iff hw] at h
  have hmod := Nat.mod_le ((c - 2) * v.blocksPerCluster % 2 ^ 32 + v.clusBlocknr) (2 ^ 32)
  have hmod' := Nat.mod_le ((c - 2) * v.blocksPerCluster) (2 ^ 32)
  have hle : w - 2 ≤ c - 2 :=
    Nat.le_of_mul_le_mul_right (by omega : (w - 2) * v.blocksPerCluster ≤ (c - 2) * v.blocksPerCluster)
      (Nat.two_pow_pos _)
  omega

/-- The two offsets of a cluster are the same exactly when the 32-bit one does not wrap. -/
theorem offset_eq_iff {c : ℕ} (hc : c ≤ v.totalClusters + 2) :
    v.collectOffset c = v.clusterToOffset c ↔
      (c - 2) * v.blocksPerCluster + v.clusBlocknr < 2 ^ 32 := by
  rw [v.clusterToOffset_eq_iff hc]
  constructor
  · intro h
    have := Nat.mod_lt ((c - 2) * v.blocksPerCluster % 2 ^ 32 + v.clusBlocknr)
      (show 0 < 2 ^ 32 by decide)
    omega
  · intro h
    rw [Nat.mod_eq_of_lt (by omega : (c - 2) * v.blocksPerCluster < 2 ^ 32), Nat.mod_eq_of_lt h,
      Nat.add_comm]

/-! ## The two walks -/

/-- A cluster that the backup takes ends no chain. -/
theorem not_stop {c : ℕ} (h : 2 ≤ c ∧ c ≤ v.totalClusters + 2) : ¬ (c = 0xFFFFFFFF ∨ c = 0) := by
  have := v.count
  unfold totalClusters at h
  omega

theorem lt_length_collectVisited {start k : ℕ} :
    k < (v.collectVisited start).length ↔ k < backupMaxClusters ∧
      ∀ j ≤ k, 2 ≤ v.next^[j] start ∧ v.next^[j] start ≤ v.totalClusters + 2 := by
  rw [collectVisited, collectFrom, lt_length_chainWalk]
  refine and_congr_right fun _ => forall₂_congr fun j _ => ?_
  exact and_iff_left_of_imp fun h _ => v.not_stop h

theorem collectFrom_of_not {room c : ℕ} (h : ¬ (2 ≤ c ∧ c ≤ v.totalClusters + 2)) :
    v.collectFrom room c = [] := by
  cases room with
  | zero => rfl
  | succ room => exact if_neg h

/-- The backup takes a cluster and goes on with its link. -/
theorem collectFrom_cons {room c : ℕ} (h : 2 ≤ c ∧ c ≤ v.totalClusters + 2) :
    v.collectFrom (room + 1) c = c :: v.collectFrom room (v.next c) := by
  by_cases hnext : 2 ≤ v.next c ∧ v.next c ≤ v.totalClusters + 2
  · rw [collectFrom, chainWalk, if_pos h, if_neg (v.not_stop hnext)]
    rfl
  · rw [v.collectFrom_of_not hnext, collectFrom, chainWalk, if_pos h]
    split_ifs
    · rfl
    · rw [show chainWalk _ _ v.next room (v.next c) = v.collectFrom room (v.next c) from rfl,
        v.collectFrom_of_not hnext]

/-- The copy does not reach the offset of a link that it does not accept. -/
theorem no_offset_behind {start c room size : ℕ} (hc : 2 ≤ c)
    (hnext : 2 ≤ v.next c ∧ v.next c ≤ v.totalClusters + 2) (hlast : v.totalClusters < v.next c) :
    (v.collectFrom (room + 1) (v.next c)).map v.collectOffset ≠
      ((v.exfatFile start).visited (c + 1) size .nextCluster).map v.clusterToOffset := by
  intro h
  rw [v.collectFrom_cons hnext] at h
  by_cases hcopy : 2 ≤ c + 1 ∧ c + 1 ≤ (v.exfatFile start).last ∧ 0 < size
  · have hle : c + 1 ≤ v.totalClusters := hcopy.2.1
    rw [(v.exfatFile start).visited_cons hcopy, map_cons, map_cons] at h
    have := v.le_of_offset_eq (by omega) hnext.2 (List.head_eq_of_cons_eq h)
    omega
  · rw [(v.exfatFile start).visited_of_not hcopy] at h
    simp at h

/-- **Where the offsets agree, the copy follows the chain**: it meets no cluster that it does not
accept, and no offset wraps. -/
theorem chain_of_offsets_eq {start room c size : ℕ}
    (h : (v.collectFrom room c).map v.collectOffset =
      ((v.exfatFile start).visited c size .followCluster).map v.clusterToOffset) :
    ∀ x ∈ v.collectFrom room c, (2 ≤ x ∧ x ≤ v.totalClusters) ∧
      (x - 2) * v.blocksPerCluster + v.clusBlocknr < 2 ^ 32 := by
  induction room generalizing c size with
  | zero =>
    intro x hx
    exact absurd hx not_mem_nil
  | succ room ih =>
    by_cases hc : 2 ≤ c ∧ c ≤ v.totalClusters + 2
    swap
    · rw [v.collectFrom_of_not hc]
      exact fun x hx => absurd hx not_mem_nil
    rw [v.collectFrom_cons hc] at h ⊢
    by_cases hcopy : 2 ≤ c ∧ c ≤ (v.exfatFile start).last ∧ 0 < size
    swap
    · rw [(v.exfatFile start).visited_of_not hcopy] at h
      simp at h
    rw [(v.exfatFile start).visited_cons hcopy, map_cons, map_cons, cons.injEq] at h
    obtain ⟨hhead, htail⟩ := h
    refine forall_mem_cons.mpr ⟨⟨⟨hc.1, hcopy.2.1⟩, (v.offset_eq_iff hc.2).mp hhead⟩, ?_⟩
    by_cases hnext : 2 ≤ v.next c ∧ v.next c ≤ v.totalClusters + 2
    swap
    · rw [v.collectFrom_of_not hnext]
      exact fun x hx => absurd hx not_mem_nil
    cases room with
    | zero => exact fun x hx => absurd hx not_mem_nil
    | succ room =>
      split_ifs at htail with hrest
      · by_cases hlast : v.next c ≤ v.totalClusters
        · have hstep : (v.exfatFile start).step c .followCluster = (v.next c, .followCluster) :=
            if_pos ⟨hnext.1, hlast⟩
          rw [hstep] at htail
          exact ih htail
        · -- the copy takes the cluster behind `c` instead of the link
          have hne : (v.exfatFile start).next c ≠ 0 := by
            show v.next c ≠ 0
            omega
          rw [(v.exfatFile start).step_of_bad (fun h => hlast h.2) hne] at htail
          exact absurd htail (v.no_offset_behind hc.1 hnext (not_le.mp hlast))
      · rw [v.collectFrom_cons hnext] at htail
        simp at htail

/-! ## The exact condition -/

theorem exfatCopy_fst (start size : ℕ) : (v.exfatCopy start size).map Prod.fst =
    ((v.copyVisited start size).map v.clusterToOffset).map
      (UInt64.ofNat v.partition.partOffset + ·) := by
  rw [exfatCopy, copyVisited, ChainFile.visited, map_map, map_map, map_map]
  rfl

theorem length_exfatCopy (start size : ℕ) :
    (v.exfatCopy start size).length = (v.copyVisited start size).length := by
  rw [exfatCopy, copyVisited, ChainFile.visited, length_map, length_map]

/-- The offset of the partition does not matter. -/
theorem offsets_eq_iff {start size : ℕ} :
    (v.collectClusters start).map (UInt64.ofNat v.partition.partOffset + ·) =
        (v.exfatCopy start size).map Prod.fst ↔
      (v.collectVisited start).map v.collectOffset =
        (v.copyVisited start size).map v.clusterToOffset := by
  rw [exfatCopy_fst, collectClusters]
  exact (map_injective_iff.mpr fun a b h => (UInt64.add_right_inj _).mp h).eq_iff

/-- The walks of a good chain that ends behind the file. -/
theorem copiesAgree_of_chain {start size : ℕ} (hsize : 0 < size)
    (hmax : size ⌈/⌉ v.clusterSize ≤ backupMaxClusters)
    (hchain : ∀ k < size ⌈/⌉ v.clusterSize,
      (2 ≤ v.next^[k] start ∧ v.next^[k] start ≤ v.totalClusters) ∧
      (v.next^[k] start - 2) * v.blocksPerCluster + v.clusBlocknr < 2 ^ 32)
    (hend : size ⌈/⌉ v.clusterSize = backupMaxClusters ∨
      ¬ (2 ≤ v.next^[size ⌈/⌉ v.clusterSize] start ∧
        v.next^[size ⌈/⌉ v.clusterSize] start ≤ v.totalClusters + 2)) :
    v.CopiesAgree start size := by
  set n := size ⌈/⌉ v.clusterSize with hn
  have hpos : 0 < n := by
    apply Nat.pos_of_ne_zero
    intro h0
    have := (ceilDiv_le_iff_le_mul v.clusterSize_pos).mp (hn.symm.trans h0).le
    omega
  have hcopy : v.copyVisited start size = (range n).map fun k => v.next^[k] start :=
    (v.exfatFile start).visited_of_chain fun k hk => (hchain k hk).1
  have hlen : (v.collectVisited start).length = n := by
    apply Nat.le_antisymm
    · refine not_lt.mp fun hlt => ?_
      obtain ⟨hlt, hok⟩ := v.lt_length_collectVisited.mp hlt
      rcases hend with hend | hend
      · omega
      · exact hend (hok n le_rfl)
    · have hlt : n - 1 < (v.collectVisited start).length :=
        v.lt_length_collectVisited.mpr ⟨by omega, fun j hj => by
          have := (hchain j (by omega)).1
          omega⟩
      omega
  have hcollect : v.collectVisited start = (range n).map fun k => v.next^[k] start := by
    rw [← hlen, collectVisited, collectFrom]
    exact chainWalk_eq_map _ _
  refine ⟨v.offsets_eq_iff.mpr ?_, fun _ => ⟨?_, ?_, ?_, ?_⟩⟩
  · rw [hcollect, hcopy, map_map, map_map]
    refine map_congr_left fun k hk => ?_
    obtain ⟨⟨-, hle⟩, hwrap⟩ := hchain k (mem_range.mp hk)
    exact (v.offset_eq_iff (Nat.le_add_right_of_le hle)).mpr hwrap
  · rw [collectClusters, length_map, hlen]
  · rw [length_exfatCopy, hcopy, length_map, length_range]
  · rw [hcollect]
    exact mem_map.mpr ⟨0, mem_range.mpr hpos, rfl⟩
  · rw [hcopy]
    exact mem_map.mpr ⟨0, mem_range.mpr hpos, rfl⟩

/-- **Backup and copy agree exactly then**: for every volume, every content of its table, every
start cluster and every size. -/
theorem exfatCopiesAgree_iff (start : UInt32) (size : UInt64) :
    v.CopiesAgree start.toNat size.toNat ↔ v.AgreeWhen start.toNat size.toNat := by
  set s := start.toNat
  set n := size.toNat
  constructor
  · rintro ⟨hoff, hcover⟩
    rw [offsets_eq_iff] at hoff
    rw [AgreeWhen, or_iff_not_imp_left]
    intro hstart
    have hok : 2 ≤ s ∧ s ≤ v.totalClusters + 2 := by omega
    have hmem : s ∈ v.collectVisited s := by
      rw [collectVisited, show backupMaxClusters = 1048575 + 1 from rfl, v.collectFrom_cons hok]
      exact mem_cons_self
    have hlast := (v.chain_of_offsets_eq hoff s hmem).1
    obtain ⟨hlen, -, -, -⟩ := hcover ⟨hlast.1, Nat.le_succ_of_le hlast.2⟩
    rw [collectClusters, length_map] at hlen
    have hpos := length_pos_of_mem hmem
    refine ⟨?_, ?_, fun k hk => ?_, ?_⟩
    · apply Nat.pos_of_ne_zero
      intro h0
      rw [h0, zero_ceilDiv] at hlen
      omega
    · rw [← hlen]
      exact length_chainWalk_le _ _
    · apply v.chain_of_offsets_eq hoff
      rw [← hlen] at hk
      exact mem_chainWalk.mpr ⟨k, (lt_length_chainWalk.mp hk).1, (lt_length_chainWalk.mp hk).2, rfl⟩
    · rw [← hlen]
      by_contra hend
      obtain ⟨hmax, hnext⟩ := not_or.mp hend
      rw [not_not] at hnext
      have hlt : (v.collectVisited s).length < (v.collectVisited s).length := by
        rw [v.lt_length_collectVisited]
        refine ⟨lt_of_le_of_ne (length_chainWalk_le _ _) hmax, fun j hj => ?_⟩
        rcases Nat.lt_or_eq_of_le hj with hj | rfl
        · exact (v.lt_length_collectVisited.mp hj).2 j le_rfl
        · exact hnext
      exact lt_irrefl _ hlt
  · rintro (hstart | ⟨hsize, hmax, hchain, hend⟩)
    · have hcollect : v.collectVisited s = [] := v.collectFrom_of_not (by omega)
      have hcopy : v.copyVisited s n = [] := (v.exfatFile s).visited_of_not (by
        show ¬ (2 ≤ s ∧ s ≤ v.totalClusters ∧ 0 < n)
        omega)
      refine ⟨v.offsets_eq_iff.mpr (by rw [hcollect, hcopy]; rfl), fun hdata => ?_⟩
      unfold DataCluster at hdata
      omega
    · exact v.copiesAgree_of_chain hsize hmax hchain hend

end ExfatVolume

/-- A volume of 1000 clusters of 4 KiB with an empty table. -/
def plainVolume : ExfatVolume where
  disk := ⟨512, 8388608, fun _ => 0, fun _ _ => false⟩
  partition := ⟨0, 8388608, .exfat, 0⟩
  header := ⟨exfatOemId, 128, 256, 1000, 9, 3, 0xAA55⟩
  accepted := ⟨rfl, rfl⟩
  block := by decide
  cluster := by decide
  count := by decide

/-- The last cluster of the volume is valid, and `exfat_copy` does not read a file that starts
there. -/
theorem plainVolume_not_copiesAgree :
    ¬ plainVolume.CopiesAgree (1001 : UInt32).toNat (1 : UInt64).toNat := by
  intro h
  have hdata : plainVolume.DataCluster (1001 : UInt32).toNat := ⟨by decide, by decide⟩
  have hvisited : plainVolume.copyVisited (1001 : UInt32).toNat (1 : UInt64).toNat = [] :=
    ChainFile.visited_of_not _ (by decide)
  have hmem := (h.2 hdata).2.2.2
  rw [hvisited] at hmem
  exact not_mem_nil hmem

end RecoveryQt
