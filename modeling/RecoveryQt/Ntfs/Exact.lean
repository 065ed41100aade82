import RecoveryQt.Ntfs.Model

/-!
# When the clusters of an NTFS file are its locations

* `length_collectFrom`, `collectFrom_eq_map`: the list is full exactly when nothing is passed over
  and nothing stops the loop;
* **`ntfsCollect_locates_iff`**, **`ntfsFill_locates_iff`**: when the lists locate the file.
-/

namespace RecoveryQt

open List

namespace NtfsAttr

variable {attr : NtfsAttr} {clusterSize : ℕ}

theorem length_collectFrom_le (room vcn count : ℕ) :
    (attr.collectFrom clusterSize room vcn count).length ≤ room := by
  induction room generalizing vcn count with
  | zero => exact le_rfl
  | succ room ih =>
    rw [collectFrom]
    split_ifs
    · exact Nat.zero_le _
    · exact Nat.zero_le _
    · exact (ih (vcn + 1) count).trans (Nat.le_succ room)
    · exact Nat.succ_le_succ (ih (vcn + 1) (count + 1))

/-- **A full list**: every VCN was mapped to a cluster, and the array had room. -/
theorem length_collectFrom {room vcn count : ℕ}
    (h : (attr.collectFrom clusterSize room vcn count).length = room) :
    (room ≠ 0 → count + room ≤ attr.capacity clusterSize) ∧
      ∀ j < room, attr.mapRunlist (vcn + j) = true ∧ 0 ≤ attr.vcnToLcn (vcn + j) := by
  induction room generalizing vcn count with
  | zero => exact ⟨fun h => absurd rfl h, fun j hj => absurd hj (Nat.not_lt_zero j)⟩
  | succ room ih =>
    rw [collectFrom] at h
    split_ifs at h with hfull hmap hhole
    · have hle : (attr.collectFrom clusterSize room (vcn + 1) count).length ≤ room :=
        length_collectFrom_le room (vcn + 1) count
      omega
    · obtain ⟨hcap, hall⟩ := ih (Nat.succ.inj h)
      constructor
      · intro
        by_cases hroom : room = 0
        · omega
        · have := hcap hroom
          omega
      · intro j hj
        cases j with
        | zero => exact ⟨(Bool.not_eq_false _).mp hmap, Int.not_lt.mp hhole⟩
        | succ j =>
          rw [show vcn + (j + 1) = vcn + 1 + j by omega]
          exact hall j (by omega)

theorem collectFrom_eq_map {room vcn count : ℕ} (hcap : count + room ≤ attr.capacity clusterSize)
    (hall : ∀ j < room, attr.mapRunlist (vcn + j) = true ∧ 0 ≤ attr.vcnToLcn (vcn + j)) :
    attr.collectFrom clusterSize room vcn count =
      (range room).map fun j => lcnPosition clusterSize (attr.vcnToLcn (vcn + j)).toNat := by
  induction room generalizing vcn count with
  | zero => rfl
  | succ room ih =>
    obtain ⟨hmap, hlcn⟩ := hall 0 (Nat.succ_pos room)
    rw [Nat.add_zero] at hmap hlcn
    have hnext : ∀ j < room, attr.mapRunlist (vcn + 1 + j) = true ∧ 0 ≤ attr.vcnToLcn (vcn + 1 + j) := by
      intro j hj
      rw [show vcn + 1 + j = vcn + (j + 1) by omega]
      exact hall (j + 1) (by omega)
    rw [collectFrom, if_neg (by omega), if_neg (by simp [hmap]), if_neg (Int.not_lt.mpr hlcn),
      ih (by omega) hnext, range_succ_eq_map, map_cons, map_map]
    congr 1
    exact map_congr_left fun j _ => by
      show _ = lcnPosition clusterSize (attr.vcnToLcn (vcn + (j + 1))).toNat
      rw [show vcn + 1 + j = vcn + (j + 1) by omega]

/-- The array has room for the file exactly when it has no more than `backupMaxClusters` clusters. -/
theorem le_capacity_iff (hn : attr.clusterCount clusterSize ≠ 0) :
    attr.clusterCount clusterSize ≤ attr.capacity clusterSize ↔
      attr.clusterCount clusterSize ≤ backupMaxClusters := by
  have hsize : 0 < attr.dataSize := by
    by_contra hle
    apply hn
    rw [clusterCount, Int.toNat_of_nonpos (Int.not_lt.mp hle), Nat.zero_add]
    cases clusterSize with
    | zero => rfl
    | succ k => exact Nat.div_eq_of_lt (by omega)
  unfold capacity backupMaxClusters
  rw [if_pos hsize]
  simp only
  generalize attr.clusterCount clusterSize = n at hn ⊢
  constructor
  · intro h
    split_ifs at h <;> omega
  · intro h
    rw [Nat.mod_eq_of_lt (by omega : n < 2 ^ 32), Nat.mod_eq_of_lt (by omega : n + 1 < 2 ^ 32)]
    split_ifs <;> omega

theorem location_eq_some {j : ℕ} (h : 0 ≤ attr.vcnToLcn j) : attr.location clusterSize j =
    some (lcnPosition clusterSize (attr.vcnToLcn j).toNat) := if_neg (Int.not_lt.mpr h)

end NtfsAttr

/-- **`ntfs_collect_clusters` locates the file** exactly when it is not too large, its run list can
be mapped, and it has no hole. -/
theorem ntfsCollect_locates_iff {attr : NtfsAttr} {clusterSize : ℕ} {list : List UInt64}
    (h : ntfsCollectClusters attr clusterSize = some list) :
    Locates (attr.location clusterSize) (attr.clusterCount clusterSize) list ↔
      attr.clusterCount clusterSize ≤ backupMaxClusters ∧
        ∀ j < attr.clusterCount clusterSize, attr.mapRunlist j = true ∧ 0 ≤ attr.vcnToLcn j := by
  rw [ntfsCollectClusters] at h
  split_ifs at h with hempty
  obtain rfl := Option.some.inj h
  have hn : attr.clusterCount clusterSize ≠ 0 := by
    intro hzero
    rw [hzero] at hempty
    exact hempty rfl
  rw [← NtfsAttr.le_capacity_iff hn]
  constructor
  · intro hloc
    obtain ⟨hcap, hall⟩ := NtfsAttr.length_collectFrom hloc.length_eq
    have hcap := hcap hn
    rw [Nat.zero_add] at hcap
    refine ⟨hcap, fun j hj => ?_⟩
    have := hall j hj
    rwa [Nat.zero_add] at this
  · rintro ⟨hcap, hall⟩
    rw [locates_iff_eq_map fun j hj => NtfsAttr.location_eq_some (hall j hj).2,
      NtfsAttr.collectFrom_eq_map (by rwa [Nat.zero_add]) fun j hj => by
        rw [Nat.zero_add]
        exact hall j hj]
    simp only [Nat.zero_add]

/-- The clusters listed are the places without the holes. -/
theorem NtfsRunlist.listRuns_eq (rl : NtfsRunlist) (clusterSize : ℕ) :
    rl.runs.flatMap (listRun clusterSize) = (rl.places clusterSize).filterMap id := by
  rw [places]
  induction rl.runs with
  | nil => rfl
  | cons r runs ih =>
    rw [flatMap_cons, flatMap_cons, filterMap_append, ih]
    congr 1
    obtain ⟨lcn, length⟩ := r
    cases lcn <;> simp [listRun, placeRun, filterMap_map]

/-- **`ntfs_fill_clusters` locates the file** exactly when its data has a run list that begins with
the clusters of the file and has only holes behind them. -/
theorem ntfsFill_locates_iff {clusterSize : ℕ} {size : UInt64} {data : MftData} {list : List UInt64}
    (h : ntfsFillClusters clusterSize size data = some list) :
    Locates (data.location clusterSize) (data.clusterCount clusterSize) list ↔
      ∃ dataSize rl, data = .nonResident dataSize (some rl) ∧
        data.clusterCount clusterSize ≤ (rl.places clusterSize).length ∧
        ∀ j (hj : j < (rl.places clusterSize).length),
          (rl.places clusterSize)[j] = none ↔ data.clusterCount clusterSize ≤ j := by
  rcases cases_of_ntfsFillClusters h with ⟨dataSize, rfl, rfl⟩ | ⟨dataSize, rl, rfl, rfl, -⟩
  · refine iff_of_false (fun hloc => ?_) ?_
    · have hlen := hloc.length_eq
      obtain ⟨x, hx, -⟩ := hloc.getElem? (j := 0) (by rw [← hlen]; exact Nat.one_pos)
      cases hx
    · rintro ⟨_, _, heq, -⟩
      cases heq
  · rw [rl.listRuns_eq]
    refine locates_flatten.trans ⟨fun hplaces => ⟨dataSize, rl, rfl, hplaces⟩, ?_⟩
    rintro ⟨_, _, heq, hplaces⟩
    cases heq
    exact hplaces

end RecoveryQt
