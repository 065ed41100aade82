import RecoveryQt.Disk
import RecoveryQt.Lib.Locations
import Mathlib.Tactic.Ring

/-!
# The clusters of an NTFS file

* `NtfsAttr`, `ntfsCollectClusters`: the data attribute as libntfs maps it, and
  `ntfs_collect_clusters`;
* `NtfsRunlist`, `MftData`, `ntfsFillClusters`: a decompressed run list, the data of a record, and
  `ntfs_fill_clusters`;
* `NtfsAttr.location`, `MftData.location`: where a cluster of the file is.
-/

namespace RecoveryQt

open List

/-- The position of a cluster. -/
def lcnPosition (clusterSize : ℕ) (lcn : ℕ) : UInt64 := UInt64.ofNat (lcn * clusterSize)

/-! ## `ntfs_collect_clusters` -/

/-- A data attribute: its size, whether `ntfs_attr_map_runlist` maps a VCN, and
`ntfs_attr_vcn_to_lcn`, negative for a hole. -/
structure NtfsAttr where
  dataSize : ℤ
  mapRunlist : ℕ → Bool
  vcnToLcn : ℕ → ℤ

namespace NtfsAttr

variable (attr : NtfsAttr) (clusterSize : ℕ)

/-- The number of VCNs before the end of the file. -/
def clusterCount : ℕ := (attr.dataSize.toNat + clusterSize - 1) / clusterSize

/-- `capacity`, an `uint32_t`. -/
def capacity : ℕ :=
  let c := if 0 < attr.dataSize then (attr.clusterCount clusterSize % 2 ^ 32 + 1) % 2 ^ 32 else 256
  let c := if backupMaxClusters < c then backupMaxClusters else c
  if c < 1 then 256 else c

/-- The loop of `ntfs_collect_clusters` from `vcn` on, for `room` more VCNs before the end of the
file; `count` clusters are in the list. -/
def collectFrom : ℕ → ℕ → ℕ → List UInt64
  | 0, _, _ => []
  | room + 1, vcn, count =>
    if attr.capacity clusterSize ≤ count then []
    else if attr.mapRunlist vcn = false then []
    else if attr.vcnToLcn vcn < 0 then collectFrom room (vcn + 1) count
    else lcnPosition clusterSize (attr.vcnToLcn vcn).toNat :: collectFrom room (vcn + 1) (count + 1)

/-- The location of the bytes `j * clusterSize ..` of the file. -/
def location (j : ℕ) : Option UInt64 :=
  if attr.vcnToLcn j < 0 then none else some (lcnPosition clusterSize (attr.vcnToLcn j).toNat)

end NtfsAttr

/-- `ntfs_collect_clusters` on a file whose inode and data attribute can be opened. -/
def ntfsCollectClusters (attr : NtfsAttr) (clusterSize : ℕ) : Option (List UInt64) :=
  let list := attr.collectFrom clusterSize (attr.clusterCount clusterSize) 0 0
  if list = [] then none else some list

/-! ## `ntfs_fill_clusters` -/

/-- The start of a run: a cluster, `LCN_HOLE` or `LCN_RL_NOT_MAPPED`. -/
inductive NtfsLcn where
  | at (lcn : ℕ)
  | hole
  | notMapped
  deriving DecidableEq

/-- A run list up to its end, with fewer clusters than an NTFS volume may have. -/
structure NtfsRunlist where
  runs : List (NtfsLcn × ℕ)
  length_pos : ∀ r ∈ runs, 0 < r.2
  fits : (runs.map Prod.snd).sum < 2 ^ 32

/-- The first data attribute of an MFT record, with the size of the data; the run list may fail to
decompress. -/
inductive MftData where
  | missing
  | resident (dataSize : ℕ)
  | nonResident (dataSize : ℕ) (rl : Option NtfsRunlist)

namespace NtfsRunlist

variable (rl : NtfsRunlist) (clusterSize : ℕ)

/-- The clusters of a run that `ntfs_fill_clusters` lists. -/
def listRun (r : NtfsLcn × ℕ) : List UInt64 :=
  match r.1 with
  | .at lcn => (range r.2).map fun j => lcnPosition clusterSize (lcn + j)
  | .hole | .notMapped => []

/-- The places of a run's clusters. -/
def placeRun (r : NtfsLcn × ℕ) : List (Option UInt64) :=
  (range r.2).map fun j =>
    match r.1 with
    | .at lcn => some (lcnPosition clusterSize (lcn + j))
    | .hole | .notMapped => none

/-- The places of all clusters of the run list. -/
def places : List (Option UInt64) := rl.runs.flatMap (placeRun clusterSize)

end NtfsRunlist

/-- `ntfs_fill_clusters` for a node of this size: the cluster list that it sets, or `none` when it
sets none. -/
def ntfsFillClusters (clusterSize : ℕ) (size : UInt64) (data : MftData) : Option (List UInt64) :=
  if size = 0 then none
  else
    match data with
    | .missing => none
    | .resident _ => some [0]
    | .nonResident _ none => none
    | .nonResident _ (some rl) =>
      let list := rl.runs.flatMap (NtfsRunlist.listRun clusterSize)
      if list.length = 0 then none else some list

/-- The list is that of resident data, or the clusters of a run list. -/
theorem cases_of_ntfsFillClusters {clusterSize : ℕ} {size : UInt64} {data : MftData} {list : List UInt64}
    (h : ntfsFillClusters clusterSize size data = some list) :
    (∃ dataSize, data = .resident dataSize ∧ list = [0]) ∨
      ∃ dataSize rl, data = .nonResident dataSize (some rl) ∧
        list = rl.runs.flatMap (NtfsRunlist.listRun clusterSize) ∧ list ≠ [] := by
  unfold ntfsFillClusters at h
  split_ifs at h with hzero
  match data with
  | .missing => cases h
  | .nonResident dataSize none => cases h
  | .resident dataSize => exact .inl ⟨dataSize, rfl, (Option.some.inj h).symm⟩
  | .nonResident dataSize (some rl) =>
    simp only at h
    split_ifs at h with hnil
    obtain rfl := Option.some.inj h
    exact .inr ⟨dataSize, rl, rfl, rfl, mt length_eq_zero_iff.mpr hnil⟩

namespace MftData

variable (data : MftData) (clusterSize : ℕ)

/-- The number of clusters of the file. -/
def clusterCount : ℕ :=
  match data with
  | .missing => 0
  | .resident dataSize => (dataSize + clusterSize - 1) / clusterSize
  | .nonResident dataSize _ => (dataSize + clusterSize - 1) / clusterSize

/-- The location of the bytes `j * clusterSize ..` of the file; resident data is in no cluster. -/
def location (j : ℕ) : Option UInt64 :=
  match data with
  | .nonResident _ (some rl) => (rl.places clusterSize)[j]?.join
  | _ => none

end MftData

end RecoveryQt
