import RecoveryQt.Ntfs.Listed

/-!
# The percentage of a file

* `wrapped_eq_iff`: a product by 100 in 32 bits, and the quotient of it;
* `PercentExact`: the percentage is that of the free clusters; **`percentExact_iff`**: it is so for files that are not too
  large;
* `largeRuns`: a file all of whose clusters are free, and which is dropped.
-/

namespace RecoveryQt

open List

/-- A product by 100 that wraps has a smaller quotient. -/
theorem wrapped_eq_iff {free total : ℕ} (htotal : total < 2 ^ 32) (hfree : free ≤ total) :
    free * 100 % 2 ^ 32 / total = free * 100 / total ↔ free * 100 < 2 ^ 32 := by
  constructor
  · intro heq
    by_contra hlarge
    -- at least one total is lost
    have hpos : 0 < total := by omega
    have hlost : free * 100 % 2 ^ 32 + total ≤ free * 100 := by
      have hmod := Nat.mod_add_div (free * 100) (2 ^ 32)
      have hdiv : 1 ≤ free * 100 / 2 ^ 32 := (Nat.one_le_div_iff (by decide)).mpr (not_lt.mp hlarge)
      omega
    have hquot := Nat.div_le_div_right (c := total) hlost
    rw [Nat.add_div_right _ hpos] at hquot
    omega
  · intro hlt
    rw [Nat.mod_eq_of_lt hlt]

namespace MftVolume

variable (vol : MftVolume)

/-- A file with this run list. -/
def runsFile (file : Ufile) (d : DataAttr) (lowestVcn : ℕ) (dataSize initializedSize : UInt64) (rl : RunList) : Ufile :=
  { file with
    directory := false
    data := [{ d with
      compressed := false
      encrypted := false
      content := .nonResident lowestVcn dataSize initializedSize (some rl) }] }

/-- The percentage is that of the free clusters, and a file of free clusters is not dropped. -/
structure PercentExact (file : Ufile) (runs : List (NtfsLcn × ℕ)) : Prop where
  exact : vol.calcPercentage file = vol.clustersFree runs * 100 / (vol.clustersInUse runs + vol.clustersFree runs)
  le : vol.calcPercentage file ≤ 100
  kept : runs ≠ [] → vol.clustersInUse runs = 0 → 0 < vol.calcPercentage file

/-- There are less than `2 ^ 32` clusters, of which less than `2 ^ 32 / 100` are free; with more of them, the wrapped numbers
happen to have the same quotient. -/
def SmallRuns (runs : List (NtfsLcn × ℕ)) : Prop :=
  (vol.clustersInUse runs + vol.clustersFree runs < 2 ^ 32 ∧ vol.clustersFree runs * 100 < 2 ^ 32) ∨
    (2 ^ 32 ≤ vol.clustersInUse runs + vol.clustersFree runs ∧
      vol.clustersFree runs * 100 % 2 ^ 32 / ((vol.clustersInUse runs + vol.clustersFree runs) % 2 ^ 32) =
        vol.clustersFree runs * 100 / (vol.clustersInUse runs + vol.clustersFree runs))

variable {vol}

theorem calcPercentage_runsFile (file : Ufile) (d : DataAttr) (lowestVcn : ℕ) (dataSize initializedSize : UInt64)
    (rl : RunList) :
    vol.calcPercentage (runsFile file d lowestVcn dataSize initializedSize rl) = vol.runsPercent rl.runs := by
  show (if false = true ∨ [_] = [] then 0 else [_].foldl vol.percentStep 0) = _
  rw [if_neg (by simp), foldl_cons, foldl_nil]
  show (if false = true ∨ false = true then 0 else if rl.runs = [] then 0 else max 0 (vol.runsPercent rl.runs)) = _
  rw [if_neg (by simp), Nat.zero_max]
  split_ifs with hnil
  · rw [hnil, runsPercent, clustersFree, map_nil, sum_nil, Nat.zero_mul, Nat.zero_mod, Nat.zero_div]
  · rfl

theorem clusters_pos {rl : RunList} (hne : rl.runs ≠ []) :
    0 < vol.clustersInUse rl.runs + vol.clustersFree rl.runs := by
  obtain ⟨r, l, hrl⟩ := exists_cons_of_ne_nil hne
  have hpos := rl.length_pos r (hrl ▸ mem_cons_self)
  have hrun : r.2 ≤ (vol.countRun r).1 + (vol.countRun r).2 := by
    obtain ⟨x, n⟩ := r
    cases x with
    | «at» lcn =>
      have hcount := length_eq_countP_add_countP (fun j => vol.clusterInUse (lcn + j)) (l := range n)
      rw [length_range] at hcount
      simp only [countRun]
      exact le_of_eq (by simpa using hcount)
    | hole => exact Nat.le_add_left n 0
    | notMapped => exact Nat.le_add_right n 0
  rw [clustersInUse, clustersFree, hrl, map_cons, map_cons, sum_cons, sum_cons]
  omega

/-- **The percentage is exact** exactly for files that are not too large. -/
theorem percentExact_iff (vol : MftVolume) (file : Ufile) (d : DataAttr) (lowestVcn : ℕ)
    (dataSize initializedSize : UInt64) (rl : RunList) :
    vol.PercentExact (runsFile file d lowestVcn dataSize initializedSize rl) rl.runs ↔ vol.SmallRuns rl.runs := by
  have hcalc : vol.calcPercentage (runsFile file d lowestVcn dataSize initializedSize rl) = vol.runsPercent rl.runs :=
    calcPercentage_runsFile file d lowestVcn dataSize initializedSize rl
  have hiff : vol.runsPercent rl.runs =
      vol.clustersFree rl.runs * 100 / (vol.clustersInUse rl.runs + vol.clustersFree rl.runs) ↔ vol.SmallRuns rl.runs := by
    rw [runsPercent, SmallRuns]
    rcases Nat.lt_or_ge (vol.clustersInUse rl.runs + vol.clustersFree rl.runs) (2 ^ 32) with hlt | hge
    · rw [Nat.mod_eq_of_lt hlt, wrapped_eq_iff hlt (Nat.le_add_left _ _), and_iff_right hlt,
        or_iff_left fun h => absurd h.1 (not_le.mpr hlt)]
    · rw [and_iff_right hge, or_iff_right fun h => absurd h.1 (not_lt.mpr hge)]
  constructor
  · exact fun h => hiff.mp (hcalc.symm.trans h.exact)
  · intro h
    have hexact := hcalc.trans (hiff.mpr h)
    refine ⟨hexact, ?_, fun hne hnone => ?_⟩
    · rw [hexact]
      exact Nat.div_le_of_le_mul (by omega)
    · have hpos : 0 < vol.clustersInUse rl.runs + vol.clustersFree rl.runs := clusters_pos hne
      rw [hnone, Nat.zero_add] at hpos
      rw [hexact, hnone, Nat.zero_add, Nat.mul_div_cancel_left _ hpos]
      decide

/-! ## A file of 164 GiB -/

theorem largeRuns_pos : ∀ r ∈ [(NtfsLcn.at 1000, 42949673)], 0 < r.2 := by decide

/-- One run of 42949673 clusters. -/
def largeRuns : RunList := ⟨[(.at 1000, 42949673)], largeRuns_pos⟩

/-- The file with this run list on a volume without clusters in use. -/
def largeFile : Ufile :=
  runsFile ⟨40, 0, none, none, false, []⟩ ⟨[], false, false, .resident []⟩ 0 175921860608 175921860608 largeRuns

theorem clusters_deletedVolume (lcn n : ℕ) :
    (deletedVolume none).clustersInUse [(.at lcn, n)] = 0 ∧ (deletedVolume none).clustersFree [(.at lcn, n)] = n := by
  show ((range n).countP fun _ => false) + 0 = 0 ∧ ((range n).countP fun _ => true) + 0 = n
  rw [countP_false, countP_true, length_range]
  exact ⟨rfl, rfl⟩

/-- No cluster of the file is in use, and its percentage is 0. -/
theorem largeFile_not_percentExact : ¬ (deletedVolume none).PercentExact largeFile largeRuns.runs := by
  intro h
  obtain ⟨hinUse, hfree⟩ := clusters_deletedVolume 1000 42949673
  have hruns : largeRuns.runs = [(.at 1000, 42949673)] := rfl
  rw [← hruns] at hinUse hfree
  have hkept := h.kept (by rw [hruns]; exact cons_ne_nil _ _) hinUse
  rw [largeFile, calcPercentage_runsFile, runsPercent, hinUse, hfree] at hkept
  exact absurd hkept (by decide)

end MftVolume

end RecoveryQt
