import Mathlib.Data.Nat.Dist
import RecoveryQt.Lib.Halting
import RecoveryQt.Window.Model

/-!
# The search for lost partitions

`scan_for_ghost_partitions` looks for filesystems at every stride of the disk and keeps what is neither known
nor found already. What the search functions recognise at an offset is a parameter: they may move the partition
to any other offset.

* `addGhost`, `ghostStep`: one partition that is recognised, and one round of the loop;
* `isDuplicate_iff`: a partition is compared with those whose neighbourhood does not wrap;
* `GhostsApart`: partitions of one type are far from each other, and all are far from the known ones;
* **`ghostsApart_iff`**: the sequences after which this is so;
* `reaches_ghosts`: the list of the loop is that of the sequence it recognises.
-/

namespace RecoveryQt

open List StateTransition

/-! ## The list -/

/-- A `partition_t` as the search functions fill it. -/
structure GhostPart extends Part where
  sbOffset : UInt64

/-- `threshold`. -/
def dedupThreshold (sectorSize : UInt32) : UInt64 := 64 * sectorSize.toUInt64

/-- `is_duplicate`. -/
def isDuplicate (result : List GhostPart) (offset : UInt64) (upartType : UInt32) (sectorSize : UInt32) : Bool :=
  result.any fun item =>
    item.upartType = upartType &&
      (item.partOffset - dedupThreshold sectorSize ≤ offset && offset ≤ item.partOffset + dedupThreshold sectorSize)

/-- The test of `insert_new_partition` for `part` to stand before `next`, with `force_insert`. -/
def GhostPart.before (part next : GhostPart) : Bool :=
  part.partOffset < next.partOffset ||
    (part.partOffset = next.partOffset &&
      (part.partSize < next.partSize || (part.partSize = next.partSize && part.sbOffset < next.sbOffset)))

/-- `insert_new_partition` with `force_insert`. -/
def insertNewPartition (part : GhostPart) : List GhostPart → List GhostPart
  | [] => [part]
  | next :: rest => if part.before next then part :: next :: rest else next :: insertNewPartition part rest

/-- What the scan does with a partition that is recognised. -/
def addGhost (skipList : List Part) (sectorSize : UInt32) (result : List GhostPart) (part : GhostPart) :
    List GhostPart :=
  if !isDuplicate result part.partOffset part.upartType sectorSize &&
      !matchesKnownPartition skipList sectorSize part.toPart then
    insertNewPartition part result
  else result

/-! ## The loop -/

/-- What the scan finds on the disk: whether the 8 KiB at an offset are read, and what one of the search functions
recognises in them. -/
structure GhostDisk where
  sectorSize : UInt32
  diskSize : UInt64
  pread : UInt64 → Bool
  search : UInt64 → Option GhostPart

/-- `ghostscan_config_t`. -/
structure GhostConfig where
  strideSectors : UInt64
  offsetStart : UInt64
  offsetEnd : UInt64
  skipList : List Part
  progressCb : Option (UInt64 → UInt64 → Bool)

/-- The variables of the loop. -/
structure GhostScan where
  sector : UInt64
  lastPct : UInt32
  result : List GhostPart
  stopped : Bool

namespace GhostScan

variable (disk : GhostDisk) (cfg : GhostConfig)

/-- `sector_size`. -/
def sectorSize : UInt32 := if disk.sectorSize = 0 then 512 else disk.sectorSize

/-- `start_sector`. -/
def startSector : UInt64 := cfg.offsetStart / (sectorSize disk).toUInt64

/-- `end_sector`. -/
def endSector : UInt64 :=
  let sectors := disk.diskSize / (sectorSize disk).toUInt64
  let stop := cfg.offsetEnd / (sectorSize disk).toUInt64
  if stop = 0 ∨ sectors < stop then sectors else stop

/-- `total_sectors`. -/
def totalSectors : UInt64 := endSector disk cfg - startSector disk cfg

/-- `pct`. -/
def pct (sector : UInt64) : UInt32 :=
  if 0 < totalSectors disk cfg then ((sector - startSector disk cfg) * 100 / totalSectors disk cfg).toUInt32 else 0

/-- The call of `progress_cb`. -/
def progress (s : GhostScan) : GhostScan :=
  match cfg.progressCb with
  | none => s
  | some cb =>
    if pct disk cfg s.sector = s.lastPct then s
    else { s with
      lastPct := pct disk cfg s.sector
      stopped := cb (s.sector - startSector disk cfg) (totalSectors disk cfg) }

/-- The body of the loop. -/
def visit (s : GhostScan) : GhostScan :=
  let offset := s.sector * (sectorSize disk).toUInt64
  if disk.pread offset then
    progress disk cfg
      { s with result := (disk.search offset).elim s.result (addGhost cfg.skipList (sectorSize disk) s.result) }
  else s

/-- One round of the loop. -/
def step (s : GhostScan) : Option GhostScan :=
  if s.stopped || !(decide (s.sector < endSector disk cfg)) then none
  else
    let s := s.visit disk cfg
    some (if s.stopped then s else { s with sector := s.sector + cfg.strideSectors })

/-- The loop begins. -/
def init : GhostScan := ⟨startSector disk cfg, 0, [], false⟩

end GhostScan

/-- `scan_for_ghost_partitions`, if the loop ends within `fuel` rounds. -/
def scanForGhostPartitions (disk : GhostDisk) (cfg : GhostConfig) (fuel : ℕ) : Option (List GhostPart) :=
  if cfg.strideSectors = 0 then some []
  else (runFor (GhostScan.step disk cfg) fuel (GhostScan.init disk cfg)).map (·.result)

/-! ## Distances -/

variable {skipList : List Part} {sectorSize : UInt32}

theorem toNat_dedupThreshold : (dedupThreshold sectorSize).toNat = ghostscanDedupSectors * sectorSize.toNat := by
  have h := sectorSize.toNat_lt
  rw [dedupThreshold, UInt64.toNat_mul, UInt32.toNat_toUInt64]
  exact Nat.mod_eq_of_lt (by show 64 * _ < _; omega)

/-- No partition is within the threshold of one that is skipped. -/
theorem matchesKnownPartition_eq_false {p : Part} :
    matchesKnownPartition skipList sectorSize p = false ↔
      ∀ k ∈ skipList, (dedupThreshold sectorSize).toNat < Nat.dist p.partOffset.toNat k.partOffset.toNat := by
  rw [matchesKnownPartition, any_eq_false, toNat_dedupThreshold]
  refine forall₂_congr fun k _ => ?_
  rw [decide_eq_true_iff, not_le, Nat.dist]
  split
  next h =>
    rw [UInt64.lt_iff_toNat_lt] at h
    omega
  next h =>
    rw [UInt64.lt_iff_toNat_lt] at h
    omega

/-- The neighbourhood of the partition lies between 0 and 2^64. -/
def GhostPart.Unwrapped (sectorSize : UInt32) (q : GhostPart) : Prop :=
  (dedupThreshold sectorSize).toNat ≤ q.partOffset.toNat ∧
    q.partOffset.toNat + (dedupThreshold sectorSize).toNat < 2 ^ 64

/-- **The comparison**: a partition near the start of the disk is never met again. -/
theorem isDuplicate_iff {result : List GhostPart} {offset : UInt64} {upartType : UInt32} :
    isDuplicate result offset upartType sectorSize = true ↔
      ∃ q ∈ result, q.upartType = upartType ∧ q.Unwrapped sectorSize ∧
        Nat.dist offset.toNat q.partOffset.toNat ≤ (dedupThreshold sectorSize).toNat := by
  rw [isDuplicate, any_eq_true]
  refine exists_congr fun q => and_congr_right fun _ => ?_
  rw [Bool.and_eq_true, Bool.and_eq_true, decide_eq_true_iff, decide_eq_true_iff, decide_eq_true_iff,
    UInt64.le_iff_toNat_le, UInt64.le_iff_toNat_le, UInt64.toNat_sub, UInt64.toNat_add, Nat.dist,
    GhostPart.Unwrapped]
  refine and_congr_right fun _ => ?_
  have hsize := sectorSize.toNat_lt
  have hT : (dedupThreshold sectorSize).toNat = 64 * sectorSize.toNat := toNat_dedupThreshold
  have hq := q.partOffset.toNat_lt
  have ho := offset.toNat_lt
  omega

/-! ## The list after the scan -/

theorem perm_insertNewPartition (part : GhostPart) (l : List GhostPart) : insertNewPartition part l ~ part :: l := by
  induction l with
  | nil => rfl
  | cons next rest ih =>
    rw [insertNewPartition]
    split
    · rfl
    · exact (ih.cons next).trans (Perm.swap part next rest)

variable (skipList sectorSize) in
/-- Partitions of one type are at least the threshold away from each other, and all are farther than that from
those that are skipped. -/
def GhostsApart (l : List GhostPart) : Prop :=
  l.Pairwise (fun p q => p.upartType = q.upartType →
    (dedupThreshold sectorSize).toNat ≤ Nat.dist p.partOffset.toNat q.partOffset.toNat) ∧
  ∀ p ∈ l, ∀ k ∈ skipList, (dedupThreshold sectorSize).toNat < Nat.dist p.partOffset.toNat k.partOffset.toNat

variable (skipList sectorSize) in
/-- A partition that is recognised is known, or met again, or far enough from those of its type whose neighbourhood
wraps. -/
def FarFromEdges (l : List GhostPart) (p : GhostPart) : Prop :=
  matchesKnownPartition skipList sectorSize p.toPart = true ∨
    isDuplicate l p.partOffset p.upartType sectorSize = true ∨
    ∀ q ∈ l, q.upartType = p.upartType → ¬ q.Unwrapped sectorSize →
      (dedupThreshold sectorSize).toNat ≤ Nat.dist p.partOffset.toNat q.partOffset.toNat

/-- Partitions that are apart, with one more. -/
theorem ghostsApart_insert {p : GhostPart} {l : List GhostPart} :
    GhostsApart skipList sectorSize (insertNewPartition p l) ↔
      ((∀ q ∈ l, q.upartType = p.upartType →
          (dedupThreshold sectorSize).toNat ≤ Nat.dist p.partOffset.toNat q.partOffset.toNat) ∧
        ∀ k ∈ skipList, (dedupThreshold sectorSize).toNat < Nat.dist p.partOffset.toNat k.partOffset.toNat) ∧
      GhostsApart skipList sectorSize l := by
  have hperm := perm_insertNewPartition p l
  have hpair := hperm.pairwise_iff (R := fun p q : GhostPart => p.upartType = q.upartType →
    (dedupThreshold sectorSize).toNat ≤ Nat.dist p.partOffset.toNat q.partOffset.toNat)
    (fun {x y} h heq => (Nat.dist_comm y.partOffset.toNat x.partOffset.toNat).symm ▸ h heq.symm)
  rw [GhostsApart, GhostsApart, hpair, pairwise_cons]
  simp only [hperm.mem_iff, forall_mem_cons, eq_comm (a := p.upartType)]
  tauto

/-- **One partition**: the list stays apart exactly if the partition is far enough from the edges. -/
theorem ghostsApart_addGhost {l : List GhostPart} (h : GhostsApart skipList sectorSize l) (p : GhostPart) :
    GhostsApart skipList sectorSize (addGhost skipList sectorSize l p) ↔ FarFromEdges skipList sectorSize l p := by
  rw [FarFromEdges, addGhost]
  cases hdup : isDuplicate l p.partOffset p.upartType sectorSize with
  | true => simpa using h
  | false =>
    cases hknown : matchesKnownPartition skipList sectorSize p.toPart with
    | true => simpa using h
    | false =>
      have hdup' := (Bool.eq_false_iff.mp hdup)
      rw [Ne, isDuplicate_iff] at hdup'
      rw [matchesKnownPartition_eq_false] at hknown
      simp only [Bool.not_false, Bool.and_self, if_true, Bool.false_eq_true, false_or, ghostsApart_insert]
      constructor
      · exact fun hp q hq htype _ => hp.1.1 q hq htype
      · intro hp
        refine ⟨⟨fun q hq htype => ?_, hknown⟩, h⟩
        by_cases hq' : q.Unwrapped sectorSize
        · -- the comparison is exact for this one
          by_contra hlt
          exact hdup' ⟨q, hq, htype, hq', (not_le.mp hlt).le⟩
        · exact hp q hq htype hq'

variable (skipList sectorSize) in
/-- The list after the partitions are recognised in this order. -/
def ghosts (found : List GhostPart) : List GhostPart := runSteps (addGhost skipList sectorSize) [] found

theorem ghostsApart_nil : GhostsApart skipList sectorSize [] := ⟨Pairwise.nil, nofun⟩

theorem GhostsApart.of_addGhost {l : List GhostPart} {p : GhostPart}
    (h : GhostsApart skipList sectorSize (addGhost skipList sectorSize l p)) : GhostsApart skipList sectorSize l := by
  unfold addGhost at h
  split at h
  · exact (ghostsApart_insert.mp h).2
  · exact h

variable (skipList sectorSize) in
/-- **Ghost partitions**: they are apart, and apart from the known ones, exactly after the scans that recognise each
partition far enough from those near the edges of the address space. -/
theorem ghostsApart_iff (found : List GhostPart) :
    GhostsApart skipList sectorSize (ghosts skipList sectorSize found) ↔
      Meets (addGhost skipList sectorSize) (FarFromEdges skipList sectorSize) [] found := by
  rw [← forall_runSteps_iff_meets (I := fun _ => True) (P := GhostsApart skipList sectorSize) (fun _ _ h => h)
    (fun _ p _ hl => ghostsApart_addGhost hl p) trivial ghostsApart_nil]
  constructor
  · exact fun h before hbefore => runSteps_backward (fun _ _ => GhostsApart.of_addGhost) hbefore h
  · exact fun h => h found (prefix_refl found)

/-! ## The list of the loop -/

theorem GhostScan.progress_result (disk : GhostDisk) (cfg : GhostConfig) (s : GhostScan) :
    (s.progress disk cfg).result = s.result := by
  unfold progress
  split
  · rfl
  · split <;> rfl

/-- One round adds what is recognised at its offset, if anything is. -/
theorem GhostScan.step_result {disk : GhostDisk} {cfg : GhostConfig} {s s' : GhostScan}
    (h : s' ∈ s.step disk cfg) :
    s'.result = s.result ∨
      ∃ offset p, disk.search offset = some p ∧
        s'.result = addGhost cfg.skipList (GhostScan.sectorSize disk) s.result p := by
  unfold step at h
  split at h
  · cases h
  · have hvisit : s'.result = (s.visit disk cfg).result := by
      cases h
      split <;> rfl
    rw [hvisit, visit]
    split
    · rw [progress_result]
      cases hp : disk.search (s.sector * (sectorSize disk).toUInt64) with
      | none => exact Or.inl rfl
      | some p => exact Or.inr ⟨_, p, hp, rfl⟩
    · exact Or.inl rfl

/-- The list of the loop is that of a sequence of partitions that the search functions recognise. -/
theorem reaches_ghosts {disk : GhostDisk} {cfg : GhostConfig} {s : GhostScan}
    (h : Reaches (GhostScan.step disk cfg) (GhostScan.init disk cfg) s) :
    ∃ found : List GhostPart, (∀ p ∈ found, ∃ offset, disk.search offset = some p) ∧
      s.result = ghosts cfg.skipList (GhostScan.sectorSize disk) found := by
  induction h with
  | refl => exact ⟨[], nofun, rfl⟩
  | tail _ hstep ih =>
    obtain ⟨found, hfound, hresult⟩ := ih
    rcases GhostScan.step_result hstep with hsame | ⟨offset, p, hp, hadd⟩
    · exact ⟨found, hfound, hsame.trans hresult⟩
    · refine ⟨found ++ [p], ?_, ?_⟩
      · intro q hq
        rcases mem_append.mp hq with hq | hq
        · exact hfound q hq
        · exact ⟨offset, mem_singleton.mp hq ▸ hp⟩
      · rw [hadd, hresult, ghosts, ghosts, runSteps_append, runSteps_cons, runSteps_nil]

/-- A disk with a filesystem at its start and one of the same type eight sectors later. -/
def edgeDisk : GhostDisk where
  sectorSize := 512
  diskSize := 65536
  pread _ := true
  search offset := if offset = 0 ∨ offset = 4096 then some ⟨⟨⟨offset, 8192, 1, 0⟩, []⟩, 0⟩ else none

/-- The thorough search, with nothing to skip. -/
def edgeConfig : GhostConfig := ⟨8, 0, 65536, [], none⟩

/-- Both are kept. -/
theorem edge_not_apart : ∃ l, scanForGhostPartitions edgeDisk edgeConfig 17 = some l ∧ ¬ GhostsApart [] 512 l := by
  refine ⟨_, rfl, fun h => ?_⟩
  exact absurd h.1 (by decide)

end RecoveryQt
