import RecoveryQt.Carver.Examined
import Mathlib.Data.Set.Function
import Mathlib.Data.List.Nodup
import Mathlib.Data.List.TakeWhile

/-!
# The sectors a full scan covers

A scan that is not resumed, not cancelled and whose reads all succeed (`FullScan`) visits strictly
increasing sectors. From the second chunk on, a chunk is read 64 KiB early but not any longer, and
its loop skips those 64 KiB: its last 64 KiB are never visited.

* `Unexamined`: the sectors that no chunk visits;
* `mem_visitedSectors`: the visited ones are the others;
* `headers_eq_visitedSectors`: the sectors submitted to `carver_check_header`;
* `coverage`: when every sector is covered.
-/

namespace RecoveryQt

open List

namespace CarverEnv

variable (env : CarverEnv)

/-- A sector scan from the start of the partition, not cancelled, all of whose reads succeed, on a
disk whose sector size divides the overlap. -/
structure FullScan : Prop where
  dvd : env.sectorSize ∣ carverChunkOverlap
  sectors : env.deepScan = false
  start : env.resumeOffset = 0
  notCancelled : ∀ chunkPos, env.cancel chunkPos = false
  reads : ∀ count offset, env.disk.bad count offset = false

/-- Sector `s` of the partition is constant. -/
def partSectorConstant (s : ℕ) : Prop :=
  carverSectorConstant (fun j => env.disk.content (env.partOffset + s * env.sectorSize + j))
    env.sectorSize

instance (s : ℕ) : Decidable (env.partSectorConstant s) := by
  unfold partSectorConstant; infer_instance

/-- Every sector that is not constant is submitted exactly once. -/
def SubmitsOnce : Prop :=
  ∀ s < env.partSectors, ¬ env.partSectorConstant s →
    env.headers.count (env.partOffset + s * env.sectorSize) = 1

/-- The visited pairs map bijectively onto the sectors of the partition. -/
def VisitsBiject : Prop :=
  env.visits.Nodup ∧ Set.BijOn env.sectorIndex {p | p ∈ env.visits} (Set.Iio env.partSectors)

/-- The sectors in the last 64 KiB of their chunk, or of the partition, after the first chunk. -/
def Unexamined (s : ℕ) : Prop :=
  s < env.partSectors ∧ env.chunkStride ≤ s ∧
    min ((s / env.chunkStride + 1) * env.chunkStride) env.partSectors ≤
      s + carverChunkOverlap / env.sectorSize

instance (s : ℕ) : Decidable (env.Unexamined s) := by
  unfold Unexamined; infer_instance

/-- The sectors visited, in order. -/
def visitedSectors : List ℕ := env.visits.map env.sectorIndex

/-- The sectors the chunk at `chunkPos` visits. -/
def chunkRange (chunkPos : ℕ) : List ℕ :=
  range' chunkPos (env.chunkSectors chunkPos - env.skipSectors chunkPos)

theorem visitConstant_iff (hss : env.sectorSize ∣ carverChunkOverlap) {cp : ℕ}
    (hcp : env.chunkStride ∣ cp) (i : ℕ) :
    env.visitConstant cp i ↔ env.partSectorConstant (env.sectorIndex (cp, i)) := by
  unfold visitConstant partSectorConstant
  rw [absOffset_eq hss hcp]

section Full

variable {env} (h : env.FullScan)

include h

theorem FullScan.startPos_eq : env.startPos = 0 := by
  unfold startPos
  rw [h.start]
  rfl

theorem FullScan.chunkOk (cp : ℕ) : env.chunkOk cp = true := by
  unfold CarverEnv.chunkOk
  rw [h.reads]
  rfl

theorem FullScan.mem_positions {cp : ℕ} :
    cp ∈ env.chunkPositions 0 ↔ env.chunkStride ∣ cp ∧ cp < env.partSectors := by
  rw [mem_chunkPositions env (chunkStride_pos h.dvd)]
  constructor
  · rintro ⟨k, rfl, hk⟩
    exact ⟨by rw [Nat.zero_add]; exact dvd_mul_left _ _, hk⟩
  · rintro ⟨⟨k, rfl⟩, hk⟩
    exact ⟨k, by rw [Nat.zero_add, Nat.mul_comm], hk⟩

/-- Every chunk of a full scan is examined. -/
theorem FullScan.takeWhile_eq :
    (env.chunkPositions env.startPos).takeWhile env.chunkOk = env.chunkPositions 0 := by
  rw [h.startPos_eq, takeWhile_eq_self_iff]
  exact fun cp _ => h.chunkOk cp

theorem FullScan.visits_eq :
    env.visits = (env.chunkPositions 0).flatMap fun cp => (env.chunkVisits cp).map (cp, ·) := by
  rw [CarverEnv.visits_eq env h.notCancelled, h.takeWhile_eq]

theorem FullScan.visitedSectors_eq :
    env.visitedSectors = (env.chunkPositions 0).flatMap env.chunkRange := by
  unfold visitedSectors
  rw [h.visits_eq, map_flatMap]
  refine flatMap_congr fun cp _ => ?_
  rw [map_map]
  exact map_sectorIndex_chunkVisits

/-- The sectors of a chunk lie before the next chunk and in the partition. -/
theorem FullScan.mem_chunkRange {cp s : ℕ} (hs : s ∈ env.chunkRange cp) :
    cp ≤ s ∧ s < cp + env.chunkStride ∧ s < env.partSectors := by
  rw [chunkRange, mem_range'_1, chunkSectors_eq h.dvd] at hs
  omega

/-- **The visited sectors are strictly increasing.** -/
theorem FullScan.visitedSectors_pairwise : env.visitedSectors.Pairwise (· < ·) := by
  have hpos := chunkStride_pos h.dvd
  rw [h.visitedSectors_eq, pairwise_flatMap]
  refine ⟨fun cp _ => pairwise_lt_range', ?_⟩
  refine (env.chunkPositions_pairwise 0 hpos).imp_of_mem fun {a b} ha hb hab => ?_
  obtain ⟨⟨k, rfl⟩, -⟩ := h.mem_positions.mp ha
  obtain ⟨⟨m, rfl⟩, -⟩ := h.mem_positions.mp hb
  have hkm : k + 1 ≤ m := Nat.lt_of_mul_lt_mul_left hab
  have hmul : env.chunkStride * (k + 1) ≤ env.chunkStride * m := Nat.mul_le_mul_left _ hkm
  intro x hx y hy
  have hx' := h.mem_chunkRange hx
  have hy' := h.mem_chunkRange hy
  rw [Nat.mul_succ] at hmul
  omega

theorem FullScan.visitedSectors_nodup : env.visitedSectors.Nodup :=
  h.visitedSectors_pairwise.imp fun hab => Nat.ne_of_lt hab

/-- **The sectors a full scan visits.** -/
theorem FullScan.mem_visitedSectors {s : ℕ} :
    s ∈ env.visitedSectors ↔ s < env.partSectors ∧ ¬ env.Unexamined s := by
  have hpos := chunkStride_pos h.dvd
  have hov := overlap_pos h.dvd
  have hst := chunkStride_eq h.dvd
  rw [h.visitedSectors_eq, mem_flatMap]
  constructor
  · rintro ⟨cp, hcp, hs⟩
    have hs' := h.mem_chunkRange hs
    refine ⟨hs'.2.2, ?_⟩
    rintro ⟨-, hge, hle⟩
    obtain ⟨⟨k, rfl⟩, hlt⟩ := h.mem_positions.mp hcp
    have hk : s / env.chunkStride = k := by
      rw [Nat.div_eq_iff hpos, Nat.mul_comm]
      omega
    have hk0 : env.chunkStride * k ≠ 0 := by
      intro h0
      omega
    rw [hk, Nat.add_mul, Nat.mul_comm k] at hle
    rw [chunkRange, mem_range'_1, chunkSectors_eq h.dvd, skipSectors, if_neg hk0] at hs
    omega
  · rintro ⟨hlt, hun⟩
    have hmod := Nat.mod_lt s hpos
    have hdiv := Nat.div_add_mod s env.chunkStride
    refine ⟨env.chunkStride * (s / env.chunkStride),
      h.mem_positions.mpr ⟨dvd_mul_right _ _, by omega⟩, ?_⟩
    rw [chunkRange, mem_range'_1, chunkSectors_eq h.dvd, skipSectors]
    refine ⟨by omega, ?_⟩
    unfold Unexamined at hun
    rw [Nat.add_mul, Nat.mul_comm (s / _)] at hun
    split_ifs with h0
    · omega
    · have hge : env.chunkStride ≤ s := by
        by_contra hc
        exact h0 (by rw [Nat.div_eq_of_lt (not_le.mp hc), Nat.mul_zero])
      omega

/-- A sector scan submits the first byte of a sector that is not constant, and no other. -/
theorem FullScan.sectorHeaders_eq {cp i : ℕ} (hcp : env.chunkStride ∣ cp)
    (hi : i ∈ env.chunkVisits cp) :
    env.sectorHeaders cp i =
      if env.partSectorConstant (env.sectorIndex (cp, i)) then []
      else [env.partOffset + env.sectorIndex (cp, i) * env.sectorSize] := by
  have hrem := sectorSize_le_rem h.dvd hi
  unfold sectorHeaders byteOffs
  simp only [visitConstant_iff env h.dvd hcp, absOffset_eq h.dvd hcp, h.sectors, if_pos hrem]
  rfl

/-- **The positions a full scan submits to `carver_check_header`.** -/
theorem FullScan.headers_eq :
    env.headers = (env.visitedSectors.filter fun s => ¬ env.partSectorConstant s).map
      fun s => env.partOffset + s * env.sectorSize := by
  rw [CarverEnv.headers_eq env h.notCancelled, h.takeWhile_eq, visitedSectors, h.visits_eq,
    map_flatMap, filter_flatMap, map_flatMap]
  refine flatMap_congr fun cp hcp => ?_
  have hdvd := (h.mem_positions.mp hcp).1
  rw [map_map, filter_map, map_map]
  rw [flatMap_congr fun i hi => h.sectorHeaders_eq hdvd hi]
  clear hcp
  induction env.chunkVisits cp with
  | nil => rfl
  | cons i l ih =>
    rw [flatMap_cons, ih]
    by_cases hc : env.partSectorConstant (env.sectorIndex (cp, i)) <;> simp [hc]

/-- A sector is submitted once if it is visited and not constant, and never otherwise. -/
theorem FullScan.count_headers (s : ℕ) :
    env.headers.count (env.partOffset + s * env.sectorSize) =
      if s ∈ env.visitedSectors ∧ ¬ env.partSectorConstant s then 1 else 0 := by
  have hpos := sectorSize_pos h.dvd
  have hinj : Function.Injective fun s => env.partOffset + s * env.sectorSize := by
    intro a b hab
    exact Nat.eq_of_mul_eq_mul_right hpos (Nat.add_left_cancel hab)
  rw [h.headers_eq, count_map_of_injective _ _ hinj s,
    (h.visitedSectors_nodup.filter _).count]
  simp only [mem_filter, decide_eq_true_eq]

theorem FullScan.submitsOnce_iff :
    env.SubmitsOnce ↔ ∀ s, env.Unexamined s → env.partSectorConstant s := by
  constructor
  · intro hall s hs
    by_contra hc
    have hone := hall s hs.1 hc
    rw [h.count_headers, if_neg fun hn => (h.mem_visitedSectors.mp hn.1).2 hs] at hone
    exact zero_ne_one hone
  · intro hall s hs hc
    have hmem := h.mem_visitedSectors.mpr ⟨hs, fun hun => hc (hall s hun)⟩
    rw [h.count_headers, if_pos ⟨hmem, hc⟩]

theorem FullScan.unexamined_iff :
    (∃ s, env.Unexamined s) ↔ carverChunkSize < env.partSectors * env.sectorSize := by
  have hpos := chunkStride_pos h.dvd
  have hov := overlap_pos h.dvd
  rw [← chunkStride_mul h.dvd, Nat.mul_lt_mul_right (sectorSize_pos h.dvd)]
  constructor
  · rintro ⟨s, hs, hge, -⟩
    omega
  · intro hlt
    exact ⟨env.partSectors - 1, by omega, by omega, by omega⟩

theorem FullScan.visitsBiject_iff :
    env.VisitsBiject ↔ env.partSectors * env.sectorSize ≤ carverChunkSize := by
  have hnd := h.visitedSectors_nodup
  have hinj := inj_on_of_nodup_map hnd
  rw [← not_lt, ← h.unexamined_iff]
  constructor
  · rintro ⟨-, -, -, hsurj⟩ ⟨s, hs⟩
    obtain ⟨p, hp, rfl⟩ := hsurj hs.1
    exact (h.mem_visitedSectors.mp (mem_map_of_mem hp)).2 hs
  · intro hno
    refine ⟨hnd.of_map _, fun p hp => ?_, fun p hp q hq hpq => hinj hp hq hpq, fun s hs => ?_⟩
    · exact (h.mem_visitedSectors.mp (mem_map_of_mem hp)).1
    · exact mem_map.mp (h.mem_visitedSectors.mpr ⟨hs, fun hun => hno ⟨s, hun⟩⟩)

end Full

/-- **When a full scan covers the partition.** The sectors that are not constant are all submitted
exactly when every unexamined sector is constant; the visited pairs are in bijection with the
sectors exactly when the partition fits in one chunk. -/
theorem coverage {env : CarverEnv} (h : env.FullScan) :
    (env.SubmitsOnce ↔ ∀ s, env.Unexamined s → env.partSectorConstant s) ∧
      (env.VisitsBiject ↔ env.partSectors * env.sectorSize ≤ carverChunkSize) :=
  ⟨h.submitsOnce_iff, h.visitsBiject_iff⟩

/-- A partition of 1 MiB in sectors of 512 bytes, none of them constant. -/
def stripedScan : CarverEnv where
  disk := ⟨512, 1048576, fun o => if o % 2 = 0 then 0 else 1, fun _ _ => false⟩
  partition := ⟨0, 1048576, .unk, 0⟩
  deepScan := false
  checkHeader := fun _ _ _ _ _ => none
  checkFooter := fun _ _ _ => -1
  fileStats := []
  cancel := fun _ => false
  resumeOffset := 0

theorem stripedScan_full : stripedScan.FullScan :=
  ⟨by decide, rfl, rfl, fun _ => rfl, fun _ _ => rfl⟩

theorem coverage_stripedScan :
    stripedScan.FullScan ∧
      (stripedScan.SubmitsOnce ↔
        ∀ s, stripedScan.Unexamined s → stripedScan.partSectorConstant s) ∧
      (stripedScan.VisitsBiject ↔
        stripedScan.partSectors * stripedScan.sectorSize ≤ carverChunkSize) :=
  ⟨stripedScan_full, coverage stripedScan_full⟩

/-- The last sector of `stripedScan` is not constant and never submitted. -/
theorem stripedScan_uncovered :
    stripedScan.FullScan ∧ ¬ (stripedScan.SubmitsOnce ∧ stripedScan.VisitsBiject) := by
  refine ⟨stripedScan_full, fun ⟨hsub, _⟩ => ?_⟩
  have hun : stripedScan.Unexamined 2047 := by decide
  obtain ⟨-, -, hconst⟩ := stripedScan_full.submitsOnce_iff.mp hsub 2047 hun
  exact absurd (hconst 1 (by decide)) (by decide)

end CarverEnv

end RecoveryQt
