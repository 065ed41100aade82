import RecoveryQt.Carver.Model
import Mathlib.Algebra.Order.Floor.Div
import Mathlib.Tactic.Ring
import Mathlib.Tactic.Linarith

/-!
# The chunk geometry

For a sector size that divides `CARVER_CHUNK_OVERLAP`:

* `chunkStride_mul`, `chunkStride_eq`: a chunk is eight overlaps long;
* `mem_chunkPositions`, `startPos_dvd`: the values of `chunk_pos`;
* `chunkSectors_eq`, `absOffset_eq`: sector `i` of the chunk at `chunkPos` is the sector
  `sectorIndex` of the partition;
* `map_sectorIndex_chunkVisits`: the sectors a chunk visits are consecutive, from `chunkPos` on;
* `sectorIndex_lt`: they lie in the partition.
-/

namespace RecoveryQt

namespace CarverEnv

variable (env : CarverEnv)

/-- The sector of the partition that the sector loop looks at as `(chunkPos, i)`. -/
def sectorIndex (p : ℕ × ℕ) : ℕ := p.1 + p.2 - env.skipSectors p.1

section Positions

theorem mem_chunkPositions {start cp : ℕ} (hC : 0 < env.chunkStride) :
    cp ∈ env.chunkPositions start ↔
      ∃ k, cp = start + k * env.chunkStride ∧ cp < env.partSectors := by
  simp only [chunkPositions, List.mem_map, List.mem_range]
  have hlt : ∀ k, k < (env.partSectors - start + env.chunkStride - 1) / env.chunkStride ↔
      k * env.chunkStride + 1 ≤ env.partSectors - start := by
    intro k
    rw [Nat.lt_iff_add_one_le, Nat.le_div_iff_mul_le hC, Nat.add_mul]
    omega
  constructor
  · rintro ⟨k, hk, rfl⟩
    exact ⟨k, rfl, by have := (hlt k).mp hk; omega⟩
  · rintro ⟨k, rfl, hk⟩
    exact ⟨k, (hlt k).mpr (by omega), rfl⟩

theorem chunkPositions_pairwise_add (start : ℕ) :
    (env.chunkPositions start).Pairwise fun a b => a + env.chunkStride ≤ b := by
  refine List.pairwise_map.mpr (List.pairwise_lt_range.imp fun {a b} hab => ?_)
  have := Nat.mul_le_mul_right env.chunkStride (Nat.succ_le_of_lt hab)
  rw [Nat.succ_mul] at this
  omega

/-- The chunk positions from `start` are strictly increasing. -/
theorem chunkPositions_pairwise (start : ℕ) (hC : 0 < env.chunkStride) :
    (env.chunkPositions start).Pairwise (· < ·) :=
  (env.chunkPositions_pairwise_add start).imp fun hab => by omega

theorem chunkPositions_lt {start cp : ℕ} (hcp : cp ∈ env.chunkPositions start) :
    cp < env.partSectors := by
  rcases Nat.eq_zero_or_pos env.chunkStride with h0 | h0
  · rw [chunkPositions, h0, Nat.div_zero] at hcp
    cases hcp
  · obtain ⟨-, -, h⟩ := (mem_chunkPositions env h0).mp hcp
    exact h

theorem startPos_dvd : env.chunkStride ∣ env.startPos := by
  unfold startPos
  split_ifs
  · dsimp only
    split_ifs
    · exact dvd_zero _
    · exact Dvd.intro_left _ rfl
  · exact dvd_zero _

theorem startPos_lt : env.startPos < env.partSectors ∨ env.startPos = 0 := by
  unfold startPos
  split_ifs
  · dsimp only
    split_ifs with h
    · exact Or.inr rfl
    · exact Or.inl (by omega)
  · exact Or.inr rfl

theorem startPos_add_dvd {cp : ℕ} (hcp : cp ∈ env.chunkPositions env.startPos) :
    env.chunkStride ∣ cp := by
  obtain ⟨k, -, rfl⟩ := List.mem_map.mp hcp
  exact Nat.dvd_add env.startPos_dvd (dvd_mul_left _ _)

/-- A partition of one chunk. -/
theorem startPos_of_single (hP : env.partSectors ≤ env.chunkStride) : env.startPos = 0 := by
  rcases env.startPos_lt with h | h
  · exact Nat.eq_zero_of_dvd_of_lt env.startPos_dvd (h.trans_le hP)
  · exact h

theorem chunkPositions_of_single (hP : env.partSectors ≤ env.chunkStride) {cp : ℕ}
    (hcp : cp ∈ env.chunkPositions env.startPos) : cp = 0 ∧ 0 < env.partSectors := by
  rw [env.startPos_of_single hP] at hcp
  rcases Nat.eq_zero_or_pos env.chunkStride with h0 | h0
  · rw [chunkPositions, h0, Nat.div_zero] at hcp
    cases hcp
  · obtain ⟨k, rfl, hlt⟩ := (mem_chunkPositions env h0).mp hcp
    have hk : k = 0 := by
      by_contra hk
      have := Nat.le_mul_of_pos_left env.chunkStride (Nat.pos_of_ne_zero hk)
      omega
    subst hk
    omega

end Positions

section Aligned

variable {env} (hss : env.sectorSize ∣ carverChunkOverlap)

include hss

theorem sectorSize_pos : 0 < env.sectorSize := Nat.pos_of_dvd_of_pos hss (by decide)

theorem overlap_mul : carverChunkOverlap / env.sectorSize * env.sectorSize = carverChunkOverlap :=
  Nat.div_mul_cancel hss

theorem chunkStride_mul : env.chunkStride * env.sectorSize = carverChunkSize :=
  Nat.div_mul_cancel (hss.trans (by decide))

theorem chunkStride_eq : env.chunkStride = 8 * (carverChunkOverlap / env.sectorSize) := by
  have h : carverChunkSize = 8 * carverChunkOverlap := by decide
  rw [chunkStride, h, Nat.mul_div_assoc _ hss]

theorem overlap_pos : 0 < carverChunkOverlap / env.sectorSize :=
  Nat.div_pos (Nat.le_of_dvd (by decide) hss) (sectorSize_pos hss)

theorem chunkStride_pos : 0 < env.chunkStride := by
  have := overlap_pos hss
  rw [chunkStride_eq hss]
  omega

theorem chunkSectors_eq (cp : ℕ) : env.chunkSectors cp = min env.chunkStride (env.partSectors - cp) := by
  have hpos := sectorSize_pos hss
  unfold chunkSectors chunkSize
  rw [← chunkStride_mul hss]
  split_ifs with h
  · have := Nat.lt_of_mul_lt_mul_right h
    rw [Nat.mul_div_cancel _ hpos]
    omega
  · have := Nat.le_of_mul_le_mul_right (not_lt.mp h) hpos
    rw [Nat.mul_div_cancel _ hpos]
    omega

theorem chunkSize_eq (cp : ℕ) : env.chunkSize cp = env.chunkSectors cp * env.sectorSize := by
  rw [chunkSectors, Nat.div_mul_cancel]
  unfold chunkSize
  split_ifs
  · exact dvd_mul_left _ _
  · exact hss.trans (by decide)

/-- A chunk other than the first starts at least a chunk into the partition. -/
theorem overlap_le_mul {cp : ℕ} (hcp : env.chunkStride ∣ cp) (h0 : cp ≠ 0) :
    carverChunkOverlap / env.sectorSize ≤ cp := by
  have h1 := Nat.le_of_dvd (Nat.pos_of_ne_zero h0) hcp
  rw [chunkStride_eq hss] at h1
  omega

theorem skipSectors_le_pos {cp : ℕ} (hcp : env.chunkStride ∣ cp) : env.skipSectors cp ≤ cp := by
  unfold skipSectors
  split_ifs with h
  · omega
  · exact overlap_le_mul hss hcp h

/-- **The offset of a visited sector.** -/
theorem absOffset_eq {cp : ℕ} (hcp : env.chunkStride ∣ cp) (i : ℕ) :
    env.absOffset cp i = env.partOffset + env.sectorIndex (cp, i) * env.sectorSize := by
  have hle := skipSectors_le_pos hss hcp
  have hmul := overlap_mul hss
  unfold absOffset readOffset sectorIndex
  simp only [skipSectors] at hle ⊢
  split_ifs at hle ⊢ with h
  · subst h; simp
  · have h1 : carverChunkOverlap ≤ cp * env.sectorSize := by
      rw [← hmul]; exact Nat.mul_le_mul_right _ hle
    have h2 : (cp + i - carverChunkOverlap / env.sectorSize) * env.sectorSize =
        cp * env.sectorSize + i * env.sectorSize - carverChunkOverlap := by
      rw [Nat.sub_mul, Nat.add_mul, hmul]
    rw [h2]
    omega

omit hss in
theorem mem_chunkVisits {cp i : ℕ} :
    i ∈ env.chunkVisits cp ↔ env.skipSectors cp ≤ i ∧ i < env.chunkSectors cp := by
  rw [chunkVisits, List.mem_range'_1]
  omega

omit hss in
/-- **The sectors a chunk visits.** -/
theorem map_sectorIndex_chunkVisits {cp : ℕ} :
    (env.chunkVisits cp).map (fun i => env.sectorIndex (cp, i)) =
      List.range' cp (env.chunkSectors cp - env.skipSectors cp) := by
  unfold chunkVisits
  rw [List.range'_eq_map_range, List.range'_eq_map_range, List.map_map]
  refine List.map_congr_left fun k _ => ?_
  simp only [Function.comp_apply, sectorIndex]
  omega

omit hss in
theorem sectorIndex_mem {cp i : ℕ} (hi : i ∈ env.chunkVisits cp) :
    cp ≤ env.sectorIndex (cp, i) ∧
      env.sectorIndex (cp, i) < cp + (env.chunkSectors cp - env.skipSectors cp) := by
  rw [mem_chunkVisits] at hi
  unfold sectorIndex
  simp only
  omega

/-- **A visited sector lies in the partition and before the next chunk.** -/
theorem sectorIndex_lt {cp i : ℕ} (hi : i ∈ env.chunkVisits cp) :
    env.sectorIndex (cp, i) < env.partSectors ∧ env.sectorIndex (cp, i) < cp + env.chunkStride := by
  have h := sectorIndex_mem hi
  rw [chunkSectors_eq hss] at h
  omega

/-- At least a whole sector of the chunk buffer is left at a visited sector. -/
theorem sectorSize_le_rem {cp i : ℕ} (hi : i ∈ env.chunkVisits cp) :
    env.sectorSize ≤ env.chunkSize cp - i * env.sectorSize := by
  rw [mem_chunkVisits] at hi
  rw [chunkSize_eq hss, ← Nat.sub_mul]
  exact Nat.le_mul_of_pos_left _ (by omega)

end Aligned

end CarverEnv

end RecoveryQt
