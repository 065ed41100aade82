import RecoveryQt.Carver.Lonely
import Mathlib.Data.List.TakeWhile

/-!
# Reads that fail

A chunk whose read fails ends the chunk loop, and the file in progress is still closed at the end
of the partition.

* `GoodChunksExamined`: every chunk whose read succeeds is examined, as if no read failed;
* `EntriesExamined`: no entry extends past the last byte examined;
* `goodChunksExamined_iff`, `damage_local`: when they hold.
-/

namespace RecoveryQt

open List

namespace CarverEnv

variable (env : CarverEnv)

/-- The chunks that a scan reads when no read fails. -/
def scanPositions : List ℕ := env.chunkPositions env.startPos

/-- Every chunk whose read succeeds is examined as the chunk loop examines it when no read fails,
and nothing else is. -/
def GoodChunksExamined : Prop :=
  env.examined = (env.scanPositions.filter env.chunkOk).flatMap env.chunkExamined

/-- Every entry ends at most where some visited sector does. -/
def EntriesExamined : Prop := ∀ e ∈ env.entries, ∃ p ∈ env.visits, e.stop ≤ env.visitEnd p

/-- A failed read costs only its own chunk. -/
def DamageLocal : Prop := env.GoodChunksExamined ∧ env.EntriesExamined

/-- A chunk with sectors to visit whose read succeeds. -/
def Examinable (chunkPos : ℕ) : Prop := env.chunkOk chunkPos = true ∧ env.chunkVisits chunkPos ≠ []

theorem chunkExamined_eq_nil {cp : ℕ} : env.chunkExamined cp = [] ↔ env.chunkVisits cp = [] := by
  unfold chunkExamined sectorExamined
  rw [flatMap_eq_nil_iff]
  constructor
  · intro h
    exact eq_nil_iff_forall_not_mem.mpr fun i hi => cons_ne_nil _ _ (h i hi)
  · intro h i hi
    rw [h] at hi
    cases hi

theorem flatMap_filter_append (p : ℕ → Bool) (l : List ℕ) (f : ℕ → List CarverEvent) :
    (l.filter p).flatMap f =
      (l.takeWhile p).flatMap f ++ ((l.dropWhile p).filter p).flatMap f := by
  conv_lhs => rw [← takeWhile_append_dropWhile (p := p) (l := l)]
  rw [filter_append, flatMap_append]
  congr 2
  exact filter_eq_self.mpr fun a ha => mem_takeWhile_imp ha

/-- **Which scans examine every good chunk**: those with nothing to examine after the first read
that fails. -/
theorem goodChunksExamined_iff (hcancel : ∀ cp, env.cancel cp = false) :
    env.GoodChunksExamined ↔ ∀ cp ∈ env.scanPositions.dropWhile env.chunkOk, ¬ env.Examinable cp := by
  unfold GoodChunksExamined
  rw [env.examined_eq hcancel, ← scanPositions, flatMap_filter_append, self_eq_append_right, flatMap_eq_nil_iff]
  simp only [mem_filter, chunkExamined_eq_nil, Examinable, not_and, not_not, and_imp]

/-- A scan with nothing to examine hands out nothing. -/
theorem chunkLoop_nothing {l : List ℕ} (h : ∀ cp ∈ l, ¬ env.Examinable cp) :
    (env.chunkLoop l none).inFile = none ∧ (env.chunkLoop l none).events = [] := by
  induction l with
  | nil => exact ⟨rfl, rfl⟩
  | cons cp l ih =>
    cases hok : env.chunkOk cp with
    | false =>
      rw [chunkLoop_bad _ hok]
      exact ⟨rfl, rfl⟩
    | true =>
      have hvisits : env.chunkVisits cp = [] := by
        by_contra hne
        exact h cp mem_cons_self ⟨hok, hne⟩
      have hstep : env.chunkStep cp (env.chunkBuffer cp) none = (none, []) := by
        rw [chunkStep, hvisits, traceFold_nil]
      cases hc : env.cancel cp with
      | true =>
        rw [chunkLoop_cancel _ hok hc, hstep]
        exact ⟨rfl, rfl⟩
      | false =>
        rw [chunkLoop_next_eq _ hok hc hstep rfl]
        exact ih fun c hc => h c (mem_cons_of_mem _ hc)

theorem entries_of_nothing (h : ∀ cp ∈ env.scanPositions, ¬ env.Examinable cp) :
    env.entries = [] := by
  obtain ⟨hnone, hnil⟩ := env.chunkLoop_nothing h
  have hloop : env.scanLoop = ⟨none, [], env.scanLoop.cancelledAt⟩ := by
    rw [← hnone, ← hnil]
    rfl
  unfold entries carverScan
  rw [hloop]
  dsimp only
  split_ifs <;> rfl

theorem takeWhile_of_single (hP : env.partSectors ≤ env.chunkStride)
    (hok : env.chunkOk 0 = true) : env.scanPositions.takeWhile env.chunkOk = env.scanPositions := by
  refine takeWhile_eq_self_iff.mpr fun cp hcp => ?_
  rw [(env.chunkPositions_of_single hP hcp).1]
  exact hok

/-- In a partition of one chunk the last sector visited is the last of the partition. -/
theorem entriesExamined_of_single (hcancel : ∀ cp, env.cancel cp = false)
    (hP : env.partSectors ≤ env.chunkStride) {cp : ℕ} (hcp : cp ∈ env.scanPositions)
    (hgood : env.Examinable cp) : env.EntriesExamined := by
  obtain ⟨rfl, hpos⟩ := env.chunkPositions_of_single hP hcp
  have hss : 0 < env.sectorSize := by
    by_contra h0
    rw [partSectors, Nat.eq_zero_of_not_pos h0, Nat.div_zero] at hpos
    exact lt_irrefl 0 hpos
  have hsectors : env.chunkSectors 0 = env.partSectors := by
    have hmul : env.partSectors * env.sectorSize ≤ carverChunkSize :=
      (Nat.mul_le_mul_right _ hP).trans (Nat.div_mul_le_self _ _)
    have hsize : env.chunkSize 0 = env.partSectors * env.sectorSize := by
      simp only [chunkSize, Nat.sub_zero]
      split_ifs <;> omega
    rw [chunkSectors, hsize, Nat.mul_div_cancel _ hss]
  have hlast : (0, env.partSectors - 1) ∈ env.visits := by
    rw [env.visits_eq hcancel, mem_flatMap]
    refine ⟨0, ?_, mem_map_of_mem ?_⟩
    · change 0 ∈ env.scanPositions.takeWhile env.chunkOk
      rwa [env.takeWhile_of_single hP hgood.1]
    · rw [mem_chunkVisits, hsectors]
      exact ⟨Nat.zero_le _, by omega⟩
  have hend : env.visitEnd (0, env.partSectors - 1) = env.partEnd := by
    have hmul := Nat.sub_mul env.partSectors 1 env.sectorSize
    have hle := Nat.mul_le_mul_right env.sectorSize (Nat.succ_le_of_lt hpos)
    unfold visitEnd absOffset readOffset partEnd
    dsimp only
    rw [if_pos rfl]
    omega
  intro e he
  exact ⟨_, hlast, ((env.entries_packed hss (env.inChunks_of_single hss hP)).mem he).2.2.trans hend.ge⟩

/-- A readable chunk with sectors to visit, in a partition longer than a chunk, is not local. -/
theorem not_damageLocal (hcancel : ∀ cp, env.cancel cp = false)
    (hP : env.chunkStride < env.partSectors) {cp : ℕ} (hcp : cp ∈ env.scanPositions)
    (hgood : env.Examinable cp) : ∃ h, ¬ (env.lonely h).DamageLocal := by
  have hpos : 0 < env.sectorSize := by
    by_contra h0
    rw [partSectors, Nat.eq_zero_of_not_pos h0, Nat.div_zero] at hP
    exact Nat.not_lt_zero _ hP
  obtain ⟨i, hi⟩ := exists_mem_of_ne_nil _ hgood.2
  refine ⟨env.absOffset cp i, fun ⟨hall, hend⟩ => ?_⟩
  have hvisit : (cp, i) ∈ (env.lonely (env.absOffset cp i)).visits := by
    have hmem : CarverEvent.visit cp i ∈ (env.lonely (env.absOffset cp i)).examined := by
      rw [hall]
      exact mem_flatMap.mpr ⟨cp, mem_filter.mpr ⟨hcp, hgood.1⟩,
        mem_flatMap.mpr ⟨i, hi, mem_cons_self⟩⟩
    rw [visits_eq_examined]
    exact mem_filterMap.mpr ⟨_, hmem, rfl⟩
  have hin := (env.visitEnd_le hpos hcp hi).1
  have hentries := env.lonely_entries hpos hcancel hin hvisit
  obtain ⟨q, hq, hle⟩ := hend _ (hentries ▸ mem_cons_self)
  obtain ⟨hq1, hq2⟩ := (env.lonely _).mem_visits hcancel hq
  have hlt : env.visitEnd q < env.partEnd := (env.visitEnd_le hpos hq1 hq2).2 hP
  unfold visitEnd at hin
  simp only [CarvedEntry.stop] at hle hin
  change _ ≤ env.visitEnd q at hle
  omega

theorem damageLocal_of_nothing (hcancel : ∀ cp, env.cancel cp = false)
    (h : ∀ cp ∈ env.scanPositions, ¬ env.Examinable cp) : env.DamageLocal := by
  refine ⟨(env.goodChunksExamined_iff hcancel).mpr fun cp hcp => ?_, fun e he => ?_⟩
  · exact h cp ((dropWhile_sublist _).subset hcp)
  · rw [env.entries_of_nothing h] at he
    cases he

theorem damageLocal_of_single (hcancel : ∀ cp, env.cancel cp = false)
    (hP : env.partSectors ≤ env.chunkStride) : env.DamageLocal := by
  by_cases h : ∀ cp ∈ env.scanPositions, ¬ env.Examinable cp
  · exact env.damageLocal_of_nothing hcancel h
  · push Not at h
    obtain ⟨cp, hcp, hgood⟩ := h
    refine ⟨(env.goodChunksExamined_iff hcancel).mpr fun c hc => ?_,
      env.entriesExamined_of_single hcancel hP hcp hgood⟩
    obtain ⟨rfl, -⟩ := env.chunkPositions_of_single hP hcp
    have hnil : env.scanPositions.dropWhile env.chunkOk = [] := by
      have := takeWhile_append_dropWhile (p := env.chunkOk) (l := env.scanPositions)
      rw [env.takeWhile_of_single hP hgood.1] at this
      exact append_right_eq_self.mp this
    rw [hnil] at hc
    cases hc

/-- **When a failed read costs only its own chunk.** The good chunks are examined exactly when
nothing is to be examined after the first read that fails. With the entries, the whole property
holds on every image exactly when the partition fits in one chunk, or nothing can be examined. -/
theorem damage_local (hcancel : ∀ cp, env.cancel cp = false) :
    (env.GoodChunksExamined ↔
      ∀ cp ∈ env.scanPositions.dropWhile env.chunkOk, ¬ env.Examinable cp) ∧
    ((∀ content deepScan checkHeader checkFooter fileStats,
      (env.withImage content deepScan checkHeader checkFooter fileStats).DamageLocal) ↔
      env.partSectors ≤ env.chunkStride ∨ ∀ cp ∈ env.scanPositions, ¬ env.Examinable cp) := by
  refine ⟨env.goodChunksExamined_iff hcancel, fun h => ?_, fun h content deep header footer stats => ?_⟩
  · by_contra hno
    push Not at hno
    obtain ⟨hP, cp, hcp, hgood⟩ := hno
    obtain ⟨o, ho⟩ := env.not_damageLocal hcancel hP hcp hgood
    exact ho (h _ _ _ _ _)
  · rcases h with hP | hnone
    · exact damageLocal_of_single _ hcancel hP
    · exact damageLocal_of_nothing _ hcancel hnone

/-- A partition of two chunks whose first read fails. -/
def damagedScan : CarverEnv where
  disk := ⟨512, 1048576, fun o => if o % 2 = 0 then 0 else 1, fun _ offset => offset = 0⟩
  partition := ⟨0, 1048576, .unk, 0⟩
  deepScan := false
  checkHeader := fun _ _ _ _ _ => none
  checkFooter := fun _ _ _ => -1
  fileStats := []
  cancel := fun _ => false
  resumeOffset := 0

theorem damage_local_damagedScan :
    (damagedScan.GoodChunksExamined ↔
      ∀ cp ∈ damagedScan.scanPositions.dropWhile damagedScan.chunkOk, ¬ damagedScan.Examinable cp) ∧
    ((∀ content deepScan checkHeader checkFooter fileStats,
      (damagedScan.withImage content deepScan checkHeader checkFooter fileStats).DamageLocal) ↔
      damagedScan.partSectors ≤ damagedScan.chunkStride ∨
        ∀ cp ∈ damagedScan.scanPositions, ¬ damagedScan.Examinable cp) :=
  damage_local damagedScan fun _ => rfl

/-- The second chunk of `damagedScan` can be read and is never examined. -/
theorem damagedScan_not_local :
    (∀ cp, damagedScan.cancel cp = false) ∧ ¬ damagedScan.DamageLocal := by
  refine ⟨fun _ => rfl, fun ⟨hall, _⟩ => ?_⟩
  have hpos : damagedScan.scanPositions = [0, 1024] := rfl
  have hmem : 1024 ∈ damagedScan.scanPositions.dropWhile damagedScan.chunkOk := by
    rw [hpos, dropWhile_cons_of_neg (by decide)]
    decide
  refine (damagedScan.goodChunksExamined_iff fun _ => rfl).mp hall 1024 hmem ⟨by decide, ?_⟩
  exact ne_nil_of_mem (mem_chunkVisits.mpr (show 128 ≤ 128 ∧ 128 < 1024 by decide))

end CarverEnv

end RecoveryQt
