import RecoveryQt.Carver.Examined
import RecoveryQt.Lib.Intervals

/-!
# Carved entries do not overlap

The file in progress began before the position the scan has reached, and its footer lies after its
start (`StateOk`). A step that closes it hands out an interval that ends at most where the scan
continues (`Advances`), whichever branch closes it. The sectors a scan visits lie one after the
other when the chunks do not overlap (`InChunks`).

* `expire_advances`, `positionStep_advances`: the branches that close a file;
* `Advances.traceFold`: the loops;
* `entries_packed`: the entries of a scan, the closing branch included;
* `entries_disjoint`: they are disjoint, increasing, nonempty and inside the partition.
-/

namespace RecoveryQt

open List

/-- The entries between two offsets, one after the other. -/
abbrev EntriesPacked (lo hi : ℕ) (es : List CarvedEntry) : Prop :=
  Packed CarvedEntry.offset CarvedEntry.stop lo hi es

/-- The file in progress, if any, began before `now` and its footer lies after its start. -/
def StateOk (now : ℕ) (s : Option OpenFile) : Prop :=
  ∀ f ∈ s, f.start < now ∧ (f.footerAt = 0 ∨ f.start < f.footerAt)

/-- Where the next entry can begin: at the start of the file in progress, or from `now` on. -/
def entryFloor (now : ℕ) (s : Option OpenFile) : ℕ := s.elim now OpenFile.start

/-- A part of the scan that takes the file in progress from `s` at `now` to `r.1` at `later`, and
hands out entries one after the other. -/
structure Advances (now later : ℕ) (s : Option OpenFile)
    (r : Option OpenFile × List CarverEvent) : Prop where
  ok : StateOk later r.1
  packed : EntriesPacked (entryFloor now s) (entryFloor later r.1) (r.2.filterMap CarverEvent.entry?)

section Advances

variable {now mid later : ℕ} {s : Option OpenFile} {r q : Option OpenFile × List CarverEvent}

theorem StateOk.none : StateOk now none := fun _ h => by cases h

theorem stateOk_some {f : OpenFile} :
    StateOk now (some f) ↔ f.start < now ∧ (f.footerAt = 0 ∨ f.start < f.footerAt) := by
  simp [StateOk]

theorem StateOk.mono (h : StateOk now s) (hle : now ≤ later) : StateOk later s :=
  fun f hf => ⟨(h f hf).1.trans_le hle, (h f hf).2⟩

theorem StateOk.floor_le (h : StateOk now s) : entryFloor now s ≤ now := by
  cases s with
  | none => exact le_rfl
  | some f => exact (stateOk_some.mp h).1.le

theorem entryFloor_mono (hle : now ≤ later) : entryFloor now s ≤ entryFloor later s := by
  cases s with
  | none => exact hle
  | some f => exact le_rfl

theorem Advances.refl (hs : StateOk now s) (hle : now ≤ later) : Advances now later s (s, []) :=
  ⟨hs.mono hle, entryFloor_mono hle⟩

theorem Advances.trans (h : Advances now mid s r) (h' : Advances mid later r.1 q) :
    Advances now later s (q.1, r.2 ++ q.2) := by
  refine ⟨h'.ok, ?_⟩
  rw [filterMap_append]
  exact h.packed.append h'.packed

theorem Advances.mono {now' later' : ℕ} (h : Advances now' later s r) (hnow : now ≤ now')
    (hlater : later ≤ later') : Advances now later' s r :=
  ⟨h.ok.mono hlater, h.packed.mono (entryFloor_mono hnow) (entryFloor_mono hlater)⟩

/-- **The loop rule.** Item `a` is the stretch from `lo a` to `hi a`, and the stretches follow one
another. -/
theorem Advances.traceFold {α : Type*} (lo hi : α → ℕ)
    {step : Option OpenFile → α → Option OpenFile × List CarverEvent} {as : List α}
    (hstep : ∀ s, ∀ a ∈ as, StateOk (lo a) s → Advances (lo a) (hi a) s (step s a))
    (hord : as.Pairwise fun a b => hi a ≤ lo b) (hlo : ∀ a ∈ as, now ≤ lo a)
    (hhi : ∀ a ∈ as, hi a ≤ later) (hle : now ≤ later) (hs : StateOk now s) :
    Advances now later s (traceFold step s as) := by
  induction as generalizing s now with
  | nil => exact Advances.refl hs hle
  | cons a as ih =>
    have hnow := hlo a mem_cons_self
    have h1 := hstep s a mem_cons_self (hs.mono hnow)
    have h2 : Advances (hi a) later (step s a).1 _ := ih
      (fun s b hb => hstep s b (mem_cons_of_mem _ hb)) hord.of_cons
      (fun b hb => rel_of_pairwise_cons hord hb) (fun b hb => hhi b (mem_cons_of_mem _ hb))
      (hhi a mem_cons_self) h1.ok
    exact (h1.mono hnow le_rfl).trans h2

end Advances

/-! ### The branches that close a file -/

theorem filterMap_entry_entries (es : List CarvedEntry) :
    (es.map CarverEvent.entry).filterMap CarverEvent.entry? = es := by
  rw [filterMap_map]
  exact filterMap_some

theorem gapLimit_pos (h : FileHint) : 0 < gapLimit h := by
  unfold gapLimit carverMaxGap
  split_ifs <;> omega

/-- **Footer and gap limit.** -/
theorem expire_advances {bound : ℕ} {f : OpenFile} (hf : StateOk bound (some f)) :
    StateOk bound (expire bound f).1 ∧
      EntriesPacked f.start (entryFloor bound (expire bound f).1) (expire bound f).2 := by
  obtain ⟨hlt, hfoot⟩ := stateOk_some.mp hf
  have hgap := gapLimit_pos f.hint
  unfold expire
  split_ifs with h1 h2 h3
  · refine ⟨StateOk.none, Packed.singleton le_rfl ?_ ?_⟩
    · simp only [CarvedEntry.stop]
      omega
    · simp only [CarvedEntry.stop, entryFloor, Option.elim]
      omega
  · exact ⟨StateOk.none, hlt.le⟩
  · refine ⟨StateOk.none, Packed.singleton le_rfl ?_ ?_⟩
    · simp only [CarvedEntry.stop]
      omega
    · simp only [CarvedEntry.stop, entryFloor, Option.elim]
      omega
  · exact ⟨hf, le_rfl⟩

namespace CarverEnv

variable (env : CarverEnv)

theorem closingSize_le (bytes : ℕ → UInt8) (rem pos : ℕ) (f : OpenFile) :
    env.closingSize bytes rem pos f ≤ pos - f.start := by
  unfold closingSize
  dsimp only
  split_ifs <;> omega

theorem openAt_ok (bytes : ℕ → UInt8) (rem pos : ℕ) (hint : FileHint) :
    StateOk (pos + 1) (some (env.openAt bytes rem pos hint)) := by
  refine stateOk_some.mpr ⟨Nat.lt_succ_self pos, ?_⟩
  simp only [openAt]
  split_ifs with h <;> omega

/-- **One position.** A new header, the footer and the gap limit. -/
theorem positionStep_advances (bytes : ℕ → UInt8) (rem : ℕ) (found : Option FileHint) {pos : ℕ}
    {s : Option OpenFile} (hs : StateOk pos s) :
    StateOk (pos + 1) (env.positionStep bytes rem pos found s).1 ∧
      EntriesPacked (entryFloor pos s) (entryFloor (pos + 1) (env.positionStep bytes rem pos found s).1)
        (env.positionStep bytes rem pos found s).2 := by
  have hle : pos ≤ pos + 1 := Nat.le_succ pos
  cases s with
  | none =>
    cases found with
    | none => exact ⟨StateOk.none, hle⟩
    | some hint => exact ⟨env.openAt_ok bytes rem pos hint, le_rfl⟩
  | some f =>
    cases found with
    | none =>
      obtain ⟨hok, hpacked⟩ := expire_advances hs
      exact ⟨hok.mono hle, hpacked.mono le_rfl (entryFloor_mono hle)⟩
    | some hint =>
      have hlt := (stateOk_some.mp hs).1
      have hsize := env.closingSize_le bytes rem pos f
      simp only [positionStep]
      split_ifs with h1 h2
      · exact ⟨hs.mono hle, le_rfl⟩
      · refine ⟨env.openAt_ok bytes rem pos hint, Packed.singleton le_rfl ?_ ?_⟩
        · simp only [CarvedEntry.stop]
          have : 0 < carverMinSize := by decide
          omega
        · simp only [CarvedEntry.stop, entryFloor, Option.elim, openAt]
          omega
      · exact ⟨env.openAt_ok bytes rem pos hint, hlt.le⟩

theorem byteStep_advances (sectorBuf : ℕ → UInt8) (rem : ℕ) {off b : ℕ} {s : Option OpenFile}
    (hs : StateOk (off + b) s) :
    Advances (off + b) (off + b + 1) s (env.byteStep sectorBuf rem off s b) := by
  obtain ⟨hok, hpacked⟩ := env.positionStep_advances (fun j => sectorBuf (b + j)) (rem - b)
    (env.headerAt (fun j => sectorBuf (b + j)) (rem - b) (off + b) s) hs
  refine ⟨hok, ?_⟩
  unfold byteStep
  rw [filterMap_cons]
  simp only [CarverEvent.entry?, filterMap_entry_entries]
  exact hpacked

theorem byteOffs_sublist (rem : ℕ) (hpos : 0 < env.sectorSize) :
    (env.byteOffs rem).Sublist (range env.sectorSize) := by
  unfold byteOffs
  split_ifs
  · exact takeWhile_sublist _
  · exact singleton_sublist.mpr (mem_range.mpr hpos)
  · exact nil_sublist _

/-- **One sector**, constant or not. -/
theorem sectorStep_advances {cp i : ℕ} {s : Option OpenFile} (hpos : 0 < env.sectorSize)
    (hs : StateOk (env.absOffset cp i) s) :
    Advances (env.absOffset cp i) (env.absOffset cp i + env.sectorSize) s
      (env.sectorStep cp (env.chunkBuffer cp) s i) := by
  have hle : env.absOffset cp i ≤ env.absOffset cp i + env.sectorSize := Nat.le_add_right _ _
  by_cases hc : env.visitConstant cp i
  · rw [sectorStep_constant env hc]
    cases s with
    | none => exact ⟨StateOk.none, hle⟩
    | some f =>
      obtain ⟨hok, hpacked⟩ := expire_advances (hs.mono hle)
      refine ⟨hok, ?_⟩
      rw [filterMap_cons]
      simp only [CarverEvent.entry?, Option.elim, filterMap_entry_entries]
      exact hpacked
  · rw [sectorStep_bytes env hc]
    have hsub := env.byteOffs_sublist (env.chunkSize cp - i * env.sectorSize) hpos
    have hloop := Advances.traceFold (env.absOffset cp i + ·) (env.absOffset cp i + · + 1)
      (fun s b _ hs => env.byteStep_advances (fun j => env.disk.content (env.absOffset cp i + j))
        (env.chunkSize cp - i * env.sectorSize) hs)
      ((pairwise_lt_range.sublist hsub).imp fun hab => Nat.add_lt_add_left hab _)
      (fun b _ => Nat.le_add_right _ _)
      (fun b hb => Nat.add_lt_add_left (mem_range.mp (hsub.subset hb)) _) hle hs
    exact ⟨hloop.ok, hloop.packed⟩

/-! ### The chunks -/

/-- The end of the chunk at `chunkPos`. -/
def chunkEnd (chunkPos : ℕ) : ℕ :=
  env.partOffset + min (chunkPos + env.chunkStride) env.partSectors * env.sectorSize

/-- The sectors that a chunk visits lie between its position and the next chunk's. -/
def InChunks : Prop :=
  ∀ cp ∈ env.chunkPositions env.startPos, ∀ i ∈ env.chunkVisits cp,
    env.partOffset + cp * env.sectorSize ≤ env.absOffset cp i ∧
      env.absOffset cp i + env.sectorSize ≤ env.chunkEnd cp

theorem inChunks_of_dvd (hss : env.sectorSize ∣ carverChunkOverlap) : env.InChunks := by
  intro cp hcp i hi
  have hdvd := env.startPos_add_dvd hcp
  have hlt := sectorIndex_lt hss hi
  have hge := (sectorIndex_mem hi).1
  rw [absOffset_eq hss hdvd, Nat.add_assoc, ← Nat.succ_mul]
  exact ⟨Nat.add_le_add_left (Nat.mul_le_mul_right _ hge) _,
    Nat.add_le_add_left (Nat.mul_le_mul_right _ (by omega)) _⟩

theorem inChunks_of_single (hpos : 0 < env.sectorSize) (hP : env.partSectors ≤ env.chunkStride) :
    env.InChunks := by
  intro cp hcp i hi
  obtain ⟨rfl, -⟩ := env.chunkPositions_of_single hP hcp
  have hi' := (mem_chunkVisits.mp hi).2
  have hsize : env.chunkSize 0 ≤ env.partSectors * env.sectorSize := by
    simp only [chunkSize, Nat.sub_zero]
    split_ifs <;> omega
  have hlt : i < env.partSectors := by
    refine Nat.lt_of_mul_lt_mul_right (a := env.sectorSize) ?_
    have := (Nat.le_div_iff_mul_le hpos).mp hi'
    rw [Nat.succ_mul] at this
    omega
  have hend : env.chunkEnd 0 = env.partEnd := by
    unfold chunkEnd partEnd
    rw [Nat.zero_add, Nat.min_eq_right hP]
  have hmul : (i + 1) * env.sectorSize ≤ env.partSectors * env.sectorSize :=
    Nat.mul_le_mul_right _ hlt
  rw [Nat.succ_mul] at hmul
  rw [hend, absOffset, readOffset, if_pos rfl, partEnd]
  omega

theorem chunkEnd_le (cp : ℕ) : env.chunkEnd cp ≤ env.partEnd :=
  Nat.add_le_add_left (Nat.mul_le_mul_right _ (Nat.min_le_right _ _)) _

/-- **One chunk.** -/
theorem chunkStep_advances {cp : ℕ} {s : Option OpenFile} (hpos : 0 < env.sectorSize)
    (hin : env.InChunks) (hcp : cp ∈ env.chunkPositions env.startPos)
    (hle : env.partOffset + cp * env.sectorSize ≤ env.chunkEnd cp)
    (hs : StateOk (env.partOffset + cp * env.sectorSize) s) :
    Advances (env.partOffset + cp * env.sectorSize) (env.chunkEnd cp) s
      (env.chunkStep cp (env.chunkBuffer cp) s) := by
  refine Advances.traceFold (env.absOffset cp) (env.absOffset cp · + env.sectorSize) (fun s i _ hs => env.sectorStep_advances hpos hs) ?_ (fun i hi => (hin cp hcp i hi).1)
    (fun i hi => (hin cp hcp i hi).2) hle hs
  have hlt : (env.chunkVisits cp).Pairwise (· < ·) := pairwise_lt_range'
  refine hlt.imp fun {i j} hij => ?_
  have := Nat.mul_le_mul_right env.sectorSize (Nat.succ_le_of_lt hij)
  rw [Nat.succ_mul] at this
  unfold absOffset
  omega

/-- **The chunk loop**, wherever a failed read or a cancellation leaves it. -/
theorem chunkLoop_advances {l : List ℕ} {s : Option OpenFile} {now : ℕ} (hpos : 0 < env.sectorSize)
    (hin : env.InChunks) (hl : ∀ cp ∈ l, cp ∈ env.chunkPositions env.startPos)
    (hord : l.Pairwise fun a b => a + env.chunkStride ≤ b)
    (hnow : ∀ cp ∈ l, now ≤ env.partOffset + cp * env.sectorSize) (hle : now ≤ env.partEnd)
    (hs : StateOk now s) :
    Advances now env.partEnd s ((env.chunkLoop l s).inFile, (env.chunkLoop l s).events) := by
  induction l generalizing s now with
  | nil => exact Advances.refl hs hle
  | cons cp l ih =>
    have hmem := hl cp mem_cons_self
    have hlt := env.chunkPositions_lt hmem
    have hge : env.partOffset + cp * env.sectorSize ≤ env.chunkEnd cp :=
      Nat.add_le_add_left (Nat.mul_le_mul_right _ (by omega)) _
    rw [chunkLoop, chunkRead_eq]
    cases env.chunkOk cp with
    | false => exact Advances.refl hs hle
    | true =>
      have h1 := (env.chunkStep_advances hpos hin hmem hge
        (hs.mono (hnow cp mem_cons_self))).mono (hnow cp mem_cons_self) le_rfl
      simp only [if_true]
      split_ifs
      · exact h1.mono le_rfl (env.chunkEnd_le cp)
      · have hnext : ∀ c ∈ l, env.chunkEnd cp ≤ env.partOffset + c * env.sectorSize := by
          intro c hc
          have := rel_of_pairwise_cons hord hc
          exact Nat.add_le_add_left (Nat.mul_le_mul_right _ (by omega)) _
        exact h1.trans (ih (fun c hc => hl c (mem_cons_of_mem _ hc)) hord.of_cons hnext
          (env.chunkEnd_le cp) h1.ok)

/-- **The closing branch.** -/
theorem finalEntry_packed {f : OpenFile} (hf : StateOk env.partEnd (some f)) :
    EntriesPacked f.start env.partEnd [env.finalEntry f] := by
  obtain ⟨hlt, hfoot⟩ := stateOk_some.mp hf
  refine Packed.singleton le_rfl ?_ ?_ <;>
  · simp only [CarvedEntry.stop, finalEntry]
    split_ifs <;> omega

/-- **The entries of a scan lie one after the other in the partition.** -/
theorem entries_packed (hpos : 0 < env.sectorSize) (hin : env.InChunks) :
    EntriesPacked env.partOffset env.partEnd env.entries := by
  have hloop : Advances env.partOffset env.partEnd none _ :=
    env.chunkLoop_advances hpos hin (fun _ h => h) (env.chunkPositions_pairwise_add _)
      (fun cp _ => Nat.le_add_right _ _) (Nat.le_add_right _ _) StateOk.none
  have hfloor := hloop.ok.floor_le
  unfold entries carverScan scanLoop
  rw [filterMap_append]
  split_ifs
  · rw [filterMap_nil, append_nil]
    exact hloop.packed.mono le_rfl hfloor
  · refine hloop.packed.append ?_
    have hok := hloop.ok
    revert hok
    cases (env.chunkLoop (env.chunkPositions env.startPos) none).inFile with
    | none => exact fun _ => le_rfl
    | some f => exact fun hok => env.finalEntry_packed hok

/-- The entries handed to `carver_add_entry`, in order, are disjoint nonempty intervals of the
partition with increasing starts. -/
structure EntriesDisjoint : Prop where
  increasing : env.entries.Pairwise fun a b => a.offset < b.offset
  disjoint : env.entries.Pairwise fun a b => a.stop ≤ b.offset
  nonempty : ∀ e ∈ env.entries, 0 < e.size
  inside : ∀ e ∈ env.entries,
    env.partOffset ≤ e.offset ∧ e.stop ≤ env.partOffset + env.partSectors * env.sectorSize

theorem entriesDisjoint_of_inChunks (hpos : 0 < env.sectorSize) (hin : env.InChunks) :
    env.EntriesDisjoint := by
  have h := env.entries_packed hpos hin
  refine ⟨h.pairwise_start_lt, h.pairwise_disjoint, fun e he => ?_, fun e he => ?_⟩
  · have := (h.mem he).2.1
    unfold CarvedEntry.stop at this
    omega
  · exact ⟨(h.mem he).1, (h.mem he).2.2⟩

/-- **Carved entries never overlap**, when the sector size divides the overlap or the partition is
one chunk. -/
theorem entries_disjoint
    (h : env.sectorSize ∣ carverChunkOverlap ∨
      0 < env.sectorSize ∧ env.partSectors ≤ env.chunkStride) : env.EntriesDisjoint := by
  rcases h with hss | ⟨hpos, hP⟩
  · exact env.entriesDisjoint_of_inChunks (sectorSize_pos hss) (env.inChunks_of_dvd hss)
  · exact env.entriesDisjoint_of_inChunks hpos (env.inChunks_of_single hpos hP)

/-! ### A sector size that does not divide the overlap -/

/-- The hint of the two files of `shiftedScan`. -/
def shiftedHint : FileHint := ⟨0, none, 1048576⟩

/-- Sectors of 1536 bytes, a partition of a chunk and 43 sectors. A file begins at the first byte,
with its footer at the end of the chunk; another begins where the second chunk is first looked at,
1024 bytes before that. -/
def shiftedScan (sectorSize : ℕ) : CarverEnv where
  disk := ⟨sectorSize, 589824, fun o => if o = 0 ∨ 523776 ≤ o then 1 else 0, fun _ _ => false⟩
  partition := ⟨0, 589824, .unk, 0⟩
  deepScan := false
  checkHeader := fun _ _ pos _ _ => if pos = 0 ∨ pos = 522752 then some shiftedHint else none
  checkFooter := fun bytes _ _ => if bytes 0 = 1 then 523776 else -1
  fileStats := []
  cancel := fun _ => false
  resumeOffset := 0

theorem entries_disjoint_shiftedScan :
    (shiftedScan 512).sectorSize ∣ carverChunkOverlap ∧ (shiftedScan 512).EntriesDisjoint :=
  ⟨by decide, entries_disjoint (shiftedScan 512) (.inl (by decide))⟩

theorem shiftedScan_constant {i : ℕ} (h0 : 0 < i) (hi : i < 341) :
    (shiftedScan 1536).visitConstant 0 i := by
  have hzero : ∀ j < 1536, (shiftedScan 1536).disk.content
      ((shiftedScan 1536).absOffset 0 i + j) = 0 := by
    intro j hj
    refine if_neg ?_
    change ¬ (0 + i * 1536 + j = 0 ∨ 523776 ≤ 0 + i * 1536 + j)
    omega
  exact ⟨by decide, .inl (hzero 0 (by decide)), fun j hj => (hzero j hj).trans (hzero 0 (by decide)).symm⟩

/-- The entries of the first chunk, which leaves no file in progress. -/
theorem shiftedScan_first :
    ∃ es, (shiftedScan 1536).chunkStep 0 ((shiftedScan 1536).chunkBuffer 0) none = (none, es) ∧
      es.filterMap CarverEvent.entry? = [⟨0, 523776, shiftedHint⟩] := by
  have h0 : (shiftedScan 1536).sectorStep 0 ((shiftedScan 1536).chunkBuffer 0) none 0 =
      (some ⟨0, shiftedHint, none, 523776⟩, [.visit 0 0, .header 0]) := by
    have hoffs : (shiftedScan 1536).byteOffs
        ((shiftedScan 1536).chunkSize 0 - 0 * (shiftedScan 1536).sectorSize) = [0] := by decide
    have habs : (shiftedScan 1536).absOffset 0 0 = 0 := rfl
    rw [sectorStep_bytes _ fun hc => absurd (hc.2.2 1 (by decide)) (by decide)]
    simp only [hoffs, habs, traceFold_cons, traceFold_nil]
    rfl
  have hmid : ∀ i ∈ range' 1 339, (shiftedScan 1536).sectorStep 0
      ((shiftedScan 1536).chunkBuffer 0) (some ⟨0, shiftedHint, none, 523776⟩) i =
        (some ⟨0, shiftedHint, none, 523776⟩, [.visit 0 i]) := by
    intro i hi
    rw [mem_range'_1] at hi
    rw [sectorStep_constant _ (shiftedScan_constant (by omega) (by omega))]
    have hexp : expire ((shiftedScan 1536).absOffset 0 i + (shiftedScan 1536).sectorSize)
        ⟨0, shiftedHint, none, 523776⟩ = (some ⟨0, shiftedHint, none, 523776⟩, []) := by
      have hgap : gapLimit shiftedHint = 1048576 := rfl
      change expire (0 + i * 1536 + 1536) _ = _
      unfold expire
      rw [if_neg (by dsimp only; omega), if_neg (by dsimp only; omega)]
    simp only [hexp, Option.bind_some, Option.elim_some, map_nil]
  have hlast : (shiftedScan 1536).sectorStep 0 ((shiftedScan 1536).chunkBuffer 0)
      (some ⟨0, shiftedHint, none, 523776⟩) 340 =
        (none, [.visit 0 340, .entry ⟨0, 523776, shiftedHint⟩]) := by
    have hend : (shiftedScan 1536).absOffset 0 340 + (shiftedScan 1536).sectorSize = 523776 := rfl
    rw [sectorStep_constant _ (shiftedScan_constant (by decide) (by decide)), hend]
    rfl
  have hvisits : (shiftedScan 1536).chunkVisits 0 = [0] ++ (range' 1 339 ++ [340]) := by
    have h : (shiftedScan 1536).chunkVisits 0 = range' 0 (339 + 1 + 1) := rfl
    rw [h, range'_succ, range'_concat, singleton_append]
  have hrun := traceFold_append_eq ((traceFold_singleton _ _ _).trans h0)
    (traceFold_append_eq (traceFold_fixed hmid) ((traceFold_singleton _ _ _).trans hlast))
  have hnone : ((range' 1 339).flatMap fun i => [CarverEvent.visit 0 i]).filterMap
      CarverEvent.entry? = [] := by
    rw [filterMap_flatMap]
    exact flatMap_eq_nil_iff.mpr fun _ _ => rfl
  refine ⟨_, (congrArg (traceFold _ none) hvisits).trans hrun, ?_⟩
  rw [filterMap_append, filterMap_append, hnone]
  rfl

theorem shiftedScan_second :
    (shiftedScan 1536).chunkStep 341 ((shiftedScan 1536).chunkBuffer 341) none =
      (some ⟨522752, shiftedHint, none, 0⟩, [.visit 341 42, .header 522752]) := by
  have hvisits : (shiftedScan 1536).chunkVisits 341 = [42] := rfl
  have hoffs : (shiftedScan 1536).byteOffs
      ((shiftedScan 1536).chunkSize 341 - 42 * (shiftedScan 1536).sectorSize) = [0] := by decide
  have habs : (shiftedScan 1536).absOffset 341 42 = 522752 := rfl
  unfold chunkStep
  rw [hvisits, traceFold_cons, traceFold_nil,
    sectorStep_bytes _ fun hc => absurd (hc.2.2 1024 (by decide)) (by decide)]
  simp only [hoffs, habs, traceFold_cons, traceFold_nil]
  rfl

theorem shiftedScan_final :
    (shiftedScan 1536).finalEntry ⟨522752, shiftedHint, none, 0⟩ = ⟨522752, 67072, shiftedHint⟩ := by
  have hend : (shiftedScan 1536).partEnd = 589824 := rfl
  unfold finalEntry
  rw [hend]
  rfl

theorem shiftedScan_entries :
    (shiftedScan 1536).entries = [⟨0, 523776, shiftedHint⟩, ⟨522752, 67072, shiftedHint⟩] := by
  obtain ⟨es, hfirst, hentry⟩ := shiftedScan_first
  have hpos : (shiftedScan 1536).chunkPositions (shiftedScan 1536).startPos = [0, 341] := rfl
  have hloop : (shiftedScan 1536).scanLoop =
      ⟨some ⟨522752, shiftedHint, none, 0⟩, es ++ ([.visit 341 42, .header 522752] ++ []), none⟩ := by
    unfold scanLoop
    rw [hpos]
    exact chunkLoop_next_eq _ rfl rfl hfirst (chunkLoop_next_eq _ rfl rfl shiftedScan_second rfl)
  have hopen : (shiftedScan 1536).scanLoop.inFile = some ⟨522752, shiftedHint, none, 0⟩ := by
    rw [hloop]
  rw [entries_eq_of_open _ hopen (by rw [hloop]), hloop, filterMap_append, hentry,
    shiftedScan_final]
  rfl

/-- With sectors of 1536 bytes two carved files share 1024 bytes. -/
theorem shiftedScan_overlap : ¬ (shiftedScan 1536).EntriesDisjoint := by
  intro h
  have hpair := h.disjoint
  rw [shiftedScan_entries] at hpair
  have hle : CarvedEntry.stop ⟨0, 523776, shiftedHint⟩ ≤ 522752 :=
    rel_of_pairwise_cons hpair mem_cons_self
  exact absurd hle (by decide)

end CarverEnv

end RecoveryQt
