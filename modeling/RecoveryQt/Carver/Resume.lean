import RecoveryQt.Carver.Lonely
import RecoveryQt.Carver.Entries

/-!
# Resuming a cancelled scan

A cancelled scan forgets the file in progress, and the resumed one numbers its entries from zero
again. Cancelled at the first chunk, the second run repeats everything the first one did.

* `cancelAt`, `resumeAt`, `resumedRun`: the two runs;
* `ResumeTransparent`: they carve what one run does;
* `resumedRun_first`: cancelled at the first chunk, they leave the tree of one run;
* `resumeTransparent_iff`: cancelled later, they do not on every image.
-/

namespace RecoveryQt

open List

namespace CarverEnv

variable (env : CarverEnv)

/-- The scan that is cancelled at the end of the chunk at `chunkPos`. -/
def cancelAt (chunkPos : ℕ) : CarverEnv := { env with cancel := fun c => c = chunkPos }

/-- The scan with `g_carver_resume_offset` set. -/
def resumeAt (offset : ℕ) : CarverEnv := { env with resumeOffset := offset }

/-- The scan cancelled at `chunkPos`, then the scan resumed from the progress it saved, on the
same tree. -/
def resumedRun (chunkPos : ℕ) (t : ScanTree) : ScanTree :=
  (env.resumeAt ((env.cancelAt chunkPos).savedProgress.getD 0)).carverRun
    ((env.cancelAt chunkPos).carverRun t)

/-- The two runs leave the carved entries of one, none lost and none twice. -/
def ResumeTransparent (chunkPos : ℕ) (t : ScanTree) : Prop :=
  (env.resumedRun chunkPos t).carvedEntries.Perm (env.carverRun t).carvedEntries

/-- Where a loop over chunk positions is cancelled. -/
def cancelPoint : List ℕ → Option ℕ
  | [] => none
  | cp :: rest =>
    if env.chunkOk cp then if env.cancel cp then some cp else cancelPoint rest else none

theorem chunkLoop_cancelledAt (l : List ℕ) (s : Option OpenFile) :
    (env.chunkLoop l s).cancelledAt = env.cancelPoint l := by
  induction l generalizing s with
  | nil => rfl
  | cons cp l ih =>
    rw [cancelPoint]
    cases hok : env.chunkOk cp with
    | false => rw [chunkLoop_bad _ hok]; rfl
    | true =>
      cases hc : env.cancel cp with
      | true => rw [chunkLoop_cancel _ hok hc]; rfl
      | false =>
        rw [chunkLoop_next _ hok hc]
        exact ih _

/-- The image plays no part in where a loop is cancelled. -/
theorem cancelPoint_congr (env' : CarverEnv) (hok : env'.chunkOk = env.chunkOk)
    (hc : env'.cancel = env.cancel) (l : List ℕ) : env'.cancelPoint l = env.cancelPoint l := by
  induction l with
  | nil => rfl
  | cons cp l ih => rw [cancelPoint, cancelPoint, hok, hc, ih]

theorem cancelledAt_withImage {cp : ℕ} (hreach : (env.cancelAt cp).scanLoop.cancelledAt = some cp)
    (content : ℕ → UInt8) (deepScan : Bool)
    (checkHeader : (ℕ → UInt8) → ℕ → ℕ → Option FileStat → ℕ → Option FileHint)
    (checkFooter : (ℕ → UInt8) → ℕ → FileHint → ℤ) (fileStats : List FileStat) :
    ((env.withImage content deepScan checkHeader checkFooter fileStats).cancelAt
      cp).scanLoop.cancelledAt = some cp := by
  rw [scanLoop, chunkLoop_cancelledAt] at hreach ⊢
  rw [← hreach]
  exact (env.cancelAt cp).cancelPoint_congr
    ((env.withImage content deepScan checkHeader checkFooter fileStats).cancelAt cp) rfl rfl _

theorem cancelPoint_some {l : List ℕ} {cp : ℕ} (h : env.cancelPoint l = some cp) :
    cp ∈ l ∧ ∃ first rest, l = first :: rest ∧ env.chunkOk first = true := by
  induction l with
  | nil => cases h
  | cons c l ih =>
    rw [cancelPoint] at h
    split_ifs at h with hok hc
    · exact ⟨Option.some.inj h ▸ mem_cons_self, c, l, rfl, hok⟩
    · exact ⟨mem_cons_of_mem _ (ih h).1, c, l, rfl, hok⟩

section Reached

variable {cp : ℕ} (hresume : env.resumeOffset = 0)
  (hreach : (env.cancelAt cp).scanLoop.cancelledAt = some cp)

include hresume hreach

/-- A scan from the start that is cancelled has read its first chunk. -/
theorem reached_first : cp ∈ env.chunkPositions 0 ∧ env.chunkOk 0 = true ∧
    ∃ rest, env.chunkPositions env.startPos = 0 :: rest := by
  have hstart : env.startPos = 0 := by
    unfold startPos
    rw [hresume]
    rfl
  have hpoint : (env.cancelAt cp).cancelPoint (env.chunkPositions 0) = some cp := by
    rw [← hstart, ← chunkLoop_cancelledAt _ _ none]
    exact hreach
  obtain ⟨hmem, first, rest, hl, hok⟩ := cancelPoint_some _ hpoint
  have hfirst : first = 0 := by
    have h0 := hl
    unfold chunkPositions at h0
    cases hn : (env.partSectors - 0 + env.chunkStride - 1) / env.chunkStride with
    | zero =>
      rw [hn] at h0
      cases h0
    | succ m =>
      rw [hn, range_succ_eq_map, map_cons] at h0
      have := (List.cons.inj h0).1
      omega
  subst hfirst
  exact ⟨hmem, hok, rest, by rw [hstart, hl]⟩

/-- **Cancelled at the first chunk**, the two runs leave the tree of one run. -/
theorem resumedRun_first (hcancel : ∀ c, env.cancel c = false) (h0 : cp = 0) (t : ScanTree) :
    env.resumedRun cp t = env.carverRun t := by
  obtain ⟨-, hok, rest, hl⟩ := env.reached_first hresume hreach
  subst h0
  have hfirst : (env.cancelAt 0).scanLoop =
      ⟨(env.chunkStep 0 (env.chunkBuffer 0) none).1, (env.chunkStep 0 (env.chunkBuffer 0) none).2,
        some 0⟩ := by
    have hl' : (env.cancelAt 0).chunkPositions (env.cancelAt 0).startPos = 0 :: rest := hl
    have hc : (env.cancelAt 0).cancel 0 = true := rfl
    rw [scanLoop, hl']
    exact (env.cancelAt 0).chunkLoop_cancel hok hc _ _
  have hsaved : (env.cancelAt 0).savedProgress.getD 0 = 0 := by
    rw [savedProgress, hfirst]
    simp
  have hresumed : env.resumeAt 0 = env := by
    unfold resumeAt
    rw [← hresume]
  have hentries1 : (env.cancelAt 0).entries =
      (env.chunkStep 0 (env.chunkBuffer 0) none).2.filterMap CarverEvent.entry? := by
    rw [entries, carverScan, hfirst]
    simp
  obtain ⟨es, hentries⟩ : ∃ es, env.entries = (env.cancelAt 0).entries ++ es := by
    rw [hentries1, entries, carverScan, scanLoop, hl, chunkLoop_next _ hok (hcancel 0)]
    simp only [filterMap_append, append_assoc]
    exact ⟨_, rfl⟩
  unfold resumedRun
  rw [hsaved, hresumed]
  unfold carverRun
  rw [hentries]
  exact foldl_carverAddEntry_twice _ _ _ _ t

end Reached

/-! ### Cancelled later -/

/-- A resumed scan starts at the chunk at which the progress was saved. -/
theorem startPos_resumeAt {cp : ℕ} (hss : 0 < env.sectorSize) (hC : env.chunkStride ∣ cp)
    (hpos : 0 < cp) (hlt : cp < env.partSectors) :
    (env.resumeAt (cp * env.sectorSize)).startPos = cp := by
  have hdiv : cp * env.sectorSize / env.sectorSize / env.chunkStride * env.chunkStride = cp := by
    rw [Nat.mul_div_cancel _ hss, Nat.div_mul_cancel hC]
  change (if 0 < cp * env.sectorSize then
    if env.partSectors ≤ cp * env.sectorSize / env.sectorSize / env.chunkStride * env.chunkStride
      then 0 else cp * env.sectorSize / env.sectorSize / env.chunkStride * env.chunkStride
    else 0) = cp
  rw [hdiv, if_pos (Nat.mul_pos hpos hss), if_neg (not_le.mpr hlt)]

/-- The sectors of a chunk other than the first lie after the start of the partition. -/
theorem partOffset_lt_absOffset {cp i : ℕ} (hss : 0 < env.sectorSize) (hpos : 0 < cp)
    (hi : i ∈ env.chunkVisits cp) : env.partOffset < env.absOffset cp i := by
  have hskip := (mem_chunkVisits.mp hi).1
  rw [skipSectors, if_neg (Nat.ne_of_gt hpos)] at hskip
  have hmul := Nat.mul_le_mul_right env.sectorSize hskip
  have hdiv := Nat.div_add_mod' carverChunkOverlap env.sectorSize
  have hmod := Nat.mod_lt carverChunkOverlap hss
  have hcp := Nat.le_mul_of_pos_left env.sectorSize hpos
  unfold absOffset readOffset
  rw [if_neg (Nat.ne_of_gt hpos)]
  omega

theorem carvedForest_child {f ch : Forest Name NodeInfo} {n : Name} {x : NodeInfo}
    (h : f.child? n = some (x, ch)) (hnil : carvedForest f = []) :
    carvedForest ch = [] ∧ ¬ (x.orphan = true ∧ x.isDir = false) := by
  induction f with
  | nil => cases h
  | cons k y c nx _ ih =>
    simp only [carvedForest, append_eq_nil_iff] at hnil
    unfold Forest.child? at h
    split_ifs at h
    · obtain ⟨rfl, rfl⟩ := h
      exact ⟨hnil.2.1, fun hx => by simp [hx] at hnil⟩
    · exact ih h hnil.2.2

/-- A tree with an orphan file has carved entries. -/
theorem carvedForest_ne_nil {f : Forest Name NodeInfo} {p : List Name} {x : NodeInfo}
    (h : f.label? p = some x) (hx : x.orphan = true ∧ x.isDir = false) : carvedForest f ≠ [] := by
  induction p generalizing f with
  | nil => cases f <;> cases h
  | cons n ns ih =>
    intro hnil
    cases ns with
    | nil =>
      simp only [Forest.label?, Option.map_eq_some_iff] at h
      obtain ⟨⟨y, ch⟩, hc, rfl⟩ := h
      exact (carvedForest_child hc hnil).2 hx
    | cons m ns =>
      simp only [Forest.label?, Option.bind_eq_some_iff] at h
      obtain ⟨⟨y, ch⟩, hc, hl⟩ := h
      exact ih hl (carvedForest_child hc hnil).1

/-- One entry in a new tree. -/
theorem carvedEntries_single (off ss : ℕ) {e : CarvedEntry} (hsize : carverMinSize ≤ e.size) :
    ([e].foldl (carverAddEntry off ss) ⟨treeNew, 0⟩).tree.carvedEntries ≠ [] := by
  have hadd : ([e].foldl (carverAddEntry off ss) ⟨treeNew, 0⟩).tree =
      treeNew.addCarved (pathTokens (carvedPath 0 e.hint), carvedArgs off ss e) := by
    rw [foldl_cons, foldl_nil, carverAddEntry, if_neg (by dsimp only; decide),
      if_neg (not_lt.mpr hsize)]
  have hp := carvedPath_ne_nil 0 e.hint
  have hnew : treeNew.top.label? (pathTokens (carvedPath 0 e.hint)) = none := Forest.label?_nil _
  have hlabel := addCarved_top treeNew hp (carvedArgs off ss e)
  rw [hadd, ScanTree.carvedEntries, hlabel]
  refine carvedForest_ne_nil (p := pathTokens (carvedPath 0 e.hint))
    (x := { nodeAlloc (carvedArgs off ss e) with orphan := true }) ?_ ⟨rfl, rfl⟩
  rw [Forest.label?_modify_self, Forest.label?_insertPath_self _ hp, hnew]
  rfl

/-- **The lonely header is lost** by a scan cancelled after its first chunk and resumed. -/
theorem not_resumeTransparent {cp : ℕ} (hcancel : ∀ c, env.cancel c = false)
    (hresume : env.resumeOffset = 0) (hreach : (env.cancelAt cp).scanLoop.cancelledAt = some cp)
    (hpos : 0 < cp) : ¬ (env.lonely env.partOffset).ResumeTransparent cp treeNew := by
  obtain ⟨hmem, hok, rest, hl⟩ := env.reached_first hresume hreach
  have hC : 0 < env.chunkStride := by
    by_contra h0
    rw [chunkPositions, Nat.eq_zero_of_not_pos h0, Nat.div_zero] at hmem
    cases hmem
  have hss : 0 < env.sectorSize := by
    by_contra h0
    rw [chunkStride, Nat.eq_zero_of_not_pos h0, Nat.div_zero] at hC
    exact lt_irrefl 0 hC
  have hlt := env.chunkPositions_lt hmem
  have hdvd : env.chunkStride ∣ cp := by
    obtain ⟨k, rfl, -⟩ := (mem_chunkPositions env hC).mp hmem
    exact ⟨k, by rw [Nat.zero_add, Nat.mul_comm]⟩
  -- the partition is longer than a chunk, a chunk at least half of `carverChunkSize`
  have hlen : carverMinSize ≤ env.partSectors * env.sectorSize := by
    have h1 : carverChunkSize < (env.chunkStride + 1) * env.sectorSize :=
      Nat.lt_mul_of_div_lt (Nat.lt_succ_self _) hss
    have h2 := Nat.mul_le_mul_right env.sectorSize
      (show env.chunkStride + 1 ≤ env.partSectors from (Nat.le_of_dvd hpos hdvd).trans_lt hlt)
    have h3 : carverMinSize ≤ carverChunkSize := by decide
    omega
  -- the first run hands out nothing
  have hcancelled : ((env.lonely env.partOffset).cancelAt cp).scanLoop.cancelledAt = some cp :=
    env.cancelledAt_withImage hreach _ _ _ _ _
  have hfirst : ((env.lonely env.partOffset).cancelAt cp).entries = [] :=
    (env.cancelAt cp).lonely_cancelled_entries hss hcancelled
  have hsaved : ((env.lonely env.partOffset).cancelAt cp).savedProgress.getD 0 =
      cp * env.sectorSize := by
    rw [savedProgress, hcancelled]
    rfl
  -- the second run starts after the header
  have hsecond : ((env.lonely env.partOffset).resumeAt (cp * env.sectorSize)).entries = [] := by
    refine (env.resumeAt (cp * env.sectorSize)).lonely_no_entries hss fun p hp => ?_
    obtain ⟨hp1, hp2⟩ := ((env.resumeAt _).lonely _).mem_visits hcancel hp
    have hstart := env.startPos_resumeAt hss hdvd hpos hlt
    obtain ⟨k, hk, -⟩ := (mem_chunkPositions _ hC).mp hp1
    have hge : cp ≤ p.1 := by
      change p.1 = (env.resumeAt (cp * env.sectorSize)).startPos + k * env.chunkStride at hk
      omega
    exact Nat.ne_of_gt (env.partOffset_lt_absOffset hss (hpos.trans_le hge) hp2)
  -- one run hands out the whole partition
  have hvisit : (0, 0) ∈ (env.lonely env.partOffset).visits := by
    rw [(env.lonely _).visits_eq hcancel]
    have hl' : (env.lonely env.partOffset).chunkPositions (env.lonely env.partOffset).startPos =
        0 :: rest := hl
    have hok' : (env.lonely env.partOffset).chunkOk 0 = true := hok
    rw [hl', takeWhile_cons_of_pos hok', flatMap_cons]
    refine mem_append_left _ (mem_map_of_mem (mem_chunkVisits.mpr ⟨le_rfl, ?_⟩))
    change 0 < env.chunkSize 0 / env.sectorSize
    refine Nat.div_pos ?_ hss
    have h1 : env.sectorSize ≤ carverChunkSize := by
      have := (Nat.le_div_iff_mul_le hss).mp (Nat.succ_le_of_lt hC)
      omega
    have h2 := Nat.le_mul_of_pos_left env.sectorSize (hpos.trans hlt)
    simp only [chunkSize, Nat.sub_zero]
    split_ifs <;> omega
  have hend : env.visitEnd (0, 0) ≤ env.partEnd := by
    have hmem0 : 0 ∈ env.chunkPositions env.startPos := hl ▸ mem_cons_self
    have := ((env.lonely _).mem_visits hcancel hvisit).2
    exact (env.visitEnd_le hss hmem0 this).1
  have habs : env.absOffset 0 0 = env.partOffset := by simp [absOffset, readOffset]
  have hone := env.lonely_entries hss hcancel hend (by rw [habs]; exact hvisit)
  rw [habs] at hone
  intro htrans
  unfold ResumeTransparent resumedRun carverRun at htrans
  rw [hsaved, hsecond, hfirst, hone] at htrans
  refine carvedEntries_single env.partOffset env.sectorSize
    (e := ⟨env.partOffset, env.partEnd - env.partOffset, env.lonelyHint⟩) ?_ (Perm.nil_eq htrans).symm
  simp only [partEnd]
  omega

/-- **When a cancelled and resumed scan carves what one scan does**, on every image and from every
tree: when it was cancelled at its first chunk. -/
theorem resumeTransparent_iff {cp : ℕ} (hcancel : ∀ c, env.cancel c = false)
    (hresume : env.resumeOffset = 0) (hreach : (env.cancelAt cp).scanLoop.cancelledAt = some cp) :
    (∀ content deepScan checkHeader checkFooter fileStats t,
      (env.withImage content deepScan checkHeader checkFooter fileStats).ResumeTransparent cp t) ↔
      cp = 0 := by
  constructor
  · intro h
    by_contra h0
    exact env.not_resumeTransparent hcancel hresume hreach (Nat.pos_of_ne_zero h0) (h _ _ _ _ _ _)
  · intro h0 content deepScan header footer stats t
    have hreach' := env.cancelledAt_withImage hreach content deepScan header footer stats
    rw [ResumeTransparent, (env.withImage content deepScan header footer stats).resumedRun_first
      hresume hreach' hcancel h0]

/-- A partition of two chunks. -/
def twoChunks : CarverEnv where
  disk := ⟨512, 1048576, fun _ => 0, fun _ _ => false⟩
  partition := ⟨0, 1048576, .unk, 0⟩
  deepScan := false
  checkHeader := fun _ _ _ _ _ => none
  checkFooter := fun _ _ _ => -1
  fileStats := []
  cancel := fun _ => false
  resumeOffset := 0

theorem twoChunks_reached {cp : ℕ} (h : cp = 0 ∨ cp = 1024) :
    (twoChunks.cancelAt cp).scanLoop.cancelledAt = some cp := by
  have hpos : twoChunks.chunkPositions twoChunks.startPos = [0, 1024] := rfl
  have hpos' : (twoChunks.cancelAt cp).chunkPositions (twoChunks.cancelAt cp).startPos =
      [0, 1024] := hpos
  rw [scanLoop, chunkLoop_cancelledAt, hpos']
  rcases h with rfl | rfl <;> rfl

theorem resumeTransparent_iff_twoChunks :
    (∀ content deepScan checkHeader checkFooter fileStats t,
      (twoChunks.withImage content deepScan checkHeader checkFooter fileStats).ResumeTransparent
        0 t) ↔ 0 = 0 :=
  resumeTransparent_iff twoChunks (fun _ => rfl) rfl (twoChunks_reached (.inl rfl))

/-- A file whose only header is the first byte of `twoChunks`, in progress when the scan is
cancelled at the second chunk. -/
theorem twoChunks_not_transparent :
    ((twoChunks.lonely 0).cancelAt 1024).scanLoop.cancelledAt = some 1024 ∧
      ¬ (twoChunks.lonely 0).ResumeTransparent 1024 treeNew :=
  ⟨twoChunks.cancelledAt_withImage (twoChunks_reached (.inr rfl)) _ _ _ _ _,
    twoChunks.not_resumeTransparent (fun _ => rfl) rfl (twoChunks_reached (.inr rfl)) (by decide)⟩

end CarverEnv

end RecoveryQt
