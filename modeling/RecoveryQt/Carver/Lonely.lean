import RecoveryQt.Carver.Disjoint

/-!
# An image with one header

The same geometry, reads and cancellations with another image and other answers of the checks
(`withImage`); in particular an image with a single header, of a file that no footer and no gap
limit ends (`lonely`). The file is in progress from the visit of its header to the end of the loop,
and only the closing branch hands it out.

* `LonelyRun`: what a part of the scan does on that image;
* `lonely_scanLoop`: what the chunk loop does;
* `lonely_entries`: the entries of a scan that is not cancelled.
-/

namespace RecoveryQt

open List

namespace CarverEnv

variable (env : CarverEnv)

/-- The same scan on another image, in another mode and with other checks. -/
def withImage (content : ℕ → UInt8) (deepScan : Bool)
    (checkHeader : (ℕ → UInt8) → ℕ → ℕ → Option FileStat → ℕ → Option FileHint)
    (checkFooter : (ℕ → UInt8) → ℕ → FileHint → ℤ) (fileStats : List FileStat) : CarverEnv :=
  { env with
    disk := { env.disk with content := content }
    deepScan := deepScan
    checkHeader := checkHeader
    checkFooter := checkFooter
    fileStats := fileStats }

/-- The hint of the lonely header, with a gap limit past the end of the partition. -/
def lonelyHint : FileHint := ⟨0, none, env.partEnd + 1⟩

/-- The image whose only byte `2` lies at `h`, with headers at the bytes `2`. -/
def lonely (h : ℕ) : CarverEnv :=
  env.withImage (fun o => if o = h then 2 else 0) false
    (fun bytes _ _ _ _ => if bytes 0 = 2 then some env.lonelyHint else none) (fun _ _ _ => -1) []

@[simp] theorem lonely_absOffset (h cp i : ℕ) :
    (env.lonely h).absOffset cp i = env.absOffset cp i := rfl

@[simp] theorem lonely_chunkSize (h cp : ℕ) : (env.lonely h).chunkSize cp = env.chunkSize cp := rfl

@[simp] theorem lonely_sectorSize (h : ℕ) : (env.lonely h).sectorSize = env.sectorSize := rfl

/-- The file that the lonely header opens. -/
def lonelyFile (h : ℕ) : OpenFile := ⟨h, env.lonelyHint, none, 0⟩

/-- The end of a visited sector. -/
def visitEnd (p : ℕ × ℕ) : ℕ := env.absOffset p.1 p.2 + env.sectorSize

/-- A visited sector ends in the partition, and before its end when the partition is longer than a
chunk. -/
theorem visitEnd_le (hpos : 0 < env.sectorSize) {start cp i : ℕ}
    (hcp : cp ∈ env.chunkPositions start) (hi : i ∈ env.chunkVisits cp) :
    env.visitEnd (cp, i) ≤ env.partEnd ∧
      (env.chunkStride < env.partSectors → env.visitEnd (cp, i) < env.partEnd) := by
  have hlt := env.chunkPositions_lt hcp
  have hi' := (mem_chunkVisits.mp hi).2
  have hmul := (Nat.le_div_iff_mul_le hpos).mp hi'
  rw [Nat.succ_mul] at hmul
  have hsize : env.chunkSize cp ≤ (env.partSectors - cp) * env.sectorSize ∧
      env.chunkSize cp ≤ carverChunkSize := by
    unfold chunkSize
    split_ifs <;> omega
  have hsub := Nat.sub_mul env.partSectors cp env.sectorSize
  have hcps := Nat.mul_le_mul_right env.sectorSize hlt.le
  unfold visitEnd absOffset readOffset partEnd
  dsimp only
  split_ifs with h0
  · subst h0
    refine ⟨by rw [Nat.sub_zero] at hsize; omega, fun hC => ?_⟩
    have hiC : i < env.chunkStride := hi'.trans_le (Nat.div_le_div_right hsize.2)
    have := Nat.mul_le_mul_right env.sectorSize (show i + 2 ≤ env.partSectors by omega)
    rw [Nat.add_mul] at this
    omega
  · have hcp0 : 0 < cp * env.sectorSize := Nat.mul_pos (Nat.pos_of_ne_zero h0) hpos
    have hov : 0 < carverChunkOverlap := by decide
    omega

/-- A part of the scan on the lonely image: it takes `s` to `r.1`, opens the file exactly when it
visits a sector at `h`, and hands out nothing. -/
structure LonelyRun (h : ℕ) (s : Option OpenFile) (r : Option OpenFile × List CarverEvent) :
    Prop where
  state : r.1 = none ∨ r.1 = some (env.lonelyFile h)
  opens : r.1 = some (env.lonelyFile h) ↔ s = some (env.lonelyFile h) ∨
    ∃ p ∈ r.2.filterMap CarverEvent.visit?, env.absOffset p.1 p.2 = h
  silent : r.2.filterMap CarverEvent.entry? = []

variable {env} {h : ℕ}

theorem LonelyRun.refl {s : Option OpenFile} (hs : s = none ∨ s = some (env.lonelyFile h)) :
    env.LonelyRun h s (s, []) := ⟨hs, by simp, rfl⟩

theorem LonelyRun.trans {s : Option OpenFile} {r q : Option OpenFile × List CarverEvent}
    (hr : env.LonelyRun h s r) (hq : env.LonelyRun h r.1 q) :
    env.LonelyRun h s (q.1, r.2 ++ q.2) := by
  refine ⟨hq.state, ?_, ?_⟩
  · rw [hq.opens, hr.opens, or_assoc, filterMap_append]
    simp only [mem_append, or_and_right, exists_or]
  · rw [filterMap_append, hr.silent, hq.silent, append_nil]

theorem LonelyRun.traceFold {α : Type*}
    {step : Option OpenFile → α → Option OpenFile × List CarverEvent} {as : List α}
    (hstep : ∀ s, ∀ a ∈ as, s = none ∨ s = some (env.lonelyFile h) → env.LonelyRun h s (step s a))
    {s : Option OpenFile} (hs : s = none ∨ s = some (env.lonelyFile h)) :
    env.LonelyRun h s (traceFold step s as) := by
  induction as generalizing s with
  | nil => exact LonelyRun.refl hs
  | cons a as ih =>
    have h1 := hstep s a mem_cons_self hs
    exact h1.trans (ih (fun s b hb => hstep s b (mem_cons_of_mem _ hb)) h1.state)

/-- The file is not closed before the end of the partition. -/
theorem expire_lonelyFile {bound : ℕ} (hb : bound ≤ env.partEnd) :
    expire bound (env.lonelyFile h) = (some (env.lonelyFile h), []) := by
  unfold expire lonelyFile gapLimit lonelyHint
  rw [if_neg (by dsimp only; omega), if_neg (by dsimp only; rw [if_neg (Nat.succ_ne_zero _)]; omega)]

/-- What a position of the lonely image does. -/
theorem lonely_positionStep (rem : ℕ) {pos : ℕ} (hpos : pos ≤ env.partEnd) {s : Option OpenFile}
    (hs : s = none ∨ s = some (env.lonelyFile h)) :
    (env.lonely h).positionStep (fun j => (env.lonely h).disk.content (pos + j)) rem pos
      ((env.lonely h).headerAt (fun j => (env.lonely h).disk.content (pos + j)) rem pos s) s =
      (if pos = h then some (env.lonelyFile h) else s, []) := by
  have hfound : (env.lonely h).headerAt (fun j => (env.lonely h).disk.content (pos + j)) rem pos s =
      if pos = h then some env.lonelyHint else none := by
    change (if (if pos + 0 = h then (2 : UInt8) else 0) = 2 then some env.lonelyHint else none) = _
    rw [Nat.add_zero]
    by_cases hp : pos = h <;> simp [hp]
  have hopen : (env.lonely h).openAt (fun j => (env.lonely h).disk.content (pos + j)) rem pos
      env.lonelyHint = env.lonelyFile pos := rfl
  rw [hfound]
  split_ifs with hp
  · subst hp
    rcases hs with rfl | rfl
    · simp only [positionStep, Option.map_some, hopen]
    · have hskip : skipMatch pos env.lonelyHint (env.lonelyFile pos) := by
        refine ⟨rfl, ?_⟩
        simp only [lonelyFile, lt_irrefl, if_false, Nat.sub_self]
        decide
      simp only [positionStep, if_pos hskip]
  · rcases hs with rfl | rfl
    · rfl
    · exact expire_lonelyFile hpos

/-- The events of one sector of the lonely image, after the visit. -/
theorem lonely_sectorStep_eq {cp i : ℕ} (hpos : 0 < env.sectorSize) (hi : i ∈ env.chunkVisits cp)
    (hend : env.visitEnd (cp, i) ≤ env.partEnd) {s : Option OpenFile}
    (hs : s = none ∨ s = some (env.lonelyFile h)) :
    (env.lonely h).sectorStep cp ((env.lonely h).chunkBuffer cp) s i =
      (if env.absOffset cp i = h then some (env.lonelyFile h) else s,
        .visit cp i :: if (env.lonely h).visitConstant cp i then []
          else [.header (env.absOffset cp i)]) := by
  have hle : env.absOffset cp i ≤ env.partEnd := (Nat.le_add_right _ _).trans hend
  by_cases hc : (env.lonely h).visitConstant cp i
  · have hne : env.absOffset cp i ≠ h := by
      rintro rfl
      have hbyte : (env.lonely (env.absOffset cp i)).disk.content
          ((env.lonely (env.absOffset cp i)).absOffset cp i + 0) = 2 := if_pos rfl
      rcases hc.2.1 with h0 | h0 <;> exact absurd (hbyte.symm.trans h0) (by decide)
    rw [sectorStep_constant _ hc, if_neg hne, if_pos hc]
    rcases hs with rfl | rfl
    · rfl
    · have hexp : expire ((env.lonely h).absOffset cp i + (env.lonely h).sectorSize)
          (env.lonelyFile h) = _ := expire_lonelyFile hend
      simp only [Option.bind_some, Option.elim_some, hexp, map_nil]
  · have hrem : env.sectorSize ≤ env.chunkSize cp - i * env.sectorSize := by
      have := (Nat.le_div_iff_mul_le hpos).mp (mem_chunkVisits.mp hi).2
      rw [Nat.succ_mul] at this
      omega
    have hoffs : (env.lonely h).byteOffs (env.chunkSize cp - i * env.sectorSize) = [0] := if_pos hrem
    have hstep := lonely_positionStep (env.chunkSize cp - i * env.sectorSize) hle hs
    rw [sectorStep_bytes _ hc, if_neg hc]
    simp only [hoffs, traceFold_singleton, byteStep, Nat.zero_add, Nat.add_zero, Nat.sub_zero,
      lonely_absOffset, lonely_chunkSize, lonely_sectorSize, hstep, map_nil]

theorem LonelyRun.of_visit {cp i : ℕ} {s : Option OpenFile} {es : List CarverEvent}
    (hs : s = none ∨ s = some (env.lonelyFile h)) (hvisit : es.filterMap CarverEvent.visit? = [])
    (hentry : es.filterMap CarverEvent.entry? = []) :
    env.LonelyRun h s
      (if env.absOffset cp i = h then some (env.lonelyFile h) else s, .visit cp i :: es) := by
  refine ⟨?_, ?_, hentry⟩
  · split_ifs
    · exact Or.inr rfl
    · exact hs
  · rw [filterMap_cons]
    simp only [CarverEvent.visit?, hvisit, mem_singleton, exists_eq_left]
    split_ifs with hp <;> simp [hp]

/-- **One sector of the lonely image.** -/
theorem lonely_sectorStep {cp i : ℕ} (hpos : 0 < env.sectorSize) (hi : i ∈ env.chunkVisits cp)
    (hend : env.visitEnd (cp, i) ≤ env.partEnd) {s : Option OpenFile}
    (hs : s = none ∨ s = some (env.lonelyFile h)) :
    env.LonelyRun h s ((env.lonely h).sectorStep cp ((env.lonely h).chunkBuffer cp) s i) := by
  rw [lonely_sectorStep_eq hpos hi hend hs]
  by_cases hc : (env.lonely h).visitConstant cp i
  · rw [if_pos hc]
    exact LonelyRun.of_visit hs rfl rfl
  · rw [if_neg hc]
    exact LonelyRun.of_visit hs rfl rfl

/-- **The chunk loop of the lonely image.** -/
theorem lonely_chunkLoop {l : List ℕ} {start : ℕ} (hpos : 0 < env.sectorSize)
    (hl : ∀ cp ∈ l, cp ∈ env.chunkPositions start) {s : Option OpenFile}
    (hs : s = none ∨ s = some (env.lonelyFile h)) :
    env.LonelyRun h s
      (((env.lonely h).chunkLoop l s).inFile, ((env.lonely h).chunkLoop l s).events) := by
  induction l generalizing s with
  | nil => exact LonelyRun.refl hs
  | cons cp l ih =>
    have hchunk : env.LonelyRun h s
        ((env.lonely h).chunkStep cp ((env.lonely h).chunkBuffer cp) s) :=
      LonelyRun.traceFold (fun s i hi hs => lonely_sectorStep hpos hi
        (env.visitEnd_le hpos (hl cp mem_cons_self) hi).1 hs) hs
    cases hok : (env.lonely h).chunkOk cp with
    | false =>
      rw [chunkLoop_bad _ hok]
      exact LonelyRun.refl hs
    | true =>
      cases hc : (env.lonely h).cancel cp with
      | true =>
        rw [chunkLoop_cancel _ hok hc]
        exact hchunk
      | false =>
        rw [chunkLoop_next _ hok hc]
        exact hchunk.trans (ih (fun c hc => hl c (mem_cons_of_mem _ hc)) hchunk.state)

/-- **The scan loop of the lonely image.** -/
theorem lonely_scanLoop (hpos : 0 < env.sectorSize) :
    env.LonelyRun h none ((env.lonely h).scanLoop.inFile, (env.lonely h).scanLoop.events) :=
  lonely_chunkLoop hpos (fun _ hcp => hcp) (Or.inl rfl)

theorem lonely_finalEntry (hle : h ≤ env.partEnd) :
    (env.lonely h).finalEntry (env.lonelyFile h) = ⟨h, env.partEnd - h, env.lonelyHint⟩ := by
  have hend : (env.lonely h).partEnd = env.partEnd := rfl
  have hmax : env.lonelyHint.maxFilesize = env.partEnd + 1 := rfl
  unfold finalEntry
  simp only [lonelyFile, hend, hmax, lt_irrefl, false_and, if_false]
  rw [if_neg (by omega)]

/-- A scan of the lonely image that visits its header hands out the rest of the partition. -/
theorem lonely_entries (hpos : 0 < env.sectorSize) (hcancel : ∀ cp, env.cancel cp = false)
    {p : ℕ × ℕ} (hle : env.visitEnd p ≤ env.partEnd)
    (hp : p ∈ (env.lonely (env.absOffset p.1 p.2)).visits) :
    (env.lonely (env.absOffset p.1 p.2)).entries =
      [⟨env.absOffset p.1 p.2, env.partEnd - env.absOffset p.1 p.2, env.lonelyHint⟩] := by
  have hrun := lonely_scanLoop (h := env.absOffset p.1 p.2) hpos
  have hopen := hrun.opens.mpr (Or.inr ⟨p, by rwa [← visits_eq_scanLoop], rfl⟩)
  have hnot : (env.lonely (env.absOffset p.1 p.2)).scanLoop.cancelledAt = none :=
    (env.lonely _).chunkLoop_not_cancelled (fun cp _ => hcancel cp) none
  have hstart : env.absOffset p.1 p.2 ≤ env.partEnd := (Nat.le_add_right _ _).trans hle
  rw [entries_eq_of_open _ hopen hnot, lonely_finalEntry hstart, hrun.silent, nil_append]

/-- A scan of the lonely image that does not visit its header hands out nothing. -/
theorem lonely_no_entries (hpos : 0 < env.sectorSize)
    (hnot : ∀ p ∈ (env.lonely h).visits, env.absOffset p.1 p.2 ≠ h) :
    (env.lonely h).entries = [] := by
  have hrun := lonely_scanLoop (h := h) hpos
  have hnone : (env.lonely h).scanLoop.inFile = none := by
    refine hrun.state.resolve_right fun hopen => ?_
    rcases hrun.opens.mp hopen with hs | ⟨p, hp, hh⟩
    · cases hs
    · rw [← visits_eq_scanLoop] at hp
      exact hnot p hp hh
  have hsilent := hrun.silent
  unfold entries carverScan
  simp only [hnone, filterMap_append, hsilent]
  split_ifs <;> rfl

/-- A cancelled scan of the lonely image hands out nothing. -/
theorem lonely_cancelled_entries (hpos : 0 < env.sectorSize) {cp : ℕ}
    (hc : (env.lonely h).scanLoop.cancelledAt = some cp) : (env.lonely h).entries = [] := by
  have hsilent := (lonely_scanLoop (h := h) hpos).silent
  unfold entries carverScan
  simp only [hc, filterMap_append, hsilent]
  rfl

end CarverEnv

end RecoveryQt
