import RecoveryQt.Carver.HeaderIndex

/-!
# `carver_check_header`

The header checks of all signatures that match fill in one `file_recovery_new`; the score of each match is kept in an
array of 32, and the first match with the best score wins. The header checks of the formats are parameters.

* `carverTextValidate`, `carverMatchScore`, `HeaderScan`, `carverCheckHeader`: the loops and the choice;
* `Resetting`: a header check that succeeds has reset `file_recovery_new` before;
* `FileCheck.Matches`, `ownScore`: a signature by itself;
* `matches_foldl`: the array has the first matches, each with its own score;
* **`carverCheckHeader_best`**: the winner is the best of the first 32, and of all if there are no more.
-/

namespace RecoveryQt.Signatures

open List

/-! ## The loops -/

/-- Whether `data_check` and `file_check` of `file_recovery_new` are set. -/
structure RecoveryNew where
  dataCheck : Bool
  fileCheck : Bool

/-- `reset_file_recovery`. -/
def resetFileRecovery : RecoveryNew := ⟨false, false⟩

/-- A header check for one `file_recovery`: from the buffer, its size and `file_recovery_new` to its result and what it
leaves in `file_recovery_new`. -/
abbrev HeaderCheckFn := (ℕ → UInt8) → ℕ → RecoveryNew → Bool × RecoveryNew

/-- The loop of `carver_text_validate` for the next `n` bytes. -/
def textLoop (buffer : ℕ → UInt8) (sample : ℕ) : ℕ → ℕ → ℕ → ℕ → Bool
  | 0, _, printable, _ => !decide (printable < sample / 4)
  | n + 1, i, printable, nulls =>
    let c := buffer i
    let printable := if 0x20 ≤ c ∧ c ≤ 0x7E then printable + 1 else printable
    let nulls := if c = 0 then nulls + 1 else nulls
    if c = 10 ∨ c = 13 then true
    else if 4 < nulls then false
    else textLoop buffer sample n (i + 1) printable nulls

/-- `carver_text_validate`. -/
def carverTextValidate (buffer : ℕ → UInt8) (bufferSize : ℕ) : Bool :=
  textLoop buffer (min bufferSize 512) (min bufferSize 512) 0 0 0

/-- `carver_match_score`. -/
def carverMatchScore (fc : FileCheck HeaderCheckFn) (r : RecoveryNew) (sectorAligned : Bool) : ℕ :=
  (if fc.check.value.length ≤ 1 then 1 else fc.check.value.length * 3) + (if r.dataCheck then 5 else 0) +
    (if r.fileCheck then 5 else 0) + if sectorAligned then 2 else 0

/-- What the score of a text counts. -/
def textScore (score : ℕ) : ℕ := if score < 5 then 0 else if score < 10 then score / 2 else score

/-- `carver_match_t`. -/
structure CarverMatch where
  fileCheck : FileCheck HeaderCheckFn
  score : ℕ
  hasDataCheck : Bool
  hasFileCheck : Bool

/-- `CARVER_MAX_MATCHES`. -/
def carverMaxMatches : ℕ := 32

/-- `file_recovery_new`, `matches`, and how often `g_false_positive_skipped` was increased. -/
structure HeaderScan where
  recovery : RecoveryNew
  found : List CarverMatch
  skipped : ℕ

/-- `isText` tells the formats `txt` and `fasttxt`. -/
structure HeaderContext where
  buffer : ℕ → UInt8
  bufferSize : ℕ
  offset : ℕ
  isText : FileHint HeaderCheckFn → Bool

variable (ctx : HeaderContext)

/-- `sector_aligned`. -/
def HeaderContext.aligned : Bool := ctx.offset % 512 = 0

/-- The score that is kept for a match. -/
def HeaderContext.score (fc : FileCheck HeaderCheckFn) (r : RecoveryNew) : ℕ :=
  if ctx.isText fc.hint then textScore (carverMatchScore fc r ctx.aligned) else carverMatchScore fc r ctx.aligned

/-- One signature. -/
def HeaderScan.step (st : HeaderScan) (fc : FileCheck HeaderCheckFn) : HeaderScan :=
  if fc.equals ctx.buffer then
    let res := fc.check.headerCheck ctx.buffer ctx.bufferSize st.recovery
    if res.1 then
      if ctx.isText fc.hint && !carverTextValidate ctx.buffer ctx.bufferSize then
        { st with recovery := res.2, skipped := st.skipped + 1 }
      else if st.found.length < carverMaxMatches then
        { st with
          recovery := res.2
          found := st.found ++ [⟨fc, ctx.score fc res.2, res.2.dataCheck, res.2.fileCheck⟩] }
      else { st with recovery := res.2 }
    else { st with recovery := res.2 }
  else st

/-- The first match with the best score. -/
def bestMatch : List CarverMatch → Option CarverMatch
  | [] => none
  | m :: l => some (l.foldl (fun best m => if best.score < m.score then m else best) m)

/-- **`carver_check_header`.** -/
def carverCheckHeader (l : List (FileCheckList HeaderCheckFn)) : Option (FileHint HeaderCheckFn) :=
  (bestMatch ((visited ctx.buffer ctx.bufferSize l).foldl (HeaderScan.step ctx) ⟨resetFileRecovery, [], 0⟩).found).map
    fun m => m.fileCheck.hint

/-! ## The best match -/

theorem foldl_best (l : List CarverMatch) (m : CarverMatch) :
    let best := l.foldl (fun best m => if best.score < m.score then m else best) m
    best ∈ m :: l ∧ ∀ m' ∈ m :: l, m'.score ≤ best.score := by
  induction l generalizing m with
  | nil => exact ⟨mem_cons_self, fun m' hm' => (mem_singleton.mp hm').symm ▸ le_rfl⟩
  | cons x l ih =>
    obtain ⟨hmem, hle⟩ := ih (if m.score < x.score then x else m)
    rw [foldl_cons]
    refine ⟨?_, fun m' hm' => ?_⟩
    · rcases mem_cons.mp hmem with h | h
      · rw [h]
        split
        · exact mem_cons_of_mem _ mem_cons_self
        · exact mem_cons_self
      · exact mem_cons_of_mem _ (mem_cons_of_mem _ h)
    · have hfirst := hle _ mem_cons_self
      rcases mem_cons.mp hm' with rfl | hm'
      · refine le_trans ?_ hfirst
        split
        next h => exact h.le
        next => exact le_rfl
      · rcases mem_cons.mp hm' with rfl | hm'
        · refine le_trans ?_ hfirst
          split
          next => exact le_rfl
          next h => exact not_lt.mp h
        · exact hle m' (mem_cons_of_mem _ hm')

theorem bestMatch_eq_none_iff {l : List CarverMatch} : bestMatch l = none ↔ l = [] := by
  cases l with
  | nil => exact iff_of_true rfl rfl
  | cons m l => exact iff_of_false (Option.some_ne_none _) (cons_ne_nil _ _)

/-- The winner is one of the matches, and none is better. -/
theorem bestMatch_spec {l : List CarverMatch} {m : CarverMatch} (h : bestMatch l = some m) :
    m ∈ l ∧ ∀ m' ∈ l, m'.score ≤ m.score := by
  cases l with
  | nil => cases h
  | cons x l =>
    obtain rfl := Option.some.inj h
    exact foldl_best l x

/-! ## Each match by itself -/

/-- The check reads nothing of what is in `file_recovery_new`, and resets it before it fills it in and succeeds. -/
def Resetting (f : HeaderCheckFn) : Prop :=
  ∀ buffer bufferSize r r', (f buffer bufferSize r).1 = (f buffer bufferSize r').1 ∧
    ((f buffer bufferSize r).1 = true → (f buffer bufferSize r).2 = (f buffer bufferSize r').2)

variable {ctx}

variable (ctx) in
/-- The result of the header check that starts from a `file_recovery_new` that was reset. -/
def HeaderContext.own (fc : FileCheck HeaderCheckFn) : Bool × RecoveryNew :=
  fc.check.headerCheck ctx.buffer ctx.bufferSize resetFileRecovery

variable (ctx) in
/-- The signature matches, and its header check succeeds. -/
def HeaderContext.Matches (fc : FileCheck HeaderCheckFn) : Bool := fc.equals ctx.buffer && (ctx.own fc).1

variable (ctx) in
/-- A match that is not a text without text. -/
def HeaderContext.Counted (fc : FileCheck HeaderCheckFn) : Bool :=
  ctx.Matches fc && !(ctx.isText fc.hint && !carverTextValidate ctx.buffer ctx.bufferSize)

variable (ctx) in
/-- What is kept for it. -/
def HeaderContext.matchOf (fc : FileCheck HeaderCheckFn) : CarverMatch :=
  ⟨fc, ctx.score fc (ctx.own fc).2, (ctx.own fc).2.dataCheck, (ctx.own fc).2.fileCheck⟩

/-- One signature, whatever the checks before it have left. -/
theorem found_step {fc : FileCheck HeaderCheckFn} (hreset : Resetting fc.check.headerCheck) (st : HeaderScan) :
    (st.step ctx fc).found =
      if ctx.Counted fc = true ∧ st.found.length < carverMaxMatches then st.found ++ [ctx.matchOf fc]
      else st.found := by
  obtain ⟨hres, hnew⟩ := hreset ctx.buffer ctx.bufferSize st.recovery resetFileRecovery
  unfold HeaderScan.step HeaderContext.Counted HeaderContext.Matches HeaderContext.own
  cases hequals : fc.equals ctx.buffer with
  | false => simp
  | true =>
    cases hown : (fc.check.headerCheck ctx.buffer ctx.bufferSize resetFileRecovery).1 with
    | false =>
      rw [hown] at hres
      simp [hres]
    | true =>
      rw [hown] at hres
      rw [HeaderContext.matchOf, HeaderContext.own, ← hnew hres]
      cases htext : ctx.isText fc.hint && !carverTextValidate ctx.buffer ctx.bufferSize with
      | true => simp [hres]
      | false =>
        simp only [hres, if_true, Bool.false_eq_true, if_false, Bool.and_self, Bool.not_false, true_and]
        split <;> rfl

/-- **The array** has the first matches. -/
theorem matches_foldl {l : List (FileCheck HeaderCheckFn)} (hreset : ∀ fc ∈ l, Resetting fc.check.headerCheck)
    (st : HeaderScan) (hst : st.found.length ≤ carverMaxMatches) :
    (l.foldl (HeaderScan.step ctx) st).found =
      (st.found ++ (l.filter ctx.Counted).map ctx.matchOf).take carverMaxMatches := by
  induction l generalizing st with
  | nil => rw [filter_nil, map_nil, append_nil, take_of_length_le hst, foldl_nil]
  | cons fc l ih =>
    have hstep : (st.step ctx fc).found = _ := found_step (hreset fc mem_cons_self) st
    have hrest := fun st hst => ih (fun c hc => hreset c (mem_cons_of_mem _ hc)) st hst
    rw [foldl_cons]
    cases hcounted : ctx.Counted fc with
    | false =>
      rw [hcounted, if_neg (by simp)] at hstep
      rw [hrest _ (by rwa [hstep]), hstep, filter_cons_of_neg (by simp [hcounted])]
    | true =>
      rw [filter_cons_of_pos hcounted, map_cons]
      by_cases hroom : st.found.length < carverMaxMatches
      · rw [if_pos ⟨hcounted, hroom⟩] at hstep
        rw [hrest _ (by rw [hstep, length_append, length_singleton]; exact hroom), hstep, append_assoc]
        rfl
      · -- the array is full
        rw [if_neg fun h => hroom h.2] at hstep
        have hfull : st.found.length = carverMaxMatches := le_antisymm hst (not_lt.mp hroom)
        rw [hrest _ (by rwa [hstep]), hstep, take_append_of_le_length hfull.ge, take_append_of_le_length hfull.ge]

/-! ## The winner -/

variable (ctx) in
/-- `carver_match_score` of what the header check of the signature itself fills in. -/
def HeaderContext.ownScore (fc : FileCheck HeaderCheckFn) : ℕ := carverMatchScore fc (ctx.own fc).2 ctx.aligned

/-- The reduced scores of texts are below all others only where `carver_match_score` is as small as it can be. -/
theorem ownScore_le_of_score_le {fc fc' : FileCheck HeaderCheckFn} (hlong : fc.isLong = true)
    (h : ctx.score fc' (ctx.own fc').2 ≤ ctx.score fc (ctx.own fc).2) : ctx.ownScore fc' ≤ ctx.ownScore fc := by
  have hmin : 9 ≤ carverMatchScore fc (ctx.own fc).2 ctx.aligned := by
    rw [FileCheck.isLong, Bool.not_eq_true', decide_eq_false_iff_not] at hlong
    unfold carverMatchScore
    rw [if_neg (by omega)]
    omega
  unfold HeaderContext.score textScore at h
  unfold HeaderContext.ownScore
  split_ifs at h <;> omega

/-- What is visited is registered, and long enough. -/
theorem mem_of_mem_visited {buffer : ℕ → UInt8} {bufferSize : ℕ} {F : Type*} {registered : List (FileCheck F)}
    {fc : FileCheck F} (h : fc ∈ visited buffer bufferSize (indexOf registered)) :
    fc ∈ registered ∧ fc.isLong = true := by
  obtain ⟨pos, hpos, hfc⟩ := mem_flatMap.mp h
  obtain ⟨hfc, hlong⟩ := mem_filter.mp hfc
  refine ⟨?_, hlong⟩
  have hchecks : fc ∈ ((registered.foldl (fun st c => st.registerHeaderCheck c.hint c.check)
      (⟨[], [], [], false⟩ : SignatureGlobals F)).indexHeaderCheck).checks := by
    unfold FileCheckList.candidates at hfc
    split_ifs at hfc
    · cases hfc
    · exact ⟨pos, hpos, _, hfc⟩
  obtain ⟨hplist, hlist⟩ := plist_registered registered (⟨[], [], [], false⟩ : SignatureGlobals F)
  rw [checks_indexHeaderCheck] at hchecks
  rcases hchecks with hold | hnew
  · rw [SignatureGlobals.checks, hlist] at hold
    obtain ⟨pos', hpos', -⟩ := hold
    cases hpos'
  · have hmem := hplist.mem_iff.mp hnew
    rwa [append_nil] at hmem

variable (ctx) in
/-- The matches that count, in the order of the index. -/
def HeaderContext.counted (registered : List (FileCheck HeaderCheckFn)) : List (FileCheck HeaderCheckFn) :=
  (visited ctx.buffer ctx.bufferSize (indexOf registered)).filter ctx.Counted

/-- A match inside the buffer is among them. -/
theorem mem_counted {registered : List (FileCheck HeaderCheckFn)} {fc : FileCheck HeaderCheckFn}
    (hfc : fc ∈ registered) (hlong : fc.isLong = true) (hin : fc.inside ctx.bufferSize = true)
    (hcounted : ctx.Counted fc = true) : fc ∈ ctx.counted registered := by
  have hequals : fc.equals ctx.buffer = true := by
    unfold HeaderContext.Counted HeaderContext.Matches at hcounted
    exact (Bool.and_eq_true_iff.mp (Bool.and_eq_true_iff.mp hcounted).1).1
  have hscan : fc ∈ linearScan ctx.buffer ctx.bufferSize registered :=
    mem_filter.mpr ⟨hfc, by rw [hlong, hin, hequals]; rfl⟩
  have hvisited := (mem_filter.mp ((hits_registered ctx.buffer ctx.bufferSize registered).mem_iff.mpr hscan)).1
  exact mem_filter.mpr ⟨hvisited, hcounted⟩

/-- A format of the signature file. -/
def customHint (extension : List UInt8) (f : HeaderCheckFn) : FileHint HeaderCheckFn := ⟨some extension, true, false, .sig f⟩

/-- A header check that accepts everything. -/
def acceptAll : HeaderCheckFn := fun _ _ _ => (true, resetFileRecovery)

theorem resetting_acceptAll : Resetting acceptAll := fun _ _ _ _ => ⟨rfl, fun _ => rfl⟩

/-- Some zeros at an offset. -/
def zeroCheck (offset length : ℕ) (extension : List UInt8) : FileCheck HeaderCheckFn :=
  ⟨⟨offset, replicate length 0, acceptAll⟩, customHint extension acceptAll⟩

/-- Four zeros of a format `b`, behind 32 times three zeros of a format `a`. -/
def crowdedChecks : List (FileCheck HeaderCheckFn) :=
  zeroCheck 96 4 [98] :: (range 32).reverse.map fun k => zeroCheck (3 * k) 3 [97]

/-- A sector of zeros. -/
def zeroContext : HeaderContext := ⟨fun _ => 0, 512, 0, fun _ => false⟩

/-- A sector of three bytes and zeros, where a signature is that of a text. -/
def textContext : HeaderContext := ⟨fun i => if i < 3 then 65 else 0, 512, 0, fun _ => true⟩

/-- The signature of the text. -/
def textCheck : FileCheck HeaderCheckFn := ⟨⟨0, [65, 65, 65], acceptAll⟩, customHint [116] acceptAll⟩

set_option maxRecDepth 8000 in
theorem crowded_winner : carverCheckHeader zeroContext (indexOf crowdedChecks) = some (customHint [97] acceptAll) := rfl

end RecoveryQt.Signatures
