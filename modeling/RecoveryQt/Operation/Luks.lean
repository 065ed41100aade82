import RecoveryQt.Operation.Context
import RecoveryQt.Session.Loaded

/-!
# Sessions on decrypted volumes

`session_save` writes the offset of a LUKS container only with `SESSION_FLAG_LUKS_DECRYPTED`, which none
of its callers gives.

* `SessionSave.CarriesLuks`: the file tells where the container is, if there is one;
* `carriesLuks_iff`: a file does so exactly if its disk is not decrypted.
-/

namespace RecoveryQt

open List

/-- `luksDecrypted` as `loadSession` fills it. -/
def SessionHeader.luksDecrypted (h : SessionHeader) : Prop := h.flags &&& 8 ≠ 0

/-- The file is loaded, whatever tree was saved and when, and it reports the container of a decrypted
disk, and none of a plain one. -/
def SessionSave.CarriesLuks (e : SessionSave) : Prop :=
  ∀ (t : ScanTree) (now : UInt64), ∃ info, sessionLoad (sessionSave (e.args now) t) = some info ∧
    (e.ctx.disk.luksContainer = none → ¬ info.header.luksDecrypted) ∧
    ∀ offset, e.ctx.disk.luksContainer = some offset →
      info.header.luksDecrypted ∧ info.header.luksOffset = offset

/-- **What the literal flags say.** -/
theorem SessionSave.carriesLuks_of_flags {e : SessionSave}
    (hflags : e.flags = 0 ∨ e.flags = sessionFlagCompleted) :
    e.CarriesLuks ↔ e.ctx.disk.luksContainer = none := by
  have hplain : e.flags &&& 8 = 0 := by
    obtain h | h := hflags <;> rw [h] <;> rfl
  have hload : ∀ t now, ∃ info, sessionLoad (sessionSave (e.args now) t) = some info ∧
      ¬ info.header.luksDecrypted := by
    intro t now
    refine ⟨_, sessionLoad_header (e.args now) (writeNodes [] t.top ++ sessionEnd), ?_⟩
    show ¬ e.flags &&& 8 ≠ 0
    exact not_not.mpr hplain
  constructor
  · intro h
    obtain ⟨info, hinfo, hnot⟩ := hload treeNew 0
    obtain ⟨info', hinfo', -, hsome⟩ := h treeNew 0
    obtain rfl : info = info' := Option.some.inj (hinfo.symm.trans hinfo')
    cases hc : e.ctx.disk.luksContainer with
    | none => rfl
    | some offset => exact absurd (hsome offset hc).1 hnot
  · intro hnone t now
    obtain ⟨info, hinfo, hnot⟩ := hload t now
    refine ⟨info, hinfo, fun _ => hnot, fun offset hoffset => ?_⟩
    rw [hnone] at hoffset
    cases hoffset

/-- A file tells where the LUKS container is exactly if the disk of its session is not decrypted. -/
theorem carriesLuks_iff (as : List OpAction) {e : SessionSave} (he : e ∈ (runOps as).saves) :
    e.CarriesLuks ↔ e.ctx.disk.luksContainer = none :=
  SessionSave.carriesLuks_of_flags ((sound_runOps as).flags e he)

/-! ## A carve of a plain and of a decrypted disk -/

/-- A string. -/
def sessionString (b : UInt8) (h : b ≠ 0) : CString := ⟨[b], by simpa using h⟩

/-- The session file `s`. -/
def sessionFile : CString := sessionString 115 (by decide)

/-- The extension filter `j`. -/
def jpegFilter : CString := sessionString 106 (by decide)

/-- The disk `d`, of the model `m`. -/
def smallDisk (luksContainer : Option UInt64) : SessionDisk :=
  ⟨sessionString 100 (by decide), sessionString 109 (by decide), 512, 8388608, luksContainer⟩

/-- A carve of a partition at the start of the disk. -/
def carveRequest (luksContainer : Option UInt64) : SessionRequest where
  filepath := sessionFile
  tree := 0
  disk := smallDisk luksContainer
  part := ⟨0, 8388608, 0, 0⟩
  extFilter := jpegFilter

/-- The carve reports its first chunk when a save is due, and ends. -/
def carveRun (luksContainer : Option UInt64) : List OpAction :=
  [.start .carve (some (carveRequest luksContainer)), .install .carver, .report .carver 524288 0 true,
    .finish .carver false, .deliver none, .leave]

/-- The save at the first chunk. -/
def firstSave (luksContainer : Option UInt64) : SessionSave :=
  let ctx := (carveRequest luksContainer).saveCtx sessionOpCarve
  ⟨ctx, 524288, 0, 0, some (some ctx)⟩

/-- The save of `endSession`. -/
def endSave (luksContainer : Option UInt64) : SessionSave :=
  let ctx := (carveRequest luksContainer).saveCtx sessionOpCarve
  ⟨ctx, 0, 0, sessionFlagCompleted, some (some ctx)⟩

theorem saves_carveRun (luksContainer : Option UInt64) :
    (runOps (carveRun luksContainer)).saves = [firstSave luksContainer, endSave luksContainer] := rfl

theorem plain_carriesLuks : (endSave none).CarriesLuks :=
  (carriesLuks_iff (carveRun none) (by rw [saves_carveRun]; exact mem_of_getLast? rfl)).mpr rfl

theorem decrypted_not_carriesLuks : endSave (some 1048576) ∈ (runOps (carveRun (some 1048576))).saves ∧
    ¬ (endSave (some 1048576)).CarriesLuks := by
  refine ⟨by rw [saves_carveRun]; exact mem_of_getLast? rfl, ?_⟩
  rw [SessionSave.carriesLuks_of_flags (.inr rfl)]
  nofun

end RecoveryQt
