import RecoveryQt.Carver.Signatures

/-!
# The filter of a carver run, after other runs

* `Settled`, `settled_runHistory`: what every call keeps;
* `Spares`, **`carverChecks_iff`**: when a carver run has the signatures of a process in which it is the first;
* **`spares_of_quiet`**: calls that leave no signatures;
* `ntfsScan_adds`: a scan of an NTFS volume before.
-/

namespace RecoveryQt.Signatures

open List

variable {F : Type*}

namespace SignatureGlobals

/-- The state after some calls. -/
def runHistory (st : SignatureGlobals F) (history : List SignatureCall) : SignatureGlobals F :=
  history.foldl SignatureCall.run st

/-- The signatures that are active in a carver run. -/
def carverChecks (st : SignatureGlobals F) (extFilter : Option (List UInt8)) (file : SigFile) : Set (FileCheck F) :=
  (st.carverInit extFilter file).checks

/-- Nothing is pending, and the formats are the given ones. -/
structure Settled (hints : List (FileHint F)) (st : SignatureGlobals F) : Prop where
  pending : st.fileCheckPlist = []
  hints : st.arrayFileEnable.map FileEnable.hint = hints

/-! ## What the calls keep -/

/-- **What is active after `init_file_stats`**. -/
theorem checks_initFileStats {st : SignatureGlobals F} (h : st.fileCheckPlist = []) (file : SigFile) :
    (st.initFileStats file).checks = st.checks ∪
      (fixedOf st.arrayFileEnable ∪ if st.buffer then ∅ else customOf st.arrayFileEnable file) := by
  have hregisters := registers_table file st.arrayFileEnable st
  have hnone : st.pending = ∅ := by simp [pending, h]
  rw [initFileStats, checks_indexHeaderCheck, checks, hregisters.list, ← checks]
  exact congrArg (st.checks ∪ ·) (hregisters.pending.trans (by rw [hnone, Set.empty_union]))

theorem table_initFileStats (st : SignatureGlobals F) (file : SigFile) :
    (st.initFileStats file).arrayFileEnable = st.arrayFileEnable :=
  (registers_table file st.arrayFileEnable st).table

theorem settled_initFileStats {hints : List (FileHint F)} {st : SignatureGlobals F} (file : SigFile)
    (h : st.arrayFileEnable.map FileEnable.hint = hints) : (st.initFileStats file).Settled hints :=
  ⟨rfl, by rw [table_initFileStats, h]⟩

end SignatureGlobals

theorem hints_enableDefaults (table : List (FileEnable F)) :
    (enableDefaults table).map FileEnable.hint = table.map FileEnable.hint := by
  simp [enableDefaults]

/-- The flags are set by the formats alone. -/
theorem enableDefaults_eq (table : List (FileEnable F)) :
    enableDefaults table = (table.map FileEnable.hint).map fun hint => ⟨hint, hint.enableByDefault⟩ := by
  simp [enableDefaults]

theorem hints_filterTokens (tokens : List (List UInt8)) (table : List (FileEnable F)) :
    (tokens.foldl (fun table token => table.map fun fe =>
      if fe.hint.extension = some token then { fe with enable := true } else fe) table).map FileEnable.hint =
        table.map FileEnable.hint := by
  induction tokens generalizing table with
  | nil => rfl
  | cons token tokens ih =>
    rw [foldl_cons, ih, map_map]
    refine map_congr_left fun fe _ => ?_
    rw [Function.comp_apply]
    split_ifs <;> rfl

theorem hints_carverEnable (extFilter : Option (List UInt8)) (table : List (FileEnable F)) :
    (carverEnable extFilter table).map FileEnable.hint = table.map FileEnable.hint := by
  have hcarved : ((enableDefaults table).map fun fe =>
      if fe.hint.neverCarved then { fe with enable := false } else fe).map FileEnable.hint =
        table.map FileEnable.hint := by
    rw [map_map, ← hints_enableDefaults table]
    refine map_congr_left fun fe _ => ?_
    rw [Function.comp_apply]
    split_ifs <;> rfl
  cases extFilter with
  | none => exact hcarved
  | some filter =>
    rw [carverEnable]
    split_ifs
    · exact hcarved
    · rw [hints_filterTokens, ← hcarved]
      simp

/-- **The flags of an earlier call are overwritten**. -/
theorem carverEnable_congr {extFilter : Option (List UInt8)} {table table' : List (FileEnable F)}
    (h : table.map FileEnable.hint = table'.map FileEnable.hint) :
    carverEnable extFilter table = carverEnable extFilter table' := by
  have hdefaults : enableDefaults table = enableDefaults table' := by
    rw [enableDefaults_eq, h, ← enableDefaults_eq]
  simp only [carverEnable, hdefaults]

namespace SignatureGlobals

theorem settled_carverRun {hints : List (FileHint F)} {st : SignatureGlobals F} (h : st.Settled hints)
    (extFilter : Option (List UInt8)) (file : SigFile) : (st.carverRun extFilter file).Settled hints := by
  have hinit : (st.carverInit extFilter file).Settled hints :=
    settled_initFileStats file ((hints_carverEnable extFilter st.arrayFileEnable).trans h.hints)
  exact ⟨hinit.pending, hinit.hints⟩

theorem settled_loadDefaults {hints : List (FileHint F)} {st : SignatureGlobals F} (h : st.Settled hints)
    (file : SigFile) : (st.loadDefaults file).Settled hints := by
  rw [loadDefaults]
  split_ifs
  · exact settled_initFileStats file ((hints_enableDefaults st.arrayFileEnable).trans h.hints)
  · exact h

theorem Settled.ite {hints : List (FileHint F)} {st st' : SignatureGlobals F} {p : Prop} [Decidable p]
    (h : st.Settled hints) (h' : st'.Settled hints) : (if p then st else st').Settled hints := by
  split_ifs
  exacts [h, h']

theorem settled_scannerRun {hints : List (FileHint F)} {st : SignatureGlobals F} (h : st.Settled hints)
    (run : ScannerRun) (file : SigFile) : (st.scannerRun run file).Settled hints := by
  have hmft : (if run.isNtfs ∧ run.ntfsOpen then st.loadDefaults file else st).Settled hints :=
    (settled_loadDefaults h file).ite h
  have hinodes := (settled_loadDefaults hmft file).ite hmft (p := run.isExt ∧ run.extOpen)
  unfold scannerRun
  exact ((settled_carverRun hinodes none file).ite hinodes).ite h

theorem settled_startGlobals (hints : List (FileHint F)) : (startGlobals hints).Settled hints :=
  ⟨rfl, by simp [startGlobals, Function.comp_def]⟩

/-- **Every run of calls keeps it**. -/
theorem settled_runHistory {hints : List (FileHint F)} (history : List SignatureCall) {st : SignatureGlobals F}
    (h : st.Settled hints) : (st.runHistory history).Settled hints := by
  induction history generalizing st with
  | nil => exact h
  | cons call history ih =>
    refine ih ?_
    cases call with
    | scannerRun run file => exact settled_scannerRun h run file
    | carverRun extFilter file => exact settled_carverRun h extFilter file

/-! ## Independence -/

/-- What is active is registered by this run itself, and the signature file was not read before unless what it
gives is active. -/
structure Spares (st : SignatureGlobals F) (extFilter : Option (List UInt8)) (file : SigFile) : Prop where
  left : st.checks ⊆ fixedOf (carverEnable extFilter st.arrayFileEnable) ∪
    customOf (carverEnable extFilter st.arrayFileEnable) file
  read : st.buffer = true → customOf (carverEnable extFilter st.arrayFileEnable) file ⊆
    st.checks ∪ fixedOf (carverEnable extFilter st.arrayFileEnable)

theorem carverChecks_eq {hints : List (FileHint F)} {st : SignatureGlobals F} (h : st.Settled hints)
    (extFilter : Option (List UInt8)) (file : SigFile) :
    st.carverChecks extFilter file = st.checks ∪ (fixedOf (carverEnable extFilter st.arrayFileEnable) ∪
      if st.buffer then ∅ else customOf (carverEnable extFilter st.arrayFileEnable) file) :=
  @checks_initFileStats _ { st with arrayFileEnable := carverEnable extFilter st.arrayFileEnable } h.pending file

theorem checks_startGlobals (hints : List (FileHint F)) : (startGlobals hints).checks = ∅ := by
  ext c
  simp [checks, checksIn, startGlobals]

/-- The formats of a state are flagged as those of a process that starts. -/
theorem carverChecks_startGlobals {hints : List (FileHint F)} {st : SignatureGlobals F} (h : st.Settled hints)
    (extFilter : Option (List UInt8)) (file : SigFile) :
    (startGlobals hints).carverChecks extFilter file = fixedOf (carverEnable extFilter st.arrayFileEnable) ∪
      customOf (carverEnable extFilter st.arrayFileEnable) file := by
  rw [carverChecks_eq (settled_startGlobals hints), checks_startGlobals, Set.empty_union,
    carverEnable_congr ((settled_startGlobals hints).hints.trans h.hints.symm)]
  rfl

/-- **When the signatures of a carver run do not depend on the calls before it**. -/
theorem carverChecks_iff (hints : List (FileHint F)) (history : List SignatureCall)
    (extFilter : Option (List UInt8)) (file : SigFile) :
    ((startGlobals hints).runHistory history).carverChecks extFilter file =
        (startGlobals hints).carverChecks extFilter file ↔
      ((startGlobals hints).runHistory history).Spares extFilter file := by
  have h := settled_runHistory history (settled_startGlobals hints)
  rw [carverChecks_startGlobals h, carverChecks_eq h]
  generalize (startGlobals hints).runHistory history = st
  constructor
  · intro heq
    refine ⟨fun c hc => heq ▸ Or.inl hc, fun hbuffer c hc => ?_⟩
    rw [hbuffer, if_pos rfl, Set.union_empty] at heq
    exact heq ▸ Or.inr hc
  · rintro ⟨hleft, hread⟩
    cases hbuffer : st.buffer with
    | false =>
      rw [if_neg Bool.false_ne_true]
      exact Set.union_eq_self_of_subset_left hleft
    | true =>
      rw [if_pos rfl, Set.union_empty]
      exact Set.Subset.antisymm (Set.union_subset hleft Set.subset_union_left)
        (Set.union_subset Set.subset_union_right (hread hbuffer))

end SignatureGlobals

/-! ## Calls that leave nothing -/

/-- A scan leaves signatures: those of an NTFS volume, and those of an ext volume that the carver does not
follow. -/
def ScannerRun.leaves (run : ScannerRun) : Prop :=
  run.walked ∧ (run.isNtfs ∧ run.ntfsOpen ∨ run.isExt ∧ run.extOpen) ∧ ¬ (run.deep ∧ ¬ run.isFat ∧ ¬ run.isNtfs)

/-- A call that leaves no signatures and comes across no signature file. -/
def SignatureCall.Quiet : SignatureCall → Prop
  | .scannerRun run file => ¬ run.leaves ∧ file.opened = false
  | .carverRun _ file => file.opened = false

/-- The file is read when one of the enabled formats reads it. -/
theorem buffer_table (file : SigFile) (table : List (FileEnable F)) (st : SignatureGlobals F) :
    (table.foldl (fun st fe => if fe.enable then fe.hint.registerHeaderCheck file st else st) st).buffer =
      (st.buffer || table.any FileEnable.readsSigFile && file.opened) := by
  induction table generalizing st with
  | nil => simp
  | cons fe table ih =>
    rw [foldl_cons, ih, any_cons, FileEnable.readsSigFile]
    cases henable : fe.enable with
    | false => simp
    | true =>
      rw [if_pos rfl, FileHint.buffer_registerHeaderCheck]
      cases fe.hint.register <;> cases st.buffer <;> cases file.opened <;> simp

namespace SignatureGlobals

theorem buffer_initFileStats {file : SigFile} (h : file.opened = false) (st : SignatureGlobals F) :
    (st.initFileStats file).buffer = st.buffer := by
  have hbuffer := buffer_table file st.arrayFileEnable st
  rw [h, Bool.and_false, Bool.or_false] at hbuffer
  exact hbuffer

/-- As when the process starts. -/
structure Idle (st : SignatureGlobals F) : Prop where
  list : st.fileCheckList = []
  buffer : st.buffer = false

theorem buffer_loadDefaults {file : SigFile} (h : file.opened = false) (st : SignatureGlobals F) :
    (st.loadDefaults file).buffer = st.buffer := by
  rw [loadDefaults]
  split_ifs
  · exact buffer_initFileStats h _
  · rfl

theorem idle_carverRun {st : SignatureGlobals F} {file : SigFile} (hfile : file.opened = false)
    (h : st.buffer = false) (extFilter : Option (List UInt8)) : (st.carverRun extFilter file).Idle :=
  ⟨rfl, (buffer_initFileStats hfile _).trans h⟩

theorem idle_scannerRun {st : SignatureGlobals F} {run : ScannerRun} {file : SigFile} (hrun : ¬ run.leaves)
    (hfile : file.opened = false) (h : st.Idle) : (st.scannerRun run file).Idle := by
  rw [scannerRun]
  by_cases hwalked : run.walked = true
  · rw [if_pos hwalked]
    by_cases hcarve : run.deep ∧ ¬ run.isFat ∧ ¬ run.isNtfs
    · -- the carver frees what the inode scan has registered
      dsimp only
      rw [if_pos hcarve]
      refine idle_carverRun hfile ?_ none
      split_ifs <;> simp [buffer_loadDefaults hfile, h.buffer]
    · have hnone : ¬ (run.isNtfs ∧ run.ntfsOpen) ∧ ¬ (run.isExt ∧ run.extOpen) :=
        not_or.mp fun hopen => hrun ⟨hwalked, hopen, hcarve⟩
      simpa only [if_neg hcarve, if_neg hnone.1, if_neg hnone.2] using h
  · rw [if_neg hwalked]
    exact h

/-- **A run of quiet calls** leaves the globals as they are when the process starts. -/
theorem idle_runHistory {history : List SignatureCall} (hquiet : ∀ call ∈ history, call.Quiet)
    {st : SignatureGlobals F} (h : st.Idle) : (st.runHistory history).Idle := by
  induction history generalizing st with
  | nil => exact h
  | cons call history ih =>
    refine ih (fun call hcall => hquiet call (mem_cons_of_mem _ hcall)) ?_
    have hcall := hquiet call mem_cons_self
    cases call with
    | scannerRun run file => exact idle_scannerRun hcall.1 hcall.2 h
    | carverRun extFilter file => exact idle_carverRun hcall h.buffer extFilter

/-- **Quiet calls spare every carver run** behind them. -/
theorem spares_of_quiet (hints : List (FileHint F)) {history : List SignatureCall}
    (hquiet : ∀ call ∈ history, call.Quiet) (extFilter : Option (List UInt8)) (file : SigFile) :
    ((startGlobals hints).runHistory history).Spares extFilter file := by
  have hidle := idle_runHistory hquiet (⟨rfl, rfl⟩ : (startGlobals hints).Idle)
  refine ⟨fun c hc => ?_, fun hbuffer => ?_⟩
  · rw [checks, hidle.list] at hc
    obtain ⟨pos, hpos, _⟩ := hc
    cases hpos
  · rw [hidle.buffer] at hbuffer
    cases hbuffer

end SignatureGlobals

/-! ## A scan of an NTFS volume -/

/-- The format 7z. -/
def hint7z : FileHint Unit where
  extension := some [55, 122]
  enableByDefault := true
  neverCarved := false
  register := .fixed [⟨0, [55, 122, 188, 175, 39, 28], ()⟩]

/-- The format ace. -/
def hintAce : FileHint Unit where
  extension := some [97, 99, 101]
  enableByDefault := true
  neverCarved := false
  register := .fixed [⟨7, [42, 42, 65, 67, 69, 42, 42], ()⟩]

/-- A fast scan of an NTFS volume. -/
def ntfsScan : ScannerRun where
  walked := true
  isFat := false
  isNtfs := true
  isExt := false
  ntfsOpen := true
  extOpen := false
  deep := false

theorem carverEnable_7z : carverEnable (some [55, 122]) (startGlobals [hint7z, hintAce]).arrayFileEnable =
    [⟨hint7z, true⟩, ⟨hintAce, false⟩] := by
  rfl

/-- A carver run for 7z files also has the signature of ace files when the volume was scanned before. -/
theorem ntfsScan_adds :
    ((startGlobals [hint7z, hintAce]).runHistory [.scannerRun ntfsScan .missing]).carverChecks
        (some [55, 122]) .missing ≠
      (startGlobals [hint7z, hintAce]).carverChecks (some [55, 122]) .missing := by
  have hace : (⟨⟨7, [42, 42, 65, 67, 69, 42, 42], ()⟩, hintAce⟩ : FileCheck Unit) ∈
      ((startGlobals [hint7z, hintAce]).runHistory [.scannerRun ntfsScan .missing]).carverChecks
        (some [55, 122]) .missing := by
    rw [SignatureGlobals.carverChecks_eq (SignatureGlobals.settled_runHistory _
      (SignatureGlobals.settled_startGlobals _))]
    left
    change _ ∈ ({ startGlobals [hint7z, hintAce] with
      arrayFileEnable := [⟨hint7z, true⟩, ⟨hintAce, true⟩] }.initFileStats .missing).checks
    rw [SignatureGlobals.checks_initFileStats rfl]
    exact Or.inr (Or.inl ⟨⟨hintAce, true⟩, mem_cons_of_mem _ mem_cons_self, rfl, _, mem_cons_self, rfl⟩)
  have hnone : (⟨⟨7, [42, 42, 65, 67, 69, 42, 42], ()⟩, hintAce⟩ : FileCheck Unit) ∉
      (startGlobals [hint7z, hintAce]).carverChecks (some [55, 122]) .missing := by
    rw [SignatureGlobals.carverChecks_startGlobals (SignatureGlobals.settled_startGlobals _), carverEnable_7z]
    rintro (⟨fe, hfe, henable, hc⟩ | hc)
    · simp only [mem_cons, not_mem_nil, or_false] at hfe
      rcases hfe with rfl | rfl
      · obtain ⟨check, hcheck, heq⟩ := hc
        rw [mem_singleton.mp hcheck] at heq
        exact absurd (congrArg (fun c => c.check.offset) heq) (by decide)
      · cases henable
    · exact hc
  exact fun heq => hnone (heq ▸ hace)

end RecoveryQt.Signatures
