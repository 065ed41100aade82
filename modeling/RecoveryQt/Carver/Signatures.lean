import Mathlib.Data.Set.Lattice

/-!
# The signatures of a carver run

* `FileHint`, `FileCheck`, `SignatureGlobals`: the formats, the registered checks and the global lists;
* `registerHeaderCheck`, `indexHeaderCheck`, `initFileStats`: how checks are registered;
* `carverInit`, `carverRun`, `scannerRun`: who registers them, and who frees them;
* `SignatureGlobals.checks`, `checks_indexHeaderCheck`: the checks that are active;
* **`registers_table`**: what the enabled formats register.
-/

namespace RecoveryQt.Signatures

open List

variable {F : Type*}

/-- The arguments of `register_header_check`: an offset, the bytes there, and a function that looks at the
rest. -/
structure HeaderCheck (F : Type*) where
  offset : ℕ
  value : List UInt8
  headerCheck : F

/-- The `register_header_check` of a format: none, one with fixed checks, or that of the signature file. -/
inductive Register (F : Type*) where
  | null
  | fixed (checks : List (HeaderCheck F))
  | sig (headerCheck : F)

/-- `file_hint_t`; `neverCarved` are the formats dovecot, mft and mp3. -/
structure FileHint (F : Type*) where
  extension : Option (List UInt8)
  enableByDefault : Bool
  neverCarved : Bool
  register : Register F

/-- `file_enable_t`. -/
structure FileEnable (F : Type*) where
  hint : FileHint F
  enable : Bool

/-- `file_check_t`, with the format of its `file_stat`. -/
structure FileCheck (F : Type*) where
  check : HeaderCheck F
  hint : FileHint F

/-- `file_check_list_t`: the checks by the byte at an offset. -/
structure FileCheckList (F : Type*) where
  offset : ℕ
  fileChecks : Fin 256 → List (FileCheck F)

/-- What becomes of the signature file: there is none, its size is refused, it cannot be read, or it gives
offsets and signatures. -/
inductive SigFile where
  | missing
  | refused
  | unreadable
  | parsed (signatures : List (ℕ × List UInt8))

/-- The globals: `array_file_enable`, `file_check_plist`, `file_check_list`, and whether the `buffer` of
`register_header_check_sig` is set. -/
structure SignatureGlobals (F : Type*) where
  arrayFileEnable : List (FileEnable F)
  fileCheckPlist : List (FileCheck F)
  fileCheckList : List (FileCheckList F)
  buffer : Bool

/-! ## Registered checks -/

/-- `memcmp`, over the shorter of the two. -/
def memcmp : List UInt8 → List UInt8 → ℤ
  | a :: l, b :: m => if a = b then memcmp l m else (a.toNat : ℤ) - b.toNat
  | _, _ => 0

/-- `file_check_cmp`. -/
def fileCheckCmp (a b : FileCheck F) : ℤ :=
  if a.check.value.length = 0 ∧ b.check.value.length ≠ 0 then -1
  else if a.check.value.length ≠ 0 ∧ b.check.value.length = 0 then 1
  else if a.check.offset ≠ b.check.offset then (a.check.offset : ℤ) - b.check.offset
  else if a.check.value.length = 0 ∧ b.check.value.length = 0 then 0
  else if memcmp a.check.value b.check.value ≠ 0 then memcmp a.check.value b.check.value
  else (b.check.value.length : ℤ) - a.check.value.length

/-- `td_list_add_sorted`: behind the ones that are not larger. -/
def listAddSorted (newe : FileCheck F) : List (FileCheck F) → List (FileCheck F)
  | [] => [newe]
  | pos :: l => if fileCheckCmp newe pos < 0 then newe :: pos :: l else pos :: listAddSorted newe l

/-- The bucket of a byte. -/
def bucket (b : UInt8) : Fin 256 := ⟨b.toNat, b.toNat_lt⟩

/-- The new element of `file_check_add_tail`. -/
def newFileCheckList (c : FileCheck F) : FileCheckList F where
  offset := c.check.offset
  fileChecks := Function.update (fun _ => []) (bucket (c.check.value.headD 0)) [c]

/-- `index_header_check_aux`: a check goes to the first element with an offset in its bytes, or to a new one. -/
def indexHeaderCheckAux (c : FileCheck F) : List (FileCheckList F) → List (FileCheckList F)
  | [] => [newFileCheckList c]
  | pos :: l =>
    if 0 < c.check.value.length ∧ c.check.offset ≤ pos.offset ∧
      pos.offset < (c.check.offset + c.check.value.length) % 4294967296 then
      { pos with
        fileChecks := Function.update pos.fileChecks (bucket (c.check.value.getD (pos.offset - c.check.offset) 0))
          (listAddSorted c (pos.fileChecks (bucket (c.check.value.getD (pos.offset - c.check.offset) 0)))) } :: l
    else if 0 < c.check.value.length ∧ c.check.offset < pos.offset then newFileCheckList c :: pos :: l
    else pos :: indexHeaderCheckAux c l

/-- `register_header_check`. -/
def SignatureGlobals.registerHeaderCheck (st : SignatureGlobals F) (hint : FileHint F) (h : HeaderCheck F) :
    SignatureGlobals F :=
  { st with fileCheckPlist := listAddSorted ⟨h, hint⟩ st.fileCheckPlist }

/-- The `register_header_check` of a format. That of the signature file returns when the file was read
before, and sets the buffer when it reads it. -/
def FileHint.registerHeaderCheck (hint : FileHint F) (file : SigFile) (st : SignatureGlobals F) :
    SignatureGlobals F :=
  match hint.register with
  | .null => st
  | .fixed checks => checks.foldl (fun st h => st.registerHeaderCheck hint h) st
  | .sig headerCheck =>
    if st.buffer then st
    else
      match file with
      | .missing => st
      | .refused => st
      | .unreadable => { st with buffer := true }
      | .parsed signatures => signatures.foldl
          (fun st s => st.registerHeaderCheck hint ⟨s.1, s.2, headerCheck⟩) { st with buffer := true }

/-- `index_header_check`: from the last one to the first. -/
def SignatureGlobals.indexHeaderCheck (st : SignatureGlobals F) : SignatureGlobals F :=
  { st with
    fileCheckPlist := []
    fileCheckList := st.fileCheckPlist.reverse.foldl (fun l c => indexHeaderCheckAux c l) st.fileCheckList }

/-- `init_file_stats`, of `array_file_enable`. -/
def SignatureGlobals.initFileStats (file : SigFile) (st : SignatureGlobals F) : SignatureGlobals F :=
  (st.arrayFileEnable.foldl
    (fun st fe => if fe.enable then fe.hint.registerHeaderCheck file st else st) st).indexHeaderCheck

/-! ## Runs -/

/-- The formats that are enabled by default. -/
def enableDefaults (table : List (FileEnable F)) : List (FileEnable F) :=
  table.map fun fe => { fe with enable := fe.hint.enableByDefault }

/-- The tokens of a filter: `strtok_r` with commas, and the blanks before each are skipped. -/
def filterTokens (filter : List UInt8) : List (List UInt8) :=
  ((filter.splitOn 44).filter (· ≠ [])).map fun token => token.dropWhile (· = 32)

/-- The formats that a filter enables: all but three of the default ones without a filter or for `*`, and
those with its extensions otherwise. -/
def carverEnable (extFilter : Option (List UInt8)) (table : List (FileEnable F)) : List (FileEnable F) :=
  let carved := (enableDefaults table).map fun fe => if fe.hint.neverCarved then { fe with enable := false } else fe
  match extFilter with
  | none => carved
  | some filter =>
    if filter = [] ∨ filter = [42] then carved
    else (filterTokens filter).foldl
      (fun table token => table.map fun fe =>
        if fe.hint.extension = some token then { fe with enable := true } else fe)
      (carved.map fun fe => { fe with enable := false })

/-- `carver_init`. -/
def SignatureGlobals.carverInit (st : SignatureGlobals F) (extFilter : Option (List UInt8)) (file : SigFile) :
    SignatureGlobals F :=
  { st with arrayFileEnable := carverEnable extFilter st.arrayFileEnable }.initFileStats file

/-- `carver_run`: `carver_deinit` frees the checks. -/
def SignatureGlobals.carverRun (st : SignatureGlobals F) (extFilter : Option (List UInt8)) (file : SigFile) :
    SignatureGlobals F :=
  { st.carverInit extFilter file with fileCheckList := [] }

/-- The default checks are registered for the names of deleted files, unless there are some. -/
def SignatureGlobals.loadDefaults (st : SignatureGlobals F) (file : SigFile) : SignatureGlobals F :=
  if st.fileCheckList.isEmpty then
    { st with arrayFileEnable := enableDefaults st.arrayFileEnable }.initFileStats file
  else st

/-- What a scan comes across: whether the file system was opened and the walk not cancelled, its kind, and
whether the NTFS volume and the inode scan are open. -/
structure ScannerRun where
  walked : Bool
  isFat : Bool
  isNtfs : Bool
  isExt : Bool
  ntfsOpen : Bool
  extOpen : Bool
  deep : Bool

/-- `scanner_run`, as far as it registers checks: the MFT scan, the inode scan, and the carver at the end of
a deep scan of other volumes. -/
def SignatureGlobals.scannerRun (st : SignatureGlobals F) (run : ScannerRun) (file : SigFile) :
    SignatureGlobals F :=
  if run.walked then
    let afterMft := if run.isNtfs ∧ run.ntfsOpen then st.loadDefaults file else st
    let afterInodes := if run.isExt ∧ run.extOpen then afterMft.loadDefaults file else afterMft
    if run.deep ∧ ¬ run.isFat ∧ ¬ run.isNtfs then afterInodes.carverRun none file else afterInodes
  else st

/-- A call, and the signature file at its time. -/
inductive SignatureCall where
  | scannerRun (run : ScannerRun) (file : SigFile)
  | carverRun (extFilter : Option (List UInt8)) (file : SigFile)

def SignatureCall.run (st : SignatureGlobals F) : SignatureCall → SignatureGlobals F
  | .scannerRun run file => st.scannerRun run file
  | .carverRun extFilter file => st.carverRun extFilter file

/-- The globals when the process starts. -/
def startGlobals (hints : List (FileHint F)) : SignatureGlobals F :=
  ⟨hints.map fun hint => ⟨hint, false⟩, [], [], false⟩

/-! ## The active checks -/

/-- The checks in a list of elements. -/
def checksIn (l : List (FileCheckList F)) : Set (FileCheck F) := {c | ∃ pos ∈ l, ∃ i, c ∈ pos.fileChecks i}

/-- The active checks. -/
def SignatureGlobals.checks (st : SignatureGlobals F) : Set (FileCheck F) := checksIn st.fileCheckList

/-- The fixed checks of a format. -/
def FileHint.fixedChecks (hint : FileHint F) : Set (FileCheck F) :=
  match hint.register with
  | .fixed checks => {c | ∃ h ∈ checks, c = ⟨h, hint⟩}
  | _ => ∅

/-- The checks that a signature file gives a format. -/
def FileHint.customChecks (hint : FileHint F) (file : SigFile) : Set (FileCheck F) :=
  match hint.register with
  | .sig headerCheck =>
    match file with
    | .parsed signatures => {c | ∃ s ∈ signatures, c = ⟨⟨s.1, s.2, headerCheck⟩, hint⟩}
    | _ => ∅
  | _ => ∅

/-- The fixed checks of the enabled formats. -/
def fixedOf (table : List (FileEnable F)) : Set (FileCheck F) :=
  {c | ∃ fe ∈ table, fe.enable = true ∧ c ∈ fe.hint.fixedChecks}

/-- An enabled format that reads the signature file. -/
def FileEnable.readsSigFile (fe : FileEnable F) : Bool :=
  fe.enable && match fe.hint.register with
    | .sig _ => true
    | _ => false

/-- The checks that a signature file gives: the first format that reads it registers them. -/
def customOf (table : List (FileEnable F)) (file : SigFile) : Set (FileCheck F) :=
  match table.find? FileEnable.readsSigFile with
  | none => ∅
  | some fe => fe.hint.customChecks file

theorem mem_listAddSorted {x c : FileCheck F} {l : List (FileCheck F)} :
    x ∈ listAddSorted c l ↔ x = c ∨ x ∈ l := by
  induction l with
  | nil => rw [listAddSorted, mem_singleton, mem_nil_iff, or_false]
  | cons pos l ih =>
    rw [listAddSorted]
    split_ifs
    · rw [mem_cons]
    · rw [mem_cons, ih, mem_cons, or_left_comm]

theorem checksIn_cons (pos : FileCheckList F) (l : List (FileCheckList F)) :
    checksIn (pos :: l) = {c | ∃ i, c ∈ pos.fileChecks i} ∪ checksIn l := by
  ext c
  simp [checksIn]

theorem checksIn_newFileCheckList (c : FileCheck F) : {x | ∃ i, x ∈ (newFileCheckList c).fileChecks i} = {c} := by
  ext x
  simp only [newFileCheckList, Set.mem_ofPred_eq, Set.mem_singleton_iff]
  constructor
  · rintro ⟨i, hi⟩
    rw [Function.update_apply] at hi
    split_ifs at hi
    · exact mem_singleton.mp hi
    · cases hi
  · rintro rfl
    exact ⟨_, by rw [Function.update_self]; exact mem_cons_self⟩

/-- **A check that is indexed** is active, and so are the others. -/
theorem checksIn_indexHeaderCheckAux (c : FileCheck F) (l : List (FileCheckList F)) :
    checksIn (indexHeaderCheckAux c l) = insert c (checksIn l) := by
  induction l with
  | nil =>
    rw [indexHeaderCheckAux, checksIn_cons, checksIn_newFileCheckList]
    rfl
  | cons pos l ih =>
    rw [indexHeaderCheckAux]
    split_ifs
    · rw [checksIn_cons, checksIn_cons, ← Set.insert_union]
      congr 1
      ext x
      simp only [Set.mem_ofPred_eq, Set.mem_insert_iff, Function.update_apply]
      constructor
      · rintro ⟨i, hi⟩
        split_ifs at hi with hbucket
        · rcases mem_listAddSorted.mp hi with rfl | hi
          · exact Or.inl rfl
          · exact Or.inr ⟨_, hi⟩
        · exact Or.inr ⟨i, hi⟩
      · rintro (rfl | ⟨i, hi⟩)
        · exact ⟨_, by rw [if_pos rfl]; exact mem_listAddSorted.mpr (Or.inl rfl)⟩
        · refine ⟨i, ?_⟩
          split_ifs with hbucket
          · rw [hbucket] at hi
            exact mem_listAddSorted.mpr (Or.inr hi)
          · exact hi
    · rw [checksIn_cons, checksIn_newFileCheckList]
      rfl
    · rw [checksIn_cons, ih, checksIn_cons, Set.union_insert]

theorem checks_indexHeaderCheck (st : SignatureGlobals F) :
    st.indexHeaderCheck.checks = st.checks ∪ {c | c ∈ st.fileCheckPlist} := by
  have hfold : ∀ (pending : List (FileCheck F)) (l : List (FileCheckList F)),
      checksIn (pending.foldl (fun l c => indexHeaderCheckAux c l) l) = checksIn l ∪ {c | c ∈ pending} := by
    intro pending
    induction pending with
    | nil => intro l; simp
    | cons c pending ih =>
      intro l
      rw [foldl_cons, ih, checksIn_indexHeaderCheckAux]
      ext x
      simp [or_assoc, or_left_comm]
  rw [SignatureGlobals.checks, SignatureGlobals.indexHeaderCheck, hfold]
  ext x
  simp [SignatureGlobals.checks]

/-- What is pending. -/
def SignatureGlobals.pending (st : SignatureGlobals F) : Set (FileCheck F) := {c | c ∈ st.fileCheckPlist}

/-- From one state to another, checks are registered and nothing else happens but to the buffer. -/
structure SignatureGlobals.Registers (st st' : SignatureGlobals F) (added : Set (FileCheck F)) : Prop where
  pending : st'.pending = st.pending ∪ added
  list : st'.fileCheckList = st.fileCheckList
  table : st'.arrayFileEnable = st.arrayFileEnable

theorem SignatureGlobals.Registers.refl (st : SignatureGlobals F) : st.Registers st ∅ :=
  ⟨(Set.union_empty _).symm, rfl, rfl⟩

theorem SignatureGlobals.Registers.trans {st st' st'' : SignatureGlobals F} {added added' : Set (FileCheck F)}
    (h : st.Registers st' added) (h' : st'.Registers st'' added') : st.Registers st'' (added ∪ added') :=
  ⟨by rw [h'.pending, h.pending, Set.union_assoc], h'.list.trans h.list, h'.table.trans h.table⟩

/-- A row of checks of one format. -/
theorem registers_foldl {α : Type*} (hint : FileHint F) (f : α → HeaderCheck F) (l : List α)
    (st : SignatureGlobals F) :
    st.Registers (l.foldl (fun st a => st.registerHeaderCheck hint (f a)) st) {c | ∃ a ∈ l, c = ⟨f a, hint⟩} ∧
      (l.foldl (fun st a => st.registerHeaderCheck hint (f a)) st).buffer = st.buffer := by
  induction l generalizing st with
  | nil =>
    have hnone : {c | ∃ a ∈ ([] : List α), c = (⟨f a, hint⟩ : FileCheck F)} = ∅ := by simp
    rw [hnone]
    exact ⟨SignatureGlobals.Registers.refl st, rfl⟩
  | cons a l ih =>
    obtain ⟨hrest, hbuffer⟩ := ih (st.registerHeaderCheck hint (f a))
    have hone : st.Registers (st.registerHeaderCheck hint (f a)) {⟨f a, hint⟩} := by
      refine ⟨?_, rfl, rfl⟩
      ext c
      simp [SignatureGlobals.pending, SignatureGlobals.registerHeaderCheck, mem_listAddSorted, or_comm]
    have hall : {c | ∃ b ∈ a :: l, c = (⟨f b, hint⟩ : FileCheck F)} =
        {⟨f a, hint⟩} ∪ {c | ∃ b ∈ l, c = (⟨f b, hint⟩ : FileCheck F)} := by
      ext c
      simp
    rw [hall]
    exact ⟨hone.trans hrest, hbuffer⟩

/-- The file was opened and is not too large. -/
def SigFile.opened : SigFile → Bool
  | .missing | .refused => false
  | .unreadable | .parsed _ => true

theorem customChecks_of_not_opened {hint : FileHint F} {file : SigFile} (h : file.opened = false) :
    hint.customChecks file = ∅ := by
  unfold FileHint.customChecks
  cases hint.register with
  | null => rfl
  | fixed checks => rfl
  | sig headerCheck => cases file <;> first | rfl | cases h

theorem customOf_of_not_opened {table : List (FileEnable F)} {file : SigFile} (h : file.opened = false) :
    customOf table file = ∅ := by
  rw [customOf]
  split
  · rfl
  · exact customChecks_of_not_opened h

/-- What a format registers, which is nothing from the signature file when it was read before. -/
theorem FileHint.registers (hint : FileHint F) (file : SigFile) (st : SignatureGlobals F) :
    st.Registers (hint.registerHeaderCheck file st)
      (hint.fixedChecks ∪ if st.buffer then ∅ else hint.customChecks file) := by
  cases hregister : hint.register with
  | null =>
    simp only [FileHint.registerHeaderCheck, FileHint.fixedChecks, FileHint.customChecks, hregister, ite_self,
      Set.union_empty]
    exact SignatureGlobals.Registers.refl st
  | fixed checks =>
    simp only [FileHint.registerHeaderCheck, FileHint.fixedChecks, FileHint.customChecks, hregister, ite_self,
      Set.union_empty]
    exact (registers_foldl hint id checks st).1
  | sig headerCheck =>
    simp only [FileHint.registerHeaderCheck, FileHint.fixedChecks, FileHint.customChecks, hregister,
      Set.empty_union]
    split_ifs
    · exact SignatureGlobals.Registers.refl st
    · cases file with
      | missing => exact SignatureGlobals.Registers.refl st
      | refused => exact SignatureGlobals.Registers.refl st
      | unreadable => exact ⟨(Set.union_empty _).symm, rfl, rfl⟩
      | parsed signatures =>
        have hread := (registers_foldl hint (fun s : ℕ × List UInt8 => ⟨s.1, s.2, headerCheck⟩) signatures
          { st with buffer := true }).1
        exact ⟨hread.pending, hread.list, hread.table⟩

/-- The buffer is set by a format that reads the file. -/
theorem FileHint.buffer_registerHeaderCheck (hint : FileHint F) (file : SigFile) (st : SignatureGlobals F) :
    (hint.registerHeaderCheck file st).buffer =
      (st.buffer || match hint.register with
        | .sig _ => file.opened
        | _ => false) := by
  cases hregister : hint.register with
  | null => simp [FileHint.registerHeaderCheck, hregister]
  | fixed checks =>
    simp only [FileHint.registerHeaderCheck, hregister, Bool.or_false]
    exact (registers_foldl hint id checks st).2
  | sig headerCheck =>
    cases hbuffer : st.buffer with
    | true => simp [FileHint.registerHeaderCheck, hregister, hbuffer]
    | false =>
      cases file with
      | missing => simp [FileHint.registerHeaderCheck, hregister, hbuffer, SigFile.opened]
      | refused => simp [FileHint.registerHeaderCheck, hregister, hbuffer, SigFile.opened]
      | unreadable => simp [FileHint.registerHeaderCheck, hregister, hbuffer, SigFile.opened]
      | parsed signatures =>
        simp only [FileHint.registerHeaderCheck, hregister, hbuffer, SigFile.opened]
        exact (registers_foldl hint (fun s : ℕ × List UInt8 => ⟨s.1, s.2, headerCheck⟩) signatures
          { st with buffer := true }).2

theorem fixedOf_cons (fe : FileEnable F) (table : List (FileEnable F)) :
    fixedOf (fe :: table) = (if fe.enable then fe.hint.fixedChecks else ∅) ∪ fixedOf table := by
  ext c
  cases h : fe.enable <;> simp [fixedOf, h]

theorem customOf_cons (fe : FileEnable F) (table : List (FileEnable F)) (file : SigFile) :
    customOf (fe :: table) file = if fe.readsSigFile then fe.hint.customChecks file else customOf table file := by
  rw [customOf, find?_cons]
  cases h : fe.readsSigFile <;> simp [customOf]

theorem exists_sig_of_reads {fe : FileEnable F} (h : fe.readsSigFile = true) :
    ∃ headerCheck, fe.hint.register = .sig headerCheck := by
  cases hregister : fe.hint.register with
  | sig headerCheck => exact ⟨headerCheck, rfl⟩
  | _ => simp [FileEnable.readsSigFile, hregister] at h

/-- An enabled format of any other kind is not concerned with the file. -/
theorem registers_of_not_reads {fe : FileEnable F} (henable : fe.enable = true) (h : fe.readsSigFile = false)
    (file : SigFile) (st : SignatureGlobals F) :
    st.Registers (fe.hint.registerHeaderCheck file st) fe.hint.fixedChecks ∧
      (fe.hint.registerHeaderCheck file st).buffer = st.buffer := by
  have hregisters := fe.hint.registers file st
  have hbuffer := fe.hint.buffer_registerHeaderCheck file st
  cases hregister : fe.hint.register with
  | sig headerCheck => simp [FileEnable.readsSigFile, henable, hregister] at h
  | _ => simp_all [FileHint.customChecks]

/-- **What the enabled formats register**: their fixed checks, and those of the signature file unless it was
read before. -/
theorem registers_table (file : SigFile) (table : List (FileEnable F)) (st : SignatureGlobals F) :
    st.Registers (table.foldl (fun st fe => if fe.enable then fe.hint.registerHeaderCheck file st else st) st)
      (fixedOf table ∪ if st.buffer then ∅ else customOf table file) := by
  induction table generalizing st with
  | nil =>
    have hnone : fixedOf ([] : List (FileEnable F)) ∪ (if st.buffer then ∅ else customOf [] file) = ∅ := by
      simp [fixedOf, customOf]
    rw [hnone]
    exact SignatureGlobals.Registers.refl st
  | cons fe table ih =>
    rw [foldl_cons, fixedOf_cons, customOf_cons]
    cases henable : fe.enable with
    | false =>
      have hreads : fe.readsSigFile = false := by simp [FileEnable.readsSigFile, henable]
      simpa [hreads] using ih st
    | true =>
      rw [if_pos rfl, if_pos rfl]
      cases hreads : fe.readsSigFile with
      | false =>
        obtain ⟨hhead, hbuffer⟩ := registers_of_not_reads henable hreads file st
        have hrest := ih (fe.hint.registerHeaderCheck file st)
        rw [hbuffer] at hrest
        rw [if_neg Bool.false_ne_true, Set.union_assoc]
        exact hhead.trans hrest
      | true =>
        -- the first format that reads the file registers what it gives, and the ones behind it nothing
        obtain ⟨headerCheck, hregister⟩ := exists_sig_of_reads hreads
        have hfixed : fe.hint.fixedChecks = ∅ := by simp [FileHint.fixedChecks, hregister]
        have hboth := (fe.hint.registers file st).trans (ih (fe.hint.registerHeaderCheck file st))
        rw [fe.hint.buffer_registerHeaderCheck] at hboth
        simp only [hregister, hfixed, Set.empty_union, if_true] at hboth ⊢
        cases hopened : file.opened with
        | true =>
          simp only [hopened, Bool.or_true, if_true, Set.union_empty] at hboth
          rwa [Set.union_comm]
        | false =>
          simp only [customChecks_of_not_opened hopened, customOf_of_not_opened hopened, ite_self,
            Set.empty_union] at hboth ⊢
          exact hboth

end RecoveryQt.Signatures
