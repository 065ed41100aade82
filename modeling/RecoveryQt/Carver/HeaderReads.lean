import RecoveryQt.Carver.BestMatch
import RecoveryQt.Carver.FooterReads
import RecoveryQt.Lib.Codec

/-!
# What `carver_check_header` looks at

The loops over the signatures as readings of the buffer, with the header checks of the signature file and of zip files. The
other header checks are parameters, and what they look at is not counted.

* `headerCheckSig`, `headerCheckZip`, `HeaderKind.read`: the header checks;
* `readHeader`: the loops; **`value_readHeader`**: their result is that of `carver_check_header`;
* `SigInside`, `ZipInside`, `LooksInside`: what stays inside the buffer;
* **`within_readHeader_iff`**: nothing behind the buffer is looked at exactly then.
-/

namespace RecoveryQt.Signatures

open List Reading

/-! ## The signature file -/

/-- `signature_t`. -/
structure Signature where
  extension : List UInt8
  sig : List UInt8
  offset : ℕ

/-- `header_check_sig`: the extension of the first signature that matches. -/
def headerCheckSig : List Signature → Reading (Option (List UInt8))
  | [] => pure none
  | s :: l => do
    let equal ← memcmpAt s.offset s.sig
    if equal then pure (some s.extension) else headerCheckSig l

/-! ## Zip files -/

/-- A branch of `zip_parse_parse_entry_mimetype`. -/
structure Mimetype where
  fits : ℕ → Bool
  mime : List UInt8
  extension : List UInt8

def mimetypes : List Mimetype := [
  ⟨(· == 16), ascii "image/openraster", ascii "ora"⟩,
  ⟨fun len => len == 20 || len == 22, ascii "application/epub+zip", ascii "epub"⟩,
  ⟨(· == 28), ascii "application/vnd.sun.xml.calc", ascii "sxc"⟩,
  ⟨(· == 28), ascii "application/vnd.sun.xml.draw", ascii "sxd"⟩,
  ⟨(· == 30), ascii "application/vnd.sun.xml.writer", ascii "sxw"⟩,
  ⟨(· == 31), ascii "application/vnd.sun.xml.impress", ascii "sxi"⟩,
  ⟨(· == 39), ascii "application/vnd.oasis.opendocument.text", ascii "odt"⟩,
  ⟨(· == 43), ascii "application/vnd.adobe.indesign-idml-package", ascii "indd"⟩,
  ⟨(· == 43), ascii "application/vnd.oasis.opendocument.graphics", ascii "odg"⟩,
  ⟨(· == 45), ascii "application/vnd.adobe.sparkler.project+dcxucf", ascii "xd"⟩,
  ⟨(· == 46), ascii "application/vnd.oasis.opendocument.spreadsheet", ascii "ods"⟩,
  ⟨(· == 47), ascii "application/vnd.oasis.opendocument.presentation", ascii "odp"⟩,
  ⟨fun len => decide (19 ≤ len), ascii "application/x-krita", ascii "kra"⟩]

/-- `zip_parse_parse_entry_mimetype`, of the bytes from 38 on. -/
def zipParseEntryMimetype (len : ℕ) : List Mimetype → Reading (List UInt8)
  | [] => pure (ascii "sxw")
  | m :: l => do
    let equal ← andThen (pure (m.fits len)) (memcmpAt 38 m.mime)
    if equal then pure m.extension else zipParseEntryMimetype len l

/-- `pos_in_mem`, of the start of the buffer. -/
def posInMem (haystackSize : ℕ) (needle : List UInt8) : Reading ℕ :=
  if haystackSize < needle.length then pure 0
  else do
    let found ← findUp (fun i => memcmpAt i needle) (haystackSize - needle.length + 1)
    pure (found.elim 0 fun i => i + needle.length)

/-- The extension of a file that starts with `[Content_Types].xml`: 2000 bytes are searched for sheets, whatever the size
of the buffer. -/
def contentTypes (bufferSize : ℕ) : Reading (List UInt8) := do
  let word ← posInMem bufferSize (ascii "word/")
  if word ≠ 0 then pure (ascii "docx")
  else do
    let xl ← posInMem 2000 (ascii "xl/")
    if xl ≠ 0 then pure (ascii "xlsx")
    else do
      let ppt ← posInMem bufferSize (ascii "ppt/")
      if ppt ≠ 0 then pure (ascii "pptx")
      else do
        let visio ← posInMem bufferSize (ascii "visio/")
        pure (if visio ≠ 0 then ascii "vsdx" else ascii "docx")

/-- The name of the first entry is a given one. -/
def nameIs (len : ℕ) (name : List UInt8) : Reading Bool := andThen (pure (len == name.length)) (memcmpAt 30 name)

/-- The extension, by the first entry. -/
def zipExtension (bufferSize len : ℕ) : Reading (List UInt8) := do
  let mimetype ← andThen (nameIs len (ascii "mimetype")) (do
    let extra ← readLe16 28
    pure (extra == 0))
  if mimetype then do
    let compressedSize ← readLe32 18
    zipParseEntryMimetype compressedSize mimetypes
  else do
    let content ← nameIs len (ascii "[Content_Types].xml")
    if content then contentTypes bufferSize
    else do
      let song ← nameIs len (ascii "Song.xml")
      if song then pure (ascii "xrns")
      else do
        let home ← nameIs len (ascii "Home")
        if home then pure (ascii "sh3d")
        else do
          let project ← nameIs len (ascii "project.json")
          if project then pure (ascii "sb3")
          else do
            let document ← nameIs len (ascii "Index/Document.iwa")
            pure (if document then ascii "numbers" else ascii "zip")

/-- `header_check_zip`, for a `file_recovery` without a file: inside a file of the format `doc` it is ignored. -/
def headerCheckZip (inDoc : Bool) (bufferSize : ℕ) : Reading (Option (List UInt8)) := do
  let len ← readLe16 26
  if len = 0 ∨ 4096 < len then pure none
  else do
    let version ← readLe16 4
    if version < 10 then pure none
    else if inDoc then pure none
    else do
      let extension ← zipExtension bufferSize len
      pure (some extension)

/-! ## The loops -/

/-- The header checks. -/
inductive HeaderKind where
  | sig
  | zip
  | other (check : HeaderCheckFn)

/-- The signatures of the signature file, and whether `in_file_stat` is that of the format `doc`. -/
structure HeaderSetup where
  signatures : List Signature
  inDoc : Bool

variable (setup : HeaderSetup)

def HeaderKind.read (bufferSize : ℕ) (r : RecoveryNew) : HeaderKind → Reading (Bool × RecoveryNew)
  | .sig => do
    let extension ← headerCheckSig setup.signatures
    pure (if extension.isSome then (true, resetFileRecovery) else (false, r))
  | .zip => do
    let extension ← headerCheckZip setup.inDoc bufferSize
    pure (if extension.isSome then (true, { resetFileRecovery with fileCheck := true }) else (false, r))
  | .other check => ⟨fun b => check b bufferSize r, fun _ => []⟩

/-- A header check as a function. -/
def HeaderKind.fn (kind : HeaderKind) : HeaderCheckFn := fun b bufferSize r => (kind.read setup bufferSize r).value b

section Maps

variable {F G : Type} (g : F → G)

def HeaderCheck.map (h : HeaderCheck F) : HeaderCheck G := ⟨h.offset, h.value, g h.headerCheck⟩

def Register.map : Register F → Register G
  | .null => .null
  | .fixed checks => .fixed (checks.map (HeaderCheck.map g))
  | .sig headerCheck => .sig (g headerCheck)

def FileHint.map (hint : FileHint F) : FileHint G :=
  ⟨hint.extension, hint.enableByDefault, hint.neverCarved, hint.register.map g⟩

def FileCheck.map (fc : FileCheck F) : FileCheck G := ⟨fc.check.map g, fc.hint.map g⟩

def FileCheckList.map (pos : FileCheckList F) : FileCheckList G :=
  ⟨pos.offset, fun i => (pos.fileChecks i).map (FileCheck.map g)⟩

end Maps

/-- The loop of `carver_text_validate`. -/
def readTextLoop (sample : ℕ) : ℕ → ℕ → ℕ → ℕ → Reading Bool
  | 0, _, printable, _ => pure (!decide (printable < sample / 4))
  | n + 1, i, printable, nulls => do
    let c ← byteAt i
    let printable := if 0x20 ≤ c ∧ c ≤ 0x7E then printable + 1 else printable
    let nulls := if c = 0 then nulls + 1 else nulls
    if c = 10 ∨ c = 13 then pure true
    else if 4 < nulls then pure false
    else readTextLoop sample n (i + 1) printable nulls

def readText (bufferSize : ℕ) : Reading Bool := readTextLoop (min bufferSize 512) (min bufferSize 512) 0 0 0

variable (ctx : HeaderContext)

/-- One signature. -/
def HeaderScan.readStep (st : HeaderScan) (fc : FileCheck HeaderKind) : Reading HeaderScan := do
  let equal ← memcmpAt fc.check.offset fc.check.value
  if equal then do
    let res ← fc.check.headerCheck.read setup ctx.bufferSize st.recovery
    if res.1 then do
      let isText := ctx.isText (fc.hint.map (HeaderKind.fn setup))
      let noText ← andThen (pure isText) (do
        let text ← readText ctx.bufferSize
        pure !text)
      pure (if noText then { st with recovery := res.2, skipped := st.skipped + 1 }
        else if st.found.length < carverMaxMatches then
          { st with
            recovery := res.2
            found := st.found ++ [⟨fc.map (HeaderKind.fn setup), ctx.score (fc.map (HeaderKind.fn setup)) res.2,
              res.2.dataCheck, res.2.fileCheck⟩] }
        else { st with recovery := res.2 })
    else pure { st with recovery := res.2 }
  else pure st

/-- One element of `file_check_list`. -/
def HeaderScan.readElement (st : HeaderScan) (pos : FileCheckList HeaderKind) : Reading HeaderScan :=
  if ctx.bufferSize ≤ pos.offset then pure st
  else do
    let c ← byteAt pos.offset
    foldOver (HeaderScan.readStep setup ctx) st ((pos.fileChecks (bucket c)).filter FileCheck.isLong)

/-- **`carver_check_header`** as a reading. -/
def readHeader (l : List (FileCheckList HeaderKind)) : Reading (Option (FileHint HeaderCheckFn)) := do
  let st ← foldOver (HeaderScan.readElement setup ctx) ⟨resetFileRecovery, [], 0⟩ l
  pure ((bestMatch st.found).map fun m => m.fileCheck.hint)

/-! ## Results -/

theorem value_readTextLoop (b : ℕ → UInt8) (sample n i printable nulls : ℕ) :
    (readTextLoop sample n i printable nulls).value b = textLoop b sample n i printable nulls := by
  induction n generalizing i printable nulls with
  | zero => rfl
  | succ n ih =>
    rw [readTextLoop, value_bind, value_byteAt, textLoop]
    simp only [value_ite, value_pure, ih]

theorem value_readText (b : ℕ → UInt8) (bufferSize : ℕ) :
    (readText bufferSize).value b = carverTextValidate b bufferSize := value_readTextLoop b _ _ _ _ _

theorem value_readStep (st : HeaderScan) (fc : FileCheck HeaderKind) :
    (st.readStep setup ctx fc).value ctx.buffer = st.step ctx (fc.map (HeaderKind.fn setup)) := by
  rw [HeaderScan.readStep, value_bind, value_memcmpAt, HeaderScan.step, value_ite, value_pure, value_bind, value_ite, value_pure,
    value_bind, value_pure, value_andThen, value_pure, value_bind, value_readText, value_pure]
  rfl

theorem value_readElement (st : HeaderScan) (pos : FileCheckList HeaderKind) :
    (st.readElement setup ctx pos).value ctx.buffer =
      (((pos.map (HeaderKind.fn setup)).candidates ctx.buffer ctx.bufferSize).filter FileCheck.isLong).foldl
        (HeaderScan.step ctx) st := by
  have hcandidates : ((pos.fileChecks (bucket (ctx.buffer pos.offset))).map (FileCheck.map (HeaderKind.fn setup))).filter
        FileCheck.isLong =
      ((pos.fileChecks (bucket (ctx.buffer pos.offset))).filter FileCheck.isLong).map
        (FileCheck.map (HeaderKind.fn setup)) := by
    rw [filter_map]
    rfl
  unfold HeaderScan.readElement FileCheckList.candidates
  show _ = foldl _ _ (filter _ (if ctx.bufferSize ≤ pos.offset then [] else
    (pos.fileChecks (bucket (ctx.buffer pos.offset))).map (FileCheck.map (HeaderKind.fn setup))))
  split_ifs
  · rfl
  · rw [value_bind, value_byteAt, value_foldOver, hcandidates, foldl_map]
    simp only [value_readStep]

/-- **The result** is that of the loops over the header checks. -/
theorem value_readHeader (l : List (FileCheckList HeaderKind)) :
    (readHeader setup ctx l).value ctx.buffer =
      carverCheckHeader ctx (l.map (FileCheckList.map (HeaderKind.fn setup))) := by
  rw [readHeader, value_bind, value_pure, value_foldOver, carverCheckHeader, visited, flatMap_map, foldl_flatMap]
  simp only [value_readElement]

/-! ## Bounds -/

variable {b : ℕ → UInt8} {n : ℕ}

/-- The signatures that are compared: up to the first one that matches. -/
def compared (b : ℕ → UInt8) : List Signature → List Signature
  | [] => []
  | s :: l => if hasBytes b s.offset s.sig then [s] else s :: compared b l

/-- The compared signatures of the signature file lie in the buffer. -/
def SigInside (b : ℕ → UInt8) (n : ℕ) (signatures : List Signature) : Prop :=
  ∀ s ∈ compared b signatures, s.sig ≠ [] → s.offset + s.sig.length ≤ n

theorem within_headerCheckSig {signatures : List Signature} :
    Within b n (headerCheckSig signatures) ↔ SigInside b n signatures := by
  induction signatures with
  | nil => exact iff_of_true (within_pure _) nofun
  | cons s l ih =>
    rw [headerCheckSig, within_bind, within_memcmpAt, value_memcmpAt, SigInside, compared]
    cases hasBytes b s.offset s.sig with
    | true => simp
    | false =>
      rw [if_neg Bool.false_ne_true, if_neg Bool.false_ne_true, ih, forall_mem_cons]
      rfl

/-- The bytes are in the buffer. -/
def Contains (b : ℕ → UInt8) (n : ℕ) (needle : List UInt8) : Prop := ∃ i, i + needle.length ≤ n ∧ hasBytes b i needle = true

/-- A search behind the buffer stays in it exactly if it ends there. -/
theorem within_posInMem_iff {m : ℕ} {needle : List UInt8} (hne : needle ≠ []) (hm : needle.length ≤ m) :
    Within b n (posInMem m needle) ↔ m ≤ n ∨ Contains b n needle := by
  rw [posInMem, if_neg (not_lt.mpr hm), within_bind, and_iff_left (within_pure _), findUp, within_findUpFrom_iff]
  constructor
  · intro h
    by_contra hnot
    obtain ⟨hlt, hnone⟩ := not_or.mp hnot
    have hinside := within_memcmpAt.mp (h (n + 1 - needle.length) (Nat.zero_le _) (by omega) fun k _ hk => ?_) hne
    · omega
    · rw [value_memcmpAt, ← Bool.not_eq_true]
      exact fun heq => hnone ⟨k, by omega, heq⟩
  · rintro (hle | ⟨i, hi, heq⟩) j - hj hnone
    · exact within_memcmpAt_of_le (by omega)
    · have hji : j ≤ i := by
        by_contra hlt
        exact absurd (heq.symm.trans (hnone i (Nat.zero_le _) (by omega))) (by decide)
      exact within_memcmpAt_of_le (by omega)

theorem within_posInMem {m : ℕ} {needle : List UInt8} (hm : m ≤ n) : Within b n (posInMem m needle) := by
  refine within_ite (fun _ => within_pure _) fun hle => within_bind.mpr ⟨within_findUp fun i hi => ?_, within_pure _⟩
  exact within_memcmpAt_of_le (by omega)

/-- What a search in the buffer finds. -/
theorem value_posInMem_eq_zero_iff {needle : List UInt8} (hne : needle ≠ []) :
    (posInMem n needle).value b = 0 ↔ ¬ Contains b n needle := by
  have hpos := length_pos_iff.mpr hne
  rw [posInMem, value_ite, value_pure, value_bind, value_findUp, value_pure]
  split_ifs with hlt
  · exact iff_of_true rfl fun ⟨i, hi, _⟩ => by omega
  · cases hfound : firstIndex? (fun i => (memcmpAt i needle).value b) (n - needle.length + 1) with
    | none =>
      refine iff_of_true rfl fun ⟨i, hi, heq⟩ => ?_
      have hnone := firstIndex?_eq_none_iff.mp hfound i (by omega)
      exact absurd (heq.symm.trans hnone) (by decide)
    | some i =>
      obtain ⟨heq, hi, -⟩ := firstIndex?_eq_some_iff.mp hfound
      exact iff_of_false (by rw [Option.elim_some]; omega) fun h => h ⟨i, by omega, heq⟩

theorem within_zipParseEntryMimetype (len : ℕ) {l : List Mimetype} (h : ∀ m ∈ l, 38 + m.mime.length ≤ n) :
    Within b n (zipParseEntryMimetype len l) := by
  induction l with
  | nil => exact within_pure _
  | cons m l ih =>
    obtain ⟨hm, hl⟩ := forall_mem_cons.mp h
    refine within_bind.mpr ⟨within_andThen (within_pure _) fun _ => within_memcmpAt_of_le hm, ?_⟩
    exact within_ite (fun _ => within_pure _) fun _ => ih hl

/-- The sheets are found in the buffer, or the buffer is as large as what is searched. -/
def SheetsInside (b : ℕ → UInt8) (n : ℕ) : Prop := ¬ Contains b n (ascii "word/") → 2000 ≤ n ∨ Contains b n (ascii "xl/")

theorem within_contentTypes_iff : Within b n (contentTypes n) ↔ SheetsInside b n := by
  have hrest : ∀ xl : ℕ, Within b n (if xl ≠ 0 then pure (ascii "xlsx") else do
      let ppt ← posInMem n (ascii "ppt/")
      if ppt ≠ 0 then pure (ascii "pptx")
      else do
        let visio ← posInMem n (ascii "visio/")
        pure (if visio ≠ 0 then ascii "vsdx" else ascii "docx") : Reading (List UInt8)) := fun xl =>
    within_ite (fun _ => within_pure _) fun _ => within_bind.mpr ⟨within_posInMem le_rfl,
      within_ite (fun _ => within_pure _) fun _ => within_bind.mpr ⟨within_posInMem le_rfl, within_pure _⟩⟩
  rw [contentTypes, within_bind, and_iff_right (within_posInMem le_rfl), SheetsInside,
    ← value_posInMem_eq_zero_iff (by decide : ascii "word/" ≠ [])]
  by_cases hword : (posInMem n (ascii "word/")).value b = 0
  · rw [if_neg (not_not.mpr hword), within_bind, and_iff_left (hrest _), within_posInMem_iff (by decide) (by decide)]
    exact (imp_iff_right hword).symm
  · rw [if_pos hword]
    exact iff_of_true (within_pure _) fun h => absurd h hword

theorem within_nameIs {len : ℕ} {name : List UInt8} (h : 30 + name.length ≤ n) : Within b n (nameIs len name) :=
  within_andThen (within_pure _) fun _ => within_memcmpAt_of_le h

@[simp] theorem value_nameIs (len : ℕ) (name : List UInt8) :
    (nameIs len name).value b = (len == name.length && hasBytes b 30 name) := by
  rw [nameIs, value_andThen, value_pure, value_memcmpAt]

/-- The name of the part that lists the types. -/
def contentName : List UInt8 := ascii "[Content_Types].xml"

theorem within_zipExtension_iff (hn : 512 ≤ n) {len : ℕ} :
    Within b n (zipExtension n len) ↔ (len = 19 → hasBytes b 30 contentName = true → SheetsInside b n) := by
  have hmime : ∀ m ∈ mimetypes, 38 + m.mime.length ≤ n := fun m hm =>
    le_trans ((by decide : ∀ m ∈ mimetypes, 38 + m.mime.length ≤ 512) m hm) hn
  have hname : ∀ name : List UInt8, name.length ≤ 19 → Within b n (nameIs len name) := fun name hle =>
    within_nameIs (by omega)
  have hextra : Within b n (andThen (nameIs len (ascii "mimetype")) (do
      let extra ← readLe16 28
      pure (extra == 0))) :=
    within_andThen (hname _ (by decide)) fun _ => within_bind.mpr ⟨within_readLe16 (by omega), within_pure _⟩
  rw [zipExtension, within_bind, and_iff_right hextra, value_andThen, value_nameIs]
  by_cases hlen : len = 19
  · subst hlen
    rw [show ((19 : ℕ) == (ascii "mimetype").length) = false by decide, Bool.false_and, Bool.false_and,
      if_neg Bool.false_ne_true, within_bind, and_iff_right (hname _ (by decide)), value_nameIs,
      show ((19 : ℕ) == (ascii "[Content_Types].xml").length) = true by decide, Bool.true_and, imp_iff_right rfl]
    change Within b n (if hasBytes b 30 contentName = true then _ else _) ↔ _
    by_cases hcontent : hasBytes b 30 contentName = true
    · rw [if_pos hcontent, within_contentTypes_iff, imp_iff_right hcontent]
    · rw [if_neg hcontent]
      refine iff_of_true ?_ fun h => absurd h hcontent
      exact within_bind.mpr ⟨hname _ (by decide), within_ite (fun _ => within_pure _) fun _ =>
        within_bind.mpr ⟨hname _ (by decide), within_ite (fun _ => within_pure _) fun _ =>
        within_bind.mpr ⟨hname _ (by decide), within_ite (fun _ => within_pure _) fun _ =>
        within_bind.mpr ⟨hname _ (by decide), within_pure _⟩⟩⟩⟩
  · have hcontent : (nameIs len (ascii "[Content_Types].xml")).value b = false := by
      rw [value_nameIs, beq_eq_false_iff_ne.mpr fun h => hlen (h.trans (by decide)), Bool.false_and]
    refine iff_of_true (within_ite (fun _ => ?_) fun _ => ?_) fun h => absurd h hlen
    · exact within_bind.mpr ⟨within_readLe32 (by omega), within_zipParseEntryMimetype _ hmime⟩
    · refine within_bind.mpr ⟨hname _ (by decide), ?_⟩
      rw [hcontent, if_neg Bool.false_ne_true]
      exact within_bind.mpr ⟨hname _ (by decide), within_ite (fun _ => within_pure _) fun _ =>
        within_bind.mpr ⟨hname _ (by decide), within_ite (fun _ => within_pure _) fun _ =>
        within_bind.mpr ⟨hname _ (by decide), within_ite (fun _ => within_pure _) fun _ =>
        within_bind.mpr ⟨hname _ (by decide), within_pure _⟩⟩⟩⟩

/-- What `header_check_zip` searches lies in the buffer. -/
def ZipInside (b : ℕ → UInt8) (n : ℕ) (inDoc : Bool) : Prop :=
  inDoc = false → 10 ≤ le16At b 4 → le16At b 26 = 19 → hasBytes b 30 contentName = true → SheetsInside b n

theorem within_headerCheckZip_iff (hn : 512 ≤ n) {inDoc : Bool} :
    Within b n (headerCheckZip inDoc n) ↔ ZipInside b n inDoc := by
  rw [headerCheckZip, within_bind, and_iff_right (within_readLe16 (by omega)), value_readLe16, ZipInside]
  by_cases hlen : le16At b 26 = 0 ∨ 4096 < le16At b 26
  · rw [if_pos hlen]
    exact iff_of_true (within_pure _) fun _ _ h => by omega
  · rw [if_neg hlen, within_bind, and_iff_right (within_readLe16 (by omega)), value_readLe16]
    by_cases hversion : le16At b 4 < 10
    · rw [if_pos hversion]
      exact iff_of_true (within_pure _) fun _ h => by omega
    · rw [if_neg hversion]
      cases inDoc with
      | true => exact iff_of_true (within_pure _) nofun
      | false =>
        rw [if_neg Bool.false_ne_true, within_bind, and_iff_left (within_pure _), within_zipExtension_iff hn,
          imp_iff_right rfl, imp_iff_right (not_lt.mp hversion)]

/-- What a header check looks at lies in the buffer. -/
def HeaderKind.Inside (b : ℕ → UInt8) (n : ℕ) : HeaderKind → Prop
  | .sig => SigInside b n setup.signatures
  | .zip => ZipInside b n setup.inDoc
  | .other _ => True

theorem within_read_iff (hn : 512 ≤ n) (kind : HeaderKind) (r : RecoveryNew) :
    Within b n (kind.read setup n r) ↔ kind.Inside setup b n := by
  cases kind with
  | sig => exact within_bind.trans ((and_iff_left (within_pure _)).trans within_headerCheckSig)
  | zip => exact within_bind.trans ((and_iff_left (within_pure _)).trans (within_headerCheckZip_iff hn))
  | other check => exact iff_of_true nofun trivial

theorem within_readTextLoop (sample m i printable nulls : ℕ) (h : i + m ≤ n) :
    Within b n (readTextLoop sample m i printable nulls) := by
  induction m generalizing i printable nulls with
  | zero => exact within_pure _
  | succ m ih =>
    refine within_bind.mpr ⟨within_byteAt.mpr (by omega), ?_⟩
    exact within_ite (fun _ => within_pure _) fun _ => within_ite (fun _ => within_pure _) fun _ => ih _ _ _ (by omega)

theorem within_readText : Within b n (readText n) := within_readTextLoop _ _ _ _ _ (by omega)

variable {setup ctx} {l : List (FileCheckList HeaderKind)}

/-- One signature and its header check. -/
theorem within_readStep_iff (hsize : 512 ≤ ctx.bufferSize) {fc : FileCheck HeaderKind} (hlong : fc.isLong = true)
    (st : HeaderScan) :
    Within ctx.buffer ctx.bufferSize (st.readStep setup ctx fc) ↔
      fc.inside ctx.bufferSize = true ∧
        (fc.equals ctx.buffer = true → fc.check.headerCheck.Inside setup ctx.buffer ctx.bufferSize) := by
  have hne : fc.check.value ≠ [] := by
    rintro h
    rw [FileCheck.isLong, h] at hlong
    exact absurd hlong (by decide)
  rw [HeaderScan.readStep, within_bind, within_memcmpAt, imp_iff_right hne, value_memcmpAt, FileCheck.inside,
    decide_eq_true_iff, FileCheck.equals]
  refine and_congr_right fun _ => ?_
  split
  next hequal =>
    rw [imp_iff_right hequal, within_bind, within_read_iff setup hsize, and_iff_left]
    refine within_ite (fun _ => ?_) fun _ => within_pure _
    exact within_bind.mpr ⟨within_andThen (within_pure _) fun _ => within_bind.mpr ⟨within_readText, within_pure _⟩,
      within_pure _⟩
  next hequal => exact iff_of_true (within_pure _) fun h => absurd h hequal

variable (setup ctx) in
/-- The signatures that are compared lie in the buffer, and so does what the header checks of those that match look at. -/
def LooksInside (l : List (FileCheckList HeaderKind)) : Prop :=
  ∀ fc ∈ visited ctx.buffer ctx.bufferSize l, fc.inside ctx.bufferSize = true ∧
    (fc.equals ctx.buffer = true → fc.check.headerCheck.Inside setup ctx.buffer ctx.bufferSize)

/-- **Nothing behind the buffer** is looked at. -/
theorem within_readHeader_iff (hsize : 512 ≤ ctx.bufferSize) :
    Within ctx.buffer ctx.bufferSize (readHeader setup ctx l) ↔ LooksInside setup ctx l := by
  have helement : ∀ pos ∈ l, ∀ st : HeaderScan, Within ctx.buffer ctx.bufferSize (st.readElement setup ctx pos) ↔
      ∀ fc ∈ (pos.candidates ctx.buffer ctx.bufferSize).filter FileCheck.isLong, fc.inside ctx.bufferSize = true ∧
        (fc.equals ctx.buffer = true → fc.check.headerCheck.Inside setup ctx.buffer ctx.bufferSize) := by
    intro pos _ st
    unfold HeaderScan.readElement FileCheckList.candidates
    split_ifs with hin
    · exact iff_of_true (within_pure _) nofun
    · rw [within_bind, and_iff_right (within_byteAt.mpr (not_le.mp hin)), value_byteAt]
      exact within_foldOver (fun fc hfc st => within_readStep_iff hsize (mem_filter.mp hfc).2 st) st
  rw [readHeader, within_bind, and_iff_left (within_pure _), within_foldOver helement, LooksInside, visited]
  simp only [mem_flatMap, forall_exists_index, and_imp]
  exact ⟨fun h fc pos hpos hfc => h pos hpos fc hfc, fun h pos hpos fc hfc => h fc pos hpos hfc⟩

/-- **Signature checks stay inside the buffer** exactly if the signatures that come to be compared do, and a file that is
taken for a zip file of parts shows its sheets within the buffer if it is shorter than 2000 bytes. -/
theorem checks_within_iff (registered : List (FileCheck HeaderKind)) (setup : HeaderSetup) (ctx : HeaderContext)
    (hsize : 512 ≤ ctx.bufferSize) :
    (Within ctx.buffer ctx.bufferSize (readHeader setup ctx (indexOf registered)) ∧
        ∀ hint, Within ctx.buffer ctx.bufferSize (readFooter ctx.bufferSize hint)) ↔
      LooksInside setup ctx (indexOf registered) :=
  (and_iff_left fun hint => within_readFooter _ hint).trans (within_readHeader_iff hsize)

/-! ## One sector -/

/-- A check of a format of the signature file, or of zip files. -/
def kindCheck (offset : ℕ) (value : List UInt8) (kind : HeaderKind) : FileCheck HeaderKind :=
  ⟨⟨offset, value, kind⟩, ⟨none, true, false, .sig kind⟩⟩

/-- Three zeros, as the signature file has them. -/
def zeroSetup : HeaderSetup := ⟨[⟨ascii "zero", [0, 0, 0], 0⟩], false⟩

/-- They are looked for in a sector of zeros. -/
theorem zero_within :
    Within zeroContext.buffer 512 (readHeader zeroSetup zeroContext (indexOf [kindCheck 0 [0, 0, 0] .sig])) := by
  refine ((checks_within_iff [kindCheck 0 [0, 0, 0] .sig] zeroSetup zeroContext (by decide)).mpr ?_).1
  intro fc hfc
  obtain rfl := mem_singleton.mp (show fc ∈ [kindCheck 0 [0, 0, 0] .sig] from hfc)
  refine ⟨rfl, fun _ s hs _ => ?_⟩
  obtain rfl := mem_singleton.mp (show s ∈ zeroSetup.signatures from hs)
  show 0 + 3 ≤ 512
  decide

/-- A local header with the version 20 and the name `[Content_Types].xml`, and nothing behind it. -/
def partsBytes : List UInt8 :=
  [0x50, 0x4b, 3, 4, 20, 0] ++ replicate 20 0 ++ [19, 0, 0, 0] ++ contentName

/-- The sector with it. -/
def partsContext : HeaderContext := ⟨fun i => partsBytes.getD i 0, 512, 0, fun _ => false⟩

/-- The sector with two bytes of the four. -/
def lateContext : HeaderContext := ⟨lateBuffer, 512, 0, fun _ => false⟩

theorem partsBytes_ne (i : ℕ) : partsContext.buffer i ≠ 0x2f := by
  show partsBytes.getD i 0 ≠ 0x2f
  by_cases hi : i < partsBytes.length
  · rw [getD_eq_getElem _ _ hi]
    exact fun h => absurd (h ▸ getElem_mem hi) (by decide : (0x2f : UInt8) ∉ partsBytes)
  · rw [getD_eq_default _ _ (not_lt.mp hi)]
    decide

/-- Nothing that ends in a slash is in the sector. -/
theorem parts_not_contains {needle : List UInt8} (hne : needle ≠ []) (hslash : needle.getLast hne = 0x2f) :
    ¬ Contains partsContext.buffer 512 needle := by
  rintro ⟨i, -, heq⟩
  have hpos := length_pos_iff.mpr hne
  have hlast := hasBytes_iff.mp heq (needle.length - 1) (by omega)
  rw [← getLast_eq_getElem hne, hslash] at hlast
  exact partsBytes_ne _ hlast

/-- **Bytes behind a sector**: those of a signature that starts in it, and those of the search for sheets. -/
theorem sector_not_within :
    ¬ Within lateContext.buffer lateContext.bufferSize
      (readHeader ⟨[⟨[], [1, 2, 3, 4], 510⟩], false⟩ lateContext (indexOf [kindCheck 510 [1, 2, 3, 4] .sig])) ∧
    ¬ Within partsContext.buffer partsContext.bufferSize
      (readHeader ⟨[], false⟩ partsContext (indexOf [kindCheck 0 [0x50, 0x4b, 3, 4] .zip])) := by
  constructor
  · intro h
    have hlooks := (within_readHeader_iff (by decide)).mp h (kindCheck 510 [1, 2, 3, 4] .sig) mem_cons_self
    exact absurd hlooks.1 (by decide)
  · intro h
    have hlooks := (within_readHeader_iff (by decide)).mp h (kindCheck 0 [0x50, 0x4b, 3, 4] .zip) mem_cons_self
    have hsheets : SheetsInside partsContext.buffer 512 := hlooks.2 (by decide) rfl (by decide) (by decide) (by decide)
    rcases hsheets (parts_not_contains (by decide) (by decide)) with hle | hxl
    · exact absurd hle (by decide)
    · exact parts_not_contains (by decide) (by decide) hxl

end RecoveryQt.Signatures
