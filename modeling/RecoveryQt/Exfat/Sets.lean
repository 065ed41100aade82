import RecoveryQt.Exfat.Names
import RecoveryQt.Fat.DirectoryListing

/-!
# The names of exFAT entry sets

* `ExfatSet`, `ExfatItem`: the entries of a file, and a buffer of such sets with other entries between them;
* `ExfatSet.nameEntry_nameRecord`: what a file-name entry adds to the name;
* `ExfatSet.run_entries`, `run_items`: the walk over a set and over a buffer;
* `dirExfatAux_ne_none`: no write is outside a name;
* **`listsNames_iff`**: the names are listed whole if no pair is cut between two entries, and no entry but the first
  starts behind 255 bytes.
-/

namespace RecoveryQt

open List

/-- The entries of a file: its own, the stream extension, the name in entries of 15 units, and others behind them. A
file that is deleted has no bit 7 in the types of its entries. -/
structure ExfatSet where
  chars : List Char
  deleted : Bool
  firstCluster : UInt32
  dataLength : UInt64
  fileByte : ℕ → UInt8
  streamByte : ℕ → UInt8
  nameFlags : ℕ → UInt8
  others : List ExfatEntry
  ne_nil : chars ≠ []
  plain : ∀ c ∈ chars, 0 < c.toNat
  short : (utf16 chars).length ≤ 255
  kind_others : ∀ e ∈ others, e.kind ≠ 0x05 ∧ e.kind ≠ 0x40 ∧ e.kind ≠ 0x41
  inUse_others : ∀ e ∈ others, e.inUse = !deleted
  few : 1 + ((utf16 chars).length + 14) / 15 + others.length ≤ 255

/-- What is listed of a file. -/
structure ExfatListed where
  name : List UInt8
  stIno : UInt32
  stSize : UInt64
  deleted : Bool
  deriving DecidableEq

/-- What is listed of a file of the list, its name up to the zero. -/
def ExfatFile.listed (f : ExfatFile) : ExfatListed := ⟨cString f.name, f.stIno, f.stSize, f.deleted⟩

namespace ExfatSet

variable (x : ExfatSet)

/-- The number of file-name entries. -/
def nameCount : ℕ := ((utf16 x.chars).length + 14) / 15

/-- The type of an entry. -/
def typeByte (t : UInt8) : UInt8 := if x.deleted then t else t ||| 0x80

/-- The file entry. -/
def fileRecord : ExfatEntry := fun i =>
  if i = 0 then x.typeByte 0x05
  else if i = 1 then UInt8.ofNat (1 + x.nameCount + x.others.length)
  else x.fileByte i

/-- The stream extension. -/
def streamRecord : ExfatEntry := fun i =>
  if i = 0 then x.typeByte 0x40
  else if i = 3 then UInt8.ofNat (utf16 x.chars).length
  else if 20 ≤ i ∧ i < 24 then leByte x.firstCluster.toNat (i - 20)
  else if 24 ≤ i then leByte x.dataLength.toNat (i - 24)
  else x.streamByte i

/-- A file-name entry, filled up with zeros. -/
def nameRecord (k : ℕ) : ExfatEntry := fun i =>
  if i = 0 then x.typeByte 0x41
  else if i = 1 then x.nameFlags k
  else leByte ((utf16 x.chars).getD (15 * k + (i - 2) / 2) 0).toNat (i % 2)

/-- The entries of the set. -/
def entries : List ExfatEntry :=
  x.fileRecord :: x.streamRecord :: ((range x.nameCount).map x.nameRecord ++ x.others)

/-- The file as it is. -/
def listed : ExfatListed := ⟨utf8 x.chars, x.firstCluster, x.dataLength, x.deleted⟩

/-- The file as it is listed. -/
def decoded : ExfatListed :=
  ⟨appendPieces (utf16 x.chars) x.nameCount, x.firstCluster, x.dataLength, x.deleted⟩

end ExfatSet

/-- A set, or an entry that starts none. -/
inductive ExfatItem
  | set (x : ExfatSet)
  | other (e : ExfatEntry) (h : e.kind ≠ 0x05)

/-- The entries of an item. -/
def ExfatItem.entries : ExfatItem → List ExfatEntry
  | set x => x.entries
  | other e _ => [e]

/-- The set of an item, if it is to be listed. -/
def ExfatItem.shown (listDeleted : Bool) : ExfatItem → Option ExfatSet
  | set x => if x.deleted = false ∨ listDeleted = true then some x else none
  | other _ _ => none

/-- The files are listed with their names whole, their sizes and their first clusters. -/
def ListsNames (iconv : Iconv) (listDeleted : Bool) (items : List ExfatItem) : Prop :=
  ∃ list, dirExfatAux iconv listDeleted (items.flatMap ExfatItem.entries) = some list ∧
    list.map ExfatFile.listed = (items.filterMap (ExfatItem.shown listDeleted)).map ExfatSet.listed

/-! ## The bytes of entries -/

theorem leByte_add (n i j : ℕ) : leByte n (i + j) = leByte (n / 256 ^ i) j := by
  rw [leByte, leByte, Nat.div_div_eq_div_mul, ← Nat.pow_add]

/-- Four bytes of a number. -/
theorem le32At_leByte {e : ExfatEntry} {n o j : ℕ} (h : ∀ i < 4, e (o + i) = leByte n (j + i)) :
    le32At e o = n / 256 ^ j % 2 ^ 32 := by
  have hlow := leByte_word (n / 256 ^ j)
  have hhigh := leByte_word (n / 256 ^ (j + 2))
  have hdiv : n / 256 ^ (j + 2) = n / 256 ^ j / 65536 := by rw [Nat.pow_add, ← Nat.div_div_eq_div_mul]
  simp only [← leByte_add] at hlow hhigh
  rw [hdiv] at hhigh
  rw [le32At, le16At, le16At, Nat.add_assoc o 2 1, h 1 (by decide), h 2 (by decide), h (2 + 1) (by decide),
    show e o = leByte n (j + 0) from h 0 (by decide), hlow, ← Nat.add_assoc j 2 1, ← Nat.add_zero (j + 2), hhigh]
  omega

namespace ExfatSet

variable {x : ExfatSet}

/-- The types of the entries. -/
theorem typeByte_spec {e : ExfatEntry} {t : UInt8} (ht : t ∈ [(0x05 : UInt8), 0x40, 0x41])
    (h : e 0 = x.typeByte t) : e.kind = t ∧ e.inUse = !x.deleted := by
  rw [ExfatEntry.kind, ExfatEntry.inUse, h, typeByte]
  simp only [mem_cons, not_mem_nil, or_false] at ht
  rcases ht with rfl | rfl | rfl <;> cases x.deleted <;> decide

theorem kind_fileRecord : x.fileRecord.kind = 0x05 := (typeByte_spec (by decide) rfl).1

theorem kind_streamRecord : x.streamRecord.kind = 0x40 := (typeByte_spec (by decide) rfl).1

theorem kind_nameRecord (k : ℕ) : (x.nameRecord k).kind = 0x41 := (typeByte_spec (by decide) rfl).1

/-- All the entries of a set are in use, or all are deleted. -/
theorem inUse_of_mem {e : ExfatEntry} (he : e ∈ x.entries) : e.inUse = !x.deleted := by
  rcases mem_cons.mp he with rfl | he
  · exact (typeByte_spec (t := 0x05) (by decide) rfl).2
  · rcases mem_cons.mp he with rfl | he
    · exact (typeByte_spec (t := 0x40) (by decide) rfl).2
    · rcases mem_append.mp he with he | he
      · obtain ⟨k, -, rfl⟩ := mem_map.mp he
        exact (typeByte_spec (t := 0x41) (by decide) rfl).2
      · exact x.inUse_others e he

/-- The stream extension gives the size and the first cluster. -/
theorem streamRecord_spec : UInt64.ofNat (le32At x.streamRecord 24 + 2 ^ 32 * le32At x.streamRecord 28) = x.dataLength ∧
    UInt32.ofNat (le32At x.streamRecord 20) = x.firstCluster := by
  have hsize : ∀ i < 8, x.streamRecord (24 + i) = leByte x.dataLength.toNat i := by
    intro i hi
    rw [streamRecord, if_neg (by omega), if_neg (by omega), if_neg (by omega), if_pos (by omega), Nat.add_sub_cancel_left]
  have hlow : le32At x.streamRecord 24 = x.dataLength.toNat / 256 ^ 0 % 2 ^ 32 :=
    le32At_leByte fun i hi => (Nat.zero_add i).symm ▸ hsize i (by omega)
  have hhigh : le32At x.streamRecord 28 = x.dataLength.toNat / 256 ^ 4 % 2 ^ 32 :=
    le32At_leByte fun i hi => by
      rw [← hsize (4 + i) (by omega)]
      exact congrArg _ (Nat.add_assoc 24 4 i)
  have hcluster : le32At x.streamRecord 20 = x.firstCluster.toNat / 256 ^ 0 % 2 ^ 32 :=
    le32At_leByte fun i hi => by
      rw [streamRecord, if_neg (by omega), if_neg (by omega), if_pos (by omega), Nat.add_sub_cancel_left, Nat.zero_add]
  have hlt := x.dataLength.toNat_lt
  have hlt' := x.firstCluster.toNat_lt
  constructor
  · rw [hlow, hhigh, show x.dataLength.toNat / 256 ^ 0 % 2 ^ 32 + 2 ^ 32 * (x.dataLength.toNat / 256 ^ 4 % 2 ^ 32) =
      x.dataLength.toNat by omega, UInt64.ofNat_toNat]
  · rw [hcluster, Nat.pow_zero, Nat.div_one, Nat.mod_eq_of_lt hlt', UInt32.ofNat_toNat]

/-- The units of a file-name entry are those of its piece, with zeros behind them. -/
theorem nameUnits_nameRecord (k : ℕ) : (x.nameRecord k).nameUnits =
    namePiece (utf16 x.chars) k ++ replicate (15 - (namePiece (utf16 x.chars) k).length) 0 := by
  rw [← map_getD_range _ _ (show (namePiece (utf16 x.chars) k).length ≤ 15 from length_take_le _ _)]
  refine map_congr_left fun i hi => ?_
  have hi := mem_range.mp hi
  have hlow : x.nameRecord k (2 + 2 * i) = leByte ((utf16 x.chars).getD (15 * k + i) 0).toNat 0 := by
    rw [nameRecord, if_neg (by omega), if_neg (by omega), show (2 + 2 * i - 2) / 2 = i by omega,
      show (2 + 2 * i) % 2 = 0 by omega]
  have hhigh : x.nameRecord k (2 + 2 * i + 1) = leByte ((utf16 x.chars).getD (15 * k + i) 0).toNat 1 := by
    rw [nameRecord, if_neg (by omega), if_neg (by omega), show (2 + 2 * i + 1 - 2) / 2 = i by omega,
      show (2 + 2 * i + 1) % 2 = 1 by omega]
  have hlt := ((utf16 x.chars).getD (15 * k + i) 0).toNat_lt
  rw [le16At, hlow, hhigh, leByte_word, Nat.mod_eq_of_lt hlt, UInt16.ofNat_toNat, getD_eq_getElem?_getD,
    getD_eq_getElem?_getD, namePiece, getElem?_take_of_lt hi, getElem?_drop]

/-- A character of a piece is no zero. -/
theorem pos_of_piece {k : ℕ} {l : List Char} (hl : utf16 l = namePiece (utf16 x.chars) k) : ∀ c ∈ l, 0 < c.toNat := by
  refine utf16_ne_zero_iff.mp fun u hu => utf16_ne_zero_iff.mpr x.plain u ?_
  rw [hl] at hu
  exact mem_of_mem_drop (mem_of_mem_take hu)

/-- **A file-name entry** adds its piece to the name. -/
theorem nameEntry_nameRecord {iconv : Iconv} (h : iconv.Conforms) {name : List UInt8} (hname : name.length = 512)
    (k : ℕ) : ∃ name', nameEntry iconv name (x.nameRecord k).nameUnits = some name' ∧ name'.length = 512 ∧
      cString name' = (cString name).take 255 ++ pieceBytes (utf16 x.chars) k := by
  have hpiece : (x.nameRecord k).nameUnits.takeWhile (· ≠ 0) = namePiece (utf16 x.chars) k := by
    rw [nameUnits_nameRecord, takeWhile_append_replicate rfl]
    refine takeWhile_eq_self_iff.mpr fun u hu => decide_eq_true ?_
    exact utf16_ne_zero_iff.mpr x.plain u (mem_of_mem_drop (mem_of_mem_take hu))
  have hlow : cString ((x.nameRecord k).nameUnits.map UInt16.toUInt8) =
      cString ((namePiece (utf16 x.chars) k).map UInt16.toUInt8) := by
    rw [nameUnits_nameRecord, map_append, map_replicate]
    exact takeWhile_append_replicate rfl _ _
  obtain ⟨name', hrun, hlength, hstring⟩ := nameEntry_eq h.bounded hname
    (show (x.nameRecord k).nameUnits.length = 15 from (length_map _).trans length_range)
  refine ⟨name', hrun, hlength, ?_⟩
  rw [hstring, hpiece, hlow, pieceBytes]
  cases hdecode : decodeUtf16 (namePiece (utf16 x.chars) k) with
  | none => rw [if_neg (by rw [h.refuses _ _ hdecode]; exact Bool.false_ne_true)]
  | some l =>
    have hl := decodeUtf16_eq_some_iff.mp hdecode
    have hend : nameEnd name ≤ 255 := Nat.min_le_left _ _
    -- 15 units are 45 bytes at most, and there is room for 256
    have hfits : (utf8 l).length ≤ 511 - nameEnd name := by
      have hle : (namePiece (utf16 x.chars) k).length ≤ 15 := length_take_le _ _
      have hbytes := bytesOf_le (namePiece (utf16 x.chars) k)
      rw [length_utf8, hl]
      omega
    have hplain : cString (utf8 l) = utf8 l := takeWhile_ne_zero fun b hb => by
      obtain ⟨c, hc, hb⟩ := mem_flatMap.mp hb
      exact utf8EncodeChar_ne_zero (pos_of_piece hl c hc) b hb
    rw [← hl, h.converts l _ hfits, if_pos rfl, hplain]

end ExfatSet

/-! ## The walk over a set -/

namespace DirExfat

variable {iconv : Iconv} {listDeleted : Bool}

theorem run_append (s : DirExfat) (l r : List ExfatEntry) : run iconv listDeleted s (l ++ r) =
    (run iconv listDeleted s l).bind fun s => run iconv listDeleted s r := by
  induction l generalizing s with
  | nil => rfl
  | cons e l ih =>
    rw [cons_append, run, run, Option.bind_assoc]
    exact congrArg _ (funext ih)

theorem step_file {e : ExfatEntry} (hshown : e.inUse = true ∨ listDeleted = true) (hkind : e.kind = 0x05)
    (s : DirExfat) : step iconv listDeleted s e = some ⟨s.files, some (exfatNewFile e), (e 1).toNat⟩ := by
  have hnot : ¬(e.inUse = false ∧ listDeleted = false) := by
    rcases hshown with h | h <;> simp [h]
  rw [step, if_neg hnot, if_pos hkind]

theorem step_secondary {e : ExfatEntry} (hshown : e.inUse = true ∨ listDeleted = true) (hkind : e.kind ≠ 0x05)
    (list : List ExfatFile) (f : ExfatFile) (n : ℕ) : step iconv listDeleted ⟨list, some f, n + 1⟩ e =
      (secondary iconv e f).map fun f => ⟨list, some f, n⟩ := by
  have hnot : ¬(e.inUse = false ∧ listDeleted = false) := by
    rcases hshown with h | h <;> simp [h]
  rw [step, if_neg hnot, if_neg hkind]
  exact if_pos (Nat.succ_pos n)

/-- Behind the entries of a file, and in front of all of them, an entry that starts no file is passed over. -/
theorem step_idle {e : ExfatEntry} (hkind : e.kind ≠ 0x05) {s : DirExfat} (hs : s.secCount = 0) :
    step iconv listDeleted s e = some s := by
  obtain ⟨list, current, n⟩ := s
  obtain rfl : n = 0 := hs
  unfold step
  by_cases hhidden : e.inUse = false ∧ listDeleted = false
  · rw [if_pos hhidden]
  · rw [if_neg hhidden, if_neg hkind]
    cases current with
    | none => rfl
    | some f => exact if_neg (Nat.lt_irrefl 0)

/-- Deleted entries that are not to be listed are passed over. -/
theorem run_hidden {l : List ExfatEntry} (h : ∀ e ∈ l, e.inUse = false) (hlist : listDeleted = false) (s : DirExfat) :
    run iconv listDeleted s l = some s := by
  induction l with
  | nil => rfl
  | cons e l ih =>
    rw [run, step, if_pos ⟨h e mem_cons_self, hlist⟩]
    exact ih fun e he => h e (mem_cons_of_mem _ he)

/-- Other entries of a set leave the file as it is. -/
theorem run_others {l : List ExfatEntry} (hshown : ∀ e ∈ l, e.inUse = true ∨ listDeleted = true)
    (hkind : ∀ e ∈ l, e.kind ≠ 0x05 ∧ e.kind ≠ 0x40 ∧ e.kind ≠ 0x41) (list : List ExfatFile) (f : ExfatFile) :
    run iconv listDeleted ⟨list, some f, l.length⟩ l = some ⟨list, some f, 0⟩ := by
  induction l with
  | nil => rfl
  | cons e l ih =>
    obtain ⟨hfile, hstream, hname⟩ := hkind e mem_cons_self
    rw [run, length_cons, step_secondary (hshown e mem_cons_self) hfile, secondary, if_neg hstream, if_neg hname]
    exact ih (fun e he => hshown e (mem_cons_of_mem _ he)) fun e he => hkind e (mem_cons_of_mem _ he)

end DirExfat

namespace ExfatSet

open DirExfat

variable {x : ExfatSet} {iconv : Iconv} {listDeleted : Bool}

theorem shown_of_mem (hx : x.deleted = false ∨ listDeleted = true) {e : ExfatEntry} (he : e ∈ x.entries) :
    e.inUse = true ∨ listDeleted = true := by
  rw [inUse_of_mem he]
  rcases hx with h | h
  · exact .inl (by rw [h]; rfl)
  · exact .inr h

/-- **The name entries** put the name together, piece by piece. -/
theorem run_nameRecords (h : iconv.Conforms) (hx : x.deleted = false ∨ listDeleted = true) {f : ExfatFile}
    (hlength : f.name.length = 512) (hempty : cString f.name = []) (list : List ExfatFile) {m : ℕ}
    (hm : m ≤ x.nameCount) (n : ℕ) : ∃ name, run iconv listDeleted ⟨list, some f, m + n⟩ ((range m).map x.nameRecord) =
      some ⟨list, some { f with name := name }, n⟩ ∧ name.length = 512 ∧
        cString name = appendPieces (utf16 x.chars) m := by
  induction m generalizing n with
  | zero => exact ⟨f.name, by rw [Nat.zero_add]; rfl, hlength, hempty⟩
  | succ m ih =>
    obtain ⟨name, hrun, hname, hpieces⟩ := ih (Nat.le_of_succ_le hm) (n + 1)
    obtain ⟨name', hentry, hname', hpieces'⟩ := nameEntry_nameRecord (x := x) h hname m
    have hmem : x.nameRecord m ∈ x.entries := mem_cons_of_mem _ (mem_cons_of_mem _
      (mem_append_left _ (mem_map_of_mem (mem_range.mpr hm))))
    have hkind := kind_nameRecord (x := x) m
    have hstep : secondary iconv (x.nameRecord m) { f with name := name } = some { f with name := name' } := by
      rw [secondary, if_neg (by rw [hkind]; decide), if_pos hkind, hentry]
      rfl
    refine ⟨name', ?_, hname', by rw [hpieces', hpieces, appendPieces]⟩
    rw [range_succ, map_append, run_append, Nat.add_right_comm, Nat.add_assoc, hrun, Option.bind_some, map_singleton, run,
      step_secondary (shown_of_mem hx hmem) (by rw [hkind]; decide), hstep]
    rfl

/-- **The entries of a set** list its file. -/
theorem run_entries (h : iconv.Conforms) (hx : x.deleted = false ∨ listDeleted = true) (s : DirExfat) :
    ∃ f : ExfatFile, run iconv listDeleted s x.entries = some ⟨s.files, some f, 0⟩ ∧ f.listed = x.decoded := by
  have hcount : (x.fileRecord 1).toNat = x.nameCount + x.others.length + 1 := by
    have hfew := x.few
    have hlt : 1 + x.nameCount + x.others.length < 256 := Nat.lt_succ_of_le hfew
    calc (x.fileRecord 1).toNat = 1 + x.nameCount + x.others.length := UInt8.toNat_ofNat_of_lt' hlt
      _ = x.nameCount + x.others.length + 1 := by rw [Nat.add_assoc, Nat.add_comm]
  have hstream : secondary iconv x.streamRecord (exfatNewFile x.fileRecord) =
      some { exfatNewFile x.fileRecord with stSize := x.dataLength, stIno := x.firstCluster } := by
    rw [secondary, if_pos kind_streamRecord, streamRecord_spec.1, streamRecord_spec.2]
  obtain ⟨name, hrun, -, hpieces⟩ := run_nameRecords (f := { exfatNewFile x.fileRecord with
    stSize := x.dataLength, stIno := x.firstCluster }) h hx length_replicate rfl s.files (Nat.le_refl _) x.others.length
  have hothers : ∀ e ∈ x.others, e ∈ x.entries := fun e he =>
    mem_cons_of_mem _ (mem_cons_of_mem _ (mem_append_right _ he))
  refine ⟨{ exfatNewFile x.fileRecord with stSize := x.dataLength, stIno := x.firstCluster, name := name }, ?_, ?_⟩
  · rw [entries, run, step_file (shown_of_mem hx mem_cons_self) kind_fileRecord, hcount, Option.bind_some, run,
      step_secondary (shown_of_mem hx (mem_cons_of_mem _ mem_cons_self)) (by rw [kind_streamRecord]; decide), hstream,
      Option.map_some, Option.bind_some, run_append, hrun, Option.bind_some,
      run_others (fun e he => shown_of_mem hx (hothers e he)) x.kind_others]
  · have hdeleted : (exfatNewFile x.fileRecord).deleted = x.deleted := by
      show (!x.fileRecord.inUse) = _
      rw [inUse_of_mem mem_cons_self, Bool.not_not]
    rw [ExfatFile.listed, decoded, hpieces, hdeleted]

theorem length_le_nameCount : (utf16 x.chars).length ≤ 15 * x.nameCount := by
  unfold nameCount
  omega

theorem decoded_eq_listed_iff : x.decoded = x.listed ↔ UncutPieces (utf16 x.chars) x.nameCount := by
  rw [← goodPieces_iff length_le_nameCount, ← appendPieces_eq_utf8_iff length_le_nameCount, decoded, listed,
    ExfatListed.mk.injEq]
  exact ⟨fun h => h.1, fun h => ⟨h, rfl, rfl, rfl⟩⟩

end ExfatSet

/-! ## The walk over a buffer -/

section Buffer

variable {iconv : Iconv} {listDeleted : Bool}

/-- **The files of a buffer** are listed with the names put together. -/
theorem run_items (h : iconv.Conforms) (items : List ExfatItem) {s : DirExfat} (hs : s.secCount = 0) :
    ∃ s', DirExfat.run iconv listDeleted s (items.flatMap ExfatItem.entries) = some s' ∧ s'.secCount = 0 ∧
      s'.files.map ExfatFile.listed =
        s.files.map ExfatFile.listed ++ (items.filterMap (ExfatItem.shown listDeleted)).map ExfatSet.decoded := by
  induction items generalizing s with
  | nil => exact ⟨s, rfl, hs, (append_nil _).symm⟩
  | cons item items ih =>
    rw [flatMap_cons, DirExfat.run_append, filterMap_cons]
    match item with
    | .other e hkind =>
      obtain ⟨s', hrun, hs', hfiles⟩ := ih hs
      refine ⟨s', ?_, hs', hfiles⟩
      show ((DirExfat.step iconv listDeleted s e).bind some).bind _ = _
      rw [DirExfat.step_idle hkind hs]
      exact hrun
    | .set x =>
      show ∃ s', ((DirExfat.run iconv listDeleted s x.entries).bind _) = some s' ∧ _
      rw [ExfatItem.shown]
      by_cases hx : x.deleted = false ∨ listDeleted = true
      · obtain ⟨f, hset, hf⟩ := ExfatSet.run_entries h hx s
        obtain ⟨s', hrun, hs', hfiles⟩ := ih (s := ⟨s.files, some f, 0⟩) rfl
        refine ⟨s', by rw [hset]; exact hrun, hs', ?_⟩
        rw [hfiles, if_pos hx, map_cons, ← hf]
        show map _ (s.files ++ [f]) ++ _ = _
        rw [map_append, append_assoc]
        rfl
      · rw [not_or, Bool.not_eq_false, Bool.not_eq_true] at hx
        have hidden : ∀ e ∈ x.entries, e.inUse = false := fun e he => by
          rw [ExfatSet.inUse_of_mem he, hx.1]
          rfl
        obtain ⟨s', hrun, hs', hfiles⟩ := ih hs
        refine ⟨s', by rw [DirExfat.run_hidden hidden hx.2]; exact hrun, hs', ?_⟩
        rw [hfiles, hx.1, hx.2, if_neg (by decide)]

/-- A step keeps the buffer of the name at its size. -/
theorem DirExfat.step_ne_none (h : iconv.Bounded) (e : ExfatEntry) {s : DirExfat}
    (hs : ∀ f ∈ s.current, f.name.length = 512) :
    ∃ s', step iconv listDeleted s e = some s' ∧ ∀ f ∈ s'.current, f.name.length = 512 := by
  obtain ⟨list, current, n⟩ := s
  unfold step
  split_ifs with hhidden hfile hn
  · exact ⟨_, rfl, hs⟩
  · refine ⟨_, rfl, fun f hf => ?_⟩
    obtain rfl := Option.some.inj hf
    exact length_replicate
  · cases current with
    | none => exact ⟨_, rfl, hs⟩
    | some f =>
      have hf : f.name.length = 512 := hs f rfl
      have hsecondary : ∃ f', secondary iconv e f = some f' ∧ f'.name.length = 512 := by
        unfold secondary
        split_ifs with hstream hname
        · exact ⟨_, rfl, hf⟩
        · obtain ⟨name, hentry, hlength, -⟩ := nameEntry_eq h hf (show e.nameUnits.length = 15 from
            (length_map _).trans length_range)
          exact ⟨{ f with name := name }, by rw [hentry]; rfl, hlength⟩
        · exact ⟨f, rfl, hf⟩
      obtain ⟨f', hf', hlength⟩ := hsecondary
      refine ⟨⟨list, some f', n - 1⟩, congrArg (Option.map _) hf', fun g hg => ?_⟩
      obtain rfl := Option.some.inj hg
      exact hlength
  · cases current <;> exact ⟨_, rfl, hs⟩

/-- **No write is outside a name**, whatever the entries are. -/
theorem dirExfatAux_ne_none (h : iconv.Bounded) (entries : List ExfatEntry) :
    ∃ list, dirExfatAux iconv listDeleted entries = some list := by
  have hrun : ∀ s : DirExfat, (∀ f ∈ s.current, f.name.length = 512) →
      ∃ s', DirExfat.run iconv listDeleted s entries = some s' := by
    induction entries with
    | nil => exact fun s _ => ⟨s, rfl⟩
    | cons e entries ih =>
      intro s hs
      obtain ⟨s', hstep, hs'⟩ := DirExfat.step_ne_none h e hs
      obtain ⟨s'', hrun⟩ := ih s' hs'
      exact ⟨s'', by rw [DirExfat.run, hstep]; exact hrun⟩
  obtain ⟨s', hs'⟩ := hrun ⟨[], none, 0⟩ fun f hf => by cases hf
  exact ⟨s'.files, by rw [dirExfatAux, hs']; rfl⟩

end Buffer

/-- **The names are listed whole** exactly when no pair of a listed one is cut between two entries, and no entry starts
behind 255 bytes of it; and no write is outside a name, whatever the buffer holds. -/
theorem listsNames_iff {iconv : Iconv} (h : iconv.Conforms) (listDeleted : Bool) :
    (∀ entries, ∃ list, dirExfatAux iconv listDeleted entries = some list) ∧
      ∀ items, ListsNames iconv listDeleted items ↔
        ∀ x ∈ items.filterMap (ExfatItem.shown listDeleted), UncutPieces (utf16 x.chars) x.nameCount := by
  refine ⟨dirExfatAux_ne_none h.bounded, fun items => ?_⟩
  obtain ⟨s', hrun, -, hfiles⟩ := run_items h items (s := ⟨[], none, 0⟩) rfl
  have hlist : dirExfatAux iconv listDeleted (items.flatMap ExfatItem.entries) = some s'.files := by
    rw [dirExfatAux, hrun]
    rfl
  rw [ListsNames, hlist]
  calc (∃ list, some s'.files = some list ∧ list.map ExfatFile.listed =
        (items.filterMap (ExfatItem.shown listDeleted)).map ExfatSet.listed) ↔
      (items.filterMap (ExfatItem.shown listDeleted)).map ExfatSet.decoded =
        (items.filterMap (ExfatItem.shown listDeleted)).map ExfatSet.listed := by
        constructor
        · rintro ⟨list, hlist, hlisted⟩
          obtain rfl := Option.some.inj hlist
          exact hfiles.symm.trans hlisted
        · exact fun hlisted => ⟨_, rfl, hfiles.trans hlisted⟩
    _ ↔ ∀ x ∈ items.filterMap (ExfatItem.shown listDeleted), x.decoded = x.listed := map_inj_left
    _ ↔ _ := forall₂_congr fun x _ => ExfatSet.decoded_eq_listed_iff

/-! ## A conversion -/

/-- A character written out, if there is room for it, and what comes behind it. -/
def emitChar (c : Char) (n : ℕ) (next : ℕ → IconvResult) : IconvResult :=
  let b := String.utf8EncodeChar c
  if b.length ≤ n then ⟨(next (n - b.length)).ok, b ++ (next (n - b.length)).out⟩ else ⟨false, []⟩

/-- A conversion from UTF-16 to UTF-8, which writes what it can. -/
def utf16Iconv : List UInt16 → ℕ → IconvResult
  | [], _ => ⟨true, []⟩
  | [u], n =>
    if IsHigh u ∨ IsLow u then ⟨false, []⟩ else emitChar (Char.ofNat u.toNat) n fun _ => ⟨true, []⟩
  | u :: v :: l, n =>
    if IsLow u then ⟨false, []⟩
    else if IsHigh u then
      if IsLow v then
        emitChar (Char.ofNat (0x10000 + (u.toNat - 0xD800) * 0x400 + (v.toNat - 0xDC00))) n fun n => utf16Iconv l n
      else ⟨false, []⟩
    else emitChar (Char.ofNat u.toNat) n fun n => utf16Iconv (v :: l) n

theorem length_emitChar_le (c : Char) (n : ℕ) {next : ℕ → IconvResult} (h : ∀ m, (next m).out.length ≤ m) :
    (emitChar c n next).out.length ≤ n := by
  unfold emitChar
  dsimp only
  split_ifs with hfits
  · have := h (n - (String.utf8EncodeChar c).length)
    rw [length_append]
    omega
  · exact Nat.zero_le n

theorem emitChar_of_le {c : Char} {n : ℕ} {b : List UInt8} {next : ℕ → IconvResult}
    (hfits : (String.utf8EncodeChar c).length + b.length ≤ n)
    (hnext : ∀ m, b.length ≤ m → next m = ⟨true, b⟩) : emitChar c n next = ⟨true, String.utf8EncodeChar c ++ b⟩ := by
  unfold emitChar
  dsimp only
  rw [if_pos (by omega), hnext _ (by omega)]

theorem emitChar_fails {c : Char} {n : ℕ} {next : ℕ → IconvResult} (h : ∀ m, (next m).ok = false) :
    (emitChar c n next).ok = false := by
  unfold emitChar
  dsimp only
  split_ifs
  · exact h _
  · rfl

/-- Behind a character, it does what it does with the units behind it. -/
theorem emitChar_conforms {c : Char} {n : ℕ} {units : List UInt16} {next : ℕ → IconvResult}
    (h : ∀ m, (∀ l, decodeUtf16 units = some l → (utf8 l).length ≤ m → next m = ⟨true, utf8 l⟩) ∧
      (decodeUtf16 units = none → (next m).ok = false)) :
    (∀ l, (decodeUtf16 units).map (cons c) = some l → (utf8 l).length ≤ n → emitChar c n next = ⟨true, utf8 l⟩) ∧
      ((decodeUtf16 units).map (cons c) = none → (emitChar c n next).ok = false) := by
  refine ⟨fun l hl hfits => ?_, fun hnone => ?_⟩
  · obtain ⟨l', hl', rfl⟩ := Option.map_eq_some_iff.mp hl
    rw [utf8, flatMap_cons, length_append] at hfits
    exact emitChar_of_le hfits fun m hm => (h m).1 l' hl' hm
  · exact emitChar_fails fun m => (h m).2 (Option.map_eq_none_iff.mp hnone)

/-- Units are converted if they are a text. -/
theorem utf16Iconv_spec (units : List UInt16) (n : ℕ) :
    (∀ l, decodeUtf16 units = some l → (utf8 l).length ≤ n → utf16Iconv units n = ⟨true, utf8 l⟩) ∧
      (decodeUtf16 units = none → (utf16Iconv units n).ok = false) := by
  have hnil : ∀ m : ℕ, (∀ l, decodeUtf16 [] = some l → (utf8 l).length ≤ m →
      (⟨true, []⟩ : IconvResult) = ⟨true, utf8 l⟩) ∧ (decodeUtf16 [] = none → (true : Bool) = false) := by
    intro m
    refine ⟨fun l hl _ => ?_, fun h => absurd h (Option.some_ne_none _)⟩
    obtain rfl := Option.some.inj hl
    rfl
  fun_induction utf16Iconv units n with
  | case1 n => exact hnil n
  | case2 n u hhalf =>
    rw [decodeUtf16, if_pos hhalf]
    exact ⟨fun _ hl => absurd hl.symm (Option.some_ne_none _), fun _ => rfl⟩
  | case3 n u hhalf =>
    rw [not_or] at hhalf
    rw [decodeUtf16_cons hhalf.1 hhalf.2]
    exact emitChar_conforms hnil
  | case4 n u v l hlow =>
    rw [decodeUtf16, if_pos hlow]
    exact ⟨fun _ hl => absurd hl.symm (Option.some_ne_none _), fun _ => rfl⟩
  | case5 n u v l hlow hhigh hv ih =>
    rw [decodeUtf16, if_neg hlow, if_pos hhigh, if_pos hv]
    exact emitChar_conforms ih
  | case6 n u v l hlow hhigh hv =>
    rw [decodeUtf16, if_neg hlow, if_pos hhigh, if_neg hv]
    exact ⟨fun _ hl => absurd hl.symm (Option.some_ne_none _), fun _ => rfl⟩
  | case7 n u v l hlow hhigh ih =>
    rw [decodeUtf16_cons hhigh hlow]
    exact emitChar_conforms ih

/-- **It behaves as it is to.** -/
theorem utf16Iconv_conforms : Iconv.Conforms utf16Iconv where
  bounded := by
    intro units n
    fun_induction utf16Iconv units n with
    | case1 => exact Nat.zero_le _
    | case2 => exact Nat.zero_le _
    | case3 => exact length_emitChar_le _ _ fun m => Nat.zero_le m
    | case4 => exact Nat.zero_le _
    | case5 _ _ _ _ _ _ _ ih => exact length_emitChar_le _ _ ih
    | case6 => exact Nat.zero_le _
    | case7 _ _ _ _ _ _ ih => exact length_emitChar_le _ _ ih
  converts l n hfits := (utf16Iconv_spec (utf16 l) n).1 l (decodeUtf16_utf16 l) hfits
  refuses units n hnone := (utf16Iconv_spec units n).2 hnone

/-! ## A pair at the end of an entry -/

/-- Letters, a character of two units, and a letter. -/
def pairName (n : ℕ) : List Char := replicate n 'a' ++ [Char.ofNat 0x1F600, 'b']

theorem pairName_ne_nil (n : ℕ) : pairName n ≠ [] := append_ne_nil_of_right_ne_nil _ (cons_ne_nil _ _)

theorem pos_of_mem_pairName {n : ℕ} : ∀ c ∈ pairName n, 0 < c.toNat := by
  intro c hc
  rcases mem_append.mp hc with hc | hc
  · rw [eq_of_mem_replicate hc]
    decide
  · rcases mem_pair.mp hc with rfl | rfl <;> decide

theorem length_pairName {n : ℕ} (hn : n ≤ 14) : (utf16 (pairName n)).length ≤ 255 ∧
    1 + ((utf16 (pairName n)).length + 14) / 15 + ([] : List ExfatEntry).length ≤ 255 := by
  have hall : ∀ n ≤ 14, (utf16 (pairName n)).length ≤ 255 ∧
      1 + ((utf16 (pairName n)).length + 14) / 15 + ([] : List ExfatEntry).length ≤ 255 := by decide +kernel
  exact hall n hn

/-- A file with that name. -/
def pairSet (n : ℕ) (hn : n ≤ 14) : ExfatSet where
  chars := pairName n
  deleted := false
  firstCluster := 5
  dataLength := 4096
  fileByte := fun _ => 0
  streamByte := fun _ => 0
  nameFlags := fun _ => 0
  others := []
  ne_nil := pairName_ne_nil n
  plain := pos_of_mem_pairName
  short := (length_pairName hn).1
  kind_others := fun _ he => absurd he not_mem_nil
  inUse_others := fun _ he => absurd he not_mem_nil
  few := (length_pairName hn).2

/-- Fourteen letters are in front of a pair that is cut. -/
theorem pairSet_not_listsNames :
    Iconv.Conforms utf16Iconv ∧ ¬ ListsNames utf16Iconv false [.set (pairSet 14 (Nat.le_refl 14))] := by
  refine ⟨utf16Iconv_conforms, ?_⟩
  rintro ⟨list, hrun, hlisted⟩
  have hfiles : (dirExfatAux utf16Iconv false
      ([ExfatItem.set (pairSet 14 (Nat.le_refl 14))].flatMap ExfatItem.entries)).map (map ExfatFile.listed) =
        some [(pairSet 14 (Nat.le_refl 14)).listed] := by
    rw [hrun, Option.map_some, hlisted]
    rfl
  exact absurd hfiles (by decide +kernel)

/-- Thirteen are in front of one that is not. -/
theorem pairSet_listsNames : ListsNames utf16Iconv false [.set (pairSet 13 (by decide))] := by
  refine ((listsNames_iff utf16Iconv_conforms false).2 _).mpr fun x hx => ?_
  obtain rfl := mem_singleton.mp hx
  have hall : ∀ i < 2, (((utf16 (pairName 13)).drop (15 * i)).head?.all fun u => decide (¬ IsLow u)) = true ∧
      bytesOf ((utf16 (pairName 13)).take (15 * i)) ≤ 255 := by decide +kernel
  refine fun i hi => ⟨fun u hu => ?_, (hall i hi).2⟩
  have hnot := (hall i hi).1
  rw [show ((utf16 (pairName 13)).drop (15 * i)).head? = some u from hu] at hnot
  exact of_decide_eq_true hnot

end RecoveryQt
