import RecoveryQt.Iso.Names
import Mathlib.Algebra.Order.BigOperators.Group.List

/-!
# When an ISO 9660 directory is listed exactly

* `IsoDirectory.extent`: a directory as it is read; `IsoDirectory.ListsExactly`: its files and directories are listed
  once and in order;
* `parseFrom_record`, `parseFrom_padding`: a record, and the zeros at the end of a block;
* `parseFrom_blocks`: the records of all blocks are read one after the other;
* `foldRecords_items`: what the loop makes of the records of the files;
* **`listsExactly_iff`**: the listing is exact if no Joliet name has a version and each file starts with data, and every
  directory is parsed to its end.
-/

namespace RecoveryQt

open List

/-! ## Steps of the loop -/

namespace IsoRecord

/-- The header of a record. -/
def header (r : IsoRecord) : IsoHeader := ⟨r.extent, r.dataLength, r.flags⟩

end IsoRecord

/-- What the loop makes of records. -/
def foldRecords (joliet : Bool) : List IsoRecord → UInt64 → UInt32 → Option (List FileInfo)
  | [], _, _ => some []
  | r :: rs, multiSize, multiExtent =>
    if r.header.isMulti then
      foldRecords joliet rs (multiSize + r.dataLength.toUInt64) (if multiSize = 0 then r.extent else multiExtent)
    else (isoFile joliet r.encode r.header multiSize multiExtent).bind fun file =>
      (foldRecords joliet rs 0 0).map (cons file)

namespace IsoExtent

variable {e : IsoExtent} {pre rest : List UInt8} {offset : ℕ} {multiSize : UInt64} {multiExtent : UInt32}

theorem parseFrom_of_le (h : e.bytes.length ≤ offset + 33) : e.parseFrom offset multiSize multiExtent = some [] := by
  rw [parseFrom, dif_neg (Nat.not_lt.mpr h)]

theorem parseFrom_zero (h : offset + 33 < e.bytes.length) (hzero : e.bytes[offset]? = some 0) :
    e.parseFrom offset multiSize multiExtent =
      e.parseFrom ((offset / e.blockSize + 1) * e.blockSize) multiSize multiExtent := by
  conv_lhs => unfold parseFrom
  rw [dif_pos h]
  simp only [hzero, dif_pos]

/-- **A record.** -/
theorem parseFrom_record {r : IsoRecord} (h : e.bytes = pre ++ (r.encode ++ rest)) :
    e.parseFrom pre.length multiSize multiExtent =
      if r.header.isMulti then e.parseFrom (pre.length + r.length) (multiSize + r.dataLength.toUInt64)
        (if multiSize = 0 then r.extent else multiExtent)
      else (isoFile e.joliet r.encode r.header multiSize multiExtent).bind fun file =>
        (e.parseFrom (pre.length + r.length) 0 0).map (cons file) := by
  have hbounds := r.length_bounds
  have hlength : e.bytes.length = pre.length + (r.length + rest.length) := by
    rw [h, length_append, length_append, r.length_encode]
  have hread : e.bytes[pre.length]? = some (UInt8.ofNat r.length) := by
    rw [h, getElem?_append_right (Nat.le_refl _), Nat.sub_self,
      getElem?_append_left (by rw [r.length_encode]; omega), r.getElem?_encode_zero]
  have hrecord : bytesAt e.bytes pre.length (UInt8.ofNat r.length).toNat = some r.encode :=
    bytesAt_mid h rfl (by rw [r.toNat_length, r.length_encode])
  have hzero : UInt8.ofNat r.length ≠ 0 := by
    intro h0
    have := congrArg UInt8.toNat h0
    rw [r.toNat_length] at this
    exact absurd this (by simp only [UInt8.toNat_zero]; omega)
  have hname : 33 + r.identifier.length ≤ r.length := by
    unfold IsoRecord.length
    omega
  conv_lhs => unfold parseFrom
  rw [dif_pos (by omega)]
  simp only [hread]
  rw [dif_neg hzero, dif_neg (by rw [r.toNat_length]; omega)]
  simp only [hrecord, r.getElem?_encode_nameLen, r.isoHeader_encode]
  rw [r.toNat_length, r.toNat_nameLen, if_neg (Nat.not_lt.mpr hname)]
  rw [← IsoRecord.header]
  split_ifs
  · rfl
  · rfl
  · cases isoFile e.joliet r.encode r.header multiSize multiExtent <;> rfl

end IsoExtent

/-! ## Blocks -/

namespace IsoDirectory

variable (d : IsoDirectory)

theorem length_flatMap_encode (b : List IsoRecord) :
    (b.flatMap IsoRecord.encode).length = (b.map IsoRecord.length).sum := by
  rw [length_flatMap]
  exact congrArg List.sum (map_congr_left fun r _ => r.length_encode)

variable {d} in
theorem length_blockBytes {b : List IsoRecord} (h : b ∈ d.blocks) : (d.blockBytes b).length = d.blockSize := by
  have hle := d.inBlock b h
  rw [blockBytes, length_append, length_flatMap_encode, length_replicate]
  omega

theorem length_bytes : d.bytes.length = d.blocks.length * d.blockSize := by
  have hblock : d.blocks.map (fun b => (d.blockBytes b).length) = d.blocks.map fun _ => d.blockSize :=
    map_congr_left fun b hb => length_blockBytes hb
  rw [bytes, length_flatMap, hblock, map_const', sum_replicate_nat]

/-- The directory as it is read. -/
def extent : IsoExtent where
  bytes := d.bytes
  blockSize := d.blockSize
  joliet := d.joliet
  blockSize_pos := Nat.lt_of_lt_of_le (by decide) d.blockSize_ge
  fits := d.length_bytes ▸ d.fits

variable {d} {multiSize : UInt64} {multiExtent : UInt32}

/-- **The zeros** at the end of a block are passed over. -/
theorem parseFrom_padding {pre rest : List UInt8} {z k : ℕ} (hbytes : d.bytes = pre ++ (replicate z 0 ++ rest))
    (hpre : k * d.blockSize ≤ pre.length) (hz : pre.length + z = (k + 1) * d.blockSize) :
    d.extent.parseFrom pre.length multiSize multiExtent =
      d.extent.parseFrom ((k + 1) * d.blockSize) multiSize multiExtent := by
  rcases Nat.eq_zero_or_pos z with rfl | hpos
  · rw [← hz, Nat.add_zero]
  have hlength : d.extent.bytes.length = pre.length + (z + rest.length) := by
    show d.bytes.length = _
    rw [hbytes, length_append, length_append, length_replicate]
  rcases Nat.lt_or_ge (pre.length + 33) d.extent.bytes.length with hlt | hge
  · have hzero : d.extent.bytes[pre.length]? = some 0 := by
      obtain ⟨z', rfl⟩ := Nat.exists_eq_succ_of_ne_zero (Nat.ne_of_gt hpos)
      exact getElem?_mid hbytes rfl
    have hdiv : pre.length / d.blockSize = k := by
      rw [Nat.div_eq_iff (show 0 < d.blockSize from d.extent.blockSize_pos)]
      rw [Nat.add_mul, Nat.one_mul] at hz
      have := d.blockSize_ge
      constructor <;> omega
    rw [IsoExtent.parseFrom_zero hlt hzero]
    show d.extent.parseFrom ((pre.length / d.blockSize + 1) * d.blockSize) _ _ = _
    rw [hdiv]
  · rw [IsoExtent.parseFrom_of_le hge, IsoExtent.parseFrom_of_le (by omega)]

/-- Records in a row, when what follows them is known. -/
theorem parseFrom_recs {recs after : List IsoRecord} {pre rest : List UInt8}
    (hbytes : d.bytes = pre ++ (recs.flatMap IsoRecord.encode ++ rest))
    (hafter : ∀ multiSize multiExtent,
      d.extent.parseFrom (pre.length + (recs.flatMap IsoRecord.encode).length) multiSize multiExtent =
        foldRecords d.joliet after multiSize multiExtent) :
    d.extent.parseFrom pre.length multiSize multiExtent =
      foldRecords d.joliet (recs ++ after) multiSize multiExtent := by
  induction recs generalizing pre multiSize multiExtent with
  | nil => exact hafter multiSize multiExtent
  | cons r recs ih =>
    rw [flatMap_cons, append_assoc] at hbytes
    have hbytes' : d.bytes = (pre ++ r.encode) ++ (recs.flatMap IsoRecord.encode ++ rest) := by
      rw [hbytes, append_assoc]
    have hpre : (pre ++ r.encode).length = pre.length + r.length := by rw [length_append, r.length_encode]
    have hnext : ∀ multiSize multiExtent, d.extent.parseFrom (pre.length + r.length) multiSize multiExtent =
        foldRecords d.joliet (recs ++ after) multiSize multiExtent := by
      intro multiSize multiExtent
      rw [← hpre]
      refine ih hbytes' fun multiSize multiExtent => ?_
      rw [← hafter, flatMap_cons, length_append, length_append, Nat.add_assoc]
    have hrecord : d.extent.bytes = pre ++ (r.encode ++ (recs.flatMap IsoRecord.encode ++ rest)) := hbytes
    rw [IsoExtent.parseFrom_record hrecord, cons_append, foldRecords]
    simp only [hnext]
    rfl

/-- **The records of all blocks** are read one after the other. -/
theorem parseFrom_blocks {blocks : List (List IsoRecord)} (hblocks : ∀ b ∈ blocks, b ∈ d.blocks) {k : ℕ}
    {pre : List UInt8} (hbytes : d.bytes = pre ++ blocks.flatMap d.blockBytes) (hpre : pre.length = k * d.blockSize) :
    d.extent.parseFrom pre.length multiSize multiExtent =
      foldRecords d.joliet blocks.flatten multiSize multiExtent := by
  induction blocks generalizing pre k multiSize multiExtent with
  | nil =>
    rw [flatMap_nil, append_nil] at hbytes
    rw [IsoExtent.parseFrom_of_le]
    · rfl
    · show d.bytes.length ≤ _
      rw [hbytes]
      exact Nat.le_add_right _ _
  | cons b blocks ih =>
    have hb := hblocks b mem_cons_self
    have hlength := length_blockBytes hb
    have hnext : (pre ++ d.blockBytes b).length = (k + 1) * d.blockSize := by
      rw [length_append, hlength, hpre, Nat.succ_mul]
    have hbytes' : d.bytes = (pre ++ d.blockBytes b) ++ blocks.flatMap d.blockBytes := by
      rw [hbytes, flatMap_cons, append_assoc]
    have hrecs : d.bytes = pre ++ (b.flatMap IsoRecord.encode ++
        (replicate (d.blockSize - (b.map IsoRecord.length).sum) 0 ++ blocks.flatMap d.blockBytes)) := by
      rw [hbytes, flatMap_cons, blockBytes, append_assoc]
    rw [flatten_cons]
    refine parseFrom_recs hrecs fun multiSize multiExtent => ?_
    have hzeros : d.bytes = (pre ++ b.flatMap IsoRecord.encode) ++
        (replicate (d.blockSize - (b.map IsoRecord.length).sum) 0 ++ blocks.flatMap d.blockBytes) := by
      rw [hrecs, append_assoc]
    have hend : (pre ++ b.flatMap IsoRecord.encode).length + (d.blockSize - (b.map IsoRecord.length).sum) =
        (k + 1) * d.blockSize := by
      rw [← hnext, blockBytes, length_append, length_append, length_append, length_replicate, Nat.add_assoc]
    rw [← length_append, parseFrom_padding hzeros (by rw [length_append, hpre]; exact Nat.le_add_right _ _) hend,
      ← hnext]
    exact ih (fun b' hb' => hblocks b' (mem_cons_of_mem b hb')) hbytes' hnext

theorem isoParseDirBlock_eq :
    d.extent.isoParseDirBlock = foldRecords d.joliet (d.items.flatMap IsoItem.records) 0 0 := by
  rw [← d.flatten_blocks]
  have hpre : ([] : List UInt8).length = 0 * d.blockSize := (Nat.zero_mul _).symm
  exact parseFrom_blocks (fun _ hb => hb) rfl hpre

end IsoDirectory

/-! ## Files -/

/-- A section that is not the last one: the size so far, and the extent. -/
def IsoSection.step (st : UInt64 × UInt32) (s : IsoSection) : UInt64 × UInt32 :=
  (st.1 + s.dataLength.toUInt64, if st.1 = 0 then s.extent else st.2)

/-- The first section that is not empty, if it is not the last one, or else `l`. -/
def firstFilled (l : IsoSection) (first : List IsoSection) : IsoSection :=
  (first.find? fun s => s.dataLength != 0).getD l

section Sections

variable {first : List IsoSection} {st : UInt64 × UInt32}

/-- The sizes of sections. -/
def sizeSum (l : List IsoSection) : ℕ := (l.map fun s => s.dataLength.toNat).sum

theorem toNat_step {s : IsoSection} (h : st.1.toNat + s.dataLength.toNat < 2 ^ 64) :
    (IsoSection.step st s).1.toNat = st.1.toNat + s.dataLength.toNat := by
  show (st.1 + s.dataLength.toUInt64).toNat = _
  rw [UInt64.toNat_add, UInt32.toNat_toUInt64, Nat.mod_eq_of_lt h]

theorem toNat_foldl_step (h : st.1.toNat + sizeSum first < 2 ^ 64) :
    (first.foldl IsoSection.step st).1.toNat = st.1.toNat + sizeSum first := by
  induction first generalizing st with
  | nil => rfl
  | cons s first ih =>
    have hsum : sizeSum (s :: first) = s.dataLength.toNat + sizeSum first := sum_cons
    rw [hsum] at h ⊢
    have hlt : st.1.toNat + s.dataLength.toNat < 2 ^ 64 := by omega
    have hstep := toNat_step hlt
    rw [foldl_cons, ih (by omega), hstep, Nat.add_assoc]

/-- The extent stays when there is data. -/
theorem foldl_step_of_pos (hpos : 0 < st.1.toNat) (h : st.1.toNat + sizeSum first < 2 ^ 64) :
    (first.foldl IsoSection.step st).2 = st.2 := by
  induction first generalizing st with
  | nil => rfl
  | cons s first ih =>
    have hsum : sizeSum (s :: first) = s.dataLength.toNat + sizeSum first := sum_cons
    rw [hsum] at h
    have hlt : st.1.toNat + s.dataLength.toNat < 2 ^ 64 := by omega
    have hstep := toNat_step hlt
    have hne : st.1 ≠ 0 := by
      rintro h0
      rw [h0] at hpos
      exact Nat.lt_irrefl 0 hpos
    rw [foldl_cons, ih (by omega) (by omega)]
    exact if_neg hne

/-- **The extent** of a file is that of its first section that is not empty. -/
theorem extent_foldl_step (l : IsoSection) (extent : UInt32) (h : sizeSum first < 2 ^ 64) :
    (if 0 < (first.foldl IsoSection.step (0, extent)).1 then (first.foldl IsoSection.step (0, extent)).2
      else l.extent) = (firstFilled l first).extent := by
  induction first generalizing extent with
  | nil => rfl
  | cons s first ih =>
    have hsum : sizeSum (s :: first) = s.dataLength.toNat + sizeSum first := sum_cons
    rw [hsum] at h
    by_cases hzero : s.dataLength = 0
    · have hstep : IsoSection.step (0, extent) s = (0, s.extent) := by
        rw [IsoSection.step, hzero]
        rfl
      have hfind : firstFilled l (s :: first) = firstFilled l first := by
        rw [firstFilled, find?_cons_of_neg (by simp [hzero]), firstFilled]
      rw [foldl_cons, hstep, hfind]
      exact ih s.extent (by omega)
    · have hpos : 0 < s.dataLength.toNat :=
        Nat.pos_of_ne_zero fun h0 => hzero (UInt32.toNat_inj.mp h0)
      have hstep : (IsoSection.step (0, extent) s).1.toNat = s.dataLength.toNat := by
        rw [toNat_step (by show (0 : UInt64).toNat + _ < _; rw [UInt64.toNat_zero]; omega)]
        exact Nat.zero_add _
      have hfind : firstFilled l (s :: first) = s := by
        rw [firstFilled, find?_cons_of_pos (by simp [hzero])]
        rfl
      rw [foldl_cons, hfind, foldl_step_of_pos (by omega) (by omega), if_pos]
      · rfl
      · rw [UInt64.lt_iff_toNat_lt, toNat_foldl_step (by omega), UInt64.toNat_zero]
        omega

end Sections

namespace IsoItem

variable {joliet : Bool} (x : IsoItem joliet)

/-- What is listed of a file or directory. -/
def file : FileInfo where
  name := x.name.read
  stIno := (firstFilled x.last x.first).extent.toNat
  stSize := (x.first.foldl IsoSection.step (0, 0)).1 + x.last.dataLength.toUInt64
  tdMtime := UInt64.ofInt (isoDateToUnix x.last.date)
  isDir := x.last.flags &&& 2 != 0
  deleted := false

theorem map_toIsoSection_records : x.records.map IsoRecord.toIsoSection = x.first ++ [x.last] := by
  rw [records, map_map]
  exact attach_map_subtype_val _

theorem identifier_of_mem {r : IsoRecord} (hr : r ∈ x.records) : r.identifier = x.name.identifier := by
  obtain ⟨s, -, rfl⟩ := mem_map.mp hr
  rfl

end IsoItem

/-- Sections that are not the last ones. -/
theorem foldRecords_multi {joliet : Bool} {rs after : List IsoRecord} (h : ∀ r ∈ rs, r.flags &&& 0x80 ≠ 0)
    (st : UInt64 × UInt32) : foldRecords joliet (rs ++ after) st.1 st.2 =
      foldRecords joliet after ((rs.map IsoRecord.toIsoSection).foldl IsoSection.step st).1
        ((rs.map IsoRecord.toIsoSection).foldl IsoSection.step st).2 := by
  induction rs generalizing st with
  | nil => rfl
  | cons r rs ih =>
    have hmulti : r.header.isMulti = true := by simpa [IsoHeader.isMulti, IsoRecord.header] using h r mem_cons_self
    rw [cons_append, foldRecords, if_pos hmulti]
    exact ih (fun r' hr' => h r' (mem_cons_of_mem r hr')) (IsoSection.step st r.toIsoSection)

/-- **The records of files** give these files. -/
theorem foldRecords_items {joliet : Bool} {items : List (IsoItem joliet)}
    (hsize : ∀ x ∈ items, sizeSum x.first < 2 ^ 64) :
    foldRecords joliet (items.flatMap IsoItem.records) 0 0 = some (items.map IsoItem.file) := by
  induction items with
  | nil => rfl
  | cons x items ih =>
    obtain ⟨rs, last, hrecords, hfirst, hlast⟩ : ∃ rs last, x.records = rs ++ [last] ∧
        rs.map IsoRecord.toIsoSection = x.first ∧ last.toIsoSection = x.last := by
      obtain ⟨rs, ls, hrecords, hfirst, hls⟩ := map_eq_append_iff.mp x.map_toIsoSection_records
      obtain ⟨last, rfl, hlast⟩ := map_eq_singleton_iff.mp hls
      exact ⟨rs, last, hrecords, hfirst, hlast⟩
    have hmulti : ∀ r ∈ rs, r.flags &&& 0x80 ≠ 0 :=
      fun r hr => x.multi r.toIsoSection (hfirst ▸ mem_map_of_mem hr)
    have hfinal : ¬ last.header.isMulti = true := by
      have := x.final
      rw [← hlast] at this
      simpa [IsoHeader.isMulti, IsoRecord.header] using this
    have hname : isoNameFromRecord joliet last.encode = some x.name.read := by
      refine isoNameFromRecord_encode x.name (x.identifier_of_mem ?_) ?_
      · rw [hrecords]
        exact mem_append_right _ mem_cons_self
      · rw [hlast, x.last_systemUse]
    have hfile : isoFile joliet last.encode last.header (x.first.foldl IsoSection.step (0, 0)).1
        (x.first.foldl IsoSection.step (0, 0)).2 = some x.file := by
      have hextent := extent_foldl_step x.last 0 (hsize x mem_cons_self)
      simp only [isoFile, hname, last.bytesAt_encode_date, Option.bind_eq_bind, Option.bind_some]
      rw [IsoItem.file, ← hextent, ← hlast]
      rfl
    rw [flatMap_cons, hrecords, append_assoc, foldRecords_multi hmulti (0, 0), hfirst, singleton_append, foldRecords,
      if_neg hfinal, hfile, Option.bind_some, ih fun y hy => hsize y (mem_cons_of_mem x hy), Option.map_some, map_cons]

/-! ## The listing -/

/-- What is listed of a file. -/
def FileInfo.isoListed (f : FileInfo) : IsoListed := ⟨f.name, f.stIno, f.stSize.toNat, f.isDir⟩

theorem IsoName.read_eq_text_iff {joliet : Bool} (name : IsoName joliet) :
    name.read = name.text ↔ ¬ name.HasJolietVersion := by
  cases name with
  | dots parent su => exact iff_of_true rfl not_false
  | plain n => exact iff_of_true rfl not_false
  | joliet n su =>
    show (n.chars ++ n.version.elim [] fun v => ';' :: v).flatMap String.utf8EncodeChar =
      n.chars.flatMap String.utf8EncodeChar ↔ ¬ n.version ≠ none
    rw [flatMap_append, append_right_eq_self, not_not]
    cases n.version with
    | none => exact iff_of_true rfl rfl
    | some v =>
      refine iff_of_false (fun h => ?_) (Option.some_ne_none v)
      have hsemicolon := flatMap_eq_nil_iff.mp h ';' mem_cons_self
      revert hsemicolon
      decide

namespace IsoItem

variable {joliet : Bool} (x : IsoItem joliet)

/-- A name without a Joliet version, and a first section that is where the first data are. -/
structure Fits : Prop where
  name : ¬ x.name.HasJolietVersion
  extent : (firstFilled x.last x.first).extent = (x.first.headD x.last).extent

theorem sizeSum_sections : sizeSum x.sections = sizeSum x.first + x.last.dataLength.toNat := by
  rw [sizeSum, sections, map_append, sum_append, sizeSum]
  rfl

theorem isoListed_file_iff (h : sizeSum x.sections < 2 ^ 64) : x.file.isoListed = x.listed ↔ x.Fits := by
  rw [sizeSum_sections] at h
  have hsize : x.file.stSize.toNat = sizeSum x.sections := by
    have hfirst : (x.first.foldl IsoSection.step (0, 0)).1.toNat = sizeSum x.first := by
      have hlt : ((0, 0) : UInt64 × UInt32).1.toNat + sizeSum x.first < 2 ^ 64 := by
        rw [UInt64.toNat_zero]
        omega
      exact (toNat_foldl_step hlt).trans (Nat.zero_add _)
    show ((x.first.foldl IsoSection.step (0, 0)).1 + x.last.dataLength.toUInt64).toNat = _
    rw [UInt64.toNat_add, hfirst, UInt32.toNat_toUInt64, Nat.mod_eq_of_lt h, sizeSum_sections]
  have hhead : (x.sections.head (by simp [sections])) = x.first.headD x.last := by
    unfold sections
    cases x.first <;> rfl
  rw [FileInfo.isoListed, listed, IsoListed.mk.injEq, hsize, hhead]
  constructor
  · rintro ⟨hname, hextent, -⟩
    exact ⟨x.name.read_eq_text_iff.mp hname, UInt32.toNat_inj.mp hextent⟩
  · intro hfits
    exact ⟨x.name.read_eq_text_iff.mpr hfits.name, congrArg UInt32.toNat hfits.extent, rfl, rfl⟩

end IsoItem

namespace IsoDirectory

variable (d : IsoDirectory)

/-- **Each file and directory is listed once**, in order, with its name, its first extent and its size. -/
def ListsExactly : Prop :=
  ∃ files, d.extent.isoParseDirBlock = some files ∧ files.map FileInfo.isoListed = d.items.map IsoItem.listed

theorem length_records_lt {x : IsoItem d.joliet} (hx : x ∈ d.items) : x.records.length < 2 ^ 32 := by
  have hitems : x.records.length ≤ d.blocks.flatten.length := by
    rw [d.flatten_blocks, flatMap_def]
    exact (sublist_flatten_of_mem (mem_map_of_mem hx)).length_le
  have hblocks : ∀ n ∈ d.blocks.map List.length, n ≤ d.blockSize := by
    intro n hn
    obtain ⟨b, hb, rfl⟩ := mem_map.mp hn
    refine Nat.le_trans ?_ (d.inBlock b hb)
    rw [← length_map IsoRecord.length]
    refine length_le_sum_of_one_le _ fun n hn => ?_
    obtain ⟨r, -, rfl⟩ := mem_map.mp hn
    exact Nat.le_trans (by decide) r.length_bounds.1
  have hsum := sum_le_card_nsmul _ _ hblocks
  rw [length_map, smul_eq_mul, ← length_flatten] at hsum
  have hfits := d.fits
  omega

theorem sizeSum_lt {x : IsoItem d.joliet} (hx : x ∈ d.items) : sizeSum x.sections < 2 ^ 64 := by
  have hlength : x.sections.length = x.records.length := by
    rw [IsoItem.records, length_map, length_attach]
  have hlt := d.length_records_lt hx
  have hle : sizeSum x.sections ≤ x.sections.length * 2 ^ 32 := by
    have hsum := sum_le_card_nsmul (x.sections.map fun s => s.dataLength.toNat) (2 ^ 32) fun n hn => by
      obtain ⟨s, -, rfl⟩ := mem_map.mp hn
      exact s.dataLength.toNat_lt.le
    rwa [length_map, smul_eq_mul] at hsum
  rw [hlength] at hle
  exact Nat.lt_of_le_of_lt hle (by omega)

theorem isoParseDirBlock_items : d.extent.isoParseDirBlock = some (d.items.map IsoItem.file) := by
  rw [isoParseDirBlock_eq]
  refine foldRecords_items fun x hx => ?_
  have hlt := d.sizeSum_lt hx
  rw [x.sizeSum_sections] at hlt
  omega

/-- **A directory is listed exactly** if no Joliet name has a version and each file starts with data; and every
directory is parsed to its end, with reads of its bytes only. -/
theorem listsExactly_iff (e : IsoExtent) (d : IsoDirectory) :
    (∃ files, e.isoParseDirBlock = some files) ∧ (d.ListsExactly ↔ ∀ x ∈ d.items, x.Fits) := by
  refine ⟨e.isoParseDirBlock_isSome, ?_⟩
  unfold ListsExactly
  simp only [d.isoParseDirBlock_items, Option.some.injEq, exists_eq_left', map_map]
  rw [map_eq_map_iff]
  exact forall₂_congr fun x hx => x.isoListed_file_iff (d.sizeSum_lt hx)

end IsoDirectory

/-! ## A Joliet file -/

/-- A section of five bytes at block 20. -/
def fiveBytes : IsoSection where
  xar := 0
  location := 20
  dataLength := 5
  date := replicate 7 0
  length_date := length_replicate
  flags := 0
  unitSize := 0
  gap := 0
  volume := 1
  systemUse := []

theorem versionedName_ne_nil : ['A'] ≠ ([] : List Char) := by decide

theorem versionedName_plain : ∀ c ∈ ['A'] ++ (some ['1']).getD [], 0 < c.toNat ∧ c.toNat < 0x10000 := by
  intro c hc
  rcases mem_pair.mp hc with rfl | rfl <;> decide

/-- `A;1`. -/
def versionedName : JolietName := ⟨['A'], some ['1'], versionedName_ne_nil, versionedName_plain⟩

theorem versionedFile_multi : ∀ s ∈ ([] : List IsoSection), s.flags &&& 0x80 ≠ 0 := by simp

theorem versionedFile_length_le : ∀ s ∈ [] ++ [fiveBytes], 33 + (IsoName.joliet versionedName []).identifier.length +
    (33 + (IsoName.joliet versionedName []).identifier.length) % 2 + s.systemUse.length ≤ 255 := by decide

def versionedFile : IsoItem true :=
  ⟨.joliet versionedName [], [], fiveBytes, versionedFile_multi, rfl, rfl, versionedFile_length_le⟩

theorem versionedDirectory_flatten : [versionedFile.records].flatten = [versionedFile].flatMap IsoItem.records := rfl

theorem versionedDirectory_ge : 255 ≤ 2048 := by decide

theorem versionedDirectory_inBlock : ∀ b ∈ [versionedFile.records], (b.map IsoRecord.length).sum ≤ 2048 := by decide

theorem versionedDirectory_fits : [versionedFile.records].length * 2048 + 2048 + 255 < 2 ^ 32 := by decide

/-- A directory of a Joliet volume with one file, whose name is recorded with its version. -/
def versionedDirectory : IsoDirectory :=
  ⟨true, [versionedFile], 2048, [versionedFile.records], versionedDirectory_flatten, versionedDirectory_ge,
    versionedDirectory_inBlock, versionedDirectory_fits⟩

/-- The file is listed as `A;1`. -/
theorem versionedDirectory_not_listsExactly : ¬ versionedDirectory.ListsExactly := by
  rintro ⟨files, hparse, hfiles⟩
  rw [versionedDirectory.isoParseDirBlock_items] at hparse
  obtain rfl := Option.some.inj hparse
  revert hfiles
  decide +kernel

end RecoveryQt
