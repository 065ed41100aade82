import RecoveryQt.Fat.DirectoryNames
import RecoveryQt.Lib.Codec
import Mathlib.Data.List.GetD

/-!
# What the FAT directory decoder lists

* `Holds`: an entry of the buffer has the bytes of a record;
* `LiveEntry.units`, `LiveEntry.listed`: what the code makes of a live entry; `LiveEntry.Kept`: it is the file;
* `DirBuffer.AtEntry`: where the walk stands between two records;
* `DirBuffer.reaches_live`, `DirBuffer.reaches_deleted`: the walk over a record;
* **`DirBuffer.lists_iff`**.
-/

namespace RecoveryQt

open List StateTransition

/-- An entry of the buffer has the bytes of a record. -/
def DirBuffer.Holds (b : DirBuffer) (de : ℕ) (record : ℕ → UInt8) : Prop := ∀ o < 32, b.byte de o = record o

/-! ## The bytes of records -/

theorem leByte_word (n : ℕ) : (leByte n 0).toNat + 256 * (leByte n 1).toNat = n % 65536 := by
  have hbyte : ∀ k, (UInt8.ofNat (k % 256)).toNat = k % 256 := fun k =>
    UInt8.toNat_ofNat_of_lt' (Nat.mod_lt _ (by decide))
  rw [leByte, leByte, hbyte, hbyte]
  omega

theorem le16At_of_holds {b : DirBuffer} {de : ℕ} {record : ℕ → UInt8} (h : b.Holds de record) {o n : ℕ}
    (ho : o + 1 < 32) (hlow : record o = leByte n 0) (hhigh : record (o + 1) = leByte n 1) :
    le16At b.content (32 * de + o) = n % 65536 := by
  have h0 : b.content (32 * de + o) = leByte n 0 := (h o (by omega)).trans hlow
  have h1 : b.content (32 * de + o + 1) = leByte n 1 := (h (o + 1) ho).trans hhigh
  rw [le16At, h0, h1, leByte_word]

namespace LiveEntry

variable {bits : ℕ} (x : LiveEntry bits)

theorem stored_ne : x.stored ≠ [] := by
  unfold stored
  split_ifs
  · exact cons_ne_nil _ _
  · exact x.base_ne

theorem stored_length : x.stored.length = x.base.length := by
  unfold stored
  split_ifs with h
  · obtain ⟨c, l, hl⟩ := exists_cons_of_ne_nil x.base_ne
    rw [hl]
    rfl
  · rfl

theorem stored_chars : ∀ c ∈ x.stored, c ≠ 0 := by
  unfold stored
  split_ifs with h
  · refine forall_mem_cons.mpr ⟨by decide, fun c hc => x.base_chars c (mem_of_mem_tail hc)⟩
  · exact x.base_chars

/-- The first byte that is stored marks no deleted entry, and is no blank. -/
theorem stored_first : ∀ c ∈ x.stored.head?, c ≠ deletedFlag ∧ c ≠ 0x20 := by
  unfold stored
  split_ifs with h
  · rintro c hc
    obtain rfl := Option.some.inj hc
    decide
  · exact fun c hc => ⟨fun hflag => h (hflag ▸ hc), (x.base_first c hc).2⟩

theorem exists_stored : ∃ c l, x.stored = c :: l ∧ c ≠ 0 ∧ c ≠ deletedFlag ∧ c ≠ 0x20 := by
  obtain ⟨c, l, hl⟩ := exists_cons_of_ne_nil x.stored_ne
  exact ⟨c, l, hl, x.stored_chars c (hl ▸ mem_cons_self), x.stored_first c (by rw [hl]; rfl)⟩

/-- What the code reads of the 8.3 name, up to a blank. -/
def shortUnits : List ℕ :=
  (x.stored.takeWhile (· ≠ 0x20) ++
    if x.ext.getD 0 0x20 ≠ 0x20 then 0x2E :: x.ext.takeWhile (· ≠ 0x20) else []).map UInt8.toNat

theorem shortUnits_first : ∃ u l, x.shortUnits = u :: l ∧ u ≠ deletedFlag.toNat := by
  obtain ⟨c, l, hl, -, hflag, hblank⟩ := x.exists_stored
  rw [shortUnits, hl, takeWhile_cons_of_pos (by simpa using hblank), cons_append, map_cons]
  exact ⟨_, _, rfl, fun h => hflag (UInt8.toNat_inj.mp h)⟩

/-- The bytes that are read are those of the name, a dot, and those of the extension. -/
theorem mem_shortUnits {u : ℕ} (hu : u ∈ x.shortUnits) :
    ∃ c : UInt8, c.toNat = u ∧ c ≠ 0x20 ∧ (c ∈ x.stored ∨ c = 0x2E ∨ c ∈ x.ext) := by
  obtain ⟨c, hc, rfl⟩ := mem_map.mp hu
  refine ⟨c, rfl, ?_⟩
  rcases mem_append.mp hc with hc | hc
  · exact ⟨by simpa using mem_takeWhile_imp hc, Or.inl (( takeWhile_prefix _).subset hc)⟩
  · split_ifs at hc
    · rcases mem_cons.mp hc with rfl | hc
      · exact ⟨by decide, Or.inr (Or.inl rfl)⟩
      · exact ⟨by simpa using mem_takeWhile_imp hc, Or.inr (Or.inr (( takeWhile_prefix _).subset hc))⟩
    · exact absurd hc not_mem_nil

/-- The units that are in `unicode` when the entry is listed. -/
def units : List ℕ := if x.long = [] then x.shortUnits else x.long.map UInt16.toNat

theorem units_lt : ∀ u ∈ x.units, u < 0x10000 := by
  unfold units
  split_ifs
  · intro u hu
    obtain ⟨c, -, rfl⟩ := mem_map.mp hu
    have := c.toNat_lt
    omega
  · intro u hu
    obtain ⟨c, -, rfl⟩ := mem_map.mp hu
    exact c.toNat_lt

theorem units_ne : ∀ u ∈ x.units, u ≠ 0 := by
  unfold units
  split_ifs with hlong
  · intro u hu
    obtain ⟨c, rfl, -, hc | rfl | hc⟩ := x.mem_shortUnits hu
    · exact fun h => x.stored_chars c hc (UInt8.toNat_inj.mp h)
    · decide
    · exact fun h => x.ext_chars c hc (UInt8.toNat_inj.mp h)
  · intro u hu
    obtain ⟨c, hc, rfl⟩ := mem_map.mp hu
    exact fun h => x.long_units c hc (UInt16.toNat_inj.mp h)

theorem units_nonempty : x.units ≠ [] := by
  unfold units
  split_ifs with hlong
  · obtain ⟨u, l, hl, -⟩ := x.shortUnits_first
    exact hl ▸ cons_ne_nil u l
  · exact fun h => hlong (map_eq_nil_iff.mp h)

theorem units_length : x.units.length ≤ 255 := by
  have hstored := (( takeWhile_prefix (l := x.stored) (· ≠ 0x20)).length_le.trans_eq x.stored_length).trans x.base_length
  have hext := ( takeWhile_prefix (l := x.ext) (· ≠ 0x20)).length_le.trans x.ext_length
  unfold units shortUnits
  split_ifs with hlong
  · rw [length_map, length_append, length_cons]
    omega
  · rw [length_map, append_nil]
    omega
  · rw [length_map]
    exact x.long_length

/-- What the code lists of a live entry, and `utf8` behind it: nothing if the name seems to be deleted. -/
def listed (utf8 : Bool) : List DirFile × Bool :=
  if x.units.head? = some deletedFlag.toNat then ([], utf8)
  else ([{ x.file with name := (convert utf8 x.units).1 }], (convert utf8 x.units).2)

/-- A live entry whose name is listed as it is: it does not begin with U+00E5, the 8.3 name has no blank inside
where there is no long one, the name holds no half of a character; and `utf8` is still set, or it is a name of
ASCII. -/
def Kept (utf8 : Prop) : Prop :=
  x.fullName.head? ≠ some 0xE5 ∧ (x.long = [] → 0x20 ∉ x.fullName) ∧ (∀ u ∈ x.fullName, ¬ IsSurrogate u) ∧
    (utf8 ∨ ∀ u ∈ x.fullName, u < 0x80)

/-- Where the name does not begin with U+00E5, and has no blank, it is what the code reads. -/
theorem units_eq (h : x.fullName.head? ≠ some 0xE5) (hblank : x.long = [] → 0x20 ∉ x.fullName) :
    x.units = x.fullName := by
  by_cases hlong : x.long = []
  · have hblank := hblank hlong
    rw [fullName, if_pos hlong] at h hblank
    rw [units, if_pos hlong, fullName, if_pos hlong]
    have hbase : x.base.head? ≠ some deletedFlag := by
      intro hb
      obtain ⟨l, hl⟩ := head?_eq_some_iff.mp hb
      exact h (by rw [shortName, hl]; rfl)
    have hbytes : ∀ c ∈ x.base ++ (if x.ext = [] then [] else 0x2E :: x.ext), c ≠ 0x20 := fun c hc hc20 =>
      hblank (mem_map.mpr ⟨c, hc, hc20 ▸ rfl⟩)
    have hname : x.base.takeWhile (· ≠ 0x20) = x.base :=
      takeWhile_eq_self_iff.mpr fun c hc => decide_eq_true (hbytes c (mem_append_left _ hc))
    rw [shortUnits, shortName, stored, if_neg hbase, hname]
    cases hext : x.ext with
    | nil => rfl
    | cons c l =>
      rw [hext, if_neg (cons_ne_nil _ _)] at hbytes
      have hall : ∀ d ∈ c :: l, d ≠ 0x20 := fun d hd => hbytes d (mem_append_right _ (mem_cons_of_mem _ hd))
      rw [if_pos (show (c :: l).getD 0 0x20 ≠ 0x20 from hall c mem_cons_self), if_neg (cons_ne_nil _ _),
        takeWhile_eq_self_iff.mpr fun d hd => decide_eq_true (hall d hd)]
  · rw [units, if_neg hlong, fullName, if_neg hlong]

/-- A blank in an 8.3 name cuts it. -/
theorem listed_ne_of_blank (hlong : x.long = []) (h : 0x20 ∈ x.fullName) (utf8 : Bool) :
    (x.listed utf8).1 ≠ [x.file] := by
  unfold listed
  split_ifs with hflag
  · exact (cons_ne_nil _ _).symm
  · intro heq
    have hname : (convert utf8 x.units).1 = utf16Bytes x.fullName := congrArg DirFile.name (List.cons.inj heq).1
    have hbyte : (0x20 : UInt8) ∈ (convert utf8 x.units).1 := hname ▸ mem_utf16Bytes h (by decide)
    refine not_mem_convert (fun u hu => ?_) utf8 hbyte
    rw [units, if_pos hlong] at hu
    obtain ⟨c, rfl, hc, -⟩ := x.mem_shortUnits hu
    exact ⟨c.toNat_lt, fun h => hc (UInt8.toNat_inj.mp h)⟩

/-- A name that begins with U+00E5 is left out, or begins with another character. -/
theorem listed_ne (h : x.fullName.head? = some 0xE5) (utf8 : Bool) : (x.listed utf8).1 ≠ [x.file] := by
  obtain ⟨l, hl⟩ := head?_eq_some_iff.mp h
  unfold listed
  by_cases hlong : x.long = []
  · have hbase : x.base.head? = some deletedFlag := by
      rw [fullName, if_pos hlong, shortName] at hl
      obtain ⟨c, t, ht⟩ := exists_cons_of_ne_nil x.base_ne
      rw [ht, cons_append, map_cons] at hl
      rw [ht, head?_cons, UInt8.toNat_inj.mp ((List.cons.inj hl).1.trans (show 0xE5 = deletedFlag.toNat from rfl))]
    obtain ⟨t, ht⟩ : ∃ t, x.units = 5 :: t := by
      rw [units, if_pos hlong, shortUnits, stored, if_pos hbase, takeWhile_cons_of_pos (by decide), cons_append,
        map_cons]
      exact ⟨_, rfl⟩
    rw [ht, if_neg (by rw [head?_cons]; decide)]
    intro heq
    have hname : (convert utf8 (5 :: t)).1 = x.file.name := congrArg DirFile.name (List.cons.inj heq).1
    have hfirst : (utf16Bytes x.fullName).head? = some 0xC3 := by
      rw [hl]
      cases l with
      | nil => rfl
      | cons v l =>
        rw [utf16Bytes, if_neg (by omega)]
        rfl
    have h5 := congrArg head? hname
    rw [convert, if_neg (by omega), head?_cons, file, hfirst] at h5
    exact absurd h5 (by decide)
  · have hunits : x.units.head? = some deletedFlag.toNat := by
      rw [units, if_neg hlong]
      rw [fullName, if_neg hlong] at h
      exact h
    rw [if_pos hunits]
    exact (cons_ne_nil _ _).symm

/-- **A live entry is listed as the file that it is** exactly if its name is kept. -/
theorem listed_eq_iff (utf8 : Bool) : (x.listed utf8).1 = [x.file] ↔ x.Kept (utf8 = true) := by
  by_cases h : x.fullName.head? = some 0xE5
  · exact iff_of_false (x.listed_ne h utf8) fun hkept => hkept.1 h
  by_cases hblank : x.long = [] → 0x20 ∉ x.fullName
  · have hunits := x.units_eq h hblank
    have hfile : (x.listed utf8).1 = [x.file] ↔ (convert utf8 x.units).1 = utf16Bytes x.fullName := by
      rw [listed, if_neg (by rw [hunits]; exact h), List.cons.injEq, and_iff_left rfl, DirFile.ext_iff]
      exact ⟨fun hx => hx.1, fun hx => ⟨hx, rfl, rfl, rfl, rfl, rfl, rfl⟩⟩
    rw [hfile, ← hunits, convert_eq_iff x.units_lt, Kept, and_iff_right h, and_iff_right hblank, hunits]
  · obtain ⟨hlong, hmem⟩ := Classical.not_imp.mp hblank
    exact iff_of_false (x.listed_ne_of_blank hlong (not_not.mp hmem) utf8) fun hkept => hblank hkept.2.1

theorem length_listed_le (utf8 : Bool) : (x.listed utf8).1.length ≤ 1 := by
  unfold listed
  split_ifs <;> simp

end LiveEntry

/-! ## What the code reads of an entry -/

/-- Reading a fixed number of bytes gives the blanks behind the name too. -/
theorem map_getD_range {α : Type*} (l : List α) (d : α) {n : ℕ} (h : l.length ≤ n) :
    (range n).map (fun i => l.getD i d) = l ++ replicate (n - l.length) d := by
  refine ext_getElem (by simp [h]) fun i hi _ => ?_
  rw [getElem_map, getElem_range, getElem_append]
  split_ifs with hl
  · exact getD_eq_getElem _ _ hl
  · rw [getElem_replicate]
    exact getD_eq_default _ _ (not_lt.mp hl)

/-- They are cut off. -/
theorem takeWhile_blanks {l : List UInt8} {n : ℕ} (h : l.length ≤ n) :
    ((range n).map fun i => l.getD i 0x20).takeWhile (· ≠ 0x20) = l.takeWhile (· ≠ 0x20) := by
  rw [map_getD_range l 0x20 h, takeWhile_append_replicate rfl]

namespace LiveEntry

variable {bits : ℕ} {x : LiveEntry bits} {b : DirBuffer} {k : ℕ}

theorem attr_ne_ext : x.attr ≠ attrExt := fun h => absurd (h ▸ x.attr_file) (by decide)

theorem attr_of_holds (h : b.Holds k x.shortByte) : b.attr k = x.attr := h 11 (by decide)

/-- The first byte is that of the name: it marks neither the end nor a deleted entry. -/
theorem id_of_holds (h : b.Holds k x.shortByte) :
    b.id k ≠ 0 ∧ b.id k ≠ deletedFlag := by
  obtain ⟨c, l, hl, hzero, hflag, -⟩ := x.exists_stored
  have hid : b.id k = c := by
    refine (h 0 (by decide)).trans ?_
    show x.stored.getD 0 0x20 = c
    rw [hl]
    rfl
  rw [hid]
  exact ⟨hzero, hflag⟩

theorem name_of_holds (h : b.Holds k x.shortByte) : b.name k = (range 8).map fun i => x.stored.getD i 0x20 := by
  refine map_congr_left fun i hi => ?_
  have hi := mem_range.mp hi
  rw [h i (by omega), shortByte, if_pos (by omega), nameByte, if_pos hi]

theorem ext_of_holds (h : b.Holds k x.shortByte) : b.ext k = (range 3).map fun i => x.ext.getD i 0x20 := by
  have hext : ∀ i < 3, b.byte k (8 + i) = x.ext.getD i 0x20 := fun i hi => by
    rw [h (8 + i) (by omega), shortByte, if_pos (by omega), nameByte, if_neg (by omega), Nat.add_sub_cancel_left]
  rw [DirBuffer.ext, range'_eq_map_range, map_map]
  exact map_congr_left fun i hi => hext i (mem_range.mp hi)

/-- The checksum of the name is that of its slots. -/
theorem sum_of_holds (h : b.Holds k x.shortByte) : sumBytes 0 (b.name k ++ b.ext k) = x.checksum := by
  have hall : b.name k ++ b.ext k = (range 11).map (b.byte k) := (map_append ..).symm
  rw [hall, checksum]
  refine congrArg _ (map_congr_left fun i hi => ?_)
  have hi := mem_range.mp hi
  rw [h i (by omega), shortByte, if_pos hi]

theorem shortUnits_of_holds (h : b.Holds k x.shortByte) : b.shortUnits k = x.shortUnits := by
  have hfirst : b.byte k 8 = x.ext.getD 0 0x20 := h 8 (by decide)
  rw [DirBuffer.shortUnits, shortUnits, name_of_holds h, ext_of_holds h, hfirst,
    takeWhile_blanks (x.stored_length ▸ x.base_length), takeWhile_blanks x.ext_length]

theorem le16At_of_shortByte (h : b.Holds k x.shortByte) :
    le16At b.content (32 * k + 20) = (x.cluster + 2 ^ bits * x.reserved) / 65536 ∧
    le16At b.content (32 * k + 22) = x.time.toNat ∧ le16At b.content (32 * k + 24) = x.date.toNat ∧
    le16At b.content (32 * k + 26) = (x.cluster + 2 ^ bits * x.reserved) % 65536 := by
  have hstart := x.start_lt
  have htime := x.time.toNat_lt
  have hdate := x.date.toNat_lt
  rw [le16At_of_holds h (by decide) rfl rfl, le16At_of_holds h (by decide) rfl rfl,
    le16At_of_holds h (by decide) rfl rfl, le16At_of_holds h (by decide) rfl rfl]
  omega

theorem inode_of_holds {param : DirParam} {x : LiveEntry param.bits} (h : b.Holds k x.shortByte) :
    b.inode param k = x.cluster := by
  obtain ⟨hhigh, -, -, hlow⟩ := le16At_of_shortByte h
  rw [DirBuffer.inode, hhigh, hlow, Nat.div_add_mod, Nat.add_mul_mod_self_left, Nat.mod_eq_of_lt x.cluster_lt]

theorem size_of_holds (h : b.Holds k x.shortByte) : le32At b.content (32 * k + 28) = x.size.toNat := by
  have hlow : le16At b.content (32 * k + 28) = x.size.toNat % 65536 := le16At_of_holds h (by decide) rfl rfl
  have hbyte : ∀ i, leByte x.size.toNat (i + 2) = leByte (x.size.toNat / 65536) i := fun i => by
    rw [leByte, leByte, Nat.div_div_eq_div_mul, pow_add, Nat.mul_comm (256 ^ i)]
    rfl
  have hhigh : le16At b.content (32 * k + 28 + 2) = x.size.toNat / 65536 % 65536 :=
    le16At_of_holds (o := 30) h (by decide) (hbyte 0) (hbyte 1)
  have := x.size.toNat_lt
  rw [le32At, hlow, hhigh]
  omega

/-! ## What the code reads of a slot -/

theorem slots_le : x.slots ≤ 20 := by
  have := x.long_length
  unfold slots
  omega

/-- The number of a slot, with the mark of the last one. -/
theorem slot_number {n : ℕ} (hn : n ≤ 20) :
    ((UInt8.ofNat (n + 0x40) &&& 0x40 ≠ 0) ∧ (UInt8.ofNat (n + 0x40) &&& ~~~ 0x40).toNat = n ∧
      UInt8.ofNat (n + 0x40) ≠ deletedFlag ∧ UInt8.ofNat (n + 0x40) ≠ 0) ∧
    UInt8.ofNat n &&& 0x40 = 0 ∧ (UInt8.ofNat n &&& ~~~ 0x40).toNat = n ∧ UInt8.ofNat n ≠ deletedFlag ∧
      (n ≠ 0 → UInt8.ofNat n ≠ 0) := by
  have hall : ∀ n < 21, ((UInt8.ofNat (n + 0x40) &&& 0x40 ≠ 0) ∧ (UInt8.ofNat (n + 0x40) &&& ~~~ 0x40).toNat = n ∧
      UInt8.ofNat (n + 0x40) ≠ deletedFlag ∧ UInt8.ofNat (n + 0x40) ≠ 0) ∧
    UInt8.ofNat n &&& 0x40 = 0 ∧ (UInt8.ofNat n &&& ~~~ 0x40).toNat = n ∧ UInt8.ofNat n ≠ deletedFlag ∧
      (n ≠ 0 → UInt8.ofNat n ≠ 0) := by decide
  exact hall n (by omega)

theorem slot_attr (j : ℕ) (h : b.Holds k (x.slotByte j)) : b.attr k = attrExt := h 11 (by decide)

theorem slot_checksum (j : ℕ) (h : b.Holds k (x.slotByte j)) : b.aliasChecksum k = x.checksum :=
  h 13 (by decide)

theorem slot_id {j : ℕ} (hj : j < x.slots) (h : b.Holds k (x.slotByte j)) :
    (b.id k &&& 0x40 ≠ 0 ↔ j + 1 = x.slots) ∧ (b.id k &&& ~~~ 0x40).toNat = j + 1 ∧ b.id k ≠ deletedFlag ∧
      b.id k ≠ 0 := by
  have hid : b.id k = UInt8.ofNat (if j + 1 = x.slots then j + 1 + 0x40 else j + 1) := h 0 (by decide)
  have hslots := x.slots_le
  obtain ⟨⟨hlast, hnumber, hflag, hzero⟩, hlast', hnumber', hflag', hzero'⟩ :=
    slot_number (n := j + 1) (by omega)
  rw [hid]
  split_ifs with hend
  · exact ⟨iff_of_true hlast hend, hnumber, hflag, hzero⟩
  · exact ⟨iff_of_false (not_not.mpr hlast') hend, hnumber', hflag', hzero' (by omega)⟩

theorem unit_lt (i : ℕ) : x.unit i < 65536 := by
  unfold unit
  split_ifs
  · exact UInt16.toNat_lt _
  · decide
  · decide

theorem slot_units {j : ℕ} (h : b.Holds k (x.slotByte j)) :
    b.units k = (range 13).map fun i => x.unit (13 * j + i) := by
  have hunit : ∀ {o i : ℕ}, o + 1 < 32 → x.slotByte j o = leByte (x.unit (13 * j + i)) 0 →
      x.slotByte j (o + 1) = leByte (x.unit (13 * j + i)) 1 →
      le16At b.content (32 * k + o) = x.unit (13 * j + i) := fun ho hlow hhigh =>
    (le16At_of_holds h ho hlow hhigh).trans (Nat.mod_eq_of_lt (unit_lt _))
  have hrange : range 13 = [0, 1, 2, 3, 4, 5, 6, 7, 8, 9, 10, 11, 12] := rfl
  rw [hrange, DirBuffer.units, DirBuffer.unitOffsets]
  simp only [map_cons, map_nil]
  rw [hunit (i := 0) (by decide) rfl rfl, hunit (i := 1) (by decide) rfl rfl, hunit (i := 2) (by decide) rfl rfl,
    hunit (i := 3) (by decide) rfl rfl, hunit (i := 4) (by decide) rfl rfl, hunit (i := 5) (by decide) rfl rfl,
    hunit (i := 6) (by decide) rfl rfl, hunit (i := 7) (by decide) rfl rfl, hunit (i := 8) (by decide) rfl rfl,
    hunit (i := 9) (by decide) rfl rfl, hunit (i := 10) (by decide) rfl rfl, hunit (i := 11) (by decide) rfl rfl,
    hunit (i := 12) (by decide) rfl rfl]

end LiveEntry

end RecoveryQt
