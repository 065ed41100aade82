import RecoveryQt.Fat.DirectoryNames
import RecoveryQt.Iso.Format
import RecoveryQt.Iso.Safe
import RecoveryQt.Lib.Utf16

/-!
# What is read of an ISO 9660 directory record

* `IsoRecord.getElem?_encode_zero`, `isoHeader_encode`, `bytesAt_encode_date`, …: the fields of a record;
* `ucs2beToUtf8_ucs2be`, `plainName_identifier`, `rockridgeName_systemUse`: the three kinds of names;
* **`isoNameFromRecord_encode`**: the name of a file or directory is read whole, with the version of a Joliet name.
-/

namespace RecoveryQt

open List

/-! ## Fields -/

theorem bytesAt_mid {l a b c : List UInt8} {i n : ℕ} (h : l = a ++ (b ++ c)) (ha : a.length = i) (hb : b.length = n) :
    bytesAt l i n = some b := by
  subst ha hb
  rw [h, bytesAt_of_le (by simp only [length_append]; omega), drop_left, take_left]

theorem getElem?_mid {l a c : List UInt8} {b : UInt8} {i : ℕ} (h : l = a ++ b :: c) (ha : a.length = i) :
    l[i]? = some b := by
  subst ha
  rw [h, getElem?_append_right (Nat.le_refl _), Nat.sub_self, getElem?_cons_zero]

namespace IsoRecord

variable (r : IsoRecord)

theorem length_bothBytes (w n : ℕ) : (bothBytes w n).length = 2 * w := by
  rw [bothBytes, length_append, length_reverse, length_leBytes]
  omega

theorem length_encode : r.encode.length = r.length := by
  simp only [encode, length_append, length_cons, length_nil, length_bothBytes, r.length_date, padding, length_replicate,
    length]

theorem length_bounds : 34 ≤ r.length ∧ r.length ≤ 255 := by
  have hpos := length_pos_iff.mpr r.identifier_ne
  have hle := r.length_le
  unfold length
  omega

theorem toNat_length : (UInt8.ofNat r.length).toNat = r.length :=
  UInt8.toNat_ofNat_of_lt' (Nat.lt_of_le_of_lt r.length_bounds.2 (by decide))

theorem toNat_nameLen : (UInt8.ofNat r.identifier.length).toNat = r.identifier.length := by
  have hle := r.length_le
  exact UInt8.toNat_ofNat_of_lt' (Nat.lt_of_le_of_lt (show r.identifier.length ≤ 255 by omega) (by decide))

/-- `rec_len`. -/
theorem getElem?_encode_zero : r.encode[0]? = some (UInt8.ofNat r.length) := rfl

/-- The bytes in front of the identifier. -/
def head : List UInt8 :=
  [UInt8.ofNat r.length, r.xar] ++ bothBytes 4 r.location.toNat ++ bothBytes 4 r.dataLength.toNat ++ r.date ++
    [r.flags, r.unitSize, r.gap] ++ bothBytes 2 r.volume.toNat

theorem length_head : r.head.length = 32 := by
  simp only [head, length_append, length_cons, length_nil, length_bothBytes, r.length_date]

theorem encode_eq :
    r.encode = r.head ++ UInt8.ofNat r.identifier.length :: (r.identifier ++ (r.padding ++ r.systemUse)) := by
  simp only [encode, head, append_assoc]
  rfl

/-- `name_len`. -/
theorem getElem?_encode_nameLen : r.encode[32]? = some (UInt8.ofNat r.identifier.length) :=
  getElem?_mid r.encode_eq r.length_head

/-- The identifier. -/
theorem bytesAt_encode_identifier : bytesAt r.encode 33 r.identifier.length = some r.identifier := by
  refine bytesAt_mid (a := r.head ++ [UInt8.ofNat r.identifier.length]) (c := r.padding ++ r.systemUse) ?_ ?_ rfl
  · rw [encode_eq, append_assoc, singleton_append]
  · rw [length_append, length_head]
    rfl

/-- `su_off`. -/
def suOff : ℕ := 33 + r.identifier.length + (33 + r.identifier.length) % 2

/-- The system use area. -/
theorem bytesAt_encode_systemUse : bytesAt r.encode r.suOff (r.encode.length - r.suOff) = some r.systemUse := by
  refine bytesAt_mid (a := r.head ++ UInt8.ofNat r.identifier.length :: (r.identifier ++ r.padding)) (c := []) ?_ ?_ ?_
  · rw [encode_eq, append_nil, append_assoc, cons_append, append_assoc]
  · rw [length_append, length_head, length_cons, length_append, padding, length_replicate, suOff]
    omega
  · rw [length_encode, length, suOff]
    omega

/-- The bytes behind the date. -/
def behind : List UInt8 :=
  r.flags :: r.unitSize :: r.gap :: (bothBytes 2 r.volume.toNat ++ UInt8.ofNat r.identifier.length ::
    (r.identifier ++ (r.padding ++ r.systemUse)))

theorem encode_eq_behind :
    r.encode = UInt8.ofNat r.length :: r.xar :: (leBytes 4 r.location.toNat ++ ((leBytes 4 r.location.toNat).reverse ++
      (leBytes 4 r.dataLength.toNat ++ ((leBytes 4 r.dataLength.toNat).reverse ++ (r.date ++ r.behind))))) := by
  simp only [encode, behind, bothBytes, append_assoc]
  rfl

/-- The date. -/
theorem bytesAt_encode_date : bytesAt r.encode 18 7 = some r.date := by
  refine bytesAt_mid (a := UInt8.ofNat r.length :: r.xar :: (leBytes 4 r.location.toNat ++
    ((leBytes 4 r.location.toNat).reverse ++ (leBytes 4 r.dataLength.toNat ++
      (leBytes 4 r.dataLength.toNat).reverse)))) (c := r.behind) ?_ ?_ r.length_date
  · simp only [encode_eq_behind, append_assoc, cons_append]
  · simp only [length_append, length_cons, length_reverse, length_leBytes]

/-- **The header.** -/
theorem isoHeader_encode : isoHeader r.encode = some ⟨r.extent, r.dataLength, r.flags⟩ := by
  have hlocation : bytesAt r.encode 2 4 = some (leBytes 4 r.location.toNat) := by
    rw [encode_eq_behind]
    exact bytesAt_mid (a := [UInt8.ofNat r.length, r.xar]) rfl rfl (length_leBytes _ _)
  have hdata : bytesAt r.encode 10 4 = some (leBytes 4 r.dataLength.toNat) := by
    refine bytesAt_mid (a := UInt8.ofNat r.length :: r.xar :: (leBytes 4 r.location.toNat ++
      (leBytes 4 r.location.toNat).reverse)) (c := (leBytes 4 r.dataLength.toNat).reverse ++ (r.date ++ r.behind)) ?_ ?_
      (length_leBytes _ _)
    · simp only [encode_eq_behind, append_assoc, cons_append]
    · simp only [length_append, length_cons, length_reverse, length_leBytes]
  have hflags : r.encode[25]? = some r.flags := by
    refine getElem?_mid (a := UInt8.ofNat r.length :: r.xar :: (leBytes 4 r.location.toNat ++
      ((leBytes 4 r.location.toNat).reverse ++ (leBytes 4 r.dataLength.toNat ++
        ((leBytes 4 r.dataLength.toNat).reverse ++ r.date))))) (c := r.behind.tail) ?_ ?_
    · simp only [encode_eq_behind, append_assoc, cons_append]
      rfl
    · simp only [length_append, length_cons, length_reverse, length_leBytes, r.length_date]
  have hxar : r.encode[1]? = some r.xar := rfl
  simp only [isoHeader, hlocation, hdata, hflags, hxar, Option.bind_eq_bind, Option.bind_some, UInt32.ofNat_leNat]
  rfl

end IsoRecord

/-! ## Names -/

theorem utf8Bytes_toNat {c : Char} (h : c.toNat < 0x10000) : utf8Bytes c.toNat = String.utf8EncodeChar c := by
  have hvalid : c.toNat.isValidChar := c.valid
  have hsome : wctomb c.toNat = some (String.utf8EncodeChar c) := by
    rw [wctomb, if_pos hvalid, Char.ofNat_toNat]
  rw [wctomb_eq h, if_neg] at hsome
  · exact Option.some.inj hsome
  · intro hs
    unfold IsSurrogate at hs
    unfold Nat.isValidChar at hvalid
    omega

/-- Characters of UCS-2, none of them zero, in a record. -/
theorem ucs2beToUtf8_ucs2be {l : List Char} (hl : ∀ c ∈ l, 0 < c.toNat ∧ c.toNat < 0x10000) {dst : List UInt8}
    (h : dst.length + 3 * l.length < isoNameLen) :
    ucs2beToUtf8 (ucs2be l) dst = dst ++ l.flatMap String.utf8EncodeChar := by
  induction l generalizing dst with
  | nil => exact (append_nil _).symm
  | cons c l ih =>
    obtain ⟨hpos, hlt⟩ := hl c mem_cons_self
    have hwc : (UInt8.ofNat (c.toNat / 256)).toNat * 256 + (UInt8.ofNat c.toNat).toNat = c.toNat := by
      rw [UInt8.toNat_ofNat_of_lt' (show c.toNat / 256 < 256 by omega), UInt8.toNat_ofNat']
      omega
    have hlength := length_utf8Bytes_le hlt
    rw [length_cons] at h
    show ucs2beToUtf8 (_ :: _ :: ucs2be l) dst = _
    rw [ucs2beToUtf8, hwc, if_neg (by omega), ih (fun c' hc' => hl c' (mem_cons_of_mem c hc')), flatMap_cons, utf8Bytes_toNat hlt,
      append_assoc]
    rw [length_append]
    omega

theorem plainName_eq {name dst : List UInt8} (hcut : name.takeWhile (· ≠ 59) = dst) (h : name.length < isoNameLen) :
    plainName name = if 1 < dst.length ∧ dst.getLast? = some 46 then dst.dropLast else dst := by
  have hle : dst.length ≤ isoNameLen - 1 := by
    have := hcut ▸ (takeWhile_sublist (l := name) (· ≠ (59 : UInt8))).length_le
    omega
  rw [plainName, hcut, take_of_length_le hle]

/-- **An identifier** is read without its version, and without the dot of an empty extension. -/
theorem plainName_identifier {n : PlainName} (h : n.identifier.length < isoNameLen) :
    plainName n.identifier = n.shown := by
  have hbase : ∀ b ∈ n.base, b ≠ 46 ∧ b ≠ 59 := fun b hb => (n.plain b (mem_append_left _ hb)).2
  cases hext : n.ext with
  | none =>
    have hcut : n.identifier.takeWhile (· ≠ 59) = n.base := by
      rw [PlainName.identifier, hext, Option.elim_none, append_nil, takeWhile_eq_self_iff]
      exact fun b hb => decide_eq_true (hbase b hb).2
    rw [plainName_eq hcut h, PlainName.shown, hext, Option.elim_none, append_nil, if_neg]
    exact fun hdot => (hbase 46 (mem_of_getLast? hdot.2)).1 rfl
  | some x =>
    obtain ⟨e, v⟩ := x
    have he : ∀ b ∈ e, b ≠ 46 ∧ b ≠ 59 := fun b hb => (n.plain b (mem_append_right _ (by rw [hext]; exact hb))).2
    have hcut : n.identifier.takeWhile (· ≠ 59) = n.base ++ 46 :: e := by
      have hplain : ∀ b ∈ n.base ++ 46 :: e, b ≠ 59 := by
        intro b hb
        rcases mem_append.mp hb with hb | hb
        · exact (hbase b hb).2
        · rcases mem_cons.mp hb with rfl | hb
          · decide
          · exact (he b hb).2
      rw [PlainName.identifier, hext, Option.elim_some, ← append_assoc,
        takeWhile_append_of_pos fun b hb => decide_eq_true (hplain b hb)]
      cases v <;> exact append_nil _
    rw [plainName_eq hcut h, PlainName.shown, hext, Option.elim_some]
    dsimp only
    rcases eq_nil_or_concat' e with rfl | ⟨e', b, rfl⟩
    · -- the dot is all there is of an extension
      have hne : n.base ≠ [] := by
        have := n.ne_nil
        rw [hext] at this
        rwa [Option.elim_some, append_nil] at this
      have hpos := length_pos_iff.mpr hne
      rw [if_pos, dropLast_concat, if_pos rfl, append_nil]
      rw [length_append, getLast?_concat]
      exact ⟨by simpa using hpos, rfl⟩
    · rw [if_neg (append_ne_nil_of_right_ne_nil _ (cons_ne_nil _ _)), if_neg]
      rintro ⟨-, hdot⟩
      rw [← cons_append, ← append_assoc, getLast?_concat] at hdot
      exact (he 46 (Option.some.inj hdot ▸ mem_append_right _ mem_cons_self)).1 rfl

/-! ### Rock Ridge -/

theorem skipSp_of_ne {s t : UInt8} (h : (s, t) ≠ (83, 80)) (rest : List UInt8) :
    skipSp (s :: t :: rest) = s :: t :: rest := by
  unfold skipSp
  split
  · next s' p len a b c skip rest' heq =>
    obtain ⟨rfl, htail⟩ := List.cons.inj heq
    obtain ⟨rfl, -⟩ := List.cons.inj htail
    rw [if_neg fun hsp => h (by rw [hsp.1, hsp.2.1])]
    exact heq.symm
  · rfl

theorem skipSp_of_short {su : List UInt8} (h : su.length < 4) : skipSp su = su := by
  unfold skipSp
  split
  · simp only [length_cons] at h
    omega
  · rfl

/-- Less than an entry ends the loop. -/
theorem rockridgeLoop_of_short {su : List UInt8} (h : su.length < 4) (dst : List UInt8) (found : Bool) :
    rockridgeLoop su dst found = some (if found then some dst else none) := by
  unfold rockridgeLoop
  split
  · simp only [length_cons] at h
    omega
  · rfl

/-- An entry that is no name is passed over. -/
theorem rockridgeLoop_other {s t len version : UInt8} {data su : List UInt8} (hlen : len.toNat = 4 + data.length)
    (hnm : (s, t) ≠ (78, 77)) (dst : List UInt8) (found : Bool) :
    rockridgeLoop (s :: t :: len :: version :: (data ++ su)) dst found = rockridgeLoop su dst found := by
  conv_lhs => unfold rockridgeLoop
  dsimp only
  rw [hlen, if_neg (by rw [length_append]; omega), if_neg fun h => hnm (by rw [h.1, h.2.1]), Nat.add_sub_cancel_left,
    drop_left]

/-- A part of the name is written behind what there is of it. -/
theorem rockridgeLoop_nm {len version flags : UInt8} {content su dst : List UInt8}
    (hlen : len.toNat = 5 + content.length) (hflags : flags &&& 6 = 0)
    (hlength : dst.length + content.length < isoNameLen) (found : Bool) :
    rockridgeLoop (78 :: 77 :: len :: version :: flags :: (content ++ su)) dst found =
      if flags &&& 1 = 0 then some (some (dst ++ content)) else rockridgeLoop su (dst ++ content) true := by
  have hcontent : bytesAt (content ++ su) 0 (len.toNat - 5) = some content :=
    bytesAt_mid (a := []) rfl rfl (by omega)
  have htake : content.take (isoNameLen - 1 - dst.length) = content := take_of_length_le (by omega)
  have hdrop : (flags :: (content ++ su)).drop (len.toNat - 4) = su := by
    rw [hlen, show 5 + content.length - 4 = content.length + 1 by omega, drop_succ_cons, drop_left]
  conv_lhs => unfold rockridgeLoop
  dsimp only
  rw [if_neg (by simp only [length_cons, length_append]; omega), if_pos ⟨rfl, rfl, by omega⟩, if_neg (by simp [hflags]),
    hcontent]
  dsimp only
  rw [htake, hdrop]

/-- **The entries** of a system use area give the parts of the name. -/
theorem rockridgeLoop_entries {entries : List SuspEntry} {rest : List UInt8} (hvalid : ∀ x ∈ entries, x.Valid)
    (hrest : rest.length < 4)
    (hcontinued : ∀ x ∈ (entries.filter SuspEntry.isNm).dropLast, x.continues = true)
    (hended : ∀ x ∈ (entries.filter SuspEntry.isNm).getLast?, x.continues = false) {dst : List UInt8}
    (hlength : dst.length + (entries.flatMap SuspEntry.part).length < isoNameLen) (found : Bool) :
    rockridgeLoop (entries.flatMap SuspEntry.encode ++ rest) dst found =
      some (if entries.filter SuspEntry.isNm = [] then if found then some dst else none
        else some (dst ++ entries.flatMap SuspEntry.part)) := by
  induction entries generalizing dst found with
  | nil => exact rockridgeLoop_of_short hrest dst found
  | cons x entries ih =>
    have hvalid' : ∀ y ∈ entries, y.Valid := fun y hy => hvalid y (mem_cons_of_mem x hy)
    cases x with
    | other s t version data =>
      obtain ⟨hlt, hnm, -⟩ := hvalid _ mem_cons_self
      have hread : (SuspEntry.other s t version data :: entries).flatMap SuspEntry.encode ++ rest =
          s :: t :: UInt8.ofNat (4 + data.length) :: version ::
            (data ++ (entries.flatMap SuspEntry.encode ++ rest)) := by
        rw [flatMap_cons, append_assoc]
        rfl
      rw [hread, rockridgeLoop_other (UInt8.toNat_ofNat_of_lt' hlt) hnm]
      exact ih hvalid' hcontinued hended hlength found
    | nm version flags content =>
      obtain ⟨hlt, hflags⟩ := hvalid _ mem_cons_self
      have hread : (SuspEntry.nm version flags content :: entries).flatMap SuspEntry.encode ++ rest =
          78 :: 77 :: UInt8.ofNat (5 + content.length) :: version :: flags ::
            (content ++ (entries.flatMap SuspEntry.encode ++ rest)) := by
        rw [flatMap_cons, append_assoc]
        rfl
      have hparts : (SuspEntry.nm version flags content :: entries).flatMap SuspEntry.part =
          content ++ entries.flatMap SuspEntry.part := rfl
      have hfilter : (SuspEntry.nm version flags content :: entries).filter SuspEntry.isNm =
          .nm version flags content :: entries.filter SuspEntry.isNm := rfl
      rw [hparts, length_append] at hlength
      rw [hfilter] at hcontinued hended
      rw [hread, rockridgeLoop_nm (UInt8.toNat_ofNat_of_lt' hlt) hflags (by omega), hfilter, if_neg (cons_ne_nil _ _),
        hparts]
      cases hmore : entries.filter SuspEntry.isNm with
      | nil =>
        have hlast : flags &&& 1 = 0 := by
          rw [hmore] at hended
          simpa [SuspEntry.continues] using hended _ rfl
        have hnone : entries.flatMap SuspEntry.part = [] := by
          rw [flatMap_eq_nil_iff]
          intro y hy
          have hy' : y.isNm ≠ true := fun h => not_mem_nil (hmore ▸ mem_filter.mpr ⟨hy, h⟩)
          cases y with
          | other => rfl
          | nm => exact absurd rfl hy'
        rw [if_pos hlast, hnone, append_nil]
      | cons y ys =>
        rw [hmore, dropLast_cons_of_ne_nil (cons_ne_nil y ys)] at hcontinued
        have hgoes : ¬ flags &&& 1 = 0 := by simpa [SuspEntry.continues] using hcontinued _ mem_cons_self
        rw [hmore, getLast?_cons_cons] at hended
        rw [if_neg hgoes, ih hvalid' (fun z hz => hcontinued z (mem_cons_of_mem _ (hmore ▸ hz)))
          (fun z hz => hended z (hmore ▸ hz)) (by rw [length_append]; omega), hmore, if_neg (cons_ne_nil y ys),
          append_assoc]

theorem rockridgeName_systemUse {n : PlainName} (h : (n.entries.flatMap SuspEntry.part).length < isoNameLen) :
    rockridgeName n.systemUse =
      some (if n.entries.filter SuspEntry.isNm = [] then none else some (n.entries.flatMap SuspEntry.part)) := by
  have hskip : skipSp n.systemUse = n.systemUse := by
    rw [PlainName.systemUse]
    cases hentries : n.entries with
    | nil => exact skipSp_of_short n.rest_lt
    | cons x xs =>
      have hvalid := n.valid x (hentries ▸ mem_cons_self)
      cases x with
      | other s t version data => exact skipSp_of_ne hvalid.2.2 _
      | nm version flags content => exact skipSp_of_ne (by decide) _
  rw [rockridgeName, hskip, PlainName.systemUse,
    rockridgeLoop_entries n.valid n.rest_lt n.continued n.ended (by rw [length_nil, Nat.zero_add]; exact h)]
  rfl

/-! ### The name of a record -/

theorem orQuestion_eq {dst : List UInt8} (hne : dst ≠ []) (hplain : ∀ b ∈ dst, b ≠ 0) : orQuestion dst = dst := by
  rw [orQuestion, cString, takeWhile_ne_zero hplain, if_neg hne]

namespace PlainName

variable (n : PlainName)

theorem text_ne_nil : n.text ≠ [] := by
  unfold text
  split_ifs with hnm
  · intro h
    obtain ⟨hbase, hrest⟩ := append_eq_nil_iff.mp h
    cases hext : n.ext with
    | none => exact n.ne_nil (by rw [hbase, hext]; rfl)
    | some x =>
      rw [hext, Option.elim_some] at hrest
      split_ifs at hrest with he
      exact n.ne_nil (by rw [hbase, hext, Option.elim_some, he]; rfl)
  · exact n.alternate_ne hnm

theorem text_ne_zero : ∀ b ∈ n.text, b ≠ 0 := by
  intro b hb
  unfold text at hb
  split_ifs at hb with hnm
  · have hpos : ∀ b ∈ n.base ++ n.ext.elim [] Prod.fst, b ≠ 0 := by
      rintro b hb rfl
      exact absurd (n.plain 0 hb).1 (by decide)
    rcases mem_append.mp hb with hb | hb
    · exact hpos b (mem_append_left _ hb)
    · cases hext : n.ext with
      | none =>
        rw [hext] at hb
        cases hb
      | some x =>
        rw [hext, Option.elim_some] at hb
        split_ifs at hb
        · cases hb
        · rcases mem_cons.mp hb with rfl | hb
          · decide
          · exact hpos b (mem_append_right _ (by rw [hext]; exact hb))
  · exact n.alternate_plain b hb

theorem identifier_ne_dots : n.identifier ≠ [0] ∧ n.identifier ≠ [1] := by
  have hhead : ∀ b ∈ n.identifier.head?, 0x20 < b := by
    intro b hb
    unfold identifier at hb
    cases hbase : n.base with
    | nil =>
      rw [hbase, nil_append] at hb
      cases hext : n.ext with
      | none => exact absurd (by rw [hbase, hext]; rfl) n.ne_nil
      | some x =>
        rw [hext] at hb
        obtain rfl := Option.some.inj hb
        decide
    | cons c cs =>
      rw [hbase] at hb
      obtain rfl := Option.some.inj hb
      exact (n.plain c (by rw [hbase]; exact mem_cons_self)).1
  constructor <;> (intro h; have := hhead _ (by rw [h]; rfl); revert this; decide)

end PlainName

/-- The name as `iso_name_from_record` reads it: that of a Joliet file with its version. -/
def IsoName.read : {joliet : Bool} → IsoName joliet → List UInt8
  | _, .joliet n _ => n.recorded.flatMap String.utf8EncodeChar
  | _, name => name.text

theorem ucs2be_ne_singleton (l : List Char) (b : UInt8) : ucs2be l ≠ [b] := by
  intro h
  have hlength := congrArg List.length h
  cases l with
  | nil => cases h
  | cons c l => cases h

theorem JolietName.recorded_plain (n : JolietName) : ∀ c ∈ n.recorded, 0 < c.toNat ∧ c.toNat < 0x10000 := by
  intro c hc
  rcases mem_append.mp hc with hc | hc
  · exact n.plain c (mem_append_left _ hc)
  · cases hversion : n.version with
    | none =>
      rw [hversion] at hc
      cases hc
    | some v =>
      rw [hversion] at hc
      rcases mem_cons.mp hc with rfl | hc
      · decide
      · exact n.plain c (mem_append_right _ (by rw [hversion]; exact hc))

theorem length_ucs2be (l : List Char) : (ucs2be l).length = 2 * l.length := by
  induction l with
  | nil => rfl
  | cons c l ih =>
    show (ucs2be l).length + 2 = _
    rw [ih, length_cons]
    omega

theorem length_part_le (entries : List SuspEntry) :
    (entries.flatMap SuspEntry.part).length ≤ (entries.flatMap SuspEntry.encode).length := by
  induction entries with
  | nil => exact Nat.le_refl _
  | cons x entries ih =>
    have hx : x.part.length ≤ x.encode.length := by
      cases x with
      | other => exact Nat.zero_le _
      | nm version flags content =>
        show content.length ≤ (_ :: _ :: _ :: _ :: _ :: content).length
        simp only [length_cons]
        omega
    rw [flatMap_cons, flatMap_cons, length_append, length_append]
    exact Nat.add_le_add hx ih

/-- An identifier and its system use area are read as the name. -/
theorem isoText_plain {n : PlainName} {r : IsoRecord} (hidentifier : r.identifier = n.identifier)
    (hsystemUse : r.systemUse = n.systemUse) : isoText false r.encode n.identifier = some n.text := by
  have hle := r.length_le
  have hshown : plainName n.identifier = n.shown := by
    refine plainName_identifier ?_
    rw [← hidentifier, isoNameLen]
    omega
  have hoff : 33 + n.identifier.length + (33 + n.identifier.length) % 2 = r.suOff := by
    rw [← hidentifier, IsoRecord.suOff]
  have hlength : r.encode.length = r.suOff + r.systemUse.length := r.length_encode
  rw [isoText, if_neg Bool.false_ne_true, hoff]
  dsimp only
  split_ifs with hsu
  · have hparts : (n.entries.flatMap SuspEntry.part).length < isoNameLen := by
      have hpart := length_part_le n.entries
      rw [hsystemUse, PlainName.systemUse, length_append] at hle
      rw [isoNameLen]
      omega
    rw [r.bytesAt_encode_systemUse, Option.bind_some, hsystemUse, rockridgeName_systemUse hparts, Option.map_some,
      hshown, PlainName.text]
    split_ifs <;> rfl
  · -- without a system use area there is no other name
    have hnil : n.systemUse = [] := by
      rw [← hsystemUse, ← length_eq_zero_iff]
      omega
    have hentries : n.entries = [] := by
      rw [eq_nil_iff_forall_not_mem]
      intro x hx
      have hx := flatMap_eq_nil_iff.mp (append_eq_nil_iff.mp hnil).1 x hx
      cases x <;> cases hx
    rw [hshown, PlainName.text, hentries, filter_nil, if_pos rfl]

/-- **The name of a record** is read whole; that of a Joliet file keeps its version. -/
theorem isoNameFromRecord_encode {joliet : Bool} (name : IsoName joliet) {r : IsoRecord}
    (hidentifier : r.identifier = name.identifier) (hsystemUse : r.systemUse = name.systemUse) :
    isoNameFromRecord joliet r.encode = some name.read := by
  have hlength := r.length_bounds.2
  have hbytes : bytesAt r.encode 33 (UInt8.ofNat r.identifier.length).toNat = some r.identifier := by
    rw [r.toNat_nameLen, r.bytesAt_encode_identifier]
  rw [isoNameFromRecord, r.getElem?_encode_nameLen, Option.bind_eq_bind, Option.bind_some, hbytes, Option.bind_eq_bind,
    Option.bind_some, hidentifier]
  cases name with
  | dots parent su => cases parent <;> rfl
  | joliet n su =>
    have hlong : n.recorded.length ≤ 127 := by
      have hlen : r.identifier.length = 2 * n.recorded.length := by rw [hidentifier]; exact length_ucs2be _
      have hle := r.length_le
      omega
    have hne : n.recorded.flatMap String.utf8EncodeChar ≠ [] := by
      obtain ⟨c, hc⟩ := exists_mem_of_ne_nil _ n.ne_nil
      have hbytes : String.utf8EncodeChar c ≠ [] := by
        rw [← length_pos_iff, String.length_utf8EncodeChar]
        exact c.utf8Size_pos
      exact fun h => hbytes (flatMap_eq_nil_iff.mp h c (mem_append_left _ hc))
    have hplain : ∀ b ∈ n.recorded.flatMap String.utf8EncodeChar, b ≠ 0 := by
      intro b hb
      obtain ⟨c, hc, hb⟩ := mem_flatMap.mp hb
      exact utf8EncodeChar_ne_zero (n.recorded_plain c hc).1 b hb
    show (if ucs2be n.recorded = [0] then _ else if ucs2be n.recorded = [1] then _ else _) = _
    rw [if_neg (ucs2be_ne_singleton _ _), if_neg (ucs2be_ne_singleton _ _), isoText, if_pos rfl]
    show some (orQuestion (ucs2beToUtf8 (ucs2be n.recorded) [])) = _
    rw [ucs2beToUtf8_ucs2be n.recorded_plain (by rw [length_nil, isoNameLen]; omega), nil_append,
      orQuestion_eq hne hplain]
    rfl
  | plain n =>
    show (if n.identifier = [0] then _ else if n.identifier = [1] then _ else _) = _
    rw [if_neg n.identifier_ne_dots.1, if_neg n.identifier_ne_dots.2]
    show (isoText false r.encode n.identifier).map orQuestion = _
    rw [isoText_plain hidentifier hsystemUse, Option.map_some, orQuestion_eq n.text_ne_nil n.text_ne_zero]
    rfl

end RecoveryQt
