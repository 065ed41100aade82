import RecoveryQt.Iso.Model

/-!
# The reads of an ISO 9660 directory

* `rockridgeLoop_isSome`, `isoNameFromRecord_isSome`, `isoHeader_isSome`: what is read of a record is in it;
* **`IsoExtent.isoParseDirBlock_isSome`**: `iso_parse_dir_block` ends, and reads only bytes of the directory.
-/

namespace RecoveryQt

open List

theorem bytesAt_of_le {l : List UInt8} {i n : ℕ} (h : i + n ≤ l.length) : bytesAt l i n = some ((l.drop i).take n) :=
  if_pos h

theorem length_of_bytesAt {l r : List UInt8} {i n : ℕ} (h : bytesAt l i n = some r) : r.length = n := by
  unfold bytesAt at h
  split_ifs at h with hle
  obtain rfl := Option.some.inj h
  rw [length_take, length_drop]
  omega

/-- The entries of a system use area are read in it. -/
theorem rockridgeLoop_isSome (su dst : List UInt8) (found : Bool) : ∃ r, rockridgeLoop su dst found = some r := by
  fun_induction rockridgeLoop su dst found with
  | case1 => exact ⟨_, rfl⟩
  | case2 s t len version dst found hname hlen =>
    -- an `NM` entry has its flags
    rw [length_nil] at hlen
    omega
  | case3 => exact ⟨_, rfl⟩
  | case4 s t len version dst found hname flags content hflags hread hlen =>
    rw [length_cons] at hlen
    rw [bytesAt_of_le (by omega)] at hread
    cases hread
  | case5 => exact ⟨_, rfl⟩
  | case6 => assumption
  | case7 => assumption
  | case8 => exact ⟨_, rfl⟩

theorem isoText_isSome (joliet : Bool) (record name : List UInt8) : ∃ dst, isoText joliet record name = some dst := by
  unfold isoText
  split_ifs with hjoliet
  · exact ⟨_, rfl⟩
  dsimp only
  split_ifs with hsu
  · rw [bytesAt_of_le (by omega), Option.bind_some, rockridgeName]
    obtain ⟨alternate, halternate⟩ := rockridgeLoop_isSome (skipSp _) [] false
    exact ⟨_, by rw [halternate]; rfl⟩
  · exact ⟨_, rfl⟩

/-- **The name** is read in its record. -/
theorem isoNameFromRecord_isSome (joliet : Bool) {record : List UInt8} {nameLen : UInt8}
    (hnameLen : record[32]? = some nameLen) (h : 33 + nameLen.toNat ≤ record.length) :
    ∃ name, isoNameFromRecord joliet record = some name := by
  rw [isoNameFromRecord, hnameLen, Option.bind_eq_bind, Option.bind_some, bytesAt_of_le h, Option.bind_eq_bind,
    Option.bind_some]
  split_ifs
  · exact ⟨_, rfl⟩
  · exact ⟨_, rfl⟩
  · obtain ⟨dst, hdst⟩ := isoText_isSome joliet record ((record.drop 33).take nameLen.toNat)
    exact ⟨_, by rw [hdst]; rfl⟩

theorem isoHeader_isSome {record : List UInt8} (h : 34 ≤ record.length) : ∃ header, isoHeader record = some header := by
  have hxar : record[1]? = some record[1] := getElem?_eq_getElem (by omega)
  have hflags : record[25]? = some record[25] := getElem?_eq_getElem (by omega)
  have hlocation : 2 + 4 ≤ record.length := by omega
  have hdata : 10 + 4 ≤ record.length := by omega
  simp only [isoHeader, hxar, hflags, Option.bind_eq_bind, Option.bind_some, bytesAt_of_le hlocation,
    bytesAt_of_le hdata]
  exact ⟨_, rfl⟩

theorem isoFile_isSome (joliet : Bool) {record : List UInt8} {nameLen : UInt8}
    (hnameLen : record[32]? = some nameLen) (h : 33 + nameLen.toNat ≤ record.length) (header : IsoHeader)
    (multiSize : UInt64) (multiExtent : UInt32) :
    ∃ file, isoFile joliet record header multiSize multiExtent = some file := by
  obtain ⟨name, hname⟩ := isoNameFromRecord_isSome joliet hnameLen h
  have hdate : 18 + 7 ≤ record.length := by
    have := (List.getElem?_eq_some_iff.mp hnameLen).1
    omega
  simp only [isoFile, hname, Option.bind_eq_bind, Option.bind_some, bytesAt_of_le hdate]
  exact ⟨_, rfl⟩

namespace IsoExtent

theorem parseFrom_isSome (e : IsoExtent) (offset : ℕ) (multiSize : UInt64) (multiExtent : UInt32) :
    ∃ files, e.parseFrom offset multiSize multiExtent = some files := by
  fun_induction parseFrom e offset multiSize multiExtent with
  | case1 offset multiSize multiExtent hoffset hread =>
    rw [getElem?_eq_getElem (by omega)] at hread
    cases hread
  | case2 => assumption
  | case3 => exact ⟨_, rfl⟩
  | case4 offset multiSize multiExtent hoffset recLen hread hzero hlen hrecord =>
    rw [bytesAt_of_le (by omega)] at hrecord
    cases hrecord
  | case5 => exact ⟨_, rfl⟩
  | case6 offset multiSize multiExtent hoffset recLen hread hzero hlen record hrecord nameLen h hheader hnameLen hname
      hmulti ih =>
    rw [dite_eq_ite] at ih
    exact ih
  | case7 offset multiSize multiExtent hoffset recLen hread hzero hlen record hrecord nameLen h hheader hnameLen hname
      hmulti hfile =>
    have hlength := length_of_bytesAt hrecord
    obtain ⟨file, hsome⟩ := isoFile_isSome e.joliet hnameLen (by omega) h multiSize multiExtent
    rw [hfile] at hsome
    cases hsome
  | case8 offset multiSize multiExtent hoffset recLen hread hzero hlen record hrecord nameLen h hheader hnameLen hname
      hmulti file hfile ih =>
    obtain ⟨files, hfiles⟩ := ih
    exact ⟨file :: files, by rw [hfiles, Option.map_some]⟩
  | case9 offset multiSize multiExtent hoffset recLen hread hzero hlen record hrecord hnone =>
    have hlength := length_of_bytesAt hrecord
    have hlong : 34 ≤ record.length := by omega
    obtain ⟨header, hheader⟩ := isoHeader_isSome hlong
    exact absurd (getElem?_eq_getElem (by omega)) fun hnameLen => hnone _ header hnameLen hheader
  | case10 => exact ⟨_, rfl⟩

/-- **A directory is parsed to its end**, and all that is read of it are its bytes. -/
theorem isoParseDirBlock_isSome (e : IsoExtent) : ∃ files, e.isoParseDirBlock = some files := e.parseFrom_isSome 0 0 0

end IsoExtent

end RecoveryQt
