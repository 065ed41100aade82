import RecoveryQt.Disk.GptWritten

/-!
# Reading a GUID partition table that was written

* `gptHeader_gptHdrAt`, `gptTable_gptTableBytes`: a header is accepted, its table is read;
* **`readPartGptAux_primary`**, **`readPartGptAux_alternate`**: what each header of the disk gives;
* `GptReadBack`: the list is read from both headers; `GptRoom`: what the disk has room for;
* **`writePartGpt_readBack_iff`**: when reading inverts writing;
* `writePartGpt_oneSector`: a partition of one sector is not read.
-/

namespace RecoveryQt

open List hiding Vector
open PartitionStruct

/-! ## Headers -/

section Header

variable {uuids : ℕ → EfiGuid} {disk d : Disk} {entries : List GptEnt} {self alt table : UInt64}
  {check : Disk → PartitionStruct → PartitionStruct}

/-- A header does not fit in a small sector. -/
theorem gptHeader_of_small (h : d.sectorSize < 92) (lba : UInt64) : gptHeader d lba = none := by
  rw [gptHeader, Option.bind_eq_none_iff]
  intro buffer _
  rw [if_neg]
  simp only [gptHeaderOk, Bool.and_eq_true, decide_eq_true_eq]
  omega

theorem gptHeader_of_signature {lba : UInt64} (hss : 8 ≤ d.sectorSize)
    (h : slice d.content (lba * d.sectorSize64).toNat 8 ≠ gptHdrSig.toList) : gptHeader d lba = none := by
  rw [gptHeader, Option.bind_eq_none_iff]
  intro buffer hbuffer
  rw [if_neg]
  intro hok
  simp only [gptHeaderOk, Bool.and_eq_true, decide_eq_true_eq] at hok
  obtain ⟨⟨⟨⟨⟨⟨⟨⟨hsig, -⟩, -⟩, -⟩, -⟩, -⟩, -⟩, -⟩, -⟩ := hok
  cases hbad : d.bad d.sectorSize (lba * d.sectorSize64).toNat with
  | true =>
    rw [Disk.readBytes, Disk.pread, hbad] at hbuffer
    cases hbuffer
  | false =>
    obtain rfl := Option.some.inj (hbuffer.symm.trans (readBytes_eq hbad))
    refine h ?_
    rw [← hsig, GptHdr.ofBytes, toList_vectorAt (by rwa [length_slice]), drop_zero, take_slice _ _ hss]

/-- A header that was written is accepted if its sectors are in order. -/
theorem gptHeader_gptHdrAt (hss : 92 ≤ d.sectorSize)
    (hread : d.readBytes d.sectorSize (self * d.sectorSize64) =
      some ((gptHdrAt uuids disk entries self alt table).sector d.sectorSize)) :
    gptHeader d self =
      if 1 + 16384 / disk.sectorSize64 + 1 < disk.altTableLba - 1 ∧
          ¬ (self = 1 ∧ (table * d.sectorSize64 ≤ self + 92 - 1 ∨
            (1 + 16384 / disk.sectorSize64 + 1) * d.sectorSize64 ≤ table * d.sectorSize64)) then
        some (gptHdrAt uuids disk entries self alt table)
      else none := by
  have hheader : GptHdr.ofBytes ((gptHdrAt uuids disk entries self alt table).sector d.sectorSize) =
      gptHdrAt uuids disk entries self alt table := by
    rw [GptHdr.sector_eq _ hss, GptHdr.ofBytes_bytes]
  have hcrc : gptCrc ((clearCrcSelf ((gptHdrAt uuids disk entries self alt table).sector d.sectorSize)).take 92) =
      (gptHdrAt uuids disk entries self alt table).hdrCrcSelf := gptCrc_sector _ hss
  have hfields : (gptHdrAt uuids disk entries self alt table).hdrSig = gptHdrSig ∧
      (gptHdrAt uuids disk entries self alt table).hdrSize = 92 ∧
      (gptHdrAt uuids disk entries self alt table).hdrLbaSelf = self ∧
      (gptHdrAt uuids disk entries self alt table).hdrLbaStart = 1 + 16384 / disk.sectorSize64 + 1 ∧
      (gptHdrAt uuids disk entries self alt table).hdrLbaEnd = disk.altTableLba - 1 ∧
      (gptHdrAt uuids disk entries self alt table).hdrLbaTable = table ∧
      (gptHdrAt uuids disk entries self alt table).hdrEntries = 128 ∧
      (gptHdrAt uuids disk entries self alt table).hdrEntsz = 128 := ⟨rfl, rfl, rfl, rfl, rfl, rfl, rfl, rfl⟩
  rw [gptHeader, hread, Option.bind_some, hheader]
  refine if_congr ?_ rfl rfl
  generalize gptHdrAt uuids disk entries self alt table = h at hcrc hfields ⊢
  obtain ⟨hsig, hsize, hself, hstart, hend, htable, hentries, hentsz⟩ := hfields
  rw [gptHeaderOk, hsig, hsize, hself, hstart, hend, htable, hentries, hentsz]
  simp [hss, hcrc]
  exact fun _ => imp_iff_not_or.symm

/-- A table has the checksum of the header or not. -/
theorem gptTable_gptHdrAt {bytes : List UInt8} (hread : d.readBytes 16384 (table * d.sectorSize64) = some bytes) :
    gptTable d (gptHdrAt uuids disk entries self alt table) =
      if gptCrc bytes = gptCrc (gptEntryBytes entries) then some (gptEntsOfBytes 128 128 bytes) else none := by
  have hcount : ((gptHdrAt uuids disk entries self alt table).hdrEntries *
      (gptHdrAt uuids disk entries self alt table).hdrEntsz).toNat = 16384 := by
    show ((128 : UInt32) * 128).toNat = 16384
    decide
  rw [gptTable, hcount]
  exact congrArg (Option.bind · _) hread

/-- The table of a list is read from behind its header. -/
theorem gptTable_gptTableBytes {list : List PartitionStruct}
    (hread : d.readBytes 16384 (table * d.sectorSize64) = some (gptTableBytes uuids disk list)) :
    gptTable d (gptHdrAt uuids disk (gptEntries uuids disk list) self alt table) =
      some (gptEntries uuids disk list) := by
  have hentries := gptEntsOfBytes_bytes (gptEntries uuids disk list)
  rw [length_gptEntries] at hentries
  rw [gptTable_gptHdrAt hread, gptTableBytes, if_pos rfl, hentries]

theorem readPartGptAux_of_header {lba : UInt64}
    (h : gptHeader d lba = none) : readPartGptAux check d lba = [] := by
  rw [readPartGptAux, h]

theorem readPartGptAux_of_small (h : d.sectorSize < 92) (lba : UInt64) : readPartGptAux check d lba = [] :=
  readPartGptAux_of_header (gptHeader_of_small h lba)

end Header

/-! ## The two headers -/

section Written

variable {uuids : ℕ → EfiGuid} {disk D D' : Disk} {list : List PartitionStruct}
  {check : Disk → PartitionStruct → PartitionStruct}

/-- The first entry of a table is no signature of a header. -/
theorem GptList.take_gptTableBytes (h : GptList disk.sectorSize list) :
    (gptTableBytes uuids disk list).take 8 ≠ gptHdrSig.toList := by
  have hlength : (gptEntries uuids disk list).length = 128 := length_gptEntries list
  have hpos : 0 < (gptEntries uuids disk list).length := by omega
  have hzero : (gptEntries uuids disk list)[0]? = some (gptEntries uuids disk list)[0] := List.getElem?_eq_getElem hpos
  have htype : (gptEntries uuids disk list)[0].entType ∈ EfiGuid.unused :: gptSysTypes := by
    by_cases hused : ∃ p ∈ list, p.order.toNat = 0 + 1
    · obtain ⟨p, hp, horder⟩ := hused
      obtain ⟨e, he, htype, -⟩ := h.getElem?_gptEntries uuids disk hp horder
      rw [Option.some.inj (hzero.symm.trans he), htype]
      exact mem_cons_of_mem _ (h.known p hp)
    · push Not at hused
      rw [Option.some.inj (hzero.symm.trans (getElem?_gptEntries_of_not (by omega) hused))]
      exact mem_cons_self
  have hall : ((EfiGuid.unused :: gptSysTypes).all fun t => t.toList.take 8 ≠ gptHdrSig.toList) = true := by
    decide +kernel
  have hne := of_decide_eq_true (all_eq_true.mp hall _ htype)
  rw [gptTableBytes, gptEntryBytes, ← drop_zero (l := gptEntries uuids disk list),
    drop_eq_getElem_cons (by omega), flatMap_cons, GptEnt.bytes, append_assoc,
    take_append_of_le_length (by rw [Vector.length_toList]; omega)]
  exact hne

variable (uuids disk list) in
/-- The checksum tells the alternate table from what is left of it when the alternate header begins inside it. -/
def ChecksumTells : Prop :=
  disk.lastLba.toNat * disk.sectorSize < disk.altTableLba.toNat * disk.sectorSize + 16384 →
    gptCrc (gptAltTableLeft uuids disk list) ≠ gptCrc (gptTableBytes uuids disk list)

variable (L : GptLayout disk)

include L

theorem GptLayout.toNat_lbaStart : (1 + 16384 / disk.sectorSize64 + 1).toNat = 16384 / disk.sectorSize + 2 := by
  have hn : 16384 / disk.sectorSize ≤ 16384 := Nat.div_le_self ..
  rw [UInt64.toNat_add, UInt64.toNat_add, UInt64.toNat_div, toNat_sectorSize64 L.sector_lt]
  show ((1 + 16384 / disk.sectorSize) % 2 ^ 64 + 1) % 2 ^ 64 = _
  generalize 16384 / disk.sectorSize = n at hn ⊢
  omega

/-- The range of sectors in a header. -/
theorem GptLayout.lba_lt_iff :
    1 + 16384 / disk.sectorSize64 + 1 < disk.altTableLba - 1 ↔ 16384 / disk.sectorSize + 4 ≤ disk.altTableLba.toNat := by
  have hone := L.one_le_table
  have hlt := disk.altTableLba.toNat_lt
  have hn : 16384 / disk.sectorSize ≤ 16384 := Nat.div_le_self ..
  have hstart := L.toNat_lbaStart
  have hend : (disk.altTableLba - 1).toNat = disk.altTableLba.toNat - 1 := by
    rw [UInt64.toNat_sub, UInt64.toNat_one]
    omega
  rw [UInt64.lt_iff_toNat_lt, hstart, hend]
  omega

/-- The table behind the primary header is accepted if there is a sector of it in front of the first one. -/
theorem GptLayout.primary_table_iff (hss : 92 ≤ disk.sectorSize) :
    ¬ (2 * disk.sectorSize64 ≤ 1 + 92 - 1 ∨
      (1 + 16384 / disk.sectorSize64 + 1) * disk.sectorSize64 ≤ 2 * disk.sectorSize64) ↔
    disk.sectorSize ≤ 16384 := by
  have hlt := L.sector_lt
  have hn : 16384 / disk.sectorSize ≤ 16384 := Nat.div_le_self ..
  have hstart := L.toNat_lbaStart
  have hproduct := Nat.div_mul_le_self 16384 disk.sectorSize
  have hfirst : ((1 + 16384 / disk.sectorSize64 + 1) * disk.sectorSize64).toNat =
      (16384 / disk.sectorSize + 2) * disk.sectorSize := by
    rw [toNat_mul_sectorSize64 hlt, hstart]
    rw [hstart, Nat.add_mul]
    omega
  rw [UInt64.le_iff_toNat_le, UInt64.le_iff_toNat_le, hfirst, L.toNat_two, not_or, not_le, not_le]
  change 92 < 2 * disk.sectorSize ∧ _ ↔ _
  rw [Nat.mul_lt_mul_right L.pos, Nat.lt_add_left_iff_pos, Nat.div_pos_iff]
  omega

variable (W : GptWritten uuids disk list D)

include W

/-- **The primary header** is accepted if the disk has room, and its table is read. -/
theorem readPartGptAux_primary (hlist : GptList disk.sectorSize list) (hss : 92 ≤ disk.sectorSize) :
    readPartGptAux check D 1 =
      if 16384 / disk.sectorSize + 4 ≤ disk.altTableLba.toNat ∧ disk.sectorSize ≤ 16384 then
        gptPartitions check D (gptEntries uuids disk list)
      else [] := by
  have hsector64 : D.sectorSize64 = disk.sectorSize64 := by rw [Disk.sectorSize64, W.sectorSize, Disk.sectorSize64]
  have hstart : (1 * D.sectorSize64).toNat = disk.sectorSize := by rw [hsector64, L.toNat_one]
  rcases Nat.eq_or_lt_of_le L.one_le_table with hone | htwo
  · -- the alternate table is written over the primary header
    rw [if_neg fun h => absurd ((Nat.le_add_left 4 _).trans h.1) (by omega), readPartGptAux_of_header]
    refine gptHeader_of_signature (by rw [W.sectorSize]; omega) ?_
    rw [hstart, W.slice_eq le_rfl, slice_gptContent_first L hone.symm hss]
    exact hlist.take_gptTableBytes
  · have hread : D.readBytes D.sectorSize (1 * D.sectorSize64) =
        some ((gptPrimary uuids disk (gptEntries uuids disk list)).sector D.sectorSize) := by
      rw [readBytes_eq (by rw [hstart, W.sectorSize, W.primary_read]), hstart, W.sectorSize, W.slice_eq le_rfl,
        slice_gptContent_primary L htwo]
      rfl
    have hheader : gptHeader D 1 = if 16384 / disk.sectorSize + 4 ≤ disk.altTableLba.toNat ∧ disk.sectorSize ≤ 16384
        then some (gptPrimary uuids disk (gptEntries uuids disk list)) else none := by
      refine (gptHeader_gptHdrAt (W.sectorSize ▸ hss) hread).trans (if_congr ?_ rfl rfl)
      rw [hsector64, L.lba_lt_iff, eq_self_iff_true, true_and, L.primary_table_iff hss]
    rw [readPartGptAux, hheader]
    split_ifs with hroom
    · have hproduct := Nat.lt_div_mul_add (a := 16384) L.pos
      have htable := Nat.mul_le_mul_right disk.sectorSize hroom.1
      have hoffset : (2 * D.sectorSize64).toNat = 2 * disk.sectorSize := by rw [hsector64, L.toNat_two]
      have hbytes : D.readBytes 16384 (2 * D.sectorSize64) = some (gptTableBytes uuids disk list) := by
        rw [readBytes_eq (by rw [hoffset, W.table_read]), hoffset, W.slice_eq (by omega),
          slice_gptContent_table L (by rw [Nat.add_mul] at htable; omega)]
      have hentries : gptTable D (gptPrimary uuids disk (gptEntries uuids disk list)) =
          some (gptEntries uuids disk list) := gptTable_gptTableBytes hbytes
      simp only [hentries]
    · rfl

/-- **The alternate header** is accepted if the disk has room, and its table is read if the header is behind it. -/
theorem readPartGptAux_alternate (hss : 92 ≤ disk.sectorSize) (hcrc : ChecksumTells uuids disk list)
    (hdiff : D.DiffersInPrimary D') :
    readPartGptAux check D' disk.lastLba =
      if 16384 / disk.sectorSize + 4 ≤ disk.altTableLba.toNat ∧
          disk.altTableLba.toNat * disk.sectorSize + 16384 ≤ disk.lastLba.toNat * disk.sectorSize then
        gptPartitions check D' (gptEntries uuids disk list)
      else [] := by
  have hsector : D'.sectorSize = disk.sectorSize := hdiff.sectorSize.trans W.sectorSize
  have hsector64 : D'.sectorSize64 = disk.sectorSize64 := by rw [Disk.sectorSize64, hsector, Disk.sectorSize64]
  have hlast : (disk.lastLba * D'.sectorSize64).toNat = disk.lastLba.toNat * disk.sectorSize := by
    rw [hsector64, L.toNat_last]
  have htable : (disk.altTableLba * D'.sectorSize64).toNat = disk.altTableLba.toNat * disk.sectorSize := by
    rw [hsector64, L.toNat_table]
  have hread : D'.readBytes D'.sectorSize (disk.lastLba * D'.sectorSize64) =
      some ((gptAlternate uuids disk (gptEntries uuids disk list)).sector D'.sectorSize) := by
    rw [W.readBytes_behind hdiff (by rw [hlast]; exact L.two_sectors_le_last) (by rw [hlast, hsector, W.last_read]),
      hlast, hsector, slice_gptContent_last L]
    rfl
  have hne : disk.lastLba ≠ 1 := by
    intro heq
    have htwo := L.two_le_last
    rw [heq, UInt64.toNat_one] at htwo
    omega
  have hheader : gptHeader D' disk.lastLba = if 16384 / disk.sectorSize + 4 ≤ disk.altTableLba.toNat
      then some (gptAlternate uuids disk (gptEntries uuids disk list)) else none := by
    refine (gptHeader_gptHdrAt (hsector ▸ hss) hread).trans (if_congr ?_ rfl rfl)
    rw [L.lba_lt_iff]
    exact and_iff_left fun h => hne h.1
  rw [readPartGptAux, hheader]
  by_cases hroom : 16384 / disk.sectorSize + 4 ≤ disk.altTableLba.toNat
  · have htwo := Nat.mul_le_mul_right disk.sectorSize ((Nat.le_add_left 4 _).trans hroom)
    have hbytes := W.readBytes_behind hdiff (by rw [htable]; omega) (by rw [htable, W.altTable_read])
    rw [htable] at hbytes
    rw [if_pos hroom]
    split_ifs with hbehind
    · rw [slice_gptContent_altTable L hbehind.2] at hbytes
      have hentries : gptTable D' (gptAlternate uuids disk (gptEntries uuids disk list)) =
          some (gptEntries uuids disk list) := gptTable_gptTableBytes hbytes
      simp only [hentries]
    · have hover : disk.lastLba.toNat * disk.sectorSize < disk.altTableLba.toNat * disk.sectorSize + 16384 :=
        not_le.mp fun h => hbehind ⟨hroom, h⟩
      rw [slice_gptContent_altTable_left L hover] at hbytes
      have hentries : gptTable D' (gptAlternate uuids disk (gptEntries uuids disk list)) = none :=
        (gptTable_gptHdrAt hbytes).trans (if_neg (hcrc hover))
      simp only [hentries]
  · rw [if_neg hroom, if_neg fun h => hroom h.1]

end Written

/-! ## Reading back -/

section ReadBack

variable {host : GptHost} {uuids : ℕ → EfiGuid} {disk D D' : Disk} {list : List PartitionStruct}
  {check : Disk → PartitionStruct → PartitionStruct}

/-- The list is read from the primary header, and from the alternate one whenever the sector of the primary header is
no header any more. -/
structure GptReadBack (check : Disk → PartitionStruct → PartitionStruct) (D : Disk) (list : List PartitionStruct) :
    Prop where
  primary : (readPartGptAux check D 1).map gptKey ~ list.map gptKey
  whole : (readPartGpt check D).map gptKey ~ list.map gptKey
  alternate : ∀ D', D.DiffersInPrimary D' → readPartGptAux check D' 1 = [] →
    (readPartGpt check D').map gptKey ~ list.map gptKey

/-- The disk has room for both tables, for four more sectors, and for the alternate header behind its table. -/
structure GptRoom (disk : Disk) : Prop where
  header_fits : 92 ≤ disk.sectorSize
  sector_le : disk.sectorSize ≤ 16384
  room : 16384 / disk.sectorSize + 4 ≤ (disk.diskSize - 1 - 16384) / disk.sectorSize
  behind : (disk.diskSize - 1 - 16384) / disk.sectorSize * disk.sectorSize + 16384 ≤
    (disk.diskSize - 1) / disk.sectorSize * disk.sectorSize

theorem readPartGpt_of_nil (h : readPartGptAux check D 1 = []) :
    readPartGpt check D = readPartGptAux check D D.lastLba := by
  rw [readPartGpt, h]

theorem readPartGpt_of_ne_nil (h : readPartGptAux check D 1 ≠ []) :
    readPartGpt check D = readPartGptAux check D 1 := by
  rw [readPartGpt]
  split
  · contradiction
  · rfl

theorem Disk.DiffersInPrimary.refl (D : Disk) : D.DiffersInPrimary D := ⟨rfl, rfl, fun _ _ => rfl, fun _ _ _ => rfl⟩

/-- The sector of the primary header is filled with zeros. -/
def Disk.clearPrimary (D : Disk) : Disk :=
  { D with content := overwrite (replicate D.sectorSize 0) D.sectorSize D.content }

theorem differsInPrimary_clearPrimary (D : Disk) : D.DiffersInPrimary D.clearPrimary := by
  refine ⟨rfl, rfl, fun p hp => ?_, fun _ _ _ => rfl⟩
  exact overwrite_of_out (by rw [length_replicate]; omega) _

theorem readPartGptAux_clearPrimary (h : D.sectorSize < 2 ^ 32) : readPartGptAux check D.clearPrimary 1 = [] := by
  rcases Nat.lt_or_ge D.sectorSize 92 with hsmall | hss
  · exact readPartGptAux_of_small (d := D.clearPrimary) hsmall 1
  · refine readPartGptAux_of_header (gptHeader_of_signature (Nat.le_trans (by omega) hss) ?_)
    have hstart : (1 * D.clearPrimary.sectorSize64).toNat = D.sectorSize := by
      rw [UInt64.one_mul]
      exact toNat_sectorSize64 h
    rw [hstart, Disk.clearPrimary, ← take_slice _ _ (show 8 ≤ D.sectorSize by omega),
      slice_overwrite (length_replicate ..), take_replicate, Nat.min_eq_left (by omega)]
    decide

theorem readBack_iff (L : GptLayout disk) (W : GptWritten uuids disk list D) (hcheck : KeepsGpt check)
    (hlist : GptList disk.sectorSize list) (hcrc : ChecksumTells uuids disk list) :
    GptReadBack check D list ↔ list = [] ∨ GptRoom disk ∧ ∀ p ∈ list, p.SpansSectors disk.sectorSize := by
  have hentries : ∀ {d : Disk}, d.sectorSize = disk.sectorSize →
      ((gptPartitions check d (gptEntries uuids disk list)).map gptKey ~ list.map gptKey ↔
        ∀ p ∈ list, p.SpansSectors disk.sectorSize) :=
    fun hd => gptPartitions_perm_iff hcheck L.sector_lt L.pos hlist hd
  constructor
  · intro hreads
    refine or_iff_not_imp_left.mpr fun hne => ?_
    have hkeys : list.map gptKey ≠ [] := fun h => hne (map_eq_nil_iff.mp h)
    have hfits : 92 ≤ disk.sectorSize := by
      by_contra hcon
      have hprimary := hreads.primary
      rw [readPartGptAux_of_small (by rw [W.sectorSize]; omega)] at hprimary
      exact hkeys (nil_perm.mp hprimary)
    have hprimary := hreads.primary
    rw [readPartGptAux_primary L W hlist hfits] at hprimary
    split_ifs at hprimary with hroom
    case neg => exact absurd (nil_perm.mp hprimary) hkeys
    -- without the primary header
    have halternate := hreads.alternate _ (differsInPrimary_clearPrimary D)
      (readPartGptAux_clearPrimary (by rw [W.sectorSize]; exact L.sector_lt))
    rw [readPartGpt_of_nil (readPartGptAux_clearPrimary (by rw [W.sectorSize]; exact L.sector_lt)),
      W.lastLba_eq (differsInPrimary_clearPrimary D),
      readPartGptAux_alternate L W hfits hcrc (differsInPrimary_clearPrimary D)] at halternate
    split_ifs at halternate with hbehind
    case neg => exact absurd (nil_perm.mp halternate) hkeys
    rw [L.table_eq, L.last_eq] at hbehind
    exact ⟨⟨hfits, hroom.2, hbehind.1, hbehind.2⟩, (hentries W.sectorSize).mp hprimary⟩
  · intro h
    have hspans : ∀ p ∈ list, p.SpansSectors disk.sectorSize := by
      rcases h with rfl | ⟨-, hspans⟩
      · exact fun p hp => absurd hp not_mem_nil
      · exact hspans
    have hempty : ¬ GptRoom disk → ([] : List PartitionStruct).map gptKey ~ list.map gptKey := by
      intro hroom
      rw [h.resolve_right fun h => hroom h.1]
    have hprimary : (readPartGptAux check D 1).map gptKey ~ list.map gptKey := by
      rcases Nat.lt_or_ge disk.sectorSize 92 with hsmall | hss
      · rw [readPartGptAux_of_small (by rwa [W.sectorSize])]
        exact hempty fun hroom => absurd hroom.header_fits (not_le.mpr hsmall)
      · rw [readPartGptAux_primary L W hlist hss]
        split_ifs with hfits
        · exact (hentries W.sectorSize).mpr hspans
        · refine hempty fun hroom => hfits ⟨?_, hroom.sector_le⟩
          rw [L.table_eq]
          exact hroom.room
    have halternate : ∀ D', D.DiffersInPrimary D' →
        (readPartGptAux check D' D'.lastLba).map gptKey ~ list.map gptKey := by
      intro D' hdiff
      have hsector : D'.sectorSize = disk.sectorSize := hdiff.sectorSize.trans W.sectorSize
      rcases Nat.lt_or_ge disk.sectorSize 92 with hsmall | hss
      · rw [readPartGptAux_of_small (by rwa [hsector])]
        exact hempty fun hroom => absurd hroom.header_fits (not_le.mpr hsmall)
      · rw [W.lastLba_eq hdiff, readPartGptAux_alternate L W hss hcrc hdiff]
        split_ifs with hfits
        · exact (hentries hsector).mpr hspans
        · refine hempty fun hroom => hfits ?_
          rw [L.table_eq, L.last_eq]
          exact ⟨hroom.room, hroom.behind⟩
    refine ⟨hprimary, ?_, fun D' hdiff hnil => readPartGpt_of_nil hnil ▸ halternate D' hdiff⟩
    by_cases hnil : readPartGptAux check D 1 = []
    · exact readPartGpt_of_nil hnil ▸ halternate D (.refl D)
    · exact readPartGpt_of_ne_nil hnil ▸ hprimary

/-- **Reading inverts writing** exactly when there is no partition, or the disk has room and each partition spans
sectors. -/
theorem writePartGpt_readBack_iff (hsector : disk.sectorSize < 2 ^ 32) (hsize : disk.diskSize < 2 ^ 64)
    (hcheck : KeepsGpt check) (hback : ReadsBack host.refuses disk) (hlist : GptList disk.sectorSize list)
    (hcrc : ChecksumTells host.uuids disk list) (hwrite : writePartGpt host disk list false = some D) :
    GptReadBack check D list ↔ list = [] ∨ GptRoom disk ∧ ∀ p ∈ list, p.SpansSectors disk.sectorSize :=
  have L := GptLayout.of_writePartGpt hsector hsize hback hwrite
  readBack_iff L (.of_writePartGpt L hback hwrite) hcheck hlist hcrc

/-- A host that takes each write to 2048 sectors. -/
def plainHost : GptHost where
  refuses := fun count offset => 2048 * 512 < offset + count
  uuids := fun i => .ofFields (UInt32.ofNat (i + 1)) 0 0x4000 0x80 0 (Vector.replicate 6 0)
  mbr := fun disk _ => Vector.ofFn fun i => if i = 510 then 0x55 else if i = 511 then 0xAA else disk.content i

/-- 2048 empty sectors. -/
def emptyDisk : Disk := ⟨512, 2048 * 512, fun _ => 0, fun _ _ => false⟩

/-- A partition of Windows data behind the table. -/
def dataPartition (sectors : UInt64) : PartitionStruct :=
  { partitionNew with
    order := 1
    partOffset := 34 * 512
    partSize := sectors * 512
    partTypeGpt := gptSysTypes[9]
    status := .prim }

theorem plainHost_readsBack : ReadsBack plainHost.refuses emptyDisk where
  inside := fun _ _ h => not_lt.mp (of_decide_eq_false h)
  read := fun _ _ _ => rfl

theorem gptList_dataPartition {sectors : UInt64} (h : 512 ≤ (sectors * 512).toNat) :
    GptList emptyDisk.sectorSize [dataPartition sectors] where
  orders := nodup_singleton _
  order_le := fun p hp => by
    obtain rfl := mem_singleton.mp hp
    show (1 : UInt32) ≤ 1 ∧ (1 : UInt32) ≤ 128
    decide
  known := fun p hp => by
    obtain rfl := mem_singleton.mp hp
    exact getElem_mem _
  aligned := fun p hp => by
    obtain rfl := mem_singleton.mp hp
    exact ⟨34, rfl⟩
  large := fun p hp => by
    obtain rfl := mem_singleton.mp hp
    exact h
  places := nodup_singleton _

theorem emptyDisk_checksumTells (list : List PartitionStruct) : ChecksumTells plainHost.uuids emptyDisk list :=
  fun h => absurd h (by decide +kernel)

theorem writePartGpt_emptyDisk (list : List PartitionStruct) :
    writePartGpt plainHost emptyDisk list false =
      some (writePartGptI386 plainHost { emptyDisk with content := gptContent plainHost.uuids emptyDisk list } list) :=
  writePartGpt_eq_some.mpr ⟨by decide +kernel, rfl⟩

/-- A partition of two sectors is read back. -/
theorem writePartGpt_twoSectors :
    ∃ D, writePartGpt plainHost emptyDisk [dataPartition 2] false = some D ∧
      GptReadBack (fun _ p => p) D [dataPartition 2] := by
  refine ⟨_, writePartGpt_emptyDisk _, ?_⟩
  refine (writePartGpt_readBack_iff (by decide) (by decide) (fun _ _ => rfl) plainHost_readsBack
    (gptList_dataPartition (by decide)) (emptyDisk_checksumTells _) (writePartGpt_emptyDisk _)).mpr (.inr ⟨?_, ?_⟩)
  · exact ⟨by decide, by decide, by decide +kernel, by decide +kernel⟩
  · intro p hp
    obtain rfl := mem_singleton.mp hp
    exact ⟨by decide, by decide, by decide⟩

/-- A partition of one sector is written, and not read. -/
theorem writePartGpt_oneSector :
    ReadsBack plainHost.refuses emptyDisk ∧ GptList emptyDisk.sectorSize [dataPartition 1] ∧
      ∃ D, writePartGpt plainHost emptyDisk [dataPartition 1] false = some D ∧
        ¬ (readPartGpt (fun _ p => p) D).map gptKey ~ [dataPartition 1].map gptKey := by
  have hlist : GptList emptyDisk.sectorSize [dataPartition 1] := gptList_dataPartition (by decide)
  have hwrite := writePartGpt_emptyDisk [dataPartition 1]
  have L := GptLayout.of_writePartGpt (by decide) (by decide) plainHost_readsBack hwrite
  have W := GptWritten.of_writePartGpt L plainHost_readsBack hwrite
  have hdropped : ∀ d : Disk, d.sectorSize = 512 → ∀ c [Decidable c],
      ¬ (if c then gptPartitions (fun _ p => p) d (gptEntries plainHost.uuids emptyDisk [dataPartition 1]) else []).map
        gptKey ~ [dataPartition 1].map gptKey := by
    intro d hd c _ hperm
    split_ifs at hperm
    · have hspans := (gptPartitions_perm_iff (fun _ _ => rfl) L.sector_lt L.pos hlist hd).mp hperm _ mem_cons_self
      exact absurd hspans.2.1 (by decide)
    · exact absurd (nil_perm.mp hperm) (cons_ne_nil _ _)
  refine ⟨plainHost_readsBack, hlist, _, hwrite, fun hperm => ?_⟩
  by_cases hnil : readPartGptAux (fun _ p => p) (writePartGptI386 plainHost { emptyDisk with
      content := gptContent plainHost.uuids emptyDisk [dataPartition 1] } [dataPartition 1]) 1 = []
  · rw [readPartGpt_of_nil hnil, W.lastLba_eq (.refl _),
      readPartGptAux_alternate L W (by decide) (emptyDisk_checksumTells _) (.refl _)] at hperm
    exact hdropped _ W.sectorSize _ hperm
  · rw [readPartGpt_of_ne_nil hnil, readPartGptAux_primary L W hlist (by decide)] at hperm
    exact hdropped _ W.sectorSize _ hperm

end ReadBack

end RecoveryQt
