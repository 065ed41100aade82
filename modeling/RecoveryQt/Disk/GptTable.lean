import RecoveryQt.Disk.Gpt
import Mathlib.Data.List.Nodup

/-!
# The bytes of a GUID partition table

* `GptHdr.ofBytes_bytes`, `GptEnt.ofBytes_bytes`: a header and an entry are read back;
* **`gptEntsOfBytes_bytes`**: so are the entries of a table;
* `clearCrcSelf_bytes`, `gptCrc_sector`: a header has its checksum;
* `GptList`, `GptList.getElem?_gptEntries`, `getElem?_gptEntries_of_not`: the entries that are written for a list;
* `sectors_iff`, `entry_place_iff`: the sectors of an entry, and the place that they give;
* **`gptPartitions_perm_iff`**: the partitions that are read from the entries are those of the list exactly when each
  spans sectors.
-/

namespace RecoveryQt

open List hiding Vector
open PartitionStruct

/-! ## Records -/

theorem vectorAt_eq {n offset : ℕ} {buffer : List UInt8} {v : Vector UInt8 n}
    (h : (buffer.drop offset).take n = v.toList) : vectorAt n buffer offset = v := by
  apply Vector.ext
  intro i hi
  have hitem : buffer[offset + i]? = some v[i] := by
    rw [← getElem?_drop, ← getElem?_take_of_lt hi, h, Vector.getElem?_toList, Vector.getElem?_eq_getElem hi]
  rw [vectorAt, Vector.getElem_ofFn, getD_eq_getElem?_getD, hitem, Option.getD_some]

theorem toList_vectorAt {n offset : ℕ} {buffer : List UInt8} (h : offset + n ≤ buffer.length) :
    (vectorAt n buffer offset).toList = (buffer.drop offset).take n := by
  have hlength : ((buffer.drop offset).take n).length = n := by
    rw [length_take, length_drop]
    omega
  rw [vectorAt_eq (v := ⟨((buffer.drop offset).take n).toArray, hlength⟩) rfl]
  rfl

@[simp] theorem GptHdr.length_bytes (h : GptHdr) : h.bytes.length = 92 := by simp [GptHdr.bytes]

/-- A header is read back. -/
theorem GptHdr.ofBytes_bytes (h : GptHdr) (rest : List UInt8) : GptHdr.ofBytes (h.bytes ++ rest) = h := by
  cases h
  simp only [GptHdr.ofBytes, GptHdr.bytes, append_assoc, GptHdr.mk.injEq]
  refine ⟨vectorAt_eq ?_, ?_, ?_, ?_, ?_, ?_, ?_, ?_, ?_, vectorAt_eq ?_, ?_, ?_, ?_, ?_⟩ <;>
    simp (disch := simp) only [numAt, take_drop_append_of_le, take_drop_append_left, length_leBytes,
      Vector.length_toList, Nat.reduceSub, Nat.sub_self, UInt64.ofNat_leNat, UInt32.ofNat_leNat]

theorem clearCrcSelf_append {front crc : List UInt8} (hfront : front.length = 0x10) (hcrc : crc.length = 4)
    (rest : List UInt8) : clearCrcSelf (front ++ (crc ++ rest)) = front ++ (leBytes 4 0 ++ rest) := by
  rw [clearCrcSelf, take_left' hfront, show 0x14 = 0x10 + 4 from rfl, ← drop_drop, drop_left' hfront, drop_left' hcrc]

/-- The buffer of a header without its checksum. -/
theorem clearCrcSelf_bytes (h : GptHdr) (rest : List UInt8) :
    clearCrcSelf (h.bytes ++ rest) = { h with hdrCrcSelf := 0 }.bytes ++ rest := by
  have hfront : (h.hdrSig.toList ++ (leBytes 4 h.hdrRevision.toNat ++ leBytes 4 h.hdrSize.toNat)).length = 0x10 := by
    simp
  have hclear := clearCrcSelf_append hfront (length_leBytes 4 h.hdrCrcSelf.toNat)
  simp only [append_assoc] at hclear
  simp only [GptHdr.bytes, append_assoc, hclear]
  rfl

theorem GptHdr.sector_eq (h : GptHdr) {sectorSize : ℕ} (hss : 92 ≤ sectorSize) :
    h.sector sectorSize = h.bytes ++ replicate (sectorSize - 92) 0 := by
  rw [GptHdr.sector, take_append, take_of_length_le (by simpa using hss), take_replicate, GptHdr.length_bytes,
    Nat.min_eq_left (Nat.sub_le _ _)]

@[simp] theorem GptHdr.length_sector (h : GptHdr) (sectorSize : ℕ) : (h.sector sectorSize).length = sectorSize := by
  simp [GptHdr.sector]

/-- A header has its checksum. -/
theorem gptCrc_sector (h : GptHdr) {sectorSize : ℕ} (hss : 92 ≤ sectorSize) :
    gptCrc ((clearCrcSelf (h.sealed.sector sectorSize)).take 92) = h.sealed.hdrCrcSelf := by
  rw [h.sealed.sector_eq hss, clearCrcSelf_bytes, take_left' (GptHdr.length_bytes _)]
  rfl
@[simp] theorem GptEnt.length_bytes (e : GptEnt) : e.bytes.length = 128 := by simp [GptEnt.bytes]

theorem UInt16.ofNat_leNat (x : UInt16) : UInt16.ofNat (leNat (leBytes 2 x.toNat)) = x := by
  rw [leNat_leBytes_of_lt x.toNat_lt, UInt16.ofNat_toNat]

/-- An entry is read back. -/
theorem GptEnt.ofBytes_bytes (e : GptEnt) (rest : List UInt8) : GptEnt.ofBytes (e.bytes ++ rest) = e := by
  cases e with
  | mk type uuid start stop attr name =>
    simp only [GptEnt.ofBytes, GptEnt.bytes, append_assoc, GptEnt.mk.injEq]
    refine ⟨vectorAt_eq ?_, vectorAt_eq ?_, ?_, ?_, ?_, Vector.ext fun i hi => ?_⟩
    case refine_6 =>
      have hunit : ((name.toList.flatMap fun c => leBytes 2 c.toNat).drop (i * 2)).take 2 = leBytes 2 name[i].toNat := by
        rw [take_drop_flatMap (fun c _ => length_leBytes 2 c.toNat) (by simpa using hi), Vector.getElem_toList]
      have hlength : i * 2 + 2 ≤ (name.toList.flatMap fun c => leBytes 2 c.toNat).length := by
        simp
        omega
      rw [Vector.getElem_ofFn, numAt]
      simp (disch := simp; omega) only [take_drop_append_of_le, length_leBytes, Vector.length_toList]
      rw [show 56 + i * 2 - 16 - 16 - 8 - 8 - 8 = i * 2 by omega, drop_append_of_le_length (by omega),
        take_append_of_le_length (by rw [length_drop]; omega), hunit, UInt16.ofNat_leNat]
    all_goals
      simp (disch := simp) only [numAt, take_drop_append_of_le, take_drop_append_left, length_leBytes,
        Vector.length_toList, Nat.reduceSub, Nat.sub_self, UInt64.ofNat_leNat]

@[simp] theorem length_gptEntryBytes (entries : List GptEnt) :
    (gptEntryBytes entries).length = entries.length * 128 := by
  simp [gptEntryBytes]

/-- **The entries of a table are read back.** -/
theorem gptEntsOfBytes_bytes (entries : List GptEnt) :
    gptEntsOfBytes entries.length 128 (gptEntryBytes entries) = entries := by
  apply ext_getElem
  · rw [gptEntsOfBytes, length_map, length_range]
  · intro i _ hi
    simp only [gptEntsOfBytes, getElem_map, getElem_range]
    rw [gptEntryBytes, drop_flatMap fun e _ => GptEnt.length_bytes e, drop_eq_getElem_cons hi, flatMap_cons, GptEnt.ofBytes_bytes]

/-! ## The table of a list -/

section Fill

variable {uuids : ℕ → EfiGuid} {disk : Disk}

theorem length_fillEntry (entries : List GptEnt) (p : PartitionStruct × ℕ) :
    (fillEntry uuids disk entries p).length = entries.length := by
  rw [fillEntry]
  split_ifs
  · exact length_modify ..
  · rfl

theorem getElem?_fillEntry (entries : List GptEnt) (p : PartitionStruct × ℕ) {i : ℕ} (hi : i < 128) :
    (fillEntry uuids disk entries p)[i]? =
      if p.1.order.toNat = i + 1 then
        entries[i]?.map (partitionGenerateGptEntry disk (gptEntriesOrg disk) (uuids p.2) p.1)
      else entries[i]? := by
  have horder : (0 < p.1.order && p.1.order ≤ 128) = true ↔ 0 < p.1.order.toNat ∧ p.1.order.toNat ≤ 128 := by
    rw [Bool.and_eq_true, decide_eq_true_eq, decide_eq_true_eq, UInt32.lt_iff_toNat_lt, UInt32.le_iff_toNat_le]
    rfl
  rw [fillEntry]
  simp only [horder]
  split_ifs with hin heq heq
  · rw [getElem?_modify]
    simp only [if_pos (show p.1.order.toNat - 1 = i by omega), Option.map_eq_map]
  · rw [getElem?_modify]
    simp only [if_neg (show p.1.order.toNat - 1 ≠ i by omega), Option.map_eq_map, Option.map_id']
  · omega
  · rfl

theorem getElem?_foldl_fillEntry_of_not {l : List (PartitionStruct × ℕ)} {i : ℕ} (hi : i < 128)
    (h : ∀ p ∈ l, p.1.order.toNat ≠ i + 1) (entries : List GptEnt) :
    (l.foldl (fillEntry uuids disk) entries)[i]? = entries[i]? := by
  induction l generalizing entries with
  | nil => rfl
  | cons p l ih =>
    rw [foldl_cons, ih fun q hq => h q (mem_cons_of_mem _ hq), getElem?_fillEntry _ _ hi,
      if_neg (h p mem_cons_self)]

/-- The entry of a partition is generated from it. -/
theorem getElem?_foldl_fillEntry {l : List (PartitionStruct × ℕ)} (hnodup : (l.map (·.1.order)).Nodup)
    {p : PartitionStruct × ℕ} (hp : p ∈ l) {i : ℕ} (hi : p.1.order.toNat = i + 1) (hle : i < 128)
    (entries : List GptEnt) :
    (l.foldl (fillEntry uuids disk) entries)[i]? =
      entries[i]?.map (partitionGenerateGptEntry disk (gptEntriesOrg disk) (uuids p.2) p.1) := by
  induction l generalizing entries with
  | nil => cases hp
  | cons q l ih =>
    rw [map_cons, nodup_cons] at hnodup
    rw [foldl_cons]
    rcases mem_cons.mp hp with rfl | hp
    · have hothers : ∀ q ∈ l, q.1.order.toNat ≠ i + 1 := by
        intro q hq heq
        exact hnodup.1 (mem_map.mpr ⟨q, hq, UInt32.toNat_inj.mp (heq.trans hi.symm)⟩)
      rw [getElem?_foldl_fillEntry_of_not hle hothers, getElem?_fillEntry _ _ hle, if_pos hi]
    · have hne : q.1.order.toNat ≠ i + 1 := fun heq =>
        hnodup.1 (mem_map.mpr ⟨p, hp, UInt32.toNat_inj.mp (hi.trans heq.symm)⟩)
      rw [ih hnodup.2 hp, getElem?_fillEntry _ _ hle, if_neg hne]

theorem length_gptEntries (list : List PartitionStruct) : (gptEntries uuids disk list).length = 128 := by
  suffices h : ∀ (l : List (PartitionStruct × ℕ)) entries,
      (l.foldl (fillEntry uuids disk) entries).length = entries.length from (h _ _).trans (length_replicate ..)
  intro l
  induction l with
  | nil => exact fun _ => rfl
  | cons p l ih => exact fun entries => (ih _).trans (length_fillEntry entries p)

/-- Partitions that a table has room for: known types in their own places, on sectors of `sectorSize` bytes. -/
structure GptList (sectorSize : ℕ) (list : List PartitionStruct) : Prop where
  orders : (list.map PartitionStruct.order).Nodup
  order_le : ∀ p ∈ list, 1 ≤ p.order ∧ p.order ≤ 128
  known : ∀ p ∈ list, p.partTypeGpt ∈ gptSysTypes
  aligned : ∀ p ∈ list, sectorSize ∣ p.partOffset.toNat
  large : ∀ p ∈ list, sectorSize ≤ p.partSize.toNat
  places : (list.map fun p => (p.partOffset, p.partSize)).Nodup

/-- What a partition is known by. -/
def PartitionStruct.gptKey (p : PartitionStruct) : UInt32 × UInt64 × UInt64 × EfiGuid :=
  (p.order, p.partOffset, p.partSize, p.partTypeGpt)

/-- What the partition of the entry with the index `i` is known by. -/
def GptEnt.gptKey (disk : Disk) (e : GptEnt) (i : ℕ) : UInt32 × UInt64 × UInt64 × EfiGuid :=
  (UInt32.ofNat (i + 1), e.entLbaStart * disk.sectorSize64, (e.entLbaEnd - e.entLbaStart + 1) * disk.sectorSize64,
    e.entType)

variable {list : List PartitionStruct} {ss : ℕ}

theorem GptList.order_toNat (h : GptList ss list) {p : PartitionStruct} (hp : p ∈ list) :
    1 ≤ p.order.toNat ∧ p.order.toNat ≤ 128 := by
  obtain ⟨hge, hle⟩ := h.order_le p hp
  exact ⟨UInt32.le_iff_toNat_le.mp hge, UInt32.le_iff_toNat_le.mp hle⟩

theorem lt_of_getElem?_gptEntries {i : ℕ} {e : GptEnt} (h : (gptEntries uuids disk list)[i]? = some e) : i < 128 :=
  length_gptEntries list ▸ (List.getElem?_eq_some_iff.mp h).1

variable (uuids disk) in
/-- The entry of a partition. -/
theorem GptList.getElem?_gptEntries (h : GptList ss list) {p : PartitionStruct} (hp : p ∈ list) {i : ℕ}
    (hi : p.order.toNat = i + 1) :
    ∃ e, (gptEntries uuids disk list)[i]? = some e ∧ e.entType = p.partTypeGpt ∧
      e.entLbaStart = p.partOffset / disk.sectorSize64 ∧
      e.entLbaEnd = (p.partOffset + p.partSize - 1) / disk.sectorSize64 := by
  have hle := (h.order_toNat hp).2
  rw [← zipIdx_map_fst 1 list] at hp
  obtain ⟨q, hq, rfl⟩ := mem_map.mp hp
  have hnodup : ((list.zipIdx 1).map (·.1.order)).Nodup := by
    have := h.orders
    rwa [← zipIdx_map_fst 1 list, map_map] at this
  refine ⟨partitionGenerateGptEntry disk (gptEntriesOrg disk) (uuids q.2) q.1 GptEnt.zero, ?_, rfl, rfl, rfl⟩
  rw [gptEntries, getElem?_foldl_fillEntry hnodup hq hi (by omega), getElem?_replicate_of_lt (by omega),
    Option.map_some]

/-- The other entries are empty. -/
theorem getElem?_gptEntries_of_not {i : ℕ} (hi : i < 128) (h : ∀ p ∈ list, p.order.toNat ≠ i + 1) :
    (gptEntries uuids disk list)[i]? = some GptEnt.zero := by
  rw [gptEntries, getElem?_foldl_fillEntry_of_not hi, getElem?_replicate_of_lt hi]
  intro q hq
  refine h q.1 ?_
  rw [← zipIdx_map_fst 1 list]
  exact mem_map_of_mem hq

end Fill
/-! ## Sectors -/

/-- The inclusive end sector of a range gives its size back when the range ends with a sector and the reader does
not drop it. -/
theorem sectors_iff {ss o s : ℕ} (hss : 0 < ss) (hs : ss ≤ s) (ho : ss ∣ o) (hsize : s < 2 ^ 64) (hin : o < 2 ^ 64) :
    o / ss < (o + s - 1) % 2 ^ 64 / ss ∧ (((o + s - 1) % 2 ^ 64 / ss - o / ss + 1) * ss) % 2 ^ 64 = s ↔
      ss ∣ s ∧ 2 * ss ≤ s ∧ o + s ≤ 2 ^ 64 := by
  obtain ⟨a, rfl⟩ := ho
  rw [Nat.mul_div_cancel_left a hss]
  constructor
  · rintro ⟨hlt, heq⟩
    have hstop : ss * a + s ≤ 2 ^ 64 := by
      by_contra hcon
      have hwrap : (ss * a + s - 1) % 2 ^ 64 ≤ ss * a := by omega
      have hdiv := Nat.div_le_div_right (c := ss) hwrap
      rw [Nat.mul_div_cancel_left a hss] at hdiv
      omega
    have hmod : (ss * a + s - 1) % 2 ^ 64 = ss * a + s - 1 := Nat.mod_eq_of_lt (by omega)
    rw [hmod] at hlt heq
    obtain ⟨b, hb⟩ := Nat.exists_eq_add_of_lt hlt
    have hlast : (a + b + 1) * ss ≤ ss * a + s - 1 := hb ▸ Nat.div_mul_le_self (ss * a + s - 1) ss
    have hcount : a + b + 1 - a + 1 = b + 2 := by omega
    have hbefore : (a + b + 1) * ss = ss * a + (b + 1) * ss := by ring
    have hnext : (b + 2) * ss = (b + 1) * ss + ss := by ring
    rw [hb, hcount] at heq
    -- a product that wraps is less than a sector
    have hexact : (b + 2) * ss = s := by
      rcases Nat.lt_or_ge ((b + 2) * ss) (2 ^ 64) with hlt | hge
      · rwa [Nat.mod_eq_of_lt hlt] at heq
      · omega
    exact ⟨Dvd.intro_left _ hexact, hexact ▸ Nat.mul_le_mul_right ss (by omega), hstop⟩
  · rintro ⟨⟨b, rfl⟩, htwo, hstop⟩
    have hb : 2 ≤ b := by
      rw [Nat.mul_comm] at htwo
      exact Nat.le_of_mul_le_mul_left htwo hss
    have hpos : 0 < ss * b := Nat.mul_pos hss (by omega)
    have hmod : (ss * a + ss * b - 1) % 2 ^ 64 = ss * a + ss * b - 1 := Nat.mod_eq_of_lt (by omega)
    have hlast : (ss * a + ss * b - 1) / ss = a + b - 1 := by
      have hsector : ss * (a + b - 1) + ss = ss * a + ss * b := by
        rw [← Nat.mul_succ, ← Nat.mul_add]
        congr 1
        omega
      rw [show ss * a + ss * b - 1 = ss * (a + b - 1) + (ss - 1) by omega, Nat.mul_add_div hss,
        Nat.div_eq_of_lt (by omega), Nat.add_zero]
    rw [hmod, hlast, show a + b - 1 - a + 1 = b by omega, Nat.mul_comm, Nat.mod_eq_of_lt hsize]
    exact ⟨by omega, rfl⟩

/-- A partition of at least two sectors, without a part of one behind them. -/
def PartitionStruct.SpansSectors (sectorSize : ℕ) (p : PartitionStruct) : Prop :=
  sectorSize ∣ p.partSize.toNat ∧ 2 * sectorSize ≤ p.partSize.toNat ∧ p.stop ≤ 2 ^ 64

variable {disk : Disk}

theorem toNat_sectorSize64 (hss : disk.sectorSize < 2 ^ 32) : disk.sectorSize64.toNat = disk.sectorSize := by
  rw [Disk.sectorSize64, UInt64.toNat_ofNat', Nat.mod_eq_of_lt (by omega)]

/-- The entry of a partition gives its place back. -/
theorem entry_place_iff (hpos : 0 < disk.sectorSize) (hss : disk.sectorSize < 2 ^ 32) {o s : UInt64}
    (ho : disk.sectorSize ∣ o.toNat) (hs : disk.sectorSize ≤ s.toNat) :
    o / disk.sectorSize64 < (o + s - 1) / disk.sectorSize64 ∧
      ((o + s - 1) / disk.sectorSize64 - o / disk.sectorSize64 + 1) * disk.sectorSize64 = s ↔
    disk.sectorSize ∣ s.toNat ∧ 2 * disk.sectorSize ≤ s.toNat ∧ o.toNat + s.toNat ≤ 2 ^ 64 := by
  have hsector := toNat_sectorSize64 hss
  have hsum : (o + s - 1).toNat = (o.toNat + s.toNat - 1) % 2 ^ 64 := by
    rw [UInt64.toNat_sub, UInt64.toNat_add, UInt64.toNat_one]
    omega
  have hlast : (o.toNat + s.toNat - 1) % 2 ^ 64 / disk.sectorSize < 2 ^ 64 :=
    (Nat.div_le_self _ _).trans_lt (Nat.mod_lt _ (by decide))
  rw [← sectors_iff hpos hs ho s.toNat_lt o.toNat_lt, UInt64.lt_iff_toNat_lt, UInt64.toNat_div, UInt64.toNat_div,
    hsum, hsector]
  refine and_congr_right fun hlt => ?_
  rw [← UInt64.toNat_inj, UInt64.toNat_mul, UInt64.toNat_add, UInt64.toNat_sub, UInt64.toNat_div, UInt64.toNat_div,
    hsum, hsector, UInt64.toNat_one]
  have hcount : (2 ^ 64 - o.toNat / disk.sectorSize + (o.toNat + s.toNat - 1) % 2 ^ 64 / disk.sectorSize) % 2 ^ 64 =
      (o.toNat + s.toNat - 1) % 2 ^ 64 / disk.sectorSize - o.toNat / disk.sectorSize := by
    generalize (o.toNat + s.toNat - 1) % 2 ^ 64 / disk.sectorSize = b at hlast hlt ⊢
    generalize o.toNat / disk.sectorSize = a at hlt ⊢
    omega
  rw [hcount, Nat.mod_mul_mod]

/-! ## What is read -/

section Keys

variable {check : Disk → PartitionStruct → PartitionStruct} {uuids : ℕ → EfiGuid} {disk d : Disk}
  {list : List PartitionStruct}

/-- The file system checks leave what a partition is known by. -/
def KeepsGpt (check : Disk → PartitionStruct → PartitionStruct) : Prop :=
  ∀ disk p, (check disk p).gptKey = p.gptKey

theorem gptKey_newPartition (hcheck : KeepsGpt check) (e : GptEnt) (i : ℕ) :
    (e.newPartition check disk i).gptKey = e.gptKey disk i :=
  hcheck _ _

theorem gptPartitions_eq (entries : List GptEnt) :
    gptPartitions check disk entries =
      sortPartitionList ((entries.zipIdx.filter fun e => e.1.isPartition).map fun e => e.1.newPartition check disk e.2) := by
  rw [gptPartitions, sortPartitionList, foldl_map]

theorem gptKey_revive (p q : PartitionStruct) : (p.revive q).gptKey = p.gptKey := by
  rw [revive]
  split_ifs <;> rfl

/-- Each partition that is read is that of an entry. -/
theorem exists_entry_of_mem (hcheck : KeepsGpt check) {entries : List GptEnt} {q : PartitionStruct}
    (hq : q ∈ gptPartitions check disk entries) :
    ∃ (e : GptEnt) (i : ℕ), entries[i]? = some e ∧ e.isPartition = true ∧ q.gptKey = e.gptKey disk i := by
  rw [gptPartitions_eq] at hq
  obtain ⟨p, hp, hkey⟩ := mem_sortPartitionList gptKey_revive hq
  obtain ⟨⟨e, i⟩, he, rfl⟩ := mem_map.mp hp
  obtain ⟨hmem, hpart⟩ := mem_filter.mp he
  exact ⟨e, i, mk_mem_zipIdx_iff_getElem?.mp hmem, hpart, hkey.trans (gptKey_newPartition hcheck e i)⟩

/-- What the partitions of a table are known by. -/
def gptKeys (disk : Disk) (entries : List GptEnt) : List (UInt32 × UInt64 × UInt64 × EfiGuid) :=
  (entries.zipIdx.filter fun e => e.1.isPartition).map fun e => e.1.gptKey disk e.2

theorem mem_gptKeys {entries : List GptEnt} {k : UInt32 × UInt64 × UInt64 × EfiGuid} :
    k ∈ gptKeys disk entries ↔ ∃ (e : GptEnt) (i : ℕ), entries[i]? = some e ∧ e.isPartition = true ∧ e.gptKey disk i = k := by
  simp only [gptKeys, mem_map, mem_filter, Prod.exists, mk_mem_zipIdx_iff_getElem?, and_assoc]

/-- The entries in different places are all read. -/
theorem gptPartitions_perm (hcheck : KeepsGpt check) {entries : List GptEnt}
    (h : gptKeys disk entries ~ list.map gptKey)
    (hplaces : (list.map fun p => (p.partOffset, p.partSize)).Nodup) :
    (gptPartitions check disk entries).map gptKey ~ list.map gptKey := by
  have hkeys : ((entries.zipIdx.filter fun e => e.1.isPartition).map
      fun e => e.1.newPartition check disk e.2).map gptKey ~ list.map gptKey := by
    rw [map_map]
    refine Perm.trans (.of_eq (map_congr_left fun e _ => ?_)) h
    exact gptKey_newPartition hcheck e.1 e.2
  have hnodup := ((hkeys.map fun k => (k.2.1, k.2.2.1)).nodup_iff).mpr (by rwa [map_map])
  rw [map_map] at hnodup
  rw [gptPartitions_eq]
  refine ((sortPartitionList_perm ?_).map gptKey).trans hkeys
  refine List.Nodup.of_map (fun k : UInt64 × UInt64 × UInt32 => (k.1, k.2.1)) ?_
  rw [map_map]
  exact hnodup

theorem known_ne_unused {t : EfiGuid} (h : t ∈ gptSysTypes) : t ≠ EfiGuid.unused := by
  have hall : (gptSysTypes.all fun t => t ≠ EfiGuid.unused) = true := by decide +kernel
  exact of_decide_eq_true (all_eq_true.mp hall t h)

/-- **The entry of a partition gives it back** exactly when it spans sectors. -/
theorem GptList.entry_iff (hss : disk.sectorSize < 2 ^ 32) (hpos : 0 < disk.sectorSize)
    (h : GptList disk.sectorSize list) {p : PartitionStruct} (hp : p ∈ list) {i : ℕ} (hi : p.order.toNat = i + 1)
    {e : GptEnt} (he : (gptEntries uuids disk list)[i]? = some e) (hd : d.sectorSize = disk.sectorSize) :
    (e.isPartition = true ∧ e.gptKey d i = p.gptKey) ↔ p.SpansSectors disk.sectorSize := by
  obtain ⟨e', he', htype, hstart, hend⟩ := h.getElem?_gptEntries uuids disk hp hi
  obtain rfl : e = e' := Option.some.inj (he.symm.trans he')
  have horder : UInt32.ofNat (i + 1) = p.order := by rw [← hi, UInt32.ofNat_toNat]
  have hoffset : p.partOffset / disk.sectorSize64 * disk.sectorSize64 = p.partOffset := by
    rw [← UInt64.toNat_inj, UInt64.toNat_mul, UInt64.toNat_div, toNat_sectorSize64 hss,
      Nat.div_mul_cancel (h.aligned p hp), Nat.mod_eq_of_lt p.partOffset.toNat_lt]
  have hsector : d.sectorSize64 = disk.sectorSize64 := by rw [Disk.sectorSize64, hd, Disk.sectorSize64]
  rw [SpansSectors, stop, ← entry_place_iff hpos hss (h.aligned p hp) (h.large p hp), GptEnt.isPartition,
    GptEnt.gptKey, gptKey, htype, hstart, hend, horder, hsector, hoffset]
  simp [known_ne_unused (h.known p hp)]

/-- Two partitions of a table have different orders. -/
theorem nodup_gptKeys {entries : List GptEnt} (hlength : entries.length ≤ 128) : (gptKeys disk entries).Nodup := by
  have hindices : ((entries.zipIdx.filter fun e => e.1.isPartition).map Prod.snd).Nodup := by
    refine Nodup.sublist (filter_sublist.map _) ?_
    rw [zipIdx_map_snd]
    exact nodup_range'
  rw [gptKeys]
  rw [Nodup, pairwise_map] at hindices ⊢
  refine hindices.imp_of_mem fun {e f} he hf hne heq => hne ?_
  have horder : (UInt32.ofNat (e.2 + 1)).toNat = (UInt32.ofNat (f.2 + 1)).toNat := congrArg (·.1.toNat) heq
  have hlt : ∀ {e : GptEnt × ℕ}, e ∈ entries.zipIdx.filter (fun e => e.1.isPartition) → e.2 < 128 := by
    intro e he
    exact (snd_lt_of_mem_zipIdx (mem_filter.mp he).1).trans_le (by omega)
  have := hlt he
  have := hlt hf
  rw [UInt32.toNat_ofNat', UInt32.toNat_ofNat', Nat.mod_eq_of_lt (by omega), Nat.mod_eq_of_lt (by omega)] at horder
  omega

/-- **The table of a list gives it back** exactly when each partition spans sectors. -/
theorem gptPartitions_perm_iff (hcheck : KeepsGpt check) (hss : disk.sectorSize < 2 ^ 32) (hpos : 0 < disk.sectorSize)
    (h : GptList disk.sectorSize list) (hd : d.sectorSize = disk.sectorSize) :
    (gptPartitions check d (gptEntries uuids disk list)).map gptKey ~ list.map gptKey ↔
      ∀ p ∈ list, p.SpansSectors disk.sectorSize := by
  have hindex : ∀ p ∈ list, ∃ i < 128, p.order.toNat = i + 1 := by
    intro p hp
    obtain ⟨hge, hle⟩ := h.order_toNat hp
    exact ⟨p.order.toNat - 1, by omega, by omega⟩
  have hread : ∀ p ∈ list, p.gptKey ∈ gptKeys d (gptEntries uuids disk list) ↔ p.SpansSectors disk.sectorSize := by
    intro p hp
    obtain ⟨i, hi, horder⟩ := hindex p hp
    obtain ⟨e, he, -⟩ := h.getElem?_gptEntries uuids disk hp horder
    rw [← h.entry_iff hss hpos hp horder he hd, mem_gptKeys]
    constructor
    · rintro ⟨f, j, hf, hpart, hkey⟩
      have hj : j < 128 := lt_of_getElem?_gptEntries hf
      have hsame := UInt32.toNat_inj.mpr (congrArg Prod.fst hkey)
      rw [GptEnt.gptKey, gptKey, UInt32.toNat_ofNat', Nat.mod_eq_of_lt (by omega), horder] at hsame
      obtain rfl : j = i := by omega
      obtain rfl := Option.some.inj (hf.symm.trans he)
      exact ⟨hpart, hkey⟩
    · exact fun ⟨hpart, hkey⟩ => ⟨e, i, he, hpart, hkey⟩
  constructor
  · intro hperm p hp
    obtain ⟨q, hq, hkey⟩ := mem_map.mp (hperm.mem_iff.mpr (mem_map_of_mem hp))
    obtain ⟨e, i, he, hpart, hentry⟩ := exists_entry_of_mem hcheck hq
    exact (hread p hp).mp (mem_gptKeys.mpr ⟨e, i, he, hpart, hentry.symm.trans hkey⟩)
  · intro hspans
    refine gptPartitions_perm hcheck ?_ h.places
    have hnodup : (list.map gptKey).Nodup := by
      refine List.Nodup.of_map Prod.fst ?_
      rw [map_map]
      exact h.orders
    refine (perm_ext_iff_of_nodup (nodup_gptKeys (length_gptEntries _).le) hnodup).mpr fun k => ?_
    constructor
    · intro hk
      obtain ⟨e, i, he, hpart, rfl⟩ := mem_gptKeys.mp hk
      have hi : i < 128 := lt_of_getElem?_gptEntries he
      by_cases hused : ∃ p ∈ list, p.order.toNat = i + 1
      · obtain ⟨p, hp, horder⟩ := hused
        have hkey := ((h.entry_iff hss hpos hp horder he hd).mpr (hspans p hp)).2
        exact hkey ▸ mem_map_of_mem hp
      · -- an entry of no partition is empty
        push Not at hused
        obtain rfl := Option.some.inj (he.symm.trans (getElem?_gptEntries_of_not hi hused))
        exact absurd hpart (by decide)
    · intro hk
      obtain ⟨p, hp, rfl⟩ := mem_map.mp hk
      exact (hread p hp).mpr (hspans p hp)

end Keys
end RecoveryQt
