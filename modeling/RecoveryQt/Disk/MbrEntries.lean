import RecoveryQt.Disk.Mbr
import RecoveryQt.Disk.GptTable
import Mathlib.Tactic.Ring

/-!
# The entries of a partition table

* `DosEntry.read`, `ptOffset_of_bytes`, `ptOffset_congr`: an entry is read from its bytes;
* `slice_mark_putDosEntry`, `hasMark_of_slice`: the mark at the end of a sector;
* **`place_partition2I386Entry`**: the entry of a partition gives its place back;
* **`nextExtOffset_spec`**: a record goes between the partition in front of it and its own.
-/

namespace RecoveryQt

open List hiding Vector
open PartitionStruct

/-! ## Buffers -/

/-- What `get_ext_data_i386` reads of an entry. -/
def DosEntry.read (e : DosEntry) : PartitionDos := ⟨e.sysInd, e.start4.toNat, e.size4.toNat⟩

@[simp] theorem DosEntry.length_bytes (e : DosEntry) : e.bytes.length = 16 := by simp [DosEntry.bytes]

theorem overwrite_at {bytes : List UInt8} {offset i : ℕ} {b : UInt8} (h : bytes[i]? = some b) (g : ℕ → UInt8) :
    overwrite bytes offset g (offset + i) = b := by
  rw [overwrite, if_pos (Nat.le_add_right _ _), Nat.add_sub_cancel_left, getD_eq_getElem?_getD, h]
  rfl

theorem le32At_eq_leNat (buffer : ℕ → UInt8) (i : ℕ) : le32At buffer i = leNat (slice buffer i 4) := by
  change (buffer i).toNat + 256 * (buffer (i + 1)).toNat +
      65536 * ((buffer (i + 2)).toNat + 256 * (buffer (i + 2 + 1)).toNat) =
    (buffer i).toNat + 256 * ((buffer (i + 1)).toNat + 256 * ((buffer (i + 2)).toNat + 256 * ((buffer (i + 3)).toNat + 256 * 0)))
  rw [show i + 2 + 1 = i + 3 from rfl]
  omega

section Buffer

variable {i j : ℕ} {e : DosEntry} {buffer buffer' : ℕ → UInt8}

theorem slice_putDosEntry : slice (putDosEntry i e buffer) (tabPart + 16 * i) 16 = e.bytes :=
  slice_overwrite (DosEntry.length_bytes e) buffer

theorem putDosEntry_of_out {k : ℕ} (h : k < tabPart + 16 * i ∨ tabPart + 16 * i + 16 ≤ k) :
    putDosEntry i e buffer k = buffer k := overwrite_of_out (by rwa [DosEntry.length_bytes]) buffer

/-- Some bytes of an entry. -/
theorem slice_of_entry {o m n : ℕ} {bytes : List UInt8} (h : slice buffer o 16 = bytes) (hmn : m + n ≤ 16) :
    slice buffer (o + m) n = (bytes.drop m).take n := by
  rw [← h, drop_slice _ _ (by omega), take_slice _ _ (by omega)]

theorem at_of_entry {o m : ℕ} {b : UInt8} {bytes : List UInt8} (h : slice buffer o 16 = bytes) (hm : m < 16)
    (hb : bytes[m]? = some b) : buffer (o + m) = b := by
  have hslice := slice_of_entry h (show m + 1 ≤ 16 from hm)
  rw [take_one, head?_drop, hb] at hslice
  exact (List.cons.inj hslice).1

/-- An entry is read from its bytes. -/
theorem ptOffset_of_bytes (h : slice buffer (tabPart + 16 * i) 16 = e.bytes) : ptOffset buffer i = e.read := by
  have hsys : buffer (tabPart + 16 * i + 4) = e.sysInd := at_of_entry h (by decide) rfl
  have hstart : le32At buffer (tabPart + 16 * i + 8) = e.start4.toNat := by
    rw [le32At_eq_leNat, slice_of_entry h (by decide)]
    change leNat (leBytes 4 e.start4.toNat) = _
    exact leNat_leBytes_of_lt e.start4.toNat_lt
  have hsize : le32At buffer (tabPart + 16 * i + 12) = e.size4.toNat := by
    rw [le32At_eq_leNat, slice_of_entry h (by decide)]
    change leNat (leBytes 4 e.size4.toNat) = _
    exact leNat_leBytes_of_lt e.size4.toNat_lt
  rw [ptOffset, DosEntry.read]
  exact congr (congr (congrArg _ hsys) hstart) hsize

/-- Entries are read apart from each other. -/
theorem slice_putDosEntry_of_ne (h : i ≠ j) :
    slice (putDosEntry i e buffer) (tabPart + 16 * j) 16 = slice buffer (tabPart + 16 * j) 16 :=
  slice_overwrite_of_disjoint (by rw [DosEntry.length_bytes]; omega) buffer

theorem ptOffset_congr (h : slice buffer (tabPart + 16 * i) 16 = slice buffer' (tabPart + 16 * i) 16) :
    ptOffset buffer i = ptOffset buffer' i := by
  have hsys : buffer (tabPart + 16 * i + 4) = buffer' (tabPart + 16 * i + 4) :=
    at_of_entry h (by decide) (by rw [slice, getElem?_map, getElem?_range (by decide)]; rfl)
  have hsame : ∀ m n, m + n ≤ 16 → slice buffer (tabPart + 16 * i + m) n = slice buffer' (tabPart + 16 * i + m) n :=
    fun m n hmn => (slice_of_entry h hmn).trans (slice_of_entry rfl hmn).symm
  have hstart : le32At buffer (tabPart + 16 * i + 8) = le32At buffer' (tabPart + 16 * i + 8) := by
    rw [le32At_eq_leNat, hsame 8 4 (by decide), le32At_eq_leNat]
  have hsize : le32At buffer (tabPart + 16 * i + 12) = le32At buffer' (tabPart + 16 * i + 12) := by
    rw [le32At_eq_leNat, hsame 12 4 (by decide), le32At_eq_leNat]
  rw [ptOffset, ptOffset]
  exact congr (congr (congrArg PartitionDos.mk hsys) hstart) hsize

theorem hasMark_congr (h : slice buffer 0x1FE 2 = slice buffer' 0x1FE 2) : hasMark buffer = hasMark buffer' := by
  obtain ⟨hfirst, hsecond⟩ := List.cons.inj h
  have hfirst : buffer 0x1FE = buffer' 0x1FE := hfirst
  have hsecond : buffer 0x1FF = buffer' 0x1FF := (List.cons.inj hsecond).1
  rw [hasMark, hasMark, hfirst, hsecond]

theorem hasMark_of_slice (h : slice buffer 0x1FE 2 = [0x55, 0xAA]) : hasMark buffer = true := by
  have hmark : hasMark (overwrite [0x55, 0xAA] 0x1FE fun _ => 0) = true := rfl
  rw [← hmark]
  exact hasMark_congr h

/-- The mark stays behind the entries. -/
theorem slice_mark_putDosEntry (hi : i < 4) : slice (putDosEntry i e buffer) 0x1FE 2 = slice buffer 0x1FE 2 :=
  slice_overwrite_of_disjoint (by rw [DosEntry.length_bytes, tabPart]; omega) buffer

theorem slice_mark_keepCode (org : ℕ → UInt8) : slice (keepCode org) 0x1FE 2 = [0x55, 0xAA] := slice_overwrite rfl _

theorem slice_mark_writeMbrCode (buffer : ℕ → UInt8) : slice (writeMbrCodeI386Aux buffer) 0x1FE 2 = [0x55, 0xAA] :=
  slice_overwrite rfl _

/-- A buffer without entries. -/
theorem keepCode_entry (org : ℕ → UInt8) (hi : i < 4) : slice (keepCode org) (tabPart + 16 * i) 16 = replicate 16 0 := by
  rw [keepCode, slice_overwrite_of_disjoint (by rw [tabPart]; left; omega),
    slice_overwrite_of_disjoint (by rw [length_slice]; right; omega)]
  rfl

end Buffer

/-! ## The entry of a partition -/

section Entry

variable {geom : ChsGeometry} {disk : Disk} {p : PartitionStruct} {pos : UInt64}

theorem toNat_sectors32 {n : UInt64} (h : n.toNat < 2 ^ 32) : (sectors32 n).toNat = n.toNat := by
  have hle : n ≤ 0xFFFFFFFF := UInt64.le_iff_toNat_le.mpr (Nat.le_of_lt_succ h)
  rw [sectors32, if_pos hle, UInt64.toNat_toUInt32, Nat.mod_eq_of_lt h]

/-- The number of the sectors of an entry, as the bytes that they are. -/
theorem sectors32_mul (hss : disk.sectorSize < 2 ^ 32) {x : UInt64}
    (hdvd : disk.sectorSize ∣ x.toNat) (hlt : x.toNat < 2 ^ 32 * disk.sectorSize) :
    UInt64.ofNat ((sectors32 (x / disk.sectorSize64)).toNat * disk.sectorSize) = x := by
  have hdiv : (x / disk.sectorSize64).toNat = x.toNat / disk.sectorSize := by
    rw [UInt64.toNat_div, toNat_sectorSize64 hss]
  rw [toNat_sectors32, hdiv, Nat.div_mul_cancel hdvd, UInt64.ofNat_toNat]
  rw [hdiv]
  exact Nat.div_lt_of_lt_mul (by rwa [Nat.mul_comm])

/-- **The entry of a partition gives its place back**, from the sector that it is relative to. -/
theorem place_partition2I386Entry (hss : disk.sectorSize < 2 ^ 32)
    (htype : p.partTypeI386.toNat < 256) (hle : pos.toNat ≤ p.partOffset.toNat)
    (hstart : disk.sectorSize ∣ p.partOffset.toNat - pos.toNat)
    (hstartlt : p.partOffset.toNat - pos.toNat < 2 ^ 32 * disk.sectorSize) (hsize : disk.sectorSize ∣ p.partSize.toNat)
    (hsizelt : p.partSize.toNat < 2 ^ 32 * disk.sectorSize) :
    (partition2I386Entry geom disk pos p).read.place disk pos = p.place := by
  have hsub : (p.partOffset - pos).toNat = p.partOffset.toNat - pos.toNat :=
    UInt64.toNat_sub_of_le _ _ (UInt64.le_iff_toNat_le.mpr hle)
  have hoffset := sectors32_mul hss (x := p.partOffset - pos) (by rwa [hsub]) (by rwa [hsub])
  rw [PartitionDos.place, place, Prod.mk.injEq, Prod.mk.injEq]
  refine ⟨?_, sectors32_mul hss hsize hsizelt, ?_⟩
  · change pos + UInt64.ofNat ((sectors32 ((p.partOffset - pos) / disk.sectorSize64)).toNat * disk.sectorSize) = _
    rw [hoffset, UInt64.add_comm, UInt64.sub_add_cancel]
  · change p.partTypeI386.toUInt8.toUInt32 = _
    apply UInt32.toNat_inj.mp
    rw [UInt8.toNat_toUInt32, UInt32.toNat_toUInt8, Nat.mod_eq_of_lt htype]

end Entry

section Place

variable {geom : ChsGeometry} {disk : Disk} {element next : PartitionStruct}

theorem lba_firstSector (offset : UInt64) :
    ({ offset2CHS geom disk.sectorSize offset with sector := 1 } : Chs).lba geom =
      offset.toNat / disk.sectorSize / geom.sectorsPerHead * geom.sectorsPerHead := by
  simp only [Chs.lba, offset2CHS, Nat.sub_self, Nat.add_zero]
  rw [Nat.div_add_mod']

theorem lba_previousHead {c : Chs} (hhead : c.head < geom.headsPerCylinder) (hpos : 0 < c.cylinder * geom.headsPerCylinder + c.head)
    (hlt : c.cylinder < 2 ^ 64) : ({ c.previousHead geom with sector := 1 } : Chs).lba geom =
      (c.cylinder * geom.headsPerCylinder + c.head - 1) * geom.sectorsPerHead := by
  simp only [Chs.lba, Chs.previousHead, Nat.sub_self, Nat.add_zero]
  congr 1
  split_ifs with h
  · exact (Nat.add_sub_assoc h _).symm
  · have hzero : c.head = 0 := Nat.eq_zero_of_not_pos h
    obtain ⟨k, hk⟩ : ∃ k, c.cylinder = k + 1 := by
      refine ⟨c.cylinder - 1, (Nat.sub_add_cancel (Nat.pos_of_ne_zero fun h0 => ?_)).symm⟩
      rw [h0, hzero] at hpos
      omega
    simp only [hk, hzero, Nat.add_zero]
    rw [show k + 1 + (2 ^ 64 - 1) = k + 2 ^ 64 by omega, Nat.add_mod_right, Nat.mod_eq_of_lt (by omega), Nat.succ_mul]
    omega

/-- The first sector of the head in front. -/
theorem lba_frontHead (hheads : 0 < geom.headsPerCylinder) {offset : UInt64}
    (h : 0 < offset.toNat / disk.sectorSize / geom.sectorsPerHead) :
    ({ (offset2CHS geom disk.sectorSize offset).previousHead geom with sector := 1 } : Chs).lba geom =
      (offset.toNat / disk.sectorSize / geom.sectorsPerHead - 1) * geom.sectorsPerHead := by
  have htrack := Nat.div_add_mod' (offset.toNat / disk.sectorSize / geom.sectorsPerHead) geom.headsPerCylinder
  rw [lba_previousHead (Nat.mod_lt _ hheads)]
  · simp only [offset2CHS, htrack]
  · simp only [offset2CHS, htrack]
    exact h
  · exact Nat.lt_of_le_of_lt (Nat.div_le_self _ _) (Nat.lt_of_le_of_lt (Nat.div_le_self _ _)
      (Nat.lt_of_le_of_lt (Nat.div_le_self _ _) offset.toNat_lt))

/-- A sector in front of `limit`, from its number. -/
theorem CHS2offset_between {c : Chs} {limit : ℕ} (hfirst : 0 < c.sector) (hle : c.lba geom * disk.sectorSize ≤ limit)
    (hlimit : limit < 2 ^ 64) : disk.sectorSize ∣ (CHS2offset geom disk.sectorSize c).toNat ∧
      (CHS2offset geom disk.sectorSize c).toNat ≤ limit := by
  rw [toNat_CHS2offset hfirst (Nat.lt_of_le_of_lt hle hlimit)]
  exact ⟨Nat.dvd_mul_left _ _, hle⟩

/-- The first sector of the head where a record is looked for first. -/
theorem lba_front_le (hheads : 0 < geom.headsPerCylinder) (hsectors : 0 < geom.sectorsPerHead) {offset : UInt64}
    (h : geom.sectorsPerHead ≤ offset.toNat / disk.sectorSize + 1) :
    ({ (if (offset2CHS geom disk.sectorSize offset).sector ≠ geom.sectorsPerHead
      then (offset2CHS geom disk.sectorSize offset).previousHead geom
      else offset2CHS geom disk.sectorSize offset) with sector := 1 } : Chs).lba geom ≤ offset.toNat / disk.sectorSize := by
  split_ifs with hlast
  · have hlast : offset.toNat / disk.sectorSize % geom.sectorsPerHead + 1 ≠ geom.sectorsPerHead := hlast
    have htrack : 0 < offset.toNat / disk.sectorSize / geom.sectorsPerHead := by
      refine Nat.div_pos (Nat.le_of_not_lt fun hlt => hlast ?_) hsectors
      rw [Nat.mod_eq_of_lt hlt]
      omega
    rw [lba_frontHead hheads htrack]
    exact (Nat.mul_le_mul_right _ (Nat.sub_le _ _)).trans (Nat.div_mul_le_self _ _)
  · rw [lba_firstSector]
    exact Nat.div_mul_le_self _ _

/-- **A record goes between two partitions**: behind `element`, and a whole sector in front of `next`. -/
theorem nextExtOffset_spec (hheads : 0 < geom.headsPerCylinder) (hsectors : 0 < geom.sectorsPerHead)
    (hpos : 0 < disk.sectorSize) (hss : disk.sectorSize < 2 ^ 32) (helement : element.Proper)
    (hdvd : disk.sectorSize ∣ next.partOffset.toNat) (hgap : element.stop + disk.sectorSize ≤ next.partOffset.toNat)
    (hhead : geom.sectorsPerHead * disk.sectorSize ≤ next.partOffset.toNat) :
    disk.sectorSize ∣ (nextExtOffset geom disk element next).toNat ∧
      element.stop ≤ (nextExtOffset geom disk element next).toNat ∧
      (nextExtOffset geom disk element next).toNat + disk.sectorSize ≤ next.partOffset.toNat := by
  obtain ⟨q, hq⟩ := hdvd
  have hnext := next.partOffset.toNat_lt
  have hstop := helement.lt_stop
  have hnearest : (next.partOffset - disk.sectorSize64).toNat = next.partOffset.toNat - disk.sectorSize := by
    rw [UInt64.toNat_sub_of_le, toNat_sectorSize64 hss]
    rw [UInt64.le_iff_toNat_le, toNat_sectorSize64 hss]
    omega
  have hlba : (next.partOffset - disk.sectorSize64).toNat / disk.sectorSize = q - 1 := by
    rw [hnearest, hq, ← Nat.mul_sub_one, Nat.mul_div_cancel_left _ hpos]
  have hlimit : (q - 1) * disk.sectorSize = next.partOffset.toNat - disk.sectorSize := by
    rw [hq, Nat.mul_comm, Nat.mul_sub_one]
  have hq1 : geom.sectorsPerHead ≤ q := by
    rw [hq, Nat.mul_comm] at hhead
    exact Nat.le_of_mul_le_mul_left hhead hpos
  -- each sector where the record may go is in front of the partition
  have hbetween : ∀ c : Chs, 0 < c.sector → c.lba geom ≤ q - 1 →
      disk.sectorSize ∣ (CHS2offset geom disk.sectorSize c).toNat ∧
        (CHS2offset geom disk.sectorSize c).toNat ≤ next.partOffset.toNat - disk.sectorSize := by
    intro c hfirst hle
    have hmul := Nat.mul_le_mul_right disk.sectorSize hle
    rw [hlimit] at hmul
    exact CHS2offset_between hfirst hmul (by omega)
  have hbehind : ∀ offset : UInt64, ¬ offset ≤ element.partOffset + element.partSize - 1 → element.stop ≤ offset.toNat := by
    intro offset hlt
    rw [UInt64.le_iff_toNat_le, helement.toNat_last] at hlt
    omega
  have hroom : ∀ n, n ≤ next.partOffset.toNat - disk.sectorSize → n + disk.sectorSize ≤ next.partOffset.toNat :=
    fun n hn => by omega
  obtain ⟨front, hfrontEq⟩ : ∃ front, front = if (offset2CHS geom disk.sectorSize
      (next.partOffset - disk.sectorSize64)).sector ≠ geom.sectorsPerHead
    then (offset2CHS geom disk.sectorSize (next.partOffset - disk.sectorSize64)).previousHead geom
    else offset2CHS geom disk.sectorSize (next.partOffset - disk.sectorSize64) := ⟨_, rfl⟩
  have hfrontLba : ({ front with sector := 1 } : Chs).lba geom ≤ q - 1 := by
    rw [hfrontEq, ← hlba]
    exact lba_front_le hheads hsectors (by rw [hlba]; omega)
  unfold nextExtOffset
  simp only
  rw [← hfrontEq]
  split_ifs with hfront hfirst
  · rw [CHS2offset_offset2CHS (by rw [hnearest, ← hlimit]; exact Nat.dvd_mul_left _ _), hnearest]
    exact ⟨hlimit ▸ Nat.dvd_mul_left _ _, by omega, hroom _ le_rfl⟩
  · obtain ⟨hdvd, hle⟩ := hbetween { offset2CHS geom disk.sectorSize (next.partOffset - disk.sectorSize64) with sector := 1 }
      Nat.one_pos (by rw [lba_firstSector, hlba]; exact Nat.div_mul_le_self _ _)
    exact ⟨hdvd, hbehind _ hfirst, hroom _ hle⟩
  · obtain ⟨hdvd, hle⟩ := hbetween { front with sector := 1 } Nat.one_pos hfrontLba
    exact ⟨hdvd, hbehind _ hfront, hroom _ hle⟩

end Place

end RecoveryQt
