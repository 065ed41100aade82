import RecoveryQt.Disk.GptTable

/-!
# What writing a GUID partition table leaves on the disk

* `ReadsBack`: writes that are read back; `writePartGpt_eq_some`: the four writes of `write_part_gpt`;
* `GptLayout`: where the headers and the tables are; `GptLayout.of_writePartGpt`: the writes fit on the disk;
* `gptContent`, `slice_gptContent_primary`, `slice_gptContent_table`, `slice_gptContent_altTable`: what each range holds;
* `gptAltTableLeft`: what is left of the alternate table when its header begins inside it;
* `GptWritten`, **`GptWritten.of_writePartGpt`**: the disk afterwards;
* `Disk.DiffersInPrimary`, `GptWritten.readBytes_behind`: the same disk without its second sector.
-/

namespace RecoveryQt

open List hiding Vector
open PartitionStruct

/-- A write that is not refused lies on the sectors of the disk, and is read back. -/
structure ReadsBack (refuses : ℕ → ℕ → Bool) (disk : Disk) : Prop where
  inside : ∀ count offset, refuses count offset = false →
    offset + count ≤ ((disk.diskSize - 1) / disk.sectorSize + 1) * disk.sectorSize
  read : ∀ count offset, refuses count offset = false → disk.bad count offset = false

section Write

variable {host : GptHost} {disk D : Disk} {list : List PartitionStruct}

theorem writeBytes_eq_some {refuses : ℕ → ℕ → Bool} {bytes : List UInt8} {offset : UInt64} {d : Disk} :
    d.writeBytes refuses bytes offset = some D ↔
      refuses bytes.length offset.toNat = false ∧ { d with content := overwrite bytes offset.toNat d.content } = D := by
  rw [Disk.writeBytes]
  split_ifs with h <;> simp [h]

/-- The bytes of the table of a list. -/
def gptTableBytes (uuids : ℕ → EfiGuid) (disk : Disk) (list : List PartitionStruct) : List UInt8 :=
  gptEntryBytes (gptEntries uuids disk list)

@[simp] theorem length_gptTableBytes (uuids : ℕ → EfiGuid) (disk : Disk) (list : List PartitionStruct) :
    (gptTableBytes uuids disk list).length = 16384 := by
  rw [gptTableBytes, length_gptEntryBytes, length_gptEntries]

/-- The sector of the primary header of a list. -/
def gptPrimarySector (uuids : ℕ → EfiGuid) (disk : Disk) (list : List PartitionStruct) : List UInt8 :=
  (gptPrimary uuids disk (gptEntries uuids disk list)).sector disk.sectorSize

/-- The sector of the alternate header of a list. -/
def gptAlternateSector (uuids : ℕ → EfiGuid) (disk : Disk) (list : List PartitionStruct) : List UInt8 :=
  (gptAlternate uuids disk (gptEntries uuids disk list)).sector disk.sectorSize

/-- The content behind the MBR. -/
def gptContent (uuids : ℕ → EfiGuid) (disk : Disk) (list : List PartitionStruct) : ℕ → UInt8 :=
  overwrite (gptAlternateSector uuids disk list) (disk.lastLba * disk.sectorSize64).toNat
    (overwrite (gptTableBytes uuids disk list) (disk.altTableLba * disk.sectorSize64).toNat
      (overwrite (gptPrimarySector uuids disk list) (1 * disk.sectorSize64).toNat
        (overwrite (gptTableBytes uuids disk list) (2 * disk.sectorSize64).toNat disk.content)))

/-- The writes of a table, without those that fail. -/
theorem writePartGpt_eq_some : writePartGpt host disk list false = some D ↔
    (host.refuses 16384 (2 * disk.sectorSize64).toNat = false ∧
      host.refuses disk.sectorSize (1 * disk.sectorSize64).toNat = false ∧
      host.refuses 16384 (disk.altTableLba * disk.sectorSize64).toNat = false ∧
      host.refuses disk.sectorSize (disk.lastLba * disk.sectorSize64).toNat = false) ∧
    writePartGptI386 host { disk with content := gptContent host.uuids disk list } list = D := by
  have hlength : (gptEntryBytes (gptEntries host.uuids disk list)).length = 16384 := by
    rw [length_gptEntryBytes, length_gptEntries]
  rw [writePartGpt, if_neg Bool.false_ne_true]
  simp only [Option.bind_eq_bind, Option.bind_eq_some_iff, writeBytes_eq_some, Option.pure_def, Option.some.injEq,
    hlength, GptHdr.length_sector]
  constructor
  · rintro ⟨_, ⟨_, ⟨htable, rfl⟩, hprimary, rfl⟩, _, ⟨_, ⟨haltTable, rfl⟩, hlast, rfl⟩, rfl⟩
    exact ⟨⟨htable, hprimary, haltTable, hlast⟩, rfl⟩
  · rintro ⟨⟨htable, hprimary, haltTable, hlast⟩, rfl⟩
    exact ⟨_, ⟨_, ⟨htable, rfl⟩, hprimary, rfl⟩, _, ⟨_, ⟨haltTable, rfl⟩, hlast, rfl⟩, rfl⟩

/-- Where the tables and the headers are. -/
structure GptLayout (disk : Disk) : Prop where
  sector_lt : disk.sectorSize < 2 ^ 32
  size_lt : disk.diskSize < 2 ^ 64
  pos : 0 < disk.sectorSize
  last_eq : disk.lastLba.toNat = (disk.diskSize - 1) / disk.sectorSize
  table_eq : disk.altTableLba.toNat = (disk.diskSize - 1 - 16384) / disk.sectorSize
  last_le : disk.lastLba.toNat * disk.sectorSize ≤ disk.diskSize - 1
  table_le : disk.altTableLba.toNat * disk.sectorSize + 16384 ≤ disk.diskSize - 1
  lt_last : disk.diskSize - 1 < disk.lastLba.toNat * disk.sectorSize + disk.sectorSize
  one_le_table : 1 ≤ disk.altTableLba.toNat
  two_le_last : 2 ≤ disk.lastLba.toNat

theorem GptLayout.of_writePartGpt (hsector : disk.sectorSize < 2 ^ 32) (hsize : disk.diskSize < 2 ^ 64)
    (hback : ReadsBack host.refuses disk) (h : writePartGpt host disk list false = some D) : GptLayout disk := by
  have hsector64 := toNat_sectorSize64 hsector
  have hfirst := hback.inside _ _ (writePartGpt_eq_some.mp h).1.1
  rw [UInt64.toNat_mul, hsector64] at hfirst
  change (2 * disk.sectorSize) % 2 ^ 64 + 16384 ≤ _ at hfirst
  rw [Nat.mod_eq_of_lt (by omega), Nat.succ_mul (_ / _)] at hfirst
  have hpos : 0 < disk.sectorSize := by
    rcases Nat.eq_zero_or_pos disk.sectorSize with hzero | hpos
    · rw [hzero] at hfirst
      omega
    · exact hpos
  have hlast_le := Nat.div_mul_le_self (disk.diskSize - 1) disk.sectorSize
  have hlt_last := Nat.lt_div_mul_add (a := disk.diskSize - 1) hpos
  have hsize64 : (UInt64.ofNat disk.diskSize - 1).toNat = disk.diskSize - 1 := by
    rw [UInt64.toNat_sub, UInt64.toNat_ofNat', UInt64.toNat_one]
    omega
  have hlast : disk.lastLba.toNat = (disk.diskSize - 1) / disk.sectorSize := by
    rw [Disk.lastLba, UInt64.toNat_div, hsize64, hsector64]
  have htable : disk.altTableLba.toNat = (disk.diskSize - 1 - 16384) / disk.sectorSize := by
    have hsub : (UInt64.ofNat disk.diskSize - 1 - 16384).toNat = disk.diskSize - 1 - 16384 := by
      rw [UInt64.toNat_sub, hsize64]
      change (2 ^ 64 - 16384 + (disk.diskSize - 1)) % 2 ^ 64 = _
      omega
    rw [Disk.altTableLba, UInt64.toNat_div, hsub, hsector64]
  have htable_le := Nat.div_mul_le_self (disk.diskSize - 1 - 16384) disk.sectorSize
  have hone : 1 ≤ disk.altTableLba.toNat := by
    rw [htable, Nat.le_div_iff_mul_le hpos]
    omega
  have htwo : 2 ≤ disk.lastLba.toNat := by
    rw [hlast]
    by_contra hcon
    have hle := Nat.mul_le_mul_right disk.sectorSize (show (disk.diskSize - 1) / disk.sectorSize ≤ 1 by omega)
    omega
  refine ⟨hsector, hsize, hpos, hlast, htable, ?_, ?_, ?_, hone, htwo⟩
  · rw [hlast]
    exact hlast_le
  · rw [htable]
    omega
  · rw [hlast]
    omega

theorem toNat_mul_sectorSize64 (hss : disk.sectorSize < 2 ^ 32) {x : UInt64} (h : x.toNat * disk.sectorSize < 2 ^ 64) :
    (x * disk.sectorSize64).toNat = x.toNat * disk.sectorSize := by
  rw [UInt64.toNat_mul, toNat_sectorSize64 hss, Nat.mod_eq_of_lt h]

namespace GptLayout

variable (L : GptLayout disk)

include L

theorem toNat_one : (1 * disk.sectorSize64).toNat = disk.sectorSize := by
  rw [UInt64.one_mul, toNat_sectorSize64 L.sector_lt]

theorem toNat_two : (2 * disk.sectorSize64).toNat = 2 * disk.sectorSize := by
  have hlt := L.sector_lt
  exact toNat_mul_sectorSize64 hlt (show 2 * disk.sectorSize < 2 ^ 64 by omega)

theorem toNat_last : (disk.lastLba * disk.sectorSize64).toNat = disk.lastLba.toNat * disk.sectorSize :=
  toNat_mul_sectorSize64 L.sector_lt (by have := L.last_le; have := L.size_lt; omega)

theorem toNat_table : (disk.altTableLba * disk.sectorSize64).toNat = disk.altTableLba.toNat * disk.sectorSize :=
  toNat_mul_sectorSize64 L.sector_lt (by have := L.table_le; have := L.size_lt; omega)

/-- The alternate table does not begin behind the alternate header. -/
theorem table_le_last : disk.altTableLba.toNat * disk.sectorSize ≤ disk.lastLba.toNat * disk.sectorSize := by
  rw [L.last_eq, L.table_eq]
  exact Nat.mul_le_mul_right _ (Nat.div_le_div_right (Nat.sub_le _ _))

theorem two_sectors_le_last : 2 * disk.sectorSize ≤ disk.lastLba.toNat * disk.sectorSize :=
  Nat.mul_le_mul_right _ L.two_le_last

end GptLayout

@[simp] theorem length_gptPrimarySector (uuids : ℕ → EfiGuid) (disk : Disk) (list : List PartitionStruct) :
    (gptPrimarySector uuids disk list).length = disk.sectorSize :=
  GptHdr.length_sector ..

@[simp] theorem length_gptAlternateSector (uuids : ℕ → EfiGuid) (disk : Disk) (list : List PartitionStruct) :
    (gptAlternateSector uuids disk list).length = disk.sectorSize :=
  GptHdr.length_sector ..

/-- What is left of the alternate table when the alternate header begins inside it. -/
def gptAltTableLeft (uuids : ℕ → EfiGuid) (disk : Disk) (list : List PartitionStruct) : List UInt8 :=
  let front := (disk.lastLba.toNat - disk.altTableLba.toNat) * disk.sectorSize
  (gptTableBytes uuids disk list).take front ++ (gptAlternateSector uuids disk list).take (16384 - front)

variable {uuids : ℕ → EfiGuid} (L : GptLayout disk)

section Content

include L

theorem slice_gptContent_last :
    slice (gptContent uuids disk list) (disk.lastLba.toNat * disk.sectorSize) disk.sectorSize =
      gptAlternateSector uuids disk list := by
  rw [gptContent, L.toNat_last, slice_overwrite (length_gptAlternateSector ..)]

theorem slice_gptContent_primary (h : 2 ≤ disk.altTableLba.toNat) :
    slice (gptContent uuids disk list) disk.sectorSize disk.sectorSize = gptPrimarySector uuids disk list := by
  have htable := Nat.mul_le_mul_right disk.sectorSize h
  have hlast := L.two_sectors_le_last
  rw [gptContent, L.toNat_last, L.toNat_table, L.toNat_one, slice_overwrite_of_disjoint (.inl (by omega)),
    slice_overwrite_of_disjoint (.inl (by omega)), slice_overwrite (length_gptPrimarySector ..)]

/-- The alternate table may begin in the sector of the primary header. -/
theorem slice_gptContent_first (h : disk.altTableLba.toNat = 1) (hss : 92 ≤ disk.sectorSize) :
    slice (gptContent uuids disk list) disk.sectorSize 8 = (gptTableBytes uuids disk list).take 8 := by
  have hlast := L.two_sectors_le_last
  rw [gptContent, L.toNat_last, L.toNat_table, slice_overwrite_of_disjoint (.inl (by omega)), h, Nat.one_mul,
    ← take_slice _ _ (show 8 ≤ 16384 by omega), slice_overwrite (length_gptTableBytes ..)]

theorem slice_gptContent_table (h : 2 * disk.sectorSize + 16384 ≤ disk.altTableLba.toNat * disk.sectorSize) :
    slice (gptContent uuids disk list) (2 * disk.sectorSize) 16384 = gptTableBytes uuids disk list := by
  have hlast := L.table_le_last
  rw [gptContent, L.toNat_last, L.toNat_table, L.toNat_one, L.toNat_two, slice_overwrite_of_disjoint (.inl (by omega)),
    slice_overwrite_of_disjoint (.inl (by omega)),
    slice_overwrite_of_disjoint (.inr (by rw [length_gptPrimarySector]; omega)),
    slice_overwrite (length_gptTableBytes ..)]

theorem slice_gptContent_altTable
    (h : disk.altTableLba.toNat * disk.sectorSize + 16384 ≤ disk.lastLba.toNat * disk.sectorSize) :
    slice (gptContent uuids disk list) (disk.altTableLba.toNat * disk.sectorSize) 16384 =
      gptTableBytes uuids disk list := by
  rw [gptContent, L.toNat_last, L.toNat_table, slice_overwrite_of_disjoint (.inl h),
    slice_overwrite (length_gptTableBytes ..)]

theorem slice_gptContent_altTable_left
    (h : disk.lastLba.toNat * disk.sectorSize < disk.altTableLba.toNat * disk.sectorSize + 16384) :
    slice (gptContent uuids disk list) (disk.altTableLba.toNat * disk.sectorSize) 16384 =
      gptAltTableLeft uuids disk list := by
  have hle := L.table_le_last
  have htable := L.table_le
  have hlast := L.lt_last
  have hfront : (disk.lastLba.toNat - disk.altTableLba.toNat) * disk.sectorSize =
      disk.lastLba.toNat * disk.sectorSize - disk.altTableLba.toNat * disk.sectorSize := Nat.sub_mul ..
  rw [gptAltTableLeft, hfront]
  generalize hn : disk.lastLba.toNat * disk.sectorSize - disk.altTableLba.toNat * disk.sectorSize = n
  have hstart : disk.altTableLba.toNat * disk.sectorSize + n = disk.lastLba.toNat * disk.sectorSize := by omega
  have hbefore : slice (gptContent uuids disk list) (disk.altTableLba.toNat * disk.sectorSize) n =
      (gptTableBytes uuids disk list).take n := by
    rw [gptContent, L.toNat_last, L.toNat_table, slice_overwrite_of_disjoint (.inl hstart.le),
      ← take_slice _ _ (show n ≤ 16384 by omega), slice_overwrite (length_gptTableBytes ..)]
  have hbehind : slice (gptContent uuids disk list) (disk.lastLba.toNat * disk.sectorSize) (16384 - n) =
      (gptAlternateSector uuids disk list).take (16384 - n) := by
    rw [← slice_gptContent_last L, take_slice _ _ (by omega)]
  have hsplit := slice_add (gptContent uuids disk list) (disk.altTableLba.toNat * disk.sectorSize) n (16384 - n)
  rwa [hbefore, hstart, hbehind, Nat.add_sub_cancel' (by omega)] at hsplit

end Content

end Write

/-! ## The disk afterwards -/

/-- The sectors from the first header on, on a disk with its reads of them. -/
structure GptWritten (uuids : ℕ → EfiGuid) (disk : Disk) (list : List PartitionStruct) (D : Disk) : Prop where
  sectorSize : D.sectorSize = disk.sectorSize
  diskSize : D.diskSize = disk.diskSize
  content : ∀ p, disk.sectorSize ≤ p → D.content p = gptContent uuids disk list p
  primary_read : D.bad disk.sectorSize disk.sectorSize = false
  table_read : D.bad 16384 (2 * disk.sectorSize) = false
  last_read : D.bad disk.sectorSize (disk.lastLba.toNat * disk.sectorSize) = false
  altTable_read : D.bad 16384 (disk.altTableLba.toNat * disk.sectorSize) = false

/-- Two disks that differ in their second sector. -/
structure Disk.DiffersInPrimary (D D' : Disk) : Prop where
  sectorSize : D'.sectorSize = D.sectorSize
  diskSize : D'.diskSize = D.diskSize
  content : ∀ p, p < D.sectorSize ∨ 2 * D.sectorSize ≤ p → D'.content p = D.content p
  bad : ∀ count offset, offset + count ≤ D.sectorSize ∨ 2 * D.sectorSize ≤ offset →
    D'.bad count offset = D.bad count offset

section Written

variable {host : GptHost} {uuids : ℕ → EfiGuid} {disk D D' : Disk} {list : List PartitionStruct}

theorem GptWritten.of_writePartGpt (L : GptLayout disk) (hback : ReadsBack host.refuses disk)
    (h : writePartGpt host disk list false = some D) : GptWritten host.uuids disk list D := by
  obtain ⟨⟨htable, hprimary, haltTable, hlast⟩, rfl⟩ := writePartGpt_eq_some.mp h
  rw [L.toNat_two] at htable
  rw [L.toNat_one] at hprimary
  rw [L.toNat_table] at haltTable
  rw [L.toNat_last] at hlast
  have hcontent : ∀ p, disk.sectorSize ≤ p →
      (writePartGptI386 host { disk with content := gptContent host.uuids disk list } list).content p =
        gptContent host.uuids disk list p := by
    intro p hp
    rw [writePartGptI386]
    split_ifs with hsmall
    · rfl
    · rw [not_lt] at hsmall
      have hout : 0 + (host.mbr { disk with content := gptContent host.uuids disk list } list).toList.length ≤ p := by
        rw [Vector.length_toList, Nat.zero_add]
        exact hsmall.trans hp
      exact overwrite_of_out (.inr hout) _
  have hrest : ∀ d : Disk, (writePartGptI386 host d list).sectorSize = d.sectorSize ∧
      (writePartGptI386 host d list).diskSize = d.diskSize ∧ (writePartGptI386 host d list).bad = d.bad := by
    intro d
    rw [writePartGptI386]
    split_ifs <;> exact ⟨rfl, rfl, rfl⟩
  obtain ⟨hsector, hsize, hbad⟩ := hrest { disk with content := gptContent host.uuids disk list }
  refine ⟨hsector, hsize, hcontent, ?_, ?_, ?_, ?_⟩ <;> rw [hbad]
  · exact hback.read _ _ hprimary
  · exact hback.read _ _ htable
  · exact hback.read _ _ hlast
  · exact hback.read _ _ haltTable

variable (W : GptWritten uuids disk list D)

include W

theorem GptWritten.slice_eq {a n : ℕ} (ha : disk.sectorSize ≤ a) :
    slice D.content a n = slice (gptContent uuids disk list) a n :=
  slice_congr fun p hp _ => W.content p (ha.trans hp)

omit W in
theorem readBytes_eq {d : Disk} {count : ℕ} {offset : UInt64} (h : d.bad count offset.toNat = false) :
    d.readBytes count offset = some (slice d.content offset.toNat count) := by
  rw [Disk.readBytes, Disk.pread, h]
  rfl

/-- A range behind the second sector is read as it was written. -/
theorem GptWritten.readBytes_behind (hdiff : D.DiffersInPrimary D') {count : ℕ} {offset : UInt64}
    (hoffset : 2 * disk.sectorSize ≤ offset.toNat) (hbad : D.bad count offset.toNat = false) :
    D'.readBytes count offset = some (slice (gptContent uuids disk list) offset.toNat count) := by
  rw [readBytes_eq (by rwa [hdiff.bad _ _ (.inr (by rwa [W.sectorSize]))])]
  refine congrArg some (slice_congr fun p hp _ => ?_)
  rw [hdiff.content p (.inr (by rw [W.sectorSize]; omega)), W.content p (by omega)]

theorem GptWritten.lastLba_eq (hdiff : D.DiffersInPrimary D') :
    D'.lastLba = disk.lastLba := by
  rw [Disk.lastLba, Disk.sectorSize64, hdiff.diskSize, hdiff.sectorSize, W.diskSize, W.sectorSize, Disk.lastLba,
    Disk.sectorSize64]

end Written

end RecoveryQt
