import RecoveryQt.Disk.MbrReadBack

/-!
# The errors of an entry

* `Errcode`, `DosEntry.start`, `DosEntry.stop`, `misplaced`, `entryErrcode`: the code;
* `Chs.stored`, `decode_chsBytes`: the head, the sector and the cylinder that an entry can hold;
* **`entryErrcode_partition2I386Entry_iff`**: when an entry that was written is read without an error.
-/

namespace RecoveryQt

open PartitionStruct

/-! ## The code -/

/-- `errcode_type_t`. -/
inductive Errcode where
  | noerr | ss | es | sh | eh | ebs | rs | sc | ec | scount
  deriving DecidableEq, Repr

/-- `s_sect` and `e_sect`. -/
def sectOf (sector : UInt8) : ℕ := sector.toNat &&& 0x3F

/-- `s_cyl` and `e_cyl`. -/
def cylOf (sector cyl : UInt8) : ℕ := (cyl.toNat &&& 0xFF) ||| ((sector.toNat <<< 2) &&& 0x300)

/-- Where an entry starts. -/
def DosEntry.start (p : DosEntry) : Chs := ⟨cylOf p.sector p.cyl, p.head.toNat, sectOf p.sector⟩

/-- Where an entry ends. -/
def DosEntry.stop (p : DosEntry) : Chs := ⟨cylOf p.endSector p.endCyl, p.endHead.toNat, sectOf p.endSector⟩

section Code

variable (geom : ChsGeometry) (disk : Disk)

/-- A place that an entry holds is not the one at `offset`. -/
def misplaced (held : Chs) (offset : UInt64) : Bool :=
  let calculated := offset2CHS geom disk.sectorSize offset
  (calculated.cylinder ≤ 1023 && CHS2offset geom disk.sectorSize held ≠ offset) ||
    (calculated.cylinder > 1023 && held.cylinder ≠ 1023 && held.cylinder ≠ calculated.cylinder &&& 1023)

/-- The `errcode` that `i386_entry2partition` gives the partition of the entry `p`. -/
def entryErrcode (offset : UInt64) (p : DosEntry) : Errcode :=
  let partOffset := offset + UInt64.ofNat (p.start4.toNat * disk.sectorSize)
  let last := partOffset + UInt64.ofNat (p.size4.toNat * disk.sectorSize) - disk.sectorSize64
  if p.start.sector = 0 ∨ p.start.sector > geom.sectorsPerHead then .ss
  else if p.stop.sector = 0 ∨ p.stop.sector > geom.sectorsPerHead then .es
  else if p.start.head ≥ geom.headsPerCylinder then .sh
  else if p.start.cylinder ≥ geom.cylinders then .sc
  else if p.stop.head ≥ geom.headsPerCylinder then .eh
  else if p.stop.cylinder ≥ geom.cylinders then .ec
  else if misplaced geom disk p.start partOffset then .rs
  else if misplaced geom disk p.stop last then .scount
  else .noerr

end Code

/-! ## What an entry can hold -/

/-- A geometry whose heads and sectors fit in an entry. -/
structure ChsGeometry.Bios (geom : ChsGeometry) : Prop where
  heads : 0 < geom.headsPerCylinder
  sectors : 0 < geom.sectorsPerHead
  heads_le : geom.headsPerCylinder ≤ 256
  sectors_le : geom.sectorsPerHead ≤ 63

/-- The place that an entry holds: behind cylinder 1023, the last one. -/
def Chs.stored (geom : ChsGeometry) (c : Chs) : Chs :=
  if c.cylinder > 1023 then ⟨1023, geom.headsPerCylinder - 1, geom.sectorsPerHead⟩ else c

/-- The sector and the two high bits of the cylinder. -/
theorem sectorByte {s k : ℕ} (hs : s < 64) (hk : k < 4) :
    (s ||| (k <<< 6)) % 256 &&& 0x3F = s ∧ (((s ||| (k <<< 6)) % 256) <<< 2) &&& 0x300 = k <<< 8 := by
  have hall : ∀ s < 64, ∀ k < 4, (s ||| (k <<< 6)) % 256 &&& 0x3F = s ∧
      (((s ||| (k <<< 6)) % 256) <<< 2) &&& 0x300 = k <<< 8 := by decide +kernel
  exact hall s hs k hk

theorem cylOf_bytes {s c : ℕ} (hs : s < 64) (hc : c < 1024) :
    cylOf (UInt8.ofNat (s ||| ((c >>> 8) <<< 6))) (UInt8.ofNat c) = c := by
  have hk : c >>> 8 < 4 := by
    rw [Nat.shiftRight_eq_div_pow]
    omega
  rw [cylOf, UInt8.toNat_ofNat', UInt8.toNat_ofNat', (sectorByte hs hk).2]
  have hlow : c % 256 &&& 0xFF = c % 256 := by
    rw [show 0xFF = 2 ^ 8 - 1 from rfl, Nat.and_two_pow_sub_one_eq_mod]
    exact Nat.mod_mod _ _
  rw [hlow, Nat.or_comm, ← Nat.shiftLeft_add_eq_or_of_lt (Nat.mod_lt _ (by decide)), Nat.shiftLeft_eq,
    Nat.shiftRight_eq_div_pow]
  exact Nat.div_add_mod' c 256

/-- **An entry holds a place of the geometry**, or the last one. -/
theorem decode_chsBytes {geom : ChsGeometry} (hgeom : geom.Bios) {c : Chs} (hc : c.Valid geom) :
    (⟨cylOf (chsBytes geom c).2.1 (chsBytes geom c).2.2, (chsBytes geom c).1.toNat, sectOf (chsBytes geom c).2.1⟩ : Chs) =
      c.stored geom := by
  obtain ⟨hheads, hsectors, hheads_le, hsectors_le⟩ := hgeom
  unfold chsBytes Chs.stored
  split_ifs with hcyl
  · rw [Chs.mk.injEq]
    refine ⟨cylOf_bytes (by omega) (by decide), ?_, ?_⟩
    · rw [UInt8.toNat_ofNat', Nat.mod_eq_of_lt (by omega)]
    · rw [sectOf, UInt8.toNat_ofNat']
      exact (sectorByte (by omega) (by decide)).1
  · obtain ⟨hhead, hfirst, hlast⟩ := hc
    have hk : c.cylinder >>> 8 < 4 := by
      rw [Nat.shiftRight_eq_div_pow]
      omega
    obtain ⟨cyl, head, sector⟩ := c
    rw [Chs.mk.injEq]
    refine ⟨cylOf_bytes (by omega) (by omega), ?_, ?_⟩
    · rw [UInt8.toNat_ofNat', Nat.mod_eq_of_lt (by omega)]
    · rw [sectOf, UInt8.toNat_ofNat']
      exact (sectorByte (by omega) hk).1

section Stored

variable {geom : ChsGeometry} {disk : Disk} {c : Chs}

theorem stored_valid (hheads : 0 < geom.headsPerCylinder) (hsectors : 0 < geom.sectorsPerHead) (hc : c.Valid geom) :
    (c.stored geom).Valid geom := by
  unfold Chs.stored
  split_ifs
  · exact ⟨Nat.sub_lt hheads Nat.one_pos, hsectors, Nat.le_refl _⟩
  · exact hc

theorem cylinder_stored : (c.stored geom).cylinder = min c.cylinder 1023 := by
  unfold Chs.stored
  split_ifs with h
  · exact (Nat.min_eq_right h.le).symm
  · exact (Nat.min_eq_left (Nat.le_of_not_lt h)).symm

/-- The place that an entry holds is the one at the offset. -/
theorem misplaced_stored {offset : UInt64} (h : disk.sectorSize ∣ offset.toNat) :
    misplaced geom disk ((offset2CHS geom disk.sectorSize offset).stored geom) offset = false := by
  unfold misplaced
  rw [cylinder_stored]
  rcases Nat.lt_or_ge 1023 (offset2CHS geom disk.sectorSize offset).cylinder with hcyl | hcyl
  · simp only [Nat.min_eq_right hcyl.le, decide_eq_false (Nat.not_le.mpr hcyl), Bool.false_and, Bool.false_or, ne_eq,
      not_true_eq_false, decide_false, Bool.and_false]
  · have hstored : (offset2CHS geom disk.sectorSize offset).stored geom = offset2CHS geom disk.sectorSize offset :=
      if_neg (Nat.not_lt.mpr hcyl)
    simp only [hstored, CHS2offset_offset2CHS h, ne_eq, not_true_eq_false, decide_false, Bool.and_false,
      decide_eq_false (Nat.not_lt.mpr hcyl), Bool.false_and, Bool.or_false]

end Stored

/-! ## An entry that was written -/

section Written

variable {geom : ChsGeometry} {disk : Disk} {p : PartitionStruct} {pos : UInt64}

theorem start_partition2I386Entry (hgeom : geom.Bios) : (partition2I386Entry geom disk pos p).start =
    (offset2CHS geom disk.sectorSize p.partOffset).stored geom :=
  decode_chsBytes hgeom (offset2CHS_valid hgeom.heads hgeom.sectors _)

theorem stop_partition2I386Entry (hgeom : geom.Bios) : (partition2I386Entry geom disk pos p).stop =
    (offset2CHS geom disk.sectorSize (p.partOffset + p.partSize - disk.sectorSize64)).stored geom :=
  decode_chsBytes hgeom (offset2CHS_valid hgeom.heads hgeom.sectors _)

/-- The last sector of a partition. -/
theorem toNat_lastSector (hpos : 0 < disk.sectorSize) (hss : disk.sectorSize < 2 ^ 32) (hp : p.Fits disk.sectorSize) :
    (p.partOffset + p.partSize - disk.sectorSize64).toNat = p.stop - disk.sectorSize ∧
      disk.sectorSize ∣ p.stop - disk.sectorSize ∧ p.partOffset.toNat ≤ p.stop - disk.sectorSize := by
  have hlength := Nat.le_of_dvd hp.nonempty hp.size
  have hstop := hp.stop
  have hbound : 2 ^ 32 * disk.sectorSize < 2 ^ 64 := by omega
  unfold PartitionStruct.stop at hstop ⊢
  have hsum : (p.partOffset + p.partSize).toNat = p.partOffset.toNat + p.partSize.toNat := by
    rw [UInt64.toNat_add, Nat.mod_eq_of_lt (by omega)]
  refine ⟨?_, Nat.dvd_sub (Nat.dvd_add hp.start hp.size) (Nat.dvd_refl _), by omega⟩
  rw [UInt64.toNat_sub_of_le, hsum, toNat_sectorSize64 hss]
  rw [UInt64.le_iff_toNat_le, hsum, toNat_sectorSize64 hss]
  omega

theorem cylinder_mono {a b : UInt64} (h : a.toNat ≤ b.toNat) :
    (offset2CHS geom disk.sectorSize a).cylinder ≤ (offset2CHS geom disk.sectorSize b).cylinder :=
  Nat.div_le_div_right (Nat.div_le_div_right (Nat.div_le_div_right h))

/-- **An entry that was written is read without an error** exactly when the last cylinder of the partition, or the last
one that an entry can hold, is one of the disk. -/
theorem entryErrcode_partition2I386Entry_iff (hgeom : geom.Bios) (hpos : 0 < disk.sectorSize)
    (hss : disk.sectorSize < 2 ^ 32) (hp : p.Fits disk.sectorSize) (hdvd : disk.sectorSize ∣ pos.toNat)
    (hle : pos.toNat ≤ p.partOffset.toNat) :
    entryErrcode geom disk pos (partition2I386Entry geom disk pos p) = .noerr ↔
      min (offset2CHS geom disk.sectorSize (p.partOffset + p.partSize - disk.sectorSize64)).cylinder 1023 < geom.cylinders := by
  have hstop := hp.stop
  have hproper := (hp.proper hss).lt_stop
  obtain ⟨hlast, hlastDvd, hlastLe⟩ := toNat_lastSector hpos hss hp
  have hplace : (partition2I386Entry geom disk pos p).read.place disk pos = p.place :=
    place_partition2I386Entry hss hp.byte hle (Nat.dvd_sub hp.start hdvd)
      (by unfold PartitionStruct.stop at hstop hproper; omega) hp.size
      (by have := hp.behind_first; unfold PartitionStruct.stop at hstop; omega)
  have hoffset : pos + UInt64.ofNat ((partition2I386Entry geom disk pos p).start4.toNat * disk.sectorSize) = p.partOffset :=
    congrArg Prod.fst hplace
  have hsize : UInt64.ofNat ((partition2I386Entry geom disk pos p).size4.toNat * disk.sectorSize) = p.partSize :=
    congrArg (fun place => place.2.1) hplace
  obtain ⟨hhead, hfirst, hsector⟩ := stored_valid hgeom.heads hgeom.sectors
    (offset2CHS_valid hgeom.heads hgeom.sectors p.partOffset : (offset2CHS geom disk.sectorSize p.partOffset).Valid geom)
  obtain ⟨hhead', hfirst', hsector'⟩ := stored_valid hgeom.heads hgeom.sectors
    (offset2CHS_valid hgeom.heads hgeom.sectors _ :
      (offset2CHS geom disk.sectorSize (p.partOffset + p.partSize - disk.sectorSize64)).Valid geom)
  have hmono : (offset2CHS geom disk.sectorSize p.partOffset).cylinder ≤
      (offset2CHS geom disk.sectorSize (p.partOffset + p.partSize - disk.sectorSize64)).cylinder :=
    cylinder_mono (by rwa [hlast])
  unfold entryErrcode
  simp only [hoffset, hsize]
  rw [start_partition2I386Entry hgeom, stop_partition2I386Entry hgeom, misplaced_stored hp.start,
    misplaced_stored (by rwa [hlast]), cylinder_stored, cylinder_stored]
  rw [if_neg (by omega), if_neg (by omega), if_neg (Nat.not_le.mpr hhead)]
  by_cases hend : min (offset2CHS geom disk.sectorSize (p.partOffset + p.partSize - disk.sectorSize64)).cylinder 1023 <
      geom.cylinders
  · refine iff_of_true ?_ hend
    rw [if_neg (by omega), if_neg (Nat.not_le.mpr hhead'), if_neg (Nat.not_le.mpr hend), if_neg Bool.false_ne_true,
      if_neg Bool.false_ne_true]
  · refine iff_of_false (fun herr => ?_) hend
    rw [if_neg (Nat.not_le.mpr hhead'), if_pos (Nat.le_of_not_lt hend)] at herr
    split_ifs at herr

/-- A small partition is read without an error. -/
theorem entryErrcode_partitionAt : entryErrcode smallGeometry unpartitionedDisk 0
    (partition2I386Entry smallGeometry unpartitionedDisk 0 (partitionAt 63 100 0x07 .primBoot 1)) = .noerr :=
  (entryErrcode_partition2I386Entry_iff ⟨by decide, by decide, by decide, by decide⟩ (by decide) (by decide)
    (by decide +kernel) (by decide +kernel) (by decide +kernel)).mpr (by decide +kernel)

end Written

end RecoveryQt
