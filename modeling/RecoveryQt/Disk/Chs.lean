import Mathlib.Algebra.Group.Nat.Defs
import Mathlib.Data.Nat.Basic

/-!
# Cylinders, heads and sectors

* `ChsGeometry`, `Chs`, `offset2CHS`, `CHS2offset`: the code;
* `toNat_CHS2offset`: the offset as a number, when it is one of 64 bits;
* **`CHS2offset_offset2CHS`**, **`offset2CHS_CHS2offset`**: the two are inverse to each other.
-/

namespace RecoveryQt

/-- `CHSgeometry_t`. -/
structure ChsGeometry where
  cylinders : ℕ
  headsPerCylinder : ℕ
  sectorsPerHead : ℕ
  deriving DecidableEq

/-- `CHS_t`. -/
structure Chs where
  cylinder : ℕ
  head : ℕ
  sector : ℕ
  deriving DecidableEq

variable (geom : ChsGeometry) (sectorSize : ℕ)

/-- `offset2CHS`. -/
def offset2CHS (offset : UInt64) : Chs :=
  let pos := offset.toNat / sectorSize
  { cylinder := pos / geom.sectorsPerHead / geom.headsPerCylinder
    head := pos / geom.sectorsPerHead % geom.headsPerCylinder
    sector := pos % geom.sectorsPerHead + 1 }

/-- `CHS2offset`. -/
def CHS2offset (chs : Chs) : UInt64 :=
  ((UInt64.ofNat chs.cylinder * UInt64.ofNat geom.headsPerCylinder + UInt64.ofNat chs.head) *
      UInt64.ofNat geom.sectorsPerHead + UInt64.ofNat chs.sector - 1) * UInt64.ofNat sectorSize

/-- The number of the sector, from 0 on. -/
def Chs.lba (chs : Chs) : ℕ :=
  (chs.cylinder * geom.headsPerCylinder + chs.head) * geom.sectorsPerHead + (chs.sector - 1)

/-- A place of the geometry. -/
structure Chs.Valid (chs : Chs) : Prop where
  head : chs.head < geom.headsPerCylinder
  first : 0 < chs.sector
  last : chs.sector ≤ geom.sectorsPerHead

variable {geom sectorSize}

theorem CHS2offset_eq {chs : Chs} (h : 0 < chs.sector) :
    CHS2offset geom sectorSize chs = UInt64.ofNat (chs.lba geom * sectorSize) := by
  have hsector : UInt64.ofNat chs.sector - 1 = UInt64.ofNat (chs.sector - 1) := by
    obtain ⟨s, hs⟩ := Nat.exists_eq_add_of_lt h
    rw [hs, Nat.zero_add, Nat.add_sub_cancel, UInt64.ofNat_add]
    exact UInt64.add_sub_cancel _ _
  rw [CHS2offset, UInt64.sub_eq_add_neg, UInt64.add_assoc, ← UInt64.sub_eq_add_neg, hsector, Chs.lba]
  simp only [UInt64.ofNat_add, UInt64.ofNat_mul]

theorem toNat_CHS2offset {chs : Chs} (h : 0 < chs.sector) (hlt : chs.lba geom * sectorSize < 2 ^ 64) :
    (CHS2offset geom sectorSize chs).toNat = chs.lba geom * sectorSize := by
  rw [CHS2offset_eq h, UInt64.toNat_ofNat', Nat.mod_eq_of_lt hlt]

theorem lba_offset2CHS (offset : UInt64) :
    (offset2CHS geom sectorSize offset).lba geom = offset.toNat / sectorSize := by
  simp only [Chs.lba, offset2CHS, Nat.add_sub_cancel]
  rw [Nat.div_add_mod', Nat.div_add_mod']

theorem offset2CHS_valid (hheads : 0 < geom.headsPerCylinder) (hsectors : 0 < geom.sectorsPerHead) (offset : UInt64) :
    (offset2CHS geom sectorSize offset).Valid geom :=
  ⟨Nat.mod_lt _ hheads, Nat.succ_pos _, Nat.mod_lt _ hsectors⟩

/-- **The offset of a sector is found again.** -/
theorem CHS2offset_offset2CHS {offset : UInt64} (h : sectorSize ∣ offset.toNat) :
    CHS2offset geom sectorSize (offset2CHS geom sectorSize offset) = offset := by
  rw [CHS2offset_eq (Nat.succ_pos _), lba_offset2CHS, Nat.div_mul_cancel h, UInt64.ofNat_toNat]

/-- **The place of a sector is found again.** -/
theorem offset2CHS_CHS2offset {chs : Chs} (h : chs.Valid geom) (hsize : 0 < sectorSize)
    (hlt : chs.lba geom * sectorSize < 2 ^ 64) :
    offset2CHS geom sectorSize (CHS2offset geom sectorSize chs) = chs := by
  obtain ⟨hhead, hfirst, hlast⟩ := h
  have hsectors : chs.sector - 1 < geom.sectorsPerHead := by omega
  obtain ⟨c, hd, s⟩ := chs
  simp only [offset2CHS, toNat_CHS2offset hfirst hlt, Nat.mul_div_cancel _ hsize, Chs.lba, Chs.mk.injEq]
  have htrack : ((c * geom.headsPerCylinder + hd) * geom.sectorsPerHead + (s - 1)) / geom.sectorsPerHead =
      c * geom.headsPerCylinder + hd := by
    rw [Nat.mul_comm, Nat.mul_add_div (by omega), Nat.div_eq_of_lt hsectors, Nat.add_zero]
  rw [htrack]
  refine ⟨?_, ?_, ?_⟩
  · rw [Nat.mul_comm, Nat.mul_add_div (by omega), Nat.div_eq_of_lt hhead, Nat.add_zero]
  · rw [Nat.mul_comm, Nat.mul_add_mod, Nat.mod_eq_of_lt hhead]
  · rw [Nat.mul_comm, Nat.mul_add_mod, Nat.mod_eq_of_lt hsectors]
    exact Nat.sub_add_cancel hfirst

end RecoveryQt
