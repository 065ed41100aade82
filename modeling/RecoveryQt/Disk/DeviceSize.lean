import RecoveryQt.Lib.Halting
import Mathlib.Tactic.Ring

/-!
# The size of a device, found by reading

* `growStep`, `bisectStep`, `computeDeviceSize`: the two loops of the search, with the wrap of `uint64_t`;
* `Grown`, `Bracketed`: what holds of the two bounds in each loop; `growStep_grown`, `bisectStep_bracketed`;
* `fst_of_bisectStep_none`: where the dichotomy ends;
* **`computeDeviceSize_eq`**: the search ends with the last multiple of the sector size in the device.
-/

namespace RecoveryQt

/-- One round of the first loop, on `min_offset` and `max_offset`: a sector that is read doubles the offset. -/
def growStep (complete : ℕ → Bool) (s : ℕ × ℕ) : Option (ℕ × ℕ) :=
  if complete s.2 then some (s.2, s.2 * 2 % 2 ^ 64) else none

/-- One round of the dichotomy. It ends with `max_offset` below `min_offset`, or by the `break`. -/
def bisectStep (complete : ℕ → Bool) (sectorSize : ℕ) (s : ℕ × ℕ) : Option (ℕ × ℕ) :=
  if s.1 ≤ s.2 then
    let curOffset := (s.1 + s.2) % 2 ^ 64 / 2 / sectorSize * sectorSize
    if complete curOffset then some ((curOffset + sectorSize) % 2 ^ 64, s.2)
    else if sectorSize ≤ curOffset then some (s.1, curOffset - sectorSize)
    else none
  else none

/-- `compute_device_size`, with at most `rounds` rounds of each loop. `complete o` says that a `pread` of
`sector_size` bytes at `o` returns that many. -/
def computeDeviceSize (complete : ℕ → Bool) (sectorSize : UInt32) (rounds : ℕ) : Option ℕ := do
  let grown ← runFor (growStep complete) rounds (0, sectorSize.toNat)
  let found ← runFor (bisectStep complete sectorSize.toNat) rounds grown
  return if complete found.1 then (found.1 + sectorSize.toNat) % 2 ^ 64 else found.1

example : computeDeviceSize (fun o => o + 4 ≤ 27) 4 8 = some 24 := by decide +kernel

section Search

variable {complete : ℕ → Bool} {ss size : ℕ}

/-- The bounds of the first loop: the device has the sectors in front of the first one. -/
def Grown (ss size : ℕ) (s : ℕ × ℕ) : Prop :=
  ∃ a b, s = (a * ss, b * ss) ∧ a ≤ size / ss ∧ 0 < b ∧ b * ss < 2 ^ 63

/-- The bounds of the dichotomy: the end of the device is not in front of the first one, and not more than a
sector behind the second one. -/
def Bracketed (ss size : ℕ) (s : ℕ × ℕ) : Prop :=
  ∃ a b, s = (a * ss, b * ss) ∧ a ≤ size / ss ∧ size / ss ≤ b + 1 ∧ b * ss < 2 ^ 63

/-- The sectors that are read are those that the device has whole. -/
theorem complete_sector (hss : 0 < ss) (hread : ∀ o < 2 ^ 63, complete o = true ↔ o + ss ≤ size) {c : ℕ}
    (hc : c * ss < 2 ^ 63) : complete (c * ss) = true ↔ c < size / ss := by
  rw [hread _ hc, ← Nat.succ_mul, Nat.lt_iff_add_one_le, Nat.le_div_iff_mul_le hss]

theorem growStep_grown (hss : 0 < ss) (hsize : size < 2 ^ 62)
    (hread : ∀ o < 2 ^ 63, complete o = true ↔ o + ss ≤ size) (s : ℕ × ℕ) (hs : Grown ss size s) :
    ∀ t ∈ growStep complete s, Grown ss size t ∧ size - t.2 < size - s.2 := by
  intro t ht
  obtain ⟨a, b, rfl, ha, hb, hlt⟩ := hs
  simp only [growStep, Option.mem_def, Option.ite_none_right_eq_some, Option.some.injEq] at ht
  obtain ⟨hcomplete, rfl⟩ := ht
  have hin : b * ss + ss ≤ size := (hread _ hlt).mp hcomplete
  have hpos : 0 < b * ss := Nat.mul_pos hb hss
  have hwrap : b * ss * 2 % 2 ^ 64 = 2 * b * ss := by
    rw [Nat.mod_eq_of_lt (by omega)]
    ring
  have hdouble : 2 * b * ss = b * ss + b * ss := by ring
  refine ⟨⟨b, 2 * b, by rw [hwrap], ?_, by omega, by omega⟩, ?_⟩
  · exact ((complete_sector hss hread hlt).mp hcomplete).le
  · show size - b * ss * 2 % 2 ^ 64 < size - b * ss
    rw [hwrap]
    omega

/-- The sector in the middle. -/
theorem curOffset_eq (hss : 0 < ss) {a b : ℕ} (ha : a * ss < 2 ^ 63) (hb : b * ss < 2 ^ 63) :
    (a * ss + b * ss) % 2 ^ 64 / 2 / ss * ss = (a + b) / 2 * ss := by
  rw [Nat.mod_eq_of_lt (by omega), ← Nat.add_mul, Nat.div_div_eq_div_mul, Nat.mul_comm 2 ss, ← Nat.div_div_eq_div_mul,
    Nat.mul_div_cancel _ hss]

/-- A round of the dichotomy, in sectors. -/
theorem bisectStep_eq (hss : 0 < ss) (hsize : size < 2 ^ 62)
    (hread : ∀ o < 2 ^ 63, complete o = true ↔ o + ss ≤ size) {a b : ℕ} (ha : a * ss < 2 ^ 63) (hb : b * ss < 2 ^ 63) :
    bisectStep complete ss (a * ss, b * ss) =
      if a ≤ b then
        if (a + b) / 2 < size / ss then some (((a + b) / 2 + 1) * ss, b * ss)
        else if 1 ≤ (a + b) / 2 then some (a * ss, ((a + b) / 2 - 1) * ss)
        else none
      else none := by
  simp only [bisectStep, curOffset_eq hss ha hb, Nat.mul_le_mul_right_iff hss]
  refine if_congr Iff.rfl ?_ rfl
  have hc : (a + b) / 2 * ss < 2 ^ 63 := by
    rcases le_total a b with hab | hba
    · exact (Nat.mul_le_mul_right ss (by omega : (a + b) / 2 ≤ b)).trans_lt hb
    · exact (Nat.mul_le_mul_right ss (by omega : (a + b) / 2 ≤ a)).trans_lt ha
  refine ite_congr (propext (complete_sector hss hread hc)) (fun hlt => ?_) fun _ => ?_
  · have hin : (a + b) / 2 * ss + ss ≤ size := (hread _ hc).mp ((complete_sector hss hread hc).mpr hlt)
    rw [Nat.mod_eq_of_lt (by omega), Nat.succ_mul]
  · exact if_congr (le_mul_iff_one_le_left hss) (by rw [Nat.sub_mul, Nat.one_mul]) rfl

theorem bisectStep_bracketed (hss : 0 < ss) (hsize : size < 2 ^ 62)
    (hread : ∀ o < 2 ^ 63, complete o = true ↔ o + ss ≤ size) (s : ℕ × ℕ) (hs : Bracketed ss size s) :
    ∀ t ∈ bisectStep complete ss s, Bracketed ss size t ∧ t.2 / ss + 1 - t.1 / ss < s.2 / ss + 1 - s.1 / ss := by
  intro t ht
  obtain ⟨a, b, rfl, ha, hb, hlt⟩ := hs
  have halt : a * ss < 2 ^ 63 :=
    ((Nat.mul_le_mul_right ss ha).trans (Nat.div_mul_le_self size ss)).trans_lt (by omega)
  rw [bisectStep_eq hss hsize hread halt hlt] at ht
  split_ifs at ht with hab hread hpos
  · obtain rfl := Option.some.inj ht
    refine ⟨⟨_, _, rfl, hread, hb, hlt⟩, ?_⟩
    simp only [Nat.mul_div_cancel _ hss]
    omega
  · obtain rfl := Option.some.inj ht
    refine ⟨⟨_, _, rfl, ha, by omega, ?_⟩, ?_⟩
    · exact (Nat.mul_le_mul_right ss (by omega : (a + b) / 2 - 1 ≤ b)).trans_lt hlt
    · simp only [Nat.mul_div_cancel _ hss]
      omega
  · cases ht
  · cases ht

/-- The dichotomy ends at the end of the device. -/
theorem fst_of_bisectStep_none (hss : 0 < ss) (hsize : size < 2 ^ 62)
    (hread : ∀ o < 2 ^ 63, complete o = true ↔ o + ss ≤ size) {s : ℕ × ℕ} (hs : Bracketed ss size s)
    (hend : bisectStep complete ss s = none) : s.1 = size / ss * ss := by
  obtain ⟨a, b, rfl, ha, hb, hlt⟩ := hs
  have halt : a * ss < 2 ^ 63 :=
    ((Nat.mul_le_mul_right ss ha).trans (Nat.div_mul_le_self size ss)).trans_lt (by omega)
  rw [bisectStep_eq hss hsize hread halt hlt] at hend
  have hlast : a = size / ss := by
    split_ifs at hend <;> omega
  rw [hlast]

/-- **The size found is the last multiple of the sector size in the device**, and the search ends. -/
theorem computeDeviceSize_eq (sectorSize : UInt32) (hss : 1 ≤ sectorSize) (hsize : size < 2 ^ 62)
    (hread : ∀ o < 2 ^ 63, complete o = true ↔ o + sectorSize.toNat ≤ size) :
    ∃ enough, ∀ rounds ≥ enough,
      computeDeviceSize complete sectorSize rounds = some (size / sectorSize.toNat * sectorSize.toNat) := by
  have hpos : 0 < sectorSize.toNat := by
    have := UInt32.le_iff_toNat_le.mp hss
    exact this
  have hstart : Grown sectorSize.toNat size (0, sectorSize.toNat) := by
    have := sectorSize.toNat_lt
    exact ⟨0, 1, by simp, Nat.zero_le _, one_pos, by omega⟩
  obtain ⟨grown, hgrow, ⟨a, b, rfl, ha, hb, hlt⟩, hstop⟩ :=
    runFor_of_measure (fun s => size - s.2) (growStep_grown hpos hsize hread) hstart
  -- the doubling stops at a sector that is not read
  have hbound : size / sectorSize.toNat ≤ b := by
    by_contra hcon
    have hcomplete := (complete_sector hpos hread hlt).mpr (not_le.mp hcon)
    rw [growStep, if_pos hcomplete] at hstop
    cases hstop
  obtain ⟨found, hbisect, hfound, hend⟩ :=
    runFor_of_measure (fun s => s.2 / sectorSize.toNat + 1 - s.1 / sectorSize.toNat)
      (bisectStep_bracketed hpos hsize hread) (a := (a * sectorSize.toNat, b * sectorSize.toNat))
      ⟨a, b, rfl, ha, by omega, hlt⟩
  have hfst := fst_of_bisectStep_none hpos hsize hread hfound hend
  have hlast : complete (size / sectorSize.toNat * sectorSize.toNat) = false := by
    have hin : size / sectorSize.toNat * sectorSize.toNat ≤ size := Nat.div_mul_le_self _ _
    rw [Bool.eq_false_iff, Ne, complete_sector hpos hread (by omega)]
    exact lt_irrefl _
  refine ⟨max (size - sectorSize.toNat)
    (b * sectorSize.toNat / sectorSize.toNat + 1 - a * sectorSize.toNat / sectorSize.toNat) + 1, fun rounds hr => ?_⟩
  have hr₁ := hgrow rounds (by simp only; omega)
  have hr₂ := hbisect rounds (by simp only; omega)
  simp only [computeDeviceSize, hr₁, hr₂, Option.bind_eq_bind, Option.bind_some, hfst, hlast, Option.pure_def]
  rfl

/-- A device of 27 bytes has six whole sectors of four. -/
theorem computeDeviceSize_sixSectors : (1 : UInt32) ≤ 4 ∧ (27 : ℕ) < 2 ^ 62 ∧
    ∃ enough, ∀ rounds ≥ enough, computeDeviceSize (fun o => o + 4 ≤ 27) 4 rounds = some 24 :=
  ⟨by decide, by decide, computeDeviceSize_eq 4 (by decide) (by decide : 27 < 2 ^ 62) fun o _ => decide_eq_true_iff⟩

end Search

end RecoveryQt
