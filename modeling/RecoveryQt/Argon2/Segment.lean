import RecoveryQt.Argon2.Reference

/-!
# The offsets of a segment

* `Argon2Position.Starts`, `SegmentState.At`: a segment, and the state in front of one of its blocks;
* `at_segmentStart`, `SegmentState.At.address`, `SegmentState.At.next`: the offsets are those of the blocks;
* `segmentAddress_congr`: what is read of the memory for them.
-/

namespace RecoveryQt

open List hiding Vector

variable {inst : Argon2Instance} {position : Argon2Position} {s : SegmentState}

/-- A segment of a lane. -/
structure Argon2Position.Starts (inst : Argon2Instance) (position : Argon2Position) : Prop where
  lane : position.lane.toNat < inst.lanes.toNat
  slice : position.slice.toNat < 4

/-- The position of the block that the state is in front of. -/
def Argon2Position.block (position : Argon2Position) (s : SegmentState) : Argon2Position := { position with index := s.i }

/-- The state is in front of a block of the segment, or at its end. The offset in front of the block is still to be
corrected behind the first block of the lane. -/
structure SegmentState.At (inst : Argon2Instance) (position : Argon2Position) (s : SegmentState) : Prop where
  start : (startingIndex position).toNat ≤ s.i.toNat
  le : s.i.toNat ≤ inst.segmentLength.toNat
  curr : s.currOffset.toNat = position.lane.toNat * inst.laneLength.toNat + (position.block s).place inst
  prev : (position.block s).place inst ≠ 1 →
    s.prevOffset.toNat = position.lane.toNat * inst.laneLength.toNat + (position.block s).front inst

/-- The offsets of the block, and of the one in front of it, are known. -/
structure SegmentState.Chosen (inst : Argon2Instance) (position : Argon2Position) (s : SegmentState) : Prop where
  start : (startingIndex position).toNat ≤ s.i.toNat
  lt : s.i.toNat < inst.segmentLength.toNat
  curr : s.currOffset.toNat = position.lane.toNat * inst.laneLength.toNat + (position.block s).place inst
  prev : s.prevOffset.toNat = position.lane.toNat * inst.laneLength.toNat + (position.block s).front inst

/-- The offset of a block that may be referred to. -/
def RefersTo (inst : Argon2Instance) (position : Argon2Position) (a : ℕ) : Prop :=
  ∃ lane < inst.lanes.toNat, ∃ r, a = lane * inst.laneLength.toNat + r ∧
    position.Refers inst (lane = position.lane.toNat) r ∧
    (position.pass = 0 → position.slice = 0 → lane = position.lane.toNat)

section Places

variable (h : inst.Valid) (hstarts : position.Starts inst)

include h hstarts

/-- The segment is in the memory. -/
theorem lane_mul_le : position.lane.toNat * inst.laneLength.toNat + inst.laneLength.toNat < 2 ^ 32 := by
  have hle : (position.lane.toNat + 1) * inst.laneLength.toNat ≤ inst.lanes.toNat * inst.laneLength.toNat :=
    Nat.mul_le_mul_right _ hstarts.lane
  rw [Nat.succ_mul] at hle
  exact Nat.lt_of_le_of_lt hle h.memory

/-- The place of a block is in its lane. -/
theorem place_le (hle : s.i.toNat ≤ inst.segmentLength.toNat) : (position.block s).place inst ≤ inst.laneLength.toNat := by
  have hslice : position.slice.toNat * inst.segmentLength.toNat ≤ 3 * inst.segmentLength.toNat :=
    Nat.mul_le_mul_right _ (Nat.le_of_lt_succ hstarts.slice)
  have hplace : (position.block s).place inst = position.slice.toNat * inst.segmentLength.toNat + s.i.toNat := rfl
  have hlane := h.lane
  omega

omit h in
theorem SegmentState.Chosen.in (hs : s.Chosen inst position) : (position.block s).In inst := by
  refine ⟨hstarts.slice, hs.lt, fun hpass hslice => ?_⟩
  have hstart := hs.start
  rw [startingIndex, if_pos ⟨hpass, hslice⟩] at hstart
  exact hstart

end Places

/-! ## The start -/

/-- A place in its lane, by the offset. -/
theorem mod_laneLength {a : UInt32} {lane place n : ℕ} (ha : a.toNat = lane * inst.laneLength.toNat + place)
    (hlt : place < inst.laneLength.toNat) {k : UInt32} (hk : k.toNat = n) : a % inst.laneLength = k ↔ place = n := by
  rw [← UInt32.toNat_inj, UInt32.toNat_mod, ha, hk, Nat.mul_comm, Nat.mul_add_mod, Nat.mod_eq_of_lt hlt]

theorem toNat_startingIndex (position : Argon2Position) :
    (startingIndex position).toNat = 0 ∨ (startingIndex position).toNat = 2 ∧ position.slice = 0 := by
  unfold startingIndex
  split_ifs with hfirst
  · exact Or.inr ⟨rfl, hfirst.2⟩
  · exact Or.inl rfl

/-- **The start of a segment.** -/
theorem at_segmentStart (h : inst.Valid) (hstarts : position.Starts inst) : (segmentStart inst position).At inst position := by
  have hle : (startingIndex position).toNat ≤ inst.segmentLength.toNat := by
    have hsegment := h.segment
    rcases toNat_startingIndex position with hstart | ⟨hstart, -⟩ <;> omega
  have hplace : (position.block (segmentStart inst position)).place inst =
      position.slice.toNat * inst.segmentLength.toNat + (startingIndex position).toNat := rfl
  have hmemory := lane_mul_le h hstarts
  have hbound := place_le h hstarts (s := segmentStart inst position) hle
  have hslice : (position.slice.toUInt32 * inst.segmentLength).toNat = position.slice.toNat * inst.segmentLength.toNat := by
    rw [toNat_mul_of_lt] <;> rw [UInt8.toNat_toUInt32]
    omega
  have hlane : (position.lane * inst.laneLength).toNat = position.lane.toNat * inst.laneLength.toNat :=
    toNat_mul_of_lt (by omega)
  have hoffset : (segmentStart inst position).currOffset =
      position.lane * inst.laneLength + position.slice.toUInt32 * inst.segmentLength + startingIndex position := rfl
  have hcurr : (segmentStart inst position).currOffset.toNat =
      position.lane.toNat * inst.laneLength.toNat + (position.block (segmentStart inst position)).place inst := by
    have hfirst : (position.lane * inst.laneLength + position.slice.toUInt32 * inst.segmentLength).toNat =
        position.lane.toNat * inst.laneLength.toNat + position.slice.toNat * inst.segmentLength.toNat := by
      rw [toNat_add_of_lt, hlane, hslice]
      rw [hlane, hslice]
      omega
    rw [hoffset, hplace, toNat_add_of_lt, hfirst, Nat.add_assoc]
    rw [hfirst]
    omega
  refine ⟨le_rfl, hle, hcurr, fun _ => ?_⟩
  have hlt : (position.block (segmentStart inst position)).place inst < inst.laneLength.toNat := by
    have hlength := h.lane
    have hsegment := h.segment
    rcases toNat_startingIndex position with hstart | ⟨hstart, hzero⟩
    · have hslices : position.slice.toNat * inst.segmentLength.toNat ≤ 3 * inst.segmentLength.toNat :=
        Nat.mul_le_mul_right _ (Nat.le_of_lt_succ hstarts.slice)
      omega
    · rw [hplace, hzero, UInt8.toNat_zero, Nat.zero_mul]
      omega
  have hfront := front_eq_of_le h hbound
  have hprev : (segmentStart inst position).prevOffset =
      if (segmentStart inst position).currOffset % inst.laneLength = 0 then
        (segmentStart inst position).currOffset + inst.laneLength - 1
      else (segmentStart inst position).currOffset - 1 := rfl
  rw [hprev]
  by_cases hzero : (position.block (segmentStart inst position)).place inst = 0
  · have hround : ((segmentStart inst position).currOffset + inst.laneLength).toNat =
        position.lane.toNat * inst.laneLength.toNat + inst.laneLength.toNat := by
      rw [toNat_add_of_lt, hcurr, hzero, Nat.add_zero]
      rw [hcurr, hzero, Nat.add_zero]
      exact hmemory
    rw [if_pos ((mod_laneLength hcurr hlt (rfl : (0 : UInt32).toNat = 0)).mpr hzero), toNat_sub_one (by omega), hround]
    omega
  · rw [if_neg (mt (mod_laneLength hcurr hlt (rfl : (0 : UInt32).toNat = 0)).mp hzero), toNat_sub_one (by omega), hcurr]
    omega

/-! ## A block -/

theorem toNat_add_one {a : UInt32} (h : a.toNat + 1 < 2 ^ 32) : (a + 1).toNat = a.toNat + 1 := toNat_add_of_lt h

theorem SegmentState.Chosen.toNat_next (hs : s.Chosen inst position) : s.next.i.toNat = s.i.toNat + 1 :=
  toNat_add_one (Nat.lt_of_le_of_lt hs.lt inst.segmentLength.toNat_lt)

/-- The place of the next block. -/
theorem SegmentState.Chosen.place_next (hs : s.Chosen inst position) :
    (position.block s.next).place inst = (position.block s).place inst + 1 :=
  congrArg (position.slice.toNat * inst.segmentLength.toNat + ·) hs.toNat_next

section Block

variable (h : inst.Valid) (hstarts : position.Starts inst) (memory : Argon2Memory)

include h hstarts

/-- **What is chosen for a block.** -/
theorem SegmentState.At.chosen (hs : s.At inst position) (hlt : s.i.toNat < inst.segmentLength.toNat) :
    (segmentAddress inst position memory s).1.Chosen inst position := by
  obtain ⟨hstart, hle, hcurr, hprev⟩ := hs
  have hin : (position.block s).In inst := by
    refine ⟨hstarts.slice, hlt, fun hpass hslice => ?_⟩
    rw [startingIndex, if_pos ⟨hpass, hslice⟩] at hstart
    exact hstart
  have hplace := hin.place_lt h
  have hfront := front_eq h hin
  refine ⟨hstart, hlt, hcurr, ?_⟩
  change (if s.currOffset % inst.laneLength = 1 then s.currOffset - 1 else s.prevOffset).toNat =
    position.lane.toNat * inst.laneLength.toNat + (position.block s).front inst
  by_cases hone : (position.block s).place inst = 1
  · rw [if_pos ((mod_laneLength hcurr hplace (rfl : (1 : UInt32).toNat = 1)).mpr hone), toNat_sub_one (by omega), hcurr]
    omega
  · rw [if_neg (mt (mod_laneLength hcurr hplace (rfl : (1 : UInt32).toNat = 1)).mp hone)]
    exact hprev hone

/-- **The block that a block refers to.** -/
theorem SegmentState.At.refersTo (hs : s.At inst position) (hlt : s.i.toNat < inst.segmentLength.toNat) :
    RefersTo inst (position.block s) (segmentAddress inst position memory s).2 := by
  have hin := (hs.chosen h hstarts memory hlt).in hstarts
  change (position.block s).In inst at hin
  obtain ⟨refLane, rand, haddress, hlane, hfirst⟩ : ∃ refLane : UInt64, ∃ rand : UInt32,
      (segmentAddress inst position memory s).2 = (inst.laneLength.toUInt64 * refLane +
        (indexAlpha inst (position.block s) rand (refLane = position.lane.toUInt64)).toUInt64).toNat ∧
      refLane.toNat < inst.lanes.toNat ∧ (position.pass = 0 → position.slice = 0 → refLane = position.lane.toUInt64) := by
    refine ⟨_, _, rfl, ?_, fun hpass hslice => if_pos ⟨hpass, hslice⟩⟩
    by_cases hown : position.pass = 0 ∧ position.slice = 0
    · rw [if_pos hown]
      exact hstarts.lane
    · rw [if_neg hown, UInt64.toNat_mod]
      exact Nat.mod_lt _ h.lanes_pos
  have hsame : refLane = position.lane.toUInt64 ↔ refLane.toNat = position.lane.toNat := UInt64.toNat_inj.symm
  have hrefers : (position.block s).Refers inst (refLane = position.lane.toUInt64)
      (indexAlpha inst (position.block s) rand (refLane = position.lane.toUInt64)).toNat :=
    refers_indexAlpha h hin rand fun hpass hslice => decide_eq_true (hfirst hpass hslice)
  obtain ⟨r, hr⟩ : ∃ r, r = (indexAlpha inst (position.block s) rand (refLane = position.lane.toUInt64)).toNat := ⟨_, rfl⟩
  rw [← hr, decide_eq_decide.mpr hsame] at hrefers
  refine ⟨refLane.toNat, hlane, r, ?_, hrefers, fun hpass hslice => hsame.mp (hfirst hpass hslice)⟩
  have hmul : inst.laneLength.toNat * refLane.toNat < 2 ^ 32 := by
    rw [Nat.mul_comm]
    exact Nat.lt_of_le_of_lt (Nat.mul_le_mul_right _ (Nat.le_of_lt hlane)) h.memory
  have hindex := (indexAlpha inst (position.block s) rand (refLane = position.lane.toUInt64)).toNat_lt
  have hproduct : (inst.laneLength.toUInt64 * refLane).toNat = inst.laneLength.toNat * refLane.toNat := by
    rw [UInt64.toNat_mul, UInt32.toNat_toUInt64, Nat.mod_eq_of_lt (hmul.trans (by decide))]
  rw [haddress, UInt64.toNat_add, hproduct, UInt32.toNat_toUInt64, Nat.mod_eq_of_lt (by omega), ← hr, Nat.mul_comm]

/-- **The next block**, or the end of the segment. -/
theorem SegmentState.Chosen.next (hs : s.Chosen inst position) : s.next.At inst position := by
  have hin := hs.in hstarts
  have hplace := hin.place_lt h
  have hfront := front_eq h hin
  have hmemory := lane_mul_le h hstarts
  have hi := hs.toNat_next
  have hnext := hs.place_next
  obtain ⟨hstart, hlt, hcurr, hprev⟩ := hs
  have hfront' : (position.block s.next).front inst + 1 = (position.block s.next).place inst ∨
      (position.block s.next).place inst = 0 ∧ (position.block s.next).front inst + 1 = inst.laneLength.toNat :=
    front_eq_of_le h (by omega)
  refine ⟨?_, ?_, ?_, fun hone => ?_⟩
  · rw [hi]
    exact Nat.le_succ_of_le hstart
  · rw [hi]
    exact hlt
  · have hadd : (s.currOffset + 1).toNat = s.currOffset.toNat + 1 := toNat_add_one (by
      rw [hcurr]
      omega)
    change (s.currOffset + 1).toNat = _
    rw [hadd, hcurr, hnext, Nat.add_assoc]
  · have hadd : (s.prevOffset + 1).toNat = s.prevOffset.toNat + 1 := toNat_add_one (by
      rw [hprev]
      omega)
    change (s.prevOffset + 1).toNat = _
    rw [hadd, hprev]
    omega

end Block

/-- For its offsets, a block reads one word of the block in front of it. -/
theorem segmentAddress_congr {memory memory' : Argon2Memory}
    (hsame : memory ((segmentAddress inst position memory s).1.prevOffset.toNat, 0) =
      memory' ((segmentAddress inst position memory s).1.prevOffset.toNat, 0)) :
    segmentAddress inst position memory s = segmentAddress inst position memory' s := by
  simp only [segmentAddress] at hsame ⊢
  rw [hsame]

end RecoveryQt
