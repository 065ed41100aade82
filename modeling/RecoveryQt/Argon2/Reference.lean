import RecoveryQt.Argon2.Fill
import Mathlib.Tactic.NormNum
import Mathlib.Tactic.Ring
import Mathlib.Tactic.SplitIfs

/-!
# The blocks that a block refers to

* `Argon2Instance.Valid`, `Argon2Position.In`: sizes that fit together, and a block of them;
* `toNat_referenceAreaSize`, `toNat_startPosition`, `toNat_indexAlpha`: `index_alpha` in natural numbers;
* **`indexAlpha_refers`**: a block refers to a block that is built already and that no other thread writes, and not to
  the one in front of it.
-/

namespace RecoveryQt

/-- The sizes of an instance fit together. -/
structure Argon2Instance.Valid (inst : Argon2Instance) : Prop where
  lane : inst.laneLength.toNat = 4 * inst.segmentLength.toNat
  segment : 2 ≤ inst.segmentLength.toNat
  memory : inst.lanes.toNat * inst.laneLength.toNat < 2 ^ 32
  threads : 1 ≤ inst.threads.toNat ∧ inst.threads.toNat ≤ inst.lanes.toNat

variable {inst : Argon2Instance} {position : Argon2Position}

theorem Argon2Instance.Valid.lanes_pos (h : inst.Valid) : 0 < inst.lanes.toNat := Nat.lt_of_lt_of_le h.threads.1 h.threads.2

theorem Argon2Instance.Valid.laneLength_lt (h : inst.Valid) : inst.laneLength.toNat < 2 ^ 32 :=
  Nat.lt_of_le_of_lt (Nat.le_mul_of_pos_left _ h.lanes_pos) h.memory

/-- A block that is filled: one of a segment, behind the first two blocks of a lane. -/
structure Argon2Position.In (inst : Argon2Instance) (position : Argon2Position) : Prop where
  slice : position.slice.toNat < 4
  index : position.index.toNat < inst.segmentLength.toNat
  behind : position.pass = 0 → position.slice = 0 → 2 ≤ position.index.toNat

/-- The place of a block in its lane. -/
def Argon2Position.place (inst : Argon2Instance) (position : Argon2Position) : ℕ :=
  position.slice.toNat * inst.segmentLength.toNat + position.index.toNat

/-- The place in front of it, which is the last one of the lane for the first one. -/
def Argon2Position.front (inst : Argon2Instance) (position : Argon2Position) : ℕ :=
  (position.place inst + inst.laneLength.toNat - 1) % inst.laneLength.toNat

/-! ## The area -/

theorem toNat_add_of_lt {a b : UInt32} (h : a.toNat + b.toNat < 2 ^ 32) : (a + b).toNat = a.toNat + b.toNat := by
  rw [UInt32.toNat_add, Nat.mod_eq_of_lt h]

theorem toNat_mul_of_lt {a b : UInt32} (h : a.toNat * b.toNat < 2 ^ 32) : (a * b).toNat = a.toNat * b.toNat := by
  rw [UInt32.toNat_mul, Nat.mod_eq_of_lt h]

theorem toNat_sub_one {a : UInt32} (h : 1 ≤ a.toNat) : (a - 1).toNat = a.toNat - 1 :=
  UInt32.toNat_sub_of_le _ _ (UInt32.le_iff_toNat_le.mpr h)

/-- The block in front is not counted at the start of a segment. -/
theorem toNat_add_unless {a : UInt32} (h : 1 ≤ a.toNat) (p : Prop) [Decidable p] :
    (a + if p then -1 else 0).toNat = a.toNat - if p then 1 else 0 := by
  by_cases hp : p
  · rw [if_pos hp, if_pos hp, ← UInt32.sub_eq_add_neg, toNat_sub_one h]
  · rw [if_neg hp, if_neg hp, UInt32.add_zero, Nat.sub_zero]

theorem Argon2Position.In.slice_mul_le (hp : position.In inst) :
    position.slice.toNat * inst.segmentLength.toNat ≤ 3 * inst.segmentLength.toNat :=
  Nat.mul_le_mul_right _ (Nat.le_of_lt_succ hp.slice)

/-- The segments in front of that of a block. -/
theorem toNat_slice_mul (h : inst.Valid) (hp : position.In inst) :
    (position.slice.toUInt32 * inst.segmentLength).toNat = position.slice.toNat * inst.segmentLength.toNat := by
  have hle := hp.slice_mul_le
  have hlane := h.lane
  have hlt := h.laneLength_lt
  rw [toNat_mul_of_lt] <;> rw [UInt8.toNat_toUInt32]
  omega

/-- The size of the area, in natural numbers. -/
theorem toNat_referenceAreaSize (h : inst.Valid) (hp : position.In inst) (sameLane : Bool) :
    (referenceAreaSize inst position sameLane).toNat =
      if position.pass = 0 then
        if position.slice = 0 then position.index.toNat - 1
        else if sameLane then position.place inst - 1
        else position.slice.toNat * inst.segmentLength.toNat - if position.index = 0 then 1 else 0
      else if sameLane then 3 * inst.segmentLength.toNat + position.index.toNat - 1
      else 3 * inst.segmentLength.toNat - if position.index = 0 then 1 else 0 := by
  have hlane := h.lane
  have hlt := h.laneLength_lt
  have hsegment := h.segment
  have hindex := hp.index
  have hle := hp.slice_mul_le
  have hslice := toNat_slice_mul h hp
  have hdiff : (inst.laneLength - inst.segmentLength).toNat = 3 * inst.segmentLength.toNat := by
    rw [UInt32.toNat_sub_of_le _ _ (UInt32.le_iff_toNat_le.mpr (by omega))]
    omega
  unfold referenceAreaSize Argon2Position.place
  by_cases hpass : position.pass = 0
  · rw [if_pos hpass, if_pos hpass]
    by_cases hzero : position.slice = 0
    · have hbehind := hp.behind hpass hzero
      rw [if_pos hzero, if_pos hzero, toNat_sub_one (by omega)]
    · have hone : inst.segmentLength.toNat ≤ position.slice.toNat * inst.segmentLength.toNat :=
        Nat.le_mul_of_pos_left _ (Nat.pos_of_ne_zero fun h => hzero (UInt8.toNat_inj.mp h))
      rw [if_neg hzero, if_neg hzero]
      by_cases hsame : sameLane = true
      · have hsum := toNat_add_of_lt (a := position.slice.toUInt32 * inst.segmentLength) (b := position.index) (by omega)
        rw [if_pos hsame, if_pos hsame, toNat_sub_one (by omega), hsum, hslice]
      · rw [if_neg hsame, if_neg hsame, toNat_add_unless (by omega), hslice]
  · rw [if_neg hpass, if_neg hpass]
    by_cases hsame : sameLane = true
    · have hsum := toNat_add_of_lt (a := inst.laneLength - inst.segmentLength) (b := position.index) (by omega)
      rw [if_pos hsame, if_pos hsame, toNat_sub_one (by omega), hsum, hdiff]
    · rw [if_neg hsame, if_neg hsame, toNat_add_unless (by omega), hdiff]

/-- The start of the area: the segment behind that of the block, but in the first pass. -/
theorem toNat_startPosition (h : inst.Valid) (hp : position.In inst) :
    (startPosition inst position).toNat =
      if position.pass = 0 then 0
      else if position.slice.toNat = 3 then 0 else (position.slice.toNat + 1) * inst.segmentLength.toNat := by
  have hlane := h.lane
  have hlt := h.laneLength_lt
  have hsum : (position.slice.toUInt32 + 1).toNat = position.slice.toNat + 1 := by
    have hslice := hp.slice
    rw [toNat_add_of_lt] <;> rw [UInt8.toNat_toUInt32]
    · rfl
    · exact Nat.lt_of_lt_of_le (Nat.add_lt_add_right hslice 1) (by decide)
  unfold startPosition argon2SyncPoints
  by_cases hpass : position.pass = 0
  · rw [if_neg (not_not.mpr hpass), if_pos hpass]
    rfl
  · rw [if_pos hpass, if_neg hpass]
    by_cases hthree : position.slice.toNat = 3
    · rw [if_pos hthree, if_pos hthree]
      rfl
    · have hle : (position.slice.toNat + 1) * inst.segmentLength.toNat ≤ 3 * inst.segmentLength.toNat :=
        Nat.mul_le_mul_right _ (by have := hp.slice; omega)
      rw [if_neg hthree, if_neg hthree, toNat_mul_of_lt] <;> rw [hsum]
      omega

/-- The upper half of a product. -/
theorem toNat_mul_shiftRight {a b : UInt64} (ha : a.toNat < 2 ^ 32) (hb : b.toNat < 2 ^ 32) :
    ((a * b) >>> 32).toNat = a.toNat * b.toNat / 2 ^ 32 := by
  have hlt : a.toNat * b.toNat < 2 ^ 64 := (Nat.mul_lt_mul'' ha hb).trans_eq (by norm_num)
  rw [UInt64.toNat_shiftRight, UInt64.toNat_mul, Nat.mod_eq_of_lt hlt, Nat.shiftRight_eq_div_pow]
  rfl

theorem mul_div_lt {n x : ℕ} (hn : 1 ≤ n) (hx : x < 2 ^ 32) : n * x / 2 ^ 32 < n :=
  Nat.div_lt_of_lt_mul (by rw [Nat.mul_comm (2 ^ 32)]; exact Nat.mul_lt_mul_of_pos_left hx hn)

/-- **The block that is chosen**, counted from the end of the area, which goes round in its lane. -/
theorem toNat_indexAlpha (h : inst.Valid) (pseudoRand : UInt32) {sameLane : Bool} {area : ℕ}
    (harea : (referenceAreaSize inst position sameLane).toNat = area) (hpos : 1 ≤ area) :
    (indexAlpha inst position pseudoRand sameLane).toNat =
      ((startPosition inst position).toNat +
        (area - 1 - area * (pseudoRand.toNat * pseudoRand.toNat / 2 ^ 32) / 2 ^ 32)) % inst.laneLength.toNat := by
  obtain ⟨n, hn⟩ : ∃ n, n = referenceAreaSize inst position sameLane := ⟨_, rfl⟩
  obtain ⟨x, hx⟩ : ∃ x, x = (pseudoRand.toUInt64 * pseudoRand.toUInt64) >>> 32 := ⟨_, rfl⟩
  rw [← hn] at harea
  rw [← harea] at hpos ⊢
  have hrand : pseudoRand.toUInt64.toNat < 2 ^ 32 := pseudoRand.toNat_lt
  have hsquare : x.toNat = pseudoRand.toNat * pseudoRand.toNat / 2 ^ 32 := by
    rw [hx, toNat_mul_shiftRight hrand hrand, UInt32.toNat_toUInt64]
  have hxlt : x.toNat < 2 ^ 32 := by
    rw [hsquare]
    exact Nat.div_lt_of_lt_mul (Nat.mul_lt_mul'' pseudoRand.toNat_lt pseudoRand.toNat_lt)
  have hproduct : ((n.toUInt64 * x) >>> 32).toNat = n.toNat * x.toNat / 2 ^ 32 := toNat_mul_shiftRight n.toNat_lt hxlt
  have hless := mul_div_lt hpos hxlt
  have hrest : ((n - 1).toUInt64 - ((n.toUInt64 * x) >>> 32)).toNat = n.toNat - 1 - n.toNat * x.toNat / 2 ^ 32 := by
    have hone : (n - 1).toUInt64.toNat = n.toNat - 1 := (UInt32.toNat_toUInt64 _).trans (toNat_sub_one hpos)
    rw [UInt64.toNat_sub_of_le, hone, hproduct]
    rw [UInt64.le_iff_toNat_le, hone, hproduct]
    omega
  rw [← hsquare]
  have hstart := (startPosition inst position).toNat_lt
  have hlt := n.toNat_lt
  have hsum : ((startPosition inst position).toNat + (n.toNat - 1 - n.toNat * x.toNat / 2 ^ 32)) % 2 ^ 64 =
      (startPosition inst position).toNat + (n.toNat - 1 - n.toNat * x.toNat / 2 ^ 32) := Nat.mod_eq_of_lt (by omega)
  have hmod : ((startPosition inst position).toNat + (n.toNat - 1 - n.toNat * x.toNat / 2 ^ 32)) % inst.laneLength.toNat <
      2 ^ 32 := (Nat.mod_lt _ (by have := h.segment; have := h.lane; omega)).trans h.laneLength_lt
  rw [indexAlpha]
  simp only [← hn, ← hx]
  rw [UInt64.toNat_toUInt32, UInt64.toNat_mod, UInt64.toNat_add, hrest, UInt32.toNat_toUInt64, UInt32.toNat_toUInt64,
    hsum, Nat.mod_eq_of_lt hmod]

/-- A function that grows by one at most takes all values in between. -/
theorem exists_eq_of_steps {f : ℕ → ℕ} (hzero : f 0 = 0) {n : ℕ} (hstep : ∀ x < n, f (x + 1) ≤ f x + 1) {k : ℕ}
    (hk : k ≤ f n) : ∃ x ≤ n, f x = k := by
  induction n with
  | zero => exact ⟨0, le_rfl, by omega⟩
  | succ n ih =>
    by_cases hle : k ≤ f n
    · obtain ⟨x, hx, hfx⟩ := ih (fun x hx => hstep x (Nat.lt_succ_of_lt hx)) hle
      exact ⟨x, Nat.le_succ_of_le hx, hfx⟩
    · have hlast := hstep n (Nat.lt_succ_self n)
      exact ⟨n + 1, le_rfl, by omega⟩

/-- Squares in the upper half of a product reach each number below the size, which is not too large. -/
theorem exists_square {area : ℕ} (harea : area ≤ 2 ^ 31) {k : ℕ} (hk : k < area) :
    ∃ x : UInt32, area * (x.toNat * x.toNat / 2 ^ 32) / 2 ^ 32 = k := by
  have hstep : ∀ x < 2 ^ 32 - 1, area * ((x + 1) * (x + 1) / 2 ^ 32) / 2 ^ 32 ≤ area * (x * x / 2 ^ 32) / 2 ^ 32 + 1 := by
    intro x hx
    -- the square grows by less than two rounds
    have hsquare : (x + 1) * (x + 1) / 2 ^ 32 ≤ x * x / 2 ^ 32 + 2 := by
      have hexpand : (x + 1) * (x + 1) = x * x + (2 * x + 1) := by ring
      omega
    have hproduct := Nat.mul_le_mul_left area hsquare
    rw [Nat.mul_add area] at hproduct
    omega
  have hlast : k ≤ area * ((2 ^ 32 - 1) * (2 ^ 32 - 1) / 2 ^ 32) / 2 ^ 32 := by
    have hsquare : (2 ^ 32 - 1) * (2 ^ 32 - 1) / 2 ^ 32 = 2 ^ 32 - 2 := by norm_num
    rw [hsquare]
    omega
  have hzero : area * (0 * 0 / 2 ^ 32) / 2 ^ 32 = 0 := by simp
  obtain ⟨x, hx, hfx⟩ := exists_eq_of_steps (f := fun x => area * (x * x / 2 ^ 32) / 2 ^ 32) hzero hstep hlast
  refine ⟨UInt32.ofNat x, ?_⟩
  rw [UInt32.toNat_ofNat', Nat.mod_eq_of_lt (by omega)]
  exact hfx

/-! ## The blocks of the area -/

/-- A number below two rounds. -/
theorem mod_eq_or {a n : ℕ} (h : a < 2 * n) : a % n = a ∧ a < n ∨ a % n + n = a ∧ n ≤ a := by
  rcases Nat.lt_or_ge a n with hlt | hge
  · exact Or.inl ⟨Nat.mod_eq_of_lt hlt, hlt⟩
  · have hsub := Nat.mod_eq_sub_mod hge
    have hlt : (a - n) % n = a - n := Nat.mod_eq_of_lt (by omega)
    exact Or.inr ⟨by omega, hge⟩

/-- The place in front of another one. -/
theorem front_eq_of_le (h : inst.Valid) (hle : position.place inst ≤ inst.laneLength.toNat) :
    position.front inst + 1 = position.place inst ∨
      position.place inst = 0 ∧ position.front inst + 1 = inst.laneLength.toNat := by
  have hlane := h.lane
  have hsegment := h.segment
  unfold Argon2Position.front
  rcases mod_eq_or (a := position.place inst + inst.laneLength.toNat - 1) (n := inst.laneLength.toNat) (by omega) with
    ⟨hmod, hlt⟩ | ⟨hmod, hge⟩ <;> omega

/-- The place of a block is in its lane. -/
theorem Argon2Position.In.place_lt (h : inst.Valid) (hp : position.In inst) : position.place inst < inst.laneLength.toNat := by
  have hlane := h.lane
  have hle := hp.slice_mul_le
  have hindex := hp.index
  unfold Argon2Position.place
  omega

theorem front_eq (h : inst.Valid) (hp : position.In inst) :
    position.front inst + 1 = position.place inst ∨
      position.place inst = 0 ∧ position.front inst + 1 = inst.laneLength.toNat :=
  front_eq_of_le h (Nat.le_of_lt (hp.place_lt h))

/-- The places that a block may refer to, in its own lane or in another one: not the one in front of it; in the first
pass those that are built already; and of the segment that is filled, those of the same lane in front of the block. -/
structure Argon2Position.Refers (inst : Argon2Instance) (position : Argon2Position) (sameLane : Bool) (r : ℕ) : Prop where
  lane : r < inst.laneLength.toNat
  front : r ≠ position.front inst
  built : position.pass = 0 → r < position.place inst
  segment : r / inst.segmentLength.toNat = position.slice.toNat → sameLane = true ∧ r < position.place inst

/-- A block does not refer to itself. -/
theorem Argon2Position.Refers.ne_place (hp : position.In inst) {sameLane : Bool} {r : ℕ}
    (h : position.Refers inst sameLane r) : r ≠ position.place inst := by
  rintro rfl
  have hslice : position.place inst / inst.segmentLength.toNat = position.slice.toNat := by
    rw [Argon2Position.place, Nat.mul_comm, Nat.mul_add_div (Nat.zero_lt_of_lt hp.index), Nat.div_eq_of_lt hp.index,
      Nat.add_zero]
  exact absurd (h.segment hslice).2 (Nat.lt_irrefl _)

/-- In the first pass, the area is at the start of the lane. -/
theorem refers_first_iff (h : inst.Valid) (hp : position.In inst) {sameLane : Bool}
    (hsame : position.pass = 0 → position.slice = 0 → sameLane = true) (hpass : position.pass = 0) {r : ℕ} :
    position.Refers inst sameLane r ↔ r < (referenceAreaSize inst position sameLane).toNat := by
  have hlane := h.lane
  have hle := hp.slice_mul_le
  have hindex := hp.index
  have hfront := front_eq h hp
  have hplace : position.place inst = position.slice.toNat * inst.segmentLength.toNat + position.index.toNat := rfl
  have hpos : 0 < inst.segmentLength.toNat := Nat.lt_of_lt_of_le (by decide) h.segment
  have hslice := Nat.div_eq_iff (x := r) (y := position.slice.toNat) hpos
  rw [toNat_referenceAreaSize h hp, if_pos hpass]
  by_cases hsameLane : sameLane = true
  · have hsize : (if position.slice = 0 then position.index.toNat - 1
        else if sameLane then position.place inst - 1
        else position.slice.toNat * inst.segmentLength.toNat - if position.index = 0 then 1 else 0) =
          position.place inst - 1 := by
      by_cases hzero : position.slice = 0
      · have hfirst : position.place inst = position.index.toNat := by
          rw [hplace, hzero, UInt8.toNat_zero, Nat.zero_mul, Nat.zero_add]
        rw [if_pos hzero, hfirst]
      · rw [if_neg hzero, if_pos hsameLane]
    rw [hsize]
    refine ⟨fun hr => ?_, fun hr => ⟨by omega, by omega, fun _ => by omega, fun _ => ⟨hsameLane, by omega⟩⟩⟩
    have hbuilt := hr.built hpass
    have hne := hr.front
    omega
  · have hzero : ¬ position.slice = 0 := fun hzero => hsameLane (hsame hpass hzero)
    have hfirst : position.index = 0 ↔ position.index.toNat = 0 := UInt32.toNat_inj.symm
    rw [if_neg hzero, if_neg hsameLane]
    constructor
    · intro hr
      have hbuilt := hr.built hpass
      have hne := hr.front
      have hother : ¬ r / inst.segmentLength.toNat = position.slice.toNat := fun heq => hsameLane (hr.segment heq).1
      by_cases hindex0 : position.index = 0
      · have := hfirst.mp hindex0
        rw [if_pos hindex0]
        omega
      · rw [if_neg hindex0]
        omega
    · intro hr
      refine ⟨by omega, ?_, fun _ => by omega, fun heq => absurd (hslice.mp heq).1 (by omega)⟩
      by_cases hindex0 : position.index = 0
      · have := hfirst.mp hindex0
        rw [if_pos hindex0] at hr
        omega
      · have := mt hfirst.mpr hindex0
        omega

/-- Later, the area goes round in the lane, from the segment behind that of the block on. -/
theorem refers_later_iff (h : inst.Valid) (hp : position.In inst) {sameLane : Bool} (hpass : position.pass ≠ 0) {r : ℕ} :
    position.Refers inst sameLane r ↔ ∃ i < (referenceAreaSize inst position sameLane).toNat,
      r = ((startPosition inst position).toNat + i) % inst.laneLength.toNat := by
  have hlane := h.lane
  have hindex := hp.index
  have hplace : position.place inst = position.slice.toNat * inst.segmentLength.toNat + position.index.toNat := rfl
  have hfront := front_eq h hp
  have hfirst : position.index = 0 ↔ position.index.toNat = 0 := UInt32.toNat_inj.symm
  have hpos : 0 < inst.segmentLength.toNat := Nat.lt_of_lt_of_le (by decide) h.segment
  obtain ⟨start, hstart⟩ : ∃ start, start = (startPosition inst position).toNat := ⟨_, rfl⟩
  have hends : start = 0 ∧ position.slice.toNat * inst.segmentLength.toNat = 3 * inst.segmentLength.toNat ∨
      start = position.slice.toNat * inst.segmentLength.toNat + inst.segmentLength.toNat ∧
        position.slice.toNat * inst.segmentLength.toNat ≤ 2 * inst.segmentLength.toNat := by
    have hslice := hp.slice
    rw [toNat_startPosition h hp, if_neg hpass] at hstart
    by_cases hlast : position.slice.toNat = 3
    · rw [if_pos hlast] at hstart
      exact Or.inl ⟨hstart, by rw [hlast]⟩
    · rw [if_neg hlast, Nat.succ_mul] at hstart
      exact Or.inr ⟨hstart, Nat.mul_le_mul_right _ (by omega)⟩
  -- the size of the area in the same lane, and in another one
  obtain ⟨area, harea⟩ : ∃ area, area = (referenceAreaSize inst position sameLane).toNat := ⟨_, rfl⟩
  have hsize : sameLane = true ∧ area + 1 = 3 * inst.segmentLength.toNat + position.index.toNat ∨
      sameLane = false ∧ (position.index.toNat = 0 ∧ area + 1 = 3 * inst.segmentLength.toNat ∨
        position.index.toNat ≠ 0 ∧ area = 3 * inst.segmentLength.toNat) := by
    rw [toNat_referenceAreaSize h hp, if_neg hpass] at harea
    by_cases hsameLane : sameLane = true
    · rw [if_pos hsameLane] at harea
      exact Or.inl ⟨hsameLane, by omega⟩
    · rw [if_neg hsameLane] at harea
      refine Or.inr ⟨Bool.eq_false_iff.mpr hsameLane, ?_⟩
      by_cases hindex0 : position.index = 0
      · rw [if_pos hindex0] at harea
        exact Or.inl ⟨hfirst.mp hindex0, by omega⟩
      · rw [if_neg hindex0] at harea
        exact Or.inr ⟨mt hfirst.mpr hindex0, harea⟩
  rw [← harea, ← hstart]
  constructor
  · intro hr
    have hlt := hr.lane
    have hne := hr.front
    have hin : r < position.slice.toNat * inst.segmentLength.toNat ∨
        position.slice.toNat * inst.segmentLength.toNat + inst.segmentLength.toNat ≤ r ∨
          sameLane = true ∧ r < position.place inst := by
      by_cases heq : r / inst.segmentLength.toNat = position.slice.toNat
      · exact Or.inr (Or.inr (hr.segment heq))
      · have hout := mt (Nat.div_eq_iff hpos).mpr heq
        omega
    have hless : start ≤ r ∧ r - start < area ∨ r < start ∧ r + inst.laneLength.toNat - start < area := by
      rcases hsize with ⟨-, hsize⟩ | ⟨hsame, hsize⟩
      · omega
      · have hout := hin.imp_right fun hin => hin.resolve_right fun hsegment => absurd (hsame.symm.trans hsegment.1) (by decide)
        omega
    rcases hless with ⟨hbehind, hless⟩ | ⟨hbefore, hless⟩
    · refine ⟨r - start, hless, ?_⟩
      rw [Nat.add_sub_cancel' hbehind, Nat.mod_eq_of_lt hlt]
    · refine ⟨r + inst.laneLength.toNat - start, hless, ?_⟩
      rw [Nat.add_sub_cancel' (by omega), Nat.add_mod_right, Nat.mod_eq_of_lt hlt]
  · rintro ⟨i, hi, rfl⟩
    have hround : start + i < 2 * inst.laneLength.toNat := by omega
    have hlt : (start + i) % inst.laneLength.toNat < inst.laneLength.toNat := Nat.mod_lt _ (by omega)
    refine ⟨hlt, ?_, fun hzero => absurd hzero hpass, fun heq => ?_⟩
    · rcases mod_eq_or hround with hmod | hmod <;> omega
    · obtain ⟨hge, hle⟩ := (Nat.div_eq_iff hpos).mp heq
      rcases hsize with ⟨hsame, hsize⟩ | ⟨hsame, hsize⟩
      · refine ⟨hsame, ?_⟩
        rcases mod_eq_or hround with hmod | hmod <;> omega
      · exfalso
        rcases mod_eq_or hround with hmod | hmod <;> omega

/-- There is a block to refer to. -/
theorem one_le_referenceAreaSize (h : inst.Valid) (hp : position.In inst) (sameLane : Bool) :
    1 ≤ (referenceAreaSize inst position sameLane).toNat := by
  have hsegment := h.segment
  have hplace : position.place inst = position.slice.toNat * inst.segmentLength.toNat + position.index.toNat := rfl
  rw [toNat_referenceAreaSize h hp]
  by_cases hpass : position.pass = 0
  · rw [if_pos hpass]
    by_cases hzero : position.slice = 0
    · have hbehind := hp.behind hpass hzero
      rw [if_pos hzero]
      omega
    · have hone : inst.segmentLength.toNat ≤ position.slice.toNat * inst.segmentLength.toNat :=
        Nat.le_mul_of_pos_left _ (Nat.pos_of_ne_zero fun h => hzero (UInt8.toNat_inj.mp h))
      rw [if_neg hzero]
      split_ifs <;> omega
  · rw [if_neg hpass]
    split_ifs <;> omega

/-- The places of the area, which goes round in the lane. -/
theorem refers_iff (h : inst.Valid) (hp : position.In inst) {sameLane : Bool}
    (hsame : position.pass = 0 → position.slice = 0 → sameLane = true) {r : ℕ} :
    position.Refers inst sameLane r ↔ ∃ i < (referenceAreaSize inst position sameLane).toNat,
      r = ((startPosition inst position).toNat + i) % inst.laneLength.toNat := by
  by_cases hpass : position.pass = 0
  · rw [refers_first_iff h hp hsame hpass, toNat_startPosition h hp, if_pos hpass]
    have hless {i : ℕ} (hi : i < (referenceAreaSize inst position sameLane).toNat) : (0 + i) % inst.laneLength.toNat = i := by
      rw [Nat.zero_add, Nat.mod_eq_of_lt ((refers_first_iff h hp hsame hpass).mpr hi).lane]
    constructor
    · exact fun hr => ⟨r, hr, (hless hr).symm⟩
    · rintro ⟨i, hi, rfl⟩
      rwa [hless hi]
  · exact refers_later_iff h hp hpass

/-- What is chosen may be referred to. -/
theorem refers_indexAlpha (h : inst.Valid) (hp : position.In inst) (pseudoRand : UInt32) {sameLane : Bool}
    (hsame : position.pass = 0 → position.slice = 0 → sameLane = true) :
    position.Refers inst sameLane (indexAlpha inst position pseudoRand sameLane).toNat := by
  have hpos := one_le_referenceAreaSize h hp sameLane
  refine (refers_iff h hp hsame).mpr ⟨_, ?_, toNat_indexAlpha h pseudoRand rfl hpos⟩
  omega

/-- **What `index_alpha` can choose**: a block that may be referred to, and in a memory that is not too large, each of
them. -/
theorem indexAlpha_refers (h : inst.Valid) (hp : position.In inst) {sameLane : Bool}
    (hsame : position.pass = 0 → position.slice = 0 → sameLane = true) :
    (∀ pseudoRand, position.Refers inst sameLane (indexAlpha inst position pseudoRand sameLane).toNat) ∧
      (inst.laneLength.toNat ≤ 2 ^ 31 → ∀ r, position.Refers inst sameLane r →
        ∃ pseudoRand, (indexAlpha inst position pseudoRand sameLane).toNat = r) := by
  refine ⟨fun pseudoRand => refers_indexAlpha h hp pseudoRand hsame, fun hsmall r hr => ?_⟩
  have hpos := one_le_referenceAreaSize h hp sameLane
  have hle : (referenceAreaSize inst position sameLane).toNat ≤ inst.laneLength.toNat := by
    have hlane := h.lane
    have hindex := hp.index
    have hslice := hp.slice_mul_le
    have hplace : position.place inst = position.slice.toNat * inst.segmentLength.toNat + position.index.toNat := rfl
    rw [toNat_referenceAreaSize h hp]
    split_ifs <;> omega
  obtain ⟨i, hi, hri⟩ := (refers_iff h hp hsame).mp hr
  -- the place counted from the end of the area
  obtain ⟨x, hx⟩ := exists_square (hle.trans hsmall) (k := (referenceAreaSize inst position sameLane).toNat - 1 - i) (by omega)
  refine ⟨x, ?_⟩
  rw [toNat_indexAlpha h x rfl hpos, hx, hri]
  congr 2
  omega

/-- Two lanes of 8 blocks. -/
def smallInstance : Argon2Instance := ⟨0x13, 2, 16, 2, 8, 2, 2, .id⟩

theorem smallInstance_valid : smallInstance.Valid :=
  ⟨by decide, by decide, by decide, by decide⟩

/-- The first block of the last slice, in the second pass. -/
theorem indexAlpha_refers_lastSlice :
    (∀ pseudoRand, Argon2Position.Refers smallInstance ⟨1, 0, 3, 0⟩ false
        (indexAlpha smallInstance ⟨1, 0, 3, 0⟩ pseudoRand false).toNat) ∧
      (smallInstance.laneLength.toNat ≤ 2 ^ 31 → ∀ r, Argon2Position.Refers smallInstance ⟨1, 0, 3, 0⟩ false r →
        ∃ pseudoRand, (indexAlpha smallInstance ⟨1, 0, 3, 0⟩ pseudoRand false).toNat = r) :=
  indexAlpha_refers smallInstance_valid ⟨by decide, by decide, by decide⟩ (by decide)

end RecoveryQt
