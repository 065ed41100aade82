import RecoveryQt.Argon2.Blake2bStream
import RecoveryQt.Argon2.Hash
import RecoveryQt.Argon2.Lanes
import RecoveryQt.Luks.Open

/-!
# Keys of Argon2

The memory is allocated and not cleared. A block is not read before it is built, so what was there does not matter.

* `SameOn`, `builtBlocks`, `laneBlocks`: memories with the same blocks; the blocks that are built in front of another one;
* `SameOn.round`, `SameOn.segment`, `SameOn.slice`, `SameOn.pass`, `SameOn.memory`: they stay the same;
* `argon2Instance_valid`: the sizes of `argon2_ctx` fit together;
* **`argon2Ctx_unique`**: the hash, for any memory and any order of the steps of the threads;
* `argon2Hash_eq_ok_iff`: when a key is made; **`luks2DeriveKey_argon2Raw_iff`**: when a keyslot of LUKS2 has one.
-/

namespace RecoveryQt

open List hiding Vector
open Relation

variable {inst : Argon2Instance} {position : Argon2Position} {s : SegmentState} {m m' : Argon2Memory} {B : Set ℕ}

/-- Some blocks are the same in both memories. -/
def SameOn (B : Set ℕ) (m m' : Argon2Memory) : Prop := ∀ a ∈ B, ∀ w, m (a, w) = m' (a, w)

theorem SameOn.mono {B' : Set ℕ} (h : SameOn B m m') (hsub : B' ⊆ B) : SameOn B' m m' := fun a ha => h a (hsub ha)

theorem SameOn.read (h : SameOn B m m') {a : ℕ} (ha : a ∈ B) : readBlock m a = readBlock m' a :=
  block_ext fun i => by
    rw [get_readBlock, get_readBlock]
    exact h a ha i

/-- The same block is written. -/
theorem SameOn.write (h : SameOn B m m') (a : ℕ) (b : Argon2Block) :
    SameOn (insert a B) (writeBlock m a b) (writeBlock m' a b) := by
  intro c hc w
  rw [writeBlock, writeBlock]
  by_cases hca : c = a
  · rw [if_pos hca, if_pos hca]
  · rw [if_neg hca, if_neg hca]
    exact h c (hc.resolve_left hca) w

variable (inst) in
/-- The block that was there is not read in the first pass. -/
theorem SameOn.fill (h : SameOn B m m') {prev ref curr : ℕ} (hprev : prev ∈ B) (href : ref ∈ B)
    (hcurr : position.pass ≠ 0 → curr ∈ B) :
    fillBlock (readBlock m prev) (readBlock m ref) (readBlock m curr) (withXor inst position) =
      fillBlock (readBlock m' prev) (readBlock m' ref) (readBlock m' curr) (withXor inst position) := by
  rw [h.read hprev, h.read href]
  by_cases hpass : position.pass = 0
  · have hxor : withXor inst position = false := by simp [withXor, hpass]
    simp only [hxor, fillBlock, Bool.false_eq_true, if_false]
  · rw [h.read (hcurr hpass)]

/-- **A block is built from the same blocks.** -/
theorem SameOn.build (h : SameOn B m m')
    (hprev : (segmentAddress inst position m s).1.prevOffset.toNat ∈ B) (href : (segmentAddress inst position m s).2 ∈ B)
    (hcurr : position.pass ≠ 0 → (segmentAddress inst position m s).1.currOffset.toNat ∈ B) :
    (segmentRound inst position (s, m)).1 = (segmentRound inst position (s, m')).1 ∧
      SameOn (insert (segmentAddress inst position m s).1.currOffset.toNat B) (segmentRound inst position (s, m)).2
        (segmentRound inst position (s, m')).2 := by
  have haddress := segmentAddress_congr (h _ hprev 0)
  have hblock := h.fill inst hprev href hcurr
  obtain ⟨chosen, hchosen⟩ : ∃ chosen, chosen = segmentAddress inst position m s := ⟨_, rfl⟩
  rw [← hchosen] at haddress hblock ⊢
  rw [segmentRound, segmentRound, ← hchosen, ← haddress, hblock]
  exact ⟨rfl, h.write _ _⟩

/-- The blocks that are built in front of a place of a lane, in a pass and a slice; all of them behind the first pass. -/
def builtBlocks (inst : Argon2Instance) (position : Argon2Position) (place : ℕ) : Set ℕ :=
  {a | a < inst.lanes.toNat * inst.laneLength.toNat ∧ (position.pass = 0 →
    a % inst.laneLength.toNat < 2 ∨ a % inst.laneLength.toNat / inst.segmentLength.toNat < position.slice.toNat ∨
      a % inst.laneLength.toNat / inst.segmentLength.toNat = position.slice.toNat ∧
        (a / inst.laneLength.toNat < position.lane.toNat ∨
          a / inst.laneLength.toNat = position.lane.toNat ∧ a % inst.laneLength.toNat < place))}

section Segment

variable (h : inst.Valid) (hstarts : position.Starts inst)

include h

/-- A place in front of a block is in its segment or in an earlier one. -/
theorem div_le_slice (hp : position.In inst) {r : ℕ} (hr : r < position.place inst) :
    r / inst.segmentLength.toNat ≤ position.slice.toNat := by
  have hpos : 0 < inst.segmentLength.toNat := Nat.lt_of_lt_of_le (by decide) h.segment
  have hplace : position.place inst / inst.segmentLength.toNat = position.slice.toNat := by
    unfold Argon2Position.place
    rw [Nat.mul_comm, Nat.mul_add_div hpos, Nat.div_eq_of_lt hp.index, Nat.add_zero]
  exact (Nat.div_le_div_right (Nat.le_of_lt hr)).trans_eq hplace

omit h in
theorem lane_offset_lt {lane place : ℕ} (hlane : lane < inst.lanes.toNat) (hplace : place < inst.laneLength.toNat) :
    lane * inst.laneLength.toNat + place < inst.lanes.toNat * inst.laneLength.toNat := by
  have hle : (lane + 1) * inst.laneLength.toNat ≤ inst.lanes.toNat * inst.laneLength.toNat := Nat.mul_le_mul_right _ hlane
  rw [Nat.succ_mul] at hle
  omega

/-- A place in front of a block is built: in its lane, or in any lane when it is of an earlier segment. -/
theorem mem_builtBlocks (hp : (position.block s).In inst) {lane r : ℕ} (hlane : lane < inst.lanes.toNat)
    (hr : r < inst.laneLength.toNat) (hless : position.pass = 0 → r < (position.block s).place inst)
    (hown : position.pass = 0 → r / inst.segmentLength.toNat = position.slice.toNat → lane = position.lane.toNat) :
    lane * inst.laneLength.toNat + r ∈ builtBlocks inst position ((position.block s).place inst) := by
  obtain ⟨hdiv, hmod⟩ := offset_mod (k := lane) hr
  refine ⟨lane_offset_lt hlane hr, fun hpass => ?_⟩
  rw [hdiv, hmod]
  rcases Nat.lt_or_eq_of_le (div_le_slice h hp (hless hpass)) with hearlier | hslice
  · exact Or.inr (Or.inl hearlier)
  · exact Or.inr (Or.inr ⟨hslice, Or.inr ⟨hown hpass hslice, hless hpass⟩⟩)

include hstarts

/-- **A round of the loop** reads blocks that are built. -/
theorem SameOn.round (hs : s.At inst position) (hlt : s.i.toNat < inst.segmentLength.toNat)
    (hsame : SameOn (builtBlocks inst position ((position.block s).place inst)) m m') :
    (segmentRound inst position (s, m)).1 = (segmentRound inst position (s, m')).1 ∧
      SameOn (builtBlocks inst position ((position.block s).place inst + 1)) (segmentRound inst position (s, m)).2
        (segmentRound inst position (s, m')).2 := by
  have hchosen := hs.chosen h hstarts m hlt
  have hin := hchosen.in hstarts
  change (position.block s).In inst at hin
  have hplace := hin.place_lt h
  have hcurr : (segmentAddress inst position m s).1.currOffset.toNat =
      position.lane.toNat * inst.laneLength.toNat + (position.block s).place inst := hchosen.curr
  have hprev : (segmentAddress inst position m s).1.prevOffset.toNat =
      position.lane.toNat * inst.laneLength.toNat + (position.block s).front inst := hchosen.prev
  have hpos : 0 < inst.segmentLength.toNat := Nat.lt_of_lt_of_le (by decide) h.segment
  obtain ⟨lane', hlane', r, href, hrefers, -⟩ := hs.refersTo h hstarts m hlt
  have hprevBuilt : (segmentAddress inst position m s).1.prevOffset.toNat ∈
      builtBlocks inst position ((position.block s).place inst) := by
    have hfront : (position.block s).front inst < inst.laneLength.toNat := Nat.mod_lt _ (Nat.zero_lt_of_lt hplace)
    rw [hprev]
    refine mem_builtBlocks h hin hstarts.lane hfront (fun hpass => ?_) fun _ _ => rfl
    rcases front_eq h hin with hnext | ⟨hzero, -⟩
    · omega
    · -- the first block of a lane is not filled in the first pass
      have hsum : position.slice.toNat * inst.segmentLength.toNat + s.i.toNat = 0 := hzero
      have hslice : position.slice.toNat = 0 :=
        (Nat.mul_eq_zero.mp (Nat.add_eq_zero_iff.mp hsum).1).resolve_right hpos.ne'
      have hbehind : 2 ≤ s.i.toNat := hin.behind hpass (UInt8.toNat_inj.mp hslice)
      omega
  have hrefBuilt : (segmentAddress inst position m s).2 ∈ builtBlocks inst position ((position.block s).place inst) := by
    rw [href]
    exact mem_builtBlocks h hin hlane' hrefers.lane hrefers.built fun _ hslice =>
      of_decide_eq_true (hrefers.segment hslice).1
  have hcurrBuilt : position.pass ≠ 0 → (segmentAddress inst position m s).1.currOffset.toNat ∈
      builtBlocks inst position ((position.block s).place inst) := by
    intro hpass
    rw [hcurr]
    exact mem_builtBlocks h hin hstarts.lane hplace (fun hzero => absurd hzero hpass) fun hzero => absurd hzero hpass
  obtain ⟨hstate, hround⟩ := hsame.build hprevBuilt hrefBuilt hcurrBuilt
  refine ⟨hstate, hround.mono ?_⟩
  rintro a ⟨halt, hbuilt⟩
  by_cases ha : a = (segmentAddress inst position m s).1.currOffset.toNat
  · exact Or.inl ha
  · refine Or.inr ⟨halt, fun hpass => ?_⟩
    rcases hbuilt hpass with hfirst | hearlier | ⟨hslice, hbefore | ⟨hlane, hless⟩⟩
    · exact Or.inl hfirst
    · exact Or.inr (Or.inl hearlier)
    · exact Or.inr (Or.inr ⟨hslice, Or.inl hbefore⟩)
    · refine Or.inr (Or.inr ⟨hslice, Or.inr ⟨hlane, ?_⟩⟩)
      have hoffset := Nat.div_add_mod' a inst.laneLength.toNat
      rw [hlane] at hoffset
      rw [hcurr] at ha
      omega

/-- **A segment** is built from blocks that are built in front of it. -/
theorem SameOn.rounds {n : ℕ} (hs : s.At inst position) (hn : s.i.toNat + n = inst.segmentLength.toNat)
    (hsame : SameOn (builtBlocks inst position ((position.block s).place inst)) m m') :
    SameOn (builtBlocks inst position ((position.block s).place inst + n))
      ((segmentRound inst position)^[n] (s, m)).2 ((segmentRound inst position)^[n] (s, m')).2 := by
  induction n generalizing s m m' with
  | zero => exact hsame
  | succ n ih =>
    have hlt : s.i.toNat < inst.segmentLength.toNat := by omega
    have hchosen := hs.chosen h hstarts m hlt
    obtain ⟨hstate, hround⟩ := hsame.round h hstarts hs hlt
    have hnext : (segmentRound inst position (s, m)).1 = (segmentAddress inst position m s).1.next := rfl
    have hplace : (position.block (segmentRound inst position (s, m)).1).place inst =
        (position.block s).place inst + 1 := hchosen.place_next
    have hi : (segmentRound inst position (s, m)).1.i.toNat = s.i.toNat + 1 := hchosen.toNat_next
    rw [← hplace] at hround
    have hrest := ih (hnext ▸ hchosen.next h hstarts) (by omega) hround
    have hpair : segmentRound inst position (s, m') =
        ((segmentRound inst position (s, m)).1, (segmentRound inst position (s, m')).2) :=
      Prod.ext hstate.symm rfl
    rw [Function.iterate_succ_apply, Function.iterate_succ_apply, hpair]
    rw [hplace] at hrest
    rw [Nat.add_comm n 1, ← Nat.add_assoc]
    exact hrest

end Segment

/-! ## All segments -/

/-- The blocks that are built in front of the segment of a lane. -/
def laneBlocks (inst : Argon2Instance) (pass slice lane : ℕ) : Set ℕ :=
  {a | a < inst.lanes.toNat * inst.laneLength.toNat ∧ (UInt32.ofNat pass = 0 →
    a % inst.laneLength.toNat < 2 ∨ a % inst.laneLength.toNat / inst.segmentLength.toNat < slice ∨
      a % inst.laneLength.toNat / inst.segmentLength.toNat = slice ∧ a / inst.laneLength.toNat < lane)}

/-- All blocks. -/
def allBlocks (inst : Argon2Instance) : Set ℕ := {a | a < inst.lanes.toNat * inst.laneLength.toNat}

/-- The first two blocks of the lanes. -/
def firstBlocks (inst : Argon2Instance) (lanes : ℕ) : Set ℕ :=
  {a | a / inst.laneLength.toNat < lanes ∧ a % inst.laneLength.toNat < 2}

section Lanes

variable (h : inst.Valid)

include h

/-- **A segment.** -/
theorem SameOn.segment (r : ℕ × Fin argon2SyncPoints) {lane : ℕ} (hlane : lane < inst.lanes.toNat)
    (hsame : SameOn (laneBlocks inst r.1 r.2 lane) m m') : SameOn (laneBlocks inst r.1 r.2 (lane + 1))
      (fillSegment inst (segmentPosition r lane) m) (fillSegment inst (segmentPosition r lane) m') := by
  have hstarts : (segmentPosition r lane).Starts inst := starts_segmentPosition r lane hlane
  have hat := at_segmentStart h hstarts
  have hpos : 0 < inst.segmentLength.toNat := Nat.lt_of_lt_of_le (by decide) h.segment
  have hslice := toNat_slice r lane
  have hown := toNat_lane r lane hlane
  have hplace : ((segmentPosition r lane).block (segmentStart inst (segmentPosition r lane))).place inst =
      r.2 * inst.segmentLength.toNat + (startingIndex (segmentPosition r lane)).toNat := by
    rw [← hslice]
    rfl
  refine (SameOn.rounds h hstarts (n := inst.segmentLength.toNat - (startingIndex (segmentPosition r lane)).toNat) hat
    (Nat.add_sub_of_le hat.le) (hsame.mono ?_)).mono ?_
  · rintro a ⟨halt, hbuilt⟩
    refine ⟨halt, fun hpass => ?_⟩
    have hbuilt := hbuilt hpass
    rw [hslice, hown, hplace] at hbuilt
    rcases hbuilt with hfirst | hearlier | ⟨heq, hbefore | ⟨-, hless⟩⟩
    · exact Or.inl hfirst
    · exact Or.inr (Or.inl hearlier)
    · exact Or.inr (Or.inr ⟨heq, hbefore⟩)
    · -- nothing of the segment but the first blocks of the lane
      have hge := ((Nat.div_eq_iff hpos).mp heq).1
      rcases toNat_startingIndex (segmentPosition r lane) with hstart | ⟨hstart, hzero⟩
      · omega
      · have hzero : (r.2 : ℕ) = 0 := by rw [← hslice, hzero, UInt8.toNat_zero]
        rw [hzero, Nat.zero_mul] at hless
        exact Or.inl (by omega)
  · rintro a ⟨halt, hbuilt⟩
    refine ⟨halt, fun hpass => ?_⟩
    rw [hslice, hown, hplace]
    rcases hbuilt hpass with hfirst | hearlier | ⟨heq, hless⟩
    · exact Or.inl hfirst
    · exact Or.inr (Or.inl hearlier)
    · refine Or.inr (Or.inr ⟨heq, ?_⟩)
      have hle := hat.le
      change (startingIndex (segmentPosition r lane)).toNat ≤ _ at hle
      have hends := ((Nat.div_eq_iff hpos).mp heq).2
      omega

/-- The segments of a slice. -/
theorem SameOn.slice (r : ℕ × Fin argon2SyncPoints) {n : ℕ} (hn : n ≤ inst.lanes.toNat)
    (hsame : SameOn (laneBlocks inst r.1 r.2 0) m m') : SameOn (laneBlocks inst r.1 r.2 n)
      ((List.range n).foldl (fun m lane => fillSegment inst (segmentPosition r lane) m) m)
      ((List.range n).foldl (fun m lane => fillSegment inst (segmentPosition r lane) m) m') := by
  induction n with
  | zero => exact hsame
  | succ n ih =>
    rw [range_succ, foldl_append, foldl_append]
    exact (ih (Nat.le_of_succ_le hn)).segment h r hn

omit h in
/-- A slice of all lanes is behind it. -/
theorem laneBlocks_succ (pass slice : ℕ) :
    laneBlocks inst pass (slice + 1) 0 ⊆ laneBlocks inst pass slice inst.lanes.toNat := by
  rintro a ⟨halt, hbuilt⟩
  refine ⟨halt, fun hpass => ?_⟩
  have hlane : a / inst.laneLength.toNat < inst.lanes.toNat := Nat.div_lt_of_lt_mul (by rwa [Nat.mul_comm])
  rcases hbuilt hpass with hfirst | hearlier | ⟨-, hless⟩
  · exact Or.inl hfirst
  · rcases Nat.lt_or_eq_of_le (Nat.le_of_lt_succ hearlier) with hearlier | heq
    · exact Or.inr (Or.inl hearlier)
    · exact Or.inr (Or.inr ⟨heq, hlane⟩)
  · exact absurd hless (Nat.not_lt_zero _)

/-- Behind the last slice are all blocks. -/
theorem allBlocks_subset (pass : ℕ) : allBlocks inst ⊆ laneBlocks inst pass 3 inst.lanes.toNat := by
  intro a halt
  refine ⟨halt, fun _ => Or.inr ?_⟩
  have hlane : a / inst.laneLength.toNat < inst.lanes.toNat := Nat.div_lt_of_lt_mul (by rwa [Nat.mul_comm])
  have hpos : 0 < inst.laneLength.toNat := by
    have hlength := h.lane
    have hsegment := h.segment
    omega
  have hslice : a % inst.laneLength.toNat / inst.segmentLength.toNat < 4 := by
    refine Nat.div_lt_of_lt_mul ?_
    rw [Nat.mul_comm, ← h.lane]
    exact Nat.mod_lt _ hpos
  rcases Nat.lt_or_eq_of_le (Nat.le_of_lt_succ hslice) with hearlier | heq
  · exact Or.inl hearlier
  · exact Or.inr ⟨heq, hlane⟩

/-- **A pass.** -/
theorem SameOn.pass {pass : ℕ} (hsame : SameOn (laneBlocks inst pass 0 0) m m') : SameOn (allBlocks inst)
    (((finRange argon2SyncPoints).map (pass, ·)).foldl (fun m r => (List.range inst.lanes.toNat).foldl
      (fun m lane => fillSegment inst (segmentPosition r lane) m) m) m)
    (((finRange argon2SyncPoints).map (pass, ·)).foldl (fun m r => (List.range inst.lanes.toNat).foldl
      (fun m lane => fillSegment inst (segmentPosition r lane) m) m) m') := by
  have hslices : (finRange argon2SyncPoints).map (pass, ·) =
      [(pass, ⟨0, by decide⟩), (pass, ⟨1, by decide⟩), (pass, ⟨2, by decide⟩), (pass, ⟨3, by decide⟩)] := rfl
  have hfirst := hsame.slice h (pass, ⟨0, by decide⟩) le_rfl
  have hsecond := (hfirst.mono (laneBlocks_succ pass 0)).slice h (pass, ⟨1, by decide⟩) le_rfl
  have hthird := (hsecond.mono (laneBlocks_succ pass 1)).slice h (pass, ⟨2, by decide⟩) le_rfl
  have hfourth := (hthird.mono (laneBlocks_succ pass 2)).slice h (pass, ⟨3, by decide⟩) le_rfl
  rw [hslices]
  exact hfourth.mono (allBlocks_subset h pass)

/-- **The passes** leave the same memory. -/
theorem SameOn.memory (hpasses : 0 < inst.passes.toNat) (hsame : SameOn (firstBlocks inst inst.lanes.toNat) m m') :
    SameOn (allBlocks inst) (fillMemoryBlocksSt inst m) (fillMemoryBlocksSt inst m') := by
  have hsub (pass : ℕ) : laneBlocks inst pass 0 0 ⊆ allBlocks inst := fun a ha => ha.1
  have hfirst : laneBlocks inst 0 0 0 ⊆ firstBlocks inst inst.lanes.toNat := by
    rintro a ⟨halt, hbuilt⟩
    refine ⟨Nat.div_lt_of_lt_mul (by rwa [Nat.mul_comm]), ?_⟩
    rcases hbuilt rfl with hless | hless | ⟨-, hless⟩
    · exact hless
    · exact absurd hless (Nat.not_lt_zero _)
    · exact absurd hless (Nat.not_lt_zero _)
  have hrest (passes : List ℕ) {m m' : Argon2Memory} (hsame : SameOn (allBlocks inst) m m') : SameOn (allBlocks inst)
      ((passes.flatMap fun pass => (finRange argon2SyncPoints).map (pass, ·)).foldl (fun m r =>
        (List.range inst.lanes.toNat).foldl (fun m lane => fillSegment inst (segmentPosition r lane) m) m) m)
      ((passes.flatMap fun pass => (finRange argon2SyncPoints).map (pass, ·)).foldl (fun m r =>
        (List.range inst.lanes.toNat).foldl (fun m lane => fillSegment inst (segmentPosition r lane) m) m) m') := by
    induction passes generalizing m m' with
    | nil => exact hsame
    | cons pass passes ih =>
      rw [flatMap_cons, foldl_append, foldl_append]
      exact ih ((hsame.mono (hsub pass)).pass h)
  obtain ⟨n, hn⟩ := Nat.exists_eq_succ_of_ne_zero hpasses.ne'
  rw [fillMemoryBlocksSt, fillMemoryBlocksSt, fillRounds, hn, range_succ_eq_map, flatMap_cons, foldl_append, foldl_append]
  exact hrest _ ((hsame.mono hfirst).pass h)

/-- The first blocks are written. -/
theorem sameOn_fillFirstBlocks (blockhash : List UInt8) (m m' : Argon2Memory) :
    SameOn (firstBlocks inst inst.lanes.toNat) (fillFirstBlocks blockhash inst m) (fillFirstBlocks blockhash inst m') := by
  have hlanes (n : ℕ) (hn : n ≤ inst.lanes.toNat) : SameOn (firstBlocks inst n)
      ((List.range n).foldl (firstBlocksRound blockhash inst) m)
      ((List.range n).foldl (firstBlocksRound blockhash inst) m') := by
    induction n with
    | zero => exact fun a ha => absurd ha.1 (Nat.not_lt_zero _)
    | succ n ih =>
      rw [range_succ, foldl_append, foldl_append]
      refine (((ih (Nat.le_of_succ_le hn)).write _ _).write _ _).mono ?_
      rintro a ⟨hlane, hless⟩
      have hoffset : (UInt32.ofNat n * inst.laneLength).toNat = n * inst.laneLength.toNat := by
        have hn' : (UInt32.ofNat n).toNat = n := by
          rw [UInt32.toNat_ofNat', Nat.mod_eq_of_lt (Nat.lt_trans hn inst.lanes.toNat_lt)]
        rw [toNat_mul_of_lt] <;> rw [hn']
        exact Nat.lt_of_le_of_lt (Nat.mul_le_mul_right _ (Nat.le_of_succ_le hn)) h.memory
      rcases Nat.lt_or_eq_of_le (Nat.le_of_lt_succ hlane) with hbefore | heq
      · exact Or.inr (Or.inr ⟨hbefore, hless⟩)
      · have hdiv := Nat.div_add_mod' a inst.laneLength.toNat
        rw [heq] at hdiv
        rw [hoffset]
        rcases Nat.lt_or_ge (a % inst.laneLength.toNat) 1 with hzero | hone
        · exact Or.inr (Or.inl (by omega))
        · exact Or.inl (by omega)
  exact hlanes _ le_rfl

/-- The last blocks are read. -/
theorem SameOn.last (outlen : UInt32) (hsame : SameOn (allBlocks inst) m m') :
    finalize outlen inst m = finalize outlen inst m' := by
  have hlength : 1 ≤ inst.laneLength.toNat := by
    have hlane := h.lane
    have hsegment := h.segment
    omega
  have hlast := toNat_sub_one hlength
  have hfirst : readBlock m (inst.laneLength - 1).toNat = readBlock m' (inst.laneLength - 1).toNat := by
    refine hsame.read ?_
    change (inst.laneLength - 1).toNat < _
    rw [hlast]
    exact Nat.lt_of_lt_of_le (Nat.sub_lt hlength Nat.one_pos) (Nat.le_mul_of_pos_left _ h.lanes_pos)
  rw [finalize, finalize, hfirst]
  refine congrArg (fun b => (blake2bLong outlen.toNat (storeBlock b)).getD []) (foldl_ext _ _ _ fun b l hl => ?_)
  have hlane : l + 1 < inst.lanes.toNat := by
    have hl := mem_range.mp hl
    omega
  have hn : (UInt32.ofNat (l + 1)).toNat = l + 1 := by
    rw [UInt32.toNat_ofNat', Nat.mod_eq_of_lt (Nat.lt_trans hlane inst.lanes.toNat_lt)]
  have hoffset := lane_offset_lt hlane (Nat.sub_lt hlength Nat.one_pos)
  have hmemory := h.memory
  have hproduct : (UInt32.ofNat (l + 1) * inst.laneLength).toNat = (l + 1) * inst.laneLength.toNat := by
    rw [toNat_mul_of_lt] <;> rw [hn]
    omega
  rw [hsame.read]
  change (UInt32.ofNat (l + 1) * inst.laneLength + (inst.laneLength - 1)).toNat < _
  rw [toNat_add_of_lt] <;> rw [hproduct, hlast] <;> omega

end Lanes

/-! ## The hash -/

section Hash

variable {context : Argon2Context} {type : Argon2Type}

/-- A check that does not fail. -/
theorem ite_error_eq_ok_iff {ε α : Type*} {p : Prop} [Decidable p] {e : ε} {x : Except ε α} {a : α} :
    (if p then .error e else x) = .ok a ↔ ¬ p ∧ x = .ok a := by
  by_cases hp : p
  · rw [if_pos hp]
    exact iff_of_false (fun h => by cases h) fun h => h.1 hp
  · rw [if_neg hp, and_iff_right hp]

theorem dite_error_eq_ok_iff {ε α : Type*} {p : Prop} [Decidable p] {e : ε} {x : ¬ p → Except ε α} {a : α} :
    (if h : p then .error e else x h) = .ok a ↔ ∃ h : ¬ p, x h = .ok a := by
  by_cases hp : p
  · rw [dif_pos hp]
    exact iff_of_false (fun h => by cases h) fun h => h.1 hp
  · rw [dif_neg hp]
    exact ⟨fun h => ⟨hp, h⟩, fun h => h.2⟩

theorem validateInputs_eq_ok_iff : validateInputs context = .ok () ↔ ¬ context.outlen < 4 ∧ ¬ context.pwd.Mismatch ∧
    ¬ context.salt.Mismatch ∧ ¬ context.salt.len < 8 ∧ ¬ context.secret.Mismatch ∧ ¬ context.ad.Mismatch ∧
      ¬ context.mCost < 8 ∧ ¬ context.mCost < 8 * context.lanes ∧ ¬ context.tCost < 1 ∧ ¬ context.lanes < 1 ∧
        ¬ context.lanes > 0xFFFFFF ∧ ¬ context.threads < 1 ∧ ¬ context.threads > 0xFFFFFF := by
  unfold validateInputs
  simp only [ite_error_eq_ok_iff, and_true]

/-- What the sizes of accepted inputs are. -/
theorem bounds_of_validateInputs (hok : validateInputs context = .ok ()) :
    4 ≤ context.outlen.toNat ∧ 8 * context.lanes.toNat ≤ context.mCost.toNat ∧ 1 ≤ context.tCost.toNat ∧
      1 ≤ context.lanes.toNat ∧ context.lanes.toNat ≤ 0xFFFFFF ∧ 1 ≤ context.threads.toNat := by
  obtain ⟨houtlen, -, -, -, -, -, -, hperLane, htime, hlanes, hmany, hthreads, -⟩ := validateInputs_eq_ok_iff.mp hok
  rw [UInt32.lt_iff_toNat_lt] at houtlen hperLane htime hlanes hthreads
  replace hmany : ¬ (0xFFFFFF : UInt32).toNat < context.lanes.toNat := hmany
  have hconstants : (4 : UInt32).toNat = 4 ∧ (1 : UInt32).toNat = 1 ∧ (0xFFFFFF : UInt32).toNat = 0xFFFFFF := by decide
  have hproduct : (8 * context.lanes).toNat = 8 * context.lanes.toNat := toNat_mul_of_lt (by
    change 8 * context.lanes.toNat < _
    omega)
  omega

/-- **The sizes of accepted inputs fit together.** -/
theorem argon2Instance_valid (hok : validateInputs context = .ok ()) : (argon2Instance context type).Valid := by
  obtain ⟨-, hmemory, -, hlanes, hmany, hthreads⟩ := bounds_of_validateInputs hok
  have hproduct : (8 * context.lanes).toNat = 8 * context.lanes.toNat := toNat_mul_of_lt (by
    change 8 * context.lanes.toNat < _
    omega)
  have hround : (context.lanes * 4).toNat = context.lanes.toNat * 4 := toNat_mul_of_lt (by
    change context.lanes.toNat * 4 < _
    omega)
  have henough : ¬ context.mCost < 8 * context.lanes := by
    rw [UInt32.lt_iff_toNat_lt, hproduct]
    omega
  obtain ⟨n, hn⟩ : ∃ n, n = (argon2Instance context type).segmentLength := ⟨_, rfl⟩
  have hsegment : n.toNat = context.mCost.toNat / (context.lanes.toNat * 4) := by
    rw [hn, ← hround, ← UInt32.toNat_div]
    exact congrArg (fun a => (a / (context.lanes * 4)).toNat) (if_neg henough)
  have hall : n.toNat * (context.lanes.toNat * 4) ≤ context.mCost.toNat := by
    rw [hsegment]
    exact Nat.div_mul_le_self _ _
  have hbound := context.mCost.toNat_lt
  have hle : n.toNat * 4 ≤ n.toNat * (context.lanes.toNat * 4) := Nat.mul_le_mul_left _ (by omega)
  have hlength : (n * 4).toNat = n.toNat * 4 := toNat_mul_of_lt (by
    change n.toNat * 4 < _
    omega)
  refine ⟨?_, ?_, ?_, ?_⟩
  · change ((argon2Instance context type).segmentLength * 4).toNat = _
    rw [← hn, hlength, Nat.mul_comm]
  · rw [← hn, hsegment, Nat.le_div_iff_mul_le (by omega)]
    omega
  · change context.lanes.toNat * ((argon2Instance context type).segmentLength * 4).toNat < _
    rw [← hn, hlength, ← Nat.mul_assoc, Nat.mul_comm context.lanes.toNat, Nat.mul_assoc]
    omega
  · change 1 ≤ (if context.threads > context.lanes then context.lanes else context.threads).toNat ∧
      (if context.threads > context.lanes then context.lanes else context.threads).toNat ≤ context.lanes.toNat
    by_cases hmore : context.threads > context.lanes
    · rw [if_pos hmore]
      exact ⟨hlanes, le_rfl⟩
    · rw [if_neg hmore]
      exact ⟨hthreads, Nat.le_of_not_lt fun hlt => hmore (UInt32.lt_iff_toNat_lt.mpr hlt)⟩

/-- The memory that is filled is hashed, whatever was there. -/
theorem finalize_fillMemoryBlocksSt (hok : validateInputs context = .ok ()) (m m' : Argon2Memory) :
    finalize context.outlen (argon2Instance context type)
        (fillMemoryBlocksSt (argon2Instance context type) (argon2Initialize context type m)) =
      finalize context.outlen (argon2Instance context type)
        (fillMemoryBlocksSt (argon2Instance context type) (argon2Initialize context type m')) := by
  obtain ⟨-, -, hpasses, -⟩ := bounds_of_validateInputs hok
  have h : (argon2Instance context type).Valid := argon2Instance_valid hok
  have hfirst : SameOn (firstBlocks (argon2Instance context type) (argon2Instance context type).lanes.toNat)
      (argon2Initialize context type m) (argon2Initialize context type m') := sameOn_fillFirstBlocks h _ _ _
  exact (hfirst.memory h hpasses).last h context.outlen

theorem length_finalize (hok : validateInputs context = .ok ()) (inst : Argon2Instance) (m : Argon2Memory) :
    (finalize context.outlen inst m).length = context.outlen.toNat := by
  obtain ⟨houtlen, -⟩ := bounds_of_validateInputs hok
  rw [finalize, blake2bLong_some (by omega) context.outlen.toNat_lt, Option.getD_some]
  exact length_blake2bLongDigest _ _

theorem argon2CtxSt_eq_ok_iff {m : Argon2Memory} {key : List UInt8} : argon2CtxSt context type m = .ok key ↔
    validateInputs context = .ok () ∧ finalize context.outlen (argon2Instance context type)
      (fillMemoryBlocksSt (argon2Instance context type) (argon2Initialize context type m)) = key := by
  rw [argon2CtxSt]
  cases validateInputs context with
  | ok => exact ⟨fun h => ⟨rfl, Except.ok.inj h⟩, fun h => congrArg _ h.2⟩
  | error e => exact iff_of_false (fun h => by cases h) fun h => by cases h.1

/-- **The hash of accepted inputs** is the same for all memories that it may be built in and all orders of the steps of
the threads, and it has the length that is asked for. -/
theorem argon2Ctx_unique (hok : validateInputs context = .ok ()) (m m' : Argon2Memory)
    {c : ForkState (Fin (argon2Instance context type).lanes.toNat) LaneWorker (ℕ × Fin 128) UInt64}
    (hrun : ReflTransGen (ForkStep fun _ => fillSegmentThr (argon2Instance context type))
      (mtStart (argon2Instance context type) (argon2Initialize context type m)) c) (hend : c.commands = []) :
    argon2CtxSt context type m' = .ok (finalize context.outlen (argon2Instance context type) c.mem) ∧
      (finalize context.outlen (argon2Instance context type) c.mem).length = context.outlen.toNat := by
  refine ⟨argon2CtxSt_eq_ok_iff.mpr ⟨hok, ?_⟩, length_finalize hok _ _⟩
  rw [mtMem_eq (argon2Instance_valid hok) hrun hend]
  exact finalize_fillMemoryBlocksSt hok m' m

/-- A password of three bytes, in two lanes. -/
def smallContext : Argon2Context :=
  argon2HashContext 2 16 2 (.ofList [1, 2, 3] (by decide)) (.ofList [0, 1, 2, 3, 4, 5, 6, 7] (by decide)) 32 0x13

/-- A run of two threads in a memory of zeros, and one without threads in a memory of ones. -/
theorem argon2Ctx_unique_smallContext :
    ∃ c : ForkState (Fin (argon2Instance smallContext .id).lanes.toNat) LaneWorker (ℕ × Fin 128) UInt64,
      c.commands = [] ∧
        argon2CtxSt smallContext .id (fun _ => 1) =
          .ok (finalize smallContext.outlen (argon2Instance smallContext .id) c.mem) ∧
        (finalize smallContext.outlen (argon2Instance smallContext .id) c.mem).length = smallContext.outlen.toNat := by
  have hvalid : (argon2Instance smallContext .id).Valid := argon2Instance_valid rfl
  have hstart : ReflTransGen (ForkStep fun _ => fillSegmentThr (argon2Instance smallContext .id))
      (mtStart (argon2Instance smallContext .id) (argon2Initialize smallContext .id fun _ => 0))
      (mtStart (argon2Instance smallContext .id) (argon2Initialize smallContext .id fun _ => 0)) := .refl
  obtain ⟨c, hrun, hend⟩ := mt_completes hvalid hstart
  exact ⟨c, hend, argon2Ctx_unique rfl (fun _ => 0) _ hrun hend⟩

/-! ## The calls of it -/

section Raw

variable (tCost mCost parallelism : UInt32) {hashlen : ℕ}

/-- Which inputs `argon2_hash` lets through. -/
theorem validateInputs_argon2HashContext_iff {pwd salt : List UInt8} (hpwd : pwd.length < 2 ^ 32)
    (hsalt : salt.length < 2 ^ 32) (hlt : hashlen < 2 ^ 32) (version : UInt32) :
    validateInputs (argon2HashContext tCost mCost parallelism (.ofList pwd hpwd) (.ofList salt hsalt) hashlen version) =
        .ok () ↔
      4 ≤ hashlen ∧ 8 ≤ salt.length ∧ 8 * parallelism.toNat ≤ mCost.toNat ∧ 1 ≤ tCost.toNat ∧ 1 ≤ parallelism.toNat ∧
        parallelism.toNat ≤ 0xFFFFFF := by
  have houtlen : (UInt32.ofNat hashlen).toNat = hashlen := by rw [UInt32.toNat_ofNat', Nat.mod_eq_of_lt hlt]
  have hsaltlen : (UInt32.ofNat salt.length).toNat = salt.length := by rw [UInt32.toNat_ofNat', Nat.mod_eq_of_lt hsalt]
  constructor
  · intro hok
    have hshort : ¬ UInt32.ofNat salt.length < 8 := (validateInputs_eq_ok_iff.mp hok).2.2.2.1
    rw [UInt32.lt_iff_toNat_lt, hsaltlen] at hshort
    obtain ⟨hout, hmemory, htime, hlanes, hmany, -⟩ := bounds_of_validateInputs hok
    exact ⟨hout.trans_eq houtlen, Nat.le_of_not_lt hshort, hmemory, htime, hlanes, hmany⟩
  · rintro ⟨hout, hshort, hmemory, htime, hlanes, hmany⟩
    have hproduct : (8 * parallelism).toNat = 8 * parallelism.toNat := toNat_mul_of_lt (by
      change 8 * parallelism.toNat < _
      omega)
    have hnot {a b : UInt32} (h : b.toNat ≤ a.toNat) : ¬ a < b := fun hlt =>
      absurd (UInt32.lt_iff_toNat_lt.mp hlt) (Nat.not_lt.mpr h)
    refine validateInputs_eq_ok_iff.mpr ⟨hnot (hout.trans_eq houtlen.symm), fun h => absurd h.1 (Option.some_ne_none _),
      fun h => absurd h.1 (Option.some_ne_none _), hnot (hshort.trans_eq hsaltlen.symm), fun h => h.2 rfl, fun h => h.2 rfl,
      hnot ?_, hnot (hproduct.trans_le hmemory), hnot htime, hnot hlanes, hnot hmany, hnot hlanes, hnot hmany⟩
    change 8 ≤ mCost.toNat
    omega

variable {tCost mCost parallelism} in
theorem argon2Hash_eq_ok {pwd salt : List UInt8} {type : Argon2Type} {version : UInt32} {m : Argon2Memory}
    {key : List UInt8} : argon2Hash tCost mCost parallelism pwd salt hashlen type version m = .ok key ↔
      ∃ (hpwd : pwd.length < 2 ^ 32) (hsalt : salt.length < 2 ^ 32), hashlen < 2 ^ 32 ∧ 4 ≤ hashlen ∧
        argon2CtxSt (argon2HashContext tCost mCost parallelism (.ofList pwd hpwd) (.ofList salt hsalt) hashlen version) type
          m = .ok key := by
  unfold argon2Hash
  simp only [dite_error_eq_ok_iff, ite_error_eq_ok_iff]
  constructor
  · rintro ⟨hpwd, hsalt, hlt, hout, hkey⟩
    exact ⟨Nat.lt_of_not_le hpwd, Nat.lt_of_not_le hsalt, Nat.lt_of_not_le hlt, Nat.le_of_not_lt hout, hkey⟩
  · rintro ⟨hpwd, hsalt, hlt, hout, hkey⟩
    exact ⟨Nat.not_le.mpr hpwd, Nat.not_le.mpr hsalt, Nat.not_le.mpr hlt, Nat.not_lt.mpr hout, hkey⟩

/-- **When a key is made**: exactly when the lengths and the costs are in their bounds. It has the length that is asked
for, and the memory that is allocated does not matter. -/
theorem argon2Hash_eq_ok_iff (pwd salt : List UInt8) (hashlen : ℕ) (type : Argon2Type) (version : UInt32)
    (m : Argon2Memory) :
    ((∃ key, argon2Hash tCost mCost parallelism pwd salt hashlen type version m = .ok key) ↔
      pwd.length < 2 ^ 32 ∧ salt.length < 2 ^ 32 ∧ hashlen < 2 ^ 32 ∧ 4 ≤ hashlen ∧ 8 ≤ salt.length ∧
        8 * parallelism.toNat ≤ mCost.toNat ∧ 1 ≤ tCost.toNat ∧ 1 ≤ parallelism.toNat ∧ parallelism.toNat ≤ 0xFFFFFF) ∧
      ∀ key, argon2Hash tCost mCost parallelism pwd salt hashlen type version m = .ok key → key.length = hashlen ∧
        ∀ m', argon2Hash tCost mCost parallelism pwd salt hashlen type version m' = .ok key := by
  refine ⟨⟨?_, ?_⟩, fun key hkey => ?_⟩
  · rintro ⟨key, hkey⟩
    obtain ⟨hpwd, hsalt, hlt, -, hkey⟩ := argon2Hash_eq_ok.mp hkey
    have hok := (argon2CtxSt_eq_ok_iff.mp hkey).1
    exact ⟨hpwd, hsalt, hlt, (validateInputs_argon2HashContext_iff tCost mCost parallelism hpwd hsalt hlt version).mp hok⟩
  · rintro ⟨hpwd, hsalt, hlt, hbounds⟩
    have hok := (validateInputs_argon2HashContext_iff tCost mCost parallelism hpwd hsalt hlt version).mpr hbounds
    exact ⟨_, argon2Hash_eq_ok.mpr ⟨hpwd, hsalt, hlt, hbounds.1, argon2CtxSt_eq_ok_iff.mpr ⟨hok, rfl⟩⟩⟩
  · obtain ⟨hpwd, hsalt, hlt, hout, hkey⟩ := argon2Hash_eq_ok.mp hkey
    obtain ⟨hok, rfl⟩ := argon2CtxSt_eq_ok_iff.mp hkey
    refine ⟨(length_finalize hok _ _).trans ((UInt32.toNat_ofNat' ..).trans (Nat.mod_eq_of_lt hlt)), fun m' => ?_⟩
    exact argon2Hash_eq_ok.mpr ⟨hpwd, hsalt, hlt, hout,
      argon2CtxSt_eq_ok_iff.mpr ⟨hok, finalize_fillMemoryBlocksSt hok m' m⟩⟩

/-- `argon2i_hash_raw` and `argon2id_hash_raw`, in a memory of zeros: it does not matter which one. -/
def argon2Raw : Argon2 := fun id tCost mCost parallelism pwd salt hashlen =>
  (argon2Hash (UInt32.ofNat tCost) (UInt32.ofNat mCost) (UInt32.ofNat parallelism) pwd salt hashlen
    (if id then .id else .i) 0x13 fun _ => 0).toOption

theorem toOption_eq_some_iff {ε α : Type*} {x : Except ε α} {a : α} : x.toOption = some a ↔ x = .ok a := by
  cases x with
  | ok b => exact ⟨fun h => congrArg _ (Option.some.inj h), fun h => congrArg _ (Except.ok.inj h)⟩
  | error e => exact iff_of_false (fun h => by cases h) fun h => by cases h

/-- **When a keyslot of LUKS2 with Argon2 has a key**: exactly when the passphrase, the salt and the costs that its
document gives are in the bounds of Argon2; the key has the length that is asked for. -/
theorem luks2DeriveKey_argon2Raw_iff (ssl : OpenSsl) (pass : List UInt8) {kdf : JNode} {type salt64 salt : List UInt8}
    (htype : jsonCStr kdf "type" = some type) (hargon : type = ascii "argon2i" ∨ type = ascii "argon2id")
    (hsalt64 : jsonCStr kdf "salt" = some salt64) (hsalt : b64Decode 256 salt64 = some salt) (outlen : ℕ) :
    ((∃ key, luks2DeriveKey ssl argon2Raw pass kdf outlen = some key) ↔
      pass.length < 2 ^ 32 ∧ salt.length < 2 ^ 32 ∧ outlen < 2 ^ 32 ∧ 4 ≤ outlen ∧ 8 ≤ salt.length ∧
        8 * (jsonU64 kdf (ascii "cpus") 1 % 2 ^ 32) ≤ jsonU64 kdf (ascii "memory") 0 % 2 ^ 32 ∧
          1 ≤ jsonU64 kdf (ascii "time") 0 % 2 ^ 32 ∧ 1 ≤ jsonU64 kdf (ascii "cpus") 1 % 2 ^ 32 ∧
            jsonU64 kdf (ascii "cpus") 1 % 2 ^ 32 ≤ 0xFFFFFF) ∧
      ∀ key, luks2DeriveKey ssl argon2Raw pass kdf outlen = some key → key.length = outlen := by
  have hpbkdf2 : ¬ type = ascii "pbkdf2" := by
    rcases hargon with rfl | rfl <;> decide
  obtain ⟨kind, hkind⟩ : ∃ kind : Argon2Type, kind = if type = ascii "argon2id" then .id else .i := ⟨_, rfl⟩
  have hderive (key : List UInt8) : luks2DeriveKey ssl argon2Raw pass kdf outlen = some key ↔
      argon2Hash (UInt32.ofNat (jsonU64 kdf (ascii "time") 0 % 2 ^ 32)) (UInt32.ofNat (jsonU64 kdf (ascii "memory") 0 % 2 ^ 32))
        (UInt32.ofNat (jsonU64 kdf (ascii "cpus") 1 % 2 ^ 32)) pass salt outlen kind 0x13 (fun _ => 0) = .ok key := by
    rw [← toOption_eq_some_iff, luks2DeriveKey, htype, hsalt64]
    simp only [Option.bind_eq_bind, Option.bind_some, hsalt, if_neg hpbkdf2, if_pos hargon, argon2Raw, decide_eq_true_eq,
      ← hkind]
  have hword (n : ℕ) : (UInt32.ofNat (n % 2 ^ 32)).toNat = n % 2 ^ 32 := by
    rw [UInt32.toNat_ofNat', Nat.mod_mod]
  obtain ⟨hiff, hlength⟩ := argon2Hash_eq_ok_iff (UInt32.ofNat (jsonU64 kdf (ascii "time") 0 % 2 ^ 32))
    (UInt32.ofNat (jsonU64 kdf (ascii "memory") 0 % 2 ^ 32)) (UInt32.ofNat (jsonU64 kdf (ascii "cpus") 1 % 2 ^ 32)) pass salt
    outlen kind 0x13 fun _ => 0
  rw [hword, hword, hword] at hiff
  simp only [hderive]
  exact ⟨hiff, fun key hkey => (hlength key hkey).1⟩

/-- The document of a keyslot with Argon2id. -/
def argon2Kdf : JNode := .obj [(ascii "type", .str (ascii "argon2id")), (ascii "salt", .str (ascii "AAECAwQFBgc=")),
  (ascii "time", .num (ascii "4")), (ascii "memory", .num (ascii "65536")), (ascii "cpus", .num (ascii "2"))]

/-- Its key of 64 bytes. -/
theorem luks2DeriveKey_argon2Raw_iff_argon2Kdf :
    ∃ key, luks2DeriveKey eightStripesSsl argon2Raw (ascii "pw") argon2Kdf 64 = some key ∧ key.length = 64 := by
  have hsalt : b64Decode 256 (ascii "AAECAwQFBgc=") = some [0, 1, 2, 3, 4, 5, 6, 7] := by decide
  obtain ⟨hiff, hlength⟩ := luks2DeriveKey_argon2Raw_iff eightStripesSsl (ascii "pw")
    (by decide : jsonCStr argon2Kdf "type" = some (ascii "argon2id")) (Or.inr rfl)
    (by decide : jsonCStr argon2Kdf "salt" = some (ascii "AAECAwQFBgc=")) hsalt 64
  obtain ⟨key, hkey⟩ := hiff.mpr (by decide)
  exact ⟨key, hkey, hlength key hkey⟩

end Raw

end Hash

end RecoveryQt
