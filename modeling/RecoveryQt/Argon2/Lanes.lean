import RecoveryQt.Argon2.Segment
import RecoveryQt.Lib.ForkJoin
import Mathlib.Data.List.FinRange

/-!
# The lanes of Argon2

A segment is filled by each thread of `fill_memory_blocks_mt`, word by word, while the other threads fill theirs.

* `WordStep`, `FillState`, `fillSteps`: the loops of `fill_block`; **`foldl_fillSteps`**: what they leave;
* `LaneWorker`, `fillSegmentThr`: a thread; `reaches_fillSegment`: alone, it fills its segment;
* `laneReads`, `laneWrites`, `keepsTo_fillSegmentThr`: what it reads and writes;
* `mtCommands`, `mtStart`: the main thread; **`fillMemoryBlocksMt`**: the memory is that without threads.
-/

namespace RecoveryQt

open List hiding Vector
open StateTransition Relation

/-! ## The words of a block -/

/-- A round of a loop of `fill_block`, or what is between two of them. -/
inductive WordStep where
  | copyRef (w : Fin 128)
  | xorPrev (w : Fin 128)
  | copyTmp
  | xorNext (w : Fin 128)
  | permute
  | storeTmp (w : Fin 128)
  | xorR (w : Fin 128)

/-- The blocks of `fill_block`, and the memory. -/
structure FillState where
  blockR : Argon2Block
  blockTmp : Argon2Block
  memory : Argon2Memory

/-- A step of `fill_block`, with the offsets of its three blocks. -/
def WordStep.run (prev ref curr : ℕ) (s : FillState) : WordStep → FillState
  | .copyRef w => { s with blockR := setWord s.blockR w (s.memory (ref, w)) }
  | .xorPrev w => { s with blockR := setWord s.blockR w (s.blockR.get w ^^^ s.memory (prev, w)) }
  | .copyTmp => { s with blockTmp := s.blockR }
  | .xorNext w => { s with blockTmp := setWord s.blockTmp w (s.blockTmp.get w ^^^ s.memory (curr, w)) }
  | .permute => { s with blockR := permuteBlock s.blockR }
  | .storeTmp w => { s with memory := Function.update s.memory (curr, w) (s.blockTmp.get w) }
  | .xorR w => { s with memory := Function.update s.memory (curr, w) (s.memory (curr, w) ^^^ s.blockR.get w) }

/-- The steps of `fill_block`. -/
def fillSteps (withXor : Bool) : List WordStep :=
  (finRange 128).map .copyRef ++ (finRange 128).map .xorPrev ++ [.copyTmp] ++
    (if withXor then (finRange 128).map .xorNext else []) ++ [.permute] ++
    (finRange 128).map .storeTmp ++ (finRange 128).map .xorR

theorem block_ext {v v' : Argon2Block} (h : ∀ i, v.get i = v'.get i) : v = v' := Vector.ext fun i hi => h ⟨i, hi⟩

theorem get_eq_getElem (v : Argon2Block) (i : Fin 128) : v.get i = getElem v i.1 i.isLt := rfl

theorem get_readBlock (memory : Argon2Memory) (a : ℕ) (i : Fin 128) : (readBlock memory a).get i = memory (a, i) := by
  simp [readBlock, get_eq_getElem]

theorem get_xorBlock (v v' : Argon2Block) (i : Fin 128) : (xorBlock v v').get i = v.get i ^^^ v'.get i := by
  simp [xorBlock, get_eq_getElem]

/-- Words that are set one after the other. -/
theorem get_foldl_setWord (f : UInt64 → Fin 128 → UInt64) {ws : List (Fin 128)} (hnodup : ws.Nodup) (v : Argon2Block)
    (i : Fin 128) : (ws.foldl (fun v w => setWord v w (f (v.get w) w)) v).get i =
      if i ∈ ws then f (v.get i) i else v.get i := by
  induction ws generalizing v with
  | nil => rfl
  | cons w ws ih =>
    rw [nodup_cons] at hnodup
    rw [foldl_cons, ih hnodup.2]
    by_cases hiw : i = w
    · subst hiw
      rw [if_neg hnodup.1, if_pos mem_cons_self]
      simp [setWord, get_eq_getElem]
    · have hset : (setWord v w (f (v.get w) w)).get i = v.get i := by
        have hval : (w : ℕ) ≠ i := fun hval => hiw (Fin.ext hval.symm)
        simp [setWord, get_eq_getElem, hval]
      simp only [hset, mem_cons, hiw, false_or]

/-- Words of the memory that are written one after the other. -/
theorem foldl_update (f : UInt64 → Fin 128 → UInt64) (a : ℕ) {ws : List (Fin 128)} (hnodup : ws.Nodup) (m : Argon2Memory)
    (x : ℕ × Fin 128) : ws.foldl (fun m w => Function.update m (a, w) (f (m (a, w)) w)) m x =
      if x.1 = a ∧ x.2 ∈ ws then f (m x) x.2 else m x := by
  induction ws generalizing m with
  | nil => simp
  | cons w ws ih =>
    rw [nodup_cons] at hnodup
    rw [foldl_cons, ih hnodup.2]
    by_cases hx : x = (a, w)
    · subst hx
      rw [if_neg fun hmem => hnodup.1 hmem.2, if_pos ⟨rfl, mem_cons_self⟩, Function.update_self]
    · have hne : x.1 = a → x.2 ≠ w := fun ha hw => hx (Prod.ext ha hw)
      rw [Function.update_of_ne hx]
      refine if_congr (and_congr_right fun ha => ?_) rfl rfl
      rw [mem_cons, or_iff_right (hne ha)]

section Fill

variable (prev ref curr : ℕ) (blockR blockTmp : Argon2Block) (memory : Argon2Memory)

/-- A loop over the words of a block, which is `mk` of its variables. -/
theorem foldl_words (mk : Argon2Block → FillState) (f : UInt64 → Fin 128 → UInt64) (step : Fin 128 → WordStep)
    (hstep : ∀ w v, (step w).run prev ref curr (mk v) = mk (setWord v w (f (v.get w) w))) {v b : Argon2Block}
    (hb : ∀ w : Fin 128, f (v.get w) w = b.get w) :
    ((finRange 128).map step).foldl (WordStep.run prev ref curr) (mk v) = mk b := by
  have hlist (ws : List (Fin 128)) (v : Argon2Block) : (ws.map step).foldl (WordStep.run prev ref curr) (mk v) =
      mk (ws.foldl (fun v (w : Fin 128) => setWord v w (f (v.get w) w)) v) := by
    induction ws generalizing v with
    | nil => rfl
    | cons w ws ih =>
      rw [map_cons, foldl_cons, foldl_cons, hstep]
      exact ih _
  rw [hlist]
  refine congrArg mk (block_ext fun i => ?_)
  rw [get_foldl_setWord f (nodup_finRange 128), if_pos (mem_finRange i), hb]

/-- A loop over the words of the block that is filled. -/
theorem foldl_memoryWords (f : UInt64 → Fin 128 → UInt64) (step : Fin 128 → WordStep)
    (hstep : ∀ w m, (step w).run prev ref curr ⟨blockR, blockTmp, m⟩ =
      ⟨blockR, blockTmp, Function.update m (curr, w) (f (m (curr, w)) w)⟩) {b : Argon2Block}
    (hb : ∀ w : Fin 128, f (memory (curr, w)) w = b.get w) :
    ((finRange 128).map step).foldl (WordStep.run prev ref curr) ⟨blockR, blockTmp, memory⟩ =
      ⟨blockR, blockTmp, writeBlock memory curr b⟩ := by
  have hlist (ws : List (Fin 128)) (m : Argon2Memory) :
      (ws.map step).foldl (WordStep.run prev ref curr) ⟨blockR, blockTmp, m⟩ =
        ⟨blockR, blockTmp, ws.foldl (fun m w => Function.update m (curr, w) (f (m (curr, w)) w)) m⟩ := by
    induction ws generalizing m with
    | nil => rfl
    | cons w ws ih =>
      rw [map_cons, foldl_cons, foldl_cons, hstep]
      exact ih _
  rw [hlist]
  refine congrArg (FillState.mk blockR blockTmp) ?_
  funext x
  rw [foldl_update f curr (nodup_finRange 128), writeBlock]
  by_cases hx : x.1 = curr
  · have hcurr : x = (curr, x.2) := Prod.ext hx rfl
    have hword := hb x.2
    rw [← hcurr] at hword
    rw [if_pos ⟨hx, mem_finRange _⟩, if_pos hx, hword]
    rfl
  · rw [if_neg fun hmem => hx hmem.1, if_neg hx]

theorem foldl_copyRef : ((finRange 128).map .copyRef).foldl (WordStep.run prev ref curr) ⟨blockR, blockTmp, memory⟩ =
    ⟨readBlock memory ref, blockTmp, memory⟩ :=
  foldl_words prev ref curr (FillState.mk · blockTmp memory) (fun _ w => memory (ref, w)) .copyRef (fun _ _ => rfl)
    fun w => (get_readBlock memory ref w).symm

theorem foldl_xorPrev : ((finRange 128).map .xorPrev).foldl (WordStep.run prev ref curr) ⟨blockR, blockTmp, memory⟩ =
    ⟨xorBlock blockR (readBlock memory prev), blockTmp, memory⟩ :=
  foldl_words prev ref curr (FillState.mk · blockTmp memory) (fun v w => v ^^^ memory (prev, w)) .xorPrev
    (fun _ _ => rfl) fun w => by rw [get_xorBlock, get_readBlock]

theorem foldl_xorNext : ((finRange 128).map .xorNext).foldl (WordStep.run prev ref curr) ⟨blockR, blockTmp, memory⟩ =
    ⟨blockR, xorBlock blockTmp (readBlock memory curr), memory⟩ :=
  foldl_words prev ref curr (FillState.mk blockR · memory) (fun v w => v ^^^ memory (curr, w)) .xorNext
    (fun _ _ => rfl) fun w => by rw [get_xorBlock, get_readBlock]

theorem foldl_storeTmp : ((finRange 128).map .storeTmp).foldl (WordStep.run prev ref curr) ⟨blockR, blockTmp, memory⟩ =
    ⟨blockR, blockTmp, writeBlock memory curr blockTmp⟩ :=
  foldl_memoryWords prev ref curr blockR blockTmp memory (fun _ w => blockTmp.get w) .storeTmp (fun _ _ => rfl)
    fun _ => rfl

theorem foldl_xorR : ((finRange 128).map .xorR).foldl (WordStep.run prev ref curr) ⟨blockR, blockTmp, memory⟩ =
    ⟨blockR, blockTmp, writeBlock memory curr (xorBlock (readBlock memory curr) blockR)⟩ :=
  foldl_memoryWords prev ref curr blockR blockTmp memory (fun v w => v ^^^ blockR.get w) .xorR (fun _ _ => rfl)
    fun w => by rw [get_xorBlock, get_readBlock]

/-- **What the loops of `fill_block` leave.** -/
theorem foldl_fillSteps (withXor : Bool) :
    ((fillSteps withXor).foldl (WordStep.run prev ref curr) ⟨blockR, blockTmp, memory⟩).memory =
      writeBlock memory curr (fillBlock (readBlock memory prev) (readBlock memory ref) (readBlock memory curr) withXor) := by
  have hread (b : Argon2Block) : readBlock (writeBlock memory curr b) curr = b := by
    ext i hi
    simp [readBlock, writeBlock]
  have hwrite (b b' : Argon2Block) : writeBlock (writeBlock memory curr b) curr b' = writeBlock memory curr b' := by
    funext x
    by_cases hx : x.1 = curr <;> simp [writeBlock, hx]
  rw [fillSteps, foldl_append, foldl_append, foldl_append, foldl_append, foldl_append, foldl_append, foldl_copyRef,
    foldl_xorPrev]
  cases withXor
  · simp only [Bool.false_eq_true, if_false, foldl_cons, foldl_nil, WordStep.run]
    rw [foldl_storeTmp, foldl_xorR, hread, hwrite]
    rfl
  · simp only [if_true, foldl_cons, foldl_nil, WordStep.run]
    rw [foldl_xorNext, foldl_storeTmp, foldl_xorR, hread, hwrite]
    rfl

end Fill

/-! ## A thread -/

/-- The variables of `fill_segment` in a thread, and what is left of the steps of `fill_block`. -/
structure LaneWorker where
  position : Argon2Position
  segment : SegmentState
  refOffset : ℕ
  blockR : Argon2Block
  blockTmp : Argon2Block
  steps : List WordStep

/-- The steps of the thread are made from here on. -/
def LaneWorker.fill (l : LaneWorker) (memory : Argon2Memory) : FillState := ⟨l.blockR, l.blockTmp, memory⟩

/-- A step of a block, with the offsets of the thread. -/
def LaneWorker.run (l : LaneWorker) (s : FillState) (step : WordStep) : FillState :=
  step.run l.segment.prevOffset.toNat l.refOffset l.segment.currOffset.toNat s

variable (inst : Argon2Instance)

/-- A step of `fill_segment_thr`: one of `fill_block`, behind which the loop goes on, or the choice of the next block. -/
def fillSegmentThr : LaneWorker × Argon2Memory → Option (LaneWorker × Argon2Memory)
  | (l, memory) =>
    match l.steps with
    | step :: steps =>
      let s := l.run (l.fill memory) step
      some ({ l with
        segment := if steps.isEmpty then l.segment.next else l.segment
        blockR := s.blockR
        blockTmp := s.blockTmp
        steps }, s.memory)
    | [] =>
      if l.segment.i < inst.segmentLength then
        let chosen := segmentAddress inst l.position memory l.segment
        some ({ l with
          segment := chosen.1
          refOffset := chosen.2
          steps := fillSteps (withXor inst l.position) }, memory)
      else none

/-- What a thread starts with. -/
def laneStart (r : ℕ × Fin argon2SyncPoints) (lane : ℕ) : LaneWorker where
  position := segmentPosition r lane
  segment := segmentStart inst (segmentPosition r lane)
  refOffset := 0
  blockR := Vector.replicate 128 0
  blockTmp := Vector.replicate 128 0
  steps := []

/-! ## A thread alone -/

section Alone

variable {inst} {l : LaneWorker}

variable (inst) in
/-- **The steps of a block**, to its end. -/
theorem reaches_steps (memory : Argon2Memory) {steps : List WordStep} (hne : steps ≠ []) (hsteps : l.steps = steps) :
    ∃ l', Reaches (fillSegmentThr inst) (l, memory) (l', (steps.foldl l.run (l.fill memory)).memory) ∧
      l'.steps = [] ∧ l'.segment = l.segment.next ∧ l'.position = l.position := by
  induction steps generalizing l memory with
  | nil => exact absurd rfl hne
  | cons step steps ih =>
    obtain ⟨s, hs⟩ : ∃ s, s = l.run (l.fill memory) step := ⟨_, rfl⟩
    obtain ⟨l₁, hl₁⟩ : ∃ l₁ : LaneWorker, l₁ = { l with
        segment := if steps.isEmpty then l.segment.next else l.segment
        blockR := s.blockR
        blockTmp := s.blockTmp
        steps } := ⟨_, rfl⟩
    have hstep : fillSegmentThr inst (l, memory) = some (l₁, s.memory) := by
      rw [hl₁, hs, fillSegmentThr, hsteps]
    cases steps with
    | nil =>
      refine ⟨l₁, ReflTransGen.single ?_, ?_, ?_, ?_⟩
      · rw [foldl_cons, foldl_nil, ← hs]
        exact hstep
      · rw [hl₁]
      · rw [hl₁]
        rfl
      · rw [hl₁]
    | cons step' steps =>
      obtain ⟨l', hreach, hend, hsegment, hposition⟩ := ih (l := l₁) s.memory (cons_ne_nil _ _) (by rw [hl₁])
      have hrun : l₁.run = l.run := by rw [hl₁]; rfl
      have hfill : l₁.fill s.memory = s := by rw [hl₁]; rfl
      rw [hrun, hfill] at hreach
      refine ⟨l', ReflTransGen.head hstep ?_, hend, ?_, ?_⟩
      · rw [foldl_cons, ← hs]
        exact hreach
      · rw [hsegment, hl₁]
        rfl
      · rw [hposition, hl₁]

/-- **A block** is that of the loop of `fill_segment`. -/
theorem reaches_segmentRound (memory : Argon2Memory) (hidle : l.steps = []) (hlt : l.segment.i < inst.segmentLength) :
    ∃ l', Reaches (fillSegmentThr inst) (l, memory) (l', (segmentRound inst l.position (l.segment, memory)).2) ∧
      l'.steps = [] ∧ l'.segment = (segmentRound inst l.position (l.segment, memory)).1 ∧ l'.position = l.position := by
  obtain ⟨chosen, hchosen⟩ : ∃ chosen, chosen = segmentAddress inst l.position memory l.segment := ⟨_, rfl⟩
  obtain ⟨l₁, hl₁⟩ : ∃ l₁ : LaneWorker, l₁ = { l with
      segment := chosen.1
      refOffset := chosen.2
      steps := fillSteps (withXor inst l.position) } := ⟨_, rfl⟩
  have hstep : fillSegmentThr inst (l, memory) = some (l₁, memory) := by
    rw [hl₁, hchosen, fillSegmentThr, hidle]
    exact if_pos hlt
  have hne : fillSteps (withXor inst l.position) ≠ [] := by simp [fillSteps]
  obtain ⟨l', hreach, hend, hsegment, hposition⟩ := reaches_steps inst (l := l₁) memory hne (by rw [hl₁])
  have hmemory : ((fillSteps (withXor inst l.position)).foldl l₁.run (l₁.fill memory)).memory =
      (segmentRound inst l.position (l.segment, memory)).2 := by
    have hfold := foldl_fillSteps chosen.1.prevOffset.toNat chosen.2 chosen.1.currOffset.toNat l.blockR l.blockTmp memory
      (withXor inst l.position)
    rw [hl₁]
    rw [segmentRound, ← hchosen]
    exact hfold
  rw [hmemory] at hreach
  refine ⟨l', ReflTransGen.head hstep hreach, hend, ?_, ?_⟩
  · rw [hsegment, hl₁, segmentRound, ← hchosen]
  · rw [hposition, hl₁]

variable (h : inst.Valid) (hstarts : l.position.Starts inst)

include h hstarts

/-- **The rest of a segment** is that of the loop. -/
theorem reaches_rounds (memory : Argon2Memory) {n : ℕ} (hidle : l.steps = []) (hat : l.segment.At inst l.position)
    (hn : l.segment.i.toNat + n = inst.segmentLength.toNat) :
    ∃ l', Reaches (fillSegmentThr inst) (l, memory) (l', ((segmentRound inst l.position)^[n] (l.segment, memory)).2) ∧
      fillSegmentThr inst (l', ((segmentRound inst l.position)^[n] (l.segment, memory)).2) = none := by
  induction n generalizing l memory with
  | zero =>
    refine ⟨l, .refl, ?_⟩
    have hend : ¬ l.segment.i < inst.segmentLength := by
      rw [UInt32.lt_iff_toNat_lt]
      omega
    rw [fillSegmentThr, hidle]
    exact if_neg hend
  | succ n ih =>
    have hlt : l.segment.i.toNat < inst.segmentLength.toNat := by omega
    obtain ⟨l₁, hreach, hidle₁, hsegment, hposition⟩ := reaches_segmentRound memory hidle
      (UInt32.lt_iff_toNat_lt.mpr hlt)
    have hchosen := hat.chosen h hstarts memory hlt
    have hnext : l₁.segment.At inst l₁.position := by
      rw [hsegment, hposition]
      exact hchosen.next h hstarts
    have hi : l₁.segment.i.toNat = l.segment.i.toNat + 1 := by
      rw [hsegment]
      exact toNat_add_of_lt (Nat.lt_of_le_of_lt hlt inst.segmentLength.toNat_lt)
    obtain ⟨l', hreach', hend⟩ := ih (l := l₁) (by rwa [hposition]) (segmentRound inst l.position (l.segment, memory)).2
      hidle₁ hnext (by omega)
    rw [hposition, hsegment, Prod.mk.eta, ← Function.iterate_succ_apply] at hreach' hend
    exact ⟨l', hreach.trans hreach', hend⟩

end Alone

/-! ## What a thread reads and writes -/

section Footprint

variable {inst} (r : ℕ × Fin argon2SyncPoints) (lane : ℕ)

variable (inst) in
/-- The words that the thread of a lane writes: those of its segment. -/
def laneWrites : Set (ℕ × Fin 128) :=
  {x | x.1 / inst.laneLength.toNat = lane ∧ x.1 % inst.laneLength.toNat / inst.segmentLength.toNat = r.2}

variable (inst) in
/-- The words that it reads: those of its lane, and those of the other segments of the other lanes. -/
def laneReads : Set (ℕ × Fin 128) :=
  {x | x.1 / inst.laneLength.toNat = lane ∨ x.1 % inst.laneLength.toNat / inst.segmentLength.toNat ≠ r.2}

/-- The thread is in front of a block of its segment or at its end, or inside one. -/
structure LaneWorker.Fills (inst : Argon2Instance) (r : ℕ × Fin argon2SyncPoints) (lane : ℕ) (l : LaneWorker) : Prop where
  position : l.position = segmentPosition r lane
  idle : l.steps = [] → l.segment.At inst l.position
  busy : l.steps ≠ [] → l.segment.Chosen inst l.position ∧ RefersTo inst (l.position.block l.segment) l.refOffset

theorem starts_segmentPosition (hlane : lane < inst.lanes.toNat) : (segmentPosition r lane).Starts inst := by
  constructor
  · change (UInt32.ofNat lane).toNat < _
    rwa [UInt32.toNat_ofNat', Nat.mod_eq_of_lt (hlane.trans inst.lanes.toNat_lt)]
  · change (UInt8.ofNat r.2).toNat < 4
    rw [UInt8.toNat_ofNat', Nat.mod_eq_of_lt (Nat.lt_trans r.2.isLt (by decide))]
    exact r.2.isLt

theorem toNat_lane (hlane : lane < inst.lanes.toNat) : (segmentPosition r lane).lane.toNat = lane := by
  change (UInt32.ofNat lane).toNat = lane
  rw [UInt32.toNat_ofNat', Nat.mod_eq_of_lt (hlane.trans inst.lanes.toNat_lt)]

theorem toNat_slice : (segmentPosition r lane).slice.toNat = r.2 := by
  change (UInt8.ofNat r.2).toNat = r.2
  rw [UInt8.toNat_ofNat', Nat.mod_eq_of_lt (Nat.lt_trans r.2.isLt (by decide))]

/-- A place of a lane, by its offset. -/
theorem offset_mod {n k place : ℕ} (hlt : place < n) : (k * n + place) / n = k ∧ (k * n + place) % n = place := by
  constructor
  · rw [Nat.mul_comm, Nat.mul_add_div (Nat.zero_lt_of_lt hlt), Nat.div_eq_of_lt hlt, Nat.add_zero]
  · rw [Nat.mul_comm, Nat.mul_add_mod, Nat.mod_eq_of_lt hlt]

section Chosen

variable {r lane} {s : SegmentState} (h : inst.Valid) (hlane : lane < inst.lanes.toNat)
  (hs : s.Chosen inst (segmentPosition r lane))

include h hlane hs

/-- The block that is filled is in the segment. -/
theorem curr_mem_laneWrites (w : Fin 128) : (s.currOffset.toNat, w) ∈ laneWrites inst r lane := by
  have hin := hs.in (starts_segmentPosition r lane hlane)
  obtain ⟨hdiv, hmod⟩ := offset_mod (k := (segmentPosition r lane).lane.toNat) (hin.place_lt h)
  have hslice : ((segmentPosition r lane).block s).place inst / inst.segmentLength.toNat = r.2 := by
    unfold Argon2Position.place
    rw [Nat.mul_comm, Nat.mul_add_div (Nat.zero_lt_of_lt hin.index), Nat.div_eq_of_lt hin.index, Nat.add_zero]
    exact toNat_slice r lane
  constructor
  · change s.currOffset.toNat / _ = _
    rw [hs.curr, hdiv, toNat_lane r lane hlane]
  · change s.currOffset.toNat % _ / _ = _
    rw [hs.curr, hmod, hslice]

/-- The block in front of it is in the lane. -/
theorem prev_mem_laneReads (w : Fin 128) : (s.prevOffset.toNat, w) ∈ laneReads inst r lane := by
  have hin := hs.in (starts_segmentPosition r lane hlane)
  have hfront : ((segmentPosition r lane).block s).front inst < inst.laneLength.toNat :=
    Nat.mod_lt _ (Nat.zero_lt_of_lt (hin.place_lt h))
  left
  change s.prevOffset.toNat / _ = _
  rw [hs.prev, (offset_mod hfront).1, toNat_lane r lane hlane]

omit h hs in
/-- The block that is referred to is in the lane, or in a segment that no thread fills. -/
theorem ref_mem_laneReads {a : ℕ} (ha : RefersTo inst ((segmentPosition r lane).block s) a) (w : Fin 128) :
    (a, w) ∈ laneReads inst r lane := by
  obtain ⟨lane', -, place, rfl, hrefers, -⟩ := ha
  have hlane' : ((segmentPosition r lane).block s).lane.toNat = lane := toNat_lane r lane hlane
  obtain ⟨hdiv, hmod⟩ := offset_mod (k := lane') hrefers.lane
  by_cases hsame : lane' = lane
  · left
    change (lane' * _ + place) / _ = _
    rw [hdiv, hsame]
  · right
    change (lane' * _ + place) % _ / _ ≠ _
    rw [hmod]
    intro hslice
    have hown := (hrefers.segment (hslice.trans (toNat_slice r lane).symm)).1
    rw [hlane'] at hown
    exact hsame (of_decide_eq_true hown)

end Chosen

/-- A word step writes its block only. -/
theorem WordStep.run_memory_of_ne (prev ref curr : ℕ) (s : FillState) (step : WordStep) {x : ℕ × Fin 128}
    (hx : x.1 ≠ curr) : (step.run prev ref curr s).memory x = s.memory x := by
  cases step with
  | storeTmp w => exact Function.update_of_ne (fun heq => hx (congrArg Prod.fst heq)) _ _
  | xorR w => exact Function.update_of_ne (fun heq => hx (congrArg Prod.fst heq)) _ _
  | _ => rfl

/-- A word step depends on its three blocks only. -/
theorem WordStep.run_congr {prev ref curr : ℕ} {reads : Set (ℕ × Fin 128)} (hprev : ∀ w, (prev, w) ∈ reads)
    (href : ∀ w, (ref, w) ∈ reads) (hcurr : ∀ w, (curr, w) ∈ reads) (blockR blockTmp : Argon2Block)
    {memory memory' : Argon2Memory} (hsame : Set.EqOn memory memory' reads) (step : WordStep) :
    (step.run prev ref curr ⟨blockR, blockTmp, memory⟩).blockR = (step.run prev ref curr ⟨blockR, blockTmp, memory'⟩).blockR ∧
      (step.run prev ref curr ⟨blockR, blockTmp, memory⟩).blockTmp =
        (step.run prev ref curr ⟨blockR, blockTmp, memory'⟩).blockTmp ∧
      Set.EqOn (step.run prev ref curr ⟨blockR, blockTmp, memory⟩).memory
        (step.run prev ref curr ⟨blockR, blockTmp, memory'⟩).memory reads := by
  have hupdate (a : ℕ × Fin 128) (v : UInt64) :
      Set.EqOn (Function.update memory a v) (Function.update memory' a v) reads := by
    intro x hx
    by_cases hxa : x = a
    · rw [hxa, Function.update_self, Function.update_self]
    · rw [Function.update_of_ne hxa, Function.update_of_ne hxa]
      exact hsame hx
  cases step with
  | copyRef w => exact ⟨by simp only [WordStep.run, hsame (href w)], rfl, hsame⟩
  | xorPrev w => exact ⟨by simp only [WordStep.run, hsame (hprev w)], rfl, hsame⟩
  | copyTmp => exact ⟨rfl, rfl, hsame⟩
  | xorNext w => exact ⟨rfl, by simp only [WordStep.run, hsame (hcurr w)], hsame⟩
  | permute => exact ⟨rfl, rfl, hsame⟩
  | storeTmp w => exact ⟨rfl, rfl, hupdate _ _⟩
  | xorR w =>
    refine ⟨rfl, rfl, ?_⟩
    simp only [WordStep.run, hsame (hcurr w)]
    exact hupdate _ _

/-- What a step of a thread can be: one of a block, or the choice of the next one. -/
theorem fillSegmentThr_cases {l l' : LaneWorker} {m m' : Argon2Memory} (hstep : fillSegmentThr inst (l, m) = some (l', m')) :
    (∃ step steps, l.steps = step :: steps ∧ m' = (l.run (l.fill m) step).memory ∧ l' = { l with
      segment := if steps.isEmpty then l.segment.next else l.segment
      blockR := (l.run (l.fill m) step).blockR
      blockTmp := (l.run (l.fill m) step).blockTmp
      steps }) ∨
    (l.steps = [] ∧ l.segment.i < inst.segmentLength ∧ m' = m ∧ l' = { l with
      segment := (segmentAddress inst l.position m l.segment).1
      refOffset := (segmentAddress inst l.position m l.segment).2
      steps := fillSteps (withXor inst l.position) }) := by
  cases hsteps : l.steps with
  | cons step steps =>
    rw [fillSegmentThr, hsteps] at hstep
    obtain ⟨rfl, rfl⟩ := Prod.mk.inj (Option.some.inj hstep)
    exact Or.inl ⟨step, steps, rfl, rfl, rfl⟩
  | nil =>
    rw [fillSegmentThr, hsteps] at hstep
    by_cases hlt : l.segment.i < inst.segmentLength
    · obtain ⟨rfl, rfl⟩ := Prod.mk.inj (Option.some.inj ((if_pos hlt).symm.trans hstep))
      exact Or.inr ⟨rfl, hlt, rfl, rfl⟩
    · exact absurd ((if_neg hlt).symm.trans hstep) (Option.some_ne_none _).symm

variable {r lane}

/-- **Each step keeps a thread in its segment.** -/
theorem LaneWorker.Fills.step (h : inst.Valid) (hlane : lane < inst.lanes.toNat) {l l' : LaneWorker} {m m' : Argon2Memory}
    (hl : l.Fills inst r lane) (hstep : fillSegmentThr inst (l, m) = some (l', m')) : l'.Fills inst r lane := by
  have hstarts : l.position.Starts inst := hl.position ▸ starts_segmentPosition r lane hlane
  rcases fillSegmentThr_cases hstep with ⟨step, steps, hsteps, -, rfl⟩ | ⟨hidle, hlt, -, rfl⟩
  · obtain ⟨hchosen, hrefers⟩ := hl.busy (hsteps ▸ cons_ne_nil _ _)
    refine ⟨hl.position, fun hnil => ?_, fun hne => ?_⟩
    · obtain rfl : steps = [] := hnil
      exact hchosen.next h hstarts
    · cases steps with
      | nil => exact absurd rfl hne
      | cons step' steps => exact ⟨hchosen, hrefers⟩
  · have hat := hl.idle hidle
    have hlt := UInt32.lt_iff_toNat_lt.mp hlt
    refine ⟨hl.position, fun hnil => ?_, fun _ => ⟨hat.chosen h hstarts m hlt, hat.refersTo h hstarts m hlt⟩⟩
    exact absurd hnil (by simp [fillSteps])

/-- **What a thread reads and writes.** -/
theorem keepsTo_fillSegmentThr (h : inst.Valid) (hlane : lane < inst.lanes.toNat) :
    KeepsTo (fillSegmentThr inst) (laneReads inst r lane) (laneWrites inst r lane) (LaneWorker.Fills inst r lane) where
  writes_sub := fun _ hx => Or.inl hx.1
  keeps := fun hl hstep => hl.step h hlane hstep
  frame := by
    intro l m l' m' hl hstep x hx
    rcases fillSegmentThr_cases hstep with ⟨step, steps, hsteps, rfl, -⟩ | ⟨-, -, rfl, -⟩
    · obtain ⟨hchosen, -⟩ := hl.busy (hsteps ▸ cons_ne_nil _ _)
      rw [hl.position] at hchosen
      refine WordStep.run_memory_of_ne _ _ _ _ step fun hcurr => hx ?_
      have hmem := curr_mem_laneWrites h hlane hchosen x.2
      rwa [← hcurr] at hmem
    · rfl
  congr := by
    intro l m m₁ l' m' hl hstep hsame
    rcases fillSegmentThr_cases hstep with ⟨step, steps, hsteps, rfl, rfl⟩ | ⟨hidle, hlt, rfl, rfl⟩
    · obtain ⟨hchosen, hrefers⟩ := hl.busy (hsteps ▸ cons_ne_nil _ _)
      rw [hl.position] at hchosen hrefers
      obtain ⟨hblockR, hblockTmp, hmemory⟩ := WordStep.run_congr (prev_mem_laneReads h hlane hchosen)
        (ref_mem_laneReads hlane hrefers) (fun w => Or.inl (curr_mem_laneWrites h hlane hchosen w).1)
        l.blockR l.blockTmp hsame step
      refine ⟨(l.run (l.fill m₁) step).memory, ?_, hmemory⟩
      have hblockR : (l.run (l.fill m) step).blockR = (l.run (l.fill m₁) step).blockR := hblockR
      have hblockTmp : (l.run (l.fill m) step).blockTmp = (l.run (l.fill m₁) step).blockTmp := hblockTmp
      rw [fillSegmentThr, hsteps, hblockR, hblockTmp]
    · have hstarts : l.position.Starts inst := hl.position ▸ starts_segmentPosition r lane hlane
      have hchosen := (hl.idle hidle).chosen h hstarts m' (UInt32.lt_iff_toNat_lt.mp hlt)
      rw [hl.position] at hchosen
      have haddress := segmentAddress_congr (hsame (prev_mem_laneReads h hlane hchosen 0))
      refine ⟨m₁, ?_, hsame⟩
      rw [fillSegmentThr, hidle, hl.position, haddress]
      exact if_pos hlt

end Footprint

/-! ## The main thread -/

section Main

variable (r : ℕ × Fin argon2SyncPoints)

/-- The commands for a lane: when the limit is exceeded, a thread that was started before is waited for. -/
def mtLane (l : Fin inst.lanes.toNat) : List (ForkCommand (Fin inst.lanes.toNat) LaneWorker) :=
  (if inst.threads.toNat ≤ l then [.join ⟨l - inst.threads.toNat, Nat.lt_of_le_of_lt (Nat.sub_le ..) l.isLt⟩] else []) ++
    [.create l (laneStart inst r l)]

/-- The round of `fill_memory_blocks_mt` for a slice, with the remaining threads at its end. -/
def mtCommands : List (ForkCommand (Fin inst.lanes.toNat) LaneWorker) :=
  (finRange inst.lanes.toNat).flatMap (mtLane inst r) ++
    ((finRange inst.lanes.toNat).filter fun l : Fin inst.lanes.toNat => inst.lanes.toNat - inst.threads.toNat ≤ l).map .join

/-- `fill_memory_blocks_mt` at its start, with the memory of `initialize`. -/
def mtStart (memory : Argon2Memory) : ForkState (Fin inst.lanes.toNat) LaneWorker (ℕ × Fin 128) UInt64 :=
  ⟨(fillRounds inst).flatMap (mtCommands inst), fun _ => none, memory⟩

variable {inst}

/-- The place of a command in a round. -/
def mtTime (lanes threads : ℕ) : ForkCommand (Fin lanes) LaneWorker → ℕ
  | .create i _ => 2 * i + 1
  | .join i => if i + threads < lanes then 2 * (i + threads) else 2 * lanes + i

variable {r} in
theorem mem_mtLane {l : Fin inst.lanes.toNat} {x : ForkCommand (Fin inst.lanes.toNat) LaneWorker} :
    x ∈ mtLane inst r l ↔
      (∃ i : Fin inst.lanes.toNat, i + inst.threads.toNat = l ∧ x = .join i) ∨ x = .create l (laneStart inst r l) := by
  rw [mtLane, mem_append, mem_singleton]
  refine or_congr_left ?_
  by_cases hle : inst.threads.toNat ≤ l
  · rw [if_pos hle, mem_singleton]
    constructor
    · rintro rfl
      exact ⟨_, Nat.sub_add_cancel hle, rfl⟩
    · rintro ⟨i, hi, rfl⟩
      exact congrArg _ (Fin.ext (Nat.eq_sub_of_add_eq hi))
  · rw [if_neg hle]
    refine iff_of_false not_mem_nil ?_
    rintro ⟨i, hi, -⟩
    omega

/-- The commands for a lane have their places in the round. -/
theorem mtTime_mtLane {l : Fin inst.lanes.toNat} {x : ForkCommand (Fin inst.lanes.toNat) LaneWorker}
    (hx : x ∈ mtLane inst r l) : 2 * l.1 ≤ mtTime inst.lanes.toNat inst.threads.toNat x ∧
      mtTime inst.lanes.toNat inst.threads.toNat x < 2 * (l + 1) := by
  rcases mem_mtLane.mp hx with ⟨i, hi, rfl⟩ | rfl
  · have hlt := l.isLt
    rw [mtTime, if_pos (by omega)]
    omega
  · rw [mtTime]
    omega

/-- **A round** starts each thread once, and waits for it later. -/
theorem forkRound_mtCommands (h : inst.Valid) :
    ForkRound (fun i : Fin inst.lanes.toNat => laneStart inst r i) (mtCommands inst r) := by
  obtain ⟨hpos, hle⟩ := h.threads
  have hlast {x : ForkCommand (Fin inst.lanes.toNat) LaneWorker} : x ∈ ((finRange inst.lanes.toNat).filter
      fun l : Fin inst.lanes.toNat => inst.lanes.toNat - inst.threads.toNat ≤ l).map .join ↔
        ∃ i : Fin inst.lanes.toNat, inst.lanes.toNat ≤ i + inst.threads.toNat ∧ x = .join i := by
    rw [mem_map]
    refine exists_congr fun i => ?_
    rw [mem_filter, decide_eq_true_iff, eq_comm (a := ForkCommand.join i)]
    refine and_congr_left fun _ => ?_
    rw [and_iff_right (mem_finRange i)]
    omega
  refine ForkRound.of_times (mtTime inst.lanes.toNat inst.threads.toNat) ?_ ?_ ?_ ?_ ?_
  · refine pairwise_append.mpr ⟨pairwise_flatMap.mpr ⟨fun l _ => ?_, ?_⟩, ?_, fun x hx y hy => ?_⟩
    · have hlt := l.isLt
      rw [mtLane]
      split_ifs with hthreads
      · refine pairwise_pair.mpr ?_
        rw [mtTime, mtTime, if_pos (by simp only; omega)]
        simp only
        omega
      · exact pairwise_singleton _ _
    · refine (pairwise_lt_finRange _).imp fun {a b} hab x hx y hy => ?_
      have hx := (mtTime_mtLane r hx).2
      have hy := (mtTime_mtLane r hy).1
      omega
    · refine pairwise_map.mpr (((pairwise_lt_finRange _).filter _).imp_of_mem fun {a b} ha hb hab => ?_)
      have ha := of_decide_eq_true (mem_filter.mp ha).2
      have hb := of_decide_eq_true (mem_filter.mp hb).2
      rw [mtTime, mtTime, if_neg (by omega), if_neg (by omega)]
      omega
    · obtain ⟨l, -, hx⟩ := mem_flatMap.mp hx
      obtain ⟨i, hi, rfl⟩ := hlast.mp hy
      have hx := (mtTime_mtLane r hx).2
      have hlt := l.isLt
      have hy : mtTime inst.lanes.toNat inst.threads.toNat (.join i) = 2 * inst.lanes.toNat + i := if_neg (by omega)
      omega
  · intro i l hmem
    rcases mem_append.mp hmem with hmem | hmem
    · obtain ⟨l', -, hmem⟩ := mem_flatMap.mp hmem
      rcases mem_mtLane.mp hmem with ⟨_, -, heq⟩ | heq
      · cases heq
      · cases heq
        rfl
    · obtain ⟨_, -, heq⟩ := hlast.mp hmem
      cases heq
  · exact fun i => mem_append_left _ (mem_flatMap.mpr ⟨i, mem_finRange i, mem_mtLane.mpr (Or.inr rfl)⟩)
  · intro i
    by_cases hlt : i + inst.threads.toNat < inst.lanes.toNat
    · exact mem_append_left _ (mem_flatMap.mpr ⟨⟨_, hlt⟩, mem_finRange _, mem_mtLane.mpr (Or.inl ⟨i, rfl, rfl⟩)⟩)
    · exact mem_append_right _ (hlast.mpr ⟨i, by omega, rfl⟩)
  · intro i
    change 2 * i.1 + 1 < if i.1 + inst.threads.toNat < inst.lanes.toNat then 2 * (i.1 + inst.threads.toNat)
      else 2 * inst.lanes.toNat + i.1
    split_ifs <;> omega

/-- The rounds of the main thread. -/
theorem roundsKeep_mt (h : inst.Valid) : RoundsKeep (fun _ : Fin inst.lanes.toNat => fillSegmentThr inst)
    (fun r i => laneStart inst r i) (mtCommands inst) (fun r i => laneReads inst r i) (fun r i => laneWrites inst r i)
    (fun r i => LaneWorker.Fills inst r i) (fun r i => fillSegment inst (segmentPosition r i))
    (finRange inst.lanes.toNat) where
  round := fun r => forkRound_mtCommands r h
  keeps := fun r i => keepsTo_fillSegmentThr h i.isLt
  apart := by
    intro r i j hij
    refine Set.disjoint_left.mpr fun x hwrites hreads => ?_
    rcases hreads with hlane | hslice
    · exact hij (Fin.ext (hwrites.1.symm.trans hlane))
    · exact hslice hwrites.2
  starts := fun r i => ⟨rfl, fun _ => at_segmentStart h (starts_segmentPosition r i i.isLt), fun hne => absurd rfl hne⟩
  alone := by
    intro r i m
    have hat := at_segmentStart h (starts_segmentPosition r i i.isLt)
    obtain ⟨l, hreach, hend⟩ := reaches_rounds (l := laneStart inst r i) h
      (starts_segmentPosition r i i.isLt) m rfl hat (Nat.add_sub_of_le hat.le)
    exact ⟨l, hreach, hend⟩
  ends := by
    intro r i l m hl
    have hstarts : l.position.Starts inst := hl.position ▸ starts_segmentPosition r i i.isLt
    by_cases hidle : l.steps = []
    · have hat := hl.idle hidle
      obtain ⟨l', hreach, hend⟩ := reaches_rounds h hstarts m hidle hat (Nat.add_sub_of_le hat.le)
      exact ⟨_, hreach, hend⟩
    · obtain ⟨hchosen, -⟩ := hl.busy hidle
      obtain ⟨l₁, hreach₁, hidle₁, hsegment, hposition⟩ := reaches_steps inst m hidle rfl
      have hat : l₁.segment.At inst l₁.position := by
        rw [hsegment, hposition]
        exact hchosen.next h hstarts
      obtain ⟨l', hreach, hend⟩ := reaches_rounds h (hposition ▸ hstarts)
        (l.steps.foldl l.run (l.fill m)).memory hidle₁ hat (Nat.add_sub_of_le hat.le)
      exact ⟨_, hreach₁.trans hreach, hend⟩
  nodup := nodup_finRange _
  all := mem_finRange

/-- The memory at the end of a run. -/
theorem mtMem_eq (h : inst.Valid) {memory : Argon2Memory}
    {c : ForkState (Fin inst.lanes.toNat) LaneWorker (ℕ × Fin 128) UInt64}
    (hrun : ReflTransGen (ForkStep fun _ => fillSegmentThr inst) (mtStart inst memory) c) (hend : c.commands = []) :
    c.mem = fillMemoryBlocksSt inst memory := by
  have hnonempty : Nonempty (Fin inst.lanes.toNat) := ⟨⟨0, h.lanes_pos⟩⟩
  refine ((fork_join (roundsKeep_mt h) rfl (fun _ => rfl) hrun).1 hend).trans ?_
  rw [fillMemoryBlocksSt]
  refine congrArg (fun f => (fillRounds inst).foldl f memory) ?_
  funext m r
  rw [roundAlone, ← map_coe_finRange_eq_range, foldl_map]

/-- A run can always go on to its end. -/
theorem mt_completes (h : inst.Valid) {memory : Argon2Memory}
    {c : ForkState (Fin inst.lanes.toNat) LaneWorker (ℕ × Fin 128) UInt64}
    (hrun : ReflTransGen (ForkStep fun _ => fillSegmentThr inst) (mtStart inst memory) c) :
    ∃ c', ReflTransGen (ForkStep fun _ => fillSegmentThr inst) c c' ∧ c'.commands = [] := by
  have hnonempty : Nonempty (Fin inst.lanes.toNat) := ⟨⟨0, h.lanes_pos⟩⟩
  exact (fork_join (roundsKeep_mt h) rfl (fun _ => rfl) hrun).2

/-- **The memory that the threads leave** is that of `fill_memory_blocks_st`, in whatever order they make their steps,
and they can always go on to their end. -/
theorem fillMemoryBlocksMt (h : inst.Valid) (memory : Argon2Memory)
    {c : ForkState (Fin inst.lanes.toNat) LaneWorker (ℕ × Fin 128) UInt64}
    (hrun : ReflTransGen (ForkStep fun _ => fillSegmentThr inst) (mtStart inst memory) c) :
    (c.commands = [] → c.mem = fillMemoryBlocksSt inst memory) ∧
      ∃ c', ReflTransGen (ForkStep fun _ => fillSegmentThr inst) c c' ∧ c'.commands = [] :=
  ⟨mtMem_eq h hrun, mt_completes h hrun⟩

/-- Two threads in two lanes. -/
theorem fillMemoryBlocksMt_smallInstance :
    ((mtStart smallInstance fun _ => 0).commands = [] →
        (mtStart smallInstance fun _ => 0).mem = fillMemoryBlocksSt smallInstance fun _ => 0) ∧
      ∃ c', ReflTransGen (ForkStep fun _ => fillSegmentThr smallInstance) (mtStart smallInstance fun _ => 0) c' ∧
        c'.commands = [] :=
  fillMemoryBlocksMt smallInstance_valid _ .refl

end Main

end RecoveryQt
