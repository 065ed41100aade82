import RecoveryQt.Argon2.Blake2b

/-!
# The memory of Argon2

Blocks of 1024 bytes in lanes, which are filled from one another.

* `Argon2Block`, `fillBlock`: a block from two others;
* `Argon2Instance`, `Argon2Position`, `indexAlpha`: the block that a block refers to;
* `SegmentState`, `segmentRound`, `fillSegment`: the blocks of a segment, one after the other;
* `fillMemoryBlocksSt`: all segments, without threads.
-/

namespace RecoveryQt

open List hiding Vector

/-! ## Blocks -/

/-- `block`. -/
abbrev Argon2Block := Vector UInt64 128

/-- `xor_block`: the block `dst` behind it. -/
def xorBlock (dst src : Argon2Block) : Argon2Block := Vector.ofFn fun i => dst[i] ^^^ src[i]

/-- A block with another word. -/
def setWord (b : Argon2Block) (w : Fin 128) (x : UInt64) : Argon2Block := b.set w x

/-- `load_block`. -/
def loadBlock (input : List UInt8) : Argon2Block := Vector.ofFn fun i => load64 (input.drop (8 * i.1))

/-- `store_block`. -/
def storeBlock (src : Argon2Block) : List UInt8 := src.toList.flatMap store64

/-- `fBlaMka`. -/
def fBlaMka (x y : UInt64) : UInt64 := x + y + 2 * ((x &&& 0xFFFFFFFF) * (y &&& 0xFFFFFFFF))

/-- The macro `G` of the permutation. -/
def blamkaG (v : Argon2Block) (a b c d : Fin 128) : Argon2Block :=
  let va := fBlaMka v[a] v[b]
  let vd := rotr64 (v[d] ^^^ va) 32
  let vc := fBlaMka v[c] vd
  let vb := rotr64 (v[b] ^^^ vc) 24
  let va := fBlaMka va vb
  let vd := rotr64 (vd ^^^ va) 16
  let vc := fBlaMka vc vd
  let vb := rotr64 (vb ^^^ vc) 63
  (((v.set a va).set d vd).set c vc).set b vb

attribute [local instance] words_neZero

/-- The macro `BLAKE2_ROUND_NOMSG`, with the places of its words. -/
def blake2RoundNomsg (v : Argon2Block) (w : Fin 16 → Fin 128) : Argon2Block :=
  let v := blamkaG v (w 0) (w 4) (w 8) (w 12)
  let v := blamkaG v (w 1) (w 5) (w 9) (w 13)
  let v := blamkaG v (w 2) (w 6) (w 10) (w 14)
  let v := blamkaG v (w 3) (w 7) (w 11) (w 15)
  let v := blamkaG v (w 0) (w 5) (w 10) (w 15)
  let v := blamkaG v (w 1) (w 6) (w 11) (w 12)
  let v := blamkaG v (w 2) (w 7) (w 8) (w 13)
  blamkaG v (w 3) (w 4) (w 9) (w 14)

/-- The words of a column: `16 * i`, `16 * i + 1` and so on. -/
def columnWords (i : Fin 8) (k : Fin 16) : Fin 128 := ⟨16 * i + k, by omega⟩

/-- The words of a row: `2 * i`, `2 * i + 1`, `2 * i + 16`, `2 * i + 17` and so on. -/
def rowWords (i : Fin 8) (k : Fin 16) : Fin 128 := ⟨2 * i + 16 * (k / 2) + k % 2, by omega⟩

/-- The two loops of `fill_block`. -/
def permuteBlock (blockR : Argon2Block) : Argon2Block :=
  let blockR := (finRange 8).foldl (fun v i => blake2RoundNomsg v (columnWords i)) blockR
  (finRange 8).foldl (fun v i => blake2RoundNomsg v (rowWords i)) blockR

/-- `fill_block`: the block `next_block` behind it. -/
def fillBlock (prevBlock refBlock nextBlock : Argon2Block) (withXor : Bool) : Argon2Block :=
  let blockR := xorBlock refBlock prevBlock
  let blockTmp := if withXor then xorBlock blockR nextBlock else blockR
  xorBlock blockTmp (permuteBlock blockR)

/-- `next_addresses`: `address_block` and `input_block`. -/
def nextAddresses (inputBlock : Argon2Block) : Argon2Block × Argon2Block :=
  let inputBlock := inputBlock.set 6 (inputBlock[6] + 1)
  let zeroBlock := Vector.replicate 128 0
  -- the block is not read before it is filled, with no `with_xor`
  let addressBlock := fillBlock zeroBlock inputBlock zeroBlock false
  (fillBlock zeroBlock addressBlock addressBlock false, inputBlock)

/-! ## Positions -/

/-- `ARGON2_SYNC_POINTS`. -/
def argon2SyncPoints : ℕ := 4

/-- `argon2_type`. -/
inductive Argon2Type where
  | d | i | id
  deriving DecidableEq

/-- The number of a type. -/
def Argon2Type.toUInt32 : Argon2Type → UInt32
  | .d => 0
  | .i => 1
  | .id => 2

/-- `argon2_instance_t`, without its memory. -/
structure Argon2Instance where
  version : UInt32
  passes : UInt32
  memoryBlocks : UInt32
  segmentLength : UInt32
  laneLength : UInt32
  lanes : UInt32
  threads : UInt32
  type : Argon2Type

/-- `argon2_position_t`. -/
structure Argon2Position where
  pass : UInt32
  lane : UInt32
  slice : UInt8
  index : UInt32

/-- The size of the area that `index_alpha` chooses from. -/
def referenceAreaSize (inst : Argon2Instance) (position : Argon2Position) (sameLane : Bool) : UInt32 :=
  if position.pass = 0 then
    if position.slice = 0 then position.index - 1
    else if sameLane then position.slice.toUInt32 * inst.segmentLength + position.index - 1
    else position.slice.toUInt32 * inst.segmentLength + if position.index = 0 then -1 else 0
  else if sameLane then inst.laneLength - inst.segmentLength + position.index - 1
  else inst.laneLength - inst.segmentLength + if position.index = 0 then -1 else 0

/-- The start of the area that `index_alpha` chooses from. -/
def startPosition (inst : Argon2Instance) (position : Argon2Position) : UInt32 :=
  if position.pass ≠ 0 then
    if position.slice.toNat = argon2SyncPoints - 1 then 0 else (position.slice.toUInt32 + 1) * inst.segmentLength
  else 0

/-- `index_alpha`. -/
def indexAlpha (inst : Argon2Instance) (position : Argon2Position) (pseudoRand : UInt32) (sameLane : Bool) : UInt32 :=
  let referenceAreaSize := referenceAreaSize inst position sameLane
  let relativePosition := pseudoRand.toUInt64
  let relativePosition := (relativePosition * relativePosition) >>> 32
  let relativePosition := (referenceAreaSize - 1).toUInt64 - ((referenceAreaSize.toUInt64 * relativePosition) >>> 32)
  (((startPosition inst position).toUInt64 + relativePosition) % inst.laneLength.toUInt64).toUInt32

/-! ## Segments -/

/-- The memory: the words of each block. -/
abbrev Argon2Memory := ℕ × Fin 128 → UInt64

/-- A block of the memory. -/
def readBlock (memory : Argon2Memory) (a : ℕ) : Argon2Block := Vector.ofFn fun i => memory (a, i)

/-- The memory behind a block that is written. -/
def writeBlock (memory : Argon2Memory) (a : ℕ) (b : Argon2Block) : Argon2Memory := fun x =>
  if x.1 = a then b[x.2] else memory x

/-- The variables of the loop of `fill_segment`. -/
structure SegmentState where
  i : UInt32
  currOffset : UInt32
  prevOffset : UInt32
  addressBlock : Argon2Block
  inputBlock : Argon2Block

variable (inst : Argon2Instance) (position : Argon2Position)

/-- `data_independent_addressing`. -/
def dataIndependentAddressing : Bool :=
  inst.type = .i || inst.type = .id && position.pass = 0 && position.slice.toNat < argon2SyncPoints / 2

/-- The words of `input_block` at the start of `fill_segment`. -/
def segmentInput : Argon2Block :=
  (((((((Vector.replicate 128 0).set 0 position.pass.toUInt64).set 1 position.lane.toUInt64).set 2
    position.slice.toUInt64).set 3 inst.memoryBlocks.toUInt64).set 4 inst.passes.toUInt64).set 5
      inst.type.toUInt32.toUInt64)

/-- `starting_index`. -/
def startingIndex : UInt32 := if position.pass = 0 ∧ position.slice = 0 then 2 else 0

/-- `fill_segment` in front of its loop. -/
def segmentStart : SegmentState :=
  let addresses :=
    if dataIndependentAddressing inst position && position.pass = 0 && position.slice = 0 then
      nextAddresses (segmentInput inst position)
    else (Vector.replicate 128 0, segmentInput inst position)
  let currOffset := position.lane * inst.laneLength + position.slice.toUInt32 * inst.segmentLength +
    startingIndex position
  { i := startingIndex position
    currOffset
    prevOffset := if currOffset % inst.laneLength = 0 then currOffset + inst.laneLength - 1 else currOffset - 1
    addressBlock := addresses.1
    inputBlock := addresses.2 }

/-- What is chosen for a block: the state with its own offsets and addresses, and the offset of the block that it
refers to. -/
def segmentAddress (memory : Argon2Memory) (s : SegmentState) : SegmentState × ℕ :=
  let prevOffset := if s.currOffset % inst.laneLength = 1 then s.currOffset - 1 else s.prevOffset
  let addresses :=
    if dataIndependentAddressing inst position && s.i.toNat % 128 = 0 then nextAddresses s.inputBlock
    else (s.addressBlock, s.inputBlock)
  let pseudoRand :=
    if dataIndependentAddressing inst position then addresses.1[s.i.toNat % 128]
    else memory (prevOffset.toNat, 0)
  let refLane :=
    if position.pass = 0 ∧ position.slice = 0 then position.lane.toUInt64
    else (pseudoRand >>> 32) % inst.lanes.toUInt64
  let refIndex := indexAlpha inst { position with index := s.i } pseudoRand.toUInt32 (refLane = position.lane.toUInt64)
  ({ s with prevOffset, addressBlock := addresses.1, inputBlock := addresses.2 },
    (inst.laneLength.toUInt64 * refLane + refIndex.toUInt64).toNat)

/-- Whether a block is xored over the one that was there. -/
def withXor : Bool := inst.version ≠ 0x10 && position.pass ≠ 0

/-- One block more. -/
def SegmentState.next (s : SegmentState) : SegmentState :=
  { s with i := s.i + 1, currOffset := s.currOffset + 1, prevOffset := s.prevOffset + 1 }

/-- A round of the loop of `fill_segment`. -/
def segmentRound (s : SegmentState × Argon2Memory) : SegmentState × Argon2Memory :=
  let chosen := segmentAddress inst position s.2 s.1
  let block := fillBlock (readBlock s.2 chosen.1.prevOffset.toNat) (readBlock s.2 chosen.2)
    (readBlock s.2 chosen.1.currOffset.toNat) (withXor inst position)
  (chosen.1.next, writeBlock s.2 chosen.1.currOffset.toNat block)

/-- `fill_segment`: the memory behind it. -/
def fillSegment (memory : Argon2Memory) : Argon2Memory :=
  ((segmentRound inst position)^[inst.segmentLength.toNat - (startingIndex position).toNat]
    (segmentStart inst position, memory)).2

/-- The position that the segment of a lane starts at, in a pass and a slice. -/
def segmentPosition (r : ℕ × Fin argon2SyncPoints) (lane : ℕ) : Argon2Position :=
  ⟨UInt32.ofNat r.1, UInt32.ofNat lane, UInt8.ofNat r.2, 0⟩

/-- The passes and slices of `fill_memory_blocks_st` and `fill_memory_blocks_mt`, in their order. -/
def fillRounds : List (ℕ × Fin argon2SyncPoints) :=
  (List.range inst.passes.toNat).flatMap fun pass => (finRange argon2SyncPoints).map (pass, ·)

/-- `fill_memory_blocks_st`. -/
def fillMemoryBlocksSt (memory : Argon2Memory) : Argon2Memory :=
  (fillRounds inst).foldl (fun memory r =>
    (List.range inst.lanes.toNat).foldl (fun memory lane => fillSegment inst (segmentPosition r lane) memory) memory)
    memory

end RecoveryQt
