import RecoveryQt.Argon2.Fill

/-!
# Argon2

The hash of a password, with its inputs checked.

* `Argon2Bytes`, `Argon2Context`, `validateInputs`: the inputs;
* `initialHash`, `fillFirstBlocks`, `finalize`: what is hashed before and after the memory is filled;
* `argon2Instance`, `argon2Initialize`, `argon2CtxSt`: `argon2_ctx`, without threads;
* `argon2HashContext`, `argon2Hash`: `argon2_hash`.
-/

namespace RecoveryQt

open List hiding Vector

/-! ## The inputs -/

/-- A pointer with the length of what it points to. -/
structure Argon2Bytes where
  bytes : Option (List UInt8)
  len : UInt32
  length_eq : ∀ b ∈ bytes, b.length = len.toNat

/-- `argon2_context`, with an output that is there, without the callbacks and with no flag. -/
structure Argon2Context where
  outlen : UInt32
  pwd : Argon2Bytes
  salt : Argon2Bytes
  secret : Argon2Bytes
  ad : Argon2Bytes
  tCost : UInt32
  mCost : UInt32
  lanes : UInt32
  threads : UInt32
  version : UInt32

/-- `argon2_error_codes`, those of the inputs. -/
inductive Argon2Error where
  | outputTooShort | outputTooLong
  | pwdTooLong | pwdPtrMismatch
  | saltTooShort | saltTooLong | saltPtrMismatch
  | secretPtrMismatch | adPtrMismatch
  | timeTooSmall
  | memoryTooLittle
  | lanesTooFew | lanesTooMany
  | threadsTooFew | threadsTooMany
  deriving DecidableEq

/-- A length with no bytes. -/
def Argon2Bytes.Mismatch (b : Argon2Bytes) : Prop := b.bytes = none ∧ b.len ≠ 0

instance (b : Argon2Bytes) : Decidable b.Mismatch := inferInstanceAs (Decidable (_ ∧ _))

/-- `validate_inputs`: the first error. The bounds that no 32-bit number passes are left out. -/
def validateInputs (context : Argon2Context) : Except Argon2Error Unit :=
  if context.outlen < 4 then .error .outputTooShort
  else if context.pwd.Mismatch then .error .pwdPtrMismatch
  else if context.salt.Mismatch then .error .saltPtrMismatch
  else if context.salt.len < 8 then .error .saltTooShort
  else if context.secret.Mismatch then .error .secretPtrMismatch
  else if context.ad.Mismatch then .error .adPtrMismatch
  else if context.mCost < 8 then .error .memoryTooLittle
  else if context.mCost < 8 * context.lanes then .error .memoryTooLittle
  else if context.tCost < 1 then .error .timeTooSmall
  else if context.lanes < 1 then .error .lanesTooFew
  else if context.lanes > 0xFFFFFF then .error .lanesTooMany
  else if context.threads < 1 then .error .threadsTooFew
  else if context.threads > 0xFFFFFF then .error .threadsTooMany
  else .ok ()

/-! ## Before and after -/

/-- `store32`. -/
def store32 (w : UInt32) : List UInt8 := leBytes 4 w.toNat

/-- The calls of `blake2b_update` in `initial_hash`. -/
def initialPieces (context : Argon2Context) (type : Argon2Type) : List (List UInt8) :=
  [context.lanes, context.outlen, context.mCost, context.tCost, context.version, type.toUInt32].map store32 ++
    [context.pwd, context.salt, context.secret, context.ad].flatMap fun b => store32 b.len :: b.bytes.toList

/-- `initial_hash`. -/
def initialHash (context : Argon2Context) (type : Argon2Type) : List UInt8 :=
  ((blake2bInit 64 >>= (initialPieces context type).foldlM blake2bUpdate >>= (blake2bFinal · 64))).getD []

/-- A round of `fill_first_blocks`. -/
def firstBlocksRound (blockhash : List UInt8) (inst : Argon2Instance) (memory : Argon2Memory) (l : ℕ) : Argon2Memory :=
  let first (i : UInt32) := loadBlock ((blake2bLong 1024 (blockhash ++ store32 i ++ store32 (UInt32.ofNat l))).getD [])
  let a := (UInt32.ofNat l * inst.laneLength).toNat
  writeBlock (writeBlock memory a (first 0)) (a + 1) (first 1)

/-- `fill_first_blocks`. -/
def fillFirstBlocks (blockhash : List UInt8) (inst : Argon2Instance) (memory : Argon2Memory) : Argon2Memory :=
  (List.range inst.lanes.toNat).foldl (firstBlocksRound blockhash inst) memory

/-- `finalize`. -/
def finalize (outlen : UInt32) (inst : Argon2Instance) (memory : Argon2Memory) : List UInt8 :=
  let blockhash := (List.range (inst.lanes.toNat - 1)).foldl (fun b l =>
    xorBlock b (readBlock memory (UInt32.ofNat (l + 1) * inst.laneLength + (inst.laneLength - 1)).toNat))
      (readBlock memory (inst.laneLength - 1).toNat)
  (blake2bLong outlen.toNat (storeBlock blockhash)).getD []

/-! ## The hash -/

/-- The instance of `argon2_ctx`. -/
def argon2Instance (context : Argon2Context) (type : Argon2Type) : Argon2Instance :=
  let memoryBlocks := if context.mCost < 8 * context.lanes then 8 * context.lanes else context.mCost
  let segmentLength := memoryBlocks / (context.lanes * 4)
  { version := context.version
    passes := context.tCost
    memoryBlocks := segmentLength * (context.lanes * 4)
    segmentLength
    laneLength := segmentLength * 4
    lanes := context.lanes
    threads := if context.threads > context.lanes then context.lanes else context.threads
    type }

/-- `initialize`: the memory behind it, for what was allocated. -/
def argon2Initialize (context : Argon2Context) (type : Argon2Type) (memory : Argon2Memory) : Argon2Memory :=
  fillFirstBlocks (initialHash context type) (argon2Instance context type) memory

/-- `argon2_ctx` without threads, for what was allocated. -/
def argon2CtxSt (context : Argon2Context) (type : Argon2Type) (memory : Argon2Memory) : Except Argon2Error (List UInt8) := do
  validateInputs context
  let inst := argon2Instance context type
  pure (finalize context.outlen inst (fillMemoryBlocksSt inst (argon2Initialize context type memory)))

/-- A pointer to bytes that are there. -/
def Argon2Bytes.ofList (b : List UInt8) (h : b.length < 2 ^ 32) : Argon2Bytes where
  bytes := some b
  len := UInt32.ofNat b.length
  length_eq := by
    intro b' hb'
    rw [← Option.mem_some_iff.mp hb', UInt32.toNat_ofNat', Nat.mod_eq_of_lt h]

/-- A null pointer. -/
def Argon2Bytes.null : Argon2Bytes := ⟨none, 0, fun _ h => absurd h (Option.not_mem_none _)⟩

/-- The context that `argon2_hash` fills. -/
def argon2HashContext (tCost mCost parallelism : UInt32) (pwd salt : Argon2Bytes) (hashlen : ℕ) (version : UInt32) :
    Argon2Context where
  outlen := UInt32.ofNat hashlen
  pwd
  salt
  secret := .null
  ad := .null
  tCost
  mCost
  lanes := parallelism
  threads := parallelism
  version

/-- `argon2_hash` without the text form of the hash, for what was allocated. -/
def argon2Hash (tCost mCost parallelism : UInt32) (pwd salt : List UInt8) (hashlen : ℕ) (type : Argon2Type)
    (version : UInt32) (memory : Argon2Memory) : Except Argon2Error (List UInt8) :=
  if hpwd : pwd.length > 0xFFFFFFFF then .error .pwdTooLong
  else if hsalt : salt.length > 0xFFFFFFFF then .error .saltTooLong
  else if hashlen > 0xFFFFFFFF then .error .outputTooLong
  else if hashlen < 4 then .error .outputTooShort
  else argon2CtxSt (argon2HashContext tCost mCost parallelism (.ofList pwd (Nat.lt_of_not_le hpwd))
    (.ofList salt (Nat.lt_of_not_le hsalt)) hashlen version) type memory

end RecoveryQt
