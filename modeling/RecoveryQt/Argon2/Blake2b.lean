import RecoveryQt.Lib.Blocks
import RecoveryQt.Lib.Codec
import Mathlib.Data.Vector.Defs

/-!
# BLAKE2b

The hash that Argon2 is built from.

* `Blake2bState`, `blake2bInit`, `blake2bCompress`, `blake2bUpdate`, `blake2bFinal`: the code;
* `blake2b`, `blake2bLong`: the hash of a message, and one of any length.
-/

namespace RecoveryQt

open List hiding Vector

/-! ## The state -/

/-- `blake2b_IV`. -/
def blake2bIV : Vector UInt64 8 := #v[
  0x6a09e667f3bcc908, 0xbb67ae8584caa73b, 0x3c6ef372fe94f82b, 0xa54ff53a5f1d36f1,
  0x510e527fade682d1, 0x9b05688c2b3e6c1f, 0x1f83d9abfb41bd6b, 0x5be0cd19137e2179]

/-- There are numbers of words, of which a block has 16. -/
theorem words_neZero : NeZero 16 := inferInstance

attribute [local instance] words_neZero

/-- `blake2b_sigma`. -/
def blake2bSigma : Vector (Vector (Fin 16) 16) 12 := #v[
  #v[0, 1, 2, 3, 4, 5, 6, 7, 8, 9, 10, 11, 12, 13, 14, 15],
  #v[14, 10, 4, 8, 9, 15, 13, 6, 1, 12, 0, 2, 11, 7, 5, 3],
  #v[11, 8, 12, 0, 5, 2, 15, 13, 10, 14, 3, 6, 7, 1, 9, 4],
  #v[7, 9, 3, 1, 13, 12, 11, 14, 2, 6, 5, 10, 4, 0, 15, 8],
  #v[9, 0, 5, 7, 2, 4, 10, 15, 14, 1, 11, 12, 6, 8, 3, 13],
  #v[2, 12, 6, 10, 0, 11, 8, 3, 4, 13, 7, 5, 15, 14, 1, 9],
  #v[12, 5, 1, 15, 14, 13, 4, 10, 0, 7, 6, 3, 9, 2, 8, 11],
  #v[13, 11, 7, 14, 12, 1, 3, 9, 5, 0, 15, 4, 8, 6, 2, 10],
  #v[6, 15, 14, 9, 11, 3, 0, 8, 12, 2, 13, 7, 1, 4, 10, 5],
  #v[10, 2, 8, 4, 7, 6, 1, 5, 15, 11, 9, 14, 3, 12, 13, 0],
  #v[0, 1, 2, 3, 4, 5, 6, 7, 8, 9, 10, 11, 12, 13, 14, 15],
  #v[14, 10, 4, 8, 9, 15, 13, 6, 1, 12, 0, 2, 11, 7, 5, 3]]

/-- `BLAKE2B_BLOCKBYTES`. -/
def blake2bBlockbytes : ℕ := 128

/-- `BLAKE2B_OUTBYTES`. -/
def blake2bOutbytes : ℕ := 64

/-- `blake2b_state`. -/
structure Blake2bState where
  h : Vector UInt64 8
  t : UInt64 × UInt64
  f : UInt64 × UInt64
  buf : ℕ → UInt8
  buflen : ℕ
  outlen : ℕ
  lastNode : Bool

/-- `load64`, from the first eight bytes. -/
def load64 (bytes : List UInt8) : UInt64 := UInt64.ofNat (leNat (bytes.take 8))

/-- `store64`. -/
def store64 (w : UInt64) : List UInt8 := leBytes 8 w.toNat

/-- `rotr64`. -/
def rotr64 (w c : UInt64) : UInt64 := (w >>> c) ||| (w <<< (64 - c))

/-- `blake2b_set_lastblock`, with `blake2b_set_lastnode`. -/
def blake2bSetLastblock (S : Blake2bState) : Blake2bState :=
  { S with f := (0xFFFFFFFFFFFFFFFF, if S.lastNode then 0xFFFFFFFFFFFFFFFF else S.f.2) }

/-- `blake2b_increment_counter`. -/
def blake2bIncrementCounter (S : Blake2bState) (inc : UInt64) : Blake2bState :=
  { S with t := (S.t.1 + inc, S.t.2 + if S.t.1 + inc < inc then 1 else 0) }

/-- The parameter block of `blake2b_init`: a digest without a key, in one node. -/
def blake2bParam (digestLength : UInt8) : List UInt8 := [digestLength, 0, 1, 1] ++ replicate 60 0

/-- `blake2b_init_param`. -/
def blake2bInitParam (digestLength : UInt8) : Blake2bState where
  h := Vector.ofFn fun i => blake2bIV[i] ^^^ load64 ((blake2bParam digestLength).drop (8 * i.1))
  t := (0, 0)
  f := (0, 0)
  buf := fun _ => 0
  buflen := 0
  outlen := digestLength.toNat
  lastNode := false

/-- `blake2b_init`, `none` for a failure. -/
def blake2bInit (outlen : ℕ) : Option Blake2bState :=
  if outlen = 0 ∨ outlen > blake2bOutbytes then none else some (blake2bInitParam (UInt8.ofNat outlen))

/-! ## Compression -/

/-- The macro `G`, with the two words of the message. -/
def blake2bG (x y : UInt64) (v : Vector UInt64 16) (a b c d : Fin 16) : Vector UInt64 16 :=
  let va := v[a] + v[b] + x
  let vd := rotr64 (v[d] ^^^ va) 32
  let vc := v[c] + vd
  let vb := rotr64 (v[b] ^^^ vc) 24
  let va := va + vb + y
  let vd := rotr64 (vd ^^^ va) 16
  let vc := vc + vd
  let vb := rotr64 (vb ^^^ vc) 63
  (((v.set a va).set d vd).set c vc).set b vb

/-- The macro `ROUND`. -/
def blake2bRound (m : Vector UInt64 16) (v : Vector UInt64 16) (sigma : Vector (Fin 16) 16) : Vector UInt64 16 :=
  let v := blake2bG m[sigma[0]] m[sigma[1]] v 0 4 8 12
  let v := blake2bG m[sigma[2]] m[sigma[3]] v 1 5 9 13
  let v := blake2bG m[sigma[4]] m[sigma[5]] v 2 6 10 14
  let v := blake2bG m[sigma[6]] m[sigma[7]] v 3 7 11 15
  let v := blake2bG m[sigma[8]] m[sigma[9]] v 0 5 10 15
  let v := blake2bG m[sigma[10]] m[sigma[11]] v 1 6 11 12
  let v := blake2bG m[sigma[12]] m[sigma[13]] v 2 7 8 13
  blake2bG m[sigma[14]] m[sigma[15]] v 3 4 9 14

/-- `blake2b_compress`. -/
def blake2bCompress (S : Blake2bState) (block : List UInt8) : Blake2bState :=
  let m : Vector UInt64 16 := Vector.ofFn fun i => load64 (block.drop (8 * i.1))
  let v : Vector UInt64 16 := S.h ++ #v[
    blake2bIV[0], blake2bIV[1], blake2bIV[2], blake2bIV[3],
    blake2bIV[4] ^^^ S.t.1, blake2bIV[5] ^^^ S.t.2, blake2bIV[6] ^^^ S.f.1, blake2bIV[7] ^^^ S.f.2]
  let v := blake2bSigma.toList.foldl (blake2bRound m) v
  { S with h := Vector.ofFn fun i => S.h[i] ^^^ v[i.1] ^^^ v[i.1 + 8] }

/-! ## Messages -/

/-- The loop of `blake2b_update`, which leaves one block at most: the state, and the bytes that are left. -/
def blake2bUpdateLoop (S : Blake2bState) (pin : List UInt8) : Blake2bState × List UInt8 :=
  if pin.length > blake2bBlockbytes then
    blake2bUpdateLoop (blake2bCompress (blake2bIncrementCounter S 128) (pin.take blake2bBlockbytes))
      (pin.drop blake2bBlockbytes)
  else (S, pin)
termination_by pin.length
decreasing_by
  rw [length_drop, blake2bBlockbytes] at *
  omega

/-- Bytes behind those of the buffer. -/
def Blake2bState.fill (S : Blake2bState) (bytes : List UInt8) : Blake2bState :=
  { S with buf := overwrite bytes S.buflen S.buf, buflen := S.buflen + bytes.length }

/-- The block in the buffer is completed and hashed. -/
def Blake2bState.complete (S : Blake2bState) (bytes : List UInt8) : Blake2bState :=
  let S := blake2bIncrementCounter { S with buf := overwrite bytes S.buflen S.buf } 128
  { blake2bCompress S (slice S.buf 0 blake2bBlockbytes) with buflen := 0 }

/-- `blake2b_update`, `none` for a failure. -/
def blake2bUpdate (S : Blake2bState) (pin : List UInt8) : Option Blake2bState :=
  if pin = [] then some S
  else if S.f.1 ≠ 0 then none
  else if S.buflen + pin.length > blake2bBlockbytes then
    let fill := blake2bBlockbytes - S.buflen
    let rest := blake2bUpdateLoop (S.complete (pin.take fill)) (pin.drop fill)
    some (rest.1.fill rest.2)
  else some (S.fill pin)

/-- `blake2b_final`: the digest, `none` for a failure. -/
def blake2bFinal (S : Blake2bState) (outlen : ℕ) : Option (List UInt8) :=
  if outlen < S.outlen then none
  else if S.f.1 ≠ 0 then none
  else
    let S := blake2bSetLastblock (blake2bIncrementCounter S (UInt64.ofNat S.buflen))
    let S := { S with buf := overwrite (replicate (blake2bBlockbytes - S.buflen) 0) S.buflen S.buf }
    let S := blake2bCompress S (slice S.buf 0 blake2bBlockbytes)
    some ((S.h.toList.flatMap store64).take S.outlen)

/-- `blake2b`, without a key. -/
def blake2b (outlen : ℕ) (message : List UInt8) : Option (List UInt8) := do
  let S ← blake2bInit outlen
  let S ← blake2bUpdate S message
  blake2bFinal S outlen

/-- The loop of `blake2b_long`. -/
def blake2bLongLoop (toproduce : ℕ) (outBuffer : List UInt8) : Option (List UInt8) :=
  if toproduce > blake2bOutbytes then
    (blake2b blake2bOutbytes outBuffer).bind fun outBuffer =>
      (blake2bLongLoop (toproduce - blake2bOutbytes / 2) outBuffer).map (outBuffer.take (blake2bOutbytes / 2) ++ ·)
  else blake2b toproduce outBuffer
termination_by toproduce
decreasing_by
  rw [blake2bOutbytes] at *
  omega

/-- `blake2b_long`. -/
def blake2bLong (outlen : ℕ) (message : List UInt8) : Option (List UInt8) :=
  if outlen > 0xFFFFFFFF then none
  else do
    let S ← blake2bInit (min outlen blake2bOutbytes)
    let S ← blake2bUpdate S (leBytes 4 outlen)
    let S ← blake2bUpdate S message
    let outBuffer ← blake2bFinal S (min outlen blake2bOutbytes)
    if outlen ≤ blake2bOutbytes then some outBuffer
    else
      let rest ← blake2bLongLoop (outlen - blake2bOutbytes / 2) outBuffer
      some (outBuffer.take (blake2bOutbytes / 2) ++ rest)

end RecoveryQt
