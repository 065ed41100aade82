import RecoveryQt.Argon2.Blake2b
import RecoveryQt.Lib.Blocks
import Mathlib.Tactic.Ring

/-!
# Messages in pieces

* `blake2bCounter`, `blake2bF`, `blake2bChain`, `blake2bDigest`: the hash of a whole message, block by block;
* `Blake2bState.Holds`: the state after a message; `Blake2bState.Holds.update`: one more piece;
* **`blake2bUpdate_pieces`**: the digest of a message in pieces is that of the whole message;
* **`blake2bLong_eq`**: the hash of any length is a chain of digests, and it has that length.
-/

namespace RecoveryQt

open List hiding Vector

/-! ## The hash of a message -/

/-- The number of bytes hashed so far, in two words. -/
def blake2bCounter (n : ℕ) : UInt64 × UInt64 := (UInt64.ofNat n, UInt64.ofNat (n / 2 ^ 64))

/-- The words of the chain behind a block: `n` bytes are hashed with it, and perhaps it is the last one. -/
def blake2bF (h : Vector UInt64 8) (block : List UInt8) (n : ℕ) (last : Bool) : Vector UInt64 8 :=
  (blake2bCompress ⟨h, blake2bCounter n, (if last then 0xFFFFFFFFFFFFFFFF else 0, 0), fun _ => 0, 0, 0, false⟩ block).h

/-- The words of the chain behind whole blocks. -/
def blake2bChain (h : Vector UInt64 8) (blocks : List (List UInt8)) : Vector UInt64 8 :=
  blocks.zipIdx.foldl (fun h b => blake2bF h b.1 (128 * (b.2 + 1)) false) h

/-- The digest of a message: its blocks, the last one filled up with zeros. -/
def blake2bDigest (outlen : ℕ) (message : List UInt8) : List UInt8 :=
  let cut := cutBlocks blake2bBlockbytes message
  let h := blake2bChain (blake2bInitParam (UInt8.ofNat outlen)).h cut.1
  ((blake2bF h (cut.2 ++ replicate (128 - cut.2.length) 0) message.length true).toList.flatMap store64).take outlen

/-! ## The state after a message -/

/-- The chain of the state `S` is behind the blocks. -/
structure Blake2bState.Chained (outlen : ℕ) (blocks : List (List UInt8)) (S : Blake2bState) : Prop where
  h : S.h = blake2bChain (blake2bInitParam (UInt8.ofNat outlen)).h blocks
  t : S.t = blake2bCounter (128 * blocks.length)
  f : S.f = (0, 0)
  outlen_eq : S.outlen = outlen
  lastNode : S.lastNode = false

/-- The state `S` is that after the message, of which it holds what is left behind the blocks. -/
structure Blake2bState.Holds (outlen : ℕ) (message : List UInt8) (S : Blake2bState) : Prop where
  chained : S.Chained outlen (cutBlocks blake2bBlockbytes message).1
  buflen : S.buflen = (cutBlocks blake2bBlockbytes message).2.length
  buf : slice S.buf 0 S.buflen = (cutBlocks blake2bBlockbytes message).2

theorem blake2bIncrementCounter_t {S : Blake2bState} {n inc : ℕ} (h : S.t = blake2bCounter n) (hinc : inc < 2 ^ 64) :
    (blake2bIncrementCounter S (UInt64.ofNat inc)).t = blake2bCounter (n + inc) := by
  have hlow : UInt64.ofNat n + UInt64.ofNat inc = UInt64.ofNat (n + inc) := (UInt64.ofNat_add ..).symm
  have hlt : UInt64.ofNat (n + inc) < UInt64.ofNat inc ↔ (n + inc) % 2 ^ 64 < inc := by
    rw [UInt64.lt_iff_toNat_lt, UInt64.toNat_ofNat', UInt64.toNat_ofNat', Nat.mod_eq_of_lt hinc]
  rw [blake2bIncrementCounter, h, blake2bCounter, blake2bCounter]
  simp only [hlow, Prod.mk.injEq, true_and]
  by_cases hcarry : UInt64.ofNat (n + inc) < UInt64.ofNat inc
  · have hdiv : (n + inc) / 2 ^ 64 = n / 2 ^ 64 + 1 := by
      have := hlt.mp hcarry
      omega
    rw [if_pos hcarry, hdiv, UInt64.ofNat_add]
    rfl
  · have hdiv : (n + inc) / 2 ^ 64 = n / 2 ^ 64 := by
      have := mt hlt.mpr hcarry
      omega
    rw [if_neg hcarry, hdiv, UInt64.add_zero]

/-- Compression reads the words of the chain, the counter and the flags. -/
theorem blake2bCompress_congr {S : Blake2bState} {h : Vector UInt64 8} {t f : UInt64 × UInt64} (hh : S.h = h) (ht : S.t = t)
    (hf : S.f = f) (block : List UInt8) :
    (blake2bCompress S block).h = (blake2bCompress ⟨h, t, f, fun _ => 0, 0, 0, false⟩ block).h := by
  subst hh ht hf
  rfl

/-- A block in the middle of a message. -/
theorem blake2bCompress_h {S : Blake2bState} {n : ℕ} (ht : S.t = blake2bCounter n) (hf : S.f = (0, 0))
    (block : List UInt8) : (blake2bCompress (blake2bIncrementCounter S 128) block).h = blake2bF S.h block (n + 128) false := by
  have hcounter : (blake2bIncrementCounter S 128).t = blake2bCounter (n + 128) :=
    blake2bIncrementCounter_t ht (by decide)
  rw [blake2bF, if_neg Bool.false_ne_true]
  exact blake2bCompress_congr rfl hcounter hf block

theorem blake2bChain_append (h : Vector UInt64 8) (blocks : List (List UInt8)) (block : List UInt8) :
    blake2bChain h (blocks ++ [block]) = blake2bF (blake2bChain h blocks) block (128 * (blocks.length + 1)) false := by
  rw [blake2bChain, zipIdx_append, foldl_append]
  simp [blake2bChain]

section Stream

variable {outlen : ℕ} {S : Blake2bState} {blocks : List (List UInt8)} {message pin : List UInt8}

/-- The chain goes on, whatever is in the buffer. -/
theorem Blake2bState.Chained.congr {S' : Blake2bState} (h : S.Chained outlen blocks) (hh : S'.h = S.h) (ht : S'.t = S.t)
    (hf : S'.f = S.f) (hout : S'.outlen = S.outlen) (hnode : S'.lastNode = S.lastNode) : S'.Chained outlen blocks :=
  ⟨hh.trans h.h, ht.trans h.t, hf.trans h.f, hout.trans h.outlen_eq, hnode.trans h.lastNode⟩

theorem Blake2bState.Chained.compress (h : S.Chained outlen blocks) (block : List UInt8) :
    (blake2bCompress (blake2bIncrementCounter S 128) block).Chained outlen (blocks ++ [block]) := by
  refine ⟨?_, ?_, h.f, h.outlen_eq, h.lastNode⟩
  · rw [blake2bCompress_h h.t h.f, h.h, blake2bChain_append, Nat.mul_succ]
  · have ht : (blake2bIncrementCounter S 128).t = blake2bCounter (128 * blocks.length + 128) :=
      blake2bIncrementCounter_t h.t (by decide)
    rw [length_append, length_singleton, Nat.mul_succ]
    exact ht

/-- The loop hashes the blocks of what is left, and leaves the buffer. -/
theorem blake2bUpdateLoop_chained (h : S.Chained outlen blocks) (pin : List UInt8) :
    (blake2bUpdateLoop S pin).1.Chained outlen (blocks ++ (cutBlocks blake2bBlockbytes pin).1) ∧
      (blake2bUpdateLoop S pin).1.buflen = S.buflen ∧ (blake2bUpdateLoop S pin).1.buf = S.buf ∧
      (blake2bUpdateLoop S pin).2 = (cutBlocks blake2bBlockbytes pin).2 := by
  induction S, pin using blake2bUpdateLoop.induct generalizing blocks with
  | case1 S pin hlong ih =>
    obtain ⟨hchained, hbuflen, hbuf, hrest⟩ := ih (h.compress _)
    rw [blake2bUpdateLoop, if_pos hlong, cutBlocks_of_lt (by decide) hlong]
    rw [append_assoc, singleton_append] at hchained
    exact ⟨hchained, hbuflen, hbuf, hrest⟩
  | case2 S pin hshort =>
    rw [blake2bUpdateLoop, if_neg hshort, cutBlocks_of_le (Nat.le_of_not_lt hshort)]
    exact ⟨by rwa [append_nil], rfl, rfl, rfl⟩

/-- A state without a message. -/
theorem holds_initParam (h : outlen < 256) : (blake2bInitParam (UInt8.ofNat outlen)).Holds outlen [] := by
  have hcut : cutBlocks blake2bBlockbytes ([] : List UInt8) = ([], []) := cutBlocks_of_le (Nat.zero_le _)
  have hout : (UInt8.ofNat outlen).toNat = outlen := (UInt8.toNat_ofNat' ..).trans (Nat.mod_eq_of_lt h)
  refine ⟨⟨?_, ?_, rfl, hout, rfl⟩, ?_, ?_⟩ <;> rw [hcut] <;> rfl

/-- Bytes behind those of the buffer. -/
theorem slice_buffer (S : Blake2bState) (bytes : List UInt8) :
    slice (overwrite bytes S.buflen S.buf) 0 (S.buflen + bytes.length) = slice S.buf 0 S.buflen ++ bytes := by
  rw [slice_add, slice_overwrite_of_disjoint (Or.inl (Nat.le_of_eq (Nat.zero_add _))), Nat.zero_add, slice_overwrite rfl]

/-- The block in the buffer is hashed when it is complete. -/
theorem Blake2bState.Chained.complete (h : S.Chained outlen blocks) {bytes : List UInt8}
    (hlength : S.buflen + bytes.length = blake2bBlockbytes) :
    (S.complete bytes).Chained outlen (blocks ++ [slice S.buf 0 S.buflen ++ bytes]) := by
  have hblock := slice_buffer S bytes
  rw [hlength] at hblock
  have hwritten : Blake2bState.Chained outlen blocks { S with buf := overwrite bytes S.buflen S.buf } :=
    h.congr rfl rfl rfl rfl rfl
  have hstep := hwritten.compress (slice (overwrite bytes S.buflen S.buf) 0 blake2bBlockbytes)
  rw [hblock] at hstep
  refine hstep.congr ?_ ?_ ?_ ?_ ?_ <;> rw [Blake2bState.complete, ← hblock] <;> rfl

/-- What is left of a message goes in the buffer. -/
theorem Blake2bState.Chained.holds_fill {rest : List UInt8} (h : S.Chained outlen (cutBlocks blake2bBlockbytes message).1)
    (hcut : slice S.buf 0 S.buflen ++ rest = (cutBlocks blake2bBlockbytes message).2) : (S.fill rest).Holds outlen message := by
  refine ⟨h.congr rfl rfl rfl rfl rfl, ?_, ?_⟩
  · rw [← hcut, length_append, length_slice]
    rfl
  · rw [← hcut, ← slice_buffer]
    rfl

/-- **One more piece of the message.** -/
theorem Blake2bState.Holds.update (h : S.Holds outlen message) (pin : List UInt8) :
    ∃ S', blake2bUpdate S pin = some S' ∧ S'.Holds outlen (message ++ pin) := by
  obtain ⟨hchained, hbuflen, hbuf⟩ := h
  by_cases hpin : pin = []
  · refine ⟨S, by rw [blake2bUpdate, if_pos hpin], ?_⟩
    rw [hpin, append_nil]
    exact ⟨hchained, hbuflen, hbuf⟩
  have hf : ¬ S.f.1 ≠ 0 := by
    rw [hchained.f]
    exact not_not.mpr rfl
  have hrest := (cutBlocks_rest (n := blake2bBlockbytes) (by decide) message).1
  -- the message begins with the blocks that are hashed already
  have hcut : cutBlocks blake2bBlockbytes (message ++ pin) =
      ((cutBlocks blake2bBlockbytes message).1 ++ (cutBlocks blake2bBlockbytes (slice S.buf 0 S.buflen ++ pin)).1,
        (cutBlocks blake2bBlockbytes (slice S.buf 0 S.buflen ++ pin)).2) := by
    rw [hbuf, ← cutBlocks_append (by decide) (cutBlocks_blocks _ message) (append_ne_nil_of_right_ne_nil _ hpin),
      ← append_assoc, flatten_cutBlocks]
  rw [blake2bUpdate, if_neg hpin, if_neg hf]
  by_cases hlong : S.buflen + pin.length > blake2bBlockbytes
  · obtain ⟨fill, hfill⟩ : ∃ fill, fill = blake2bBlockbytes - S.buflen := ⟨_, rfl⟩
    have hlength : S.buflen + (pin.take fill).length = blake2bBlockbytes := by
      rw [length_take_of_le (by omega)]
      omega
    have hsplit : cutBlocks blake2bBlockbytes (slice S.buf 0 S.buflen ++ pin) =
        ((slice S.buf 0 S.buflen ++ pin.take fill) :: (cutBlocks blake2bBlockbytes (pin.drop fill)).1,
          (cutBlocks blake2bBlockbytes (pin.drop fill)).2) := by
      have hwhole : (slice S.buf 0 S.buflen ++ pin.take fill).length = blake2bBlockbytes := by
        rw [length_append, length_slice, hlength]
      have hparts : slice S.buf 0 S.buflen ++ pin = (slice S.buf 0 S.buflen ++ pin.take fill) ++ pin.drop fill := by
        rw [append_assoc, take_append_drop]
      rw [cutBlocks_of_lt (by decide) (by rw [length_append, length_slice]; exact hlong), hparts, take_left' hwhole,
        drop_left' hwhole]
    obtain ⟨hloop, hempty, -, hleft⟩ := blake2bUpdateLoop_chained (hchained.complete hlength) (pin.drop fill)
    rw [if_pos hlong, ← hfill]
    refine ⟨_, rfl, Blake2bState.Chained.holds_fill ?_ ?_⟩
    · rw [hcut, hsplit]
      rwa [append_assoc, singleton_append] at hloop
    · rw [hcut, hsplit, hempty, hleft]
      rfl
  · rw [if_neg hlong]
    have hsplit : cutBlocks blake2bBlockbytes (slice S.buf 0 S.buflen ++ pin) = ([], slice S.buf 0 S.buflen ++ pin) :=
      cutBlocks_of_le (by rw [length_append, length_slice]; omega)
    refine ⟨_, rfl, Blake2bState.Chained.holds_fill ?_ ?_⟩
    · rwa [hcut, hsplit, append_nil]
    · rw [hcut, hsplit]

/-- **The end of the message.** -/
theorem Blake2bState.Holds.final (h : S.Holds outlen message) {n : ℕ} (hn : outlen ≤ n) :
    blake2bFinal S n = some (blake2bDigest outlen message) := by
  obtain ⟨hchained, hbuflen, hbuf⟩ := h
  have hf : ¬ S.f.1 ≠ 0 := by
    rw [hchained.f]
    exact not_not.mpr rfl
  have hrest := (cutBlocks_rest (n := blake2bBlockbytes) (by decide) message).1
  have ht : (blake2bIncrementCounter S (UInt64.ofNat S.buflen)).t = blake2bCounter message.length := by
    rw [blake2bIncrementCounter_t hchained.t (by rw [hbuflen]; exact Nat.lt_of_le_of_lt hrest (by decide)), hbuflen,
      ← length_cutBlocks blake2bBlockbytes message]
    rfl
  -- the rest is filled up with zeros
  have hblock : slice (overwrite (replicate (blake2bBlockbytes - S.buflen) 0) S.buflen S.buf) 0 blake2bBlockbytes =
      (cutBlocks blake2bBlockbytes message).2 ++ replicate (128 - (cutBlocks blake2bBlockbytes message).2.length) 0 := by
    have hslice := slice_buffer S (replicate (blake2bBlockbytes - S.buflen) 0)
    rw [length_replicate, Nat.add_sub_of_le (by rw [hbuflen]; exact hrest), hbuf, hbuflen] at hslice
    rw [hbuflen]
    exact hslice
  have hlast : (blake2bSetLastblock (blake2bIncrementCounter S (UInt64.ofNat S.buflen))).f = (0xFFFFFFFFFFFFFFFF, 0) := by
    have hnode : (blake2bIncrementCounter S (UInt64.ofNat S.buflen)).lastNode = false := hchained.lastNode
    have hzero : (blake2bIncrementCounter S (UInt64.ofNat S.buflen)).f = (0, 0) := hchained.f
    rw [blake2bSetLastblock, hnode, hzero]
    rfl
  have hh : (blake2bIncrementCounter S (UInt64.ofNat S.buflen)).h =
      blake2bChain (blake2bInitParam (UInt8.ofNat outlen)).h (cutBlocks blake2bBlockbytes message).1 := hchained.h
  rw [blake2bFinal, if_neg (Nat.not_lt.mpr (hchained.outlen_eq.trans_le hn)), if_neg hf, blake2bDigest, blake2bF,
    ← hh, ← ht, ← hblock, if_pos rfl, ← hlast]
  exact congrArg (fun n => some (take n _)) hchained.outlen_eq

/-- Piece by piece. -/
theorem Blake2bState.Holds.pieces (h : S.Holds outlen message) (pieces : List (List UInt8)) :
    ∃ S', pieces.foldlM blake2bUpdate S = some S' ∧ S'.Holds outlen (message ++ pieces.flatten) := by
  induction pieces generalizing S message with
  | nil => exact ⟨S, rfl, by rwa [flatten_nil, append_nil]⟩
  | cons pin pieces ih =>
    obtain ⟨S₁, hS₁, h₁⟩ := h.update pin
    obtain ⟨S₂, hS₂, h₂⟩ := ih h₁
    refine ⟨S₂, ?_, ?_⟩
    · rw [foldlM_cons, hS₁]
      exact hS₂
    · rwa [flatten_cons, ← append_assoc]

end Stream

/-! ## Whole messages -/

section Whole

variable {outlen : ℕ}

theorem blake2bInit_eq (hpos : 1 ≤ outlen) (h : outlen ≤ 64) :
    blake2bInit outlen = some (blake2bInitParam (UInt8.ofNat outlen)) := by
  rw [blake2bInit, if_neg]
  rintro (hzero | hlarge)
  · exact absurd hzero (Nat.one_le_iff_ne_zero.mp hpos)
  · exact absurd hlarge (Nat.not_lt.mpr h)

/-- The state after pieces of a message. -/
theorem holds_pieces (h : outlen ≤ 64) (pieces : List (List UInt8)) :
    ∃ S, pieces.foldlM blake2bUpdate (blake2bInitParam (UInt8.ofNat outlen)) = some S ∧ S.Holds outlen pieces.flatten :=
  (holds_initParam (Nat.lt_of_le_of_lt h (by decide))).pieces pieces

/-- The digest at once. -/
theorem blake2b_eq (hpos : 1 ≤ outlen) (h : outlen ≤ 64) (message : List UInt8) :
    blake2b outlen message = some (blake2bDigest outlen message) := by
  obtain ⟨S, hS, hholds⟩ := (holds_initParam (Nat.lt_of_le_of_lt h (by decide))).update message
  rw [blake2b, blake2bInit_eq hpos h]
  change (blake2bUpdate _ message).bind _ = _
  rw [hS]
  exact hholds.final le_rfl

/-- **The digest of a message in pieces is that of the whole message**, which is its hash block by block. -/
theorem blake2bUpdate_pieces (hpos : 1 ≤ outlen) (h : outlen ≤ 64) (pieces : List (List UInt8)) :
    (blake2bInit outlen >>= pieces.foldlM blake2bUpdate >>= (blake2bFinal · outlen)) =
        some (blake2bDigest outlen pieces.flatten) ∧
      blake2b outlen pieces.flatten = some (blake2bDigest outlen pieces.flatten) := by
  obtain ⟨S, hS, hholds⟩ := holds_pieces h pieces
  refine ⟨?_, blake2b_eq hpos h _⟩
  rw [blake2bInit_eq hpos h]
  change (foldlM blake2bUpdate _ pieces).bind _ = _
  rw [hS]
  exact hholds.final le_rfl

/-- A message of 200 bytes, in pieces of 3, 0, 125, 1 and 71 bytes. -/
theorem blake2bUpdate_pieces_five :
    (blake2bInit 64 >>= [replicate 3 1, [], replicate 125 2, [3], replicate 71 4].foldlM blake2bUpdate >>=
        (blake2bFinal · 64)) =
          some (blake2bDigest 64 [replicate 3 1, [], replicate 125 2, [3], replicate 71 4].flatten) ∧
      blake2b 64 [replicate 3 1, [], replicate 125 2, [3], replicate 71 4].flatten =
        some (blake2bDigest 64 [replicate 3 1, [], replicate 125 2, [3], replicate 71 4].flatten) :=
  blake2bUpdate_pieces (by decide) (by decide) _

/-! ## Digests of any length -/

/-- The chain of digests behind one. -/
def blake2bDigests (digest : List UInt8) (i : ℕ) : List UInt8 := (blake2bDigest 64)^[i] digest

/-- The hash of any length: the first halves of a chain of digests, and one more digest of its end for the last bytes. -/
def blake2bLongDigest (outlen : ℕ) (message : List UInt8) : List UInt8 :=
  if outlen ≤ 64 then blake2bDigest outlen (leBytes 4 outlen ++ message)
  else
    let digest := blake2bDigest 64 (leBytes 4 outlen ++ message)
    let r := (outlen + 31) / 32 - 2
    (List.range r).flatMap (fun i => (blake2bDigests digest i).take 32) ++
      blake2bDigest (outlen - 32 * r) (blake2bDigests digest (r - 1))

theorem length_blake2bDigest (h : outlen ≤ 64) (message : List UInt8) : (blake2bDigest outlen message).length = outlen := by
  have hwords (h : Vector UInt64 8) : (h.toList.flatMap store64).length = 64 := by
    have height (w : UInt64) : (store64 w).length = 8 := length_leBytes _ _
    rw [length_flatMap, map_congr_left fun w _ => height w, map_const', Vector.length_toList, sum_replicate_nat]
  rw [blake2bDigest, length_take_of_le]
  rw [hwords]
  exact h

theorem blake2bDigests_succ (digest : List UInt8) (i : ℕ) :
    blake2bDigests digest (i + 1) = blake2bDigests (blake2bDigest 64 digest) i := Function.iterate_succ_apply ..

/-- The loop goes on behind a digest. -/
theorem blake2bLongLoop_eq {toproduce : ℕ} (hpos : 1 ≤ toproduce) (digest : List UInt8) :
    blake2bLongLoop toproduce digest = some
      ((List.range ((toproduce - 33) / 32)).flatMap (fun i => (blake2bDigests digest (i + 1)).take 32) ++
        blake2bDigest (toproduce - 32 * ((toproduce - 33) / 32)) (blake2bDigests digest ((toproduce - 33) / 32))) := by
  induction toproduce using Nat.strong_induction_on generalizing digest with
  | _ toproduce ih =>
    by_cases hlarge : toproduce > blake2bOutbytes
    · obtain ⟨q, hq⟩ : ∃ q, q = (toproduce - 32 - 33) / 32 := ⟨_, rfl⟩
      have hlarge' : 64 < toproduce := hlarge
      have hcount : (toproduce - 33) / 32 = q + 1 := by omega
      have hlast : toproduce - 32 - 32 * q = toproduce - 32 * (q + 1) := by omega
      rw [blake2bLongLoop, if_pos hlarge, blake2b_eq (by decide) (by decide), Option.bind_some]
      change (blake2bLongLoop (toproduce - 32) _).map _ = _
      rw [ih (toproduce - 32) (by omega) (by omega), Option.map_some, ← hq, hcount, hlast, range_succ_eq_map, flatMap_cons,
        flatMap_map, append_assoc, blake2bDigests_succ]
      rfl
    · have hcount : (toproduce - 33) / 32 = 0 := by
        have hsmall : toproduce ≤ 64 := Nat.le_of_not_lt hlarge
        omega
      rw [blake2bLongLoop, if_neg hlarge, blake2b_eq hpos (Nat.le_of_not_lt hlarge), hcount]
      rfl

theorem length_blake2bLongDigest (outlen : ℕ) (message : List UInt8) : (blake2bLongDigest outlen message).length = outlen := by
  by_cases hsmall : outlen ≤ 64
  · rw [blake2bLongDigest, if_pos hsmall, length_blake2bDigest hsmall]
  obtain ⟨r, hr⟩ : ∃ r, r = (outlen + 31) / 32 - 2 := ⟨_, rfl⟩
  have hhalf (digest : List UInt8) (i : ℕ) :
      ((blake2bDigests (blake2bDigest 64 digest) i).take 32).length = 32 := by
    rw [length_take_of_le]
    cases i with
    | zero =>
      rw [blake2bDigests, Function.iterate_zero_apply, length_blake2bDigest le_rfl]
      decide
    | succ i =>
      rw [blake2bDigests, Function.iterate_succ_apply', length_blake2bDigest le_rfl]
      decide
  rw [blake2bLongDigest, if_neg hsmall, length_append, length_flatMap, map_congr_left fun i _ => hhalf _ i, map_const',
    length_range, sum_replicate_nat, length_blake2bDigest (by omega)]
  omega

/-- The hash of any length is there. -/
theorem blake2bLong_some (hpos : 1 ≤ outlen) (h : outlen < 2 ^ 32) (message : List UInt8) :
    blake2bLong outlen message = some (blake2bLongDigest outlen message) := by
  obtain ⟨n, hn⟩ : ∃ n, n = min outlen blake2bOutbytes := ⟨_, rfl⟩
  have hle : n ≤ 64 := hn.trans_le (min_le_right ..)
  have hpos' : 1 ≤ n := by
    rw [hn]
    exact le_min hpos (by decide)
  obtain ⟨S₁, hS₁, h₁⟩ := (holds_initParam (Nat.lt_of_le_of_lt hle (by decide))).update (leBytes 4 outlen)
  obtain ⟨S₂, hS₂, h₂⟩ := h₁.update message
  rw [nil_append] at h₂
  obtain ⟨first, hfirst⟩ : ∃ first, first = blake2bDigest n (leBytes 4 outlen ++ message) := ⟨_, rfl⟩
  have hlong : blake2bLong outlen message =
      if outlen ≤ 64 then some first else (blake2bLongLoop (outlen - 32) first).bind fun rest => some (first.take 32 ++ rest) := by
    rw [blake2bLong, if_neg (by omega), ← hn, blake2bInit_eq hpos' hle]
    simp only [Option.bind_eq_bind, Option.bind_some, hS₁, hS₂, h₂.final le_rfl, ← hfirst]
    rfl
  by_cases hsmall : outlen ≤ 64
  · have hwhole : n = outlen := hn.trans (Nat.min_eq_left hsmall)
    rw [hlong, if_pos hsmall, hfirst, blake2bLongDigest, if_pos hsmall, hwhole]
  · -- one digest more than those of the loop
    obtain ⟨q, hq⟩ : ∃ q, q = (outlen - 32 - 33) / 32 := ⟨_, rfl⟩
    have hcount : (outlen + 31) / 32 - 2 = q + 1 := by omega
    have hlast : outlen - 32 - 32 * q = outlen - 32 * (q + 1) := by omega
    have hwhole : n = 64 := hn.trans (Nat.min_eq_right (Nat.le_of_not_le hsmall))
    rw [hwhole] at hfirst
    rw [hlong, if_neg hsmall, blake2bLongLoop_eq (by omega), Option.bind_some, ← hq, blake2bLongDigest, if_neg hsmall, hcount,
      ← hfirst, hlast]
    change _ = some ((List.range (q + 1)).flatMap (fun i => (blake2bDigests first i).take 32) ++ _)
    rw [range_succ_eq_map, flatMap_cons, flatMap_map, append_assoc]
    rfl

/-- **The hash of any length is a chain of digests**, and it has that length. -/
theorem blake2bLong_eq (hpos : 1 ≤ outlen) (h : outlen < 2 ^ 32) (message : List UInt8) :
    blake2bLong outlen message = some (blake2bLongDigest outlen message) ∧
      (blake2bLongDigest outlen message).length = outlen :=
  ⟨blake2bLong_some hpos h message, length_blake2bLongDigest outlen message⟩

/-- A hash of 200 bytes. -/
theorem blake2bLong_eq_twoHundred :
    blake2bLong 200 [1, 2, 3] = some (blake2bLongDigest 200 [1, 2, 3]) ∧ (blake2bLongDigest 200 [1, 2, 3]).length = 200 :=
  blake2bLong_eq (by decide) (by decide) _

end Whole

end RecoveryQt
