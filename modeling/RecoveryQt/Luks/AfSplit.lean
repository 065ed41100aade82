import RecoveryQt.Luks.Cipher

/-!
# The anti-forensic splitter

* `xorBytes`: the exclusive or of two byte strings;
* `afDiffuse`, `afMerge`: the diffusion and the merge of the stripes;
* `afSplit`: how a key is split into random stripes and a last one;
* **`afMerge_afSplit`**: the stripes merge to the key;
* `diffuse`, `luksSplit`: the diffusion and the split as the format defines them, over any digest;
* `afDiffuse_eq`, `luksSplit_eq`: the code computes these; **`afMerge_luksSplit`**.
-/

namespace RecoveryQt

open List

/-- The exclusive or, byte by byte. -/
def xorBytes (a b : List UInt8) : List UInt8 := zipWith (· ^^^ ·) a b

@[simp] theorem length_xorBytes (a b : List UInt8) : (xorBytes a b).length = min a.length b.length :=
  length_zipWith

/-- What is added twice is gone. -/
theorem xorBytes_cancel {a b : List UInt8} (h : a.length = b.length) : xorBytes a (xorBytes a b) = b := by
  apply ext_getElem
  · rw [length_xorBytes, length_xorBytes, h, Nat.min_self, Nat.min_self]
  · intro i _ _
    simp only [xorBytes, getElem_zipWith, ← UInt8.xor_assoc, UInt8.xor_self, UInt8.zero_xor]

theorem xorBytes_self (a : List UInt8) : xorBytes a a = replicate a.length 0 := by
  apply ext_getElem
  · rw [length_xorBytes, Nat.min_self, length_replicate]
  · intro i _ _
    rw [getElem_replicate]
    simp only [xorBytes, getElem_zipWith, UInt8.xor_self]

variable (ssl : OpenSsl) (md : HashName)

/-- The digest of a block behind its number. -/
def afHash (i : ℕ) (block : List UInt8) : List UInt8 := ssl.digest md ((leBytes 4 i).reverse ++ block)

/-- `af_diffuse`: each block of the size of a digest is hashed, and what is left is hashed and cut. -/
def afDiffuse (src : List UInt8) : List UInt8 :=
  let nblocks := src.length / md.size
  let padding := src.length % md.size
  mapBlocks md.size (afHash ssl md) nblocks 0 src ++
    if 0 < padding then (afHash ssl md nblocks (src.drop (nblocks * md.size))).take padding else []

theorem HashName.size_pos (md : HashName) : 0 < md.size := by
  cases md <;> decide

@[simp] theorem length_afDiffuse (src : List UInt8) : (afDiffuse ssl md src).length = src.length := by
  have hblocks : (mapBlocks md.size (afHash ssl md) (src.length / md.size) 0 src).length =
      src.length / md.size * md.size :=
    length_mapBlocks (fun _ _ _ => ssl.length_digest _ _) _ _ (Nat.div_mul_le_self _ _)
  have hrest : (if 0 < src.length % md.size then (afHash ssl md (src.length / md.size)
      (src.drop (src.length / md.size * md.size))).take (src.length % md.size) else []).length =
        src.length % md.size := by
    split_ifs with h
    · rw [length_take, afHash, ssl.length_digest, Nat.min_eq_left (Nat.mod_lt _ md.size_pos).le]
    · rw [length_nil]
      omega
  rw [afDiffuse, length_append, hblocks, hrest, Nat.div_add_mod']

/-- The buffer after the stripes but the last one. -/
def afBuffer (blocksize : ℕ) (stripes : List (List UInt8)) : List UInt8 :=
  stripes.foldl (fun buf stripe => afDiffuse ssl md (xorBytes buf stripe)) (replicate blocksize 0)

/-- The stripes of `blocksize` bytes. -/
def stripesOf (blocksize n : ℕ) (src : List UInt8) : List (List UInt8) :=
  (range n).map fun i => (src.drop (i * blocksize)).take blocksize

/-- `af_merge`, for one stripe or more: without any, the loop would run behind the buffer. -/
def afMerge (src : List UInt8) (blocksize stripes : ℕ) : List UInt8 :=
  xorBytes (afBuffer ssl md blocksize (stripesOf blocksize (stripes - 1) src))
    ((src.drop ((stripes - 1) * blocksize)).take blocksize)

/-- How a key is split: the random stripes, and the one that merges with them to the key. -/
def afSplit (stripes : List (List UInt8)) (key : List UInt8) : List UInt8 :=
  stripes.flatten ++ xorBytes (afBuffer ssl md key.length stripes) key

theorem length_foldl_afBuffer {stripes : List (List UInt8)} {buf : List UInt8}
    (hstripes : ∀ s ∈ stripes, s.length = buf.length) :
    (stripes.foldl (fun buf stripe => afDiffuse ssl md (xorBytes buf stripe)) buf).length = buf.length := by
  induction stripes generalizing buf with
  | nil => rfl
  | cons s stripes ih =>
    have hstep : (afDiffuse ssl md (xorBytes buf s)).length = buf.length := by
      rw [length_afDiffuse, length_xorBytes, hstripes s mem_cons_self, Nat.min_self]
    rw [foldl_cons, ih fun t ht => (hstripes t (mem_cons_of_mem s ht)).trans hstep.symm, hstep]

theorem length_afBuffer {blocksize : ℕ} {stripes : List (List UInt8)}
    (hstripes : ∀ s ∈ stripes, s.length = blocksize) :
    (afBuffer ssl md blocksize stripes).length = blocksize := by
  rw [afBuffer, length_foldl_afBuffer ssl md (by simpa using hstripes), length_replicate]

theorem length_flatten_stripes {n : ℕ} {stripes : List (List UInt8)} (h : ∀ s ∈ stripes, s.length = n) :
    stripes.flatten.length = stripes.length * n := by
  rw [length_flatten, eq_replicate_of_mem (show ∀ x ∈ stripes.map length, x = n by simpa using h),
    sum_replicate_nat, length_map]

/-- The split key is as long as its stripes. -/
theorem length_afSplit {stripes : List (List UInt8)} {key : List UInt8}
    (hstripes : ∀ s ∈ stripes, s.length = key.length) :
    (afSplit ssl md stripes key).length = key.length * (stripes.length + 1) := by
  rw [afSplit, length_append, length_flatten_stripes hstripes, length_xorBytes,
    length_afBuffer ssl md hstripes, Nat.min_self, Nat.mul_succ, Nat.mul_comm]

/-- The stripes are found in their concatenation. -/
theorem stripesOf_flatten {n : ℕ} {stripes : List (List UInt8)} (h : ∀ s ∈ stripes, s.length = n)
    (rest : List UInt8) : stripesOf n stripes.length (stripes.flatten ++ rest) = stripes := by
  induction stripes with
  | nil => rfl
  | cons s stripes ih =>
    have hs : s.length = n := h s mem_cons_self
    have hrest : ((range stripes.length).map fun i =>
        ((s ++ (stripes.flatten ++ rest)).drop ((i + 1) * n)).take n) = stripes := by
      refine (map_congr_left fun i _ => ?_).trans (ih fun t ht => h t (mem_cons_of_mem s ht))
      rw [Nat.succ_mul, Nat.add_comm, ← drop_drop, drop_left' hs]
    rw [stripesOf, length_cons, range_succ_eq_map, map_cons, map_map, flatten_cons, append_assoc,
      Nat.zero_mul, drop_zero, take_left' hs]
    exact congrArg (s :: ·) hrest

/-- **A key that was split is merged back.** -/
theorem afMerge_afSplit {stripes : List (List UInt8)} {key : List UInt8}
    (hstripes : ∀ s ∈ stripes, s.length = key.length) :
    afMerge ssl md (afSplit ssl md stripes key) key.length (stripes.length + 1) = key := by
  have hlast : (xorBytes (afBuffer ssl md key.length stripes) key).length = key.length := by
    rw [length_xorBytes, length_afBuffer ssl md hstripes, Nat.min_self]
  rw [afMerge, Nat.add_sub_cancel, afSplit, stripesOf_flatten hstripes,
    drop_left' (length_flatten_stripes hstripes), take_of_length_le hlast.le,
    xorBytes_cancel (length_afBuffer ssl md hstripes)]

/-! ## The split of the format -/

section Reference

variable (hash : List UInt8 → List UInt8) (size : ℕ) (random : ℕ → ℕ → UInt8)

/-- The diffusion: the buffer is cut into pieces of the size of a digest, the last one may be shorter. Each
becomes the digest of its 32-bit number and itself, cut to its length. -/
def diffuse (d : List UInt8) : List UInt8 :=
  (range ((d.length + size - 1) / size)).flatMap fun i =>
    let piece := (d.drop (i * size)).take size
    (hash ((leBytes 4 i).reverse ++ piece)).take piece.length

/-- A random stripe. -/
def randomStripe (blocksize i : ℕ) : List UInt8 := (range blocksize).map (random i)

/-- The chain of the random stripes: each is added to the last value, and the sum is diffused. -/
def splitChain (blocksize : ℕ) : ℕ → List UInt8
  | 0 => replicate blocksize 0
  | i + 1 => diffuse hash size (xorBytes (splitChain blocksize i) (randomStripe random blocksize i))

/-- The split of a key into stripes: the random ones, and the sum of their chain and the key. -/
def luksSplit (stripes : ℕ) (key : List UInt8) : List UInt8 :=
  (range (stripes - 1)).flatMap (randomStripe random key.length) ++
    xorBytes (splitChain hash size random key.length (stripes - 1)) key

end Reference

@[simp] theorem length_randomStripe (random : ℕ → ℕ → UInt8) (blocksize i : ℕ) :
    (randomStripe random blocksize i).length = blocksize := by
  rw [randomStripe, length_map, length_range]

/-- **`af_diffuse`** is the diffusion: the pieces but a short last one are whole digests. -/
theorem afDiffuse_eq (src : List UInt8) : afDiffuse ssl md src = diffuse (ssl.digest md) md.size src := by
  have hpos := md.size_pos
  have hdiv := Nat.div_add_mod' src.length md.size
  have hwhole : ∀ i ∈ range (src.length / md.size), afHash ssl md (0 + i) ((src.drop (i * md.size)).take md.size) =
      (afHash ssl md i ((src.drop (i * md.size)).take md.size)).take
        ((src.drop (i * md.size)).take md.size).length := by
    intro i hi
    have hfit : (i + 1) * md.size ≤ src.length / md.size * md.size := Nat.mul_le_mul_right _ (mem_range.mp hi)
    rw [Nat.succ_mul] at hfit
    have hlen : ((src.drop (i * md.size)).take md.size).length = md.size := by
      rw [length_take, length_drop]
      omega
    rw [hlen, Nat.zero_add]
    exact (take_of_length_le (ssl.length_digest md _).le).symm
  rw [afDiffuse, mapBlocks_eq_flatMap, flatMap_congr hwhole]
  unfold diffuse
  split_ifs with hpad
  · -- the number of pieces is one more than that of whole ones
    have hmod := Nat.mod_lt src.length hpos
    have hcount : (src.length + md.size - 1) / md.size = src.length / md.size + 1 := by
      rw [Nat.div_eq_iff hpos, Nat.succ_mul]
      omega
    have hlast : ((src.drop (src.length / md.size * md.size)).take md.size) =
        src.drop (src.length / md.size * md.size) := by
      apply take_of_length_le
      rw [length_drop]
      omega
    have hlen : (src.drop (src.length / md.size * md.size)).length = src.length % md.size := by
      rw [length_drop]
      omega
    rw [hcount, range_succ, flatMap_append, flatMap_singleton]
    simp only [hlast, hlen]
    rfl
  · have hcount : (src.length + md.size - 1) / md.size = src.length / md.size := by
      rw [Nat.div_eq_iff hpos]
      omega
    rw [hcount, append_nil]
    rfl

/-- The stripes of the format are those of the code. -/
theorem luksSplit_eq (random : ℕ → ℕ → UInt8) (stripes : ℕ) (key : List UInt8) :
    luksSplit (ssl.digest md) md.size random stripes key =
      afSplit ssl md ((range (stripes - 1)).map (randomStripe random key.length)) key := by
  have hchain : ∀ n, splitChain (ssl.digest md) md.size random key.length n =
      afBuffer ssl md key.length ((range n).map (randomStripe random key.length)) := by
    intro n
    induction n with
    | zero => rfl
    | succ n ih =>
      rw [splitChain, ← afDiffuse_eq, ih, range_succ, map_append, afBuffer, afBuffer, foldl_append]
      rfl
  rw [luksSplit, afSplit, hchain, flatMap_def]

/-- **`af_merge` inverts the split of the format**, for one stripe or more. -/
theorem afMerge_luksSplit (random : ℕ → ℕ → UInt8) (n : ℕ) (key : List UInt8) :
    afMerge ssl md (luksSplit (ssl.digest md) md.size random (n + 1) key) key.length (n + 1) = key := by
  have hlen : ∀ s ∈ (range n).map (randomStripe random key.length), s.length = key.length := by
    intro s hs
    obtain ⟨i, -, rfl⟩ := mem_map.mp hs
    exact length_randomStripe random key.length i
  have h := afMerge_afSplit ssl md hlen
  rw [length_map, length_range] at h
  rw [luksSplit_eq, Nat.add_sub_cancel, h]

end RecoveryQt
