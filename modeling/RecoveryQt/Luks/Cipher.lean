import RecoveryQt.Disk
import RecoveryQt.Lib.Blocks
import RecoveryQt.Lib.Codec

/-!
# The ciphers of LUKS volumes

* `HashName`, `Chain`, `IvMode`, `LuksCipher`: the cipher specifications; `luksParseCipher`,
  `mdByLuksName`, `luksValidKeylen`: which are accepted;
* `OpenSsl`: the primitives, as parameters;
* `essivSalt`, `sectorIv`, `luksDecryptRegion`: the decryption of a region, sector by sector;
* `LuksCipher.Usable`, **`luksDecryptRegion_eq`**: when it succeeds, and what it gives;
* `baseRead`, **`baseRead_eq`**: a read at any offset of the disk below.
-/

namespace RecoveryQt

open List

/-! ## Cipher specifications -/

/-- The hashes of `md_by_luks_name`. -/
inductive HashName where
  | sha1 | sha256 | sha512 | ripemd160
  deriving DecidableEq

/-- The name in a header. -/
def HashName.bytes : HashName → List UInt8
  | .sha1 => [115, 104, 97, 49]
  | .sha256 => [115, 104, 97, 50, 53, 54]
  | .sha512 => [115, 104, 97, 53, 49, 50]
  | .ripemd160 => [114, 105, 112, 101, 109, 100, 49, 54, 48]

/-- `EVP_MD_size`. -/
def HashName.size : HashName → ℕ
  | .sha1 => 20
  | .sha256 => 32
  | .sha512 => 64
  | .ripemd160 => 20

/-- `md_by_luks_name`. -/
def mdByLuksName (name : List UInt8) : Option HashName :=
  [HashName.sha1, .sha256, .sha512, .ripemd160].find? fun h => h.bytes = name

/-- `CHAIN_XTS` and `CHAIN_CBC`. -/
inductive Chain where
  | xts | cbc
  deriving DecidableEq

/-- `IVM_PLAIN`, `IVM_PLAIN64`, and `IVM_ESSIV` with `essiv_md`. -/
inductive IvMode where
  | plain | plain64
  | essiv (md : HashName)
  deriving DecidableEq

/-- `luks_cipher_t`. -/
structure LuksCipher where
  chain : Chain
  ivm : IvMode
  deriving DecidableEq

/-- The chain modes `xts` and `cbc`. -/
def parseChain (chain : List UInt8) : Option Chain :=
  if chain = [120, 116, 115] then some .xts
  else if chain = [99, 98, 99] then some .cbc
  else none

/-- The IV modes `plain`, `plain64` and `essiv:<hash>`. -/
def parseIv (iv : List UInt8) : Option IvMode :=
  if iv = [112, 108, 97, 105, 110] then some .plain
  else if iv = [112, 108, 97, 105, 110, 54, 52] then some .plain64
  else if iv.take 6 = [101, 115, 115, 105, 118, 58] then (mdByLuksName (iv.drop 6)).map .essiv
  else none

/-- `luks_parse_cipher`: the cipher is `aes`, and the mode has a dash between the two. -/
def luksParseCipher (cipher mode : List UInt8) : Option LuksCipher :=
  if cipher ≠ [97, 101, 115] then none
  else
    match mode.dropWhile (· ≠ 45) with
    | [] => none
    | _ :: iv =>
      if 16 ≤ (mode.takeWhile (· ≠ 45)).length then none
      else
        match parseChain (mode.takeWhile (· ≠ 45)), parseIv iv with
        | some chain, some ivm => some ⟨chain, ivm⟩
        | _, _ => none

/-- `luks_valid_keylen`. -/
def luksValidKeylen (chain : Chain) (keylen : ℕ) : Bool :=
  match chain with
  | .xts => keylen = 32 ∨ keylen = 64
  | .cbc => keylen = 16 ∨ keylen = 24 ∨ keylen = 32

/-! ## The primitives -/

/-- The functions of OpenSSL that are used: a digest, `PKCS5_PBKDF2_HMAC`, the encryption of one block,
and the encryption and decryption of a sector with a key and an IV. -/
structure OpenSsl where
  digest : HashName → List UInt8 → List UInt8
  pbkdf2 : HashName → List UInt8 → List UInt8 → ℤ → ℕ → Option (List UInt8)
  aesEcb : List UInt8 → List UInt8 → List UInt8
  encrypt : Chain → List UInt8 → List UInt8 → List UInt8 → List UInt8
  decrypt : Chain → List UInt8 → List UInt8 → List UInt8 → List UInt8
  length_digest : ∀ h l, (digest h l).length = h.size
  length_encrypt : ∀ chain key iv l, (encrypt chain key iv l).length = l.length
  length_decrypt : ∀ chain key iv l, (decrypt chain key iv l).length = l.length

variable (ssl : OpenSsl)

/-! ## The decryption of a region -/

/-- The key of the IVs: none but for ESSIV, and no key if the digest is not as long as one. -/
def essivSalt (c : LuksCipher) (key : List UInt8) : Option (List UInt8) :=
  match c.ivm with
  | .essiv md =>
    if (ssl.digest md key).length = 16 ∨ (ssl.digest md key).length = 24 ∨
      (ssl.digest md key).length = 32 then some (ssl.digest md key) else none
  | _ => some []

/-- The IV of the sector with a number. -/
def sectorIv (c : LuksCipher) (salt : List UInt8) (sector : ℕ) : List UInt8 :=
  match c.ivm with
  | .plain => leBytes 4 sector ++ replicate 12 0
  | .plain64 => leBytes 8 sector ++ replicate 8 0
  | .essiv _ => ssl.aesEcb salt (leBytes 8 sector ++ replicate 8 0)

/-- The decryption of one sector. -/
def decryptSector (c : LuksCipher) (key salt : List UInt8) (sector : ℕ) (l : List UInt8) : List UInt8 :=
  ssl.decrypt c.chain key (sectorIv ssl c salt sector) l

/-- `luks_decrypt_region`: the block at the offset `off` has the sector number `iv_base + off / 512`. -/
def luksDecryptRegion (c : LuksCipher) (key : List UInt8) (sectorSize ivBase : ℕ) (l : List UInt8) :
    Option (List UInt8) :=
  if luksValidKeylen c.chain key.length = false then none
  else if sectorSize = 0 ∨ l.length % sectorSize ≠ 0 then none
  else
    match essivSalt ssl c key with
    | none => none
    | some salt => some (mapBlocks sectorSize
        (fun k => decryptSector ssl c key salt (ivBase + k * sectorSize / 512)) (l.length / sectorSize) 0 l)

/-- The IVs can be made: an ESSIV hash gives a key. -/
def LuksCipher.Usable (c : LuksCipher) : Prop := ∀ md, c.ivm = .essiv md → md = .sha256

theorem essivSalt_of_usable {c : LuksCipher} (h : c.Usable) (key : List UInt8) :
    ∃ salt, essivSalt ssl c key = some salt := by
  rw [essivSalt]
  split
  · rename_i md hmd
    obtain rfl := h md hmd
    rw [if_pos (by simp [ssl.length_digest, HashName.size])]
    exact ⟨_, rfl⟩
  · exact ⟨[], rfl⟩

theorem essivSalt_of_not_usable {c : LuksCipher} (h : ¬ c.Usable) (key : List UInt8) :
    essivSalt ssl c key = none := by
  rw [essivSalt]
  split
  · rename_i md hmd
    refine if_neg ?_
    rw [ssl.length_digest]
    intro hsize
    refine h fun md' hmd' => ?_
    obtain rfl : md = md' := IvMode.essiv.inj (hmd.symm.trans hmd')
    cases md with
    | sha256 => rfl
    | sha1 => simp [HashName.size] at hsize
    | sha512 => simp [HashName.size] at hsize
    | ripemd160 => simp [HashName.size] at hsize
  · rename_i hmd
    exact absurd (fun md hmd' => absurd hmd' (hmd md)) h

/-- **A region is decrypted** when the key has a valid length, the IVs can be made and it is made up of
whole sectors. -/
theorem luksDecryptRegion_eq {c : LuksCipher} {key salt : List UInt8}
    (hkey : luksValidKeylen c.chain key.length = true) (hsalt : essivSalt ssl c key = some salt)
    {sectorSize : ℕ} (hpos : 0 < sectorSize) (ivBase : ℕ) {l : List UInt8}
    (hlen : l.length % sectorSize = 0) : luksDecryptRegion ssl c key sectorSize ivBase l =
      some (mapBlocks sectorSize (fun k => decryptSector ssl c key salt (ivBase + k * sectorSize / 512))
        (l.length / sectorSize) 0 l) := by
  rw [luksDecryptRegion, if_neg (by simp [hkey]), if_neg (by simp [hpos.ne', hlen]), hsalt]

/-- A region that is not made up of whole sectors is refused. -/
theorem luksDecryptRegion_ragged (c : LuksCipher) (key : List UInt8) (sectorSize ivBase : ℕ)
    {l : List UInt8} (hlen : l.length % sectorSize ≠ 0) :
    luksDecryptRegion ssl c key sectorSize ivBase l = none := by
  rw [luksDecryptRegion]
  split_ifs with h₁ h₂
  · rfl
  · rfl
  · exact absurd (Or.inr hlen) h₂

/-! ## The disk below -/

/-- The reads of `base_read`, of at most 1 MiB each. -/
def preadChunks (base : Disk) (offset left : ℕ) : Option (List UInt8) :=
  if left = 0 then some []
  else
    match base.pread (min left 0x100000) offset with
    | none => none
    | some buffer => (preadChunks base (offset + min left 0x100000) (left - min left 0x100000)).map fun l =>
        (range (min left 0x100000)).map buffer ++ l
termination_by left
decreasing_by omega

/-- `base_read`: whole sectors of the disk are read. -/
def baseRead (base : Disk) (offset len : ℕ) : Option (List UInt8) :=
  let ss := if 0 < base.sectorSize then base.sectorSize else 512
  let alignedOff := offset / ss * ss
  let head := offset - alignedOff
  (preadChunks base alignedOff ((head + len + ss - 1) / ss * ss)).map fun tmp => (tmp.drop head).take len

variable {base : Disk}

theorem preadChunks_eq (hreads : ∀ count offset, base.bad count offset = false) (offset left : ℕ) :
    preadChunks base offset left = some (slice base.content offset left) := by
  induction left using Nat.strong_induction_on generalizing offset with
  | _ left ih =>
    rw [preadChunks]
    split_ifs with hzero
    · rw [hzero]
      rfl
    · rw [Disk.pread, hreads, if_neg Bool.false_ne_true]
      simp only
      rw [ih (left - min left 0x100000) (by omega), Option.map_some]
      show some (slice base.content offset (min left 0x100000) ++ _) = _
      rw [← slice_add, Nat.add_sub_cancel' (Nat.min_le_left left 0x100000)]

/-- **A read of the disk below** gives the range asked for. -/
theorem baseRead_eq (hreads : ∀ count offset, base.bad count offset = false) (offset len : ℕ) :
    baseRead base offset len = some (slice base.content offset len) := by
  have hss : 0 < if 0 < base.sectorSize then base.sectorSize else 512 := by
    split_ifs with h
    · exact h
    · decide
  rw [baseRead]
  generalize (if 0 < base.sectorSize then base.sectorSize else 512) = ss at hss ⊢
  have hle : offset / ss * ss ≤ offset := Nat.div_mul_le_self offset ss
  have hround : offset - offset / ss * ss + len ≤ (offset - offset / ss * ss + len + ss - 1) / ss * ss := by
    generalize offset - offset / ss * ss + len = total
    have hdiv := Nat.div_add_mod (total + ss - 1) ss
    have hmod := Nat.mod_lt (total + ss - 1) hss
    rw [Nat.mul_comm] at hdiv
    omega
  rw [preadChunks_eq hreads, Option.map_some, drop_slice _ _ (by omega), take_slice _ _ (by omega),
    Nat.add_sub_cancel' hle]

end RecoveryQt
