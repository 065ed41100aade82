import RecoveryQt.Lib.Attempts
import RecoveryQt.Luks.Json
import RecoveryQt.Luks.Unlock

/-!
# The opening of LUKS volumes

`luksdec_open` with both versions of the header. Each keyslot is an attempt, which notes the sizes that it computes with.
The key derivations of OpenSSL and Argon2 are parameters, and memory does not run out.

* `luksPhdr`, `luks1Split`, `luks1Attempt`: the binary header and its keyslots;
* `b64Decode`, `luksParseCipherSpec`, `luks2DeriveKey`: what the JSON document says;
* `luks2Candidate`, `luks2FindDigest`, `luks2VerifyDigest`, `luks2Segment`, `luks2Match`: a keyslot of it;
* `luksdecOpen`, `luksdecRead`: the disk, and a read of it.
-/

namespace RecoveryQt

open List Attempt

/-- What is noted: a product of two sizes, a crypto sector size, and a call of `af_merge` with the size of a stripe, the
number of the stripes and the size of their buffer. -/
inductive LuksNote where
  | product (a b : ℕ)
  | sector (size : ℕ)
  | merge (blocksize stripes held : ℕ)

/-- `struct luksdec_data`, without the disk below. -/
structure LuksData where
  payloadOffset : ℕ
  masterKey : List UInt8
  encSectorSize : ℕ
  ivTweak : ℕ
  cipher : LuksCipher

/-- `argon2id_hash_raw` and `argon2i_hash_raw`: the costs, the passphrase, the salt and the length of the key. -/
abbrev Argon2 := Bool → ℕ → ℕ → ℕ → List UInt8 → List UInt8 → ℕ → Option (List UInt8)

/-! ## LUKS1 -/

/-- `be16`, `be32` and `be64` of the bytes from a position on. -/
def beAt (hdr : ℕ → UInt8) (i n : ℕ) : ℕ := leNat (slice hdr i n).reverse

/-- The keyslot at a position. -/
def luksKeyslot (hdr : ℕ → UInt8) (i : ℕ) : LuksKeyslot where
  active := UInt32.ofNat (beAt hdr i 4)
  passwordIterations := UInt32.ofNat (beAt hdr (i + 4) 4)
  passwordSalt := slice hdr (i + 8) 32
  keyMaterialOffset := UInt32.ofNat (beAt hdr (i + 40) 4)
  stripes := UInt32.ofNat (beAt hdr (i + 44) 4)

/-- The fields of `struct luks_phdr`. -/
def luksPhdr (hdr : ℕ → UInt8) : LuksPhdr where
  cipherName := slice hdr 8 32
  cipherMode := slice hdr 40 32
  hashSpec := slice hdr 72 32
  payloadOffset := UInt32.ofNat (beAt hdr 104 4)
  keyBytes := UInt32.ofNat (beAt hdr 108 4)
  mkDigest := slice hdr 112 20
  mkDigestSalt := slice hdr 132 32
  mkDigestIterations := UInt32.ofNat (beAt hdr 164 4)
  keyslot := (range 8).map fun i => luksKeyslot hdr (208 + 48 * i)

variable (ssl : OpenSsl) (argon2 : Argon2) (base : Disk) (partOffset : ℕ) (pass : List UInt8)

section Luks1

variable (hdr : LuksPhdr) (c : LuksCipher) (md : HashName)

/-- The decrypted key material of a keyslot. -/
def luks1Split (ks : LuksKeyslot) : Attempt LuksNote (List UInt8) := do
  require (ks.active = luksKeyEnabled)
  let derived ← ofOption (pbkdf2 ssl md pass ks.passwordSalt ks.passwordIterations hdr.keyBytes.toNat)
  note (.product hdr.keyBytes.toNat ks.stripes.toNat)
  note (.product ks.keyMaterialOffset.toNat 512)
  let km ← ofOption (baseRead base (partOffset + ks.keyMaterialOffset.toNat * 512)
    (hdr.keyBytes.toNat * ks.stripes.toNat % 2 ^ 64))
  note (.sector 512)
  ofOption (luksDecryptRegion ssl c derived 512 0 km)

/-- The loop of `luks1_unlock` for one keyslot. Without a stripe, `af_merge` runs behind its buffer. -/
def luks1Attempt (ks : LuksKeyslot) : Attempt LuksNote LuksData := do
  let split ← luks1Split ssl base partOffset pass hdr c md ks
  note (.merge hdr.keyBytes.toNat ks.stripes.toNat split.length)
  if ks.stripes = 0 then fault
  else do
    let candidate := afMerge ssl md split hdr.keyBytes.toNat ks.stripes.toNat
    let check ← ofOption (pbkdf2 ssl md candidate hdr.mkDigestSalt hdr.mkDigestIterations 20)
    require (check = hdr.mkDigest)
    note (.product hdr.payloadOffset.toNat 512)
    pure ⟨partOffset + hdr.payloadOffset.toNat * 512, candidate, 512, 0, c⟩

variable {ssl base partOffset pass hdr c md} in
/-- How a keyslot of LUKS1 gives the disk. -/
theorem luks1Attempt_eq_ok {ks : LuksKeyslot} {d : LuksData} :
    (luks1Attempt ssl base partOffset pass hdr c md ks).result = .ok d ↔
      ∃ split, (luks1Split ssl base partOffset pass hdr c md ks).result = .ok split ∧ ks.stripes ≠ 0 ∧
        pbkdf2 ssl md (afMerge ssl md split hdr.keyBytes.toNat ks.stripes.toNat) hdr.mkDigestSalt hdr.mkDigestIterations
          20 = some hdr.mkDigest ∧
        d = ⟨partOffset + hdr.payloadOffset.toNat * 512, afMerge ssl md split hdr.keyBytes.toNat ks.stripes.toNat, 512, 0,
          c⟩ := by
  rw [luks1Attempt, result_bind_eq_ok]
  refine exists_congr fun split => and_congr_right fun _ => ?_
  rw [result_bind_eq_ok]
  by_cases hstripes : ks.stripes = 0
  · rw [if_pos hstripes]
    exact iff_of_false (fun ⟨_, _, h⟩ => result_fault_ne_ok d h) fun h => h.1 hstripes
  · rw [if_neg hstripes, and_iff_right hstripes]
    simp only [result_bind_eq_ok, result_ofOption_eq_ok, result_require_eq_ok, result_note, result_pure]
    constructor
    · rintro ⟨-, -, check, hcheck, -, rfl, -, -, hd⟩
      exact ⟨hcheck, (Except.ok.inj hd).symm⟩
    · rintro ⟨hcheck, rfl⟩
      exact ⟨(), trivial, _, hcheck, (), rfl, (), trivial, rfl⟩

/-- What `luks1_unlock` has found before it comes to the keyslots. -/
def luks1Spec : Option (LuksCipher × HashName) := do
  let c ← luksParseCipher (hdr.cipherName.takeWhile (· ≠ 0)) (hdr.cipherMode.takeWhile (· ≠ 0))
  if luksValidKeylen c.chain hdr.keyBytes.toNat then (mdByLuksName (hdr.hashSpec.takeWhile (· ≠ 0))).map (c, ·)
  else none

/-- `luks1_unlock`. -/
def luks1Open : Attempt LuksNote LuksData := do
  let spec ← ofOption (luks1Spec hdr)
  firstDone (luks1Attempt ssl base partOffset pass hdr spec.1 spec.2) hdr.keyslot

end Luks1

/-! ## The document of LUKS2 -/

/-- `b64_val`. -/
def b64Val (c : UInt8) : Option ℕ :=
  if 65 ≤ c ∧ c ≤ 90 then some (c.toNat - 65)
  else if 97 ≤ c ∧ c ≤ 122 then some (c.toNat - 97 + 26)
  else if 48 ≤ c ∧ c ≤ 57 then some (c.toNat - 48 + 52)
  else if c = 43 then some 62
  else if c = 47 then some 63
  else none

/-- The loop of `b64_decode`; `buf` is kept in 32 bits. -/
def b64Loop (outMax : ℕ) : List UInt8 → ℕ → ℕ → List UInt8 → Option (List UInt8)
  | [], _, _, out => some out
  | c :: p, buf, bits, out =>
    if c = 61 ∨ c = 10 ∨ c = 13 ∨ c = 32 then b64Loop outMax p buf bits out
    else
      match b64Val c with
      | none => none
      | some v =>
        let buf := (buf * 64 + v) % 2 ^ 32
        if 8 ≤ bits + 6 then
          if outMax ≤ out.length then none
          else b64Loop outMax p buf (bits + 6 - 8) (out ++ [UInt8.ofNat (buf / 2 ^ (bits + 6 - 8))])
        else b64Loop outMax p buf (bits + 6) out

/-- `b64_decode`. -/
def b64Decode (outMax : ℕ) (s : List UInt8) : Option (List UInt8) := b64Loop outMax s 0 0 []

/-- `luks_parse_cipher_spec`. -/
def luksParseCipherSpec (spec : List UInt8) : Option LuksCipher :=
  match spec.dropWhile (· ≠ 45) with
  | [] => none
  | _ :: mode =>
    if 33 ≤ (spec.takeWhile (· ≠ 45)).length ∨ 33 ≤ mode.length then none
    else luksParseCipher (spec.takeWhile (· ≠ 45)) mode

/-- `json_str`, as the functions for strings see it. -/
def jsonCStr (n : JNode) (key : String) : Option (List UInt8) := (jsonStr n (ascii key)).map cString

/-- `child` and its siblings, with their keys. -/
def jsonChildren : JNode → List (Option (List UInt8) × JNode)
  | .obj child => child.map fun m => (some m.1, m.2)
  | .arr child => child.map fun v => (none, v)
  | _ => []

/-- `luks2_derive_key`. -/
def luks2DeriveKey (kdf : JNode) (outlen : ℕ) : Option (List UInt8) := do
  let type ← jsonCStr kdf "type"
  let salt64 ← jsonCStr kdf "salt"
  let salt ← b64Decode 256 salt64
  if type = ascii "pbkdf2" then do
    let hash ← jsonCStr kdf "hash"
    let md ← mdByLuksName hash
    pbkdf2 ssl md pass salt (UInt32.ofNat (jsonU64 kdf (ascii "iterations") 0)) outlen
  else if type = ascii "argon2i" ∨ type = ascii "argon2id" then
    argon2 (type = ascii "argon2id") (jsonU64 kdf (ascii "time") 0 % 2 ^ 32) (jsonU64 kdf (ascii "memory") 0 % 2 ^ 32)
      (jsonU64 kdf (ascii "cpus") 1 % 2 ^ 32) pass salt outlen
  else none

/-- The strings of a list that a digest has. -/
def digestStrings (digest : JNode) (key : String) : List (List UInt8) :=
  match jsonGet digest (ascii key) with
  | some (.arr child) => child.filterMap fun e =>
      match e with
      | .str s => some (cString s)
      | _ => none
  | _ => []

/-- `luks2_find_digest`. The key of an element of an array is a null pointer, which `strcmp` does not survive. -/
def luks2FindDigest (digests : JNode) (keyslotId : Option (List UInt8)) : Attempt LuksNote JNode :=
  match keyslotId with
  | some id =>
    ofOption (((jsonChildren digests).find? fun dg => cString id ∈ digestStrings dg.2 "keyslots").map Prod.snd)
  | none =>
    if (jsonChildren digests).all fun dg => digestStrings dg.2 "keyslots" = [] then giveUp else fault

/-- The hash, the salt and the digest of a digest. -/
def luks2Digest (digest : JNode) : Option (HashName × List UInt8 × List UInt8) := do
  let hash ← jsonCStr digest "hash"
  let md ← mdByLuksName hash
  let salt64 ← jsonCStr digest "salt"
  let dig64 ← jsonCStr digest "digest"
  let salt ← b64Decode 256 salt64
  let want ← b64Decode 128 dig64
  pure (md, salt, want)

/-- `luks2_verify_digest`. -/
def luks2VerifyDigest (digest : JNode) (mk : List UInt8) : Bool :=
  match luks2Digest digest with
  | none => false
  | some (md, salt, want) =>
    pbkdf2 ssl md mk salt (UInt32.ofNat (jsonU64 digest (ascii "iterations") 0)) want.length = some want

/-- The segment of a digest: the one that it names first, or the first one there is. -/
def luks2Segment (segments digest : JNode) : Option (Option (List UInt8) × JNode) :=
  match jsonGet digest (ascii "segments") with
  | some (.arr (.str id :: _)) =>
    match segments with
    | .obj child => (child.find? fun m => cString m.1 = cString id).map fun m => (some m.1, m.2)
    | _ => none
  | _ => (jsonChildren segments).head?

/-! ## LUKS2 -/

/-- `key_size` of a keyslot. -/
def luks2KeySize (ks : JNode) : ℕ := jsonU64 ks (ascii "key_size") 0

/-- The key that a keyslot gives. -/
def luks2Candidate (ks : JNode) : Attempt LuksNote (List UInt8) := do
  require (jsonCStr ks "type" = some (ascii "luks2"))
  let kdf ← ofOption (jsonGet ks (ascii "kdf"))
  let af ← ofOption (jsonGet ks (ascii "af"))
  let area ← ofOption (jsonGet ks (ascii "area"))
  let areaCipher ← ofOption ((jsonCStr area "encryption").bind luksParseCipherSpec)
  require (luks2KeySize ks ≠ 0 ∧ luks2KeySize ks ≤ 128)
  let areaKeySize := jsonU64 area (ascii "key_size") (luks2KeySize ks)
  require (luksValidKeylen areaCipher.chain areaKeySize = true)
  let md ← ofOption ((jsonCStr af "hash").bind mdByLuksName)
  let stripes := jsonU64 af (ascii "stripes") 0 % 2 ^ 32
  require (stripes ≠ 0)
  let derived ← ofOption (luks2DeriveKey ssl argon2 pass kdf areaKeySize)
  note (.product (luks2KeySize ks) stripes)
  let km ← ofOption (baseRead base ((partOffset + jsonU64 area (ascii "offset") 0) % 2 ^ 64)
    (luks2KeySize ks * stripes % 2 ^ 64))
  note (.sector 512)
  let split ← ofOption (luksDecryptRegion ssl areaCipher derived 512 0 km)
  note (.merge (luks2KeySize ks) stripes split.length)
  pure (afMerge ssl md split (luks2KeySize ks) stripes)

/-- A keyslot that matches: the key, its digest, the segment and the cipher of that. -/
structure LuksMatch where
  candidate : List UInt8
  digest : JNode
  segment : Option (List UInt8) × JNode
  cipher : LuksCipher

/-- The loop of `luks2_unlock` for one keyslot, up to the disk. -/
def luks2Match (digests segments : JNode) (ks : Option (List UInt8) × JNode) : Attempt LuksNote LuksMatch := do
  let candidate ← luks2Candidate ssl argon2 base partOffset pass ks.2
  let digest ← luks2FindDigest digests ks.1
  require (luks2VerifyDigest ssl digest candidate = true)
  let segment ← ofOption (luks2Segment segments digest)
  let cipher ← ofOption ((jsonCStr segment.2 "encryption").bind luksParseCipherSpec)
  require (luksValidKeylen cipher.chain (luks2KeySize ks.2) = true)
  pure ⟨candidate, digest, segment, cipher⟩

/-- The arguments of `luksdec_build_disk`. -/
def LuksMatch.data (m : LuksMatch) : LuksData where
  payloadOffset := (partOffset + jsonU64 m.segment.2 (ascii "offset") 0) % 2 ^ 64
  masterKey := m.candidate
  encSectorSize := jsonU64 m.segment.2 (ascii "sector_size") 512 % 2 ^ 32
  ivTweak := jsonU64 m.segment.2 (ascii "iv_tweak") 0
  cipher := m.cipher

/-- The loop of `luks2_unlock` for one keyslot. -/
def luks2Attempt (digests segments : JNode) (ks : Option (List UInt8) × JNode) : Attempt LuksNote LuksData := do
  let m ← luks2Match ssl argon2 base partOffset pass digests segments ks
  pure (m.data partOffset)

/-- The parts of the document. -/
structure LuksDocument where
  keyslots : JNode
  digests : JNode
  segments : JNode

/-- `LUKSDEC_MAX_JSON`. -/
def luksdecMaxJson : ℕ := 4 * 1024 * 1024

/-- What `luks2_unlock` has read before it comes to the keyslots. -/
def luks2Document (hdr : ℕ → UInt8) : Option LuksDocument :=
  let hdrSize := beAt hdr 8 8
  if hdrSize ≤ 4096 ∨ luksdecMaxJson < hdrSize then none
  else do
    let text ← baseRead base (partOffset + 4096) (hdrSize - 4096)
    let (root, _) ← jsonParse text
    let keyslots ← jsonGet root (ascii "keyslots")
    let digests ← jsonGet root (ascii "digests")
    let segments ← jsonGet root (ascii "segments")
    pure ⟨keyslots, digests, segments⟩

/-- `luks2_unlock`. -/
def luks2Open (hdr : ℕ → UInt8) : Attempt LuksNote LuksData := do
  let doc ← ofOption (luks2Document base partOffset hdr)
  firstDone (luks2Attempt ssl argon2 base partOffset pass doc.digests doc.segments) (jsonChildren doc.keyslots)

/-! ## The disk -/

/-- The 4096 bytes of the header, behind the magic. -/
def luksHeader : Option (ℕ → UInt8) := do
  let bytes ← baseRead base partOffset 4096
  if bytes.take 6 = [0x4c, 0x55, 0x4b, 0x53, 0xba, 0xbe] then some fun i => bytes.getD i 0 else none

/-- **`luksdec_open`.** -/
def luksdecOpen : Attempt LuksNote LuksData := do
  let hdr ← ofOption (luksHeader base partOffset)
  if beAt hdr 6 2 = 1 then luks1Open ssl base partOffset pass (luksPhdr hdr)
  else if beAt hdr 6 2 = 2 then luks2Open ssl argon2 base partOffset pass hdr
  else giveUp

/-- `luksdec_pread` on such a disk. A sector size of zero divides by zero. -/
def luksdecRead (d : LuksData) (count : UInt32) (offset : UInt64) : Attempt LuksNote (List UInt8) := do
  let ss := d.encSectorSize
  note (.sector ss)
  if ss = 0 then fault
  else do
    let astart := alignedStart ss offset.toNat
    note (.product (offset.toNat / ss) ss)
    note (.product ((offset.toNat + count.toNat + ss - 1) % 2 ^ 64 / ss) ss)
    let cbuf ← ofOption (baseRead base ((d.payloadOffset + astart) % 2 ^ 64) (alignedLen ss count.toNat offset.toNat))
    note (.sector ss)
    let pbuf ← ofOption (luksDecryptRegion ssl d.cipher d.masterKey ss (d.ivTweak + astart / 512) cbuf)
    pure ((pbuf.drop (offset.toNat - astart)).take count.toNat)

end RecoveryQt
