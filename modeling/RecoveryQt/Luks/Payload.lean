import RecoveryQt.Luks.Cipher

/-!
# The payload of a decrypted disk

* `LuksDisk`: the disk that `luksdec_build_disk` makes, behind which the payload is decrypted;
* `luksdecPread`: a read of it; `readInTurn`: consecutive reads;
* `LuksDisk.plain`: the payload decrypted sector by sector, each with the IV of its number;
* **`luksdecPread_eq`**: a read gives the range of it;
* `luksdecPread_slices`: and so do consecutive reads;
* `essivDisk_unread`: a disk whose ESSIV hash gives no key can be built, and cannot be read.
-/

namespace RecoveryQt

open List

/-- `struct luksdec_data`, with a key that both callers of `luksdec_build_disk` have checked. The disk
below is smaller than an `off_t` can say. -/
structure LuksDisk where
  base : Disk
  payloadOffset : ℕ
  masterKey : List UInt8
  encSectorSize : ℕ
  ivTweak : ℕ
  cipher : LuksCipher
  keylen : luksValidKeylen cipher.chain masterKey.length = true
  sectorSize_lt : encSectorSize < 2 ^ 32
  diskSize_lt : base.diskSize < 2 ^ 63

/-- `payload_size`: what is left of the disk behind the offset. -/
def LuksDisk.payloadSize (d : LuksDisk) : ℕ := d.base.diskSize - d.payloadOffset

variable (ssl : OpenSsl) (d : LuksDisk)

/-- `astart`: the start of the sector that a read starts in. -/
def alignedStart (ss offset : ℕ) : ℕ := offset / ss * ss

/-- `aend`: the end of the sector that a read ends in, in 64 bits. -/
def alignedEnd (ss count offset : ℕ) : ℕ := (offset + count + ss - 1) % 2 ^ 64 / ss * ss

/-- `clen`: the bytes between the two, where the difference can wrap. -/
def alignedLen (ss count offset : ℕ) : ℕ :=
  if alignedStart ss offset ≤ alignedEnd ss count offset then
    alignedEnd ss count offset - alignedStart ss offset
  else alignedEnd ss count offset + 2 ^ 64 - alignedStart ss offset

/-- `luksdec_pread`: the buffer, or `none` where it returns `-1`. -/
def luksdecPread (count offset : ℕ) : Option (List UInt8) :=
  let ss := d.encSectorSize
  let astart := alignedStart ss offset
  match baseRead d.base (d.payloadOffset + astart) (alignedLen ss count offset) with
  | none => none
  | some cbuf =>
    (luksDecryptRegion ssl d.cipher d.masterKey ss (d.ivTweak + astart / 512) cbuf).map fun pbuf =>
      (pbuf.drop (offset - astart)).take count

/-- Reads of these sizes, one behind the other. -/
def readInTurn : ℕ → List ℕ → Option (List UInt8)
  | _, [] => some []
  | offset, count :: counts => do
    let l ← luksdecPread ssl d count offset
    let r ← readInTurn (offset + count) counts
    return l ++ r

/-- The bytes of the payload before they are decrypted. -/
def LuksDisk.encrypted (i : ℕ) : UInt8 := d.base.content (d.payloadOffset + i)

/-- The decryption of the payload: the sector `k` has the IV of `iv_tweak` and the 512-byte units
before it. -/
def LuksDisk.plain (salt : List UInt8) : ℕ → UInt8 :=
  blockwise 0 d.encSectorSize
    (fun k => decryptSector ssl d.cipher d.masterKey salt (d.ivTweak + k * (d.encSectorSize / 512))) d.encrypted

/-- A range of whole sectors is decrypted to that range of the payload. -/
theorem luksDecryptRegion_payload {salt : List UInt8} (hsalt : essivSalt ssl d.cipher d.masterKey = some salt)
    (hpos : 0 < d.encSectorSize) (h512 : 512 ∣ d.encSectorSize) (k m : ℕ) :
    luksDecryptRegion ssl d.cipher d.masterKey d.encSectorSize (d.ivTweak + k * d.encSectorSize / 512)
      (slice d.encrypted (k * d.encSectorSize) (m * d.encSectorSize)) =
        some (slice (d.plain ssl salt) (k * d.encSectorSize) (m * d.encSectorSize)) := by
  obtain ⟨u, hu⟩ := h512
  have hunit : ∀ n, n * d.encSectorSize / 512 = n * (d.encSectorSize / 512) :=
    fun n => Nat.mul_div_assoc n ⟨u, hu⟩
  rw [luksDecryptRegion_eq ssl d.keylen hsalt hpos _ (by rw [length_slice, Nat.mul_mod_left]),
    length_slice, Nat.mul_div_cancel m hpos]
  -- the blocks are numbered from the first sector of the payload on
  have hnumber : (fun n => decryptSector ssl d.cipher d.masterKey salt
      (d.ivTweak + k * d.encSectorSize / 512 + n * d.encSectorSize / 512)) =
      fun n => decryptSector ssl d.cipher d.masterKey salt
        (d.ivTweak + (k + n) * (d.encSectorSize / 512)) := by
    funext n
    rw [hunit, hunit, Nat.add_mul, Nat.add_assoc]
  rw [hnumber, mapBlocks_shift d.encSectorSize (fun n => decryptSector ssl d.cipher d.masterKey salt
    (d.ivTweak + n * (d.encSectorSize / 512))) m 0 k, Nat.add_zero, LuksDisk.plain, mapBlocks_slice hpos]
  intro n
  rw [decryptSector, ssl.length_decrypt, length_slice]

/-- A range is covered by the sectors it starts and ends in, and by the ones between them. -/
theorem alignedLen_eq {ss : ℕ} (hpos : 0 < ss) (hlt : ss < 2 ^ 32) {count offset : ℕ}
    (hin : offset + count < 2 ^ 63) :
    ∃ m, alignedLen ss count offset = m * ss ∧ offset + count ≤ alignedStart ss offset + m * ss := by
  obtain ⟨m, hm⟩ : ∃ m, (offset + count + ss - 1) / ss = offset / ss + m :=
    Nat.exists_eq_add_of_le (Nat.div_le_div_right (by omega))
  have hend : offset + count ≤ (offset / ss + m) * ss := by
    have hdiv := Nat.div_add_mod (offset + count + ss - 1) ss
    have hmod := Nat.mod_lt (offset + count + ss - 1) hpos
    rw [hm, Nat.mul_comm] at hdiv
    omega
  rw [Nat.add_mul] at hend
  have hstart : alignedEnd ss count offset = alignedStart ss offset + m * ss := by
    rw [alignedEnd, alignedStart, Nat.mod_eq_of_lt (show offset + count + ss - 1 < 2 ^ 64 by omega), hm,
      Nat.add_mul]
  refine ⟨m, ?_, hend⟩
  rw [alignedLen, hstart, if_pos (Nat.le_add_right _ _), Nat.add_sub_cancel_left]

/-- **A read gives the range of the decrypted payload**, wherever it starts and ends. -/
theorem luksdecPread_eq (hreads : ∀ count offset, d.base.bad count offset = false) {salt : List UInt8}
    (hsalt : essivSalt ssl d.cipher d.masterKey = some salt) (hpos : 0 < d.encSectorSize)
    (h512 : 512 ∣ d.encSectorSize) {count offset : ℕ} (hin : offset + count ≤ d.payloadSize) :
    luksdecPread ssl d count offset = some (slice (d.plain ssl salt) offset count) := by
  have hsize := d.diskSize_lt
  unfold LuksDisk.payloadSize at hin
  obtain ⟨m, hlen, hend⟩ := alignedLen_eq hpos d.sectorSize_lt (show offset + count < 2 ^ 63 by omega)
  have hle : alignedStart d.encSectorSize offset ≤ offset := Nat.div_mul_le_self _ _
  have hcbuf : slice d.base.content (d.payloadOffset + alignedStart d.encSectorSize offset)
      (m * d.encSectorSize) =
        slice d.encrypted (alignedStart d.encSectorSize offset) (m * d.encSectorSize) := by
    apply map_congr_left
    intro i _
    rw [LuksDisk.encrypted, Nat.add_assoc]
  have hregion := luksDecryptRegion_payload ssl d hsalt hpos h512 (offset / d.encSectorSize) m
  rw [← alignedStart] at hregion
  simp only [luksdecPread, hlen, baseRead_eq hreads, hcbuf]
  rw [hregion, Option.map_some, drop_slice _ _ (by omega), take_slice _ _ (by omega),
    Nat.add_sub_cancel' hle]

/-- A disk whose IVs cannot be made is not read. -/
theorem luksdecPread_none (hsalt : essivSalt ssl d.cipher d.masterKey = none) (count offset : ℕ) :
    luksdecPread ssl d count offset = none := by
  have hregion : ∀ ss ivBase l, luksDecryptRegion ssl d.cipher d.masterKey ss ivBase l = none := by
    intro ss ivBase l
    rw [luksDecryptRegion, hsalt]
    split_ifs <;> rfl
  rw [luksdecPread]
  split
  · rfl
  · rw [hregion]
    rfl

/-- **Consecutive reads give the same bytes**, however a range is split. -/
theorem readInTurn_eq (hreads : ∀ count offset, d.base.bad count offset = false) {salt : List UInt8}
    (hsalt : essivSalt ssl d.cipher d.masterKey = some salt) (hpos : 0 < d.encSectorSize)
    (h512 : 512 ∣ d.encSectorSize) {counts : List ℕ} {offset : ℕ}
    (hin : offset + counts.sum ≤ d.payloadSize) :
    readInTurn ssl d offset counts = some (slice (d.plain ssl salt) offset counts.sum) := by
  induction counts generalizing offset with
  | nil => rfl
  | cons count counts ih =>
    rw [sum_cons] at hin ⊢
    rw [readInTurn, luksdecPread_eq ssl d hreads hsalt hpos h512 (by omega),
      ih (show offset + count + counts.sum ≤ d.payloadSize by omega), slice_add]
    rfl

/-- **A disk whose IVs can be made is read as its decrypted payload**: any range of it, and any split of
a range into consecutive reads. -/
theorem luksdecPread_slices (hreads : ∀ count offset, d.base.bad count offset = false)
    (husable : d.cipher.Usable) (hpos : 0 < d.encSectorSize) (h512 : 512 ∣ d.encSectorSize) :
    ∃ salt, essivSalt ssl d.cipher d.masterKey = some salt ∧ ∀ offset,
      (∀ count, offset + count ≤ d.payloadSize →
        luksdecPread ssl d count offset = some (slice (d.plain ssl salt) offset count)) ∧
      ∀ counts : List ℕ, offset + counts.sum ≤ d.payloadSize →
        readInTurn ssl d offset counts = some (slice (d.plain ssl salt) offset counts.sum) := by
  obtain ⟨salt, hsalt⟩ := essivSalt_of_usable ssl husable d.masterKey
  exact ⟨salt, hsalt, fun offset => ⟨fun count hin => luksdecPread_eq ssl d hreads hsalt hpos h512 hin,
    fun counts hin => readInTurn_eq ssl d hreads hsalt hpos h512 hin⟩⟩

/-! ## A sector of zeros -/

/-- The key of the bytes 0 to 31. -/
def countedKey : List UInt8 := (range 32).map UInt8.ofNat

/-- Its SHA-512. -/
def countedKeySha512 : List UInt8 :=
  List.flatMap (leBytes 32) [
    0x6f8eff1f84f125a1e612dede40146d9d5549e02b76356981ef0a589ca4ee943d,
    0x49b67384e38ede5fbd7c0c85bd2ef5461004b087d1e31b576b74e5a36218d7a9]

/-- What AES-128-XTS makes of a sector of zeros with this key and the IV 0. -/
def zerosDecrypted : List UInt8 :=
  List.flatMap (leBytes 32) [
    0x71bba05641b4d606646062c8b0a881f9157d49ff643fd3f269bb9092e47f9a2a,
    0x3ef6dcb354a42ae0c811f3730b92d87c0c23ce30d4b5683e2c5a92a2a228d33a,
    0x77a360bdac9ff08a9c8fc1be403630a049bccd3c248f2427a87fac1fe34ef21b,
    0xba78a396f5820274a9c7421b1e8c494f8b952aa60654d690ec75412dc2896bfb,
    0xd997637f2d3b5aea0182de788143bb07440ffd34e90899c6532d63ecbafbe97a,
    0xab7aaa0d6c5b45e0183535bbbf432f884ebd021526ae65845e978991397cf5a0,
    0x3c7ded1c005a8a78d4270e6d05a64d844724c824da75474a2431ec054b7b2c53,
    0x958bb8d56d9d2f3e50d22540b4e70424bda27a95ae5c3726e7669c12e13cdec5,
    0x19f7b95de5da548d1f5bde85136e0d1e77399be21a2c9a2e7a4b0fc9ee0e1cd6,
    0xe0f95296897ff7b80bffe7195fe7720cf57043c40098c6ad8f9d52f85d4a3d4e,
    0x396c57074cfbcf0e64b8fb620459cd9015f4d2709c603f5f527da48faaccce91,
    0x3f1958c66e694a785eabc67a65c35ce025472a0f3a3cfaa797deb1588b9b6acf,
    0x83fd53d24cef14c991f7e8da3fbf0e2bf5ac3135513168da6b0d6621c8e23062,
    0xe2c0dfd701c565c7ee58c9460c7a3b298928b561b5ed5d85fb19aca2ffd8779f,
    0x8c36d7efbcdb18ca322cdfe0cdd8e56bd91559f6cb16712241e2c2215075e240,
    0x429fed50a55451fdc3a0f2f2538449390ffec9cce2b397093608d92ed16378ba]

theorem length_zerosDecrypted : zerosDecrypted.length = 512 := by
  simp [zerosDecrypted]

/-- The primitives at these arguments. -/
def countedSsl : OpenSsl where
  digest := fun md l => if md = .sha512 ∧ l = countedKey then countedKeySha512 else replicate md.size 0
  pbkdf2 := fun _ _ _ _ len => some (replicate len 0)
  aesEcb := fun _ l => l
  encrypt := fun _ _ _ l => l
  decrypt := fun chain key iv l =>
    if chain = .xts ∧ key = countedKey ∧ iv = replicate 16 0 ∧ l = replicate 512 0 then zerosDecrypted
    else l
  length_digest := by
    intro md l
    split_ifs with h
    · rw [h.1]
      rfl
    · exact length_replicate ..
  length_encrypt := fun _ _ _ _ => rfl
  length_decrypt := by
    intro chain key iv l
    split_ifs with h
    · rw [h.2.2.2, length_replicate, length_zerosDecrypted]
    · rfl

/-- A payload of zeros on a disk of 1 MiB. -/
def zerosDisk (cipher : LuksCipher) (h : luksValidKeylen cipher.chain 32 = true) : LuksDisk where
  base := ⟨512, 1048576, fun _ => 0, fun _ _ => false⟩
  payloadOffset := 4096
  masterKey := countedKey
  encSectorSize := 512
  ivTweak := 0
  cipher := cipher
  keylen := h
  sectorSize_lt := by decide
  diskSize_lt := by decide

/-- `aes-xts-plain64`. -/
def xtsDisk : LuksDisk := zerosDisk ⟨.xts, .plain64⟩ rfl

/-- `aes-cbc-essiv:sha512`. -/
def essivDisk : LuksDisk := zerosDisk ⟨.cbc, .essiv .sha512⟩ rfl

/-- A range that is not aligned, and its parts. -/
theorem xtsDisk_slices :
    luksdecPread countedSsl xtsDisk 300 100 = some (slice (xtsDisk.plain countedSsl []) 100 300) ∧
      readInTurn countedSsl xtsDisk 100 [1, 299] =
        some (slice (xtsDisk.plain countedSsl []) 100 300) := by
  obtain ⟨salt, hsalt, h⟩ := luksdecPread_slices countedSsl xtsDisk (fun _ _ => rfl)
    (fun md hmd => by cases hmd) (by decide) ⟨1, rfl⟩
  obtain rfl : [] = salt := Option.some.inj hsalt
  exact ⟨(h 100).1 300 (by decide), (h 100).2 [1, 299] (by decide)⟩

/-- The cipher is accepted, and no byte of the payload can be read. -/
theorem essivDisk_unread :
    luksParseCipher [97, 101, 115]
      [99, 98, 99, 45, 101, 115, 115, 105, 118, 58, 115, 104, 97, 53, 49, 50] = some essivDisk.cipher ∧
      (∀ count offset, essivDisk.base.bad count offset = false) ∧ 512 ∣ essivDisk.encSectorSize ∧
      0 + 1 ≤ essivDisk.payloadSize ∧ luksdecPread countedSsl essivDisk 1 0 = none := by
  refine ⟨by decide, fun _ _ => rfl, ⟨1, rfl⟩, by decide, ?_⟩
  apply luksdecPread_none
  apply essivSalt_of_not_usable
  intro h
  cases h .sha512 rfl

end RecoveryQt
