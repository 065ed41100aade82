import RecoveryQt.Luks.AfSplit
import RecoveryQt.Luks.Payload
import Mathlib.Logic.Equiv.Basic

/-!
# The unlocking of LUKS1 volumes

* `LuksPhdr`, `LuksKeyslot`, `luks1Slot`, `luks1Unlock`: the code;
* `OpenSsl.Correct`: what is assumed of the primitives;
* `keyMaterial`, `HoldsKey`: the reference procedure that stores a key in a keyslot;
* `LuksKeyslot.Fits`: the key material is made up of whole sectors, and the iterations are an `int`;
* `luks1Slot_eq`: such a keyslot gives the key, and any other one nothing;
* **`luks1Unlock_iff`**: when the master key is recovered;
* `oneStripe_locked`: the right passphrase is refused where there is one stripe.
-/

namespace RecoveryQt

open List

/-- `luks_keyslot_t`. -/
structure LuksKeyslot where
  active : UInt32
  passwordIterations : UInt32
  passwordSalt : List UInt8
  keyMaterialOffset : UInt32
  stripes : UInt32

/-- `struct luks_phdr`. -/
structure LuksPhdr where
  cipherName : List UInt8
  cipherMode : List UInt8
  hashSpec : List UInt8
  payloadOffset : UInt32
  keyBytes : UInt32
  mkDigest : List UInt8
  mkDigestSalt : List UInt8
  mkDigestIterations : UInt32
  keyslot : List LuksKeyslot

/-- `LUKS_KEY_ENABLED`. -/
def luksKeyEnabled : UInt32 := 0x00AC71F3

variable (ssl : OpenSsl) (base : Disk) (partOffset : ℕ) (hdr : LuksPhdr) (c : LuksCipher) (md : HashName)
  (pass : List UInt8)

/-- `pbkdf2`: the iterations are passed as an `int`. -/
def pbkdf2 (pass salt : List UInt8) (iter : UInt32) (outlen : ℕ) : Option (List UInt8) :=
  ssl.pbkdf2 md pass salt iter.toBitVec.toInt outlen

/-- The candidate that a keyslot gives: its key material is read, decrypted and merged. -/
def luks1Candidate (ks : LuksKeyslot) : Option (List UInt8) := do
  let derived ← pbkdf2 ssl md pass ks.passwordSalt ks.passwordIterations hdr.keyBytes.toNat
  let km ← baseRead base (partOffset + ks.keyMaterialOffset.toNat * 512)
    (hdr.keyBytes.toNat * ks.stripes.toNat)
  let split ← luksDecryptRegion ssl c derived 512 0 km
  return afMerge ssl md split hdr.keyBytes.toNat ks.stripes.toNat

/-- One round of the loop of `luks1_unlock`: a candidate with the digest of the master key. -/
def luks1Slot (ks : LuksKeyslot) : Option (List UInt8) :=
  if ks.active ≠ luksKeyEnabled then none
  else
    match luks1Candidate ssl base partOffset hdr c md pass ks with
    | none => none
    | some candidate =>
      match pbkdf2 ssl md candidate hdr.mkDigestSalt hdr.mkDigestIterations 20 with
      | none => none
      | some check => if check = hdr.mkDigest then some candidate else none

/-- `LUKS1_SECTOR_SIZE` is a sector size. -/
theorem luks1SectorSize_lt : 512 < 2 ^ 32 := by decide

/-- `luksdec_build_disk`, with a key of a valid length. -/
def luksdecBuildDisk (hbase : base.diskSize < 2 ^ 63) (mk : List UInt8) (payloadOffset : ℕ) :
    Option LuksDisk :=
  if h : luksValidKeylen c.chain mk.length = true then
    some ⟨base, payloadOffset, mk, 512, 0, c, h, luks1SectorSize_lt, hbase⟩
  else none

/-- `luks1_unlock`: the disk for the first keyslot that matches. -/
def luks1Unlock (hbase : base.diskSize < 2 ^ 63) : Option LuksDisk :=
  match luksParseCipher (hdr.cipherName.takeWhile (· ≠ 0)) (hdr.cipherMode.takeWhile (· ≠ 0)) with
  | none => none
  | some c =>
    if luksValidKeylen c.chain hdr.keyBytes.toNat = false then none
    else
      match mdByLuksName (hdr.hashSpec.takeWhile (· ≠ 0)) with
      | none => none
      | some md => (hdr.keyslot.findSome? (luks1Slot ssl base partOffset hdr c md pass)).bind fun mk =>
          luksdecBuildDisk base c hbase mk (partOffset + hdr.payloadOffset.toNat * 512)

/-! ## The reference procedure -/

/-- The primitives do what they are documented to do. -/
structure OpenSsl.Correct : Prop where
  pbkdf2_some : ∀ md pass salt (iter : ℤ) len, 1 ≤ iter →
    ∃ out, ssl.pbkdf2 md pass salt iter len = some out ∧ out.length = len
  pbkdf2_none : ∀ md pass salt (iter : ℤ) len, iter < 1 → ssl.pbkdf2 md pass salt iter len = none
  length_aesEcb : ∀ key block, key.length = 32 → block.length = 16 → (ssl.aesEcb key block).length = 16
  decrypt_encrypt : ∀ chain key iv l, luksValidKeylen chain key.length = true → iv.length = 16 →
    l.length = 512 → ssl.decrypt chain key iv (ssl.encrypt chain key iv l) = l

/-- The encryption of whole sectors, each with the IV of its number. -/
def encryptSectors (key salt : List UInt8) (l : List UInt8) : List UInt8 :=
  mapBlocks 512 (fun k => ssl.encrypt c.chain key (sectorIv ssl c salt k)) (l.length / 512) 0 l

/-- Zeros up to the end of a sector. -/
def padSector (l : List UInt8) : List UInt8 := l ++ replicate ((512 - l.length % 512) % 512) 0

/-- The key material of a keyslot: the master key is split, and encrypted with the key that the
passphrase gives. -/
def keyMaterial (mk : List UInt8) (stripes : List (List UInt8)) (ks : LuksKeyslot) : Option (List UInt8) := do
  let derived ← ssl.pbkdf2 md pass ks.passwordSalt ks.passwordIterations.toNat mk.length
  let salt ← essivSalt ssl c derived
  return encryptSectors ssl c derived salt (padSector (afSplit ssl md stripes mk))

/-- The keyslot was made for this passphrase and this master key, with random stripes. -/
structure HoldsKey (mk : List UInt8) (ks : LuksKeyslot) : Prop where
  active : ks.active = luksKeyEnabled
  stored : ∃ stripes area, stripes.length + 1 = ks.stripes.toNat ∧ (∀ s ∈ stripes, s.length = mk.length) ∧
    keyMaterial ssl c md pass mk stripes ks = some area ∧
    slice base.content (partOffset + ks.keyMaterialOffset.toNat * 512) area.length = area

/-- The key material is made up of whole sectors, and the iterations are positive as an `int`. -/
structure LuksKeyslot.Fits (ks : LuksKeyslot) : Prop where
  sectors : hdr.keyBytes.toNat * ks.stripes.toNat % 512 = 0
  iterations : ks.passwordIterations.toNat < 2 ^ 31
  digestIterations : hdr.mkDigestIterations.toNat < 2 ^ 31

instance (ks : LuksKeyslot) : Decidable (ks.Fits hdr) :=
  decidable_of_iff (hdr.keyBytes.toNat * ks.stripes.toNat % 512 = 0 ∧
    ks.passwordIterations.toNat < 2 ^ 31 ∧ hdr.mkDigestIterations.toNat < 2 ^ 31)
    ⟨fun h => ⟨h.1, h.2.1, h.2.2⟩, fun h => ⟨h.sectors, h.iterations, h.digestIterations⟩⟩

variable {ssl base partOffset hdr c md pass}

/-- As an `int`, a small number of iterations is what it is. -/
theorem pbkdf2_of_lt {pass salt : List UInt8} {iter : UInt32} (h : iter.toNat < 2 ^ 31) (outlen : ℕ) :
    pbkdf2 ssl md pass salt iter outlen = ssl.pbkdf2 md pass salt iter.toNat outlen := by
  rw [pbkdf2, BitVec.toInt_eq_toNat_of_lt (by rw [UInt32.toNat_toBitVec]; omega), UInt32.toNat_toBitVec]

/-- A large one is negative, and refused. -/
theorem pbkdf2_of_le (hssl : ssl.Correct) {pass salt : List UInt8} {iter : UInt32} (h : 2 ^ 31 ≤ iter.toNat)
    (outlen : ℕ) : pbkdf2 ssl md pass salt iter outlen = none := by
  refine hssl.pbkdf2_none _ _ _ _ _ ?_
  have hlt := iter.toNat_lt
  rw [BitVec.toInt_eq_toNat_cond, UInt32.toNat_toBitVec, if_neg (by omega)]
  omega

theorem length_sectorIv (hssl : ssl.Correct) {key salt : List UInt8} (hsalt : essivSalt ssl c key = some salt)
    (sector : ℕ) : (sectorIv ssl c salt sector).length = 16 := by
  have hseed : (leBytes 8 sector ++ replicate 8 0).length = 16 := by
    rw [length_append, length_leBytes, length_replicate]
  rw [essivSalt] at hsalt
  rw [sectorIv]
  cases hivm : c.ivm with
  | plain => rw [length_append, length_leBytes, length_replicate]
  | plain64 => exact hseed
  | essiv md =>
    rw [hivm] at hsalt
    dsimp only at hsalt
    rw [ssl.length_digest] at hsalt
    split_ifs at hsalt with hsize
    obtain rfl := Option.some.inj hsalt
    refine hssl.length_aesEcb _ _ ?_ hseed
    rw [ssl.length_digest]
    cases md <;> simp [HashName.size] at hsize ⊢

theorem padSector_of_whole {l : List UInt8} (h : l.length % 512 = 0) : padSector l = l := by
  rw [padSector, h, Nat.sub_zero, Nat.mod_self, replicate_zero, append_nil]

theorem length_encryptSectors {key salt l : List UInt8} (h : l.length % 512 = 0) :
    (encryptSectors ssl c key salt l).length = l.length := by
  rw [encryptSectors, length_mapBlocks (fun k b hb => (ssl.length_encrypt _ _ _ _).trans hb) _ _
    (Nat.div_mul_le_self _ _), Nat.div_mul_cancel (Nat.dvd_of_mod_eq_zero h)]

/-- **A region that was encrypted is decrypted.** -/
theorem luksDecryptRegion_encryptSectors (hssl : ssl.Correct) {key salt l : List UInt8}
    (hkey : luksValidKeylen c.chain key.length = true) (hsalt : essivSalt ssl c key = some salt)
    (h : l.length % 512 = 0) :
    luksDecryptRegion ssl c key 512 0 (encryptSectors ssl c key salt l) = some l := by
  have hlength : l.length = l.length / 512 * 512 := (Nat.div_mul_cancel (Nat.dvd_of_mod_eq_zero h)).symm
  have hnumber : (fun k => decryptSector ssl c key salt (0 + k * 512 / 512)) =
      fun k => decryptSector ssl c key salt k := by
    funext k
    rw [Nat.zero_add, Nat.mul_div_cancel k (by decide)]
  rw [luksDecryptRegion_eq ssl hkey hsalt (by decide) 0 (by rw [length_encryptSectors h, h]),
    length_encryptSectors h, hnumber, encryptSectors, mapBlocks_inverse _ _ _ _ hlength]
  · intro k b hb
    rw [ssl.length_encrypt, hb]
  · intro k b hb
    exact hssl.decrypt_encrypt _ _ _ _ hkey (length_sectorIv hssl hsalt k) hb

/-- What the reference procedure stores. -/
theorem keyMaterial_eq {mk : List UInt8} {stripes : List (List UInt8)} {ks : LuksKeyslot} {area : List UInt8}
    (h : keyMaterial ssl c md pass mk stripes ks = some area) : ∃ derived salt,
      ssl.pbkdf2 md pass ks.passwordSalt ks.passwordIterations.toNat mk.length = some derived ∧
      essivSalt ssl c derived = some salt ∧
      area = encryptSectors ssl c derived salt (padSector (afSplit ssl md stripes mk)) := by
  rw [keyMaterial] at h
  obtain ⟨derived, hderived, h⟩ := Option.bind_eq_some_iff.mp h
  obtain ⟨salt, hsalt, h⟩ := Option.bind_eq_some_iff.mp h
  exact ⟨derived, salt, hderived, hsalt, (Option.some.inj h).symm⟩

/-- The candidate of a keyslot with whole sectors is the master key, and there is none without. -/
theorem luks1Candidate_eq (hssl : ssl.Correct) (hreads : ∀ count offset, base.bad count offset = false)
    {mk : List UInt8} (hkey : luksValidKeylen c.chain mk.length = true) (hbytes : hdr.keyBytes.toNat = mk.length)
    {ks : LuksKeyslot} (h : HoldsKey ssl base partOffset c md pass mk ks)
    (hiter : ks.passwordIterations.toNat < 2 ^ 31) :
    luks1Candidate ssl base partOffset hdr c md pass ks =
      if mk.length * ks.stripes.toNat % 512 = 0 then some mk else none := by
  obtain ⟨stripes, area, hcount, hstripes, harea, hstored⟩ := h.stored
  obtain ⟨derived, salt, hderived, hsalt, rfl⟩ := keyMaterial_eq harea
  have hlen : derived.length = mk.length := by
    by_cases hpos : 1 ≤ (ks.passwordIterations.toNat : ℤ)
    · obtain ⟨out, hout, hlen⟩ := hssl.pbkdf2_some md pass ks.passwordSalt _ mk.length hpos
      rwa [Option.some.inj (hderived.symm.trans hout)]
    · rw [hssl.pbkdf2_none _ _ _ _ _ (by omega)] at hderived
      cases hderived
  have hsplit := length_afSplit ssl md hstripes
  rw [hcount] at hsplit
  rw [luks1Candidate, pbkdf2_of_lt hiter, hbytes, hderived, Option.bind_eq_bind, Option.bind_some,
    baseRead_eq hreads, Option.bind_some]
  split_ifs with hwhole
  · rw [← hsplit] at hwhole
    rw [padSector_of_whole hwhole, length_encryptSectors hwhole, hsplit] at hstored
    rw [hstored, luksDecryptRegion_encryptSectors hssl (hlen.symm ▸ hkey) hsalt hwhole,
      Option.bind_some, ← hcount, afMerge_afSplit ssl md hstripes]
    rfl
  · rw [luksDecryptRegion_ragged ssl c derived 512 0 (by rwa [length_slice])]
    rfl

/-- **A keyslot that holds the key** gives it if it fits, and nothing otherwise. -/
theorem luks1Slot_eq (hssl : ssl.Correct) (hreads : ∀ count offset, base.bad count offset = false)
    {mk : List UInt8} (hkey : luksValidKeylen c.chain mk.length = true) (hbytes : hdr.keyBytes.toNat = mk.length)
    (hdigest : ssl.pbkdf2 md mk hdr.mkDigestSalt hdr.mkDigestIterations.toNat 20 = some hdr.mkDigest)
    {ks : LuksKeyslot} (h : HoldsKey ssl base partOffset c md pass mk ks) :
    luks1Slot ssl base partOffset hdr c md pass ks = if ks.Fits hdr then some mk else none := by
  rw [luks1Slot, if_neg (not_not_intro h.active)]
  by_cases hiter : ks.passwordIterations.toNat < 2 ^ 31
  · rw [luks1Candidate_eq hssl hreads hkey hbytes h hiter]
    by_cases hwhole : mk.length * ks.stripes.toNat % 512 = 0
    · rw [if_pos hwhole]
      by_cases hcheck : hdr.mkDigestIterations.toNat < 2 ^ 31
      · simp only [pbkdf2_of_lt hcheck, hdigest, if_true]
        rw [if_pos ⟨hbytes ▸ hwhole, hiter, hcheck⟩]
      · simp only [pbkdf2_of_le hssl (Nat.le_of_not_lt hcheck)]
        rw [if_neg fun hfits => hcheck hfits.digestIterations]
    · rw [if_neg hwhole, if_neg fun hfits => hwhole (hbytes ▸ hfits.sectors)]
  · rw [luks1Candidate, pbkdf2_of_le hssl (Nat.le_of_not_lt hiter), if_neg fun hfits => hiter hfits.iterations]
    rfl

theorem luksdecBuildDisk_eq {hbase : base.diskSize < 2 ^ 63} {mk : List UInt8}
    (hkey : luksValidKeylen c.chain mk.length = true) (payloadOffset : ℕ) :
    ∃ d, luksdecBuildDisk base c hbase mk payloadOffset = some d ∧ d.masterKey = mk := by
  rw [luksdecBuildDisk, dif_pos hkey]
  exact ⟨_, rfl, rfl⟩

/-- **The master key is recovered** exactly when some keyslot that holds it for the passphrase fits. The
other keyslots in use have stripes, and their candidates do not have its digest. -/
theorem luks1Unlock_iff (hssl : ssl.Correct) (hreads : ∀ count offset, base.bad count offset = false)
    (hbase : base.diskSize < 2 ^ 63)
    (hcipher : luksParseCipher (hdr.cipherName.takeWhile (· ≠ 0)) (hdr.cipherMode.takeWhile (· ≠ 0)) = some c)
    (hkeylen : luksValidKeylen c.chain hdr.keyBytes.toNat = true)
    (hhash : mdByLuksName (hdr.hashSpec.takeWhile (· ≠ 0)) = some md)
    {mk : List UInt8} (hbytes : mk.length = hdr.keyBytes.toNat)
    (hdigest : ssl.pbkdf2 md mk hdr.mkDigestSalt hdr.mkDigestIterations.toNat 20 = some hdr.mkDigest)
    (hslots : ∀ ks ∈ hdr.keyslot, ks.active = luksKeyEnabled → HoldsKey ssl base partOffset c md pass mk ks ∨
      0 < ks.stripes ∧ luks1Slot ssl base partOffset hdr c md pass ks = none) :
    (∃ d, luks1Unlock ssl base partOffset hdr pass hbase = some d ∧ d.masterKey = mk) ↔
      ∃ ks ∈ hdr.keyslot, HoldsKey ssl base partOffset c md pass mk ks ∧ ks.Fits hdr := by
  have hkey : luksValidKeylen c.chain mk.length = true := hbytes ▸ hkeylen
  -- each keyslot gives the master key or nothing
  have hslot : ∀ ks ∈ hdr.keyslot, luks1Slot ssl base partOffset hdr c md pass ks ≠ none →
      HoldsKey ssl base partOffset c md pass mk ks ∧ ks.Fits hdr ∧
        luks1Slot ssl base partOffset hdr c md pass ks = some mk := by
    intro ks hks hne
    by_cases hactive : ks.active = luksKeyEnabled
    · rcases hslots ks hks hactive with hholds | ⟨-, hnone⟩
      · have heq := luks1Slot_eq hssl hreads hkey hbytes.symm hdigest hholds
        by_cases hfits : ks.Fits hdr
        · exact ⟨hholds, hfits, by rw [heq, if_pos hfits]⟩
        · exact absurd (by rw [heq, if_neg hfits]) hne
      · exact absurd hnone hne
    · exact absurd (by rw [luks1Slot, if_pos hactive]) hne
  rw [luks1Unlock, hcipher]
  dsimp only
  rw [if_neg (by rw [hkeylen]; exact Bool.noConfusion), hhash]
  constructor
  · rintro ⟨d, hd, -⟩
    obtain ⟨key, hfind, -⟩ := Option.bind_eq_some_iff.mp hd
    obtain ⟨ks, hks, hsome⟩ := exists_of_findSome?_eq_some hfind
    obtain ⟨hholds, hfits, -⟩ := hslot ks hks (by rw [hsome]; exact Option.some_ne_none key)
    exact ⟨ks, hks, hholds, hfits⟩
  · rintro ⟨ks, hks, hholds, hfits⟩
    have hopens : luks1Slot ssl base partOffset hdr c md pass ks = some mk := by
      rw [luks1Slot_eq hssl hreads hkey hbytes.symm hdigest hholds, if_pos hfits]
    cases hfind : hdr.keyslot.findSome? (luks1Slot ssl base partOffset hdr c md pass) with
    | none =>
      rw [findSome?_eq_none_iff.mp hfind ks hks] at hopens
      cases hopens
    | some key =>
      -- the first keyslot that matches need not be this one
      obtain ⟨first, hfirst, hsome⟩ := exists_of_findSome?_eq_some hfind
      obtain ⟨-, -, hmk⟩ := hslot first hfirst (by rw [hsome]; exact Option.some_ne_none key)
      obtain rfl := Option.some.inj (hsome.symm.trans hmk)
      dsimp only
      rw [hfind, Option.bind_some]
      exact luksdecBuildDisk_eq hkey _

/-! ## A keyslot with stripes of 64 bytes -/

/-- The SHA-512 of 68 zeros: what a stripe of zeros is diffused to. -/
def zerosSha512 : List UInt8 :=
  List.flatMap (leBytes 32) [
    0xf06c3dc0d7b9b3ebea08f486af4918d725e21f842b1706e5ef7b0db6c2bc8e03,
    0x0d68bf2ebe3d08f86ff1c5715b249c34893661e6d0d5e69bb3b77b3e2030ccc6]

/-- What PBKDF2 with SHA-512 gives for the passphrase `pw` after 1000 iterations. -/
def derivedKey : List UInt8 :=
  List.flatMap (leBytes 32) [
    0x27896132825aed0f1d35f90915ac7bd8a495813bc69e22bc63d28def4f3b7b91,
    0x0e6c1b5116389da9ceb3b4896a8302bbb345087082b88530c30b005f5401640c]

/-- The master key: the bytes 0 to 63. -/
def sampleMasterKey : List UInt8 := (range 64).map UInt8.ofNat

theorem length_sampleMasterKey : sampleMasterKey.length = 64 := by
  rw [sampleMasterKey, length_map, length_range]

/-- Its digest. -/
def sampleDigest : List UInt8 :=
  leBytes 20 0x242e66456817d3f9312081c291ef6bc2407e11a6

/-- Seven stripes that cancel the buffer one after the other. -/
def sampleStripes : List (List UInt8) := replicate 64 0 :: replicate 6 zerosSha512

/-- The eight stripes of the master key. -/
def eightStripes : List UInt8 := sampleStripes.flatten ++ xorBytes zerosSha512 sampleMasterKey

/-- Their encryption with AES-256-XTS. -/
def eightStripesEncrypted : List UInt8 :=
  List.flatMap (leBytes 32) [
    0x993cf3b2a0b9c459aaacfc13a06c1dae074da54a01e61c2e7b50e17cde178fda,
    0xc8a3c45f3693144925a77dff255c6fe04797ff106c5f50789e119fa4dce30fc4,
    0x85e0b294689273a45ca1b1ae816cbf6fff8953844730dbf79c7ed48b6e256a4f,
    0x16f476b2f1ba026014fa4709680cc1d35f36cc5e839e189397e9bf8a0c85b978,
    0x8afe0214a3304f34832e07dc4bf4b6ace64845d76525022f8ade9ddfdb0107d1,
    0xad27f82f12b698bc77333be63a10234fee036c327786814e5e36d428cec54a1f,
    0x7ede989c196b11e3e479550b4732915fbfde70c42692922e5227541f0f976e1e,
    0xdb3988a7f30cb24ef63f79b782b3fb3c92b0a1adae361b976cfb911b2cd0c23e,
    0x08fca123bd3006c8a5c39da9496bb5eb0ecde747d202e1f18615bc9a192f441e,
    0xc59b9c0da243071eac33f4eb9f8d1298c3fbb3c0cf1a0010697fe7d0f5a980ba,
    0xc3f6f9af2427a639d40b913818f05d09ec88e2e6d9f2b809521ecd4fd36bc199,
    0xfa7cb645c60e98ce40f7e8dfc7e047b2c7c51e2bdee73ff6ba4b0e37fbb64940,
    0x635af83982f352a8803c302dc22c923307331876a687234813f78bc28b8e9283,
    0x6582c3b06333d690f96df00159f4cb304f247ed12f32da6b0b957f7854e7d084,
    0x5741bdf3442515db02eab9e0a7cc3f51b4e1f9648e6f40879512f4ba57767e2c,
    0x1caf9e9790ad0329955674f87a77ea70d7f427fced49f7285468ec94129c2cc6]

/-- The only stripe of the master key, up to the end of its sector. -/
def oneStripe : List UInt8 := sampleMasterKey ++ replicate 448 0

/-- Its encryption with AES-256-XTS. -/
def oneStripeEncrypted : List UInt8 :=
  List.flatMap (leBytes 32) [
    0xee37204fe65a79fc6cd55a9d1e1e6fd79ffb47c59fd7be3ec68a14097320a121,
    0xd9418e8a4c84fff0c9af84c0833aff79645007829a0930f89e3d87c880d7c041,
    0xdea3e3847f5a3b94eb91ae8c47f214292c2b812ba9fe4ad742ff671bb14b5232,
    0x113effaee496a99bf99fc954e0e42f5890499158a9b4c60e73035d2d550cd982,
    0x96d5a59d5f93604ffc2083475486bfe6fce2530f404b4ea629bccf77ad96fc6e,
    0xf05a2ff6d36b9917376794126e0537da258fa18208c4f857399e9f95a64a30a0,
    0xf4fdf6e3a3b31d16374471a066b425cd05ef3be4e6d527a17e0e8be70a1de087,
    0x1f4cbecddfbd33c1c5bc54ae93c892e02ae5d9747413a162abe5e7d80fdf34c4,
    0x69ca257f294ee01580b3b94c610ee03068867e23b66c147455887f477bae8a47,
    0x8ea57f438e37255bbea65a5d88eba63da06bae96e89109b21dc02135ddd43bb2,
    0x453be73da31e8de2940e716e4f3ba2ffc63a088282feb8912951cf393bdb660d,
    0x5250e6eff915b361c3d0d281465d6babd7507f5236044ba04399a0a92d8cb31c,
    0xd3375aa6f925b9cf3bc8a1cfa4fc969b29cdfcfbc17a8c3a3b6d932ebc660384,
    0xad74cd7a596d56401cbd79c3eafe3ab4c6d9fd8ebfd29577369efac0308464f9,
    0xea1b907bf481263fdc6c02889f8518963b16894cc27876fd2bad9caec06b5503,
    0x0b5fdc7aca293c397f8599ae627fc021e8d8e9f0ac967392c5be57681124462a]

/-- A list is swapped with one of its length. -/
theorem length_swap {a b : List UInt8} (h : a.length = b.length) (l : List UInt8) :
    (Equiv.swap a b l).length = l.length := by
  rw [Equiv.swap_apply_def]
  split_ifs with ha hb
  · rw [ha, h]
  · rw [hb, h]
  · rfl

/-- The primitives at these arguments, for a sector and its encryption. -/
def sampleSsl (plain encrypted : List UInt8) (h : plain.length = encrypted.length) : OpenSsl where
  digest := fun md l => if md = .sha512 ∧ l = replicate 68 0 then zerosSha512 else replicate md.size 0
  pbkdf2 := fun md pass salt iter len =>
    if iter < 1 then none
    else if md = .sha512 ∧ pass = [112, 119] ∧ salt = replicate 32 1 ∧ iter = 1000 ∧ len = 64 then
      some derivedKey
    else if md = .sha512 ∧ pass = sampleMasterKey ∧ salt = replicate 32 1 ∧ iter = 1000 ∧ len = 20 then
      some sampleDigest
    else some (replicate len 0)
  aesEcb := fun _ l => l
  encrypt := fun chain key iv =>
    if chain = .xts ∧ key = derivedKey ∧ iv = replicate 16 0 then Equiv.swap plain encrypted else id
  decrypt := fun chain key iv =>
    if chain = .xts ∧ key = derivedKey ∧ iv = replicate 16 0 then Equiv.swap plain encrypted else id
  length_digest := by
    intro md l
    split_ifs with hzeros
    · rw [hzeros.1]
      simp [zerosSha512, HashName.size]
    · exact length_replicate ..
  length_encrypt := by
    intro chain key iv l
    split_ifs
    · exact length_swap h l
    · rfl
  length_decrypt := by
    intro chain key iv l
    split_ifs
    · exact length_swap h l
    · rfl

section Sample

variable {plain encrypted : List UInt8} {h : plain.length = encrypted.length}

theorem sampleSsl_correct : (sampleSsl plain encrypted h).Correct where
  pbkdf2_some := by
    intro md pass salt iter len hiter
    simp only [sampleSsl, if_neg (not_lt.mpr hiter)]
    split_ifs with hpass hkey
    · exact ⟨_, rfl, by rw [hpass.2.2.2.2]; simp [derivedKey]⟩
    · exact ⟨_, rfl, by rw [hkey.2.2.2.2]; simp [sampleDigest]⟩
    · exact ⟨_, rfl, length_replicate ..⟩
  pbkdf2_none := fun _ _ _ _ _ hiter => if_pos hiter
  length_aesEcb := fun _ _ _ hblock => hblock
  decrypt_encrypt := by
    intro chain key iv l _ _ _
    simp only [sampleSsl]
    split_ifs
    · exact Equiv.swap_apply_self plain encrypted l
    · rfl

/-- A disk with key material at the sector 8. -/
def sampleDisk (area : List UInt8) : Disk :=
  ⟨512, 1048576, fun i => if i < 4096 then 0 else area.getD (i - 4096) 0, fun _ _ => false⟩

theorem sampleDisk_lt (area : List UInt8) : (sampleDisk area).diskSize < 2 ^ 63 :=
  show 1048576 < 2 ^ 63 by decide

theorem slice_sampleDisk (area : List UInt8) : slice (sampleDisk area).content 4096 area.length = area := by
  refine (slice_eq_of_getElem? fun i hi => ?_).symm
  rw [sampleDisk]
  dsimp only
  rw [if_neg (by omega), Nat.add_sub_cancel_left, getD_eq_getElem?_getD, getElem?_eq_getElem hi,
    Option.getD_some]

/-- The keyslot in use. -/
def sampleSlot (stripes : UInt32) : LuksKeyslot := ⟨luksKeyEnabled, 1000, replicate 32 1, 8, stripes⟩

/-- A header with `aes`, `xts-plain64` and `sha512`, and seven keyslots that are not in use. -/
def sampleHeader (stripes : UInt32) : LuksPhdr where
  cipherName := [97, 101, 115] ++ replicate 29 0
  cipherMode := [120, 116, 115, 45, 112, 108, 97, 105, 110, 54, 52] ++ replicate 21 0
  hashSpec := [115, 104, 97, 53, 49, 50] ++ replicate 26 0
  payloadOffset := 4096
  keyBytes := 64
  mkDigest := sampleDigest
  mkDigestSalt := replicate 32 1
  mkDigestIterations := 1000
  keyslot := sampleSlot stripes :: replicate 7 ⟨0x0000DEAD, 0, replicate 32 0, 0, 4000⟩

theorem sampleHeader_digest (n : UInt32) :
    (sampleSsl plain encrypted h).pbkdf2 .sha512 sampleMasterKey (sampleHeader n).mkDigestSalt
      (sampleHeader n).mkDigestIterations.toNat 20 = some (sampleHeader n).mkDigest := by
  simp [sampleSsl, sampleHeader]

/-- The keyslot holds the key when the sector is the padded split of it. -/
theorem sampleSlot_holdsKey {stripes : List (List UInt8)} {n : UInt32} (hcount : stripes.length + 1 = n.toNat)
    (hstripes : ∀ s ∈ stripes, s.length = sampleMasterKey.length)
    (hplain : padSector (afSplit (sampleSsl plain encrypted h) .sha512 stripes sampleMasterKey) = plain)
    (hlength : plain.length = 512) :
    HoldsKey (sampleSsl plain encrypted h) (sampleDisk encrypted) 0 ⟨.xts, .plain64⟩ .sha512 [112, 119]
      sampleMasterKey (sampleSlot n) := by
  have hoffset : 0 + (sampleSlot n).keyMaterialOffset.toNat * 512 = 4096 := by
    simp [sampleSlot]
  refine ⟨rfl, stripes, encrypted, hcount, hstripes, ?_, by rw [hoffset, slice_sampleDisk]⟩
  have hderived : (sampleSsl plain encrypted h).pbkdf2 .sha512 [112, 119] (sampleSlot n).passwordSalt
      (sampleSlot n).passwordIterations.toNat sampleMasterKey.length = some derivedKey := by
    rw [length_sampleMasterKey]
    simp [sampleSsl, sampleSlot]
  have hsector : (sampleSsl plain encrypted h).encrypt .xts derivedKey (replicate 16 0) plain = encrypted := by
    simp [sampleSsl]
  rw [keyMaterial, hderived, Option.bind_eq_bind, Option.bind_some, essivSalt, Option.bind_some, hplain,
    encryptSectors, hlength, mapBlocks, mapBlocks, append_nil, take_of_length_le hlength.le]
  exact congrArg some hsector

/-- A stripe of zeros is diffused to their digest. -/
theorem afDiffuse_zeros :
    afDiffuse (sampleSsl plain encrypted h) .sha512 (replicate 64 0) = zerosSha512 := by
  have hblock : (leBytes 4 0).reverse ++ replicate 64 (0 : UInt8) = replicate 68 0 :=
    (replicate_append_replicate (n := 4) (m := 64))
  have hhash : afHash (sampleSsl plain encrypted h) .sha512 0 (replicate 64 0) = zerosSha512 := by
    rw [afHash, hblock]
    show (if HashName.sha512 = .sha512 ∧ replicate 68 (0 : UInt8) = replicate 68 0 then zerosSha512
      else replicate 64 0) = _
    rw [if_pos ⟨rfl, rfl⟩]
  rw [afDiffuse, HashName.size, length_replicate, show 64 / 64 = 1 from rfl, mapBlocks, mapBlocks, take_of_length_le (length_replicate ..).le, hhash,
    if_neg (by decide), append_nil, append_nil]

end Sample

theorem length_zerosSha512 : zerosSha512.length = 64 := by
  simp [zerosSha512]

theorem length_eightStripes : eightStripes.length = 512 := by
  simp [eightStripes, sampleStripes, length_zerosSha512, length_sampleMasterKey]

theorem length_oneStripe : oneStripe.length = 512 := by
  rw [oneStripe, length_append, length_sampleMasterKey, length_replicate]

/-- The primitives for the eight stripes. -/
def eightStripesSsl : OpenSsl :=
  sampleSsl eightStripes eightStripesEncrypted
    (length_eightStripes.trans (by simp [eightStripesEncrypted]))

/-- The primitives for the only stripe. -/
def oneStripeSsl : OpenSsl :=
  sampleSsl oneStripe oneStripeEncrypted (length_oneStripe.trans (by simp [oneStripeEncrypted]))

/-- Each stripe cancels the buffer. -/
theorem afBuffer_sampleStripes :
    afBuffer eightStripesSsl .sha512 sampleMasterKey.length sampleStripes = zerosSha512 := by
  have hrun : ∀ n, (replicate n zerosSha512).foldl
      (fun buf stripe => afDiffuse eightStripesSsl .sha512 (xorBytes buf stripe)) zerosSha512 = zerosSha512 := by
    intro n
    induction n with
    | zero => rfl
    | succ n ih =>
      rw [replicate_succ, foldl_cons, xorBytes_self, length_zerosSha512, eightStripesSsl, afDiffuse_zeros]
      exact ih
  rw [afBuffer, length_sampleMasterKey, sampleStripes, foldl_cons, xorBytes_self, length_replicate,
    eightStripesSsl, afDiffuse_zeros]
  exact hrun 6

theorem eightStripes_holdKey : HoldsKey eightStripesSsl (sampleDisk eightStripesEncrypted) 0
    ⟨.xts, .plain64⟩ .sha512 [112, 119] sampleMasterKey (sampleSlot 8) := by
  have hsplit : afSplit eightStripesSsl .sha512 sampleStripes sampleMasterKey = eightStripes := by
    rw [afSplit, afBuffer_sampleStripes, eightStripes]
  refine @sampleSlot_holdsKey _ _ _ sampleStripes _ rfl ?_ ?_ length_eightStripes
  · intro s hs
    rw [length_sampleMasterKey]
    rcases mem_cons.mp hs with rfl | hs
    · exact length_replicate ..
    · rw [eq_of_mem_replicate hs, length_zerosSha512]
  · have hwhole : eightStripes.length % 512 = 0 := by rw [length_eightStripes]
    rw [← eightStripesSsl, hsplit, padSector_of_whole hwhole]

theorem oneStripe_holdsKey : HoldsKey oneStripeSsl (sampleDisk oneStripeEncrypted) 0
    ⟨.xts, .plain64⟩ .sha512 [112, 119] sampleMasterKey (sampleSlot 1) := by
  have hsplit : afSplit oneStripeSsl .sha512 [] sampleMasterKey = sampleMasterKey := by
    apply ext_getElem
    · rw [length_afSplit _ _ (by simp)]
      rfl
    · intro i _ _
      simp [afSplit, afBuffer, xorBytes]
  refine @sampleSlot_holdsKey _ _ _ [] _ rfl (by simp) ?_ length_oneStripe
  rw [← oneStripeSsl, hsplit, padSector, length_sampleMasterKey, oneStripe]

/-- The other keyslots are not in use. -/
theorem eq_sampleSlot {n : UInt32} {ks : LuksKeyslot} (hks : ks ∈ (sampleHeader n).keyslot)
    (hactive : ks.active = luksKeyEnabled) : ks = sampleSlot n := by
  rcases mem_cons.mp hks with rfl | hks
  · rfl
  · rw [eq_of_mem_replicate hks] at hactive
    exact absurd hactive (by decide)

theorem sampleHeader_cipher (n : UInt32) :
    luksParseCipher ((sampleHeader n).cipherName.takeWhile (· ≠ 0))
      ((sampleHeader n).cipherMode.takeWhile (· ≠ 0)) = some ⟨.xts, .plain64⟩ := by
  rfl

theorem sampleHeader_hash (n : UInt32) :
    mdByLuksName ((sampleHeader n).hashSpec.takeWhile (· ≠ 0)) = some .sha512 := by
  rfl

/-- The master key in eight stripes is recovered. -/
theorem eightStripes_unlocked : ∃ d, luks1Unlock eightStripesSsl (sampleDisk eightStripesEncrypted) 0
    (sampleHeader 8) [112, 119] (sampleDisk_lt _) = some d ∧ d.masterKey = sampleMasterKey := by
  refine (luks1Unlock_iff sampleSsl_correct (fun _ _ => rfl) (sampleDisk_lt _) (sampleHeader_cipher 8) rfl
    (sampleHeader_hash 8) length_sampleMasterKey (sampleHeader_digest 8) ?_).mpr
      ⟨sampleSlot 8, mem_cons_self, eightStripes_holdKey, by decide⟩
  intro ks hks hactive
  rw [eq_sampleSlot hks hactive]
  exact Or.inl eightStripes_holdKey

/-- **One stripe is no whole sector**: the passphrase is right, and no keyslot matches. -/
theorem oneStripe_locked : oneStripeSsl.Correct ∧
    luksParseCipher ((sampleHeader 1).cipherName.takeWhile (· ≠ 0))
      ((sampleHeader 1).cipherMode.takeWhile (· ≠ 0)) = some ⟨.xts, .plain64⟩ ∧
    luksValidKeylen .xts (sampleHeader 1).keyBytes.toNat = true ∧
    oneStripeSsl.pbkdf2 .sha512 sampleMasterKey (sampleHeader 1).mkDigestSalt
      (sampleHeader 1).mkDigestIterations.toNat 20 = some (sampleHeader 1).mkDigest ∧
    sampleSlot 1 ∈ (sampleHeader 1).keyslot ∧
    HoldsKey oneStripeSsl (sampleDisk oneStripeEncrypted) 0 ⟨.xts, .plain64⟩ .sha512 [112, 119]
      sampleMasterKey (sampleSlot 1) ∧
    luks1Unlock oneStripeSsl (sampleDisk oneStripeEncrypted) 0 (sampleHeader 1) [112, 119]
      (sampleDisk_lt _) = none := by
  have hcorrect : oneStripeSsl.Correct := sampleSsl_correct
  refine ⟨hcorrect, sampleHeader_cipher 1, rfl, sampleHeader_digest 1, mem_cons_self,
    oneStripe_holdsKey, ?_⟩
  have hslot : ∀ ks ∈ (sampleHeader 1).keyslot, luks1Slot oneStripeSsl (sampleDisk oneStripeEncrypted) 0
      (sampleHeader 1) ⟨.xts, .plain64⟩ .sha512 [112, 119] ks = none := by
    intro ks hks
    by_cases hactive : ks.active = luksKeyEnabled
    · have hbytes : (sampleHeader 1).keyBytes.toNat = sampleMasterKey.length := by
        rw [length_sampleMasterKey]
        rfl
      have heq := luks1Slot_eq hcorrect (fun _ _ => rfl) rfl hbytes
        (sampleHeader_digest 1) oneStripe_holdsKey
      rw [eq_sampleSlot hks hactive, heq, if_neg (by decide)]
    · rw [luks1Slot, if_pos hactive]
  rw [luks1Unlock, sampleHeader_cipher, sampleHeader_hash]
  dsimp only
  rw [findSome?_eq_none_iff.mpr hslot]
  rfl

end RecoveryQt
