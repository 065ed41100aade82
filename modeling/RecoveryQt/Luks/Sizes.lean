import RecoveryQt.Luks.Open

/-!
# The sizes that a LUKS header gives

* `LuksNote.Sound`: a product that does not wrap, a positive multiple of 512 bytes, and stripes that fill their buffer;
* `length_baseRead`, `length_luksDecryptRegion`: the buffers have the sizes that were asked for;
* `allNotes_luks1Attempt_iff`, `allNotes_luks2Match`, `allNotes_luksdecRead_iff`: the two versions, and the reads;
* `LuksSizes`: LUKS1 keyslots that come to be merged have stripes, and LUKS2 segments that are opened have a sector size;
* **`luksdecOpen_sound_iff`**: all sizes are sound exactly then;
* `luks2Disk`: a disk for a digest and a sector size.
-/

namespace RecoveryQt

open List Attempt

/-- What is expected of the sizes. -/
def LuksNote.Sound : LuksNote → Prop
  | .product a b => a * b < 2 ^ 64
  | .sector size => 0 < size ∧ 512 ∣ size
  | .merge blocksize stripes held => 1 ≤ stripes ∧ held = blocksize * stripes

/-! ## Buffers -/

theorem length_preadChunks {base : Disk} {offset left : ℕ} {l : List UInt8} (h : preadChunks base offset left = some l) :
    l.length = left := by
  induction left using Nat.strong_induction_on generalizing offset l with
  | _ left ih =>
    rw [preadChunks] at h
    split_ifs at h with hzero
    · rw [← Option.some.inj h, hzero, length_nil]
    · split at h
      · cases h
      · obtain ⟨rest, hrest, rfl⟩ := Option.map_eq_some_iff.mp h
        rw [length_append, length_map, length_range, ih _ (by omega) hrest]
        omega

theorem length_baseRead {base : Disk} {offset len : ℕ} {l : List UInt8} (h : baseRead base offset len = some l) :
    l.length = len := by
  unfold baseRead at h
  obtain ⟨tmp, htmp, rfl⟩ := Option.map_eq_some_iff.mp h
  have hss : 0 < if 0 < base.sectorSize then base.sectorSize else 512 := by
    split_ifs with hpos
    · exact hpos
    · decide
  generalize (if 0 < base.sectorSize then base.sectorSize else 512) = ss at hss htmp
  have hround := Nat.div_add_mod (offset - offset / ss * ss + len + ss - 1) ss
  have hmod := Nat.mod_lt (offset - offset / ss * ss + len + ss - 1) hss
  rw [Nat.mul_comm] at hround
  rw [length_take, length_drop, length_preadChunks htmp]
  omega

theorem length_luksDecryptRegion {ssl : OpenSsl} {c : LuksCipher} {key : List UInt8} {sectorSize ivBase : ℕ}
    {l out : List UInt8} (h : luksDecryptRegion ssl c key sectorSize ivBase l = some out) : out.length = l.length := by
  unfold luksDecryptRegion at h
  split_ifs at h with hkey hsize
  split at h
  next => cases h
  next salt _ =>
    obtain rfl := Option.some.inj h
    have hsector : ∀ k b, b.length = sectorSize →
        (decryptSector ssl c key salt (ivBase + k * sectorSize / 512) b).length = sectorSize := fun k b hb =>
      (ssl.length_decrypt _ _ _ _).trans hb
    rw [length_mapBlocks hsector _ _ (Nat.div_mul_le_self _ _)]
    exact Nat.div_mul_cancel (Nat.dvd_of_mod_eq_zero (not_not.mp (not_or.mp hsize).2))

theorem le_of_luksValidKeylen {chain : Chain} {n : ℕ} (h : luksValidKeylen chain n = true) : n ≤ 64 := by
  cases chain with
  | xts =>
    rcases of_decide_eq_true h with rfl | rfl <;> decide
  | cbc =>
    rcases of_decide_eq_true h with rfl | rfl | rfl <;> decide

/-- A key and a number of stripes that is an `unsigned int`. -/
theorem mul_stripes_lt {n stripes : ℕ} (hn : n ≤ 128) (hstripes : stripes < 2 ^ 32) : n * stripes < 2 ^ 64 :=
  lt_of_le_of_lt (Nat.mul_le_mul hn hstripes.le) (by decide)

theorem sound_sector512 : (LuksNote.sector 512).Sound := ⟨by decide, dvd_rfl⟩

variable {ssl : OpenSsl} {argon2 : Argon2} {base : Disk} {partOffset : ℕ} {pass : List UInt8}

/-! ## LUKS1 -/

section Luks1

variable {hdr : LuksPhdr} {c : LuksCipher} {md : HashName} {ks : LuksKeyslot}

theorem luks1Product_lt (hkey : hdr.keyBytes.toNat ≤ 64) (ks : LuksKeyslot) :
    hdr.keyBytes.toNat * ks.stripes.toNat < 2 ^ 64 := mul_stripes_lt (by omega) ks.stripes.toNat_lt

theorem allNotes_luks1Split (hkey : hdr.keyBytes.toNat ≤ 64) :
    AllNotes LuksNote.Sound (luks1Split ssl base partOffset pass hdr c md ks) := by
  have hoffset : ks.keyMaterialOffset.toNat * 512 < 2 ^ 64 := by
    have := ks.keyMaterialOffset.toNat_lt
    omega
  simp only [luks1Split, allNotes_bind, allNotes_require, allNotes_ofOption, allNotes_note, true_and, implies_true,
    and_true]
  exact fun _ _ _ _ => ⟨luks1Product_lt hkey ks, fun _ _ => ⟨hoffset, fun _ _ _ _ => sound_sector512⟩⟩

/-- The buffer of the decrypted key material. -/
theorem length_luks1Split (hkey : hdr.keyBytes.toNat ≤ 64) {split : List UInt8}
    (h : (luks1Split ssl base partOffset pass hdr c md ks).result = .ok split) :
    split.length = hdr.keyBytes.toNat * ks.stripes.toNat := by
  simp only [luks1Split, result_bind_eq_ok, result_ofOption_eq_ok] at h
  obtain ⟨-, -, derived, -, -, -, -, -, km, hkm, -, -, hsplit⟩ := h
  rw [length_luksDecryptRegion hsplit, length_baseRead hkm, Nat.mod_eq_of_lt (luks1Product_lt hkey ks)]

/-- **A keyslot of LUKS1**: what comes to be merged has stripes. -/
theorem allNotes_luks1Attempt_iff (hkey : hdr.keyBytes.toNat ≤ 64) :
    AllNotes LuksNote.Sound (luks1Attempt ssl base partOffset pass hdr c md ks) ↔
      ∀ split, (luks1Split ssl base partOffset pass hdr c md ks).result = .ok split → ks.stripes ≠ 0 := by
  rw [luks1Attempt, allNotes_bind, and_iff_right (allNotes_luks1Split hkey)]
  refine forall₂_congr fun split hsplit => ?_
  have hlength := length_luks1Split hkey hsplit
  have hpos : ks.stripes ≠ 0 ↔ 1 ≤ ks.stripes.toNat := by
    rw [Ne, ← UInt32.toNat_inj]
    exact Nat.pos_iff_ne_zero.symm
  rw [allNotes_bind, allNotes_note, hpos]
  refine ⟨fun h => h.1.1, fun h => ⟨⟨h, hlength⟩, fun _ _ => ?_⟩⟩
  rw [if_neg (hpos.mpr h)]
  have hpayload : hdr.payloadOffset.toNat * 512 < 2 ^ 64 := by
    have := hdr.payloadOffset.toNat_lt
    omega
  simp only [allNotes_bind, allNotes_require, allNotes_ofOption, allNotes_note, allNotes_pure, true_and, implies_true,
    and_true]
  exact fun _ _ _ _ => hpayload

end Luks1

/-! ## LUKS2 -/

theorem allNotes_luks2Candidate (ks : JNode) :
    AllNotes LuksNote.Sound (luks2Candidate ssl argon2 base partOffset pass ks) := by
  simp only [luks2Candidate, allNotes_bind, allNotes_require, allNotes_ofOption, allNotes_note, allNotes_pure, true_and,
    result_require_eq_ok, result_ofOption_eq_ok, implies_true, and_true]
  intro _ _ kdf _ af _ area _ areaCipher _ _ hsize _ _ md _ _ hstripes derived _
  have hproduct := mul_stripes_lt hsize.2 (Nat.mod_lt (jsonU64 af (ascii "stripes") 0) (by decide : 0 < 2 ^ 32))
  refine ⟨hproduct, fun _ _ km hkm => ⟨sound_sector512, fun _ _ split hsplit => ?_⟩⟩
  refine ⟨Nat.pos_of_ne_zero hstripes, ?_⟩
  rw [length_luksDecryptRegion hsplit, length_baseRead hkm, Nat.mod_eq_of_lt hproduct]

theorem allNotes_luks2FindDigest {P : LuksNote → Prop} (digests : JNode) (id : Option (List UInt8)) :
    AllNotes P (luks2FindDigest digests id) := by
  unfold luks2FindDigest
  cases id with
  | some id => exact allNotes_ofOption _
  | none =>
    dsimp only
    split_ifs
    · exact allNotes_giveUp
    · exact allNotes_fault

/-- **A keyslot of LUKS2** computes with sound sizes. -/
theorem allNotes_luks2Match (digests segments : JNode) (ks : Option (List UInt8) × JNode) :
    AllNotes LuksNote.Sound (luks2Match ssl argon2 base partOffset pass digests segments ks) := by
  simp only [luks2Match, allNotes_bind, allNotes_require, allNotes_ofOption, allNotes_pure, implies_true, and_true]
  exact ⟨allNotes_luks2Candidate ks.2, fun _ _ => allNotes_luks2FindDigest digests ks.1⟩

/-! ## Reads -/

/-- **Reads of the disk** compute with sound sizes if its sector size is sound. -/
theorem allNotes_luksdecRead_iff {d : LuksData} :
    (∀ count offset, AllNotes LuksNote.Sound (luksdecRead ssl base d count offset)) ↔
      0 < d.encSectorSize ∧ 512 ∣ d.encSectorSize := by
  constructor
  · intro h
    have hnotes := h 0 0
    rw [luksdecRead, allNotes_bind, allNotes_note] at hnotes
    exact hnotes.1
  · intro hsector count offset
    have hfirst : offset.toNat / d.encSectorSize * d.encSectorSize < 2 ^ 64 :=
      (Nat.div_mul_le_self _ _).trans_lt offset.toNat_lt
    have hlast : (offset.toNat + count.toNat + d.encSectorSize - 1) % 2 ^ 64 / d.encSectorSize * d.encSectorSize < 2 ^ 64 :=
      (Nat.div_mul_le_self _ _).trans_lt (Nat.mod_lt _ (by decide))
    rw [luksdecRead, allNotes_bind, allNotes_note]
    refine ⟨hsector, fun _ _ => ?_⟩
    rw [if_neg hsector.1.ne']
    simp only [allNotes_bind, allNotes_ofOption, allNotes_note, allNotes_pure, true_and, implies_true, and_true]
    exact ⟨hfirst, fun _ _ => ⟨hlast, fun _ _ _ _ => hsector⟩⟩

/-! ## Headers -/

variable (ssl argon2 base partOffset pass)

/-- The keyslots of LUKS1 whose key material comes to be merged have stripes. -/
def Luks1Stripes (hdr : LuksPhdr) : Prop :=
  ∀ spec, luks1Spec hdr = some spec →
    ∀ ks ∈ tried (luks1Attempt ssl base partOffset pass hdr spec.1 spec.2) hdr.keyslot,
      ∀ split, (luks1Split ssl base partOffset pass hdr spec.1 spec.2 ks).result = .ok split → ks.stripes ≠ 0

/-- The segment of LUKS2 that is opened has a sector size that is a positive multiple of 512. -/
def Luks2Sectors (hdr : ℕ → UInt8) : Prop :=
  ∀ doc, luks2Document base partOffset hdr = some doc →
    ∀ ks ∈ tried (luks2Attempt ssl argon2 base partOffset pass doc.digests doc.segments) (jsonChildren doc.keyslots),
      ∀ m, (luks2Match ssl argon2 base partOffset pass doc.digests doc.segments ks).result = .ok m →
        0 < jsonU64 m.segment.2 (ascii "sector_size") 512 % 2 ^ 32 ∧
          512 ∣ jsonU64 m.segment.2 (ascii "sector_size") 512 % 2 ^ 32

/-- What the header must be like for all sizes to be sound. -/
def LuksSizes : Prop :=
  ∀ hdr, luksHeader base partOffset = some hdr →
    (beAt hdr 6 2 = 1 → Luks1Stripes ssl base partOffset pass (luksPhdr hdr)) ∧
    (beAt hdr 6 2 = 2 → Luks2Sectors ssl argon2 base partOffset pass hdr)

/-- All sizes are sound: those of the opening, and those of the reads of the disk. -/
def SoundSizes (m : Attempt LuksNote LuksData) : Prop :=
  AllNotes LuksNote.Sound m ∧ ∀ d, m.result = .ok d →
    ∀ count offset, AllNotes LuksNote.Sound (luksdecRead ssl base d count offset)

variable {ssl argon2 base partOffset pass}

theorem keyBytes_of_luks1Spec {hdr : LuksPhdr} {spec : LuksCipher × HashName} (h : luks1Spec hdr = some spec) :
    hdr.keyBytes.toNat ≤ 64 := by
  obtain ⟨c, -, h⟩ := Option.bind_eq_some_iff.mp h
  split_ifs at h with hkey
  exact le_of_luksValidKeylen hkey

theorem soundSizes_luks1Open_iff (hdr : LuksPhdr) :
    SoundSizes ssl base (luks1Open ssl base partOffset pass hdr) ↔ Luks1Stripes ssl base partOffset pass hdr := by
  have hread : ∀ d, (luks1Open ssl base partOffset pass hdr).result = .ok d →
      ∀ count offset, AllNotes LuksNote.Sound (luksdecRead ssl base d count offset) := by
    intro d hd
    simp only [luks1Open, result_bind_eq_ok, result_ofOption_eq_ok, result_firstDone_eq_ok] at hd
    obtain ⟨spec, -, ks, -, hd⟩ := hd
    obtain ⟨split, -, -, -, rfl⟩ := luks1Attempt_eq_ok.mp hd
    exact allNotes_luksdecRead_iff.mpr sound_sector512
  rw [SoundSizes, and_iff_left hread, luks1Open, allNotes_bind, and_iff_right (allNotes_ofOption _), Luks1Stripes]
  simp only [result_ofOption_eq_ok, allNotes_firstDone]
  exact forall₂_congr fun spec hspec => forall₂_congr fun ks _ => allNotes_luks1Attempt_iff (keyBytes_of_luks1Spec hspec)

theorem soundSizes_luks2Open_iff (hdr : ℕ → UInt8) :
    SoundSizes ssl base (luks2Open ssl argon2 base partOffset pass hdr) ↔
      Luks2Sectors ssl argon2 base partOffset pass hdr := by
  have hnotes : AllNotes LuksNote.Sound (luks2Open ssl argon2 base partOffset pass hdr) := by
    rw [luks2Open, allNotes_bind]
    refine ⟨allNotes_ofOption _, fun doc _ => allNotes_firstDone.mpr fun ks _ => ?_⟩
    rw [luks2Attempt, allNotes_bind]
    exact ⟨allNotes_luks2Match _ _ ks, fun _ _ => allNotes_pure _⟩
  rw [SoundSizes, and_iff_right hnotes, Luks2Sectors]
  simp only [allNotes_luksdecRead_iff, luks2Open, result_bind_eq_ok, result_ofOption_eq_ok, result_firstDone_eq_ok,
    luks2Attempt, result_pure]
  constructor
  · intro h doc hdoc ks hks m hm
    exact h (m.data partOffset) ⟨doc, hdoc, ks, hks, m, hm, rfl⟩
  · rintro h d ⟨doc, hdoc, ks, hks, m, hm, hd⟩
    obtain rfl := Except.ok.inj hd
    exact h doc hdoc ks hks m hm

/-- **The sizes are sound** exactly if the keyslots of LUKS1 that come to be merged have stripes, and the segment of LUKS2
that is opened has a sector size that is a positive multiple of 512. -/
theorem luksdecOpen_sound_iff (ssl : OpenSsl) (argon2 : Argon2) (base : Disk) (partOffset : ℕ) (pass : List UInt8) :
    SoundSizes ssl base (luksdecOpen ssl argon2 base partOffset pass) ↔ LuksSizes ssl argon2 base partOffset pass := by
  unfold luksdecOpen LuksSizes
  cases hhdr : luksHeader base partOffset with
  | none => exact iff_of_true ⟨nofun, nofun⟩ nofun
  | some hdr =>
    rw [ofOption_bind rfl]
    simp only [Option.some.injEq, forall_eq']
    split_ifs with hone htwo
    · rw [soundSizes_luks1Open_iff]
      exact ⟨fun h => ⟨fun _ => h, fun h2 => absurd (hone.symm.trans h2) (by decide)⟩, fun h => h.1 hone⟩
    · rw [soundSizes_luks2Open_iff]
      exact ⟨fun h => ⟨fun h1 => absurd h1 hone, fun _ => h⟩, fun h => h.2 htwo⟩
    · exact iff_of_true ⟨nofun, nofun⟩ ⟨fun h1 => absurd h1 hone, fun h2 => absurd h2 htwo⟩

/-! ## A document with a sector size of zero -/

/-- A document of LUKS2 with one keyslot of eight stripes, for a digest and a sector size. -/
def sampleText (digest sectorSize : String) : List UInt8 :=
  ascii "\x7b\"keyslots\":\x7b\"0\":\x7b\"type\":\"luks2\",\"key_size\":64,\"kdf\":\x7b\"type\":\"pbkdf2\"," ++
  ascii "\"hash\":\"sha512\",\"salt\":\"AQEBAQEBAQEBAQEBAQEBAQEBAQEBAQEBAQEBAQEBAQE=\",\"iterations\":1000\x7d," ++
  ascii "\"af\":\x7b\"hash\":\"sha512\",\"stripes\":8\x7d," ++
  ascii "\"area\":\x7b\"encryption\":\"aes-xts-plain64\",\"offset\":\"8192\"\x7d\x7d\x7d," ++
  ascii "\"digests\":\x7b\"0\":\x7b\"keyslots\":[\"0\"],\"segments\":[\"0\"],\"hash\":\"sha512\",\"iterations\":1000," ++
  ascii "\"salt\":\"AQEBAQEBAQEBAQEBAQEBAQEBAQEBAQEBAQEBAQEBAQE=\",\"digest\":\"" ++ ascii digest ++
  ascii "\"\x7d\x7d,\"segments\":\x7b\"0\":\x7b\"encryption\":\"aes-xts-plain64\",\"offset\":\"16384\"," ++
  ascii "\"sector_size\":" ++ ascii sectorSize ++ ascii "\x7d\x7d\x7d"

/-- A disk with a header of 4624 bytes, and the key material of the eight stripes at the offset 8192. -/
def luks2Disk (digest sectorSize : String) : Disk :=
  ⟨512, 1048576, fun i =>
    if i < 4096 then [0x4c, 0x55, 0x4b, 0x53, 0xba, 0xbe, 0, 2, 0, 0, 0, 0, 0, 0, 0x12, 0x10].getD i 0
    else if i < 8192 then (sampleText digest sectorSize).getD (i - 4096) 0
    else eightStripesEncrypted.getD (i - 8192) 0, fun _ _ => false⟩

theorem luks2Disk_reads (digest sectorSize : String) (count offset : ℕ) :
    (luks2Disk digest sectorSize).bad count offset = false := rfl

/-- The text, padded with zeros, and the key material behind it. -/
theorem slice_luks2Disk (digest sectorSize : String) (n : ℕ) : slice (luks2Disk digest sectorSize).content 4096 n =
    (sampleText digest sectorSize).takeD (min n 4096) 0 ++ eightStripesEncrypted.takeD (n - 4096) 0 := by
  have hn : n = min n 4096 + (n - 4096) := by omega
  have htext : ∀ i < min n 4096,
      (luks2Disk digest sectorSize).content (4096 + i) = (sampleText digest sectorSize).getD i 0 := by
    intro i hi
    have h4096 : ¬ 4096 + i < 4096 := by omega
    have h8192 : 4096 + i < 8192 := by omega
    simp only [luks2Disk, if_neg h4096, if_pos h8192, Nat.add_sub_cancel_left]
  have hbehind : ∀ i < n - 4096,
      (luks2Disk digest sectorSize).content (4096 + min n 4096 + i) = eightStripesEncrypted.getD i 0 := by
    intro i hi
    have h4096 : ¬ 4096 + min n 4096 + i < 4096 := by omega
    have h8192 : ¬ 4096 + min n 4096 + i < 8192 := by omega
    have hidx : 4096 + min n 4096 + i - 8192 = i := by omega
    simp only [luks2Disk, if_neg h4096, if_neg h8192, hidx]
  calc slice (luks2Disk digest sectorSize).content 4096 n
      = slice (luks2Disk digest sectorSize).content 4096 (min n 4096 + (n - 4096)) := congrArg _ hn
    _ = (sampleText digest sectorSize).takeD (min n 4096) 0 ++ eightStripesEncrypted.takeD (n - 4096) 0 := by
        rw [slice_add, slice_shift htext, slice_shift hbehind, slice_getD, slice_getD]

/-- The digest of the master key, and sectors of no bytes. -/
def zeroSectorDisk : Disk := luks2Disk "phF+QMJr75HCgSAx+dMXaEVmLiQ=" "0"

/-- Argon2 that fails. -/
def noArgon2 : Argon2 := fun _ _ _ _ _ _ _ => none

set_option maxRecDepth 100000 in
theorem zeroSectorDisk_opens :
    (luksdecOpen eightStripesSsl noArgon2 zeroSectorDisk 0 (ascii "pw")).result.toOption.map LuksData.encSectorSize =
      some 0 := by
  simp only [luksdecOpen, luksHeader, luks2Open, luks2Document, zeroSectorDisk, baseRead_eq (luks2Disk_reads _ _),
    zero_add, slice_luks2Disk]
  decide +kernel

/-- It is opened, and a read of it divides by zero. -/
theorem zeroSectorDisk_not_sound :
    ¬ SoundSizes eightStripesSsl zeroSectorDisk
      (luksdecOpen eightStripesSsl noArgon2 zeroSectorDisk 0 (ascii "pw")) := by
  intro h
  obtain ⟨d, hd, hsector⟩ := Option.map_eq_some_iff.mp zeroSectorDisk_opens
  have hpos := (allNotes_luksdecRead_iff.mp (h.2 d (result_eq_ok_of_toOption hd))).1
  exact absurd hsector hpos.ne'

end RecoveryQt
