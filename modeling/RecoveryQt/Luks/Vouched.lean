import RecoveryQt.Luks.Sizes

/-!
# The digest that vouches for a key

A disk is opened with the key of a keyslot whose digest equals the stored one. The digest of LUKS1 has 20 bytes; a digest of
LUKS2 has as many as are decoded, and names its keyslots and segments.

* `LuksDigest`: the stored digest under the stored iterations; `Luks1Vouched`, `Luks2Vouched`: what it has to do with the disk;
* `luks1Vouched_iff`, `luks2Vouched_iff`: one keyslot;
* `LuksServes`: the digests that serve; **`luksdecOpen_vouched_iff`**: a disk that is opened is vouched for exactly by those;
* `emptyDigestDisk`: a disk with an empty digest.
-/

namespace RecoveryQt

open List Attempt

variable (ssl : OpenSsl) (argon2 : Argon2) (base : Disk) (partOffset : ℕ) (pass : List UInt8)

/-! ## What vouches -/

/-- The digest of a key, under the stored salt and iterations, is the stored one, of at least one byte. -/
def LuksDigest (md : HashName) (key salt : List UInt8) (iterations : ℕ) (stored : List UInt8) : Prop :=
  1 ≤ stored.length ∧ ssl.pbkdf2 md key salt iterations stored.length = some stored

/-- The keyslot is in use and gives the key of the disk, which has the digest of the header. -/
structure Luks1Vouched (hdr : LuksPhdr) (spec : LuksCipher × HashName) (ks : LuksKeyslot) (d : LuksData) : Prop where
  active : ks.active = luksKeyEnabled
  candidate : luks1Candidate ssl base partOffset hdr spec.1 spec.2 pass ks = some d.masterKey
  complete : hdr.mkDigest.length = 20
  digest : LuksDigest ssl spec.2 d.masterKey hdr.mkDigestSalt hdr.mkDigestIterations.toNat hdr.mkDigest

/-- A digest names a keyslot or a segment. -/
def DigestNames (digest : JNode) (key : String) (id : Option (List UInt8)) : Prop :=
  ∃ s, id = some s ∧ cString s ∈ digestStrings digest key

/-- The keyslot is one of LUKS2 and gives the key of the disk; the digest names it and the segment that is opened, and is
that of the key. -/
structure Luks2Vouched (doc : LuksDocument) (ks : Option (List UInt8) × JNode) (m : LuksMatch) (d : LuksData) : Prop where
  keyslot : ks ∈ jsonChildren doc.keyslots
  active : jsonCStr ks.2 "type" = some (ascii "luks2")
  candidate : (luks2Candidate ssl argon2 base partOffset pass ks.2).result = .ok d.masterKey
  digest : m.digest ∈ (jsonChildren doc.digests).map Prod.snd
  segment : m.segment ∈ jsonChildren doc.segments
  opened : d = m.data partOffset
  ofKeyslot : DigestNames m.digest "keyslots" ks.1
  ofSegment : DigestNames m.digest "segments" m.segment.1
  stored : ∃ md salt want, luks2Digest m.digest = some (md, salt, want) ∧
    LuksDigest ssl md d.masterKey salt (jsonU64 m.digest (ascii "iterations") 0) want

/-! ## LUKS1 -/

section Luks1

variable {ssl base partOffset pass} {hdr : LuksPhdr} {spec : LuksCipher × HashName} {ks : LuksKeyslot} {d : LuksData}

/-- The merged key material is the candidate. -/
theorem luks1Candidate_of_split (hkey : hdr.keyBytes.toNat ≤ 64) {split : List UInt8}
    (h : (luks1Split ssl base partOffset pass hdr spec.1 spec.2 ks).result = .ok split) :
    ks.active = luksKeyEnabled ∧ luks1Candidate ssl base partOffset hdr spec.1 spec.2 pass ks =
      some (afMerge ssl spec.2 split hdr.keyBytes.toNat ks.stripes.toNat) := by
  simp only [luks1Split, result_bind_eq_ok, result_ofOption_eq_ok, result_require_eq_ok] at h
  obtain ⟨-, hactive, derived, hderived, -, -, -, -, km, hkm, -, -, hsplit⟩ := h
  rw [Nat.mod_eq_of_lt (luks1Product_lt hkey ks)] at hkm
  refine ⟨hactive, ?_⟩
  rw [luks1Candidate, hderived, Option.bind_eq_bind, Option.bind_some, hkm, Option.bind_some, hsplit]
  rfl

/-- **A keyslot of LUKS1** that gives the disk is vouched for, if the iterations are an `int` or make no difference. -/
theorem luks1Vouched_iff (hkey : hdr.keyBytes.toNat ≤ 64) (hlen : hdr.mkDigest.length = 20)
    (h : (luks1Attempt ssl base partOffset pass hdr spec.1 spec.2 ks).result = .ok d) :
    Luks1Vouched ssl base partOffset pass hdr spec ks d ↔ hdr.mkDigestIterations.toNat < 2 ^ 31 ∨
      ssl.pbkdf2 spec.2 d.masterKey hdr.mkDigestSalt hdr.mkDigestIterations.toNat 20 = some hdr.mkDigest := by
  obtain ⟨split, hsplit, -, hcheck, rfl⟩ := luks1Attempt_eq_ok.mp h
  obtain ⟨hactive, hcandidate⟩ := luks1Candidate_of_split hkey hsplit
  constructor
  · exact fun hvouched => .inr (hlen ▸ hvouched.digest.2)
  · intro hiter
    refine ⟨hactive, hcandidate, hlen, by rw [hlen]; decide, ?_⟩
    rw [hlen]
    rcases hiter with hlt | heq
    · rwa [← pbkdf2_of_lt hlt]
    · exact heq

end Luks1

/-! ## LUKS2 -/

section Luks2

variable {ssl argon2 base partOffset pass} {doc : LuksDocument} {ks : Option (List UInt8) × JNode} {m : LuksMatch}

/-- What a keyslot that matches has. -/
theorem luks2Match_eq_ok (h : (luks2Match ssl argon2 base partOffset pass doc.digests doc.segments ks).result = .ok m) :
    (luks2Candidate ssl argon2 base partOffset pass ks.2).result = .ok m.candidate ∧
      (luks2FindDigest doc.digests ks.1).result = .ok m.digest ∧
      luks2VerifyDigest ssl m.digest m.candidate = true ∧ luks2Segment doc.segments m.digest = some m.segment := by
  simp only [luks2Match, result_bind_eq_ok, result_ofOption_eq_ok, result_require_eq_ok, result_pure] at h
  obtain ⟨candidate, hcandidate, digest, hdigest, -, hverify, segment, hsegment, cipher, -, -, -, hm⟩ := h
  obtain rfl := Except.ok.inj hm
  exact ⟨hcandidate, hdigest, hverify, hsegment⟩

theorem active_of_candidate {ks : JNode} {key : List UInt8}
    (h : (luks2Candidate ssl argon2 base partOffset pass ks).result = .ok key) :
    jsonCStr ks "type" = some (ascii "luks2") := by
  rw [luks2Candidate, result_bind_eq_ok] at h
  obtain ⟨_, htype, -⟩ := h
  exact result_require_eq_ok.mp htype

/-- The digest that is found names the keyslot. -/
theorem names_of_findDigest {digests digest : JNode} {id : Option (List UInt8)}
    (h : (luks2FindDigest digests id).result = .ok digest) :
    digest ∈ (jsonChildren digests).map Prod.snd ∧ DigestNames digest "keyslots" id := by
  unfold luks2FindDigest at h
  cases id with
  | some id =>
    obtain ⟨dg, hdg, rfl⟩ := Option.map_eq_some_iff.mp (result_ofOption_eq_ok.mp h)
    exact ⟨mem_map_of_mem (mem_of_find?_eq_some hdg), id, rfl, by simpa using find?_some hdg⟩
  | none =>
    dsimp only at h
    split_ifs at h
    · exact absurd h (result_giveUp_ne_ok _)
    · exact absurd h (result_fault_ne_ok _)

/-- The segment is one of the document. -/
theorem mem_of_luks2Segment {segments digest : JNode} {segment : Option (List UInt8) × JNode}
    (h : luks2Segment segments digest = some segment) : segment ∈ jsonChildren segments := by
  unfold luks2Segment at h
  split at h
  · cases segments with
    | obj child =>
      obtain ⟨x, hx, rfl⟩ := Option.map_eq_some_iff.mp h
      exact mem_map_of_mem (mem_of_find?_eq_some hx)
    | _ => cases h
  · exact mem_of_head? h

/-- The digest is that of the key, under the iterations as an `int`. -/
theorem digest_of_verify {digest : JNode} {key : List UInt8} (h : luks2VerifyDigest ssl digest key = true) :
    ∃ md salt want, luks2Digest digest = some (md, salt, want) ∧
      pbkdf2 ssl md key salt (UInt32.ofNat (jsonU64 digest (ascii "iterations") 0)) want.length = some want := by
  unfold luks2VerifyDigest at h
  cases hdigest : luks2Digest digest with
  | none =>
    rw [hdigest] at h
    cases h
  | some x =>
    rw [hdigest] at h
    exact ⟨x.1, x.2.1, x.2.2, rfl, of_decide_eq_true h⟩

/-- The digest is not empty and names the segment, and its iterations are an `int` or make no difference. -/
def LuksMatch.Serves (ssl : OpenSsl) (m : LuksMatch) : Prop :=
  DigestNames m.digest "segments" m.segment.1 ∧
    ∃ md salt want, luks2Digest m.digest = some (md, salt, want) ∧ want ≠ [] ∧
      (jsonU64 m.digest (ascii "iterations") 0 < 2 ^ 31 ∨
        ssl.pbkdf2 md m.candidate salt (jsonU64 m.digest (ascii "iterations") 0) want.length = some want)

/-- **A keyslot of LUKS2** that gives the disk is vouched for, if its digest serves. -/
theorem luks2Vouched_iff (hks : ks ∈ jsonChildren doc.keyslots)
    (h : (luks2Match ssl argon2 base partOffset pass doc.digests doc.segments ks).result = .ok m) :
    Luks2Vouched ssl argon2 base partOffset pass doc ks m (m.data partOffset) ↔ m.Serves ssl := by
  obtain ⟨hcandidate, hfind, hverify, hsegment⟩ := luks2Match_eq_ok h
  obtain ⟨hmem, hnames⟩ := names_of_findDigest hfind
  obtain ⟨md, salt, want, hdigest, hcheck⟩ := digest_of_verify hverify
  constructor
  · intro hvouched
    obtain ⟨md', salt', want', hdigest', hne, hstored⟩ := hvouched.stored
    exact ⟨hvouched.ofSegment, md', salt', want', hdigest', length_pos_iff.mp hne, .inr hstored⟩
  · rintro ⟨hsegments, md', salt', want', hdigest', hne, hiter⟩
    obtain ⟨rfl, rfl, rfl⟩ : md = md' ∧ salt = salt' ∧ want = want' := by
      have heq := hdigest.symm.trans hdigest'
      simpa using heq
    refine ⟨hks, active_of_candidate hcandidate, hcandidate, hmem, mem_of_luks2Segment hsegment, rfl, hnames, hsegments,
      md, salt, want, hdigest, length_pos_iff.mpr hne, ?_⟩
    rcases hiter with hlt | heq
    · have hint : (UInt32.ofNat (jsonU64 m.digest (ascii "iterations") 0)).toNat = jsonU64 m.digest (ascii "iterations") 0 :=
        UInt32.toNat_ofNat_of_lt' (lt_trans hlt (by decide))
      rw [pbkdf2_of_lt (by rwa [hint]), hint] at hcheck
      exact hcheck
    · exact heq

end Luks2

/-! ## Headers -/

/-- The disk is vouched for by the keyslot that is opened. -/
def LuksVouched (d : LuksData) : Prop :=
  ∃ hdr, luksHeader base partOffset = some hdr ∧
    ((beAt hdr 6 2 = 1 ∧ ∃ spec, luks1Spec (luksPhdr hdr) = some spec ∧
      ∃ ks ∈ tried (luks1Attempt ssl base partOffset pass (luksPhdr hdr) spec.1 spec.2) (luksPhdr hdr).keyslot,
        (luks1Attempt ssl base partOffset pass (luksPhdr hdr) spec.1 spec.2 ks).result = .ok d ∧
          Luks1Vouched ssl base partOffset pass (luksPhdr hdr) spec ks d) ∨
    (beAt hdr 6 2 = 2 ∧ ∃ doc, luks2Document base partOffset hdr = some doc ∧
      ∃ ks ∈ tried (luks2Attempt ssl argon2 base partOffset pass doc.digests doc.segments) (jsonChildren doc.keyslots),
        ∃ m, (luks2Match ssl argon2 base partOffset pass doc.digests doc.segments ks).result = .ok m ∧
          Luks2Vouched ssl argon2 base partOffset pass doc ks m d))

/-- The iterations of the digest of LUKS1 are an `int`, or make no difference for the key of the disk. -/
def Luks1Serves (hdr : LuksPhdr) : Prop :=
  ∀ spec, luks1Spec hdr = some spec →
    ∀ ks ∈ tried (luks1Attempt ssl base partOffset pass hdr spec.1 spec.2) hdr.keyslot,
      ∀ d, (luks1Attempt ssl base partOffset pass hdr spec.1 spec.2 ks).result = .ok d →
        hdr.mkDigestIterations.toNat < 2 ^ 31 ∨
          ssl.pbkdf2 spec.2 d.masterKey hdr.mkDigestSalt hdr.mkDigestIterations.toNat 20 = some hdr.mkDigest

/-- The digest of the keyslot of LUKS2 that matches serves. -/
def Luks2Serves (hdr : ℕ → UInt8) : Prop :=
  ∀ doc, luks2Document base partOffset hdr = some doc →
    ∀ ks ∈ tried (luks2Attempt ssl argon2 base partOffset pass doc.digests doc.segments) (jsonChildren doc.keyslots),
      ∀ m, (luks2Match ssl argon2 base partOffset pass doc.digests doc.segments ks).result = .ok m → m.Serves ssl

/-- The digests that serve. -/
def LuksServes : Prop :=
  ∀ hdr, luksHeader base partOffset = some hdr →
    (beAt hdr 6 2 = 1 → Luks1Serves ssl base partOffset pass (luksPhdr hdr)) ∧
    (beAt hdr 6 2 = 2 → Luks2Serves ssl argon2 base partOffset pass hdr)

variable {ssl argon2 base partOffset pass}

theorem length_mkDigest (hdr : ℕ → UInt8) : (luksPhdr hdr).mkDigest.length = 20 := length_slice hdr 112 20

theorem luks2Attempt_eq_ok {digests segments : JNode} {ks : Option (List UInt8) × JNode} {d : LuksData} :
    (luks2Attempt ssl argon2 base partOffset pass digests segments ks).result = .ok d ↔
      ∃ m, (luks2Match ssl argon2 base partOffset pass digests segments ks).result = .ok m ∧ m.data partOffset = d := by
  simp only [luks2Attempt, result_bind_eq_ok, result_pure, Except.ok.injEq]

/-- A header of LUKS1. -/
theorem luks1Open_vouched_iff {hdr : ℕ → UInt8} (hhdr : luksHeader base partOffset = some hdr) (hone : beAt hdr 6 2 = 1) :
    (∀ d, (luks1Open ssl base partOffset pass (luksPhdr hdr)).result = .ok d →
      LuksVouched ssl argon2 base partOffset pass d) ↔ Luks1Serves ssl base partOffset pass (luksPhdr hdr) := by
  simp only [luks1Open, result_bind_eq_ok, result_ofOption_eq_ok, result_firstDone_eq_ok]
  constructor
  · intro h spec hspec ks hks d hd
    obtain ⟨hdr', hhdr', hvouched⟩ := h d ⟨spec, hspec, ks, hks, hd⟩
    obtain rfl := Option.some.inj (hhdr.symm.trans hhdr')
    rcases hvouched with ⟨-, spec', hspec', ks', hks', hd', hvouched⟩ | ⟨htwo, -⟩
    · obtain rfl := Option.some.inj (hspec.symm.trans hspec')
      obtain rfl := eq_of_mem_tried hks hks' hd hd'
      exact (luks1Vouched_iff (keyBytes_of_luks1Spec hspec) (length_mkDigest hdr) hd).mp hvouched
    · exact absurd (hone.symm.trans htwo) (by decide)
  · rintro h d ⟨spec, hspec, ks, hks, hd⟩
    have hvouched := (luks1Vouched_iff (keyBytes_of_luks1Spec hspec) (length_mkDigest hdr) hd).mpr (h spec hspec ks hks d hd)
    exact ⟨hdr, hhdr, .inl ⟨hone, spec, hspec, ks, hks, hd, hvouched⟩⟩

/-- A header of LUKS2. -/
theorem luks2Open_vouched_iff {hdr : ℕ → UInt8} (hhdr : luksHeader base partOffset = some hdr) (htwo : beAt hdr 6 2 = 2) :
    (∀ d, (luks2Open ssl argon2 base partOffset pass hdr).result = .ok d →
      LuksVouched ssl argon2 base partOffset pass d) ↔ Luks2Serves ssl argon2 base partOffset pass hdr := by
  simp only [luks2Open, result_bind_eq_ok, result_ofOption_eq_ok, result_firstDone_eq_ok]
  constructor
  · intro h doc hdoc ks hks m hm
    have hd := luks2Attempt_eq_ok.mpr ⟨m, hm, rfl⟩
    obtain ⟨hdr', hhdr', hvouched⟩ := h (m.data partOffset) ⟨doc, hdoc, ks, hks, hd⟩
    obtain rfl := Option.some.inj (hhdr.symm.trans hhdr')
    rcases hvouched with ⟨hone, -⟩ | ⟨-, doc', hdoc', ks', hks', m', hm', hvouched⟩
    · exact absurd (hone.symm.trans htwo) (by decide)
    · obtain rfl := Option.some.inj (hdoc.symm.trans hdoc')
      obtain rfl := eq_of_mem_tried hks hks' hd (luks2Attempt_eq_ok.mpr ⟨m', hm', hvouched.opened.symm⟩)
      obtain rfl := Except.ok.inj (hm.symm.trans hm')
      exact (luks2Vouched_iff (mem_of_mem_tried hks) hm).mp hvouched
  · rintro h d ⟨doc, hdoc, ks, hks, hd⟩
    obtain ⟨m, hm, rfl⟩ := luks2Attempt_eq_ok.mp hd
    have hvouched := (luks2Vouched_iff (mem_of_mem_tried hks) hm).mpr (h doc hdoc ks hks m hm)
    exact ⟨hdr, hhdr, .inr ⟨htwo, doc, hdoc, ks, hks, m, hm, hvouched⟩⟩

/-- **Every disk that is opened is vouched for** exactly if the digests serve: that of LUKS1 with iterations that are an
`int`, that of LUKS2 in the same way if it has a byte and names the segment. -/
theorem luksdecOpen_vouched_iff (ssl : OpenSsl) (argon2 : Argon2) (base : Disk) (partOffset : ℕ) (pass : List UInt8) :
    (∀ d, (luksdecOpen ssl argon2 base partOffset pass).result = .ok d → LuksVouched ssl argon2 base partOffset pass d) ↔
      LuksServes ssl argon2 base partOffset pass := by
  unfold luksdecOpen LuksServes
  cases hhdr : luksHeader base partOffset with
  | none => exact iff_of_true (by rintro d ⟨⟩) nofun
  | some hdr =>
    rw [ofOption_bind rfl]
    simp only [Option.some.injEq, forall_eq']
    split_ifs with hone htwo
    · rw [luks1Open_vouched_iff hhdr hone]
      exact ⟨fun h => ⟨fun _ => h, fun h2 => absurd (hone.symm.trans h2) (by decide)⟩, fun h => h.1 hone⟩
    · rw [luks2Open_vouched_iff hhdr htwo]
      exact ⟨fun h => ⟨fun h1 => absurd h1 hone, fun _ => h⟩, fun h => h.2 htwo⟩
    · exact iff_of_true (by rintro d ⟨⟩) ⟨fun h1 => absurd h1 hone, fun h2 => absurd h2 htwo⟩

/-! ## A document with an empty digest -/

/-- The digest has no bytes. -/
def emptyDigestDisk : Disk := luks2Disk "" "512"

/-- All digests of a document are empty. -/
def EmptyDigests (doc : LuksDocument) : Prop :=
  ∀ dg ∈ (jsonChildren doc.digests).map Prod.snd, ∀ x ∈ luks2Digest dg, x.2.2 = []

instance (doc : LuksDocument) : Decidable (EmptyDigests doc) := inferInstanceAs (Decidable (∀ _ ∈ _, _))

set_option maxRecDepth 100000 in
theorem emptyDigestDisk_opens :
    (luksdecOpen eightStripesSsl noArgon2 emptyDigestDisk 0 (ascii "wrong")).result.toOption.isSome = true := by
  simp only [luksdecOpen, luksHeader, luks2Open, luks2Document, emptyDigestDisk, baseRead_eq (luks2Disk_reads _ _),
    zero_add, slice_luks2Disk]
  decide +kernel

set_option maxRecDepth 100000 in
theorem emptyDigestDisk_document :
    ∀ hdr ∈ luksHeader emptyDigestDisk 0, beAt hdr 6 2 ≠ 1 ∧ ∀ doc ∈ luks2Document emptyDigestDisk 0 hdr, EmptyDigests doc := by
  simp only [luksHeader, luks2Document, emptyDigestDisk, baseRead_eq (luks2Disk_reads _ _), zero_add, slice_luks2Disk]
  decide +kernel

/-- It is opened with a wrong passphrase. -/
theorem emptyDigestDisk_not_vouched :
    ¬ ∀ d, (luksdecOpen eightStripesSsl noArgon2 emptyDigestDisk 0 (ascii "wrong")).result = .ok d →
      LuksVouched eightStripesSsl noArgon2 emptyDigestDisk 0 (ascii "wrong") d := by
  intro h
  obtain ⟨d, hd⟩ := Option.isSome_iff_exists.mp emptyDigestDisk_opens
  obtain ⟨hdr, hhdr, hvouched⟩ := h d (result_eq_ok_of_toOption hd)
  obtain ⟨hone, hempty⟩ := emptyDigestDisk_document hdr hhdr
  rcases hvouched with ⟨h1, -⟩ | ⟨-, doc, hdoc, ks, -, m, -, hvouched⟩
  · exact hone h1
  · obtain ⟨md, salt, want, hdigest, hlen, -⟩ := hvouched.stored
    have hnil : want = [] := hempty doc hdoc m.digest hvouched.digest _ hdigest
    rw [hnil] at hlen
    exact absurd hlen (by decide)

end RecoveryQt
