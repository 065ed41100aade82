import Mathlib.Data.List.GetD
import RecoveryQt.Carver.Footer
import RecoveryQt.Lib.Codec

/-!
# Whole files and their footers

Files as the formats define them, and what `carver_check_footer` says of a buffer that starts with one.

* `Gif`, `Png`, `OggStream`, `Bmp`, `Riff`: the files, with the lengths that their formats prescribe; what the formats
  leave to a checksum may be anything;
* `WholeFile`: a file of one of the formats, under the extension of its hint;
* `NotCutShort`: the check reports no end before the end of the file;
* `NoEarlyEnd`: the pattern that the check looks for does not come before the end;
* `footerGif_iff`, `footerPng_iff`, `footerOgg_iff`, `footerBmp_eq`, `footerRiff_eq`: the formats;
* **`notCutShort_iff`**: a file is not cut short exactly then.
-/

namespace RecoveryQt

open List

/-- The buffer that a list fills. -/
def bufferOf (l : List UInt8) : ℕ → UInt8 := fun i => l.getD i 0

/-! ## GIF -/

/-- Data sub-blocks of 1 to 255 bytes, and the block terminator. -/
def subBlocks (blocks : List (List UInt8)) : List UInt8 :=
  blocks.flatMap (fun b => UInt8.ofNat b.length :: b) ++ [0]

/-- The length of a color table whose size stands in the low bits of the flags. -/
def colorTableLength (flags : UInt8) : ℕ := if flags < 128 then 0 else 3 * 2 ^ (flags.toNat % 8 + 1)

/-- An extension, or an image with its color table. -/
inductive GifBlock where
  | extension (label : UInt8) (blocks : List (List UInt8))
  | image (place : List UInt8) (flags : UInt8) (colors : List UInt8) (codeSize : UInt8) (blocks : List (List UInt8))

def GifBlock.bytes : GifBlock → List UInt8
  | .extension label blocks => 0x21 :: label :: subBlocks blocks
  | .image place flags colors codeSize blocks => 0x2c :: place ++ flags :: colors ++ codeSize :: subBlocks blocks

/-- The lengths of a block. -/
def GifBlock.Valid : GifBlock → Prop
  | .extension _ blocks => ∀ b ∈ blocks, 1 ≤ b.length ∧ b.length ≤ 255
  | .image place flags colors _ blocks => place.length = 8 ∧ colors.length = colorTableLength flags ∧
      ∀ b ∈ blocks, 1 ≤ b.length ∧ b.length ≤ 255

/-- A GIF file: the version, the logical screen, its color table, blocks, and the trailer. -/
structure Gif where
  version : UInt8
  size : List UInt8
  flags : UInt8
  background : UInt8
  aspect : UInt8
  colors : List UInt8
  blocks : List GifBlock
  version_eq : version = 0x37 ∨ version = 0x39
  size_length : size.length = 4
  colors_length : colors.length = colorTableLength flags
  blocks_valid : ∀ b ∈ blocks, b.Valid

/-- All of a GIF file but its trailer. -/
def Gif.body (g : Gif) : List UInt8 :=
  [0x47, 0x49, 0x46, 0x38, g.version, 0x61] ++ g.size ++ [g.flags, g.background, g.aspect] ++ g.colors ++
    g.blocks.flatMap GifBlock.bytes

def Gif.bytes (g : Gif) : List UInt8 := g.body ++ [0x3b]

/-! ## PNG -/

/-- A chunk of a PNG file. -/
structure PngChunk where
  type : List UInt8
  data : List UInt8
  crc : List UInt8
  type_length : type.length = 4
  data_length : data.length < 2147483648
  crc_length : crc.length = 4

def PngChunk.bytes (c : PngChunk) : List UInt8 := (leBytes 4 c.data.length).reverse ++ c.type ++ c.data ++ c.crc

/-- The end of a PNG file. -/
def iendChunk : List UInt8 := [0, 0, 0, 0, 0x49, 0x45, 0x4e, 0x44, 0xae, 0x42, 0x60, 0x82]

/-- A PNG file: `IHDR`, other chunks, and `IEND`. -/
structure Png where
  header : PngChunk
  chunks : List PngChunk
  header_type : header.type = [0x49, 0x48, 0x44, 0x52]
  header_length : header.data.length = 13
  chunks_type : ∀ c ∈ chunks, c.type ≠ [0x49, 0x48, 0x44, 0x52] ∧ c.type ≠ [0x49, 0x45, 0x4e, 0x44]

/-- All of a PNG file but its end. -/
def Png.body (p : Png) : List UInt8 :=
  [0x89, 0x50, 0x4e, 0x47, 0x0d, 0x0a, 0x1a, 0x0a] ++ p.header.bytes ++ p.chunks.flatMap PngChunk.bytes

def Png.bytes (p : Png) : List UInt8 := p.body ++ iendChunk

/-! ## Ogg -/

/-- A page of an Ogg stream: the flags, positions and checksum of its header, and the segments. -/
structure OggPage where
  fields : List UInt8
  segments : List UInt8
  body : List UInt8
  fields_length : fields.length = 21
  segments_length : segments.length ≤ 255
  body_length : body.length = (segments.map UInt8.toNat).sum

def OggPage.bytes (p : OggPage) : List UInt8 :=
  [0x4f, 0x67, 0x67, 0x53, 0] ++ p.fields ++ UInt8.ofNat p.segments.length :: p.segments ++ p.body

/-- An Ogg stream: one page or more. -/
structure OggStream where
  first : OggPage
  pages : List OggPage

def OggStream.bytes (o : OggStream) : List UInt8 := o.first.bytes ++ o.pages.flatMap OggPage.bytes

/-! ## BMP and RIFF -/

/-- A BMP file: the size of the file, then the rest of the headers and the pixels. -/
structure Bmp where
  rest : List UInt8
  headers : 20 ≤ rest.length

def Bmp.bytes (b : Bmp) : List UInt8 := [0x42, 0x4d] ++ (leBytes 4 (6 + b.rest.length) ++ b.rest)

/-- A chunk of a RIFF file, padded to an even length. -/
structure RiffChunk where
  type : List UInt8
  data : List UInt8
  type_length : type.length = 4

def RiffChunk.bytes (c : RiffChunk) : List UInt8 :=
  c.type ++ leBytes 4 c.data.length ++ c.data ++ replicate (c.data.length % 2) 0

/-- A RIFF file: its form and its chunks. -/
structure Riff where
  form : List UInt8
  chunks : List RiffChunk
  form_length : form.length = 4

/-- What the size of a RIFF file counts. -/
def Riff.body (r : Riff) : List UInt8 := r.form ++ r.chunks.flatMap RiffChunk.bytes

def Riff.bytes (r : Riff) : List UInt8 := [0x52, 0x49, 0x46, 0x46] ++ (leBytes 4 r.body.length ++ r.body)

/-! ## Whole files -/

/-- A file of a format, under the extension of its hint. -/
inductive WholeFile : List UInt8 → List UInt8 → Prop where
  | gif (g : Gif) : WholeFile extGif g.bytes
  | png (p : Png) : WholeFile extPng p.bytes
  | ogg (o : OggStream) : WholeFile extOgg o.bytes
  | bmp (b : Bmp) : WholeFile extBmp b.bytes
  | riff (r : Riff) : WholeFile extRiff r.bytes
  | wav (r : Riff) : WholeFile extWav r.bytes
  | avi (r : Riff) : WholeFile extAvi r.bytes

/-- The check of a buffer with the file and more behind it reports nothing, or an end that is not before the end of the
file. -/
def NotCutShort (hint : FileHint) (file rest : List UInt8) : Prop :=
  carverCheckFooter (bufferOf (file ++ rest)) (file ++ rest).length hint = -1 ∨
    (file.length : ℤ) ≤ carverCheckFooter (bufferOf (file ++ rest)) (file ++ rest).length hint

/-- The buffer is too small for a check; or a GIF file has no byte `0x3B` before its trailer, a PNG file no end chunk
before its own, and an Ogg stream has the last page header in its last 27 bytes or behind it. -/
def NoEarlyEnd (ext file rest : List UInt8) : Prop :=
  (file ++ rest).length < 128 ∨
    (ext = extGif → 0x3b ∉ file.dropLast) ∧
    (ext = extPng → ∀ i, i + 12 < file.length → isPngEnd (bufferOf file) i = false) ∧
    (ext = extOgg → ∃ i, i + 4 < (file ++ rest).length ∧
      hasBytes (bufferOf (file ++ rest)) i [0x4f, 0x67, 0x67, 0x53] = true ∧ file.length ≤ i + 27)

/-! ## Buffers -/

section Buffers

variable {l l' : List UInt8} {i : ℕ}

theorem bufferOf_left (h : i < l.length) : bufferOf (l ++ l') i = bufferOf l i := getD_append l l' 0 i h

theorem bufferOf_right (l l' : List UInt8) (i : ℕ) : bufferOf (l ++ l') (l.length + i) = bufferOf l' i := by
  rw [bufferOf, getD_append_right _ _ _ _ (Nat.le_add_right _ i), Nat.add_sub_cancel_left]
  rfl

theorem hasBytes_left {bytes : List UInt8} (h : i + bytes.length ≤ l.length) :
    hasBytes (bufferOf (l ++ l')) i bytes = hasBytes (bufferOf l) i bytes :=
  hasBytes_congr fun k hk => bufferOf_left (by omega)

theorem hasBytes_right (l l' : List UInt8) (i : ℕ) (bytes : List UInt8) :
    hasBytes (bufferOf (l ++ l')) (l.length + i) bytes = hasBytes (bufferOf l') i bytes := by
  rw [Bool.eq_iff_iff, hasBytes_iff, hasBytes_iff]
  exact forall₂_congr fun k hk => by rw [Nat.add_assoc, bufferOf_right]

/-- The end chunk is looked for in eight bytes. -/
theorem isPngEnd_left (h : i + 8 ≤ l.length) : isPngEnd (bufferOf (l ++ l')) i = isPngEnd (bufferOf l) i := by
  have hfour : ∀ j, j + 4 ≤ l.length → ∀ bytes : List UInt8, bytes.length = 4 →
      hasBytes (bufferOf (l ++ l')) j bytes = hasBytes (bufferOf l) j bytes :=
    fun j hj bytes hb => hasBytes_left (by omega)
  simp only [isPngEnd]
  rw [hfour (i + 4) (by omega) _ rfl, hfour i (by omega) _ rfl, hfour (i + 4) (by omega) _ rfl]

/-- A number of four bytes behind others. -/
theorem le32At_leBytes (l l' : List UInt8) {n : ℕ} (hn : n < 4294967296) :
    le32At (bufferOf (l ++ (leBytes 4 n ++ l'))) l.length = n := by
  have hbyte : ∀ k, bufferOf (l ++ (leBytes 4 n ++ l')) (l.length + k) = bufferOf (leBytes 4 n ++ l') k :=
    bufferOf_right l _
  have hzero := hbyte 0
  rw [Nat.add_zero] at hzero
  simp only [le32At, le16At, hzero, hbyte, Nat.add_assoc, Nat.reduceAdd]
  simp only [bufferOf, leBytes, cons_append, getD_cons_zero, getD_cons_succ, UInt8.toNat_ofNat']
  omega

end Buffers

/-! ## One format at a time -/

/-- A search that finds the end of the file finds nothing before it exactly if there is nothing. -/
theorem endOf_first_iff {p : ℕ → Bool} {n m : ℕ} (hm : m < n) (hp : p m = true) (length : ℕ) :
    (endOf (firstIndex? p n) length = -1 ∨ ((m + length : ℕ) : ℤ) ≤ endOf (firstIndex? p n) length) ↔
      ∀ j < m, p j = false := by
  obtain ⟨i, hle, hfirst, hiff⟩ := firstIndex?_of_match hm hp
  rw [hfirst, ← hiff, endOf, Option.elim]
  omega

theorem footerGif_iff (body rest : List UInt8) :
    (footerGif (bufferOf (body ++ [0x3b] ++ rest)) (body ++ [0x3b] ++ rest).length = -1 ∨
      ((body ++ [0x3b]).length : ℤ) ≤ footerGif (bufferOf (body ++ [0x3b] ++ rest)) (body ++ [0x3b] ++ rest).length) ↔
      0x3b ∉ body := by
  have hbuffer : ∀ j < body.length, bufferOf (body ++ [0x3b] ++ rest) j = bufferOf body j := fun j hj => by
    rw [append_assoc, bufferOf_left hj]
  have hend : bufferOf (body ++ [0x3b] ++ rest) body.length = 0x3b := by
    rw [append_assoc]
    exact bufferOf_right body ([0x3b] ++ rest) 0
  have hlength : (body ++ [0x3b]).length = body.length + 1 := length_append
  have hpattern : (fun i => bufferOf (body ++ [0x3b] ++ rest) i == 0x3b) body.length = true := beq_iff_eq.mpr hend
  rw [footerGif, hlength, endOf_first_iff (by simp) hpattern]
  constructor
  · intro h hmem
    obtain ⟨j, hj, heq⟩ := getElem_of_mem hmem
    have := h j hj
    rw [hbuffer j hj, bufferOf, getD_eq_getElem _ _ hj, heq] at this
    exact absurd this (by decide)
  · intro h j hj
    rw [hbuffer j hj, bufferOf, getD_eq_getElem _ _ hj, beq_eq_false_iff_ne]
    exact fun heq => h (heq ▸ getElem_mem hj)

theorem footerPng_iff (body rest : List UInt8) :
    (footerPng (bufferOf (body ++ iendChunk ++ rest)) (body ++ iendChunk ++ rest).length = -1 ∨
      ((body ++ iendChunk).length : ℤ) ≤
        footerPng (bufferOf (body ++ iendChunk ++ rest)) (body ++ iendChunk ++ rest).length) ↔
      ∀ i, i + 12 < (body ++ iendChunk).length → isPngEnd (bufferOf (body ++ iendChunk)) i = false := by
  have hlength : (body ++ iendChunk).length = body.length + 12 := by rw [length_append]; rfl
  have hend : isPngEnd (bufferOf (body ++ iendChunk ++ rest)) body.length = true := by
    rw [append_assoc]
    have hfour := hasBytes_right body (iendChunk ++ rest) 4 [0x49, 0x45, 0x4e, 0x44]
    have hzero := hasBytes_right body (iendChunk ++ rest) 0 [0, 0, 0, 0]
    rw [Nat.add_zero] at hzero
    rw [isPngEnd, hfour, hzero]
    rfl
  rw [footerPng, hlength, endOf_first_iff ?_ hend]
  · constructor
    · intro h i hi
      rw [← @isPngEnd_left _ rest i (by omega)]
      exact h i (by omega)
    · intro h j hj
      rw [isPngEnd_left (by omega)]
      exact h j (by omega)
  · rw [length_append, hlength]
    omega

theorem footerOgg_iff {file rest : List UInt8} (hstart : hasBytes (bufferOf file) 0 [0x4f, 0x67, 0x67, 0x53] = true)
    (hlong : 27 ≤ file.length) :
    (footerOgg (bufferOf (file ++ rest)) (file ++ rest).length = -1 ∨
      (file.length : ℤ) ≤ footerOgg (bufferOf (file ++ rest)) (file ++ rest).length) ↔
      ∃ i, i + 4 < (file ++ rest).length ∧ hasBytes (bufferOf (file ++ rest)) i [0x4f, 0x67, 0x67, 0x53] = true ∧
        file.length ≤ i + 27 := by
  have hlen : (file ++ rest).length = file.length + rest.length := length_append
  have hfirst : hasBytes (bufferOf (file ++ rest)) 0 [0x4f, 0x67, 0x67, 0x53] = true := by
    rw [hasBytes_left (by simp only [length_cons, length_nil]; omega)]
    exact hstart
  obtain ⟨last, -, hlast⟩ := lastIndex?_of_match
    (p := fun i => hasBytes (bufferOf (file ++ rest)) i [0x4f, 0x67, 0x67, 0x53])
    (n := (file ++ rest).length - 4) (by omega) hfirst
  obtain ⟨hpage, hlt, hbehind⟩ := lastIndex?_eq_some_iff.mp hlast
  have hroom : last + 4 < (file ++ rest).length := Nat.add_lt_of_lt_sub hlt
  have hvalue : footerOgg (bufferOf (file ++ rest)) (file ++ rest).length =
      if last + 27 < (file ++ rest).length then ((last + 27 : ℕ) : ℤ) else -1 := by
    rw [footerOgg, lastOggs, hlast]
    rfl
  have hwhole : (footerOgg (bufferOf (file ++ rest)) (file ++ rest).length = -1 ∨
      (file.length : ℤ) ≤ footerOgg (bufferOf (file ++ rest)) (file ++ rest).length) ↔ file.length ≤ last + 27 := by
    rw [hvalue]
    by_cases hend : last + 27 < (file ++ rest).length
    · rw [if_pos hend]
      omega
    · rw [if_neg hend]
      omega
  rw [hwhole]
  constructor
  · exact fun hle => ⟨last, hroom, hpage, hle⟩
  · rintro ⟨i, hi, hmatch, hle⟩
    have hile : i ≤ last := by
      by_contra hgt
      have := hbehind i (by omega) (by omega)
      simp [hmatch] at this
    omega

theorem footerBmp_eq (b : Bmp) (rest : List UInt8) (hfit : b.bytes.length < 2147483648) :
    footerBmp (bufferOf (b.bytes ++ rest)) = b.bytes.length := by
  have hlength : b.bytes.length = 6 + b.rest.length := by
    simp only [Bmp.bytes, leBytes, cons_append, nil_append, length_cons]
    omega
  have hfield : le32At (bufferOf (b.bytes ++ rest)) 2 = 6 + b.rest.length := by
    rw [Bmp.bytes, append_assoc, append_assoc]
    exact le32At_leBytes [0x42, 0x4d] (b.rest ++ rest) (by omega)
  rw [footerBmp, hfield, if_pos (by omega), hlength, asInt_of_lt (by omega)]

theorem footerRiff_eq (r : Riff) (rest : List UInt8) (hfit : r.bytes.length < 2147483648) :
    footerRiff (bufferOf (r.bytes ++ rest)) = r.bytes.length := by
  have hlength : r.bytes.length = r.body.length + 8 := by
    simp only [Riff.bytes, leBytes, cons_append, nil_append, length_cons]
  have hpos : 4 ≤ r.body.length := by
    rw [Riff.body, length_append, r.form_length]
    omega
  have hfield : le32At (bufferOf (r.bytes ++ rest)) 4 = r.body.length := by
    rw [Riff.bytes, append_assoc, append_assoc]
    exact le32At_leBytes [0x52, 0x49, 0x46, 0x46] (r.body ++ rest) (by omega)
  rw [footerRiff, hfield, if_pos (by omega), hlength, asInt_of_lt (by omega)]

/-- A stream starts with a page header. -/
theorem OggStream.bytes_start (o : OggStream) :
    hasBytes (bufferOf o.bytes) 0 [0x4f, 0x67, 0x67, 0x53] = true ∧ 27 ≤ o.bytes.length := by
  constructor
  · unfold bytes OggPage.bytes
    rfl
  · simp only [bytes, OggPage.bytes, length_append, length_cons, length_nil, o.first.fields_length]
    omega

/-! ## All formats -/

/-- The check of a buffer that is large enough is that of the format. -/
theorem carverCheckFooter_of_ext {buffer : ℕ → UInt8} {n : ℕ} {hint : FileHint} {ext : List UInt8}
    (hext : hint.extension = some ext) (hn : 128 ≤ n) : carverCheckFooter buffer n hint = footerOf ext buffer n := by
  rw [carverCheckFooter, if_neg (Nat.not_lt.mpr hn), hext]
  rfl

theorem footerOf_bmp {buffer : ℕ → UInt8} {n : ℕ} : footerOf extBmp buffer n = footerBmp buffer := rfl

theorem footerOf_riff {buffer : ℕ → UInt8} {n : ℕ} {ext : List UInt8}
    (hext : ext = extRiff ∨ ext = extWav ∨ ext = extAvi) : footerOf ext buffer n = footerRiff buffer := by
  obtain rfl | rfl | rfl := hext <;> rfl

/-- The formats whose size stands in the header have no pattern. -/
theorem noPattern {ext file rest : List UInt8} (hgif : ext ≠ extGif) (hpng : ext ≠ extPng) (hogg : ext ≠ extOgg) :
    (ext = extGif → 0x3b ∉ file.dropLast) ∧
      (ext = extPng → ∀ i, i + 12 < file.length → isPngEnd (bufferOf file) i = false) ∧
      (ext = extOgg → ∃ i, i + 4 < (file ++ rest).length ∧
        hasBytes (bufferOf (file ++ rest)) i [0x4f, 0x67, 0x67, 0x53] = true ∧ file.length ≤ i + 27) :=
  ⟨fun h => absurd h hgif, fun h => absurd h hpng, fun h => absurd h hogg⟩

/-- **A whole file is not cut short** exactly when the pattern that its check looks for does not come too early. -/
theorem notCutShort_iff {ext file rest : List UInt8} {hint : FileHint} (hfile : WholeFile ext file)
    (hext : hint.extension = some ext) (hfit : (file ++ rest).length ≤ carverChunkSize) :
    NotCutShort hint file rest ↔ NoEarlyEnd ext file rest := by
  unfold NotCutShort NoEarlyEnd
  by_cases hsmall : (file ++ rest).length < 128
  · rw [carverCheckFooter, if_pos hsmall]
    exact iff_of_true (Or.inl rfl) (Or.inl hsmall)
  rw [carverCheckFooter_of_ext hext (Nat.not_lt.mp hsmall), or_iff_right hsmall]
  have hlt : file.length < 2147483648 := by
    rw [length_append] at hfit
    have : carverChunkSize < 2147483648 := by decide
    omega
  cases hfile with
  | gif g =>
    refine (footerGif_iff g.body rest).trans ?_
    rw [Gif.bytes, dropLast_concat]
    exact ⟨fun h => ⟨fun _ => h, fun h => absurd h (by decide), fun h => absurd h (by decide)⟩, fun h => h.1 rfl⟩
  | png p =>
    refine (footerPng_iff p.body rest).trans ?_
    exact ⟨fun h => ⟨fun h => absurd h (by decide), fun _ => h, fun h => absurd h (by decide)⟩, fun h => h.2.1 rfl⟩
  | ogg o =>
    refine (@footerOgg_iff _ rest o.bytes_start.1 o.bytes_start.2).trans ?_
    exact ⟨fun h => ⟨fun h => absurd h (by decide), fun h => absurd h (by decide), fun _ => h⟩, fun h => h.2.2 rfl⟩
  | bmp b =>
    rw [footerOf_bmp, footerBmp_eq b rest hlt]
    exact iff_of_true (Or.inr le_rfl) (noPattern (by decide) (by decide) (by decide))
  | riff r =>
    rw [footerOf_riff (Or.inl rfl), footerRiff_eq r rest hlt]
    exact iff_of_true (Or.inr le_rfl) (noPattern (by decide) (by decide) (by decide))
  | wav r =>
    rw [footerOf_riff (Or.inr (Or.inl rfl)), footerRiff_eq r rest hlt]
    exact iff_of_true (Or.inr le_rfl) (noPattern (by decide) (by decide) (by decide))
  | avi r =>
    rw [footerOf_riff (Or.inr (Or.inr rfl)), footerRiff_eq r rest hlt]
    exact iff_of_true (Or.inr le_rfl) (noPattern (by decide) (by decide) (by decide))

/-! ## Pictures of one pixel -/

/-- A GIF file of one pixel, whose 64 colors are all the same gray. -/
def grayGif (gray : UInt8) : Gif where
  version := 0x39
  size := [1, 0, 1, 0]
  flags := 0x85
  background := 0
  aspect := 0
  colors := replicate 192 gray
  blocks := [.image [0, 0, 0, 0, 1, 0, 1, 0] 0 [] 2 [[0x44, 0x01]]]
  version_eq := Or.inr rfl
  size_length := rfl
  colors_length := length_replicate
  blocks_valid := by
    intro b hb
    rw [mem_singleton.mp hb]
    exact ⟨rfl, by decide, by decide⟩

/-- The hint of a GIF file. -/
def gifHint : FileHint := ⟨0, some extGif, 52428800⟩

/-- A picture without the byte `0x3B` is whole. -/
theorem grayGif_whole : (NotCutShort gifHint (grayGif 0x80).bytes [] ↔ NoEarlyEnd extGif (grayGif 0x80).bytes []) ∧
    NotCutShort gifHint (grayGif 0x80).bytes [] := by
  have hiff := @notCutShort_iff extGif _ [] gifHint (.gif (grayGif 0x80)) rfl (by decide +kernel)
  exact ⟨hiff, hiff.mpr (Or.inr ⟨fun _ => by decide +kernel, fun h => absurd h (by decide),
    fun h => absurd h (by decide)⟩)⟩

/-- A picture in the gray `0x3B` ends in its color table. -/
theorem grayGif_cutShort : WholeFile extGif (grayGif 0x3b).bytes ∧
    carverCheckFooter (bufferOf ((grayGif 0x3b).bytes ++ [])) ((grayGif 0x3b).bytes ++ []).length gifHint = 14 ∧
    (grayGif 0x3b).bytes.length = 221 ∧ ¬ NotCutShort gifHint (grayGif 0x3b).bytes [] := by
  have hvalue : carverCheckFooter (bufferOf ((grayGif 0x3b).bytes ++ [])) ((grayGif 0x3b).bytes ++ []).length
      gifHint = 14 := by decide +kernel
  have hlength : (grayGif 0x3b).bytes.length = 221 := by decide +kernel
  refine ⟨.gif _, hvalue, hlength, ?_⟩
  rintro (h | h)
  · rw [hvalue] at h
    exact absurd h (by decide)
  · rw [hvalue, hlength] at h
    exact absurd h (by decide)

end RecoveryQt
