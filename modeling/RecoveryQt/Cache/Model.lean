import RecoveryQt.Lib.Blocks
import Mathlib.Data.List.FinRange
import Mathlib.Tactic.Ring

/-!
# The disk cache

* `Device`: a disk below the cache, with the states that it can be in;
* `CacheBuffer`, `CacheStruct`: the windows that are kept, and the state of the cache;
* `cachePreadAux`, `cachePread`, `cachePwrite`, `newDiskcache`: the code;
* `cachePreadAux_isSome`: a read ends;
* `CacheBuffer.Truthful`, **`cachePreadAux_preserves`**: each window holds what the disk gave for it, after
  any read.
-/

namespace RecoveryQt

open List

variable {σ : Type*}

/-- The result of a `pread`, the bytes in its buffer, and the state after it. -/
structure ReadResult (σ : Type*) where
  status : ℤ
  buffer : List UInt8
  state : σ

/-- A `disk_t`. The buffer of a read has the size asked for, whatever was read into it. -/
structure Device (σ : Type*) where
  sectorSize : ℕ
  diskRealSize : ℕ
  pread : σ → ℕ → ℕ → ReadResult σ
  pwrite : σ → List UInt8 → ℕ → ℤ × σ
  length_pread : ∀ s count offset, (pread s count offset).buffer.length = count

/-- `struct cache_buffer_struct`. -/
structure CacheBuffer where
  buffer : Option (List UInt8)
  bufferSize : ℕ
  cacheSize : ℕ
  cacheOffset : ℕ
  cacheStatus : ℤ

/-- `CACHE_BUFFER_NBR`. -/
abbrev cacheBufferNbr : ℕ := 16

/-- `CACHE_DEFAULT_SIZE`. -/
def cacheDefaultSize : ℕ := 64 * 512

/-- `struct cache_struct`. -/
structure CacheStruct (σ : Type*) where
  disk : σ
  cache : Fin cacheBufferNbr → CacheBuffer
  last : Fin cacheBufferNbr
  cacheSizeMin : ℕ
  lastIoErrorNbr : ℕ

/-- `new_diskcache`: no window, and a read ahead of 8 KiB, 32 KiB or nothing. -/
def newDiskcache (s : σ) (testdiskMode : UInt32) : CacheStruct σ where
  disk := s
  cache := fun _ => ⟨none, 0, 0, 0, 0⟩
  last := 0
  cacheSizeMin := if testdiskMode &&& 4 ≠ 0 then 16 * 512 else if testdiskMode &&& 8 ≠ 0 then 64 * 512 else 0
  lastIoErrorNbr := 0

/-- The window has the byte at an offset. The end of it is computed in 64 bits. -/
def CacheBuffer.Holds (b : CacheBuffer) (offset : ℕ) : Prop :=
  b.cacheOffset ≤ offset ∧ offset < (b.cacheOffset + b.cacheSize) % 2 ^ 64 ∧ b.buffer.isSome ∧ 0 < b.cacheSize

instance (b : CacheBuffer) (offset : ℕ) : Decidable (b.Holds offset) := by
  unfold CacheBuffer.Holds
  infer_instance

/-- `n` bytes of the window from an offset on. -/
def CacheBuffer.bytes (b : CacheBuffer) (offset n : ℕ) : List UInt8 :=
  ((b.buffer.getD []).drop (offset - b.cacheOffset)).take n

/-- `data_available`: the bytes of the window from an offset on. -/
def CacheBuffer.available (b : CacheBuffer) (offset : ℕ) : ℕ := b.cacheSize + b.cacheOffset - offset

/-- `res`: how many of them were read. -/
def CacheBuffer.res (b : CacheBuffer) (offset : ℕ) : ℤ := b.cacheStatus + b.cacheOffset - offset

/-- The first window with an offset, from the last one that was filled backwards. -/
def CacheStruct.lookup (st : CacheStruct σ) (offset : ℕ) : Option CacheBuffer :=
  ((finRange cacheBufferNbr).map fun i => st.cache (st.last - i)).find? fun b => b.Holds offset

variable (dev : Device σ)

/-- `count_new`: short reads are extended, but not up to the end of the disk. -/
def CacheStruct.countNew (st : CacheStruct σ) (count offset : ℕ) (readAhead : Bool) : ℕ :=
  if readAhead = true ∧ count < st.cacheSizeMin ∧ (offset + st.cacheSizeMin) % 2 ^ 64 < dev.diskRealSize then
    st.cacheSizeMin
  else count

/-- A window that is filled: its buffer is allocated again when it is too small. -/
def CacheBuffer.refill (b : CacheBuffer) (countNew offset : ℕ) (r : ReadResult σ) : CacheBuffer where
  buffer := some r.buffer
  bufferSize :=
    if b.buffer.isSome ∧ countNew ≤ b.bufferSize then b.bufferSize
    else if countNew < cacheDefaultSize then cacheDefaultSize
    else countNew
  cacheSize := countNew
  cacheOffset := offset
  cacheStatus := r.status

/-- The next window is filled. -/
def CacheStruct.fill (st : CacheStruct σ) (countNew offset : ℕ) (r : ReadResult σ) : CacheStruct σ :=
  { st with
    disk := r.state
    last := st.last + 1
    cache := Function.update st.cache (st.last + 1) ((st.cache (st.last + 1)).refill countNew offset r) }

/-- The number of errors in a row. -/
def CacheStruct.withErrors (st : CacheStruct σ) (n : ℕ) : CacheStruct σ := { st with lastIoErrorNbr := n }

/-- The window filled last is freed. -/
def CacheStruct.dropLast (st : CacheStruct σ) : CacheStruct σ :=
  { st with cache := Function.update st.cache st.last { st.cache st.last with cacheSize := 0 } }

/-- A read that failed is split unless it is of a sector, or the one before it failed too. -/
def CacheStruct.Splits (st : CacheStruct σ) (countNew : ℕ) : Prop :=
  dev.sectorSize < countNew ∧ 0 < dev.sectorSize ∧ (st.lastIoErrorNbr + 1) % 2 ^ 32 ≤ 1

instance (st : CacheStruct σ) (countNew : ℕ) : Decidable (st.Splits dev countNew) := by
  unfold CacheStruct.Splits
  infer_instance

/-- The read sector by sector, with the reads of the sectors as a parameter: it ends at the first sector of
which nothing was read. -/
def readSectors (read : CacheStruct σ → ℕ → ℕ → Option (ReadResult (CacheStruct σ)))
    (sectorSize count offset : ℕ) : ℕ → ℕ → CacheStruct σ → Option (ReadResult (CacheStruct σ))
  | 0, _, st => some ⟨count, [], st⟩
  | rounds + 1, off, st =>
    match read st (min sectorSize (count - off)) (offset + off) with
    | none => none
    | some r =>
      if r.status ≤ 0 then
        some ⟨off, r.buffer ++ replicate (count - off - min sectorSize (count - off)) 0, r.state⟩
      else (readSectors read sectorSize count offset rounds (off + sectorSize) r.state).map fun rest =>
        ⟨rest.status, r.buffer ++ rest.buffer, rest.state⟩

/-- `cache_pread_aux`. The fuel bounds the depth of the recursion. -/
def cachePreadAux : ℕ → CacheStruct σ → ℕ → ℕ → Bool → Option (ReadResult (CacheStruct σ))
  | 0, _, _, _, _ => none
  | fuel + 1, st, count, offset, readAhead =>
    match st.lookup offset with
    | some b =>
      if count ≤ b.available offset then some ⟨min (b.res offset) count, b.bytes offset count, st⟩
      else (cachePreadAux fuel st (count - b.available offset) (offset + b.available offset) readAhead).map
        fun r => ⟨b.res offset + r.status, b.bytes offset (b.available offset) ++ r.buffer, r.state⟩
    | none =>
      let countNew := st.countNew dev count offset readAhead
      let r := dev.pread st.disk countNew offset
      let filled := st.fill countNew offset r
      let failed := filled.withErrors ((st.lastIoErrorNbr + 1) % 2 ^ 32)
      if count ≤ r.status then some ⟨count, r.buffer.take count, filled.withErrors 0⟩
      else if st.Splits dev countNew then
        readSectors (fun st' n off => cachePreadAux fuel st' n off false) dev.sectorSize count offset
          ((count + dev.sectorSize - 1) / dev.sectorSize) 0 failed.dropLast
      else some ⟨r.status, r.buffer.take count, failed⟩

/-- `cache_pread`: there is no read ahead after an error. -/
def cachePread (st : CacheStruct σ) (count offset : ℕ) : Option (ReadResult (CacheStruct σ)) :=
  cachePreadAux dev (2 * count + 2) st count offset (st.lastIoErrorNbr = 0)

/-- The number before in 64 bits. -/
def before64 (n : ℕ) : ℕ := if n % 2 ^ 64 = 0 then 2 ^ 64 - 1 else n % 2 ^ 64 - 1

/-- `cache_pwrite`: the windows that the range meets are freed. -/
def cachePwrite (st : CacheStruct σ) (bytes : List UInt8) (offset : ℕ) : ℤ × CacheStruct σ :=
  let r := dev.pwrite st.disk bytes offset
  ⟨r.1, { st with
    disk := r.2
    cache := fun i =>
      if before64 ((st.cache i).cacheOffset + (st.cache i).cacheSize) < offset ∨
        before64 (offset + bytes.length) < (st.cache i).cacheOffset then st.cache i
      else { st.cache i with cacheSize := 0 } }⟩

@[simp] theorem fill_cache (st : CacheStruct σ) (countNew offset : ℕ) (r : ReadResult σ) :
    (st.fill countNew offset r).cache =
      Function.update st.cache (st.last + 1) ((st.cache (st.last + 1)).refill countNew offset r) := rfl

/-! ## Reads end -/

/-- A range of bytes that a call can ask for: a `pread` returns its count as an `int`, and offsets have
64 bits. -/
structure InRange (count offset : ℕ) : Prop where
  count_lt : count < 2 ^ 31
  offset_lt : offset < 2 ^ 64
  end_le : offset + count ≤ 2 ^ 64

theorem inRange_iff {count offset : ℕ} :
    InRange count offset ↔ count < 2 ^ 31 ∧ offset < 2 ^ 64 ∧ offset + count ≤ 2 ^ 64 :=
  ⟨fun h => ⟨h.count_lt, h.offset_lt, h.end_le⟩, fun h => ⟨h.1, h.2.1, h.2.2⟩⟩

theorem InRange.mono {count offset n k : ℕ} (h : InRange count offset) (hk : k < count) (hn : k + n ≤ count) :
    InRange n (offset + k) where
  count_lt := by have := h.count_lt; omega
  offset_lt := by have := h.end_le; omega
  end_le := by have := h.end_le; omega

theorem holds_of_lookup {st : CacheStruct σ} {offset : ℕ} {b : CacheBuffer} (h : st.lookup offset = some b) :
    b.Holds offset ∧ ∃ i, st.cache i = b := by
  obtain ⟨i, -, hi⟩ := mem_map.mp (mem_of_find?_eq_some h)
  exact ⟨by simpa using find?_some h, st.last - i, hi⟩

/-- There is at least one byte behind an offset that a window has. -/
theorem CacheBuffer.Holds.lt {b : CacheBuffer} {offset : ℕ} (h : b.Holds offset) :
    offset < b.cacheOffset + b.cacheSize :=
  h.2.1.trans_le (Nat.mod_le _ _)

theorem CacheBuffer.Holds.available_pos {b : CacheBuffer} {offset : ℕ} (h : b.Holds offset) :
    0 < b.available offset := by
  have := h.lt
  rw [CacheBuffer.available]
  omega

theorem CacheStruct.le_countNew (st : CacheStruct σ) (count offset : ℕ) (readAhead : Bool) :
    count ≤ st.countNew dev count offset readAhead := by
  rw [CacheStruct.countNew]
  split_ifs with h
  · exact h.2.1.le
  · exact le_rfl

/-- The sectors of a split read are shorter than it, or it is the first time that it is tried. -/
theorem sector_fuel {fuel count n : ℕ} {readAhead : Bool} {st : CacheStruct σ} {offset : ℕ}
    (hfuel : 2 * count + readAhead.toNat < fuel + 1) (hsplit : st.Splits dev (st.countNew dev count offset readAhead))
    (hcount : n ≤ count) (hsector : n ≤ dev.sectorSize) : 2 * n + false.toNat < fuel := by
  have hlt := hsplit.1
  rw [CacheStruct.countNew] at hlt
  cases readAhead with
  | true =>
    simp only [Bool.toNat_true, Bool.toNat_false] at hfuel ⊢
    omega
  | false =>
    simp only [Bool.toNat_false, Bool.false_eq_true, false_and, if_false] at hfuel hlt ⊢
    omega

theorem readSectors_isSome {read : CacheStruct σ → ℕ → ℕ → Option (ReadResult (CacheStruct σ))}
    {sectorSize count : ℕ} (hread : ∀ st n off, n ≤ count → n ≤ sectorSize → (read st n off).isSome)
    (offset rounds off : ℕ) (st : CacheStruct σ) :
    (readSectors read sectorSize count offset rounds off st).isSome := by
  induction rounds generalizing off st with
  | zero => rfl
  | succ rounds ih =>
    have hsome := hread st (min sectorSize (count - off)) (offset + off) (by omega) (Nat.min_le_left _ _)
    obtain ⟨r, hr⟩ := Option.isSome_iff_exists.mp hsome
    rw [readSectors, hr]
    dsimp only
    split_ifs
    · rfl
    · rw [Option.isSome_map, ih]

/-- **A read ends**: it recurs on less, or on as much without the read ahead. -/
theorem cachePreadAux_isSome {fuel : ℕ} {st : CacheStruct σ} {count offset : ℕ} {readAhead : Bool}
    (hfuel : 2 * count + readAhead.toNat < fuel) :
    (cachePreadAux dev fuel st count offset readAhead).isSome := by
  induction fuel generalizing st count offset readAhead with
  | zero => omega
  | succ fuel ih =>
    rw [cachePreadAux]
    cases hlookup : st.lookup offset with
    | some b =>
      have hpos := (holds_of_lookup hlookup).1.available_pos
      dsimp only
      split_ifs
      · rfl
      · rw [Option.isSome_map]
        exact ih (by omega)
    | none =>
      dsimp only
      split_ifs with hread hsplit
      · rfl
      · apply readSectors_isSome
        intro st' n off hcount hsector
        exact ih (sector_fuel dev hfuel hsplit hcount hsector)
      · rfl

theorem cachePread_isSome (st : CacheStruct σ) (count offset : ℕ) :
    (cachePread dev st count offset).isSome := by
  apply cachePreadAux_isSome
  have := Bool.toNat_le (decide (st.lastIoErrorNbr = 0))
  omega

/-! ## The windows -/

/-- What is assumed of a disk with a content: a read gives as many of its bytes as it says, or fails, and
writes change nothing but their range. -/
structure Device.Truthful (content : σ → ℕ → UInt8) : Prop where
  status_le : ∀ s count offset, (dev.pread s count offset).status ≤ count
  buffer : ∀ s count offset, (dev.pread s count offset).buffer.take (dev.pread s count offset).status.toNat =
    slice (content s) offset (dev.pread s count offset).status.toNat
  content_pread : ∀ s count offset, content (dev.pread s count offset).state = content s
  content_pwrite : ∀ s bytes offset p, p < offset ∨ offset + bytes.length ≤ p →
    content (dev.pwrite s bytes offset).2 p = content s p

/-- The bytes of a window that were read are those of the content, unless it ends behind the last offset
and is never used. -/
structure CacheBuffer.Truthful (g : ℕ → UInt8) (b : CacheBuffer) : Prop where
  offset_lt : b.cacheOffset < 2 ^ 64
  size_lt : b.cacheSize < 2 ^ 32
  held : 0 < b.cacheSize → b.cacheOffset + b.cacheSize ≤ 2 ^ 64 → ∃ l, b.buffer = some l ∧
    l.length = b.cacheSize ∧ b.cacheStatus ≤ b.cacheSize ∧
    l.take b.cacheStatus.toNat = slice g b.cacheOffset b.cacheStatus.toNat

/-- The windows hold what the disk gave for them. -/
structure CacheStruct.Truthful (content : σ → ℕ → UInt8) (st : CacheStruct σ) : Prop where
  windows : ∀ i, (st.cache i).Truthful (content st.disk)
  min_lt : st.cacheSizeMin < 2 ^ 32

variable {content : σ → ℕ → UInt8} {st : CacheStruct σ}

theorem newDiskcache_truthful (s : σ) (testdiskMode : UInt32) :
    (newDiskcache s testdiskMode).Truthful content where
  windows := fun _ => ⟨Nat.two_pow_pos 64, Nat.two_pow_pos 32, fun h => absurd h (lt_irrefl 0)⟩
  min_lt := by
    simp only [newDiskcache]
    split_ifs <;> decide

/-- A window without bytes says nothing. -/
theorem CacheBuffer.Truthful.free {g g' : ℕ → UInt8} {b : CacheBuffer} (h : b.Truthful g) :
    CacheBuffer.Truthful g' { b with cacheSize := 0 } :=
  ⟨h.offset_lt, Nat.two_pow_pos 32, fun hpos => absurd hpos (lt_irrefl 0)⟩

theorem CacheStruct.Truthful.withErrors (h : st.Truthful content) (n : ℕ) : (st.withErrors n).Truthful content :=
  ⟨h.windows, h.min_lt⟩

theorem CacheStruct.Truthful.dropLast (h : st.Truthful content) : st.dropLast.Truthful content := by
  refine ⟨fun i => ?_, h.min_lt⟩
  simp only [CacheStruct.dropLast, Function.update_apply]
  split_ifs
  · exact (h.windows st.last).free
  · exact h.windows i

variable {dev}

theorem countNew_lt (h : st.Truthful content) {count offset : ℕ} (hin : InRange count offset) (readAhead : Bool) :
    st.countNew dev count offset readAhead < 2 ^ 32 := by
  have := h.min_lt
  have := hin.count_lt
  rw [CacheStruct.countNew]
  split_ifs <;> omega

/-- The window that is filled holds what was read. -/
theorem CacheStruct.Truthful.fill (h : st.Truthful content) (hdev : dev.Truthful content) {countNew offset : ℕ}
    (hcount : countNew < 2 ^ 32) (hoffset : offset < 2 ^ 64) :
    (st.fill countNew offset (dev.pread st.disk countNew offset)).Truthful content := by
  have hcontent : content (st.fill countNew offset (dev.pread st.disk countNew offset)).disk = content st.disk :=
    hdev.content_pread _ _ _
  refine ⟨fun i => ?_, h.min_lt⟩
  rw [hcontent]
  by_cases hi : i = st.last + 1
  · rw [hi, fill_cache, Function.update_self]
    exact ⟨hoffset, hcount, fun _ _ => ⟨_, rfl, dev.length_pread _ _ _, hdev.status_le _ _ _, hdev.buffer _ _ _⟩⟩
  · rw [fill_cache, Function.update_of_ne hi]
    exact h.windows i

theorem readSectors_preserves {read : CacheStruct σ → ℕ → ℕ → Option (ReadResult (CacheStruct σ))}
    {sectorSize count offset : ℕ}
    (hread : ∀ st n off r, st.Truthful content → off < count → off + n ≤ count →
      read st n (offset + off) = some r → r.state.Truthful content ∧ content r.state.disk = content st.disk)
    {rounds off : ℕ} {st : CacheStruct σ} (hst : st.Truthful content)
    (hoff : off + rounds * sectorSize < count + sectorSize) {r : ReadResult (CacheStruct σ)}
    (hr : readSectors read sectorSize count offset rounds off st = some r) :
    r.state.Truthful content ∧ content r.state.disk = content st.disk := by
  induction rounds generalizing off st r with
  | zero =>
    obtain rfl := Option.some.inj hr
    exact ⟨hst, rfl⟩
  | succ rounds ih =>
    rw [Nat.succ_mul] at hoff
    rw [readSectors] at hr
    cases hsector : read st (min sectorSize (count - off)) (offset + off) with
    | none =>
      rw [hsector] at hr
      cases hr
    | some r' =>
      rw [hsector] at hr
      dsimp only at hr
      obtain ⟨hst', hcontent⟩ := hread st _ off r' hst (by omega) (by omega) hsector
      split_ifs at hr
      · obtain rfl := Option.some.inj hr
        exact ⟨hst', hcontent⟩
      · obtain ⟨rest, hrest, rfl⟩ := Option.map_eq_some_iff.mp hr
        obtain ⟨hst'', hcontent'⟩ := ih hst' (by omega) hrest
        exact ⟨hst'', hcontent'.trans hcontent⟩

/-- The rounds end with the sector that the read ends in. -/
theorem rounds_lt {sectorSize : ℕ} (hpos : 0 < sectorSize) (count : ℕ) :
    0 + (count + sectorSize - 1) / sectorSize * sectorSize < count + sectorSize := by
  have := Nat.div_mul_le_self (count + sectorSize - 1) sectorSize
  omega

/-- **The windows hold what the disk gave** after any read, and its content is the same. -/
theorem cachePreadAux_preserves (hdev : dev.Truthful content) {fuel : ℕ} {st : CacheStruct σ} {count offset : ℕ}
    {readAhead : Bool} (hst : st.Truthful content) (hin : InRange count offset) {r : ReadResult (CacheStruct σ)}
    (hr : cachePreadAux dev fuel st count offset readAhead = some r) :
    r.state.Truthful content ∧ content r.state.disk = content st.disk := by
  induction fuel generalizing st count offset readAhead r with
  | zero => cases hr
  | succ fuel ih =>
    rw [cachePreadAux] at hr
    cases hlookup : st.lookup offset with
    | some b =>
      have hpos := (holds_of_lookup hlookup).1.available_pos
      rw [hlookup] at hr
      dsimp only at hr
      split_ifs at hr with hle
      · obtain rfl := Option.some.inj hr
        exact ⟨hst, rfl⟩
      · obtain ⟨tail, htail, rfl⟩ := Option.map_eq_some_iff.mp hr
        have hrest : InRange (count - b.available offset) (offset + b.available offset) :=
          hin.mono (by omega) (by omega)
        obtain ⟨hst', hcontent⟩ := ih hst hrest htail
        exact ⟨hst', hcontent⟩
    | none =>
      have hcount : st.countNew dev count offset readAhead < 2 ^ 32 := countNew_lt hst hin readAhead
      have hfill := hst.fill hdev hcount hin.offset_lt
      have hcontent := hdev.content_pread st.disk (st.countNew dev count offset readAhead) offset
      rw [hlookup] at hr
      dsimp only at hr
      split_ifs at hr with hread hsplit
      · obtain rfl := Option.some.inj hr
        exact ⟨hfill.withErrors 0, hcontent⟩
      · obtain ⟨hst', hcontent'⟩ := readSectors_preserves
          (fun st n off r hst hoff hn => ih hst (hin.mono hoff hn)) (hfill.withErrors _).dropLast
          (rounds_lt hsplit.2.1 count) hr
        exact ⟨hst', hcontent'.trans hcontent⟩
      · obtain rfl := Option.some.inj hr
        exact ⟨hfill.withErrors _, hcontent⟩

/-- **A write** frees the windows that it changes the bytes of. -/
theorem cachePwrite_preserves (hdev : dev.Truthful content) (hst : st.Truthful content) (bytes : List UInt8)
    {offset : ℕ} (hend : offset + bytes.length ≤ 2 ^ 64) :
    (cachePwrite dev st bytes offset).2.Truthful content := by
  refine ⟨fun i => ?_, hst.min_lt⟩
  have hwindow := hst.windows i
  simp only [cachePwrite]
  split_ifs with hkept
  · refine ⟨hwindow.offset_lt, hwindow.size_lt, fun hpos hlast => ?_⟩
    obtain ⟨l, hl, hlength, hstatus, hbytes⟩ := hwindow.held hpos hlast
    refine ⟨l, hl, hlength, hstatus, hbytes.trans (map_congr_left fun k hk => ?_)⟩
    have hk : k < (st.cache i).cacheSize := by
      have := mem_range.mp hk
      omega
    by_cases hnil : bytes.length = 0
    · exact (hdev.content_pwrite _ _ _ _ (by omega)).symm
    · refine (hdev.content_pwrite _ _ _ _ ?_).symm
      simp only [before64] at hkept
      split_ifs at hkept <;> omega
  · exact hwindow.free

end RecoveryQt
