import RecoveryQt.Cache.Coherent

/-!
# Short reads

* `Reports`: a result is the number of bytes that are right;
* `Withheld`, `SectorsWhole`, `Clean`: a read runs through no short window, and each sector that is read again
  is given whole or not at all;
* **`cachePreadAux_reports`**: such a read reports what was read;
* `alignPread`: the reads of disks with whole sectors; **`alignPread_reports_iff`**: when they report what was
  read;
* `pread_reports`: the reads of the cache after any calls, and the aligned reads;
* `shortWindow_misreported`: a read that runs through a window that failed.
-/

namespace RecoveryQt

open List

variable {σ : Type*}

/-- A result that is no error is the number of bytes at the start of the buffer that are right. -/
def Reports (status : ℤ) (buffer : List UInt8) (g : ℕ → UInt8) (count offset : ℕ) : Prop :=
  0 ≤ status → status ≤ count ∧ buffer.take status.toNat = slice g offset status.toNat

/-! ## Reads of the cache -/

section Cache

variable (dev : Device σ)

/-- The window or the disk gives nothing of a sector. -/
def Withheld (st : CacheStruct σ) (count offset : ℕ) : Prop :=
  match st.lookup offset with
  | some b => count ≤ b.available offset ∧ b.res offset ≤ 0
  | none => (dev.pread st.disk count offset).status ≤ 0

theorem withheld_iff {st : CacheStruct σ} {count offset : ℕ} : Withheld dev st count offset ↔
    (∃ b ∈ st.lookup offset, count ≤ b.available offset ∧ b.res offset ≤ 0) ∨
      st.lookup offset = none ∧ (dev.pread st.disk count offset).status ≤ 0 := by
  unfold Withheld
  cases st.lookup offset <;> simp

instance (st : CacheStruct σ) (count offset : ℕ) : Decidable (Withheld dev st count offset) :=
  decidable_of_iff' _ (withheld_iff dev)

/-- The sectors that are read again: each one is given whole, up to one of which nothing is given. -/
def SectorsWhole (fuel count offset : ℕ) : ℕ → ℕ → CacheStruct σ → Prop
  | 0, _, _ => True
  | rounds + 1, off, st =>
    Served dev fuel st (min dev.sectorSize (count - off)) (offset + off) false ∧
      (match cachePreadAux dev fuel st (min dev.sectorSize (count - off)) (offset + off) false with
      | none => True
      | some r => SectorsWhole fuel count offset rounds (off + dev.sectorSize) r.state) ∨
    Withheld dev st (min dev.sectorSize (count - off)) (offset + off)

instance SectorsWhole.decidable (fuel count offset : ℕ) : ∀ (rounds off : ℕ) (st : CacheStruct σ),
    Decidable (SectorsWhole dev fuel count offset rounds off st)
  | 0, _, _ => inferInstanceAs (Decidable True)
  | rounds + 1, off, st => by
    have rest := fun st => SectorsWhole.decidable fuel count offset rounds (off + dev.sectorSize) st
    unfold SectorsWhole
    cases cachePreadAux dev fuel st (min dev.sectorSize (count - off)) (offset + off) false <;> infer_instance

/-- No short window is run through, and the sectors that are read again are given whole or not at all. -/
def Clean : ℕ → CacheStruct σ → ℕ → ℕ → Bool → Prop
  | 0, _, _, _, _ => False
  | fuel + 1, st, count, offset, readAhead =>
    match st.lookup offset with
    | some b => count ≤ b.available offset ∨ b.cacheStatus = b.cacheSize ∧
        Clean fuel st (count - b.available offset) (offset + b.available offset) readAhead
    | none =>
      let countNew := st.countNew dev count offset readAhead
      let r := dev.pread st.disk countNew offset
      count ≤ r.status ∨ ¬ st.Splits dev countNew ∨
        SectorsWhole dev fuel count offset ((count + dev.sectorSize - 1) / dev.sectorSize) 0
          ((st.fill countNew offset r).withErrors ((st.lastIoErrorNbr + 1) % 2 ^ 32)).dropLast

instance Clean.decidable : ∀ (fuel : ℕ) (st : CacheStruct σ) (count offset : ℕ) (readAhead : Bool),
    Decidable (Clean dev fuel st count offset readAhead)
  | 0, _, _, _, _ => inferInstanceAs (Decidable False)
  | fuel + 1, st, count, offset, readAhead => by
    have rest := fun count offset => Clean.decidable fuel st count offset readAhead
    unfold Clean
    cases st.lookup offset <;> infer_instance

/-- The condition for a call of `cache_pread`. -/
def CleanPread (st : CacheStruct σ) (count offset : ℕ) : Prop :=
  Clean dev (2 * count + 2) st count offset (st.lastIoErrorNbr = 0)

instance (st : CacheStruct σ) (count offset : ℕ) : Decidable (CleanPread dev st count offset) :=
  inferInstanceAs (Decidable (Clean dev (2 * count + 2) st count offset (st.lastIoErrorNbr = 0)))

variable {dev} {content : σ → ℕ → UInt8} {g : ℕ → UInt8}

/-- A full range, and what a read of the rest reports. -/
theorem Reports.append {n count offset : ℕ} (hn : n ≤ count) {status : ℤ} {buffer : List UInt8}
    (h : Reports status buffer g (count - n) (offset + n)) :
    Reports (n + status) (slice g offset n ++ buffer) g count offset := by
  intro hpos
  rcases lt_or_ge status 0 with hneg | hstatus
  · -- the error of the rest is taken off the range
    have hle : (n + status).toNat ≤ n := by omega
    refine ⟨by omega, ?_⟩
    rw [take_append_of_le_length (by rwa [length_slice]), take_slice g offset hle]
  · obtain ⟨hle, htake⟩ := h hstatus
    have hsum : (n + status).toNat = n + status.toNat := by omega
    refine ⟨by omega, ?_⟩
    rw [hsum, take_append, length_slice, Nat.add_sub_cancel_left, take_of_length_le (by rw [length_slice]; omega),
      htake, slice_add]

theorem Withheld.status_le {fuel : ℕ} {st : CacheStruct σ} {count offset : ℕ} (h : Withheld dev st count offset)
    (hsector : count ≤ dev.sectorSize) {r : ReadResult (CacheStruct σ)}
    (hr : cachePreadAux dev fuel st count offset false = some r) : r.status ≤ 0 := by
  cases fuel with
  | zero => cases hr
  | succ fuel =>
    have hcount : st.countNew dev count offset false = count := if_neg fun h => Bool.false_ne_true h.1
    rw [Withheld] at h
    rw [cachePreadAux] at hr
    cases hlookup : st.lookup offset with
    | some b =>
      rw [hlookup] at h hr
      dsimp only at h hr
      rw [if_pos h.1] at hr
      obtain rfl := Option.some.inj hr
      exact (min_le_left _ _).trans h.2
    | none =>
      rw [hlookup] at h hr
      dsimp only at h hr
      rw [hcount] at hr
      split_ifs at hr with hread hsplit
      · obtain rfl := Option.some.inj hr
        exact hread.trans h
      · exact absurd hsplit.1 (not_lt.mpr hsector)
      · obtain rfl := Option.some.inj hr
        exact h

/-- **The sectors that are read again** are counted as far as they were given. -/
theorem readSectors_reports (hdev : dev.Truthful content) {fuel count offset : ℕ} (hin : InRange count offset)
    {rounds off : ℕ} {st : CacheStruct σ} (hst : st.Truthful content)
    (hoff : off + rounds * dev.sectorSize < count + dev.sectorSize) (hend : count ≤ off + rounds * dev.sectorSize)
    (hclean : SectorsWhole dev fuel count offset rounds off st) {r : ReadResult (CacheStruct σ)}
    (hr : readSectors (fun st' n off' => cachePreadAux dev fuel st' n off' false) dev.sectorSize count offset
      rounds off st = some r) :
    ∃ n : ℕ, r.status = n ∧ (n = count ∨ off ≤ n ∧ n < count) ∧
      r.buffer.take (n - off) = slice (content st.disk) (offset + off) (n - off) := by
  induction rounds generalizing off st r with
  | zero =>
    obtain rfl := Option.some.inj hr
    refine ⟨count, rfl, Or.inl rfl, ?_⟩
    rw [Nat.zero_mul, Nat.add_zero] at hend
    rw [Nat.sub_eq_zero_of_le hend, slice_zero, take_zero]
  | succ rounds ih =>
    rw [Nat.succ_mul] at hoff hend
    rw [SectorsWhole] at hclean
    rw [readSectors] at hr
    rcases hclean with ⟨hserved, hnext⟩ | hwithheld
    · obtain ⟨st', hst'⟩ := cachePreadAux_served hdev hst hserved
      have hrange : InRange (min dev.sectorSize (count - off)) (offset + off) :=
        hin.mono (by omega) (by omega)
      obtain ⟨htruthful, hcontent⟩ := cachePreadAux_preserves hdev hst hrange hst'
      rw [hst'] at hr hnext
      dsimp only at hr hnext htruthful hcontent
      rw [if_neg (by omega)] at hr
      obtain ⟨rest, hrest, rfl⟩ := Option.map_eq_some_iff.mp hr
      obtain ⟨n, hstatus, hn, hbytes⟩ := ih htruthful (by omega) (by omega) hnext hrest
      rw [hcontent] at hbytes
      refine ⟨n, hstatus, by omega, ?_⟩
      -- the last sector can be cut, and then nothing is left behind it
      rcases Nat.le_total dev.sectorSize (count - off) with hle | hle
      · have hsplit : n - off = dev.sectorSize + (n - (off + dev.sectorSize)) := by omega
        rw [hsplit, Nat.min_eq_left hle, take_append, length_slice, Nat.add_sub_cancel_left, hbytes,
          take_of_length_le (by rw [length_slice]; omega), slice_add, Nat.add_assoc]
      · have hlast : n - off = count - off := by omega
        rw [hlast, Nat.min_eq_right hle, take_left' (length_slice ..)]
    · cases hsector : cachePreadAux dev fuel st (min dev.sectorSize (count - off)) (offset + off) false with
      | none =>
        rw [hsector] at hr
        cases hr
      | some r' =>
        rw [hsector] at hr
        dsimp only at hr
        rw [if_pos (hwithheld.status_le (Nat.min_le_left _ _) hsector)] at hr
        obtain rfl := Option.some.inj hr
        refine ⟨off, rfl, Or.inr ⟨le_rfl, by omega⟩, ?_⟩
        rw [Nat.sub_self, slice_zero, take_zero]

/-- **A clean read reports what was read.** -/
theorem cachePreadAux_reports (hdev : dev.Truthful content) {fuel : ℕ} {st : CacheStruct σ} {count offset : ℕ}
    {readAhead : Bool} (hst : st.Truthful content) (hin : InRange count offset)
    (hclean : Clean dev fuel st count offset readAhead) {r : ReadResult (CacheStruct σ)}
    (hr : cachePreadAux dev fuel st count offset readAhead = some r) :
    Reports r.status r.buffer (content st.disk) count offset := by
  induction fuel generalizing st count offset r with
  | zero => exact hclean.elim
  | succ fuel ih =>
    rw [Clean] at hclean
    rw [cachePreadAux] at hr
    cases hlookup : st.lookup offset with
    | some b =>
      obtain ⟨hb, i, rfl⟩ := holds_of_lookup hlookup
      have hwindow := hst.windows i
      have hpos := hb.available_pos
      rw [hlookup] at hclean hr
      dsimp only at hclean hr
      split_ifs at hr with hle
      · obtain rfl := Option.some.inj hr
        intro hstatus
        dsimp only at hstatus ⊢
        refine ⟨min_le_right _ _, hwindow.take_bytes hb (by omega) (by omega)⟩
      · obtain ⟨tail, htail, rfl⟩ := Option.map_eq_some_iff.mp hr
        obtain ⟨hwhole, hrest⟩ := hclean.resolve_left hle
        have hrange : InRange (count - (st.cache i).available offset) (offset + (st.cache i).available offset) :=
          hin.mono (by omega) (by omega)
        have hreports := ih hst hrange hrest htail
        dsimp only
        rw [(st.cache i).res_of_whole hb hwhole, hwindow.bytes_of_whole hb hwhole]
        exact hreports.append (by omega)
    | none =>
      have hle := st.le_countNew dev count offset readAhead
      have hcount : st.countNew dev count offset readAhead < 2 ^ 32 := countNew_lt hst hin readAhead
      have hfill := hst.fill hdev hcount hin.offset_lt
      have hbuffer := hdev.buffer st.disk (st.countNew dev count offset readAhead) offset
      rw [hlookup] at hclean hr
      dsimp only at hclean hr
      split_ifs at hr with hread hsplit
      · obtain rfl := Option.some.inj hr
        intro _
        refine ⟨le_rfl, ?_⟩
        rw [Int.toNat_natCast, take_take, Nat.min_self]
        have hcut := congrArg (take count) hbuffer
        rwa [take_take, Nat.min_eq_left (by omega), take_slice _ _ (by omega)] at hcut
      · have hsectors := (hclean.resolve_left hread).resolve_left (not_not_intro hsplit)
        have hend : count ≤ 0 + (count + dev.sectorSize - 1) / dev.sectorSize * dev.sectorSize := by
          have hdiv := Nat.div_add_mod (count + dev.sectorSize - 1) dev.sectorSize
          have hmod := Nat.mod_lt (count + dev.sectorSize - 1) hsplit.2.1
          rw [Nat.mul_comm] at hdiv
          omega
        obtain ⟨n, hstatus, hn, hbytes⟩ := readSectors_reports hdev hin (hfill.withErrors _).dropLast
          (rounds_lt hsplit.2.1 count) hend hsectors hr
        intro _
        rw [hstatus, Int.toNat_natCast]
        refine ⟨by omega, hbytes.trans ?_⟩
        exact congrArg (fun g => slice g offset n) (hdev.content_pread _ _ _)
      · obtain rfl := Option.some.inj hr
        intro hstatus
        dsimp only at hstatus ⊢
        refine ⟨by omega, ?_⟩
        rw [take_take, Nat.min_eq_left (by omega), hbuffer]

end Cache

/-! ## Aligned reads -/

/-- `count_new`: the bytes of the sectors that a range meets. -/
def alignedCount (sectorSize count offset : ℕ) : ℕ :=
  (offset % sectorSize + count + sectorSize - 1) / sectorSize * sectorSize

/-- `align_pread`: the result and the buffer. The range is read through a buffer of whole sectors, unless it
is made up of them and the caller's buffer will do. -/
def alignPread (fnctPread : ℕ → ℕ → ℤ × List UInt8) (sectorSize hdrSize : ℕ) (bounce : Bool)
    (count offset : ℕ) : ℤ × List UInt8 :=
  let offsetNew := offset + hdrSize
  let countNew := alignedCount sectorSize count offsetNew
  if count ≠ countNew ∨ bounce = true then
    let r := fnctPread countNew (offsetNew / sectorSize * sectorSize)
    (min r.1 count, (r.2.drop (offsetNew % sectorSize)).take count)
  else fnctPread count offsetNew

/-- Reads with these results, which are the numbers of bytes that are right. -/
structure GivesStatus (g : ℕ → UInt8) (status : ℕ → ℕ → ℤ) (fnctPread : ℕ → ℕ → ℤ × List UInt8) : Prop where
  result : ∀ count offset, (fnctPread count offset).1 = status count offset
  size : ∀ count offset, (fnctPread count offset).2.length = count
  right : ∀ count offset, Reports (status count offset) (fnctPread count offset).2 g count offset

/-- A read of these bytes, with others behind them. -/
def cutRead (g : ℕ → UInt8) (status : ℕ → ℕ → ℤ) (count offset : ℕ) : ℤ × List UInt8 :=
  (status count offset, slice g offset (status count offset).toNat ++
    slice (fun p => g p + 1) (offset + (status count offset).toNat) (count - (status count offset).toNat))

variable {g : ℕ → UInt8} {status : ℕ → ℕ → ℤ}

theorem cutRead_givesStatus (hstatus : ∀ count offset, status count offset ≤ count) :
    GivesStatus g status (cutRead g status) where
  result := fun _ _ => rfl
  size := by
    intro count offset
    have := hstatus count offset
    rw [cutRead, length_append, length_slice, length_slice]
    omega
  right := by
    intro count offset _
    exact ⟨hstatus count offset, take_left' (length_slice ..)⟩

/-- The bytes behind the ones that were read are others. -/
theorem getElem?_cutRead {count offset i : ℕ} (hread : (status count offset).toNat ≤ i) (hi : i < count) :
    (cutRead g status count offset).2[i]? = some (g (offset + i) + 1) := by
  have hpos : offset + (status count offset).toNat + (i - (status count offset).toNat) = offset + i := by omega
  rw [cutRead, getElem?_append_right (by rwa [length_slice]), length_slice, slice, getElem?_map,
    getElem?_range (by omega), Option.map_some, hpos]

theorem alignedCount_le {sectorSize : ℕ} (hpos : 0 < sectorSize) (count offset : ℕ) :
    offset % sectorSize + count ≤ alignedCount sectorSize count offset := by
  have hdiv := Nat.div_add_mod (offset % sectorSize + count + sectorSize - 1) sectorSize
  have hmod := Nat.mod_lt (offset % sectorSize + count + sectorSize - 1) hpos
  rw [Nat.mul_comm] at hdiv
  rw [alignedCount]
  omega

/-- **When an aligned read reports what was read**: the head before the range is not taken off the result, so
there is none, or the read failed, or all of the range was read. -/
theorem alignPread_reports_iff (hstatus : ∀ count offset, status count offset ≤ count) {sectorSize : ℕ}
    (hpos : 0 < sectorSize) (hdrSize : ℕ) (bounce : Bool) (count offset : ℕ) :
    (∀ fnctPread, GivesStatus g status fnctPread →
      Reports (alignPread fnctPread sectorSize hdrSize bounce count offset).1
        (alignPread fnctPread sectorSize hdrSize bounce count offset).2 g count (offset + hdrSize)) ↔
    ((offset + hdrSize) % sectorSize = 0 ∨ count = 0 ∨
      status (alignedCount sectorSize count (offset + hdrSize))
        ((offset + hdrSize) / sectorSize * sectorSize) ≤ 0 ∨
      (((offset + hdrSize) % sectorSize + count : ℕ) : ℤ) ≤
        status (alignedCount sectorSize count (offset + hdrSize))
          ((offset + hdrSize) / sectorSize * sectorSize)) := by
  have hcut := Nat.div_add_mod (offset + hdrSize) sectorSize
  rw [Nat.mul_comm] at hcut
  have hcount := alignedCount_le hpos count (offset + hdrSize)
  have hread := hstatus (alignedCount sectorSize count (offset + hdrSize))
    ((offset + hdrSize) / sectorSize * sectorSize)
  generalize hresult : status (alignedCount sectorSize count (offset + hdrSize))
    ((offset + hdrSize) / sectorSize * sectorSize) = res at hread ⊢
  generalize hhead : (offset + hdrSize) % sectorSize = head at hcut hcount ⊢
  constructor
  · intro h
    by_contra hcond
    simp only [not_or, not_le] at hcond
    obtain ⟨hpadded, hnonempty, hsome, hshort⟩ := hcond
    have hres : (cutRead g status (alignedCount sectorSize count (offset + hdrSize))
        ((offset + hdrSize) / sectorSize * sectorSize)).1 = res := hresult
    have hreports := h _ (cutRead_givesStatus hstatus)
    rw [alignPread, if_pos (Or.inl (by omega)), hhead] at hreports
    dsimp only at hreports
    rw [hres] at hreports
    obtain ⟨-, htake⟩ := hreports (by omega)
    -- the last byte that is reported lies behind the ones that were read
    have hlast := congrArg (fun l : List UInt8 => l[(min res count).toNat - 1]?) htake
    have hplace : (offset + hdrSize) / sectorSize * sectorSize + (head + ((min res count).toNat - 1)) =
        offset + hdrSize + ((min res count).toNat - 1) := by
      omega
    rw [getElem?_take_of_lt (by omega), getElem?_take_of_lt (by omega), getElem?_drop,
      getElem?_cutRead (by rw [hresult]; omega) (by omega), hplace, slice, getElem?_map,
      getElem?_range (by omega), Option.map_some] at hlast
    exact absurd (Option.some.inj hlast) (by simp)
  · intro hcond fnctPread hfnct
    rw [alignPread]
    split_ifs with hbranch
    · have hright := hfnct.right (alignedCount sectorSize count (offset + hdrSize))
        ((offset + hdrSize) / sectorSize * sectorSize)
      rw [hresult] at hright
      dsimp only
      rw [hfnct.result, hresult, hhead]
      intro hstatus'
      refine ⟨min_le_right _ _, ?_⟩
      obtain ⟨-, htake⟩ := hright (by omega)
      rcases Nat.eq_zero_or_pos (min res count).toNat with hzero | hsome
      · rw [hzero, take_zero, slice_zero]
      · have hle : head + (min res count).toNat ≤ res.toNat := by omega
        have hcommon := congrArg (fun l => (l.drop head).take (min res count).toNat) htake
        rw [drop_take, take_take, Nat.min_eq_left (by omega), drop_slice _ _ (by omega), hcut,
          take_slice _ _ (by omega)] at hcommon
        rw [take_take, Nat.min_eq_left (by omega), hcommon]
    · have hright := hfnct.right count (offset + hdrSize)
      rwa [← hfnct.result] at hright

/-- **What the reads report**: after any calls, a clean read of the cache reports what was read, and an
aligned read does when it has no head, fails or is complete. -/
theorem pread_reports {dev : Device σ} {content : σ → ℕ → UInt8} (hdev : dev.Truthful content) (s : σ)
    (testdiskMode : UInt32) {calls : List CacheCall} (hcalls : ∀ call ∈ calls, call.InRange)
    {st : CacheStruct σ} (hrun : runCalls dev calls (newDiskcache s testdiskMode) = some st)
    (hstatus : ∀ count offset, status count offset ≤ count) {sectorSize : ℕ} (hpos : 0 < sectorSize) :
    (∀ count offset, InRange count offset → CleanPread dev st count offset →
      ∃ r, cachePread dev st count offset = some r ∧
        Reports r.status r.buffer (content st.disk) count offset) ∧
    ∀ hdrSize bounce count offset,
      ((∀ fnctPread, GivesStatus g status fnctPread →
        Reports (alignPread fnctPread sectorSize hdrSize bounce count offset).1
          (alignPread fnctPread sectorSize hdrSize bounce count offset).2 g count (offset + hdrSize)) ↔
      ((offset + hdrSize) % sectorSize = 0 ∨ count = 0 ∨
        status (alignedCount sectorSize count (offset + hdrSize))
          ((offset + hdrSize) / sectorSize * sectorSize) ≤ 0 ∨
        (((offset + hdrSize) % sectorSize + count : ℕ) : ℤ) ≤
          status (alignedCount sectorSize count (offset + hdrSize))
            ((offset + hdrSize) / sectorSize * sectorSize))) := by
  refine ⟨fun count offset hin hclean => ?_, fun hdrSize bounce count offset =>
    alignPread_reports_iff hstatus hpos hdrSize bounce count offset⟩
  have hst := runCalls_truthful hdev hcalls (newDiskcache_truthful s testdiskMode) hrun
  obtain ⟨r, hr⟩ := Option.isSome_iff_exists.mp (cachePread_isSome dev st count offset)
  exact ⟨r, hr, cachePreadAux_reports hdev hst hin hclean hr⟩

/-! ## A disk with a bad sector -/

/-- A disk of the bytes 7, of which no read that meets this sector succeeds. -/
def badSectorDevice (bad : ℕ) : Device Unit where
  sectorSize := 512
  diskRealSize := 1048576
  pread := fun _ count offset =>
    if offset < (bad + 1) * 512 ∧ bad * 512 < offset + count then ⟨-1, replicate count 0, ()⟩
    else ⟨count, replicate count 7, ()⟩
  pwrite := fun _ _ _ => (-1, ())
  length_pread := by
    intro _ count offset
    split_ifs <;> exact length_replicate ..

theorem badSectorDevice_truthful (bad : ℕ) : (badSectorDevice bad).Truthful fun _ _ => 7 where
  status_le := by
    intro _ count offset
    simp only [badSectorDevice]
    split_ifs <;> dsimp only <;> omega
  buffer := by
    intro _ count offset
    have hslice : ∀ n start, slice (fun _ => (7 : UInt8)) start n = replicate n 7 := by
      intro n start
      rw [slice, map_const', length_range]
    simp only [badSectorDevice, hslice]
    split_ifs
    · rfl
    · simp
  content_pread := fun _ _ _ => rfl
  content_pwrite := fun _ _ _ _ _ => rfl

/-- The first sector of a read is given when the second one is bad, and an aligned read that is complete is
right behind its head. -/
theorem badSectorDevice_reports :
    (∃ r, cachePread (badSectorDevice 1) (newDiskcache () 0) 1024 0 = some r ∧
      Reports r.status r.buffer (fun _ => 7) 1024 0) ∧
    ∀ fnctPread, GivesStatus (fun _ => 7) (fun count _ => count) fnctPread →
      Reports (alignPread fnctPread 512 0 false 2 511).1 (alignPread fnctPread 512 0 false 2 511).2
        (fun _ => 7) 2 (511 + 0) := by
  obtain ⟨hcache, halign⟩ := @pread_reports _ (fun _ => 7) (fun count _ => count) _ _
    (badSectorDevice_truthful 1) () 0 [] (forall_mem_nil _) _ rfl (fun _ _ => le_rfl) 512 (by decide)
  exact ⟨hcache 1024 0 (by simp [inRange_iff]) (by decide +kernel),
    (halign 0 false 2 511).mpr (by decide +kernel)⟩

/-- A read of the last byte of the bad sector fails, and its window is kept. The read of it and of the next
two bytes gives the sum of `-1` and `2`. -/
theorem shortWindow_misreported : (badSectorDevice 0).Truthful (fun _ _ => 7) ∧
    (runCalls (badSectorDevice 0) [.pread 1 511] (newDiskcache () 0)).bind (fun st =>
      (cachePread (badSectorDevice 0) st 3 511).map fun r => (r.status, r.buffer)) = some (1, [0, 7, 7]) ∧
    ¬ Reports 1 [0, 7, 7] (fun _ => 7) 3 511 := by
  refine ⟨badSectorDevice_truthful 0, by decide +kernel, fun h => ?_⟩
  exact absurd (h (by decide)).2 (by decide)

end RecoveryQt
