import RecoveryQt.Cache.Model

/-!
# Reads of the cache

* `Served`: the windows and the disk give all of a range; **`cachePreadAux_served`**: it is read;
* `Device.Exact`: a disk whose reads are complete, and whose writes change its content;
* `CacheStruct.Whole`: no window is short, which each call preserves;
* `CacheCall`, `runCalls`: the calls in a row; `CacheCall.change`: what they do to the content;
* **`cachePread_coherent`**: after any calls, a read gives the content that the writes have left.
-/

namespace RecoveryQt

open List

variable {σ : Type*} (dev : Device σ)

/-- The windows and the disk give all of a range: no window that it runs through is short, and the last
window or the disk has the rest. -/
def Served : ℕ → CacheStruct σ → ℕ → ℕ → Bool → Prop
  | 0, _, _, _, _ => False
  | fuel + 1, st, count, offset, readAhead =>
    match st.lookup offset with
    | some b =>
      if count ≤ b.available offset then (count : ℤ) ≤ b.res offset
      else b.cacheStatus = b.cacheSize ∧
        Served fuel st (count - b.available offset) (offset + b.available offset) readAhead
    | none => (count : ℤ) ≤ (dev.pread st.disk (st.countNew dev count offset readAhead) offset).status

instance Served.decidable : ∀ (fuel : ℕ) (st : CacheStruct σ) (count offset : ℕ) (readAhead : Bool),
    Decidable (Served dev fuel st count offset readAhead)
  | 0, _, _, _, _ => inferInstanceAs (Decidable False)
  | fuel + 1, st, count, offset, readAhead => by
    have rest := fun count offset => Served.decidable fuel st count offset readAhead
    unfold Served
    cases st.lookup offset <;> infer_instance

variable {dev} {content : σ → ℕ → UInt8} {st : CacheStruct σ}

/-- A window with an offset ends before the last one. -/
theorem CacheBuffer.Truthful.end_lt {g : ℕ → UInt8} {b : CacheBuffer} (h : b.Truthful g) {offset : ℕ}
    (hb : b.Holds offset) : b.cacheOffset + b.cacheSize ≤ 2 ^ 64 := by
  have hoffset := h.offset_lt
  have hsize := h.size_lt
  obtain ⟨hle, hlt, -, -⟩ := hb
  omega

/-- The bytes of a window that were read are those of the content. -/
theorem CacheBuffer.Truthful.take_bytes {g : ℕ → UInt8} {b : CacheBuffer} (h : b.Truthful g) {offset : ℕ}
    (hb : b.Holds offset) {n m : ℕ} (hm : m ≤ n) (hread : (m : ℤ) ≤ b.res offset) :
    (b.bytes offset n).take m = slice g offset m := by
  obtain ⟨l, hl, hlength, hstatus, hbytes⟩ := h.held hb.2.2.2 (h.end_lt hb)
  have hle := hb.1
  rw [CacheBuffer.res] at hread
  have hstart : b.cacheOffset + (offset - b.cacheOffset) = offset := Nat.add_sub_cancel' hle
  have hcut : (l.drop (offset - b.cacheOffset)).take m =
      ((l.take b.cacheStatus.toNat).drop (offset - b.cacheOffset)).take m := by
    rw [drop_take, take_take, Nat.min_eq_left (by omega)]
  rw [CacheBuffer.bytes, hl, Option.getD_some, take_take, Nat.min_eq_left hm, hcut, hbytes,
    drop_slice _ _ (by omega), hstart, take_slice _ _ (by omega)]

/-- A window that is not short has all of its bytes. -/
theorem CacheBuffer.res_of_whole {b : CacheBuffer} {offset : ℕ} (hb : b.Holds offset)
    (h : b.cacheStatus = b.cacheSize) : b.res offset = b.available offset := by
  have hlt := hb.lt
  rw [CacheBuffer.res, CacheBuffer.available, h]
  omega

theorem length_bytes_le (b : CacheBuffer) (offset n : ℕ) : (b.bytes offset n).length ≤ n :=
  length_take_le _ _

/-- The bytes of a window up to its end. -/
theorem CacheBuffer.Truthful.bytes_of_whole {g : ℕ → UInt8} {b : CacheBuffer} (h : b.Truthful g) {offset : ℕ}
    (hb : b.Holds offset) (hwhole : b.cacheStatus = b.cacheSize) :
    b.bytes offset (b.available offset) = slice g offset (b.available offset) := by
  rw [← h.take_bytes hb le_rfl (b.res_of_whole hb hwhole).ge, take_of_length_le (length_bytes_le _ _ _)]

/-- **A range that the windows and the disk give** is read, whatever windows it runs through. -/
theorem cachePreadAux_served (hdev : dev.Truthful content) {fuel : ℕ} {st : CacheStruct σ} {count offset : ℕ}
    {readAhead : Bool} (hst : st.Truthful content) (h : Served dev fuel st count offset readAhead) :
    ∃ st', cachePreadAux dev fuel st count offset readAhead =
      some ⟨count, slice (content st.disk) offset count, st'⟩ := by
  induction fuel generalizing st count offset with
  | zero => exact h.elim
  | succ fuel ih =>
    rw [Served] at h
    rw [cachePreadAux]
    cases hlookup : st.lookup offset with
    | some b =>
      obtain ⟨hb, i, rfl⟩ := holds_of_lookup hlookup
      have hwindow := hst.windows i
      rw [hlookup] at h
      dsimp only at h ⊢
      split_ifs at h ⊢ with hle
      · have hbytes := hwindow.take_bytes hb le_rfl h
        rw [take_of_length_le (length_bytes_le _ _ _)] at hbytes
        rw [min_eq_right h, hbytes]
        exact ⟨st, rfl⟩
      · obtain ⟨hwhole, hrest⟩ := h
        obtain ⟨st', hst'⟩ := ih hst hrest
        have hcount : (st.cache i).available offset + (count - (st.cache i).available offset) = count := by
          omega
        have hstatus : ((st.cache i).available offset : ℤ) + (count - (st.cache i).available offset : ℕ) = count := by
          omega
        refine ⟨st', ?_⟩
        rw [hst', Option.map_some, (st.cache i).res_of_whole hb hwhole, hwindow.bytes_of_whole hb hwhole,
          ← slice_add, hcount, hstatus]
    | none =>
      rw [hlookup] at h
      dsimp only at h ⊢
      have hbuffer := congrArg (take count) (hdev.buffer st.disk (st.countNew dev count offset readAhead) offset)
      rw [take_take, Nat.min_eq_left (by omega), take_slice _ _ (by omega)] at hbuffer
      rw [if_pos h, hbuffer]
      exact ⟨_, rfl⟩

/-! ## Complete reads -/

variable {write : List UInt8 → ℕ → (ℕ → UInt8) → ℕ → UInt8}

/-- A disk whose reads are complete, and whose writes change the content in their range only. -/
structure Device.Exact (dev : Device σ) (content : σ → ℕ → UInt8)
    (write : List UInt8 → ℕ → (ℕ → UInt8) → ℕ → UInt8) : Prop where
  status : ∀ s count offset, (dev.pread s count offset).status = count
  buffer : ∀ s count offset, (dev.pread s count offset).buffer = slice (content s) offset count
  content_pread : ∀ s count offset, content (dev.pread s count offset).state = content s
  content_pwrite : ∀ s bytes offset, content (dev.pwrite s bytes offset).2 = write bytes offset (content s)
  write_of_out : ∀ bytes offset g p, p < offset ∨ offset + bytes.length ≤ p → write bytes offset g p = g p

theorem Device.Exact.truthful (hdev : dev.Exact content write) : dev.Truthful content where
  status_le := fun s count offset => (hdev.status s count offset).le
  buffer := by
    intro s count offset
    rw [hdev.status, Int.toNat_natCast, hdev.buffer, take_of_length_le (length_slice ..).le]
  content_pread := hdev.content_pread
  content_pwrite := by
    intro s bytes offset p hp
    rw [hdev.content_pwrite, hdev.write_of_out _ _ _ _ hp]

/-- No window is short. -/
def CacheStruct.Whole (st : CacheStruct σ) : Prop :=
  ∀ i, 0 < (st.cache i).cacheSize → (st.cache i).cacheStatus = (st.cache i).cacheSize

theorem newDiskcache_whole (s : σ) (testdiskMode : UInt32) : (newDiskcache s testdiskMode).Whole :=
  fun _ h => absurd h (lt_irrefl 0)

/-- Without short windows, all of any range is given. -/
theorem CacheStruct.Whole.served (hdev : dev.Exact content write) {fuel : ℕ} {st : CacheStruct σ}
    (hst : st.Whole) {count offset : ℕ} {readAhead : Bool} (hfuel : count < fuel) :
    Served dev fuel st count offset readAhead := by
  induction fuel generalizing count offset with
  | zero => omega
  | succ fuel ih =>
    rw [Served]
    cases hlookup : st.lookup offset with
    | some b =>
      obtain ⟨hb, i, rfl⟩ := holds_of_lookup hlookup
      have hwhole := hst i hb.2.2.2
      have hpos := hb.available_pos
      dsimp only
      split_ifs with hle
      · rw [(st.cache i).res_of_whole hb hwhole]
        exact Int.ofNat_le.mpr hle
      · exact ⟨hwhole, ih (by omega)⟩
    | none =>
      dsimp only
      rw [hdev.status]
      exact Int.ofNat_le.mpr (st.le_countNew dev count offset readAhead)

theorem CacheStruct.Whole.fill (hst : st.Whole) {countNew offset : ℕ} {r : ReadResult σ}
    (hr : r.status = countNew) : (st.fill countNew offset r).Whole := by
  intro i
  by_cases hi : i = st.last + 1
  · rw [hi, fill_cache, Function.update_self]
    exact fun _ => hr
  · rw [fill_cache, Function.update_of_ne hi]
    exact hst i

/-- And no window becomes short. -/
theorem CacheStruct.Whole.pread (hdev : dev.Exact content write) {fuel : ℕ} {st : CacheStruct σ} (hst : st.Whole)
    {count offset : ℕ} {readAhead : Bool} {r : ReadResult (CacheStruct σ)}
    (hr : cachePreadAux dev fuel st count offset readAhead = some r) : r.state.Whole := by
  induction fuel generalizing count offset r with
  | zero => cases hr
  | succ fuel ih =>
    rw [cachePreadAux] at hr
    cases hlookup : st.lookup offset with
    | some b =>
      rw [hlookup] at hr
      dsimp only at hr
      split_ifs at hr
      · obtain rfl := Option.some.inj hr
        exact hst
      · obtain ⟨tail, htail, rfl⟩ := Option.map_eq_some_iff.mp hr
        have hrest := ih htail
        exact hrest
    | none =>
      have hread := Int.ofNat_le.mpr (st.le_countNew dev count offset readAhead)
      rw [hlookup] at hr
      dsimp only at hr
      rw [if_pos (by rw [hdev.status]; exact hread)] at hr
      obtain rfl := Option.some.inj hr
      exact hst.fill (hdev.status _ _ _)

theorem CacheStruct.Whole.pwrite (hst : st.Whole) (bytes : List UInt8) (offset : ℕ) :
    (cachePwrite dev st bytes offset).2.Whole := by
  intro i
  simp only [cachePwrite]
  split_ifs
  · exact hst i
  · exact fun h => absurd h (lt_irrefl 0)

/-! ## Calls in a row -/

/-- A call of `cache_pread` or `cache_pwrite`. -/
inductive CacheCall where
  | pread (count offset : ℕ)
  | pwrite (bytes : List UInt8) (offset : ℕ)

/-- The range of a call has offsets of 64 bits. -/
def CacheCall.InRange : CacheCall → Prop
  | .pread count offset => RecoveryQt.InRange count offset
  | .pwrite bytes offset => offset + bytes.length ≤ 2 ^ 64

variable (dev) in
/-- The cache after a call. -/
def CacheCall.run : CacheCall → CacheStruct σ → Option (CacheStruct σ)
  | .pread count offset, st => (cachePread dev st count offset).map ReadResult.state
  | .pwrite bytes offset, st => some (cachePwrite dev st bytes offset).2

variable (dev) in
/-- The cache after calls. -/
def runCalls : List CacheCall → CacheStruct σ → Option (CacheStruct σ)
  | [], st => some st
  | call :: calls, st => (call.run dev st).bind (runCalls calls)

variable (write) in
/-- What a call does to the content of the disk. -/
def CacheCall.change (g : ℕ → UInt8) : CacheCall → ℕ → UInt8
  | .pread _ _ => g
  | .pwrite bytes offset => write bytes offset g

/-- The windows hold what the disk gave after any call. -/
theorem CacheCall.run_truthful (hdev : dev.Truthful content) (hst : st.Truthful content) {call : CacheCall}
    (hcall : call.InRange) {st' : CacheStruct σ} (hrun : call.run dev st = some st') : st'.Truthful content := by
  cases call with
  | pread count offset =>
    obtain ⟨r, hr, rfl⟩ := Option.map_eq_some_iff.mp hrun
    exact (cachePreadAux_preserves hdev hst hcall hr).1
  | pwrite bytes offset =>
    obtain rfl := Option.some.inj hrun
    exact cachePwrite_preserves hdev hst bytes hcall

theorem runCalls_truthful (hdev : dev.Truthful content) {calls : List CacheCall}
    (hcalls : ∀ call ∈ calls, call.InRange) {st st' : CacheStruct σ} (hst : st.Truthful content)
    (hrun : runCalls dev calls st = some st') : st'.Truthful content := by
  induction calls generalizing st with
  | nil => exact Option.some.inj hrun ▸ hst
  | cons call calls ih =>
    obtain ⟨st₁, hcall, hrest⟩ := Option.bind_eq_some_iff.mp hrun
    exact ih (fun call hcall => hcalls call (mem_cons_of_mem _ hcall))
      (CacheCall.run_truthful hdev hst (hcalls call mem_cons_self) hcall) hrest

/-- **A call keeps the windows as they should be**, and changes the content as it does without them. -/
theorem CacheCall.run_preserves (hdev : dev.Exact content write) (hst : st.Truthful content) (hwhole : st.Whole)
    {call : CacheCall} (hcall : call.InRange) : ∃ st', call.run dev st = some st' ∧ st'.Truthful content ∧
      st'.Whole ∧ content st'.disk = call.change write (content st.disk) := by
  cases call with
  | pread count offset =>
    obtain ⟨r, hr⟩ := Option.isSome_iff_exists.mp (cachePread_isSome dev st count offset)
    obtain ⟨htruthful, hcontent⟩ := cachePreadAux_preserves hdev.truthful hst hcall hr
    exact ⟨r.state, by rw [CacheCall.run, hr]; rfl, htruthful, hwhole.pread hdev hr, hcontent⟩
  | pwrite bytes offset =>
    exact ⟨_, rfl, cachePwrite_preserves hdev.truthful hst bytes hcall, hwhole.pwrite bytes offset,
      hdev.content_pwrite _ _ _⟩

theorem runCalls_preserves (hdev : dev.Exact content write) {calls : List CacheCall}
    (hcalls : ∀ call ∈ calls, call.InRange) {st : CacheStruct σ} (hst : st.Truthful content) (hwhole : st.Whole) :
    ∃ st', runCalls dev calls st = some st' ∧ st'.Truthful content ∧ st'.Whole ∧
      content st'.disk = calls.foldl (CacheCall.change write) (content st.disk) := by
  induction calls generalizing st with
  | nil => exact ⟨st, rfl, hst, hwhole, rfl⟩
  | cons call calls ih =>
    obtain ⟨st₁, hrun, hst₁, hwhole₁, hcontent₁⟩ :=
      call.run_preserves hdev hst hwhole (hcalls call mem_cons_self)
    obtain ⟨st₂, hruns, hst₂, hwhole₂, hcontent₂⟩ :=
      ih (fun call hcall => hcalls call (mem_cons_of_mem _ hcall)) hst₁ hwhole₁
    refine ⟨st₂, ?_, hst₂, hwhole₂, ?_⟩
    · rw [runCalls, hrun, Option.bind_some, hruns]
    · rw [hcontent₂, hcontent₁, foldl_cons]

/-- **A read gives what the writes have left**: after any calls, all of the bytes asked for, as they are on
the disk. -/
theorem cachePread_coherent (hdev : dev.Exact content write) (s : σ) (testdiskMode : UInt32)
    {calls : List CacheCall} (hcalls : ∀ call ∈ calls, call.InRange) :
    ∃ st, runCalls dev calls (newDiskcache s testdiskMode) = some st ∧ ∀ count offset, InRange count offset →
      ∃ st', cachePread dev st count offset =
        some ⟨count, slice (calls.foldl (CacheCall.change write) (content s)) offset count, st'⟩ := by
  obtain ⟨st, hrun, hst, hwhole, hcontent⟩ := runCalls_preserves hdev hcalls
    (newDiskcache_truthful s testdiskMode) (newDiskcache_whole s testdiskMode)
  refine ⟨st, hrun, fun count offset hin => ?_⟩
  obtain ⟨st', hread⟩ := cachePreadAux_served hdev.truthful hst
    (hwhole.served hdev (show count < 2 * count + 2 by omega))
  exact ⟨st', by rw [cachePread, hread, hcontent]; rfl⟩

/-- A disk of 1 MiB that is in the state of its content. -/
def contentDevice : Device (ℕ → UInt8) where
  sectorSize := 512
  diskRealSize := 1048576
  pread := fun g count offset => ⟨count, slice g offset count, g⟩
  pwrite := fun g bytes offset => (bytes.length, overwrite bytes offset g)
  length_pread := fun _ _ _ => length_slice ..

theorem contentDevice_exact : contentDevice.Exact id overwrite where
  status := fun _ _ _ => rfl
  buffer := fun _ _ _ => rfl
  content_pread := fun _ _ _ => rfl
  content_pwrite := fun _ _ _ => rfl
  write_of_out := fun _ _ _ _ hp => overwrite_of_out hp _

/-- A window that was read ahead is freed by a write into it. -/
theorem contentDevice_coherent :
    ∃ st, runCalls contentDevice [.pread 4 0, .pwrite [1, 2] 1, .pread 1 2] (newDiskcache (fun _ => 0) 8) = some st ∧
      ∃ st', cachePread contentDevice st 4 0 = some ⟨4, [0, 1, 2, 0], st'⟩ := by
  obtain ⟨st, hrun, hread⟩ := @cachePread_coherent _ _ _ _ contentDevice_exact (fun _ => 0) 8
    [.pread 4 0, .pwrite [1, 2] 1, .pread 1 2] (by simp [CacheCall.InRange, inRange_iff])
  exact ⟨st, hrun, hread 4 0 (by simp [inRange_iff])⟩

end RecoveryQt
