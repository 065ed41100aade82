import RecoveryQt.Carver.Examined

/-!
# The steps of a scan

What holds in each step of a scan: `C` of a position that is submitted to `carver_check_header`, with the bytes that
remain in the buffer; `D` of the end of a constant sector; `F` of the file open at the end.

* `SectorEach`, `ChunkEach`, `LoopEach`, `ScanEach`: so in a sector, a chunk, the chunk loop, a scan;
* **`forall_carverScan_iff`**: a property of the events of a scan, as one of its steps;
* `ScanEach.mono`, **`scanEach_congr`**: conditions that imply each other wherever an invariant of the file in
  progress holds.
-/

namespace RecoveryQt

open List

namespace CarverEnv

variable (env : CarverEnv)

/-- The disk from an offset on. -/
def bytesFrom (offset : ℕ) : ℕ → UInt8 := fun j => env.disk.content (offset + j)

/-- What the position does: the body of the `byte_off` loop. -/
def stepAt (rem pos : ℕ) (s : Option OpenFile) : Option OpenFile × List CarvedEntry :=
  env.positionStep (env.bytesFrom pos) rem pos (env.headerAt (env.bytesFrom pos) rem pos s) s

theorem byteStep_eq (off rem : ℕ) (s : Option OpenFile) (b : ℕ) :
    env.byteStep (env.bytesFrom off) rem off s b =
      ((env.stepAt (rem - b) (off + b) s).1,
        .header (off + b) :: (env.stepAt (rem - b) (off + b) s).2.map .entry) := by
  have hbytes : (fun j => env.bytesFrom off (b + j)) = env.bytesFrom (off + b) := by
    funext j
    simp only [bytesFrom, Nat.add_assoc]
  simp only [byteStep, hbytes, stepAt]

/-! ## Conditions on steps -/

section Conditions

variable (C : ℕ → ℕ → Option OpenFile → Prop) (D : ℕ → Option OpenFile → Prop) (F : OpenFile → Prop)

/-- In each step of a sector. -/
def SectorEach (chunkPos : ℕ) (s : Option OpenFile) (i : ℕ) : Prop :=
  let off := env.absOffset chunkPos i
  let rem := env.chunkSize chunkPos - i * env.sectorSize
  if env.visitConstant chunkPos i then D (off + env.sectorSize) s
  else Meets (fun s b => (env.byteStep (env.bytesFrom off) rem off s b).1) (fun s b => C (rem - b) (off + b) s) s
    (env.byteOffs rem)

/-- In each step of a chunk. -/
def ChunkEach (chunkPos : ℕ) (s : Option OpenFile) : Prop :=
  Meets (fun s i => (env.sectorStep chunkPos (env.chunkBuffer chunkPos) s i).1) (env.SectorEach C D chunkPos) s
    (env.chunkVisits chunkPos)

/-- In each step of the chunks that are read. -/
def LoopEach : List ℕ → Option OpenFile → Prop
  | [], _ => True
  | chunkPos :: rest, s => env.chunkOk chunkPos = true → env.ChunkEach C D chunkPos s ∧
      (env.cancel chunkPos = false → LoopEach rest (env.chunkStep chunkPos (env.chunkBuffer chunkPos) s).1)

/-- **In each step of a scan.** -/
def ScanEach : Prop :=
  env.LoopEach C D (env.chunkPositions env.startPos) none ∧
    (env.scanLoop.cancelledAt = none → ∀ f ∈ env.scanLoop.inFile, F f)

variable [∀ rem pos s, Decidable (C rem pos s)] [∀ bound s, Decidable (D bound s)] [∀ f, Decidable (F f)]

instance (chunkPos : ℕ) (s : Option OpenFile) (i : ℕ) : Decidable (env.SectorEach C D chunkPos s i) := by
  unfold SectorEach
  infer_instance

instance (chunkPos : ℕ) (s : Option OpenFile) : Decidable (env.ChunkEach C D chunkPos s) := by
  unfold ChunkEach
  infer_instance

instance decidableLoopEach : ∀ (l : List ℕ) (s : Option OpenFile), Decidable (env.LoopEach C D l s)
  | [], _ => .isTrue trivial
  | chunkPos :: rest, s =>
    have := decidableLoopEach rest (env.chunkStep chunkPos (env.chunkBuffer chunkPos) s).1
    inferInstanceAs (Decidable (env.chunkOk chunkPos = true → env.ChunkEach C D chunkPos s ∧
      (env.cancel chunkPos = false → env.LoopEach C D rest (env.chunkStep chunkPos (env.chunkBuffer chunkPos) s).1)))

instance : Decidable (env.ScanEach C D F) := by
  unfold ScanEach
  infer_instance

end Conditions

/-! ## A property of the events -/

section Events

variable {C : ℕ → ℕ → Option OpenFile → Prop} {D : ℕ → Option OpenFile → Prop} {F : OpenFile → Prop}
  {Q : CarvedEntry → Prop}

/-- The event hands out nothing but what has the property. -/
def EntryHas (Q : CarvedEntry → Prop) (ev : CarverEvent) : Prop := ∀ e ∈ ev.entry?, Q e

theorem forall_entryHas_entries (es : List CarvedEntry) :
    (∀ ev ∈ es.map CarverEvent.entry, EntryHas Q ev) ↔ ∀ e ∈ es, Q e := by
  simp [EntryHas, CarverEvent.entry?]

variable (hC : ∀ rem pos s, (∀ e ∈ (env.stepAt rem pos s).2, Q e) ↔ C rem pos s)
  (hD : ∀ bound f, (∀ e ∈ (expire bound f).2, Q e) ↔ D bound (some f)) (hnone : ∀ bound, D bound none)

include hC hD hnone in
/-- **One sector**, constant or not. -/
theorem sectorStep_entryHas_iff (cp : ℕ) (s : Option OpenFile) (i : ℕ) :
    (∀ ev ∈ (env.sectorStep cp (env.chunkBuffer cp) s i).2, EntryHas Q ev) ↔ env.SectorEach C D cp s i := by
  have hvisit : EntryHas Q (.visit cp i) := fun e he => by cases he
  unfold SectorEach
  dsimp only
  split_ifs with hconst
  · rw [sectorStep_constant env hconst, forall_mem_cons, and_iff_right hvisit]
    cases s with
    | none => simpa using hnone _
    | some f => exact (forall_entryHas_entries _).trans (hD _ f)
  · rw [sectorStep_bytes env hconst, forall_mem_cons, and_iff_right hvisit, traceFold_forall_iff]
    refine meets_congr fun s b _ => ?_
    have hheader : EntryHas Q (.header (env.absOffset cp i + b)) := fun e he => by cases he
    change (∀ ev ∈ (env.byteStep (env.bytesFrom _) _ _ s b).2, EntryHas Q ev) ↔ _
    rw [byteStep_eq, forall_mem_cons, and_iff_right hheader]
    exact (forall_entryHas_entries _).trans (hC _ _ s)

include hC hD hnone in
/-- **The chunk loop.** -/
theorem chunkLoop_entryHas_iff (l : List ℕ) (s : Option OpenFile) :
    (∀ ev ∈ (env.chunkLoop l s).events, EntryHas Q ev) ↔ env.LoopEach C D l s := by
  induction l generalizing s with
  | nil => simp [chunkLoop, LoopEach]
  | cons cp l ih =>
    have hchunk : (∀ ev ∈ (env.chunkStep cp (env.chunkBuffer cp) s).2, EntryHas Q ev) ↔ env.ChunkEach C D cp s := by
      rw [chunkStep, traceFold_forall_iff]
      exact meets_congr fun s i _ => env.sectorStep_entryHas_iff hC hD hnone cp s i
    rw [LoopEach]
    cases hok : env.chunkOk cp with
    | false =>
      rw [chunkLoop_bad env hok]
      simp
    | true =>
      cases hcancel : env.cancel cp with
      | true =>
        rw [chunkLoop_cancel env hok hcancel, hchunk]
        simp
      | false =>
        rw [chunkLoop_next env hok hcancel, forall_mem_append, hchunk, ih]
        simp

include hC hD hnone in
/-- **A property of the entries of a scan** is one of its steps. -/
theorem forall_entries_iff (hF : ∀ f, Q (env.finalEntry f) ↔ F f) :
    (∀ e ∈ env.entries, Q e) ↔ env.ScanEach C D F := by
  have hevents : (∀ e ∈ env.entries, Q e) ↔ ∀ ev ∈ env.carverScan, EntryHas Q ev := by
    unfold entries EntryHas
    simp only [mem_filterMap, Option.mem_def]
    exact ⟨fun h ev hev e he => h e ⟨ev, hev, he⟩, fun h e ⟨ev, hev, he⟩ => h ev hev e he⟩
  rw [hevents, carverScan, forall_mem_append, ScanEach]
  refine and_congr (env.chunkLoop_entryHas_iff hC hD hnone _ _) ?_
  cases env.scanLoop.cancelledAt with
  | some cp => simp
  | none =>
    cases env.scanLoop.inFile with
    | none => simp
    | some f => simpa [EntryHas, CarverEvent.entry?] using hF f

end Events

/-! ## Invariants of the file in progress -/

section Invariants

variable {C C' : ℕ → ℕ → Option OpenFile → Prop} {D D' : ℕ → Option OpenFile → Prop} {F F' : OpenFile → Prop}
  {I : Option OpenFile → Prop}

variable (hstep : ∀ rem pos s, I s → I (env.stepAt rem pos s).1) (hexpire : ∀ bound f, I (some f) → I (expire bound f).1)

include hstep in
theorem byteStep_invariant (off rem : ℕ) {s : Option OpenFile} (b : ℕ) (hs : I s) :
    I (env.byteStep (env.bytesFrom off) rem off s b).1 := by
  rw [byteStep_eq]
  exact hstep _ _ s hs

include hstep hexpire in
theorem sectorStep_invariant (cp : ℕ) {s : Option OpenFile} (i : ℕ) (hs : I s) :
    I (env.sectorStep cp (env.chunkBuffer cp) s i).1 := by
  by_cases hconst : env.visitConstant cp i
  · rw [sectorStep_constant env hconst]
    cases s with
    | none => exact hs
    | some f => exact hexpire _ f hs
  · rw [sectorStep_bytes env hconst]
    exact traceFold_invariant (fun s b _ hs => env.byteStep_invariant hstep _ _ b hs) hs

include hstep hexpire in
theorem chunkStep_invariant (cp : ℕ) {s : Option OpenFile} (hs : I s) :
    I (env.chunkStep cp (env.chunkBuffer cp) s).1 :=
  traceFold_invariant (fun _ i _ hs => env.sectorStep_invariant hstep hexpire cp i hs) hs

include hstep hexpire in
/-- **The file in progress** at the end of the chunk loop. -/
theorem chunkLoop_invariant (l : List ℕ) {s : Option OpenFile} (hs : I s) : I (env.chunkLoop l s).inFile := by
  induction l generalizing s with
  | nil => exact hs
  | cons cp l ih =>
    have hchunk := env.chunkStep_invariant hstep hexpire cp hs
    cases hok : env.chunkOk cp with
    | false =>
      rw [chunkLoop_bad env hok]
      exact hs
    | true =>
      cases hcancel : env.cancel cp with
      | true =>
        rw [chunkLoop_cancel env hok hcancel]
        exact hchunk
      | false =>
        rw [chunkLoop_next env hok hcancel]
        exact ih hchunk

include hstep hexpire in
/-- **A condition that implies another** wherever the invariant holds. -/
theorem ScanEach.mono (h : env.ScanEach C D F) (hI : I none) (hC : ∀ rem pos s, I s → C rem pos s → C' rem pos s)
    (hD : ∀ bound s, I s → D bound s → D' bound s) (hF : ∀ f, I (some f) → F f → F' f) :
    env.ScanEach C' D' F' := by
  have hsector : ∀ cp s i, I s → env.SectorEach C D cp s i → env.SectorEach C' D' cp s i := by
    intro cp s i hs
    unfold SectorEach
    dsimp only
    split_ifs
    · exact hD _ s hs
    · exact fun h => h.mono (fun s b _ hs => env.byteStep_invariant hstep _ _ b hs) (fun s b _ hs => hC _ _ s hs) hs
  have hloop : ∀ l s, I s → env.LoopEach C D l s → env.LoopEach C' D' l s := by
    intro l
    induction l with
    | nil => exact fun s _ h => h
    | cons cp l ih =>
      intro s hs hl hok
      obtain ⟨hchunk, hrest⟩ := hl hok
      refine ⟨hchunk.mono (fun s i _ hs => env.sectorStep_invariant hstep hexpire cp i hs)
        (fun s i _ hs => hsector cp s i hs) hs, fun hcancel => ?_⟩
      exact ih _ (env.chunkStep_invariant hstep hexpire cp hs) (hrest hcancel)
  have hend : I env.scanLoop.inFile := env.chunkLoop_invariant hstep hexpire _ hI
  refine ⟨hloop _ none hI h.1, fun hcancel f hf => ?_⟩
  rw [Option.mem_def.mp hf] at hend
  exact hF f hend (h.2 hcancel f hf)

include hstep hexpire in
/-- **Conditions that agree** wherever the invariant holds. -/
theorem scanEach_congr (hI : I none) (hC : ∀ rem pos s, I s → (C rem pos s ↔ C' rem pos s))
    (hD : ∀ bound s, I s → (D bound s ↔ D' bound s)) (hF : ∀ f, I (some f) → (F f ↔ F' f)) :
    env.ScanEach C D F ↔ env.ScanEach C' D' F' :=
  ⟨fun h => ScanEach.mono env hstep hexpire h hI (fun r p s hs => (hC r p s hs).mp) (fun b s hs => (hD b s hs).mp)
      (fun f hf => (hF f hf).mp),
    fun h => ScanEach.mono env hstep hexpire h hI (fun r p s hs => (hC r p s hs).mpr)
      (fun b s hs => (hD b s hs).mpr) (fun f hf => (hF f hf).mpr)⟩

end Invariants

end CarverEnv

end RecoveryQt
