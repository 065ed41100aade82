import RecoveryQt.Carver.Geometry

/-!
# What a scan examines

The sectors visited and the positions submitted to `carver_check_header` depend on the image and
on the reads, never on the file in progress.

* `sectorExamined`, `chunkExamined`: what one sector and one chunk examine;
* `chunkLoop_examined`: a scan that is not cancelled examines the chunks before the first read
  that fails, each as `chunkExamined` says;
* `visits_eq`, `headers_eq`: the visits and header checks of a scan.
-/

namespace RecoveryQt

open List

/-! ### Projections of a trace -/

theorem filterMap_examined_entries (l : List CarvedEntry) :
    (l.map CarverEvent.entry).filterMap CarverEvent.examined? = [] := by
  induction l with
  | nil => rfl
  | cons e l ih => exact ih

theorem filterMap_examined_visit (l : List CarverEvent) :
    (l.filterMap CarverEvent.examined?).filterMap CarverEvent.visit? =
      l.filterMap CarverEvent.visit? := by
  rw [filterMap_filterMap]
  refine congrArg (fun f => l.filterMap f) (funext fun ev => ?_)
  cases ev <;> rfl

theorem filterMap_examined_header (l : List CarverEvent) :
    (l.filterMap CarverEvent.examined?).filterMap CarverEvent.header? =
      l.filterMap CarverEvent.header? := by
  rw [filterMap_filterMap]
  refine congrArg (fun f => l.filterMap f) (funext fun ev => ?_)
  cases ev <;> rfl

namespace CarverEnv

variable (env : CarverEnv)

/-- The read of the chunk succeeds. -/
def chunkOk (chunkPos : ℕ) : Bool := !env.disk.bad (env.chunkSize chunkPos) (env.readOffset chunkPos)

/-- The content of the disk that the chunk reads. -/
def chunkBuffer (chunkPos : ℕ) : ℕ → UInt8 := fun i => env.disk.content (env.readOffset chunkPos + i)

theorem chunkRead_eq (cp : ℕ) :
    env.chunkRead cp = if env.chunkOk cp then some (env.chunkBuffer cp) else none := by
  unfold chunkRead Disk.pread chunkOk
  cases env.disk.bad (env.chunkSize cp) (env.readOffset cp) <;> rfl

/-- The sector the loop looks at as `(chunkPos, i)` is constant. -/
def visitConstant (chunkPos i : ℕ) : Prop :=
  carverSectorConstant (fun j => env.disk.content (env.absOffset chunkPos i + j)) env.sectorSize

instance (chunkPos i : ℕ) : Decidable (env.visitConstant chunkPos i) := by
  unfold visitConstant; infer_instance

/-- The positions of a sector that are submitted to `carver_check_header`. -/
def sectorHeaders (chunkPos i : ℕ) : List ℕ :=
  if env.visitConstant chunkPos i then []
  else (env.byteOffs (env.chunkSize chunkPos - i * env.sectorSize)).map (env.absOffset chunkPos i + ·)

/-- What the sector loop examines at `i`. -/
def sectorExamined (chunkPos i : ℕ) : List CarverEvent :=
  .visit chunkPos i :: (env.sectorHeaders chunkPos i).map .header

/-- What the sector loop of a chunk examines when the chunk is read. -/
def chunkExamined (chunkPos : ℕ) : List CarverEvent :=
  (env.chunkVisits chunkPos).flatMap (env.sectorExamined chunkPos)

theorem chunkBuffer_sector (cp i j : ℕ) :
    env.chunkBuffer cp (i * env.sectorSize + j) = env.disk.content (env.absOffset cp i + j) := by
  unfold chunkBuffer absOffset
  rw [Nat.add_assoc]

theorem byteStep_examined (sectorBuf : ℕ → UInt8) (rem off : ℕ) (s : Option OpenFile) (b : ℕ) :
    (env.byteStep sectorBuf rem off s b).2.filterMap CarverEvent.examined? = [.header (off + b)] := by
  unfold byteStep
  rw [filterMap_cons]
  simp only [CarverEvent.examined?, filterMap_examined_entries]

theorem sectorStep_constant {cp i : ℕ} (hc : env.visitConstant cp i) (s : Option OpenFile) :
    env.sectorStep cp (env.chunkBuffer cp) s i =
      ((s.bind fun f => (expire (env.absOffset cp i + env.sectorSize) f).1),
        .visit cp i :: (s.elim [] fun f =>
          (expire (env.absOffset cp i + env.sectorSize) f).2.map .entry)) := by
  have hc' : carverSectorConstant
      (fun j => env.disk.content (env.absOffset cp i + j)) env.sectorSize := hc
  simp only [sectorStep, chunkBuffer_sector, if_pos hc']
  cases s <;> rfl

theorem sectorStep_bytes {cp i : ℕ} (hc : ¬ env.visitConstant cp i) (s : Option OpenFile) :
    env.sectorStep cp (env.chunkBuffer cp) s i =
      let rem := env.chunkSize cp - i * env.sectorSize
      let r := traceFold (env.byteStep (fun j => env.disk.content (env.absOffset cp i + j)) rem
        (env.absOffset cp i)) s (env.byteOffs rem)
      (r.1, .visit cp i :: r.2) := by
  have hc' : ¬ carverSectorConstant
      (fun j => env.disk.content (env.absOffset cp i + j)) env.sectorSize := hc
  simp only [sectorStep, chunkBuffer_sector, if_neg hc']

theorem sectorStep_examined (cp i : ℕ) (s : Option OpenFile) :
    (env.sectorStep cp (env.chunkBuffer cp) s i).2.filterMap CarverEvent.examined? =
      env.sectorExamined cp i := by
  unfold sectorExamined sectorHeaders
  by_cases hc : env.visitConstant cp i
  · rw [sectorStep_constant env hc, if_pos hc, filterMap_cons]
    cases s with
    | none => rfl
    | some f => exact congrArg _ (filterMap_examined_entries _)
  · rw [sectorStep_bytes env hc, if_neg hc, filterMap_cons]
    refine congrArg (CarverEvent.visit cp i :: ·) ?_
    rw [traceFold_filterMap (e := fun b => [CarverEvent.header (env.absOffset cp i + b)])
      (fun s b _ => env.byteStep_examined _ _ _ s b), ← map_eq_flatMap, map_map]
    rfl

/-- **What a chunk examines does not depend on the file in progress.** -/
theorem chunkStep_examined (cp : ℕ) (s : Option OpenFile) :
    (env.chunkStep cp (env.chunkBuffer cp) s).2.filterMap CarverEvent.examined? =
      env.chunkExamined cp :=
  traceFold_filterMap (fun s i _ => env.sectorStep_examined cp i s) s

theorem chunkLoop_bad {cp : ℕ} (hok : env.chunkOk cp = false) (l : List ℕ) (s : Option OpenFile) :
    env.chunkLoop (cp :: l) s = ⟨s, [], none⟩ := by
  rw [chunkLoop, chunkRead_eq, hok]
  rfl

theorem chunkLoop_cancel {cp : ℕ} (hok : env.chunkOk cp = true) (hc : env.cancel cp = true)
    (l : List ℕ) (s : Option OpenFile) :
    env.chunkLoop (cp :: l) s =
      ⟨(env.chunkStep cp (env.chunkBuffer cp) s).1, (env.chunkStep cp (env.chunkBuffer cp) s).2,
        some cp⟩ := by
  rw [chunkLoop, chunkRead_eq, hok]
  simp only [if_true, hc]

theorem chunkLoop_next {cp : ℕ} (hok : env.chunkOk cp = true) (hc : env.cancel cp = false)
    (l : List ℕ) (s : Option OpenFile) :
    env.chunkLoop (cp :: l) s =
      let r := env.chunkStep cp (env.chunkBuffer cp) s
      let q := env.chunkLoop l r.1
      ⟨q.inFile, r.2 ++ q.events, q.cancelledAt⟩ := by
  rw [chunkLoop, chunkRead_eq, hok]
  simp only [if_true, hc, Bool.false_eq_true, if_false]

/-- A chunk and the rest of the loop, whose results are known. -/
theorem chunkLoop_next_eq {cp : ℕ} {l : List ℕ} {s s' : Option OpenFile} {es : List CarverEvent}
    {q : ChunkEnd} (hok : env.chunkOk cp = true) (hc : env.cancel cp = false)
    (h : env.chunkStep cp (env.chunkBuffer cp) s = (s', es)) (h' : env.chunkLoop l s' = q) :
    env.chunkLoop (cp :: l) s = ⟨q.inFile, es ++ q.events, q.cancelledAt⟩ := by
  rw [chunkLoop_next env hok hc, h]
  dsimp only
  rw [h']

/-- The entries of a scan that reaches its closing branch with a file in progress. -/
theorem entries_eq_of_open {f : OpenFile} (hf : env.scanLoop.inFile = some f)
    (hc : env.scanLoop.cancelledAt = none) :
    env.entries = env.scanLoop.events.filterMap CarverEvent.entry? ++ [env.finalEntry f] := by
  unfold entries carverScan
  simp only [hf, hc, filterMap_append]
  rfl

/-- **What the chunk loop examines**: the chunks before the first read that fails. -/
theorem chunkLoop_examined {l : List ℕ} (hcancel : ∀ cp ∈ l, env.cancel cp = false)
    (s : Option OpenFile) :
    (env.chunkLoop l s).events.filterMap CarverEvent.examined? =
      (l.takeWhile env.chunkOk).flatMap env.chunkExamined := by
  induction l generalizing s with
  | nil => rfl
  | cons cp l ih =>
    cases hok : env.chunkOk cp with
    | false => rw [chunkLoop_bad env hok, takeWhile_cons_of_neg (by simp [hok])]; rfl
    | true =>
      rw [chunkLoop_next env hok (hcancel cp mem_cons_self), takeWhile_cons_of_pos hok,
        flatMap_cons, filterMap_append, chunkStep_examined]
      rw [ih (fun c h => hcancel c (mem_cons_of_mem _ h))]

theorem chunkLoop_not_cancelled {l : List ℕ} (hcancel : ∀ cp ∈ l, env.cancel cp = false)
    (s : Option OpenFile) : (env.chunkLoop l s).cancelledAt = none := by
  induction l generalizing s with
  | nil => rfl
  | cons cp l ih =>
    cases hok : env.chunkOk cp with
    | false => rw [chunkLoop_bad env hok]
    | true =>
      rw [chunkLoop_next env hok (hcancel cp mem_cons_self)]
      exact ih (fun c h => hcancel c (mem_cons_of_mem _ h)) _

/-- The events of a scan other than the entries it hands out. -/
def examined : List CarverEvent := env.carverScan.filterMap CarverEvent.examined?

theorem examined_eq_scanLoop :
    env.examined = env.scanLoop.events.filterMap CarverEvent.examined? := by
  unfold examined carverScan
  rw [filterMap_append]
  cases env.scanLoop.cancelledAt with
  | some _ => simp
  | none => cases env.scanLoop.inFile <;> simp [CarverEvent.examined?]

theorem visits_eq_scanLoop : env.visits = env.scanLoop.events.filterMap CarverEvent.visit? := by
  rw [← filterMap_examined_visit, ← examined_eq_scanLoop]
  exact (filterMap_examined_visit _).symm

/-- **What a scan examines when it is not cancelled.** -/
theorem examined_eq (hcancel : ∀ cp, env.cancel cp = false) :
    env.examined =
      ((env.chunkPositions env.startPos).takeWhile env.chunkOk).flatMap env.chunkExamined := by
  rw [examined_eq_scanLoop]
  exact env.chunkLoop_examined (fun cp _ => hcancel cp) none

theorem visits_eq_examined : env.visits = env.examined.filterMap CarverEvent.visit? :=
  (filterMap_examined_visit _).symm

theorem headers_eq_examined : env.headers = env.examined.filterMap CarverEvent.header? :=
  (filterMap_examined_header _).symm

theorem chunkExamined_visits (cp : ℕ) :
    (env.chunkExamined cp).filterMap CarverEvent.visit? = (env.chunkVisits cp).map (cp, ·) := by
  unfold chunkExamined
  rw [filterMap_flatMap, map_eq_flatMap]
  refine flatMap_congr fun i _ => ?_
  have h : ((env.sectorHeaders cp i).map CarverEvent.header).filterMap CarverEvent.visit? = [] := by
    rw [filterMap_map]
    exact filterMap_eq_nil_iff.mpr fun _ _ => rfl
  simp [sectorExamined, CarverEvent.visit?, h]

theorem chunkExamined_headers (cp : ℕ) :
    (env.chunkExamined cp).filterMap CarverEvent.header? =
      (env.chunkVisits cp).flatMap (env.sectorHeaders cp) := by
  unfold chunkExamined
  rw [filterMap_flatMap]
  refine flatMap_congr fun i _ => ?_
  simp only [sectorExamined, filterMap_cons, CarverEvent.header?]
  rw [filterMap_map]
  exact filterMap_some

/-- **The visits of a scan that is not cancelled.** -/
theorem visits_eq (hcancel : ∀ cp, env.cancel cp = false) :
    env.visits = ((env.chunkPositions env.startPos).takeWhile env.chunkOk).flatMap
      fun cp => (env.chunkVisits cp).map (cp, ·) := by
  rw [visits_eq_examined, examined_eq env hcancel, filterMap_flatMap]
  exact flatMap_congr fun cp _ => env.chunkExamined_visits cp

theorem mem_visits {p : ℕ × ℕ} (hcancel : ∀ cp, env.cancel cp = false) (hp : p ∈ env.visits) :
    p.1 ∈ env.chunkPositions env.startPos ∧ p.2 ∈ env.chunkVisits p.1 := by
  rw [env.visits_eq hcancel, mem_flatMap] at hp
  obtain ⟨cp, hcp, hp⟩ := hp
  obtain ⟨i, hi, rfl⟩ := mem_map.mp hp
  exact ⟨(takeWhile_sublist _).subset hcp, hi⟩

/-- **The header checks of a scan that is not cancelled.** -/
theorem headers_eq (hcancel : ∀ cp, env.cancel cp = false) :
    env.headers = ((env.chunkPositions env.startPos).takeWhile env.chunkOk).flatMap
      fun cp => (env.chunkVisits cp).flatMap (env.sectorHeaders cp) := by
  rw [headers_eq_examined, examined_eq env hcancel, filterMap_flatMap]
  exact flatMap_congr fun cp _ => env.chunkExamined_headers cp

end CarverEnv

end RecoveryQt
