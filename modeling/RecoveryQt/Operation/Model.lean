import Mathlib.Logic.Function.Basic
import RecoveryQt.Lib.Runs
import RecoveryQt.Session.Model

/-!
# Operations of the main window

A handler of `MainWindow` begins a session if the user wants one, connects a lambda to the worker's
`finished`, starts the worker and runs a dialog; the worker reports from its own thread. The dialog
may return before the worker ends, and the lambdas are never disconnected. Each call is one step.

* `SaveCtx`, `SessionSave`: `session_save_ctx_t`, and a call of `session_save`;
* `Operation`, `Thread`, `OpState`: a handler that has not returned, a worker's thread, and what the
  handlers and the threads share;
* `beginSession`, `endSession`, `cancelSession`, `sessionSaveCheckpoint`: the session manager and the
  checkpoint;
* `OpAction`, `opStep`, `runOps`: the steps of the window and of the threads, in any order;
* **`opStep_spec`**: what a step can do, and when.
-/

namespace RecoveryQt

open List Function

/-! ## Sessions -/

/-- `SESSION_OP_DEEP_SCAN`. -/
def sessionOpDeepScan : UInt32 := 1

/-- `SESSION_OP_CARVE`. -/
def sessionOpCarve : UInt32 := 2

/-- `SESSION_FLAG_COMPLETED`. -/
def sessionFlagCompleted : UInt32 := 0x01

/-- `SESSION_FLAG_ENCRYPTED`. -/
def sessionFlagEncrypted : UInt32 := 0x04

/-- `UP_LUKS`. -/
def upLuks : UInt32 := 28

/-- What `session_save` reads of a disk; `luksContainer` is where the LUKS container of a disk that
`luksdec` decrypted lies on the physical device. -/
structure SessionDisk where
  device : CString
  model : CString
  sectorSize : UInt32
  diskSize : UInt64
  luksContainer : Option UInt64

/-- What `session_save` reads of a partition. -/
structure SessionPart where
  partOffset : UInt64
  partSize : UInt64
  upartType : UInt32
  partTypeI386 : UInt32

/-- `session_save_ctx_t` but for the time of the last save; the tree is a handle. -/
structure SaveCtx where
  filepath : CString
  tree : ℕ
  disk : SessionDisk
  part : SessionPart
  opType : UInt32
  extFilter : CString
  resumePhase : UInt32
  resumeOffset : UInt64

/-- A call of `session_save`, with the session of the operation during which it is made. -/
structure SessionSave where
  ctx : SaveCtx
  progress1 : UInt64
  progress2 : UInt64
  flags : UInt32
  during : Option (Option SaveCtx)

/-- The file carries `SESSION_FLAG_COMPLETED`. -/
def SessionSave.completed (e : SessionSave) : Prop := e.flags &&& sessionFlagCompleted ≠ 0

instance (e : SessionSave) : Decidable e.completed := by
  unfold SessionSave.completed; infer_instance

/-- The arguments of the call, made at the time `now`. -/
def SessionSave.args (e : SessionSave) (now : UInt64) : SessionArgs where
  flags := e.flags
  opType := e.ctx.opType
  now := now
  progress1 := e.progress1
  progress2 := e.progress2
  resumePhase := e.ctx.resumePhase
  resumeOffset := e.ctx.resumeOffset
  sectorSize := e.ctx.disk.sectorSize
  diskSize := e.ctx.disk.diskSize
  partOffset := e.ctx.part.partOffset
  partSize := e.ctx.part.partSize
  upartType := e.ctx.part.upartType
  partTypeI386 := e.ctx.part.partTypeI386
  device := e.ctx.disk.device
  model := e.ctx.disk.model
  extFilter := e.ctx.extFilter

/-! ## Operations and threads -/

/-- `m_scanner` and `m_carver`. -/
inductive Worker where
  | scanner
  | carver
  deriving DecidableEq

/-- What a handler starts. -/
inductive OpKind where
  | scan
  | deepScan
  | carve
  deriving DecidableEq

/-- The worker that runs it. -/
def OpKind.worker : OpKind → Worker
  | .scan => .scanner
  | .deepScan => .scanner
  | .carve => .carver

/-- The type that the handler gives to `beginSession`; a scan that is not deep has no session. -/
def OpKind.opType? : OpKind → Option UInt32
  | .scan => none
  | .deepScan => some sessionOpDeepScan
  | .carve => some sessionOpCarve

/-- How a worker's thread came to its end: at the end of its work, at an error or an unreadable
chunk, or at the user's wish. -/
inductive Outcome where
  | ranToEnd
  | cutShort
  | stopped
  deriving DecidableEq

/-- A handler between its `beginSession` and its return. `sessionActive` is its local flag; `cancelled`
holds if the user cancels before the thread ends, `ended` is the end of the thread with the position
last reported, and `lastSave` is the file of its session. -/
structure Operation where
  number : ℕ
  kind : OpKind
  session : Option SaveCtx
  sessionActive : Bool
  cancelled : Bool
  ended : Option (Outcome × UInt64)
  lastSave : Option SessionSave

/-- What a thread is at: its work, the way out after the cancel test of a loop, or the time between
`emit finished` and `m_running = false`. -/
inductive Phase where
  | running
  | leaving (loop : Worker)
  | emitted
  deriving DecidableEq

/-- A thread, with the operation that started it and the position it last reported. -/
structure Thread where
  op : ℕ
  pos : UInt64
  phase : Phase

/-- The `ProgressCallback` objects: `m_progressCb` of the window, and `instance()`. -/
inductive Callback where
  | window
  | shared
  deriving DecidableEq

/-- `SessionManager`. -/
structure SessionManager where
  flags : UInt32
  active : Bool
  saveCtx : Option SaveCtx

/-- What the handlers and the threads share. `cancelFn` tells whether `g_scanner_cancel` and
`g_carver_cancel` are installed, `cancelled` is `m_cancelled`, `connected` holds the operations whose
lambdas are connected to `finished`, and `queue` those whose lambdas wait in the event queue. -/
structure OpState where
  activeSaveCtx : Option SaveCtx
  sessionSaveCb : Bool
  manager : SessionManager
  cancelFn : Worker → Bool
  cancelled : Callback → Bool
  thread : Worker → Option Thread
  connected : Worker → List ℕ
  queue : List ℕ
  current : Option Operation
  past : List Operation
  count : ℕ
  saves : List SessionSave

/-- The program has started. -/
def OpState.init : OpState where
  activeSaveCtx := none
  sessionSaveCb := false
  manager := ⟨0, false, none⟩
  cancelFn := fun _ => false
  cancelled := fun _ => false
  thread := fun _ => none
  connected := fun _ => []
  queue := []
  current := none
  past := []
  count := 0
  saves := []

/-- What the user gives to `beginSession`, with the tree, the disk and the partition. -/
structure SessionRequest where
  filepath : CString
  tree : ℕ
  disk : SessionDisk
  part : SessionPart
  extFilter : CString

/-- `m_saveCtx` as `beginSession` fills it. -/
def SessionRequest.saveCtx (r : SessionRequest) (opType : UInt32) : SaveCtx where
  filepath := r.filepath
  tree := r.tree
  disk := r.disk
  part := r.part
  opType := opType
  extFilter := r.extFilter
  resumePhase := 0
  resumeOffset := 0

/-- The session of an operation. -/
def sessionOf (kind : OpKind) (r : Option SessionRequest) : Option SaveCtx :=
  r.bind fun r => kind.opType?.map r.saveCtx

namespace OpState

variable (s : OpState)

/-! ## The session manager -/

/-- `session_save`. -/
def sessionSave (ctx : SaveCtx) (progress1 progress2 : UInt64) (flags : UInt32) : OpState :=
  let e : SessionSave := ⟨ctx, progress1, progress2, flags, s.current.map Operation.session⟩
  { s with
    saves := s.saves ++ [e]
    current := s.current.map fun op => { op with lastSave := some e } }

/-- `session_save_checkpoint`; `due` tells whether `SESSION_SAVE_INTERVAL` has passed. -/
def sessionSaveCheckpoint (progress1 progress2 : UInt64) (due : Bool) : OpState :=
  match s.activeSaveCtx with
  | none => s
  | some ctx => if due then s.sessionSave ctx progress1 progress2 0 else s

/-- `SessionManager::beginSession`. -/
def beginSession (ctx : SaveCtx) : OpState :=
  { s with
    activeSaveCtx := some ctx
    sessionSaveCb := true
    manager := ⟨if ctx.part.upartType = upLuks then sessionFlagEncrypted else 0, true, some ctx⟩ }

/-- The end of `endSession` and of `cancelSession`. -/
def clearSession : OpState :=
  { s with activeSaveCtx := none, sessionSaveCb := false, manager := { s.manager with active := false } }

/-- `SessionManager::endSession`. -/
def endSession : OpState :=
  if s.manager.active then
    match s.manager.saveCtx with
    | none => s
    | some ctx => (s.sessionSave ctx ctx.resumeOffset 0 sessionFlagCompleted).clearSession
  else s

/-- `SessionManager::cancelSession`. -/
def cancelSession : OpState := if s.manager.active then s.clearSession else s

/-! ## The handlers -/

/-- `WorkerBase::beginOperation` and `startThread`. -/
def startThread (w : Worker) (op : ℕ) : OpState :=
  match s.thread w with
  | some _ => s
  | none =>
    { s with
      cancelled := update s.cancelled .shared false
      thread := update s.thread w (some ⟨op, 0, .running⟩) }

/-- A handler up to its dialog. -/
def start (kind : OpKind) (r : Option SessionRequest) : OpState :=
  let session := sessionOf kind r
  let s := session.elim s s.beginSession
  startThread
    { s with
      connected := update s.connected kind.worker (s.connected kind.worker ++ [s.count])
      current := some ⟨s.count, kind, session, session.isSome, false, none, none⟩
      count := s.count + 1 } kind.worker s.count

/-- `ProgressCallback::uninstallAllCallbacks`. -/
def uninstallAllCallbacks : OpState := { s with cancelFn := fun _ => false, sessionSaveCb := false }

/-- A handler after its dialog. -/
def leave : OpState :=
  match s.current with
  | none => s
  | some op =>
    let s := s.uninstallAllCallbacks
    let s := if op.sessionActive then s.cancelSession else s
    { s with current := none, past := s.past ++ [op] }

/-- The Cancel button of a dialog. -/
def cancel : OpState :=
  { s with
    cancelled := update s.cancelled .shared true
    current := s.current.map fun op => { op with cancelled := op.cancelled || op.ended.isNone } }

/-- The lambda connected to `finished`, where `sessionActive` reads as given. -/
def finishSlot (sessionActive : Bool) : OpState :=
  if sessionActive then if s.cancelled .window then s else s.endSession else s

/-- The lambda of the operation `n` finds the flag of the current operation: its own, or one that is now
at the place of a variable that is gone, which is so if `freed` is `none`. -/
def ownSlot (n : ℕ) (freed : Option Bool) : Bool :=
  s.current.any fun op => op.number = n || freed.isNone

/-- What the lambda reads as `sessionActive`; a variable that is gone reads as `freed`. -/
def slotFlag (n : ℕ) (freed : Option Bool) : Bool :=
  if s.ownSlot n freed then s.current.any Operation.sessionActive else freed.getD false

/-- `sessionActive = false`. -/
def dropFlag : OpState :=
  { s with current := s.current.map fun op => { op with sessionActive := false } }

/-- The event loop takes a lambda from its queue. -/
def deliver (freed : Option Bool) : OpState :=
  match s.queue with
  | [] => s
  | n :: queue =>
    let t := finishSlot { s with queue := queue } (s.slotFlag n freed)
    if s.ownSlot n freed then t.dropFlag else t

/-- `onRestoreFromBrowser` before its dialog; `busy` tells whether the restorer still runs. -/
def restoreStart (busy : Bool) : OpState :=
  { s with
    cancelled := update (if busy then s.cancelled else update s.cancelled .shared false) .window false }

/-! ## The threads -/

/-- The thread installs its callbacks. -/
def install (w : Worker) : OpState := { s with cancelFn := update s.cancelFn w true }

/-- The operation `n` learns how its thread ended. -/
def markEnded (n : ℕ) (o : Outcome × UInt64) (op : Operation) : Operation :=
  if op.number = n then { op with ended := some o } else op

/-- `emit finished`. -/
def emit (w : Worker) (t : Thread) (o : Outcome) : OpState :=
  { s with
    thread := update s.thread w (some { t with phase := .emitted })
    queue := s.queue ++ s.connected w
    current := s.current.map (markEnded t.op (o, t.pos))
    past := s.past.map (markEnded t.op (o, t.pos)) }

/-- The thread reports its position: the end of a chunk in `carver_scan`, or `update_progress`. -/
def report (w : Worker) (t : Thread) (progress1 progress2 : UInt64) (due : Bool) : OpState :=
  let s := { s with thread := update s.thread w (some { t with pos := progress1 }) }
  if s.sessionSaveCb then s.sessionSaveCheckpoint progress1 progress2 due else s

/-- What follows a loop that was left at its cancel test: `carver_scan` saves the session. -/
def saveCancelled (loop : Worker) (pos count : UInt64) : OpState :=
  match loop, s.activeSaveCtx with
  | .carver, some ctx => s.sessionSave ctx pos count 0
  | .carver, none => s
  | .scanner, _ => s

/-- The thread has left its loop at a cancel test, and ends. -/
def stop (w : Worker) (t : Thread) (loop : Worker) (count : UInt64) : OpState :=
  (s.saveCancelled loop t.pos count).emit w t .stopped

end OpState

/-- The steps of the window, then those of the threads. The scanner's thread runs `carver_scan` too, and
tests both functions. -/
inductive OpAction where
  | start (kind : OpKind) (r : Option SessionRequest)
  | cancel
  | deliver (freed : Option Bool)
  | leave
  | restoreStart (busy : Bool)
  | uninstall
  | install (w : Worker)
  | report (w : Worker) (progress1 progress2 : UInt64) (due : Bool)
  | obey (w loop : Worker)
  | stop (w : Worker) (count : UInt64)
  | finish (w : Worker) (failed : Bool)
  | exit (w : Worker)

/-- A thread that is in the phase. -/
def OpState.threadIn (s : OpState) (w : Worker) (p : Phase) : Option Thread :=
  (s.thread w).filter fun t => t.phase = p

/-- One step. -/
def opStep (s : OpState) : OpAction → OpState
  | .start kind r => if s.current.isNone then s.start kind r else s
  | .cancel => s.cancel
  | .deliver freed => s.deliver freed
  | .leave => s.leave
  | .restoreStart busy => if s.current.isNone then s.restoreStart busy else s
  | .uninstall => if s.current.isNone then s.uninstallAllCallbacks else s
  | .install w => if (s.thread w).isSome then s.install w else s
  | .report w progress1 progress2 due =>
    (s.threadIn w .running).elim s fun t => s.report w t progress1 progress2 due
  | .obey w loop =>
    (s.threadIn w .running).elim s fun t =>
      if (w = .carver → loop = .carver) ∧ s.cancelFn loop ∧ s.cancelled .shared then
        { s with thread := update s.thread w (some { t with phase := .leaving loop }) }
      else s
  | .stop w count =>
    (s.thread w).elim s fun t =>
      match t.phase with
      | .leaving loop => s.stop w t loop count
      | _ => s
  | .finish w failed =>
    (s.threadIn w .running).elim s fun t => s.emit w t (if failed then .cutShort else .ranToEnd)
  | .exit w =>
    (s.threadIn w .emitted).elim s fun _ => { s with thread := update s.thread w none }

/-- A thread in the phase. -/
theorem OpState.threadIn_eq_some {s : OpState} {w : Worker} {p : Phase} {t : Thread} :
    s.threadIn w p = some t ↔ s.thread w = some t ∧ t.phase = p := by
  rw [OpState.threadIn, Option.filter_eq_some_iff, decide_eq_true_eq]

/-- What is done with a thread in the phase. -/
theorem OpState.threadIn_elim {s : OpState} {P : OpState → Prop} {w : Worker} {p : Phase} {f : Thread → OpState}
    (hidle : P s) (hthread : ∀ t, s.thread w = some t → t.phase = p → P (f t)) : P ((s.threadIn w p).elim s f) := by
  cases hin : s.threadIn w p with
  | none => exact hidle
  | some t =>
    obtain ⟨ht, hphase⟩ := OpState.threadIn_eq_some.mp hin
    exact hthread t ht hphase

/-- What a step can do, and when. -/
inductive OpStep (s : OpState) : OpAction → OpState → Prop
  | idle (a : OpAction) : OpStep s a s
  | start (kind : OpKind) (r : Option SessionRequest) (hnone : s.current = none) :
    OpStep s (.start kind r) (s.start kind r)
  | cancel : OpStep s .cancel s.cancel
  | deliver (freed : Option Bool) : OpStep s (.deliver freed) (s.deliver freed)
  | leave : OpStep s .leave s.leave
  | restoreStart (busy : Bool) (hnone : s.current = none) : OpStep s (.restoreStart busy) (s.restoreStart busy)
  | uninstall (hnone : s.current = none) : OpStep s .uninstall s.uninstallAllCallbacks
  | install (w : Worker) (hsome : (s.thread w).isSome) : OpStep s (.install w) (s.install w)
  | report {w : Worker} {t : Thread} (ht : s.thread w = some t) (hphase : t.phase = .running)
    (progress1 progress2 : UInt64) (due : Bool) :
    OpStep s (.report w progress1 progress2 due) (s.report w t progress1 progress2 due)
  | obey {w loop : Worker} {t : Thread} (ht : s.thread w = some t) (hphase : t.phase = .running)
    (hloop : w = .carver → loop = .carver) (hfn : s.cancelFn loop) (hcancelled : s.cancelled .shared) :
    OpStep s (.obey w loop) { s with thread := update s.thread w (some { t with phase := .leaving loop }) }
  | stop {w loop : Worker} {t : Thread} (ht : s.thread w = some t) (hphase : t.phase = .leaving loop) (count : UInt64) :
    OpStep s (.stop w count) (s.stop w t loop count)
  | finish {w : Worker} {t : Thread} (ht : s.thread w = some t) (hphase : t.phase = .running) (failed : Bool) :
    OpStep s (.finish w failed) (s.emit w t (if failed then .cutShort else .ranToEnd))
  | exit {w : Worker} {t : Thread} (ht : s.thread w = some t) (hphase : t.phase = .emitted) :
    OpStep s (.exit w) { s with thread := update s.thread w none }

/-- **A step does nothing else.** -/
theorem opStep_spec (s : OpState) (a : OpAction) : OpStep s a (opStep s a) := by
  cases a with
  | start kind r =>
    rw [opStep]
    split_ifs with hnone
    · exact .start kind r (Option.isNone_iff_eq_none.mp hnone)
    · exact .idle _
  | cancel => exact .cancel
  | deliver freed => exact .deliver freed
  | leave => exact .leave
  | restoreStart busy =>
    rw [opStep]
    split_ifs with hnone
    · exact .restoreStart busy (Option.isNone_iff_eq_none.mp hnone)
    · exact .idle _
  | uninstall =>
    rw [opStep]
    split_ifs with hnone
    · exact .uninstall (Option.isNone_iff_eq_none.mp hnone)
    · exact .idle _
  | install w =>
    rw [opStep]
    split_ifs with hsome
    · exact .install w hsome
    · exact .idle _
  | report w p₁ p₂ due =>
    exact OpState.threadIn_elim (P := OpStep s _) (.idle _) fun t ht hphase => .report ht hphase p₁ p₂ due
  | obey w loop =>
    refine OpState.threadIn_elim (P := OpStep s _) (.idle _) fun t ht hphase => ?_
    split_ifs with hguard
    · exact .obey ht hphase hguard.1 hguard.2.1 hguard.2.2
    · exact .idle _
  | stop w count =>
    rw [opStep]
    cases ht : s.thread w with
    | none => exact .idle _
    | some t =>
      rw [Option.elim_some]
      split
      · rename_i loop hphase
        exact .stop ht hphase count
      · exact .idle _
  | finish w failed =>
    exact OpState.threadIn_elim (P := OpStep s _) (.idle _) fun t ht hphase => .finish ht hphase failed
  | exit w => exact OpState.threadIn_elim (P := OpStep s _) (.idle _) fun t ht hphase => .exit ht hphase

/-- The state after the steps. -/
def runOps (as : List OpAction) : OpState := runSteps opStep .init as

end RecoveryQt
