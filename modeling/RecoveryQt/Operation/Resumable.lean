import RecoveryQt.Operation.Luks
import RecoveryQt.Operation.Numbering

/-!
# Cancelled operations

The Cancel button cancels `instance()`, and the lambda at the end of an operation asks `m_progressCb`,
which nobody cancels: `endSession` then writes a completed session over that of the carver.

* `Operation.Resumable`: what a cancelled operation should leave in its session file;
* `SparesSession`: the lambda runs with an active session only after its operation ran to its end and was
  not cancelled, the dialog of a cancelled carve returns after the carver has stopped, and then no worker
  of an earlier operation reports or stops until it does;
* **`resumable_of_spares`**: in a run whose steps are such, every operation is resumable.
-/

namespace RecoveryQt

open List Function

/-- The file of the operation's session is completed only if the operation ran to its end; if it was
cancelled the file is not completed, and that of a carve has the position at which it ended. -/
def Operation.Resumable (op : Operation) : Prop :=
  (∀ e, op.lastSave = some e → e.completed → ∃ pos, op.ended = some (.ranToEnd, pos)) ∧
  (op.cancelled = true → (∀ e, op.lastSave = some e → ¬ e.completed) ∧
    (op.kind = .carve → ∀ o pos, op.ended = some (o, pos) →
      ∃ e, op.lastSave = some e ∧ e.progress1 = pos))

theorem SessionSave.not_completed_of_zero {e : SessionSave} (h : e.flags = 0) : ¬ e.completed := by
  rw [SessionSave.completed, h]
  decide

/-- How the thread of an operation came to its end. -/
def Operation.outcome (op : Operation) : Option Outcome := op.ended.map Prod.fst

/-- The lambda that is next in the queue reads `sessionActive` as true. -/
def OpState.slotReads (s : OpState) (freed : Option Bool) : Bool :=
  s.queue.head?.any fun n => s.slotFlag n freed

/-- The operation is a carve with a session that was cancelled. -/
def Operation.CancelledCarve (op : Operation) : Prop :=
  op.session.isSome ∧ op.kind = .carve ∧ op.cancelled = true

instance (op : Operation) : Decidable op.CancelledCarve := by
  unfold Operation.CancelledCarve; infer_instance

/-- The step leaves the session of the operation at hand as it should be. -/
def SparesSession (s : OpState) : OpAction → Prop
  | .deliver freed => s.slotReads freed = true → s.manager.active = true →
      ∀ op ∈ s.current, op.outcome = some .ranToEnd ∧ op.cancelled = false
  | .leave => ∀ op ∈ s.current, op.CancelledCarve → op.outcome = some .stopped
  | .report w _ _ _ => ∀ t ∈ s.thread w, ∀ op ∈ s.current, op.CancelledCarve → op.ended.isSome →
      t.op = op.number
  | .stop w _ => ∀ t ∈ s.thread w, ∀ op ∈ s.current, op.CancelledCarve → op.ended.isSome →
      t.op = op.number
  | _ => True

instance (s : OpState) (a : OpAction) : Decidable (SparesSession s a) := by
  cases a <;> unfold SparesSession <;> infer_instance

/-- What an operation that has been left keeps. -/
structure Operation.Kept (op : Operation) : Prop where
  completed : ∀ e, op.lastSave = some e → e.completed →
    op.outcome = some .ranToEnd ∧ op.cancelled = false
  position : op.kind = .carve → op.cancelled = true →
    ∃ pos e, op.ended = some (.stopped, pos) ∧ op.lastSave = some e ∧ e.progress1 = pos

/-- What holds of an operation under way: while its session is active no save is completed, and a carve
that was cancelled and has stopped has saved its position. -/
structure OpState.Keeping (s : OpState) (op : Operation) : Prop where
  unsaved : s.manager.active = true → ∀ e, op.lastSave = some e → ¬ e.completed
  finished : s.manager.active = false → op.outcome = some .ranToEnd ∧ op.cancelled = false
  stopped : s.manager.active = true → op.kind = .carve → op.cancelled = true →
    ∀ pos, op.ended = some (.stopped, pos) → ∃ e, op.lastSave = some e ∧ e.progress1 = pos

/-- All operations with a session, left or under way. -/
structure OpState.Resuming (s : OpState) : Prop where
  past : ∀ op ∈ s.past, op.session.isSome → op.Kept
  current : ∀ op, s.current = some op → op.session.isSome → s.Keeping op

theorem Operation.Kept.resumable {op : Operation} (h : op.Kept) : op.Resumable := by
  refine ⟨fun e he hc => ?_, fun hcancel => ⟨fun e he hc => ?_, fun hcarve o pos hended => ?_⟩⟩
  · obtain ⟨⟨o, pos⟩, hended, rfl⟩ := Option.map_eq_some_iff.mp (h.completed e he hc).1
    exact ⟨pos, hended⟩
  · rw [(h.completed e he hc).2] at hcancel
    cases hcancel
  · obtain ⟨pos', e, hended', he, hpos⟩ := h.position hcarve hcancel
    rw [hended] at hended'
    cases hended'
    exact ⟨e, he, hpos⟩

namespace OpState

variable {s s' : OpState}

theorem resuming_init : init.Resuming where
  past op hop := by cases hop
  current op hop := by cases hop

/-- A step that changes neither the operations nor whether a session is active. -/
theorem Resuming.of_eq (h : s.Resuming) (hpast : s'.past = s.past) (hcurrent : s'.current = s.current)
    (hactive : s'.manager.active = s.manager.active) : s'.Resuming where
  past := hpast ▸ h.past
  current op hop hsession := by
    have hk := h.current op (hcurrent ▸ hop) hsession
    exact ⟨hactive ▸ hk.unsaved, hactive ▸ hk.finished, hactive ▸ hk.stopped⟩

/-- A save during a session that is not completed, when no cancelled carve has ended. -/
theorem Resuming.sessionSave (h : s.Resuming) (c : SaveCtx) (p₁ p₂ : UInt64)
    (hended : ∀ op ∈ s.current, op.CancelledCarve → op.ended = none) :
    (s.sessionSave c p₁ p₂ 0).Resuming where
  past := h.past
  current op hop hsession := by
    obtain ⟨op, hcur, rfl⟩ := Option.map_eq_some_iff.mp hop
    have hk := h.current op hcur hsession
    refine ⟨fun _ e he => ?_, hk.finished, fun _ hcarve hcancel pos hpos => ?_⟩
    · cases he
      exact SessionSave.not_completed_of_zero rfl
    · have hpos : op.ended = some (.stopped, pos) := hpos
      rw [hended op hcur ⟨hsession, hcarve, hcancel⟩] at hpos
      cases hpos

theorem Resuming.cancel (h : s.Resuming) : s.cancel.Resuming where
  past := h.past
  current op hop hsession := by
    obtain ⟨op, hcur, rfl⟩ := Option.map_eq_some_iff.mp hop
    have hk := h.current op hcur hsession
    refine ⟨hk.unsaved, fun hactive => ?_, fun hactive hcarve hcancel pos hpos => ?_⟩
    · obtain ⟨houtcome, hcancel⟩ := hk.finished hactive
      obtain ⟨o, hended, -⟩ := Option.map_eq_some_iff.mp houtcome
      refine ⟨houtcome, ?_⟩
      simp only [hcancel, hended, Option.isNone_some, Bool.or_self]
    · have hpos : op.ended = some (.stopped, pos) := hpos
      refine hk.stopped hactive hcarve ?_ pos hpos
      simpa only [hpos, Option.isNone_some, Bool.or_false] using hcancel

/-- The lambda, with the flag that it reads. -/
theorem Resuming.finishSlot (h : s.Resuming) (hs : s.Sound) {b : Bool}
    (hC : b = true → s.manager.active = true →
      ∀ op ∈ s.current, op.outcome = some .ranToEnd ∧ op.cancelled = false) :
    (s.finishSlot b).Resuming := by
  have hinactive := (hs.finishSlot b).2
  have ha := alike_finishSlot s b
  by_cases hb : b = true ∧ s.manager.active = true
  · refine ⟨ha.past.symm ▸ h.past, fun op hop hsession => ?_⟩
    have hnot := hinactive hb.1
    refine ⟨fun hact => ?_, fun _ => ?_, fun hact => ?_⟩
    · rw [hnot] at hact
      cases hact
    · obtain ⟨op₀, hop₀, hact₀, hsome, hsess⟩ := hs.active hb.2
      obtain ⟨c, hc⟩ := Option.isSome_iff_exists.mp (hsess ▸ hsome)
      have hcur : (s.finishSlot b).current = some { op₀ with
          lastSave := some (SessionSave.mk c c.resumeOffset 0 sessionFlagCompleted (some op₀.session)) } := by
        simp only [OpState.finishSlot, OpState.endSession, OpState.clearSession, OpState.sessionSave, hb.1,
          hb.2, hs.window, hc, hop₀, if_true, Option.map_some, Bool.false_eq_true, if_false]
      rw [hcur] at hop
      cases hop
      exact hC hb.1 hb.2 op₀ hop₀
    · rw [hnot] at hact
      cases hact
  · have heq : s.finishSlot b = s := by
      unfold OpState.finishSlot
      cases b with
      | false => rfl
      | true =>
        have hact : ¬ s.manager.active = true := fun hact => hb ⟨rfl, hact⟩
        rw [if_pos rfl, hs.window, if_neg Bool.false_ne_true, OpState.endSession, if_neg hact]
    rw [heq]
    exact h

theorem Resuming.dropFlag (h : s.Resuming) : s.dropFlag.Resuming where
  past := h.past
  current op hop hsession := by
    obtain ⟨op, hcur, rfl⟩ := Option.map_eq_some_iff.mp hop
    have hk := h.current op hcur hsession
    exact ⟨hk.unsaved, hk.finished, hk.stopped⟩

theorem Resuming.deliver (h : s.Resuming) (hs : s.Sound) (freed : Option Bool)
    (hC : SparesSession s (.deliver freed)) : (s.deliver freed).Resuming := by
  unfold OpState.deliver
  split
  · exact h
  · rename_i n queue hqueue
    have hq : ({ s with queue := queue } : OpState).Sound :=
      hs.congr hs.window rfl rfl rfl fun op hop => ⟨op, hop, rfl, rfl⟩
    have hr : ({ s with queue := queue } : OpState).Resuming := h.of_eq rfl rfl rfl
    have hslot : (OpState.finishSlot { s with queue := queue } (s.slotFlag n freed)).Resuming := by
      refine hr.finishSlot hq fun hflag hactive => ?_
      refine hC ?_ hactive
      rw [OpState.slotReads, hqueue, head?_cons, Option.any_some, hflag]
    dsimp only
    split_ifs
    · exact hslot.dropFlag
    · exact hslot

theorem Resuming.leave (h : s.Resuming) (hC : SparesSession s .leave) : s.leave.Resuming := by
  unfold OpState.leave
  split
  · exact h
  · rename_i op hop
    have hpast : ∀ b : Bool, (if b then s.uninstallAllCallbacks.cancelSession
        else s.uninstallAllCallbacks).past = s.past := by
      intro b
      split_ifs
      · exact (alike_cancelSession _).past
      · rfl
    refine ⟨fun o ho hsession => ?_, fun o ho => by cases ho⟩
    obtain ho | ho := mem_append.mp ho
    · exact h.past o (hpast op.sessionActive ▸ ho) hsession
    · rw [mem_singleton] at ho
      subst ho
      have hk := h.current o hop hsession
      refine ⟨fun e he hc => ?_, fun hcarve hcancel => ?_⟩
      · cases hact : s.manager.active with
        | true => exact absurd hc (hk.unsaved hact e he)
        | false => exact hk.finished hact
      · obtain ⟨⟨_, pos⟩, hended, rfl⟩ :=
          Option.map_eq_some_iff.mp (hC o hop ⟨hsession, hcarve, hcancel⟩)
        cases hact : s.manager.active with
        | true =>
          obtain ⟨e, he, hpos⟩ := hk.stopped hact hcarve hcancel pos hended
          exact ⟨pos, e, hended, he, hpos⟩
        | false =>
          rw [(hk.finished hact).2] at hcancel
          cases hcancel

theorem Resuming.start (h : s.Resuming) (kind : OpKind) (r : Option SessionRequest) :
    (s.start kind r).Resuming := by
  have hthread : ∀ (s : OpState) (w : Worker) (n : ℕ), s.Resuming → (s.startThread w n).Resuming := by
    intro s w n h
    unfold OpState.startThread
    split
    · exact h
    · exact h.of_eq rfl rfl rfl
  unfold OpState.start
  apply hthread
  cases hsession : sessionOf kind r with
  | none =>
    refine ⟨h.past, fun op hop hsome => ?_⟩
    cases hop
    cases hsome
  | some c =>
    refine ⟨h.past, fun op hop _ => ?_⟩
    cases hop
    exact ⟨nofun, nofun, nofun⟩

/-- **The thread ends.** A carver that was cancelled has saved its position. -/
theorem Resuming.emit (h : s.Resuming) (hn : s.Numbered) {w : Worker} {t : Thread}
    (ht : s.thread w = some t) (hphase : t.phase ≠ .emitted) {o : Outcome}
    (hstop : o = .stopped → ∀ op, s.current = some op → op.session.isSome → op.number = t.op →
      op.kind = .carve → s.manager.active = true → ∃ e, op.lastSave = some e ∧ e.progress1 = t.pos) :
    (s.emit w t o).Resuming := by
  refine ⟨fun op' hop' hsession => ?_, fun op' hop' hsession => ?_⟩
  · obtain ⟨op, hop, rfl⟩ := mem_map.mp hop'
    by_cases hnum : op.number = t.op
    · have hended := hn.fresh w t op ht hphase (.inr hop) hnum.symm
      rw [markEnded, if_pos hnum] at hsession ⊢
      have hk := h.past op hop hsession
      refine ⟨fun e he hc => ?_, fun hcarve hcancel => ?_⟩
      · have houtcome := (hk.completed e he hc).1
        rw [Operation.outcome, hended] at houtcome
        cases houtcome
      · obtain ⟨pos, -, hpos, -⟩ := hk.position hcarve hcancel
        rw [hended] at hpos
        cases hpos
    · rw [markEnded_of_ne hnum] at hsession ⊢
      exact h.past op hop hsession
  · obtain ⟨op, hop, rfl⟩ := Option.map_eq_some_iff.mp hop'
    by_cases hnum : op.number = t.op
    · have hended := hn.fresh w t op ht hphase (.inl hop) hnum.symm
      rw [markEnded, if_pos hnum] at hsession ⊢
      have hk := h.current op hop hsession
      refine ⟨hk.unsaved, fun hinactive => ?_, fun hactive hcarve hcancel pos hpos => ?_⟩
      · have houtcome := (hk.finished hinactive).1
        rw [Operation.outcome, hended] at houtcome
        cases houtcome
      · cases hpos
        exact hstop rfl op hop hsession hnum hcarve hactive
    · rw [markEnded_of_ne hnum] at hsession ⊢
      have hk := h.current op hop hsession
      exact ⟨hk.unsaved, hk.finished, hk.stopped⟩

/-- A thread that has not reported its end is not that of an operation that has ended. -/
theorem Numbered.not_ended_of_spares (hn : s.Numbered) {w : Worker} {t : Thread}
    (ht : s.thread w = some t) (hphase : t.phase ≠ .emitted)
    (hC : ∀ op ∈ s.current, op.CancelledCarve → op.ended.isSome → t.op = op.number) :
    ∀ op ∈ s.current, op.CancelledCarve → op.ended = none := by
  intro op hop hcc
  by_contra hne
  have hnum := hC op hop hcc (Option.isSome_iff_ne_none.mpr hne)
  exact hne (hn.fresh w t op ht hphase (.inl hop) hnum)

/-- **The thread leaves its loop.** A carver that was cancelled saves the position it stopped at. -/
theorem Resuming.stopped (h : s.Resuming) (hs : s.Sound) (hn : s.Numbered) {w : Worker} {t : Thread}
    {loop : Worker} (ht : s.thread w = some t) (hphase : t.phase = .leaving loop)
    (hC : ∀ op ∈ s.current, op.CancelledCarve → op.ended.isSome → t.op = op.number) (count : UInt64) :
    ((s.saveCancelled loop t.pos count).emit w t .stopped).Resuming := by
  have hphase' : t.phase ≠ .emitted := by
    rw [hphase]
    exact Phase.noConfusion
  have hended := hn.not_ended_of_spares ht hphase' hC
  have hsaved : (s.saveCancelled loop t.pos count).Resuming := by
    unfold OpState.saveCancelled
    split
    · exact h.sessionSave _ t.pos count hended
    · exact h
    · exact h
  have ha := OpState.alike_saveCancelled s loop t.pos count
  refine hsaved.emit (hn.of_alike ha) (ha.thread ▸ ht) hphase' fun _ op hop hsome hnum hcarve hact => ?_
  obtain ⟨op₀, hop₀, hkey⟩ := ha.current_of hop
  have hnum₀ : op₀.number = t.op := (congrArg Prod.fst hkey).symm.trans hnum
  have hcarve₀ : op₀.kind = .carve := (congrArg (·.2.1) hkey).symm.trans hcarve
  have hw : w = .carver := (hn.worker w t op₀ ht hop₀ hnum₀.symm).trans (by rw [hcarve₀]; rfl)
  have hloop : loop = .carver := hn.loop t loop (hw ▸ ht) hphase
  subst hloop
  have hact₀ : s.manager.active = true := by
    rw [← hact]
    unfold OpState.saveCancelled
    split <;> rfl
  obtain ⟨op₁, hop₁, -, hsome₁, hsess₁⟩ := hs.active hact₀
  obtain ⟨c, hc⟩ := Option.isSome_iff_exists.mp (hsess₁ ▸ hsome₁)
  have hctx : s.activeSaveCtx = some c := by rw [hs.ctx, if_pos hact₀, hc]
  have hcur : (s.saveCancelled .carver t.pos count).current =
      some { op₀ with lastSave := some ⟨c, t.pos, count, 0, some op₀.session⟩ } := by
    simp only [OpState.saveCancelled, hctx, OpState.sessionSave, hop₀, Option.map_some]
  rw [hcur] at hop
  cases hop
  exact ⟨_, rfl, rfl⟩

end OpState

/-- **One step that spares the session.** -/
theorem resuming_opStep (s : OpState) (a : OpAction) (hC : SparesSession s a)
    (hs : s.Sound) (hn : s.Numbered) (h : s.Resuming) : (opStep s a).Resuming := by
  have hstep := opStep_spec s a
  generalize opStep s a = s' at hstep ⊢
  cases hstep with
  | idle => exact h
  | start kind r => exact h.start kind r
  | cancel => exact h.cancel
  | deliver freed => exact h.deliver hs freed hC
  | leave => exact h.leave hC
  | restoreStart busy => exact h.of_eq rfl rfl rfl
  | uninstall => exact h.of_eq rfl rfl rfl
  | install w => exact h.of_eq rfl rfl rfl
  | @report w t ht hphase p₁ p₂ due =>
    have hu : ({ s with thread := update s.thread w (some { t with pos := p₁ }) } : OpState).Resuming :=
      h.of_eq rfl rfl rfl
    have hended := hn.not_ended_of_spares ht (by rw [hphase]; decide) (hC t ht)
    rw [OpState.report]
    dsimp only
    split_ifs
    · unfold OpState.sessionSaveCheckpoint
      split
      · exact hu
      · split_ifs
        · exact hu.sessionSave _ p₁ p₂ hended
        · exact hu
    · exact hu
  | obey => exact h.of_eq rfl rfl rfl
  | @stop w loop t ht hphase count => exact h.stopped hs hn ht hphase (hC t ht) count
  | finish ht hphase failed =>
    refine h.emit hn ht (by rw [hphase]; decide) fun ho => ?_
    split_ifs at ho
  | exit => exact h.of_eq rfl rfl rfl

/-- In a run whose steps spare the session, every operation with a session that has been left is
resumable. -/
theorem resumable_of_spares (as : List OpAction) (has : Meets opStep SparesSession .init as) :
    ∀ op ∈ (runOps as).past, op.session.isSome → op.Resumable := by
  have h : (runOps as).Sound ∧ (runOps as).Numbered ∧ (runOps as).Resuming := by
    refine runSteps_invariant_of_meets (C := SparesSession)
      (P := fun s => s.Sound ∧ s.Numbered ∧ s.Resuming) (fun s a hC hs => ?_)
      ⟨OpState.sound_init, OpState.numbered_init, OpState.resuming_init⟩ has
    exact ⟨sound_opStep s a hs.1, numbered_opStep s a hs.2.1, resuming_opStep s a hC hs.1 hs.2.1 hs.2.2⟩
  exact fun op hop hsession => (h.2.2.past op hop hsession).resumable

/-! ## A carve that the user cancels -/

/-- A carve with a session, cancelled after its second chunk; `ending` follows the stop of the carver. -/
def cancelledCarve (ending : List OpAction) : List OpAction :=
  [.start .carve (some (carveRequest none)), .install .carver, .report .carver 524288 0 false, .cancel,
    .report .carver 983040 1 false, .obey .carver .carver, .stop .carver 1] ++ ending

theorem dismissed_resumable : ∃ op ∈ (runOps (cancelledCarve [.leave])).past,
    op.session.isSome ∧ op.Resumable :=
  ⟨_, mem_singleton.mpr rfl, rfl,
    resumable_of_spares (cancelledCarve [.leave]) (by decide) _ (mem_singleton.mpr rfl) rfl⟩

/-- The dialog is closed by the lambda: the file is completed, with no progress. -/
theorem finished_not_resumable : ∃ op ∈ (runOps (cancelledCarve [.deliver none, .leave])).past,
    op.session.isSome ∧ ¬ op.Resumable := by
  refine ⟨_, mem_singleton.mpr rfl, rfl, ?_⟩
  rintro ⟨-, h⟩
  exact (h rfl).1 _ rfl (by decide)

end RecoveryQt
