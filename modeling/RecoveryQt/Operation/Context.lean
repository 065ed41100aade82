import RecoveryQt.Operation.Model

/-!
# The lifetime of the session context

`g_active_save_ctx` is set by `beginSession` and cleared by `endSession` and `cancelSession`, which two
different endings of an operation reach.

* `Sound`: what holds between any two steps;
* **`sound_runOps`**: it holds in every state reached;
* `session_context_lifetime`: no operation leaves its context behind.
-/

namespace RecoveryQt

open List Function

/-- The context is that of the session manager, which is active only for the operation at hand;
`m_progressCb` is never cancelled; and the flags of a save are one of two literals. -/
structure OpState.Sound (s : OpState) : Prop where
  window : s.cancelled .window = false
  ctx : s.activeSaveCtx = if s.manager.active then s.manager.saveCtx else none
  active : s.manager.active = true → ∃ op, s.current = some op ∧ op.sessionActive = true ∧
    op.session.isSome ∧ op.session = s.manager.saveCtx
  saves : ∀ e ∈ s.saves, e.during = some (some e.ctx)
  flags : ∀ e ∈ s.saves, e.flags = 0 ∨ e.flags = sessionFlagCompleted

namespace OpState

variable {s : OpState}

theorem sound_init : init.Sound where
  window := rfl
  ctx := rfl
  active := nofun
  saves := nofun
  flags := nofun

/-- A step that leaves the sessions alone. -/
theorem Sound.congr {s' : OpState} (h : s.Sound) (hwindow : s'.cancelled .window = false)
    (hctx : s'.activeSaveCtx = s.activeSaveCtx) (hmanager : s'.manager = s.manager)
    (hsaves : s'.saves = s.saves)
    (hcurrent : ∀ op, s.current = some op → ∃ op', s'.current = some op' ∧
      op'.session = op.session ∧ op'.sessionActive = op.sessionActive) : s'.Sound where
  window := hwindow
  ctx := by rw [hctx, hmanager, h.ctx]
  active hact := by
    rw [hmanager] at hact ⊢
    obtain ⟨op, hop, hflag, hsession⟩ := h.active hact
    obtain ⟨op', hop', hs, hf⟩ := hcurrent op hop
    exact ⟨op', hop', hf.trans hflag, hs ▸ hsession⟩
  saves := hsaves ▸ h.saves
  flags := hsaves ▸ h.flags

/-- The other callback object leaves that of the window alone. -/
theorem Sound.window_update (h : s.Sound) (b : Bool) : update s.cancelled .shared b .window = false := by
  rw [update_of_ne (by decide)]
  exact h.window

/-- The context is that of the operation at hand. -/
theorem Sound.current_of_ctx (h : s.Sound) {c : SaveCtx} (hc : s.activeSaveCtx = some c) :
    ∃ op, s.current = some op ∧ op.session = some c ∧ op.sessionActive = true := by
  rw [h.ctx] at hc
  split_ifs at hc with hact
  obtain ⟨op, hop, hflag, -, hsession⟩ := h.active hact
  exact ⟨op, hop, hsession.trans hc, hflag⟩

/-- A save of the session at hand. -/
theorem Sound.sessionSave (h : s.Sound) {c : SaveCtx} (hc : s.activeSaveCtx = some c)
    (p₁ p₂ : UInt64) {flags : UInt32} (hflags : flags = 0 ∨ flags = sessionFlagCompleted) :
    (s.sessionSave c p₁ p₂ flags).Sound where
  window := h.window
  ctx := h.ctx
  active hact := by
    obtain ⟨op, hop, hrest⟩ := h.active hact
    refine ⟨{ op with lastSave := some ⟨c, p₁, p₂, flags, some op.session⟩ }, ?_, hrest⟩
    simp only [OpState.sessionSave, hop, Option.map_some]
  saves := by
    intro e he
    obtain he | he := mem_append.mp he
    · exact h.saves e he
    · obtain ⟨op, hop, hsession, -⟩ := h.current_of_ctx hc
      rw [mem_singleton] at he
      rw [he, hop, Option.map_some, hsession]
  flags := by
    intro e he
    obtain he | he := mem_append.mp he
    · exact h.flags e he
    · rw [mem_singleton] at he
      rw [he]
      exact hflags

theorem Sound.clearSession (h : s.Sound) : s.clearSession.Sound where
  window := h.window
  ctx := rfl
  active := nofun
  saves := h.saves
  flags := h.flags

theorem Sound.sessionSaveCheckpoint (h : s.Sound) (p₁ p₂ : UInt64) (due : Bool) :
    (s.sessionSaveCheckpoint p₁ p₂ due).Sound := by
  unfold OpState.sessionSaveCheckpoint
  split
  · exact h
  · rename_i c hc
    split_ifs
    · exact h.sessionSave hc p₁ p₂ (.inl rfl)
    · exact h

/-- After `endSession` the manager is not active. -/
theorem Sound.endSession (h : s.Sound) : s.endSession.Sound ∧ s.endSession.manager.active = false := by
  unfold OpState.endSession
  split_ifs with hact
  · obtain ⟨op, hop, -, hsome, hsession⟩ := h.active hact
    obtain ⟨c, hc⟩ := Option.isSome_iff_exists.mp (hsession ▸ hsome)
    have hctx : s.activeSaveCtx = some c := by rw [h.ctx, if_pos hact, hc]
    rw [hc]
    exact ⟨(h.sessionSave hctx _ _ (.inr rfl)).clearSession, rfl⟩
  · exact ⟨h, by simpa using hact⟩

theorem Sound.cancelSession (h : s.Sound) :
    s.cancelSession.Sound ∧ s.cancelSession.manager.active = false := by
  unfold OpState.cancelSession
  split_ifs with hact
  · exact ⟨h.clearSession, rfl⟩
  · exact ⟨h, by simpa using hact⟩

theorem Sound.finishSlot (h : s.Sound) (b : Bool) :
    (s.finishSlot b).Sound ∧ (b = true → (s.finishSlot b).manager.active = false) := by
  unfold OpState.finishSlot
  rw [h.window]
  cases b with
  | false => exact ⟨h, nofun⟩
  | true => exact ⟨h.endSession.1, fun _ => h.endSession.2⟩

/-- A step after which the manager is not active. -/
theorem Sound.of_inactive {s' : OpState} (h : s.Sound) (hact : s.manager.active = false)
    (hwindow : s'.cancelled .window = false) (hctx : s'.activeSaveCtx = s.activeSaveCtx)
    (hmanager : s'.manager = s.manager) (hsaves : s'.saves = s.saves) : s'.Sound where
  window := hwindow
  ctx := by rw [hctx, hmanager, h.ctx]
  active ha := by
    rw [hmanager, hact] at ha
    cases ha
  saves := hsaves ▸ h.saves
  flags := hsaves ▸ h.flags

theorem Sound.deliver (h : s.Sound) (freed : Option Bool) : (s.deliver freed).Sound := by
  unfold OpState.deliver
  split
  · exact h
  · rename_i n queue _
    have hq : ({ s with queue := queue } : OpState).Sound :=
      h.congr h.window rfl rfl rfl fun op hop => ⟨op, hop, rfl, rfl⟩
    have hslot := hq.finishSlot (s.slotFlag n freed)
    dsimp only
    split_ifs with hown
    · refine hslot.1.of_inactive ?_ hslot.1.window rfl rfl rfl
      -- the flag that the lambda clears was read: if it was false no session was active
      cases hflag : s.slotFlag n freed with
      | true => exact hflag ▸ hslot.2 hflag
      | false =>
        rw [slotFlag, if_pos hown] at hflag
        rw [← Bool.not_eq_true]
        intro hact
        obtain ⟨op, hop, hactive, -⟩ := hq.active hact
        have hop : s.current = some op := hop
        rw [hop, Option.any_some, hactive] at hflag
        cases hflag
    · exact hslot.1

theorem Sound.startThread (h : s.Sound) (w : Worker) (n : ℕ) : (s.startThread w n).Sound := by
  unfold OpState.startThread
  split
  · exact h
  · refine h.congr ?_ rfl rfl rfl fun op hop => ⟨op, hop, rfl, rfl⟩
    exact h.window_update false

theorem Sound.start (h : s.Sound) (hnone : s.current = none) (kind : OpKind)
    (r : Option SessionRequest) : (s.start kind r).Sound := by
  unfold OpState.start
  apply Sound.startThread
  cases hsession : sessionOf kind r with
  | none =>
    refine ⟨h.window, h.ctx, fun hact => ?_, h.saves, h.flags⟩
    obtain ⟨op, hop, -⟩ := h.active hact
    rw [hnone] at hop
    cases hop
  | some c => exact ⟨h.window, rfl, fun _ => ⟨_, rfl, rfl, rfl, rfl⟩, h.saves, h.flags⟩

theorem Sound.uninstallAllCallbacks (h : s.Sound) : s.uninstallAllCallbacks.Sound :=
  h.congr h.window rfl rfl rfl fun op hop => ⟨op, hop, rfl, rfl⟩

/-- **When a handler returns no context is left behind.** -/
theorem Sound.leave (h : s.Sound) : s.leave.Sound ∧ s.leave.current = none := by
  unfold OpState.leave
  split
  · exact ⟨h, by assumption⟩
  · rename_i op hop
    have hu := h.uninstallAllCallbacks
    refine ⟨?_, rfl⟩
    dsimp only
    cases hflag : op.sessionActive with
    | true => exact hu.cancelSession.1.of_inactive hu.cancelSession.2 hu.cancelSession.1.window rfl rfl rfl
    | false =>
      refine hu.of_inactive ?_ hu.window rfl rfl rfl
      rw [← Bool.not_eq_true]
      intro hact
      obtain ⟨op', hop', hflag', -⟩ := hu.active hact
      obtain rfl : op = op' := Option.some.inj (hop.symm.trans hop')
      rw [hflag] at hflag'
      cases hflag'

theorem Sound.cancel (h : s.Sound) : s.cancel.Sound := by
  refine h.congr (h.window_update true) rfl rfl rfl fun op hop => ?_
  refine ⟨{ op with cancelled := op.cancelled || op.ended.isNone }, ?_, rfl, rfl⟩
  simp only [OpState.cancel, hop, Option.map_some]

theorem Sound.restoreStart (h : s.Sound) (busy : Bool) : (s.restoreStart busy).Sound :=
  h.congr (by simp [OpState.restoreStart]) rfl rfl rfl fun op hop => ⟨op, hop, rfl, rfl⟩

theorem Sound.emit (h : s.Sound) (w : Worker) (t : Thread) (o : Outcome) : (s.emit w t o).Sound := by
  refine h.congr h.window rfl rfl rfl fun op hop => ?_
  refine ⟨markEnded t.op (o, t.pos) op, by rw [OpState.emit, hop, Option.map_some], ?_⟩
  unfold markEnded
  split_ifs <;> exact ⟨rfl, rfl⟩

theorem Sound.report (h : s.Sound) (w : Worker) (t : Thread) (p₁ p₂ : UInt64) (due : Bool) :
    (s.report w t p₁ p₂ due).Sound := by
  unfold OpState.report
  have ht : ({ s with thread := update s.thread w (some { t with pos := p₁ }) } : OpState).Sound :=
    h.congr h.window rfl rfl rfl fun op hop => ⟨op, hop, rfl, rfl⟩
  dsimp only
  split_ifs
  · exact ht.sessionSaveCheckpoint p₁ p₂ due
  · exact ht

theorem Sound.saveCancelled (h : s.Sound) (loop : Worker) (pos count : UInt64) :
    (s.saveCancelled loop pos count).Sound := by
  unfold OpState.saveCancelled
  split
  · rename_i c hc
    exact h.sessionSave hc pos count (.inl rfl)
  · exact h
  · exact h

end OpState

/-- One step. -/
theorem sound_opStep (s : OpState) (a : OpAction) (h : s.Sound) : (opStep s a).Sound := by
  have same : ∀ {s' : OpState}, s'.cancelled = s.cancelled → s'.activeSaveCtx = s.activeSaveCtx →
      s'.manager = s.manager → s'.saves = s.saves → s'.current = s.current → s'.Sound := by
    intro s' hc hctx hm hs hcur
    exact h.congr (hc ▸ h.window) hctx hm hs fun op hop => ⟨op, hcur.trans hop, rfl, rfl⟩
  have hstep := opStep_spec s a
  generalize opStep s a = s' at hstep ⊢
  cases hstep with
  | idle => exact h
  | start kind r hnone => exact h.start hnone kind r
  | cancel => exact h.cancel
  | deliver freed => exact h.deliver freed
  | leave => exact h.leave.1
  | restoreStart busy => exact h.restoreStart busy
  | uninstall => exact h.uninstallAllCallbacks
  | install w => exact same rfl rfl rfl rfl rfl
  | @report w t _ _ p₁ p₂ due => exact h.report w t p₁ p₂ due
  | obey => exact same rfl rfl rfl rfl rfl
  | @stop w loop t _ _ count => exact (h.saveCancelled loop t.pos count).emit w t .stopped
  | @finish w t => exact h.emit w t _
  | exit => exact same rfl rfl rfl rfl rfl

/-- **Every state reached is sound.** -/
theorem sound_runOps (as : List OpAction) : (runOps as).Sound :=
  runSteps_invariant sound_opStep OpState.sound_init as

/-- While no operation is under way there is no context, and each save is made during an operation whose
session has the context that the save uses. -/
theorem session_context_lifetime (as : List OpAction) :
    ((runOps as).current = none → (runOps as).activeSaveCtx = none) ∧
      ∀ e ∈ (runOps as).saves, e.during = some (some e.ctx) := by
  have h := sound_runOps as
  refine ⟨fun hnone => ?_, h.saves⟩
  by_contra hctx
  obtain ⟨c, hc⟩ := Option.ne_none_iff_exists'.mp hctx
  obtain ⟨op, hop, -⟩ := h.current_of_ctx hc
  rw [hnone] at hop
  cases hop

end RecoveryQt
