import RecoveryQt.Operation.Model

/-!
# Operations and their threads

* `Alike`: a step that changes no thread and no operation's number, kind or end;
* `Numbered`: each thread belongs to one operation, which has not ended while the thread works;
* **`numbered_runOps`**: this holds in every state reached.
-/

namespace RecoveryQt

open List Function

/-- What tells an operation from another, and its end. -/
def Operation.key (op : Operation) : ℕ × OpKind × Option (Outcome × UInt64) :=
  (op.number, op.kind, op.ended)

namespace OpState

variable {s s' s'' : OpState}

/-- The same operations and threads. -/
structure Alike (s s' : OpState) : Prop where
  thread : s'.thread = s.thread
  count : s'.count = s.count
  past : s'.past = s.past
  current : s'.current.map Operation.key = s.current.map Operation.key

theorem Alike.refl (s : OpState) : Alike s s := ⟨rfl, rfl, rfl, rfl⟩

theorem Alike.trans (h : Alike s s') (h' : Alike s' s'') : Alike s s'' :=
  ⟨h'.thread.trans h.thread, h'.count.trans h.count, h'.past.trans h.past, h'.current.trans h.current⟩

/-- A step that maps the current operation to one with the same key. -/
theorem alike_of_map {f : Operation → Operation} (hthread : s'.thread = s.thread)
    (hcount : s'.count = s.count) (hpast : s'.past = s.past) (hcurrent : s'.current = s.current.map f)
    (hf : ∀ op, (f op).key = op.key) : Alike s s' := by
  refine ⟨hthread, hcount, hpast, ?_⟩
  rw [hcurrent, Option.map_map]
  congr 1
  funext op
  exact hf op

theorem alike_sessionSave (s : OpState) (c : SaveCtx) (p₁ p₂ : UInt64) (flags : UInt32) :
    Alike s (s.sessionSave c p₁ p₂ flags) := alike_of_map rfl rfl rfl rfl fun _ => rfl

theorem alike_clearSession (s : OpState) : Alike s s.clearSession := ⟨rfl, rfl, rfl, rfl⟩

theorem alike_sessionSaveCheckpoint (s : OpState) (p₁ p₂ : UInt64) (due : Bool) :
    Alike s (s.sessionSaveCheckpoint p₁ p₂ due) := by
  unfold sessionSaveCheckpoint
  split
  · exact Alike.refl s
  · split_ifs
    · exact alike_sessionSave ..
    · exact Alike.refl s

theorem alike_endSession (s : OpState) : Alike s s.endSession := by
  unfold endSession
  split_ifs
  · split
    · exact Alike.refl s
    · exact (alike_sessionSave ..).trans (alike_clearSession _)
  · exact Alike.refl s

theorem alike_cancelSession (s : OpState) : Alike s s.cancelSession := by
  unfold cancelSession
  split_ifs
  · exact alike_clearSession s
  · exact Alike.refl s

theorem alike_finishSlot (s : OpState) (b : Bool) : Alike s (s.finishSlot b) := by
  unfold finishSlot
  split_ifs
  · exact Alike.refl s
  · exact alike_endSession s
  · exact Alike.refl s

theorem alike_deliver (s : OpState) (freed : Option Bool) : Alike s (s.deliver freed) := by
  unfold deliver
  split
  · exact Alike.refl s
  · rename_i n queue _
    have hq : Alike s { s with queue := queue } := ⟨rfl, rfl, rfl, rfl⟩
    have hslot := hq.trans (alike_finishSlot _ (s.slotFlag n freed))
    dsimp only
    split_ifs
    · exact hslot.trans (alike_of_map rfl rfl rfl rfl fun _ => rfl)
    · exact hslot

theorem alike_saveCancelled (s : OpState) (loop : Worker) (pos count : UInt64) :
    Alike s (s.saveCancelled loop pos count) := by
  unfold saveCancelled
  split
  · exact alike_sessionSave ..
  · exact Alike.refl s
  · exact Alike.refl s

theorem alike_cancel (s : OpState) : Alike s s.cancel := alike_of_map rfl rfl rfl rfl fun _ => rfl

/-- The operation is under way or has been left. -/
def Has (s : OpState) (op : Operation) : Prop := s.current = some op ∨ op ∈ s.past

/-- Each thread belongs to one operation, which runs on the thread's worker and has not ended while the
thread works; and the carver leaves its own loop only. -/
structure Numbered (s : OpState) : Prop where
  ops : ∀ op, s.Has op → op.number < s.count
  threads : ∀ w t, s.thread w = some t → t.op < s.count
  apart : ∀ w t w' t', s.thread w = some t → s.thread w' = some t' → t.op = t'.op → w = w'
  worker : ∀ w t op, s.thread w = some t → s.current = some op → t.op = op.number →
    w = op.kind.worker
  fresh : ∀ w t op, s.thread w = some t → t.phase ≠ .emitted → s.Has op → t.op = op.number →
    op.ended = none
  loop : ∀ t loop, s.thread .carver = some t → t.phase = .leaving loop → loop = .carver

theorem numbered_init : init.Numbered where
  ops := by rintro op (h | h) <;> cases h
  threads := by
    intro w t ht
    cases ht
  apart := by
    intro w t w' t' ht
    cases ht
  worker := by
    intro w t op ht
    cases ht
  fresh := by
    intro w t op ht
    cases ht
  loop := by
    intro t loop ht
    cases ht

theorem Alike.has (h : Alike s s') {op' : Operation} (hop : s'.Has op') :
    ∃ op, s.Has op ∧ op'.key = op.key := by
  obtain hop | hop := hop
  · have hkey := h.current
    rw [hop, Option.map_some] at hkey
    obtain ⟨op, hcur, hkey⟩ := Option.map_eq_some_iff.mp hkey.symm
    exact ⟨op, .inl hcur, hkey.symm⟩
  · exact ⟨op', .inr (h.past ▸ hop), rfl⟩

/-- The operation at hand, before and after. -/
theorem Alike.current_of (h : Alike s s') {op' : Operation} (hop : s'.current = some op') :
    ∃ op, s.current = some op ∧ op'.key = op.key := by
  have hkey := h.current
  rw [hop, Option.map_some] at hkey
  obtain ⟨op, hcur, hkey⟩ := Option.map_eq_some_iff.mp hkey.symm
  exact ⟨op, hcur, hkey.symm⟩

theorem Numbered.of_alike (h : s.Numbered) (ha : Alike s s') : s'.Numbered where
  ops op' hop' := by
    obtain ⟨op, hop, hkey⟩ := ha.has hop'
    rw [ha.count, show op'.number = op.number from congrArg Prod.fst hkey]
    exact h.ops op hop
  threads w t ht := by
    rw [ha.count]
    exact h.threads w t (ha.thread ▸ ht)
  apart := by
    rw [ha.thread]
    exact h.apart
  worker w t op' ht hop' hn := by
    obtain ⟨op, hop, hkey⟩ := ha.current_of hop'
    rw [show op'.kind = op.kind from congrArg (·.2.1) hkey]
    exact h.worker w t op (ha.thread ▸ ht) hop (hn.trans (congrArg Prod.fst hkey))
  fresh w t op' ht hphase hop' hn := by
    obtain ⟨op, hop, hkey⟩ := ha.has hop'
    rw [show op'.ended = op.ended from congrArg (·.2.2) hkey]
    exact h.fresh w t op (ha.thread ▸ ht) hphase hop (hn.trans (congrArg Prod.fst hkey))
  loop := by
    rw [ha.thread]
    exact h.loop

/-- A step that only moves one thread on. -/
theorem Numbered.thread_update (h : s.Numbered) {w : Worker} {t : Thread} (t' : Thread)
    (ht : s.thread w = some t) (hop : t'.op = t.op) (hphase : t.phase ≠ .emitted)
    (hloop : ∀ loop, w = .carver → t'.phase = .leaving loop → loop = .carver) :
    ({ s with thread := update s.thread w (some t') } : OpState).Numbered := by
  have key : ∀ v u, update s.thread w (some t') v = some u → ∃ u₀, s.thread v = some u₀ ∧
      u.op = u₀.op ∧ (u.phase ≠ .emitted → u₀.phase ≠ .emitted) := by
    intro v u hu
    by_cases hv : v = w
    · subst hv
      rw [update_self] at hu
      cases hu
      exact ⟨t, ht, hop, fun _ => hphase⟩
    · rw [update_of_ne hv] at hu
      exact ⟨u, hu, rfl, id⟩
  refine ⟨h.ops, ?_, ?_, ?_, ?_, ?_⟩
  · intro v u hu
    obtain ⟨u₀, hu₀, hop', -⟩ := key v u hu
    exact hop' ▸ h.threads v u₀ hu₀
  · intro v u v' u' hu hu' he
    obtain ⟨u₀, hu₀, hop₀, -⟩ := key v u hu
    obtain ⟨u₁, hu₁, hop₁, -⟩ := key v' u' hu'
    exact h.apart v u₀ v' u₁ hu₀ hu₁ (hop₀ ▸ hop₁ ▸ he)
  · intro v u op hu hcur he
    obtain ⟨u₀, hu₀, hop₀, -⟩ := key v u hu
    exact h.worker v u₀ op hu₀ hcur (hop₀ ▸ he)
  · intro v u op hu hne hhas he
    obtain ⟨u₀, hu₀, hop₀, hne₀⟩ := key v u hu
    exact h.fresh v u₀ op hu₀ (hne₀ hne) hhas (hop₀ ▸ he)
  · intro u loop hu hleaving
    replace hu : update s.thread w (some t') .carver = some u := hu
    by_cases hv : w = .carver
    · rw [hv, update_self] at hu
      cases hu
      exact hloop loop hv hleaving
    · rw [update_of_ne (Ne.symm hv)] at hu
      exact h.loop u loop hu hleaving

theorem markEnded_number (n : ℕ) (o : Outcome × UInt64) (op : Operation) :
    (markEnded n o op).number = op.number ∧ (markEnded n o op).kind = op.kind := by
  unfold markEnded
  split_ifs <;> exact ⟨rfl, rfl⟩

theorem markEnded_of_ne {n : ℕ} {op : Operation} (h : op.number ≠ n) (o : Outcome × UInt64) :
    markEnded n o op = op := if_neg h

/-- An operation after `emit finished`. -/
theorem has_emit {w : Worker} {t : Thread} {o : Outcome} {op' : Operation}
    (h : (s.emit w t o).Has op') : ∃ op, s.Has op ∧ op' = markEnded t.op (o, t.pos) op := by
  obtain h | h := h
  · obtain ⟨op, hop, rfl⟩ := Option.map_eq_some_iff.mp h
    exact ⟨op, .inl hop, rfl⟩
  · obtain ⟨op, hop, rfl⟩ := mem_map.mp h
    exact ⟨op, .inr hop, rfl⟩

theorem Numbered.emit (h : s.Numbered) {w : Worker} {t : Thread} (ht : s.thread w = some t)
    (hphase : t.phase ≠ .emitted) (o : Outcome) : (s.emit w t o).Numbered := by
  have hu := h.thread_update { t with phase := .emitted } ht rfl hphase nofun
  refine ⟨?_, hu.threads, hu.apart, ?_, ?_, hu.loop⟩
  · intro op' hop'
    obtain ⟨op, hop, rfl⟩ := has_emit hop'
    rw [(markEnded_number ..).1]
    exact h.ops op hop
  · intro v u op' hv hop' he
    obtain ⟨op, hop, rfl⟩ := Option.map_eq_some_iff.mp hop'
    rw [(markEnded_number ..).1] at he
    rw [(markEnded_number ..).2]
    exact hu.worker v u op hv hop he
  · intro v u op' hv hne hop' he
    obtain ⟨op, hop, rfl⟩ := has_emit hop'
    rw [(markEnded_number ..).1] at he
    by_cases hn : op.number = t.op
    · -- the thread of this operation has emitted
      have hvw : v = w := hu.apart v u w { t with phase := .emitted } hv (update_self ..)
        (he.trans hn)
      replace hv : update s.thread w (some { t with phase := .emitted }) v = some u := hv
      rw [hvw, update_self] at hv
      cases hv
      exact absurd rfl hne
    · rw [markEnded_of_ne hn]
      exact hu.fresh v u op hv hne hop he

theorem Numbered.startThread {kind : OpKind} (op : Operation) (h : s.Numbered)
    (hcur : s.current = some op) (hkind : op.kind = kind) (hnew : op.ended = none)
    (hthreads : ∀ w t, s.thread w = some t → t.op ≠ op.number)
    (hpast : ∀ o ∈ s.past, o.number ≠ op.number) : (s.startThread kind.worker op.number).Numbered := by
  unfold OpState.startThread
  split
  · exact h
  · have key : ∀ v u, update s.thread kind.worker (some ⟨op.number, 0, .running⟩) v = some u →
        (v = kind.worker ∧ u = ⟨op.number, 0, .running⟩) ∨ s.thread v = some u := by
      intro v u hu
      by_cases hv : v = kind.worker
      · subst hv
        rw [update_self] at hu
        exact .inl ⟨rfl, (Option.some.inj hu).symm⟩
      · rw [update_of_ne hv] at hu
        exact .inr hu
    refine ⟨h.ops, ?_, ?_, ?_, ?_, ?_⟩
    · intro v u hu
      obtain ⟨-, rfl⟩ | hu := key v u hu
      · exact h.ops op (.inl hcur)
      · exact h.threads v u hu
    · intro v u v' u' hu hu' he
      obtain ⟨rfl, rfl⟩ | hu := key v u hu <;> obtain ⟨rfl, rfl⟩ | hu' := key v' u' hu'
      · rfl
      · exact absurd he.symm (hthreads v' u' hu')
      · exact absurd he (hthreads v u hu)
      · exact h.apart v u v' u' hu hu' he
    · intro v u op' hu hop' he
      obtain rfl : op = op' := Option.some.inj (hcur.symm.trans hop')
      obtain ⟨rfl, rfl⟩ | hu := key v u hu
      · rw [hkind]
      · exact h.worker v u op hu hcur he
    · intro v u op' hu hne hop' he
      obtain ⟨rfl, rfl⟩ | hu := key v u hu
      · obtain hop' | hop' := hop'
        · obtain rfl : op = op' := Option.some.inj (hcur.symm.trans hop')
          exact hnew
        · exact absurd he.symm (hpast op' hop')
      · exact h.fresh v u op' hu hne hop' he
    · intro u loop hu hleaving
      obtain ⟨-, rfl⟩ | hu := key .carver u hu
      · cases hleaving
      · exact h.loop u loop hu hleaving

theorem Numbered.start (h : s.Numbered) (hnone : s.current = none) (kind : OpKind)
    (r : Option SessionRequest) : (s.start kind r).Numbered := by
  unfold OpState.start
  -- `beginSession` leaves operations and threads alone
  have hb : Alike s ((sessionOf kind r).elim s s.beginSession) := by
    cases sessionOf kind r with
    | none => exact Alike.refl s
    | some c => exact ⟨rfl, rfl, rfl, rfl⟩
  have hn := h.of_alike hb
  set s₁ := (sessionOf kind r).elim s s.beginSession
  have hcount : s₁.count = s.count := hb.count
  have hnone₁ : s₁.current = none := Option.map_eq_none_iff.mp (hb.current.trans (by rw [hnone]; rfl))
  have hpast : ∀ o ∈ s₁.past, o.number ≠ s₁.count := fun o ho => (hn.ops o (.inr ho)).ne
  have hthreads : ∀ w t, s₁.thread w = some t → t.op ≠ s₁.count := fun w t ht => (hn.threads w t ht).ne
  refine Numbered.startThread ⟨s₁.count, kind, sessionOf kind r, (sessionOf kind r).isSome, false,
    none, none⟩ ⟨?_, ?_, hn.apart, ?_, ?_, hn.loop⟩ rfl rfl rfl hthreads hpast
  · rintro op (hop | hop)
    · cases hop
      exact Nat.lt_succ_self _
    · exact (hn.ops op (.inr hop)).trans (Nat.lt_succ_self _)
  · intro w t ht
    exact (hn.threads w t ht).trans (Nat.lt_succ_self _)
  · intro w t op ht hop he
    cases hop
    exact absurd he (hthreads w t ht)
  · rintro w t op ht hne (hop | hop) he
    · cases hop
      rfl
    · exact hn.fresh w t op ht hne (.inr hop) he

theorem Numbered.leave (h : s.Numbered) : s.leave.Numbered := by
  unfold OpState.leave
  split
  · exact h
  · rename_i op hop
    have ha : Alike s (if op.sessionActive then s.uninstallAllCallbacks.cancelSession
        else s.uninstallAllCallbacks) := by
      have hu : Alike s s.uninstallAllCallbacks := ⟨rfl, rfl, rfl, rfl⟩
      split_ifs
      · exact hu.trans (alike_cancelSession _)
      · exact hu
    dsimp only
    generalize (if op.sessionActive then s.uninstallAllCallbacks.cancelSession
      else s.uninstallAllCallbacks) = s₁ at ha ⊢
    have hn := h.of_alike ha
    have hpast := ha.past
    have hhas : ∀ o, o ∈ s₁.past ++ [op] → s.Has o := by
      intro o ho
      obtain ho | ho := mem_append.mp ho
      · exact .inr (hpast ▸ ho)
      · rw [mem_singleton] at ho
        exact .inl (ho ▸ hop)
    refine ⟨?_, hn.threads, hn.apart, ?_, ?_, hn.loop⟩
    · rintro o (ho | ho)
      · cases ho
      · exact ha.count ▸ h.ops o (hhas o ho)
    · intro w t o _ ho
      cases ho
    · rintro w t o ht hne (ho | ho) he
      · cases ho
      · exact h.fresh w t o (ha.thread ▸ ht) hne (hhas o ho) he

end OpState

/-- One step. -/
theorem numbered_opStep (s : OpState) (a : OpAction) (h : s.Numbered) : (opStep s a).Numbered := by
  have hstep := opStep_spec s a
  generalize opStep s a = s' at hstep ⊢
  cases hstep with
  | idle => exact h
  | start kind r hnone => exact h.start hnone kind r
  | cancel => exact h.of_alike (OpState.alike_cancel s)
  | deliver freed => exact h.of_alike (OpState.alike_deliver s freed)
  | leave => exact h.leave
  | restoreStart busy => exact h.of_alike ⟨rfl, rfl, rfl, rfl⟩
  | uninstall => exact h.of_alike ⟨rfl, rfl, rfl, rfl⟩
  | install w => exact h.of_alike ⟨rfl, rfl, rfl, rfl⟩
  | @report w t ht hphase p₁ p₂ due =>
    have hu := h.thread_update { t with pos := p₁ } ht rfl (by rw [hphase]; nofun)
      fun loop _ hl => by rw [hphase] at hl; cases hl
    rw [OpState.report]
    dsimp only
    split_ifs
    · exact hu.of_alike (OpState.alike_sessionSaveCheckpoint _ p₁ p₂ due)
    · exact hu
  | obey ht hphase hloop =>
    refine h.thread_update _ ht rfl (by rw [hphase]; nofun) fun loop' hw hl => ?_
    cases hl
    exact hloop hw
  | @stop w loop t ht hphase count =>
    have ha := OpState.alike_saveCancelled s loop t.pos count
    exact (h.of_alike ha).emit (ha.thread ▸ ht) (by rw [hphase]; nofun) .stopped
  | finish ht hphase failed => exact h.emit ht (by rw [hphase]; nofun) _
  | @exit w t =>
    have key : ∀ v u, update s.thread w none v = some u → s.thread v = some u := by
      intro v u hu
      by_cases hv : v = w
      · rw [hv, update_self] at hu
        cases hu
      · rwa [update_of_ne hv] at hu
    refine ⟨h.ops, ?_, ?_, ?_, ?_, ?_⟩
    · exact fun v u hu => h.threads v u (key v u hu)
    · exact fun v u v' u' hu hu' => h.apart v u v' u' (key v u hu) (key v' u' hu')
    · exact fun v u op hu => h.worker v u op (key v u hu)
    · exact fun v u op hu => h.fresh v u op (key v u hu)
    · exact fun u loop hu => h.loop u loop (key .carver u hu)

/-- **Every state reached is numbered.** -/
theorem numbered_runOps (as : List OpAction) : (runOps as).Numbered :=
  runSteps_invariant numbered_opStep OpState.numbered_init as

end RecoveryQt
