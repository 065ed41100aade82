import RecoveryQt.Session.Loaded
import RecoveryQt.Window.Model

/-!
# Restore and preview read the volume that was scanned

The tree, the disk, the list and the selected index are separate. Ghosts are not in the list, so that
nothing is read for them; but decryption and the continuation of a session replace the disk and the list
and leave the index.

* `Synced`: the lists are those of the current disk, with ghosts behind;
* `ReadsScanned`: what is read is what the tree was filled from;
* `KeepsVolume`: after a decryption or a continuation the index denotes the partition in use, or nothing;
* **`readsScanned_winStep_iff`**, `readsScanned_iff`: this is so for one step, and for a run.
-/

namespace RecoveryQt

open List

variable {D : Type*} (env : DiskEnv D)

/-- The lists are those of the current disk; the partitions found by a search are behind those of the
table, and none of them is in the table. -/
def Window.Synced (s : Window D) : Prop :=
  (s.currentDisk = none → s.page = .disks) ∧
  ∀ d, s.currentDisk = some d → s.partList = detectPartitions env d ∧ ∃ ghosts : List Part,
    s.partitions = (detectPartitions env d).map (⟨·, false⟩) ++ ghosts.map (⟨·, true⟩) ∧
    ∀ g ∈ ghosts, matchesKnownPartition (detectPartitions env d) (env.info d).sectorSize g = false

/-- What restore and preview would read is what the tree was filled from. -/
def Window.ReadsScanned (s : Window D) : Prop :=
  ∀ v, s.volume env = some v → ∀ fills, s.scanTree = some fills → ∀ f ∈ fills, f = (v.1, v.2.key)

/-- The partition that an index denotes when the disk has just been opened. -/
def entryAt (d : D) (idx : ℤ) : Option Part :=
  if 0 ≤ idx then (detectPartitions env d)[idx.toNat]?
  else if idx = -2 then some (wholeDiskPartition env d) else none

/-- The index denotes nothing on the decrypted disk, or a partition like the first. -/
def KeepsDecrypted (idx : ℤ) (d : D) : Prop :=
  ∀ q, entryAt env d idx = some q → ∀ p, (detectPartitions env d)[0]? = some p → q.key = p.key

/-- The index denotes nothing on the disk of the session, or the partition that the session records and
is resumed on. -/
def KeepsSession (idx : ℤ) (h : SessionHeader) (d : D) : Prop :=
  ∀ q, entryAt env d idx = some q → ∀ p, matchingPart env h d = some p →
    q.key = h.key ∧ (h.resumes = true → q.key = p.key)

/-- The step leaves the index with the partition in use, or with nothing. -/
def KeepsVolume (s : Window D) : WinAction D → Prop
  | .scan idx unlocked => s.page = .partitions →
      ∀ p, s.choosePart env idx = some (p, true) → ∀ d, unlocked = some d → KeepsDecrypted env idx d
  | .carve idx decrypt unlocked accepted => s.page = .partitions → decrypt = true → accepted = true →
      ∀ p, s.choosePart env idx = some (p, true) → ∀ d, unlocked = some d → KeepsDecrypted env idx d
  | .continueSession h unlocked => s.page = .disks →
      ∀ d, sessionDisk env h unlocked = some d → KeepsSession env s.selectedPartIdx h d
  | _ => True

namespace Window

variable {env} {s : Window D}

theorem synced_init : (init : Window D).Synced env := ⟨fun _ => rfl, nofun⟩

theorem synced_openDisk (s : Window D) (d : D) : (s.openDisk env d).Synced env := by
  refine ⟨nofun, fun d' hd => ?_⟩
  cases hd
  exact ⟨rfl, [], (append_nil _).symm, nofun⟩

/-- A step that leaves the disk and its lists alone. -/
theorem Synced.of_eq {s' : Window D} (h : s.Synced env) (hdisk : s'.currentDisk = s.currentDisk)
    (hlist : s'.partList = s.partList) (hparts : s'.partitions = s.partitions)
    (hpage : s.currentDisk = none → s'.page = .disks) : s'.Synced env := by
  refine ⟨fun hnone => hpage (hdisk ▸ hnone), fun d hd => ?_⟩
  rw [hlist, hparts]
  exact h.2 d (hdisk ▸ hd)

/-- A step that opens a disk and then leaves it. -/
theorem Synced.of_open (s : Window D) {s' : Window D} {d : D} (hdisk : s'.currentDisk = some d)
    (hlist : s'.partList = (s.openDisk env d).partList)
    (hparts : s'.partitions = (s.openDisk env d).partitions) : s'.Synced env := by
  refine (synced_openDisk s d).of_eq hdisk hlist hparts fun hnone => ?_
  cases hnone

/-- A worker may fill the tree. -/
theorem synced_fill {s : Window D} (h : s.Synced env) (hdisk : s.currentDisk ≠ none) (o : Option Part)
    (b : Bool) : (o.elim s fun p => if b then s.fill p else s).Synced env := by
  cases o with
  | none => exact h
  | some p =>
    cases b with
    | false => exact h
    | true => exact h.of_eq rfl rfl rfl fun hnone => absurd hnone hdisk

/-- A partition can be chosen only on a disk. -/
theorem Synced.currentDisk (h : s.Synced env) (hpage : s.page ≠ .disks) :
    ∃ d, s.currentDisk = some d := by
  cases hd : s.currentDisk with
  | none => exact absurd (h.1 hd) hpage
  | some d => exact ⟨d, rfl⟩

theorem synced_runOperation (h : s.Synced env) (hpage : s.page ≠ .disks) (idx : ℤ) (decrypt : Bool)
    (unlocked : Option D) (accepted : Bool) :
    (s.runOperation env idx decrypt unlocked accepted).Synced env := by
  obtain ⟨d, hd⟩ := h.currentDisk hpage
  have hs : ({ s with selectedPartIdx := idx } : Window D).Synced env := h.of_eq rfl rfl rfl h.1
  unfold runOperation
  dsimp only
  split
  · exact hs
  · rename_i p encrypted _
    by_cases hdecrypt : (encrypted && decrypt) = true
    · rw [if_pos hdecrypt]
      cases unlocked with
      | none => exact hs
      | some d' => exact synced_fill (synced_openDisk _ d') (Option.some_ne_none d') _ accepted
    · rw [if_neg hdecrypt]
      exact synced_fill hs (by rw [hd]; exact Option.some_ne_none d) (some p) accepted

theorem synced_onRestoreRequested (h : s.Synced env) (hpage : s.page ≠ .disks) (idx : ℤ) (picked : Bool) :
    (s.onRestoreRequested idx picked).Synced env := by
  obtain ⟨d, hd⟩ := h.currentDisk hpage
  have hs : (s.selectForBackup idx).Synced env := h.of_eq rfl rfl rfl h.1
  refine synced_fill hs ?_ (s.selectForBackup idx).backupPart picked
  rw [show (s.selectForBackup idx).currentDisk = some d from hd]
  exact Option.some_ne_none d

theorem synced_onFindPartitionsRequested (h : s.Synced env) (found : List Part) :
    (s.onFindPartitionsRequested env found).Synced env := by
  unfold onFindPartitionsRequested
  split
  · exact h
  · rename_i d hd
    obtain ⟨hlist, ghosts, hparts, -⟩ := h.2 d hd
    refine ⟨fun hnone => ?_, fun d' hd' => ?_⟩
    · rw [show s.currentDisk = none from hnone] at hd
      cases hd
    · obtain rfl : d = d' := Option.some.inj (hd.symm.trans hd')
      refine ⟨hlist, found.filter fun p => !matchesKnownPartition s.partList (env.info d).sectorSize p,
        ?_, fun g hg => ?_⟩
      · dsimp only
        rw [hparts, filter_append, filter_map, filter_map]
        simp [Function.comp_def]
      · have hknown := (mem_filter.mp hg).2
        rw [hlist] at hknown
        simpa using hknown

theorem synced_onContinueSession (h : s.Synced env) (hd : SessionHeader) (unlocked : Option D) :
    (s.onContinueSession env hd unlocked).Synced env := by
  unfold onContinueSession
  split
  · exact h
  · rename_i d _
    dsimp only
    split
    · exact synced_openDisk s d
    · exact Synced.of_open s rfl rfl rfl

end Window

open Window

theorem synced_winStep (s : Window D) (a : WinAction D) (h : s.Synced env) :
    (winStep env s a).Synced env := by
  unfold winStep
  split_ifs with hpage
  · cases a with
    | diskSelected d => exact Synced.of_open s rfl rfl rfl
    | scan idx unlocked => exact synced_runOperation h (by rw [hpage]; nofun) idx true unlocked true
    | carve idx decrypt unlocked accepted =>
      exact synced_runOperation h (by rw [hpage]; nofun) idx decrypt unlocked accepted
    | findPartitions found => exact synced_onFindPartitionsRequested h found
    | backup idx => exact h.of_eq rfl rfl rfl h.1
    | restoreBackup idx picked => exact synced_onRestoreRequested h (by rw [hpage]; nofun) idx picked
    | back => exact h.of_eq rfl rfl rfl fun _ => rfl
    | continueSession hd unlocked => exact synced_onContinueSession h hd unlocked
    | quitBrowser => exact h.of_eq rfl rfl rfl fun _ => rfl
  · exact h

/-! ## What is read -/

namespace Window

variable {env} {s : Window D}

/-- After a worker has filled the tree. -/
theorem readsScanned_fill {d : D} (hd : s.currentDisk = some d) (p : Part) :
    (s.fill p).ReadsScanned env ↔ ∀ q, s.selectedPart env = some q → q.key = p.key := by
  have hvolume : (s.fill p).volume env = (s.selectedPart env).map fun q => (d, q) := by
    rw [volume, if_pos ⟨rfl, rfl⟩, show (s.fill p).currentDisk = some d from hd, Option.bind_some]
    rfl
  have htree : (s.fill p).scanTree = some [(d, p.key)] := by
    rw [fill, hd]
    rfl
  rw [ReadsScanned, hvolume, htree]
  constructor
  · intro h q hq
    have := h (d, q) (by rw [hq, Option.map_some]) _ rfl _ mem_cons_self
    exact (congrArg Prod.snd this).symm
  · intro h v hv fills hfills f hf
    obtain ⟨q, hq, rfl⟩ := Option.map_eq_some_iff.mp hv
    cases hfills
    rw [mem_singleton.mp hf, h q hq]

theorem readsScanned_of_page (hpage : s.page ≠ .browser) : s.ReadsScanned env := by
  intro v hv
  rw [volume, if_neg fun h => hpage h.1] at hv
  cases hv

/-- What an index denotes when the disk has just been opened. -/
theorem selectedPart_openDisk (s : Window D) (d : D) :
    (s.openDisk env d).selectedPart env = entryAt env d s.selectedPartIdx := by
  unfold selectedPart entryAt rawAt openDisk
  dsimp only
  rw [length_map]
  by_cases hidx : 0 ≤ s.selectedPartIdx
  · rw [if_pos hidx]
    by_cases hlt : s.selectedPartIdx < (detectPartitions env d).length
    · rw [if_pos ⟨hidx, hlt⟩, if_pos hidx]
    · rw [if_neg fun h => hlt h.2, if_neg (by omega), if_pos hidx, getElem?_eq_none (by omega)]
  · rw [if_neg fun h => hidx h.1, if_neg hidx, Option.map_some]

/-- Among the partitions of a table and the ghosts behind them. -/
theorem Synced.infoAt (h : s.Synced env) {d : D} (hd : s.currentDisk = some d) {idx : ℤ}
    {i : PartitionInfo} (hi : s.infoAt idx = some i) :
    (i.isGhost = false ∧ s.rawAt idx = some i.toPart) ∨ (i.isGhost = true ∧ s.rawAt idx = none) := by
  obtain ⟨hlist, ghosts, hparts, -⟩ := h.2 d hd
  unfold Window.infoAt at hi
  split_ifs at hi with hidx
  rw [Window.rawAt, if_pos hidx, hlist]
  rw [hparts, getElem?_append, length_map] at hi
  split_ifs at hi with hlt
  · rw [getElem?_map] at hi
    obtain ⟨p, hp, rfl⟩ := Option.map_eq_some_iff.mp hi
    exact .inl ⟨rfl, hp⟩
  · rw [getElem?_map] at hi
    obtain ⟨p, -, rfl⟩ := Option.map_eq_some_iff.mp hi
    exact .inr ⟨rfl, getElem?_eq_none (Nat.not_lt.mp hlt)⟩

/-- The selected partition, where the index is in range. -/
theorem selectedPart_of_infoAt {i : PartitionInfo} (hi : s.infoAt s.selectedPartIdx = some i) :
    s.selectedPart env = s.rawAt s.selectedPartIdx := by
  unfold Window.infoAt at hi
  split_ifs at hi with hidx
  have hlt := (List.getElem?_eq_some_iff.mp hi).1
  rw [selectedPart, if_pos ⟨hidx, by omega⟩]

/-- **A partition that is chosen and not decrypted is the one that restore and preview find, or they
find none.** -/
theorem Synced.choosePart (h : s.Synced env) {d : D} (hd : s.currentDisk = some d) {p : Part} {b : Bool}
    (hp : s.choosePart env s.selectedPartIdx = some (p, b)) :
    ∀ q, s.selectedPart env = some q → q = p := by
  intro q hq
  unfold Window.choosePart at hp
  split_ifs at hp with hwhole
  · rw [hd, Option.map_some] at hp
    cases hp
    rw [selectedPart, hwhole, if_neg (by omega), if_pos rfl, hd] at hq
    exact (Option.some.inj hq).symm
  · obtain ⟨i, hi, hp⟩ := Option.bind_eq_some_iff.mp hp
    obtain ⟨p', hp', hpair⟩ := Option.map_eq_some_iff.mp hp
    cases hpair
    rw [selectedPart_of_infoAt hi] at hq
    obtain ⟨hghost, hraw⟩ | ⟨hghost, hraw⟩ := h.infoAt hd hi
    · rw [hghost, if_neg Bool.false_ne_true, hq] at hp'
      exact Option.some.inj hp'
    · rw [hraw] at hq
      cases hq

/-- The same for a partition whose backup is compared. -/
theorem eq_of_backupPart {p : Part} (hp : s.backupPart = some p) :
    ∀ q, s.selectedPart env = some q → q = p := by
  intro q hq
  obtain ⟨i, hi, hp⟩ := Option.bind_eq_some_iff.mp hp
  rw [selectedPart_of_infoAt hi] at hq
  rw [hq, Option.some_or] at hp
  exact Option.some.inj hp

/-- **A worker is started.** What restore and preview read is right unless the volume was decrypted and
the index denotes another partition there. -/
theorem readsScanned_runOperation (h : s.Synced env) (hpage : s.page = .partitions) (idx : ℤ)
    (decrypt : Bool) (unlocked : Option D) (accepted : Bool) :
    (s.runOperation env idx decrypt unlocked accepted).ReadsScanned env ↔
      (decrypt = true → accepted = true → ∀ p, s.choosePart env idx = some (p, true) →
        ∀ d, unlocked = some d → KeepsDecrypted env idx d) := by
  obtain ⟨d, hd⟩ := h.currentDisk (by rw [hpage]; exact Page.noConfusion)
  have hs : ({ s with selectedPartIdx := idx } : Window D).Synced env := h.of_eq rfl rfl rfl h.1
  have hne : ∀ t : Window D, t.page = .partitions → t.ReadsScanned env := fun t ht =>
    readsScanned_of_page (by rw [ht]; exact Page.noConfusion)
  have hchoose : ({ s with selectedPartIdx := idx } : Window D).choosePart env idx =
      s.choosePart env idx := rfl
  unfold runOperation
  dsimp only
  rw [hchoose]
  cases hp : s.choosePart env idx with
  | none => exact iff_of_true (hne _ hpage) fun _ _ p hp' => by cases hp'
  | some r =>
    obtain ⟨p, encrypted⟩ := r
    dsimp only
    cases accepted with
    | false =>
      refine iff_of_true (hne _ ?_) fun _ h => by cases h
      by_cases hdecrypt : (encrypted && decrypt) = true
      · rw [if_pos hdecrypt]
        cases unlocked with
        | none => exact hpage
        | some d' =>
          rw [decryptLUKSAndRedetect]
          cases rawAt (openDisk env { s with selectedPartIdx := idx } d') 0 <;> exact hpage
      · rw [if_neg hdecrypt]
        exact hpage
    | true =>
      by_cases hdecrypt : (encrypted && decrypt) = true
      · rw [if_pos hdecrypt]
        obtain ⟨rfl, rfl⟩ := Bool.and_eq_true_iff.mp hdecrypt
        cases unlocked with
        | none => exact iff_of_true (hne _ hpage) fun _ _ _ _ d' hd' => by cases hd'
        | some d' =>
          have hraw : (openDisk env { s with selectedPartIdx := idx } d').rawAt 0 =
              (detectPartitions env d')[0]? := rfl
          rw [decryptLUKSAndRedetect]
          dsimp only
          rw [hraw]
          have hkeep : (∀ p₁, some (p, true) = some (p₁, true) → ∀ d₁, some d' = some d₁ →
              KeepsDecrypted env idx d₁) ↔ KeepsDecrypted env idx d' := by
            refine ⟨fun h => h p rfl d' rfl, fun h _ _ d₁ hd₁ => ?_⟩
            cases hd₁
            exact h
          rw [show (true = true → true = true → ∀ p₁, some (p, true) = some (p₁, true) →
              ∀ d₁, some d' = some d₁ → KeepsDecrypted env idx d₁) ↔ KeepsDecrypted env idx d' from
              ⟨fun h => hkeep.mp (h rfl rfl), fun h _ _ => hkeep.mpr h⟩]
          cases hfirst : (detectPartitions env d')[0]? with
          | none =>
            refine iff_of_true (hne _ hpage) fun q _ p₀ hp₀ => ?_
            rw [hfirst] at hp₀
            cases hp₀
          | some p₀ =>
            refine (readsScanned_fill (s := openDisk env { s with selectedPartIdx := idx } d') rfl p₀).trans ?_
            rw [selectedPart_openDisk]
            refine ⟨fun h q hq p₁ hp₁ => ?_, fun h q hq => h q hq p₀ hfirst⟩
            obtain rfl : p₀ = p₁ := Option.some.inj (hfirst.symm.trans hp₁)
            exact h q hq
      · rw [if_neg hdecrypt]
        refine iff_of_true ?_ fun hd' _ p₁ hp₁ => ?_
        · refine (readsScanned_fill (s := { s with selectedPartIdx := idx }) hd p).mpr fun q hq => ?_
          rw [hs.choosePart hd (hchoose.trans hp) q hq]
        · cases hp₁
          exact absurd (by rw [hd']; rfl) hdecrypt

theorem readsScanned_onRestoreRequested (h : s.Synced env) (hpage : s.page = .partitions) (idx : ℤ)
    (picked : Bool) : (s.onRestoreRequested idx picked).ReadsScanned env := by
  obtain ⟨d, hd⟩ := h.currentDisk (by rw [hpage]; exact Page.noConfusion)
  have hne : (s.selectForBackup idx).ReadsScanned env :=
    readsScanned_of_page (by rw [show (s.selectForBackup idx).page = _ from hpage]; exact Page.noConfusion)
  unfold onRestoreRequested
  dsimp only
  cases hp : (s.selectForBackup idx).backupPart with
  | none => exact hne
  | some p =>
    cases picked with
    | false => exact hne
    | true =>
      refine (readsScanned_fill (s := s.selectForBackup idx) hd p).mpr fun q hq => ?_
      rw [eq_of_backupPart hp q hq]

/-- **A session is continued.** -/
theorem readsScanned_onContinueSession (hpage : s.page = .disks) (h : SessionHeader)
    (unlocked : Option D) : (s.onContinueSession env h unlocked).ReadsScanned env ↔
      ∀ d, sessionDisk env h unlocked = some d → KeepsSession env s.selectedPartIdx h d := by
  have hne : ∀ t : Window D, t.page = .disks → t.ReadsScanned env := fun t ht =>
    readsScanned_of_page (by rw [ht]; exact Page.noConfusion)
  unfold onContinueSession
  cases sessionDisk env h unlocked with
  | none => exact iff_of_true (hne _ hpage) nofun
  | some d =>
    dsimp only
    rw [show (∀ d', some d = some d' → KeepsSession env s.selectedPartIdx h d') ↔
      KeepsSession env s.selectedPartIdx h d from ⟨fun hk => hk d rfl, fun hk d' hd' => by cases hd'; exact hk⟩]
    cases hp : matchingPart env h d with
    | none =>
      refine iff_of_true (hne _ hpage) fun q _ p hp' => ?_
      rw [hp] at hp'
      cases hp'
    | some p =>
      have hvolume : ∀ tree, ({ s.openDisk env d with page := .browser, scanTree := some tree } :
          Window D).volume env = (entryAt env d s.selectedPartIdx).map fun q => (d, q) := by
        intro tree
        rw [← selectedPart_openDisk]
        rfl
      constructor
      · intro hr q hq p' hp'
        obtain rfl : p = p' := Option.some.inj (hp.symm.trans hp')
        have hall := hr (d, q) (by rw [hvolume, hq, Option.map_some]) _ rfl
        refine ⟨(congrArg Prod.snd (hall _ mem_cons_self)).symm, fun hresumes => ?_⟩
        rw [hresumes, if_pos rfl] at hall
        exact (congrArg Prod.snd (hall _ (mem_cons_of_mem _ mem_cons_self))).symm
      · intro hk v hv fills hfills f hf
        rw [hvolume] at hv
        obtain ⟨q, hq, rfl⟩ := Option.map_eq_some_iff.mp hv
        obtain ⟨hkey, hresumed⟩ := hk q hq p hp
        cases hfills
        obtain rfl | hf := mem_cons.mp hf
        · rw [hkey]
        · split_ifs at hf with hresumes
          · rw [mem_singleton.mp hf, hresumed hresumes]
          · cases hf

end Window

/-- **One step.** -/
theorem readsScanned_winStep_iff (s : Window D) (a : WinAction D) (h : s.Synced env)
    (hr : s.ReadsScanned env) : (winStep env s a).ReadsScanned env ↔ KeepsVolume env s a := by
  have hother : ∀ t : Window D, t.page ≠ .browser → (t.ReadsScanned env ↔ True) := fun t ht =>
    iff_of_true (readsScanned_of_page ht) trivial
  unfold winStep
  split_ifs with hpage
  · cases a with
    | diskSelected d => exact hother _ Page.noConfusion
    | scan idx unlocked =>
      refine (readsScanned_runOperation h hpage idx true unlocked true).trans ?_
      exact ⟨fun hk _ => hk rfl rfl, fun hk _ _ => hk hpage⟩
    | carve idx decrypt unlocked accepted =>
      refine (readsScanned_runOperation h hpage idx decrypt unlocked accepted).trans ?_
      exact ⟨fun hk _ => hk, fun hk => hk hpage⟩
    | findPartitions found =>
      refine hother _ ?_
      have hsame : (s.onFindPartitionsRequested env found).page = s.page := by
        unfold Window.onFindPartitionsRequested
        split <;> rfl
      rw [show (s.handle env (.findPartitions found)).page = s.page from hsame, hpage]
      exact Page.noConfusion
    | backup idx =>
      refine hother _ ?_
      rw [show (s.handle env (.backup idx)).page = s.page from rfl, hpage]
      exact Page.noConfusion
    | restoreBackup idx picked =>
      exact iff_of_true (readsScanned_onRestoreRequested h hpage idx picked) trivial
    | back => exact hother _ Page.noConfusion
    | continueSession hd unlocked =>
      refine (readsScanned_onContinueSession hpage hd unlocked).trans ?_
      exact ⟨fun hk _ => hk, fun hk => hk hpage⟩
    | quitBrowser => exact hother _ Page.noConfusion
  · refine iff_of_true hr ?_
    cases a with
    | scan idx unlocked => exact fun hp => absurd hp hpage
    | carve idx decrypt unlocked accepted => exact fun hp => absurd hp hpage
    | continueSession hd unlocked => exact fun hp => absurd hp hpage
    | diskSelected d => trivial
    | findPartitions found => trivial
    | backup idx => trivial
    | restoreBackup idx picked => trivial
    | back => trivial
    | quitBrowser => trivial

/-- Restore and preview read the volume that was scanned in every state of a run exactly if each
decryption and each continuation leaves the index with the partition in use, or with nothing. -/
theorem readsScanned_iff (as : List (WinAction D)) :
    (∀ bs, bs <+: as → (runSteps (winStep env) .init bs).ReadsScanned env) ↔
      Meets (winStep env) (KeepsVolume env) .init as :=
  forall_runSteps_iff_meets (synced_winStep env) (readsScanned_winStep_iff env) Window.synced_init
    (readsScanned_of_page Page.noConfusion) as

/-! ## A scan, and then a session of another partition -/

/-- A disk with two partitions of the same type. -/
def twoParts : DiskEnv Unit where
  info := fun _ => smallDisk none
  readPart := fun _ => [⟨⟨1048576, 1048576, 0, 0⟩, []⟩, ⟨⟨2097152, 1048576, 0, 0⟩, []⟩]
  fsType := fun _ => (0, [])
  checkLuks := fun _ _ => false
  openDevice := fun _ => some ()

/-- The header of a carve of the first partition, as it is loaded. -/
def firstPartHeader : SessionHeader :=
  SessionArgs.loaded ⟨0, sessionOpCarve, 0, 0, 0, 0, 0, 512, 8388608, 1048576, 1048576, 0, 0,
    (smallDisk none).device, (smallDisk none).model, jpegFilter⟩

/-- The second partition is scanned, and then a session of the first is continued: the index still
denotes the second. -/
theorem continued_not_readsScanned : ¬ (runSteps (winStep twoParts) .init
    [.diskSelected (), .scan 1 none, .quitBrowser, .continueSession firstPartHeader none]).ReadsScanned
      twoParts := by
  intro h
  have hkey := h ((), ⟨⟨2097152, 1048576, 0, 0⟩, []⟩) rfl _ rfl _ mem_cons_self
  exact absurd (congrArg (fun v => v.2.partOffset) hkey) (by decide)

end RecoveryQt
