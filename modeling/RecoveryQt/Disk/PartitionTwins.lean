import RecoveryQt.Disk.PartitionLinks

/-!
# Partitions that are inserted twice

* `PartCall`, `PartSession`: insertions and sorts, one after the other, from the empty list;
* `Covered`, `TwinFree`: numbered items in a list; `covered_insertNew`, `twinFree_insertNew_iff`,
  `covered_insertAll_iff`;
* `Held`: what holds in any case, the order and the links among it; `step_insert`, `step_sort`;
* `WellKept`: each partition or an earlier twin of it is in the list, and no twins are;
* **`wellKept_iff`**: the calls after which this is so;
* `hiddenTwin_not_wellKept`: a twin that stands behind another partition.
-/

namespace RecoveryQt

open List

/-! ## Numbered items -/

section Numbers

variable {κ : Type*} [LinearOrder κ] {key : ℕ → κ} {rep : ℕ → ℕ → Prop} {n : ℕ} {ps ps' : List ℕ}

/-- Each item is in the list, or repeats an earlier one that is. -/
def Covered (rep : ℕ → ℕ → Prop) (n : ℕ) (ps : List ℕ) : Prop := ∀ k < n, k ∈ ps ∨ ∃ j ∈ ps, j < k ∧ rep k j

/-- No item of the list repeats an earlier one. -/
def TwinFree (rep : ℕ → ℕ → Prop) (ps : List ℕ) : Prop := ∀ j ∈ ps, ∀ k ∈ ps, j < k → ¬ rep k j

theorem Covered.perm (hp : ps' ~ ps) (h : Covered rep n ps) : Covered rep n ps' := by
  intro k hk
  simpa only [hp.mem_iff] using h k hk

theorem TwinFree.perm (hp : ps' ~ ps) (h : TwinFree rep ps) : TwinFree rep ps' := fun j hj k hk =>
  h j (hp.mem_iff.mp hj) k (hp.mem_iff.mp hk)

theorem Covered.congr {rep' : ℕ → ℕ → Prop} (hbelow : ∀ k ∈ ps, k < n)
    (heq : ∀ k < n, ∀ j < n, rep' k j ↔ rep k j) : Covered rep' n ps ↔ Covered rep n ps := by
  refine forall₂_congr fun k hk => or_congr_right (exists_congr fun j => and_congr_right fun hj => ?_)
  rw [heq k hk j (hbelow j hj)]

theorem TwinFree.congr {rep' : ℕ → ℕ → Prop} (hbelow : ∀ k ∈ ps, k < n)
    (heq : ∀ k < n, ∀ j < n, rep' k j ↔ rep k j) : TwinFree rep' ps ↔ TwinFree rep ps := by
  refine forall₂_congr fun j hj => forall₂_congr fun k hk => ?_
  rw [heq k (hbelow k hk) j (hbelow j hj)]

variable [DecidableRel rep]

/-- The next item is in the list, or repeats one that is. -/
theorem covered_insertNew (h : Covered rep n ps) (hbelow : ∀ k ∈ ps, k < n) :
    Covered rep (n + 1) (insertNew key rep n ps) := by
  by_cases hr : Repeated key rep n ps
  · rw [insertNew_of_repeated hr]
    intro k hk
    rcases Nat.lt_succ_iff_lt_or_eq.mp hk with hk | rfl
    · exact h k hk
    · obtain ⟨j, hj, hkj⟩ := hr
      have hjps : j ∈ ps := (dropWhile_sublist _).subset (mem_of_mem_head? hj)
      exact Or.inr ⟨j, hjps, hbelow j hjps, hkj⟩
  · have hperm : insertNew key rep n ps ~ n :: ps := insertNew_perm hr
    intro k hk
    simp only [hperm.mem_iff, mem_cons]
    rcases Nat.lt_succ_iff_lt_or_eq.mp hk with hk | rfl
    · rcases h k hk with hmem | ⟨j, hj, hkj⟩
      · exact Or.inl (Or.inr hmem)
      · exact Or.inr ⟨j, Or.inr hj, hkj⟩
    · exact Or.inl (Or.inl rfl)

/-- The list stays free of twins unless the next item has one that does not keep it out. -/
theorem twinFree_insertNew_iff (h : TwinFree rep ps) (hbelow : ∀ k ∈ ps, k < n) :
    TwinFree rep (insertNew key rep n ps) ↔ ((∃ j ∈ ps, rep n j) → Repeated key rep n ps) := by
  by_cases hr : Repeated key rep n ps
  · rw [insertNew_of_repeated hr]
    exact iff_of_true h fun _ => hr
  · have hperm : insertNew key rep n ps ~ n :: ps := insertNew_perm hr
    constructor
    · rintro hfree ⟨j, hj, hnj⟩
      refine absurd hnj (hfree j ?_ n ?_ (hbelow j hj)) <;> simp [hperm.mem_iff, hj]
    · intro hnone j hj k hk hjk
      rw [hperm.mem_iff, mem_cons] at hj hk
      rcases hk with rfl | hk
      · rcases hj with rfl | hj
        · exact absurd hjk (lt_irrefl _)
        · exact fun hkj => hr (hnone ⟨j, hj, hkj⟩)
      · rcases hj with rfl | hj
        · exact absurd (hbelow k hk) hjk.not_gt
        · exact h j hj k hk hjk

/-- A sort that loses an item loses one that nothing in the list stands for. -/
theorem covered_insertAll_iff (h : Covered rep n ps) (hfree : TwinFree rep ps) (hd : ps.Nodup)
    (hbelow : ∀ k ∈ ps, k < n) : Covered rep n (insertAll key rep ps) ↔ insertAll key rep ps ~ ps := by
  refine ⟨fun hcov => ?_, fun hperm => h.perm hperm⟩
  have hsub : insertAll key rep ps <+~ ps := insertAll_subperm ps
  have hall : ps ⊆ insertAll key rep ps := by
    intro k hk
    rcases hcov k (hbelow k hk) with hmem | ⟨j, hj, hjk, hkj⟩
    · exact hmem
    · exact absurd hkj (hfree j (hsub.subset hj) k hk hjk)
  exact hsub.antisymm (subperm_of_subset hd hall)

end Numbers

/-! ## Sequences of calls -/

/-- A call of `insert_new_partition`, with a partition of its own, or of `sort_partition_list`. -/
inductive PartCall where
  | insert (part : PartitionStruct)
  | sort

/-- The memory, the list, and the number of partitions that were inserted so far. -/
structure PartSession where
  heap : PartHeap
  list : Option ℕ
  calls : ℕ

namespace PartSession

/-- No list yet. -/
def start : PartSession := ⟨⟨fun _ => none, 0, fun _ => partitionNew⟩, none, 0⟩

/-- The memory with one more partition. -/
def bring (s : PartSession) (part : PartitionStruct) : PartHeap :=
  { s.heap with part := Function.update s.heap.part s.calls part }

/-- One call. -/
def step (s : PartSession) : PartCall → Option PartSession
  | .insert part => do
    let inserted ← (s.bring part).insertNewPartition s.list s.calls false
    some ⟨inserted.1.1, inserted.1.2, s.calls + 1⟩
  | .sort => do
    let sorted ← s.heap.sortPartitionList s.list
    some ⟨sorted.1, sorted.2, s.calls⟩

/-- All calls. -/
def run (calls : List PartCall) : Option PartSession := calls.foldlM step start

end PartSession

/-- The pointers of the list at an element, followed by `next`. -/
def PartHeap.walk (h : PartHeap) : ℕ → Option ℕ → List ℕ
  | 0, _ => []
  | _ + 1, none => []
  | rounds + 1, some a => (h.element a).elim [] fun element => element.item :: h.walk rounds element.next

theorem PartHeap.walk_eq {h : PartHeap} {as : List (ℕ × ℕ)} {p : Option ℕ} (hl : Segment h.element p as none)
    {rounds : ℕ} (hr : as.length < rounds) : h.walk rounds (firstAddr as none) = as.map Prod.snd := by
  induction as generalizing p rounds with
  | nil =>
    obtain ⟨rounds, rfl⟩ := Nat.exists_eq_succ_of_ne_zero (Nat.ne_zero_of_lt hr)
    rfl
  | cons a as ih =>
    obtain ⟨rounds, rfl⟩ := Nat.exists_eq_succ_of_ne_zero (Nat.ne_zero_of_lt hr)
    rw [firstAddr, walk, hl.1, Option.elim_some, ih hl.2 (by simpa using hr), map_cons]

namespace PartSession

/-- The pointers in the list. -/
def pointers (s : PartSession) : List ℕ := s.heap.walk (s.heap.fresh + 1) s.list

/-- The partitions in the list. -/
def partitions (s : PartSession) : List PartitionStruct := s.pointers.map s.heap.part

theorem pointers_eq {s : PartSession} {as : List (ℕ × ℕ)} (hl : s.heap.Lists s.list as) :
    s.pointers = as.map Prod.snd := by
  rw [pointers, hl.head, PartHeap.walk_eq hl.linked (Nat.lt_succ_of_le hl.length_le)]

end PartSession

/-- The partition of call `k` is a twin of that of call `j`. -/
def Twin (parts : List PartitionStruct) (k j : ℕ) : Prop :=
  ∃ p q, parts[k]? = some p ∧ parts[j]? = some q ∧ p.repeats q = true

/-- What holds after any calls that have brought these partitions: the list is linked in both directions and sorted,
and holds some of them, with the status changed at most. -/
structure Held (parts : List PartitionStruct) (s : PartSession) : Prop where
  links : ∃ as, s.heap.Lists s.list as ∧ as.map Prod.snd = s.pointers
  calls : s.calls = parts.length
  below : ∀ k ∈ s.pointers, k < parts.length
  nodup : s.pointers.Nodup
  same : ∀ k p, parts[k]? = some p → s.heap.part k = { p with status := (s.heap.part k).status }
  sorted : KeySorted s.heap.key s.pointers

/-- Each partition that was inserted or a twin inserted before it is in the list, and no two twins are. -/
structure WellKept (parts : List PartitionStruct) (s : PartSession) : Prop extends Held parts s where
  kept : Covered (Twin parts) parts.length s.pointers
  noTwins : TwinFree (Twin parts) s.pointers

variable {parts : List PartitionStruct} {s : PartSession}

theorem Held.rep_iff (h : Held parts s) {k j : ℕ} (hk : k < parts.length) (hj : j < parts.length) :
    s.heap.rep k j ↔ Twin parts k j := by
  have hpk : parts[k]? = some parts[k] := getElem?_eq_getElem hk
  have hpj : parts[j]? = some parts[j] := getElem?_eq_getElem hj
  rw [PartHeap.rep, h.same k _ hpk, h.same j _ hpj]
  constructor
  · exact fun hr => ⟨_, _, hpk, hpj, hr⟩
  · rintro ⟨p, q, hp, hq, hr⟩
    obtain rfl := Option.some.inj (hpk.symm.trans hp)
    obtain rfl := Option.some.inj (hpj.symm.trans hq)
    exact hr

theorem wellKept_iff_rep (h : Held parts s) :
    WellKept parts s ↔ Covered s.heap.rep parts.length s.pointers ∧ TwinFree s.heap.rep s.pointers := by
  rw [Covered.congr h.below fun k hk j hj => h.rep_iff hk hj, TwinFree.congr h.below fun k hk j hj => h.rep_iff hk hj]
  exact ⟨fun hw => ⟨hw.kept, hw.noTwins⟩, fun hw => ⟨h, hw.1, hw.2⟩⟩

theorem held_start : Held [] PartSession.start where
  links := ⟨[], ⟨rfl, trivial, Pairwise.nil, nofun⟩, rfl⟩
  calls := rfl
  below := nofun
  nodup := Pairwise.nil
  same := nofun
  sorted := Pairwise.nil

theorem bring_part_of_lt (h : Held parts s) (p : PartitionStruct) {k : ℕ} (hk : k < parts.length) :
    (s.bring p).part k = s.heap.part k := Function.update_of_ne (h.calls ▸ hk.ne) _ _

theorem bring_part_calls (s : PartSession) (p : PartitionStruct) : (s.bring p).part s.calls = p :=
  Function.update_self _ _ _

/-- **An insertion** keeps the order and the links. -/
theorem step_insert (h : Held parts s) (p : PartitionStruct) :
    ∃ s', s.step (.insert p) = some s' ∧ Held (parts ++ [p]) s' ∧ s'.heap.rep = (s.bring p).rep ∧
      s'.pointers = insertNew (s.bring p).key (s.bring p).rep s.calls s.pointers := by
  obtain ⟨as, hl, hitems⟩ := h.links
  have hbring : (s.bring p).Lists s.list as := ⟨hl.head, hl.linked, hl.nodup, hl.old⟩
  obtain ⟨h', list', as', err, heq, hins⟩ := PartHeap.insertNewPartition_lists hbring s.calls
  have hptrs := PartSession.pointers_eq (s := ⟨h', list', s.calls + 1⟩) hins.lists
  have hnew : (PartSession.mk h' list' (s.calls + 1)).pointers =
      insertNew (s.bring p).key (s.bring p).rep s.calls s.pointers := by
    rw [hptrs, hins.items, hitems]
  have hmem : ∀ k ∈ (PartSession.mk h' list' (s.calls + 1)).pointers, k = s.calls ∨ k ∈ s.pointers := fun k hk =>
    mem_cons.mp (insertNew_subperm.subset (hnew ▸ hk))
  refine ⟨_, by simp only [PartSession.step, heq, Option.bind_eq_bind, Option.bind_some],
    { links := ⟨as', hins.lists, hptrs.symm⟩, calls := ?_, below := ?_, nodup := ?_, same := ?_, sorted := ?_ },
    PartHeap.rep_congr hins.status.symm, hnew⟩
  · rw [h.calls, length_append, length_singleton]
  · intro k hk
    rw [length_append, length_singleton]
    rcases hmem k hk with rfl | hk
    · exact h.calls ▸ Nat.lt_succ_self _
    · exact (h.below k hk).trans (Nat.lt_succ_self _)
  · have hfresh : s.calls ∉ s.pointers := fun hin => (h.below _ hin).ne h.calls
    rw [hnew]
    by_cases hr : Repeated (s.bring p).key (s.bring p).rep s.calls s.pointers
    · rw [insertNew_of_repeated hr]
      exact h.nodup
    · exact (insertNew_perm hr).nodup_iff.mpr (nodup_cons.mpr ⟨hfresh, h.nodup⟩)
  · intro k q hq
    have hstatus := hins.status k
    have hkeep : (s.bring p).part k = { q with status := ((s.bring p).part k).status } := by
      rcases lt_or_ge k parts.length with hk | hk
      · rw [bring_part_of_lt h p hk]
        exact h.same k q (by rwa [getElem?_append_left hk] at hq)
      · rw [getElem?_append_right hk, getElem?_singleton] at hq
        split_ifs at hq with hzero
        obtain rfl := Option.some.inj hq
        have hk : k = s.calls := by
          rw [h.calls]
          omega
        rw [hk, bring_part_calls]
    rw [hkeep] at hstatus
    exact hstatus.symm
  · rw [PartHeap.key_congr hins.status.symm, hnew]
    refine sorted_insertNew (h.sorted.imp_of_mem fun {a b} ha hb hab => ?_)
    rwa [PartHeap.key, PartHeap.key, bring_part_of_lt h p (h.below a ha), bring_part_of_lt h p (h.below b hb)]

/-- **A sort** keeps the order and the links. -/
theorem step_sort (h : Held parts s) :
    ∃ s', s.step .sort = some s' ∧ Held parts s' ∧ s'.heap.rep = s.heap.rep ∧
      s'.pointers = insertAll s.heap.key s.heap.rep s.pointers := by
  obtain ⟨as, hl, hitems⟩ := h.links
  obtain ⟨h', list', as', heq, hl', hsorted, hstatus⟩ := PartHeap.sortPartitionList_lists hl
  have hptrs := PartSession.pointers_eq (s := ⟨h', list', s.calls⟩) hl'
  have hnew : (PartSession.mk h' list' s.calls).pointers = insertAll s.heap.key s.heap.rep s.pointers := by
    rw [hptrs, hsorted, hitems]
  have hsub : (PartSession.mk h' list' s.calls).pointers <+~ s.pointers := hnew ▸ insertAll_subperm _
  refine ⟨_, by simp only [PartSession.step, heq, Option.bind_eq_bind, Option.bind_some],
    { links := ⟨as', hl', hptrs.symm⟩, calls := h.calls, below := fun k hk => h.below k (hsub.subset hk),
      nodup := ?_, same := ?_, sorted := ?_ }, PartHeap.rep_congr hstatus.symm, hnew⟩
  · obtain ⟨l, hperm, hsublist⟩ := hsub
    exact hperm.nodup_iff.mp (hsublist.nodup h.nodup)
  · intro k q hq
    have hk := hstatus k
    rw [h.same k q hq] at hk
    exact hk.symm
  · rw [PartHeap.key_congr hstatus.symm, hnew]
    exact sorted_insertAll _

/-- A call that hides no twin and loses no partition: the first partition with the start and the size of a new one is a
twin of it if any is, and no partition of a list that is sorted is a twin of the one in front of it. -/
def Settles (list : List PartitionStruct) : PartCall → Prop
  | .insert p => (∃ q ∈ list, p.repeats q = true) →
      ∃ q ∈ list.find? fun q => q.partOffset = p.partOffset ∧ q.partSize = p.partSize, p.repeats q = true
  | .sort => list.IsChain fun q p => ¬ p.repeats q = true

theorem settles_insert_iff (h : Held parts s) (p : PartitionStruct) : Settles s.partitions (.insert p) ↔
    ((∃ j ∈ s.pointers, (s.bring p).rep s.calls j) → Repeated (s.bring p).key (s.bring p).rep s.calls s.pointers) := by
  have hpart : ∀ j ∈ s.pointers, (s.bring p).part j = s.heap.part j := fun j hj => bring_part_of_lt h p (h.below j hj)
  have hrep : ∀ j ∈ s.pointers, (s.bring p).rep s.calls j ↔ p.repeats (s.heap.part j) = true := by
    intro j hj
    rw [PartHeap.rep, bring_part_calls, hpart j hj]
  have hkey : ∀ j ∈ s.pointers, decide ((s.bring p).key j = (s.bring p).key s.calls) =
      decide ((s.heap.part j).partOffset = p.partOffset ∧ (s.heap.part j).partSize = p.partSize) := by
    intro j hj
    rw [decide_eq_decide, PartHeap.key, PartHeap.key, bring_part_calls, hpart j hj, toLex_inj, Prod.mk.injEq,
      UInt64.toNat_inj, UInt64.toNat_inj]
  have hsorted : KeySorted (s.bring p).key s.pointers := h.sorted.imp_of_mem fun {a b} ha hb hab => by
    rwa [PartHeap.key, PartHeap.key, hpart a ha, hpart b hb]
  rw [Settles, repeated_iff hsorted PartHeap.key_eq_of_rep]
  have hfirst : s.partitions.find? (fun q => q.partOffset = p.partOffset ∧ q.partSize = p.partSize) =
      (s.pointers.find? fun j => (s.bring p).key j = (s.bring p).key s.calls).map s.heap.part := by
    rw [PartSession.partitions, find?_map, ← head?_filter, ← head?_filter]
    exact congrArg (fun l => Option.map s.heap.part (head? l)) (filter_congr fun j hj => (hkey j hj).symm)
  refine imp_congr ?_ ?_
  · simp only [PartSession.partitions, mem_map, exists_exists_and_eq_and]
    exact exists_congr fun j => and_congr_right fun hj => (hrep j hj).symm
  · rw [hfirst]
    simp only [Option.mem_def, Option.map_eq_some_iff, exists_exists_and_eq_and]
    exact exists_congr fun j => and_congr_right fun hj => (hrep j (mem_of_find?_eq_some hj)).symm

theorem settles_sort_iff : Settles s.partitions .sort ↔ s.pointers.IsChain fun j k => ¬ s.heap.rep k j :=
  isChain_map _

/-- The partitions that calls bring. -/
def inserted (calls : List PartCall) : List PartitionStruct :=
  calls.flatMap fun
    | .insert p => [p]
    | .sort => []

/-- **One call**, from a list that is well kept. -/
theorem wellKept_step_iff (h : WellKept parts s) (call : PartCall) :
    ∃ s', s.step call = some s' ∧ Held (parts ++ inserted [call]) s' ∧
      (WellKept (parts ++ inserted [call]) s' ↔ Settles s.partitions call) := by
  obtain ⟨hcov, hfree⟩ := (wellKept_iff_rep h.toHeld).mp h
  cases call with
  | insert p =>
    obtain ⟨s', hs', hheld, hrep, hptrs⟩ := step_insert h.toHeld p
    have hagree : ∀ k < parts.length, ∀ j < parts.length, (s.bring p).rep k j ↔ s.heap.rep k j := by
      intro k hk j hj
      rw [PartHeap.rep, PartHeap.rep, bring_part_of_lt h.toHeld p hk, bring_part_of_lt h.toHeld p hj]
    have hcov' := (Covered.congr h.below hagree).mpr hcov
    have hfree' := (TwinFree.congr h.below hagree).mpr hfree
    rw [← h.calls] at hcov'
    refine ⟨s', hs', hheld, ?_⟩
    have hlen : (parts ++ [p]).length = s.calls + 1 := by rw [length_append, length_singleton, h.calls]
    have hbelow : ∀ k ∈ s.pointers, k < s.calls := fun k hk => h.calls ▸ h.below k hk
    have hfreeIff : TwinFree (s.bring p).rep (insertNew (s.bring p).key (s.bring p).rep s.calls s.pointers) ↔ _ :=
      twinFree_insertNew_iff hfree' hbelow
    rw [settles_insert_iff h.toHeld, show inserted [.insert p] = [p] from rfl, wellKept_iff_rep hheld, hlen, hrep,
      hptrs, ← hfreeIff]
    exact and_iff_right (covered_insertNew hcov' hbelow)
  | sort =>
    obtain ⟨s', hs', hheld, hrep, hptrs⟩ := step_sort h.toHeld
    rw [show inserted [.sort] = [] from rfl, append_nil]
    refine ⟨s', hs', hheld, ?_⟩
    rw [settles_sort_iff, ← insertAll_perm_iff h.sorted PartHeap.key_eq_of_rep, wellKept_iff_rep hheld, hrep, hptrs,
      ← covered_insertAll_iff hcov hfree h.nodup h.below]
    refine and_iff_left_of_imp fun hkept => hfree.perm ?_
    exact (covered_insertAll_iff hcov hfree h.nodup h.below).mp hkept

theorem run_concat (calls : List PartCall) (call : PartCall) :
    PartSession.run (calls ++ [call]) = (PartSession.run calls).bind fun s => s.step call := by
  rw [PartSession.run, foldlM_append]
  refine congrArg ((PartSession.run calls).bind ·) (funext fun s => ?_)
  exact foldlM_cons.trans (Option.bind_fun_some _)

theorem inserted_append (calls calls' : List PartCall) : inserted (calls ++ calls') = inserted calls ++ inserted calls' :=
  flatMap_append

/-- **After any calls** the list is linked in both directions and sorted. -/
theorem run_held (calls : List PartCall) : ∃ s, PartSession.run calls = some s ∧ Held (inserted calls) s := by
  induction calls using reverseRecOn with
  | nil => exact ⟨_, rfl, held_start⟩
  | append_singleton calls call ih =>
    obtain ⟨s, hs, h⟩ := ih
    rw [run_concat, hs, inserted_append, Option.bind_some]
    cases call with
    | insert p =>
      obtain ⟨s', hs', hheld, -⟩ := step_insert h p
      exact ⟨s', hs', hheld⟩
    | sort =>
      obtain ⟨s', hs', hheld, -⟩ := step_sort h
      exact ⟨s', hs', by rwa [show inserted [.sort] = [] from rfl, append_nil]⟩

/-- **The list is well kept after all calls** of a sequence exactly when each of them hides no twin and loses no
partition. -/
theorem wellKept_iff (calls : List PartCall) :
    (∀ done, done <+: calls → ∃ s, PartSession.run done = some s ∧ WellKept (inserted done) s) ↔
      ∀ done call, done ++ [call] <+: calls → ∃ s, PartSession.run done = some s ∧ Settles s.partitions call := by
  constructor
  · intro h done call hpre
    obtain ⟨s, hs, hkept⟩ := h done ((prefix_append done [call]).trans hpre)
    obtain ⟨s', hs', -, hiff⟩ := wellKept_step_iff hkept call
    obtain ⟨t, ht, hkept'⟩ := h _ hpre
    rw [run_concat, hs, Option.bind_some, hs'] at ht
    obtain rfl := Option.some.inj ht
    rw [inserted_append] at hkept'
    exact ⟨s, hs, hiff.mp hkept'⟩
  · intro h done
    induction done using reverseRecOn with
    | nil => exact fun _ => ⟨_, rfl, held_start, fun k hk => absurd hk (Nat.not_lt_zero k), nofun⟩
    | append_singleton done call ih =>
      intro hpre
      obtain ⟨s, hs, hkept⟩ := ih ((prefix_append done [call]).trans hpre)
      obtain ⟨t, ht, hsettles⟩ := h done call hpre
      obtain rfl := Option.some.inj (hs.symm.trans ht)
      obtain ⟨s', hs', -, hiff⟩ := wellKept_step_iff hkept call
      refine ⟨s', by rw [run_concat, hs, Option.bind_some, hs'], ?_⟩
      rw [inserted_append]
      exact hiff.mpr hsettles

/-- A partition of a given type. -/
def typedPartition (partType : UInt32) : PartitionStruct :=
  { partitionNew with partOffset := 512, partSize := 512, partTypeI386 := partType, status := .prim }

/-- A partition, another one of the same place with another type, and the first one again: it is there twice. -/
theorem hiddenTwin_not_wellKept :
    ¬ ∀ calls : List PartCall, ∃ s, PartSession.run calls = some s ∧ WellKept (inserted calls) s := by
  intro h
  obtain ⟨s, hs, hkept⟩ := h [.insert (typedPartition 7), .insert (typedPartition 131), .insert (typedPartition 7)]
  have hptrs : (PartSession.run [.insert (typedPartition 7), .insert (typedPartition 131),
      .insert (typedPartition 7)]).map (·.pointers) = some [2, 1, 0] := by decide +kernel
  rw [hs, Option.map_some, Option.some.injEq] at hptrs
  refine hkept.noTwins 0 (by simp [hptrs]) 2 (by simp [hptrs]) (by decide) ⟨_, _, rfl, rfl, by decide +kernel⟩

end RecoveryQt
