import RecoveryQt.Disk.PartitionList
import RecoveryQt.Lib.DoublyLinked
import RecoveryQt.Lib.SortedInsert
import Mathlib.Data.Prod.Lex

/-!
# Lists of partitions in memory

* `PartHeap`: the elements of the lists, and the partitions they point to;
* `PartHeap.insertNewPartition`, `PartHeap.sortPartitionList`: the code, with both links of an element;
* `PartHeap.Lists`: a list in memory, element by element;
* `PartHeap.key`, `PartHeap.rep`: what the code compares; neither depends on a status, `StatusOnly`;
* **`insertNewPartition_lists`**, **`sortPartitionList_lists`**: the lists that the code leaves.
-/

namespace RecoveryQt

open List

/-- The elements `list_part_t`, each with a pointer to its partition, the next unused address, and the partitions. -/
structure PartHeap where
  element : ℕ → Option (Cell ℕ)
  fresh : ℕ
  part : ℕ → PartitionStruct

namespace PartHeap

/-- A new element between `prev` and `next`, and the list with it. -/
def insertBetween (h : PartHeap) (part : ℕ) (prev next listPart : Option ℕ) : PartHeap × Option ℕ :=
  let newElement := h.fresh
  ({ h with
      element := setNext (setPrev (Function.update h.element newElement (some ⟨part, prev, next⟩)) next newElement)
        prev newElement
      fresh := h.fresh + 1 },
    if prev.isSome then listPart else some newElement)

/-- The loop of `insert_new_partition`, from the element `next` that follows `prev`. -/
def insertLoop (forceInsert : Bool) (part : ℕ) (listPart : Option ℕ) :
    ℕ → PartHeap → Option ℕ → Option ℕ → Option ((PartHeap × Option ℕ) × Bool)
  | 0, _, _, _ => none
  | _ + 1, h, prev, none => some (h.insertBetween part prev none listPart, false)
  | rounds + 1, h, prev, some next => do
    let element ← h.element next
    if (h.part part).goesBefore forceInsert (h.part element.item) then
      if !forceInsert && (h.part part).repeats (h.part element.item) then
        let revived := (h.part element.item).revive (h.part part)
        some (({ h with part := Function.update h.part element.item revived }, listPart), true)
      else some (h.insertBetween part prev (some next) listPart, false)
    else insertLoop forceInsert part listPart rounds h (some next) element.next

/-- `insert_new_partition`: the list, and `insert_error`. No list has more elements than there are addresses. -/
def insertNewPartition (h : PartHeap) (listPart : Option ℕ) (part : ℕ) (forceInsert : Bool) :
    Option ((PartHeap × Option ℕ) × Bool) :=
  insertLoop forceInsert part listPart (h.fresh + 1) h none listPart

/-- `free(element)`. -/
def free (h : PartHeap) (element : ℕ) : PartHeap := { h with element := Function.update h.element element none }

/-- The loop of `sort_partition_list`. -/
def sortLoop : ℕ → PartHeap → Option ℕ → Option ℕ → Option (PartHeap × Option ℕ)
  | 0, _, _, _ => none
  | _ + 1, h, newListPart, none => some (h, newListPart)
  | rounds + 1, h, newListPart, some a => do
    let element ← h.element a
    let inserted ← h.insertNewPartition newListPart element.item false
    sortLoop rounds (inserted.1.1.free a) inserted.1.2 element.next

/-- `sort_partition_list`. -/
def sortPartitionList (h : PartHeap) (listPart : Option ℕ) : Option (PartHeap × Option ℕ) :=
  sortLoop (h.fresh + 1) h none listPart

/-! ## What the code compares -/

/-- The start and the size of a partition. -/
def key (h : PartHeap) (k : ℕ) : ℕ ×ₗ ℕ := toLex ((h.part k).partOffset.toNat, (h.part k).partSize.toNat)

/-- The partition at `k` repeats that at `j`. -/
def rep (h : PartHeap) (k j : ℕ) : Prop := (h.part k).repeats (h.part j) = true

instance (h : PartHeap) : DecidableRel h.rep := fun _ _ => inferInstanceAs (Decidable (_ = true))

/-- The partitions have changed in their status at most. -/
def StatusOnly (f g : ℕ → PartitionStruct) : Prop := ∀ k, { g k with status := (f k).status } = f k

variable {h h' : PartHeap}

theorem StatusOnly.refl (f : ℕ → PartitionStruct) : StatusOnly f f := fun _ => rfl

theorem StatusOnly.trans {f g e : ℕ → PartitionStruct} (hfg : StatusOnly f g) (hge : StatusOnly g e) :
    StatusOnly f e := by
  intro k
  rw [← hfg k, ← hge k]

theorem StatusOnly.symm {f g : ℕ → PartitionStruct} (hfg : StatusOnly f g) : StatusOnly g f := by
  intro k
  rw [← hfg k]

theorem key_congr (hs : StatusOnly h.part h'.part) : h'.key = h.key := by
  funext k
  rw [key, key, ← hs k]

theorem rep_congr (hs : StatusOnly h.part h'.part) : h'.rep = h.rep := by
  funext k j
  rw [rep, rep, ← hs k, ← hs j]
  rfl

/-- What repeats a partition has its start and its size. -/
theorem key_eq_of_rep {k j : ℕ} (hr : h.rep k j) : h.key k = h.key j := by
  simp only [rep, PartitionStruct.repeats, Bool.and_eq_true, decide_eq_true_eq] at hr
  rw [key, key, hr.1.1.1.1.1.1, hr.1.1.1.1.1.2]

theorem goesBefore_iff {k j : ℕ} : (h.part k).goesBefore false (h.part j) = true ↔ h.key k ≤ h.key j := by
  rw [key, key, Prod.Lex.toLex_le_toLex]
  simp only [PartitionStruct.goesBefore, Bool.or_eq_true, Bool.and_eq_true, decide_eq_true_eq, Bool.not_false,
    Bool.true_or, and_true, UInt64.lt_iff_toNat_lt, ← UInt64.toNat_inj, Nat.le_iff_lt_or_eq]

/-! ## Lists in memory -/

/-- The list at `list` has these elements, each at its address with a pointer to its partition. -/
structure Lists (h : PartHeap) (list : Option ℕ) (as : List (ℕ × ℕ)) : Prop where
  head : list = firstAddr as none
  linked : Segment h.element none as none
  nodup : (as.map Prod.fst).Nodup
  old : ∀ a ∈ as.map Prod.fst, a < h.fresh

theorem Lists.length_le {list : Option ℕ} {as : List (ℕ × ℕ)} (hl : h.Lists list as) : as.length ≤ h.fresh := by
  have hsub : as.map Prod.fst ⊆ range h.fresh := fun a ha => mem_range.mpr (hl.old a ha)
  have := (subperm_of_subset hl.nodup hsub).length_le
  rwa [length_map, length_range] at this

/-- What an insertion does: the list with the new element or without it, and the rest of the memory as it was. -/
structure Inserts (h h' : PartHeap) (list : Option ℕ) (as as' : List (ℕ × ℕ)) (p : ℕ) : Prop where
  lists : h'.Lists list as'
  items : as'.map Prod.snd = insertNew h.key h.rep p (as.map Prod.snd)
  status : StatusOnly h'.part h.part
  addresses : as'.map Prod.fst ⊆ h.fresh :: as.map Prod.fst
  others : ∀ b, b ∉ as.map Prod.fst → b ≠ h.fresh → h'.element b = h.element b
  fresh : h.fresh ≤ h'.fresh

/-- The element is inserted behind `front`. -/
theorem insertBetween_lists {list : Option ℕ} {front back : List (ℕ × ℕ)} (hl : h.Lists list (front ++ back)) (p : ℕ) :
    ∃ h' list', h.insertBetween p (lastAddr none front) (firstAddr back none) list = (h', list') ∧
      h'.Lists list' (front ++ (h.fresh, p) :: back) ∧ h'.part = h.part ∧ h'.fresh = h.fresh + 1 ∧
      ∀ b, b ∉ (front ++ back).map Prod.fst → b ≠ h.fresh → h'.element b = h.element b := by
  have hnew : h.fresh ∉ (front ++ back).map Prod.fst := fun hmem => lt_irrefl _ (hl.old _ hmem)
  refine ⟨_, _, rfl, ⟨?_, hl.linked.insert hl.nodup hnew, ?_, ?_⟩, rfl, rfl, ?_⟩
  · cases front with
    | nil => rfl
    | cons a front =>
      have hsome : (lastAddr none (a :: front)).isSome := by
        rcases lastAddr_mem (some a.1) front with heq | ⟨b, -, heq⟩
        · rw [lastAddr, heq]
          rfl
        · rw [lastAddr, heq]
          rfl
      rw [if_pos hsome, hl.head]
      rfl
  · rw [map_append, map_cons]
    refine nodup_middle.mpr (nodup_cons.mpr ⟨?_, ?_⟩)
    · rwa [← map_append]
    · rw [← map_append]
      exact hl.nodup
  · intro a ha
    rw [map_append, map_cons, mem_append, mem_cons] at ha
    rcases ha with ha | rfl | ha
    · exact (hl.old a (by rw [map_append]; exact mem_append_left _ ha)).trans (Nat.lt_succ_self _)
    · exact Nat.lt_succ_self _
    · exact (hl.old a (by rw [map_append]; exact mem_append_right _ ha)).trans (Nat.lt_succ_self _)
  · intro b hb hne
    rw [map_append, mem_append, not_or] at hb
    change setNext _ _ _ b = _
    rw [setNext_of_ne (lastAddr_ne_of_not_mem hb.1), setPrev_of_ne (firstAddr_ne_of_not_mem hb.2),
      Function.update_of_ne hne]

/-- The partitions behind the elements change in the status of one. -/
theorem statusOnly_revive (h : PartHeap) (p q : ℕ) :
    StatusOnly (Function.update h.part q ((h.part q).revive (h.part p))) h.part := by
  intro k
  by_cases hk : k = q
  · subst hk
    rw [Function.update_self, PartitionStruct.revive]
    split <;> rfl
  · rw [Function.update_of_ne hk]

/-- The loop passes the elements below the new one, and stops at the first other one. -/
theorem insertLoop_lists {list : Option ℕ} (p : ℕ) {front back : List (ℕ × ℕ)} (hl : h.Lists list (front ++ back))
    (hfront : ∀ a ∈ front, h.key a.2 < h.key p) {rounds : ℕ} (hr : back.length < rounds) :
    ∃ h' list' as' err, insertLoop false p list rounds h (lastAddr none front) (firstAddr back none) =
      some ((h', list'), err) ∧ Inserts h h' list' (front ++ back) as' p := by
  induction back generalizing front rounds with
  | nil =>
    obtain ⟨rounds, rfl⟩ := Nat.exists_eq_succ_of_ne_zero (Nat.ne_zero_of_lt hr)
    obtain ⟨h', list', heq, hlists, hpart, hfresh, hothers⟩ := insertBetween_lists hl p
    refine ⟨h', list', _, false, by rw [← heq]; rfl, hlists, ?_, ?_, ?_, hothers, by omega⟩
    · have hbelow : ∀ k ∈ front.map Prod.snd, h.key k < h.key p := by
        simpa using fun k a => hfront (a, k)
      obtain ⟨htake, hdrop⟩ := takeWhile_dropWhile_append hbelow [] nofun
      rw [append_nil] at htake hdrop
      rw [append_nil, insertNew_of_not_repeated (by simp [Repeated, hdrop]), htake, hdrop, map_append, map_cons,
        map_nil]
    · rw [hpart]
      exact StatusOnly.refl _
    · simp only [append_nil, map_append, map_cons, map_nil]
      exact fun a ha => by simpa [or_comm] using ha
  | cons b back ih =>
    obtain ⟨rounds, rfl⟩ := Nat.exists_eq_succ_of_ne_zero (Nat.ne_zero_of_lt hr)
    obtain ⟨next, q⟩ := b
    obtain ⟨-, hcell, -⟩ := segment_append.mp hl.linked
    have hbefore : (h.part p).goesBefore false (h.part q) = true ↔ h.key p ≤ h.key q := goesBefore_iff
    have hbelow : ∀ k ∈ front.map Prod.snd, h.key k < h.key p := by
      simpa using fun k a => hfront (a, k)
    rw [firstAddr, insertLoop]
    simp only [hcell, Option.bind_eq_bind, Option.bind_some, Bool.not_false, Bool.true_and]
    by_cases hpq : h.key p ≤ h.key q
    · obtain ⟨htake, hdrop⟩ := takeWhile_dropWhile_append hbelow (q :: back.map Prod.snd)
        (by simpa using hpq)
      have hmap : (front ++ (next, q) :: back).map Prod.snd = front.map Prod.snd ++ q :: back.map Prod.snd := by simp
      have hrepeated : Repeated h.key h.rep p ((front ++ (next, q) :: back).map Prod.snd) ↔ h.rep p q := by
        rw [Repeated, hmap, hdrop]
        simp
      rw [if_pos (hbefore.mpr hpq)]
      by_cases hpr : h.rep p q
      · -- the new partition is there already
        rw [if_pos (show (h.part p).repeats (h.part q) = true from hpr)]
        exact ⟨_, _, _, _, rfl, ⟨hl.head, hl.linked, hl.nodup, hl.old⟩,
          (insertNew_of_repeated (hrepeated.mpr hpr)).symm, statusOnly_revive h p q, subset_cons_self _ _,
          fun _ _ _ => rfl, le_rfl⟩
      · obtain ⟨h', list', heq, hlists, hpart, hfresh, hothers⟩ := insertBetween_lists hl p
        rw [if_neg (show ¬ (h.part p).repeats (h.part q) = true from hpr)]
        refine ⟨h', list', _, false, by rw [← heq]; rfl, hlists, ?_, ?_, ?_, hothers, by omega⟩
        · rw [insertNew_of_not_repeated (hrepeated.not.mpr hpr), hmap, htake, hdrop]
          simp
        · rw [hpart]
          exact StatusOnly.refl _
        · intro a ha
          simp only [map_append, map_cons, mem_append, mem_cons] at ha ⊢
          tauto
    · rw [if_neg (hbefore.not.mpr hpq)]
      have hl' : h.Lists list ((front ++ [(next, q)]) ++ back) := by simpa using hl
      have hfront' : ∀ a ∈ front ++ [(next, q)], h.key a.2 < h.key p := by
        intro a ha
        rcases mem_append.mp ha with ha | ha
        · exact hfront a ha
        · obtain rfl := mem_singleton.mp ha
          exact not_le.mp hpq
      have hrun := ih hl' hfront' (show back.length < rounds by simpa using hr)
      rw [lastAddr_append, append_assoc] at hrun
      exact hrun

/-- **An insertion in memory** is one into the list of the partitions. -/
theorem insertNewPartition_lists {list : Option ℕ} {as : List (ℕ × ℕ)} (hl : h.Lists list as) (p : ℕ) :
    ∃ h' list' as' err, h.insertNewPartition list p false = some ((h', list'), err) ∧ Inserts h h' list' as as' p := by
  have hrun := insertLoop_lists p (show h.Lists list ([] ++ as) from hl) nofun (Nat.lt_succ_of_le hl.length_le)
  rwa [← hl.head] at hrun

/-- A list does not depend on an element that is not in it. -/
theorem Lists.free {list : Option ℕ} {as : List (ℕ × ℕ)} (hl : h.Lists list as) {a : ℕ} (ha : a ∉ as.map Prod.fst) :
    (h.free a).Lists list as :=
  ⟨hl.head, hl.linked.congr fun _ hb => Function.update_of_ne (fun hba : _ = a => ha (hba ▸ hb)) _ _, hl.nodup, hl.old⟩

/-- A round of the sort: the first of the elements `todo` is inserted, and freed. -/
theorem Inserts.taken {todo : List (ℕ × ℕ)} {list₁ p : Option ℕ} {as as₁ : List (ℕ × ℕ)} {h₁ : PartHeap} {a q : ℕ}
    (hins : Inserts h h₁ list₁ as as₁ q) (htodo : Segment h.element p ((a, q) :: todo) none)
    (hd : (((a, q) :: todo).map Prod.fst).Nodup)
    (hapart : ∀ b ∈ ((a, q) :: todo).map Prod.fst, b ∉ as.map Prod.fst ∧ b < h.fresh) :
    (h₁.free a).Lists list₁ as₁ ∧ Segment (h₁.free a).element (some a) todo none ∧
      ∀ b ∈ todo.map Prod.fst, b ∉ as₁.map Prod.fst ∧ b < (h₁.free a).fresh := by
  obtain ⟨ha, hd⟩ := nodup_cons.mp hd
  -- the element that was taken is in neither list any more
  have hnew : ∀ b ∈ a :: todo.map Prod.fst, b ∉ as₁.map Prod.fst := by
    intro b hb hb₁
    obtain ⟨hbas, hbfresh⟩ := hapart b hb
    rcases mem_cons.mp (hins.addresses hb₁) with rfl | hmem
    · exact lt_irrefl _ hbfresh
    · exact hbas hmem
  refine ⟨hins.lists.free (hnew a mem_cons_self), htodo.2.congr fun b hb => ?_, fun b hb => ?_⟩
  · obtain ⟨hbas, hbfresh⟩ := hapart b (mem_cons_of_mem _ hb)
    have hne : b ≠ a := fun hba => ha (hba ▸ hb)
    exact (Function.update_of_ne hne _ _).trans (hins.others b hbas hbfresh.ne)
  · exact ⟨hnew b (mem_cons_of_mem _ hb), (hapart b (mem_cons_of_mem _ hb)).2.trans_le hins.fresh⟩

/-- The loop of the sort takes the elements `todo` one by one into the list `list`. -/
theorem sortLoop_lists {todo : List (ℕ × ℕ)} {list p : Option ℕ} {as : List (ℕ × ℕ)} (hl : h.Lists list as)
    (htodo : Segment h.element p todo none) (hd : (todo.map Prod.fst).Nodup)
    (hapart : ∀ a ∈ todo.map Prod.fst, a ∉ as.map Prod.fst ∧ a < h.fresh) {rounds : ℕ} (hr : todo.length < rounds) :
    ∃ h' list' as', sortLoop rounds h list (firstAddr todo none) = some (h', list') ∧ h'.Lists list' as' ∧
      as'.map Prod.snd = (todo.map Prod.snd).foldl (fun acc k => insertNew h.key h.rep k acc) (as.map Prod.snd) ∧
      StatusOnly h'.part h.part := by
  induction todo generalizing h list p as rounds with
  | nil =>
    obtain ⟨rounds, rfl⟩ := Nat.exists_eq_succ_of_ne_zero (Nat.ne_zero_of_lt hr)
    exact ⟨h, list, as, rfl, hl, rfl, StatusOnly.refl _⟩
  | cons b todo ih =>
    obtain ⟨rounds, rfl⟩ := Nat.exists_eq_succ_of_ne_zero (Nat.ne_zero_of_lt hr)
    obtain ⟨a, q⟩ := b
    obtain ⟨h₁, list₁, as₁, err, heq, hins⟩ := insertNewPartition_lists hl q
    obtain ⟨hl₁, htodo₁, hapart₁⟩ := hins.taken htodo hd hapart
    obtain ⟨h', list', as', hrun, hl', hitems, hstatus⟩ :=
      ih hl₁ htodo₁ hd.of_cons hapart₁ (show todo.length < rounds by simpa using hr)
    have hkey : (h₁.free a).key = h.key := key_congr hins.status.symm
    have hrep : (h₁.free a).rep = h.rep := rep_congr hins.status.symm
    refine ⟨h', list', as', ?_, hl', ?_, hstatus.trans hins.status⟩
    · rw [firstAddr, sortLoop]
      simp only [htodo.1, heq, Option.bind_eq_bind, Option.bind_some]
      exact hrun
    · rw [hitems, hins.items]
      simp only [hkey, hrep, map_cons, foldl_cons]

/-- **The sort in memory** inserts the partitions of the list into a new one. -/
theorem sortPartitionList_lists {list : Option ℕ} {as : List (ℕ × ℕ)} (hl : h.Lists list as) :
    ∃ h' list' as', h.sortPartitionList list = some (h', list') ∧ h'.Lists list' as' ∧
      as'.map Prod.snd = insertAll h.key h.rep (as.map Prod.snd) ∧ StatusOnly h'.part h.part := by
  have hempty : h.Lists none [] := ⟨rfl, trivial, Pairwise.nil, nofun⟩
  have hrun := sortLoop_lists hempty hl.linked hl.nodup (fun a ha => ⟨not_mem_nil, hl.old a ha⟩)
    (Nat.lt_succ_of_le hl.length_le)
  rwa [← hl.head] at hrun

end PartHeap

end RecoveryQt
