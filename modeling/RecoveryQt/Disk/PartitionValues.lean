import RecoveryQt.Disk.PartitionLinks

/-!
# The partitions of a list in memory

The elements of a list point to its partitions. As long as no two of them point to the same one, the code does with the
elements what it does with the list of the partitions.

* `PartHeap.values`: the list of the partitions;
* `insertNewPartition_values`, **`sortPartitionList_values`**: what the code leaves of it.
-/

namespace RecoveryQt

open List

namespace PartHeap

/-- The partitions that the elements point to. -/
def values (h : PartHeap) (as : List (ℕ × ℕ)) : List PartitionStruct := as.map fun a => h.part a.2

variable {h h' : PartHeap} {list : Option ℕ} {as : List (ℕ × ℕ)}

theorem values_congr (heq : ∀ k ∈ as.map Prod.snd, h'.part k = h.part k) : h'.values as = h.values as :=
  map_congr_left fun a ha => heq a.2 (mem_map_of_mem ha)

theorem values_append (h : PartHeap) (front back : List (ℕ × ℕ)) :
    h.values (front ++ back) = h.values front ++ h.values back := map_append

theorem Lists.unique {as' : List (ℕ × ℕ)} (hl : h.Lists list as) (hl' : h.Lists list as') : as = as' :=
  hl.linked.unique hl'.linked (hl.head.symm.trans hl'.head)

/-- The loop does with the elements from `back` on what the code does with their partitions. -/
theorem insertLoop_values (forceInsert : Bool) (p : ℕ) {front back : List (ℕ × ℕ)} (hl : h.Lists list (front ++ back))
    (hd : ((front ++ back).map Prod.snd).Nodup) {rounds : ℕ} (hr : back.length < rounds) :
    ∃ h' list' as', insertLoop forceInsert p list rounds h (lastAddr none front) (firstAddr back none) =
        some ((h', list'), ((h.part p).insertNewPartition forceInsert (h.values back)).2) ∧ h'.Lists list' as' ∧
      h'.values as' = h.values front ++ ((h.part p).insertNewPartition forceInsert (h.values back)).1 ∧
      ∀ k ∉ (front ++ back).map Prod.snd, h'.part k = h.part k := by
  induction back generalizing front rounds with
  | nil =>
    obtain ⟨rounds, rfl⟩ := Nat.exists_eq_succ_of_ne_zero (Nat.ne_zero_of_lt hr)
    obtain ⟨h', list', heq, hlists, hpart, -, -⟩ := insertBetween_lists hl p
    refine ⟨h', list', _, by rw [← heq]; rfl, hlists, ?_, fun k _ => by rw [hpart]⟩
    rw [values_congr fun k _ => congrFun hpart k, values_append]
    rfl
  | cons b back ih =>
    obtain ⟨rounds, rfl⟩ := Nat.exists_eq_succ_of_ne_zero (Nat.ne_zero_of_lt hr)
    obtain ⟨next, q⟩ := b
    obtain ⟨-, hcell, -⟩ := segment_append.mp hl.linked
    have hback : h.values ((next, q) :: back) = h.part q :: h.values back := rfl
    rw [firstAddr, insertLoop, hback, PartitionStruct.insertNewPartition]
    simp only [hcell, Option.bind_eq_bind, Option.bind_some]
    by_cases hbefore : (h.part p).goesBefore forceInsert (h.part q) = true
    · rw [if_pos hbefore, if_pos hbefore]
      by_cases hrepeats : (!forceInsert && (h.part p).repeats (h.part q)) = true
      · -- the only element that points to the partition is this one
        rw [if_pos hrepeats, if_pos hrepeats]
        refine ⟨_, _, front ++ (next, q) :: back, rfl, ⟨hl.head, hl.linked, hl.nodup, hl.old⟩, ?_, ?_⟩
        · rw [map_append, map_cons] at hd
          obtain ⟨hqfront, hqback⟩ := not_or.mp (mt mem_append.mpr (nodup_middle.mp hd).notMem)
          rw [values_append, values_congr fun k hk => Function.update_of_ne (ne_of_mem_of_not_mem hk hqfront) _ _]
          refine congrArg _ (congrArg₂ _ (Function.update_self ..) (values_congr fun k hk => ?_))
          exact Function.update_of_ne (ne_of_mem_of_not_mem hk hqback) _ _
        · intro k hk
          have hkq : k ≠ q := by
            rintro rfl
            exact hk (by simp)
          exact Function.update_of_ne hkq _ _
      · obtain ⟨h', list', heq, hlists, hpart, -, -⟩ := insertBetween_lists hl p
        rw [if_neg hrepeats, if_neg hrepeats]
        refine ⟨h', list', _, by rw [← heq]; rfl, hlists, ?_, fun k _ => by rw [hpart]⟩
        rw [values_congr fun k _ => congrFun hpart k, values_append]
        rfl
    · rw [if_neg hbefore, if_neg hbefore]
      have hmove : front ++ (next, q) :: back = (front ++ [(next, q)]) ++ back := by simp
      rw [hmove] at hl hd
      obtain ⟨h', list', as', hrun, hlists, hvalues, hothers⟩ :=
        ih hl hd (show back.length < rounds by simpa using hr)
      rw [lastAddr_append] at hrun
      refine ⟨h', list', as', hrun, hlists, ?_, by rwa [hmove]⟩
      rw [hvalues, values_append, append_assoc]
      rfl

/-- **An insertion in memory** leaves the partitions that the code leaves of a list of them. -/
theorem insertNewPartition_values (forceInsert : Bool) (hl : h.Lists list as) (hd : (as.map Prod.snd).Nodup) (p : ℕ) :
    ∃ h' list' as', h.insertNewPartition list p forceInsert =
        some ((h', list'), ((h.part p).insertNewPartition forceInsert (h.values as)).2) ∧ h'.Lists list' as' ∧
      h'.values as' = ((h.part p).insertNewPartition forceInsert (h.values as)).1 ∧
      ∀ k ∉ as.map Prod.snd, h'.part k = h.part k := by
  have hrun := insertLoop_values forceInsert p (show h.Lists list ([] ++ as) from hl) hd (Nat.lt_succ_of_le hl.length_le)
  rwa [← hl.head] at hrun

/-- The loop of the sort inserts the partitions of `todo` into those of `list`. -/
theorem sortLoop_values {todo : List (ℕ × ℕ)} {p : Option ℕ} (hl : h.Lists list as)
    (htodo : Segment h.element p todo none) (hd : (todo.map Prod.fst).Nodup)
    (hapart : ∀ a ∈ todo.map Prod.fst, a ∉ as.map Prod.fst ∧ a < h.fresh)
    (hitems : (as.map Prod.snd ++ todo.map Prod.snd).Nodup) {rounds : ℕ} (hr : todo.length < rounds) :
    ∃ h' list' as', sortLoop rounds h list (firstAddr todo none) = some (h', list') ∧ h'.Lists list' as' ∧
      h'.values as' =
        (h.values todo).foldl (fun sorted part => (part.insertNewPartition false sorted).1) (h.values as) := by
  induction todo generalizing h list p as rounds with
  | nil =>
    obtain ⟨rounds, rfl⟩ := Nat.exists_eq_succ_of_ne_zero (Nat.ne_zero_of_lt hr)
    exact ⟨h, list, as, rfl, hl, rfl⟩
  | cons b todo ih =>
    obtain ⟨rounds, rfl⟩ := Nat.exists_eq_succ_of_ne_zero (Nat.ne_zero_of_lt hr)
    obtain ⟨a, q⟩ := b
    obtain ⟨h₁, list₁, as₁, err, heq, hins⟩ := insertNewPartition_lists hl q
    obtain ⟨hl₁, htodo₁, hapart₁⟩ := hins.taken htodo hd hapart
    have hvalues : h₁.values as₁ = ((h.part q).insertNewPartition false (h.values as)).1 ∧
        ∀ k ∉ as.map Prod.snd, h₁.part k = h.part k := by
      obtain ⟨h₂, list₂, as₂, heq₂, hl₂, hvalues, hothers⟩ := insertNewPartition_values false hl hitems.of_append_left q
      obtain ⟨⟨rfl, rfl⟩, -⟩ : (h₁ = h₂ ∧ list₁ = list₂) ∧ err = _ := by simpa using heq.symm.trans heq₂
      rw [hins.lists.unique hl₂]
      exact ⟨hvalues, hothers⟩
    have hitems₁ : (as₁.map Prod.snd ++ todo.map Prod.snd).Nodup := by
      have hsub : as₁.map Prod.snd ++ todo.map Prod.snd <+~ (q :: as.map Prod.snd) ++ todo.map Prod.snd :=
        (subperm_append_right _).mpr (hins.items ▸ insertNew_subperm)
      obtain ⟨l, hperm, hsublist⟩ := hsub
      exact hperm.nodup_iff.mp ((nodup_middle.mp hitems).sublist hsublist)
    obtain ⟨h', list', as', hrun, hl', hsorted⟩ :=
      ih hl₁ htodo₁ hd.of_cons hapart₁ hitems₁ (show todo.length < rounds by simpa using hr)
    refine ⟨h', list', as', ?_, hl', ?_⟩
    · rw [firstAddr, sortLoop]
      simp only [htodo.1, heq, Option.bind_eq_bind, Option.bind_some]
      exact hrun
    · have hrest : (h₁.free a).values todo = h.values todo := by
        refine values_congr fun k hk => hvalues.2 k fun hmem => ?_
        exact (nodup_append.mp hitems).2.2 k hmem k (mem_cons_of_mem _ hk) rfl
      rw [hsorted, hrest, show (h₁.free a).values as₁ = h₁.values as₁ from rfl, hvalues.1]
      rfl

/-- **The sort in memory** leaves the partitions sorted. -/
theorem sortPartitionList_values (hl : h.Lists list as) (hd : (as.map Prod.snd).Nodup) :
    ∃ h' list' as', h.sortPartitionList list = some (h', list') ∧ h'.Lists list' as' ∧
      h'.values as' = RecoveryQt.sortPartitionList (h.values as) := by
  have hempty : h.Lists none [] := ⟨rfl, trivial, Pairwise.nil, nofun⟩
  have hrun := sortLoop_values hempty hl.linked hl.nodup (fun a ha => ⟨not_mem_nil, hl.old a ha⟩) hd
    (Nat.lt_succ_of_le hl.length_le)
  rwa [← hl.head] at hrun

end PartHeap

end RecoveryQt
