import RecoveryQt.Disk.ListSort

/-!
# The sorted list

* `slots`: the partial lists of `td_list_sort`, as addresses;
* `carryLoop_levels`: a cell is put in the levels, `sortLoop_levels`: all cells are;
* `collectLoop_levels`: the levels are merged;
* `tdListSort_circular`: the list that `td_list_sort` leaves;
* **`tdListSort_sorts`**: it is the stable sort.
-/

namespace RecoveryQt

open List

variable {ι : Type} {h h' : ListHeap ι} {cmp : ι → ι → ℤ} {rounds : ℕ}

/-- The array `part`: the first cells of the partial lists, and the last slot, which stays empty. -/
def slots (parts : List (List (ℕ × ι))) : List (Option ℕ) := parts.map (firstAddr · none) ++ [none]

theorem slots_cons (xs : List (ℕ × ι)) (parts : List (List (ℕ × ι))) :
    slots (xs :: parts) = firstAddr xs none :: slots parts := rfl

theorem slots_append_replicate (lev : ℕ) (parts : List (List (ℕ × ι))) :
    slots (replicate lev [] ++ parts) = replicate lev none ++ slots parts := by
  simp [slots, firstAddr]

theorem replicate_append_at {α : Type} (n : ℕ) (a b : α) (rest : List α) : (replicate n a ++ b :: rest)[n]? = some b := by
  rw [getElem?_append_right (by simp)]
  simp

theorem replicate_append_set {α : Type} (n : ℕ) (a b c : α) (rest : List α) :
    (replicate n a ++ b :: rest).set n c = replicate n a ++ c :: rest := by
  rw [set_append, if_neg (by simp)]
  simp

/-- Cells that no other partial list has. -/
theorem linked_of_levels {parts : List (List (ℕ × ι))} {xs : List (ℕ × ι)} {as : List ℕ}
    (hparts : ∀ xs ∈ parts, Forward h xs none) (hs : SameOutside as h h')
    (hdisj : ∀ a ∈ (levelItems parts).map Prod.fst, a ∉ as) (hxs : xs ∈ parts) : Forward h' xs none := by
  refine hs.forward (hparts xs hxs) fun a ha => hdisj a ?_
  obtain ⟨y, hy, rfl⟩ := mem_map.mp ha
  exact mem_map_of_mem (mem_flatten.mpr ⟨xs, mem_reverse.mpr hxs, hy⟩)

namespace ListHeap

theorem carryLoop_none {levels lev : ℕ} {part : List (Option ℕ)} {cur : Option ℕ} (hpart : part[lev]? = some none) :
    carryLoop cmp rounds (levels + 1) h part lev cur = some (h, part, lev, cur) := by
  rw [carryLoop, hpart]
  rfl

theorem carryLoop_some {levels lev a : ℕ} {part : List (Option ℕ)} {cur : Option ℕ} (hpart : part[lev]? = some (some a)) :
    carryLoop cmp rounds (levels + 1) h part lev cur =
      (merge cmp rounds h (some a) cur).bind fun r => carryLoop cmp rounds levels r.1 (part.set lev none) (lev + 1) r.2 := by
  rw [carryLoop, hpart]
  rfl

/-- **A list is put in the levels**: `k` of them are merged with it. -/
theorem carryLoop_levels {parts : List (List (ℕ × ι))} {cur : List (ℕ × ι)} {levels : ℕ} (lev : ℕ)
    (hparts : ∀ xs ∈ parts, Forward h xs none) (hcur : Forward h cur none) (hne : cur ≠ [])
    (hnd : ((levelItems parts ++ cur).map Prod.fst).Nodup) (hrounds : (levelItems parts ++ cur).length < rounds)
    (hlevels : parts.length < levels) :
    ∃ h' k cs, carryLoop cmp rounds levels h (replicate lev none ++ slots parts) lev (firstAddr cur none) =
        some (h', replicate (lev + k) none ++ slots (parts.drop k), lev + k, firstAddr cs none) ∧
      k ≤ parts.length ∧ cs ≠ [] ∧ (∀ xs ∈ parts.take k, xs ≠ []) ∧
      (k < parts.length → parts.drop k = [] :: parts.drop (k + 1) ∧
        carry (cmpLe cmp) parts cur = replicate k [] ++ cs :: parts.drop (k + 1)) ∧
      (k = parts.length → carry (cmpLe cmp) parts cur = replicate (k - 1) [] ++ [cs]) ∧
      Forward h' cs none ∧ (∀ xs ∈ parts.drop k, Forward h' xs none) ∧
      SameOutside ((levelItems parts ++ cur).map Prod.fst) h h' := by
  induction parts generalizing h cur levels lev with
  | nil =>
    obtain ⟨levels, rfl⟩ := Nat.exists_eq_succ_of_ne_zero (Nat.ne_zero_of_lt hlevels)
    refine ⟨h, 0, cur, carryLoop_none (replicate_append_at lev _ none []), Nat.le_refl _, hne, by simp, by simp, fun _ => rfl, hcur, hparts,
      fun _ _ => rfl⟩
  | cons xs parts ih =>
    obtain ⟨levels, rfl⟩ := Nat.exists_eq_succ_of_ne_zero (Nat.ne_zero_of_lt hlevels)
    cases xs with
    | nil =>
      refine ⟨h, 0, cur, carryLoop_none (replicate_append_at lev _ none (slots parts)), Nat.zero_le _, hne, by simp,
        fun _ => ⟨rfl, rfl⟩, by simp, hcur, hparts, fun _ _ => rfl⟩
    | cons x xs =>
      obtain ⟨hx, hparts⟩ := forall_mem_cons.mp hparts
      rw [levelItems_cons, append_assoc, map_append] at hnd
      rw [levelItems_cons, append_assoc, length_append] at hrounds
      obtain ⟨hndp, hndx, hdisj⟩ := nodup_append.mp hnd
      have hmerged : List.merge (x :: xs) cur (cmpLe cmp) ~ x :: xs ++ cur := merge_perm_append _
      obtain ⟨h₁, hmerge, hlinked, hs₁⟩ := merge_linked cmp hx hcur hndx
        (by simp only [length_append] at hrounds; omega : _ < rounds)
      obtain ⟨h', k, cs, hrun, hk, hcs, htake, hlt, heq, hlinked', hparts', hs⟩ := ih (lev + 1)
        (fun ys hys => linked_of_levels hparts hs₁ (fun a ha hmem => hdisj a ha a hmem rfl) hys) hlinked
        (fun hnil => by simpa [hnil] using hmerged.length_eq)
        ((((hmerged.append_left _).map _).nodup_iff.mpr (by rwa [map_append])))
        (by rw [length_append, hmerged.length_eq]; exact hrounds) (Nat.lt_of_succ_lt_succ hlevels)
      refine ⟨h', k + 1, cs, ?_, Nat.succ_le_succ hk, hcs, forall_mem_cons.mpr ⟨cons_ne_nil _ _, htake⟩, fun hk' => ?_,
        fun hk' => ?_, hlinked', hparts', ?_⟩
      · rw [slots_cons, firstAddr, carryLoop_some (replicate_append_at _ _ _ _), ← firstAddr, hmerge, Option.bind_some, replicate_append_set]
        rw [replicate_succ', append_assoc] at hrun
        rw [drop_succ_cons, Nat.add_comm k 1, ← Nat.add_assoc]
        exact hrun
      · obtain ⟨hdrop, hcarry⟩ := hlt (Nat.lt_of_succ_lt_succ hk')
        refine ⟨hdrop, ?_⟩
        cases parts with
        | nil => exact absurd hk' (by simp)
        | cons ys parts =>
          rw [carry, hcarry]
          rfl
      · have hcarry := heq (Nat.succ.inj hk')
        cases parts with
        | nil =>
          obtain rfl : k = 0 := Nat.succ.inj hk'
          exact hcarry
        | cons ys parts =>
          rw [carry, hcarry, Nat.succ.inj hk']
          rfl
      · refine hs₁.trans (hs.mono fun a ha => ?_) fun a ha => ?_
        · rw [map_append, mem_append, ((hmerged.map Prod.fst)).mem_iff] at ha
          rw [levelItems_cons, append_assoc, map_append, mem_append]
          exact ha
        · rw [levelItems_cons, append_assoc, map_append, mem_append]
          exact Or.inr ha

end ListHeap

/-! ## All cells -/

/-- The levels are in memory, and `maxLev` is the highest one that is used. -/
structure Levels (h : ListHeap ι) (parts : List (List (ℕ × ι))) (maxLev : ℕ) : Prop where
  length : parts.length = maxListLengthBits
  forward : ∀ xs ∈ parts, Forward h xs none
  bound : maxLev < maxListLengthBits
  above : ∀ j, maxLev < j → parts.getD j [] = []
  top : parts.getD maxLev [] ≠ [] ∨ maxLev = 0 ∧ levelItems parts = []

theorem getD_placed {parts : List (List (ℕ × ι))} {k : ℕ} (hk : k < parts.length) (cs : List (ℕ × ι)) (j : ℕ) :
    (replicate k [] ++ cs :: parts.drop (k + 1)).getD j [] =
      if j < k then [] else if j = k then cs else parts.getD j [] := by
  simp only [getD_eq_getElem?_getD]
  rcases Nat.lt_trichotomy j k with hj | rfl | hj
  · rw [if_pos hj, getElem?_append_left (by simpa using hj), getElem?_replicate, if_pos hj]
    rfl
  · rw [if_neg (Nat.lt_irrefl _), if_pos rfl, replicate_append_at]
    rfl
  · rw [if_neg (Nat.lt_asymm hj), if_neg (Nat.ne_of_gt hj), getElem?_append_right (by simp; omega), length_replicate]
    obtain ⟨d, rfl⟩ := Nat.exists_eq_add_of_lt hj
    rw [show k + d + 1 - k = d + 1 by omega, getElem?_cons_succ, getElem?_drop]
    congr 2
    omega

namespace ListHeap

/-- `max_lev` after a list was put in a level that was free. -/
theorem capLevel_of_lt {k : ℕ} (hk : k < maxListLengthBits) (maxLev : ℕ) :
    capLevel k maxLev = (k, if k > maxLev then k else maxLev) := by
  unfold capLevel
  split
  · rw [if_neg (Nat.not_le_of_lt hk)]
  · rfl

theorem capLevel_full : capLevel maxListLengthBits (maxListLengthBits - 1) = (maxListLengthBits - 1, maxListLengthBits - 1) :=
  rfl

variable (cmp) in
/-- A list is put in the levels, and `max_lev` goes with it. -/
theorem place_levels {parts : List (List (ℕ × ι))} {maxLev inner : ℕ} {cur : List (ℕ × ι)} (hlev : Levels h parts maxLev)
    (hcur : Forward h cur none) (hne : cur ≠ []) (hnd : ((levelItems parts ++ cur).map Prod.fst).Nodup)
    (hrounds : (levelItems parts ++ cur).length < inner) :
    ∃ h' part lev c maxLev', carryLoop cmp inner (maxListLengthBits + 1) h (slots parts) 0 (firstAddr cur none) =
        some (h', part, lev, c) ∧
      (capLevel lev maxLev).2 = maxLev' ∧
      part.set (capLevel lev maxLev).1 c = slots (carry (cmpLe cmp) parts cur) ∧
      Levels h' (carry (cmpLe cmp) parts cur) maxLev' ∧ SameOutside ((levelItems parts ++ cur).map Prod.fst) h h' := by
  obtain ⟨h', k, cs, hrun, hk, hcs, htake, hlt, hfull, hforward, hparts, hs⟩ :=
    carryLoop_levels 0 hlev.forward hcur hne hnd hrounds (by rw [hlev.length]; exact Nat.lt_succ_self _)
  have hne' : parts ≠ [] := by
    rintro rfl
    exact absurd hlev.length (by simp [maxListLengthBits])
  rw [replicate_zero, nil_append, Nat.zero_add] at hrun
  rcases Nat.lt_or_eq_of_le hk with hklt | rfl
  · obtain ⟨hdrop, hcarry⟩ := hlt hklt
    have hk20 : k < maxListLengthBits := hlev.length ▸ hklt
    refine ⟨h', _, _, _, _, hrun, rfl, ?_, ?_, hs⟩
    · rw [capLevel_of_lt hk20, hdrop, slots_cons, replicate_append_set, hcarry, slots_append_replicate, slots_cons]
    · rw [capLevel_of_lt hk20]
      refine ⟨(length_carry hne').trans hlev.length, ?_, ?_, ?_, Or.inl ?_⟩
      · rw [hcarry]
        refine forall_mem_append.mpr ⟨fun xs hxs => eq_of_mem_replicate hxs ▸ trivial, forall_mem_cons.mpr ⟨hforward, ?_⟩⟩
        exact fun xs hxs => hparts xs (hdrop ▸ mem_cons_of_mem _ hxs)
      · split
        · exact hk20
        · exact hlev.bound
      · intro j hj
        have hkj : k < j := by split at hj <;> omega
        rw [hcarry, getD_placed hklt, if_neg (Nat.lt_asymm hkj), if_neg (Nat.ne_of_gt hkj)]
        exact hlev.above j (by split at hj <;> omega)
      · rw [hcarry, getD_placed hklt]
        rcases Nat.lt_or_ge k maxLev with hlt | hge
        · rw [if_neg (Nat.lt_asymm hlt), if_neg (Nat.lt_asymm hlt), if_neg (Nat.ne_of_gt hlt)]
          exact hlev.top.resolve_right fun hall => Nat.not_lt_zero k (hall.1 ▸ hlt)
        · have hk : (if k > maxLev then k else maxLev) = k := by split <;> omega
          rwa [hk, if_neg (Nat.lt_irrefl _), if_pos rfl]
  · -- all levels are used, and the last one takes the list
    have hcarry := hfull rfl
    rw [drop_length] at hrun
    rw [hlev.length] at hrun hcarry
    have hlast : parts.getD (maxListLengthBits - 1) [] ≠ [] := by
      rw [take_length] at htake
      have hlt : maxListLengthBits - 1 < parts.length := by
        rw [hlev.length]
        exact Nat.lt_succ_self 19
      rw [getD_eq_getElem?_getD, getElem?_eq_getElem hlt]
      exact htake _ (getElem_mem hlt)
    have hmax : maxLev = maxListLengthBits - 1 := by
      have hbound := hlev.bound
      by_contra hne
      exact hlast (hlev.above _ (by omega))
    subst hmax
    have hlength : (carry (cmpLe cmp) parts cur).length = maxListLengthBits := (length_carry hne').trans hlev.length
    refine ⟨h', _, _, _, _, hrun, rfl, ?_, ⟨hlength, ?_, Nat.lt_succ_self 19, fun j hj => ?_, Or.inl ?_⟩, hs⟩
    · rw [capLevel_full, hcarry, slots_append_replicate]
      exact replicate_append_set 19 none none _ [none]
    · rw [hcarry]
      exact forall_mem_append.mpr
        ⟨fun xs hxs => eq_of_mem_replicate hxs ▸ trivial, forall_mem_singleton.mpr hforward⟩
    · rw [getD_eq_getElem?_getD, getElem?_eq_none (by rw [hlength]; exact hj)]
      rfl
    · rw [hcarry]
      exact hcs

variable (cmp) in
/-- **All cells are put in the levels**, one after the other. -/
theorem sortLoop_levels {parts : List (List (ℕ × ι))} {xs : List (ℕ × ι)} {maxLev inner : ℕ} (hlev : Levels h parts maxLev)
    (hxs : Forward h xs none) (hnd : ((levelItems parts ++ xs).map Prod.fst).Nodup)
    (hinner : (levelItems parts ++ xs).length < inner) (hrounds : xs.length < rounds) :
    ∃ h' maxLev', sortLoop cmp inner rounds h (slots parts) maxLev (firstAddr xs none) =
        some (h', slots (xs.foldl (fun parts x => carry (cmpLe cmp) parts [x]) parts), maxLev') ∧
      Levels h' (xs.foldl (fun parts x => carry (cmpLe cmp) parts [x]) parts) maxLev' ∧
      SameOutside ((levelItems parts ++ xs).map Prod.fst) h h' := by
  induction xs generalizing h parts maxLev rounds with
  | nil =>
    obtain ⟨rounds, rfl⟩ := Nat.exists_eq_succ_of_ne_zero (Nat.ne_zero_of_lt hrounds)
    exact ⟨h, maxLev, rfl, hlev, fun _ _ => rfl⟩
  | cons x xs ih =>
    obtain ⟨rounds, rfl⟩ := Nat.exists_eq_succ_of_ne_zero (Nat.ne_zero_of_lt hrounds)
    obtain ⟨a, x⟩ := x
    obtain ⟨⟨p, hcell⟩, hxs⟩ := hxs
    rw [append_cons, map_append] at hnd
    rw [append_cons, length_append] at hinner
    obtain ⟨hnda, hndx, hdisj⟩ := nodup_append.mp hnd
    let h₁ : ListHeap ι := Function.update h a (some ⟨x, p, none⟩)
    have hs₁ : SameOutside [a] h h₁ := sameOutside_update a _
    have hlev₁ : Levels h₁ parts maxLev := by
      refine ⟨hlev.length, fun ys hys => linked_of_levels hlev.forward hs₁ (fun b hb hba => ?_) hys, hlev.bound,
        hlev.above, hlev.top⟩
      rw [map_append] at hnda
      exact (nodup_append.mp hnda).2.2 b hb a (by simp) (mem_singleton.mp hba)
    have hcell₁ : Forward h₁ [(a, x)] none := ⟨⟨p, Function.update_self _ _ _⟩, trivial⟩
    obtain ⟨h₂, part, lev, c, maxLev₂, hcarry, hmax, hset, hlev₂, hs₂⟩ :=
      place_levels cmp hlev₁ hcell₁ (cons_ne_nil _ _) hnda (Nat.lt_of_le_of_lt (Nat.le_add_right _ _) hinner)
    have hperm : levelItems (carry (cmpLe cmp) parts [(a, x)]) ~ levelItems parts ++ [(a, x)] := carry_perm
    have hs₁₂ : SameOutside ((levelItems parts ++ [(a, x)]).map Prod.fst) h h₂ :=
      hs₁.trans hs₂ fun b hb => by rw [mem_singleton.mp hb]; simp
    have hxs₂ : Forward h₂ xs none := hs₁₂.forward hxs fun b hb hmem => hdisj b hmem b hb rfl
    obtain ⟨h', maxLev', hrun, hlev', hs'⟩ := ih hlev₂ hxs₂
      (((hperm.append_right xs).map Prod.fst).nodup_iff.mpr (by rwa [map_append]))
      (by rw [length_append, hperm.length_eq]; exact hinner) (Nat.lt_of_succ_lt_succ hrounds)
    refine ⟨h', maxLev', ?_, hlev', ?_⟩
    · rw [firstAddr] at hcarry
      rw [← hset, ← hmax] at hrun
      rw [firstAddr, sortLoop, hcell]
      simp only [Option.bind_eq_bind, Option.bind_some, putNext_of_some hcell]
      change (carryLoop cmp inner (maxListLengthBits + 1) h₁ (slots parts) 0 (some a)).bind _ = _
      rw [hcarry]
      exact hrun
    · rw [append_cons, map_append]
      refine (hs₁₂.mono fun b hb => mem_append_left _ hb).trans (hs'.mono fun b hb => ?_) fun _ hb => hb
      rwa [((hperm.append_right xs).map Prod.fst).mem_iff, map_append] at hb

/-! ## The levels are merged -/

theorem collectLoop_succ {part : List (Option ℕ)} {m : ℕ} {list : Option ℕ} {first : Option ℕ} (hslot : part[m]? = some first) :
    collectLoop cmp rounds part (m + 1) h list = (collectLoop cmp rounds part m h list).bind fun r =>
      if first.isSome then merge cmp rounds r.1 first r.2 else some r := by
  rw [collectLoop, range_succ, foldlM_append]
  refine congrArg _ (funext fun r => ?_)
  rw [foldlM_cons, hslot]
  cases first with
  | none => rfl
  | some a => exact bind_pure (merge cmp rounds r.1 (some a) r.2)

variable (cmp) in
/-- The lists of the first levels are merged. -/
theorem collectLoop_levels {parts : List (List (ℕ × ι))} (hparts : ∀ xs ∈ parts, Forward h xs none)
    (hnd : ((levelItems parts).map Prod.fst).Nodup) (hrounds : (levelItems parts).length < rounds) {m : ℕ}
    (hm : m ≤ parts.length) :
    ∃ h', collectLoop cmp rounds (slots parts) m h none = some (h', firstAddr (collect (cmpLe cmp) (parts.take m)) none) ∧
      Forward h' (collect (cmpLe cmp) (parts.take m)) none ∧
      SameOutside ((levelItems (parts.take m)).map Prod.fst) h h' := by
  induction m with
  | zero => exact ⟨h, rfl, trivial, fun _ _ => rfl⟩
  | succ m ih =>
    obtain ⟨h₁, hrun, hforward, hs₁⟩ := ih (Nat.le_of_succ_le hm)
    have hlt : m < parts.length := hm
    have htake : parts.take (m + 1) = parts.take m ++ [parts[m]] := by rw [take_add_one, getElem?_eq_getElem hlt]; rfl
    have hitems : levelItems (parts.take (m + 1)) = parts[m] ++ levelItems (parts.take m) := by
      rw [htake, levelItems_append]
      simp [levelItems]
    have hcollect : collect (cmpLe cmp) (parts.take (m + 1)) =
        List.merge parts[m] (collect (cmpLe cmp) (parts.take m)) (cmpLe cmp) := by
      rw [htake, collect, foldl_append]
      rfl
    have hslot : (slots parts)[m]? = some (firstAddr parts[m] none) := by
      rw [slots, getElem?_append_left (by rwa [length_map]), getElem?_map, getElem?_eq_getElem hlt]
      rfl
    have hsub : levelItems (parts.take (m + 1)) <+ levelItems parts := by
      conv_rhs => rw [← take_append_drop (m + 1) parts, levelItems_append]
      exact sublist_append_right _ _
    have hperm : parts[m] ++ collect (cmpLe cmp) (parts.take m) ~ levelItems (parts.take (m + 1)) :=
      hitems ▸ collect_perm.append_left _
    have hndm : ((levelItems (parts.take (m + 1))).map Prod.fst).Nodup := hnd.sublist (hsub.map _)
    have hdisj : ∀ a ∈ parts[m].map Prod.fst, a ∉ (levelItems (parts.take m)).map Prod.fst := by
      rw [hitems, map_append] at hndm
      exact fun a ha hmem => (nodup_append.mp hndm).2.2 a ha a hmem rfl
    rw [collectLoop_succ hslot, hrun, Option.bind_some, hcollect]
    have hmono : ∀ a ∈ (levelItems (parts.take m)).map Prod.fst, a ∈ (levelItems (parts.take (m + 1))).map Prod.fst :=
      fun a ha => by rw [hitems, map_append]; exact mem_append_right _ ha
    have hpart : Forward h₁ parts[m] none := hs₁.forward (hparts _ (getElem_mem hlt)) hdisj
    rcases hcase : parts[m] with _ | ⟨x, xs⟩
    · rw [nil_merge]
      exact ⟨h₁, rfl, hforward, hs₁.mono hmono⟩
    · rw [← hcase]
      obtain ⟨h', hmerge, hforward', hs'⟩ := merge_linked cmp hpart hforward
        ((hperm.map Prod.fst).nodup_iff.mpr hndm) (by
          have hle := hsub.length_le
          rw [← length_append, hperm.length_eq]
          omega : _ < rounds)
      refine ⟨h', ?_, hforward', (hs₁.mono hmono).trans (hs'.mono fun a ha => ?_) fun _ ha => ha⟩
      · rw [← hmerge, hcase]
        rfl
      · exact ((hperm.map Prod.fst).mem_iff).mp ha

/-! ## The code -/

variable (cmp) in
/-- The highest level that is used is merged last. -/
theorem collect_of_top {parts : List (List (ℕ × ι))} {maxLev : ℕ} (hlev : Levels h parts maxLev) :
    ∃ top, parts[maxLev]? = some top ∧
      collect (cmpLe cmp) parts = List.merge top (collect (cmpLe cmp) (parts.take maxLev)) (cmpLe cmp) ∧
      levelItems parts = top ++ levelItems (parts.take maxLev) := by
  have hlt : maxLev < parts.length := hlev.length ▸ hlev.bound
  have hrest : parts.drop (maxLev + 1) = replicate (parts.length - (maxLev + 1)) [] := by
    refine eq_replicate_iff.mpr ⟨length_drop, fun xs hxs => ?_⟩
    obtain ⟨j, hj, rfl⟩ := mem_iff_getElem.mp hxs
    have habove := hlev.above (maxLev + 1 + j) (by omega)
    rw [getElem_drop]
    rwa [getD_eq_getElem?_getD, getElem?_eq_getElem (by rw [length_drop] at hj; omega)] at habove
  have hparts : parts = parts.take maxLev ++ parts[maxLev] :: replicate (parts.length - (maxLev + 1)) [] := by
    rw [← hrest, getElem_cons_drop, take_append_drop]
  have hnil : ∀ n (list : List (ℕ × ι)),
      (replicate n []).foldl (fun list part => List.merge part list (cmpLe cmp)) list = list := by
    intro n
    induction n with
    | zero => exact fun _ => rfl
    | succ n ih =>
      intro list
      rw [replicate_succ, foldl_cons, nil_merge, ih]
  refine ⟨parts[maxLev], getElem?_eq_getElem hlt, ?_, ?_⟩
  · conv_lhs => rw [hparts]
    rw [collect, foldl_append, foldl_cons, hnil]
    rfl
  · conv_lhs => rw [hparts]
    rw [levelItems_append, levelItems_cons, levelItems_replicate]
    rfl

variable (cmp) in
/-- **The list that `td_list_sort` leaves** has the cells in the order of the merges. -/
theorem tdListSort_circular {head : ℕ} {x : ι} {xs : List (ℕ × ι)} (hlist : Circular h head x xs)
    (hrounds : xs.length < rounds) :
    ∃ h', tdListSort cmp rounds h head = some h' ∧
      Circular h' head x (bottomUpSort (cmpLe cmp) maxListLengthBits xs) ∧
      SameOutside (head :: xs.map Prod.fst) h h' := by
  obtain ⟨hhead, hseg, hnd⟩ := hlist
  obtain ⟨hheadxs, hndxs⟩ := nodup_cons.mp hnd
  rcases eq_nil_or_concat xs with rfl | ⟨zs, ⟨l, y⟩, rfl⟩
  · have hnil : bottomUpSort (cmpLe cmp) maxListLengthBits ([] : List (ℕ × ι)) = [] := (bottomUpSort_perm _ _).eq_nil
    rw [hnil]
    refine ⟨h, ?_, ⟨hhead, trivial, hnd⟩, fun _ _ => rfl⟩
    rw [tdListSort, hhead]
    exact if_pos rfl
  rw [concat_eq_append] at *
  set xs := zs ++ [(l, y)] with hxs
  have hne : xs ≠ [] := by simp [hxs]
  have hlhead : head ≠ l := fun heq => hheadxs (by simp [hxs, heq])
  obtain ⟨hl, hseg₁⟩ := segment_concat_update hseg hndxs none
  have hfirst : firstAddr xs (some head) ≠ some head := by
    rw [firstAddr_of_ne_nil hne _ none]
    exact firstAddr_ne_of_not_mem hheadxs
  have hlast : lastAddr (some head) xs = some l := by rw [hxs, lastAddr_append]; rfl
  let h₁ : ListHeap ι := Function.update h l (some ⟨y, lastAddr (some head) zs, none⟩)
  have hhead₁ : h₁ head = some ⟨x, some l, firstAddr xs none⟩ := by
    rw [← hlast, firstAddr_of_ne_nil hne none (some head), ← hhead]
    exact Function.update_of_ne hlhead _ _
  have hlev₁ : Levels h₁ (replicate maxListLengthBits []) 0 := by
    refine ⟨length_replicate, fun ys hys => eq_of_mem_replicate hys ▸ trivial, by decide, fun j _ => ?_,
      Or.inr ⟨rfl, levelItems_replicate _⟩⟩
    rw [getD_eq_getElem?_getD, getElem?_replicate]
    split <;> rfl
  have hitems : levelItems (replicate maxListLengthBits []) ++ xs = xs := by rw [levelItems_replicate, nil_append]
  obtain ⟨h₂, maxLev, hsort, hlev₂, hs₂⟩ := sortLoop_levels cmp hlev₁ (Forward.of_segment hseg₁)
    (by rwa [hitems]) (by rwa [hitems]) hrounds
  rw [hitems] at hs₂
  set parts := xs.foldl (fun parts x => carry (cmpLe cmp) parts [x]) (replicate maxListLengthBits []) with hparts
  have hperm : levelItems parts ~ xs := (collect_perm : collect (cmpLe cmp) parts ~ _).symm.trans (bottomUpSort_perm _ xs)
  have hndp : ((levelItems parts).map Prod.fst).Nodup := (hperm.map _).nodup_iff.mpr hndxs
  have hheadp : head ∉ (levelItems parts).map Prod.fst := fun hmem => hheadxs ((hperm.map _).mem_iff.mp hmem)
  obtain ⟨top, htop, hcollect, hlevels⟩ := collect_of_top cmp hlev₂
  obtain ⟨h₃, hlow, hforward, hs₃⟩ := collectLoop_levels cmp hlev₂.forward hndp
    (hperm.length_eq ▸ hrounds) (hlev₂.length ▸ Nat.le_of_lt hlev₂.bound)
  rw [hlevels, map_append] at hndp hheadp
  have hhead₃ : h₃ head = some ⟨x, some l, firstAddr xs none⟩ := by
    rw [hs₃ head fun hmem => hheadp (mem_append_right _ hmem), hs₂ head hheadxs, hhead₁]
  have htop₃ : Forward h₃ top none := by
    refine hs₃.forward (hlev₂.forward top (mem_of_getElem? htop)) fun a ha hmem => ?_
    exact (nodup_append.mp hndp).2.2 a ha a hmem rfl
  have hlowperm : top ++ collect (cmpLe cmp) (parts.take maxLev) ~ xs :=
    (collect_perm.append_left top).trans (hlevels ▸ hperm)
  obtain ⟨h', hrun, hcircular, hs'⟩ := mergeAndRestoreBackLinks_circular cmp hhead₃ htop₃ hforward
    (((hlowperm.map _).cons head).nodup_iff.mpr hnd) (fun hnil => hne (hnil ▸ hlowperm).nil_eq.symm)
    (by rw [← length_append, hlowperm.length_eq]; exact hrounds)
  refine ⟨h', ?_, (show bottomUpSort (cmpLe cmp) maxListLengthBits xs = _ from hcollect) ▸ hcircular, ?_⟩
  · rw [tdListSort, hhead]
    change (if firstAddr xs (some head) = some head then some h else
      (lastAddr (some head) xs).bind fun last => (h.putNext last none).bind _) = _
    rw [if_neg hfirst, hlast, Option.bind_some, putNext_of_some hl, Option.bind_some]
    change (h₁ head).bind _ = _
    rw [hhead₁, Option.bind_some]
    change (sortLoop cmp rounds rounds h₁ (slots (replicate maxListLengthBits ([] : List (ℕ × ι)))) 0
      (firstAddr xs none)).bind _ = _
    rw [hsort, Option.bind_some]
    change (collectLoop cmp rounds (slots parts) maxLev h₂ none).bind _ = _
    rw [hlow, Option.bind_some]
    change ((slots parts)[maxLev]?).bind _ = _
    have hslot : (slots parts)[maxLev]? = some (firstAddr top none) := by
      rw [slots, getElem?_append_left (by rw [length_map, hlev₂.length]; exact hlev₂.bound), getElem?_map, htop]
      rfl
    rw [hslot, Option.bind_some]
    exact hrun
  · intro a ha
    have hmem : ∀ b, b ∈ (levelItems (parts.take maxLev)).map Prod.fst → b ∈ xs.map Prod.fst := fun b hb =>
      (hperm.map _).mem_iff.mp (by rw [hlevels, map_append]; exact mem_append_right _ hb)
    have haxs : a ∉ xs.map Prod.fst := fun hax => ha (mem_cons_of_mem _ hax)
    rw [hs' a fun hmem' => ha (((hlowperm.map _).cons head).mem_iff.mp hmem'), hs₃ a fun hmem' => haxs (hmem a hmem'),
      hs₂ a haxs]
    exact Function.update_of_ne (fun hal => haxs (by simp [hxs, hal])) _ _

theorem circular_unique {head : ℕ} {x : ι} {xs ys : List (ℕ × ι)} {h₁ h₂ : ListHeap ι} (h₁list : Circular h₁ head x ys)
    (h₂list : Circular h₂ head x ys) (hperm : ys ~ xs) (h₁same : SameOutside (head :: xs.map Prod.fst) h h₁)
    (h₂same : SameOutside (head :: xs.map Prod.fst) h h₂) : h₁ = h₂ := by
  funext a
  by_cases ha : a ∈ head :: xs.map Prod.fst
  · rcases mem_cons.mp ha with rfl | ha
    · rw [h₁list.sentinel, h₂list.sentinel]
    · exact segment_cells h₁list.cells h₂list.cells a ((hperm.map Prod.fst).mem_iff.mpr ha)
  · rw [h₁same a ha, h₂same a ha]

variable (cmp) in
/-- One more round than there are cells is enough. -/
theorem tdListSort_ends {head : ℕ} {x : ι} {xs : List (ℕ × ι)} (hlist : Circular h head x xs) :
    ∃ h', (∀ rounds, xs.length < rounds → tdListSort cmp rounds h head = some h') ∧
      Circular h' head x (bottomUpSort (cmpLe cmp) maxListLengthBits xs) ∧ SameOutside (head :: xs.map Prod.fst) h h' := by
  obtain ⟨h', -, hcircular, hsame⟩ := tdListSort_circular cmp hlist (Nat.lt_succ_self _)
  have hperm : bottomUpSort (cmpLe cmp) maxListLengthBits xs ~ xs := bottomUpSort_perm _ _
  refine ⟨h', fun rounds hrounds => ?_, hcircular, hsame⟩
  obtain ⟨h'', hrun, hcircular', hsame'⟩ := tdListSort_circular cmp hlist hrounds
  rw [hrun, circular_unique hcircular' hcircular hperm hsame' hsame]

/-- The levels give the stable sort, when the comparison is an order. -/
theorem bottomUpSort_cmpLe (htotal : ∀ a b, cmp a b ≤ 0 ∨ cmp b a ≤ 0)
    (htrans : ∀ a b c, cmp a b ≤ 0 → cmp b c ≤ 0 → cmp a c ≤ 0) (xs : List (ℕ × ι)) :
    bottomUpSort (cmpLe cmp) maxListLengthBits xs = xs.mergeSort (cmpLe cmp) := by
  refine bottomUpSort_eq_mergeSort (fun a b c hab hbc => ?_) (fun a b => ?_) _ xs
  · exact decide_eq_true (htrans _ _ _ (of_decide_eq_true hab) (of_decide_eq_true hbc))
  · rw [Bool.or_eq_true]
    exact (htotal a.2 b.2).imp decide_eq_true decide_eq_true

variable (cmp) in
/-- **`td_list_sort` sorts.** For any comparison it comes to an end, without a cell that is not there, and leaves a
circular list of the same cells, all other cells aside. If the comparison is an order, then it is the stable sort. -/
theorem tdListSort_sorts {head : ℕ} {x : ι} {xs : List (ℕ × ι)} (hlist : Circular h head x xs) :
    ∃ h' ys, (∀ rounds, xs.length < rounds → tdListSort cmp rounds h head = some h') ∧ Circular h' head x ys ∧ ys ~ xs ∧
      SameOutside (head :: xs.map Prod.fst) h h' ∧
      ((∀ a b, cmp a b ≤ 0 ∨ cmp b a ≤ 0) → (∀ a b c, cmp a b ≤ 0 → cmp b c ≤ 0 → cmp a c ≤ 0) →
        ys = xs.mergeSort (cmpLe cmp)) := by
  obtain ⟨h', hrun, hcircular, hsame⟩ := tdListSort_ends cmp hlist
  exact ⟨h', _, hrun, hcircular, bottomUpSort_perm _ _, hsame, fun htotal htrans => bottomUpSort_cmpLe htotal htrans xs⟩

/-- A list of two cells, and its head. -/
def twoCells : ListHeap ℤ
  | 0 => some ⟨0, some 2, some 1⟩
  | 1 => some ⟨5, some 0, some 2⟩
  | 2 => some ⟨3, some 1, some 0⟩
  | _ => none

theorem tdListSort_sorts_twoCells :
    ∃ h' ys, (∀ rounds, 2 < rounds → tdListSort (fun a b => a - b) rounds twoCells 0 = some h') ∧ Circular h' 0 0 ys ∧
      ys ~ [(1, 5), (2, 3)] ∧ SameOutside [0, 1, 2] twoCells h' ∧
      ((∀ a b : ℤ, a - b ≤ 0 ∨ b - a ≤ 0) → (∀ a b c : ℤ, a - b ≤ 0 → b - c ≤ 0 → a - c ≤ 0) →
        ys = [(1, 5), (2, 3)].mergeSort (cmpLe fun a b : ℤ => a - b)) :=
  have hlist : Circular twoCells 0 0 [(1, 5), (2, 3)] := ⟨rfl, ⟨rfl, rfl, trivial⟩, by decide⟩
  tdListSort_sorts (fun a b => a - b) hlist

end ListHeap

end RecoveryQt
