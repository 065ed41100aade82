import Mathlib.Data.List.Basic
import Mathlib.Data.List.Range

/-!
# Lists of locations

A file has pieces `0 .. n - 1`; each has a location, or none (a hole).

* `Locates`: the list has one location for each piece, in order;
* `locates_filterMap`: leaving holes out gives such a list exactly when there is no hole;
* `locates_flatten`: so for a list of places that may be longer than the file;
* `flatMap_range_ite`: a loop that passes numbers over.
-/

namespace RecoveryQt

open List

variable {α : Type*}

/-- The list has the location of each of the `n` pieces. -/
def Locates (loc : ℕ → Option α) (n : ℕ) (l : List α) : Prop := l.map some = (range n).map loc

section Basic

variable {loc : ℕ → Option α} {n : ℕ} {l : List α}

theorem Locates.length_eq (h : Locates loc n l) : l.length = n := by
  have := congrArg length h
  rwa [length_map, length_map, length_range] at this

/-- Each piece has a location, and the list has it. -/
theorem Locates.getElem? (h : Locates loc n l) {j : ℕ} (hj : j < n) :
    ∃ x, loc j = some x ∧ l[j]? = some x := by
  have hlen := h.length_eq
  have hget := congrArg (·[j]?) h
  simp only [getElem?_map, getElem?_range hj, Option.map_some] at hget
  have hl : l[j]? = some l[j] := getElem?_eq_getElem (by omega)
  rw [hl, Option.map_some, Option.some.injEq] at hget
  exact ⟨l[j], hget.symm, hl⟩

theorem Locates.isSome (h : Locates loc n l) {j : ℕ} (hj : j < n) : (loc j).isSome := by
  obtain ⟨x, hx, -⟩ := h.getElem? hj
  rw [hx]
  rfl

/-- When the locations are known, so is the list. -/
theorem locates_iff_eq_map {f : ℕ → α} (h : ∀ j < n, loc j = some (f j)) :
    Locates loc n l ↔ l = (range n).map f := by
  have hmap : (range n).map loc = ((range n).map f).map some := by
    rw [map_map]
    exact map_congr_left fun j hj => h j (mem_range.mp hj)
  rw [Locates, hmap]
  exact (map_injective_iff.mpr fun _ _ => Option.some.inj).eq_iff

/-- **Without its holes** a file is located exactly when it has none. -/
theorem locates_filterMap : Locates loc n ((range n).filterMap loc) ↔ ∀ j < n, (loc j).isSome := by
  constructor
  · exact fun h j hj => h.isSome hj
  · intro h
    induction n with
    | zero => rfl
    | succ n ih =>
      obtain ⟨x, hx⟩ := Option.isSome_iff_exists.mp (h n (Nat.lt_succ_self n))
      have ih := ih fun j hj => h j (Nat.lt_succ_of_lt hj)
      rw [Locates] at ih ⊢
      rw [range_succ, filterMap_append, map_append, map_append, ih, map_singleton, hx]
      simp [hx]

end Basic

/-- A selection of the numbers below a bound. -/
theorem flatMap_range_ite {p : ℕ → Prop} [DecidablePred p] {f : ℕ → α} {m n : ℕ} (hm : m ≤ n)
    (hlt : ∀ i < m, ¬ p i) (hge : ∀ i, m ≤ i → i < n → p i) :
    ((range n).flatMap fun i => if p i then [] else [f i]) = (range m).map f := by
  obtain ⟨k, rfl⟩ := Nat.exists_eq_add_of_le hm
  have hfirst : ((range m).flatMap fun i => if p i then [] else [f i]) =
      (range m).flatMap fun i => [f i] :=
    flatMap_congr fun i hi => if_neg (hlt i (mem_range.mp hi))
  have hsecond : (((range k).map (m + ·)).flatMap fun i => if p i then [] else [f i]) = [] := by
    rw [flatMap_eq_nil_iff]
    intro i hi
    obtain ⟨j, hj, rfl⟩ := mem_map.mp hi
    exact if_pos (hge _ (Nat.le_add_right m j) (Nat.add_lt_add_left (mem_range.mp hj) m))
  rw [range_add, flatMap_append, hfirst, hsecond, List.append_nil,
    map_eq_flatMap]

/-- **A list of places without its holes**: the first `n` are no holes, and behind them are only
holes. -/
theorem locates_flatten {places : List (Option α)} {n : ℕ} :
    Locates (fun j => places[j]?.join) n (places.filterMap id) ↔
      n ≤ places.length ∧ ∀ j (h : j < places.length), places[j] = none ↔ n ≤ j := by
  constructor
  · intro h
    have hlen : n ≤ places.length := by
      by_contra hn
      obtain ⟨x, hx, -⟩ := h.getElem? (Nat.lt_of_not_le hn)
      simp at hx
    refine ⟨hlen, fun j hj => ⟨fun hnone => ?_, fun hle => ?_⟩⟩
    · by_contra hlt
      obtain ⟨x, hx, -⟩ := h.getElem? (Nat.lt_of_not_le hlt)
      rw [getElem?_eq_getElem hj, hnone] at hx
      cases hx
    · -- the first `n` places fill the list, and nothing is left for the others
      have hfirst : n ≤ ((places.take n).filterMap id).length := by
        have hmem : ∀ x ∈ places.take n, x.isSome := by
          intro x hx
          obtain ⟨i, hi, rfl⟩ := getElem_of_mem hx
          rw [length_take] at hi
          obtain ⟨y, hy, -⟩ := h.getElem? (show i < n by omega)
          rw [getElem?_eq_getElem (by omega)] at hy
          rw [getElem_take]
          exact Option.isSome_iff_exists.mpr ⟨y, hy⟩
        have hcount : countP (fun x => (id x).isSome) (places.take n) = (places.take n).length :=
          countP_eq_length.mpr hmem
        rw [length_filterMap_eq_countP, hcount, length_take]
        omega
      have hsplit : places.filterMap id =
          (places.take n).filterMap id ++ (places.drop n).filterMap id := by
        rw [← filterMap_append, take_append_drop]
      have htotal := h.length_eq
      rw [hsplit, length_append] at htotal
      have hnil : (places.drop n).filterMap id = [] := length_eq_zero_iff.mp (by omega)
      rw [filterMap_eq_nil_iff] at hnil
      apply hnil
      rw [mem_drop_iff_getElem]
      exact ⟨j - n, by omega, by congr 1; omega⟩
  · rintro ⟨hlen, hplaces⟩
    have hdrop : (places.drop n).filterMap id = [] := by
      rw [filterMap_eq_nil_iff]
      intro x hx
      obtain ⟨i, hi, rfl⟩ := mem_drop_iff_getElem.mp hx
      exact (hplaces _ _).mpr (Nat.le_add_right n i)
    have hloc : ∀ j < n, (places[j]?.join).isSome := by
      intro j hj
      rw [getElem?_eq_getElem (by omega)]
      have hne := mt (hplaces j (by omega)).mp (by omega)
      exact Option.isSome_iff_ne_none.mpr hne
    have htake : (places.take n).filterMap id = (range n).filterMap fun j => places[j]?.join := by
      have hrange : places.take n = (range n).map fun j => places[j]?.join := by
        apply ext_getElem
        · simp [hlen]
        · intro i h1 h2
          rw [getElem_take, getElem_map, getElem_range, getElem?_eq_getElem]
          rfl
      rw [hrange, filterMap_map]
      rfl
    rw [← take_append_drop n places, filterMap_append, hdrop, List.append_nil, take_append_drop, htake]
    exact locates_filterMap.mpr hloc

end RecoveryQt
