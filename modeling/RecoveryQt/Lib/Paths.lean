import RecoveryQt.Lib.Rebuild
import Mathlib.Data.List.Nodup

/-!
# The paths of a forest

* `Forest.mem_listed`, `Forest.nodup_listed`: the nodes listed with their paths;
* `Forest.paths`: those down to a depth; `Forest.paths_eq_filter`;
* **`Forest.mem_paths`**: they are the paths with a label; `Forest.nodup_paths`: no path occurs twice;
* `Forest.prune`, **`Forest.label?_prune`**: the forest without what is below some of the nodes.
-/

namespace RecoveryQt

open List

namespace Forest

variable {κ α : Type*}

/-! ### Nodes with their paths -/

/-- The paths listed begin with the names of the siblings. -/
theorem head_mem_names_of_listed {descend : α → Bool} {f : Forest κ α} {n : κ} {ns : List κ} {a : α}
    (h : (n :: ns, a) ∈ f.listed descend) : n ∈ f.names := by
  induction f with
  | nil => cases h
  | cons k b ch nx _ ih =>
    rw [listed, mem_cons, mem_append] at h
    rcases h with h | h | h
    · exact (List.cons.inj (Prod.mk.inj h).1).1 ▸ mem_cons_self
    · split_ifs at h
      · obtain ⟨y, -, hy⟩ := mem_map.mp h
        exact (List.cons.inj (Prod.mk.inj hy).1).1 ▸ mem_cons_self
      · cases h
    · exact mem_cons_of_mem _ (ih h)

section Listed

variable [DecidableEq κ]

theorem label?_cons (k : κ) (a : α) (ch nx : Forest κ α) (n : κ) (ns : List κ) :
    (cons k a ch nx).label? (n :: ns) =
      if k = n then (if ns = [] then some a else ch.label? ns) else nx.label? (n :: ns) := by
  have hchild : (cons k a ch nx).child? n = if k = n then some (a, ch) else nx.child? n := rfl
  split_ifs with hk hns
  · subst hns
    rw [label?, hchild, if_pos hk]
    rfl
  · obtain ⟨m, ms, rfl⟩ := exists_cons_of_ne_nil hns
    rw [label?, hchild, if_pos hk]
    rfl
  · rw [if_neg hk] at hchild
    exact label?_congr hchild ns

/-- **The nodes are the paths with a label.** -/
theorem mem_listed {f : Forest κ α} (hd : f.Distinct) {p : List κ} {a : α} :
    (p, a) ∈ f.listed (fun _ => true) ↔ f.label? p = some a := by
  induction f generalizing p a with
  | nil => simp [listed, label?_nil]
  | cons k b ch nx ihc ihn =>
    obtain ⟨hk, hch, hnx⟩ := hd
    cases p with
    | nil =>
      refine iff_of_false (fun h => ne_nil_of_mem_listed h rfl) fun h => ?_
      simp [label?] at h
    | cons n ns =>
      rw [label?_cons, listed, mem_cons, if_pos rfl, mem_append, mem_map]
      by_cases hkn : k = n
      · subst hkn
        rw [if_pos rfl]
        constructor
        · rintro (h | ⟨⟨q, c⟩, hq, h⟩ | h)
          · obtain ⟨h1, rfl⟩ := Prod.mk.inj h
            obtain rfl := (List.cons.inj h1).2
            exact if_pos rfl
          · obtain ⟨h1, rfl⟩ := Prod.mk.inj h
            obtain rfl := (List.cons.inj h1).2
            rw [if_neg (ne_nil_of_mem_listed hq)]
            exact (ihc hch).mp hq
          · exact absurd (head_mem_names_of_listed h) hk
        · intro h
          split_ifs at h with hns
          · obtain rfl := Option.some.inj h
            exact .inl (by rw [hns])
          · exact .inr (.inl ⟨(ns, a), (ihc hch).mpr h, rfl⟩)
      · rw [if_neg hkn, ← ihn hnx]
        constructor
        · rintro (h | ⟨y, -, h⟩ | h)
          · exact absurd (List.cons.inj (Prod.mk.inj h).1).1.symm hkn
          · exact absurd (List.cons.inj (Prod.mk.inj h).1).1 hkn
          · exact h
        · exact fun h => .inr (.inr h)

omit [DecidableEq κ] in
theorem nodup_listed {f : Forest κ α} (hd : f.Distinct) : (f.listed fun _ => true).Nodup := by
  induction f with
  | nil => exact nodup_nil
  | cons k a ch nx ihc ihn =>
    obtain ⟨hk, hch, hnx⟩ := hd
    rw [listed, if_pos rfl, nodup_cons, mem_append, nodup_append]
    have hother : ∀ x ∈ nx.listed fun _ => true, ∀ ns, x.1 ≠ k :: ns := by
      rintro ⟨_, b⟩ hx ns rfl
      exact hk (head_mem_names_of_listed hx)
    refine ⟨?_, ?_, ihn hnx, ?_⟩
    · rintro (h | h)
      · obtain ⟨y, hy, he⟩ := mem_map.mp h
        exact ne_nil_of_mem_listed hy (List.cons.inj (Prod.mk.inj he).1).2
      · exact hother _ h [] rfl
    · refine (ihc hch).map fun x y h => ?_
      obtain ⟨h1, h2⟩ := Prod.mk.inj h
      exact Prod.ext (List.cons.inj h1).2 h2
    · rintro x hx y hy rfl
      obtain ⟨z, -, rfl⟩ := mem_map.mp hx
      exact hother _ hy _ rfl

end Listed

/-! ### Down to a depth -/

/-- The nodes down to the depth `d` with their paths, parents before children. -/
def paths : ℕ → Forest κ α → List (List κ × α)
  | _, nil => []
  | 0, cons _ _ _ _ => []
  | d + 1, cons k a ch nx =>
    ([k], a) :: ((ch.paths d).map (fun x => (k :: x.1, x.2)) ++ nx.paths (d + 1))

@[simp] theorem paths_zero (f : Forest κ α) : f.paths 0 = [] := by cases f <;> rfl

/-- The paths down to a depth are the short ones of all. -/
theorem paths_eq_filter (d : ℕ) (f : Forest κ α) :
    f.paths d = (f.listed fun _ => true).filter fun x => x.1.length ≤ d := by
  induction f generalizing d with
  | nil => cases d <;> rfl
  | cons k a ch nx ihc ihn =>
    cases d with
    | zero =>
      refine (filter_eq_nil_iff.mpr fun x hx => ?_).symm
      simpa using ne_nil_of_mem_listed hx
    | succ d =>
      have hshort : (fun x : List κ × α => decide (x.1.length ≤ d + 1)) ∘ (fun x : List κ × α => (k :: x.1, x.2)) =
          fun x => decide (x.1.length ≤ d) := by
        funext x
        simp only [Function.comp_apply, length_cons, Nat.add_le_add_iff_right]
      rw [paths, listed, if_pos rfl, filter_cons_of_pos (by simp), filter_append, filter_map, hshort, ihc, ihn]

theorem ne_nil_of_mem_paths {d : ℕ} {f : Forest κ α} {x : List κ × α} (h : x ∈ f.paths d) : x.1 ≠ [] := by
  rw [paths_eq_filter] at h
  exact ne_nil_of_mem_listed (mem_filter.mp h).1

section Depth

variable [DecidableEq κ]

/-- **The nodes listed are those with a label, down to the depth.** -/
theorem mem_paths {d : ℕ} {f : Forest κ α} (hd : f.Distinct) {p : List κ} {a : α} :
    (p, a) ∈ f.paths d ↔ p.length ≤ d ∧ f.label? p = some a := by
  rw [paths_eq_filter, mem_filter, mem_listed hd, decide_eq_true_eq, and_comm]

/-- **No path is listed twice.** -/
theorem nodup_paths {d : ℕ} {f : Forest κ α} (hd : f.Distinct) : ((f.paths d).map Prod.fst).Nodup := by
  have hnodup : (f.paths d).Nodup := by
    rw [paths_eq_filter]
    exact (nodup_listed hd).filter _
  refine hnodup.map_on fun x hx y hy h => ?_
  have hlabel := ((mem_paths hd).mp hx).2
  rw [h, ((mem_paths hd).mp hy).2] at hlabel
  exact Prod.ext h (Option.some.inj hlabel).symm

end Depth

/-! ### Pruned forests -/

/-- The forest without the children of the nodes that are not kept open. -/
def prune (keep : α → Bool) : Forest κ α → Forest κ α
  | nil => nil
  | cons k a ch nx => cons k a (if keep a then ch.prune keep else nil) (nx.prune keep)

variable (keep : α → Bool)

theorem names_prune (f : Forest κ α) : (f.prune keep).names = f.names := by
  induction f with
  | nil => rfl
  | cons k a ch nx _ ih => rw [prune, names, names, ih]

theorem Distinct.prune {f : Forest κ α} (hd : f.Distinct) : (f.prune keep).Distinct := by
  induction f with
  | nil => trivial
  | cons k a ch nx ihc ihn =>
    obtain ⟨hk, hch, hnx⟩ := hd
    refine ⟨by rwa [names_prune], ?_, ihn hnx⟩
    split_ifs
    · exact ihc hch
    · trivial

/-- **A node is left** exactly when all nodes above it are kept open. -/
theorem label?_prune [DecidableEq κ] {f : Forest κ α} {p : List κ} {a : α} :
    (f.prune keep).label? p = some a ↔
      f.label? p = some a ∧ ∀ q b, q <+: p → q ≠ p → f.label? q = some b → keep b = true := by
  induction f generalizing p with
  | nil => simp [prune, label?_nil]
  | cons k c ch nx ihc ihn =>
    cases p with
    | nil => simp [label?]
    | cons n ns =>
      rw [prune, label?_cons, label?_cons]
      by_cases hkn : k = n
      · subst hkn
        rw [if_pos rfl, if_pos rfl]
        by_cases hns : ns = []
        · subst hns
          rw [if_pos rfl, if_pos rfl]
          refine (and_iff_left ?_).symm
          intro q b hq hne hb
          cases q with
          | nil => cases hb
          | cons m ms =>
            obtain ⟨rfl, hms⟩ := cons_prefix_cons.mp hq
            exact absurd (by rw [prefix_nil.mp hms]) hne
        · rw [if_neg hns, if_neg hns]
          cases hc : keep c with
          | false =>
            rw [if_neg Bool.false_ne_true, label?_nil]
            refine iff_of_false (by simp) fun h => ?_
            have hkeep := h.2 [k] c (cons_prefix_cons.mpr ⟨rfl, nil_prefix⟩)
              (fun heq => hns (List.cons.inj heq).2.symm) (by rw [label?_cons, if_pos rfl, if_pos rfl])
            rw [hc] at hkeep
            cases hkeep
          | true =>
            rw [if_pos rfl, ihc]
            refine and_congr_right fun _ => ?_
            constructor
            · intro h q b hq hne hb
              cases q with
              | nil => cases hb
              | cons m ms =>
                obtain ⟨rfl, hms⟩ := cons_prefix_cons.mp hq
                rw [label?_cons, if_pos rfl] at hb
                split_ifs at hb with hnil
                · exact Option.some.inj hb ▸ hc
                · exact h ms b hms (fun heq => hne (by rw [heq])) hb
            · intro h ms b hms hne hb
              refine h (k :: ms) b (cons_prefix_cons.mpr ⟨rfl, hms⟩)
                (fun heq => hne (List.cons.inj heq).2) ?_
              rw [label?_cons, if_pos rfl, if_neg, hb]
              rintro rfl
              cases hb
      · rw [if_neg hkn, if_neg hkn, ihn]
        refine and_congr_right fun _ => ?_
        refine forall_congr' fun q => forall_congr' fun b => ?_
        refine imp_congr_right fun hq => imp_congr_right fun _ => ?_
        cases q with
        | nil => simp [label?]
        | cons m ms =>
          obtain ⟨rfl, -⟩ := cons_prefix_cons.mp hq
          rw [label?_cons, if_neg hkn]

end Forest

end RecoveryQt
