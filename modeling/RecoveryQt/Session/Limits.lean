import RecoveryQt.Session.Loaded

/-!
# The limits of a saved path

* `pathTokens_take`: the names in the first bytes of a path;
* `cutPath`: the names under which a node is loaded;
* `cutPath_of_short`: those of the node, if its path is short;
* `length_cutPath_le`, `length_renderPath_cutPath_lt`: never more than the limits allow.
-/

namespace RecoveryQt

open List

/-! ## Paths cut short -/

theorem pathTokens_slash (r : List UInt8) : pathTokens (slash :: r) = pathTokens r := by
  rw [pathTokens, takeWhile_cons_of_pos (by decide), splitOnP_cons_eq_if_modifyHead,
    if_pos (by simp), filterMap_cons, Name.ofBytes?_nil]
  rfl

/-- A separator at the end of a path does not matter. -/
theorem pathTokens_renderPath_slash (q : List Name) : pathTokens (renderPath q ++ [slash]) = q := by
  induction q with
  | nil => exact pathTokens_slash []
  | cons n ns ih =>
    have hrest : ∃ r, renderPath ns ++ [slash] = slash :: r := by
      cases ns with
      | nil => exact ⟨[], rfl⟩
      | cons m ns => exact ⟨m.bytes ++ renderPath ns ++ [slash], rfl⟩
    obtain ⟨r, hr⟩ := hrest
    have hcons : renderPath (n :: ns) ++ [slash] = slash :: (n.bytes ++ slash :: r) := by
      rw [← hr, ← append_assoc]
      rfl
    rw [hr, pathTokens_slash] at ih
    rw [hcons, pathTokens_cons, ih]

/-- The first bytes of a path are a path, or end in a separator. -/
theorem take_renderPath (q : List Name) (k : ℕ) : ∃ q' : List Name, q'.length ≤ q.length ∧
    ((renderPath q).take k = renderPath q' ∨ (renderPath q).take k = renderPath q' ++ [slash]) := by
  induction q generalizing k with
  | nil => exact ⟨[], le_rfl, .inl take_nil⟩
  | cons n ns ih =>
    cases k with
    | zero => exact ⟨[], Nat.zero_le _, .inl rfl⟩
    | succ k =>
      rw [renderPath_cons, take_succ_cons, take_append]
      by_cases hk : k ≤ n.bytes.length
      · rw [Nat.sub_eq_zero_of_le hk, take_zero, List.append_nil]
        cases k with
        | zero => exact ⟨[], Nat.zero_le _, .inr rfl⟩
        | succ k =>
          -- the last name is cut
          have hne : n.bytes.take (k + 1) ≠ [] := by simp [n.ne_nil]
          refine ⟨[⟨n.bytes.take (k + 1), hne, fun b hb => n.plain b (mem_of_mem_take hb)⟩], ?_, .inl ?_⟩
          · exact Nat.succ_le_succ (Nat.zero_le _)
          · rw [renderPath_singleton]
      · obtain ⟨q', hlen, hq'⟩ := ih (k - n.bytes.length)
        refine ⟨n :: q', Nat.succ_le_succ hlen, ?_⟩
        rw [take_of_length_le (Nat.le_of_not_le hk), renderPath_cons]
        rcases hq' with h | h
        · exact .inl (by rw [h])
        · exact .inr (by rw [h, ← append_assoc]; rfl)

/-- **The names in the first bytes of a path**: no more of them, and no longer. -/
theorem pathTokens_take (q : List Name) (k : ℕ) :
    (pathTokens ((renderPath q).take k)).length ≤ q.length ∧
      (renderPath (pathTokens ((renderPath q).take k))).length ≤ k ∧
      (q ≠ [] → 2 ≤ k → pathTokens ((renderPath q).take k) ≠ []) := by
  obtain ⟨q', hlen, hq'⟩ := take_renderPath q k
  have htokens : pathTokens ((renderPath q).take k) = q' := by
    rcases hq' with h | h
    · rw [h, pathTokens_renderPath]
    · rw [h, pathTokens_renderPath_slash]
  have hbytes : (renderPath q').length ≤ ((renderPath q).take k).length ∧
      ((renderPath q).take k).length ≤ (renderPath q').length + 1 := by
    rcases hq' with h | h <;> rw [h] <;> simp
  rw [length_take] at hbytes
  rw [htokens]
  refine ⟨hlen, by omega, fun hq hk => ?_⟩
  rintro rfl
  obtain ⟨n, ns, rfl⟩ := exists_cons_of_ne_nil hq
  have hn := length_pos_iff.mpr n.ne_nil
  have hrender := length_renderPath_cons n ns
  have hnil : (renderPath []).length = 0 := rfl
  omega

/-! ## The names of a loaded node -/

/-- The names under which a node is loaded. -/
def cutPath (p : List Name) : List Name := pathTokens (treeGetPath p)

/-- The path fits in the array and the buffer of `tree_get_path`. -/
def ShortPath (p : List Name) : Prop := p.length ≤ chainMax ∧ (renderPath p).length < sessionMaxPath

theorem cutPath_of_short {p : List Name} (h : ShortPath p) : cutPath p = p := by
  have hdrop : p.drop (p.length - chainMax) = p := by
    rw [Nat.sub_eq_zero_of_le h.1, drop_zero]
  have htake : (renderPath p).take (sessionMaxPath - 1) = renderPath p :=
    take_of_length_le (Nat.le_sub_one_of_lt h.2)
  rw [cutPath, treeGetPath, hdrop, htake, pathTokens_renderPath]

/-- **The names under which a node is loaded keep the limits.** -/
theorem shortPath_cutPath (p : List Name) : ShortPath (cutPath p) := by
  obtain ⟨hlen, hbytes, -⟩ := pathTokens_take (p.drop (p.length - chainMax)) (sessionMaxPath - 1)
  constructor
  · refine hlen.trans ?_
    rw [length_drop]
    omega
  · refine hbytes.trans_lt ?_
    decide

theorem cutPath_ne_nil {p : List Name} (hp : p ≠ []) : cutPath p ≠ [] := by
  apply (pathTokens_take (p.drop (p.length - chainMax)) (sessionMaxPath - 1)).2.2
  · rw [← length_pos_iff, length_drop]
    have := length_pos_iff.mpr hp
    unfold chainMax
    omega
  · decide

/-- A path before a short one is short. -/
theorem ShortPath.mono {p q : List Name} (h : ShortPath q) (hp : p <+: q) : ShortPath p := by
  obtain ⟨r, rfl⟩ := hp
  constructor
  · have := h.1
    rw [length_append] at this
    omega
  · have := h.2
    rw [renderPath_append, length_append] at this
    omega

end RecoveryQt
