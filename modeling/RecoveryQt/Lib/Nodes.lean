import RecoveryQt.Lib.Paths

/-!
# The nodes of a forest

* `modify_insertPath`: adding a path and changing its node in one;
* `toList_insertPath_of_some`, `toList_insertPath_of_none`: what an addition does to the list of
  labels;
* `setName`, `rename`: another name for a node; the labels stay (`toList_rename`);
* **`listed_perm`**: forests with the same labels have the same nodes.
-/

namespace RecoveryQt

open List

namespace Forest

variable {κ α : Type*}

theorem toList_snoc (f : Forest κ α) (n : κ) (b : α) (c : Forest κ α) :
    (f.snoc n b c).toList = f.toList ++ b :: c.toList := by
  induction f with
  | nil => rw [snoc, toList, toList, toList, List.append_nil, nil_append]
  | cons k a ch nx _ ih => rw [snoc, toList, ih, toList, cons_append, append_assoc]

variable [DecidableEq κ]

/-- The labels at and below the first sibling of a name are a block of the list. -/
theorem toList_setChild {f : Forest κ α} {n : κ} {a : α} {ch : Forest κ α}
    (h : f.child? n = some (a, ch)) : ∃ l r, f.toList = l ++ (a :: ch.toList ++ r) ∧
      ∀ b c, (f.setChild n b c).toList = l ++ (b :: c.toList ++ r) := by
  induction f with
  | nil => cases h
  | cons k a' ch' nx _ ih =>
    unfold child? at h
    split_ifs at h with hk
    · obtain ⟨rfl, rfl⟩ := Prod.mk.inj (Option.some.inj h)
      refine ⟨[], nx.toList, rfl, fun b c => ?_⟩
      rw [setChild, if_pos hk]
      rfl
    · obtain ⟨l, r, hl, hset⟩ := ih h
      refine ⟨a' :: (ch'.toList ++ l), r, ?_, fun b c => ?_⟩
      · rw [toList, hl]
        simp
      · rw [setChild, if_neg hk, toList, hset]
        simp

/-- A label that is changed behind an addition was added changed. -/
theorem modify_insertPath (f : Forest κ α) (p : List κ) (mid leaf : α) (touch g : α → α) :
    (f.insertPath mid leaf touch p).modify g p =
      f.insertPath mid (g leaf) (fun a => g (touch a)) p := by
  induction p generalizing f with
  | nil => rfl
  | cons n ns ih =>
    cases ns with
    | nil =>
      cases hchild : f.child? n with
      | none => simp only [insertPath, hchild, modify, child?_snoc_self hchild, setChild_snoc hchild]
      | some x =>
        obtain ⟨a, ch⟩ := x
        simp only [insertPath, hchild, modify, child?_setChild_self hchild, setChild_setChild]
    | cons m ms =>
      cases hchild : f.child? n with
      | none =>
        simp only [insertPath, hchild, modify, child?_snoc_self hchild, setChild_snoc hchild, ih]
      | some x =>
        obtain ⟨a, ch⟩ := x
        simp only [insertPath, hchild, modify, child?_setChild_self hchild, setChild_setChild, ih]

/-- A path that is there has one label changed. -/
theorem toList_insertPath_of_some {f : Forest κ α} {p : List κ} {a : α} (h : f.label? p = some a)
    (mid leaf : α) (touch : α → α) : ∃ l r, f.toList = l ++ a :: r ∧
      (f.insertPath mid leaf touch p).toList = l ++ touch a :: r := by
  induction p generalizing f with
  | nil => cases h
  | cons n ns ih =>
    cases ns with
    | nil =>
      rw [label?, Option.map_eq_some_iff] at h
      obtain ⟨⟨b, ch⟩, hchild, rfl⟩ := h
      obtain ⟨l, r, hl, hset⟩ := toList_setChild hchild
      refine ⟨l, ch.toList ++ r, hl, ?_⟩
      simp only [insertPath, hchild]
      exact hset _ _
    | cons m ms =>
      rw [label?, Option.bind_eq_some_iff] at h
      obtain ⟨⟨b, ch⟩, hchild, hlabel⟩ := h
      obtain ⟨l, r, hl, hset⟩ := toList_setChild hchild
      obtain ⟨l', r', hl', hins⟩ := ih hlabel
      refine ⟨l ++ b :: l', r' ++ r, ?_, ?_⟩
      · rw [hl, hl']
        simp
      · simp only [insertPath, hchild]
        rw [hset, hins]
        simp

/-- A new path brings its new nodes, and every label stays. No node is created on the way if the one above is
there. -/
theorem toList_insertPath_of_none {f : Forest κ α} {p : List κ} (hp : p ≠ [])
    (h : f.label? p = none) (mid leaf : α) (touch : α → α) : ∃ l r k, f.toList = l ++ r ∧
      (f.insertPath mid leaf touch p).toList = l ++ (replicate k mid ++ leaf :: r) ∧
      (k = 0 ↔ p.dropLast = [] ∨ (f.label? p.dropLast).isSome) := by
  induction p generalizing f with
  | nil => exact absurd rfl hp
  | cons n ns ih =>
    cases ns with
    | nil =>
      rw [label?, Option.map_eq_none_iff] at h
      refine ⟨f.toList, [], 0, (List.append_nil _).symm, ?_, iff_of_true rfl (Or.inl rfl)⟩
      simp only [insertPath, h, toList_snoc]
      rfl
    | cons m ms =>
      rw [label?, Option.bind_eq_none_iff] at h
      rw [dropLast_cons_of_ne_nil (cons_ne_nil m ms)]
      cases hchild : f.child? n with
      | none =>
        obtain ⟨l, r, k, hl, hins, -⟩ := ih (cons_ne_nil m ms) (label?_nil (m :: ms))
        obtain ⟨rfl, rfl⟩ := append_eq_nil_iff.mp hl.symm
        refine ⟨f.toList, [], k + 1, (List.append_nil _).symm, ?_, iff_of_false (Nat.succ_ne_zero k) ?_⟩
        · simp only [insertPath, hchild, toList_snoc, hins]
          rfl
        · rw [label?_eq_none hchild]
          simp
      | some x =>
        obtain ⟨b, ch⟩ := x
        obtain ⟨l, r, hl, hset⟩ := toList_setChild hchild
        obtain ⟨l', r', k, hl', hins, hk⟩ := ih (cons_ne_nil m ms) (h (b, ch) hchild)
        refine ⟨l ++ b :: l', r' ++ r, k, ?_, ?_, hk.trans ?_⟩
        · rw [hl, hl']
          simp
        · simp only [insertPath, hchild]
          rw [hset, hins]
          simp
        · cases (m :: ms).dropLast with
          | nil => simp [label?, hchild]
          | cons n' ns => simp [label?, hchild]

/-! ### Another name -/

/-- The first sibling named `n` is named `m`. -/
def setName : Forest κ α → κ → κ → Forest κ α
  | nil, _, _ => nil
  | cons k a ch nx, n, m => if k = n then cons m a ch nx else cons k a ch (nx.setName n m)

/-- The node at a path is named `m`. -/
def rename (m : κ) : Forest κ α → List κ → Forest κ α
  | f, [] => f
  | f, [n] => f.setName n m
  | f, n :: n' :: ns => match f.child? n with
    | some (a, ch) => f.setChild n a (ch.rename m (n' :: ns))
    | none => f

theorem toList_setName (f : Forest κ α) (n m : κ) : (f.setName n m).toList = f.toList := by
  induction f with
  | nil => rfl
  | cons k a ch nx _ ih =>
    unfold setName
    split_ifs
    · rfl
    · rw [toList, toList, ih]

/-- **No label is lost by a new name.** -/
theorem toList_rename (m : κ) (f : Forest κ α) (p : List κ) : (f.rename m p).toList = f.toList := by
  induction p generalizing f with
  | nil => rfl
  | cons n ns ih =>
    cases ns with
    | nil => exact toList_setName f n m
    | cons n' ms =>
      cases hchild : f.child? n with
      | none => simp only [rename, hchild]
      | some x =>
        obtain ⟨a, ch⟩ := x
        obtain ⟨l, r, hl, hset⟩ := toList_setChild hchild
        simp only [rename, hchild]
        rw [hset, ih, hl]

theorem setName_self (f : Forest κ α) (n : κ) : f.setName n n = f := by
  induction f with
  | nil => rfl
  | cons k a ch nx _ ih =>
    unfold setName
    split_ifs with hk
    · rw [hk]
    · rw [ih]

/-- A name that stays. -/
theorem rename_self (f : Forest κ α) {p : List κ} {m : κ} (h : p.getLast? = some m) :
    f.rename m p = f := by
  induction p generalizing f with
  | nil => rfl
  | cons n ns ih =>
    cases ns with
    | nil =>
      obtain rfl : n = m := Option.some.inj h
      exact setName_self f n
    | cons n' ms =>
      rw [getLast?_cons_cons] at h
      cases hchild : f.child? n with
      | none => simp only [rename, hchild]
      | some x =>
        obtain ⟨a, ch⟩ := x
        simp only [rename, hchild]
        rw [ih ch h, setChild_self hchild]

/-! ### Nodes with their paths -/

/-- **Forests with the same labels have the same nodes**, up to the order of siblings. -/
theorem listed_perm {f f' : Forest κ α} (hd : f.Distinct) (hd' : f'.Distinct)
    (h : ∀ p, f.label? p = f'.label? p) : f.listed (fun _ => true) ~ f'.listed fun _ => true := by
  rw [perm_ext_iff_of_nodup (nodup_listed hd) (nodup_listed hd')]
  rintro ⟨p, a⟩
  rw [mem_listed hd, mem_listed hd', h]

end Forest

end RecoveryQt
