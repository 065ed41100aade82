import Mathlib.Data.List.Basic
import Mathlib.Data.List.Perm.Basic
import Mathlib.Data.List.Infix

/-!
# Named forests

A forest is a list of siblings, each with a name, a label and a forest of children. Operations look
at the first sibling of a name.

* `child?`, `setChild`, `snoc`: the first sibling of a name, replacing it, a new last sibling;
* `label?`, `modify`, `insertPath`: the label at a path, changing it, and adding a path whose
  missing intermediate nodes are created;
* `label?_insertPath_self`, `_mid`, `_other`, `label?_modify_self`, `_other`: what is found
  after them;
* `Distinct`, `All`: no two siblings share a name, and a predicate on every node.
-/

namespace RecoveryQt

/-- A list of siblings. -/
inductive Forest (κ α : Type*) where
  | nil
  | cons (name : κ) (label : α) (children next : Forest κ α)

namespace Forest

variable {κ α β : Type*}

/-- The names of the siblings. -/
def names : Forest κ α → List κ
  | nil => []
  | cons k _ _ nx => k :: nx.names

/-- The labels of the siblings. -/
def roots : Forest κ α → List α
  | nil => []
  | cons _ a _ nx => a :: nx.roots

/-- All labels, parents before children. -/
def toList : Forest κ α → List α
  | nil => []
  | cons _ a ch nx => a :: (ch.toList ++ nx.toList)

/-- Another label at every node. -/
def map (f : α → β) : Forest κ α → Forest κ β
  | nil => nil
  | cons k a ch nx => cons k (f a) (ch.map f) (nx.map f)

/-- No two siblings share a name. -/
def Distinct : Forest κ α → Prop
  | nil => True
  | cons k _ ch nx => k ∉ nx.names ∧ ch.Distinct ∧ nx.Distinct

/-- A predicate on the label and the children of every node. -/
def All (P : α → Forest κ α → Prop) : Forest κ α → Prop
  | nil => True
  | cons _ a ch nx => P a ch ∧ ch.All P ∧ nx.All P

theorem All.of_forall {P : α → Forest κ α → Prop} (h : ∀ a ch, P a ch) (f : Forest κ α) : f.All P := by
  induction f with
  | nil => trivial
  | cons k a ch nx ihc ihn => exact ⟨h a ch, ihc, ihn⟩

/-- A new last sibling. -/
def snoc : Forest κ α → κ → α → Forest κ α → Forest κ α
  | nil, n, b, c => cons n b c nil
  | cons k a ch nx, n, b, c => cons k a ch (nx.snoc n b c)

variable [DecidableEq κ]

/-- The first sibling named `n`, with its children. -/
def child? : Forest κ α → κ → Option (α × Forest κ α)
  | nil, _ => none
  | cons k a ch nx, n => if k = n then some (a, ch) else nx.child? n

/-- Another label and other children for the first sibling named `n`. -/
def setChild : Forest κ α → κ → α → Forest κ α → Forest κ α
  | nil, _, _, _ => nil
  | cons k a ch nx, n, b, c => if k = n then cons k b c nx else cons k a ch (nx.setChild n b c)

/-- The label at a path. -/
def label? : Forest κ α → List κ → Option α
  | _, [] => none
  | f, [n] => (f.child? n).map Prod.fst
  | f, n :: m :: ns => (f.child? n).bind fun x => x.2.label? (m :: ns)

/-- Change the label at a path. -/
def modify (g : α → α) : Forest κ α → List κ → Forest κ α
  | f, [] => f
  | f, [n] => match f.child? n with
    | some (a, ch) => f.setChild n (g a) ch
    | none => f
  | f, n :: m :: ns => match f.child? n with
    | some (a, ch) => f.setChild n a (ch.modify g (m :: ns))
    | none => f

/-- Add a path: a node that is missing on the way is created with the label `mid`, a missing last
node with the label `leaf`, and an existing last node has its label changed by `touch`. -/
def insertPath (mid leaf : α) (touch : α → α) : Forest κ α → List κ → Forest κ α
  | f, [] => f
  | f, [n] => match f.child? n with
    | some (a, ch) => f.setChild n (touch a) ch
    | none => f.snoc n leaf nil
  | f, n :: m :: ns => match f.child? n with
    | some (a, ch) => f.setChild n a (ch.insertPath mid leaf touch (m :: ns))
    | none => f.snoc n mid (nil.insertPath mid leaf touch (m :: ns))

/-! ### One level -/

section Child

variable {f : Forest κ α} {n m : κ} {a b : α} {ch c : Forest κ α}

theorem child?_eq_none : f.child? n = none ↔ n ∉ f.names := by
  induction f with
  | nil => simp [child?, names]
  | cons k a ch nx _ ih =>
    simp only [child?, names, List.mem_cons, not_or]
    split_ifs with h
    · simp [h]
    · rw [ih]
      exact ⟨fun hn => ⟨fun hk => h hk.symm, hn⟩, fun hn => hn.2⟩

theorem child?_setChild_self (h : f.child? n = some (a, ch)) :
    (f.setChild n b c).child? n = some (b, c) := by
  induction f with
  | nil => cases h
  | cons k a' ch' nx _ ih =>
    unfold child? at h
    unfold setChild
    split_ifs at h ⊢ with hk
    · rw [child?, if_pos hk]
    · rw [child?, if_neg hk, ih h]

theorem child?_setChild_ne (h : m ≠ n) : (f.setChild n b c).child? m = f.child? m := by
  induction f with
  | nil => rfl
  | cons k a' ch' nx _ ih =>
    unfold setChild
    split_ifs with hk
    · subst hk
      rw [child?, child?, if_neg h.symm, if_neg h.symm]
    · rw [child?, child?, ih]

theorem child?_snoc_self (h : f.child? n = none) : (f.snoc n b c).child? n = some (b, c) := by
  induction f with
  | nil => exact if_pos rfl
  | cons k a' ch' nx _ ih =>
    unfold child? at h
    split_ifs at h with hk
    rw [snoc, child?, if_neg hk, ih h]

theorem child?_snoc_ne (h : m ≠ n) : (f.snoc n b c).child? m = f.child? m := by
  induction f with
  | nil => exact if_neg h.symm
  | cons k a' ch' nx _ ih => rw [snoc, child?, child?, ih]

theorem setChild_self (h : f.child? n = some (a, ch)) : f.setChild n a ch = f := by
  induction f with
  | nil => rfl
  | cons k a' ch' nx _ ih =>
    unfold child? at h
    unfold setChild
    split_ifs at h ⊢ with hk
    · obtain ⟨rfl, rfl⟩ := h
      rfl
    · rw [ih h]

theorem names_setChild : (f.setChild n b c).names = f.names := by
  induction f with
  | nil => rfl
  | cons k a' ch' nx _ ih =>
    unfold setChild
    split_ifs
    · rfl
    · rw [names, names, ih]

omit [DecidableEq κ] in
theorem names_snoc : (f.snoc n b c).names = f.names ++ [n] := by
  induction f with
  | nil => rfl
  | cons k a' ch' nx _ ih => rw [snoc, names, names, ih, List.cons_append]

theorem child?_map (g : α → β) :
    (f.map g).child? n = (f.child? n).map fun x => (g x.1, x.2.map g) := by
  induction f with
  | nil => rfl
  | cons k a' ch' nx _ ih =>
    simp only [map, child?, ih]
    split_ifs <;> rfl

theorem Distinct.child (hd : f.Distinct) (h : f.child? n = some (a, ch)) : ch.Distinct := by
  induction f with
  | nil => cases h
  | cons k a' ch' nx _ ih =>
    unfold child? at h
    split_ifs at h with hk
    · obtain ⟨rfl, rfl⟩ := h
      exact hd.2.1
    · exact ih hd.2.2 h

theorem Distinct.setChild (hd : f.Distinct) (hc : c.Distinct) : (f.setChild n b c).Distinct := by
  induction f with
  | nil => trivial
  | cons k a' ch' nx _ ih =>
    unfold Forest.setChild
    split_ifs
    · exact ⟨hd.1, hc, hd.2.2⟩
    · exact ⟨by rw [names_setChild]; exact hd.1, hd.2.1, ih hd.2.2⟩

theorem Distinct.snoc (hd : f.Distinct) (hc : c.Distinct) (h : f.child? n = none) :
    (f.snoc n b c).Distinct := by
  induction f with
  | nil => exact ⟨by simp [names], hc, trivial⟩
  | cons k a' ch' nx _ ih =>
    unfold child? at h
    split_ifs at h with hk
    refine ⟨?_, hd.2.1, ih hd.2.2 h⟩
    rw [names_snoc, List.mem_append, List.mem_singleton, not_or]
    exact ⟨hd.1, hk⟩

end Child

/-! ### Paths -/

section Path

variable {mid leaf : α} {touch g : α → α}

theorem label?_nil (q : List κ) : (nil : Forest κ α).label? q = none := by
  cases q with
  | nil => rfl
  | cons n ns => cases ns <;> rfl

/-- The node at a path begins with the sibling of its first name. -/
theorem label?_eq_none {f : Forest κ α} {n : κ} (h : f.child? n = none) (ns : List κ) :
    f.label? (n :: ns) = none := by
  cases ns <;> simp [label?, h]

/-- A node on the way to another one is there. -/
theorem label?_isSome_of_append {f : Forest κ α} {p q : List κ} (hp : p ≠ [])
    (h : (f.label? (p ++ q)).isSome) : (f.label? p).isSome := by
  induction p generalizing f with
  | nil => exact absurd rfl hp
  | cons n ns ih =>
    cases ns with
    | nil =>
      cases hc : f.child? n with
      | none => simp [label?_eq_none hc] at h
      | some x => simp [label?, hc]
    | cons m ns =>
      cases hc : f.child? n with
      | none => simp [label?_eq_none hc] at h
      | some x =>
        simp only [List.cons_append, label?, hc, Option.bind_some] at h ⊢
        exact ih (List.cons_ne_nil _ _) h

/-- Two forests with the same sibling `n` have the same labels below it. -/
theorem label?_congr {f f' : Forest κ α} {n : κ} (h : f.child? n = f'.child? n) (ns : List κ) :
    f.label? (n :: ns) = f'.label? (n :: ns) := by
  cases ns <;> simp [label?, h]

/-- **The last node of an added path.** -/
theorem label?_insertPath_self (f : Forest κ α) {p : List κ} (hp : p ≠ []) :
    (f.insertPath mid leaf touch p).label? p = some ((f.label? p).elim leaf touch) := by
  induction p generalizing f with
  | nil => exact absurd rfl hp
  | cons n ns ih =>
    cases ns with
    | nil =>
      simp only [insertPath, label?]
      cases h : f.child? n with
      | none => simp [child?_snoc_self h]
      | some x => simp [child?_setChild_self h]
    | cons m ns =>
      simp only [insertPath, label?]
      cases h : f.child? n with
      | none => simp [child?_snoc_self h, ih, label?_nil]
      | some x => simp [child?_setChild_self h, ih]

/-- **A node on the way of an added path.** -/
theorem label?_insertPath_mid (f : Forest κ α) {p q : List κ} (hq : q ≠ []) (h : q <+: p)
    (hne : q ≠ p) : (f.insertPath mid leaf touch p).label? q = some ((f.label? q).getD mid) := by
  induction p generalizing f q with
  | nil => exact absurd (List.prefix_nil.mp h) hq
  | cons n ns ih =>
    obtain ⟨qs, rfl⟩ : ∃ qs, q = n :: qs := by
      cases q with
      | nil => exact absurd rfl hq
      | cons k qs => exact ⟨qs, by rw [(List.cons_prefix_cons.mp h).1]⟩
    have hqs := (List.cons_prefix_cons.mp h).2
    cases ns with
    | nil => exact absurd (by rw [List.prefix_nil.mp hqs]) hne
    | cons m ns =>
      cases qs with
      | nil =>
        simp only [insertPath, label?]
        cases h : f.child? n with
        | none => simp [child?_snoc_self h]
        | some x => simp [child?_setChild_self h]
      | cons m' qs =>
        have hne' : m' :: qs ≠ m :: ns := fun he => hne (by rw [he])
        simp only [insertPath, label?]
        cases h : f.child? n with
        | none => simp [child?_snoc_self h, ih _ (List.cons_ne_nil _ _) hqs hne', label?_nil]
        | some x => simp [child?_setChild_self h, ih _ (List.cons_ne_nil _ _) hqs hne']

/-- **A node elsewhere.** -/
theorem label?_insertPath_other (f : Forest κ α) {p q : List κ} (h : ¬ q <+: p) :
    (f.insertPath mid leaf touch p).label? q = f.label? q := by
  induction p generalizing f q with
  | nil => rfl
  | cons n ns ih =>
    cases q with
    | nil => exact absurd (List.nil_prefix) h
    | cons k qs =>
      by_cases hk : k = n
      · subst hk
        have hqs : ¬ qs <+: ns := fun hqs => h (List.cons_prefix_cons.mpr ⟨rfl, hqs⟩)
        obtain ⟨m', qs, rfl⟩ : ∃ m' qs', qs = m' :: qs' := by
          cases qs with
          | nil => exact absurd List.nil_prefix hqs
          | cons m' qs => exact ⟨m', qs, rfl⟩
        cases ns with
        | nil =>
          simp only [insertPath, label?]
          cases h : f.child? k with
          | none => simp [child?_snoc_self h, label?_nil]
          | some x => simp [child?_setChild_self h]
        | cons m ns =>
          simp only [insertPath, label?]
          cases h : f.child? k with
          | none => simp [child?_snoc_self h, ih _ hqs, label?_nil]
          | some x => simp [child?_setChild_self h, ih _ hqs]
      · refine label?_congr ?_ qs
        cases ns with
        | nil =>
          simp only [insertPath]
          cases h : f.child? n with
          | none => simp [child?_snoc_ne hk]
          | some x => simp [child?_setChild_ne hk]
        | cons m ns =>
          simp only [insertPath]
          cases h : f.child? n with
          | none => simp [child?_snoc_ne hk]
          | some x => simp [child?_setChild_ne hk]

/-- A node that is there stays, touched if the path ends at it. -/
theorem label?_insertPath_of_some {f : Forest κ α} {p q : List κ} {a : α} (h : f.label? q = some a) :
    (f.insertPath mid leaf touch p).label? q = some (if q = p then touch a else a) := by
  have hq : q ≠ [] := by
    rintro rfl
    cases f <;> cases h
  split_ifs with he
  · subst he
    rw [label?_insertPath_self _ hq, h]
    rfl
  · by_cases hpre : q <+: p
    · rw [label?_insertPath_mid _ hq hpre he, h]
      rfl
    · rw [label?_insertPath_other _ hpre, h]

theorem label?_modify_self (f : Forest κ α) (p : List κ) :
    (f.modify g p).label? p = (f.label? p).map g := by
  induction p generalizing f with
  | nil => rfl
  | cons n ns ih =>
    cases ns with
    | nil =>
      simp only [modify, label?]
      cases h : f.child? n with
      | none => simp [h]
      | some x => simp [child?_setChild_self h]
    | cons m ns =>
      simp only [modify, label?]
      cases h : f.child? n with
      | none => simp [h]
      | some x => simp [child?_setChild_self h, ih]

theorem label?_modify_other (f : Forest κ α) {p q : List κ} (h : q ≠ p) :
    (f.modify g p).label? q = f.label? q := by
  induction p generalizing f q with
  | nil => rfl
  | cons n ns ih =>
    cases q with
    | nil => rfl
    | cons k qs =>
      by_cases hk : k = n
      · subst hk
        have hqs : qs ≠ ns := fun he => h (by rw [he])
        cases ns with
        | nil =>
          simp only [modify]
          cases hc : f.child? k with
          | none => rfl
          | some x =>
            cases qs with
            | nil => exact absurd rfl hqs
            | cons m' qs => simp [label?, child?_setChild_self hc, hc]
        | cons m ns =>
          simp only [modify]
          cases hc : f.child? k with
          | none => rfl
          | some x =>
            cases qs with
            | nil => simp [label?, child?_setChild_self hc, hc]
            | cons m' qs => simp [label?, child?_setChild_self hc, hc, ih _ hqs]
      · refine label?_congr ?_ qs
        cases ns with
        | nil =>
          simp only [modify]
          cases hc : f.child? n with
          | none => rfl
          | some x => exact child?_setChild_ne hk
        | cons m ns =>
          simp only [modify]
          cases hc : f.child? n with
          | none => rfl
          | some x => exact child?_setChild_ne hk

/-- A label at the end of a path of one name. -/
theorem child?_of_label?_singleton {f : Forest κ α} {n : κ} {a : α} (h : f.label? [n] = some a) :
    ∃ ch, f.child? n = some (a, ch) := by
  obtain ⟨x, hx, rfl⟩ := Option.map_eq_some_iff.mp h
  exact ⟨x.2, hx⟩

/-- A label further down. -/
theorem child?_of_label?_cons {f : Forest κ α} {n m : κ} {ns : List κ} {a : α}
    (h : f.label? (n :: m :: ns) = some a) : ∃ b ch, f.child? n = some (b, ch) ∧ ch.label? (m :: ns) = some a := by
  obtain ⟨x, hx, hl⟩ := Option.bind_eq_some_iff.mp h
  exact ⟨x.1, x.2, hx, hl⟩

/-- Adding a path whose last node `touch` leaves alone changes nothing. -/
theorem insertPath_fixed (f : Forest κ α) {p : List κ} {a : α} (h : f.label? p = some a)
    (ha : touch a = a) : f.insertPath mid leaf touch p = f := by
  induction p generalizing f with
  | nil => rfl
  | cons n ns ih =>
    cases ns with
    | nil =>
      obtain ⟨ch, hc⟩ := child?_of_label?_singleton h
      simp only [insertPath, hc, ha, setChild_self hc]
    | cons m ns =>
      obtain ⟨b, ch, hc, hl⟩ := child?_of_label?_cons h
      simp only [insertPath, hc, ih _ hl, setChild_self hc]

theorem modify_fixed (f : Forest κ α) {p : List κ} {a : α} (h : f.label? p = some a)
    (ha : g a = a) : f.modify g p = f := by
  induction p generalizing f with
  | nil => rfl
  | cons n ns ih =>
    cases ns with
    | nil =>
      obtain ⟨ch, hc⟩ := child?_of_label?_singleton h
      simp only [modify, hc, ha, setChild_self hc]
    | cons m ns =>
      obtain ⟨b, ch, hc, hl⟩ := child?_of_label?_cons h
      simp only [modify, hc, ih _ hl, setChild_self hc]

theorem Distinct.insertPath {f : Forest κ α} (hd : f.Distinct) (p : List κ) :
    (f.insertPath mid leaf touch p).Distinct := by
  induction p generalizing f with
  | nil => exact hd
  | cons n ns ih =>
    cases ns with
    | nil =>
      simp only [Forest.insertPath]
      cases h : f.child? n with
      | none => exact hd.snoc trivial h
      | some x => exact hd.setChild (hd.child h)
    | cons m ns =>
      simp only [Forest.insertPath]
      cases h : f.child? n with
      | none => exact hd.snoc (ih (f := nil) trivial) h
      | some x => exact hd.setChild (ih (hd.child h))

/-- **A predicate on the nodes with children**, in a forest of distinct siblings, speaks of the
paths that extend another. -/
theorem all_iff_label? {f : Forest κ α} (hd : f.Distinct) (P : α → Prop) :
    f.All (fun a ch => ch ≠ nil → P a) ↔
      ∀ q n, q ≠ [] → (f.label? (q ++ [n])).isSome → ∃ a, f.label? q = some a ∧ P a := by
  induction f with
  | nil => exact ⟨fun _ q n _ h => by simp [label?_nil] at h, fun _ => trivial⟩
  | cons k a ch nx ihc ihn =>
    have hself : (cons k a ch nx).child? k = some (a, ch) := if_pos rfl
    have hother : ∀ m, m ≠ k → (cons k a ch nx).child? m = nx.child? m :=
      fun m hm => if_neg fun he => hm he.symm
    constructor
    · rintro ⟨hP, hch, hnx⟩ q n hq hsome
      obtain ⟨m, qs, rfl⟩ := List.exists_cons_of_ne_nil hq
      by_cases hm : m = k
      · subst hm
        cases qs with
        | nil =>
          refine ⟨a, by simp [label?, hself], hP fun hnil => ?_⟩
          simp [label?, hnil, child?] at hsome
        | cons m' qs =>
          simp only [List.cons_append, label?, hself, Option.bind_some] at hsome ⊢
          exact (ihc hd.2.1).mp hch (m' :: qs) n (List.cons_ne_nil _ _) hsome
      · rw [List.cons_append, label?_congr (hother m hm)] at hsome
        rw [label?_congr (hother m hm)]
        exact (ihn hd.2.2).mp hnx (m :: qs) n hq hsome
    · intro h
      refine ⟨fun hne => ?_, (ihc hd.2.1).mpr fun q n hq hsome => ?_,
        (ihn hd.2.2).mpr fun q n hq hsome => ?_⟩
      · cases ch with
        | nil => exact absurd rfl hne
        | cons k' a' ch' nx' =>
          obtain ⟨b, hb, hPb⟩ := h [k] k' (List.cons_ne_nil _ _) (by simp [label?, child?])
          simp only [label?, hself, Option.map_some, Option.some.injEq] at hb
          rwa [hb]
      · obtain ⟨m, qs, rfl⟩ := List.exists_cons_of_ne_nil hq
        have := h (k :: m :: qs) n (List.cons_ne_nil _ _) (by simpa [label?, hself] using hsome)
        simpa [label?, hself] using this
      · obtain ⟨m, qs, rfl⟩ := List.exists_cons_of_ne_nil hq
        have hm : m ≠ k := by
          rintro rfl
          rw [List.cons_append, label?_eq_none (child?_eq_none.mpr hd.1)] at hsome
          cases hsome
        rw [List.cons_append, ← label?_congr (hother m hm)] at hsome
        rw [← label?_congr (hother m hm)]
        exact h (m :: qs) n hq hsome

end Path

end Forest

end RecoveryQt
