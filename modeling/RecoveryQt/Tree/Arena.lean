import RecoveryQt.Tree.Model
import Mathlib.Data.List.Nodup

/-!
# The scan tree in memory

`tree_add_path` over linked nodes: a node has a parent, a name, its fields and the list of its
children. The arena refines the functional tree.

* `Arena`, `Arena.addPath`: nodes under their addresses, and `tree_add_path`;
* `Holds`: the nodes below a node form a forest of addresses;
* `Grows`: what an addition does to the nodes below one node, `addAt_grows` shows it;
* `Represents`, `Arena.addPath_represents`: the arena holds a tree, and keeps doing so.
-/

namespace RecoveryQt

open List

/-- A node: `none` for the parent and the name of the root, which is called `/`. -/
structure ArenaNode where
  parent : Option ℕ
  name : Option Name
  info : NodeInfo
  children : List ℕ

/-- The nodes under their addresses, the next address, and the counters of the tree. The root is
the node `0`. -/
structure Arena where
  node : ℕ → ArenaNode
  next : ℕ
  totals : Totals

namespace Arena

/-- `tree_new`. -/
def treeNew : Arena := ⟨fun _ => ⟨none, none, dirInfo, []⟩, 1, ⟨0, 0, 0⟩⟩

/-- `tree_find_child`. -/
def findChild (h : Arena) (p : ℕ) (n : Name) : Option ℕ :=
  (h.node p).children.find? fun c => (h.node c).name = some n

/-- A new node, linked as the last child of `p`; its address is `h.next`. -/
def addChild (h : Arena) (p : ℕ) (n : Name) (x : NodeInfo) : Arena :=
  { h with
    node := Function.update (Function.update h.node h.next ⟨some p, some n, x, []⟩) p
      { h.node p with children := (h.node p).children ++ [h.next] }
    next := h.next + 1 }

/-- `node_ensure_dir`. -/
def ensureDir (h : Arena) (p : ℕ) (n : Name) : Arena × ℕ :=
  match h.findChild p n with
  | some c => (h, c)
  | none => (h.addChild p n dirInfo, h.next)

/-- Other fields for a node. -/
def setInfo (h : Arena) (c : ℕ) (x : NodeInfo) : Arena :=
  { h with node := Function.update h.node c { h.node c with info := x } }

/-- The counters for a new node. -/
def count (h : Arena) (a : AddArgs) : Arena := { h with totals := h.totals.add a }

/-- The token loop of `tree_add_path` from the node `cur`, and the node it returns. -/
def addAt (a : AddArgs) : Arena → ℕ → List Name → Arena × ℕ
  | h, cur, [] => (h, cur)
  | h, cur, [n] =>
    match h.findChild cur n with
    | some c => (h.setInfo c ((h.node c).info.readd a), c)
    | none => ((h.addChild cur n (nodeAlloc a)).count a, h.next)
  | h, cur, n :: m :: ns =>
    let r := h.ensureDir cur n
    addAt a r.1 r.2 (m :: ns)

/-- `tree_add_path`. -/
def addPath (h : Arena) (path : List UInt8) (a : AddArgs) : Arena × ℕ :=
  addAt a h 0 (pathTokens path)

end Arena

/-! ### The nodes below a node -/

/-- The siblings `G` are linked below `p`, and their children below them. -/
def Holds (node : ℕ → ArenaNode) : ℕ → Forest Name ℕ → Prop
  | _, .nil => True
  | p, .cons k i ch nx =>
    (node i).parent = some p ∧ (node i).name = some k ∧ (node i).children = ch.roots ∧
      Holds node i ch ∧ Holds node p nx

section Holds

variable {node node' : ℕ → ArenaNode} {p c : ℕ} {n : Name} {x : NodeInfo}
variable {G ch ch' : Forest Name ℕ}

theorem Holds.congr (h : Holds node p G) (heq : ∀ i ∈ G.toList, node' i = node i) :
    Holds node' p G := by
  induction G generalizing p with
  | nil => trivial
  | cons k i ch nx ihc ihn =>
    simp only [Forest.toList, mem_cons, mem_append] at heq
    obtain ⟨h1, h2, h3, h4, h5⟩ := h
    have hi := heq i (Or.inl rfl)
    refine ⟨?_, ?_, ?_, ihc h4 fun j hj => heq j (Or.inr (Or.inl hj)),
      ihn h5 fun j hj => heq j (Or.inr (Or.inr hj))⟩ <;> rw [hi] <;> assumption

theorem map_info_congr (heq : ∀ i ∈ G.toList, node' i = node i) :
    G.map (fun i => (node' i).info) = G.map (fun i => (node i).info) := by
  induction G with
  | nil => rfl
  | cons k i ch nx ihc ihn =>
    simp only [Forest.toList, mem_cons, mem_append] at heq
    rw [Forest.map, Forest.map, heq i (Or.inl rfl), ihc fun j hj => heq j (Or.inr (Or.inl hj)),
      ihn fun j hj => heq j (Or.inr (Or.inr hj))]

/-- The first child of a name among linked siblings. -/
theorem find?_roots (h : Holds node p G) (n : Name) :
    (G.roots.find? fun c => (node c).name = some n) = (G.child? n).map Prod.fst := by
  induction G with
  | nil => rfl
  | cons k i ch nx _ ih =>
    obtain ⟨-, hname, -, -, hnx⟩ := h
    simp only [Forest.roots, Forest.child?, find?_cons, hname, Option.some.injEq]
    by_cases hk : k = n
    · simp [hk]
    · simp [hk, ih hnx]

theorem child?_toList (hc : G.child? n = some (c, ch)) :
    ∃ rest, G.toList ~ c :: (ch.toList ++ rest) ∧
      ∀ b d, (G.setChild n b d).toList ~ b :: (d.toList ++ rest) := by
  induction G with
  | nil => cases hc
  | cons k i ch0 nx _ ih =>
    unfold Forest.child? at hc
    unfold Forest.setChild
    split_ifs at hc ⊢ with hk
    · obtain ⟨rfl, rfl⟩ := hc
      exact ⟨nx.toList, Perm.refl _, fun b d => Perm.refl _⟩
    · obtain ⟨rest, h1, h2⟩ := ih hc
      -- the earlier sibling goes to the rest
      have hmove : ∀ (b : ℕ) (l m : List ℕ), m ~ b :: (l ++ rest) →
          i :: (ch0.toList ++ m) ~ b :: (l ++ (i :: (ch0.toList ++ rest))) := by
        intro b l m hm
        rw [perm_iff_count] at hm ⊢
        intro a
        have := hm a
        simp only [count_cons, count_append] at this ⊢
        omega
      exact ⟨i :: (ch0.toList ++ rest), hmove _ _ _ h1, fun b d => hmove _ _ _ (h2 b d)⟩

theorem child?_subset (hc : G.child? n = some (c, ch)) : c :: ch.toList ⊆ G.toList := by
  obtain ⟨rest, h, -⟩ := child?_toList hc
  intro i hi
  refine h.symm.subset ?_
  rcases mem_cons.mp hi with rfl | hi
  · exact mem_cons_self
  · exact mem_cons_of_mem _ (mem_append_left _ hi)

/-- **Another subtree below one sibling**, when the other nodes stay as they are. -/
theorem Holds.setChild (h : Holds node p G) (hc : G.child? n = some (c, ch)) (hd : G.toList.Nodup)
    (hframe : ∀ i ∈ G.toList, i ∉ c :: ch.toList → node' i = node i)
    (hself : node' c = ⟨(node c).parent, (node c).name, x, ch'.roots⟩) (hch : Holds node' c ch') :
    Holds node' p (G.setChild n c ch') ∧
      (G.setChild n c ch').map (fun i => (node' i).info) =
        (G.map fun i => (node i).info).setChild n x (ch'.map fun i => (node' i).info) := by
  induction G with
  | nil => cases hc
  | cons k i ch0 nx _ ih =>
    obtain ⟨h1, h2, h3, h4, h5⟩ := h
    simp only [Forest.toList, nodup_cons, mem_append, not_or, nodup_append] at hd
    obtain ⟨⟨hi1, hi2⟩, hd1, hd2, hd3⟩ := hd
    simp only [Forest.toList, mem_cons, mem_append, not_or] at hframe
    unfold Forest.child? at hc
    by_cases hk : k = n
    · rw [if_pos hk] at hc
      obtain ⟨rfl, rfl⟩ := hc
      have hnx : ∀ j ∈ nx.toList, node' j = node j := fun j hj =>
        hframe j (Or.inr (Or.inr hj)) ⟨fun he => hi2 (he ▸ hj), fun hj' => hd3 j hj' j hj rfl⟩
      simp only [Forest.setChild, Forest.map, if_pos hk, map_info_congr hnx, hself]
      exact ⟨⟨by rw [hself]; exact h1, by rw [hself]; exact h2, by rw [hself], hch, h5.congr hnx⟩,
        trivial⟩
    · rw [if_neg hk] at hc
      have hsub := child?_subset hc
      have hout : ∀ j, j ∉ nx.toList → j ≠ c ∧ j ∉ ch.toList := fun j hj =>
        ⟨fun he => hj (hsub (he ▸ mem_cons_self)), fun hj' => hj (hsub (mem_cons_of_mem _ hj'))⟩
      have hi : node' i = node i := hframe i (Or.inl rfl) (hout i hi2)
      have hch0 : ∀ j ∈ ch0.toList, node' j = node j := fun j hj =>
        hframe j (Or.inr (Or.inl hj)) (hout j fun hj' => hd3 j hj j hj' rfl)
      obtain ⟨hholds, hmap⟩ := ih h5 hc hd2 (fun j hj hne => hframe j (Or.inr (Or.inr hj))
        ⟨fun he => hne (he ▸ mem_cons_self), fun hj' => hne (mem_cons_of_mem _ hj')⟩)
      simp only [Forest.setChild, Forest.map, if_neg hk, map_info_congr hch0, hi, hmap]
      exact ⟨⟨by rw [hi]; exact h1, by rw [hi]; exact h2, by rw [hi]; exact h3, h4.congr hch0,
        hholds⟩, trivial⟩

theorem Holds.snoc (h : Holds node p G) (hparent : (node c).parent = some p)
    (hname : (node c).name = some n) (hchildren : (node c).children = []) :
    Holds node p (G.snoc n c .nil) := by
  induction G with
  | nil => exact ⟨hparent, hname, hchildren, trivial, trivial⟩
  | cons k i ch0 nx _ ih => exact ⟨h.1, h.2.1, h.2.2.1, h.2.2.2.1, ih h.2.2.2.2⟩

theorem roots_snoc : (G.snoc n c ch).roots = G.roots ++ [c] := by
  induction G with
  | nil => rfl
  | cons k i ch0 nx _ ih => rw [Forest.snoc, Forest.roots, Forest.roots, ih, cons_append]

theorem toList_snoc : (G.snoc n c .nil).toList = G.toList ++ [c] := by
  induction G with
  | nil => rfl
  | cons k i ch0 nx _ ih =>
    rw [Forest.snoc, Forest.toList, Forest.toList, ih, cons_append, append_assoc]

theorem map_snoc {β : Type*} (f : ℕ → β) :
    (G.snoc n c ch).map f = (G.map f).snoc n (f c) (ch.map f) := by
  induction G with
  | nil => rfl
  | cons k i ch0 nx _ ih => rw [Forest.snoc, Forest.map, Forest.map, ih, Forest.snoc]

end Holds

theorem roots_setChild {G : Forest Name ℕ} {n : Name} {c : ℕ} {ch ch' : Forest Name ℕ}
    (hc : G.child? n = some (c, ch)) : (G.setChild n c ch').roots = G.roots := by
  induction G with
  | nil => rfl
  | cons k i ch0 nx _ ih =>
    unfold Forest.child? at hc
    unfold Forest.setChild
    split_ifs at hc ⊢ with hk
    · obtain ⟨rfl, rfl⟩ := hc
      rfl
    · rw [Forest.roots, Forest.roots, ih hc]

namespace Arena

variable {h h' h'' : Arena} {cur c : ℕ} {n : Name} {x y : NodeInfo}
variable {G G' G'' ch ch' : Forest Name ℕ}

/-- The nodes below `cur` form the forest `G`, each of them allocated and occurring once. -/
structure Below (h : Arena) (cur : ℕ) (G : Forest Name ℕ) : Prop where
  children : (h.node cur).children = G.roots
  holds : Holds h.node cur G
  nodup : (cur :: G.toList).Nodup
  lt : ∀ i ∈ cur :: G.toList, i < h.next

/-- The labels of a forest of addresses. -/
def labels (h : Arena) (G : Forest Name ℕ) : Forest Name NodeInfo := G.map fun i => (h.node i).info

/-- An operation below `cur`: it turns `G` into `G'` and the fields of `cur` into `x`, allocates
the new nodes, and leaves the nodes elsewhere alone. -/
structure Grows (h h' : Arena) (cur : ℕ) (G G' : Forest Name ℕ) (x : NodeInfo) : Prop where
  below : h'.Below cur G'
  le : h.next ≤ h'.next
  mem : ∀ i, i ∈ G'.toList ↔ i ∈ G.toList ∨ h.next ≤ i ∧ i < h'.next
  self : h'.node cur = ⟨(h.node cur).parent, (h.node cur).name, x, G'.roots⟩
  frame : ∀ i, i ∉ cur :: G.toList → i < h.next → h'.node i = h.node i

theorem Grows.trans (h1 : Grows h h' cur G G' x) (h2 : Grows h' h'' cur G' G'' y) :
    Grows h h'' cur G G'' y := by
  have hle1 := h1.le
  have hle2 := h2.le
  refine ⟨h2.below, hle1.trans hle2, fun i => ?_, ?_, fun i hi hlt => ?_⟩
  · rw [h2.mem, h1.mem]
    by_cases hi : i ∈ G.toList
    · simp only [hi, true_or]
    · simp only [hi, false_or]
      omega
  · rw [h2.self, h1.self]
  · have hnot : i ∉ cur :: G'.toList := by
      simp only [mem_cons, not_or, h1.mem] at hi ⊢
      exact ⟨hi.1, hi.2, by omega⟩
    rw [h2.frame i hnot (hlt.trans_le hle1), h1.frame i hi hlt]

/-- An operation below a child is one below its parent. -/
theorem Grows.setChild (hb : h.Below cur G) (hc : G.child? n = some (c, ch))
    (hg : Grows h h' c ch ch' x) :
    Grows h h' cur G (G.setChild n c ch') (h.node cur).info ∧
      h'.labels (G.setChild n c ch') = (h.labels G).setChild n x (h'.labels ch') := by
  obtain ⟨rest, hperm, hperm'⟩ := child?_toList hc
  have hsub := child?_subset hc
  have hnodup := nodup_cons.mp hb.nodup
  have hcur : cur ∉ c :: ch.toList := fun hi => hnodup.1 (hsub hi)
  have hcurlt := hb.lt cur mem_cons_self
  have hcur' : h'.node cur = h.node cur := hg.frame cur hcur hcurlt
  have hlt : ∀ i ∈ G.toList, i < h.next := fun i hi => hb.lt i (mem_cons_of_mem _ hi)
  obtain ⟨hholds, hmap⟩ := hb.holds.setChild hc hnodup.2
    (fun i hi hne => hg.frame i hne (hlt i hi)) hg.self hg.below.holds
  have hmem : ∀ i, i ∈ (G.setChild n c ch').toList ↔ i ∈ G.toList ∨ h.next ≤ i ∧ i < h'.next := by
    intro i
    rw [(hperm' c ch').mem_iff, hperm.mem_iff]
    simp only [mem_cons, mem_append, hg.mem]
    tauto
  have hle := hg.le
  have hrest : ∀ i ∈ rest, i ∉ c :: ch.toList ∧ i < h.next := by
    intro i hi
    have hnd := hperm.nodup_iff.mp hnodup.2
    rw [← cons_append] at hnd
    exact ⟨fun hi' => (nodup_append.mp hnd).2.2 i hi' i hi rfl,
      hlt i (hperm.symm.subset (mem_cons_of_mem _ (mem_append_right _ hi)))⟩
  refine ⟨⟨⟨?_, hholds, ?_, ?_⟩, hle, hmem, ?_, ?_⟩, hmap⟩
  · rw [hcur', roots_setChild hc, hb.children]
  · refine nodup_cons.mpr ⟨fun hi => ?_, (hperm' c ch').nodup_iff.mpr ?_⟩
    · rcases (hmem cur).mp hi with hi | hi
      · exact hnodup.1 hi
      · omega
    · rw [← cons_append]
      have hnd := hperm.nodup_iff.mp hnodup.2
      rw [← cons_append] at hnd
      refine nodup_append.mpr ⟨hg.below.nodup, (nodup_append.mp hnd).2.1, ?_⟩
      rintro i hi j hj rfl
      obtain ⟨hne, hilt⟩ := hrest i hj
      rcases mem_cons.mp hi with rfl | hi
      · exact hne mem_cons_self
      · rcases (hg.mem i).mp hi with hi | hi
        · exact hne (mem_cons_of_mem _ hi)
        · omega
  · intro i hi
    rcases mem_cons.mp hi with rfl | hi
    · omega
    · rcases (hmem i).mp hi with hi | hi
      · exact (hlt i hi).trans_le hle
      · omega
  · rw [hcur', roots_setChild hc, ← hb.children]
  · intro i hi hilt
    exact hg.frame i (fun hi' => hi (mem_cons_of_mem _ (hsub hi'))) hilt

/-- A new last child. -/
theorem addChild_grows (hb : h.Below cur G) :
    Grows h (h.addChild cur n x) cur G (G.snoc n h.next .nil) (h.node cur).info ∧
      (h.addChild cur n x).Below h.next .nil ∧
      (h.addChild cur n x).labels (G.snoc n h.next .nil) = (h.labels G).snoc n x .nil := by
  have hcurlt := hb.lt cur mem_cons_self
  have hnodup := nodup_cons.mp hb.nodup
  have hnew : (h.addChild cur n x).node h.next = ⟨some cur, some n, x, []⟩ := by
    simp [addChild, Function.update_of_ne (Nat.ne_of_gt hcurlt)]
  have hcur : (h.addChild cur n x).node cur =
      { h.node cur with children := (h.node cur).children ++ [h.next] } := by
    simp [addChild]
  have hframe : ∀ i, i ≠ cur → i < h.next → (h.addChild cur n x).node i = h.node i := by
    intro i hi hlt
    simp [addChild, Function.update_of_ne hi, Function.update_of_ne (Nat.ne_of_lt hlt)]
  have hG : ∀ i ∈ G.toList, (h.addChild cur n x).node i = h.node i := fun i hi =>
    hframe i (fun he => hnodup.1 (he ▸ hi)) (hb.lt i (mem_cons_of_mem _ hi))
  have hlt : ∀ i ∈ G.toList, i < h.next := fun i hi => hb.lt i (mem_cons_of_mem _ hi)
  have hnext : (h.addChild cur n x).next = h.next + 1 := rfl
  refine ⟨⟨⟨?_, ?_, ?_, ?_⟩, Nat.le_succ _, fun i => ?_, ?_, fun i hi hilt => ?_⟩,
    ⟨by rw [hnew]; rfl, trivial, by simp [Forest.toList], ?_⟩, ?_⟩
  · rw [hcur, roots_snoc, hb.children]
  · exact (hb.holds.congr hG).snoc (by rw [hnew]) (by rw [hnew]) (by rw [hnew])
  · rw [toList_snoc, ← cons_append]
    refine nodup_append.mpr ⟨hb.nodup, by simp, ?_⟩
    rintro i hi j hj rfl
    exact absurd (hb.lt i hi) (by rw [mem_singleton.mp hj]; exact lt_irrefl _)
  · rw [toList_snoc, hnext]
    intro i hi
    simp only [mem_cons, mem_append, not_mem_nil, or_false] at hi
    rcases hi with rfl | hi | rfl
    · omega
    · have := hlt i hi
      omega
    · omega
  · rw [toList_snoc, mem_append, mem_singleton, hnext]
    exact or_congr_right (by omega)
  · rw [hcur, roots_snoc, hb.children]
  · exact hframe i (fun he => hi (he ▸ mem_cons_self)) hilt
  · rw [hnext]
    simp [Forest.toList]
  · rw [labels, map_snoc, hnew, map_info_congr hG]
    rfl

theorem findChild_eq (hb : h.Below cur G) (n : Name) :
    h.findChild cur n = (G.child? n).map Prod.fst := by
  unfold findChild
  rw [hb.children, find?_roots hb.holds]

/-- The nodes below a child. -/
theorem Below.child (hb : h.Below cur G) (hc : G.child? n = some (c, ch)) : h.Below c ch := by
  have hsub := child?_subset hc
  obtain ⟨rest, hperm, -⟩ := child?_toList hc
  have hnd := hperm.nodup_iff.mp (nodup_cons.mp hb.nodup).2
  rw [← cons_append] at hnd
  have hlinks : (h.node c).children = ch.roots ∧ Holds h.node c ch := by
    have hholds := hb.holds
    clear hb hsub hperm hnd rest
    induction G with
    | nil => cases hc
    | cons k i ch0 nx _ ih =>
      unfold Forest.child? at hc
      split_ifs at hc with hk
      · obtain ⟨rfl, rfl⟩ := hc
        exact ⟨hholds.2.2.1, hholds.2.2.2.1⟩
      · exact ih hc hholds.2.2.2.2
  exact ⟨hlinks.1, hlinks.2, (nodup_append.mp hnd).1, fun i hi => hb.lt i (mem_cons_of_mem _ (hsub hi))⟩

/-- Other fields for one node. -/
theorem setInfo_grows (hb : h.Below c ch) (y : NodeInfo) :
    Grows h (h.setInfo c y) c ch ch y ∧ (h.setInfo c y).labels ch = h.labels ch := by
  have hG : ∀ i, i ≠ c → (h.setInfo c y).node i = h.node i :=
    fun i hi => Function.update_of_ne hi _ _
  have hne : ∀ i ∈ ch.toList, i ≠ c := fun i hi he => (nodup_cons.mp hb.nodup).1 (he ▸ hi)
  refine ⟨⟨⟨?_, hb.holds.congr fun i hi => hG i (hne i hi), hb.nodup, hb.lt⟩, le_rfl, fun i => ?_,
    ?_, fun i hi _ => hG i fun he => hi (he ▸ mem_cons_self)⟩,
    map_info_congr fun i hi => hG i (hne i hi)⟩
  · simp [setInfo, hb.children]
  · constructor
    · exact Or.inl
    · rintro (hi | hi)
      · exact hi
      · exact absurd hi.2 (not_lt.mpr hi.1)
  · simp [setInfo, hb.children]

theorem setChild_snoc {F : Forest Name NodeInfo} {d d' : Forest Name NodeInfo}
    (hF : F.child? n = none) : (F.snoc n x d).setChild n y d' = F.snoc n y d' := by
  induction F with
  | nil => exact if_pos rfl
  | cons k a ch0 nx _ ih =>
    unfold Forest.child? at hF
    split_ifs at hF with hk
    rw [Forest.snoc, Forest.setChild, if_neg hk, ih hF, Forest.snoc]

theorem child?_labels (h : Arena) (G : Forest Name ℕ) (n : Name) :
    (h.labels G).child? n = (G.child? n).map fun z => ((h.node z.1).info, h.labels z.2) :=
  Forest.child?_map _

/-- The counters are not part of the nodes. -/
theorem count_grows {a : AddArgs} (hg : Grows h h' cur G G' x) : Grows h (h'.count a) cur G G' x :=
  ⟨⟨hg.below.children, hg.below.holds, hg.below.nodup, hg.below.lt⟩, hg.le, hg.mem, hg.self, hg.frame⟩

/-- **What `tree_add_path` does below a node.** -/
theorem addAt_grows (a : AddArgs) {p : List Name} (hp : p ≠ []) (hb : h.Below cur G) :
    ∃ G', Grows h (addAt a h cur p).1 cur G G' (h.node cur).info ∧
      (addAt a h cur p).1.labels G' =
        (h.labels G).insertPath dirInfo (nodeAlloc a) (NodeInfo.readd a) p := by
  induction p generalizing h cur G with
  | nil => exact absurd rfl hp
  | cons n ns ih =>
    cases ns with
    | nil =>
      simp only [addAt, Forest.insertPath, findChild_eq hb, child?_labels]
      cases hc : G.child? n with
      | none =>
        obtain ⟨hg, -, hl⟩ := addChild_grows (n := n) (x := nodeAlloc a) hb
        exact ⟨_, count_grows hg, hl⟩
      | some z =>
        obtain ⟨c, ch⟩ := z
        obtain ⟨hg, hl⟩ := setInfo_grows (hb.child hc) ((h.node c).info.readd a)
        obtain ⟨hg', hl'⟩ := hg.setChild hb hc
        exact ⟨_, hg', by simp only [Option.map_some]; rw [hl', hl]⟩
    | cons m ns =>
      simp only [addAt, ensureDir, Forest.insertPath, findChild_eq hb, child?_labels]
      cases hc : G.child? n with
      | none =>
        obtain ⟨hg, hb', hl⟩ := addChild_grows (n := n) (x := dirInfo) hb
        have hc' : (G.snoc n h.next .nil).child? n = some (h.next, .nil) := Forest.child?_snoc_self hc
        obtain ⟨ch', hg', hl'⟩ := ih (cons_ne_nil _ _) hb'
        obtain ⟨hg'', hl''⟩ := hg'.setChild hg.below hc'
        have hinfo : ((h.addChild cur n dirInfo).node h.next).info = dirInfo := by
          simp [addChild, Function.update_of_ne (Nat.ne_of_gt (hb.lt cur mem_cons_self))]
        have hcur : ((h.addChild cur n dirInfo).node cur).info = (h.node cur).info := by
          rw [hg.self]
        have hnone : (h.labels G).child? n = none := by rw [child?_labels, hc]; rfl
        rw [hcur] at hg''
        refine ⟨_, hg.trans hg'', ?_⟩
        simp only [Option.map_none]
        rw [hl'', hl', hl, hinfo, setChild_snoc hnone]
        rfl
      | some z =>
        obtain ⟨c, ch⟩ := z
        obtain ⟨ch', hg, hl⟩ := ih (cons_ne_nil _ _) (hb.child hc)
        obtain ⟨hg', hl'⟩ := hg.setChild hb hc
        exact ⟨_, hg', by simp only [Option.map_some]; rw [hl', hl]⟩

/-- **What `tree_add_path` counts below a node.** -/
theorem addAt_totals (a : AddArgs) {p : List Name} (hp : p ≠ []) (hb : h.Below cur G) :
    (addAt a h cur p).1.totals =
      if (h.labels G).label? p = none then h.totals.add a else h.totals := by
  induction p generalizing h cur G with
  | nil => exact absurd rfl hp
  | cons n ns ih =>
    cases ns with
    | nil =>
      simp only [addAt, Forest.label?, findChild_eq hb, child?_labels]
      cases G.child? n <;> rfl
    | cons m ns =>
      simp only [addAt, ensureDir, Forest.label?, findChild_eq hb, child?_labels]
      cases hc : G.child? n with
      | none =>
        obtain ⟨-, hb', -⟩ := addChild_grows (n := n) (x := dirInfo) hb
        have hnew := ih (cons_ne_nil _ _) hb'
        rw [labels, Forest.map, Forest.label?_nil, if_pos rfl] at hnew
        exact hnew
      | some z => simpa using ih (cons_ne_nil _ _) (hb.child hc)

/-- **The arena holds the tree.** Every address in use is the root or a node of the forest. -/
structure Represents (h : Arena) (t : ScanTree) (G : Forest Name ℕ) : Prop where
  below : h.Below 0 G
  all : ∀ i < h.next, i ∈ 0 :: G.toList
  parent : (h.node 0).parent = none
  name : (h.node 0).name = none
  root : (h.node 0).info = t.root
  top : h.labels G = t.top
  totals : h.totals = t.totals

theorem treeNew_represents : Represents treeNew RecoveryQt.treeNew .nil where
  below := ⟨rfl, trivial, by decide, by decide⟩
  all := by
    intro i hi
    rw [show i = 0 from Nat.lt_one_iff.mp hi]
    exact mem_cons_self
  parent := rfl
  name := rfl
  root := rfl
  top := rfl
  totals := rfl

/-- **The arena refines the functional tree**: `tree_add_path` on the arena is `addPath`. -/
theorem addPath_represents {t : ScanTree} (hr : Represents h t G) (path : List UInt8) (a : AddArgs) :
    ∃ G', Represents (h.addPath path a).1 (t.addPath path a) G' := by
  unfold addPath ScanTree.addPath ScanTree.addTokens
  by_cases hp : pathTokens path = []
  · rw [hp]
    exact ⟨G, hr.below, hr.all, hr.parent, hr.name, hr.root, hr.top, hr.totals⟩
  · obtain ⟨G', hg, hl⟩ := addAt_grows a hp hr.below
    refine ⟨G', hg.below, fun i hi => ?_, ?_, ?_, ?_, ?_, ?_⟩
    · rcases Nat.lt_or_ge i h.next with hlt | hge
      · rcases mem_cons.mp (hr.all i hlt) with rfl | hmem
        · exact mem_cons_self
        · exact mem_cons_of_mem _ ((hg.mem i).mpr (Or.inl hmem))
      · exact mem_cons_of_mem _ ((hg.mem i).mpr (Or.inr ⟨hge, hi⟩))
    · rw [hg.self]
      exact hr.parent
    · rw [hg.self]
      exact hr.name
    · rw [hg.self]
      exact hr.root
    · rw [hl, hr.top]
    · rw [addAt_totals a hp hr.below, hr.top, hr.totals]
      simp only [ne_eq, hp, not_false_eq_true, true_and]

end Arena

end RecoveryQt
