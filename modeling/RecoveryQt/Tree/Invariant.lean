import RecoveryQt.Tree.Arena

/-!
# The representation invariant of the tree

After any calls of `tree_add_path` the nodes are linked and siblings have distinct names. A node
with children need not be a directory: `node_ensure_dir` returns an entry of any type.

* `RepInv`, `Represents.repInv_iff`: the invariant, and what it says of the tree that is held;
* `AddCall`, `Arena.run`, `ScanTree.run`: a sequence of calls;
* `label?_run_isDir`: the first call that reaches a path decides its type;
* `repInv_run_iff`: which sequences keep the invariant.
-/

namespace RecoveryQt

open List

/-- The representation invariant of the scan tree. -/
structure RepInv (h : Arena) : Prop where
  linked : ∀ i, 0 < i → i < h.next → ∃ p < h.next, (h.node i).parent = some p ∧
    (h.node p).children.count i = 1 ∧ ∀ q < h.next, q ≠ p → i ∉ (h.node q).children
  dirs : ∀ i < h.next, (h.node i).children ≠ [] → (h.node i).info.isDir = true
  names : ∀ p < h.next, (h.node p).children.Pairwise fun i j => (h.node i).name ≠ (h.node j).name

/-! ### Links -/

section Links

variable {node : ℕ → ArenaNode} {p : ℕ} {G : Forest Name ℕ}

theorem roots_sublist (G : Forest Name ℕ) : G.roots <+ G.toList := by
  induction G with
  | nil => exact nil_sublist _
  | cons k i ch nx _ ih => exact (ih.trans (sublist_append_right _ _)).cons_cons i

/-- A child is linked to its parent, in one children list only. -/
theorem Holds.parent (h : Holds node p G) {i : ℕ} (hi : i ∈ G.roots) :
    (node i).parent = some p := by
  induction G with
  | nil => cases hi
  | cons k j ch nx _ ih =>
    rcases mem_cons.mp hi with rfl | hi
    · exact h.1
    · exact ih h.2.2.2.2 hi

theorem Holds.children_parent (h : Holds node p G) {i j : ℕ} (hj : j ∈ G.toList)
    (hi : i ∈ (node j).children) : (node i).parent = some j := by
  induction G generalizing p with
  | nil => cases hj
  | cons k r ch nx ihc ihn =>
    obtain ⟨-, -, hch, hc, hn⟩ := h
    simp only [Forest.toList, mem_cons, mem_append] at hj
    rcases hj with rfl | hj | hj
    · rw [hch] at hi
      exact hc.parent hi
    · exact ihc hc hj
    · exact ihn hn hj

/-- Every node has a parent that lists it. -/
theorem Holds.exists_parent (h : Holds node p G) {i : ℕ} (hi : i ∈ G.toList) :
    i ∈ G.roots ∧ (node i).parent = some p ∨
      ∃ q ∈ G.toList, (node i).parent = some q ∧ i ∈ (node q).children := by
  induction G generalizing p with
  | nil => cases hi
  | cons k r ch nx ihc ihn =>
    obtain ⟨hp, -, hch, hc, hn⟩ := h
    simp only [Forest.toList, Forest.roots, mem_cons, mem_append] at hi ⊢
    rcases hi with rfl | hi | hi
    · exact Or.inl ⟨Or.inl rfl, hp⟩
    · rcases ihc hc hi with ⟨h1, h2⟩ | ⟨q, hq, h1, h2⟩
      · exact Or.inr ⟨r, Or.inl rfl, h2, hch ▸ h1⟩
      · exact Or.inr ⟨q, Or.inr (Or.inl hq), h1, h2⟩
    · rcases ihn hn hi with ⟨h1, h2⟩ | ⟨q, hq, h1, h2⟩
      · exact Or.inl ⟨Or.inr h1, h2⟩
      · exact Or.inr ⟨q, Or.inr (Or.inr hq), h1, h2⟩

theorem Holds.children_nodup (h : Holds node p G) (hd : G.toList.Nodup) {j : ℕ}
    (hj : j ∈ G.toList) : (node j).children.Nodup := by
  induction G generalizing p with
  | nil => cases hj
  | cons k r ch nx ihc ihn =>
    obtain ⟨-, -, hch, hc, hn⟩ := h
    simp only [Forest.toList, nodup_cons, nodup_append] at hd
    simp only [Forest.toList, mem_cons, mem_append] at hj
    rcases hj with rfl | hj | hj
    · rw [hch]
      exact hd.2.1.sublist (roots_sublist ch)
    · exact ihc hc hd.2.1 hj
    · exact ihn hn hd.2.2.1 hj

/-- The names of linked siblings are those of the forest. -/
theorem Holds.map_name (h : Holds node p G) : G.roots.map (fun i => (node i).name) = G.names.map some := by
  induction G with
  | nil => rfl
  | cons k r ch nx _ ih => rw [Forest.roots, Forest.names, map_cons, map_cons, h.2.1, ih h.2.2.2.2]

theorem Holds.pairwise_name_iff (h : Holds node p G) :
    (G.roots.Pairwise fun i j => (node i).name ≠ (node j).name) ↔ G.names.Nodup := by
  rw [← pairwise_map (f := fun i => (node i).name) (R := (· ≠ ·)), h.map_name, pairwise_map, Nodup]
  simp only [ne_eq, Option.some.injEq]

theorem Holds.pairwise_name (h : Holds node p G) (hd : G.names.Nodup) :
    G.roots.Pairwise fun i j => (node i).name ≠ (node j).name := h.pairwise_name_iff.mpr hd

theorem names_nodup {α : Type*} {f : Forest Name α} (hd : f.Distinct) : f.names.Nodup := by
  induction f with
  | nil => exact nodup_nil
  | cons k a ch nx _ ih => exact nodup_cons.mpr ⟨hd.1, ih hd.2.2⟩

theorem Holds.children_names (h : Holds node p G) (hd : G.Distinct) {j : ℕ} (hj : j ∈ G.toList) :
    (node j).children.Pairwise fun i k => (node i).name ≠ (node k).name := by
  induction G generalizing p with
  | nil => cases hj
  | cons k r ch nx ihc ihn =>
    obtain ⟨-, -, hch, hc, hn⟩ := h
    simp only [Forest.toList, mem_cons, mem_append] at hj
    rcases hj with rfl | hj | hj
    · rw [hch]
      exact hc.pairwise_name (names_nodup hd.2.1)
    · exact ihc hc hd.2.1 hj
    · exact ihn hn hd.2.2 hj

/-- The nodes with children are directories, in memory and in the tree. -/
theorem Holds.dirs_iff (h : Holds node p G) :
    (∀ j ∈ G.toList, (node j).children ≠ [] → (node j).info.isDir = true) ↔
      (G.map fun i => (node i).info).All fun a ch => ch ≠ .nil → a.isDir = true := by
  induction G generalizing p with
  | nil => exact ⟨fun _ => trivial, fun _ _ hj => by cases hj⟩
  | cons k r ch nx ihc ihn =>
    obtain ⟨-, -, hch, hc, hn⟩ := h
    have hnil : (node r).children ≠ [] ↔ ch.map (fun i => (node i).info) ≠ .nil := by
      rw [hch]
      cases ch <;> simp [Forest.roots, Forest.map]
    simp only [Forest.toList, Forest.map, Forest.All, mem_cons, mem_append, or_imp, forall_and,
      forall_eq, ← ihc hc, ← ihn hn, hnil]

theorem distinct_map {α β : Type*} {f : Forest Name α} (g : α → β) :
    (f.map g).Distinct ↔ f.Distinct := by
  have hnames : ∀ f : Forest Name α, (f.map g).names = f.names := by
    intro f
    induction f with
    | nil => rfl
    | cons k a ch nx _ ih => rw [Forest.map, Forest.names, Forest.names, ih]
  induction f with
  | nil => exact Iff.rfl
  | cons k a ch nx ihc ihn => simp only [Forest.map, Forest.Distinct, hnames, ihc, ihn]

end Links

/-- **The invariant of an arena that holds a tree of distinct siblings.** -/
theorem Arena.Represents.repInv_iff {h : Arena} {t : ScanTree} {G : Forest Name ℕ}
    (hr : h.Represents t G) (hroot : t.root.isDir = true) (hd : t.top.Distinct) :
    RepInv h ↔ t.top.All fun a ch => ch ≠ .nil → a.isDir = true := by
  have hholds := hr.below.holds
  have hchildren := hr.below.children
  have hnodup := nodup_cons.mp hr.below.nodup
  have hG : G.Distinct := (distinct_map _).mp (hr.top ▸ hd)
  have hmem : ∀ i, i < h.next → i = 0 ∨ i ∈ G.toList := fun i hi => mem_cons.mp (hr.all i hi)
  have hlt : ∀ i ∈ G.toList, i < h.next := fun i hi => hr.below.lt i (mem_cons_of_mem _ hi)
  have h0 : 0 < h.next := hr.below.lt 0 mem_cons_self
  have hdirs := hholds.dirs_iff
  rw [← hr.top, labels, ← hdirs]
  constructor
  · exact fun hinv j hj => hinv.dirs j (hlt j hj)
  · intro hall
    -- a node listed below `q` has the parent `q`
    have hparent : ∀ q < h.next, ∀ i ∈ (h.node q).children, (h.node i).parent = some q := by
      intro q hq i hi
      rcases hmem q hq with rfl | hq
      · exact hholds.parent (hchildren ▸ hi)
      · exact hholds.children_parent hq hi
    have hcn : ∀ q < h.next, (h.node q).children.Nodup := by
      intro q hq
      rcases hmem q hq with rfl | hq
      · rw [hchildren]
        exact hnodup.2.sublist (roots_sublist G)
      · exact hholds.children_nodup hnodup.2 hq
    refine ⟨fun i hi hin => ?_, fun i hi hne => ?_, fun q hq => ?_⟩
    · have hiG : i ∈ G.toList := (hmem i hin).resolve_left (Nat.ne_of_gt hi)
      obtain ⟨q, hq, hpar, hlist⟩ : ∃ q < h.next, (h.node i).parent = some q ∧
          i ∈ (h.node q).children := by
        rcases hholds.exists_parent hiG with ⟨h1, h2⟩ | ⟨q, hq, h1, h2⟩
        · exact ⟨0, h0, h2, hchildren ▸ h1⟩
        · exact ⟨q, hlt q hq, h1, h2⟩
      refine ⟨q, hq, hpar, count_eq_one_of_mem (hcn q hq) hlist, fun q' hq' hne hi' => ?_⟩
      have := hparent q' hq' i hi'
      rw [hpar] at this
      exact hne (Option.some.inj this).symm
    · rcases hmem i hi with rfl | hi
      · rw [hr.root]
        exact hroot
      · exact hall i hi hne
    · rcases hmem q hq with rfl | hq
      · rw [hchildren]
        exact hholds.pairwise_name (names_nodup hG)
      · exact hholds.children_names hG hq

/-! ### Sequences of calls -/

/-- A call of `tree_add_path`. -/
structure AddCall where
  path : List UInt8
  args : AddArgs

/-- The tokens of the path of a call. -/
def AddCall.names (c : AddCall) : List Name := pathTokens c.path

/-- The arena after a sequence of calls. -/
def Arena.run (calls : List AddCall) : Arena :=
  calls.foldl (fun h c => (h.addPath c.path c.args).1) Arena.treeNew

/-- The tree after a sequence of calls. -/
def ScanTree.run (calls : List AddCall) : ScanTree :=
  calls.foldl (fun t c => t.addPath c.path c.args) treeNew

/-- **The arena of a run holds the tree of the run.** -/
theorem run_represents (calls : List AddCall) :
    ∃ G, (Arena.run calls).Represents (ScanTree.run calls) G := by
  induction calls using List.reverseRecOn with
  | nil => exact ⟨_, Arena.treeNew_represents⟩
  | append_singleton calls c ih =>
    obtain ⟨G, hr⟩ := ih
    rw [Arena.run, ScanTree.run, foldl_append, foldl_append]
    exact Arena.addPath_represents hr c.path c.args

theorem run_append (calls : List AddCall) (c : AddCall) :
    (ScanTree.run (calls ++ [c])).top =
      (ScanTree.run calls).top.insertPath dirInfo (nodeAlloc c.args) (NodeInfo.readd c.args) c.names := by
  rw [ScanTree.run, foldl_append]
  rfl

theorem run_distinct (calls : List AddCall) : (ScanTree.run calls).top.Distinct := by
  induction calls using List.reverseRecOn with
  | nil => trivial
  | append_singleton calls c ih =>
    rw [run_append]
    exact ih.insertPath _

theorem run_root (calls : List AddCall) : (ScanTree.run calls).root = dirInfo := by
  induction calls using List.reverseRecOn with
  | nil => rfl
  | append_singleton calls c ih =>
    rw [ScanTree.run, foldl_append]
    exact ih

/-- The type of the node at `q`: the first call that reaches `q` creates it, as a directory unless
`q` is its whole path. -/
def firstKind (calls : List AddCall) (q : List Name) : Option Bool :=
  (calls.find? fun c => q <+: c.names).map fun c => if c.names = q then c.args.isDir else true

/-- **The first call that reaches a path decides its type.** -/
theorem label?_run_isDir (calls : List AddCall) {q : List Name} (hq : q ≠ []) :
    ((ScanTree.run calls).top.label? q).map NodeInfo.isDir = firstKind calls q := by
  induction calls using List.reverseRecOn with
  | nil => exact congrArg _ (Forest.label?_nil q)
  | append_singleton calls c ih =>
    unfold firstKind at ih ⊢
    rw [run_append, find?_append, Option.map_or, ← ih]
    by_cases hpre : q <+: c.names
    · have hfind : [c].find? (fun d => decide (q <+: d.names)) = some c := by simp [hpre]
      rw [hfind]
      by_cases hself : c.names = q
      · subst hself
        rw [Forest.label?_insertPath_self _ hq, Option.map_some, Option.map_some, if_pos rfl]
        cases (ScanTree.run calls).top.label? c.names <;> simp
      · rw [Forest.label?_insertPath_mid _ hq hpre (Ne.symm hself), Option.map_some,
          Option.map_some, if_neg hself]
        cases (ScanTree.run calls).top.label? q <;> simp [dirInfo]
    · have hfind : [c].find? (fun d => decide (q <+: d.names)) = none := by simp [hpre]
      rw [hfind, Forest.label?_insertPath_other _ hpre]
      simp

/-- No call adds a file, as the first to reach its path, that a later call uses as a directory. -/
def NoFileAsDir (calls : List AddCall) : Prop :=
  ∀ before c after, calls = before ++ c :: after → c.args.isDir = false → c.names ≠ [] →
    (∀ d ∈ before, ¬ c.names <+: d.names) → ∀ d ∈ after, c.names <+: d.names → d.names = c.names

theorem firstKind_isSome {calls : List AddCall} {q : List Name} :
    (firstKind calls q).isSome ↔ ∃ d ∈ calls, q <+: d.names := by
  simp [firstKind]

theorem noFileAsDir_iff (calls : List AddCall) :
    NoFileAsDir calls ↔ ∀ q n, q ≠ [] → (firstKind calls (q ++ [n])).isSome →
      firstKind calls q = some true := by
  constructor
  · intro hno q n hq hsome
    obtain ⟨d, hd, hpre⟩ := firstKind_isSome.mp hsome
    have hqd : q <+: d.names := (prefix_append q [n]).trans hpre
    unfold firstKind
    cases hfind : calls.find? fun c => q <+: c.names with
    | none => exact absurd hqd (by simpa using find?_eq_none.mp hfind d hd)
    | some c =>
      rw [Option.map_some]
      split_ifs with hself
      · obtain ⟨-, before, after, rfl, hbefore⟩ := find?_eq_some_iff_append.mp hfind
        cases hdir : c.args.isDir with
        | true => rfl
        | false =>
          have hlen : d.names ≠ c.names := by
            intro he
            have := hpre.length_le
            rw [he, hself, length_append, length_singleton] at this
            omega
          rw [mem_append, mem_cons] at hd
          rcases hd with hd | rfl | hd
          · exact absurd hqd (by simpa using hbefore d hd)
          · exact absurd rfl hlen
          · refine absurd (hno before c after rfl hdir (hself ▸ hq) (fun e he => ?_) d hd
              (hself ▸ hqd)) hlen
            simpa [hself] using hbefore e he
      · rfl
  · rintro h before c after rfl hdir hne hbefore d hd hpre
    by_contra hlen
    obtain ⟨t, ht⟩ := hpre
    cases t with
    | nil => exact hlen (by rw [← ht, append_nil])
    | cons n t =>
      have hsome : (firstKind (before ++ c :: after) (c.names ++ [n])).isSome :=
        firstKind_isSome.mpr ⟨d, by simp [hd], ⟨t, by rw [← ht]; simp⟩⟩
      have hkind := h c.names n hne hsome
      have hfind : (before ++ c :: after).find? (fun e => c.names <+: e.names) = some c :=
        find?_eq_some_iff_append.mpr ⟨by simp, before, after, rfl, by simpa using hbefore⟩
      rw [firstKind, hfind, Option.map_some, if_pos rfl, hdir] at hkind
      cases hkind

/-- **Which sequences of calls keep the representation invariant.** -/
theorem repInv_run_iff (calls : List AddCall) : RepInv (Arena.run calls) ↔ NoFileAsDir calls := by
  obtain ⟨G, hr⟩ := run_represents calls
  have hd := run_distinct calls
  rw [hr.repInv_iff (by rw [run_root]; rfl) hd, Forest.all_iff_label? hd, noFileAsDir_iff]
  refine forall_congr' fun q => forall_congr' fun n => forall_congr' fun hq => ?_
  rw [← label?_run_isDir calls hq, ← label?_run_isDir calls (append_ne_nil_of_left_ne_nil hq [n])]
  simp [Option.map_eq_some_iff]

/-- A file `/a`, then a file `/a/b`. -/
def fileUnderFile : List AddCall :=
  [⟨[slash, 97], ⟨false, 1, 0, 1, 0, 512, false⟩⟩,
    ⟨[slash, 97, slash, 98], ⟨false, 1, 0, 1, 0, 512, false⟩⟩]

/-- The file `/a` has a child. -/
theorem fileUnderFile_not_repInv : ¬ RepInv (Arena.run fileUnderFile) := by
  intro h
  exact absurd (h.dirs 1 (by decide) (by decide)) (by decide)

end RecoveryQt
