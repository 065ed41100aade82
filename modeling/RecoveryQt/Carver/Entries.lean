import RecoveryQt.Carver.Model
import RecoveryQt.Tree.Model

/-!
# Carved entries in the tree

`carver_add_entry` names an entry after its number and adds it below `/ORPHAN`.

* `carvedPath`, `carvedArgs`: the path and the arguments of the entry;
* `carverAddEntry`, `carverRun`: `carver_add_entry` and `carver_run` on a tree;
* `carvedEntries`: the carved entries of a tree;
* `addCarved_fixed`, `carverRun_twice`: adding the same entries again changes nothing.
-/

namespace RecoveryQt

open List

/-- `"%010u"` of a number below `10 ^ 10`. -/
def tenDigits (n : ℕ) : List UInt8 := (range 10).reverse.map fun i => UInt8.ofNat (48 + n / 10 ^ i % 10)

/-- `toupper` of the carver: only `a` to `z` change. -/
def upperByte (c : UInt8) : UInt8 := if 97 ≤ c ∧ c ≤ 122 then c - 32 else c

/-- The extension of a hint as a C string, `"bin"` when it has none. -/
def FileHint.ext (h : FileHint) : List UInt8 :=
  (h.extension.getD [98, 105, 110]).takeWhile (· ≠ 0)

/-- `/ORPHAN/<EXT>/file_<count>.<ext>`: the extension in upper case is cut at 31 bytes, the name
at 63. -/
def carvedPath (count : ℕ) (h : FileHint) : List UInt8 :=
  [47, 79, 82, 80, 72, 65, 78, 47] ++ (h.ext.take 31).map upperByte ++ [47] ++
    ([102, 105, 108, 101, 95] ++ tenDigits count ++ [46] ++ h.ext).take 63

/-- The arguments of `tree_add_path` for an entry. -/
def carvedArgs (partOffset sectorSize : ℕ) (e : CarvedEntry) : AddArgs where
  isDir := false
  size := UInt64.ofNat e.size
  firstSector := UInt64.ofNat (e.offset - partOffset)
  numSectors := UInt64.ofNat ((e.size + sectorSize - 1) / sectorSize)
  mtime := 0
  sectorSize := UInt32.ofNat sectorSize
  deleted := true

/-- Add an entry at a path and set `orphan` on the node that `tree_add_path` returns. -/
def ScanTree.addCarved (t : ScanTree) (x : List Name × AddArgs) : ScanTree :=
  (t.addTokens x.1 x.2).modify (fun i => { i with orphan := true }) x.1

/-- The tree and `g_carved_count`. -/
structure CarveState where
  tree : ScanTree
  count : ℕ

/-- `carver_add_entry`. -/
def carverAddEntry (partOffset sectorSize : ℕ) (s : CarveState) (e : CarvedEntry) : CarveState :=
  if maxOrphanFiles ≤ s.count then s
  else if e.size < carverMinSize then s
  else ⟨s.tree.addCarved (pathTokens (carvedPath s.count e.hint), carvedArgs partOffset sectorSize e),
    s.count + 1⟩

/-- `carver_run`: a scan whose entries are added to the tree. -/
def CarverEnv.carverRun (env : CarverEnv) (t : ScanTree) : ScanTree :=
  (env.entries.foldl (carverAddEntry env.partOffset env.sectorSize) ⟨t, 0⟩).tree

/-- The extension of a name: what follows its last dot. -/
def Name.extension (n : Name) : List UInt8 := (n.bytes.reverse.takeWhile (· ≠ 46)).reverse

/-- The first sector, the size and the extension of every carved entry of a forest. -/
def carvedForest : Forest Name NodeInfo → List (UInt64 × UInt64 × List UInt8)
  | .nil => []
  | .cons n x ch nx =>
    (if x.orphan = true ∧ x.isDir = false then [(x.firstSector, x.size, n.extension)] else []) ++
      (carvedForest ch ++ carvedForest nx)

/-- The carved entries of a tree. -/
def ScanTree.carvedEntries (t : ScanTree) : List (UInt64 × UInt64 × List UInt8) := carvedForest t.top

/-! ### Adding entries again -/

/-- The additions that the entries make, the first being number `count`. -/
def carvedAdds (partOffset sectorSize : ℕ) : List CarvedEntry → ℕ → List (List Name × AddArgs)
  | [], _ => []
  | e :: es, count =>
    if maxOrphanFiles ≤ count ∨ e.size < carverMinSize then carvedAdds partOffset sectorSize es count
    else (pathTokens (carvedPath count e.hint), carvedArgs partOffset sectorSize e) ::
      carvedAdds partOffset sectorSize es (count + 1)

/-- **The additions depend on the entries only, never on the tree.** -/
theorem foldl_carverAddEntry (off ss : ℕ) (es : List CarvedEntry) (s : CarveState) :
    (es.foldl (carverAddEntry off ss) s).tree =
      (carvedAdds off ss es s.count).foldl ScanTree.addCarved s.tree := by
  induction es generalizing s with
  | nil => rfl
  | cons e es ih =>
    rw [foldl_cons, ih, carvedAdds, carverAddEntry]
    by_cases h1 : maxOrphanFiles ≤ s.count
    · rw [if_pos h1, if_pos (Or.inl h1)]
    · by_cases h2 : e.size < carverMinSize
      · rw [if_neg h1, if_pos h2, if_pos (Or.inr h2)]
      · rw [if_neg h1, if_neg h2, if_neg (not_or.mpr ⟨h1, h2⟩), foldl_cons]

/-- The carved node of an addition is there: deleted, and an orphan. -/
def Carved (t : ScanTree) (p : List Name) : Prop :=
  ∃ x, t.top.label? p = some x ∧ x.deleted = true ∧ x.orphan = true

theorem NodeInfo.readd_flags (a : AddArgs) {x : NodeInfo} (ha : a.deleted = true) :
    (x.readd a).deleted = true ∧ (x.readd a).orphan = x.orphan := by
  unfold NodeInfo.readd
  split_ifs with h h'
  · exact ⟨rfl, rfl⟩
  · exact ⟨rfl, rfl⟩
  · refine ⟨?_, rfl⟩
    by_contra hx
    exact h ⟨by simpa using hx, ha⟩

theorem addCarved_top (t : ScanTree) {p : List Name} (hp : p ≠ []) (a : AddArgs) :
    (t.addCarved (p, a)).top =
      (t.top.insertPath dirInfo (nodeAlloc a) (NodeInfo.readd a) p).modify
        (fun i => { i with orphan := true }) p := by
  unfold ScanTree.addCarved ScanTree.modify
  cases p with
  | nil => exact absurd rfl hp
  | cons n ns => rfl

theorem addCarved_self (t : ScanTree) {p : List Name} (hp : p ≠ []) {a : AddArgs}
    (ha : a.deleted = true) : Carved (t.addCarved (p, a)) p := by
  rw [Carved, addCarved_top t hp, Forest.label?_modify_self, Forest.label?_insertPath_self _ hp]
  refine ⟨_, rfl, ?_, rfl⟩
  cases t.top.label? p with
  | none => exact ha
  | some x => exact (NodeInfo.readd_flags a ha).1

theorem Carved.addCarved {t : ScanTree} {p q : List Name} (h : Carved t q) (hp : p ≠ [])
    {a : AddArgs} (ha : a.deleted = true) : Carved (t.addCarved (p, a)) q := by
  by_cases he : q = p
  · subst he
    exact addCarved_self t hp ha
  · obtain ⟨x, hx, hd, ho⟩ := h
    refine ⟨x, ?_, hd, ho⟩
    rw [addCarved_top t hp, Forest.label?_modify_other _ he, Forest.label?_insertPath_of_some hx,
      if_neg he]

theorem addCarved_fixed {t : ScanTree} {p : List Name} (h : Carved t p) (hp : p ≠ []) {a : AddArgs} :
    t.addCarved (p, a) = t := by
  obtain ⟨x, hx, hd, ho⟩ := h
  have hins : t.addTokens p a = t := by
    unfold ScanTree.addTokens
    rw [Forest.insertPath_fixed _ hx (NodeInfo.readd_deleted a hd), if_neg fun hn => by simp [hx] at hn]
  have hmod : t.top.modify (fun i => { i with orphan := true }) p = t.top :=
    Forest.modify_fixed _ hx (by rw [← ho])
  rw [ScanTree.addCarved, hins, ScanTree.modify.eq_2 _ _ _ hp, hmod]

/-- The path of an entry has a token. -/
theorem carvedPath_ne_nil (count : ℕ) (h : FileHint) : pathTokens (carvedPath count h) ≠ [] := by
  have hpath : carvedPath count h = slash :: ([79, 82, 80, 72, 65, 78] ++ slash ::
      ((h.ext.take 31).map upperByte ++ [47] ++
        ([102, 105, 108, 101, 95] ++ tenDigits count ++ [46] ++ h.ext).take 63)) := by
    simp [carvedPath, slash]
  rw [hpath]
  have hname : IsName [79, 82, 80, 72, 65, 78] := by decide
  have hcons := pathTokens_cons ⟨_, hname.1, hname.2⟩
  rw [hcons]
  exact cons_ne_nil _ _

theorem mem_carvedAdds {off ss : ℕ} {es : List CarvedEntry} {count : ℕ}
    {x : List Name × AddArgs} (hx : x ∈ carvedAdds off ss es count) :
    x.1 ≠ [] ∧ x.2.deleted = true := by
  induction es generalizing count with
  | nil => cases hx
  | cons e es ih =>
    rw [carvedAdds] at hx
    split_ifs at hx
    · exact ih hx
    · rcases mem_cons.mp hx with rfl | hx
      · exact ⟨carvedPath_ne_nil count e.hint, rfl⟩
      · exact ih hx

/-- **Adding the same entries again changes nothing.** -/
theorem foldl_addCarved_twice {l : List (List Name × AddArgs)}
    (hl : ∀ x ∈ l, x.1 ≠ [] ∧ x.2.deleted = true) (t : ScanTree) :
    l.foldl ScanTree.addCarved (l.foldl ScanTree.addCarved t) = l.foldl ScanTree.addCarved t := by
  have hkeep : ∀ (m : List (List Name × AddArgs)) (t : ScanTree) (q : List Name),
      (∀ x ∈ m, x.1 ≠ [] ∧ x.2.deleted = true) → Carved t q → Carved (m.foldl ScanTree.addCarved t) q := by
    intro m
    induction m with
    | nil => exact fun t q _ hq => hq
    | cons x m ih =>
      intro t q hm hq
      obtain ⟨hp, ha⟩ := hm x mem_cons_self
      exact ih _ q (fun y hy => hm y (mem_cons_of_mem _ hy)) (hq.addCarved hp ha)
  have hdone : ∀ (m : List (List Name × AddArgs)) (t : ScanTree),
      (∀ x ∈ m, x.1 ≠ [] ∧ x.2.deleted = true) → ∀ x ∈ m, Carved (m.foldl ScanTree.addCarved t) x.1 := by
    intro m
    induction m with
    | nil => exact fun t _ x hx => by cases hx
    | cons y m ih =>
      intro t hm x hx
      obtain ⟨hp, ha⟩ := hm y mem_cons_self
      have hm' : ∀ x ∈ m, x.1 ≠ [] ∧ x.2.deleted = true := fun z hz => hm z (mem_cons_of_mem _ hz)
      rcases mem_cons.mp hx with rfl | hx
      · exact hkeep m _ _ hm' (addCarved_self t hp ha)
      · exact ih _ hm' x hx
  have hfix : ∀ (m : List (List Name × AddArgs)) (t : ScanTree),
      (∀ x ∈ m, x.1 ≠ [] ∧ Carved t x.1) → m.foldl ScanTree.addCarved t = t := by
    intro m
    induction m with
    | nil => exact fun t _ => rfl
    | cons x m ih =>
      intro t hm
      obtain ⟨hp, hx⟩ := hm x mem_cons_self
      rw [foldl_cons, addCarved_fixed hx hp]
      exact ih t fun y hy => hm y (mem_cons_of_mem _ hy)
  exact hfix l _ fun x hx => ⟨(hl x hx).1, hdone l t hl x hx⟩

/-- **A run over a prefix of the entries, then a run over all of them**, leaves the tree of the
run over all of them. -/
theorem foldl_carverAddEntry_twice (off ss : ℕ) (es es' : List CarvedEntry) (t : ScanTree) :
    ((es ++ es').foldl (carverAddEntry off ss) ⟨(es.foldl (carverAddEntry off ss) ⟨t, 0⟩).tree, 0⟩).tree =
      ((es ++ es').foldl (carverAddEntry off ss) ⟨t, 0⟩).tree := by
  have happ : ∀ (es es' : List CarvedEntry) (n : ℕ), ∃ m,
      carvedAdds off ss (es ++ es') n = carvedAdds off ss es n ++ carvedAdds off ss es' m := by
    intro es es'
    induction es with
    | nil => exact fun n => ⟨n, rfl⟩
    | cons e es ih =>
      intro n
      rw [cons_append, carvedAdds, carvedAdds]
      split_ifs
      · exact ih n
      · obtain ⟨m, hm⟩ := ih (n + 1)
        exact ⟨m, by rw [hm, cons_append]⟩
  obtain ⟨m, hm⟩ := happ es es' 0
  rw [foldl_carverAddEntry, foldl_carverAddEntry, foldl_carverAddEntry, hm, foldl_append, foldl_append,
    foldl_addCarved_twice fun x hx => mem_carvedAdds hx]

end RecoveryQt
