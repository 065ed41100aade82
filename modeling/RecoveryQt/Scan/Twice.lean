import RecoveryQt.Carver.Examined
import RecoveryQt.Scan.Settled

/-!
# Scanning a volume twice

* `ScanItem.Quiet`: the detected type of the item keeps its name;
* `label?_scan`: what quiet items leave at a path;
* `items_stopped`: a cancelled run does some of the items of a complete one, at each path the first;
* **`scannerRun_twice`**: a second run leaves the nodes of a single complete one.
-/

namespace RecoveryQt

open List

/-! ## Quiet items -/

/-- The clusters of the node, for a record of the MFT, are those of the record. -/
def ScanItem.Owns (env : ScanEnv) (item : ScanItem) (x : NodeInfo) : Prop :=
  item.marks = true → ∃ size, item.fill env size = some x.clusters

/-- **The detected type keeps the name of the item.** -/
def ScanItem.Quiet (env : ScanEnv) (item : ScanItem) : Prop :=
  ∀ x, item.Owns env x → ∀ e, item.detected env x = some e →
    ∀ n, item.tokens.getLast? = some n → newName n e = n

/-- The clusters of the nodes come from items at their paths. -/
def ScanTree.Known (env : ScanEnv) (all : List ScanItem) (t : ScanTree) : Prop :=
  ∀ p x, t.top.label? p = some x → x.clusters ≠ Clusters.none →
    ∃ i ∈ all, i.tokens = p ∧ ∃ size, i.fill env size = some x.clusters

section Quiet

variable {env : ScanEnv} {all : List ScanItem} {t : ScanTree} {item : ScanItem}

/-- What an item leaves at each path, its name apart. -/
theorem label?_addItem (env : ScanEnv) (t : ScanTree) (item : ScanItem) {q : List Name} (hq : q ≠ []) :
    (t.addItem env item).top.label? q = item.effect env q (t.top.label? q) := by
  rw [ScanTree.addItem_top, ScanItem.effect]
  split_ifs with hself hmid
  · subst hself
    exact Forest.label?_insertPath_self _ hq
  · exact Forest.label?_insertPath_mid _ hq hmid fun h => hself h.symm
  · exact Forest.label?_insertPath_other _ hmid

theorem Known.addItem (h : t.Known env all) (hitem : item ∈ all) :
    (t.addItem env item).Known env all := by
  intro p x hx hne
  by_cases hp : p = []
  · subst hp
    exact absurd hx (by cases (t.addItem env item).top <;> simp [Forest.label?])
  rw [label?_addItem env t item hp, ScanItem.effect] at hx
  split_ifs at hx with hself hmid
  · obtain rfl := Option.some.inj hx
    cases hold : t.top.label? p with
    | none =>
      rw [hold] at hne
      change (item.newNode env).clusters ≠ _ at hne
      show ∃ i ∈ all, i.tokens = p ∧ ∃ size, i.fill env size = some (item.newNode env).clusters
      cases hfill : item.fill env (item.newNode env).size with
      | none => exact absurd (by rw [ScanItem.newNode_clusters, hfill]; rfl) hne
      | some c =>
        refine ⟨item, hitem, hself, (item.newNode env).size, ?_⟩
        rw [ScanItem.newNode_clusters, hfill]
        rfl
    | some y =>
      rw [hold] at hne
      change (item.foundNode env y).clusters ≠ _ at hne
      show ∃ i ∈ all, i.tokens = p ∧ ∃ size, i.fill env size = some (item.foundNode env y).clusters
      cases hfill : item.fill env (item.foundNode env y).size with
      | none =>
        rw [ScanItem.foundNode_clusters, hfill] at hne ⊢
        exact h p y hold hne
      | some c =>
        refine ⟨item, hitem, hself, (item.foundNode env y).size, ?_⟩
        rw [ScanItem.foundNode_clusters, hfill]
        rfl
  · obtain rfl := Option.some.inj hx
    cases hold : t.top.label? p with
    | none =>
      rw [hold] at hne
      exact absurd rfl hne
    | some y =>
      rw [hold] at hne
      exact h p y hold hne
  · exact h p x hx hne

/-- What is detected for a record of the MFT depends on the clusters of the node only. -/
theorem detected_of_fill {i : ScanItem} {x : NodeInfo} {size : UInt64} {c : Clusters} {data : MftData}
    (hi : i.fill env size = some c) (hitem : item.kind = .mft data) :
    i.detected env x = item.detected env x := by
  obtain ⟨path, args, kind⟩ := i
  obtain ⟨path', args', kind'⟩ := item
  cases hitem
  cases kind with
  | entry | inode b | carved => cases hi
  | mft data' => rfl

/-- A type that is detected keeps the name. -/
theorem newName_of_detected (hknown : t.Known env all) (hquiet : ∀ i ∈ all, i.Quiet env)
    (hitem : item ∈ all) {x : NodeInfo} (hx : t.top.label? item.tokens = some x) {e : Extension}
    (he : item.detected env x = some e) {n : Name} (hn : item.tokens.getLast? = some n) :
    newName n e = n := by
  cases hkind : item.kind with
  | entry => rw [ScanItem.detected, hkind] at he; cases he
  | carved => rw [ScanItem.detected, hkind] at he; cases he
  | inode b =>
    refine hquiet item hitem x (fun hmarks => ?_) e he n hn
    rw [ScanItem.marks, hkind] at hmarks
    cases hmarks
  | mft data =>
    have hne : x.clusters ≠ Clusters.none := by
      intro hnone
      rw [ScanItem.detected, hkind, hnone] at he
      cases he
    -- the clusters are those of an item at the same path
    obtain ⟨i, hi, htokens, hfill⟩ := hknown item.tokens x hx hne
    obtain ⟨size, hsize⟩ := hfill
    refine hquiet i hi x (fun _ => ⟨size, hsize⟩) e ?_ n (htokens ▸ hn)
    rw [detected_of_fill hsize hkind, he]

/-- **A quiet item** keeps its name. -/
theorem scanItem_eq_addItem (hknown : (t.addItem env item).Known env all)
    (hquiet : ∀ i ∈ all, i.Quiet env) (hitem : item ∈ all) :
    t.scanItem env item = t.addItem env item := by
  show (t.addItem env item).renameTo (((t.addItem env item).findPath item.path).bind
    (item.detected env)) item.tokens = _
  unfold ScanTree.renameTo
  split
  · next e n hdetected hlast =>
    obtain ⟨x, hfind, hdetected⟩ := Option.bind_eq_some_iff.mp hdetected
    have hp : item.tokens ≠ [] := by
      intro hp
      rw [hp] at hlast
      cases hlast
    rw [ScanTree.findPath_eq, if_neg hp] at hfind
    rw [newName_of_detected hknown hquiet hitem hfind hdetected hlast, Forest.rename_self _ hlast]
  · rfl

/-- **Quiet items** in order. -/
theorem scan_quiet {l : List ScanItem} (hquiet : ∀ i ∈ all, i.Quiet env) (hl : ∀ i ∈ l, i ∈ all)
    (hknown : t.Known env all) : (t.scan env l).Known env all ∧
      (t.top.Distinct → (t.scan env l).top.Distinct) ∧
      ((∀ i ∈ l, i.kind = .entry ∨ i.tokens ≠ []) → (t.scan env l).root = t.root) ∧
      ∀ q ≠ [], (t.scan env l).top.label? q = effects env q (t.top.label? q) l := by
  induction l generalizing t with
  | nil => exact ⟨hknown, id, fun _ => rfl, fun q _ => rfl⟩
  | cons item l ih =>
    have hitem := hl item mem_cons_self
    have hknown' := Known.addItem hknown hitem
    obtain ⟨h1, h2, h3, h4⟩ := ih (fun i hi => hl i (mem_cons_of_mem item hi)) hknown'
    rw [ScanTree.scan, foldl_cons, scanItem_eq_addItem hknown' hquiet hitem]
    refine ⟨h1, fun hd => h2 ?_, fun hroot => ?_, fun q hq => ?_⟩
    · rw [ScanTree.addItem_top]
      exact hd.insertPath _
    · rw [← ScanTree.scan, h3 fun i hi => hroot i (mem_cons_of_mem item hi), ScanTree.addItem_root]
      split_ifs with hp
      · rcases hroot item mem_cons_self with hkind | hne
        · rw [ScanItem.follow, hkind]
        · exact absurd hp hne
      · rfl
    · rw [← ScanTree.scan, h4 q hq, label?_addItem env t item hq]
      rfl

end Quiet

/-! ## The items of a cancelled run -/

/-- The chunk loop when the carver is never cancelled. -/
theorem chunkLoop_stopped (c : CarverEnv) (l : List ℕ) (s : Option OpenFile) :
    c.chunkLoop l s = { c with cancel := fun _ => false }.chunkLoop l s ∨
      (c.chunkLoop l s).cancelledAt.isSome ∧
        (c.chunkLoop l s).events <+: ({ c with cancel := fun _ => false }.chunkLoop l s).events := by
  induction l generalizing s with
  | nil => exact .inl rfl
  | cons cp l ih =>
    have hread : { c with cancel := fun _ => false }.chunkRead cp = c.chunkRead cp := rfl
    rw [CarverEnv.chunkLoop, CarverEnv.chunkLoop, hread]
    cases c.chunkRead cp with
    | none => exact .inl rfl
    | some buffer =>
      have hstep : { c with cancel := fun _ => false }.chunkStep cp buffer s =
          c.chunkStep cp buffer s := rfl
      simp only [hstep, Bool.false_eq_true, if_false]
      cases hcancel : c.cancel cp with
      | true => exact .inr ⟨rfl, prefix_append _ _⟩
      | false =>
        simp only [Bool.false_eq_true, if_false]
        rcases ih (c.chunkStep cp buffer s).1 with h | ⟨hsome, hevents⟩
        · exact .inl (by rw [h])
        · exact .inr ⟨hsome, (prefix_append_right_inj _).mpr hevents⟩

/-- **A carver that is cancelled** finds the first entries of one that is not. -/
theorem entries_stopped (c : CarverEnv) :
    c.entries <+: { c with cancel := fun _ => false }.entries := by
  have hpositions : { c with cancel := fun _ => false }.scanLoop =
      { c with cancel := fun _ => false }.chunkLoop (c.chunkPositions c.startPos) none := rfl
  unfold CarverEnv.entries CarverEnv.carverScan
  apply List.IsPrefix.filterMap
  rcases chunkLoop_stopped c (c.chunkPositions c.startPos) none with h | ⟨hsome, hevents⟩
  · have hloop : { c with cancel := fun _ => false }.scanLoop = c.scanLoop := by
      rw [hpositions, ← h]
      rfl
    simp only [hloop]
    exact prefix_rfl
  · have hsome : c.scanLoop.cancelledAt.isSome := hsome
    have hevents : c.scanLoop.events <+: { c with cancel := fun _ => false }.scanLoop.events := hevents
    simp only [hsome, if_true, List.append_nil]
    exact hevents.trans (prefix_append _ _)

theorem carvedItems_append (off ss : ℕ) (es es' : List CarvedEntry) (count : ℕ) : ∃ n,
    carvedItems off ss (es ++ es') count =
      carvedItems off ss es count ++ carvedItems off ss es' n := by
  induction es generalizing count with
  | nil => exact ⟨count, rfl⟩
  | cons e es ih =>
    rw [cons_append, carvedItems, carvedItems]
    split_ifs
    · exact ih count
    · obtain ⟨n, hn⟩ := ih (count + 1)
      exact ⟨n, by rw [hn, cons_append]⟩

theorem upTo_isPrefix {α : Type*} (stop : Option ℕ) (l : List α) : upTo stop l <+: l := by
  cases stop with
  | none => exact prefix_rfl
  | some n => exact take_prefix n l

namespace ScanVolume

variable (v : ScanVolume)

/-- The items of a carver that is cancelled are the first. -/
theorem carved_stopped (stop : ScanStop) : v.carved stop <+: v.carved .never := by
  obtain ⟨rest, hrest⟩ := entries_stopped (v.stoppedCarver stop)
  have hnever : (v.stoppedCarver .never).entries = (v.stoppedCarver stop).entries ++ rest :=
    hrest.symm
  unfold carved
  rw [hnever]
  obtain ⟨n, hn⟩ := carvedItems_append (v.stoppedCarver stop).partOffset
    (v.stoppedCarver stop).sectorSize (v.stoppedCarver stop).entries rest 0
  exact ⟨_, hn.symm⟩

theorem scannerDeepExt_stopped (stop : Option ℕ) :
    v.scannerDeepExt stop <+: v.scannerDeepExt none :=
  (upTo_isPrefix stop _).filterMap _

/-- The index entries of a cluster. -/
def indxItems (cluster : ℕ) : List ScanItem := (v.indx cluster).map (indxItem v.sectorSize)

/-- The index entries of the free clusters, in order. -/
def freeItems : List Bool → ℕ → List ScanItem
  | [], _ => []
  | used :: bits, cluster => (if used then [] else v.indxItems cluster) ++ freeItems bits (cluster + 1)

theorem freeItems_append (bits bits' : List Bool) (cluster : ℕ) :
    v.freeItems (bits ++ bits') cluster =
      v.freeItems bits cluster ++ v.freeItems bits' (cluster + bits.length) := by
  induction bits generalizing cluster with
  | nil => rfl
  | cons used bits ih =>
    rw [cons_append, freeItems, ih, freeItems, append_assoc, length_cons, Nat.add_assoc,
      Nat.add_comm 1]

/-- **Batches that can be read** are looked at in order. -/
theorem deepNtfsFrom_eq (hread : ∀ start count, v.readable start count = true) (bits : List Bool)
    {cluster start count : ℕ} (h : count ≠ 0 → start + count = cluster) :
    v.deepNtfsFrom bits cluster start count =
      (range count).flatMap (fun c => v.indxItems (start + c)) ++ v.freeItems bits cluster := by
  have hflush : ∀ start count, v.flush start count =
      (range count).flatMap fun c => v.indxItems (start + c) := by
    intro start count
    unfold flush
    rw [hread]
    cases count with
    | zero => rfl
    | succ n => exact if_pos ⟨Nat.succ_pos n, rfl⟩
  induction bits generalizing cluster start count with
  | nil => rw [deepNtfsFrom, hflush, freeItems, List.append_nil]
  | cons used bits ih =>
    cases used with
    | true =>
      rw [deepNtfsFrom, hflush, ih fun h => absurd rfl h]
      rfl
    | false =>
      -- the cluster joins the pending ones, or is the first of them
      have hjoin : (range (count + 1)).flatMap (fun c => v.indxItems
          ((if count = 0 then cluster else start) + c)) =
          (range count).flatMap (fun c => v.indxItems (start + c)) ++ v.indxItems cluster := by
        rw [range_succ, flatMap_append]
        by_cases hcount : count = 0
        · rw [hcount]
          simp
        · rw [if_neg hcount, ← h hcount]
          simp
      have hnext : count + 1 ≠ 0 → (if count = 0 then cluster else start) + (count + 1) =
          cluster + 1 := by
        intro
        split_ifs with hcount
        · omega
        · have := h hcount
          omega
      have hfree : v.freeItems (false :: bits) cluster =
          v.indxItems cluster ++ v.freeItems bits (cluster + 1) := rfl
      rw [deepNtfsFrom, hfree, ← append_assoc, ← hjoin]
      generalize (if count = 0 then cluster else start) = start' at hnext ⊢
      split_ifs with hfull
      · rw [hflush, ih fun h => absurd rfl h]
        rfl
      · exact ih hnext

theorem scannerDeepNtfs_stopped (hread : ∀ start count, v.readable start count = true)
    (stop : Option ℕ) : v.scannerDeepNtfs stop <+: v.scannerDeepNtfs none := by
  unfold scannerDeepNtfs
  rw [v.deepNtfsFrom_eq hread _ fun h => absurd rfl h,
    v.deepNtfsFrom_eq hread _ fun h => absurd rfl h]
  obtain ⟨rest, hrest⟩ := upTo_isPrefix stop v.bitmap
  have hall : upTo none v.bitmap = upTo stop v.bitmap ++ rest := hrest.symm
  rw [hall, freeItems_append]
  exact prefix_append _ _

end ScanVolume

/-! ## Where the items are -/

/-- The directories of recovered files. -/
def orphanName : Name := IsName.name (show IsName [79, 82, 80, 72, 65, 78] by decide)

def deepName : Name := IsName.name (show IsName
  [68, 101, 101, 112, 32, 83, 99, 97, 110, 32, 82, 101, 115, 117, 108, 116, 115] by decide)

theorem carvedItems_head {off ss : ℕ} {es : List CarvedEntry} {count : ℕ} {i : ScanItem}
    (hi : i ∈ carvedItems off ss es count) :
    i.tokens.head? = some orphanName ∧ i.kind = .carved ∧ i.args.deleted = true := by
  induction es generalizing count with
  | nil => cases hi
  | cons e es ih =>
    rw [carvedItems] at hi
    split_ifs at hi
    · exact ih hi
    · rcases mem_cons.mp hi with rfl | hi
      · refine ⟨?_, rfl, rfl⟩
        have hpath : carvedPath count e.hint = slash :: (orphanName.bytes ++ slash ::
            ((e.hint.ext.take 31).map upperByte ++ [47] ++
              ([102, 105, 108, 101, 95] ++ tenDigits count ++ [46] ++ e.hint.ext).take 63)) := by
          simp [carvedPath, slash, orphanName, IsName.name]
        show (pathTokens (carvedPath count e.hint)).head? = _
        rw [hpath, pathTokens_cons]
        rfl
      · exact ih hi

theorem item?_head {ss : UInt32} {firstIno : ℕ} {x : ExtInode} {i : ScanItem}
    (hi : x.item? ss firstIno = some i) :
    i.tokens.head? = some deepName ∧ i.args.deleted = true := by
  simp only [ExtInode.item?, Option.ite_none_left_eq_some] at hi
  obtain ⟨-, -, -, hi⟩ := hi
  obtain rfl := Option.some.inj hi
  refine ⟨?_, rfl⟩
  show (pathTokens (slash :: (deepName.bytes ++ slash :: _))).head? = _
  rw [pathTokens_cons]
  rfl

theorem mftItem_head (ss : UInt32) (r : FileInfo × MftData) :
    (mftItem ss r).tokens.head? = some orphanName := by
  obtain ⟨rest, hrest⟩ : ∃ rest, (if r.1.name.head? = some slash then r.1.name
      else slash :: r.1.name) = slash :: rest := by
    split_ifs with h
    · obtain ⟨_, hcons⟩ := head?_eq_some_iff.mp h
      exact ⟨_, hcons⟩
    · exact ⟨_, rfl⟩
  have hpath : (mftItem ss r).path = slash :: (orphanName.bytes ++ slash :: rest.take 4087) := by
    show (orphanDir ++ _).take 4095 = _
    rw [hrest]
    rfl
  unfold ScanItem.tokens
  rw [hpath, pathTokens_cons]
  rfl

theorem walk_entry (v : ScanVolume) {room : ℕ} {known : List ℕ} {path : List UInt8} {inode : ℕ}
    {i : ScanItem} (hi : i ∈ v.scanDirRecursive room known path inode) : i.kind = .entry := by
  induction room generalizing known path inode with
  | zero => cases hi
  | succ room ih =>
    rw [ScanVolume.scanDirRecursive] at hi
    cases hdir : v.getDir inode with
    | none =>
      rw [hdir] at hi
      cases hi
    | some dirList =>
      rw [hdir] at hi
      obtain ⟨fi, -, hi⟩ := mem_flatMap.mp hi
      split_ifs at hi
      · cases hi
      · rcases mem_cons.mp hi with rfl | hi
        · rfl
        · exact ih hi
      · rcases mem_cons.mp hi with rfl | hi
        · rfl
        · cases hi

theorem deepNtfsFrom_entry (v : ScanVolume) {bits : List Bool} {cluster start count : ℕ} {i : ScanItem}
    (hi : i ∈ v.deepNtfsFrom bits cluster start count) : i.kind = .entry := by
  have hflush : ∀ {start count : ℕ}, i ∈ v.flush start count → i.kind = .entry := by
    intro start count hi
    unfold ScanVolume.flush at hi
    split_ifs at hi
    · obtain ⟨c, -, hi⟩ := mem_flatMap.mp hi
      obtain ⟨r, -, rfl⟩ := mem_map.mp hi
      rfl
    · cases hi
  induction bits generalizing cluster start count with
  | nil => exact hflush hi
  | cons used bits ih =>
    cases used with
    | true =>
      rcases mem_append.mp hi with hi | hi
      · exact hflush hi
      · exact ih hi
    | false =>
      rw [ScanVolume.deepNtfsFrom] at hi
      split_ifs at hi
      · rcases mem_append.mp hi with hi | hi
        · exact hflush hi
        · exact ih hi
      · rcases mem_append.mp hi with hi | hi
        · exact hflush hi
        · exact ih hi
      · exact ih hi
      · exact ih hi

theorem scannerDeepExt_item {v : ScanVolume} {stop : Option ℕ} {i : ScanItem}
    (hi : i ∈ v.scannerDeepExt stop) :
    ∃ x ∈ v.inodes, x.item? v.sectorSize v.firstIno = some i := by
  obtain ⟨x, hx, hitem⟩ := mem_filterMap.mp hi
  have hx := mem_of_mem_take ((upTo_isPrefix stop _).subset hx)
  exact ⟨x, (takeWhile_sublist _).subset hx, hitem⟩

/-- **The items of a run** are entries, records of the MFT, inodes and carved files. -/
theorem mem_items {v : ScanVolume} {deep : Bool} {stop : ScanStop} {i : ScanItem}
    (hi : i ∈ v.items deep stop) : i.kind = .entry ∨
      (v.isNtfs = true ∧ ∃ r ∈ v.mft, i = mftItem v.sectorSize r) ∨
      (v.isExt = true ∧ ∃ x ∈ v.inodes, x.item? v.sectorSize v.firstIno = some i) ∨
      i.kind = .carved ∧ i.args.deleted = true ∧ i.tokens.head? = some orphanName := by
  simp only [ScanVolume.items, mem_append, mem_ite_nil_left, mem_ite_nil_right] at hi
  rcases hi with hi | ⟨-, (⟨hntfs, hi⟩ | ⟨hext, hi⟩) | ⟨-, (⟨-, hi⟩ | ⟨-, hi⟩) | ⟨-, hi⟩⟩⟩
  · exact .inl (walk_entry v hi)
  · obtain ⟨r, hr, rfl⟩ := mem_map.mp hi
    exact .inr (.inl ⟨hntfs, r, hr, rfl⟩)
  · exact .inr (.inr (.inl ⟨hext, scannerDeepExt_item hi⟩))
  · obtain ⟨fi, -, rfl⟩ := mem_map.mp hi
    exact .inl rfl
  · exact .inl (deepNtfsFrom_entry v hi)
  · obtain ⟨hhead, hkind, hdeleted⟩ := carvedItems_head hi
    exact .inr (.inr (.inr ⟨hkind, hdeleted, hhead⟩))

theorem items_recovered (v : ScanVolume) (deep : Bool) (stop : ScanStop) :
    ∀ i ∈ v.items deep stop, i.Recovered := by
  intro i hi
  rcases mem_items hi with hkind | ⟨-, r, -, rfl⟩ | ⟨-, x, -, hx⟩ | ⟨-, hdeleted, -⟩
  · exact .inl hkind
  · exact .inr rfl
  · exact .inr (item?_head hx).2
  · exact .inr hdeleted

theorem items_below (v : ScanVolume) (deep : Bool) (stop : ScanStop) :
    ∀ i ∈ v.items deep stop, i.kind = .entry ∨ i.tokens ≠ [] := by
  intro i hi
  have hhead : ∀ n, i.tokens.head? = some n → i.tokens ≠ [] := by
    intro n hn hnil
    rw [hnil] at hn
    cases hn
  rcases mem_items hi with hkind | ⟨-, r, -, rfl⟩ | ⟨-, x, -, hx⟩ | ⟨-, -, hcarved⟩
  · exact .inl hkind
  · exact .inr (hhead _ (mftItem_head _ r))
  · exact .inr (hhead _ (item?_head hx).1)
  · exact .inr (hhead _ hcarved)

/-! ## Two runs -/

/-- **The detected types keep the names** of the records of the MFT and of the inodes. -/
structure ScanVolume.Quiet (v : ScanVolume) : Prop where
  mft : v.isNtfs = true → ∀ r ∈ v.mft, (mftItem v.sectorSize r).Quiet v.env
  inodes : v.isExt = true → ∀ x ∈ v.inodes, ∀ i, x.item? v.sectorSize v.firstIno = some i →
    i.Quiet v.env

/-- The partition is not of two types at once, and its free clusters can be read. -/
structure ScanVolume.Orderly (v : ScanVolume) : Prop where
  oneType : v.isExt = true → v.isFat = false ∧ v.isNtfs = false
  readable : ∀ start count, v.readable start count = true

/-- The nodes of a tree with their paths. -/
def ScanTree.pathNodes (t : ScanTree) : List (List Name × NodeInfo) :=
  ([], t.root) :: t.top.listed fun _ => true

theorem items_quiet {v : ScanVolume} (h : v.Quiet) (deep : Bool) (stop : ScanStop) :
    ∀ i ∈ v.items deep stop, i.Quiet v.env := by
  intro i hi
  have hnone : (∀ x, i.detected v.env x = none) → i.Quiet v.env := by
    intro hnone x _ e he
    rw [hnone] at he
    cases he
  rcases mem_items hi with hkind | ⟨hntfs, r, hr, rfl⟩ | ⟨hext, x, hx, hitem⟩ | ⟨hkind, -⟩
  · exact hnone fun x => by rw [ScanItem.detected, hkind]
  · exact h.mft hntfs r hr
  · exact h.inodes hext x hx i hitem
  · exact hnone fun x => by rw [ScanItem.detected, hkind]

/-- Items elsewhere do nothing at a path. -/
theorem effects_elsewhere (env : ScanEnv) {q : List Name} {n m : Name} {l : List ScanItem}
    (hq : q.head? = some n) (hne : n ≠ m) (hl : ∀ i ∈ l, i.tokens.head? = some m)
    (x : Option NodeInfo) : effects env q x l = x := by
  induction l generalizing x with
  | nil => rfl
  | cons i l ih =>
    have hprefix : ¬ q <+: i.tokens := by
      intro hprefix
      obtain ⟨ns, rfl⟩ := head?_eq_some_iff.mp hq
      obtain ⟨rest, hrest⟩ := hprefix
      have hm := hl i mem_cons_self
      rw [← hrest] at hm
      exact hne (Option.some.inj hm)
    have hself : i.tokens ≠ q := fun h => hprefix (h ▸ prefix_rfl)
    have hcons : effects env q x (i :: l) = effects env q (i.effect env q x) l := rfl
    rw [hcons, ScanItem.effect, if_neg hself, if_neg hprefix]
    exact ih (fun j hj => hl j (mem_cons_of_mem i hj)) x

/-- **A run that is cancelled** does the first inodes, and then the first items of what follows. -/
theorem items_stopped {v : ScanVolume} (h : v.Orderly) (deep : Bool) {stop : ScanStop}
    (hwalk : stop.afterWalk = false) : ∃ A E' E C' C, v.items deep stop = A ++ (E' ++ C') ∧
      v.items deep .never = A ++ (E ++ C) ∧ E' <+: E ∧ C' <+: C ∧
      (E = [] ∨ (∀ i ∈ E, i.tokens.head? = some deepName) ∧
        ∀ i ∈ C, i.tokens.head? = some orphanName) := by
  have hnever : ScanStop.never.afterWalk = false := rfl
  have hcarved : v.carved stop <+: v.carved .never := v.carved_stopped stop
  have hindx := v.scannerDeepNtfs_stopped h.readable stop.bitmap
  unfold ScanVolume.items
  rw [hwalk, hnever]
  cases hext : v.isExt with
  | true =>
    obtain ⟨hfat, hntfs⟩ := h.oneType hext
    rw [hfat, hntfs]
    have hheads : ∀ i ∈ v.scannerDeepExt none, i.tokens.head? = some deepName := by
      intro i hi
      obtain ⟨x, -, hx⟩ := scannerDeepExt_item hi
      exact (item?_head hx).1
    cases deep with
    | false =>
      refine ⟨v.walk, v.scannerDeepExt stop.inodes, v.scannerDeepExt none, [], [], by simp,
        by simp [ScanStop.never], v.scannerDeepExt_stopped _, prefix_rfl, .inr ⟨hheads, ?_⟩⟩
      exact fun i hi => absurd hi not_mem_nil
    | true =>
      refine ⟨v.walk, v.scannerDeepExt stop.inodes, v.scannerDeepExt none, v.carved stop,
        v.carved .never, by simp, by simp [ScanStop.never], v.scannerDeepExt_stopped _, hcarved,
        .inr ⟨hheads, ?_⟩⟩
      exact fun i hi => (carvedItems_head hi).1
  | false =>
    refine ⟨v.walk ++ ((if v.isNtfs then v.mft.map (mftItem v.sectorSize) else []) ++
        if deep = false then [] else if v.isFat then v.scannerDeepFat else []), [], [],
      if deep = false then [] else (if v.isNtfs then v.scannerDeepNtfs stop.bitmap else []) ++
        if v.isFat = false ∧ v.isNtfs = false then v.carved stop else [],
      if deep = false then [] else (if v.isNtfs then v.scannerDeepNtfs none else []) ++
        if v.isFat = false ∧ v.isNtfs = false then v.carved .never else [], ?_, ?_, prefix_rfl, ?_,
      .inl rfl⟩
    · cases deep <;> simp
    · cases deep <;> simp [ScanStop.never]
    · cases deep with
      | false => exact prefix_rfl
      | true =>
        cases hntfs : v.isNtfs with
        | true => simpa using hindx
        | false =>
          simp only [Bool.false_eq_true, if_false, Bool.true_eq_false, nil_append, and_true]
          split_ifs
          · exact hcarved
          · exact prefix_rfl

/-- A run that does at a path what the first items of another do. -/
theorem effects_resumed_congr {env : ScanEnv} {q : List Name} {S F : List ScanItem}
    (first rest : List ScanItem) (hfirst : ∀ i ∈ first, i.Recovered) (hS : ∀ x, effects env q x S = effects env q x first)
    (hF : ∀ x, effects env q x F = effects env q x (first ++ rest)) :
    effects env q (effects env q none S) F = effects env q none F := by
  rw [hS, hF, hF, effects_resumed hfirst]

/-- **At each path** the second run leaves what a single complete one does. -/
theorem effects_items {v : ScanVolume} {deep : Bool} {stop : ScanStop}
    (hstop : stop = .never ∨ v.Orderly) {q : List Name} (hq : q ≠ []) :
    effects v.env q (effects v.env q none (v.items deep stop)) (v.items deep .never) =
      effects v.env q none (v.items deep .never) := by
  have hrecovered := items_recovered v deep
  rcases hstop with rfl | h
  · exact effects_twice (hrecovered _)
  cases hwalk : stop.afterWalk with
  | true =>
    obtain ⟨rest, hrest⟩ : ∃ rest, v.items deep .never = v.items deep stop ++ rest := by
      unfold ScanVolume.items
      rw [hwalk, if_pos rfl, List.append_nil]
      exact ⟨_, rfl⟩
    rw [hrest]
    exact effects_resumed (hrecovered stop)
  | false =>
    obtain ⟨A, E', E, C', C, hS, hF, ⟨E'', rfl⟩, ⟨C'', rfl⟩, hheads⟩ := items_stopped h deep hwalk
    rw [hS, hF]
    have hrec : ∀ i ∈ A ++ (E' ++ E'' ++ (C' ++ C'')), i.Recovered := hF ▸ hrecovered .never
    have hfirst : ∀ i ∈ A ++ (E' ++ C'), i.Recovered := hS ▸ hrecovered stop
    rcases hheads with hE | ⟨hE, hC⟩
    · obtain ⟨rfl, rfl⟩ := append_eq_nil_iff.mp hE
      refine effects_resumed_congr (A ++ ([] ++ C')) C'' hfirst (fun x => rfl) fun x => ?_
      simp only [nil_append, append_assoc]
    · obtain ⟨n, ns, rfl⟩ := exists_cons_of_ne_nil hq
      have hhead : (n :: ns).head? = some n := rfl
      by_cases hn : n = deepName
      · -- the carver works elsewhere
        have hne : n ≠ orphanName := by
          rw [hn]
          decide
        have hskip := fun x => effects_elsewhere v.env hhead hne hC x
        have hskip' := fun x => effects_elsewhere v.env hhead hne
          (fun i hi => hC i (mem_append_left C'' hi)) x
        refine effects_resumed_congr (A ++ E') E'' ?_ (fun x => ?_) fun x => ?_
        · exact fun i hi => hfirst i (by
            rw [← append_assoc]
            exact mem_append_left C' hi)
        · rw [← append_assoc, effects_append, hskip']
        · rw [← append_assoc A (E' ++ E''), effects_append, hskip, append_assoc A]
      · -- the inodes are elsewhere
        have hskip := fun x => effects_elsewhere v.env hhead hn hE x
        have hskip' := fun x => effects_elsewhere v.env hhead hn
          (fun i hi => hE i (mem_append_left E'' hi)) x
        refine effects_resumed_congr (A ++ C') C'' ?_ (fun x => ?_) fun x => ?_
        · intro i hi
          rcases mem_append.mp hi with hi | hi
          · exact hfirst i (mem_append_left _ hi)
          · exact hfirst i (mem_append_right _ (mem_append_right _ hi))
        · rw [effects_append, effects_append, hskip', effects_append]
        · rw [effects_append, effects_append, hskip, append_assoc A, ← effects_append]

/-- An ext volume whose only inode is a file of 100 bytes. -/
def oneInode (hint : Option Extension) : ScanVolume where
  env := ⟨0, 1024, fun _ _ => hint⟩
  sectorSize := 512
  isFat := false
  isNtfs := false
  isExt := true
  currentInode := 2
  getDir := fun _ => some []
  mft := []
  inodes := [⟨12, true, false, false, 100, 2, 0, 7, some 8192⟩]
  inodesCount := 100
  firstIno := 11
  fatEntries := []
  bitmap := []
  readable := fun _ _ => true
  indx := fun _ => []
  carver := {
    disk := ⟨512, 0, fun _ => 0, fun _ _ => false⟩
    partition := ⟨0, 0, .ext4, 0⟩
    deepScan := false
    checkHeader := fun _ _ _ _ _ => none
    checkFooter := fun _ _ _ => 0
    fileStats := []
    cancel := fun _ => false
    resumeOffset := 0 }

/-- `"jpg"`. -/
def jpgExtension : Extension := ⟨_, (show IsName [106, 112, 103] by decide).2⟩

end RecoveryQt
