import RecoveryQt.Session.Limits

/-!
# When a session is loaded as it was saved

* `SessionArgs.Fits`: the strings of the header are written whole;
* `Portable`: no two siblings share a name, no file has children, and every path is short;
* `loaded_top`: the forest that is loaded, as a list of puts;
* `loaded_top_of_portable`, `portable_of_loaded_top`: it is the one saved exactly when that one is
  portable;
* **`sessionRoundTrip_iff`**: what was saved is loaded.
-/

namespace RecoveryQt

open List

/-! ## The header -/

/-- The strings are short enough. -/
structure SessionArgs.Fits (a : SessionArgs) : Prop where
  device : a.device.bytes.length < 65536
  model : a.model.bytes.length ≤ sessionMaxModel
  extFilter : a.extFilter.bytes.length < 65536

/-- A string of which the first bytes are written. -/
theorem CString.ofBuffer_take_iff (s : CString) (k : ℕ) :
    CString.ofBuffer (s.bytes.take k) = s ↔ s.bytes.length ≤ k := by
  constructor
  · intro h
    have hlen : ((s.bytes.take k).takeWhile (· ≠ 0)).length ≤ (s.bytes.take k).length :=
      (takeWhile_sublist _).length_le
    have hbytes : ((s.bytes.take k).takeWhile (· ≠ 0)) = s.bytes := congrArg CString.bytes h
    rw [hbytes, length_take] at hlen
    omega
  · intro h
    rw [take_of_length_le h, CString.ofBuffer_bytes]

theorem CString.ofBuffer_cut16_iff (s : CString) :
    CString.ofBuffer (cut16 s.bytes) = s ↔ s.bytes.length < 65536 := by
  rw [cut16, ofBuffer_take_iff]
  omega

theorem CString.ofBuffer_sessionModel_iff (s : CString) :
    CString.ofBuffer (sessionModel s.bytes) = s ↔ s.bytes.length ≤ sessionMaxModel := by
  rw [sessionModel]
  split_ifs with h
  · have hnil : cut16 [] = s.bytes.take 0 := rfl
    rw [hnil, ofBuffer_take_iff]
    omega
  · rw [ofBuffer_cut16_iff]
    unfold sessionMaxModel at h ⊢
    omega

/-- **The header that is loaded is that of the arguments** exactly when the strings fit. -/
theorem SessionArgs.loaded_eq_header_iff (a : SessionArgs) : a.loaded = a.header ↔ a.Fits := by
  constructor
  · intro h
    have hdevice := congrArg SessionHeader.devicePath h
    have hmodel := congrArg SessionHeader.model h
    have hfilter := congrArg SessionHeader.extFilter h
    exact ⟨a.device.ofBuffer_cut16_iff.mp hdevice, a.model.ofBuffer_sessionModel_iff.mp hmodel,
      a.extFilter.ofBuffer_cut16_iff.mp hfilter⟩
  · rintro ⟨hdevice, hmodel, hfilter⟩
    rw [loaded, a.device.ofBuffer_cut16_iff.mpr hdevice, a.model.ofBuffer_sessionModel_iff.mpr hmodel,
      a.extFilter.ofBuffer_cut16_iff.mpr hfilter]
    rfl

/-! ## The tree -/

/-- A forest that its paths describe. -/
structure Portable (f : Forest Name NodeInfo) : Prop where
  distinct : f.Distinct
  files : f.All fun x ch => ch ≠ .nil → x.isDir = true
  short : ∀ p x, f.label? p = some x → ShortPath p

/-- What loading an entry does to the siblings of the root. -/
def putNode : Forest Name NodeInfo → List Name × NodeInfo → Forest Name NodeInfo :=
  Forest.put dirInfo (fun x => nodeAlloc x.args) (fun x => NodeInfo.readd x.args) NodeInfo.reload

/-- The tree that is loaded, before the header is looked at. -/
def loadedTree (f : Forest Name NodeInfo) : ScanTree :=
  (written f).foldl (fun t y => t.load (treeGetPath y.1) y.2) treeNew

theorem ScanTree.load_eq (t : ScanTree) {path : List UInt8} (hp : pathTokens path ≠ [])
    (x : NodeInfo) : (t.load path x).root = t.root ∧
      (t.load path x).top = putNode t.top (pathTokens path, x) := by
  obtain ⟨n, ns, hns⟩ := exists_cons_of_ne_nil hp
  rw [load, addPath, hns]
  exact ⟨rfl, rfl⟩

/-- **The tree that is loaded**: a fresh root, and the nodes put below it. -/
theorem loadedTree_eq (f : Forest Name NodeInfo) : (loadedTree f).root = dirInfo ∧
    (loadedTree f).top = ((written f).map fun y => (cutPath y.1, y.2)).foldl putNode .nil := by
  have hfold : ∀ (l : List (List Name × NodeInfo)) (t : ScanTree), (∀ y ∈ l, y.1 ≠ []) →
      (l.foldl (fun t y => t.load (treeGetPath y.1) y.2) t).root = t.root ∧
        (l.foldl (fun t y => t.load (treeGetPath y.1) y.2) t).top =
          (l.map fun y => (cutPath y.1, y.2)).foldl putNode t.top := by
    intro l
    induction l with
    | nil => exact fun t _ => ⟨rfl, rfl⟩
    | cons y l ih =>
      intro t hl
      obtain ⟨hroot, htop⟩ := t.load_eq (cutPath_ne_nil (hl y mem_cons_self)) y.2
      obtain ⟨hroot', htop'⟩ := ih (t.load (treeGetPath y.1) y.2) fun z hz =>
        hl z (mem_cons_of_mem y hz)
      rw [foldl_cons, map_cons, foldl_cons, hroot', htop', hroot, htop]
      exact ⟨rfl, rfl⟩
  exact hfold _ treeNew fun y hy => Forest.ne_nil_of_mem_listed hy

/-- A node that is written has its label, and only directories above it. -/
theorem label?_of_mem_written {f : Forest Name NodeInfo} (hd : f.Distinct) {p : List Name}
    {x : NodeInfo} (h : (p, x) ∈ written f) :
    f.label? p = some x ∧ ∀ q y, q <+: p → q ≠ p → f.label? q = some y → y.isDir = true := by
  induction f generalizing p x with
  | nil => cases h
  | cons n a ch nx ihc ihn =>
    obtain ⟨hn, hch, hnx⟩ := hd
    have hself : ∀ ns, (Forest.cons n a ch nx).label? (n :: ns) =
        if ns = [] then some a else ch.label? ns := fun ns => by
      rw [Forest.label?_cons, if_pos rfl]
    rw [written, Forest.listed, mem_cons, mem_append] at h
    rcases h with h | h | h
    · obtain ⟨rfl, rfl⟩ := Prod.mk.inj h
      refine ⟨by rw [hself, if_pos rfl], fun q y hq hne hy => ?_⟩
      cases q with
      | nil => cases hy
      | cons m ns =>
        obtain ⟨rfl, hns⟩ := cons_prefix_cons.mp hq
        exact absurd (by rw [prefix_nil.mp hns]) hne
    · split_ifs at h with ha
      · obtain ⟨⟨ns, z⟩, hz, heq⟩ := mem_map.mp h
        obtain ⟨rfl, rfl⟩ := Prod.mk.inj heq
        obtain ⟨hlabel, hdirs⟩ := ihc hch hz
        have hns : ns ≠ [] := Forest.ne_nil_of_mem_listed hz
        refine ⟨by rw [hself, if_neg hns, hlabel], fun q y hq hne hy => ?_⟩
        cases q with
        | nil => cases hy
        | cons m ms =>
          obtain ⟨rfl, hms⟩ := cons_prefix_cons.mp hq
          rw [hself] at hy
          split_ifs at hy with hnil
          · exact Option.some.inj hy ▸ ha
          · exact hdirs ms y hms (fun h => hne (by rw [h])) hy
      · cases h
    · obtain ⟨hlabel, hdirs⟩ := ihn hnx h
      obtain ⟨m, ms, rfl⟩ := exists_cons_of_ne_nil (Forest.ne_nil_of_mem_listed h)
      have hm : n ≠ m := by
        rintro rfl
        rw [Forest.label?_eq_none (Forest.child?_eq_none.mpr hn)] at hlabel
        cases hlabel
      refine ⟨by rw [Forest.label?_cons, if_neg hm, hlabel], fun q y hq hne hy => ?_⟩
      cases q with
      | nil => cases hy
      | cons k ks =>
        obtain ⟨rfl, hks⟩ := cons_prefix_cons.mp hq
        rw [Forest.label?_cons, if_neg hm] at hy
        exact hdirs (k :: ks) y hq hne hy

/-- When every path is short, the nodes are loaded under their own paths. -/
theorem map_cutPath {f : Forest Name NodeInfo} (hd : f.Distinct)
    (hshort : ∀ p x, f.label? p = some x → ShortPath p) :
    ((written f).map fun y => (cutPath y.1, y.2)) = written f := by
  have hself : ∀ y ∈ written f, (cutPath y.1, y.2) = y := fun y hy => by
    rw [cutPath_of_short (hshort y.1 y.2 (label?_of_mem_written hd hy).1)]
  rw [map_congr_left hself, map_id']

/-- **A portable forest is loaded as it was saved.** -/
theorem loaded_top_of_portable {f : Forest Name NodeInfo} (h : Portable f) :
    (loadedTree f).top = f := by
  rw [(loadedTree_eq f).2, map_cutPath h.distinct h.short]
  exact Forest.foldl_put_listed dirInfo (fun x => nodeAlloc x.args) (fun x => NodeInfo.readd x.args)
    NodeInfo.reload h.distinct h.files (Forest.All.of_forall (fun x _ => x.reload_nodeAlloc) f)

/-- Every node of the loaded forest is on a path that was written. -/
theorem exists_written_of_label? {f : Forest Name NodeInfo} (h : (loadedTree f).top = f) {p : List Name}
    (hp : (f.label? p).isSome) : ∃ y ∈ written f, p <+: cutPath y.1 := by
  rw [← h, (loadedTree_eq f).2] at hp
  rcases Forest.foldl_put_onPath _ _ _ _ hp with hnil | ⟨z, hz, hpre⟩
  · rw [Forest.label?_nil] at hnil
    cases hnil
  · obtain ⟨y, hy, heq⟩ := mem_map.mp hz
    rw [← heq] at hpre
    simp only at hpre
    exact ⟨y, hy, hpre⟩

/-- **A forest that is loaded as it was saved is portable.** -/
theorem portable_of_loaded_top {f : Forest Name NodeInfo} (h : (loadedTree f).top = f) :
    Portable f := by
  have hdistinct : f.Distinct := by
    rw [← h, (loadedTree_eq f).2]
    exact Forest.Distinct.foldl_put _ _ _ _ (f := .nil) trivial _
  have hshort : ∀ p x, f.label? p = some x → ShortPath p := by
    intro p x hx
    obtain ⟨y, -, hpre⟩ := exists_written_of_label? h (Option.isSome_iff_exists.mpr ⟨x, hx⟩)
    exact (shortPath_cutPath y.1).mono hpre
  refine ⟨hdistinct, ?_, hshort⟩
  rw [Forest.all_iff_label? hdistinct]
  intro q n hq hsome
  -- the child is on a path that was written, and only directories are above it
  obtain ⟨y, hy, hpre⟩ := exists_written_of_label? h hsome
  obtain ⟨hlabel, hdirs⟩ := label?_of_mem_written hdistinct hy
  rw [cutPath_of_short (hshort y.1 y.2 hlabel)] at hpre
  obtain ⟨x, hx⟩ := Option.isSome_iff_exists.mp (Forest.label?_isSome_of_append hq hsome)
  refine ⟨x, hx, hdirs q x ((prefix_append q [n]).trans hpre) ?_ hx⟩
  rintro rfl
  have := hpre.length_le
  rw [length_append, length_singleton] at this
  omega

/-! ## Sessions -/

/-- **A session is loaded as it was saved** exactly when the strings fit, the root is fresh and the
tree is portable. -/
theorem sessionRoundTrip_iff (a : SessionArgs) (t : ScanTree) (hbare : DirsBare t.top) :
    SessionRoundTrip a t ↔ a.Fits ∧ t.root = dirInfo ∧ Portable t.top := by
  have hload : sessionLoad (sessionSave a t) = some ⟨a.loaded, loadedTree t.top⟩ :=
    sessionLoad_sessionSave a hbare
  rw [SessionRoundTrip, hload, ← a.loaded_eq_header_iff]
  constructor
  · rintro ⟨_, hinfo, hheader, hroot, htop⟩
    obtain rfl := Option.some.inj hinfo
    exact ⟨hheader, hroot.symm.trans (loadedTree_eq t.top).1, portable_of_loaded_top htop⟩
  · rintro ⟨hheader, hroot, hportable⟩
    exact ⟨_, rfl, hheader, (loadedTree_eq t.top).1.trans hroot.symm, loaded_top_of_portable hportable⟩

/-! ## A file with a child -/

/-- The arguments of a carving run on a 1 MiB disk. -/
def carveArgs : SessionArgs :=
  ⟨0, 2, 0, 0, 0, 6, 0, 512, 1048576, 0, 1048576, 0, 0, ⟨[], by simp⟩, ⟨[], by simp⟩, ⟨[], by simp⟩⟩

/-- The arguments of a one-sector file. -/
def fileArgs : AddArgs := ⟨false, 512, 0, 1, 0, 512, true⟩

/-- The name `a`. -/
def nameA : Name := IsName.name (show IsName [97] by decide)

/-- The name `b`. -/
def nameB : Name := IsName.name (show IsName [98] by decide)

/-- `tree_add_path` of `/a`. -/
def oneFile : ScanTree := treeNew.addPath [47, 97] fileArgs

/-- `tree_add_path` of `/a`, and then of `/a/b`. -/
def fileWithChild : ScanTree := oneFile.addPath [47, 97, 47, 98] fileArgs

theorem oneFile_eq : oneFile = ⟨dirInfo, .cons nameA (nodeAlloc fileArgs) .nil .nil, ⟨1, 0, 512⟩⟩ := by
  have htokens : pathTokens [47, 97] = [nameA] := pathTokens_renderPath [nameA]
  rw [oneFile, ScanTree.addPath, htokens]
  rfl

theorem fileWithChild_top : fileWithChild.top =
    .cons nameA (nodeAlloc fileArgs) (.cons nameB (nodeAlloc fileArgs) .nil .nil) .nil := by
  have htokens : pathTokens [47, 97, 47, 98] = [nameA, nameB] := pathTokens_renderPath [nameA, nameB]
  rw [fileWithChild, oneFile_eq, ScanTree.addPath, htokens]
  rfl

/-- The child is not written. -/
theorem fileWithChild_not_roundTrip : ¬ SessionRoundTrip carveArgs fileWithChild := by
  rintro ⟨info, hinfo, -, -, htop⟩
  have hbare : DirsBare fileWithChild.top := by
    rw [fileWithChild_top]
    exact ⟨fun _ => rfl, ⟨fun _ => rfl, trivial, trivial⟩, trivial⟩
  rw [sessionLoad_sessionSave carveArgs hbare] at hinfo
  obtain rfl := Option.some.inj hinfo
  have hfiles := (portable_of_loaded_top htop).files
  rw [fileWithChild_top] at hfiles
  have hdir := hfiles.1 (by simp)
  cases hdir

/-- A file without children is loaded. -/
theorem oneFile_roundTrip : SessionRoundTrip carveArgs oneFile := by
  have hbare : DirsBare oneFile.top := by
    rw [oneFile_eq]
    exact ⟨fun _ => rfl, trivial, trivial⟩
  apply (sessionRoundTrip_iff carveArgs oneFile hbare).mpr
  rw [oneFile_eq]
  refine ⟨⟨by decide, by decide, by decide⟩, rfl, ⟨by simp [Forest.names], trivial, trivial⟩,
    ⟨fun h => absurd rfl h, trivial, trivial⟩, fun p x hx => ?_⟩
  obtain ⟨n, ns, rfl⟩ : ∃ n ns, p = n :: ns := by
    cases p with
    | nil => cases hx
    | cons n ns => exact ⟨n, ns, rfl⟩
  rw [Forest.label?_cons, Forest.label?_nil, Forest.label?_nil] at hx
  split_ifs at hx with hn hns
  subst hn hns
  exact ⟨by decide, by decide⟩

end RecoveryQt
