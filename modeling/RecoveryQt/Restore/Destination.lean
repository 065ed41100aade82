import RecoveryQt.Lib.Lexical
import RecoveryQt.Restore.Host
import RecoveryQt.Session.Limits
import Mathlib.Data.List.DropRight

/-!
# Where restored files go

`restore_files` restores each marked file of the tree to a path below the destination directory:
`restore_orphan` makes it from the path of the node, the drivers call `fopen_local`.

* `stripFn`, `copyNames`, `fopenLocal`: the paths that `fopen_local` opens;
* `orphanPath`, `localPaths`, `builtPaths`: the paths built for a node;
* `markedFiles`, `RestoreCall`: the nodes that `restore_node_recursive` restores, and the calls;
* `cutNames`, `HostPath.strip`: the same on names, and **`names_orphanPath`**, **`names_localPath`**,
  **`names_stripFn`**: the names of the paths built.
-/

namespace RecoveryQt

open List

/-! ## The paths built -/

/-- A space or a dot. -/
def isStripped (b : UInt8) : Bool := b = 32 ∨ b = 46

/-- `strip_fn`. -/
def stripFn (fn : List UInt8) : List UInt8 :=
  if fn.rdropWhile isStripped = [] ∧ fn ≠ [] then [95] else fn.rdropWhile isStripped

/-- `filename_convert` of a host that takes every character: the bytes are copied. -/
def filenameConvert (src : List UInt8) (n : ℕ) : List UInt8 := src.take n

/-- The loop of `fopen_local` from `src` on: a name at a time is copied behind `dst`. `einval` says
where `mkdir` answers `EINVAL`. What is returned is `dst`, and `dst_org` and `src_org`. -/
def copyNames (einval : List UInt8 → Bool) (dst dstOrg srcOrg : List UInt8) :
    List UInt8 → List UInt8 × List UInt8 × List UInt8
  | [] => (dst, dstOrg, srcOrg)
  | b :: src =>
    let name := b :: src.takeWhile (· ≠ slash)
    let rest := src.dropWhile (· ≠ slash)
    if rest ≠ [] ∧ einval (dst ++ name) = true then
      copyNames einval (dst ++ filenameConvert (b :: src) name.length) dst (b :: src) rest
    else copyNames einval (dst ++ name) dst (b :: src) rest
termination_by src => src.length
decreasing_by
  all_goals exact Nat.lt_succ_of_le (length_dropWhile_le _ _)

/-- `fopen_local` without the memory capture: the paths given to `fopen` while it fails. `first` and
`second` say whether it does. -/
def fopenLocal (einval : List UInt8 → Bool) (first second : Bool) (localroot filename : List UInt8) :
    List (List UInt8) :=
  let dst := stripFn (localroot ++ filename)
  if first then [dst]
  else
    let (path, dstOrg, srcOrg) := copyNames einval localroot [] filename filename
    if second then [dst, path]
    else [dst, path, dstOrg ++ filenameConvert srcOrg filename.length]

/-- A destination: `dest_dir` is a C string, and callers do not pass an empty one. -/
structure DestDir where
  bytes : List UInt8
  ne_zero : ∀ b ∈ bytes, b ≠ 0
  ne_nil : bytes ≠ []

/-- `dir_path` in `restore_orphan`. -/
def orphanPath (destDir : DestDir) (path : List Name) : List UInt8 :=
  (destDir.bytes ++ treeGetPathNull path).take (pathMax - 1)

/-- `dir_data->current_directory` in `restore_file`. -/
def currentDirectory (path : List Name) : List UInt8 := (relativePath path).take (dirNameLen - 1)

/-- A node with its path. -/
structure FileAt where
  path : List Name
  info : NodeInfo

/-- What the host and the driver do for a file: whether `copy_file` comes to `fopen_local`, the
answers of `mkdir` and of the first two `fopen` there, and whether the file is open in the end. -/
structure Answers where
  called : Bool
  einval : List UInt8 → Bool
  first : Bool
  second : Bool
  opened : Bool

/-- The paths that `restore_file` builds for a node. -/
def builtPaths (destDir : DestDir) (a : Answers) (f : FileAt) : List (List UInt8) :=
  if f.info.raw then [orphanPath destDir f.path]
  else if a.called then
    fopenLocal a.einval a.first a.second destDir.bytes (currentDirectory f.path)
  else []

/-- The path of the file that is written: the last one that is built. -/
def writtenPath (destDir : DestDir) (a : Answers) (f : FileAt) : Option (List UInt8) :=
  if a.opened then (builtPaths destDir a f).getLast? else none

/-- `restore_node_recursive`: the files it restores, in order. What is below a file is not visited. -/
def restoreNodeRecursive (path : List Name) : Forest Name NodeInfo → List FileAt
  | .nil => []
  | .cons n x children next =>
    (if x.isDir then restoreNodeRecursive (path ++ [n]) children
      else if x.marked then [⟨path ++ [n], x⟩] else []) ++ restoreNodeRecursive path next

/-- The files that `restore_files` restores. -/
def ScanTree.markedFiles (t : ScanTree) : List FileAt := restoreNodeRecursive [] t.top

/-- The calls that restore: `restore_files`, and `restore_file_node` for the node at a path. -/
inductive RestoreCall where
  | files
  | node (path : List Name)

/-- The files that a call restores. -/
def RestoreCall.restored (t : ScanTree) : RestoreCall → List FileAt
  | files => t.markedFiles
  | node [] => [⟨[], t.root⟩]
  | node path => ((t.top.label? path).map (FileAt.mk path)).toList

/-- Where a path string leads from the working directory, `.` and `..` resolved. -/
def target (cwd : List Name) (s : List UInt8) : List Name :=
  lexWalk Name.IsDot Name.IsDotDot (if s.head? = some slash then [] else cwd) (pathTokens s)

/-- The destination `/d`. -/
def dirD : DestDir := ⟨[47, 100], by simp, by simp⟩

/-- A host where every file is opened at once. -/
def opensAll : Answers := ⟨true, fun _ => false, true, true, true⟩

/-! ## The names of the paths -/

/-- The first `k` bytes of the path of some names. -/
def cutNames : ℕ → List Name → HostPath
  | _, [] => ⟨[], false⟩
  | 0, _ :: _ => ⟨[], false⟩
  | k + 1, n :: l =>
    if n.bytes.length ≤ k then
      let t := cutNames (k - n.bytes.length) l
      ⟨n :: t.names, t.dirOnly⟩
    else match Name.ofBytes? (n.bytes.take k) with
      | none => ⟨[], true⟩
      | some m => ⟨[m], false⟩

/-- A name without the spaces and dots at its end, if anything is left. -/
def Name.strip (n : Name) : List Name := (Name.ofBytes? (n.bytes.rdropWhile isStripped)).toList

/-- The names of a path after `strip_fn`: only the last one changes, when nothing is behind it. -/
def HostPath.strip (t : HostPath) : List Name :=
  if t.dirOnly then t.names else t.names.dropLast ++ (t.names.getLast?.toList).flatMap Name.strip

/-- The names of a node that `tree_get_path` sees, as far as they fit in `k` bytes. The name of the
root takes the first two. -/
def keptPath (k : ℕ) (path : List Name) : HostPath :=
  if path.length < chainMax then cutNames (k - 2) path
  else cutNames k (path.drop (path.length - chainMax))

/-! ### Strings and their names -/

theorem pathTokens_append_slash {u : List UInt8} (hu : ∀ b ∈ u, b ≠ 0) (v : List UInt8) :
    pathTokens (u ++ slash :: v) = pathTokens u ++ pathTokens v := by
  have hcut : (u ++ slash :: v).takeWhile (· ≠ 0) = u ++ slash :: v.takeWhile (· ≠ 0) := by
    rw [takeWhile_append_of_pos, takeWhile_cons_of_pos (by decide)]
    exact fun b hb => by simpa using hu b hb
  have hu' : u.takeWhile (· ≠ 0) = u := takeWhile_eq_self_iff.mpr fun b hb => by simpa using hu b hb
  rw [pathTokens, pathTokens, pathTokens, hcut, hu', splitOnP_append_cons _ _ (by simp),
    filterMap_append]

theorem pathTokens_of_plain {v : List UInt8} (hv : ∀ b ∈ v, b ≠ slash ∧ b ≠ 0) :
    pathTokens v = (Name.ofBytes? v).toList := by
  have hcut : v.takeWhile (· ≠ 0) = v :=
    takeWhile_eq_self_iff.mpr fun b hb => by simpa using (hv b hb).2
  rw [pathTokens, hcut, splitOnP_eq_singleton fun b hb => by simpa using (hv b hb).1]
  cases h : Name.ofBytes? v <;> simp [h]

/-- The string spells the path: separators, the names, and a separator where it asks for a
directory. -/
def Spells (s : List UInt8) (t : HostPath) : Prop :=
  ∃ lead : List UInt8, (∀ b ∈ lead, b = slash) ∧
    s = lead ++ (renderPath t.names ++ if t.dirOnly then [slash] else [])

/-- **The first bytes of a path.** -/
theorem take_renderPath_eq (k : ℕ) (l : List Name) :
    (renderPath l).take k =
      renderPath (cutNames k l).names ++ if (cutNames k l).dirOnly then [slash] else [] := by
  fun_induction cutNames k l with
  | case1 k => rw [renderPath, flatMap_nil, take_nil]; rfl
  | case2 n l => rfl
  | case3 k n l hk t ih =>
    rw [renderPath_cons, take_succ_cons, take_append, take_of_length_le hk, ih]
    simp [renderPath, t]
  | case4 k n l hk hnone =>
    have htake : n.bytes.take k = [] := by
      by_contra hne
      rw [Name.ofBytes?, dif_pos ⟨hne, fun b hb => n.plain b (mem_of_mem_take hb)⟩] at hnone
      cases hnone
    rw [renderPath_cons, take_succ_cons, take_append, htake, Nat.sub_eq_zero_of_le (by omega)]
    rfl
  | case5 k n l hk m hm =>
    have hbytes : m.bytes = n.bytes.take k := by
      unfold Name.ofBytes? at hm
      split_ifs at hm
      rw [← Option.some.inj hm]
    rw [renderPath_cons, take_succ_cons, take_append, Nat.sub_eq_zero_of_le (by omega), ← hbytes]
    simp [renderPath]

theorem spells_take_treeGetPathNull {k : ℕ} (hk : k ≤ pathMax - 1) (path : List Name) :
    Spells ((treeGetPathNull path).take k) (keptPath k path) := by
  rw [treeGetPathNull, take_take, Nat.min_eq_left hk, keptPath]
  split_ifs with h
  · refine ⟨[slash, slash].take k, fun b hb => by simpa using mem_of_mem_take hb, ?_⟩
    have hdrop : path.drop (path.length - chainMax) = path := by
      rw [Nat.sub_eq_zero_of_le h.le, drop_zero]
    rw [hdrop, take_append, take_renderPath_eq]
    rfl
  · refine ⟨[], fun b hb => absurd hb not_mem_nil, ?_⟩
    rw [nil_append, nil_append, take_renderPath_eq]

/-- A string that spells a path begins with a separator. -/
theorem Spells.eq_cons {s : List UInt8} {t : HostPath} (h : Spells s t) (hs : s ≠ []) :
    ∃ v, s = slash :: v := by
  obtain ⟨lead, hlead, rfl⟩ := h
  cases lead with
  | cons b lead => exact ⟨_, by rw [hlead b mem_cons_self]; rfl⟩
  | nil =>
    cases hn : t.names with
    | cons n l => exact ⟨_, rfl⟩
    | nil =>
      rw [hn] at hs
      split_ifs at hs ⊢
      · exact ⟨[], rfl⟩
      · exact absurd rfl hs

theorem Spells.tokens {s : List UInt8} {t : HostPath} (h : Spells s t) :
    pathTokens s = t.names := by
  obtain ⟨lead, hlead, rfl⟩ := h
  induction lead with
  | nil =>
    split_ifs
    · exact pathTokens_renderPath_slash _
    · rw [append_nil]
      exact pathTokens_renderPath _
  | cons b lead ih =>
    rw [hlead b mem_cons_self, cons_append, pathTokens_slash]
    exact ih fun c hc => hlead c (mem_cons_of_mem b hc)

/-- The names of a path below a directory. -/
theorem Spells.tokens_append {s : List UInt8} {t : HostPath} (h : Spells s t) {u : List UInt8}
    (hu : ∀ b ∈ u, b ≠ 0) : pathTokens (u ++ s) = pathTokens u ++ t.names := by
  by_cases hs : s = []
  · have hnames := h.tokens
    rw [hs] at hnames ⊢
    rw [← hnames, append_nil]
    simp [pathTokens, Name.ofBytes?_nil]
  · obtain ⟨v, rfl⟩ := h.eq_cons hs
    rw [pathTokens_append_slash hu, ← pathTokens_slash v, h.tokens]

theorem rdropWhile_append_cons {p : UInt8 → Bool} {a : UInt8} (ha : ¬ p a = true)
    (u v : List UInt8) : (u ++ a :: v).rdropWhile p = u ++ a :: v.rdropWhile p := by
  induction v using List.reverseRecOn with
  | nil => rw [rdropWhile_concat_neg _ _ _ ha, rdropWhile_nil]
  | append_singleton v b ih =>
    have hassoc : u ++ a :: (v ++ [b]) = (u ++ a :: v) ++ [b] := by simp
    rw [hassoc, rdropWhile_concat, rdropWhile_concat, ih]
    split_ifs
    · rfl
    · rw [hassoc]

/-- What is before a separator is not stripped. -/
theorem stripFn_append (u v : List UInt8) :
    stripFn (u ++ slash :: v) = u ++ slash :: v.rdropWhile isStripped := by
  have hslash : ¬ isStripped slash = true := by decide
  rw [stripFn, rdropWhile_append_cons hslash, if_neg]
  simp

/-- **The names of a path below a directory, stripped.** -/
theorem Spells.tokens_stripFn {s : List UInt8} {t : HostPath} (h : Spells s t) (hs : s ≠ [])
    {u : List UInt8} (hu : ∀ b ∈ u, b ≠ 0) :
    pathTokens (stripFn (u ++ s)) = pathTokens u ++ t.strip := by
  have hends : ∀ w, u ++ s = w ++ [slash] → pathTokens (stripFn (u ++ s)) = pathTokens u ++ t.names := by
    intro w hw
    rw [← h.tokens_append hu, hw, stripFn_append, rdropWhile_nil]
  obtain ⟨lead, hlead, hlit⟩ := h
  rw [HostPath.strip]
  by_cases hdir : t.dirOnly = true
  · rw [if_pos hdir]
    refine hends (u ++ lead ++ renderPath t.names) ?_
    rw [hlit, if_pos hdir]
    simp
  · rw [if_neg hdir, append_nil] at hlit
    rw [if_neg hdir]
    rcases eq_nil_or_concat' t.names with hn | ⟨l, n, hn⟩
    · -- nothing but separators
      rw [hn] at hlit hends ⊢
      have hlit' : s = lead := hlit.trans (append_nil lead)
      rcases eq_nil_or_concat' lead with rfl | ⟨lead', b, rfl⟩
      · exact absurd hlit' hs
      · refine hends (u ++ lead') ?_
        rw [hlit', hlead b (by simp), append_assoc]
    · rw [hn, renderPath_append, renderPath_singleton] at hlit
      have hkept : n.bytes.rdropWhile isStripped <+: n.bytes := rdropWhile_prefix _ _
      have hplain : ∀ b ∈ n.bytes.rdropWhile isStripped, b ≠ slash ∧ b ≠ 0 :=
        fun b hb => n.plain b (hkept.mem hb)
      have hbefore : Spells (lead ++ renderPath l) ⟨l, false⟩ := ⟨lead, hlead, by simp⟩
      have hzero : ∀ b ∈ u ++ (lead ++ renderPath l), b ≠ 0 := by
        intro b hb
        simp only [mem_append] at hb
        rcases hb with hb | hb | hb
        · exact hu b hb
        · rw [hlead b hb]
          decide
        · exact renderPath_ne_zero hb
      have hsplit : u ++ s = (u ++ (lead ++ renderPath l)) ++ slash :: n.bytes := by
        rw [hlit]
        simp
      rw [hsplit, stripFn_append, pathTokens_append_slash hzero, pathTokens_of_plain hplain,
        hbefore.tokens_append hu, hn]
      simp [Name.strip]

/-! ### The paths built, by their names -/

/-- **The loop of `fopen_local` copies the whole path**: behind `dst_org` it has the last name, which
is where `src_org` points. -/
theorem copyNames_eq (einval : List UInt8 → Bool) (dst dstOrg srcOrg src : List UInt8) :
    (copyNames einval dst dstOrg srcOrg src).1 = dst ++ src ∧
      (src ≠ [] → (copyNames einval dst dstOrg srcOrg src).2.1 ++
        (copyNames einval dst dstOrg srcOrg src).2.2 = dst ++ src ∧
          (copyNames einval dst dstOrg srcOrg src).2.2.length ≤ src.length) := by
  fun_induction copyNames einval dst dstOrg srcOrg src with
  | case1 dst dstOrg srcOrg => exact ⟨(append_nil dst).symm, fun h => absurd rfl h⟩
  | case2 dst dstOrg srcOrg b src name rest h ih =>
    have hname : filenameConvert (b :: src) name.length = name := by
      have hsplit : b :: src = name ++ rest := by simp [name, rest, takeWhile_append_dropWhile]
      rw [filenameConvert, hsplit, take_left]
    have hsrc : dst ++ name ++ rest = dst ++ b :: src := by
      simp [name, rest, takeWhile_append_dropWhile]
    have hlen : rest.length ≤ (b :: src).length :=
      (length_dropWhile_le _ _).trans (Nat.le_succ _)
    rw [hname] at ih ⊢
    rw [hsrc] at ih
    exact ⟨ih.1, fun _ => ⟨(ih.2 h.1).1, (ih.2 h.1).2.trans hlen⟩⟩
  | case3 dst dstOrg srcOrg b src name rest h ih =>
    have hsrc : dst ++ name ++ rest = dst ++ b :: src := by
      simp [name, rest, takeWhile_append_dropWhile]
    have hlen : rest.length ≤ (b :: src).length :=
      (length_dropWhile_le _ _).trans (Nat.le_succ _)
    rw [hsrc] at ih
    refine ⟨ih.1, fun _ => ?_⟩
    by_cases hrest : rest = []
    · rw [hrest, copyNames]
      exact ⟨rfl, le_rfl⟩
    · exact ⟨(ih.2 hrest).1, (ih.2 hrest).2.trans hlen⟩

/-- **The paths of `fopen_local`**: the stripped one, and then the path as it is. -/
theorem fopenLocal_eq (einval : List UInt8 → Bool) (first second : Bool)
    {localroot filename : List UInt8} (hne : filename ≠ []) :
    fopenLocal einval first second localroot filename =
      stripFn (localroot ++ filename) :: if first then [] else
        (localroot ++ filename) :: if second then [] else [localroot ++ filename] := by
  obtain ⟨hpath, horg⟩ := copyNames_eq einval localroot [] filename filename
  obtain ⟨hlast, hlen⟩ := horg hne
  have hconv : filenameConvert (copyNames einval localroot [] filename filename).2.2
      filename.length = (copyNames einval localroot [] filename filename).2.2 :=
    take_of_length_le hlen
  rw [fopenLocal]
  cases first <;> cases second <;> simp [hpath, hconv, hlast]

theorem mem_fopenLocal {einval : List UInt8 → Bool} {first second : Bool}
    {localroot filename s : List UInt8} (hne : filename ≠ []) :
    s ∈ fopenLocal einval first second localroot filename ↔
      s = stripFn (localroot ++ filename) ∨ first = false ∧ s = localroot ++ filename := by
  rw [fopenLocal_eq einval first second hne]
  cases first <;> cases second <;> simp

theorem getLast?_fopenLocal (einval : List UInt8 → Bool) (first second : Bool)
    {localroot filename : List UInt8} (hne : filename ≠ []) :
    (fopenLocal einval first second localroot filename).getLast? =
      some (if first then stripFn (localroot ++ filename) else localroot ++ filename) := by
  rw [fopenLocal_eq einval first second hne]
  cases first <;> cases second <;> rfl

theorem treeGetPathNull_ne_nil (path : List Name) : treeGetPathNull path ≠ [] := by
  have hpos : 0 < pathMax - 1 := by decide
  rw [treeGetPathNull, ne_eq, take_eq_nil_iff, not_or]
  refine ⟨hpos.ne', ?_⟩
  split_ifs with h
  · simp
  · have hne : path.drop (path.length - chainMax) ≠ [] := by
      rw [ne_eq, drop_eq_nil_iff]
      have : 0 < chainMax := by decide
      omega
    obtain ⟨n, l, hl⟩ := exists_cons_of_ne_nil hne
    rw [hl]
    simp [renderPath]

theorem currentDirectory_eq (path : List Name) :
    currentDirectory path = (treeGetPathNull path).take (dirNameLen - 1) := by
  rw [currentDirectory, relativePath, if_neg (treeGetPathNull_ne_nil path)]

theorem currentDirectory_ne_nil (path : List Name) : currentDirectory path ≠ [] := by
  have hpos : 0 < dirNameLen - 1 := by decide
  rw [currentDirectory_eq, ne_eq, take_eq_nil_iff, not_or]
  exact ⟨hpos.ne', treeGetPathNull_ne_nil path⟩

theorem spells_currentDirectory (path : List Name) :
    Spells (currentDirectory path) (keptPath (dirNameLen - 1) path) := by
  rw [currentDirectory_eq]
  exact spells_take_treeGetPathNull (by decide) path

variable (cwd : List Name) (destDir : DestDir) (path : List Name)

/-- The names of a path below the destination lead from there. -/
theorem target_append {s : List UInt8} {l : List Name} (hhead : s.head? = destDir.bytes.head?)
    (hs : pathTokens s = pathTokens destDir.bytes ++ l) :
    target cwd s = (route Name.IsDot Name.IsDotDot l).lead (target cwd destDir.bytes) := by
  rw [target, hhead, hs, lexWalk_append, lexWalk_eq _ _ _ l]
  rfl

/-- **Where `restore_orphan` writes**, if the destination leaves room for a name. -/
theorem target_orphanPath (hroom : destDir.bytes.length < pathMax) :
    target cwd (orphanPath destDir path) =
      (route Name.IsDot Name.IsDotDot (keptPath (pathMax - 1 - destDir.bytes.length) path).names).lead
        (target cwd destDir.bytes) := by
  have hpath : orphanPath destDir path =
      destDir.bytes ++ (treeGetPathNull path).take (pathMax - 1 - destDir.bytes.length) := by
    rw [orphanPath, take_append, take_of_length_le (Nat.le_sub_one_of_lt hroom)]
  rw [hpath]
  apply target_append
  · exact head?_append_of_ne_nil _ destDir.ne_nil
  · exact (spells_take_treeGetPathNull (Nat.sub_le _ _) path).tokens_append destDir.ne_zero

/-- **Where `fopen_local` writes** without stripping. -/
theorem target_localPath :
    target cwd (destDir.bytes ++ currentDirectory path) =
      (route Name.IsDot Name.IsDotDot (keptPath (dirNameLen - 1) path).names).lead
        (target cwd destDir.bytes) := by
  apply target_append
  · exact head?_append_of_ne_nil _ destDir.ne_nil
  · exact (spells_currentDirectory path).tokens_append destDir.ne_zero

/-- **Where `fopen_local` writes** at the first try. -/
theorem target_stripFn :
    target cwd (stripFn (destDir.bytes ++ currentDirectory path)) =
      (route Name.IsDot Name.IsDotDot (keptPath (dirNameLen - 1) path).strip).lead
        (target cwd destDir.bytes) := by
  apply target_append
  · obtain ⟨v, hv⟩ := (spells_currentDirectory path).eq_cons (currentDirectory_ne_nil path)
    rw [hv, stripFn_append]
    exact head?_append_of_ne_nil _ destDir.ne_nil
  · exact (spells_currentDirectory path).tokens_stripFn (currentDirectory_ne_nil path)
      destDir.ne_zero

end RecoveryQt
