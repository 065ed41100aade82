import RecoveryQt.Tree.Invariant
import RecoveryQt.Lib.Codec
import Mathlib.Data.List.Pairwise

/-!
# The path of a node, and the node of a path

* `Arena.chain`, `Arena.writePath`, `Arena.getPath`: `tree_get_path`, with the limits of the chain and of the buffer;
* `Arena.findPath`: `tree_find_path`;
* `Arena.Leads`: the nodes from the root down to a node;
* `findChild_of_repInv`: a node is found below its parent by its name;
* **`findPath_getPath`**: the path of a node leads to it.
-/

namespace RecoveryQt

open List

namespace Arena

/-- The bytes of a name, `/` for the root. -/
def nameOf (h : Arena) (p : ℕ) : List UInt8 := (h.node p).name.elim [slash] Name.bytes

/-- The first loop of `tree_get_path`: the nodes from `p` up to the root, at most `room` of them. -/
def chain (h : Arena) (root : Option ℕ) : ℕ → Option ℕ → List ℕ
  | 0, _ => []
  | _ + 1, none => []
  | room + 1, some p => if some p = root then [] else p :: h.chain root room (h.node p).parent

/-- The second loop, on the nodes from the top: `snprintf` cuts what does not fit, and ends the loop. -/
def writePath (h : Arena) (bufsize : ℕ) : List ℕ → List UInt8 → List UInt8
  | [], buf => buf
  | p :: chain, buf =>
    let rem := bufsize - buf.length
    if rem ≤ 1 then buf
    else
      let text := slash :: h.nameOf p
      if rem ≤ text.length then buf ++ text.take (rem - 1) else h.writePath bufsize chain (buf ++ text)

/-- `tree_get_path`, the buffer up to its end. -/
def getPath (h : Arena) (node root : Option ℕ) (bufsize : ℕ) : List UInt8 :=
  if node = none ∨ bufsize = 0 then [] else h.writePath bufsize (h.chain root 128 node).reverse []

/-- `tree_find_path`. -/
def findPath (h : Arena) (path : List UInt8) : Option ℕ :=
  if cString path = [slash] then some 0 else (pathTokens path).foldlM h.findChild 0

/-- The nodes from a child of the root down to `i`. -/
inductive Leads (h : Arena) : List ℕ → ℕ → Prop
  | root : Leads h [] 0
  | child {l : List ℕ} {p i : ℕ} (up : Leads h l p) (ne : i ≠ 0) (lt : i < h.next)
      (parent : (h.node i).parent = some p) : Leads h (l ++ [i]) i

/-- The path of the nodes of a chain. -/
def pathOf (h : Arena) (l : List ℕ) : List UInt8 := l.flatMap fun p => slash :: h.nameOf p

variable {h : Arena} {l : List ℕ} {i : ℕ}

/-- The first loop collects the nodes up to the root. -/
theorem Leads.chain_eq (hl : Leads h l i) {room : ℕ} (hroom : l.length ≤ room) :
    h.chain (some 0) room (some i) = l.reverse := by
  induction hl generalizing room with
  | root => cases room <;> rfl
  | @child l p i up ne lt parent ih =>
    rw [length_append, length_singleton] at hroom
    obtain ⟨room, rfl⟩ := Nat.exists_eq_add_of_le' (Nat.one_le_of_lt hroom)
    rw [chain, if_neg (fun heq => ne (Option.some.inj heq)), parent, ih (by omega), reverse_append]
    rfl

/-- The second loop writes the whole path when it fits. -/
theorem writePath_eq {bufsize : ℕ} {buf : List UInt8} (hfit : buf.length + (h.pathOf l).length < bufsize) :
    h.writePath bufsize l buf = buf ++ h.pathOf l := by
  induction l generalizing buf with
  | nil => exact (append_nil buf).symm
  | cons p l ih =>
    have hpath : h.pathOf (p :: l) = (slash :: h.nameOf p) ++ h.pathOf l := rfl
    rw [hpath, length_append] at hfit
    have hpos : 0 < (slash :: h.nameOf p).length := Nat.succ_pos _
    simp only [writePath]
    rw [if_neg (by omega), if_neg (by omega), ih (by rw [length_append]; omega), hpath, append_assoc]

/-- A node is found below its parent, as the only child of its name. -/
theorem findChild_of_repInv (hinv : RepInv h) (hi : i ≠ 0) (hlt : i < h.next) {p : ℕ}
    (hp : (h.node i).parent = some p) {n : Name} (hn : (h.node i).name = some n) : h.findChild p n = some i := by
  obtain ⟨q, hq, hparent, hcount, -⟩ := hinv.linked i (Nat.pos_of_ne_zero hi) hlt
  obtain rfl := Option.some.inj (hp.symm.trans hparent)
  have hmem : i ∈ (h.node p).children := count_pos_iff.mp (by omega)
  cases hfind : h.findChild p n with
  | none => exact absurd hn (by simpa using find?_eq_none.mp hfind i hmem)
  | some j =>
    -- two children of one name are one
    have hj : (h.node j).name = some n := by simpa using find?_some hfind
    have hall : ∀ x ∈ (h.node p).children, ∀ y ∈ (h.node p).children, (h.node x).name = (h.node y).name → x = y := by
      intro x hx y hy hxy
      by_contra hne
      have : Std.Symm fun i j => (h.node i).name ≠ (h.node j).name := ⟨fun _ _ hab => hab.symm⟩
      exact (hinv.names p hq).forall hx hy hne hxy
    exact congrArg some (hall j (mem_of_find?_eq_some hfind) i hmem (hj.trans hn.symm))

/-- The names of the nodes below the root. -/
theorem Leads.exists_names (hinv : RepInv h) (hnamed : ∀ j, 0 < j → j < h.next → (h.node j).name.isSome)
    (hl : h.Leads l i) : ∃ ns : List Name, h.pathOf l = renderPath ns ∧
      ns.foldlM h.findChild 0 = some i := by
  induction hl with
  | root => exact ⟨[], rfl, rfl⟩
  | @child l p i up ne lt parent ih =>
    obtain ⟨ns, hpath, hfold⟩ := ih
    obtain ⟨n, hn⟩ := Option.isSome_iff_exists.mp (hnamed i (Nat.pos_of_ne_zero ne) lt)
    refine ⟨ns ++ [n], ?_, ?_⟩
    · have hname : h.nameOf i = n.bytes := by rw [nameOf, hn, Option.elim_some]
      rw [pathOf, flatMap_append, flatMap_singleton, hname, renderPath, flatMap_append, flatMap_singleton]
      exact congrArg (· ++ slash :: n.bytes) hpath
    · simp only [foldlM_append, hfold, foldlM_cons, foldlM_nil, Option.bind_eq_bind, Option.bind_some,
        findChild_of_repInv hinv ne lt parent hn, Option.pure_def]

/-- A path is not `/` alone. -/
theorem renderPath_ne_slash (ns : List Name) : renderPath ns ≠ [slash] := by
  cases ns with
  | nil => exact nofun
  | cons n ns =>
    rw [renderPath_cons]
    intro heq
    have hnil := (append_eq_nil_iff.mp (cons.inj heq).2).1
    exact n.ne_nil hnil

/-- **The path of a node leads to it**: each node but the root has a name, the node is not deeper than the chain of
`tree_get_path`, and its path with the terminator is not longer than the buffer. -/
theorem findPath_getPath (hinv : RepInv h) (hnamed : ∀ j, 0 < j → j < h.next → (h.node j).name.isSome)
    (hl : h.Leads l i) (hdepth : l.length ≤ 128) {bufsize : ℕ} (hfit : (h.pathOf l).length < bufsize) :
    h.findPath (h.getPath (some i) (some 0) bufsize) = some i := by
  obtain ⟨ns, hpath, hfold⟩ := hl.exists_names hinv hnamed
  have hget : h.getPath (some i) (some 0) bufsize = renderPath ns := by
    rw [getPath, if_neg (by simp; omega), hl.chain_eq hdepth, reverse_reverse,
      writePath_eq (by simpa using hfit), hpath, nil_append]
  have hcut : cString (renderPath ns) = renderPath ns := takeWhile_ne_zero fun b hb => renderPath_ne_zero hb
  rw [hget, findPath, hcut, if_neg (renderPath_ne_slash ns), pathTokens_renderPath, hfold]

/-- A file in a directory. -/
def fileInDir : Arena :=
  Arena.run [⟨[slash, 97, slash, 98], ⟨false, 1, 0, 1, 0, 512, false⟩⟩]

theorem fileInDir_repInv : RepInv fileInDir := by
  obtain ⟨G, hr⟩ := run_represents [⟨[slash, 97, slash, 98], ⟨false, 1, 0, 1, 0, 512, false⟩⟩]
  refine (hr.repInv_iff (by rw [run_root]; rfl) (run_distinct _)).mpr ?_
  exact ⟨fun _ => rfl, ⟨fun h => absurd rfl h, trivial, trivial⟩, trivial⟩

/-- The path `/a/b` leads to the second node, from a buffer of five bytes. -/
theorem findPath_fileInDir : RepInv fileInDir ∧ (∀ j, 0 < j → j < fileInDir.next → (fileInDir.node j).name.isSome) ∧
    fileInDir.Leads [1, 2] 2 ∧ (fileInDir.pathOf [1, 2]).length < 5 ∧
    fileInDir.findPath (fileInDir.getPath (some 2) (some 0) 5) = some 2 := by
  have hall : ∀ j < fileInDir.next, 0 < j → (fileInDir.node j).name.isSome := by decide
  have hnamed : ∀ j, 0 < j → j < fileInDir.next → (fileInDir.node j).name.isSome := fun j hpos hlt => hall j hlt hpos
  have hleads : fileInDir.Leads [1, 2] 2 :=
    Leads.child (l := [1]) (Leads.child (l := []) Leads.root (by decide) (by decide) rfl) (by decide) (by decide) rfl
  have hfit : (fileInDir.pathOf [1, 2]).length < 5 := by decide
  exact ⟨fileInDir_repInv, hnamed, hleads, hfit,
    findPath_getPath fileInDir_repInv hnamed hleads (by decide) hfit⟩

end Arena

end RecoveryQt
