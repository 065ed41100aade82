import RecoveryQt.Lib.Codec
import RecoveryQt.Lib.Halting
import Mathlib.Data.Set.Finite.List
import Mathlib.Data.Finite.Prod

/-!
# The path of a deleted NTFS file

`get_parent_name` follows the parent references from the record of a file name to the root directory.

* `FileNameAttr`, `UdlVolume`: a name as libntfs finds it in a record, and the MFT;
* `verifyParent`: `verify_parent`; `UdlVolume.look`: the record that a walk is at;
* `UdlVolume.parentStep`, `UdlVolume.getParentName`: `get_parent_name`;
* `UdlVolume.follow`: where the walk goes; **`UdlVolume.getParentName_ends_iff`**: when it ends;
* `UdlVolume.parentOf`, `UdlVolume.getParentName_ends_iff_of_whole`: the graph of the records.
-/

namespace RecoveryQt

open StateTransition List

/-- The fields of a `FILE_NAME_ATTR` that are read, the time as `td_ntfs2utc` gives it. -/
structure FileNameAttr where
  parentDirectory : UInt64
  creationTime : ℤ
  fileNameType : UInt8
  fileName : List UInt16
  deriving DecidableEq

/-- The fields of a `struct filename` that the walk reads. -/
structure UdlName where
  dateC : ℤ
  nameSpace : UInt8
  parentMref : UInt64

/-- `MREF`: the number of a record, in 48 bits. -/
def mref (reference : UInt64) : ℕ := reference.toNat % 2 ^ 48

theorem mref_lt (reference : UInt64) : mref reference < 2 ^ 48 := Nat.mod_lt _ (by decide)

/-- `MFT_RECORD_IS_DIRECTORY`. -/
def isDirectory (buffer : List UInt8) : Bool := buffer.getD 22 0 &&& 2 ≠ 0

/-- The loop of `verify_parent` over the names behind the first one. -/
def lowestSpaceName (nameSpace : UInt8) (lowest : FileNameAttr) : List FileNameAttr → FileNameAttr
  | [] => lowest
  | a :: l =>
    if a.fileNameType = nameSpace then a
    else lowestSpaceName nameSpace (if a.fileNameType < lowest.fileNameType then a else lowest) l

/-- `verify_parent` on a record with these names. -/
def verifyParent (name : UdlName) (directory : Bool) (names : List FileNameAttr) : Option FileNameAttr :=
  if directory = false then none
  else
    match names with
    | [] => none
    | a :: l =>
      if name.dateC < a.creationTime then none
      else if a.fileNameType = name.nameSpace then some a
      else some (lowestSpaceName name.nameSpace a l)

/-- A volume whose `$MFT` can be opened: the size of a record; the bytes that `ntfs_attr_pread` reads of a
record, which may be fewer, or none; the names that libntfs finds in a record, and their translation. -/
structure UdlVolume where
  recordSize : ℕ
  pread : ℕ → List UInt8
  length_pread_le : ∀ n, (pread n).length ≤ recordSize
  fileNames : List UInt8 → List FileNameAttr
  ucstombs : List UInt16 → Option (List UInt8)

/-- The number of the record that is read next, and the buffer of the last one. -/
structure ParentPlace where
  inodeNum : ℕ
  buffer : List UInt8

/-- A path behind the name of its parent. The root directory, record 5, has the name `.`. -/
def joinParent (inodeNum : ℕ) (parentName : List UInt8) : Option (List UInt8) → List UInt8
  | none => parentName
  | some path => if inodeNum = 5 ∧ parentName = [46] then 47 :: path else parentName ++ 47 :: path

namespace UdlVolume

variable (vol : UdlVolume) (name : UdlName)

/-- The buffer after a record is read into it. -/
def readInto (p : ParentPlace) : List UInt8 := vol.pread p.inodeNum ++ p.buffer.drop (vol.pread p.inodeNum).length

/-- The record that the walk is at: the name that is taken from it, and its translation; `none` when it cannot
be read, is no parent or its name cannot be translated. -/
def look (p : ParentPlace) : Option (FileNameAttr × List UInt8) :=
  if vol.pread p.inodeNum = [] then none
  else
    (verifyParent name (isDirectory (vol.readInto p)) (vol.fileNames (vol.readInto p))).bind fun a =>
      (vol.ucstombs a.fileName).map fun s => (a, s)

/-- A round of the loop of `get_parent_name`: the path, and the place of the next round if there is one. -/
def parentStep (p : ParentPlace) (path : Option (List UInt8)) : Option (List UInt8) × Option ParentPlace :=
  match vol.look name p with
  | none => (path, none)
  | some (a, s) =>
    (some (joinParent p.inodeNum s path),
      if p.inodeNum % 2 ^ 32 ≠ mref a.parentDirectory then some ⟨mref a.parentDirectory, vol.readInto p⟩ else none)

/-- The loop of `get_parent_name` for a number of rounds: `name->parent_name` at the end, if it comes to one. -/
def parentLoop : ℕ → ParentPlace → Option (List UInt8) → Option (Option (List UInt8))
  | 0, _, _ => none
  | rounds + 1, p, path =>
    match vol.parentStep name p path with
    | (path', none) => some path'
    | (path', some p') => parentLoop rounds p' path'

/-- Where the loop starts: with a buffer of zeros. -/
def firstPlace : ParentPlace := ⟨mref name.parentMref, replicate vol.recordSize 0⟩

/-- `get_parent_name`. -/
def getParentName (rounds : ℕ) : Option (Option (List UInt8)) := vol.parentLoop name rounds (vol.firstPlace name) none

/-! ## The places of the walk -/

/-- Where the walk goes from a place: the reference of a parent is followed when it is not to the record itself. -/
def follow (p : ParentPlace) : Option ParentPlace :=
  (vol.look name p).bind fun r =>
    if p.inodeNum % 2 ^ 32 ≠ mref r.1.parentDirectory then some ⟨mref r.1.parentDirectory, vol.readInto p⟩
    else none

theorem parentStep_snd (p : ParentPlace) (path : Option (List UInt8)) :
    (vol.parentStep name p path).2 = vol.follow name p := by
  unfold parentStep follow
  cases vol.look name p <;> rfl

/-- The loop ends as the walk does, whatever the path. -/
theorem isSome_parentLoop (rounds : ℕ) (p : ParentPlace) (path : Option (List UInt8)) :
    (vol.parentLoop name rounds p path).isSome = (runFor (vol.follow name) rounds p).isSome := by
  induction rounds generalizing p path with
  | zero => rfl
  | succ rounds ih =>
    have hnext := vol.parentStep_snd name p path
    rw [parentLoop, runFor_succ]
    rcases hstep : vol.parentStep name p path with ⟨path', _ | p'⟩
    · rw [hstep] at hnext
      rw [← hnext]
      rfl
    · rw [hstep] at hnext
      rw [← hnext]
      exact ih p' path'

/-- A place of the walk: a number of 48 bits, and a buffer of the size of a record. -/
def IsPlace (p : ParentPlace) : Prop := p.inodeNum < 2 ^ 48 ∧ p.buffer.length = vol.recordSize

theorem firstPlace_isPlace : vol.IsPlace (vol.firstPlace name) := ⟨mref_lt _, length_replicate⟩

variable {vol name}

theorem IsPlace.follow {p q : ParentPlace} (hp : vol.IsPlace p) (hq : q ∈ vol.follow name p) : vol.IsPlace q := by
  obtain ⟨r, -, hr⟩ := Option.bind_eq_some_iff.mp hq
  split_ifs at hr
  obtain rfl := Option.some.inj hr
  refine ⟨mref_lt _, ?_⟩
  have hle := vol.length_pread_le p.inodeNum
  have hrec := hp.2
  show (vol.pread p.inodeNum ++ p.buffer.drop _).length = _
  rw [length_append, length_drop]
  omega

theorem IsPlace.reaches {p q : ParentPlace} (hp : vol.IsPlace p) (h : Reaches (vol.follow name) p q) :
    vol.IsPlace q := by
  induction h with
  | refl => exact hp
  | tail _ hq ih => exact ih.follow hq

variable (vol) in
theorem finite_isPlace : {p | vol.IsPlace p}.Finite := by
  have : Finite UInt8 := Finite.of_injective UInt8.toFin fun _ _ => UInt8.toFin_inj.mp
  have hpairs := (Set.finite_lt_nat (2 ^ 48)).prod (List.finite_length_eq UInt8 vol.recordSize)
  refine (hpairs.image fun x => (⟨x.1, x.2⟩ : ParentPlace)).subset ?_
  rintro ⟨n, l⟩ ⟨hn, hl⟩
  exact ⟨(n, l), ⟨hn, hl⟩, rfl⟩

variable (vol name) in
/-- **The path of a file is found**, or is not, after finitely many rounds exactly when the walk comes to no place
twice. -/
theorem getParentName_ends_iff : (∃ rounds, (vol.getParentName name rounds).isSome) ↔
    ∀ p, Reaches (vol.follow name) (vol.firstPlace name) p → ¬ Reaches₁ (vol.follow name) p p := by
  have hfin : {p | Reaches (vol.follow name) (vol.firstPlace name) p}.Finite :=
    vol.finite_isPlace.subset fun p hp => (vol.firstPlace_isPlace name).reaches hp
  rw [← ends_iff_acyclic hfin]
  exact exists_congr fun rounds => by rw [getParentName, isSome_parentLoop]

/-! ## The graph of the records -/

variable (vol name) in
/-- The record that a record's parent reference is followed to. -/
def parentOf (n : ℕ) : Option ℕ := (vol.follow name ⟨n, vol.pread n⟩).map ParentPlace.inodeNum

/-- A record that is read whole does not depend on the buffer. -/
theorem follow_of_whole (hwhole : ∀ n, (vol.pread n).length = vol.recordSize ∨ vol.pread n = []) {p : ParentPlace}
    (hp : vol.IsPlace p) : (vol.follow name p).map ParentPlace.inodeNum = vol.parentOf name p.inodeNum := by
  obtain ⟨n, buffer⟩ := p
  have hlen : buffer.length = vol.recordSize := hp.2
  rcases hwhole n with h | h
  · have hinto : vol.readInto ⟨n, buffer⟩ = vol.readInto ⟨n, vol.pread n⟩ := by
      unfold readInto
      dsimp only
      rw [h, drop_eq_nil_of_le hlen.le, drop_eq_nil_of_le h.le]
    unfold parentOf follow look
    dsimp only
    rw [hinto]
  · simp only [parentOf, follow, look, h, if_true, Option.bind_none]

/-- When records are read whole or not at all, the references are a graph of the records. -/
theorem getParentName_ends_iff_of_whole
    (hwhole : ∀ n, (vol.pread n).length = vol.recordSize ∨ vol.pread n = []) :
    (∃ rounds, (vol.getParentName name rounds).isSome) ↔
      ∀ n, Reaches (vol.parentOf name) (mref name.parentMref) n → ¬ Reaches₁ (vol.parentOf name) n n := by
  have hfin : {n | Reaches (vol.parentOf name) (mref name.parentMref) n}.Finite := by
    refine (Set.finite_lt_nat (2 ^ 48)).subset fun n hn => ?_
    induction hn with
    | refl => exact mref_lt _
    | tail _ hstep _ =>
      obtain ⟨p, hp, rfl⟩ := Option.map_eq_some_iff.mp hstep
      obtain ⟨r, -, hr⟩ := Option.bind_eq_some_iff.mp hp
      split_ifs at hr
      obtain rfl := Option.some.inj hr
      exact mref_lt _
  have hends : Ends (vol.follow name) (vol.firstPlace name) ↔ Ends (vol.parentOf name) (mref name.parentMref) :=
    ends_iff_of_map (fun p hp q hq => hp.follow hq) (fun p hp => follow_of_whole hwhole hp)
      (vol.firstPlace_isPlace name)
  rw [← ends_iff_acyclic hfin, ← hends]
  exact exists_congr fun rounds => by rw [getParentName, isSome_parentLoop]

end UdlVolume

/-! ## Two directories that are each the parent of the other -/

/-- A record of 1024 bytes of a directory with one name, `a`, in the directory with the number `parent`. -/
def directoryRecord (parent : UInt8) : List UInt8 := (range 1024).map fun i =>
  if i = 0x16 then 2 else if i = 0x38 then 0x30 else if i = 0x50 then parent else if i = 0x90 then 1
  else if i = 0x91 then 1 else if i = 0x92 then 97 else 0

/-- The name in such a record: it is the value of the first attribute. -/
def recordNames (buffer : List UInt8) : List FileNameAttr :=
  if buffer.getD 0x38 0 = 0x30 then
    [⟨UInt64.ofNat (leNat ((buffer.drop 0x50).take 8)), leNat ((buffer.drop 0x58).take 8) / 10000000 - 11644473600,
      buffer.getD 0x91 0, [(buffer.getD 0x92 0).toUInt16]⟩]
  else []

/-- The records 64 and 65 are the directories. -/
def crossedVolume : UdlVolume where
  recordSize := 1024
  pread n := if n = 64 then directoryRecord 65 else if n = 65 then directoryRecord 64 else []
  length_pread_le n := by split_ifs <;> simp [directoryRecord]
  fileNames := recordNames
  ucstombs l := some (l.map UInt16.toUInt8)

/-- A deleted file in the first of them. -/
def crossedName : UdlName := ⟨0, 1, 64⟩

/-- The walk goes from one to the other for ever. -/
theorem crossed_never_ends : crossedVolume.parentOf crossedName 64 = some 65 ∧
    crossedVolume.parentOf crossedName 65 = some 64 ∧
      ¬ ∃ rounds, (crossedVolume.getParentName crossedName rounds).isSome := by
  have hthere : crossedVolume.parentOf crossedName 64 = some 65 := by decide +kernel
  have hback : crossedVolume.parentOf crossedName 65 = some 64 := by decide +kernel
  have hlength : ∀ parent, (directoryRecord parent).length = 1024 := fun parent => by
    rw [directoryRecord, length_map, length_range]
  have hwhole : ∀ n, (crossedVolume.pread n).length = crossedVolume.recordSize ∨ crossedVolume.pread n = [] := by
    intro n
    unfold crossedVolume
    dsimp only
    split_ifs
    · exact Or.inl (hlength 65)
    · exact Or.inl (hlength 64)
    · exact Or.inr rfl
  refine ⟨hthere, hback, fun h => ?_⟩
  exact (UdlVolume.getParentName_ends_iff_of_whole hwhole).mp h 64 Relation.ReflTransGen.refl
    (Relation.TransGen.head hthere (Relation.TransGen.single hback))

end RecoveryQt
