import RecoveryQt.Fat.Model
import RecoveryQt.Lib.Codec
import RecoveryQt.Lib.Utf16

/-!
# The entries of an exFAT directory

A write outside the buffer of a name is a failure of the model.

* `IconvResult`: what `iconv` writes, and whether it succeeds;
* `writeAt`: a write to a buffer;
* `exfatUcstoutf8`, `nameEntry`: `exfat_ucstoutf8`, and what is done with a file-name entry;
* `DirExfat.step`, **`dirExfatAux`**: `dir_exfat_aux`.
-/

namespace RecoveryQt

open List

/-! ## Names -/

/-- What `iconv` writes, and whether it succeeds. -/
structure IconvResult where
  ok : Bool
  out : List UInt8

/-- `iconv` from UTF-16LE to UTF-8, for units and the bytes that the output has room for. -/
abbrev Iconv : Type := List UInt16 → ℕ → IconvResult

/-- Bytes written to a buffer from a position on, if it has room for them. -/
def writeAt (buf : List UInt8) (i : ℕ) (l : List UInt8) : Option (List UInt8) :=
  if i + l.length ≤ buf.length then some (buf.take i ++ (l ++ buf.drop (i + l.length))) else none

/-- `exfat_ucstoutf8` to a position of a name, with room for `outsLen` bytes: the name, and whether it succeeds. -/
def exfatUcstoutf8 (iconv : Iconv) (name : List UInt8) (j : ℕ) (ins : List UInt16) (outsLen : ℕ) :
    Option (List UInt8 × Bool) :=
  let r := iconv ins (outsLen - 1)
  (writeAt name j r.out).bind fun name =>
    if r.ok then (writeAt name (j + r.out.length) [0]).map fun name => (name, true) else some (name, false)

/-- The end of a name, where the next piece of it is written. -/
def nameEnd (name : List UInt8) : ℕ := min 255 (cString name).length

/-- What is done with the 15 units of a file-name entry: the units in front of a zero are converted, or else the low bytes
of all units are copied. -/
def nameEntry (iconv : Iconv) (name : List UInt8) (units : List UInt16) : Option (List UInt8) :=
  let j := nameEnd name
  (exfatUcstoutf8 iconv name j (units.takeWhile (· ≠ 0)) (512 - j)).bind fun r =>
    if r.2 then some r.1 else writeAt r.1 j (units.map UInt16.toUInt8 ++ [0])

/-! ## Entries -/

/-- An entry of a directory, 32 bytes. -/
abbrev ExfatEntry : Type := ℕ → UInt8

namespace ExfatEntry

variable (e : ExfatEntry)

/-- `type & 0x7f`. -/
def kind : UInt8 := e 0 &&& 0x7F

/-- The bit of entries in use. -/
def inUse : Bool := e 0 &&& 0x80 != 0

/-- The units of a file-name entry. -/
def nameUnits : List UInt16 := (range 15).map fun i => UInt16.ofNat (le16At e (2 + 2 * i))

end ExfatEntry

/-- A file of the list, with the numbers that its dates are made of; its name is a buffer of 512 bytes. -/
structure ExfatFile where
  name : List UInt8
  stIno : UInt32
  attr : UInt16
  stSize : UInt64
  atime : UInt16 × UInt16
  ctime : UInt16 × UInt16
  mtime : UInt16 × UInt16
  deleted : Bool

/-- `new_file` for a file entry. -/
def exfatNewFile (e : ExfatEntry) : ExfatFile where
  name := replicate 512 0
  stIno := 0
  attr := UInt16.ofNat (le16At e 4)
  stSize := 0
  atime := (UInt16.ofNat (le16At e 16), UInt16.ofNat (le16At e 18))
  ctime := (UInt16.ofNat (le16At e 8), UInt16.ofNat (le16At e 10))
  mtime := (UInt16.ofNat (le16At e 12), UInt16.ofNat (le16At e 14))
  deleted := !e.inUse

/-- The variables of `dir_exfat_aux`: the list up to `current_file`, `current_file`, and `sec_count`. -/
structure DirExfat where
  list : List ExfatFile
  current : Option ExfatFile
  secCount : ℕ

namespace DirExfat

/-- The files. -/
def files (s : DirExfat) : List ExfatFile := s.list ++ s.current.toList

/-- What a secondary entry does to its file. -/
def secondary (iconv : Iconv) (e : ExfatEntry) (f : ExfatFile) : Option ExfatFile :=
  if e.kind = 0x40 then
    some { f with
      stSize := UInt64.ofNat (le32At e 24 + 2 ^ 32 * le32At e 28)
      stIno := UInt32.ofNat (le32At e 20) }
  else if e.kind = 0x41 then (nameEntry iconv f.name e.nameUnits).map fun name => { f with name := name }
  else some f

/-- An entry; deleted ones are passed over when they are not to be listed. -/
def step (iconv : Iconv) (listDeleted : Bool) (s : DirExfat) (e : ExfatEntry) : Option DirExfat :=
  if e.inUse = false ∧ listDeleted = false then some s
  else if e.kind = 0x05 then some ⟨s.files, some (exfatNewFile e), (e 1).toNat⟩
  else match s.current with
    | none => some s
    | some f =>
      if 0 < s.secCount then (secondary iconv e f).map fun f => ⟨s.list, some f, s.secCount - 1⟩ else some s

/-- The entries of a buffer. -/
def run (iconv : Iconv) (listDeleted : Bool) : DirExfat → List ExfatEntry → Option DirExfat
  | s, [] => some s
  | s, e :: entries => (step iconv listDeleted s e).bind fun s => run iconv listDeleted s entries

end DirExfat

/-- **`dir_exfat_aux`** on the entries of a buffer. -/
def dirExfatAux (iconv : Iconv) (listDeleted : Bool) (entries : List ExfatEntry) : Option (List ExfatFile) :=
  (DirExfat.run iconv listDeleted ⟨[], none, 0⟩ entries).map DirExfat.files

/-! ## Writes -/

/-- `iconv` does not write more than it has room for. -/
def Iconv.Bounded (iconv : Iconv) : Prop := ∀ units n, (iconv units n).out.length ≤ n

theorem writeAt_of_le {buf l : List UInt8} {i : ℕ} (h : i + l.length ≤ buf.length) :
    writeAt buf i l = some (buf.take i ++ (l ++ buf.drop (i + l.length))) := if_pos h

/-- The string in a buffer up to a position in it, and what is written there with a zero behind it. -/
theorem cString_written {buf : List UInt8} {j : ℕ} (hj : j ≤ (cString buf).length) (l rest : List UInt8) :
    cString (buf.take j ++ (l ++ 0 :: rest)) = (cString buf).take j ++ cString l := by
  have htake : (cString buf).take j = buf.take j := by
    calc (cString buf).take j = (buf.take (cString buf).length).take j :=
          congrArg (take j) (prefix_iff_eq_take.mp ( takeWhile_prefix _))
      _ = buf.take j := by rw [take_take, Nat.min_eq_left hj]
  have hplain : ∀ b ∈ (cString buf).take j, decide (b ≠ 0) = true :=
    fun b hb => mem_takeWhile_imp (p := fun b => decide (b ≠ 0)) (mem_of_mem_take hb)
  have hzero : cString (l ++ 0 :: rest) = cString l := takeWhile_append_cons rfl l rest
  rw [← htake]
  exact (takeWhile_append_of_pos hplain).trans (congrArg _ hzero)

/-- **A file-name entry** is written in the buffer: behind the name so far, of which no more than 255 bytes stay. -/
theorem nameEntry_eq {iconv : Iconv} (hiconv : iconv.Bounded) {name : List UInt8} (hname : name.length = 512)
    {units : List UInt16} (hunits : units.length = 15) : ∃ name', nameEntry iconv name units = some name' ∧
      name'.length = 512 ∧ cString name' = (cString name).take 255 ++
        if (iconv (units.takeWhile (· ≠ 0)) (511 - nameEnd name)).ok then
          cString (iconv (units.takeWhile (· ≠ 0)) (511 - nameEnd name)).out
        else cString (units.map UInt16.toUInt8) := by
  have hend : nameEnd name ≤ 255 := Nat.min_le_left _ _
  have hendle : nameEnd name ≤ (cString name).length := Nat.min_le_right _ _
  have htake : (cString name).take (nameEnd name) = (cString name).take 255 := by
    rw [nameEnd, ← take_take, take_of_length_le (Nat.le_refl _)]
  have hroom : 512 - nameEnd name - 1 = 511 - nameEnd name := by omega
  have hout := hiconv (units.takeWhile (· ≠ 0)) (511 - nameEnd name)
  unfold nameEntry exfatUcstoutf8
  dsimp only
  rw [hroom]
  generalize iconv (units.takeWhile (· ≠ 0)) (511 - nameEnd name) = r at hout ⊢
  have hlength : (name.take (nameEnd name)).length = nameEnd name := by
    rw [length_take, hname]
    omega
  rw [writeAt_of_le (by omega), Option.bind_some]
  cases hok : r.ok with
  | true =>
    -- the zero is written behind the output
    have hwritten : name.take (nameEnd name) ++ (r.out ++ name.drop (nameEnd name + r.out.length)) =
        (name.take (nameEnd name) ++ r.out) ++ name.drop (nameEnd name + r.out.length) := by rw [append_assoc]
    have hfull : ((name.take (nameEnd name) ++ r.out) ++ name.drop (nameEnd name + r.out.length)).length = 512 := by
      rw [length_append, length_append, hlength, length_drop, hname]
      omega
    have hkept : ((name.take (nameEnd name) ++ r.out) ++ name.drop (nameEnd name + r.out.length)).take
        (nameEnd name + r.out.length) = name.take (nameEnd name) ++ r.out :=
      take_left' (by rw [length_append, hlength])
    rw [if_pos rfl, if_pos rfl, hwritten, writeAt_of_le (by rw [hfull, length_singleton]; omega), Option.map_some,
      Option.bind_some, if_pos rfl, hkept, append_assoc, singleton_append, ← htake]
    refine ⟨_, rfl, ?_, cString_written hendle _ _⟩
    simp only [length_append, length_cons, length_nil, length_drop, length_take, hname]
    omega
  | false =>
    have hfull : (name.take (nameEnd name) ++ (r.out ++ name.drop (nameEnd name + r.out.length))).length = 512 := by
      rw [length_append, length_append, hlength, length_drop, hname]
      omega
    have hlow : (units.map UInt16.toUInt8 ++ [0]).length = 16 := by
      rw [length_append, length_map, hunits]
      rfl
    have hkept : (name.take (nameEnd name) ++ (r.out ++ name.drop (nameEnd name + r.out.length))).take (nameEnd name) =
        name.take (nameEnd name) := take_left' hlength
    rw [if_neg Bool.false_ne_true, if_neg Bool.false_ne_true, Option.bind_some, if_neg Bool.false_ne_true,
      writeAt_of_le (by rw [hfull, hlow]; omega), hkept, append_assoc, singleton_append, ← htake]
    refine ⟨_, rfl, ?_, cString_written hendle _ _⟩
    simp only [length_append, length_cons, length_drop, length_take, hname, length_map, hunits, hlow]
    omega

end RecoveryQt
