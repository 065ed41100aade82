import Mathlib.Data.List.GetD
import RecoveryQt.Carver.Signatures
import RecoveryQt.Lib.Indices

/-!
# The index of the signatures

`carver_check_header` does not look at each signature: it takes the bucket of one byte for each element of
`file_check_list`. The size of the buffer is compared with the offset of the element only.

* `visited`, `linearScan`: the checks that are come to, and those that a search through all would find;
* `hits_indexHeaderCheckAux`, **`hits_registered`**: the signatures inside the buffer are come to, each once;
* `StaysInside`: no signature of a bucket that is looked at ends behind the buffer and equals what is there;
* **`visited_perm_linearScan_iff`**: the index finds what the search finds exactly then.
-/

namespace RecoveryQt.Signatures

open List

variable {F : Type*}

/-! ## What is looked at -/

/-- The checks of the bucket that an element is asked for, if its offset is inside the buffer. -/
def FileCheckList.candidates (buffer : ℕ → UInt8) (bufferSize : ℕ) (pos : FileCheckList F) : List (FileCheck F) :=
  if bufferSize ≤ pos.offset then [] else pos.fileChecks (bucket (buffer pos.offset))

/-- `memcmp(buffer + fc->offset, fc->value, fc->length) == 0`. -/
def FileCheck.equals (buffer : ℕ → UInt8) (fc : FileCheck F) : Bool :=
  hasBytes buffer fc.check.offset fc.check.value

/-- A signature of less than 3 bytes is passed over. -/
def FileCheck.isLong (fc : FileCheck F) : Bool := !decide (fc.check.value.length < 3)

/-- The checks whose signatures the loops of `carver_check_header` compare. -/
def visited (buffer : ℕ → UInt8) (bufferSize : ℕ) (l : List (FileCheckList F)) : List (FileCheck F) :=
  l.flatMap fun pos => (pos.candidates buffer bufferSize).filter FileCheck.isLong

/-- The signature lies in the buffer. -/
def FileCheck.inside (bufferSize : ℕ) (fc : FileCheck F) : Bool :=
  decide (fc.check.offset + fc.check.value.length ≤ bufferSize)

/-- A search through all signatures. -/
def linearScan (buffer : ℕ → UInt8) (bufferSize : ℕ) (registered : List (FileCheck F)) : List (FileCheck F) :=
  registered.filter fun fc => fc.isLong && fc.inside bufferSize && fc.equals buffer

/-- The index of the signatures registered in some order. -/
def indexOf (registered : List (FileCheck F)) : List (FileCheckList F) :=
  ((registered.foldl (fun st c => st.registerHeaderCheck c.hint c.check)
    (⟨[], [], [], false⟩ : SignatureGlobals F)).indexHeaderCheck).fileCheckList

/-! ## One check -/

theorem listAddSorted_perm (c : FileCheck F) (l : List (FileCheck F)) : listAddSorted c l ~ c :: l := by
  induction l with
  | nil => rfl
  | cons pos l ih =>
    rw [listAddSorted]
    split
    · rfl
    · exact (ih.cons pos).trans (Perm.swap c pos l)

/-- The checks of the elements that have a property. -/
def hits (buffer : ℕ → UInt8) (bufferSize : ℕ) (Q : FileCheck F → Bool) (l : List (FileCheckList F)) :
    List (FileCheck F) := l.flatMap fun pos => (pos.candidates buffer bufferSize).filter Q

section Hits

variable {buffer : ℕ → UInt8} {bufferSize : ℕ} {Q : FileCheck F → Bool}

theorem hits_cons (pos : FileCheckList F) (l : List (FileCheckList F)) :
    hits buffer bufferSize Q (pos :: l) =
      (pos.candidates buffer bufferSize).filter Q ++ hits buffer bufferSize Q l := flatMap_cons

/-- A signature that lies in the buffer has the byte of the buffer at each of its offsets. -/
theorem bucket_of_equals {c : FileCheck F} (h : c.equals buffer = true) {k : ℕ} (hk : c.check.offset ≤ k)
    (hk' : k < c.check.offset + c.check.value.length) :
    bucket (c.check.value.getD (k - c.check.offset) 0) = bucket (buffer k) := by
  have hlt : k - c.check.offset < c.check.value.length := by omega
  have hbyte := hasBytes_iff.mp h (k - c.check.offset) hlt
  rw [Nat.add_sub_cancel' hk] at hbyte
  rw [hbyte, getD_eq_getElem _ _ hlt]

/-- Whatever is added to one bucket of an element is a candidate if the byte is that of the buffer. -/
theorem candidates_update (pos : FileCheckList F) (b : Fin 256) (checks : List (FileCheck F)) :
    ({ pos with fileChecks := Function.update pos.fileChecks b checks } : FileCheckList F).candidates buffer
      bufferSize =
      if pos.offset < bufferSize ∧ b = bucket (buffer pos.offset) then checks
      else pos.candidates buffer bufferSize := by
  unfold FileCheckList.candidates
  by_cases hin : bufferSize ≤ pos.offset
  · simp [hin]
  · by_cases hb : b = bucket (buffer pos.offset)
    · subst hb
      simp [hin]
    · rw [if_neg hin, if_neg hin, if_neg fun h => hb h.2]
      exact Function.update_of_ne (Ne.symm hb) checks pos.fileChecks

/-- **One check that is indexed** is come to with its byte, and the others are as before. -/
theorem hits_indexHeaderCheckAux
    (hQ : ∀ c, Q c = true → 0 < c.check.value.length ∧ c.inside bufferSize = true ∧ c.equals buffer = true)
    (c : FileCheck F) (l : List (FileCheckList F)) :
    hits buffer bufferSize Q (indexHeaderCheckAux c l) ~ [c].filter Q ++ hits buffer bufferSize Q l := by
  have hat : ∀ k, c.check.offset ≤ k → k < c.check.offset + c.check.value.length → Q c = true →
      k < bufferSize ∧ bucket (c.check.value.getD (k - c.check.offset) 0) = bucket (buffer k) := by
    intro k hk hk' hc
    obtain ⟨-, hin, heq⟩ := hQ c hc
    exact ⟨hk'.trans_le (of_decide_eq_true hin), bucket_of_equals heq hk hk'⟩
  -- the only check of a new element
  have hnew : ((newFileCheckList c).candidates buffer bufferSize).filter Q = [c].filter Q := by
    rw [newFileCheckList, candidates_update ⟨c.check.offset, fun _ => []⟩ (bucket (c.check.value.headD 0)) [c]]
    split_ifs with h
    · rfl
    · have hnot : ¬ Q c = true := by
        intro hc
        have hpos := (hQ c hc).1
        have hbyte := hat c.check.offset le_rfl (by omega) hc
        rw [Nat.sub_self, show c.check.value.getD 0 0 = c.check.value.headD 0 by cases c.check.value <;> rfl] at hbyte
        exact h hbyte
      rw [filter_cons_of_neg hnot]
      unfold FileCheckList.candidates
      split_ifs <;> rfl
  induction l with
  | nil =>
    rw [indexHeaderCheckAux, hits_cons, hnew]
  | cons pos l ih =>
    rw [indexHeaderCheckAux]
    split_ifs with hinto hbefore
    · rw [hits_cons, hits_cons, candidates_update, ← append_assoc]
      refine Perm.append_right _ ?_
      split_ifs with h
      · have hcandidates : pos.candidates buffer bufferSize = pos.fileChecks (bucket (buffer pos.offset)) :=
          if_neg (by omega)
        rw [h.2, hcandidates]
        refine ((listAddSorted_perm c _).filter Q).trans (Perm.of_eq ?_)
        exact filter_append [c] _
      · have hnot : ¬ Q c = true := fun hc =>
          h (hat pos.offset hinto.2.1 (hinto.2.2.trans_le (Nat.mod_le _ _)) hc)
        rw [filter_cons_of_neg hnot]
        rfl
    · rw [hits_cons, hnew]
    · rw [hits_cons, hits_cons]
      exact (ih.append_left _).trans (perm_append_comm_assoc _ _ _)

/-- The checks of a list, one after the other. -/
theorem hits_foldl
    (hQ : ∀ c, Q c = true → 0 < c.check.value.length ∧ c.inside bufferSize = true ∧ c.equals buffer = true)
    (pending : List (FileCheck F)) (l : List (FileCheckList F)) :
    hits buffer bufferSize Q (pending.foldl (fun l c => indexHeaderCheckAux c l) l) ~
      pending.filter Q ++ hits buffer bufferSize Q l := by
  induction pending generalizing l with
  | nil => rfl
  | cons c pending ih =>
    rw [foldl_cons, ← singleton_append, filter_append, append_assoc]
    exact (ih _).trans (((hits_indexHeaderCheckAux hQ c l).append_left _).trans (perm_append_comm_assoc _ _ _))

end Hits

/-! ## All of them -/

theorem plist_registered (registered : List (FileCheck F)) (st : SignatureGlobals F) :
    (registered.foldl (fun st c => st.registerHeaderCheck c.hint c.check) st).fileCheckPlist ~
        registered ++ st.fileCheckPlist ∧
      (registered.foldl (fun st c => st.registerHeaderCheck c.hint c.check) st).fileCheckList = st.fileCheckList := by
  induction registered generalizing st with
  | nil => exact ⟨Perm.refl _, rfl⟩
  | cons c registered ih =>
    obtain ⟨hplist, hlist⟩ := ih (st.registerHeaderCheck c.hint c.check)
    refine ⟨hplist.trans ?_, hlist⟩
    exact ((listAddSorted_perm c st.fileCheckPlist).append_left registered).trans perm_middle

/-- The signatures of a property that only those inside the buffer have. -/
theorem hits_indexOf {buffer : ℕ → UInt8} {bufferSize : ℕ} {Q : FileCheck F → Bool}
    (hQ : ∀ c, Q c = true → 0 < c.check.value.length ∧ c.inside bufferSize = true ∧ c.equals buffer = true)
    (registered : List (FileCheck F)) :
    hits buffer bufferSize Q (indexOf registered) ~ registered.filter Q := by
  obtain ⟨hplist, hlist⟩ := plist_registered registered (⟨[], [], [], false⟩ : SignatureGlobals F)
  rw [append_nil] at hplist
  rw [indexOf, SignatureGlobals.indexHeaderCheck]
  refine (hits_foldl hQ _ _).trans ?_
  rw [hlist, show hits buffer bufferSize Q ([] : List (FileCheckList F)) = [] from rfl, append_nil]
  exact ((reverse_perm _).trans hplist).filter Q

/-- **The index loses nothing**: the signatures in the buffer are come to, and each once. -/
theorem hits_registered (buffer : ℕ → UInt8) (bufferSize : ℕ) (registered : List (FileCheck F)) :
    (visited buffer bufferSize (indexOf registered)).filter (fun fc => fc.inside bufferSize && fc.equals buffer) ~
      linearScan buffer bufferSize registered := by
  have hlong : ∀ c : FileCheck F, (c.isLong && c.inside bufferSize && c.equals buffer) = true →
      0 < c.check.value.length ∧ c.inside bufferSize = true ∧ c.equals buffer = true := by
    intro c hc
    rw [Bool.and_eq_true, Bool.and_eq_true, FileCheck.isLong, Bool.not_eq_true', decide_eq_false_iff_not] at hc
    exact ⟨by omega, hc.1.2, hc.2⟩
  refine Perm.trans (Perm.of_eq ?_) (hits_indexOf hlong registered)
  rw [visited, hits, filter_flatMap]
  refine flatMap_congr fun pos _ => ?_
  rw [filter_filter]
  refine filter_congr fun c _ => ?_
  cases c.isLong <;> cases c.inside bufferSize <;> cases c.equals buffer <;> rfl

/-- No signature of a bucket that is looked at ends behind the buffer and equals the bytes there. -/
def StaysInside (buffer : ℕ → UInt8) (bufferSize : ℕ) (l : List (FileCheckList F)) : Prop :=
  ∀ pos ∈ l, ∀ fc ∈ pos.candidates buffer bufferSize, fc.isLong = true → fc.equals buffer = true →
    fc.inside bufferSize = true

theorem staysInside_iff_visited {buffer : ℕ → UInt8} {bufferSize : ℕ} {l : List (FileCheckList F)} :
    StaysInside buffer bufferSize l ↔
      ∀ fc ∈ visited buffer bufferSize l, fc.equals buffer = true → fc.inside bufferSize = true := by
  simp only [StaysInside, visited, mem_flatMap, mem_filter]
  constructor
  · rintro h fc ⟨pos, hpos, hfc, hlong⟩ heq
    exact h pos hpos fc hfc hlong heq
  · exact fun h pos hpos fc hfc hlong heq => h fc ⟨pos, hpos, hfc, hlong⟩ heq

/-- **Index and search**: the signatures that are come to and match are those of the search exactly if no bucket that is
looked at has one that only matches with bytes behind the buffer. -/
theorem visited_perm_linearScan_iff (buffer : ℕ → UInt8) (bufferSize : ℕ) (registered : List (FileCheck F)) :
    (visited buffer bufferSize (indexOf registered)).filter (FileCheck.equals buffer) ~
        linearScan buffer bufferSize registered ↔
      StaysInside buffer bufferSize (indexOf registered) := by
  rw [staysInside_iff_visited]
  have hall := hits_registered buffer bufferSize registered
  constructor
  · intro hperm fc hfc heq
    have hmem := (hperm.trans hall.symm).mem_iff.mp (mem_filter.mpr ⟨hfc, heq⟩)
    exact (Bool.and_eq_true_iff.mp (mem_filter.mp hmem).2).1
  · intro hinside
    refine Perm.trans (Perm.of_eq (filter_congr fun fc hfc => ?_)) hall
    cases heq : fc.equals buffer with
    | true => rw [hinside fc hfc heq, Bool.and_self]
    | false => rw [Bool.and_false]

/-- Four bytes at the offset 510, of the signature file. -/
def lateCheck : FileCheck Unit := ⟨⟨510, [1, 2, 3, 4], ()⟩, ⟨none, true, false, .sig ()⟩⟩

/-- A sector that ends with the first two of them; the other two lie behind it. -/
def lateBuffer (i : ℕ) : UInt8 := if i = 510 then 1 else if i = 511 then 2 else if i = 512 then 3 else
  if i = 513 then 4 else 0

/-- The signature matches, and does not lie in the sector. -/
theorem late_not_perm : ¬ (visited lateBuffer 512 (indexOf [lateCheck])).filter (FileCheck.equals lateBuffer) ~
    linearScan lateBuffer 512 [lateCheck] := by
  intro h
  exact absurd h.length_eq (by decide)

end RecoveryQt.Signatures
