import RecoveryQt.Fat.DirectoryWalk

/-!
# Completeness of the FAT directory decoder

* `DirBuffer.AllKept`: the names of the live entries are listed as they are;
* `DirBuffer.walk`: the walk over the first records;
* `DirBuffer.Complete`: the walk comes to every live entry, and keeps its name;
* **`DirBuffer.lists_iff`**: exactly then the files that are listed as present are those of the directory.
-/

namespace RecoveryQt

open List StateTransition

/-! ## The records -/

theorem LiveEntry.length_records {bits : ℕ} (x : LiveEntry bits) : x.records.length = x.slots + 1 := by
  rw [records, length_append, length_map, length_reverse, length_range, length_singleton]

theorem LiveEntry.records_slot {bits : ℕ} (x : LiveEntry bits) {j : ℕ} (hj : j < x.slots) :
    x.records[x.slots - 1 - j]? = some (x.slotByte j) := by
  rw [records, getElem?_append_left (by rw [length_map, length_reverse, length_range]; omega), getElem?_map,
    getElem?_reverse (by rw [length_range]; omega), length_range, getElem?_range (by omega)]
  exact congrArg (fun i => some (x.slotByte i)) (by omega)

theorem LiveEntry.records_entry {bits : ℕ} (x : LiveEntry bits) : x.records[x.slots]? = some x.shortByte := by
  rw [records, getElem?_append_right (by rw [length_map, length_reverse, length_range]), length_map, length_reverse,
    length_range, Nat.sub_self]
  rfl

/-- No record of a live entry has the mark of a deleted one. -/
theorem LiveEntry.records_first {bits : ℕ} (x : LiveEntry bits) : ∀ record ∈ x.records, record 0 ≠ deletedFlag := by
  intro record hrecord
  rcases mem_append.mp hrecord with h | h
  · obtain ⟨j, hj, rfl⟩ := mem_map.mp h
    have hj := mem_range.mp (mem_reverse.mp hj)
    have hslots := x.slots_le
    obtain ⟨⟨-, -, hlast, -⟩, -, -, hflag, -⟩ := slot_number (n := j + 1) (by omega)
    show UInt8.ofNat (if j + 1 = x.slots then j + 1 + 0x40 else j + 1) ≠ deletedFlag
    split_ifs
    · exact hlast
    · exact hflag
  · obtain rfl := mem_singleton.mp h
    obtain ⟨c, l, hl, -, hflag, -⟩ := x.exists_stored
    show x.stored.getD 0 0x20 ≠ deletedFlag
    rw [hl]
    exact hflag

/-- The names that are kept leave `utf8` as it is. -/
theorem LiveEntry.listed_utf8 {bits : ℕ} {x : LiveEntry bits} {p : Prop} (h : x.Kept p) (utf8 : Bool) :
    (x.listed utf8).2 = utf8 := by
  unfold listed
  split_ifs
  · rfl
  · have hunits := x.units_eq h.1 h.2.1
    exact convert_utf8 x.units_lt (hunits ▸ h.2.2.1) utf8

theorem LiveEntry.filter_listed {bits : ℕ} (x : LiveEntry bits) (utf8 : Bool) :
    ((x.listed utf8).1.filter fun f => !f.deleted) = (x.listed utf8).1 := by
  unfold listed
  split_ifs <;> rfl

section Items

variable {bits : ℕ}

theorem dirRecords_append (l l' : List (DirItem bits)) : dirRecords (l ++ l') = dirRecords l ++ dirRecords l' :=
  flatMap_append

theorem dirRecords_live (l : List (DirItem bits)) (x : LiveEntry bits) :
    dirRecords (l ++ [.live x]) = dirRecords l ++ x.records := by
  rw [dirRecords_append]
  exact congrArg _ (append_nil _)

theorem dirRecords_deleted (l : List (DirItem bits)) (record : ℕ → UInt8) (h : record 0 = deletedFlag) :
    dirRecords (l ++ [.deleted record h]) = dirRecords l ++ [record] := dirRecords_append ..

theorem length_dirRecords_le {l l' : List (DirItem bits)} (h : l <+: l') :
    (dirRecords l).length ≤ (dirRecords l').length := by
  obtain ⟨r, rfl⟩ := h
  rw [dirRecords_append, length_append]
  exact Nat.le_add_right _ _

theorem liveEntries_append (l l' : List (DirItem bits)) : liveEntries (l ++ l') = liveEntries l ++ liveEntries l' :=
  filterMap_append

theorem mem_liveEntries {l : List (DirItem bits)} {x : LiveEntry bits} : x ∈ liveEntries l ↔ DirItem.live x ∈ l := by
  rw [liveEntries, mem_filterMap]
  constructor
  · rintro ⟨item, hitem, hx⟩
    cases item with
    | live y =>
      obtain rfl := Option.some.inj hx
      exact hitem
    | deleted record h => cases hx
  · exact fun h => ⟨.live x, h, rfl⟩

/-- A live entry is one of the first ones, or one behind them. -/
theorem live_of_append {l r before : List (DirItem bits)} {x : LiveEntry bits} (h : before ++ [.live x] <+: l ++ r) :
    before ++ [.live x] <+: l ∨ DirItem.live x ∈ r := by
  rcases prefix_or_prefix_of_prefix h (prefix_append l r) with h' | h'
  · exact Or.inl h'
  · rcases prefix_concat_iff.mp h' with rfl | h'
    · exact Or.inl (prefix_refl _)
    · obtain ⟨z, rfl⟩ := h'
      rw [append_assoc, prefix_append_right_inj] at h
      exact Or.inr (h.subset (mem_append_right _ mem_cons_self))

/-- A record with the mark of a deleted entry is one between the live entries. -/
theorem exists_deleted {items : List (DirItem bits)} {e : ℕ} {record : ℕ → UInt8}
    (h : (dirRecords items)[e]? = some record) (hflag : record 0 = deletedFlag) :
    ∃ before, before ++ [.deleted record hflag] <+: items ∧ (dirRecords before).length = e := by
  induction items using reverseRecOn with
  | nil => cases h
  | append_singleton items item ih =>
    by_cases he : e < (dirRecords items).length
    · rw [dirRecords_append, getElem?_append_left he] at h
      obtain ⟨before, hbefore, hlength⟩ := ih h
      exact ⟨before, hbefore.trans (prefix_append _ _), hlength⟩
    cases item with
    | live x =>
      rw [dirRecords_live, getElem?_append_right (not_lt.mp he)] at h
      exact absurd hflag (x.records_first record (mem_of_getElem? h))
    | deleted record' hflag' =>
      rw [dirRecords_deleted, getElem?_append_right (not_lt.mp he)] at h
      obtain ⟨hzero, hrecord⟩ := List.getElem?_eq_some_iff.mp h
      obtain rfl : record' = record := by rwa [getElem_singleton] at hrecord
      rw [length_singleton] at hzero
      exact ⟨items, prefix_refl _, by omega⟩

end Items

namespace DirBuffer

/-! ## The walk over the first records -/

variable (b : DirBuffer) (param : DirParam)

/-- The names of all live entries are listed as they are. -/
def AllKept (items : List (DirItem param.bits)) : Prop :=
  ∀ before x, before ++ [.live x] <+: items →
    x.Kept (∀ e < (dirRecords before).length, ¬ b.Clears param e)

/-- What is known of the list and of `utf8` behind some records. -/
structure Walked (items : List (DirItem param.bits)) (m : DirState) : Prop where
  between : b.Between param (dirRecords items).length m
  length : (m.list.filter fun f => !f.deleted).length ≤ (liveEntries items).length
  list : (m.list.filter fun f => !f.deleted) = (liveEntries items).map LiveEntry.file ↔ b.AllKept param items
  utf8 : b.AllKept param items → (m.utf8 = true ↔ ∀ e < (dirRecords items).length, ¬ b.Clears param e)

variable {b param}

theorem allKept_live {items : List (DirItem param.bits)} {x : LiveEntry param.bits} :
    b.AllKept param (items ++ [.live x]) ↔
      b.AllKept param items ∧ x.Kept (∀ e < (dirRecords items).length, ¬ b.Clears param e) := by
  constructor
  · exact fun h => ⟨fun before y hy => h before y (hy.trans (prefix_append _ _)), h items x (prefix_refl _)⟩
  · rintro ⟨h, hx⟩ before y hy
    rcases prefix_concat_iff.mp hy with heq | hy
    · obtain ⟨rfl, hlast⟩ := append_inj' heq rfl
      obtain rfl := DirItem.live.inj (List.cons.inj hlast).1
      exact hx
    · exact h before y hy

theorem allKept_deleted {items : List (DirItem param.bits)} {record : ℕ → UInt8} {hflag : record 0 = deletedFlag} :
    b.AllKept param (items ++ [.deleted record hflag]) ↔ b.AllKept param items := by
  constructor
  · exact fun h before y hy => h before y (hy.trans (prefix_append _ _))
  · intro h before y hy
    rcases prefix_concat_iff.mp hy with heq | hy
    · cases (List.cons.inj (append_inj' heq rfl).2).1
    · exact h before y hy

/-- Records that are not deleted have no deleted name. -/
theorem not_clears {k : ℕ} (h : b.id k ≠ deletedFlag) : ¬ b.Clears param k ∧ ¬ b.Stops param k := by
  have hname : ∀ unicode, ¬ b.HasDeletedName param k unicode := by
    rintro unicode ⟨initial, n, rfl, hname, -⟩
    exact h hname.run.deleted
  exact ⟨(quiet_of_not hname).2, (quiet_of_not hname).1⟩

/-- A live entry is listed as it is, if its name is kept. -/
theorem Walked.live {items : List (DirItem param.bits)} {m m' : DirState} (h : b.Walked param items m)
    {x : LiveEntry param.bits} (hlist : m'.list = m.list ++ (x.listed m.utf8).1) (hutf8 : m'.utf8 = (x.listed m.utf8).2)
    (hbetween : b.Between param ((dirRecords items).length + x.slots + 1) m')
    (hlive : ∀ e, (dirRecords items).length ≤ e → e < (dirRecords items).length + x.slots + 1 → ¬ b.Clears param e) :
    b.Walked param (items ++ [.live x]) m' := by
  have hlength : (dirRecords (items ++ [.live x])).length = (dirRecords items).length + x.slots + 1 := by
    rw [dirRecords_live, length_append, x.length_records]
    rfl
  have hentries : liveEntries (items ++ [.live x]) = liveEntries items ++ [x] := liveEntries_append ..
  have hfilter : (m'.list.filter fun f => !f.deleted) =
      (m.list.filter fun f => !f.deleted) ++ (x.listed m.utf8).1 := by
    rw [hlist, filter_append, x.filter_listed]
  have hone := x.length_listed_le m.utf8
  have hmany := h.length
  refine ⟨hlength ▸ hbetween, ?_, ?_, fun hkept => ?_⟩
  · rw [hfilter, hentries, length_append, length_append, length_singleton]
    omega
  · rw [hfilter, hentries, map_append, map_singleton, allKept_live]
    constructor
    · intro heq
      have hsum := congrArg List.length heq
      rw [length_append, length_append, length_map, length_singleton] at hsum
      obtain ⟨hbefore, hfile⟩ := append_inj heq (by rw [length_map]; omega)
      have hkept := h.list.mp hbefore
      have hx := (x.listed_eq_iff m.utf8).mp hfile
      rw [h.utf8 hkept] at hx
      exact ⟨hkept, hx⟩
    · rintro ⟨hkept, hx⟩
      rw [← h.utf8 hkept] at hx
      rw [h.list.mpr hkept, (x.listed_eq_iff m.utf8).mpr hx]
  · obtain ⟨hkept, hx⟩ := allKept_live.mp hkept
    rw [hutf8, LiveEntry.listed_utf8 hx, h.utf8 hkept, hlength]
    constructor
    · intro hclears e he
      by_cases hlt : e < (dirRecords items).length
      · exact hclears e hlt
      · exact hlive e (not_lt.mp hlt) he
    · exact fun hclears e he => hclears e (by omega)

/-- A deleted record adds no file that is present. -/
theorem Walked.deleted {items : List (DirItem param.bits)} {m m' : DirState} (h : b.Walked param items m)
    {record : ℕ → UInt8} {hflag : record 0 = deletedFlag}
    (hlist : (m'.list.filter fun f => !f.deleted) = m.list.filter fun f => !f.deleted)
    (hbetween : b.Between param ((dirRecords items).length + 1) m')
    (hutf8 : m'.utf8 = true ↔ m.utf8 = true ∧ ¬ b.Clears param (dirRecords items).length) :
    b.Walked param (items ++ [.deleted record hflag]) m' := by
  have hlength : (dirRecords (items ++ [.deleted record hflag])).length = (dirRecords items).length + 1 := by
    rw [dirRecords_deleted, length_append, length_singleton]
  have hentries : liveEntries (items ++ [.deleted record hflag]) = liveEntries items := by
    rw [liveEntries_append]
    exact append_nil _
  refine ⟨hlength ▸ hbetween, ?_, ?_, fun hkept => ?_⟩
  · rw [hlist, hentries]
    exact h.length
  · rw [hlist, hentries, allKept_deleted]
    exact h.list
  · rw [hutf8, h.utf8 (allKept_deleted.mp hkept), hlength]
    constructor
    · rintro ⟨hclears, hlast⟩ e he
      rcases Nat.lt_succ_iff_lt_or_eq.mp he with hlt | rfl
      · exact hclears e hlt
      · exact hlast
    · exact fun hclears => ⟨fun e he => hclears e (by omega), hclears _ (Nat.lt_succ_self _)⟩

/-- The records of a live entry are in the buffer. -/
theorem Encodes.holdsLive {items before : List (DirItem param.bits)} {x : LiveEntry param.bits} (h : b.Encodes items)
    (hx : before ++ [.live x] <+: items) : b.HoldsLive (dirRecords before).length x := by
  obtain ⟨after, rfl⟩ := hx
  have hinside := h.inside
  rw [dirRecords_append, length_append, dirRecords_live, length_append, x.length_records] at hinside
  have hget : ∀ i record, x.records[i]? = some record → b.Holds ((dirRecords before).length + i) record := by
    intro i record hi
    refine h.holds _ record ?_
    have hlt := (List.getElem?_eq_some_iff.mp hi).1
    rw [dirRecords_append, dirRecords_live, getElem?_append_left (by rw [length_append]; omega),
      getElem?_append_right (Nat.le_add_right _ _), Nat.add_sub_cancel_left]
    exact hi
  exact ⟨fun j hj => hget _ _ (x.records_slot hj), hget _ _ x.records_entry, by omega⟩

/-- So is a deleted record. -/
theorem Encodes.id_deleted {items before : List (DirItem param.bits)} {record : ℕ → UInt8}
    {hflag : record 0 = deletedFlag} (h : b.Encodes items) (hx : before ++ [.deleted record hflag] <+: items) :
    b.id (dirRecords before).length = deletedFlag ∧ 32 * ((dirRecords before).length + 1) ≤ b.size := by
  obtain ⟨after, rfl⟩ := hx
  have hinside := h.inside
  rw [dirRecords_append, length_append, dirRecords_deleted, length_append, length_singleton] at hinside
  refine ⟨(h.holds _ record ?_ 0 (by decide)).trans hflag, by omega⟩
  rw [dirRecords_append, dirRecords_deleted, getElem?_append_left (by rw [length_append]; exact Nat.lt_succ_self _),
    getElem?_append_right (le_refl _), Nat.sub_self]
  rfl

/-- No record of a live entry has the mark of a deleted one. -/
theorem HoldsLive.id_ne_deleted {k e : ℕ} {x : LiveEntry param.bits} (h : b.HoldsLive k x) (hk : k ≤ e)
    (he : e < k + x.slots + 1) : b.id e ≠ deletedFlag := by
  rcases Nat.lt_succ_iff_lt_or_eq.mp he with hlt | rfl
  · have hslot := h.slot (x.slots - 1 - (e - k)) (by omega)
    rw [show k + (x.slots - 1 - (x.slots - 1 - (e - k))) = e by omega] at hslot
    exact (LiveEntry.slot_id (by omega) hslot).2.2.1
  · exact (LiveEntry.id_of_holds h.entry).2

variable (b param) in
/-- The walk comes to an entry of the directory: it does not stop before. -/
def Comes (items : List (DirItem param.bits)) (e : ℕ) : Prop :=
  e < (dirRecords items).length ∧ ∀ e' < e, ¬ b.Stops param e'

/-- **The walk over the first records**, if it does not stop at one of them. -/
theorem walk {items before : List (DirItem param.bits)} (h : b.Encodes items) (hbefore : before <+: items)
    (hgo : ∀ e < (dirRecords before).length, ¬ b.Stops param e) (unicode : ℕ → ℕ) :
    ∃ m, ReachesBy (b.step param) (b.Tracked param (b.Comes param items)) (start unicode) m ∧
      b.Walked param before m := by
  induction before using reverseRecOn with
  | nil =>
    refine ⟨start unicode, .refl, ⟨rfl, Or.inl rfl, fun _ e he => absurd he (Nat.succ_ne_zero e).symm⟩,
      Nat.zero_le _, iff_of_true rfl ?_, fun _ => iff_of_true rfl fun e he => absurd he (Nat.not_lt_zero e)⟩
    intro before x hx
    exact absurd (prefix_nil.mp hx) (by simp)
  | append_singleton before item ih =>
    have hprefix : before <+: items := (prefix_append _ _).trans hbefore
    have hlength := dirRecords_append before [item]
    obtain ⟨m, hreach, hwalked⟩ := ih hprefix fun e he => hgo e (by rw [hlength, length_append]; omega)
    cases item with
    | live x =>
      have hx := h.holdsLive hbefore
      obtain ⟨m', hreach', hlist, hutf8, hbetween⟩ := reaches_live (E := b.Comes param items) hx hwalked.between
      exact ⟨m', hreach.trans hreach', hwalked.live hlist hutf8 hbetween fun e hle hlt =>
        (not_clears (hx.id_ne_deleted hle hlt)).1⟩
    | deleted record hflag =>
      obtain ⟨hid, hin⟩ := h.id_deleted hbefore
      have hlt : (dirRecords before).length < (dirRecords (before ++ [.deleted record hflag])).length := by
        rw [dirRecords_deleted, length_append]
        exact Nat.lt_succ_self _
      have hcomes : b.Comes param items (dirRecords before).length := by
        obtain ⟨after, rfl⟩ := hbefore
        refine ⟨?_, fun e he => hgo e (by omega)⟩
        rw [dirRecords_append, length_append]
        omega
      obtain ⟨m', hreach', hlist, hend⟩ := reaches_deleted (E := b.Comes param items) hwalked.between hid hin hcomes
      rcases hend with ⟨hstops, -⟩ | ⟨-, hbetween, hutf8⟩
      · exact absurd hstops (hgo _ hlt)
      · exact ⟨m', hreach.trans hreach', hwalked.deleted hlist hbetween hutf8⟩

/-! ## The end of the directory -/

/-- At an entry of zeros the function returns. -/
theorem reaches_zero {k : ℕ} (hzero : ∀ o < 32, b.byte k o = 0) {E : ℕ → Prop} {m : DirState}
    (hgoto : m.goto = .getNew) (hde : m.de = k) :
    ∃ m', ReachesBy (b.step param) (b.Tracked param E) m m' ∧ m'.goto = .done ∧ m'.list = m.list := by
  have hattr : b.attr k = 0 := hzero 11 (by decide)
  have hname : ∃ l, b.shortUnits k = 0 :: l := by
    have hcons : b.name k = 0 :: (b.name k).tail := by
      rw [← hzero 0 (by decide)]
      rfl
    rw [shortUnits, hcons, takeWhile_cons_of_pos (by decide), cons_append, map_cons]
    exact ⟨_, rfl⟩
  obtain ⟨l, hl⟩ := hname
  have hnext : (b.pass param m).next = { m with
      goto := .recEnd, longSlots := 0, deleted := false, unicode := Function.update m.unicode 0 0 } := by
    unfold pass
    simp only [hgoto, hde, hattr, show (0 : UInt8) ≠ attrExt by decide, if_false]
  obtain ⟨hwritten, -⟩ := writeUnits_name (Function.update m.unicode 0 0) (b.shortUnits k)
  have hfirst : writeUnits (Function.update m.unicode 0 0) 0 (b.shortUnits k ++ [0]) 0 = 0 := by
    rw [hwritten 0 (by rw [hl]; exact Nat.succ_pos _)]
    simp only [hl, getElem_cons_zero]
  have hnamed : b.named param (b.pass param m).next = { (b.pass param m).next with
      unicode := writeUnits (Function.update m.unicode 0 0) 0 (b.shortUnits k ++ [0]) } := by
    rw [hnext, named, if_pos ⟨rfl, by rw [hde, hattr]; decide⟩]
    simp only [hde, hfirst, show (0 : ℕ) ≠ deletedFlag.toNat by decide, false_and, if_false]
  have hfile : b.isFile (b.named param (b.pass param m).next) ∧
      (b.named param (b.pass param m).next).unicode 0 = 0 := by
    refine ⟨?_, by rw [hnamed]; exact hfirst⟩
    rw [hnamed, hnext]
    simp [isFile, hde, hattr, attrExt, attrVolume]
  have hlast : (b.pass param (b.pass param m).next).next =
      { b.named param (b.pass param m).next with goto := .done } := by
    have hgoto' : (b.pass param m).next.goto = .recEnd := by rw [hnext]
    rw [pass]
    simp only [hgoto', if_pos hfile]
  refine ⟨_, reachesBy_recEnd (by rw [hgoto]; decide)
    (tracked_of_ne fun _ _ h => by rw [hgoto] at h; cases h) rfl (by rw [hnext]), ?_⟩
  rw [hlast, hnamed, hnext]
  exact ⟨rfl, rfl⟩

/-- Behind the records the function returns. -/
theorem reaches_end {items : List (DirItem param.bits)} (h : b.Encodes items) {E : ℕ → Prop} {m : DirState}
    (hbetween : b.Between param (dirRecords items).length m) :
    ∃ m', ReachesBy (b.step param) (b.Tracked param E) m m' ∧ m'.goto = .done ∧ m'.list = m.list := by
  have hpos := h.pos
  unfold Between at hbetween
  cases hgoto : m.goto with
  | getNew =>
    rw [hgoto] at hbetween
    obtain ⟨hde, hmore, -⟩ := hbetween
    rcases h.tail with hend | hzero
    · -- there is another entry
      rcases hmore with h0 | hmore
      · omega
      · simp only [more, decide_eq_true_eq] at hmore
        omega
    · exact reaches_zero hzero hgoto hde
  | deletedSlot initial sum =>
    rw [hgoto] at hbetween
    obtain ⟨hde, -⟩ := hbetween
    have hne : m.goto ≠ .done := by
      rw [hgoto]
      exact fun hx => DirGoto.noConfusion hx
    have htracked : b.Tracked param E m := tracked_of_ne fun _ _ hx => by rw [hgoto] at hx; cases hx
    by_cases hpast : b.past (dirRecords items).length = true
    · have hnext : (b.pass param m).next = { m with goto := .done } := by
        unfold pass
        simp only [hgoto, hde, hpast, if_true]
      exact ⟨_, reachesBy_step hne htracked hnext, rfl, rfl⟩
    · rcases h.tail with hend | hzero
      · exact absurd (decide_eq_true (le_of_eq hend)) hpast
      · have hid : b.id (dirRecords items).length ≠ deletedFlag := by
          rw [show b.id (dirRecords items).length = 0 from hzero 0 (by decide)]
          decide
        have hnext : (b.pass param m).next = { m with goto := .getNew } := by
          unfold pass
          simp only [hgoto, hde, hpast, hid, ne_eq, not_false_iff, if_true, if_false, Bool.false_eq_true]
        obtain ⟨m', hreach, hdone, hlist⟩ := reaches_zero (E := E) hzero
          (show (b.pass param m).next.goto = .getNew by rw [hnext]) (by rw [hnext]; exact hde)
        rw [hnext] at hlist
        exact ⟨m', (reachesBy_step hne htracked rfl).trans hreach, hdone, hlist⟩
  | done => exact ⟨m, .refl, hgoto, rfl⟩
  | _ =>
    rw [hgoto] at hbetween
    exact hbetween.elim

/-! ## The whole directory -/

variable (b param) in
/-- The walk comes to every live entry, and keeps its name. -/
def Complete (items : List (DirItem param.bits)) : Prop :=
  ∀ before x, before ++ [.live x] <+: items →
    (∀ e < (dirRecords before).length, ¬ b.Stops param e) ∧
      x.Kept (∀ e < (dirRecords before).length, ¬ b.Clears param e)

/-- Where the walk stops there must be no live entry left. -/
theorem stopped_iff {items before : List (DirItem param.bits)} {record : ℕ → UInt8} {hflag : record 0 = deletedFlag}
    (hdeleted : before ++ [.deleted record hflag] <+: items) (hstops : b.Stops param (dirRecords before).length)
    (hbefore : ∀ e < (dirRecords before).length, ¬ b.Stops param e) {m : DirState} (hwalked : b.Walked param before m) :
    (m.list.filter fun f => !f.deleted) = (liveEntries items).map LiveEntry.file ↔ b.Complete param items := by
  obtain ⟨after, rfl⟩ := hdeleted
  have hentries : liveEntries (before ++ [.deleted record hflag] ++ after) =
      liveEntries before ++ liveEntries after := by
    rw [liveEntries_append, liveEntries_append]
    exact congrArg (· ++ _) (append_nil _)
  rw [hentries, map_append]
  have hmany := hwalked.length
  constructor
  · intro heq y x hx
    have hsum := congrArg List.length heq
    rw [length_append, length_map, length_map] at hsum
    have hnil : liveEntries after = [] := length_eq_zero_iff.mp (by omega)
    rw [hnil, map_nil, append_nil] at heq
    have hkept := hwalked.list.mp heq
    -- a live entry is one of those before
    rw [append_assoc] at hx
    rcases live_of_append hx with hx | hx
    · have hle := length_dirRecords_le ((prefix_append y [.live x]).trans hx)
      exact ⟨fun e he => hbefore e (by omega), hkept y x hx⟩
    · rcases mem_append.mp hx with hx | hx
      · cases mem_singleton.mp hx
      · exact absurd (mem_liveEntries.mpr hx) (hnil ▸ not_mem_nil)
  · intro hcomplete
    have hnil : liveEntries after = [] := by
      refine eq_nil_iff_forall_not_mem.mpr fun x hx => ?_
      obtain ⟨s, t, rfl⟩ := append_of_mem (mem_liveEntries.mp hx)
      have hlive := hcomplete (before ++ [.deleted record hflag] ++ s) x ⟨t, by simp⟩
      refine hlive.1 _ ?_ hstops
      rw [dirRecords_append, dirRecords_deleted, length_append, length_append, length_singleton]
      omega
    rw [hnil, map_nil, append_nil]
    refine hwalked.list.mpr fun y x hx => (hcomplete y x ?_).2
    exact hx.trans ((prefix_append _ _).trans (prefix_append _ _))

/-- The function returns, and lists the live entries exactly if the walk is complete. -/
theorem reaches_done {items : List (DirItem param.bits)} (h : b.Encodes items) (unicode : ℕ → ℕ) :
    ∃ m, ReachesBy (b.step param) (b.Tracked param (b.Comes param items)) (start unicode) m ∧ m.goto = .done ∧
      ((m.list.filter fun f => !f.deleted) = (liveEntries items).map LiveEntry.file ↔ b.Complete param items) := by
  by_cases hgo : ∀ e < (dirRecords items).length, ¬ b.Stops param e
  · obtain ⟨m, hreach, hwalked⟩ := walk h (prefix_refl items) hgo unicode
    obtain ⟨m', hreach', hdone, hlist⟩ := reaches_end (E := b.Comes param items) h hwalked.between
    refine ⟨m', hreach.trans hreach', hdone, ?_⟩
    rw [hlist, hwalked.list]
    refine ⟨fun hkept before x hx => ⟨fun e he => hgo e ?_, hkept before x hx⟩,
      fun hcomplete before x hx => (hcomplete before x hx).2⟩
    have hle := length_dirRecords_le ((prefix_append before [.live x]).trans hx)
    omega
  · -- the first record at which the walk stops
    have hex : ∃ e, e < (dirRecords items).length ∧ b.Stops param e := by
      simpa only [not_forall, not_not, exists_prop] using hgo
    obtain ⟨e, ⟨he, hstops⟩, hmin⟩ : ∃ e, (e < (dirRecords items).length ∧ b.Stops param e) ∧
        ∀ e' < e, ¬ (e' < (dirRecords items).length ∧ b.Stops param e') := by
      classical exact ⟨Nat.find hex, Nat.find_spec hex, fun e' he' => Nat.find_min hex he'⟩
    have hbefore : ∀ e' < e, ¬ b.Stops param e' := fun e' he' hs => hmin e' he' ⟨by omega, hs⟩
    have hid : (dirRecords items)[e] 0 = deletedFlag := by
      obtain ⟨unicode', ⟨initial, n, hn, hname, -⟩, -⟩ := hstops
      exact (h.holds e _ (getElem?_eq_getElem he) 0 (by decide)).symm.trans (hn ▸ hname.run.deleted)
    obtain ⟨before, hdeleted, rfl⟩ := exists_deleted (getElem?_eq_getElem he) hid
    obtain ⟨m, hreach, hwalked⟩ := walk h ((prefix_append _ _).trans hdeleted) hbefore unicode
    obtain ⟨hflag, hin⟩ := h.id_deleted hdeleted
    obtain ⟨m', hreach', hlist, hend⟩ :=
      reaches_deleted (E := b.Comes param items) hwalked.between hflag hin ⟨he, hbefore⟩
    rcases hend with ⟨-, hdone⟩ | ⟨hnot, -⟩
    · refine ⟨m', hreach.trans hreach', hdone, ?_⟩
      rw [hlist]
      exact stopped_iff hdeleted hstops hbefore hwalked
    · exact absurd hstops hnot

/-- **What the decoder lists**, where it stays in its arrays. -/
theorem lists_iff_complete {items : List (DirItem param.bits)} (h : b.Encodes items) :
    b.Lists param items ↔ b.InBounds param ∧ b.Complete param items := by
  refine and_congr_right fun _ => ⟨fun hlists => ?_, fun hcomplete unicode => ?_⟩
  · obtain ⟨m, hreach, hdone, hlist⟩ := hlists fun _ => 0
    obtain ⟨m', hreach', hdone', hiff⟩ := reaches_done h fun _ => 0
    obtain rfl := last_unique hreach hreach'.reaches (if_pos hdone) (if_pos hdone')
    exact hiff.mp hlist
  · obtain ⟨m, hreach, hdone, hiff⟩ := reaches_done h unicode
    exact ⟨m, hreach.reaches, hdone, hiff.mpr hcomplete⟩

/-- In front of an entry with a deleted name the slots of it are counted. -/
theorem Between.longSlots {m : DirState} {initial n : ℕ} (h : b.Between param (initial + n) m)
    (hname : b.DeletedName param initial n) (hn : 0 < n) (hne : m.goto ≠ .done) :
    m.de = initial + n ∧ m.longSlots = n % 256 ∧ m.goto = .deletedSlot initial (b.aliasChecksum initial) := by
  unfold Between at h
  cases hgoto : m.goto with
  | getNew =>
    rw [hgoto] at h
    obtain ⟨hid, hattr, -⟩ := hname.run.slots (n - 1) (by omega)
    exact absurd hattr (h.2.2 hname.shown (initial + (n - 1)) (by omega) hid)
  | deletedSlot initial' sum =>
    rw [hgoto] at h
    obtain ⟨hde, -, n', hk, hn', hlong, rfl, hslots, hfirst⟩ := h
    obtain ⟨rfl, rfl⟩ := slots_unique hname.run.slots hname.first hn hslots hfirst hn' hk
    exact ⟨hde, hlong, rfl⟩
  | done => exact absurd hgoto hne
  | _ =>
    rw [hgoto] at h
    exact h.elim

/-- **It stays in its arrays** exactly if no deleted name that it comes to has too many slots. -/
theorem inBounds_iff_names {items : List (DirItem param.bits)} (h : b.Encodes items) : b.InBounds param ↔
    ∀ initial n, b.DeletedName param initial n → b.Comes param items (initial + n) → n % 256 ≤ 76 := by
  rw [inBounds_iff_of_entries param h.pos h.entries, ← fits_iff]
  constructor
  · intro hfits initial n hname ⟨hlt, hgo⟩
    by_cases hn : n = 0
    · rw [hn]
      exact Nat.zero_le _
    have hid : (dirRecords items)[initial + n] 0 = deletedFlag :=
      (h.holds _ _ (getElem?_eq_getElem hlt) 0 (by decide)).symm.trans hname.run.deleted
    obtain ⟨before, hdeleted, hlength⟩ := exists_deleted (getElem?_eq_getElem hlt) hid
    rw [← hlength] at hgo
    obtain ⟨m, hreach, hwalked⟩ := walk h ((prefix_append _ _).trans hdeleted) hgo fun _ => 0
    obtain ⟨hflag, hin⟩ := h.id_deleted hdeleted
    have hbetween := hwalked.between
    have hne := hbetween.goto_ne (more_of_record (by rw [hflag]; decide) hin)
    rw [hlength] at hbetween hin
    obtain ⟨hde, hlong, hgoto⟩ := hbetween.longSlots hname (Nat.pos_of_ne_zero hn) hne
    have hnext : (b.pass param m).next =
        { m with goto := .parseLongDeletedNext initial (b.aliasChecksum initial) } := by
      unfold pass
      simp only [hgoto, hde, past_of_record hin, hname.run.deleted, hname.run.entry, ne_eq, not_true_eq_false,
        not_false_iff, if_true, if_false, Bool.false_eq_true]
    have hreached := Reached.next ⟨_, hreach.reaches⟩ hne
    rw [hnext] at hreached
    have hvol : b.attr m.de &&& attrVolume = 0 := by
      rw [hde]
      exact hname.run.file
    have hle := hfits _ hreached initial (b.aliasChecksum initial) rfl hvol
    rw [← hlong]
    exact hle
  · intro hnames m ⟨unicode, hm⟩ initial sum hgoto hvol
    obtain ⟨last, hreach, hdone, -⟩ := reaches_done h unicode
    have htracked := hreach.of_reaches (if_pos hdone) (tracked_of_ne fun _ _ hx => by rw [hdone] at hx; cases hx) hm
    obtain ⟨hcomes, hparam, hfirst⟩ := htracked initial sum hgoto
    have hinv := inv_of_reached ⟨unicode, hm⟩
    unfold Inv at hinv
    rw [hgoto] at hinv
    obtain ⟨n, hde, hlong, hslots, hin, hid, hattr, -⟩ := hinv
    rw [hde] at hcomes hin hid hattr hvol
    rw [hlong]
    exact hnames initial n ⟨hparam, ⟨hslots, hin, hid, hattr, hvol⟩, hfirst⟩ hcomes

/-! ## Directories -/

/-- The buffer of some records, with an entry of zeros behind them. -/
def ofItems {bits : ℕ} (items : List (DirItem bits)) : DirBuffer where
  content i := (dirRecords items).getD (i / 32) (fun _ => 0) (i % 32)
  size := 32 * ((dirRecords items).length + 1)

theorem encodes_ofItems {bits : ℕ} (items : List (DirItem bits)) : (ofItems items).Encodes items := by
  have hbyte : ∀ i, ∀ o < 32, (ofItems items).byte i o = (dirRecords items).getD i (fun _ => 0) o := by
    intro i o ho
    show (dirRecords items).getD ((32 * i + o) / 32) _ ((32 * i + o) % 32) = _
    rw [show (32 * i + o) / 32 = i by omega, show (32 * i + o) % 32 = o by omega]
  refine ⟨Nat.mul_pos (by decide) (Nat.succ_pos _), dvd_mul_right _ _, Nat.mul_le_mul_left _ (Nat.le_succ _),
    fun i record hi o ho => ?_, Or.inr fun o ho => ?_⟩
  · rw [hbyte i o ho, getD_eq_getElem?_getD, hi]
    rfl
  · rw [hbyte _ o ho, getD_eq_default _ _ (le_refl _)]

/-- `A.TXT`, with a long name or without one. -/
def shortFile (long : List UInt16) (hlength : long.length ≤ 255) (hunits : ∀ u ∈ long, u ≠ 0) : LiveEntry 28 where
  base := [0x41]
  ext := [0x54, 0x58, 0x54]
  attr := 0x20
  other _ := 0
  cluster := 5
  reserved := 0
  time := 0
  date := 0x21
  size := 7
  long := long
  base_ne := by decide
  base_length := by decide
  ext_length := by decide
  base_chars := by simp
  base_first := by simp
  base_last := by decide
  ext_chars := by simp
  ext_last := by decide
  attr_file := by decide
  cluster_lt := by decide
  start_lt := by decide
  long_length := hlength
  long_units := hunits

variable (b param) in
/-- **Completeness of the directory decoder**: it lists the live entries, each once and in order, with their names,
clusters, sizes and attributes, exactly if no deleted name that it comes to has too many slots, no deleted name in
front of a live entry is empty, and the name of every live entry is kept: it does not begin with U+00E5, holds no
blank if it is an 8.3 name, holds no half of a character, and is one of ASCII if a deleted name in front of it
clears `utf8`. -/
theorem lists_iff {items : List (DirItem param.bits)} (h : b.Encodes items) : b.Lists param items ↔
    (∀ initial n, b.DeletedName param initial n → b.Comes param items (initial + n) → n % 256 ≤ 76) ∧
      ∀ before x, before ++ [.live x] <+: items →
        (∀ e < (dirRecords before).length, ¬ b.Stops param e) ∧
          x.Kept (∀ e < (dirRecords before).length, ¬ b.Clears param e) := by
  rw [lists_iff_complete h, inBounds_iff_names h]
  rfl

/-- A deleted entry, and a file with the long name `aé`. -/
def mixedItems : List (DirItem 28) :=
  [.deleted (fun _ => 0xE5) rfl, .live (shortFile [0x61, 0xE9] (by decide) (by simp))]

/-- It is listed. -/
theorem mixed_lists : (ofItems mixedItems).Lists ⟨true, false, false⟩ mixedItems := by
  refine (lists_iff _ ⟨true, false, false⟩ (encodes_ofItems mixedItems)).mpr ⟨?_, ?_⟩
  · intro initial n _ hcomes
    have hlt : initial + n < 3 := hcomes.1
    omega
  · intro before x hx
    -- there are no slots in front of the deleted entry
    have hquiet : ∀ e < 1, ∀ unicode, ¬ (ofItems mixedItems).HasDeletedName ⟨true, false, false⟩ e unicode := by
      rintro e he unicode ⟨initial, n, rfl, -, hn, -⟩
      omega
    rcases prefix_concat_iff.mp (show before ++ [.live x] <+: [.deleted (fun _ => 0xE5) rfl] ++ [_] from hx) with
      heq | hx
    · obtain ⟨rfl, hlast⟩ := append_inj' heq rfl
      obtain rfl := DirItem.live.inj (List.cons.inj hlast).1
      refine ⟨fun e he => (quiet_of_not (hquiet e he)).1, by decide, by decide, by decide, Or.inl fun e he => ?_⟩
      exact (quiet_of_not (hquiet e he)).2
    · rcases prefix_concat_iff.mp (show before ++ [.live x] <+: [] ++ [_] from hx) with heq | hx
      · cases (List.cons.inj (append_inj' heq rfl).2).1
      · exact absurd (prefix_nil.mp hx) (by simp)

/-- A file with the long name `å`. -/
def ringItems : List (DirItem 28) := [.live (shortFile [0xE5] (by decide) (by simp))]

/-- It is not listed. -/
theorem ring_not_lists : (ofItems ringItems).Encodes ringItems ∧
    ¬ (ofItems ringItems).Lists ⟨true, false, false⟩ ringItems := by
  have hencodes := encodes_ofItems ringItems
  refine ⟨hencodes, fun hlists => ?_⟩
  have hcomplete : (ofItems ringItems).Complete ⟨true, false, false⟩ ringItems :=
    ((lists_iff_complete hencodes).mp hlists).2
  exact (hcomplete [] _ (prefix_refl _)).2.1 rfl

end DirBuffer

end RecoveryQt
