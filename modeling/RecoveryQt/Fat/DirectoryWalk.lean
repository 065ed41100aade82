import RecoveryQt.Fat.DirectoryListing

/-!
# The walk over a FAT directory

What `dir_fat_aux` does with the records of a directory, one after the other.

* `DirBuffer.DeletedName`: all the deleted slots in front of a deleted entry;
* `DirBuffer.Stops`, `DirBuffer.Clears`: deleted names at which the function returns, or clears `utf8`;
* `DirBuffer.Between`: where the walk stands between two records;
* `DirBuffer.reaches_live`, `DirBuffer.reaches_deleted`: the walk over a live entry and a deleted one.
-/

namespace RecoveryQt

open List StateTransition

/-! ## Units that are written -/

theorem writeUnits_inside {unicode : ℕ → ℕ} {offset i : ℕ} {l : List ℕ} (hi : i < l.length) :
    writeUnits unicode offset l (offset + i) = l[i] := by
  rw [writeUnits, if_pos (Nat.le_add_right _ _), Nat.add_sub_cancel_left, getD_eq_getElem _ _ hi]

theorem writeUnits_outside {unicode : ℕ → ℕ} {offset i : ℕ} {l : List ℕ}
    (hi : i < offset ∨ offset + l.length ≤ i) : writeUnits unicode offset l i = unicode i := by
  rw [writeUnits]
  split_ifs
  · exact getD_eq_default _ _ (by omega)
  · rfl

/-- A name and the zero behind it. -/
theorem writeUnits_name (unicode : ℕ → ℕ) (l : List ℕ) :
    (∀ i (hi : i < l.length), writeUnits unicode 0 (l ++ [0]) i = l[i]) ∧
      writeUnits unicode 0 (l ++ [0]) l.length = 0 := by
  have hinside : ∀ i (hi : i < (l ++ [0]).length), writeUnits unicode 0 (l ++ [0]) i = (l ++ [0])[i] := fun i hi => by
    have h : writeUnits unicode 0 (l ++ [0]) (0 + i) = (l ++ [0])[i] := writeUnits_inside hi
    rwa [Nat.zero_add] at h
  have hlength : (l ++ [0]).length = l.length + 1 := length_append
  refine ⟨fun i hi => ?_, ?_⟩
  · rw [hinside i (by omega), getElem_append_left hi]
  · rw [hinside l.length (by omega), getElem_concat_length rfl]

/-! ## Names that are converted -/

/-- `utf8` is not set again. -/
theorem nameBytes_false (unicode : ℕ → ℕ) (n i : ℕ) (out : List UInt8) :
    (nameBytes unicode n i false out).2 = false := by
  induction n generalizing i out with
  | zero => rfl
  | succ n ih =>
    rw [nameBytes]
    split_ifs with h hutf8
    · exact absurd hutf8.1 (by decide)
    · exact ih _ _
    · rfl

/-- The units up to the first zero matter. -/
theorem nameBytes_congr {u v : ℕ → ℕ} {N : ℕ} (h : ∀ j ≤ N, u j = v j) (hN : v N = 0) {n i : ℕ} (hi : i ≤ N)
    (utf8 : Bool) (out : List UInt8) : nameBytes u n i utf8 out = nameBytes v n i utf8 out := by
  induction n generalizing i utf8 out with
  | zero => rfl
  | succ n ih =>
    rw [nameBytes, nameBytes, h i hi]
    by_cases hzero : v i = 0
    · rw [if_neg (fun hx => hx.2 hzero), if_neg (fun hx => hx.2 hzero)]
    · have hnext : i + 1 ≤ N := by
        rcases Nat.lt_or_eq_of_le hi with hlt | rfl
        · exact hlt
        · exact absurd hN hzero
      simp only [ih hnext]

/-- Where no character is refused, `utf8` stays. -/
theorem nameBytes_utf8 {unicode : ℕ → ℕ} {N : ℕ} (h : ∀ j < N, (wctomb (unicode j)).isSome) (hN : unicode N = 0)
    {n i : ℕ} (hi : i ≤ N) (utf8 : Bool) (out : List UInt8) : (nameBytes unicode n i utf8 out).2 = utf8 := by
  induction n generalizing i out with
  | zero => rfl
  | succ n ih =>
    rw [nameBytes]
    split_ifs with hgo hutf8
    · have hlt : i < N := by
        rcases Nat.lt_or_eq_of_le hi with hlt | rfl
        · exact hlt
        · exact absurd hN hgo.2
      obtain ⟨bytes, hbytes⟩ := Option.isSome_iff_exists.mp (h i hlt)
      rw [hbytes]
      exact ih hlt _
    · have hlt : i < N := by
        rcases Nat.lt_or_eq_of_le hi with hlt | rfl
        · exact hlt
        · exact absurd hN hgo.2
      exact ih hlt _
    · rfl

namespace DirBuffer

variable (b : DirBuffer) (param : DirParam)

/-- The slots of a deleted name, as they are written to `unicode`, and what they leave of it. -/
theorem deletedUnits_congr {u v : ℕ → ℕ} {n i : ℕ} (h : 13 * n ≤ i → u i = v i) (ds : ℕ) :
    b.deletedUnits u ds n i = b.deletedUnits v ds n i := by
  induction n generalizing u v ds with
  | zero => exact h (Nat.zero_le _)
  | succ n ih =>
    refine ih (fun hi => ?_) (ds + 1)
    have hlength : (b.units ds).length = 13 := rfl
    by_cases hin : i < 13 * n + 13
    · obtain ⟨j, rfl⟩ := Nat.exists_eq_add_of_le hi
      have hj : j < (b.units ds).length := by omega
      rw [writeUnits_inside hj, writeUnits_inside hj]
    · rw [writeUnits_outside (by omega), writeUnits_outside (by omega), h (by omega)]

theorem deletedUnits_behind {u : ℕ → ℕ} {n i : ℕ} (h : 13 * n ≤ i) (ds : ℕ) : b.deletedUnits u ds n i = u i := by
  induction n generalizing u ds with
  | zero => rfl
  | succ n ih =>
    have hlength : (b.units ds).length = 13 := rfl
    rw [deletedUnits, ih (by omega), writeUnits_outside (by omega)]

/-! ## Deleted names -/

/-- The entry before a slot is no deleted slot with its checksum. -/
def FirstSlot (initial : ℕ) : Prop :=
  ∀ e, initial = e + 1 → b.id e = deletedFlag → b.attr e = attrExt → b.aliasChecksum e ≠ b.aliasChecksum initial

/-- A deleted entry and the deleted slots in front of it that go together, all of them. They are read where
deleted files are to be listed. -/
structure DeletedName (initial n : ℕ) : Prop where
  shown : param.listDeleted
  run : b.DeletedRun initial n
  first : b.FirstSlot initial

/-- A deleted entry has the long name `unicode`: as many of its slots as an `unsigned char` counts, which are of
its checksum, with the first character taken from the long name. -/
def HasDeletedName (e : ℕ) (unicode : ℕ → ℕ) : Prop :=
  ∃ initial n, e = initial + n ∧ b.DeletedName param initial n ∧ n % 256 ≠ 0 ∧
    unicode = b.deletedUnits (fun _ => 0) initial (n % 256) ∧
    sumBytes (UInt8.ofNat (toupper (unicode 0))) ((b.name e).tail ++ b.ext e) = b.aliasChecksum initial

/-- The long name of a deleted entry begins with a zero: the function returns. -/
def Stops (e : ℕ) : Prop := ∃ unicode, b.HasDeletedName param e unicode ∧ unicode 0 = 0

/-- The long name of a deleted entry is listed, and holds what is no character: `utf8` is cleared. -/
def Clears (e : ℕ) : Prop :=
  ∃ unicode, b.HasDeletedName param e unicode ∧ unicode 0 ≠ 0 ∧ unicode 0 ≠ deletedFlag.toNat ∧
    (nameBytes unicode (dirNameLen - 2) 0 true []).2 = false

variable {b param}

/-- The first slot is determined by the entry. -/
theorem first_le {i n i' n' : ℕ} (hslots' : b.DeletedSlots i' n') (hfirst : b.FirstSlot i)
    (hn : 0 < n) (h : i + n = i' + n') : i ≤ i' := by
  by_contra hlt
  -- the entry before the first slot is a slot of the other run
  obtain ⟨e, he⟩ : ∃ e, i = e + 1 := ⟨i - 1, by omega⟩
  obtain ⟨hid, hattr, hsum⟩ := hslots' (e - i') (by omega)
  obtain ⟨-, -, hsum'⟩ := hslots' (i - i') (by omega)
  rw [Nat.add_sub_cancel' (by omega)] at hid hattr hsum hsum'
  exact hfirst e he hid hattr (hsum.trans hsum'.symm)

theorem slots_unique {i n i' n' : ℕ} (hslots : b.DeletedSlots i n) (hfirst : b.FirstSlot i) (hn : 0 < n)
    (hslots' : b.DeletedSlots i' n') (hfirst' : b.FirstSlot i') (hn' : 0 < n') (h : i + n = i' + n') :
    i = i' ∧ n = n' := by
  have hle := first_le hslots' hfirst hn h
  have hge := first_le hslots hfirst' hn' h.symm
  omega

variable (b param)

/-! ## Between two records -/

/-- The variables in front of entry `k`: the entry before it is no deleted slot, or the deleted slots in front
of it are counted; or the function has returned because there is no entry. -/
def Between (k : ℕ) (m : DirState) : Prop :=
  match m.goto with
  | .getNew =>
    m.de = k ∧ (k = 0 ∨ b.more k = true) ∧
      (param.listDeleted → ∀ e, k = e + 1 → b.id e = deletedFlag → b.attr e ≠ attrExt)
  | .deletedSlot initial sum =>
    m.de = k ∧ param.listDeleted ∧ ∃ n, k = initial + n ∧ 0 < n ∧ m.longSlots = n % 256 ∧
      sum = b.aliasChecksum initial ∧ b.DeletedSlots initial n ∧ b.FirstSlot initial
  | .done => k ≠ 0 ∧ b.more k = false
  | _ => False

/-- A deleted name that is read belongs to an entry with the property, and is read from its first slot on. -/
def Tracked (E : ℕ → Prop) (m : DirState) : Prop :=
  ∀ initial sum, m.goto = .parseLongDeletedNext initial sum →
    E m.de ∧ param.listDeleted ∧ b.FirstSlot initial

variable {b param} {E : ℕ → Prop}

theorem tracked_of_ne {m : DirState} (h : ∀ initial sum, m.goto ≠ .parseLongDeletedNext initial sum) :
    b.Tracked param E m := fun initial sum hgoto => absurd hgoto (h initial sum)

/-- A step of the walk. -/
theorem reachesBy_step {m m' : DirState} (hne : m.goto ≠ .done) (htracked : b.Tracked param E m)
    (h : (b.pass param m).next = m') : ReachesBy (b.step param) (b.Tracked param E) m m' :=
  .single htracked (step_eq_some.mpr ⟨hne, h⟩)

/-- A step to the end of a record, and the next one. -/
theorem reachesBy_recEnd {m m₁ : DirState} (hne : m.goto ≠ .done) (htracked : b.Tracked param E m)
    (h : (b.pass param m).next = m₁) (hgoto : m₁.goto = .recEnd) :
    ReachesBy (b.step param) (b.Tracked param E) m (b.pass param m₁).next := by
  refine (reachesBy_step hne htracked h).trans (reachesBy_step ?_ ?_ rfl)
  · rw [hgoto]
    decide
  · refine tracked_of_ne fun initial sum hx => ?_
    rw [hgoto] at hx
    cases hx

/-- There is a record at an entry. -/
theorem more_of_record {k : ℕ} (hid : b.id k ≠ 0) (hin : 32 * (k + 1) ≤ b.size) : b.more k = true :=
  decide_eq_true ⟨by omega, hid⟩

theorem past_of_record {k : ℕ} (hin : 32 * (k + 1) ≤ b.size) : b.past k = false :=
  decide_eq_false (by omega)

/-- In front of a record the function has not returned. -/
theorem Between.goto_ne {k : ℕ} {m : DirState} (h : b.Between param k m) (hmore : b.more k = true) :
    m.goto ≠ .done := by
  intro hgoto
  unfold Between at h
  rw [hgoto] at h
  rw [h.2] at hmore
  cases hmore

/-! ## The end of a record -/

/-- Behind an entry the walk stands in front of the next one. -/
theorem between_of_more {m : DirState} {k : ℕ} (hde : m.de = k + 1)
    (hgoto : m.goto = if b.more (k + 1) then .getNew else .done)
    (hslot : param.listDeleted → b.id k = deletedFlag → b.attr k ≠ attrExt) : b.Between param (k + 1) m := by
  unfold Between
  cases hmore : b.more (k + 1) with
  | true =>
    rw [hmore, if_pos rfl] at hgoto
    rw [hgoto]
    refine ⟨hde, Or.inr rfl, fun hparam e he => ?_⟩
    obtain rfl : k = e := by omega
    exact hslot hparam
  | false =>
    rw [hmore, if_neg Bool.false_ne_true] at hgoto
    rw [hgoto]
    exact ⟨Nat.succ_ne_zero k, rfl⟩

/-- What the end of a record does if there is a name. -/
theorem recEnd_next {m : DirState} (hgoto : m.goto = .recEnd)
    (hname : ¬ (b.isFile (b.named param m) ∧ (b.named param m).unicode 0 = 0)) :
    (b.pass param m).next = { b.append param (b.named param m) with
      goto := if b.more (m.de + 1) then .getNew else .done
      de := m.de + 1 } := by
  unfold pass
  simp only [hgoto, named_de, if_neg hname]

theorem append_of_not_listed {m : DirState} (h : b.listed m = false) : b.append param m = m := by
  rw [append, h, if_neg Bool.false_ne_true]

/-! ## The end of a deleted record -/

/-- The first unit of the short name of a deleted entry. -/
theorem shortUnits_of_deleted {k : ℕ} (hid : b.id k = deletedFlag) :
    ∃ l, b.shortUnits k = deletedFlag.toNat :: l := by
  have hname : b.name k = deletedFlag :: (b.name k).tail := by
    rw [← hid]
    rfl
  rw [shortUnits, hname, takeWhile_cons_of_pos (by decide), cons_append, map_cons]
  exact ⟨_, rfl⟩

theorem shortUnits_lt {k : ℕ} : ∀ u ∈ b.shortUnits k, u < 256 := by
  intro u hu
  obtain ⟨c, -, rfl⟩ := mem_map.mp hu
  exact c.toNat_lt

theorem isSome_wctomb {u : ℕ} (hu : u < 256) : (wctomb u).isSome := by
  rw [wctomb, if_pos (Or.inl (by omega))]
  rfl

variable (param) in
/-- **A deleted entry without a long name** is listed as deleted, or not at all. -/
theorem recEnd_deleted {m : DirState} (hgoto : m.goto = .recEnd) (hid : b.id m.de = deletedFlag)
    (hlong : m.longSlots = 0) :
    (b.pass param m).next.goto = (if b.more (m.de + 1) then .getNew else .done) ∧
    (b.pass param m).next.de = m.de + 1 ∧ (b.pass param m).next.utf8 = m.utf8 ∧
    (b.pass param m).next.list.filter (fun f => !f.deleted) = m.list.filter (fun f => !f.deleted) := by
  by_cases hattr : b.attr m.de = attrExt
  · -- a slot is not listed
    have hnamed : b.named param m = m := if_neg fun h => h.2 hattr
    have hfile : b.isFile m = false := by simp [isFile, hattr, hlong]
    rw [recEnd_next hgoto (by rw [hnamed, hfile]; simp), hnamed, append_of_not_listed (by simp [listed, hfile])]
    exact ⟨rfl, rfl, rfl, rfl⟩
  obtain ⟨l, hl⟩ := shortUnits_of_deleted hid
  obtain ⟨hwritten, hend⟩ := writeUnits_name m.unicode (b.shortUnits m.de)
  have hpos : 0 < (b.shortUnits m.de).length := by rw [hl]; exact Nat.succ_pos _
  have hfirst : writeUnits m.unicode 0 (b.shortUnits m.de ++ [0]) 0 = deletedFlag.toNat := by
    rw [hwritten 0 hpos]
    simp only [hl, getElem_cons_zero]
  have hnamed : b.named param m =
      if b.shownDeleted param m.de then
        { m with
          unicode := Function.update (writeUnits m.unicode 0 (b.shortUnits m.de ++ [0])) 0
            (b.firstUnit m.de (writeUnits m.unicode 0 (b.shortUnits m.de ++ [0])) m.list)
          deleted := true }
      else { m with unicode := writeUnits m.unicode 0 (b.shortUnits m.de ++ [0]) } := by
    rw [named, if_pos ⟨hlong, hattr⟩]
    simp only [hfirst, true_and]
  cases hshown : b.shownDeleted param m.de with
  | false =>
    rw [hshown, if_neg Bool.false_ne_true] at hnamed
    have hlisted : b.listed (b.named param m) = false := by
      rw [hnamed]
      simp [listed, hfirst]
    rw [recEnd_next hgoto (by rw [hnamed]; simp only [hfirst]; exact fun h => absurd h.2 (by decide)),
      append_of_not_listed hlisted, hnamed]
    exact ⟨rfl, rfl, rfl, rfl⟩
  | true =>
    rw [hshown, if_pos rfl] at hnamed
    have hunit : (b.named param m).unicode 0 ≠ 0 := by
      rw [hnamed]
      simp only [Function.update_self]
      unfold firstUnit
      split_ifs <;> decide
    have hutf8 : ∀ utf8, (nameBytes (b.named param m).unicode (dirNameLen - 2) 0 utf8 []).2 = utf8 := fun utf8 => by
      refine nameBytes_utf8 (N := (b.shortUnits m.de).length) (fun j hj => isSome_wctomb ?_) ?_ (Nat.zero_le _) _ _
      · rw [hnamed]
        by_cases hj0 : j = 0
        · subst hj0
          simp only [Function.update_self]
          unfold firstUnit
          split_ifs <;> decide
        · simp only [Function.update_of_ne hj0]
          rw [hwritten j hj]
          exact shortUnits_lt _ (getElem_mem hj)
      · rw [hnamed]
        simp only [Function.update_of_ne (Nat.pos_iff_ne_zero.mp hpos)]
        exact hend
    rw [recEnd_next hgoto fun h => hunit h.2]
    refine ⟨rfl, rfl, ?_, ?_⟩
    · show (b.append param (b.named param m)).utf8 = m.utf8
      have hm : (b.named param m).utf8 = m.utf8 := by rw [hnamed]
      unfold append
      split_ifs
      · exact (hutf8 _).trans hm
      · exact hm
    · show (b.append param (b.named param m)).list.filter _ = m.list.filter _
      have hm : (b.named param m).list = m.list := by rw [hnamed]
      have hdeleted : (b.named param m).deleted = true := by rw [hnamed]
      unfold append
      split_ifs
      · simp only [filter_append, hm, filter_cons, file, hdeleted, Bool.not_true, Bool.false_eq_true, if_false,
          filter_nil, append_nil]
      · rw [hm]

/-! ## Deleted long names -/

/-- What the function reads of a deleted name. -/
theorem hasDeletedName_iff {initial n : ℕ} (hn : 0 < n) (hname : b.DeletedName param initial n) (unicode : ℕ → ℕ) :
    b.HasDeletedName param (initial + n) unicode ↔
      n % 256 ≠ 0 ∧ unicode = b.deletedUnits (fun _ => 0) initial (n % 256) ∧
        sumBytes (UInt8.ofNat (toupper (unicode 0))) ((b.name (initial + n)).tail ++ b.ext (initial + n)) =
          b.aliasChecksum initial := by
  refine ⟨?_, fun h => ⟨initial, n, rfl, hname, h⟩⟩
  rintro ⟨initial', n', he, hname', hn', h⟩
  have hpos : 0 < n' := Nat.pos_of_ne_zero fun h0 => hn' (by rw [h0])
  obtain ⟨rfl, rfl⟩ := slots_unique hname.run.slots hname.first hn hname'.run.slots hname'.first hpos he
  exact ⟨hn', h⟩

/-- An entry without deleted slots in front of it has no deleted name. -/
theorem not_hasDeletedName {k : ℕ} (h : param.listDeleted → ∀ e, k = e + 1 → b.id e = deletedFlag → b.attr e ≠ attrExt)
    (unicode : ℕ → ℕ) : ¬ b.HasDeletedName param k unicode := by
  rintro ⟨initial, n, rfl, hname, hn, -⟩
  obtain ⟨n, rfl⟩ : ∃ k, n = k + 1 := Nat.exists_eq_succ_of_ne_zero fun h0 => hn (by rw [h0])
  obtain ⟨hid, hattr, -⟩ := hname.run.slots n (Nat.lt_succ_self n)
  exact h hname.shown (initial + n) rfl hid hattr

/-- A slot, or a volume label, has no deleted name. -/
theorem not_hasDeletedName_of_attr {k : ℕ} (h : b.attr k = attrExt ∨ b.attr k &&& attrVolume ≠ 0) (unicode : ℕ → ℕ) :
    ¬ b.HasDeletedName param k unicode := by
  rintro ⟨initial, n, rfl, hname, -⟩
  rcases h with h | h
  · exact hname.run.entry h
  · exact h hname.run.file

/-- An entry with no deleted name leaves `utf8`, and the function does not return there. -/
theorem quiet_of_not {k : ℕ} (h : ∀ unicode, ¬ b.HasDeletedName param k unicode) :
    ¬ b.Stops param k ∧ ¬ b.Clears param k :=
  ⟨fun ⟨unicode, hname, _⟩ => h unicode hname, fun ⟨unicode, hname, _⟩ => h unicode hname⟩

variable (b param) in
/-- What is left behind a deleted record: the function has returned, or stands in front of the next one. -/
def BehindDeleted (k : ℕ) (m m' : DirState) : Prop :=
  m'.list.filter (fun f => !f.deleted) = m.list.filter (fun f => !f.deleted) ∧
    (b.Stops param k ∧ m'.goto = .done ∨
      ¬ b.Stops param k ∧ b.Between param (k + 1) m' ∧ (m'.utf8 = true ↔ m.utf8 = true ∧ ¬ b.Clears param k))

/-- The end of a deleted entry without a long name. -/
theorem behindDeleted_of_recEnd {k : ℕ} {m m₁ : DirState} (hgoto : m₁.goto = .recEnd) (hde : m₁.de = k)
    (hid : b.id k = deletedFlag) (hlong : m₁.longSlots = 0) (hslot : param.listDeleted → b.attr k ≠ attrExt)
    (hname : ∀ unicode, ¬ b.HasDeletedName param k unicode) (hlist : m₁.list = m.list) (hutf8 : m₁.utf8 = m.utf8) :
    b.BehindDeleted param k m (b.pass param m₁).next := by
  subst hde
  obtain ⟨hstops, hclears⟩ := quiet_of_not hname
  obtain ⟨hnext, hde, hutf8', hlist'⟩ := recEnd_deleted param hgoto hid hlong
  refine ⟨by rw [hlist', hlist], Or.inr ⟨hstops, between_of_more hde hnext fun hparam _ => hslot hparam, ?_⟩⟩
  rw [hutf8', hutf8, and_iff_left hclears]

/-- The units that the function has of a deleted name. -/
theorem deletedUnits_agree (unicode : ℕ → ℕ) (initial slots : ℕ) :
    (∀ i ≤ 13 * slots, b.deletedUnits (Function.update unicode (slots * 13) 0) initial slots i =
      b.deletedUnits (fun _ => 0) initial slots i) ∧
      b.deletedUnits (fun _ => 0) initial slots (13 * slots) = 0 := by
  refine ⟨fun i hi => deletedUnits_congr b (fun hle => ?_) initial, deletedUnits_behind b (le_refl _) initial⟩
  obtain rfl : i = slots * 13 := by omega
  exact Function.update_self ..

/-- The end of an entry with a deleted name: it is empty, or the entry is listed as deleted or not at all. -/
theorem behindDeleted_of_name {k : ℕ} {m m₁ : DirState} {name : ℕ → ℕ} {N : ℕ} (hgoto : m₁.goto = .recEnd)
    (hde : m₁.de = k) (hattr : b.attr k ≠ attrExt) (hfile : b.attr k &&& attrVolume = 0) (hlong : m₁.longSlots ≠ 0)
    (hdeleted : m₁.deleted = true) (hname : ∀ unicode, b.HasDeletedName param k unicode ↔ unicode = name)
    (hunits : ∀ i ≤ N, m₁.unicode i = name i) (hend : name N = 0)
    (hlist : m₁.list = m.list) (hutf8 : m₁.utf8 = m.utf8) :
    b.BehindDeleted param k m (b.pass param m₁).next := by
  subst hde
  have hnamed : b.named param m₁ = m₁ := if_neg fun h => hlong h.1
  have hisFile : b.isFile m₁ = true := by simp [isFile, hattr, hfile]
  have hfirst : m₁.unicode 0 = name 0 := hunits 0 (Nat.zero_le _)
  by_cases hzero : name 0 = 0
  · -- the function returns
    have hnext : (b.pass param m₁).next = { m₁ with goto := .done } := by
      unfold pass
      simp only [hgoto, hnamed, hisFile, hfirst, hzero, and_self, if_true]
    rw [hnext]
    exact ⟨congrArg _ hlist, Or.inl ⟨⟨name, (hname name).mpr rfl, hzero⟩, rfl⟩⟩
  have hstops : ¬ b.Stops param m₁.de := by
    rintro ⟨unicode, h, h0⟩
    rw [(hname unicode).mp h] at h0
    exact hzero h0
  have hclears : b.Clears param m₁.de ↔
      name 0 ≠ deletedFlag.toNat ∧ (nameBytes name (dirNameLen - 2) 0 true []).2 = false := by
    constructor
    · rintro ⟨unicode, h, -, hflag, hutf8⟩
      rw [(hname unicode).mp h] at hflag hutf8
      exact ⟨hflag, hutf8⟩
    · rintro ⟨hflag, hutf8⟩
      exact ⟨name, (hname name).mpr rfl, hzero, hflag, hutf8⟩
  rw [recEnd_next hgoto (by rw [hnamed, hfirst]; exact fun h => hzero h.2), hnamed]
  refine ⟨?_, Or.inr ⟨hstops, between_of_more rfl rfl fun _ _ => hattr, ?_⟩⟩
  · show (b.append param m₁).list.filter _ = _
    rw [← hlist]
    unfold append
    split_ifs
    · simp only [filter_append, filter_cons, file, hdeleted, Bool.not_true, Bool.false_eq_true, if_false,
        filter_nil, append_nil]
    · rfl
  · show (b.append param m₁).utf8 = true ↔ _
    rw [hclears, ← hutf8]
    by_cases hflag : name 0 = deletedFlag.toNat
    · rw [append_of_not_listed (by simp [listed, hfirst, hflag])]
      exact (and_iff_left fun h => h.1 hflag).symm
    · have hlisted : b.listed m₁ = true := by simp [listed, hisFile, hfirst, hzero, hflag]
      rw [append, if_pos hlisted]
      simp only [nameBytes_congr hunits hend (Nat.zero_le N), ne_eq, hflag, not_false_iff, true_and,
        Bool.not_eq_false]
      cases m₁.utf8 with
      | true => simp
      | false => simp [nameBytes_false]

/-- A deleted entry behind its deleted slots. -/
theorem reaches_deletedName {k : ℕ} {m : DirState} {initial n : ℕ}
    (hgoto : m.goto = .parseLongDeletedNext initial (b.aliasChecksum initial)) (hde : m.de = k)
    (hk : k = initial + n) (hn : 0 < n) (hlong : m.longSlots = n % 256) (hparam : param.listDeleted)
    (hslots : b.DeletedSlots initial n) (hfirst : b.FirstSlot initial) (hid : b.id k = deletedFlag)
    (hattr : b.attr k ≠ attrExt) (hin : 32 * (k + 1) ≤ b.size) (hE : E k) :
    ∃ m', ReachesBy (b.step param) (b.Tracked param E) m m' ∧ b.BehindDeleted param k m m' := by
  have hne : m.goto ≠ .done := by
    rw [hgoto]
    exact fun h => DirGoto.noConfusion h
  have htracked : b.Tracked param E m := fun initial' sum h => by
    rw [hgoto, DirGoto.parseLongDeletedNext.injEq] at h
    exact ⟨hde.symm ▸ hE, hparam, h.1 ▸ hfirst⟩
  by_cases hfile : b.attr k &&& attrVolume = 0
  · have hname : b.DeletedName param initial n :=
      ⟨hparam, ⟨hslots, by omega, hk ▸ hid, hk ▸ hattr, hk ▸ hfile⟩, hfirst⟩
    obtain ⟨hunits, hend⟩ := deletedUnits_agree (b := b) m.unicode initial (n % 256)
    have hiff := fun unicode => hasDeletedName_iff hn hname unicode
    rw [← hk] at hiff
    generalize hv : b.deletedUnits (fun _ => 0) initial (n % 256) = name at hunits hend hiff
    have hsum : sumBytes (UInt8.ofNat (toupper
        (b.deletedUnits (Function.update m.unicode (m.longSlots * 13) 0) initial m.longSlots 0)))
        ((b.name m.de).tail ++ b.ext m.de) =
        sumBytes (UInt8.ofNat (toupper (name 0))) ((b.name k).tail ++ b.ext k) := by
      rw [hlong, hunits 0 (Nat.zero_le _), hde]
    have hvol : ¬ b.attr m.de &&& attrVolume ≠ 0 := by rw [hde, hfile]; exact not_not.mpr rfl
    have hnext : (b.pass param m).next = { m with
        goto := .recEnd
        longSlots := if sumBytes (UInt8.ofNat (toupper (name 0))) ((b.name k).tail ++ b.ext k) =
          b.aliasChecksum initial then m.longSlots else 0
        deleted := if sumBytes (UInt8.ofNat (toupper (name 0))) ((b.name k).tail ++ b.ext k) =
          b.aliasChecksum initial then true else m.deleted
        unicode := b.deletedUnits (Function.update m.unicode (m.longSlots * 13) 0) initial m.longSlots } := by
      unfold pass
      simp only [hgoto, if_neg hvol, hsum]
    refine ⟨_, reachesBy_recEnd hne htracked hnext rfl, ?_⟩
    by_cases hlongName : n % 256 ≠ 0 ∧
        sumBytes (UInt8.ofNat (toupper (name 0))) ((b.name k).tail ++ b.ext k) = b.aliasChecksum initial
    · -- the slots give the name
      refine behindDeleted_of_name rfl hde hattr hfile ?_ (if_pos hlongName.2)
        (fun unicode => (hiff unicode).trans ?_) (fun i hi => ?_) hend rfl rfl
      · show (if _ then m.longSlots else 0) ≠ 0
        rw [if_pos hlongName.2, hlong]
        exact hlongName.1
      · exact ⟨fun h => h.2.1, fun h => ⟨hlongName.1, h, h ▸ hlongName.2⟩⟩
      · show b.deletedUnits _ initial m.longSlots i = name i
        rw [hlong]
        exact hunits i hi
    · -- the entry is a deleted one without a long name
      refine behindDeleted_of_recEnd rfl hde hid ?_ (fun _ => hattr) (fun unicode h => ?_) rfl rfl
      · show (if _ then m.longSlots else 0) = 0
        split_ifs with h
        · rw [hlong]
          exact not_not.mp fun h0 => hlongName ⟨h0, h⟩
        · rfl
      · obtain ⟨h0, rfl, h⟩ := (hiff unicode).mp h
        exact hlongName ⟨h0, h⟩
  · have hnext : (b.pass param m).next = { m with goto := .recEnd, longSlots := 0 } := by
      unfold pass
      simp only [hgoto, hde, if_pos hfile, ne_eq]
    refine ⟨_, reachesBy_recEnd hne htracked hnext rfl, ?_⟩
    exact behindDeleted_of_recEnd rfl hde hid rfl (fun _ => hattr) (not_hasDeletedName_of_attr (Or.inr hfile)) rfl rfl

/-- The first deleted slot of a name, read from label `ParseLongDeleted` on. -/
theorem reaches_firstSlot {k : ℕ} {m : DirState} (hgoto : m.goto = .parseLongDeleted) (hde : m.de = k)
    (hid : b.id k = deletedFlag) (hattr : b.attr k = attrExt) (hin : 32 * (k + 1) ≤ b.size)
    (hparam : param.listDeleted) (hfirst : b.FirstSlot k) :
    ∃ m', ReachesBy (b.step param) (b.Tracked param E) m m' ∧ b.BehindDeleted param k m m' := by
  have hnext : (b.pass param m).next =
      { m with goto := .deletedSlot k (b.aliasChecksum k), longSlots := 0 } := by
    unfold pass
    simp only [hgoto, hde]
  have hnext' : (b.pass param (b.pass param m).next).next =
      { m with goto := .deletedSlot k (b.aliasChecksum k), de := k + 1, longSlots := 1 } := by
    rw [hnext]
    unfold pass
    simp only [hde, past_of_record hin, hid, hattr, ne_eq, not_true_eq_false, if_false, Bool.false_eq_true]
  refine ⟨_, (reachesBy_step (by rw [hgoto]; decide) (tracked_of_ne ?_) rfl).trans
    (reachesBy_step ?_ (tracked_of_ne ?_) hnext'), rfl, Or.inr ?_⟩
  · rw [hgoto]
    exact fun _ _ h => DirGoto.noConfusion h
  · rw [hnext]
    exact fun h => DirGoto.noConfusion h
  · rw [hnext]
    exact fun _ _ h => DirGoto.noConfusion h
  have hquiet : ¬ b.Stops param k ∧ ¬ b.Clears param k := quiet_of_not (not_hasDeletedName_of_attr (Or.inl hattr))
  obtain ⟨hstops, hclears⟩ := hquiet
  refine ⟨hstops, ⟨rfl, hparam, 1, rfl, Nat.one_pos, rfl, rfl, fun i hi => ?_, hfirst⟩, (and_iff_left hclears).symm⟩
  obtain rfl : i = 0 := by omega
  exact ⟨hid, hattr, rfl⟩

/-- **A deleted record**, in front of which the walk stands. -/
theorem reaches_deleted {k : ℕ} {m : DirState} (h : b.Between param k m) (hid : b.id k = deletedFlag)
    (hin : 32 * (k + 1) ≤ b.size) (hE : E k) :
    ∃ m', ReachesBy (b.step param) (b.Tracked param E) m m' ∧ b.BehindDeleted param k m m' := by
  have hmore : b.more k = true := more_of_record (by rw [hid]; decide) hin
  have hne := h.goto_ne hmore
  unfold Between at h
  cases hgoto : m.goto with
  | getNew =>
    rw [hgoto] at h
    obtain ⟨hde, -, hbefore⟩ := h
    have htracked : b.Tracked param E m := tracked_of_ne fun _ _ hx => by rw [hgoto] at hx; cases hx
    by_cases hattr : b.attr k = attrExt
    · by_cases hparam : param.listDeleted = true
      · have hnext : (b.pass param m).next = { m with
            goto := .parseLongDeleted, longSlots := 0, deleted := false
            unicode := Function.update m.unicode 0 0 } := by
          unfold pass
          simp only [hgoto, hde, hattr, hid, hparam, and_self, if_true]
        have hfirst : b.FirstSlot k := fun e he hid' hattr' => absurd hattr' (hbefore hparam e he hid')
        obtain ⟨m', hreach, hbehind⟩ := reaches_firstSlot (E := E)
          (show (b.pass param m).next.goto = .parseLongDeleted by rw [hnext]) (by rw [hnext]; exact hde)
          hid hattr hin hparam hfirst
        rw [hnext] at hbehind
        exact ⟨m', (reachesBy_step hne htracked rfl).trans hreach, hbehind⟩
      · -- the number of a deleted slot is too large
        have hnext : (b.pass param m).next = { m with
            goto := .parseLong, longSlots := 0, deleted := false
            unicode := Function.update m.unicode 0 0 } := by
          have hread : ¬ (b.id k = deletedFlag ∧ param.listDeleted = true) := fun h => hparam h.2
          unfold pass
          simp only [hgoto, hde, hattr, if_true, if_neg hread]
        have hslots : b.id k &&& 0x40 = 0 ∨ 20 < (b.id k &&& ~~~ 0x40).toNat ∨ (b.id k &&& ~~~ 0x40).toNat = 0 := by
          rw [hid]
          decide
        have hnext' : (b.pass param (b.pass param m).next).next = { m with
            goto := .recEnd, longSlots := 0, deleted := false
            unicode := Function.update m.unicode 0 0 } := by
          rw [hnext]
          unfold pass
          simp only [hde, if_pos hslots]
        have hne' : (b.pass param m).next.goto ≠ .done := by
          rw [hnext]
          exact fun h => DirGoto.noConfusion h
        have htracked' : b.Tracked param E (b.pass param m).next :=
          tracked_of_ne fun _ _ hx => by rw [hnext] at hx; cases hx
        exact ⟨_, (reachesBy_step hne htracked rfl).trans (reachesBy_recEnd hne' htracked' hnext' rfl),
          behindDeleted_of_recEnd rfl hde hid rfl (fun h => absurd h hparam)
            (not_hasDeletedName_of_attr (Or.inl hattr)) rfl rfl⟩
    · have hnext : (b.pass param m).next = { m with
          goto := .recEnd, longSlots := 0, deleted := false
          unicode := Function.update m.unicode 0 0 } := by
        unfold pass
        simp only [hgoto, hde, hattr, if_false]
      exact ⟨_, reachesBy_recEnd hne htracked hnext rfl,
        behindDeleted_of_recEnd rfl hde hid rfl (fun _ => hattr) (not_hasDeletedName hbefore) rfl rfl⟩
  | deletedSlot initial sum =>
    rw [hgoto] at h
    obtain ⟨hde, hparam, n, hk, hn, hlong, rfl, hslots, hfirst⟩ := h
    have htracked : b.Tracked param E m := tracked_of_ne fun _ _ hx => by rw [hgoto] at hx; cases hx
    have hpast := past_of_record hin
    by_cases hattr : b.attr k = attrExt
    · by_cases hsum : b.aliasChecksum k = b.aliasChecksum initial
      · -- one more slot of the name
        have hnext : (b.pass param m).next = { m with de := k + 1, longSlots := (m.longSlots + 1) % 256 } := by
          unfold pass
          simp only [hgoto, hde, hpast, hid, hattr, hsum, ne_eq, not_true_eq_false, if_false, Bool.false_eq_true]
        have hquiet : ¬ b.Stops param k ∧ ¬ b.Clears param k :=
          quiet_of_not (not_hasDeletedName_of_attr (Or.inl hattr))
        obtain ⟨hstops, hclears⟩ := hquiet
        refine ⟨_, reachesBy_step hne htracked hnext, rfl, Or.inr ⟨hstops, ?_, (and_iff_left hclears).symm⟩⟩
        unfold Between
        simp only [hgoto]
        refine ⟨trivial, hparam, n + 1, by omega, Nat.succ_pos n, by omega, trivial, ?_, hfirst⟩
        rw [hk] at hid hattr hsum
        exact deletedSlots_succ hslots hid hattr hsum
      · -- the first slot of another name
        have hnext : (b.pass param m).next = { m with goto := .parseLongDeleted } := by
          unfold pass
          simp only [hgoto, hde, hpast, hid, hattr, hsum, ne_eq, not_true_eq_false, not_false_iff, if_true, if_false,
            Bool.false_eq_true]
        have hlast : b.aliasChecksum (k - 1) = b.aliasChecksum initial := by
          obtain ⟨-, -, h⟩ := hslots (n - 1) (by omega)
          rwa [show initial + (n - 1) = k - 1 by omega] at h
        have hfirst' : b.FirstSlot k := fun e he _ _ h => by
          rw [show e = k - 1 by omega, hlast] at h
          exact hsum h.symm
        obtain ⟨m', hreach, hbehind⟩ := reaches_firstSlot (E := E)
          (show (b.pass param m).next.goto = .parseLongDeleted by rw [hnext]) (by rw [hnext]; exact hde)
          hid hattr hin hparam hfirst'
        rw [hnext] at hbehind
        exact ⟨m', (reachesBy_step hne htracked rfl).trans hreach, hbehind⟩
    · -- the entry of the name
      have hnext : (b.pass param m).next =
          { m with goto := .parseLongDeletedNext initial (b.aliasChecksum initial) } := by
        unfold pass
        simp only [hgoto, hde, hpast, hid, hattr, ne_eq, not_true_eq_false, not_false_iff, if_true, if_false,
          Bool.false_eq_true]
      obtain ⟨m', hreach, hbehind⟩ := reaches_deletedName (E := E) (m := (b.pass param m).next) (by rw [hnext])
        (by rw [hnext]; exact hde) hk hn (by rw [hnext]; exact hlong) hparam hslots hfirst hid hattr hin hE
      rw [hnext] at hbehind
      exact ⟨m', (reachesBy_step hne htracked rfl).trans hreach, hbehind⟩
  | done => exact absurd hgoto hne
  | _ =>
    rw [hgoto] at h
    exact h.elim

/-! ## A live entry -/

/-- In front of a live record the function goes to `GetNew`. -/
theorem reaches_getNew {k : ℕ} {m : DirState} (h : b.Between param k m) (hid : b.id k ≠ deletedFlag)
    (hmore : b.more k = true) (hin : 32 * (k + 1) ≤ b.size) :
    ∃ m', ReachesBy (b.step param) (b.Tracked param E) m m' ∧ m'.goto = .getNew ∧ m'.de = k ∧ m'.list = m.list ∧
      m'.utf8 = m.utf8 := by
  have hne := h.goto_ne hmore
  unfold Between at h
  cases hgoto : m.goto with
  | getNew =>
    rw [hgoto] at h
    exact ⟨m, .refl, hgoto, h.1, rfl, rfl⟩
  | deletedSlot initial sum =>
    rw [hgoto] at h
    obtain ⟨hde, -⟩ := h
    have hnext : (b.pass param m).next = { m with goto := .getNew } := by
      unfold pass
      simp only [hgoto, hde, past_of_record hin, hid, ne_eq, not_false_iff, if_true, if_false, Bool.false_eq_true]
    exact ⟨_, reachesBy_step hne (tracked_of_ne fun _ _ hx => by rw [hgoto] at hx; cases hx) hnext, rfl, hde, rfl, rfl⟩
  | done => exact absurd hgoto hne
  | _ =>
    rw [hgoto] at h
    exact h.elim

/-- What goes to the list, if the units of the name are in `unicode`. -/
theorem append_live {x : LiveEntry param.bits} {m : DirState} (hholds : b.Holds m.de x.shortByte)
    (hfile : b.isFile m = true) (hdeleted : m.deleted = false)
    (hunits : ∀ i (hi : i < x.units.length), m.unicode i = x.units[i]) (hend : m.unicode x.units.length = 0) :
    m.unicode 0 ≠ 0 ∧ (b.append param m).list = m.list ++ (x.listed m.utf8).1 ∧
      (b.append param m).utf8 = (x.listed m.utf8).2 := by
  obtain ⟨u, l, hl⟩ := exists_cons_of_ne_nil x.units_nonempty
  have hfirst : m.unicode 0 = u := by
    rw [hunits 0 (by rw [hl]; exact Nat.succ_pos _)]
    simp only [hl, getElem_cons_zero]
  have hu : u ≠ 0 := x.units_ne u (hl ▸ mem_cons_self)
  refine ⟨hfirst ▸ hu, ?_⟩
  have hname : nameBytes m.unicode (dirNameLen - 2) 0 m.utf8 [] = convert m.utf8 x.units := by
    have hlength := x.units_length
    have hroom := length_convert_le x.units_lt m.utf8
    have hmax : dirNameLen - 2 = 1022 := rfl
    refine (nameBytes_eq (l := x.units) (fun i hi => ?_) ?_ x.units_ne ?_ (by omega)).trans ?_
    · rw [Nat.zero_add]
      exact hunits i hi
    · rw [Nat.zero_add]
      exact hend
    · rw [length_nil]
      omega
    · rfl
  by_cases hflag : u = deletedFlag.toNat
  · rw [append_of_not_listed (by simp [listed, hfirst, hflag]), LiveEntry.listed,
      if_pos (by rw [hl, hflag, head?_cons]), append_nil]
    exact ⟨rfl, rfl⟩
  · have hlisted : b.listed m = true := by simp [listed, hfile, hfirst, hu, hflag]
    rw [append, if_pos hlisted, LiveEntry.listed, if_neg (by rw [hl, head?_cons, Option.some_inj]; exact hflag), hname]
    refine ⟨?_, rfl⟩
    have hentry : b.file param m = { x.file with name := (convert m.utf8 x.units).1 } := by
      obtain ⟨-, htime, hdate, -⟩ := LiveEntry.le16At_of_shortByte hholds
      ext1
      · show (nameBytes m.unicode (dirNameLen - 2) 0 m.utf8 []).1 = _
        rw [hname]
      · exact LiveEntry.inode_of_holds hholds
      · exact congrArg msdosMkmode (LiveEntry.attr_of_holds hholds)
      · exact LiveEntry.size_of_holds hholds
      · exact htime
      · exact hdate
      · exact hdeleted
    rw [hentry]

/-- The slots and the entry of a live file are in the buffer from entry `k` on. -/
structure HoldsLive {bits : ℕ} (b : DirBuffer) (k : ℕ) (x : LiveEntry bits) : Prop where
  slot : ∀ j < x.slots, b.Holds (k + (x.slots - 1 - j)) (x.slotByte j)
  entry : b.Holds (k + x.slots) x.shortByte
  inside : 32 * (k + x.slots + 1) ≤ b.size

/-- The first record is neither deleted nor the end. -/
theorem HoldsLive.id_ne {k : ℕ} {x : LiveEntry param.bits} (h : b.HoldsLive k x) :
    b.id k ≠ 0 ∧ b.id k ≠ deletedFlag := by
  by_cases hslots : x.slots = 0
  · have hentry := h.entry
    rw [hslots] at hentry
    exact LiveEntry.id_of_holds hentry
  · have hslot := h.slot (x.slots - 1) (by omega)
    rw [Nat.sub_self] at hslot
    obtain ⟨-, -, hflag, hzero⟩ := LiveEntry.slot_id (by omega) hslot
    exact ⟨hzero, hflag⟩

/-- The units of a slot, and the zero behind the last one. -/
theorem slot_written {k j : ℕ} {x : LiveEntry param.bits} (h : b.HoldsLive k x) (hj : j < x.slots) {unicode : ℕ → ℕ}
    (hread : j + 1 < x.slots → ∀ i, 13 * (j + 1) ≤ i → i ≤ x.long.length → unicode i = x.unit i) :
    ∀ i, 13 * j ≤ i → i ≤ x.long.length →
      (if b.id (k + (x.slots - 1 - j)) &&& 0x40 ≠ 0 then
        Function.update (writeUnits unicode (13 * j) (b.units (k + (x.slots - 1 - j)))) (13 * j + 13) 0
      else writeUnits unicode (13 * j) (b.units (k + (x.slots - 1 - j)))) i = x.unit i := by
  intro i hi hlen
  have hlong : x.long.length ≤ 13 * x.slots := by unfold LiveEntry.slots; omega
  have hlength : (b.units (k + (x.slots - 1 - j))).length = 13 := rfl
  have hlast := (LiveEntry.slot_id hj (h.slot j hj)).1
  by_cases hin : i < 13 * j + 13
  · have hwritten : writeUnits unicode (13 * j) (b.units (k + (x.slots - 1 - j))) i = x.unit i := by
      obtain ⟨o, rfl⟩ := Nat.exists_eq_add_of_le hi
      rw [writeUnits_inside (show o < (b.units (k + (x.slots - 1 - j))).length by omega)]
      simp only [LiveEntry.slot_units (h.slot j hj), getElem_map, getElem_range]
    split_ifs
    · rw [Function.update_of_ne (by omega)]
      exact hwritten
    · exact hwritten
  · by_cases hend : j + 1 = x.slots
    · -- the name fills its slots
      obtain rfl : i = x.long.length := by omega
      rw [if_pos (hlast.mpr hend), show 13 * j + 13 = x.long.length by omega, Function.update_self, LiveEntry.unit,
        dif_neg (lt_irrefl _), if_pos rfl]
    · rw [if_neg (fun hx => hend (hlast.mp hx)), writeUnits_outside (by omega)]
      exact hread (by omega) i (by omega) hlen

/-- A slot is read. -/
theorem slot_next {k j : ℕ} {x : LiveEntry param.bits} (h : b.HoldsLive k x) (hj : j < x.slots) {m : DirState}
    (hgoto : m.goto = .slot j x.checksum) (hde : m.de = k + (x.slots - 1 - j))
    (hread : j + 1 < x.slots → ∀ i, 13 * (j + 1) ≤ i → i ≤ x.long.length → m.unicode i = x.unit i) :
    ∃ unicode, (b.pass param m).next =
        { m with goto := .nextSlot j x.checksum, de := k + (x.slots - j), unicode := unicode } ∧
      ∀ i, 13 * j ≤ i → i ≤ x.long.length → unicode i = x.unit i := by
  refine ⟨_, ?_, slot_written h hj hread⟩
  unfold pass
  simp only [hgoto, hde, show k + (x.slots - 1 - j) + 1 = k + (x.slots - j) by omega]

/-- The loop over the slots, from a slot on: the long name is in `unicode` at the end of the entry. -/
theorem reaches_slots {k : ℕ} {x : LiveEntry param.bits} (h : b.HoldsLive k x) {j : ℕ} (hj : j < x.slots) {m : DirState}
    (hgoto : m.goto = .slot j x.checksum) (hde : m.de = k + (x.slots - 1 - j)) (hlong : m.longSlots = x.slots)
    (hread : j + 1 < x.slots → ∀ i, 13 * (j + 1) ≤ i → i ≤ x.long.length → m.unicode i = x.unit i) :
    ∃ unicode, ReachesBy (b.step param) (b.Tracked param E) m
        { m with goto := .recEnd, de := k + x.slots, unicode := unicode } ∧
      ∀ i ≤ x.long.length, unicode i = x.unit i := by
  have hinside := h.inside
  have htracked : ∀ {m : DirState}, (∃ j sum, m.goto = .slot j sum ∨ m.goto = .nextSlot j sum ∨
      m.goto = .aliasEntry sum) → b.Tracked param E m ∧ m.goto ≠ .done := fun hx =>
    ⟨tracked_of_ne fun _ _ h => by simp [h] at hx, fun h => by simp [h] at hx⟩
  induction j generalizing m with
  | zero =>
    obtain ⟨unicode, hnext, hunits⟩ := slot_next h hj hgoto hde hread
    have hentry := h.entry
    obtain ⟨hzero, hflag⟩ := LiveEntry.id_of_holds hentry
    have hnext' : (b.pass param (b.pass param m).next).next =
        { m with goto := .aliasEntry x.checksum, de := k + x.slots, unicode := unicode } := by
      rw [hnext]
      unfold pass
      simp only [Nat.sub_zero, past_of_record h.inside, Bool.false_eq_true, if_true, if_false]
    have hnext'' : (b.pass param (b.pass param (b.pass param m).next).next).next =
        { m with goto := .recEnd, de := k + x.slots, unicode := unicode } := by
      rw [hnext']
      unfold pass
      simp only [LiveEntry.attr_of_holds hentry, LiveEntry.attr_ne_ext, LiveEntry.sum_of_holds hentry, hzero, hflag,
        x.attr_file, ne_eq, not_true_eq_false, or_self, if_true, if_false]
    have hslot := htracked ⟨_, _, Or.inl hgoto⟩
    have hslot' := htracked (m := (b.pass param m).next) ⟨0, _, Or.inr (Or.inl (by rw [hnext]))⟩
    have hslot'' := htracked (m := (b.pass param (b.pass param m).next).next)
      ⟨0, _, Or.inr (Or.inr (by rw [hnext']))⟩
    exact ⟨unicode, ((reachesBy_step hslot.2 hslot.1 rfl).trans (reachesBy_step hslot'.2 hslot'.1 rfl)).trans
      (reachesBy_step hslot''.2 hslot''.1 hnext''), fun i hi => hunits i (Nat.zero_le _) hi⟩
  | succ j ih =>
    obtain ⟨unicode, hnext, hunits⟩ := slot_next h hj hgoto hde hread
    have hslotj := h.slot j (by omega)
    rw [show x.slots - 1 - j = x.slots - (j + 1) by omega] at hslotj
    obtain ⟨-, hnumber, -, -⟩ := LiveEntry.slot_id (by omega) hslotj
    have hnext' : (b.pass param (b.pass param m).next).next =
        { m with goto := .slot j x.checksum, de := k + (x.slots - (j + 1)), unicode := unicode } := by
      rw [hnext]
      unfold pass
      simp only [past_of_record (show 32 * (k + (x.slots - (j + 1)) + 1) ≤ b.size by omega), Nat.succ_ne_zero,
        LiveEntry.slot_attr j hslotj, hnumber, LiveEntry.slot_checksum j hslotj, ne_eq, not_true_eq_false,
        Bool.false_eq_true, if_false, Nat.add_sub_cancel]
    obtain ⟨unicode', hreach, hunits'⟩ := ih (by omega)
      (m := { m with goto := .slot j x.checksum, de := k + (x.slots - (j + 1)), unicode := unicode }) rfl
      (by simp only; omega) hlong (fun _ => hunits)
    have hslot := htracked ⟨_, _, Or.inl hgoto⟩
    have hslot' := htracked (m := (b.pass param m).next) ⟨j + 1, _, Or.inr (Or.inl (by rw [hnext]))⟩
    exact ⟨unicode', ((reachesBy_step hslot.2 hslot.1 rfl).trans (reachesBy_step hslot'.2 hslot'.1 hnext')).trans hreach,
      hunits'⟩

/-- The end of a live entry whose name is in `unicode`. -/
theorem reaches_liveEnd {k : ℕ} {x : LiveEntry param.bits} (h : b.HoldsLive k x) {m : DirState}
    (hgoto : m.goto = .recEnd) (hde : m.de = k + x.slots) (hdeleted : m.deleted = false)
    (hlong : m.longSlots = x.slots) (hunits : x.slots ≠ 0 → ∀ i ≤ x.long.length, m.unicode i = x.unit i) :
    (b.pass param m).next.list = m.list ++ (x.listed m.utf8).1 ∧
      (b.pass param m).next.utf8 = (x.listed m.utf8).2 ∧
      b.Between param (k + x.slots + 1) (b.pass param m).next := by
  have hattr := LiveEntry.attr_of_holds h.entry
  have hne : b.attr m.de ≠ attrExt := by
    rw [hde, hattr]
    exact LiveEntry.attr_ne_ext
  have hslots : x.slots = 0 ↔ x.long = [] := by
    rw [← length_eq_zero_iff, LiveEntry.slots]
    omega
  have hfile : ∀ m' : DirState, m'.de = m.de → b.isFile m' = true := fun m' hm' =>
    decide_eq_true ⟨Or.inl (hm' ▸ hne), by rw [hm', hde, hattr, x.attr_file]⟩
  -- the name is in `unicode` at the end of the entry
  have hnamed : (∀ i (hi : i < x.units.length), (b.named param m).unicode i = x.units[i]) ∧
      (b.named param m).unicode x.units.length = 0 ∧ (b.named param m).deleted = false ∧
      (b.named param m).list = m.list ∧ (b.named param m).utf8 = m.utf8 ∧
      b.isFile (b.named param m) = true := by
    by_cases hnil : x.slots = 0
    · have hshort : b.shortUnits m.de = x.units := by
        rw [hde, LiveEntry.shortUnits_of_holds h.entry, LiveEntry.units, if_pos (hslots.mp hnil)]
      obtain ⟨hwritten, hend⟩ := writeUnits_name m.unicode x.units
      have hfirst : writeUnits m.unicode 0 (x.units ++ [0]) 0 ≠ deletedFlag.toNat := by
        obtain ⟨u, l, hl, hu⟩ := x.shortUnits_first
        have hunits : x.units = u :: l := (if_pos (hslots.mp hnil)).trans hl
        rw [hwritten 0 (by rw [hunits]; exact Nat.succ_pos _)]
        simp only [hunits, getElem_cons_zero]
        exact hu
      have hname : b.named param m = { m with unicode := writeUnits m.unicode 0 (x.units ++ [0]) } := by
        rw [named, if_pos ⟨hlong.trans hnil, hne⟩]
        simp only [hshort, hfirst, false_and, if_false]
      rw [hname]
      exact ⟨hwritten, hend, hdeleted, rfl, rfl, hfile _ rfl⟩
    · have hname : b.named param m = m := if_neg fun hx => hnil (hlong.symm.trans hx.1)
      have hlist : x.units = x.long.map UInt16.toNat := if_neg fun hx => hnil (hslots.mpr hx)
      have hlength : x.units.length = x.long.length := by rw [hlist, length_map]
      rw [hname]
      refine ⟨fun i hi => ?_, ?_, hdeleted, rfl, rfl, hfile _ rfl⟩
      · rw [hunits hnil i (by omega), LiveEntry.unit, dif_pos (by omega)]
        simp only [hlist, getElem_map]
      · rw [hunits hnil _ (le_of_eq hlength), LiveEntry.unit, dif_neg (by omega), if_pos hlength]
  obtain ⟨hwritten, hend, hdeleted', hlist, hutf8, hisFile⟩ := hnamed
  have hholds : b.Holds (b.named param m).de x.shortByte := by
    rw [named_de, hde]
    exact h.entry
  obtain ⟨hzero, hlist', hutf8'⟩ := append_live hholds hisFile hdeleted' hwritten hend
  rw [hlist, hutf8] at hlist'
  rw [hutf8] at hutf8'
  rw [recEnd_next hgoto fun hx => hzero hx.2]
  refine ⟨hlist', hutf8', between_of_more (by rw [hde]) (by rw [hde]) fun _ _ => ?_⟩
  rw [← hde]
  exact hne

/-- **A live record**, in front of which the walk stands. -/
theorem reaches_live {k : ℕ} {x : LiveEntry param.bits} (hx : b.HoldsLive k x) {m : DirState}
    (h : b.Between param k m) :
    ∃ m', ReachesBy (b.step param) (b.Tracked param E) m m' ∧ m'.list = m.list ++ (x.listed m.utf8).1 ∧
      m'.utf8 = (x.listed m.utf8).2 ∧ b.Between param (k + x.slots + 1) m' := by
  obtain ⟨hzero, hflag⟩ := hx.id_ne
  have hinside := hx.inside
  have hin : 32 * (k + 1) ≤ b.size := by omega
  obtain ⟨m₀, hreach, hgoto, hde, hlist, hutf8⟩ :=
    reaches_getNew (E := E) h hflag (more_of_record hzero hin) hin
  have hne : m₀.goto ≠ .done := by rw [hgoto]; decide
  have htracked : b.Tracked param E m₀ := tracked_of_ne fun _ _ hg => by rw [hgoto] at hg; cases hg
  by_cases hslots : x.slots = 0
  · have hattr : b.attr k ≠ attrExt := by
      have hentry := hx.entry
      rw [hslots, Nat.add_zero] at hentry
      rw [LiveEntry.attr_of_holds hentry]
      exact LiveEntry.attr_ne_ext
    have hnext : (b.pass param m₀).next = { m₀ with
        goto := .recEnd, longSlots := 0, deleted := false, unicode := Function.update m₀.unicode 0 0 } := by
      unfold pass
      simp only [hgoto, hde, hattr, if_false]
    have hend := reaches_liveEnd hx (m := (b.pass param m₀).next) (by rw [hnext]) (by rw [hnext, hslots]; exact hde)
      (by rw [hnext]) (by rw [hnext, hslots]) (fun h => absurd hslots h)
    refine ⟨_, hreach.trans (reachesBy_recEnd hne htracked rfl (by rw [hnext])), ?_⟩
    rw [hnext] at hend
    rw [hnext, ← hlist, ← hutf8]
    exact hend
  · have hslot := hx.slot (x.slots - 1) (by omega)
    rw [Nat.sub_self, Nat.add_zero] at hslot
    obtain ⟨hlast, hnumber, -, -⟩ := LiveEntry.slot_id (by omega) hslot
    have hlast := hlast.mpr (by omega)
    rw [Nat.sub_add_cancel (by omega)] at hnumber
    have hle := x.slots_le
    have hnext : (b.pass param m₀).next = { m₀ with
        goto := .parseLong, longSlots := 0, deleted := false, unicode := Function.update m₀.unicode 0 0 } := by
      have hread : ¬ (b.id k = deletedFlag ∧ param.listDeleted = true) := fun h => hflag h.1
      unfold pass
      simp only [hgoto, hde, LiveEntry.slot_attr _ hslot, if_true, if_neg hread]
    have hbounds : ¬ (b.id k &&& 0x40 = 0 ∨ 20 < x.slots ∨ x.slots = 0) := by
      simp only [not_or]
      exact ⟨hlast, by omega, hslots⟩
    have hnext' : (b.pass param (b.pass param m₀).next).next = { m₀ with
        goto := .slot (x.slots - 1) x.checksum, longSlots := x.slots, deleted := false
        unicode := Function.update m₀.unicode 0 0 } := by
      rw [hnext]
      unfold pass
      simp only [hde, hnumber, if_neg hbounds, LiveEntry.slot_checksum _ hslot]
    obtain ⟨unicode, hloop, hunits⟩ := reaches_slots (E := E) hx (show x.slots - 1 < x.slots by omega)
      (m := (b.pass param (b.pass param m₀).next).next) (by rw [hnext']) (by rw [hnext', hde]; simp)
      (by rw [hnext']) (fun h => by omega)
    have hend := reaches_liveEnd hx (m := { (b.pass param (b.pass param m₀).next).next with
      goto := .recEnd, de := k + x.slots, unicode := unicode }) rfl rfl (by rw [hnext']) (by rw [hnext'])
      (fun _ => hunits)
    refine ⟨_, ((hreach.trans (reachesBy_step hne htracked rfl)).trans (reachesBy_step ?_ ?_ rfl)).trans
      (hloop.trans (reachesBy_step ?_ ?_ rfl)), ?_⟩
    · rw [hnext]
      exact fun h => DirGoto.noConfusion h
    · exact tracked_of_ne fun _ _ h => by rw [hnext] at h; cases h
    · exact fun h => DirGoto.noConfusion h
    · exact tracked_of_ne fun _ _ h => by cases h
    · rw [hnext'] at hend ⊢
      rw [← hlist, ← hutf8]
      exact hend

end DirBuffer

end RecoveryQt
