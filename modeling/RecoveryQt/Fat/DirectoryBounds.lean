import RecoveryQt.Fat.Directory
import RecoveryQt.Lib.Halting

/-!
# The bounds of the FAT directory decoder

* `DirBuffer.InBounds`: whatever is read and written stays inside its array;
* `DirBuffer.need`, `DirBuffer.Whole`: the bytes of an entry that a pass looks at;
* `DirBuffer.Inv`: what holds of the variables in every state that is reached;
* `DirBuffer.DeletedRun`: the deleted slots in front of a deleted entry;
* **`DirBuffer.inBounds_iff`**, `DirBuffer.inBounds_iff_of_entries`.
-/

namespace RecoveryQt

open List StateTransition

namespace DirBuffer

variable (b : DirBuffer) (param : DirParam)

/-- The states that are reached, whatever `unicode` holds at the start. -/
def Reached (m : DirState) : Prop := ∃ unicode, Reaches (b.step param) (start unicode) m

/-- Every byte that is read lies in the buffer, and every unit that is written in `unicode[1000]`. -/
def InBounds : Prop :=
  ∀ m, b.Reached param m →
    (∀ i ∈ (b.pass param m).reads, i < b.size) ∧ ∀ i ∈ (b.pass param m).writes, i < 1000

/-- How many bytes of its entry a pass looks at. -/
def need (m : DirState) : ℕ :=
  match m.goto with
  | .getNew => 12
  | .parseLongDeleted => 14
  | .deletedSlot _ _ =>
    if b.past m.de then 0 else if b.id m.de ≠ deletedFlag then 1 else if b.attr m.de ≠ attrExt then 12 else 14
  | .parseLongDeletedNext _ _ => 12
  | .parseLong =>
    if b.id m.de &&& 0x40 = 0 ∨ 20 < (b.id m.de &&& ~~~ 0x40).toNat ∨ (b.id m.de &&& ~~~ 0x40).toNat = 0 then 1
    else 14
  | .slot _ _ => 32
  | .nextSlot slot _ =>
    if b.past m.de ∨ slot = 0 then 0
    else if b.attr m.de ≠ attrExt ∨ (b.id m.de &&& ~~~ 0x40).toNat ≠ slot then 12
    else 14
  | .aliasEntry _ => 12
  | .recEnd => if b.listed (b.named param m) then 32 else 28
  | .done => 0

/-- The buffer has so many bytes of the entry. -/
def Whole (m : DirState) : Prop := b.need param m = 0 ∨ 32 * m.de + b.need param m ≤ b.size

/-! ## What a step does -/

variable {b param}

theorem step_eq_some {m m' : DirState} :
    b.step param m = some m' ↔ m.goto ≠ .done ∧ (b.pass param m).next = m' := by
  unfold step
  split_ifs with h <;> simp [h]

theorem Reached.next {m : DirState} (h : b.Reached param m) (hm : m.goto ≠ .done) :
    b.Reached param (b.pass param m).next := by
  obtain ⟨unicode, h⟩ := h
  exact ⟨unicode, h.tail (step_eq_some.mpr ⟨hm, rfl⟩)⟩

theorem reached_start (unicode : ℕ → ℕ) : b.Reached param (start unicode) := ⟨unicode, .refl⟩

/-- What every step keeps holds of the states reached. -/
theorem Reached.induction {P : DirState → Prop} (hstart : ∀ unicode, P (start unicode))
    (hstep : ∀ m, b.Reached param m → m.goto ≠ .done → P m → P (b.pass param m).next) {m : DirState}
    (h : b.Reached param m) : P m := by
  obtain ⟨unicode, h⟩ := h
  induction h with
  | refl => exact hstart unicode
  | tail hab hbc ih =>
    obtain ⟨hne, rfl⟩ := step_eq_some.mp hbc
    exact hstep _ ⟨unicode, hab⟩ hne ih

/-! ## The deleted slots in front of an entry -/

variable (b) in
/-- `n` deleted slots from `initial` on, of the checksum of the first. -/
def DeletedSlots (initial n : ℕ) : Prop :=
  ∀ i < n, b.id (initial + i) = deletedFlag ∧ b.attr (initial + i) = attrExt ∧
    b.aliasChecksum (initial + i) = b.aliasChecksum initial

variable (b) in
/-- These slots, and behind them in the buffer a deleted entry that is no volume label. -/
structure DeletedRun (initial n : ℕ) : Prop where
  slots : b.DeletedSlots initial n
  inside : 32 * (initial + n) < b.size
  deleted : b.id (initial + n) = deletedFlag
  entry : b.attr (initial + n) ≠ attrExt
  file : b.attr (initial + n) &&& attrVolume = 0

variable (b param) in
/-- A run of deleted slots that is read from its first one on. -/
def ReadsRun (initial n : ℕ) : Prop :=
  (∃ m, b.Reached param m ∧ m.goto = .parseLongDeleted ∧ m.de = initial) ∧ b.DeletedRun initial n

variable (b param) in
/-- What holds of the variables in every state that is reached. -/
def Inv (m : DirState) : Prop :=
  match m.goto with
  | .deletedSlot initial sum =>
    ∃ n, m.de = initial + n ∧ m.longSlots = n % 256 ∧ b.DeletedSlots initial n ∧ sum = b.aliasChecksum initial ∧
      ∃ m, b.Reached param m ∧ m.goto = .parseLongDeleted ∧ m.de = initial
  | .parseLongDeletedNext initial _ =>
    ∃ n, m.de = initial + n ∧ m.longSlots = n % 256 ∧ b.DeletedSlots initial n ∧ 32 * m.de < b.size ∧
      b.id m.de = deletedFlag ∧ b.attr m.de ≠ attrExt ∧
      ∃ m, b.Reached param m ∧ m.goto = .parseLongDeleted ∧ m.de = initial
  | .slot slot _ => slot < 20
  | .nextSlot slot _ => slot < 20
  | _ => True

theorem deletedSlots_succ {initial n : ℕ} (h : b.DeletedSlots initial n) (hid : b.id (initial + n) = deletedFlag)
    (hattr : b.attr (initial + n) = attrExt)
    (hsum : b.aliasChecksum (initial + n) = b.aliasChecksum initial) : b.DeletedSlots initial (n + 1) := by
  intro i hi
  rcases Nat.lt_succ_iff_lt_or_eq.mp hi with hi | rfl
  · exact h i hi
  · exact ⟨hid, hattr, hsum⟩

theorem inv_of_reached {m : DirState} (h : b.Reached param m) : b.Inv param m := by
  refine Reached.induction (fun _ => trivial) (fun m hm hne hinv => ?_) h
  unfold Inv at hinv
  unfold pass
  cases hgoto : m.goto with
  | getNew =>
    by_cases hattr : b.attr m.de = attrExt
    · by_cases hid : b.id m.de = deletedFlag ∧ param.listDeleted <;> simp [Inv, hattr, hid]
    · simp [Inv, hattr]
  | parseLongDeleted =>
    exact ⟨0, rfl, rfl, fun i hi => absurd hi (Nat.not_lt_zero i), rfl, m, hm, hgoto, rfl⟩
  | deletedSlot initial sum =>
    rw [hgoto] at hinv
    obtain ⟨n, hde, hlong, hslots, hsum, hfrom⟩ := hinv
    simp only
    split_ifs with hpast hid hattr hcheck
    · exact trivial
    · exact trivial
    · have hin : 32 * m.de < b.size := by simpa [past] using hpast
      exact ⟨n, hde, hlong, hslots, hin, not_not.mp hid, hattr, hfrom⟩
    · exact trivial
    · rw [not_not] at hid hattr hcheck
      refine ⟨n + 1, by rw [hde]; rfl, ?_, ?_, hsum, hfrom⟩
      · show (m.longSlots + 1) % 256 = (n + 1) % 256
        omega
      · rw [hde] at hid hattr hcheck
        exact deletedSlots_succ hslots hid hattr (hcheck.trans hsum)
  | parseLongDeletedNext initial sum =>
    simp only
    split_ifs <;> exact trivial
  | parseLong =>
    simp only
    split_ifs with hslots
    · exact trivial
    · show (b.id m.de &&& ~~~ 0x40).toNat - 1 < 20
      simp only [not_or] at hslots
      omega
  | slot slot sum =>
    rw [hgoto] at hinv
    exact hinv
  | nextSlot slot sum =>
    rw [hgoto] at hinv
    simp only
    split_ifs
    · exact trivial
    · exact trivial
    · exact trivial
    · exact trivial
    · exact trivial
    · exact lt_of_le_of_lt (Nat.sub_le slot 1) hinv
  | aliasEntry sum =>
    simp only
    split_ifs <;> exact trivial
  | recEnd =>
    simp only
    split_ifs with hstop hmore
    · exact trivial
    · exact trivial
    · exact trivial
  | done => exact absurd hgoto hne

/-! ## The bytes that a pass reads -/

@[simp] theorem named_de (m : DirState) : (b.named param m).de = m.de := by
  unfold named
  simp only
  split_ifs <;> rfl

theorem positions_lt_iff {de k n : ℕ} {l : List ℕ} (hk : k ∈ l) (hl : ∀ o ∈ l, o ≤ k) :
    (∀ i ∈ positions de l, i < n) ↔ 32 * de + (k + 1) ≤ n := by
  rw [positions, forall_mem_map]
  exact ⟨fun h => h k hk, fun h o ho => by have := hl o ho; omega⟩

theorem le_of_mem_unitReads {o : ℕ} (h : o ∈ unitReads) : o ≤ 31 := by
  revert o
  decide

/-- The slots of a deleted name lie in the buffer. -/
theorem slots_inside {initial de longSlots n : ℕ} (hde : de = initial + n) (hlong : longSlots = n % 256)
    (hin : 32 * de < b.size) :
    ∀ i ∈ (range longSlots).flatMap fun i => positions (initial + i) unitReads, i < b.size := by
  intro j hj
  obtain ⟨i, hi, hj⟩ := mem_flatMap.mp hj
  obtain ⟨o, ho, rfl⟩ := mem_map.mp hj
  have hi := mem_range.mp hi
  have ho := le_of_mem_unitReads ho
  omega

/-- **The bytes that a pass looks at** are in the buffer exactly if the buffer has so many of the entry. -/
theorem reads_iff {m : DirState} (hinv : b.Inv param m) :
    (∀ i ∈ (b.pass param m).reads, i < b.size) ↔ b.Whole param m := by
  unfold Inv at hinv
  unfold pass Whole need
  cases hgoto : m.goto with
  | getNew =>
    simp only
    split_ifs
    · exact (positions_lt_iff (k := 11) (by decide) (by decide)).trans (by simp)
    · exact (positions_lt_iff (k := 11) (by decide) (by decide)).trans (by simp)
  | parseLongDeleted => exact (positions_lt_iff (k := 13) (by decide) (by decide)).trans (by simp)
  | deletedSlot initial sum =>
    simp only
    split_ifs
    · simp
    · exact (positions_lt_iff (k := 0) (by decide) (by decide)).trans (by simp)
    · exact (positions_lt_iff (k := 11) (by decide) (by decide)).trans (by simp)
    · exact (positions_lt_iff (k := 13) (by decide) (by decide)).trans (by simp)
    · exact (positions_lt_iff (k := 13) (by decide) (by decide)).trans (by simp)
  | parseLongDeletedNext initial sum =>
    rw [hgoto] at hinv
    obtain ⟨n, hde, hlong, -, hin, -⟩ := hinv
    simp only
    by_cases hvol : b.attr m.de &&& attrVolume ≠ 0
    · rw [if_pos hvol]
      exact (positions_lt_iff (k := 11) (by decide) (by decide)).trans (by simp)
    · rw [if_neg hvol, forall_mem_append]
      refine (and_iff_right (slots_inside hde hlong hin)).trans ?_
      exact (positions_lt_iff (k := 11) (by decide) (by decide)).trans (by simp)
  | parseLong =>
    simp only
    split_ifs
    · exact (positions_lt_iff (k := 0) (by decide) (by decide)).trans (by simp)
    · exact (positions_lt_iff (k := 13) (by decide) (by decide)).trans (by simp)
  | slot slot sum => exact (positions_lt_iff (k := 31) (by decide) (by decide)).trans (by simp)
  | nextSlot slot sum =>
    simp only
    by_cases hpast : b.past m.de
    · simp [hpast]
    by_cases hslot : slot = 0
    · simp [hpast, hslot]
    rw [if_neg hpast, if_neg hslot, if_neg (not_or.mpr ⟨hpast, hslot⟩)]
    by_cases hattr : b.attr m.de ≠ attrExt
    · rw [if_pos hattr, if_pos (Or.inl hattr)]
      exact (positions_lt_iff (k := 11) (by decide) (by decide)).trans (by simp)
    by_cases hid : (b.id m.de &&& ~~~ 0x40).toNat ≠ slot
    · rw [if_neg hattr, if_pos hid, if_pos (Or.inr hid)]
      exact (positions_lt_iff (k := 11) (by decide) (by decide)).trans (by simp)
    · rw [if_neg hattr, if_neg hid, if_neg (not_or.mpr ⟨hattr, hid⟩)]
      split_ifs <;> exact (positions_lt_iff (k := 13) (by decide) (by decide)).trans (by simp)
  | aliasEntry sum =>
    simp only
    split_ifs <;> exact (positions_lt_iff (k := 11) (by decide) (by decide)).trans (by simp)
  | recEnd =>
    simp only
    have hnext : ∀ i ∈ (if 32 * ((b.named param m).de + 1) + 1 < b.size then
        positions ((b.named param m).de + 1) [0] else []), i < b.size := by
      split_ifs with hmore
      · exact forall_mem_singleton.mpr (show 32 * ((b.named param m).de + 1) + 0 < b.size by omega)
      · exact fun i hi => absurd hi not_mem_nil
    rw [forall_mem_append, and_iff_left hnext, named_de]
    split_ifs
    · exact (positions_lt_iff (k := 31) (by decide) (by decide)).trans (by simp)
    · exact (positions_lt_iff (k := 27) (by decide) (by decide)).trans (by simp)
    · exact (positions_lt_iff (k := 31) (by decide) (by decide)).trans (by simp)
    · exact (positions_lt_iff (k := 27) (by decide) (by decide)).trans (by simp)
  | done => simp

/-! ## The units that a pass writes -/

theorem length_shortUnits_le (de : ℕ) : (b.shortUnits de).length ≤ 12 := by
  have hname : ((b.name de).takeWhile (· ≠ 0x20)).length ≤ 8 :=
    ( takeWhile_prefix _).length_le.trans (by simp [name])
  have hext : ((b.ext de).takeWhile (· ≠ 0x20)).length ≤ 3 := ( takeWhile_prefix _).length_le.trans (by simp [ext])
  unfold shortUnits
  split_ifs
  · simp only [length_map, length_append, length_cons]
    omega
  · simp only [length_map, length_append, length_nil]
    omega

variable (b) in
/-- A deleted name of no more slots than `unicode` has room for. -/
def Fits (m : DirState) : Prop :=
  ∀ initial sum, m.goto = .parseLongDeletedNext initial sum → b.attr m.de &&& attrVolume = 0 → m.longSlots ≤ 76

/-- **The units that a pass writes** are in `unicode` exactly if a deleted name fits. -/
theorem writes_iff {m : DirState} (hinv : b.Inv param m) :
    (∀ i ∈ (b.pass param m).writes, i < 1000) ↔ b.Fits m := by
  unfold Inv at hinv
  unfold pass Fits
  cases hgoto : m.goto with
  | getNew => simp
  | parseLongDeleted => simp
  | deletedSlot initial sum =>
    simp only
    split_ifs <;> simp
  | parseLongDeletedNext initial sum =>
    by_cases hvol : b.attr m.de &&& attrVolume ≠ 0
    · simp [hvol]
    · simp only [if_neg hvol, forall_mem_cons, mem_range]
      rw [ne_eq, not_not] at hvol
      constructor
      · intro h _ _ _ _
        omega
      · intro h
        have := h initial sum rfl hvol
        exact ⟨by omega, fun i hi => by omega⟩
  | parseLong =>
    simp only
    split_ifs <;> simp
  | slot slot sum =>
    rw [hgoto] at hinv
    have hslot : slot < 20 := hinv
    refine iff_of_true (fun i hi => ?_) (by simp)
    simp only [mem_append, mem_range'_1] at hi
    rcases hi with hi | hi
    · omega
    · split_ifs at hi
      · rw [mem_singleton] at hi
        omega
      · exact absurd hi not_mem_nil
  | nextSlot slot sum =>
    simp only
    split_ifs <;> simp
  | aliasEntry sum =>
    simp only
    split_ifs <;> simp
  | recEnd =>
    refine iff_of_true (fun i hi => ?_) (by simp)
    simp only at hi
    split_ifs at hi
    · have := length_shortUnits_le (b := b) (b.named param m).de
      have := mem_range.mp hi
      omega
    · exact absurd hi not_mem_nil
  | done => simp

/-! ## The entry at the end of the buffer -/

variable (b) in
/-- Only at the head of a loop over slots the entry may begin behind the buffer. -/
def Inside (m : DirState) : Prop :=
  match m.goto with
  | .deletedSlot _ _ => True
  | .nextSlot _ _ => True
  | .done => True
  | _ => m.de = 0 ∨ 32 * m.de < b.size

theorem inside_of_reached {m : DirState} (h : b.Reached param m) : b.Inside m := by
  refine Reached.induction (fun _ => Or.inl rfl) (fun m hm hne hin => ?_) h
  unfold Inside at hin
  unfold pass
  have hfrom : b.past m.de = false → 32 * m.de < b.size := fun h => by simpa [past] using h
  cases hgoto : m.goto with
  | getNew =>
    rw [hgoto] at hin
    by_cases hattr : b.attr m.de = attrExt
    · by_cases hid : b.id m.de = deletedFlag ∧ param.listDeleted <;> simpa [Inside, hattr, hid] using hin
    · simpa [Inside, hattr] using hin
  | parseLongDeleted => exact trivial
  | deletedSlot initial sum =>
    simp only
    split_ifs with hpast
    · exact trivial
    all_goals
      have hin : 32 * m.de < b.size := hfrom (by simpa using hpast)
    · exact Or.inr hin
    · exact Or.inr hin
    · exact Or.inr hin
    · exact trivial
  | parseLongDeletedNext initial sum =>
    rw [hgoto] at hin
    simp only
    split_ifs <;> exact hin
  | parseLong =>
    rw [hgoto] at hin
    simp only
    split_ifs <;> exact hin
  | slot slot sum => exact trivial
  | nextSlot slot sum =>
    simp only
    split_ifs with hpast
    · exact trivial
    all_goals exact Or.inr (hfrom (by simpa using hpast))
  | aliasEntry sum =>
    rw [hgoto] at hin
    simp only
    split_ifs <;> exact hin
  | recEnd =>
    simp only
    split_ifs with hstop hmore
    · exact trivial
    · have hlast : 32 * ((b.named param m).de + 1) + 1 < b.size := by
        simp only [more, decide_eq_true_eq] at hmore
        exact hmore.1
      exact Or.inr (show 32 * ((b.named param m).de + 1) < b.size by omega)
    · exact trivial
  | done => exact absurd hgoto hne

theorem need_le (m : DirState) : b.need param m ≤ 32 := by
  unfold need
  split
  all_goals first | omega | (split_ifs <;> omega)

/-- Of an entry behind the buffer nothing is looked at. -/
theorem need_of_inside {m : DirState} (hin : b.Inside m) (hde : m.de ≠ 0) (hpast : b.size ≤ 32 * m.de) :
    b.need param m = 0 := by
  unfold Inside at hin
  unfold need
  have hout : ¬ (m.de = 0 ∨ 32 * m.de < b.size) := not_or.mpr ⟨hde, not_lt.mpr hpast⟩
  have hpast : b.past m.de = true := decide_eq_true hpast
  cases hgoto : m.goto with
  | deletedSlot initial sum => simp [hpast]
  | nextSlot slot sum => simp [hpast]
  | done => rfl
  | _ =>
    rw [hgoto] at hin
    exact absurd hin hout

/-- Only the entry that the end of the buffer cuts can be looked at too far. -/
theorem whole_iff {m : DirState} (h : b.Reached param m) :
    b.Whole param m ↔ (m.de = b.size / 32 → b.need param m ≤ b.size % 32) := by
  have hneed : b.need param m ≤ 32 := need_le m
  have hzero : m.de ≠ 0 → b.size ≤ 32 * m.de → b.need param m = 0 := need_of_inside (inside_of_reached h)
  unfold Whole
  constructor
  · omega
  · intro hcut
    by_cases hlast : m.de = b.size / 32
    · have := hcut hlast
      omega
    · by_cases hbehind : b.size ≤ 32 * m.de
      · exact Or.inl (hzero (by omega) hbehind)
      · omega

/-! ## Runs of deleted slots -/

/-- The loop over deleted slots comes to the end of them. -/
theorem reached_deletedSlots {m : DirState} (h : b.Reached param m) (hgoto : m.goto = .parseLongDeleted)
    {n : ℕ} (hslots : b.DeletedSlots m.de n) (hin : 32 * (m.de + n) < b.size) :
    ∃ m', b.Reached param m' ∧ m'.goto = .deletedSlot m.de (b.aliasChecksum m.de) ∧ m'.de = m.de + n ∧
      m'.longSlots = n % 256 := by
  induction n with
  | zero =>
    refine ⟨_, h.next (by rw [hgoto]; decide), ?_⟩
    unfold pass
    rw [hgoto]
    exact ⟨rfl, rfl, rfl⟩
  | succ n ih =>
    obtain ⟨m', hm', hgoto', hde', hlong'⟩ := ih (fun i hi => hslots i (by omega)) (by omega)
    obtain ⟨hid, hattr, hsum⟩ := hslots n (Nat.lt_succ_self n)
    have hpast : b.past (m.de + n) = false := by
      rw [past, decide_eq_false_iff_not]
      omega
    have hnext : (b.pass param m').next = { m' with de := m'.de + 1, longSlots := (m'.longSlots + 1) % 256 } := by
      unfold pass
      simp only [hgoto', hpast, hde', hid, hattr, hsum, ne_eq, not_true_eq_false, if_false, Bool.false_eq_true]
    refine ⟨_, hm'.next (by rw [hgoto']; exact fun h => DirGoto.noConfusion h), ?_⟩
    rw [hnext]
    refine ⟨hgoto', by rw [hde']; rfl, ?_⟩
    show (m'.longSlots + 1) % 256 = (n + 1) % 256
    omega

/-- **Deleted names fit** exactly if no run of deleted slots that is read is too long. -/
theorem fits_iff : (∀ m, b.Reached param m → b.Fits m) ↔ ∀ initial n, b.ReadsRun param initial n → n % 256 ≤ 76 := by
  constructor
  · rintro h _ n ⟨⟨m, hm, hgoto, rfl⟩, hrun⟩
    obtain ⟨m', hm', hgoto', hde', hlong'⟩ := reached_deletedSlots hm hgoto hrun.slots hrun.inside
    have hpast : b.past (m.de + n) = false := by
      rw [past, decide_eq_false_iff_not]
      exact not_le.mpr hrun.inside
    have hnext : (b.pass param m').next =
        { m' with goto := .parseLongDeletedNext m.de (b.aliasChecksum m.de) } := by
      unfold pass
      simp only [hgoto', hpast, hde', hrun.deleted, hrun.entry, ne_eq, not_true_eq_false, not_false_iff, if_false,
        if_true, Bool.false_eq_true]
    have hreached := hm'.next (by rw [hgoto']; exact fun h => DirGoto.noConfusion h)
    rw [hnext] at hreached
    have hfile : b.attr m'.de &&& attrVolume = 0 := by
      rw [hde']
      exact hrun.file
    have hfits := h _ hreached
    rw [← hlong']
    exact hfits m.de (b.aliasChecksum m.de) rfl hfile
  · intro h m hm initial sum hgoto hvol
    have hinv := inv_of_reached hm
    unfold Inv at hinv
    rw [hgoto] at hinv
    obtain ⟨n, hde, hlong, hslots, hin, hid, hattr, hfrom⟩ := hinv
    rw [hde] at hin hid hattr hvol
    rw [hlong]
    exact h initial n ⟨hfrom, hslots, hin, hid, hattr, hvol⟩

/-- What a run that stays in its arrays looks at and writes. -/
theorem inBounds_iff_forall : b.InBounds param ↔
    ∀ m, b.Reached param m → (m.de = b.size / 32 → b.need param m ≤ b.size % 32) ∧ b.Fits m :=
  forall₂_congr fun m hm => by
    rw [reads_iff (inv_of_reached hm), writes_iff (inv_of_reached hm), whole_iff hm]

variable (b param)

/-- **Memory bound of the directory decoder**: it stays in its arrays exactly if of an entry that the end of the
buffer cuts it looks at no more than there is, and the deleted slots that it reads in front of a deleted entry,
counted in an `unsigned char`, are at most 76. -/
theorem inBounds_iff : b.InBounds param ↔
    (∀ m, b.Reached param m → m.de = b.size / 32 → b.need param m ≤ b.size % 32) ∧
      ∀ initial n, b.ReadsRun param initial n → n % 256 ≤ 76 := by
  rw [inBounds_iff_forall, ← fits_iff]
  exact ⟨fun h => ⟨fun m hm => (h m hm).1, fun m hm => (h m hm).2⟩, fun h m hm => ⟨h.1 m hm, h.2 m hm⟩⟩

variable {b}

/-- In a buffer of whole entries only the deleted slots matter. -/
theorem inBounds_iff_of_entries (hpos : 0 < b.size) (hdvd : 32 ∣ b.size) :
    b.InBounds param ↔ ∀ initial n, b.ReadsRun param initial n → n % 256 ≤ 76 := by
  rw [inBounds_iff_forall, ← fits_iff]
  refine forall₂_congr fun m hm => and_iff_right fun hde => ?_
  obtain ⟨k, hk⟩ := hdvd
  rw [need_of_inside (inside_of_reached hm) (by omega) (by omega)]
  exact Nat.zero_le _

/-- A deleted entry behind 77 deleted slots. -/
def longRun : DirBuffer where
  content i :=
    if i % 32 = 0 then 0xE5 else if i % 32 = 11 then (if i / 32 < 77 then 0x0F else 0x20) else 0
  size := 32 * 78

theorem longRun_byte (de : ℕ) {o : ℕ} (ho : o < 32) : longRun.byte de o =
    if o = 0 then 0xE5 else if o = 11 then (if de < 77 then 0x0F else 0x20) else 0 := by
  have hmod : (32 * de + o) % 32 = o := by omega
  have hdiv : (32 * de + o) / 32 = de := by omega
  show (if (32 * de + o) % 32 = 0 then _ else if (32 * de + o) % 32 = 11 then
    (if (32 * de + o) / 32 < 77 then _ else _) else _) = _
  rw [hmod, hdiv]

/-- Such a name does not fit. -/
theorem longRun_not_inBounds : ¬ longRun.InBounds ⟨true, false, false⟩ := by
  rw [inBounds_iff_of_entries _ (by decide) (by decide)]
  intro h
  have hid : ∀ de, longRun.id de = deletedFlag := fun de => longRun_byte de (by decide)
  have hslot : ∀ de < 77, longRun.attr de = attrExt := fun de hde =>
    (longRun_byte de (by decide)).trans (if_pos hde)
  have hentry : longRun.attr (0 + 77) = 0x20 := (longRun_byte 77 (by decide)).trans (if_neg (by decide))
  have hslots : longRun.DeletedSlots 0 77 := fun i hi => by
    rw [Nat.zero_add]
    exact ⟨hid i, hslot i hi, (longRun_byte i (by decide)).trans (longRun_byte 0 (by decide)).symm⟩
  have hrun : longRun.DeletedRun 0 77 := ⟨hslots, by decide, hid _, by rw [hentry]; decide, by rw [hentry]; decide⟩
  have hstart : longRun.Reached ⟨true, false, false⟩ (start fun _ => 0) := reached_start _
  have hfirst := hstart.next (by decide)
  refine absurd (h 0 77 ⟨⟨_, hfirst, ?_, rfl⟩, hrun⟩) (by decide)
  unfold pass
  simp only [start, hslot 0 (by decide), hid, and_self, if_true]

end DirBuffer

end RecoveryQt
