import RecoveryQt.Lib.Indices

/-!
# Reading a buffer

A computation that looks at a buffer is its result and the positions it looks at, in order.

* `Reading`: the computations; `byteAt`, `bytesAt`, `memcmpAt`: one byte, bytes until one differs, and all of some;
* `andThen`, `orElse`: what stops when the result is known;
* `findUp`, `findDown`, `lastUp`, `foldOver`: loops over the positions below a bound, and over a list;
* `Within`: it looks at nothing behind a bound; `within_bind` and the other rules say what that takes;
* `value_findUp`, `value_findDown`, `value_lastUp`: the loops are searches.
-/

namespace RecoveryQt

open List

/-- The result, and the positions that are looked at. -/
structure Reading (α : Type) where
  value : (ℕ → UInt8) → α
  reads : (ℕ → UInt8) → List ℕ

namespace Reading

variable {α β : Type}

instance : Monad Reading where
  pure a := ⟨fun _ => a, fun _ => []⟩
  bind m f := ⟨fun b => (f (m.value b)).value b, fun b => m.reads b ++ (f (m.value b)).reads b⟩

/-- One byte. -/
def byteAt (i : ℕ) : Reading UInt8 := ⟨fun b => b i, fun _ => [i]⟩

/-- A comparison that may look at all bytes. -/
def memcmpAt (i : ℕ) (bytes : List UInt8) : Reading Bool :=
  ⟨fun b => hasBytes b i bytes, fun _ => (range bytes.length).map (i + ·)⟩

/-- `m && m'`. -/
def andThen (m m' : Reading Bool) : Reading Bool := do
  let r ← m
  if r then m' else pure false

/-- `m || m'`. -/
def orElse (m m' : Reading Bool) : Reading Bool := do
  let r ← m
  if r then pure true else m'

/-- A byte that is compared. -/
def isByte (i : ℕ) (c : UInt8) : Reading Bool := do
  let x ← byteAt i
  pure (x == c)

/-- Bytes that are compared one after the other, until one differs. -/
def bytesAt : ℕ → List UInt8 → Reading Bool
  | _, [] => pure true
  | i, c :: cs => andThen (isByte i c) (bytesAt (i + 1) cs)

/-- The first of `n` positions from `i` on. -/
def findUpFrom (p : ℕ → Reading Bool) : ℕ → ℕ → Reading (Option ℕ)
  | 0, _ => pure none
  | n + 1, i => do
    let r ← p i
    if r then pure (some i) else findUpFrom p n (i + 1)

/-- The first position below `n`. -/
def findUp (p : ℕ → Reading Bool) (n : ℕ) : Reading (Option ℕ) := findUpFrom p n 0

/-- The last position below `n`, from there down. -/
def findDown (p : ℕ → Reading Bool) : ℕ → Reading (Option ℕ)
  | 0 => pure none
  | n + 1 => do
    let r ← p n
    if r then pure (some n) else findDown p n

/-- The last position below `n`, from the first position up. -/
def lastUp (p : ℕ → Reading Bool) : ℕ → Reading (Option ℕ)
  | 0 => pure none
  | n + 1 => do
    let last ← lastUp p n
    let r ← p n
    pure (if r then some n else last)

/-- One computation for each member of a list, which hands its result on. -/
def foldOver {σ : Type} (f : σ → α → Reading σ) : σ → List α → Reading σ
  | s, [] => pure s
  | s, a :: l => do
    let s' ← f s a
    foldOver f s' l

/-! ## Bounds -/

variable {b : ℕ → UInt8} {n : ℕ}

/-- All positions that are looked at are below `n`. -/
def Within (b : ℕ → UInt8) (n : ℕ) (m : Reading α) : Prop := ∀ i ∈ m.reads b, i < n

@[simp] theorem within_pure (a : α) : Within b n (pure a) := nofun

@[simp] theorem value_pure (a : α) : (pure a : Reading α).value b = a := rfl

@[simp] theorem value_bind (m : Reading α) (f : α → Reading β) : (m >>= f).value b = (f (m.value b)).value b := rfl

@[simp] theorem within_bind {m : Reading α} {f : α → Reading β} :
    Within b n (m >>= f) ↔ Within b n m ∧ Within b n (f (m.value b)) := by
  show (∀ i ∈ m.reads b ++ (f (m.value b)).reads b, i < n) ↔ _
  simp only [mem_append, or_imp, forall_and]
  rfl

@[simp] theorem within_byteAt {i : ℕ} : Within b n (byteAt i) ↔ i < n :=
  ⟨fun h => h i (mem_singleton.mpr rfl), fun h _ hj => (mem_singleton.mp hj).symm ▸ h⟩

@[simp] theorem value_byteAt (i : ℕ) : (byteAt i).value b = b i := rfl

@[simp] theorem value_memcmpAt (i : ℕ) (bytes : List UInt8) : (memcmpAt i bytes).value b = hasBytes b i bytes := rfl

theorem within_memcmpAt {i : ℕ} {bytes : List UInt8} :
    Within b n (memcmpAt i bytes) ↔ (bytes ≠ [] → i + bytes.length ≤ n) := by
  constructor
  · intro h hne
    have hpos := length_pos_iff.mpr hne
    have := h (i + (bytes.length - 1)) (mem_map.mpr ⟨_, mem_range.mpr (by omega), rfl⟩)
    omega
  · intro h j hj
    obtain ⟨k, hk, rfl⟩ := mem_map.mp hj
    have hk := mem_range.mp hk
    have := h (ne_nil_of_length_pos (by omega))
    omega

theorem within_memcmpAt_of_le {i : ℕ} {bytes : List UInt8} (h : i + bytes.length ≤ n) : Within b n (memcmpAt i bytes) :=
  within_memcmpAt.mpr fun _ => h

@[simp] theorem value_isByte (i : ℕ) (c : UInt8) : (isByte i c).value b = (b i == c) := rfl

@[simp] theorem within_isByte {i : ℕ} {c : UInt8} : Within b n (isByte i c) ↔ i < n := by simp [isByte]

@[simp] theorem value_andThen (m m' : Reading Bool) : (andThen m m').value b = (m.value b && m'.value b) := by
  rw [andThen, value_bind]
  cases m.value b <;> rfl

@[simp] theorem value_orElse (m m' : Reading Bool) : (orElse m m').value b = (m.value b || m'.value b) := by
  rw [orElse, value_bind]
  cases m.value b <;> rfl

theorem within_andThen {m m' : Reading Bool} (h : Within b n m) (h' : m.value b = true → Within b n m') :
    Within b n (andThen m m') := by
  refine within_bind.mpr ⟨h, ?_⟩
  split
  next hr => exact h' hr
  next => exact within_pure _

theorem within_orElse {m m' : Reading Bool} (h : Within b n m) (h' : Within b n m') : Within b n (orElse m m') := by
  refine within_bind.mpr ⟨h, ?_⟩
  split
  · exact within_pure _
  · exact h'

@[simp] theorem value_bytesAt (i : ℕ) (bytes : List UInt8) : (bytesAt i bytes).value b = hasBytes b i bytes := by
  induction bytes generalizing i with
  | nil => rfl
  | cons c cs ih => rw [bytesAt, value_andThen, value_isByte, ih, hasBytes]

theorem within_bytesAt {i : ℕ} {bytes : List UInt8} (h : i + bytes.length ≤ n) : Within b n (bytesAt i bytes) := by
  induction bytes generalizing i with
  | nil => exact within_pure _
  | cons c cs ih =>
    rw [length_cons] at h
    exact within_andThen (within_isByte.mpr (by omega)) fun _ => ih (by omega)

/-! ## Loops -/

variable {p : ℕ → Reading Bool}

theorem within_findUpFrom {m i : ℕ} (h : ∀ j, i ≤ j → j < i + m → Within b n (p j)) :
    Within b n (findUpFrom p m i) := by
  induction m generalizing i with
  | zero => exact within_pure _
  | succ m ih =>
    refine within_bind.mpr ⟨h i (Nat.le_refl _) (by omega), ?_⟩
    split
    · exact within_pure _
    · exact ih fun j hj hj' => h j (by omega) (by omega)

theorem within_findUp {m : ℕ} (h : ∀ j < m, Within b n (p j)) : Within b n (findUp p m) :=
  within_findUpFrom fun j _ hj => h j (by omega)

theorem within_findDown {m : ℕ} (h : ∀ j < m, Within b n (p j)) : Within b n (findDown p m) := by
  induction m with
  | zero => exact within_pure _
  | succ m ih =>
    refine within_bind.mpr ⟨h m (Nat.lt_succ_self m), ?_⟩
    split
    · exact within_pure _
    · exact ih fun j hj => h j (by omega)

theorem within_lastUp {m : ℕ} (h : ∀ j < m, Within b n (p j)) : Within b n (lastUp p m) := by
  induction m with
  | zero => exact within_pure _
  | succ m ih =>
    refine within_bind.mpr ⟨ih fun j hj => h j (by omega), ?_⟩
    exact within_bind.mpr ⟨h m (Nat.lt_succ_self m), within_pure _⟩

theorem value_foldOver {σ : Type} (f : σ → α → Reading σ) (l : List α) (s : σ) :
    (foldOver f s l).value b = l.foldl (fun s a => (f s a).value b) s := by
  induction l generalizing s with
  | nil => rfl
  | cons a l ih => rw [foldOver, value_bind, ih, foldl_cons]

/-- What is looked at for the members of a list, whatever is handed on. -/
theorem within_foldOver {σ : Type} {f : σ → α → Reading σ} {P : α → Prop} {l : List α}
    (h : ∀ a ∈ l, ∀ s, Within b n (f s a) ↔ P a) (s : σ) : Within b n (foldOver f s l) ↔ ∀ a ∈ l, P a := by
  induction l generalizing s with
  | nil => exact iff_of_true (within_pure _) nofun
  | cons a l ih =>
    rw [foldOver, within_bind, h a mem_cons_self, ih fun c hc => h c (mem_cons_of_mem _ hc), forall_mem_cons]

/-- Where a search from the start looks behind the bound: at the first position whose comparison does, unless it stops
before. -/
theorem within_findUpFrom_iff {m i : ℕ} :
    Within b n (findUpFrom p m i) ↔
      ∀ j, i ≤ j → j < i + m → (∀ k, i ≤ k → k < j → (p k).value b = false) → Within b n (p j) := by
  induction m generalizing i with
  | zero => exact iff_of_true (within_pure _) fun j hj hj' => absurd hj' (by omega)
  | succ m ih =>
    rw [findUpFrom, within_bind]
    cases hp : (p i).value b with
    | true =>
      rw [if_pos rfl]
      constructor
      · rintro ⟨h, -⟩ j hj _ hnone
        rcases Nat.eq_or_lt_of_le hj with rfl | hlt
        · exact h
        · exact absurd (hp.symm.trans (hnone i (Nat.le_refl _) hlt)) (by decide)
      · exact fun h => ⟨h i (Nat.le_refl _) (by omega) fun k hk hk' => absurd hk' (by omega), within_pure _⟩
    | false =>
      rw [if_neg Bool.false_ne_true, ih]
      constructor
      · rintro ⟨h, hrest⟩ j hj hlt hnone
        rcases Nat.eq_or_lt_of_le hj with rfl | hj
        · exact h
        · exact hrest j hj (by omega) fun k hk hk' => hnone k (by omega) hk'
      · intro h
        refine ⟨h i (Nat.le_refl _) (by omega) fun k hk hk' => absurd hk' (by omega), fun j hj hlt hnone => ?_⟩
        refine h j (by omega) (by omega) fun k hk hk' => ?_
        rcases Nat.eq_or_lt_of_le hk with rfl | hk
        · exact hp
        · exact hnone k hk hk'

/-! ## Searches -/

theorem value_findUpFrom (m i : ℕ) :
    (findUpFrom p m i).value b = (firstIndex? (fun k => (p (i + k)).value b) m).map (i + ·) := by
  induction m generalizing i with
  | zero => rfl
  | succ m ih =>
    rw [findUpFrom, value_bind, firstIndex?, range_succ_eq_map, find?_cons]
    rw [Nat.add_zero]
    cases (p i).value b with
    | true => rfl
    | false =>
      rw [if_neg Bool.false_ne_true, ih, firstIndex?, find?_map]
      simp only [Function.comp_def, Nat.succ_eq_add_one]
      rw [Option.map_map]
      congr 1
      · funext k
        simp only [Function.comp_apply]
        omega
      · congr 1
        funext k
        rw [Nat.add_right_comm, Nat.add_assoc]

theorem value_findUp (m : ℕ) : (findUp p m).value b = firstIndex? (fun k => (p k).value b) m := by
  rw [findUp, value_findUpFrom]
  simp

theorem lastIndex?_succ (q : ℕ → Bool) (m : ℕ) :
    lastIndex? q (m + 1) = if q m then some m else lastIndex? q m := by
  rw [lastIndex?, range_succ, reverse_append, reverse_singleton, singleton_append, find?_cons]
  cases q m <;> rfl

theorem value_findDown (m : ℕ) : (findDown p m).value b = lastIndex? (fun k => (p k).value b) m := by
  induction m with
  | zero => rfl
  | succ m ih =>
    rw [findDown, value_bind, lastIndex?_succ]
    split
    · rfl
    · exact ih

theorem value_lastUp (m : ℕ) : (lastUp p m).value b = lastIndex? (fun k => (p k).value b) m := by
  induction m with
  | zero => rfl
  | succ m ih =>
    rw [lastUp, value_bind, value_bind, value_pure, lastIndex?_succ, ih]

end Reading

end RecoveryQt
