import Mathlib.Data.List.Infix

/-!
# Paths read name by name

A path as a list of names, of which some stand for the directory itself and some for the one above
it, read without looking at a filesystem.

* `lexStep`, `lexWalk`: where a name, and a path, lead from a directory;
* `Route`, `route`: how far a path climbs above its start, and the names that lead down from there;
* **`lexWalk_eq`**: a path leads where its route does;
* `Below`, **`Route.below_iff`**: when a route leads below its start.
-/

namespace RecoveryQt

open List

variable {κ : Type*} (self up : κ → Prop) [DecidablePred self] [DecidablePred up]

/-- Where one name leads. Above the root there is the root. -/
def lexStep (q : List κ) (n : κ) : List κ :=
  if self n then q else if up n then q.dropLast else q ++ [n]

/-- Where a path leads. -/
def lexWalk (q l : List κ) : List κ := l.foldl (lexStep self up) q

theorem lexWalk_append (q l l' : List κ) :
    lexWalk self up q (l ++ l') = lexWalk self up (lexWalk self up q l) l' := foldl_append

/-- The directories that a path climbs above its start, and the names that lead down again. -/
@[ext] structure Route (κ : Type*) where
  climb : ℕ
  down : List κ
  deriving DecidableEq

namespace Route

/-- The route with one more name. -/
def step (r : Route κ) (n : κ) : Route κ :=
  if self n then r
  else if up n then
    if r.down = [] then ⟨r.climb + 1, []⟩ else { r with down := r.down.dropLast }
  else { r with down := r.down ++ [n] }

/-- Where a route leads. -/
def lead (r : Route κ) (q : List κ) : List κ := q.take (q.length - r.climb) ++ r.down

variable {self up}

theorem lead_step (r : Route κ) (q : List κ) (n : κ) :
    (r.step self up n).lead q = lexStep self up (r.lead q) n := by
  unfold step lexStep
  by_cases hself : self n
  · rw [if_pos hself, if_pos hself]
  · rw [if_neg hself, if_neg hself]
    by_cases hup : up n
    · rw [if_pos hup, if_pos hup]
      by_cases hdown : r.down = []
      · rw [if_pos hdown, lead, lead, hdown, append_nil, append_nil, dropLast_eq_take, take_take,
          length_take]
        congr 1
        simp only
        omega
      · rw [if_neg hdown, lead, lead, dropLast_append_of_ne_nil hdown]
    · rw [if_neg hup, if_neg hup, lead, lead, append_assoc]

end Route

/-- The route of a path. -/
def route (l : List κ) : Route κ := l.foldl (Route.step self up) ⟨0, []⟩

/-- **A path leads where its route does.** -/
theorem lexWalk_eq (q l : List κ) : lexWalk self up q l = (route self up l).lead q := by
  induction l using List.reverseRecOn with
  | nil => simp [lexWalk, route, Route.lead]
  | append_singleton l n ih =>
    rw [lexWalk_append, ih, lexWalk, foldl_cons, foldl_nil, ← Route.lead_step, route, route,
      foldl_append, foldl_cons, foldl_nil]

variable {self up}

/-- A path of names that lead down. -/
theorem route_of_plain {l : List κ} (h : ∀ n ∈ l, ¬ self n ∧ ¬ up n) : route self up l = ⟨0, l⟩ := by
  induction l using List.reverseRecOn with
  | nil => rfl
  | append_singleton l n ih =>
    obtain ⟨hself, hup⟩ := h n (by simp)
    have hl := ih fun m hm => h m (mem_append_left _ hm)
    unfold route at hl ⊢
    rw [foldl_append, hl, foldl_cons, foldl_nil, Route.step, if_neg hself, if_neg hup]

/-! ## Below a directory -/

/-- The path leads below the directory. -/
def Below (q p : List κ) : Prop := q <+: p ∧ p ≠ q

instance [DecidableEq κ] (q p : List κ) : Decidable (Below q p) :=
  inferInstanceAs (Decidable (_ ∧ _))

theorem below_append_iff (a b c : List κ) : Below (a ++ b) (a ++ c) ↔ Below b c := by
  unfold Below
  rw [prefix_append_right_inj, ne_eq, ne_eq, append_right_inj]

/-- **A route leads below its start** when it comes back to all directories that it left, and goes
on. -/
theorem Route.below_iff (r : Route κ) (q : List κ) :
    Below q (r.lead q) ↔ Below (q.drop (q.length - r.climb)) r.down := by
  have hq := below_append_iff (q.take (q.length - r.climb)) (q.drop (q.length - r.climb)) r.down
  rwa [take_append_drop] at hq

/-- A route that never climbs leads below its start when it leads anywhere. -/
theorem Route.below_of_climb {r : Route κ} (h : r.climb = 0) (q : List κ) :
    Below q (r.lead q) ↔ r.down ≠ [] := by
  rw [below_iff, h, Nat.sub_zero, drop_length]
  exact and_iff_right nil_prefix

end RecoveryQt
