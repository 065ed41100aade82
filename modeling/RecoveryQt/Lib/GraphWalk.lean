import Mathlib.Data.List.Nodup

/-!
# Recursive walks of a graph of directories

A walk descends from a directory into those it lists, unless they are on the way down to it already or it is too deep.

* `Walker`, `Walker.Task`, `Walker.Runs`: the walk as a relation, with the directories that it reads on the way;
* **`runs_exists`**, `runs_unique`: it ends, with one result, whatever the graph is;
* **`visits_acyclic`**: no directory is read below itself, nor deeper than the walk may go;
* `runs_invariant`: what each entry keeps, the walk keeps;
* `listing`: the walk that lists what it comes to; `runs_foldl`: a walk that never gives up folds over this list;
* `entries_flatMap`: what a walk finds in a directory;
* **`runs_prefix`**: a walk that may give up finds the first entries of it, and all of them if it does not.
-/

namespace RecoveryQt

open List

/-- A walk over entries `ε` at places `γ`, with the state `σ`: how a directory is listed, which entries are passed
over, which ones are directories, what is done with an entry, `none` when the walk gives up there, and whether it gives
up when a nested walk does. -/
structure Walker (ε γ σ : Type*) where
  maxDepth : ℕ
  list : ℕ → Option (List ε)
  skips : ε → Bool
  dir : ε → Option ℕ
  below : γ → ε → γ
  emit : σ → γ → ε → Option σ
  strict : Bool

namespace Walker

variable {ε γ σ : Type*}

/-- A call for a directory, or the loop over its entries; `known` are the directories on the way down. -/
inductive Task (ε γ : Type*) where
  | dir (known : List ℕ) (place : γ) (inode : ℕ)
  | entries (known : List ℕ) (place : γ) (l : List ε)

/-- The entry is a directory to descend into. -/
def Enters (w : Walker ε γ σ) (known : List ℕ) (e : ε) (inode : ℕ) : Prop := w.dir e = some inode ∧ inode ∉ known

/-- The walk from a task and a state ends with a success or a failure and a state, and has read the directories
`visits`, each with those above it. -/
inductive Runs (w : Walker ε γ σ) : Task ε γ → σ → Bool → σ → List (List ℕ × ℕ) → Prop
  | deep {known : List ℕ} {place : γ} {inode : ℕ} {s : σ} (depth : w.maxDepth ≤ known.length) :
      Runs w (.dir known place inode) s true s []
  | failed {known : List ℕ} {place : γ} {inode : ℕ} {s : σ} (depth : known.length < w.maxDepth)
      (list : w.list inode = none) : Runs w (.dir known place inode) s false s [(known, inode)]
  | listed {known : List ℕ} {place : γ} {inode : ℕ} {s s' : σ} {l : List ε} {ok : Bool} {visits : List (List ℕ × ℕ)}
      (depth : known.length < w.maxDepth) (list : w.list inode = some l)
      (run : Runs w (.entries (known ++ [inode]) place l) s ok s' visits) :
      Runs w (.dir known place inode) s ok s' ((known, inode) :: visits)
  | nil {known : List ℕ} {place : γ} {s : σ} : Runs w (.entries known place []) s true s []
  | skip {known : List ℕ} {place : γ} {e : ε} {l : List ε} {s s' : σ} {ok : Bool} {visits : List (List ℕ × ℕ)}
      (skip : w.skips e = true) (run : Runs w (.entries known place l) s ok s' visits) :
      Runs w (.entries known place (e :: l)) s ok s' visits
  | full {known : List ℕ} {place : γ} {e : ε} {l : List ε} {s : σ} (keep : w.skips e = false)
      (emit : w.emit s (w.below place e) e = none) : Runs w (.entries known place (e :: l)) s false s []
  | pass {known : List ℕ} {place : γ} {e : ε} {l : List ε} {s s₁ s' : σ} {ok : Bool} {visits : List (List ℕ × ℕ)}
      (keep : w.skips e = false) (emit : w.emit s (w.below place e) e = some s₁)
      (stays : ∀ inode, ¬ w.Enters known e inode) (run : Runs w (.entries known place l) s₁ ok s' visits) :
      Runs w (.entries known place (e :: l)) s ok s' visits
  | enter {known : List ℕ} {place : γ} {e : ε} {l : List ε} {s s₁ s₂ s' : σ} {inode : ℕ} {ok₁ ok : Bool}
      {visits₁ visits : List (List ℕ × ℕ)} (keep : w.skips e = false)
      (emit : w.emit s (w.below place e) e = some s₁) (enters : w.Enters known e inode)
      (nested : Runs w (.dir known (w.below place e) inode) s₁ ok₁ s₂ visits₁) (goes : ok₁ = true ∨ w.strict = false)
      (run : Runs w (.entries known place l) s₂ ok s' visits) :
      Runs w (.entries known place (e :: l)) s ok s' (visits₁ ++ visits)
  | abort {known : List ℕ} {place : γ} {e : ε} {l : List ε} {s s₁ s' : σ} {inode : ℕ} {visits : List (List ℕ × ℕ)}
      (keep : w.skips e = false) (emit : w.emit s (w.below place e) e = some s₁) (enters : w.Enters known e inode)
      (nested : Runs w (.dir known (w.below place e) inode) s₁ false s' visits) (strict : w.strict = true) :
      Runs w (.entries known place (e :: l)) s false s' visits

variable {w : Walker ε γ σ}

/-- The loop over the entries ends when the walks into deeper directories do. -/
theorem entries_exists {known : List ℕ}
    (hdir : ∀ place inode s, ∃ ok s' visits, w.Runs (.dir known place inode) s ok s' visits) (place : γ) (l : List ε)
    (s : σ) : ∃ ok s' visits, w.Runs (.entries known place l) s ok s' visits := by
  induction l generalizing s with
  | nil => exact ⟨_, _, _, Runs.nil⟩
  | cons e l ih =>
    by_cases hskip : w.skips e = true
    · obtain ⟨ok, s', visits, hrun⟩ := ih s
      exact ⟨_, _, _, Runs.skip hskip hrun⟩
    · rw [Bool.not_eq_true] at hskip
      cases hemit : w.emit s (w.below place e) e with
      | none => exact ⟨_, _, _, Runs.full hskip hemit⟩
      | some s₁ =>
        by_cases henters : ∃ inode, w.Enters known e inode
        · obtain ⟨inode, henters⟩ := henters
          obtain ⟨ok₁, s₂, visits₁, hnested⟩ := hdir (w.below place e) inode s₁
          by_cases hgoes : ok₁ = true ∨ w.strict = false
          · obtain ⟨ok, s', visits, hrun⟩ := ih s₂
            exact ⟨_, _, _, Runs.enter hskip hemit henters hnested hgoes hrun⟩
          · rw [not_or, Bool.not_eq_true, Bool.not_eq_false] at hgoes
            obtain ⟨rfl, hstrict⟩ := hgoes
            exact ⟨_, _, _, Runs.abort hskip hemit henters hnested hstrict⟩
        · obtain ⟨ok, s', visits, hrun⟩ := ih s₁
          exact ⟨_, _, _, Runs.pass hskip hemit (not_exists.mp henters) hrun⟩

/-- **The walk ends**, whatever the graph is. The induction is on the depth that is left. -/
theorem runs_exists (w : Walker ε γ σ) (known : List ℕ) (place : γ) (inode : ℕ) (s : σ) :
    ∃ ok s' visits, w.Runs (.dir known place inode) s ok s' visits := by
  induction hroom : w.maxDepth - known.length generalizing known place inode s with
  | zero => exact ⟨_, _, _, Runs.deep (Nat.sub_eq_zero_iff_le.mp hroom)⟩
  | succ room ih =>
    have hdepth : known.length < w.maxDepth := by omega
    cases hlist : w.list inode with
    | none => exact ⟨_, _, _, Runs.failed hdepth hlist⟩
    | some l =>
      have hdir := fun place' inode' s' => ih (known ++ [inode]) place' inode' s'
        (by rw [length_append, length_singleton]; omega)
      obtain ⟨ok, s', visits, hrun⟩ := entries_exists hdir place l s
      exact ⟨_, _, _, Runs.listed hdepth hlist hrun⟩

theorem Enters.unique {known : List ℕ} {e : ε} {i j : ℕ} (hi : w.Enters known e i) (hj : w.Enters known e j) : i = j :=
  Option.some.inj (hi.1.symm.trans hj.1)

/-- A task has one outcome. -/
theorem runs_unique {t : Task ε γ} {s s₁ s₂ : σ} {ok₁ ok₂ : Bool} {v₁ v₂ : List (List ℕ × ℕ)}
    (h₁ : w.Runs t s ok₁ s₁ v₁) (h₂ : w.Runs t s ok₂ s₂ v₂) : ok₁ = ok₂ ∧ s₁ = s₂ ∧ v₁ = v₂ := by
  induction h₁ generalizing ok₂ s₂ v₂ with
  | deep depth => cases h₂ <;> first | exact ⟨rfl, rfl, rfl⟩ | omega
  | failed depth list =>
    cases h₂ with
    | deep depth' => omega
    | failed => exact ⟨rfl, rfl, rfl⟩
    | listed _ list' => simp_all
  | listed depth list run ih =>
    cases h₂ with
    | deep depth' => omega
    | failed _ list' => simp_all
    | listed _ list' run' =>
      obtain rfl := Option.some.inj (list.symm.trans list')
      obtain ⟨rfl, rfl, rfl⟩ := ih run'
      exact ⟨rfl, rfl, rfl⟩
  | nil => cases h₂; exact ⟨rfl, rfl, rfl⟩
  | skip skip run ih => cases h₂ <;> first | exact ih ‹_› | simp_all
  | full keep emit => cases h₂ <;> first | exact ⟨rfl, rfl, rfl⟩ | simp_all
  | pass keep emit stays run ih =>
    cases h₂ with
    | skip skip' => simp_all
    | full _ emit' => simp_all
    | pass _ emit' _ run' =>
      obtain rfl := Option.some.inj (emit.symm.trans emit')
      exact ih run'
    | enter _ _ enters' => exact absurd enters' (stays _)
    | abort _ _ enters' => exact absurd enters' (stays _)
  | enter keep emit enters nested goes run ihn ih =>
    cases h₂ with
    | skip skip' => simp_all
    | full _ emit' => simp_all
    | pass _ _ stays' => exact absurd enters (stays' _)
    | enter _ emit' enters' nested' _ run' =>
      obtain rfl := Option.some.inj (emit.symm.trans emit')
      obtain rfl := enters.unique enters'
      obtain ⟨rfl, rfl, rfl⟩ := ihn nested'
      obtain ⟨rfl, rfl, rfl⟩ := ih run'
      exact ⟨rfl, rfl, rfl⟩
    | abort _ emit' enters' nested' strict' =>
      obtain rfl := Option.some.inj (emit.symm.trans emit')
      obtain rfl := enters.unique enters'
      obtain ⟨rfl, rfl, rfl⟩ := ihn nested'
      simp_all
  | abort keep emit enters nested strict ihn =>
    cases h₂ with
    | skip skip' => simp_all
    | full _ emit' => simp_all
    | pass _ _ stays' => exact absurd enters (stays' _)
    | enter _ emit' enters' nested' goes' =>
      obtain rfl := Option.some.inj (emit.symm.trans emit')
      obtain rfl := enters.unique enters'
      obtain ⟨rfl, rfl, rfl⟩ := ihn nested'
      simp_all
    | abort _ emit' enters' nested' =>
      obtain rfl := Option.some.inj (emit.symm.trans emit')
      obtain rfl := enters.unique enters'
      exact ihn nested'

/-- The directories on the way down to a task. -/
def Task.known : Task ε γ → List ℕ
  | .dir known _ _ => known
  | .entries known _ _ => known

/-- The way down is without a cycle. -/
def Task.Acyclic : Task ε γ → Prop
  | .dir known _ inode => known.Nodup ∧ inode ∉ known
  | .entries known _ _ => known.Nodup

/-- **No directory is read below itself**, nor below more directories than the walk may have above it. -/
theorem visits_acyclic {t : Task ε γ} {s s' : σ} {ok : Bool} {visits : List (List ℕ × ℕ)}
    (h : w.Runs t s ok s' visits) (ht : t.Acyclic) :
    ∀ v ∈ visits, t.known <+: v.1 ∧ v.1.Nodup ∧ v.2 ∉ v.1 ∧ v.1.length < w.maxDepth := by
  induction h with
  | deep => exact nofun
  | failed depth list =>
    intro v hv
    obtain rfl := mem_singleton.mp hv
    exact ⟨prefix_rfl, ht.1, ht.2, depth⟩
  | @listed known place inode s s' l ok visits depth list run ih =>
    intro v hv
    rcases mem_cons.mp hv with rfl | hv
    · exact ⟨prefix_rfl, ht.1, ht.2, depth⟩
    · have hnodup : (known ++ [inode]).Nodup :=
        nodup_append.mpr ⟨ht.1, nodup_singleton _, fun a ha b hb => by
          rintro rfl
          exact ht.2 (mem_singleton.mp hb ▸ ha)⟩
      obtain ⟨hpre, hv⟩ := ih hnodup v hv
      exact ⟨( prefix_append known [inode]).trans hpre, hv⟩
  | nil => exact nofun
  | skip _ _ ih => exact ih ht
  | full => exact nofun
  | pass _ _ _ _ ih => exact ih ht
  | enter _ _ enters _ _ _ ihn ih =>
    intro v hv
    rcases mem_append.mp hv with hv | hv
    · exact ihn ⟨ht, enters.2⟩ v hv
    · exact ih ht v hv
  | abort _ _ enters _ _ ihn => exact fun v hv => ihn ⟨ht, enters.2⟩ v hv

/-- What each entry keeps, the walk keeps. -/
theorem runs_invariant {P : σ → Prop} (hP : ∀ s place e s', P s → w.emit s place e = some s' → P s') {t : Task ε γ}
    {s s' : σ} {ok : Bool} {visits : List (List ℕ × ℕ)} (h : w.Runs t s ok s' visits) (hs : P s) : P s' := by
  induction h with
  | deep => exact hs
  | failed => exact hs
  | listed _ _ _ ih => exact ih hs
  | nil => exact hs
  | skip _ _ ih => exact ih hs
  | full => exact hs
  | pass _ emit _ _ ih => exact ih (hP _ _ _ _ hs emit)
  | enter _ emit _ _ _ _ ihn ih => exact ih (ihn (hP _ _ _ _ hs emit))
  | abort _ emit _ _ _ ihn => exact ihn (hP _ _ _ _ hs emit)

/-! ## What a walk comes to -/

/-- The walk that lists all entries it comes to, and never gives up. -/
def listing (w : Walker ε γ σ) : Walker ε γ (List (γ × ε)) :=
  { w with
    emit := fun s place e => some (s ++ [(place, e)])
    strict := false }

/-- **A walk that never gives up** folds over the list of what it comes to. -/
theorem runs_foldl {g : σ → γ × ε → σ} (hemit : ∀ s place e, w.emit s place e = some (g s (place, e)))
    (hstrict : w.strict = false) (s : σ) {t : Task ε γ} {l l' : List (γ × ε)} {ok : Bool}
    {visits : List (List ℕ × ℕ)} (h : w.listing.Runs t l ok l' visits) :
    w.Runs t (l.foldl g s) ok (l'.foldl g s) visits := by
  have hnext : ∀ (l₁ l₂ : List (γ × ε)) place e, w.listing.emit l₁ place e = some l₂ →
      w.emit (l₁.foldl g s) place e = some (l₂.foldl g s) := by
    intro l₁ l₂ place e heq
    obtain rfl := Option.some.inj heq
    rw [hemit, foldl_append]
    rfl
  induction h with
  | deep depth => exact Runs.deep depth
  | failed depth list => exact Runs.failed depth list
  | listed depth list _ ih => exact Runs.listed depth list ih
  | nil => exact Runs.nil
  | skip skip _ ih => exact Runs.skip skip ih
  | full _ emit => cases emit
  | pass keep emit stays _ ih => exact Runs.pass keep (hnext _ _ _ _ emit) stays ih
  | enter keep emit enters _ _ _ ihn ih => exact Runs.enter keep (hnext _ _ _ _ emit) enters ihn (Or.inr hstrict) ih
  | abort _ _ _ _ strict => cases strict

/-- The loop over the entries, when what the nested walks find is known. -/
theorem entries_flatMap {β : Type*} {w : Walker ε γ (List β)} {item : γ → ε → β}
    (hemit : ∀ s place e, w.emit s place e = some (s ++ [item place e])) (hstrict : w.strict = false)
    {known : List ℕ} {place : γ} {f : ε → List β}
    (hnested : ∀ e inode, w.Enters known e inode → ∀ s, ∃ ok visits,
      w.Runs (.dir known (w.below place e) inode) s ok (s ++ f e) visits)
    (hstays : ∀ e, (∀ inode, ¬ w.Enters known e inode) → f e = []) (l : List ε) (s : List β) :
    ∃ ok visits, w.Runs (.entries known place l) s ok
      (s ++ l.flatMap fun e => if w.skips e then [] else item (w.below place e) e :: f e) visits := by
  induction l generalizing s with
  | nil => exact ⟨_, _, by simpa using Runs.nil⟩
  | cons e l ih =>
    rw [flatMap_cons]
    by_cases hskip : w.skips e = true
    · obtain ⟨ok, visits, hrun⟩ := ih s
      rw [if_pos hskip, nil_append]
      exact ⟨ok, visits, Runs.skip hskip hrun⟩
    · rw [if_neg hskip]
      rw [Bool.not_eq_true] at hskip
      by_cases henters : ∃ inode, w.Enters known e inode
      · obtain ⟨inode, henters⟩ := henters
        obtain ⟨ok₁, visits₁, hdir⟩ := hnested e inode henters (s ++ [item (w.below place e) e])
        obtain ⟨ok, visits, hrun⟩ := ih (s ++ [item (w.below place e) e] ++ f e)
        refine ⟨ok, visits₁ ++ visits, ?_⟩
        simpa using Runs.enter hskip (hemit _ _ _) henters hdir (Or.inr hstrict) hrun
      · obtain ⟨ok, visits, hrun⟩ := ih (s ++ [item (w.below place e) e])
        rw [hstays e (not_exists.mp henters)]
        refine ⟨ok, visits, ?_⟩
        simpa using Runs.pass hskip (hemit _ _ _) (not_exists.mp henters) hrun

theorem prefix_listing {t : Task ε γ} {l l' : List (γ × ε)} {ok : Bool} {visits : List (List ℕ × ℕ)}
    (h : w.listing.Runs t l ok l' visits) : l <+: l' := by
  refine runs_invariant (P := fun s => l <+: s) (fun s place e s' hs heq => ?_) h prefix_rfl
  obtain rfl := Option.some.inj heq
  exact hs.trans (prefix_append _ _)

section Listing

variable {known : List ℕ} {place : γ} {e : ε} {es : List ε} {s s' : List (γ × ε)} {ok : Bool} {visits : List (List ℕ × ℕ)}

/-- The listing behind an entry that is skipped. -/
theorem listing_skip (skip : w.skips e = true) (h : w.listing.Runs (.entries known place (e :: es)) s ok s' visits) :
    w.listing.Runs (.entries known place es) s ok s' visits := by
  cases h with
  | skip _ run => exact run
  | full keep => exact absurd (skip.symm.trans keep) nofun
  | pass keep => exact absurd (skip.symm.trans keep) nofun
  | enter keep => exact absurd (skip.symm.trans keep) nofun
  | abort keep => exact absurd (skip.symm.trans keep) nofun

/-- The listing behind an entry that is not entered. -/
theorem listing_pass (keep : w.skips e = false) (stays : ∀ inode, ¬ w.Enters known e inode)
    (h : w.listing.Runs (.entries known place (e :: es)) s ok s' visits) :
    w.listing.Runs (.entries known place es) (s ++ [(w.below place e, e)]) ok s' visits := by
  cases h with
  | skip skip => exact absurd (keep.symm.trans skip) nofun
  | full _ emit => cases emit
  | pass _ emit _ run =>
    obtain rfl := Option.some.inj emit
    exact run
  | enter _ _ enters => exact absurd enters (stays _)
  | abort _ _ _ _ strict => cases strict

/-- The listing of an entry that is entered, and behind it. -/
theorem listing_enter {inode : ℕ} (keep : w.skips e = false) (enters : w.Enters known e inode)
    (h : w.listing.Runs (.entries known place (e :: es)) s ok s' visits) : ∃ ok₁ s₂ visits₁ visits₂,
      w.listing.Runs (.dir known (w.below place e) inode) (s ++ [(w.below place e, e)]) ok₁ s₂ visits₁ ∧
      w.listing.Runs (.entries known place es) s₂ ok s' visits₂ := by
  cases h with
  | skip skip => exact absurd (keep.symm.trans skip) nofun
  | full _ emit => cases emit
  | pass _ _ stays => exact absurd enters (stays _)
  | enter _ emit enters' nested _ run =>
    obtain rfl := Option.some.inj emit
    obtain rfl := enters.unique enters'
    exact ⟨_, _, _, _, nested, run⟩
  | abort _ _ _ _ strict => cases strict

end Listing

/-- **A walk that gives up** when there is no room, or when a nested one does, has found the first entries of the list;
one that does not give up has found them all. -/
theorem runs_prefix {w : Walker ε γ (List (γ × ε))}
    (hemit : ∀ s place e s', w.emit s place e = some s' → s' = s ++ [(place, e)]) (hstrict : w.strict = true)
    {t : Task ε γ} {s s' l' : List (γ × ε)} {ok ok' : Bool} {visits visits' : List (List ℕ × ℕ)}
    (h : w.Runs t s ok s' visits) (hl : w.listing.Runs t s ok' l' visits') :
    s' <+: l' ∧ (ok = true → s' = l') := by
  induction h generalizing ok' l' visits' with
  | deep depth =>
    cases hl with
    | deep => exact ⟨prefix_rfl, fun _ => rfl⟩
    | failed depth' => exact absurd depth' (Nat.not_lt.mpr depth)
    | listed depth' => exact absurd depth' (Nat.not_lt.mpr depth)
  | failed depth list => exact ⟨prefix_listing hl, nofun⟩
  | listed depth list _ ih =>
    cases hl with
    | deep depth' => exact absurd depth (Nat.not_lt.mpr depth')
    | failed _ list' => exact absurd (list.symm.trans list') nofun
    | listed _ list' run' =>
      obtain rfl := Option.some.inj (list.symm.trans list')
      exact ih run'
  | nil =>
    cases hl
    exact ⟨prefix_rfl, fun _ => rfl⟩
  | skip skip _ ih => exact ih (listing_skip skip hl)
  | full keep emit => exact ⟨prefix_listing hl, nofun⟩
  | pass keep emit stays _ ih =>
    obtain rfl := hemit _ _ _ _ emit
    exact ih (listing_pass keep stays hl)
  | enter keep emit enters _ goes _ ihn ih =>
    obtain rfl := hemit _ _ _ _ emit
    obtain ⟨_, _, _, _, nested', run'⟩ := listing_enter keep enters hl
    rw [hstrict] at goes
    obtain rfl := (ihn nested').2 (goes.resolve_right nofun)
    exact ih run'
  | abort keep emit enters _ _ ihn =>
    obtain rfl := hemit _ _ _ _ emit
    obtain ⟨_, _, _, _, nested', run'⟩ := listing_enter keep enters hl
    exact ⟨(ihn nested').1.trans (prefix_listing run'), nofun⟩

end Walker

end RecoveryQt
