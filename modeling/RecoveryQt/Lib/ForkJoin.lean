import RecoveryQt.Lib.Threads

/-!
# Rounds of threads

A main thread starts other threads and waits for them, round by round.

* `ForkCommand`, `ForkState`, `ForkStep`: the main thread, and the others between its steps;
* `ForkRound`: commands that start each thread once and wait for it later;
* `Follows`: the threads of a round, as far as they have been started; `Follows.step`;
* `ForkInv`: where a run is in its rounds; `ForkInv.step`: each step keeps it;
* **`fork_join`**: whatever the order of the steps, the memory is that of the threads one after the other.
-/

namespace RecoveryQt

open StateTransition Relation List

variable {ι L X V : Type*}

/-- What the main thread does. -/
inductive ForkCommand (ι L : Type*) where
  | create (i : ι) (l : L)
  | join (i : ι)

/-- What the main thread still has to do, the threads that have been started and not been joined, and the memory. -/
structure ForkState (ι L X V : Type*) where
  commands : List (ForkCommand ι L)
  threads : ι → Option L
  mem : X → V

variable [DecidableEq ι] {prog : ι → L × (X → V) → Option (L × (X → V))}

/-- The main thread, or one of those that it has started, makes a step. -/
inductive ForkStep (prog : ι → L × (X → V) → Option (L × (X → V))) : ForkState ι L X V → ForkState ι L X V → Prop
  | create {c : ForkState ι L X V} {i : ι} {l : L} {cs : List (ForkCommand ι L)} (h : c.commands = .create i l :: cs) :
    ForkStep prog c { c with commands := cs, threads := Function.update c.threads i (some l) }
  | join {c : ForkState ι L X V} {i : ι} {l : L} {cs : List (ForkCommand ι L)} (h : c.commands = .join i :: cs)
    (hthread : c.threads i = some l) (hend : prog i (l, c.mem) = none) :
    ForkStep prog c { c with commands := cs, threads := Function.update c.threads i none }
  | work {c : ForkState ι L X V} {i : ι} {l l' : L} {m : X → V} (hthread : c.threads i = some l)
    (hstep : prog i (l, c.mem) = some (l', m)) :
    ForkStep prog c { c with threads := Function.update c.threads i (some l'), mem := m }

/-- A thread that runs to its end, while the others wait. -/
theorem forkStep_of_reaches {c : ForkState ι L X V} {i : ι} {l : L} (hthread : c.threads i = some l) {s : L × (X → V)}
    (hreach : Reaches (prog i) (l, c.mem) s) :
    ReflTransGen (ForkStep prog) c { c with threads := Function.update c.threads i (some s.1), mem := s.2 } := by
  induction hreach with
  | refl =>
    rw [← hthread, Function.update_eq_self]
  | @tail b s _ hstep ih =>
    have hwork : ForkStep prog { c with threads := Function.update c.threads i (some b.1), mem := b.2 } _ :=
      .work (Function.update_self ..) hstep
    rw [Function.update_idem] at hwork
    exact ih.tail hwork

/-! ## A round -/

/-- Commands that start each thread once, and wait for it later. -/
structure ForkRound (start : ι → L) (cs : List (ForkCommand ι L)) : Prop where
  nodup : cs.Nodup
  creates : ∀ i l, .create i l ∈ cs → l = start i
  joins : ∀ i, .join i ∈ cs
  before : ∀ pre i post, cs = pre ++ .join i :: post → .create i (start i) ∈ pre

/-- The threads of a round, after the commands `pre`: those that were not started yet are at their starts, and those
that were joined are at their ends. -/
structure Follows (prog : ι → L × (X → V) → Option (L × (X → V))) (start : ι → L) (pre : List (ForkCommand ι L))
    (c : ForkState ι L X V) (t : ThreadState ι L X V) : Prop where
  mem : c.mem = t.mem
  waiting : ∀ i, .create i (start i) ∉ pre → c.threads i = none ∧ t.locals i = start i
  running : ∀ i, .create i (start i) ∈ pre → .join i ∉ pre → c.threads i = some (t.locals i)
  joined : ∀ i, .join i ∈ pre → c.threads i = none ∧ prog i (t.locals i, t.mem) = none

section Round

variable {start : ι → L} {pre post : List (ForkCommand ι L)} {c : ForkState ι L X V} {t : ThreadState ι L X V}

omit [DecidableEq ι] in
theorem ForkRound.create_mem (h : ForkRound start (pre ++ post)) {i : ι} (hi : .join i ∈ pre) :
    .create i (start i) ∈ pre := by
  obtain ⟨front, back, rfl⟩ := append_of_mem hi
  have hfront := h.before front i (back ++ post) (by rw [append_assoc, cons_append])
  exact mem_append_left _ hfront

omit [DecidableEq ι] in
/-- Commands in the order of a clock, which starts each thread before it waits for it. -/
theorem ForkRound.of_times {cs : List (ForkCommand ι L)} (time : ForkCommand ι L → ℕ)
    (hsorted : cs.Pairwise fun x y => time x < time y) (hcreates : ∀ i l, .create i l ∈ cs → l = start i)
    (hstarted : ∀ i, .create i (start i) ∈ cs) (hjoins : ∀ i, .join i ∈ cs)
    (hbefore : ∀ i, time (.create i (start i)) < time (.join i)) : ForkRound start cs := by
  refine ⟨hsorted.imp fun hlt heq => ?_, hcreates, hjoins, fun pre i post hcs => ?_⟩
  · rw [heq] at hlt
    exact Nat.lt_irrefl _ hlt
  · -- behind the command to wait, no one is earlier
    have hmem := hstarted i
    rw [hcs, mem_append, mem_cons] at hmem
    rw [hcs] at hsorted
    refine hmem.resolve_right fun hmem => ?_
    rcases hmem with heq | hmem
    · cases heq
    · have hlt := (pairwise_cons.mp (pairwise_append.mp hsorted).2.1).1 _ hmem
      exact absurd (hbefore i) (Nat.not_lt.mpr (Nat.le_of_lt hlt))

omit [DecidableEq ι] in
/-- At the start of a round no thread runs. -/
theorem Follows.initial (hthreads : ∀ i, c.threads i = none) : Follows prog start [] c ⟨start, c.mem⟩ :=
  ⟨rfl, fun i _ => ⟨hthreads i, rfl⟩, fun _ h => absurd h not_mem_nil, fun _ h => absurd h not_mem_nil⟩

omit [DecidableEq ι] in
/-- At the end of a round all threads are at their ends. -/
theorem Follows.end (hround : ForkRound start pre) (h : Follows prog start pre c t) :
    (∀ i, c.threads i = none) ∧ t.Finished prog :=
  ⟨fun i => (h.joined i (hround.joins i)).1, fun i => (h.joined i (hround.joins i)).2⟩

omit [DecidableEq ι] in
/-- A thread that has been started and not been joined. -/
theorem Follows.local_eq (h : Follows prog start pre c t) {i : ι} {l : L} (hthread : c.threads i = some l) :
    .create i (start i) ∈ pre ∧ .join i ∉ pre ∧ l = t.locals i := by
  have hcreate : .create i (start i) ∈ pre := by
    by_contra hno
    exact absurd ((h.waiting i hno).1.symm.trans hthread) (Option.some_ne_none _).symm
  have hjoin : .join i ∉ pre := fun hno =>
    absurd ((h.joined i hno).1.symm.trans hthread) (Option.some_ne_none _).symm
  exact ⟨hcreate, hjoin, Option.some.inj (hthread.symm.trans (h.running i hcreate hjoin))⟩

/-- A thread is started. -/
theorem Follows.create {i : ι} (hround : ForkRound start (pre ++ .create i (start i) :: post))
    (h : Follows prog start pre c t) (cs : List (ForkCommand ι L)) : Follows prog start (pre ++ [.create i (start i)])
      { c with commands := cs, threads := Function.update c.threads i (some (start i)) } t := by
  have hnew : .create i (start i) ∉ pre := fun hmem =>
    (nodup_append'.mp hround.nodup).2.2 hmem mem_cons_self
  refine ⟨h.mem, fun j hj => ?_, fun j hj hj' => ?_, fun j hj => ?_⟩
  · rw [mem_append, not_or, mem_singleton] at hj
    have hji : j ≠ i := by rintro rfl; exact hj.2 rfl
    simp only [Function.update_of_ne hji]
    exact h.waiting j hj.1
  · by_cases hji : j = i
    · subst hji
      simp only [Function.update_self, (h.waiting j hnew).2]
    · simp only [Function.update_of_ne hji]
      refine h.running j ?_ fun hmem => hj' (mem_append_left _ hmem)
      rcases mem_append.mp hj with hj | hj
      · exact hj
      · exact absurd (ForkCommand.create.inj (mem_singleton.mp hj)).1 hji
  · have hjoin : ForkCommand.join j ∈ pre := (mem_append.mp hj).resolve_right fun hmem => by cases mem_singleton.mp hmem
    have hji : j ≠ i := by rintro rfl; exact hnew (hround.create_mem hjoin)
    simp only [Function.update_of_ne hji]
    exact h.joined j hjoin

/-- A thread is joined. -/
theorem Follows.join {i : ι} {l : L} (hround : ForkRound start (pre ++ .join i :: post)) (h : Follows prog start pre c t)
    (hthread : c.threads i = some l) (hend : prog i (l, c.mem) = none) (cs : List (ForkCommand ι L)) :
    Follows prog start (pre ++ [.join i]) { c with commands := cs, threads := Function.update c.threads i none } t := by
  obtain ⟨hcreate, -, rfl⟩ := h.local_eq hthread
  refine ⟨h.mem, fun j hj => ?_, fun j hj hj' => ?_, fun j hj => ?_⟩
  · rw [mem_append, not_or] at hj
    have hji : j ≠ i := by rintro rfl; exact hj.1 hcreate
    simp only [Function.update_of_ne hji]
    exact h.waiting j hj.1
  · rw [mem_append, not_or, mem_singleton] at hj'
    have hji : j ≠ i := by rintro rfl; exact hj'.2 rfl
    simp only [Function.update_of_ne hji]
    exact h.running j ((mem_append.mp hj).resolve_right fun hmem => by cases mem_singleton.mp hmem) hj'.1
  · by_cases hji : j = i
    · subst hji
      simp only [Function.update_self, ← h.mem]
      exact ⟨trivial, hend⟩
    · simp only [Function.update_of_ne hji]
      refine h.joined j ((mem_append.mp hj).resolve_right fun hmem => hji ?_)
      exact ForkCommand.join.inj (mem_singleton.mp hmem)

/-- A thread that has been started goes on. -/
theorem Follows.work {reads writes : ι → Set X} {P : ι → L → Prop}
    (hkeeps : ∀ i, KeepsTo (prog i) (reads i) (writes i) (P i)) (hapart : ∀ i j, i ≠ j → Disjoint (writes i) (reads j))
    (hlocals : ∀ i, P i (t.locals i)) (h : Follows prog start pre c t) {i : ι} {l l' : L} {m : X → V}
    (hthread : c.threads i = some l) (hstep : prog i (l, c.mem) = some (l', m)) :
    Interleave prog t ⟨Function.update t.locals i l', m⟩ ∧
      Follows prog start pre { c with threads := Function.update c.threads i (some l'), mem := m }
        ⟨Function.update t.locals i l', m⟩ := by
  obtain ⟨hcreate, hjoin, rfl⟩ := h.local_eq hthread
  rw [h.mem] at hstep
  have hinter : Interleave prog t ⟨Function.update t.locals i l', m⟩ := ⟨i, l', m, hstep, rfl⟩
  refine ⟨hinter, rfl, fun j hj => ?_, fun j hj hj' => ?_, fun j hj => ?_⟩
  · have hji : j ≠ i := by rintro rfl; exact hj hcreate
    simp only [Function.update_of_ne hji]
    exact h.waiting j hj
  · by_cases hji : j = i
    · subst hji
      simp only [Function.update_self]
    · simp only [Function.update_of_ne hji]
      exact h.running j hj hj'
  · have hji : j ≠ i := by rintro rfl; exact hjoin hj
    obtain ⟨hnone, hend⟩ := h.joined j hj
    refine ⟨?_, (finished_step hkeeps hapart hlocals hend hinter).1⟩
    simp only [Function.update_of_ne hji]
    exact hnone

end Round

/-! ## All rounds -/

section Rounds

variable {ρ : Type*} {start : ρ → ι → L} {cmds : ρ → List (ForkCommand ι L)} {reads writes : ρ → ι → Set X}
  {P : ρ → ι → L → Prop} {alone : ρ → ι → (X → V) → X → V} {is : List ι} {m₀ : X → V} {rounds : List ρ}
  {c c' : ForkState ι L X V}

/-- The threads of a round, one after the other. -/
def roundAlone (alone : ρ → ι → (X → V) → X → V) (is : List ι) (m : X → V) (r : ρ) : X → V :=
  is.foldl (fun m i => alone r i m) m

/-- The main thread is in the round `r`, behind the commands `pre`. -/
structure InRound (prog : ι → L × (X → V) → Option (L × (X → V))) (start : ρ → ι → L) (cmds : ρ → List (ForkCommand ι L))
    (alone : ρ → ι → (X → V) → X → V) (is : List ι) (m₀ : X → V) (rounds : List ρ) (c : ForkState ι L X V)
    (front : List ρ) (r : ρ) (back : List ρ) (pre post : List (ForkCommand ι L)) (t : ThreadState ι L X V) : Prop where
  rounds : rounds = front ++ r :: back
  commands : cmds r = pre ++ post
  left : c.commands = post ++ back.flatMap cmds
  follows : Follows prog (start r) pre c t
  run : ReflTransGen (Interleave prog) ⟨start r, front.foldl (roundAlone alone is) m₀⟩ t

/-- The rounds keep to the rules. -/
structure RoundsKeep (prog : ι → L × (X → V) → Option (L × (X → V))) (start : ρ → ι → L) (cmds : ρ → List (ForkCommand ι L))
    (reads writes : ρ → ι → Set X) (P : ρ → ι → L → Prop) (alone : ρ → ι → (X → V) → X → V) (is : List ι) : Prop where
  round : ∀ r, ForkRound (start r) (cmds r)
  keeps : ∀ r i, KeepsTo (prog i) (reads r i) (writes r i) (P r i)
  apart : ∀ r i j, i ≠ j → Disjoint (writes r i) (reads r j)
  starts : ∀ r i, P r i (start r i)
  alone : ∀ r i m, ∃ l, Reaches (prog i) (start r i, m) (l, alone r i m) ∧ prog i (l, alone r i m) = none
  ends : ∀ r i l m, P r i l → ∃ s, Reaches (prog i) (l, m) s ∧ prog i s = none
  nodup : is.Nodup
  all : ∀ i, i ∈ is

variable (hkeep : RoundsKeep prog start cmds reads writes P alone is) {front back : List ρ} {r : ρ}
  {pre post : List (ForkCommand ι L)} {t : ThreadState ι L X V}

include hkeep

/-- The threads of a round have their invariants. -/
theorem InRound.locals (h : InRound prog start cmds alone is m₀ rounds c front r back pre post t) (i : ι) :
    P r i (t.locals i) := (Sees.run (hkeep.keeps r) (hkeep.apart r) (hkeep.starts r) h.run).locals i

/-- **The memory at the end of a round** is that of the threads one after the other. -/
theorem InRound.mem (h : InRound prog start cmds alone is m₀ rounds c front r back pre [] t) :
    (∀ i, c.threads i = none) ∧ c.mem = (front ++ [r]).foldl (roundAlone alone is) m₀ := by
  have hcommands : pre = cmds r := by rw [h.commands, append_nil]
  obtain ⟨hthreads, hfinished⟩ := h.follows.end (hcommands ▸ hkeep.round r)
  obtain ⟨t', hrun, hmem, hends⟩ := reaches_foldl (hkeep.keeps r) (hkeep.apart r)
    (c := ⟨start r, front.foldl (roundAlone alone is) m₀⟩) hkeep.nodup (hkeep.starts r) fun i _ m => hkeep.alone r i m
  refine ⟨hthreads, ?_⟩
  rw [h.follows.mem, memory_unique (hkeep.keeps r) (hkeep.apart r) (hkeep.starts r) h.run hfinished hrun
    fun i => hends i (hkeep.all i), hmem, foldl_append]
  rfl

/-- The next round. -/
theorem InRound.next {r' : ρ} (h : InRound prog start cmds alone is m₀ rounds c front r (r' :: back) pre [] t) :
    InRound prog start cmds alone is m₀ rounds c (front ++ [r]) r' back [] (cmds r') ⟨start r', c.mem⟩ := by
  obtain ⟨hthreads, hmem⟩ := h.mem hkeep
  refine ⟨?_, rfl, ?_, Follows.initial hthreads, ?_⟩
  · rw [h.rounds, append_assoc, singleton_append]
  · rw [h.left, nil_append, flatMap_cons]
  · rw [hmem]

omit hkeep in
/-- A run is in one of its rounds. -/
def ForkInv (prog : ι → L × (X → V) → Option (L × (X → V))) (start : ρ → ι → L) (cmds : ρ → List (ForkCommand ι L))
    (alone : ρ → ι → (X → V) → X → V) (is : List ι) (m₀ : X → V) (rounds : List ρ) (c : ForkState ι L X V) : Prop :=
  ∃ front r back pre post t, InRound prog start cmds alone is m₀ rounds c front r back pre post t

variable [Nonempty ι]

/-- A run that is at the end of a round is at the start of the next one. -/
theorem ForkInv.normal (h : ForkInv prog start cmds alone is m₀ rounds c) :
    ∃ front r back pre post t, InRound prog start cmds alone is m₀ rounds c front r back pre post t ∧
      (post = [] → back = []) := by
  obtain ⟨front, r, back, pre, post, t, h⟩ := h
  cases post with
  | cons x post => exact ⟨front, r, back, pre, _, t, h, fun h => absurd h (cons_ne_nil _ _)⟩
  | nil =>
    cases back with
    | nil => exact ⟨front, r, [], pre, [], t, h, fun _ => rfl⟩
    | cons r' back =>
      obtain ⟨i⟩ := ‹Nonempty ι›
      refine ⟨_, r', back, [], cmds r', _, h.next hkeep, fun hnil => ?_⟩
      exact absurd ((hkeep.round r').joins i) (hnil ▸ not_mem_nil)

/-- **Each step keeps a run in its rounds.** -/
theorem ForkInv.step (h : ForkInv prog start cmds alone is m₀ rounds c) (hstep : ForkStep prog c c') :
    ForkInv prog start cmds alone is m₀ rounds c' := by
  obtain ⟨front, r, back, pre, post, t, h, hnil⟩ := h.normal hkeep
  have hround := hkeep.round r
  rw [h.commands] at hround
  -- a step of the main thread is the first one that is left of the round
  have hfirst : ∀ {x : ForkCommand ι L} {cs : List (ForkCommand ι L)}, c.commands = x :: cs →
      ∃ post', post = x :: post' ∧ cs = post' ++ back.flatMap cmds := by
    intro x cs hx
    have hleft := h.left.symm.trans hx
    cases post with
    | nil =>
      rw [hnil rfl] at hleft
      cases hleft
    | cons y post =>
      obtain ⟨rfl, rfl⟩ := cons.inj hleft
      exact ⟨post, rfl, rfl⟩
  cases hstep with
  | @create i l cs hx =>
    obtain ⟨post, rfl, rfl⟩ := hfirst hx
    obtain rfl : l = start r i := hround.creates i l (by simp)
    exact ⟨front, r, back, pre ++ [.create i (start r i)], post, t, h.rounds,
      by rw [h.commands, append_assoc, singleton_append], rfl, h.follows.create hround _, h.run⟩
  | @join i l cs hx hthread hend =>
    obtain ⟨post, rfl, rfl⟩ := hfirst hx
    exact ⟨front, r, back, pre ++ [.join i], post, t, h.rounds,
      by rw [h.commands, append_assoc, singleton_append], rfl, h.follows.join hround hthread hend _, h.run⟩
  | @work i l l' m hthread hstep =>
    obtain ⟨hinter, hfollows⟩ := h.follows.work (hkeep.keeps r) (hkeep.apart r) (h.locals hkeep) hthread hstep
    exact ⟨front, r, back, pre, post, _, h.rounds, h.commands, h.left, hfollows, h.run.tail hinter⟩

theorem ForkInv.run (h : ForkInv prog start cmds alone is m₀ rounds c) (hrun : ReflTransGen (ForkStep prog) c c') :
    ForkInv prog start cmds alone is m₀ rounds c' := by
  induction hrun with
  | refl => exact h
  | tail _ hstep ih => exact ih.step hkeep hstep

/-- At the end of a run, the memory is that of the threads one after the other. -/
theorem ForkInv.mem_eq (h : ForkInv prog start cmds alone is m₀ rounds c) (hend : c.commands = []) :
    c.mem = rounds.foldl (roundAlone alone is) m₀ := by
  obtain ⟨front, r, back, pre, post, t, h, hnil⟩ := h.normal hkeep
  obtain ⟨rfl, -⟩ := append_eq_nil_iff.mp (h.left.symm.trans hend)
  obtain rfl := hnil rfl
  rw [h.rounds]
  exact (h.mem hkeep).2

/-- **A run can always go on to its end.** -/
theorem ForkInv.completes (h : ForkInv prog start cmds alone is m₀ rounds c) :
    ∃ c', ReflTransGen (ForkStep prog) c c' ∧ c'.commands = [] := by
  induction hn : c.commands.length using Nat.strong_induction_on generalizing c with
  | h n ih =>
    obtain ⟨front, r, back, pre, post, t, hin, hnil⟩ := h.normal hkeep
    have hleft := hin.left
    cases post with
    | nil =>
      rw [hnil rfl] at hleft
      exact ⟨c, .refl, hleft⟩
    | cons x post =>
      have hround := hkeep.round r
      rw [hin.commands] at hround
      -- the first command that is left is done, perhaps after some steps of a thread
      obtain ⟨c₁, hrun, hlt⟩ : ∃ c₁, ReflTransGen (ForkStep prog) c c₁ ∧ c₁.commands.length < n := by
        cases x with
        | create i l =>
          refine ⟨_, .single (.create hleft), ?_⟩
          rw [← hn, hleft]
          exact Nat.lt_succ_self _
        | join i =>
          have hcreate : .create i (start r i) ∈ pre := hround.before pre i post rfl
          have hjoin : .join i ∉ pre := fun hmem => (nodup_append'.mp hround.nodup).2.2 hmem mem_cons_self
          have hthread := hin.follows.running i hcreate hjoin
          obtain ⟨s, hreach, hend⟩ := hkeep.ends r i (t.locals i) c.mem (hin.locals hkeep i)
          refine ⟨_, (forkStep_of_reaches hthread hreach).tail (.join hleft (Function.update_self ..) hend), ?_⟩
          rw [← hn, hleft]
          exact Nat.lt_succ_self _
      obtain ⟨c', hrun', hend⟩ := ih _ hlt (h.run hkeep hrun) rfl
      exact ⟨c', hrun.trans hrun', hend⟩

/-- **Rounds of threads**: in whatever order the threads make their steps, the memory at the end is that of the
threads one after the other, and the end can always be reached. -/
theorem fork_join {c₀ : ForkState ι L X V} (hcommands : c₀.commands = rounds.flatMap cmds)
    (hthreads : ∀ i, c₀.threads i = none) (hrun : ReflTransGen (ForkStep prog) c₀ c) :
    (c.commands = [] → c.mem = rounds.foldl (roundAlone alone is) c₀.mem) ∧
      ∃ c', ReflTransGen (ForkStep prog) c c' ∧ c'.commands = [] := by
  cases rounds with
  | nil =>
    -- nothing to do, and no thread to go on
    have hstuck : c = c₀ := by
      rcases ReflTransGen.cases_head_iff.mp hrun with rfl | ⟨b, hstep, -⟩
      · rfl
      · cases hstep with
        | create h => rw [hcommands] at h; cases h
        | join h => rw [hcommands] at h; cases h
        | work hthread => rw [hthreads] at hthread; cases hthread
    rw [hstuck]
    exact ⟨fun _ => rfl, c₀, .refl, hcommands⟩
  | cons r back =>
    have hinv : ForkInv prog start cmds alone is c₀.mem (r :: back) c₀ :=
      ⟨[], r, back, [], cmds r, ⟨start r, c₀.mem⟩, rfl, rfl, hcommands, Follows.initial hthreads, .refl⟩
    exact ⟨(hinv.run hkeep hrun).mem_eq hkeep, (hinv.run hkeep hrun).completes hkeep⟩

end Rounds

end RecoveryQt
