import RecoveryQt.Scan.Run

/-!
# What the items of a scan do at one path

* `ScanItem.effect`: what an item does to the label at a path;
* `ScanItem.Fixes`: the item leaves a node as it is, its clusters apart;
* `Settled`: the items so far fix the node, and its clusters are the last that they fill in;
* **`effects_twice`**: doing the same items again changes nothing.
-/

namespace RecoveryQt

open List

/-- The last value of a list that says one, or `c`. -/
def lastOr {α β : Type*} (f : α → Option β) (c : β) (l : List α) : β :=
  l.foldl (fun c a => (f a).getD c) c

section LastOr

variable {α β : Type*} {f : α → Option β} {c : β} {l : List α}

theorem lastOr_concat (a : α) : lastOr f c (l ++ [a]) = (f a).getD (lastOr f c l) := by
  rw [lastOr, foldl_append]
  rfl

theorem lastOr_none (h : ∀ a ∈ l, f a = none) : lastOr f c l = c := by
  induction l generalizing c with
  | nil => rfl
  | cons a l ih =>
    rw [lastOr, foldl_cons, h a mem_cons_self]
    exact ih fun b hb => h b (mem_cons_of_mem a hb)

/-- A second pass says the same. -/
theorem lastOr_twice : lastOr f (lastOr f c l) l = lastOr f c l := by
  have h : (∀ c, lastOr f c l = c) ∨ ∃ b, ∀ c, lastOr f c l = b := by
    induction l with
    | nil => exact .inl fun _ => rfl
    | cons a l ih =>
      have hcons : ∀ c, lastOr f c (a :: l) = lastOr f ((f a).getD c) l := fun _ => rfl
      simp only [hcons]
      rcases ih with ih | ⟨b, ih⟩
      · simp only [ih]
        cases f a with
        | none => exact .inl fun _ => rfl
        | some b => exact .inr ⟨b, fun _ => rfl⟩
      · exact .inr ⟨b, fun c => ih _⟩
  rcases h with h | ⟨b, h⟩
  · rw [h]
  · rw [h, h]

end LastOr

/-- Other clusters for a node. -/
def NodeInfo.setClusters (x : NodeInfo) (c : Clusters) : NodeInfo := { x with clusters := c }

/-! ## The effect of an item -/

namespace ScanItem

variable (env : ScanEnv) (item : ScanItem)

/-- The clusters that the item fills in for a node of this size. -/
def fill (size : UInt64) : Option Clusters :=
  match item.kind with
  | .mft data => data.fill env.clusterSize size
  | .entry | .inode _ | .carved => none

/-- What the item does to the label at `q`, its name apart. -/
def effect (q : List Name) (x : Option NodeInfo) : Option NodeInfo :=
  if item.tokens = q then some (x.elim (item.newNode env) (item.foundNode env))
  else if q <+: item.tokens then some (x.getD dirInfo)
  else x

/-- The item sets the orphan flag. -/
def marks : Bool :=
  match item.kind with
  | .mft _ | .carved => true
  | .entry | .inode _ => false

/-- The item leaves the node as it is, its clusters apart. -/
def Fixes (x : NodeInfo) : Prop :=
  (item.args.deleted = true → x.deleted = true) ∧ (item.marks = true → x.orphan = true)

/-- What is found besides the entries of directories is deleted. -/
def Recovered : Prop := item.kind = .entry ∨ item.args.deleted = true

variable {env item}

theorem follow_deleted (x : NodeInfo) : (item.follow env x).deleted = x.deleted := by
  obtain ⟨path, args, kind⟩ := item
  cases kind <;> rfl

theorem follow_size (x : NodeInfo) : (item.follow env x).size = x.size := by
  obtain ⟨path, args, kind⟩ := item
  cases kind <;> rfl

theorem follow_orphan (x : NodeInfo) : (item.follow env x).orphan = (x.orphan || item.marks) := by
  obtain ⟨path, args, kind⟩ := item
  cases kind
  · exact (Bool.or_false _).symm
  · exact (Bool.or_true _).symm
  · exact (Bool.or_false _).symm
  · exact (Bool.or_true _).symm

theorem follow_clusters (x : NodeInfo) :
    (item.follow env x).clusters = (item.fill env x.size).getD x.clusters := by
  obtain ⟨path, args, kind⟩ := item
  cases kind <;> rfl

theorem readd_deleted (x : NodeInfo) :
    (x.readd item.args).deleted = (x.deleted || item.args.deleted) := by
  unfold NodeInfo.readd
  split_ifs with h
  · rw [h.1, h.2]
    rfl
  · rw [h.1, h.2]
    rfl
  · cases hx : x.deleted with
    | true => rfl
    | false => simpa [hx] using h

theorem readd_orphan (x : NodeInfo) : (x.readd item.args).orphan = x.orphan := by
  unfold NodeInfo.readd
  split_ifs <;> rfl

theorem readd_clusters (x : NodeInfo) : (x.readd item.args).clusters = x.clusters := by
  unfold NodeInfo.readd
  split_ifs <;> rfl

theorem foundNode_deleted (x : NodeInfo) :
    (item.foundNode env x).deleted = (x.deleted || item.args.deleted) := by
  rw [foundNode, follow_deleted, readd_deleted]

theorem foundNode_orphan (x : NodeInfo) :
    (item.foundNode env x).orphan = (x.orphan || item.marks) := by
  rw [foundNode, follow_orphan, readd_orphan]

theorem foundNode_clusters (x : NodeInfo) : (item.foundNode env x).clusters =
    (item.fill env (item.foundNode env x).size).getD x.clusters := by
  rw [foundNode, follow_clusters, follow_size, readd_clusters]

/-- A deleted node keeps its size. -/
theorem foundNode_size {x : NodeInfo} (h : x.deleted = true) : (item.foundNode env x).size = x.size := by
  rw [foundNode, follow_size, NodeInfo.readd_deleted item.args h]

theorem newNode_deleted : (item.newNode env).deleted = item.args.deleted := follow_deleted _

theorem newNode_orphan : (item.newNode env).orphan = item.marks := by
  rw [newNode, follow_orphan]
  exact Bool.false_or _

theorem newNode_clusters : (item.newNode env).clusters =
    (item.fill env (item.newNode env).size).getD Clusters.none := by
  rw [newNode, follow_clusters, follow_size]
  rfl

/-- The item fixes the node that it leaves. -/
theorem fixes_foundNode (x : NodeInfo) : item.Fixes (item.foundNode env x) := by
  rw [Fixes, foundNode_deleted, foundNode_orphan]
  exact ⟨fun h => by rw [h, Bool.or_true], fun h => by rw [h, Bool.or_true]⟩

theorem fixes_newNode : item.Fixes (item.newNode env) := by
  rw [Fixes, newNode_deleted, newNode_orphan]
  exact ⟨id, id⟩

/-- Another item does not undo that. -/
theorem Fixes.foundNode {x : NodeInfo} (h : item.Fixes x) (other : ScanItem) :
    item.Fixes (other.foundNode env x) := by
  rw [Fixes, foundNode_deleted, foundNode_orphan]
  exact ⟨fun hd => by rw [h.1 hd, Bool.true_or], fun hm => by rw [h.2 hm, Bool.true_or]⟩

/-- What an item does to a node that it fixes. -/
theorem Fixes.foundNode_eq {x : NodeInfo} (h : item.Fixes x) :
    item.foundNode env x = x.setClusters ((item.fill env x.size).getD x.clusters) := by
  have hreadd : x.readd item.args = x := by
    apply if_neg
    rintro ⟨hx, ha⟩
    rw [h.1 ha] at hx
    cases hx
  rw [ScanItem.foundNode, hreadd]
  obtain ⟨path, args, kind⟩ := item
  have hmark : ∀ c : Clusters, x.orphan = true →
      { x with orphan := true, clusters := c } = x.setClusters c := by
    intro c horphan
    rw [← horphan]
    rfl
  cases kind with
  | entry | inode b => rfl
  | carved => exact hmark _ (h.2 rfl)
  | mft data => exact hmark _ (h.2 rfl)

/-- An item that fills in clusters leaves a deleted node. -/
theorem Recovered.fill_eq_none (h : item.Recovered) (hlive : item.args.deleted = false)
    (size : UInt64) : item.fill env size = none := by
  rcases h with h | h
  · rw [fill, h]
  · rw [hlive] at h
    cases h

end ScanItem

/-! ## Two passes -/

section Passes

variable {env : ScanEnv} {q : List Name}

/-- The items at the path. -/
abbrev itemsAt (q : List Name) (l : List ScanItem) : List ScanItem :=
  l.filter fun i => i.tokens = q

/-- **The node that items leave at a path**: each of them fixes it, a live one has no clusters to
fill in, and its clusters are the last. -/
structure Settled (env : ScanEnv) (q : List Name) (l : List ScanItem) (x : NodeInfo) : Prop where
  fixes : ∀ i ∈ itemsAt q l, i.Fixes x
  live : x.deleted = false → ∀ i ∈ itemsAt q l, ∀ size, i.fill env size = none
  clusters : x.clusters = lastOr (fun i : ScanItem => i.fill env x.size) Clusters.none (itemsAt q l)

/-- The items of a scan, in order, at a path. -/
def effects (env : ScanEnv) (q : List Name) (x : Option NodeInfo) (l : List ScanItem) :
    Option NodeInfo := l.foldl (fun x i => i.effect env q x) x

theorem effects_append (x : Option NodeInfo) (l l' : List ScanItem) :
    effects env q x (l ++ l') = effects env q (effects env q x l) l' := foldl_append

theorem itemsAt_concat_self {l : List ScanItem} {i : ScanItem} (h : i.tokens = q) :
    itemsAt q (l ++ [i]) = itemsAt q l ++ [i] := by
  rw [itemsAt, filter_append]
  simp [h]

theorem itemsAt_concat_other {l : List ScanItem} {i : ScanItem} (h : i.tokens ≠ q) :
    itemsAt q (l ++ [i]) = itemsAt q l := by
  rw [itemsAt, filter_append]
  simp [h]

/-- **One item** leaves a settled node. -/
theorem Settled.foundNode {l : List ScanItem} {x : NodeInfo} {i : ScanItem} (hi : i.Recovered)
    (hq : i.tokens = q) (h : Settled env q l x) : Settled env q (l ++ [i]) (i.foundNode env x) where
  fixes := by
    rw [itemsAt_concat_self hq]
    intro j hj
    rcases mem_append.mp hj with hj | hj
    · exact (h.fixes j hj).foundNode i
    · obtain rfl := mem_singleton.mp hj
      exact ScanItem.fixes_foundNode x
  live := by
    rw [itemsAt_concat_self hq, ScanItem.foundNode_deleted, Bool.or_eq_false_iff]
    rintro ⟨hx, hdeleted⟩ j hj
    rcases mem_append.mp hj with hj | hj
    · exact h.live hx j hj
    · obtain rfl := mem_singleton.mp hj
      exact hi.fill_eq_none hdeleted
  clusters := by
    rw [itemsAt_concat_self hq, lastOr_concat, ScanItem.foundNode_clusters, h.clusters]
    congr 1
    cases hx : x.deleted with
    | true => rw [ScanItem.foundNode_size hx]
    | false =>
      -- no clusters were filled in yet, whatever the size was
      rw [lastOr_none fun j hj => h.live hx j hj _, lastOr_none fun j hj => h.live hx j hj _]

/-- The first item at a path. -/
theorem settled_newNode {l : List ScanItem} {i : ScanItem} (hi : i.Recovered) (hq : i.tokens = q)
    (h : itemsAt q l = []) : Settled env q (l ++ [i]) (i.newNode env) where
  fixes := by
    rw [itemsAt_concat_self hq, h]
    intro j hj
    obtain rfl := mem_singleton.mp hj
    exact ScanItem.fixes_newNode
  live := by
    rw [itemsAt_concat_self hq, h, ScanItem.newNode_deleted]
    intro hdeleted j hj
    obtain rfl := mem_singleton.mp hj
    exact hi.fill_eq_none hdeleted
  clusters := by
    rw [itemsAt_concat_self hq, h]
    exact ScanItem.newNode_clusters

/-- A directory on the way of other items. -/
theorem settled_dirInfo {l : List ScanItem} (h : itemsAt q l = []) : Settled env q l dirInfo where
  fixes := by
    rw [h]
    exact fun i hi => absurd hi not_mem_nil
  live := by
    rw [h]
    exact fun _ i hi => absurd hi not_mem_nil
  clusters := by
    rw [h]
    rfl

theorem Settled.concat_other {l : List ScanItem} {x : NodeInfo} {i : ScanItem} (hq : i.tokens ≠ q)
    (h : Settled env q l x) : Settled env q (l ++ [i]) x := by
  refine ⟨?_, ?_, ?_⟩ <;> rw [itemsAt_concat_other hq]
  · exact h.fixes
  · exact h.live
  · exact h.clusters

/-- **The items of a scan** leave nothing at a path that none of them is at, or a settled node. -/
theorem effects_settled {l : List ScanItem} (hl : ∀ i ∈ l, i.Recovered) :
    (effects env q none l = none → itemsAt q l = []) ∧
      ∀ x, effects env q none l = some x → Settled env q l x := by
  induction l using reverseRecOn with
  | nil => exact ⟨fun _ => rfl, fun x hx => by cases hx⟩
  | append_singleton l i ih =>
    obtain ⟨hnone, hsome⟩ := ih fun j hj => hl j (mem_append_left _ hj)
    have hi := hl i (mem_append_right l (mem_singleton_self i))
    rw [effects_append]
    show (i.effect env q (effects env q none l) = none → _) ∧
      ∀ x, i.effect env q (effects env q none l) = some x → _
    unfold ScanItem.effect
    by_cases hq : i.tokens = q
    · rw [if_pos hq]
      refine ⟨fun h => absurd h (Option.some_ne_none _), fun x hx => ?_⟩
      obtain rfl := Option.some.inj hx
      cases hprev : effects env q none l with
      | none => exact settled_newNode hi hq (hnone hprev)
      | some y => exact (hsome y hprev).foundNode hi hq
    · rw [if_neg hq, itemsAt_concat_other hq]
      split_ifs
      · refine ⟨fun h => h.elim, fun x hx => ?_⟩
        obtain rfl := Option.some.inj hx
        cases hprev : effects env q none l with
        | none => exact (settled_dirInfo (hnone hprev)).concat_other hq
        | some y => exact (hsome y hprev).concat_other hq
      · exact ⟨hnone, fun x hx => (hsome x hx).concat_other hq⟩

/-- Items that fix a node only fill in its clusters. -/
theorem effects_fixed {l : List ScanItem} {x : NodeInfo} (h : ∀ i ∈ itemsAt q l, i.Fixes x) :
    effects env q (some x) l = some (x.setClusters
      (lastOr (fun i : ScanItem => i.fill env x.size) x.clusters (itemsAt q l))) := by
  induction l generalizing x with
  | nil => rfl
  | cons i l ih =>
    have hcons : effects env q (some x) (i :: l) = effects env q (i.effect env q (some x)) l := rfl
    rw [hcons, ScanItem.effect]
    by_cases hq : i.tokens = q
    · have hat : itemsAt q (i :: l) = i :: itemsAt q l := filter_cons_of_pos (by simpa using hq)
      rw [hat] at h ⊢
      have hstep : (some x).elim (i.newNode env) (i.foundNode env) =
          x.setClusters ((i.fill env x.size).getD x.clusters) := (h i mem_cons_self).foundNode_eq
      have hfixes : ∀ j ∈ itemsAt q l,
          j.Fixes (x.setClusters ((i.fill env x.size).getD x.clusters)) :=
        fun j hj => h j (mem_cons_of_mem i hj)
      rw [if_pos hq, hstep, ih hfixes]
      rfl
    · have hat : itemsAt q (i :: l) = itemsAt q l := filter_cons_of_neg (by simpa using hq)
      rw [hat] at h ⊢
      rw [if_neg hq]
      split_ifs
      · exact ih h
      · exact ih h

/-- **A second pass changes nothing.** -/
theorem effects_twice {l : List ScanItem} (hl : ∀ i ∈ l, i.Recovered) :
    effects env q (effects env q none l) l = effects env q none l := by
  cases h : effects env q none l with
  | none => exact h
  | some x =>
    have hx := (effects_settled hl).2 x h
    rw [effects_fixed hx.fixes]
    have hlast := hx.clusters
    have htwice : lastOr (fun i : ScanItem => i.fill env x.size) x.clusters (itemsAt q l) =
        x.clusters := by
      conv_lhs => rw [hlast]
      rw [lastOr_twice, ← hlast]
    rw [htwice]
    rfl

/-- A pass over some of the items, and then one over all. -/
theorem effects_resumed {l l' : List ScanItem} (hl : ∀ i ∈ l, i.Recovered) :
    effects env q (effects env q none l) (l ++ l') = effects env q none (l ++ l') := by
  rw [effects_append, effects_twice hl, effects_append]

end Passes

end RecoveryQt
