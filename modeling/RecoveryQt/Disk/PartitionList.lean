import RecoveryQt.Disk
import Mathlib.Algebra.Order.BigOperators.Group.List
import Mathlib.Data.List.Chain
import Mathlib.Data.Vector.Defs

/-!
# Lists of partitions

* `StatusType`, `EfiGuid`, `PartitionStruct`: a `partition_t`, and `partitionNew`;
* `insertNewPartition`, `sortPartitionList`, `isPartOverlapping`: the code, on the partitions of a list;
* `insertNewPartition_perm`, `mem_insertNewPartition`, **`sortPartitionList_perm`**: what is in the list afterwards;
* `SharesByte`, `NoRoom`, `Clear`: two partitions, the one behind the other;
* `conflicts_eq_false_iff`: what two neighbours are tested for;
* **`isPartOverlapping_iff`**: the neighbours decide for all pairs.
-/

namespace RecoveryQt

open List hiding Vector

/-- `status_type_t`. -/
inductive StatusType where
  | deleted | prim | primBoot | log | ext | extInExt
  deriving DecidableEq, Repr

/-- `efi_guid_t`, as its bytes on the disk. -/
abbrev EfiGuid := Vector UInt8 16

/-- `GPT_ENT_TYPE_UNUSED`. -/
def EfiGuid.unused : EfiGuid := Vector.replicate 16 0

/-- `struct partition_struct`. -/
structure PartitionStruct where
  partOffset : UInt64
  partSize : UInt64
  sbOffset : UInt64
  partUuid : EfiGuid
  partTypeGpt : EfiGuid
  partTypeI386 : UInt32
  partTypeMac : UInt32
  partTypeSun : UInt32
  partTypeXbox : UInt32
  upartType : UpartType
  status : StatusType
  order : UInt32
  partname : List UInt8
  deriving DecidableEq

/-- `NO_ORDER`. -/
def noOrder : UInt32 := 255

/-- `partition_new`. -/
def partitionNew : PartitionStruct where
  partOffset := 0
  partSize := 0
  sbOffset := 0
  partUuid := EfiGuid.unused
  partTypeGpt := EfiGuid.unused
  partTypeI386 := 0
  partTypeMac := 8
  partTypeSun := 255
  partTypeXbox := 0
  upartType := .unk
  status := .deleted
  order := noOrder
  partname := []

namespace PartitionStruct

/-- The place of `part` in the list is in front of `next`. -/
def goesBefore (forceInsert : Bool) (part next : PartitionStruct) : Bool :=
  part.partOffset < next.partOffset ||
    (part.partOffset = next.partOffset &&
      (part.partSize < next.partSize ||
        (part.partSize = next.partSize && (!forceInsert || part.sbOffset < next.sbOffset))))

/-- The partition `part` says nothing new about `next`. -/
def repeats (part next : PartitionStruct) : Bool :=
  next.partOffset = part.partOffset && next.partSize = part.partSize && next.partTypeI386 = part.partTypeI386 &&
    next.partTypeMac = part.partTypeMac && next.partTypeSun = part.partTypeSun &&
    next.partTypeXbox = part.partTypeXbox && (next.upartType = part.upartType || part.upartType = .unk)

/-- A deleted partition takes the status of the one that repeats it. -/
def revive (next part : PartitionStruct) : PartitionStruct :=
  if next.status = .deleted then { next with status := part.status } else next

end PartitionStruct

open PartitionStruct

/-- `insert_new_partition`: the list, and `insert_error`. -/
def PartitionStruct.insertNewPartition (forceInsert : Bool) (part : PartitionStruct) :
    List PartitionStruct → List PartitionStruct × Bool
  | [] => ([part], false)
  | next :: rest =>
    if part.goesBefore forceInsert next then
      if !forceInsert && part.repeats next then (next.revive part :: rest, true)
      else (part :: next :: rest, false)
    else
      let inserted := insertNewPartition forceInsert part rest
      (next :: inserted.1, inserted.2)

/-- `sort_partition_list`. -/
def sortPartitionList (list : List PartitionStruct) : List PartitionStruct :=
  list.foldl (fun sorted part => (insertNewPartition false part sorted).1) []

/-! ## Insertion -/

/-- What tells partitions apart. -/
def PartitionStruct.place (p : PartitionStruct) : UInt64 × UInt64 × UInt32 := (p.partOffset, p.partSize, p.partTypeI386)

theorem place_of_repeats {part next : PartitionStruct} (h : part.repeats next = true) : next.place = part.place := by
  simp only [repeats, Bool.and_eq_true, decide_eq_true_eq] at h
  obtain ⟨⟨⟨⟨⟨⟨hoffset, hsize⟩, htype⟩, -⟩, -⟩, -⟩, -⟩ := h
  rw [place, place, hoffset, hsize, htype]

/-- A partition in a new place is inserted. -/
theorem insertNewPartition_perm {part : PartitionStruct} {l : List PartitionStruct} (h : part.place ∉ l.map place) :
    (insertNewPartition false part l).2 = false ∧ (insertNewPartition false part l).1 ~ part :: l := by
  induction l with
  | nil => exact ⟨rfl, .rfl⟩
  | cons next rest ih =>
    rw [map_cons, mem_cons, not_or] at h
    have hnot : part.repeats next = false :=
      Bool.eq_false_iff.mpr fun hr => h.1 (place_of_repeats hr).symm
    obtain ⟨herr, hperm⟩ := ih h.2
    rw [insertNewPartition]
    split
    · rw [hnot]
      exact ⟨rfl, .rfl⟩
    · exact ⟨herr, (hperm.cons next).trans (.swap part next rest)⟩

/-- What is in the list afterwards was there before, perhaps revived, or is the partition. -/
theorem mem_insertNewPartition {forceInsert : Bool} {part q : PartitionStruct} {l : List PartitionStruct}
    (hq : q ∈ (insertNewPartition forceInsert part l).1) : q = part ∨ ∃ r ∈ l, q = r ∨ q = r.revive part := by
  induction l with
  | nil => exact .inl (mem_singleton.mp hq)
  | cons next rest ih =>
    rw [insertNewPartition] at hq
    split_ifs at hq
    · rcases mem_cons.mp hq with rfl | hq
      · exact .inr ⟨next, mem_cons_self, .inr rfl⟩
      · exact .inr ⟨q, mem_cons_of_mem _ hq, .inl rfl⟩
    · rcases mem_cons.mp hq with rfl | hq
      · exact .inl rfl
      · exact .inr ⟨q, hq, .inl rfl⟩
    · rcases mem_cons.mp hq with rfl | hq
      · exact .inr ⟨q, mem_cons_self, .inl rfl⟩
      · exact (ih hq).imp_right fun ⟨r, hr, h⟩ => ⟨r, mem_cons_of_mem _ hr, h⟩

/-- What is in the sorted list is one of the partitions, perhaps revived. -/
theorem mem_sortPartitionList {γ : Type*} {f : PartitionStruct → γ} (hf : ∀ p q, f (revive p q) = f p)
    {l : List PartitionStruct} {q : PartitionStruct} (hq : q ∈ sortPartitionList l) : ∃ p ∈ l, f q = f p := by
  suffices hall : ∀ sorted, q ∈ l.foldl (fun sorted part => (insertNewPartition false part sorted).1) sorted →
      (∃ p ∈ sorted, f q = f p) ∨ ∃ p ∈ l, f q = f p from (hall [] hq).resolve_left (by simp)
  clear hq
  induction l with
  | nil => exact fun sorted hq => .inl ⟨q, hq, rfl⟩
  | cons part l ih =>
    intro sorted hq
    rcases ih _ hq with ⟨p, hp, heq⟩ | ⟨p, hp, heq⟩
    · rcases mem_insertNewPartition hp with rfl | ⟨r, hr, rfl | rfl⟩
      · exact .inr ⟨p, mem_cons_self, heq⟩
      · exact .inl ⟨p, hr, heq⟩
      · exact .inl ⟨r, hr, heq.trans (hf r part)⟩
    · exact .inr ⟨p, mem_cons_of_mem _ hp, heq⟩

/-- **Partitions in different places** are all in the sorted list. -/
theorem sortPartitionList_perm {l : List PartitionStruct} (h : (l.map place).Nodup) : sortPartitionList l ~ l := by
  suffices hall : ∀ sorted, ((sorted ++ l).map place).Nodup →
      l.foldl (fun sorted part => (insertNewPartition false part sorted).1) sorted ~ sorted ++ l from hall [] h
  clear h
  induction l with
  | nil => exact fun sorted _ => by rw [append_nil, foldl_nil]
  | cons part l ih =>
    intro sorted h
    have hmiddle : (part :: (sorted ++ l)) ~ sorted ++ part :: l := perm_middle.symm
    have hnodup := (hmiddle.map place).nodup_iff.mpr h
    rw [map_cons, nodup_cons, map_append, mem_append, not_or] at hnodup
    have hperm := (insertNewPartition_perm hnodup.1.1).2
    have hrest : ((insertNewPartition false part sorted).1 ++ l) ~ sorted ++ part :: l :=
      (hperm.append_right l).trans hmiddle
    rw [foldl_cons]
    exact (ih _ ((hrest.map place).nodup_iff.mpr h)).trans hrest

/-! ## Overlaps -/

namespace PartitionStruct

/-- The statuses of partitions that hold data. -/
def isData (p : PartitionStruct) : Bool := p.status = .prim || p.status = .primBoot || p.status = .log

/-- The test of `is_part_overlapping` on two neighbours. -/
def conflicts (partition next : PartitionStruct) : Bool :=
  partition.partOffset + partition.partSize - 1 ≥ next.partOffset ||
    (partition.isData && next.status = .log &&
      partition.partOffset + partition.partSize - 1 + 1 ≥ next.partOffset)

/-- `is_part_overlapping`. -/
def isPartOverlapping : List PartitionStruct → Bool
  | partition :: next :: rest => partition.conflicts next || isPartOverlapping (next :: rest)
  | _ => false

/-- The first byte behind a partition. -/
def stop (p : PartitionStruct) : ℕ := p.partOffset.toNat + p.partSize.toNat

/-- Some byte is in both partitions. -/
def SharesByte (p q : PartitionStruct) : Prop :=
  ∃ x : ℕ, (p.partOffset.toNat ≤ x ∧ x < p.stop) ∧ q.partOffset.toNat ≤ x ∧ x < q.stop

/-- A logical partition begins directly behind a primary or logical one: an extended boot record has no place. -/
def NoRoom (p q : PartitionStruct) : Prop := p.isData ∧ q.status = .log ∧ p.stop = q.partOffset.toNat

/-- The partition `q` is behind `p`, with room between them where it takes some. -/
def Clear (p q : PartitionStruct) : Prop := p.stop ≤ q.partOffset.toNat ∧ ¬ NoRoom p q

/-- A partition has a byte, and does not wrap. -/
def Proper (p : PartitionStruct) : Prop := 1 ≤ p.partSize ∧ p.stop ≤ 2 ^ 64

instance (p : PartitionStruct) : Decidable p.Proper := inferInstanceAs (Decidable (_ ∧ _))

theorem Proper.lt_stop {p : PartitionStruct} (h : p.Proper) : p.partOffset.toNat < p.stop := by
  have := UInt64.le_iff_toNat_le.mp h.1
  rw [UInt64.toNat_one] at this
  rw [stop]
  omega

/-- The last byte of a partition does not wrap. -/
theorem Proper.toNat_last {p : PartitionStruct} (h : p.Proper) :
    (p.partOffset + p.partSize - 1).toNat = p.stop - 1 := by
  have hlt := h.lt_stop
  have hle := h.2
  have hsize := p.partSize.toNat_lt
  rw [UInt64.toNat_sub, UInt64.toNat_add, UInt64.toNat_one, stop] at *
  omega

/-- Two neighbours pass the test when they are clear of each other. -/
theorem conflicts_eq_false_iff {p q : PartitionStruct} (hp : p.Proper) : p.conflicts q = false ↔ Clear p q := by
  have hlast := hp.toNat_last
  have hlt := hp.lt_stop
  have hle := hp.2
  have hq := q.partOffset.toNat_lt
  have hshares : p.partOffset + p.partSize - 1 ≥ q.partOffset ↔ q.partOffset.toNat < p.stop := by
    rw [ge_iff_le, UInt64.le_iff_toNat_le, hlast]
    omega
  rcases hle.lt_or_eq with hin | hend
  · have hbehind : p.partOffset + p.partSize - 1 + 1 ≥ q.partOffset ↔ q.partOffset.toNat ≤ p.stop := by
      rw [ge_iff_le, UInt64.le_iff_toNat_le, UInt64.toNat_add, hlast, UInt64.toNat_one]
      omega
    simp only [conflicts, Bool.or_eq_false_iff, Bool.and_eq_false_imp, decide_eq_false_iff_not, Bool.and_eq_true,
      decide_eq_true_eq, hshares, hbehind, Clear, NoRoom, not_and, not_lt]
    refine and_congr_right fun hclear => ?_
    constructor
    · intro h hdata hlog heq
      exact h ⟨hdata, hlog⟩ heq.ge
    · rintro h ⟨hdata, hlog⟩ hge
      exact h hdata hlog (hclear.antisymm hge)
  · -- a partition that ends with the address space is in front of nothing
    have hall : q.partOffset.toNat < p.stop := hend ▸ hq
    refine iff_of_false ?_ fun h => absurd h.1 (not_le.mpr hall)
    rw [conflicts, decide_eq_true (hshares.mpr hall), Bool.true_or]
    exact Bool.noConfusion

/-- What is clear of a partition is clear of those in front of it. -/
theorem Clear.trans {p r q : PartitionStruct} (hr : r.Proper) (hpr : Clear p r) (hrq : Clear r q) : Clear p q := by
  have hlt : p.stop < q.partOffset.toNat := hpr.1.trans_lt (hr.lt_stop.trans_le hrq.1)
  exact ⟨hlt.le, fun hroom => hlt.ne hroom.2.2⟩

/-- Sorted partitions are clear of each other, or share a byte, or have no room between them. -/
theorem not_clear_iff {p q : PartitionStruct} (hq : q.Proper) (hsorted : p.partOffset ≤ q.partOffset) :
    ¬ Clear p q ↔ SharesByte p q ∨ NoRoom p q := by
  have hle := UInt64.le_iff_toNat_le.mp hsorted
  have hshares : SharesByte p q ↔ q.partOffset.toNat < p.stop := by
    constructor
    · rintro ⟨x, ⟨-, hx⟩, hqx, -⟩
      exact hqx.trans_lt hx
    · exact fun h => ⟨q.partOffset.toNat, ⟨hle, h⟩, le_rfl, hq.lt_stop⟩
  rw [Clear, not_and_or, not_le, not_not, hshares]

theorem isPartOverlapping_eq_false_iff {l : List PartitionStruct} (hproper : ∀ p ∈ l, p.Proper) :
    isPartOverlapping l = false ↔ l.Pairwise Clear := by
  induction l with
  | nil => simp [isPartOverlapping]
  | cons p rest ih =>
    cases rest with
    | nil => simp [isPartOverlapping]
    | cons q rest =>
      have hp := hproper p mem_cons_self
      have hq := hproper q (mem_cons_of_mem _ mem_cons_self)
      rw [isPartOverlapping, Bool.or_eq_false_iff, conflicts_eq_false_iff hp,
        ih fun r hr => hproper r (mem_cons_of_mem _ hr), pairwise_cons (a := p)]
      refine and_congr_left fun hrest => ?_
      constructor
      · intro hpq r hr
        rcases mem_cons.mp hr with rfl | hr
        · exact hpq
        · exact hpq.trans hq (rel_of_pairwise_cons hrest hr)
      · exact fun h => h q mem_cons_self

/-- **Partitions overlap by the test of the neighbours** exactly when two of them share a byte, or a logical one
begins directly behind a primary or logical one. -/
theorem isPartOverlapping_iff (l : List PartitionStruct) (hsorted : l.Pairwise fun p q => p.partOffset ≤ q.partOffset)
    (hproper : ∀ p ∈ l, p.Proper) :
    isPartOverlapping l = true ↔ ∃ p q, [p, q] <+ l ∧ (SharesByte p q ∨ NoRoom p q) := by
  rw [← not_iff_not, Bool.not_eq_true, isPartOverlapping_eq_false_iff hproper, pairwise_iff_forall_sublist]
  simp only [not_exists, not_and]
  refine forall_congr' fun p => forall_congr' fun q => forall_congr' fun hpq => ?_
  have hq : q.Proper := hproper q (hpq.subset (by simp))
  rw [← not_clear_iff hq (pairwise_iff_forall_sublist.mp hsorted hpq), not_not]

/-- A partition of 512 bytes. -/
def sectorAt (offset : UInt64) (status : StatusType) : PartitionStruct :=
  { partitionNew with partOffset := offset, partSize := 512, status := status }

/-- Two logical partitions in a large one that ends with them. -/
theorem isPartOverlapping_covered :
    [{ sectorAt 0 .ext with partSize := 4096 }, sectorAt 512 .log, sectorAt 2048 .log].Pairwise
      (fun p q => p.partOffset ≤ q.partOffset) ∧
    (∀ p ∈ [{ sectorAt 0 .ext with partSize := 4096 }, sectorAt 512 .log, sectorAt 2048 .log], p.Proper) ∧
    (isPartOverlapping [{ sectorAt 0 .ext with partSize := 4096 }, sectorAt 512 .log, sectorAt 2048 .log] = true ↔
      ∃ p q, [p, q] <+ [{ sectorAt 0 .ext with partSize := 4096 }, sectorAt 512 .log, sectorAt 2048 .log] ∧
        (SharesByte p q ∨ NoRoom p q)) :=
  have hsorted := by simp [sectorAt, partitionNew]
  have hproper := by simp [sectorAt, partitionNew, Proper, stop]
  ⟨hsorted, hproper, isPartOverlapping_iff _ hsorted hproper⟩

/-- A logical partition that begins directly behind a primary one shares no byte with it. -/
theorem isPartOverlapping_adjacent :
    ∃ l : List PartitionStruct, l.Pairwise (fun p q => p.partOffset ≤ q.partOffset) ∧ (∀ p ∈ l, p.Proper) ∧
      isPartOverlapping l = true ∧ ¬ ∃ p q, [p, q] <+ l ∧ SharesByte p q := by
  refine ⟨[sectorAt 0 .prim, sectorAt 512 .log], by simp [sectorAt, partitionNew],
    by simp [sectorAt, partitionNew, Proper, stop], by decide +kernel, ?_⟩
  rintro ⟨p, q, hpq, x, ⟨-, hp⟩, hq, -⟩
  obtain ⟨rfl, rfl⟩ : p = sectorAt 0 .prim ∧ q = sectorAt 512 .log := by
    simpa using hpq.eq_of_length rfl
  have h₁ : x < 512 := hp
  have h₂ : 512 ≤ x := hq
  omega

end PartitionStruct

end RecoveryQt
