import RecoveryQt.Disk.MbrTable

/-!
# A partition table of a PC that is read back

* `MbrTable.primaries`, `slice_foldl_putPrimary`: what the entries of the first sector hold;
* `foldl_takePrimary`: what is read of them;
* `logChain_linked`, `map_logicalPlace_logChain`: the records of the logical partitions are a chain;
* `TableWritten`: the disk with a table on it, **`TableWritten.of_writePartI386`**;
* **`writePartI386_readBack_iff`**: a table that was written is read back;
* **`writePartI386_same`**: no byte of a partition is changed.
-/

namespace RecoveryQt

open List hiding Vector
open PartitionStruct

/-! ## The first sector -/

/-- The partition has an entry in the first sector. -/
structure PartitionStruct.InTable (p : PartitionStruct) : Prop where
  status : p.status = .prim ∨ p.status = .primBoot ∨ p.status = .ext
  extended : isExtendedType p.partTypeI386 = true ↔ p.status = .ext
  first : 1 ≤ p.order
  last : p.order ≤ 4

/-- The entry of a partition, from 0 on. -/
def PartitionStruct.entryIndex (p : PartitionStruct) : ℕ := p.order.toNat - 1

theorem PartitionStruct.InTable.entryIndex_lt {p : PartitionStruct} (h : p.InTable) : p.entryIndex < 4 := by
  have hlast : p.order.toNat ≤ 4 := UInt32.le_iff_toNat_le.mp h.last
  have hfirst : 1 ≤ p.order.toNat := UInt32.le_iff_toNat_le.mp h.first
  unfold entryIndex
  omega

/-- Partitions of different orders have different entries. -/
theorem PartitionStruct.InTable.entryIndex_inj {p q : PartitionStruct} (hp : p.InTable) (hq : q.InTable)
    (h : p.entryIndex = q.entryIndex) : p.order = q.order := by
  have hp1 : 1 ≤ p.order.toNat := UInt32.le_iff_toNat_le.mp hp.first
  have hq1 : 1 ≤ q.order.toNat := UInt32.le_iff_toNat_le.mp hq.first
  unfold entryIndex at h
  exact UInt32.toNat_inj.mp (by omega)

section FirstSector

variable {geom : ChsGeometry} {disk : Disk} {buffer : ℕ → UInt8} {p : PartitionStruct} {l : List PartitionStruct}

theorem putPrimary_of_inTable (h : p.InTable) :
    putPrimary geom disk buffer p = putDosEntry p.entryIndex (partition2I386Entry geom disk 0 p) buffer := by
  rw [putPrimary, if_pos h.status, if_pos ⟨h.first, h.last⟩]
  rfl

theorem putPrimary_of_log (h : p.status = .log) : putPrimary geom disk buffer p = buffer := by
  rw [putPrimary, h]
  rfl

theorem foldl_putPrimary_log (h : ∀ p ∈ l, p.status = .log) : l.foldl (putPrimary geom disk) buffer = buffer := by
  induction l with
  | nil => rfl
  | cons p l ih => rw [foldl_cons, putPrimary_of_log (h p mem_cons_self), ih fun q hq => h q (mem_cons_of_mem _ hq)]

/-- An entry that no partition has is as it was. -/
theorem slice_foldl_putPrimary_of_ne {i : ℕ} (h : ∀ p ∈ l, p.InTable) (hne : ∀ p ∈ l, p.entryIndex ≠ i) :
    slice (l.foldl (putPrimary geom disk) buffer) (tabPart + 16 * i) 16 = slice buffer (tabPart + 16 * i) 16 := by
  induction l generalizing buffer with
  | nil => rfl
  | cons p l ih =>
    rw [foldl_cons, ih (fun q hq => h q (mem_cons_of_mem _ hq)) fun q hq => hne q (mem_cons_of_mem _ hq),
      putPrimary_of_inTable (h p mem_cons_self)]
    exact slice_putDosEntry_of_ne (hne p mem_cons_self)

/-- Each partition is in its entry. -/
theorem slice_foldl_putPrimary (h : ∀ p ∈ l, p.InTable) (hnodup : (l.map PartitionStruct.order).Nodup) (hp : p ∈ l) :
    slice (l.foldl (putPrimary geom disk) buffer) (tabPart + 16 * p.entryIndex) 16 =
      (partition2I386Entry geom disk 0 p).bytes := by
  induction l generalizing buffer with
  | nil => exact absurd hp not_mem_nil
  | cons q l ih =>
    rw [map_cons, nodup_cons] at hnodup
    have hrest : ∀ r ∈ l, r.InTable := fun r hr => h r (mem_cons_of_mem _ hr)
    rcases mem_cons.mp hp with rfl | hp
    · have hne : ∀ r ∈ l, r.entryIndex ≠ p.entryIndex := fun r hr heq =>
        hnodup.1 (mem_map.mpr ⟨r, hr, (hrest r hr).entryIndex_inj (h p mem_cons_self) heq⟩)
      rw [foldl_cons, slice_foldl_putPrimary_of_ne hrest hne, putPrimary_of_inTable (h p mem_cons_self)]
      exact slice_putDosEntry
    · exact ih hrest hnodup.2 hp

/-- The mark stays. -/
theorem slice_mark_foldl_putPrimary (h : ∀ p ∈ l, p.InTable) :
    slice (l.foldl (putPrimary geom disk) buffer) 0x1FE 2 = slice buffer 0x1FE 2 := by
  induction l generalizing buffer with
  | nil => rfl
  | cons p l ih =>
    rw [foldl_cons, ih fun q hq => h q (mem_cons_of_mem _ hq), putPrimary_of_inTable (h p mem_cons_self)]
    exact slice_mark_putDosEntry (h p mem_cons_self).entryIndex_lt

/-- The buffer that the entries are put in. -/
def mbrBase (disk : Disk) : ℕ → UInt8 :=
  let org := (disk.pread 512 0).getD fun _ => 0
  removeSun (removeMac (if hasMark org then keepCode org else writeMbrCodeI386Aux fun _ => 0))

theorem length_mbrCodeTestdisk : mbrCodeTestdisk.length ≤ tabPart := by decide +kernel

/-- The signatures that are removed are in front of the entries, where there are no entries yet. -/
theorem slice_removeSun_removeMac {o n : ℕ} (h : tabPart ≤ o) (hentry : slice buffer (tabPart + 16 * 3) 16 = replicate 16 0) :
    slice (removeSun (removeMac buffer)) o n = slice buffer o n := by
  have hmac : ∀ x, tabPart ≤ x → removeMac buffer x = buffer x := by
    intro x hx
    unfold removeMac
    split_ifs with hmark
    · exact Function.update_of_ne (fun h0 => absurd (h0 ▸ hx) (by decide)) _ _
    · rfl
  have hzero : removeMac buffer 0x1FC = 0 := by
    rw [hmac _ (by decide)]
    exact at_of_entry (m := 14) hentry (by decide) rfl
  have hsun : removeSun (removeMac buffer) = removeMac buffer := by
    unfold removeSun
    exact if_neg fun hmark => absurd (hzero.symm.trans hmark.1) (by decide)
  rw [hsun]
  exact slice_congr fun x hx _ => hmac x (h.trans hx)

theorem slice_mbrBase (disk : Disk) :
    (∀ i < 4, slice (mbrBase disk) (tabPart + 16 * i) 16 = replicate 16 0) ∧ slice (mbrBase disk) 0x1FE 2 = [0x55, 0xAA] := by
  obtain ⟨base, hbase, hentry, hmark⟩ : ∃ base, mbrBase disk = removeSun (removeMac base) ∧
      (∀ i < 4, slice base (tabPart + 16 * i) 16 = replicate 16 0) ∧ slice base 0x1FE 2 = [0x55, 0xAA] := by
    refine ⟨_, rfl, ?_⟩
    split_ifs
    · exact ⟨fun i hi => keepCode_entry _ hi, slice_mark_keepCode _⟩
    · refine ⟨fun i hi => ?_, slice_mark_writeMbrCode _⟩
      have hlength := length_mbrCodeTestdisk
      rw [writeMbrCodeI386Aux, slice_overwrite_of_disjoint (by rw [tabPart]; left; omega),
        slice_overwrite_of_disjoint (by right; omega)]
      rfl
  rw [hbase]
  exact ⟨fun i hi => (slice_removeSun_removeMac (Nat.le_add_right _ _) (hentry 3 (by decide))).trans (hentry i hi),
    (slice_removeSun_removeMac (by decide) (hentry 3 (by decide))).trans hmark⟩

end FirstSector

/-! ## Reading the first sector -/

section Read

variable {check : PartitionStruct → PartitionStruct} {geom : ChsGeometry} {disk : Disk} {read : ℕ → UInt8}
  {list l : List PartitionStruct} {p : PartitionStruct}

/-- The partition that has an entry. -/
def entryOwner (l : List PartitionStruct) (i : ℕ) : Option PartitionStruct := l.find? fun p => p.entryIndex = i

theorem entryOwner_eq_some {i : ℕ} (h : entryOwner l i = some p) : p ∈ l ∧ p.entryIndex = i := by
  unfold entryOwner at h
  exact ⟨mem_of_find?_eq_some h, by simpa using find?_some h⟩

/-- The four entries have all partitions of the table. -/
theorem filterMap_entryOwner (h : ∀ p ∈ l, p.InTable) (hnodup : (l.map PartitionStruct.order).Nodup) :
    (range 4).filterMap (entryOwner l) ~ l := by
  refine (perm_ext_iff_of_nodup (Nodup.filterMap ?_ nodup_range) hnodup.of_map).mpr fun p => ?_
  · intro i j p hi hj
    exact (entryOwner_eq_some hi).2.symm.trans (entryOwner_eq_some hj).2
  · rw [mem_filterMap]
    constructor
    · rintro ⟨i, -, hi⟩
      exact (entryOwner_eq_some hi).1
    · intro hp
      obtain ⟨q, hq⟩ : ∃ q, entryOwner l p.entryIndex = some q :=
        Option.isSome_iff_exists.mp (find?_isSome.mpr ⟨p, hp, decide_eq_true rfl⟩)
      obtain ⟨hql, hindex⟩ := entryOwner_eq_some hq
      obtain rfl : q = p := inj_on_of_nodup_map hnodup hql hp ((h q hql).entryIndex_inj (h p hp) hindex)
      exact ⟨q.entryIndex, mem_range.mpr (h q hql).entryIndex_lt, hq⟩

theorem takePrimary_of_unused {i : ℕ} (h : slice read (tabPart + 16 * i) 16 = replicate 16 0) :
    takePrimary check disk read list i = list := by
  have hread : ptOffset read i = ⟨0, 0, 0⟩ := ptOffset_of_bytes (e := ⟨0, 0, 0, 0, 0, 0, 0, 0, 0, 0⟩) h
  rw [takePrimary, hread]
  rfl

/-- The status is read from the type and the boot mark. -/
theorem primStatus_of_entry {i : ℕ} (hfits : p.Fits disk.sectorSize) (hp : p.InTable)
    (h : slice read (tabPart + 16 * i) 16 = (partition2I386Entry geom disk 0 p).bytes) : primStatus read i = p.status := by
  have hboot : read (tabPart + 16 * i) = if p.status = .primBoot then 0x80 else 0 :=
    at_of_entry (m := 0) h (by decide) rfl
  have hsys : isExtended (ptOffset read i).sysInd = isExtendedType p.partTypeI386 := by
    rw [ptOffset_of_bytes h]
    exact hfits.isExtended_sysInd
  rw [primStatus, hsys, hboot]
  rcases hp.status with hstatus | hstatus | hstatus
  · rw [if_neg (by rw [hp.extended, hstatus]; decide), hstatus]
    rfl
  · rw [if_neg (by rw [hp.extended, hstatus]; decide), hstatus]
    rfl
  · rw [if_pos (hp.extended.mpr hstatus), hstatus]

/-- An entry that was written adds its partition. -/
theorem takePrimary_of_entry (hcheck : KeepsEntry check) (hss : disk.sectorSize < 2 ^ 32) {i : ℕ}
    (hfits : p.Fits disk.sectorSize) (hp : p.InTable)
    (h : slice read (tabPart + 16 * i) 16 = (partition2I386Entry geom disk 0 p).bytes) (hnew : p.place ∉ list.map place) :
    (takePrimary check disk read list i).map PartitionStruct.tag ~ p.tag :: list.map PartitionStruct.tag := by
  have hentry := ptOffset_of_bytes h
  have hused : (partition2I386Entry geom disk 0 p).read.sysInd ≠ 0 := hfits.sysInd_ne_zero
  have hstop := hfits.stop
  have hproper := (hfits.proper hss).lt_stop
  unfold PartitionStruct.stop at hstop hproper
  have hplace : (partition2I386Entry geom disk 0 p).read.place disk 0 = p.place :=
    place_partition2I386Entry hss hfits.byte (Nat.zero_le _) hfits.start (show p.partOffset.toNat - 0 < _ by omega) hfits.size
      (by have := hfits.behind_first; have := hfits.nonempty; omega)
  have htag : (i386Entry2partition check disk 0 (partition2I386Entry geom disk 0 p).read p.status (UInt32.ofNat (i + 1))).tag =
      ((partition2I386Entry geom disk 0 p).read.place disk 0, p.status) := tag_i386Entry2partition hcheck 0 _ p.status _
  rw [hplace] at htag
  have hsame : (i386Entry2partition check disk 0 (partition2I386Entry geom disk 0 p).read p.status
      (UInt32.ofNat (i + 1))).place = p.place := congrArg Prod.fst htag
  have hperm := (insertNewPartition_perm (hsame ▸ hnew)).2
  rw [takePrimary, hentry, primStatus_of_entry hfits hp h, if_neg hused]
  exact (hperm.map PartitionStruct.tag).trans (by rw [map_cons, htag]; rfl)

/-- What is read of some entries that were written. -/
theorem foldl_takePrimary (hcheck : KeepsEntry check) (hss : disk.sectorSize < 2 ^ 32) (htable : ∀ p ∈ l, p.InTable)
    (hfits : ∀ p ∈ l, p.Fits disk.sectorSize)
    (hunused : ∀ i < 4, (∀ p ∈ l, p.entryIndex ≠ i) → slice read (tabPart + 16 * i) 16 = replicate 16 0)
    (hentry : ∀ p ∈ l, slice read (tabPart + 16 * p.entryIndex) 16 = (partition2I386Entry geom disk 0 p).bytes)
    {entries : List ℕ} (hlt : ∀ i ∈ entries, i < 4) (hnodup : ((entries.filterMap (entryOwner l)).map place).Nodup)
    (hnew : Disjoint ((entries.filterMap (entryOwner l)).map place) (list.map place)) :
    (entries.foldl (takePrimary check disk read) list).map PartitionStruct.tag ~
      (entries.filterMap (entryOwner l)).map PartitionStruct.tag ++ list.map PartitionStruct.tag := by
  induction entries generalizing list with
  | nil => exact .rfl
  | cons i entries ih =>
    have hrest : ∀ j ∈ entries, j < 4 := fun j hj => hlt j (mem_cons_of_mem _ hj)
    rw [foldl_cons]
    cases howner : entryOwner l i with
    | none =>
      rw [filterMap_cons_none howner] at hnodup hnew ⊢
      have hnone : ∀ p ∈ l, p.entryIndex ≠ i := fun p hp => by simpa using find?_eq_none.mp howner p hp
      rw [takePrimary_of_unused (hunused i (hlt i mem_cons_self) hnone)]
      exact ih hrest hnodup hnew
    | some p =>
      obtain ⟨hp, rfl⟩ := entryOwner_eq_some howner
      rw [filterMap_cons_some howner] at hnodup hnew ⊢
      rw [map_cons, nodup_cons] at hnodup
      rw [map_cons, disjoint_cons_left] at hnew
      have htaken := takePrimary_of_entry hcheck hss (hfits p hp) (htable p hp) (hentry p hp) hnew.1
      have hplaces : (takePrimary check disk read list p.entryIndex).map place ~ p.place :: list.map place := by
        have hfst := htaken.map Prod.fst
        rw [map_fst_map_tag, map_cons, map_fst_map_tag] at hfst
        exact hfst
      have hnew' : Disjoint ((entries.filterMap (entryOwner l)).map place)
          ((takePrimary check disk read list p.entryIndex).map place) := fun x hx hx' => by
        rcases mem_cons.mp (hplaces.mem_iff.mp hx') with rfl | hx'
        · exact hnodup.1 hx
        · exact hnew.2 hx hx'
      exact (ih hrest hnodup.2 hnew').trans ((htaken.append_left _).trans perm_middle)

/-- **The partitions of the first sector are read back.** -/
theorem foldl_takePrimary_range (hcheck : KeepsEntry check) (hss : disk.sectorSize < 2 ^ 32)
    (htable : ∀ p ∈ l, p.InTable) (hfits : ∀ p ∈ l, p.Fits disk.sectorSize)
    (horders : (l.map PartitionStruct.order).Nodup) (hplaces : (l.map place).Nodup)
    (hread : ∀ i < 4, slice read (tabPart + 16 * i) 16 =
      slice (l.foldl (putPrimary geom disk) (mbrBase disk)) (tabPart + 16 * i) 16) :
    ((range 4).foldl (takePrimary check disk read) []).map PartitionStruct.tag ~ l.map PartitionStruct.tag := by
  have hperm := filterMap_entryOwner htable horders
  have hunused : ∀ i < 4, (∀ p ∈ l, p.entryIndex ≠ i) → slice read (tabPart + 16 * i) 16 = replicate 16 0 :=
    fun i hi hne => (hread i hi).trans ((slice_foldl_putPrimary_of_ne htable hne).trans ((slice_mbrBase disk).1 i hi))
  have hentry : ∀ p ∈ l, slice read (tabPart + 16 * p.entryIndex) 16 = (partition2I386Entry geom disk 0 p).bytes :=
    fun p hp => (hread _ (htable p hp).entryIndex_lt).trans (slice_foldl_putPrimary htable horders hp)
  have hnone : Disjoint (((range 4).filterMap (entryOwner l)).map place) (([] : List PartitionStruct).map place) :=
    disjoint_nil_right _
  have htaken := foldl_takePrimary hcheck hss htable hfits hunused hentry (fun i hi => mem_range.mp hi)
    ((hperm.map place).nodup_iff.mpr hplaces) hnone
  rw [map_nil, append_nil] at htaken
  exact htaken.trans (hperm.map PartitionStruct.tag)

end Read

/-! ## The chain of the logical partitions -/

section Chain

variable {geom : ChsGeometry} {disk D : Disk} {e : PartitionStruct} {pos : UInt64} {p q : PartitionStruct}
  {logs : List PartitionStruct}

/-- A record gives the place of its partition back. -/
theorem logicalPlace_logRecord (hss : disk.sectorSize < 2 ^ 32) (hsize : D.sectorSize = disk.sectorSize)
    (h : LogsFrom geom disk.sectorSize e pos (p :: logs)) (next : Option PartitionStruct) :
    (logRecord geom disk e.partOffset pos p next).logicalPlace D = p.place := by
  have hfits := h.fits p mem_cons_self
  have hstop := hfits.stop
  have hproper := (hfits.proper hss).lt_stop
  have hfirst : pos.toNat + disk.sectorSize ≤ p.partOffset.toNat := h.first p rfl
  unfold PartitionStruct.stop at hstop hproper
  have hplace : (logRecord geom disk e.partOffset pos p next).logicalPlace D =
      (partition2I386Entry geom disk pos p).read.place disk pos := by
    rw [Ebr.logicalPlace, PartitionDos.place, PartitionDos.place, hsize]
    rfl
  rw [hplace]
  exact place_partition2I386Entry hss hfits.byte (by omega) (Nat.dvd_sub hfits.start h.sector) (by omega) hfits.size
    (by have := hfits.nonempty; omega)

variable (hheads : 0 < geom.headsPerCylinder) (hsectors : 0 < geom.sectorsPerHead) (hpos : 0 < disk.sectorSize)
  (hss : disk.sectorSize < 2 ^ 32)

include hheads hsectors hpos hss

/-- A link leads to the next record. -/
theorem linkPlace_logRecord (hsize : D.sectorSize = disk.sectorSize) (hstart : disk.sectorSize ∣ e.partOffset.toNat)
    (h : LogsFrom geom disk.sectorSize e pos (p :: q :: logs)) :
    ((partition2I386Entry geom disk e.partOffset (blocNextext geom disk p q)).read.place D e.partOffset).1 =
      nextExtOffset geom disk p q := by
  obtain ⟨hnext, hbehind⟩ := h.next hheads hsectors hpos hss
  have hq := h.fits q (by simp)
  have hstop := hq.stop
  have hroom : (nextExtOffset geom disk p q).toNat + disk.sectorSize ≤ q.partOffset.toNat := hnext.first q rfl
  unfold PartitionStruct.stop at hstop
  have hsub : (nextExtOffset geom disk p q - e.partOffset).toNat =
      (nextExtOffset geom disk p q).toNat - e.partOffset.toNat :=
    UInt64.toNat_sub_of_le _ _ (UInt64.le_iff_toNat_le.mpr hnext.behind)
  have hoffset := sectors32_mul hss (x := nextExtOffset geom disk p q - e.partOffset)
    (by rw [hsub]; exact Nat.dvd_sub hnext.sector hstart) (by rw [hsub]; omega)
  change e.partOffset + UInt64.ofNat ((sectors32 ((nextExtOffset geom disk p q - e.partOffset) / disk.sectorSize64)).toNat *
    D.sectorSize) = _
  rw [hsize, hoffset, UInt64.add_comm, UInt64.sub_add_cancel]

/-- **The records are a chain.** -/
theorem logChain_linked (hsize : D.sectorSize = disk.sectorSize) (hstart : disk.sectorSize ∣ e.partOffset.toNat)
    (h : LogsFrom geom disk.sectorSize e pos logs) (hne : logs ≠ [])
    (hon : ∀ b ∈ logChain geom disk e.partOffset pos logs, b.On D) :
    LinkedChain D e.partOffset pos (logChain geom disk e.partOffset pos logs) := by
  induction logs generalizing pos with
  | nil => exact absurd rfl hne
  | cons p logs ih =>
    rw [logChain, forall_mem_cons] at hon
    cases logs with
    | nil => exact ⟨rfl, hon.1, rfl⟩
    | cons q logs =>
      refine ⟨rfl, hon.1, ?_⟩
      change LinkedChain D e.partOffset
        ((partition2I386Entry geom disk e.partOffset (blocNextext geom disk p q)).read.place D e.partOffset).1
        (logChain geom disk e.partOffset (nextExtOffset geom disk p q) (q :: logs))
      rw [linkPlace_logRecord hheads hsectors hpos hss hsize hstart h]
      exact ih (h.next hheads hsectors hpos hss).1 (cons_ne_nil _ _) hon.2

/-- The logical places of the records are those of the partitions. -/
theorem map_logicalPlace_logChain (hsize : D.sectorSize = disk.sectorSize)
    (h : LogsFrom geom disk.sectorSize e pos logs) :
    (logChain geom disk e.partOffset pos logs).map (Ebr.logicalPlace D) = logs.map place := by
  induction logs generalizing pos with
  | nil => rfl
  | cons p logs ih =>
    rw [logChain, map_cons, map_cons, logicalPlace_logRecord hss hsize h]
    cases logs with
    | nil => rfl
    | cons q logs => exact congrArg _ (ih (h.next hheads hsectors hpos hss).1)

omit hheads hsectors hpos hss in
theorem length_logChain : (logChain geom disk e.partOffset pos logs).length = logs.length := by
  induction logs generalizing pos with
  | nil => rfl
  | cons p logs ih => exact congrArg Nat.succ ih

end Chain

/-- The links of a chain are no partitions of their own. -/
theorem filter_flatMap_tags (D : Disk) (mainExt : UInt64) (chain : List Ebr) :
    (chain.flatMap (Ebr.tags D mainExt)).filter (fun t => t.2 ≠ .extInExt) =
      chain.map fun b => (b.logicalPlace D, StatusType.log) := by
  induction chain with
  | nil => rfl
  | cons b chain ih =>
    have hlinks : (b.tags D mainExt).filter (fun t => t.2 ≠ .extInExt) = [(b.logicalPlace D, .log)] := by
      cases hl : b.link <;> simp [Ebr.tags, hl]
    rw [flatMap_cons, filter_append, hlinks, ih]
    rfl

/-! ## A table -/

theorem posExt_eq_none {l : List PartitionStruct} (h : ∀ p ∈ l, p.status ≠ .ext) : posExt l = none := by
  induction l with
  | nil => rfl
  | cons p l ih =>
    rw [posExt, ih fun q hq => h q (mem_cons_of_mem _ hq), if_neg fun hp => h p mem_cons_self hp.1]
    rfl

theorem posExt_append {front back : List PartitionStruct} {e : PartitionStruct} (he : e.status = .ext)
    (htype : isExtendedType e.partTypeI386 = true) (hback : ∀ p ∈ back, p.status ≠ .ext) :
    posExt (front ++ e :: back) = some (e, back) := by
  induction front with
  | nil => rw [nil_append, posExt, posExt_eq_none hback, if_pos ⟨he, htype⟩, Option.none_or]
  | cons p front ih => rw [cons_append, posExt, ih, Option.some_or]

namespace MbrTable

variable {geom : ChsGeometry} {ss : ℕ} (t : MbrTable geom ss)

/-- The partitions that have an entry in the first sector. -/
def primaries : List PartitionStruct := t.front ++ t.ext.toList ++ t.back

theorem list_perm : t.list ~ t.logs ++ t.primaries := by
  rw [list, primaries, append_assoc (t.front ++ t.ext.toList)]
  exact (perm_append_comm_assoc _ _ _)

theorem mem_primaries {p : PartitionStruct} (h : p ∈ t.primaries) : p ∈ t.front ++ t.back ∨ p ∈ t.ext := by
  rw [primaries, mem_append, mem_append, Option.mem_toList] at h
  rcases h with (h | h) | h
  · exact Or.inl (mem_append_left _ h)
  · exact Or.inr h
  · exact Or.inl (mem_append_right _ h)

theorem inTable : ∀ p ∈ t.primaries, p.InTable := by
  intro p hp
  obtain ⟨hfirst, hlast⟩ := t.orders p hp
  rcases t.mem_primaries hp with h | h
  · obtain ⟨hstatus, htype⟩ := t.primary p h
    refine ⟨hstatus.elim Or.inl fun h => Or.inr (Or.inl h), ?_, hfirst, hlast⟩
    rw [htype]
    rcases hstatus with hstatus | hstatus <;> simp [hstatus]
  · obtain ⟨hstatus, htype⟩ := t.extended p h
    exact ⟨Or.inr (Or.inr hstatus), iff_of_true htype hstatus, hfirst, hlast⟩

theorem fits_of_mem : ∀ p ∈ t.list, p.Fits ss := t.fits

theorem fits_primaries : ∀ p ∈ t.primaries, p.Fits ss := fun p hp =>
  t.fits_of_mem p (t.list_perm.mem_iff.mpr (mem_append_right _ hp))

/-- The extended partition is the only one. -/
theorem mem_ext {p : PartitionStruct} (hp : p ∈ t.primaries) (h : p.status = .ext) : p ∈ t.ext := by
  refine (t.mem_primaries hp).resolve_left fun hmem => ?_
  rcases (t.primary p hmem).1 with hstatus | hstatus <;> exact absurd (h.symm.trans hstatus) (by decide)

theorem status_back : ∀ p ∈ t.back, p.status ≠ .log ∧ p.status ≠ .ext := by
  intro p hp
  rcases (t.primary p (mem_append_right _ hp)).1 with h | h <;> rw [h] <;> decide

theorem posExt_list : posExt t.list = t.ext.map fun e => (e, t.logs ++ t.back) := by
  cases he : t.ext with
  | none =>
    refine posExt_eq_none fun p hp hext => ?_
    rcases mem_append.mp (t.list_perm.mem_iff.mp hp) with h | h
    · exact absurd (hext.symm.trans (t.logical p h).1) (by decide)
    · exact absurd (t.mem_ext h hext) (by rw [he]; exact Option.not_mem_none p)
  | some e =>
    obtain ⟨hstatus, htype⟩ := t.extended e he
    rw [list, he, Option.toList_some, append_assoc, append_assoc, singleton_append, Option.map_some]
    refine posExt_append hstatus htype fun p hp hext => ?_
    rcases mem_append.mp hp with h | h
    · exact absurd (hext.symm.trans (t.logical p h).1) (by decide)
    · exact (t.status_back p h).2 hext

/-- The logical partitions have no entry. -/
theorem foldl_putPrimary_list (disk : Disk) (buffer : ℕ → UInt8) :
    t.list.foldl (putPrimary geom disk) buffer = t.primaries.foldl (putPrimary geom disk) buffer := by
  rw [list, primaries, foldl_append, foldl_append, foldl_putPrimary_log fun p hp => (t.logical p hp).1, ← foldl_append]

theorem places_disjoint : (t.logs.map place).Nodup ∧ (t.primaries.map place).Nodup ∧
    Disjoint (t.logs.map place) (t.primaries.map place) := by
  have hnodup := (t.list_perm.map place).nodup_iff.mp t.places_nodup
  rw [map_append] at hnodup
  exact nodup_append'.mp hnodup

end MbrTable

/-! ## Writing a table -/

section Write

variable {refuses : ℕ → ℕ → Bool} {geom : ChsGeometry} {disk D : Disk} {t : MbrTable geom disk.sectorSize}

/-- The disk with a table on it. -/
structure TableWritten (t : MbrTable geom disk.sectorSize) (D : Disk) : Prop where
  device : D = { disk with content := D.content }
  sector : slice D.content 0 512 = slice (t.primaries.foldl (putPrimary geom disk) (mbrBase disk)) 0 512
  records : ∀ e ∈ t.ext, ∀ b ∈ logChain geom disk e.partOffset e.partOffset t.logs, b.On D
  empty : ∀ e ∈ t.ext, t.logs = [] → D.bad 512 e.partOffset.toNat = false ∧
    ∃ org, slice D.content e.partOffset.toNat 512 = slice (keepCode org) 0 512
  same : ∀ x, 512 ≤ x → (∀ e ∈ t.ext, (x < e.partOffset.toNat ∨ e.partOffset.toNat + 512 ≤ x) ∧
    ∀ b ∈ logChain geom disk e.partOffset e.partOffset t.logs, x < b.offset.toNat ∨ b.offset.toNat + 512 ≤ x) →
    D.content x = disk.content x

variable (hheads : 0 < geom.headsPerCylinder) (hsectors : 0 < geom.sectorsPerHead) (h512 : 512 ≤ disk.sectorSize)
  (hss : disk.sectorSize < 2 ^ 32)

include hheads hsectors h512 hss

/-- The records are behind the first sector. -/
theorem MbrTable.record_behind {e : PartitionStruct} (he : t.ext = some e) :
    512 ≤ e.partOffset.toNat ∧ ∀ b ∈ logChain geom disk e.partOffset e.partOffset t.logs, 512 ≤ b.offset.toNat := by
  have hbehind := (t.fits e (by simp [he])).behind_first
  refine ⟨h512.trans hbehind, fun b hb => ?_⟩
  have hle := ((t.logsFrom he).records hheads hsectors (by omega) hss b hb).2.1
  omega

/-- **The table is on the disk** when no write fails. -/
theorem TableWritten.of_writePartI386 (hread : ∀ count offset, refuses count offset = false → disk.bad count offset = false)
    (hwrite : writePartI386 refuses geom disk t.list = (0, D)) : TableWritten t D := by
  rw [writePartI386, writeMbrI386, if_neg (Nat.not_lt.mpr h512)] at hwrite
  rcases hmbr : disk.tryWrite refuses (mbrSector geom disk t.list) 0 with ⟨res, disk₁⟩
  simp only [hmbr, Prod.mk.injEq, Nat.add_eq_zero_iff] at hwrite
  obtain ⟨⟨rfl, hres⟩, hD⟩ := hwrite
  obtain ⟨-, rfl⟩ := tryWrite_eq_zero hmbr
  have hbytes : mbrSector geom disk t.list = slice (t.primaries.foldl (putPrimary geom disk) (mbrBase disk)) 0 512 := by
    rw [← t.foldl_putPrimary_list]
    rfl
  obtain ⟨content, hcontent⟩ : ∃ content, content = overwrite (mbrSector geom disk t.list) (0 : UInt64).toNat disk.content :=
    ⟨_, rfl⟩
  have hfirst : slice content 0 512 = slice (t.primaries.foldl (putPrimary geom disk) (mbrBase disk)) 0 512 := by
    rw [hcontent, hbytes]
    exact slice_overwrite (length_slice _ _ _) _
  have hout : ∀ x, 512 ≤ x → content x = disk.content x := by
    intro x hx
    rw [hcontent]
    exact overwrite_of_out (Or.inr (by rw [hbytes, length_slice]; exact hx)) _
  rw [← hcontent] at hres hD
  have hlog : writeAllLogI386 refuses geom { disk with content := content } t.list = (0, D) := Prod.ext hres hD
  rw [writeAllLogI386, t.posExt_list] at hlog
  cases he : t.ext with
  | none =>
    rw [he] at hlog
    obtain rfl : { disk with content := content } = D := congrArg Prod.snd hlog
    exact ⟨rfl, hfirst, by simp [he], by simp [he], fun x hx _ => hout x hx⟩
  | some e =>
    obtain ⟨hext, hrecord⟩ := t.record_behind hheads hsectors h512 hss he
    rw [he] at hlog
    simp only [Option.map_some] at hlog
    rw [head?_filter_log (fun p hp => (t.logical p hp).1) fun p hp => (t.status_back p hp).1] at hlog
    by_cases hlogs : t.logs = []
    · rw [if_pos (by rw [hlogs]; rfl)] at hlog
      obtain ⟨hrefuses, rfl⟩ := tryWrite_eq_zero hlog
      rw [length_slice] at hrefuses
      refine ⟨rfl, ?_, ?_, ?_, ?_⟩
      · rw [← hfirst]
        exact slice_overwrite_of_disjoint (Or.inl (by rw [Nat.zero_add]; exact hext)) _
      · rw [hlogs]
        exact fun _ _ b hb => absurd hb not_mem_nil
      · rintro e' he' -
        obtain rfl : e = e' := Option.some.inj (he.symm.trans he')
        exact ⟨hread _ _ hrefuses, _, slice_overwrite (length_slice _ _ _) _⟩
      · intro x hx hapart
        refine (overwrite_of_out ?_ _).trans (hout x hx)
        rw [length_slice]
        exact (hapart e he).1
    · rw [if_neg (by rwa [head?_eq_none_iff])] at hlog
      have hfrom : LogsFrom geom { disk with content := content }.sectorSize e _ t.logs := t.logsFrom he
      have hwritten : RecordsWritten { disk with content := content } D
          (logChain geom { disk with content := content } e.partOffset e.partOffset t.logs) :=
        writeLogLoop_written hheads hsectors h512 hss hread hfrom hlogs (fun p hp => (t.status_back p hp).1) hlog
      rw [logChain_content] at hwritten
      refine ⟨hwritten.device, ?_, ?_, fun _ _ h => absurd h hlogs, ?_⟩
      · rw [← hfirst]
        exact hwritten.slice_eq fun b hb => Or.inl (hrecord b hb)
      · intro e' he'
        obtain rfl : e = e' := Option.some.inj (he.symm.trans he')
        exact hwritten.on
      · intro x hx hapart
        exact (hwritten.same x (hapart e he).2).trans (hout x hx)

end Write

/-! ## Reading it back -/

section ReadBack

variable {check : PartitionStruct → PartitionStruct} {refuses : ℕ → ℕ → Bool} {geom : ChsGeometry} {disk D : Disk}
  {t : MbrTable geom disk.sectorSize}

/-- A list with the partitions of a table, and the links of a chain. -/
def MbrTable.ReadAs (t : MbrTable geom disk.sectorSize) (list : List PartitionStruct) : Prop :=
  (list.filter fun p => p.status ≠ .extInExt).map PartitionStruct.tag ~ t.list.map PartitionStruct.tag

theorem MbrTable.readAs_iff_of_tags {ts : List ((UInt64 × UInt64 × UInt32) × StatusType)} {list : List PartitionStruct}
    (h : list.map PartitionStruct.tag ~ ts ++ t.primaries.map PartitionStruct.tag) :
    t.ReadAs list ↔ ts.filter (fun u => u.2 ≠ .extInExt) ~ t.logs.map PartitionStruct.tag := by
  have hprim : (t.primaries.map PartitionStruct.tag).filter (fun u => u.2 ≠ .extInExt) =
      t.primaries.map PartitionStruct.tag := by
    refine filter_eq_self.mpr fun u hu => ?_
    obtain ⟨p, hp, rfl⟩ := mem_map.mp hu
    rcases (t.inTable p hp).status with h | h | h <;> simp [PartitionStruct.tag, h]
  have hfilter := h.filter fun u => u.2 ≠ .extInExt
  rw [filter_append, hprim, filter_map] at hfilter
  have hlist := t.list_perm.map PartitionStruct.tag
  rw [map_append] at hlist
  refine Iff.trans ?_ (perm_append_right_iff (t.primaries.map PartitionStruct.tag))
  exact ⟨fun hr => hfilter.symm.trans (hr.trans hlist), fun hr => hfilter.trans (hr.trans hlist.symm)⟩

/-- Without logical partitions, the first sector is the whole table. -/
theorem MbrTable.readAs_of_logs_nil {list : List PartitionStruct}
    (h : list.map PartitionStruct.tag ~ t.primaries.map PartitionStruct.tag) (hlogs : t.logs = []) :
    t.ReadAs list ↔ t.logs.length ≤ 16 := by
  have htags : list.map PartitionStruct.tag ~ [] ++ t.primaries.map PartitionStruct.tag := h
  refine iff_of_true ((MbrTable.readAs_iff_of_tags htags).mpr ?_) ?_
  · rw [hlogs]
    exact .rfl
  · rw [hlogs]
    exact Nat.zero_le _

/-- The tags of the logical partitions. -/
theorem MbrTable.map_tag_logs : t.logs.map PartitionStruct.tag = (t.logs.map place).map fun u => (u, StatusType.log) := by
  rw [map_map]
  exact map_congr_left fun p hp => Prod.ext rfl (t.logical p hp).1

/-- The extended partition is found. -/
theorem MbrTable.getExtPartition {list : List PartitionStruct} (h : list.map PartitionStruct.tag ~ t.primaries.map PartitionStruct.tag) :
    (getExtPartitionI386 list).map place = t.ext.map place := by
  have hfound : ∀ main ∈ getExtPartitionI386 list, ∃ e ∈ t.ext, main.place = e.place := by
    intro main hmain
    have hstatus : main.status = .ext := by simpa using find?_some hmain
    obtain ⟨e, he, htag⟩ := mem_map.mp (h.mem_iff.mp (mem_map_of_mem (mem_of_find?_eq_some hmain)))
    exact ⟨e, t.mem_ext he ((congrArg Prod.snd htag).trans hstatus), (congrArg Prod.fst htag).symm⟩
  cases hmain : getExtPartitionI386 list with
  | some main =>
    obtain ⟨e, he, hplace⟩ := hfound main hmain
    rw [Option.mem_def.mp he, Option.map_some, Option.map_some, hplace]
  | none =>
    cases he : t.ext with
    | none => rfl
    | some e =>
      obtain ⟨hstatus, -⟩ := t.extended e he
      have hmem : e.tag ∈ list.map PartitionStruct.tag :=
        h.mem_iff.mpr (mem_map_of_mem (by simp [MbrTable.primaries, he]))
      obtain ⟨p, hp, htag⟩ := mem_map.mp hmem
      have hnone : p.status ≠ .ext := by simpa using find?_eq_none.mp hmain p hp
      exact absurd ((congrArg Prod.snd htag).trans hstatus) hnone

/-- The entries of the first sector are read. -/
theorem TableWritten.primaries_read (h : TableWritten t D) (hss : disk.sectorSize < 2 ^ 32)
    (hread : disk.bad disk.sectorSize 0 = false) (hcheck : KeepsEntry check) :
    ∃ list, list.map PartitionStruct.tag ~ t.primaries.map PartitionStruct.tag ∧
      ∀ fuel, readPartI386 check D fuel = getExtDataI386 check D fuel list := by
  obtain ⟨content, rfl⟩ : ∃ content, D = { disk with content := content } := ⟨_, h.device⟩
  have hgood : Disk.bad { disk with content := content } disk.sectorSize 0 = false := hread
  obtain ⟨read, hpread, hmark, hentries⟩ := pread_written hgood h.sector
  have hmark : hasMark read = true :=
    hasMark_of_slice (hmark.trans ((slice_mark_foldl_putPrimary t.inTable).trans (slice_mbrBase disk).2))
  refine ⟨_, foldl_takePrimary_range hcheck hss t.inTable t.fits_primaries t.orders_nodup
    t.places_disjoint.2.1 hentries, fun fuel => ?_⟩
  rw [readPartI386]
  simp only [hpread, if_pos hmark]
  rfl

/-- A record without entries ends the walk. -/
theorem extRound_emptyRecord {mainExt pos : UInt64} {s : ExtWalk} {org : ℕ → UInt8} (hs : s.nextExt = some pos)
    (hnbr : s.nbrPart < 32) (hpos : pos ≠ 0) (hread : D.bad 512 pos.toNat = false)
    (h : slice D.content pos.toNat 512 = slice (keepCode org) 0 512) :
    extRound check D mainExt s = some { s with nextExt := none } := by
  obtain ⟨read, hpread, hmark, hentries⟩ := pread_written hread h
  have hmark : hasMark read = true := hasMark_of_slice (hmark.trans (slice_mark_keepCode org))
  have hrecord : readRecord D pos = some read := by
    change (D.pread 512 pos.toNat).filter hasMark = some read
    rw [hpread, Option.filter_some, if_pos hmark]
  have hzero : ∀ i < 4, ptOffset read i = ⟨0, 0, 0⟩ := fun i hi =>
    ptOffset_of_bytes (e := ⟨0, 0, 0, 0, 0, 0, 0, 0, 0, 0⟩) ((hentries i hi).trans (keepCode_entry org hi))
  have hentries : recordEntries read = [⟨0, 0, 0⟩, ⟨0, 0, 0⟩, ⟨0, 0, 0⟩, ⟨0, 0, 0⟩] := by
    change [ptOffset read 0, ptOffset read 1, ptOffset read 2, ptOffset read 3] = _
    rw [hzero 0 (by decide), hzero 1 (by decide), hzero 2 (by decide), hzero 3 (by decide)]
  rw [extRound, hs]
  simp only [if_pos hnbr, if_neg hpos, hrecord, Option.map_some, hentries]
  rfl

/-- The entries of a chain are in other places than the partitions of the first sector. -/
theorem MbrTable.places_chain_disjoint (t : MbrTable geom disk.sectorSize) {e : PartitionStruct} (he : t.ext = some e)
    {chain : List Ebr} (hchain : LinkedChain D e.partOffset e.partOffset chain)
    (hplaces : chain.map (Ebr.logicalPlace D) = t.logs.map place) :
    Disjoint (chain.flatMap (Ebr.places D e.partOffset)) (t.primaries.map place) := by
  intro x hx hx'
  obtain ⟨b, hb, hx⟩ := mem_flatMap.mp hx
  rcases mem_cons.mp hx with rfl | hx
  · exact t.places_disjoint.2.2 (hplaces ▸ mem_map_of_mem hb) hx'
  · -- a link has an extended type, and the extended partition is in front of all links
    obtain ⟨q, hq, rfl⟩ := mem_map.mp hx'
    obtain ⟨link, hlink, hplace⟩ := mem_map.mp hx
    have htype := isExtended_linkPlace e.partOffset (hchain.on b hb) (Option.mem_toList.mp hlink)
    rw [hplace] at htype
    have hext : q.status = .ext :=
      (t.inTable q hq).extended.mp ((t.fits_primaries q hq).isExtended_sysInd.symm.trans htype)
    obtain rfl : e = q := Option.some.inj (he.symm.trans (t.mem_ext hq hext))
    have hmem : e.partOffset ∈ chain.tail.map Ebr.offset := by
      rw [← hchain.map_links]
      exact mem_map.mpr ⟨e.place, mem_flatMap.mpr ⟨b, hb, hx⟩, rfl⟩
    have hnodup := hchain.nodup
    cases chain with
    | nil => exact hchain.elim
    | cons c chain =>
      rw [map_cons, nodup_cons, hchain.1] at hnodup
      exact hnodup.1 hmem

variable (hheads : 0 < geom.headsPerCylinder) (hsectors : 0 < geom.sectorsPerHead) (h512 : 512 ≤ disk.sectorSize)
  (hss : disk.sectorSize < 2 ^ 32)

include hheads hsectors h512 hss

/-- The records are read. -/
theorem TableWritten.records_read (h : TableWritten t D) (hcheck : KeepsEntry check) {e : PartitionStruct}
    (he : t.ext = some e) (hlogs : t.logs ≠ []) {list : List PartitionStruct}
    (hlist : list.map PartitionStruct.tag ~ t.primaries.map PartitionStruct.tag) :
    ∃ n s, (∀ k, n ≤ k → runFor (extRound check D e.partOffset) k ⟨list, 5, 0, some e.partOffset⟩ = some s) ∧
      (t.ReadAs s.listPart ↔ t.logs.length ≤ 16) := by
  have hpos : 0 < disk.sectorSize := by omega
  have hsize : D.sectorSize = disk.sectorSize := (congrArg Disk.sectorSize h.device).trans rfl
  have hfrom := t.logsFrom he
  obtain ⟨-, hrecord⟩ := t.record_behind hheads hsectors h512 hss he
  have hchain := logChain_linked hheads hsectors hpos hss hsize (t.fits e (by simp [he])).start hfrom hlogs (h.records e he)
  have hplaces := map_logicalPlace_logChain hheads hsectors hpos hss hsize hfrom
  have hlistPlaces : list.map place ~ t.primaries.map place := by
    simpa only [map_fst_map_tag] using hlist.map Prod.fst
  have hnodup := hchain.nodup_places (hplaces ▸ t.places_disjoint.1)
  have hne : ∀ b ∈ logChain geom disk e.partOffset e.partOffset t.logs, b.offset ≠ 0 := fun b hb h0 => by
    have := hrecord b hb
    rw [h0] at this
    exact absurd this (by decide)
  obtain ⟨n, s, hrun, htags⟩ := runFor_linkedChain (s := ⟨list, 5, 0, some e.partOffset⟩) (m := 16) hcheck hchain hne rfl rfl
    hnodup fun x hx hx' => t.places_chain_disjoint he hchain hplaces hx (hlistPlaces.mem_iff.mp hx')
  have htaken : (((logChain geom disk e.partOffset e.partOffset t.logs).take 16).flatMap (Ebr.tags D e.partOffset)).filter
      (fun u => u.2 ≠ .extInExt) = (t.logs.map PartitionStruct.tag).take 16 := by
    rw [filter_flatMap_tags, MbrTable.map_tag_logs, ← hplaces, ← map_take, ← map_take, map_map]
    rfl
  refine ⟨n, s, hrun, ?_⟩
  rw [MbrTable.readAs_iff_of_tags (htags.trans (hlist.append_left _)), htaken]
  constructor
  · intro hperm
    have hlength := hperm.length_eq
    rw [length_take, length_map] at hlength
    omega
  · intro hfew
    rw [take_of_length_le (by rwa [length_map])]

/-- The table is read from the disk. -/
theorem TableWritten.readPartI386 (h : TableWritten t D) (hread : disk.bad disk.sectorSize 0 = false)
    (hcheck : KeepsEntry check) :
    ∃ list, (∀ fuel, 33 ≤ fuel → readPartI386 check D fuel = some list) ∧ (t.ReadAs list ↔ t.logs.length ≤ 16) := by
  obtain ⟨list, hlist, hfirst⟩ := h.primaries_read hss hread hcheck
  obtain ⟨r, hr⟩ := getExtDataI386_ends check D list
  refine ⟨r, fun fuel hfuel => (hfirst fuel).trans (hr fuel hfuel), ?_⟩
  -- what the walk comes to with some number of rounds, it comes to with 33
  have hends : ∀ n r', (∀ k, n ≤ k → getExtDataI386 check D k list = some r') → r = r' := fun n r' h' =>
    Option.some.inj ((hr _ (le_max_right n 33)).symm.trans (h' _ (le_max_left n 33)))
  have hmain := MbrTable.getExtPartition hlist
  cases he : t.ext with
  | none =>
    rw [he, Option.map_none, Option.map_eq_none_iff] at hmain
    obtain rfl := hends 0 list fun k _ => by rw [getExtDataI386, hmain]
    have hlogs : t.logs = [] := eq_nil_iff_forall_not_mem.mpr fun p hp => by
      obtain ⟨e, he', -⟩ := t.inside p hp
      exact absurd he' (by rw [he]; exact Option.not_mem_none e)
    exact MbrTable.readAs_of_logs_nil hlist hlogs
  | some e =>
    rw [he, Option.map_some, Option.map_eq_some_iff] at hmain
    obtain ⟨main, hmain, hplace⟩ := hmain
    have hoffset : main.partOffset = e.partOffset := congrArg Prod.fst hplace
    have hwalk : ∀ k, getExtDataI386 check D k list =
        (runFor (extRound check D e.partOffset) k ⟨list, 5, 0, some e.partOffset⟩).map ExtWalk.listPart := fun k => by
      simp only [getExtDataI386, hmain, hoffset]
    by_cases hlogs : t.logs = []
    · obtain ⟨hbad, org, hcontent⟩ := h.empty e he hlogs
      have hbehind := (t.record_behind hheads hsectors h512 hss he).1
      have hround : extRound check D e.partOffset ⟨list, 5, 0, some e.partOffset⟩ = some ⟨list, 5, 0, none⟩ :=
        extRound_emptyRecord rfl (show 0 < 32 by decide) (fun h0 => by rw [h0] at hbehind; exact absurd hbehind (by decide)) hbad hcontent
      obtain rfl := hends 2 list fun k hk => by
        rw [hwalk, runFor_of_some hround (fun k hk => runFor_of_none rfl (Nat.lt_of_succ_le hk)) k hk]
        rfl
      exact MbrTable.readAs_of_logs_nil hlist hlogs
    · obtain ⟨n, s, hrun, hreads⟩ := h.records_read hheads hsectors h512 hss hcheck he hlogs hlist
      obtain rfl := hends n s.listPart fun k hk => by rw [hwalk, hrun k hk]; rfl
      exact hreads

end ReadBack

/-! ## A disk with two logical partitions -/

/-- The geometry of a small disk. -/
def smallGeometry : ChsGeometry := ⟨100, 16, 63⟩

/-- A small disk, without a table. -/
def unpartitionedDisk : Disk := ⟨512, 100 * 16 * 63 * 512, fun _ => 0, fun _ _ => false⟩

/-- A partition from a sector on. -/
def partitionAt (start sectors : UInt64) (partType : UInt32) (status : StatusType) (order : UInt32) : PartitionStruct :=
  { partitionNew with partOffset := start * 512, partSize := sectors * 512, partTypeI386 := partType, status, order }

/-- A primary partition, and two logical ones. -/
def smallTable : MbrTable smallGeometry unpartitionedDisk.sectorSize where
  front := [partitionAt 63 100 0x07 .primBoot 1]
  ext := some (partitionAt 200 400 0x0F .ext 2)
  logs := [partitionAt 263 60 0x83 .log 5, partitionAt 400 50 0x82 .log 6]
  back := []
  primary := by decide +kernel
  extended := by decide +kernel
  logical := by decide +kernel
  fits := by decide +kernel
  orders := by decide +kernel
  orders_nodup := by decide +kernel
  places_nodup := by decide +kernel
  inside := fun p hp => ⟨_, rfl, by revert p; decide +kernel⟩
  apart := by decide +kernel
  heads := by decide +kernel

theorem writePartI386_smallTable : ∃ D, writePartI386 (fun _ _ => false) smallGeometry unpartitionedDisk smallTable.list = (0, D) := by
  have hfst : (writePartI386 (fun _ _ => false) smallGeometry unpartitionedDisk smallTable.list).1 = 0 := by decide +kernel
  generalize writePartI386 (fun _ _ => false) smallGeometry unpartitionedDisk smallTable.list = written at hfst
  exact ⟨written.2, Prod.ext hfst rfl⟩

/-! ## Tables -/

section Table

variable {check : PartitionStruct → PartitionStruct} {refuses : ℕ → ℕ → Bool} {geom : ChsGeometry} {disk D : Disk}

/-- **A partition table that was written is read back**, each partition in its place, with its type and its status,
exactly when it has at most 16 logical partitions. -/
theorem writePartI386_readBack_iff (hcheck : KeepsEntry check) (hheads : 0 < geom.headsPerCylinder)
    (hsectors : 0 < geom.sectorsPerHead) (h512 : 512 ≤ disk.sectorSize) (hss : disk.sectorSize < 2 ^ 32)
    (hread : ∀ count offset, refuses count offset = false → disk.bad count offset = false)
    (hread0 : disk.bad disk.sectorSize 0 = false) (t : MbrTable geom disk.sectorSize)
    (hwrite : writePartI386 refuses geom disk t.list = (0, D)) :
    ∃ list, (∀ fuel, 33 ≤ fuel → readPartI386 check D fuel = some list) ∧
      ((list.filter fun p => p.status ≠ .extInExt).map PartitionStruct.tag ~ t.list.map PartitionStruct.tag ↔
        t.logs.length ≤ 16) :=
  (TableWritten.of_writePartI386 hheads hsectors h512 hss hread hwrite).readPartI386 hheads hsectors h512 hss hread0 hcheck

/-- The table of a small disk is read back. -/
theorem writePartI386_readBack_smallTable :
    ∃ D list, writePartI386 (fun _ _ => false) smallGeometry unpartitionedDisk smallTable.list = (0, D) ∧
      (∀ fuel, 33 ≤ fuel → readPartI386 id D fuel = some list) ∧
      (list.filter fun p => p.status ≠ .extInExt).map PartitionStruct.tag ~ smallTable.list.map PartitionStruct.tag := by
  obtain ⟨D, hwrite⟩ := writePartI386_smallTable
  obtain ⟨list, hlist, hread⟩ := writePartI386_readBack_iff (show KeepsEntry id from fun _ => ⟨rfl, rfl⟩) (by decide) (by decide)
    (by decide) (by decide) (fun _ _ _ => rfl) rfl smallTable hwrite
  exact ⟨D, list, hwrite, hlist, hread.mpr (by decide)⟩

/-- **Writing a table changes no byte of a partition**, when no primary partition meets the extended one. -/
theorem writePartI386_same (hheads : 0 < geom.headsPerCylinder)
    (hsectors : 0 < geom.sectorsPerHead) (h512 : 512 ≤ disk.sectorSize) (hss : disk.sectorSize < 2 ^ 32)
    (hread : ∀ count offset, refuses count offset = false → disk.bad count offset = false)
    (t : MbrTable geom disk.sectorSize)
    (houtside : ∀ p ∈ t.front ++ t.back, ∀ e ∈ t.ext, p.stop ≤ e.partOffset.toNat ∨ e.stop ≤ p.partOffset.toNat)
    (hwrite : writePartI386 refuses geom disk t.list = (0, D)) {p : PartitionStruct} (hp : p ∈ t.front ++ t.logs ++ t.back)
    {x : ℕ} (hx : p.partOffset.toNat ≤ x) (hstop : x < p.stop) : D.content x = disk.content x := by
  have hfits : p.Fits disk.sectorSize := t.fits p (by simp only [mem_append] at hp ⊢; tauto)
  have hbehind := hfits.behind_first
  refine (TableWritten.of_writePartI386 hheads hsectors h512 hss hread hwrite).same x (by omega) fun e he => ?_
  have he : t.ext = some e := he
  have hfitsE : e.Fits disk.sectorSize := t.fits e (by simp [he])
  have hrecords := (t.logsFrom he).records hheads hsectors (by omega) hss
  have hlength : e.partOffset.toNat + disk.sectorSize ≤ e.stop :=
    Nat.add_le_add_left (Nat.le_of_dvd hfitsE.nonempty hfitsE.size) _
  by_cases hlog : p ∈ t.logs
  · obtain ⟨e', he', hfirst, -⟩ := t.inside p hlog
    obtain rfl : e = e' := Option.some.inj (he.symm.trans he')
    refine ⟨by omega, fun b hb => ?_⟩
    obtain ⟨-, -, hapart, -⟩ := hrecords b hb
    have := hapart p hlog
    omega
  · have hprim : p ∈ t.front ++ t.back := by simp only [mem_append] at hp ⊢; tauto
    have hout := houtside p hprim e he
    refine ⟨by omega, fun b hb => ?_⟩
    obtain ⟨-, hle, -, hend⟩ := hrecords b hb
    omega

/-- The partitions of a small disk are as they were. -/
theorem writePartI386_same_smallTable :
    ∃ D, writePartI386 (fun _ _ => false) smallGeometry unpartitionedDisk smallTable.list = (0, D) ∧
      D.content (400 * 512) = unpartitionedDisk.content (400 * 512) := by
  obtain ⟨D, hwrite⟩ := writePartI386_smallTable
  exact ⟨D, hwrite, writePartI386_same (by decide) (by decide) (by decide) (by decide) (fun _ _ _ => rfl) smallTable
    (by decide +kernel) hwrite (p := partitionAt 400 50 0x82 .log 6) (by decide +kernel) (by decide +kernel)
    (by decide +kernel)⟩

end Table

end RecoveryQt
