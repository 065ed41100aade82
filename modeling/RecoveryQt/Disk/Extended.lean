import RecoveryQt.Disk.PartitionList
import RecoveryQt.Fat.Model
import RecoveryQt.Lib.Halting

/-!
# Extended partitions

* `PartitionDos`, `i386Entry2partition`, `takeEntry`, `extRound`, `getExtDataI386`: the code, with the checks of the
  file systems as a parameter;
* `Ebr`, `LinkedChain`, `WellFormedChain`: records that are linked, each with a logical partition;
* `foldl_takeEntry`, `runFor_linkedChain`: what a record, and a chain of them, adds;
* `getExtDataI386_ends`: the walk comes to an end on each disk;
* **`getExtDataI386_listsLogical_iff`**: it lists the logical partitions of a chain that has at most 16 records;
* `getExtDataI386_seventeen`: the last of seventeen is missed.
-/

namespace RecoveryQt

open List PartitionStruct

/-! ## The code -/

/-- `struct partition_dos`. -/
structure PartitionDos where
  sysInd : UInt8
  startSect : ℕ
  nrSects : ℕ
  deriving DecidableEq

/-- `pt_offset`, with `get_start_sect` and `get_nr_sects`. -/
def ptOffset (buffer : ℕ → UInt8) (i : ℕ) : PartitionDos where
  sysInd := buffer (0x1BE + 16 * i + 4)
  startSect := le32At buffer (0x1BE + 16 * i + 8)
  nrSects := le32At buffer (0x1BE + 16 * i + 12)

/-- `is_extended`: `P_EXTENDX`, `P_EXTENDED` and `P_LINUXEXTENDX`. -/
def isExtended (partType : UInt8) : Bool := partType = 0x0F || partType = 0x05 || partType = 0x85

/-- `get_ext_partition_i386`. -/
def getExtPartitionI386 (list : List PartitionStruct) : Option PartitionStruct := list.find? (·.status = .ext)

section Code

/- `check_part_i386` on the disk. -/
variable (check : PartitionStruct → PartitionStruct) (disk : Disk)

/-- `i386_entry2partition`, for logical and linked partitions. -/
def i386Entry2partition (offset : UInt64) (p : PartitionDos) (status : StatusType) (order : UInt32) :
    PartitionStruct :=
  check { partitionNew with
    partTypeI386 := p.sysInd.toUInt32
    partOffset := offset + UInt64.ofNat (p.startSect * disk.sectorSize)
    order
    partSize := UInt64.ofNat (p.nrSects * disk.sectorSize)
    status }

/-- The variables of the loop: `partition_next_ext` is known by its offset. -/
structure ExtWalk where
  listPart : List PartitionStruct
  order : UInt32
  nbrPart : ℕ
  nextExt : Option UInt64
  deriving DecidableEq

/-- One entry of the record at `ext`. -/
def takeEntry (mainExt ext : UInt64) (s : ExtWalk) (p : PartitionDos) : ExtWalk :=
  if p.sysInd = 0 then s
  else
    let newPartition := if isExtended p.sysInd then i386Entry2partition check disk mainExt p .extInExt s.order
      else i386Entry2partition check disk ext p .log s.order
    let order := if isExtended p.sysInd then s.order else s.order + 1
    let inserted := insertNewPartition false newPartition s.listPart
    if inserted.2 then { s with listPart := inserted.1, order }
    else
      { listPart := inserted.1
        order
        nbrPart := s.nbrPart + 1
        nextExt := if isExtended p.sysInd then some newPartition.partOffset else s.nextExt }

/-- The sector at `ext`, when it can be read and has the mark. -/
def readRecord (ext : UInt64) : Option (ℕ → UInt8) :=
  (disk.pread 512 ext.toNat).filter fun buffer => buffer 0x1FE = 0x55 && buffer 0x1FF = 0xAA

/-- The four entries of a record. -/
def recordEntries (buffer : ℕ → UInt8) : List PartitionDos := (range 4).map (ptOffset buffer)

/-- One round of the loop, `none` when it returns. -/
def extRound (mainExt : UInt64) (s : ExtWalk) : Option ExtWalk :=
  match s.nextExt with
  | none => none
  | some ext =>
    if s.nbrPart < 32 then
      if ext = 0 then none
      else (readRecord disk ext).map fun buffer =>
        (recordEntries buffer).foldl (takeEntry check disk mainExt ext) { s with nextExt := none }
    else none

/-- `get_ext_data_i386`, in at most `fuel` rounds. -/
def getExtDataI386 (fuel : ℕ) (list : List PartitionStruct) : Option (List PartitionStruct) :=
  match getExtPartitionI386 list with
  | none => some list
  | some main => (runFor (extRound check disk main.partOffset) fuel ⟨list, 5, 0, some main.partOffset⟩).map
      ExtWalk.listPart

end Code

/-! ## Chains of records -/

/-- The place that the entry `p` denotes, from `base` on. -/
def PartitionDos.place (disk : Disk) (base : UInt64) (p : PartitionDos) : UInt64 × UInt64 × UInt32 :=
  (base + UInt64.ofNat (p.startSect * disk.sectorSize), UInt64.ofNat (p.nrSects * disk.sectorSize), p.sysInd.toUInt32)

/-- An extended boot record: a logical partition, and the link to the next record. -/
structure Ebr where
  offset : UInt64
  logical : PartitionDos
  link : Option PartitionDos
  deriving DecidableEq

/-- The record is on the disk, its entries in any order. -/
def Ebr.On (disk : Disk) (b : Ebr) : Prop :=
  isExtended b.logical.sysInd = false ∧ (∀ p ∈ b.link, isExtended p.sysInd = true) ∧
    ∃ buffer ∈ readRecord disk b.offset,
      ((recordEntries buffer).filter fun p => p.sysInd ≠ 0) ~ b.logical :: b.link.toList

/-- Records from `e` to one without a link, where a link is relative to the main extended partition. -/
def LinkedChain (disk : Disk) (mainExt : UInt64) : UInt64 → List Ebr → Prop
  | _, [] => False
  | e, b :: rest => b.offset = e ∧ b.On disk ∧
    match b.link with
    | none => rest = []
    | some p => LinkedChain disk mainExt (p.place disk mainExt).1 rest

instance (disk : Disk) (b : Ebr) : Decidable (b.On disk) := inferInstanceAs (Decidable (_ ∧ _))

instance decidableLinkedChain (disk : Disk) (mainExt : UInt64) :
    ∀ e chain, Decidable (LinkedChain disk mainExt e chain)
  | _, [] => .isFalse id
  | e, b :: rest =>
    have : Decidable (match b.link with
        | none => rest = []
        | some p => LinkedChain disk mainExt (p.place disk mainExt).1 rest) :=
      match b.link with
      | none => inferInstanceAs (Decidable (rest = []))
      | some p => decidableLinkedChain disk mainExt (p.place disk mainExt).1 rest
    inferInstanceAs (Decidable (b.offset = e ∧ b.On disk ∧ _))

/-- The place of a record's logical partition, relative to the record. -/
def Ebr.logicalPlace (disk : Disk) (b : Ebr) : UInt64 × UInt64 × UInt32 := b.logical.place disk b.offset

/-- The places of the entries of a record. -/
def Ebr.places (disk : Disk) (mainExt : UInt64) (b : Ebr) : List (UInt64 × UInt64 × UInt32) :=
  b.logicalPlace disk :: b.link.toList.map (PartitionDos.place disk mainExt)

/-- A chain in the main extended partition `main`, with different logical partitions that `list` does not have yet. -/
structure WellFormedChain (disk : Disk) (list : List PartitionStruct) (main : PartitionStruct) (chain : List Ebr) :
    Prop where
  linked : LinkedChain disk main.partOffset main.partOffset chain
  behind_mbr : 0 < main.partOffset
  inside : ∀ b ∈ chain, main.partOffset ≤ b.offset ∧ b.offset.toNat < main.stop
  different : (chain.map (Ebr.logicalPlace disk)).Nodup
  new : ∀ b ∈ chain, ∀ q ∈ list, q.place ∉ b.places disk main.partOffset

/-- The logical partition of a record is in the list, once. -/
def Ebr.ListedIn (disk : Disk) (list : List PartitionStruct) (b : Ebr) : Prop :=
  ∃ p, p.status = .log ∧ list.filter (fun q => q.place = b.logicalPlace disk) = [p]

/-- The file system checks leave what the entry says. -/
def KeepsEntry (check : PartitionStruct → PartitionStruct) : Prop :=
  ∀ p, (check p).place = p.place ∧ (check p).status = p.status

/-! ## An entry -/

/-- Where a partition is, and what it is. -/
def PartitionStruct.tag (p : PartitionStruct) : (UInt64 × UInt64 × UInt32) × StatusType := (p.place, p.status)

theorem map_fst_map_tag (l : List PartitionStruct) : (l.map PartitionStruct.tag).map Prod.fst = l.map place := by
  rw [map_map]
  rfl

section Walk

variable {check : PartitionStruct → PartitionStruct} {disk : Disk} {mainExt ext : UInt64} {s : ExtWalk}

/-- The partition of an entry of the record at `ext`. -/
def PartitionDos.tag (disk : Disk) (mainExt ext : UInt64) (p : PartitionDos) :
    (UInt64 × UInt64 × UInt32) × StatusType :=
  if isExtended p.sysInd then (p.place disk mainExt, .extInExt) else (p.place disk ext, .log)

theorem tag_i386Entry2partition (hcheck : KeepsEntry check) (base : UInt64) (p : PartitionDos) (status : StatusType)
    (order : UInt32) : (i386Entry2partition check disk base p status order).tag = (p.place disk base, status) := by
  obtain ⟨hplace, hstatus⟩ := hcheck { partitionNew with
    partTypeI386 := p.sysInd.toUInt32
    partOffset := base + UInt64.ofNat (p.startSect * disk.sectorSize)
    order
    partSize := UInt64.ofNat (p.nrSects * disk.sectorSize)
    status }
  rw [i386Entry2partition, PartitionStruct.tag, hplace, hstatus]
  rfl

/-- An entry in a new place adds a partition. -/
theorem takeEntry_new (hcheck : KeepsEntry check) {p : PartitionDos} (hp : p.sysInd ≠ 0)
    (hnew : (p.tag disk mainExt ext).1 ∉ s.listPart.map place) :
    (takeEntry check disk mainExt ext s p).listPart.map PartitionStruct.tag ~
        p.tag disk mainExt ext :: s.listPart.map PartitionStruct.tag ∧
      (takeEntry check disk mainExt ext s p).nbrPart = s.nbrPart + 1 ∧
      (takeEntry check disk mainExt ext s p).nextExt =
        if isExtended p.sysInd then some (p.place disk mainExt).1 else s.nextExt := by
  obtain ⟨part, hpart, htag⟩ : ∃ part, part = (if isExtended p.sysInd then
      i386Entry2partition check disk mainExt p .extInExt s.order
      else i386Entry2partition check disk ext p .log s.order) ∧ part.tag = p.tag disk mainExt ext := by
    refine ⟨_, rfl, ?_⟩
    rw [PartitionDos.tag]
    split <;> exact tag_i386Entry2partition hcheck ..
  have hplace : part.place = (p.tag disk mainExt ext).1 := congrArg Prod.fst htag
  obtain ⟨herr, hperm⟩ := insertNewPartition_perm (hplace ▸ hnew)
  have htake : takeEntry check disk mainExt ext s p =
      { listPart := (insertNewPartition false part s.listPart).1
        order := if isExtended p.sysInd then s.order else s.order + 1
        nbrPart := s.nbrPart + 1
        nextExt := if isExtended p.sysInd then some part.partOffset else s.nextExt } := by
    rw [takeEntry, if_neg hp, ← hpart]
    exact if_neg (by rw [herr]; exact Bool.false_ne_true)
  rw [htake]
  refine ⟨htag ▸ hperm.map PartitionStruct.tag, rfl, ?_⟩
  change (if isExtended p.sysInd then some part.place.1 else s.nextExt) = _
  refine ite_congr rfl (fun hext => ?_) fun _ => rfl
  rw [hplace, PartitionDos.tag, if_pos hext]

/-- The entries of a record, in new places that differ. -/
theorem foldl_takeEntry (hcheck : KeepsEntry check) {ps : List PartitionDos} (hused : ∀ p ∈ ps, p.sysInd ≠ 0)
    (hnew : (ps.map fun p => (p.tag disk mainExt ext).1).Nodup)
    (hdisj : Disjoint (ps.map fun p => (p.tag disk mainExt ext).1) (s.listPart.map place)) :
    (ps.foldl (takeEntry check disk mainExt ext) s).listPart.map PartitionStruct.tag ~
        ps.map (PartitionDos.tag disk mainExt ext) ++ s.listPart.map PartitionStruct.tag ∧
      (ps.foldl (takeEntry check disk mainExt ext) s).nbrPart = s.nbrPart + ps.length ∧
      (ps.foldl (takeEntry check disk mainExt ext) s).nextExt =
        (((ps.filter fun p => isExtended p.sysInd).getLast?.map fun p => (p.place disk mainExt).1).or s.nextExt) := by
  induction ps generalizing s with
  | nil => exact ⟨.rfl, rfl, rfl⟩
  | cons p ps ih =>
    rw [map_cons, nodup_cons] at hnew
    rw [map_cons, disjoint_cons_left] at hdisj
    obtain ⟨htags, hnbr, hnext⟩ := takeEntry_new hcheck (hused p mem_cons_self) hdisj.1
    have hplaces : (takeEntry check disk mainExt ext s p).listPart.map place ~
        (p.tag disk mainExt ext).1 :: s.listPart.map place := by
      simpa only [map_fst_map_tag, map_cons] using htags.map Prod.fst
    obtain ⟨htags', hnbr', hnext'⟩ := ih (s := takeEntry check disk mainExt ext s p)
      (fun q hq => hused q (mem_cons_of_mem _ hq)) hnew.2 fun x hx hx' => by
        rcases mem_cons.mp (hplaces.mem_iff.mp hx') with rfl | hx'
        · exact hnew.1 hx
        · exact hdisj.2 hx hx'
    refine ⟨?_, by rw [foldl_cons, hnbr', hnbr, length_cons]; omega, ?_⟩
    · exact htags'.trans ((htags.append_left _).trans perm_middle)
    · rw [foldl_cons, hnext', hnext, filter_cons]
      split
      · rw [getLast?_cons]
        cases ((ps.filter fun p => isExtended p.sysInd).getLast?) <;> rfl
      · rfl

/-- The used entries of a record count. -/
theorem foldl_recordEntries (buffer : ℕ → UInt8) :
    (recordEntries buffer).foldl (takeEntry check disk mainExt ext) s =
      ((recordEntries buffer).filter fun p => p.sysInd ≠ 0).foldl (takeEntry check disk mainExt ext) s := by
  rw [foldl_filter]
  congr 1
  funext s p
  by_cases hp : p.sysInd = 0
  · simp [takeEntry, hp]
  · simp [hp]

/-! ## A record -/

/-- What a record adds. -/
def Ebr.tags (disk : Disk) (mainExt : UInt64) (b : Ebr) : List ((UInt64 × UInt64 × UInt32) × StatusType) :=
  (b.logicalPlace disk, .log) :: b.link.toList.map fun p => (p.place disk mainExt, .extInExt)

theorem map_fst_tags (b : Ebr) : (b.tags disk mainExt).map Prod.fst = b.places disk mainExt := by
  rw [Ebr.tags, map_cons, map_map]
  rfl

theorem Ebr.On.map_tag {b : Ebr} (hb : b.On disk) :
    (b.logical :: b.link.toList).map (PartitionDos.tag disk mainExt b.offset) = b.tags disk mainExt := by
  rw [map_cons, Ebr.tags, PartitionDos.tag, hb.1, if_neg Bool.false_ne_true]
  refine congrArg _ (map_congr_left fun p hp => ?_)
  rw [PartitionDos.tag, hb.2.1 p (Option.mem_toList.mp hp), if_pos rfl]

/-- The links of a record are its link. -/
theorem Ebr.On.filter_isExtended {b : Ebr} (hb : b.On disk) {ps : List PartitionDos}
    (hps : ps ~ b.logical :: b.link.toList) : (ps.filter fun p => isExtended p.sysInd) = b.link.toList := by
  have hperm := hps.filter fun p => isExtended p.sysInd
  rw [filter_cons_of_neg (by rw [hb.1]; exact Bool.false_ne_true)] at hperm
  obtain ⟨-, hlink, -⟩ := hb
  cases hl : b.link with
  | none =>
    rw [hl] at hperm
    exact perm_nil.mp hperm
  | some p =>
    rw [hl, Option.toList_some, filter_singleton, hlink p hl] at hperm
    exact perm_singleton.mp hperm

/-- A record in new places adds its logical partition and its link, and the walk goes on to the link. -/
theorem Ebr.On.extRound {b : Ebr} (hb : b.On disk) (hcheck : KeepsEntry check) (hs : s.nextExt = some b.offset)
    (hnbr : s.nbrPart < 32) (hne : b.offset ≠ 0) (hnodup : (b.places disk mainExt).Nodup)
    (hdisj : Disjoint (b.places disk mainExt) (s.listPart.map place)) :
    ∃ t, extRound check disk mainExt s = some t ∧
      t.listPart.map PartitionStruct.tag ~ b.tags disk mainExt ++ s.listPart.map PartitionStruct.tag ∧
      t.nbrPart = s.nbrPart + 1 + b.link.toList.length ∧
      t.nextExt = b.link.map fun p => (p.place disk mainExt).1 := by
  obtain ⟨buffer, hbuffer, hps⟩ := hb.2.2
  have htags := (hps.map (PartitionDos.tag disk mainExt b.offset)).trans (.of_eq hb.map_tag)
  have hplaces : (((recordEntries buffer).filter fun p => p.sysInd ≠ 0).map
      fun p => (p.tag disk mainExt b.offset).1) ~ b.places disk mainExt := by
    rw [← map_fst_tags, ← Function.comp_def Prod.fst, ← map_map]
    exact htags.map Prod.fst
  obtain ⟨hlist, hcount, hnext⟩ := foldl_takeEntry (s := { s with nextExt := none }) hcheck
    (fun p hp => of_decide_eq_true (mem_filter.mp hp).2) (hplaces.nodup_iff.mpr hnodup)
    fun x hx hx' => hdisj (hplaces.mem_iff.mp hx) hx'
  refine ⟨(recordEntries buffer).foldl (takeEntry check disk mainExt b.offset) { s with nextExt := none }, ?_, ?_⟩
  · rw [RecoveryQt.extRound, hs]
    simp only [if_pos hnbr, if_neg hne, Option.mem_def.mp hbuffer, Option.map_some]
  · rw [foldl_recordEntries]
    refine ⟨hlist.trans (htags.append_right _), ?_, ?_⟩
    · rw [hcount, hps.length_eq, length_cons, Nat.add_comm _ 1, Nat.add_assoc]
    · rw [hnext, hb.filter_isExtended hps]
      cases b.link <;> rfl

/-! ## A chain -/

/-- A chain of records in new places: as many of them are taken as there is room for. -/
theorem runFor_linkedChain (hcheck : KeepsEntry check) {chain : List Ebr} {e : UInt64}
    (hchain : LinkedChain disk mainExt e chain) (hne : ∀ b ∈ chain, b.offset ≠ 0) {m : ℕ} (hs : s.nextExt = some e)
    (hnbr : s.nbrPart + 2 * m = 32) (hnodup : (chain.flatMap (Ebr.places disk mainExt)).Nodup)
    (hdisj : Disjoint (chain.flatMap (Ebr.places disk mainExt)) (s.listPart.map place)) :
    ∃ n t, (∀ k, n ≤ k → runFor (RecoveryQt.extRound check disk mainExt) k s = some t) ∧
      t.listPart.map PartitionStruct.tag ~
        (chain.take m).flatMap (Ebr.tags disk mainExt) ++ s.listPart.map PartitionStruct.tag := by
  induction chain generalizing e s m with
  | nil => exact hchain.elim
  | cons b rest ih =>
    obtain ⟨rfl, hb, hlink⟩ := hchain
    cases m with
    | zero =>
      have hfull : RecoveryQt.extRound check disk mainExt s = none := by
        rw [RecoveryQt.extRound, hs]
        exact if_neg (by omega)
      exact ⟨1, s, fun k hk => runFor_of_none hfull hk, .rfl⟩
    | succ m =>
      rw [flatMap_cons] at hnodup hdisj
      rw [disjoint_append_left] at hdisj
      obtain ⟨hnodup_b, hnodup_rest, hapart⟩ := nodup_append'.mp hnodup
      obtain ⟨t, ht, htags, hcount, hnext⟩ := hb.extRound hcheck hs (by omega) (hne b mem_cons_self) hnodup_b hdisj.1
      cases hl : b.link with
      | none =>
        simp only [hl] at hlink hnext
        subst hlink
        have hend : RecoveryQt.extRound check disk mainExt t = none := by
          rw [RecoveryQt.extRound, hnext]
          rfl
        exact ⟨2, t, runFor_of_some ht fun k hk => runFor_of_none hend hk, by
          simpa only [take_succ_cons, take_nil, flatMap_cons, flatMap_nil, append_nil] using htags⟩
      | some p =>
        simp only [hl, Option.map_some, Option.toList_some, length_singleton] at hlink hnext hcount
        have hplaces : t.listPart.map place ~ b.places disk mainExt ++ s.listPart.map place := by
          simpa only [map_fst_map_tag, map_append, map_fst_tags] using htags.map Prod.fst
        obtain ⟨n, u, hu, hutags⟩ := ih hlink (fun b hb => hne b (mem_cons_of_mem _ hb)) hnext (m := m) (by omega)
          hnodup_rest fun x hx hx' => by
            rcases mem_append.mp (hplaces.mem_iff.mp hx') with hx' | hx'
            · exact hapart hx' hx
            · exact hdisj.2 hx hx'
        refine ⟨n + 1, u, runFor_of_some ht hu, hutags.trans ?_⟩
        rw [take_succ_cons, flatMap_cons, append_assoc]
        exact (htags.append_left _).trans (perm_append_comm_assoc ..)

/-! ## The places of a chain -/

theorem isExtended_logicalPlace {b : Ebr} (hb : b.On disk) : isExtended (b.logicalPlace disk).2.2.toUInt8 = false := by
  rw [Ebr.logicalPlace, PartitionDos.place, UInt8.toUInt8_toUInt32]
  exact hb.1

theorem isExtended_linkPlace (mainExt : UInt64) {b : Ebr} (hb : b.On disk) {p : PartitionDos} (hp : p ∈ b.link) :
    isExtended (p.place disk mainExt).2.2.toUInt8 = true := by
  rw [PartitionDos.place, UInt8.toUInt8_toUInt32]
  exact hb.2.1 p hp

/-- The disk says where a record links to. -/
theorem Ebr.On.link_unique {b b' : Ebr} (hb : b.On disk) (hb' : b'.On disk) (h : b.offset = b'.offset) :
    b.link = b'.link := by
  obtain ⟨buffer, hbuffer, hps⟩ := hb.2.2
  obtain ⟨buffer', hbuffer', hps'⟩ := hb'.2.2
  obtain rfl : buffer = buffer' := Option.mem_unique hbuffer (h ▸ hbuffer')
  have hlinks := congrArg head? ((hb.filter_isExtended hps).symm.trans (hb'.filter_isExtended hps'))
  rwa [Option.head?_toList, Option.head?_toList] at hlinks

/-- The disk says how long a chain is. -/
theorem LinkedChain.length_unique {e : UInt64} {chain chain' : List Ebr} (h : LinkedChain disk mainExt e chain)
    (h' : LinkedChain disk mainExt e chain') : chain.length = chain'.length := by
  induction chain generalizing e chain' with
  | nil => exact h.elim
  | cons b rest ih =>
    cases chain' with
    | nil => exact h'.elim
    | cons b' rest' =>
      obtain ⟨hoffset, hb, hlink⟩ := h
      obtain ⟨hoffset', hb', hlink'⟩ := h'
      rw [← hb.link_unique hb' (hoffset.trans hoffset'.symm)] at hlink'
      cases hl : b.link with
      | none =>
        rw [hl] at hlink hlink'
        rw [hlink, hlink']
        rfl
      | some p =>
        rw [hl] at hlink hlink'
        rw [length_cons, length_cons, ih hlink hlink']

theorem LinkedChain.on {e : UInt64} {chain : List Ebr} (h : LinkedChain disk mainExt e chain) : ∀ b ∈ chain, b.On disk := by
  induction chain generalizing e with
  | nil => exact h.elim
  | cons b rest ih =>
    obtain ⟨-, hb, hlink⟩ := h
    refine forall_mem_cons.mpr ⟨hb, ?_⟩
    cases hl : b.link with
    | none =>
      rw [hl] at hlink
      subst hlink
      exact forall_mem_nil _
    | some p =>
      rw [hl] at hlink
      exact ih hlink

/-- The records behind one of a chain are a chain. -/
theorem LinkedChain.of_append {e : UInt64} {b : Ebr} (front : List Ebr) {rest : List Ebr}
    (h : LinkedChain disk mainExt e (front ++ b :: rest)) : LinkedChain disk mainExt b.offset (b :: rest) := by
  induction front generalizing e with
  | nil =>
    obtain ⟨rfl, h⟩ := h
    exact ⟨rfl, h⟩
  | cons c front ih =>
    obtain ⟨-, -, hlink⟩ := h
    cases hl : c.link with
    | none =>
      rw [hl] at hlink
      exact absurd hlink (by simp)
    | some p =>
      rw [hl] at hlink
      exact ih hlink

/-- A chain that ends comes to no record twice. -/
theorem LinkedChain.nodup {e : UInt64} {chain : List Ebr} (h : LinkedChain disk mainExt e chain) :
    (chain.map Ebr.offset).Nodup := by
  induction chain generalizing e with
  | nil => exact h.elim
  | cons b rest ih =>
    have hhead : b.offset = e := h.1
    have htail : (rest.map Ebr.offset).Nodup := by
      cases rest with
      | nil => exact nodup_nil
      | cons c rest => exact ih (LinkedChain.of_append [b] h)
    rw [map_cons, nodup_cons]
    refine ⟨fun hmem => ?_, htail⟩
    obtain ⟨c, hc, hoffset⟩ := mem_map.mp hmem
    obtain ⟨front, back, rfl⟩ := append_of_mem hc
    have hback := LinkedChain.of_append (b :: front) h
    rw [hoffset, hhead] at hback
    have := h.length_unique hback
    rw [length_cons, length_append, length_cons] at this
    omega

/-- The links of a chain lead to its records, but for the first one. -/
theorem LinkedChain.map_links {e : UInt64} {chain : List Ebr} (h : LinkedChain disk mainExt e chain) :
    (chain.flatMap fun b => b.link.toList.map (PartitionDos.place disk mainExt)).map Prod.fst =
      chain.tail.map Ebr.offset := by
  induction chain generalizing e with
  | nil => rfl
  | cons b rest ih =>
    obtain ⟨-, -, hlink⟩ := h
    rw [flatMap_cons, map_append, tail_cons]
    cases hl : b.link with
    | none =>
      rw [hl] at hlink
      subst hlink
      rfl
    | some p =>
      rw [hl] at hlink
      rw [ih hlink]
      cases rest with
      | nil => exact hlink.elim
      | cons c rest => exact congrArg (· :: rest.map Ebr.offset) hlink.1.symm

/-- The entries of a chain with different logical partitions are in different places. -/
theorem LinkedChain.nodup_places {e : UInt64} {chain : List Ebr} (h : LinkedChain disk mainExt e chain)
    (hdiff : (chain.map (Ebr.logicalPlace disk)).Nodup) : (chain.flatMap (Ebr.places disk mainExt)).Nodup := by
  refine (map_append_flatMap_perm chain (Ebr.logicalPlace disk)
    fun b => b.link.toList.map (PartitionDos.place disk mainExt)).nodup_iff.mp (nodup_append'.mpr ⟨hdiff, ?_, ?_⟩)
  · refine Nodup.of_map Prod.fst ?_
    rw [h.map_links]
    exact (map_tail (f := Ebr.offset) ▸ h.nodup.tail)
  · intro x hx hx'
    obtain ⟨b, hb, rfl⟩ := mem_map.mp hx
    obtain ⟨c, hc, hplace⟩ := mem_flatMap.mp hx'
    obtain ⟨p, hp, heq⟩ := mem_map.mp hplace
    have hlink := isExtended_linkPlace mainExt (h.on c hc) (Option.mem_toList.mp hp)
    rw [heq, isExtended_logicalPlace (h.on b hb)] at hlink
    cases hlink

/-! ## The whole walk -/

/-- An entry that changes the next record is counted. -/
theorem takeEntry_count (s : ExtWalk) (p : PartitionDos) :
    (takeEntry check disk mainExt ext s p).nextExt = s.nextExt ∧
        s.nbrPart ≤ (takeEntry check disk mainExt ext s p).nbrPart ∨
      s.nbrPart < (takeEntry check disk mainExt ext s p).nbrPart := by
  rw [takeEntry]
  by_cases hp : p.sysInd = 0
  · rw [if_pos hp]
    exact .inl ⟨rfl, le_rfl⟩
  · rw [if_neg hp]
    dsimp only
    generalize insertNewPartition false _ s.listPart = inserted
    by_cases herr : inserted.2
    · rw [if_pos herr]
      exact .inl ⟨rfl, le_rfl⟩
    · rw [if_neg herr]
      exact .inr (Nat.lt_succ_self _)

theorem foldl_takeEntry_count (ps : List PartitionDos) (s : ExtWalk) :
    (ps.foldl (takeEntry check disk mainExt ext) s).nextExt = s.nextExt ∧
        s.nbrPart ≤ (ps.foldl (takeEntry check disk mainExt ext) s).nbrPart ∨
      s.nbrPart < (ps.foldl (takeEntry check disk mainExt ext) s).nbrPart := by
  induction ps generalizing s with
  | nil => exact .inl ⟨rfl, le_rfl⟩
  | cons p ps ih =>
    rw [foldl_cons]
    rcases ih (takeEntry check disk mainExt ext s p) with ⟨hnext, hle⟩ | hlt
    · rw [hnext]
      exact (takeEntry_count s p).imp (.imp_right hle.trans') hle.trans_lt'
    · exact .inr ((takeEntry_count s p).elim (fun h => h.2.trans_lt hlt) fun h => h.trans hlt)

/-- A round that is not the last one counts a partition. -/
theorem extRound_count {t : ExtWalk} (h : extRound check disk mainExt s = some t) :
    s.nbrPart < 32 ∧ s.nextExt ≠ none ∧ (t.nextExt = none ∨ s.nbrPart < t.nbrPart) := by
  rw [extRound] at h
  split at h
  · cases h
  · next e he =>
    rw [he]
    split_ifs at h with hnbr hzero
    obtain ⟨buffer, -, rfl⟩ := Option.map_eq_some_iff.mp h
    exact ⟨hnbr, Option.some_ne_none e, (foldl_takeEntry_count _ _).imp_left And.left⟩

/-- The walk comes to an end on each disk. -/
theorem getExtDataI386_ends (check : PartitionStruct → PartitionStruct) (disk : Disk) (list : List PartitionStruct) :
    ∃ r, ∀ fuel, 33 ≤ fuel → getExtDataI386 check disk fuel list = some r := by
  unfold getExtDataI386
  cases getExtPartitionI386 list with
  | none => exact ⟨list, fun _ _ => rfl⟩
  | some main =>
    -- what is left of the 32 partitions, as long as there is a next record
    obtain ⟨t, ht, -⟩ := runFor_of_measure (f := extRound check disk main.partOffset) (P := fun _ => True)
      (fun s => if s.nextExt = none then 0 else 32 - s.nbrPart) (fun s _ t ht => by
        obtain ⟨hnbr, hsome, hnext⟩ := extRound_count ht
        refine ⟨trivial, ?_⟩
        rw [if_neg hsome]
        split_ifs with hnone
        · omega
        · have := hnext.resolve_left hnone
          omega) (a := ⟨list, 5, 0, some main.partOffset⟩) trivial
    exact ⟨t.listPart, fun fuel hfuel => congrArg (Option.map ExtWalk.listPart) (ht fuel (Nat.lt_of_succ_le hfuel))⟩

end Walk

/-- The logical partitions that are listed are those of the records that were taken. -/
theorem listedIn_iff {disk : Disk} {mainExt : UInt64} {list r : List PartitionStruct} {chain : List Ebr} {n : ℕ}
    (hr : r.map PartitionStruct.tag ~ (chain.take n).flatMap (Ebr.tags disk mainExt) ++ list.map PartitionStruct.tag)
    (hnodup : (chain.flatMap (Ebr.places disk mainExt)).Nodup)
    (hnew : ∀ b ∈ chain, ∀ q ∈ list, q.place ∉ b.places disk mainExt) {b : Ebr} (hb : b ∈ chain) :
    b.ListedIn disk r ↔ b ∈ chain.take n := by
  have hplaces : r.map place ~ (chain.take n).flatMap (Ebr.places disk mainExt) ++ list.map place := by
    simpa only [map_fst_map_tag, map_append, map_flatMap, map_fst_tags] using hr.map Prod.fst
  have hmem : b.logicalPlace disk ∈ b.places disk mainExt := mem_cons_self
  have hold : b.logicalPlace disk ∉ list.map place := fun h => by
    obtain ⟨q, hq, hplace⟩ := mem_map.mp h
    exact hnew b hb q hq (hplace ▸ hmem)
  constructor
  · rintro ⟨p, -, hp⟩
    have hpr : p ∈ r.filter fun q => q.place = b.logicalPlace disk := hp ▸ mem_singleton_self p
    obtain ⟨hpr, hplace⟩ := mem_filter.mp hpr
    have hat : b.logicalPlace disk ∈ r.map place := of_decide_eq_true hplace ▸ mem_map_of_mem hpr
    have htaken := (mem_append.mp (hplaces.mem_iff.mp hat)).resolve_right hold
    rw [← take_append_drop n chain] at hb hnodup
    rw [flatMap_append, nodup_append'] at hnodup
    refine (mem_append.mp hb).resolve_right fun hdrop => ?_
    exact hnodup.2.2 htaken (mem_flatMap.mpr ⟨b, hdrop, hmem⟩)
  · intro htake
    have htag : (b.logicalPlace disk, StatusType.log) ∈ r.map PartitionStruct.tag :=
      hr.mem_iff.mpr (mem_append_left _ (mem_flatMap.mpr ⟨b, htake, mem_cons_self⟩))
    obtain ⟨p, hp, htag⟩ := mem_map.mp htag
    have hcount : (r.map place).count (b.logicalPlace disk) = 1 := by
      rw [hplaces.count_eq, count_append, count_eq_zero_of_not_mem hold]
      rw [← take_append_drop n chain, flatMap_append, nodup_append'] at hnodup
      exact count_eq_one_of_mem hnodup.1 (mem_flatMap.mpr ⟨b, htake, hmem⟩)
    obtain ⟨q, hq⟩ : ∃ q, r.filter (fun q => q.place = b.logicalPlace disk) = [q] := by
      rw [← length_eq_one_iff, ← countP_eq_length_filter, ← hcount, count, countP_map]
      exact countP_congr fun q _ => by simp
    have hpq : p ∈ r.filter fun q => q.place = b.logicalPlace disk :=
      mem_filter.mpr ⟨hp, decide_eq_true (congrArg Prod.fst htag)⟩
    rw [hq, mem_singleton] at hpq
    subst hpq
    exact ⟨p, congrArg Prod.snd htag, hq⟩

/-- **The walk ends on each disk, and lists the logical partitions** of a chain, each one once, exactly when the chain
has at most 16 records. -/
theorem getExtDataI386_listsLogical_iff (check : PartitionStruct → PartitionStruct) (hcheck : KeepsEntry check)
    (disk : Disk) (list : List PartitionStruct) :
    ∃ r, (∀ fuel, 33 ≤ fuel → getExtDataI386 check disk fuel list = some r) ∧
      ∀ main ∈ getExtPartitionI386 list, ∀ chain, WellFormedChain disk list main chain →
        ((∀ b ∈ chain, b.ListedIn disk r) ↔ chain.length ≤ 16) := by
  obtain ⟨r, hr⟩ := getExtDataI386_ends check disk list
  refine ⟨r, hr, fun main hmain chain hchain => ?_⟩
  have hnodup := hchain.linked.nodup_places hchain.different
  have hne (b : Ebr) (hb : b ∈ chain) : b.offset ≠ 0 := fun h => by
    have hle := (hchain.inside b hb).1
    rw [h] at hle
    exact absurd hle (UInt64.not_le.mpr hchain.behind_mbr)
  obtain ⟨n, t, hrun, htags⟩ := runFor_linkedChain hcheck hchain.linked hne (s := ⟨list, 5, 0, some main.partOffset⟩)
    (m := 16) rfl rfl hnodup fun x hx hx' => by
      obtain ⟨b, hb, hxb⟩ := mem_flatMap.mp hx
      obtain ⟨q, hq, rfl⟩ := mem_map.mp hx'
      exact hchain.new b hb q hq hxb
  obtain rfl : t.listPart = r := by
    have hget := hr (max n 33) (Nat.le_max_right ..)
    rw [getExtDataI386, Option.mem_def.mp hmain] at hget
    have ht := congrArg (Option.map ExtWalk.listPart) (hrun (max n 33) (Nat.le_max_left ..))
    exact Option.some_injective _ (ht.symm.trans hget)
  have hlisted (b : Ebr) (hb : b ∈ chain) : b.ListedIn disk t.listPart ↔ b ∈ chain.take 16 :=
    listedIn_iff htags hnodup hchain.new hb
  refine (forall₂_congr hlisted).trans ?_
  constructor
  · intro h
    have hsub : chain.length ≤ (chain.take 16).length :=
      (Nodup.of_map Ebr.offset hchain.linked.nodup).subperm h |>.length_le
    exact hsub.trans (length_take_le 16 chain)
  · intro hlen b hb
    rwa [take_of_length_le hlen]

/-! ## Chains on a disk -/

/-- The bytes of a record: a logical partition of the next sector, and a link `link` sectors into the extended one. -/
def recordByte (link : Option ℕ) : ℕ → UInt8
  | 450 => 0x83
  | 454 => 1
  | 458 => 1
  | 466 => if link.isSome then 0x05 else 0
  | 470 => UInt8.ofNat (link.getD 0)
  | 474 => 2
  | 510 => 0x55
  | 511 => 0xAA
  | _ => 0

/-- The link of the record `k` of `n`. -/
def linkOf (n k : ℕ) : Option ℕ := if k + 1 < n then some (2 * (k + 1)) else none

/-- A disk with `n` records, in each second sector. -/
def linkedDisk (n : ℕ) : Disk where
  sectorSize := 512
  diskSize := 512 * (2 * n + 1)
  content x := if x / 512 % 2 = 1 then recordByte (linkOf n (x / 512 / 2)) (x % 512) else 0
  bad _ _ := false

/-- Its extended partition. -/
def linkedMain (n : ℕ) : PartitionStruct :=
  { partitionNew with
    partOffset := 512
    partSize := UInt64.ofNat (1024 * n)
    partTypeI386 := 0x05
    upartType := .extended
    status := .ext
    order := 1 }

/-- Its records. -/
def linkedEbrs (n : ℕ) : List Ebr := (range n).map fun k =>
  ⟨UInt64.ofNat (512 * (2 * k + 1)), ⟨0x83, 1, 1⟩, (linkOf n k).map fun link => ⟨0x05, link, 2⟩⟩

/-- Both logical partitions of two records are listed. -/
theorem getExtDataI386_two :
    ∃ r, (∀ fuel, 33 ≤ fuel → getExtDataI386 id (linkedDisk 2) fuel [linkedMain 2] = some r) ∧
      ∀ b ∈ linkedEbrs 2, b.ListedIn (linkedDisk 2) r := by
  obtain ⟨r, hr, h⟩ := getExtDataI386_listsLogical_iff id (fun _ => ⟨rfl, rfl⟩) (linkedDisk 2) [linkedMain 2]
  have hchain : WellFormedChain (linkedDisk 2) [linkedMain 2] (linkedMain 2) (linkedEbrs 2) :=
    ⟨by decide +kernel, by decide +kernel, by decide +kernel, by decide +kernel, by decide +kernel⟩
  exact ⟨r, hr, (h (linkedMain 2) (by decide +kernel) (linkedEbrs 2) hchain).mpr (by decide +kernel)⟩

/-- The logical partition of the last of seventeen records is not listed. -/
theorem getExtDataI386_seventeen :
    getExtPartitionI386 [linkedMain 17] = some (linkedMain 17) ∧
      WellFormedChain (linkedDisk 17) [linkedMain 17] (linkedMain 17) (linkedEbrs 17) ∧
      ∃ r, getExtDataI386 id (linkedDisk 17) 33 [linkedMain 17] = some r ∧
        ¬ ∀ b ∈ linkedEbrs 17, b.ListedIn (linkedDisk 17) r := by
  refine ⟨by decide +kernel, ⟨by decide +kernel, by decide +kernel, by decide +kernel, by decide +kernel,
    by decide +kernel⟩, ?_⟩
  have hlast : (getExtDataI386 id (linkedDisk 17) 33 [linkedMain 17]).map
      (filter fun q => q.place = (17408, 512, 0x83)) = some [] := by decide +kernel
  obtain ⟨r, hr, hfilter⟩ := Option.map_eq_some_iff.mp hlast
  refine ⟨r, hr, fun h => ?_⟩
  obtain ⟨p, -, hp⟩ := h ⟨16896, ⟨0x83, 1, 1⟩, none⟩ (by decide +kernel)
  exact cons_ne_nil p [] (hp.symm.trans hfilter)

end RecoveryQt
