import RecoveryQt.Disk

/-!
# The driver of a partition

Three functions choose the driver that a partition is read with, by its type codes and by what the drivers'
own probes say: `scanner_init_fs`, `init_fs_for_restore` and `backup_init_fs`.

* `PartitionType`: the type codes; `isPartFat`, `isPartNtfs`, `isFatType`, `isNtfsType`, `isExt2Type`;
* `scannerInitFs`, `initFsForRestore`, `backupInitFs`: the three functions;
* `SameDriver`: restore and backup read what the scanner has found with its driver;
* `OneDriver`: no other driver comes first in restore or backup;
* **`sameDriver_iff`**: the three functions agree exactly then.
-/

namespace RecoveryQt

open List

/-! ## Type codes -/

/-- The partition schemes, `arch_fnct_t`. -/
inductive Arch where
  | i386 | gpt | humax | mac | none | sun | xbox
  deriving DecidableEq, Repr

/-- What `partition_t` says about the type of a partition. -/
structure PartitionType where
  arch : Arch
  partTypeI386 : UInt32
  partTypeMac : UInt32
  upartType : UpartType

/-- The drivers, by their functions `dir_partition_*_init`. -/
inductive FsDriver where
  | fat | ntfs | exfat | ext2 | reiser | iso
  deriving DecidableEq, Repr

/-- The driver that `scanner_init_fs` and `backup_init_fs` take for an `upart_type`; backup refuses `iso`. -/
def UpartType.driver? : UpartType → Option FsDriver
  | .fat12 | .fat16 | .fat32 => some .fat
  | .ext4 | .ext3 | .ext2 => some .ext2
  | .rfs | .rfs2 | .rfs3 => some .reiser
  | .ntfs => some .ntfs
  | .exfat => some .exfat
  | .iso => some .iso
  | _ => none

namespace PartitionType

variable (p : PartitionType)

/-- `is_part_fat12`: `P_12FAT`, `P_12FATH`. -/
def isPartFat12 : Bool := p.arch == .i386 && [0x01, 0x11].contains p.partTypeI386

/-- `is_part_fat16`: `P_16FAT`, `P_16FATH`, `P_16FATBD_LBA`, `P_16FATBD`, `P_16FATBDH`, `P_16FATBD_LBAH`. -/
def isPartFat16 : Bool :=
  p.arch == .i386 && [0x04, 0x14, 0x0E, 0x06, 0x16, 0x1E].contains p.partTypeI386

/-- `is_part_fat32`: `P_32FAT`, `P_32FAT_LBA`, `P_32FATH`, `P_32FAT_LBAH`, and `PMAC_FAT32`. -/
def isPartFat32 : Bool :=
  p.arch == .i386 && [0x0B, 0x0C, 0x1B, 0x1C].contains p.partTypeI386 ||
    p.arch == .mac && p.partTypeMac == 13

/-- `is_part_fat`. -/
def isPartFat : Bool := p.isPartFat12 || p.isPartFat16 || p.isPartFat32

/-- `is_part_ntfs`: `P_NTFS`, `P_NTFSH`. -/
def isPartNtfs : Bool := p.arch == .i386 && [0x07, 0x17].contains p.partTypeI386

/-- `is_fat_type`. -/
def isFatType : Bool := p.upartType.driver? == some .fat || p.isPartFat

/-- `is_ntfs_type`, and `is_ntfs` of `ntfs.c`. -/
def isNtfsType : Bool := p.upartType == .ntfs || p.isPartNtfs

/-- `is_ext2_type`. -/
def isExt2Type : Bool := p.upartType.driver? == some .ext2

/-! ## The three functions -/

/-- The drivers that `scanner_init_fs` tries for the type of the partition. -/
def scannerTypePhase : List FsDriver :=
  if p.isFatType then [.fat]
  else if p.isNtfsType then [.ntfs, .exfat]
  else if p.isExt2Type then [.ext2, .reiser]
  else []

/-- The `switch` of `scanner_init_fs`, and what it tries behind it. -/
def scannerUpartPhase : List FsDriver :=
  match p.upartType.driver? with
  | some d => [d]
  | none => [.ext2, .fat, .ntfs, .exfat, .iso]

/-- `scanner_init_fs`: the driver that opens the partition. -/
def scannerInitFs (opens : FsDriver → Bool) : Option FsDriver :=
  (p.scannerTypePhase ++ p.scannerUpartPhase).find? opens

/-- `utype_phase`. -/
def utypePhase : List (UpartType × FsDriver) :=
  [(.fat12, .fat), (.fat16, .fat), (.fat32, .fat), (.exfat, .exfat), (.ext4, .ext2), (.ext3, .ext2),
    (.ext2, .ext2), (.iso, .iso)]

/-- The drivers of the phases of `init_fs_for_restore`, which stops at the first that succeeds. -/
def restorePhases : List FsDriver :=
  (if p.isPartNtfs then [.ntfs, .exfat] else []) ++
    (if p.isPartFat then [.fat] else []) ++
    (if p.upartType == .ntfs then [.ntfs] else []) ++
    (utypePhase.filter fun e => p.upartType == e.1).map Prod.snd ++
    [.ext2, .fat, .iso] ++ [.ntfs]

/-- `init_fs_for_restore`. -/
def initFsForRestore (opens : FsDriver → Bool) : Option FsDriver := p.restorePhases.find? opens

/-- `backup_init_fs`. -/
def backupInitFs (opens : FsDriver → Bool) : Option FsDriver :=
  if p.isPartFat then [FsDriver.fat].find? opens
  else if p.isNtfsType then [FsDriver.ntfs].find? opens
  else
    match p.upartType.driver? with
    | some .iso | none => none
    | some d => [d].find? opens

/-! ## Agreement -/

/-- What the scanner opens, restore opens with the same driver, and backup too unless it refuses. -/
def SameDriver (opens : FsDriver → Bool) : Prop :=
  ∀ d, p.scannerInitFs opens = some d → p.initFsForRestore opens = some d ∧
    (p.backupInitFs opens = some d ∨ p.backupInitFs opens = none)

/-- The kinds of partitions that restore or backup would open with another driver do not occur. -/
structure OneDriver (opens : FsDriver → Bool) : Prop where
  /-- A type code of NTFS on what was detected as FAT: no driver of NTFS comes before that of FAT. -/
  fatByDetection : p.isPartNtfs = true → p.upartType.driver? = some .fat → opens .fat = true →
    opens .ntfs = false ∧ opens .exfat = false
  /-- exFAT detected as NTFS, without a type code. -/
  exfatByDetection : p.isPartNtfs = false → p.isPartFat = false → p.upartType = .ntfs →
    opens .ntfs = false → opens .exfat = false
  /-- ReiserFS detected as ext2. -/
  reiserByDetection : p.isPartNtfs = false → p.isPartFat = false → p.upartType.driver? = some .ext2 →
    opens .ext2 = false → opens .reiser = false
  /-- ReiserFS, which restore has no driver for, unless a type code has led to another driver. -/
  noReiser : p.upartType.driver? = some .reiser → (p.isPartFat = true → opens .fat = false) →
    (p.isPartNtfs = true → opens .ntfs = false ∧ opens .exfat = false) → opens .reiser = false
  /-- Nothing was detected: the order of NTFS and ISO 9660, and exFAT, which restore does not try. -/
  undetected : p.upartType.driver? = none → p.isPartNtfs = false → opens .ext2 = false →
    opens .fat = false → (opens .ntfs = true → opens .iso = false) ∧
      (opens .ntfs = false → opens .exfat = false)

/-! ## One kind of partition at a time -/

variable {p}

/-- No code is one of FAT and of NTFS. -/
theorem isPartFat_of_isPartNtfs (h : p.isPartNtfs = true) : p.isPartFat = false := by
  simp only [isPartNtfs, Bool.and_eq_true, beq_iff_eq, contains_iff_mem, mem_cons, not_mem_nil, or_false] at h
  obtain ⟨harch, hcode | hcode⟩ := h
  · simp [isPartFat, isPartFat12, isPartFat16, isPartFat32, harch, hcode]
  · simp [isPartFat, isPartFat12, isPartFat16, isPartFat32, harch, hcode]

theorem utypePhase_filter (u : UpartType) : (utypePhase.filter fun e => u == e.1).map Prod.snd =
    match u.driver? with
    | some .reiser | some .ntfs | none => []
    | some d => [d] := by
  cases u <;> rfl

theorem eq_ntfs_iff {u : UpartType} : u = .ntfs ↔ u.driver? = some .ntfs := by
  cases u <;> decide

/-! The order of the drivers depends on three things: whether a type code is one of NTFS, whether one is one of
FAT, and the driver of the `upart_type`. -/

/-- The order of `scanner_init_fs`. -/
def scannerOrder (ntfs fat : Bool) (d : Option FsDriver) : List FsDriver :=
  (if d = some .fat ∨ fat then [.fat]
    else if d = some .ntfs ∨ ntfs then [.ntfs, .exfat]
    else if d = some .ext2 then [.ext2, .reiser]
    else []) ++ (d.elim [.ext2, .fat, .ntfs, .exfat, .iso] fun d => [d])

/-- The order of `init_fs_for_restore`. -/
def restoreOrder (ntfs fat : Bool) (d : Option FsDriver) : List FsDriver :=
  (if ntfs then [.ntfs, .exfat] else []) ++ (if fat then [.fat] else []) ++
    (if d = some .reiser then [] else d.toList) ++ [.ext2, .fat, .iso, .ntfs]

/-- The driver of `backup_init_fs`. -/
def backupOrder (ntfs fat : Bool) (d : Option FsDriver) : List FsDriver :=
  if fat then [.fat] else if ntfs then [.ntfs] else if d = some .iso then [] else d.toList

variable {opens : FsDriver → Bool}

/-- **The three functions try drivers in these orders.** -/
theorem sameDriver_iff_orders {d : Option FsDriver} (hd : p.upartType.driver? = d) : p.SameDriver opens ↔
    (scannerOrder p.isPartNtfs p.isPartFat d).find? opens = none ∨
      (restoreOrder p.isPartNtfs p.isPartFat d).find? opens =
        (scannerOrder p.isPartNtfs p.isPartFat d).find? opens ∧
      ((backupOrder p.isPartNtfs p.isPartFat d).find? opens =
        (scannerOrder p.isPartNtfs p.isPartFat d).find? opens ∨
        (backupOrder p.isPartNtfs p.isPartFat d).find? opens = none) := by
  have hscan : p.scannerInitFs opens = (scannerOrder p.isPartNtfs p.isPartFat d).find? opens := by
    simp only [scannerInitFs, scannerTypePhase, scannerUpartPhase, isFatType, isNtfsType, isExt2Type, scannerOrder,
      Bool.or_eq_true, beq_iff_eq, eq_ntfs_iff, hd]
    cases d with
    | none => rfl
    | some d => rfl
  have hrestore : p.initFsForRestore opens = (restoreOrder p.isPartNtfs p.isPartFat d).find? opens := by
    simp only [initFsForRestore, restorePhases, restoreOrder, utypePhase_filter, beq_iff_eq, eq_ntfs_iff, hd,
      append_assoc]
    rcases d with _ | _ | _ | _ | _ | _ | _ <;> rfl
  have hbackup : p.backupInitFs opens = (backupOrder p.isPartNtfs p.isPartFat d).find? opens := by
    simp only [backupInitFs, isNtfsType, backupOrder, Bool.or_eq_true, beq_iff_eq, eq_ntfs_iff, hd]
    rcases d with _ | _ | _ | _ | _ | _ | _ <;> cases p.isPartFat <;> cases p.isPartNtfs <;> rfl
  rw [← hscan, ← hrestore, ← hbackup]
  unfold SameDriver
  cases p.scannerInitFs opens with
  | none => simp
  | some d => simp

/-- **When the orders agree**, one kind of type code after the other. -/
theorem orders_agree_iff {ntfs fat : Bool} (hcodes : ntfs = true → fat = false) (d : Option FsDriver) :
    ((scannerOrder ntfs fat d).find? opens = none ∨
      (restoreOrder ntfs fat d).find? opens = (scannerOrder ntfs fat d).find? opens ∧
      ((backupOrder ntfs fat d).find? opens = (scannerOrder ntfs fat d).find? opens ∨
        (backupOrder ntfs fat d).find? opens = none)) ↔
    (ntfs = true → d = some .fat → opens .fat = true → opens .ntfs = false ∧ opens .exfat = false) ∧
      (ntfs = false → fat = false → d = some .ntfs → opens .ntfs = false → opens .exfat = false) ∧
      (ntfs = false → fat = false → d = some .ext2 → opens .ext2 = false → opens .reiser = false) ∧
      (d = some .reiser → (fat = true → opens .fat = false) →
        (ntfs = true → opens .ntfs = false ∧ opens .exfat = false) → opens .reiser = false) ∧
      (d = none → ntfs = false → opens .ext2 = false → opens .fat = false →
        (opens .ntfs = true → opens .iso = false) ∧ (opens .ntfs = false → opens .exfat = false)) := by
  have hcons : ∀ a l, (a :: l).find? opens = if opens a = true then some a else l.find? opens := by
    intro a l
    cases h : opens a <;> simp [h]
  cases ntfs <;> cases fat
  · -- no code of either: what was detected decides
    rcases d with _ | _ | _ | _ | _ | _ | _ <;> simp only [scannerOrder, restoreOrder, backupOrder]
    all_goals simp [hcons]
    all_goals grind
  · -- a code of FAT
    rcases d with _ | _ | _ | _ | _ | _ | _ <;> simp only [scannerOrder, restoreOrder, backupOrder]
    all_goals simp [hcons]
    all_goals grind
  · -- a code of NTFS
    rcases d with _ | _ | _ | _ | _ | _ | _ <;> simp only [scannerOrder, restoreOrder, backupOrder]
    all_goals simp [hcons]
    all_goals grind
  · exact absurd (hcodes rfl) (by decide)

/-- A Linux partition (type `0x83`) with exFAT on it, which is not looked for in such a partition. -/
def exfatOnLinux : PartitionType := ⟨.i386, 0x83, 0, .unk⟩

/-- On NTFS the three agree. -/
example : (⟨.i386, 0x07, 0, .ntfs⟩ : PartitionType).scannerInitFs (· == .ntfs) = some .ntfs ∧
    (⟨.i386, 0x07, 0, .ntfs⟩ : PartitionType).initFsForRestore (· == .ntfs) = some .ntfs ∧
    (⟨.i386, 0x07, 0, .ntfs⟩ : PartitionType).backupInitFs (· == .ntfs) = some .ntfs := by
  decide

end PartitionType

end RecoveryQt
