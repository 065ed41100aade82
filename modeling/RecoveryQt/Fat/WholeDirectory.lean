import RecoveryQt.Fat.BootSector
import RecoveryQt.Fat.CopyResult
import RecoveryQt.Fat.DirChain
import RecoveryQt.Lib.Blocks
import RecoveryQt.Scan.FreeDecision

/-!
# The bytes of a FAT directory

* `FatVolume.fatDir`: `fat_dir`, the bytes it hands to the directory decoder;
* `FatVolume.dirWrites`: what it reads into its buffer;
* `ValidFatVolume`, `FatDirectory`: a volume of the format, and its directories;
* `ValidFatVolume.next_eq_fatEntry`: the links are the entries of the table;
* **`fatDir_whole`**: a directory is handed over whole, and no read leaves the buffer.
-/

namespace RecoveryQt

open List

/-- `32 * NBR_ENTRIES_MAX`: the size of the buffer of a directory. -/
def dirBytesMax : ℕ := 32 * 65536

namespace FatVolume

variable (v : FatVolume)

/-! ## `fat_dir` -/

/-- What the loop of `fat_dir` is called with. -/
def dirChain : DirChain where
  isEnd c := decide (isEOCFat c v.partition.upartType)
  last := v.noOfCluster + 2
  next := v.next
  reads c := (v.disk.pread v.clusterSize (v.copyStart c).toNat).isSome

/-- `nbr_cluster_max`. -/
def nbrClusterMax : ℕ := dirBytesMax / v.clusterSize

/-- A byte of the buffer when the cluster has been read to its start: the rest of it is zero. -/
def firstByte (c i : ℕ) : UInt8 :=
  if i < v.clusterSize then v.disk.content ((v.copyStart c).toNat + i) else 0

/-- The buffer starts with the entries `.` and `..`. -/
def hasDots (c : ℕ) : Prop :=
  v.firstByte c 0 = 0x2e ∧ v.firstByte c 0x20 = 0x2e ∧ v.firstByte c 0x21 = 0x2e

instance (c : ℕ) : Decidable (v.hasDots c) :=
  inferInstanceAs (Decidable (_ ∧ _ ∧ _))

/-- The loop does not stop at the first cluster: it is that of a FAT32 root directory, or has the
two entries. -/
def opens (firstCluster c : ℕ) : Prop :=
  (v.partition.upartType = .fat32 ∧ firstCluster = 0) ∨ v.hasDots c

instance (firstCluster c : ℕ) : Decidable (v.opens firstCluster c) :=
  inferInstanceAs (Decidable (_ ∨ _))

/-- The bytes of a cluster, as the loop reads them. -/
def readBytes (c : ℕ) : List UInt8 := slice v.disk.content (v.copyStart c).toNat v.clusterSize

/-- `root_size`. -/
def rootSize : ℕ := v.header.rootSectors v.disk.sectorSize * v.disk.sectorSize

/-- Where `fat1x_rootdir` reads: the product is 32 bits wide. -/
def rootStart : UInt64 :=
  UInt64.ofNat v.partition.partOffset + UInt64.ofNat
    ((v.header.reserved.toNat + v.header.fats.toNat * v.header.fatLength.toNat) * v.disk.sectorSize % 2 ^ 32)

/-- `fat1x_rootdir`. A failed read may leave part of the directory in the buffer `left`. -/
def fat1xRootdir (left : ℕ → UInt8) : Option (List UInt8) :=
  if v.rootSize = 0 then none
  else match v.disk.pread v.rootSize v.rootStart.toNat with
    | some buffer => some (slice buffer 0 v.rootSize)
    | none => some (slice left 0 v.rootSize)

/-- The cluster that `fat_dir` starts at, `0` for the root directory of FAT12 and FAT16. -/
def dirStart (firstCluster : ℕ) : ℕ :=
  if firstCluster % 2 ^ 32 = 0 ∧ v.partition.upartType = .fat32 then v.header.rootCluster.toNat
  else firstCluster % 2 ^ 32

/-- `fat_dir`: the bytes for `dir_fat_aux`, if it is called. -/
def fatDir (left : ℕ → UInt8) (firstCluster : ℕ) : Option (List UInt8) :=
  if v.header.sectorsPerCluster < 1 ∨ v.header.sectorSize = 0 then none
  else if firstCluster % 2 ^ 32 = 0 ∧ v.partition.upartType ≠ .fat32 then v.fat1xRootdir left
  else if firstCluster % 2 ^ 32 = 0 ∧ v.header.rootCluster < 2 then none
  else
    let c := v.dirStart firstCluster
    let filled := if v.opens firstCluster c then v.dirChain.filled v.nbrClusterMax c .followCluster else []
    if filled = [] then none else some (filled.flatMap v.readBytes)

/-- The clusters that the loop reads, the last one perhaps in vain. -/
def dirReads (firstCluster : ℕ) : List ℕ :=
  let reads := v.dirChain.attempts v.nbrClusterMax (v.dirStart firstCluster) .followCluster
  if v.opens firstCluster (v.dirStart firstCluster) then reads else reads.take 1

/-- The places and the lengths of the reads into the buffer, and the size of the buffer. -/
def dirWrites (firstCluster : ℕ) : List (ℕ × ℕ) × ℕ :=
  if firstCluster % 2 ^ 32 = 0 ∧ v.partition.upartType ≠ .fat32 then ([(0, v.rootSize)], v.rootSize)
  else ((v.dirReads firstCluster).mapIdx fun k _ => (v.clusterSize * k, v.clusterSize), dirBytesMax)

end FatVolume

/-! ## The format -/

/-- A FAT volume of the format: sectors of one of its sizes, a root directory of whole sectors, no
cluster numbers among the marks, a table for all clusters, and offsets of 64 bits. -/
structure ValidFatVolume extends FatVolume where
  sectorSize_mem : disk.sectorSize ∈ [512, 1024, 2048, 4096]
  rootWhole : disk.sectorSize ∣ 32 * header.dirEntries.toNat
  count : header.noOfCluster disk.sectorSize ≤ 0x0FFFFFF5
  holds : HoldsEntries disk.sectorSize header.fatSectors (header.noOfCluster disk.sectorSize)
  onDisk : partition.partOffset + header.partSize * disk.sectorSize ≤ 2 ^ 64

namespace ValidFatVolume

variable (v : ValidFatVolume)

/-- Where a cluster is on the disk. -/
def clusterPos (c : ℕ) : ℕ :=
  v.partition.partOffset +
    (v.header.startData v.disk.sectorSize + (c - 2) * v.spc) * v.disk.sectorSize

/-- Its bytes. -/
def clusterBytes (c : ℕ) : List UInt8 := slice v.disk.content (v.clusterPos c) v.clusterSize

/-- Where the root directory of FAT12 and FAT16 is on the disk. -/
def rootPos : ℕ :=
  v.partition.partOffset +
    (v.header.reserved.toNat + v.header.fats.toNat * v.header.fatSectors) * v.disk.sectorSize

/-- A chain of valid clusters in the table, of at most 65536 entries, all of it readable. -/
structure Chain where
  first : ℕ
  tail : List ℕ
  valid : ∀ c ∈ first :: tail, v.DataCluster c
  links : (first :: tail).IsChain fun a b => v.fatEntry a = b
  ends : ∀ c ∈ (first :: tail).getLast?, isEOCFat (v.fatEntry c) v.partition.upartType
  size : (first :: tail).length * v.clusterSize ≤ 32 * 65536
  readable : ∀ c ∈ first :: tail, v.disk.bad v.clusterSize (v.clusterPos c) = false ∧ ¬ v.Unread c

/-- The bytes of a chain, in order. -/
def Chain.bytes {v : ValidFatVolume} (d : v.Chain) : List UInt8 := (d.first :: d.tail).flatMap v.clusterBytes

end ValidFatVolume

/-- The directories of a volume: the fixed root directory, that of FAT32, and the subdirectories,
which start with the entries `.` and `..`. -/
inductive FatDirectory (v : ValidFatVolume) where
  | fixedRoot (fixed : v.partition.upartType ≠ .fat32)
    (readable : v.disk.bad (32 * v.header.dirEntries.toNat) v.rootPos = false)
  | chainRoot (fat32 : v.partition.upartType = .fat32) (d : v.Chain)
    (first : d.first = v.header.rootCluster.toNat)
  | subdirectory (d : v.Chain) (dot : d.bytes[0]? = some 0x2e) (dots : d.bytes[0x20]? = some 0x2e)
    (dots' : d.bytes[0x21]? = some 0x2e)

namespace FatDirectory

variable {v : ValidFatVolume}

/-- The cluster that a directory is listed by. -/
def firstCluster : FatDirectory v → ℕ
  | fixedRoot .. | chainRoot .. => 0
  | subdirectory d .. => d.first

/-- The bytes of a directory. -/
def bytes : FatDirectory v → List UInt8
  | fixedRoot .. => slice v.disk.content v.rootPos (32 * v.header.dirEntries.toNat)
  | chainRoot _ d _ => d.bytes
  | subdirectory d .. => d.bytes

end FatDirectory

namespace ValidFatVolume

variable {v : ValidFatVolume}

/-! ## The geometry of the format -/

theorem sectorSize_cases (v : ValidFatVolume) : v.disk.sectorSize = 512 ∨ v.disk.sectorSize = 1024 ∨
    v.disk.sectorSize = 2048 ∨ v.disk.sectorSize = 4096 := by
  simpa only [mem_cons, not_mem_nil, or_false] using v.sectorSize_mem

theorem le_clusterSize (v : ValidFatVolume) : 512 ≤ v.clusterSize := by
  have hss : 512 ≤ v.header.sectorSize.toNat := by
    rw [v.sectorSize_eq]
    rcases v.sectorSize_cases with h | h | h | h <;> omega
  exact hss.trans (Nat.le_mul_of_pos_right _ v.spc_pos)

theorem header_sound (v : ValidFatVolume) :
    ¬ (v.header.sectorsPerCluster < 1 ∨ v.header.sectorSize = 0) := by
  rintro (h | h)
  · have hspc : 1 ≤ v.header.sectorsPerCluster.toNat := v.spc_pos
    have hlt : v.header.sectorsPerCluster.toNat < 1 := UInt8.lt_iff_toNat_lt.mp h
    omega
  · have hpos := v.sectorSize_pos
    rw [← v.sectorSize_eq, h] at hpos
    exact absurd hpos (by decide)

theorem fatSectors_eq (h : v.partition.upartType ≠ .fat32) :
    v.header.fatSectors = v.header.fatLength.toNat := by
  have ht := v.testType
  have hnoc := v.fat32_iff.not.mp h
  simp only [FatBootSector.testType, v.header_noOfCluster] at ht
  have hlength : v.header.fatLength ≠ 0 := by
    rw [if_pos (by omega : v.noOfCluster < 65525)] at ht
    split_ifs at ht with h12
    · exact fun h0 => ht.2.1 (Or.inr h0)
    · exact ht.1
  exact if_pos (UInt16.pos_iff_ne_zero.mpr hlength)

/-- The clusters lie inside the volume. -/
theorem clusterPos_add_le {c : ℕ} (h : v.DataCluster c) :
    v.clusterPos c + v.clusterSize ≤ v.partition.partOffset + v.header.partSize * v.disk.sectorSize := by
  have hdiv := Nat.div_mul_le_self (v.header.partSize - v.header.startData v.disk.sectorSize) v.spc
  rw [← v.noOfCluster_eq] at hdiv
  have hc : (c - 2 + 1) * v.spc ≤ v.noOfCluster * v.spc := by
    have := h.2
    have := h.1
    exact Nat.mul_le_mul_right _ (by omega)
  have hin := v.inside
  rw [Nat.succ_mul] at hc
  calc v.clusterPos c + v.clusterSize = v.partition.partOffset +
        (v.header.startData v.disk.sectorSize + (c - 2) * v.spc + v.spc) * v.disk.sectorSize := by
        rw [clusterPos, FatVolume.clusterSize, v.sectorSize_eq]
        ring
    _ ≤ _ := Nat.add_le_add_left (Nat.mul_le_mul_right _ (by omega)) _

/-- The loop reads a cluster where it is. -/
theorem copyStart_toNat {c : ℕ} (h : v.DataCluster c) : (v.copyStart c).toNat = v.clusterPos c := by
  have hle := clusterPos_add_le h
  have hsize := v.le_clusterSize
  have hdisk := v.onDisk
  rw [v.toFatVolume.copyStart_eq_dataOffset (Nat.le_succ_of_le h.2), FatVolume.dataOffset, v.sectorSize_eq]
  exact UInt64.toNat_ofNat_of_lt' (by
    show v.clusterPos c < 2 ^ 64
    omega)

/-- No cluster number is the mark of an end. -/
theorem not_isEOC {c : ℕ} (h : v.DataCluster c) : ¬ isEOCFat c v.partition.upartType := by
  intro heoc
  have hle : c ≤ v.noOfCluster + 1 := h.2
  have hcount : v.noOfCluster ≤ 0x0FFFFFF5 := v.count
  have htype := v.typed
  rw [FatBootSector.fatType, v.header_noOfCluster] at htype
  -- a mark is no smaller than its bits
  split_ifs at htype with h12 h16
  · rw [htype] at heoc
    have hmark : 0x0ff8 ≤ c := heoc.symm.le.trans Nat.and_le_left
    omega
  · rw [htype] at heoc
    have hmark : 0xfff8 ≤ c := heoc.symm.le.trans Nat.and_le_left
    omega
  · rw [htype] at heoc
    have hmark : 0xffffff8 ≤ c := heoc.symm.le.trans Nat.and_le_left
    omega

/-- The sector of an entry lies in the table. -/
theorem fatSector_lt {c : ℕ} (h : v.DataCluster c) :
    fatSector v.partition.upartType v.disk.sectorSize c < v.header.fatSectors := by
  have hss : 4 ∣ v.disk.sectorSize := by
    rcases v.sectorSize_cases with h | h | h | h <;> rw [h] <;> decide
  have hplace := FatVolume.fatPlace_eq hss c
  have hholds : 4 * entryWidth v.noOfCluster * c + entryBits v.noOfCluster ≤
      8 * (v.disk.sectorSize * v.header.fatSectors) := v.holds c h.1 h.2
  have hlt : v.fatPlace c < v.header.fatSectors * v.disk.sectorSize := by
    rw [Nat.mul_comm v.header.fatSectors]
    have htype := v.typed
    rw [FatBootSector.fatType, v.header_noOfCluster] at htype
    unfold entryWidth entryBits at hholds
    unfold FatVolume.fatPlace
    split_ifs at htype hholds with h12 h16 <;> rw [htype] <;> dsimp only <;> omega
  apply Nat.lt_of_mul_lt_mul_right (a := v.disk.sectorSize)
  omega

/-- **The links of the loop are the entries of the table.** -/
theorem next_eq_fatEntry {c : ℕ} (h : v.DataCluster c) (hread : ¬ v.Unread c) :
    v.next c = v.fatEntry c := by
  have hss : 4 ∣ v.disk.sectorSize := by
    rcases v.sectorSize_cases with h | h | h | h <;> rw [h] <;> decide
  rw [FatVolume.next, getNextCluster_elim FatVolume.isFat,
    FatVolume.readFat_eq_of_lt v.onDisk (fatSector_lt h), if_neg (show ¬ _ = true from hread),
    FatVolume.fatEntry, ← FatVolume.fatPlace_eq hss c]
  rcases FatVolume.isFat (v := v.toFatVolume) with h | h | h <;> rw [h] <;> rfl

/-! ## The fixed root directory -/

theorem rootSize_eq (v : ValidFatVolume) : v.rootSize = 32 * v.header.dirEntries.toNat := by
  obtain ⟨k, hk⟩ := v.rootWhole
  have hpos := v.sectorSize_pos
  have hdiv : (v.disk.sectorSize * k + v.disk.sectorSize - 1) / v.disk.sectorSize = k := by
    rw [Nat.add_sub_assoc hpos, Nat.mul_add_div hpos, Nat.div_eq_of_lt (by omega), Nat.add_zero]
  rw [FatVolume.rootSize, FatBootSector.rootSectors, Nat.mul_comm _ 32, hk, hdiv, Nat.mul_comm]

/-- `fat1x_rootdir` reads the directory where it is. -/
theorem rootStart_toNat (h : v.partition.upartType ≠ .fat32) : v.rootStart.toNat = v.rootPos := by
  have hreserved := v.header.reserved.toNat_lt
  have hlength := v.header.fatLength.toNat_lt
  have hproduct : (v.header.reserved.toNat + v.header.fats.toNat * v.header.fatLength.toNat) *
      v.disk.sectorSize ≤ (3 * 65536) * 4096 := by
    refine Nat.mul_le_mul ?_ ?_
    · rcases v.fats_mem with hf | hf <;> rw [hf] <;> omega
    · rcases v.sectorSize_cases with h | h | h | h <;> omega
  have hinside : (v.header.reserved.toNat + v.header.fats.toNat * v.header.fatLength.toNat + 1) *
      v.disk.sectorSize ≤ v.header.partSize * v.disk.sectorSize := by
    have hin := v.inside
    have hroot := v.rootSectors_pos h
    rw [FatBootSector.startData, fatSectors_eq h] at hin
    exact Nat.mul_le_mul_right _ (by omega)
  have hdisk := v.onDisk
  have hpos := v.sectorSize_pos
  rw [Nat.succ_mul] at hinside
  rw [FatVolume.rootStart, Nat.mod_eq_of_lt (by omega), ← UInt64.ofNat_add, rootPos, fatSectors_eq h]
  exact UInt64.toNat_ofNat_of_lt' (by
    show _ < 2 ^ 64
    omega)

theorem fat1xRootdir_eq (h : v.partition.upartType ≠ .fat32)
    (hread : v.disk.bad (32 * v.header.dirEntries.toNat) v.rootPos = false) (left : ℕ → UInt8) :
    v.fat1xRootdir left = some (slice v.disk.content v.rootPos (32 * v.header.dirEntries.toNat)) := by
  have hne : v.rootSize ≠ 0 := (Nat.mul_pos (v.rootSectors_pos h) v.sectorSize_pos).ne'
  rw [FatVolume.fat1xRootdir, if_neg hne, v.rootSize_eq, rootStart_toNat h, Disk.pread,
    if_neg (by rw [hread]; exact Bool.false_ne_true)]
  show some (slice (fun i => v.disk.content (v.rootPos + i)) 0 _) = _
  simp only [slice, Nat.zero_add]

/-! ## Chains -/

variable (d : v.Chain)

theorem Chain.chained : v.dirChain.Chained (d.first :: d.tail) where
  links := d.links.imp_of_mem_imp fun a b ha _ hab =>
    (next_eq_fatEntry (d.valid a ha) (d.readable a ha).2).trans hab
  ends c hc := by
    have hmem := mem_of_getLast? hc
    have hnext : v.dirChain.next c = v.fatEntry c := next_eq_fatEntry (d.valid c hmem) (d.readable c hmem).2
    rw [hnext]
    exact decide_eq_true (d.ends c hc)
  takes c hc := by
    have hdata := d.valid c hc
    refine ⟨decide_eq_false (not_isEOC hdata), hdata.1, ?_⟩
    show (Disk.pread _ _ _).isSome
    rw [copyStart_toNat hdata, Disk.pread, if_neg (by rw [(d.readable c hc).1]; exact Bool.false_ne_true)]
    rfl

theorem Chain.filled_eq :
    v.dirChain.filled v.nbrClusterMax d.first .followCluster = d.first :: d.tail := by
  refine DirChain.filled_of_chained d.chained ?_ fun c hc => ?_
  · exact (Nat.le_div_iff_mul_le v.clusterSize_pos).mpr d.size
  · exact Nat.le_succ_of_le (d.valid c (mem_cons_of_mem _ hc)).2

theorem Chain.flatMap_readBytes : (d.first :: d.tail).flatMap v.readBytes = d.bytes := by
  refine flatMap_congr fun c hc => ?_
  rw [FatVolume.readBytes, clusterBytes, copyStart_toNat (d.valid c hc)]

/-- A byte of the first cluster. -/
theorem Chain.firstByte_eq {i : ℕ} (hi : i < v.clusterSize) :
    d.bytes[i]? = some (v.firstByte d.first i) := by
  have hlength : i < (v.clusterBytes d.first).length := by rwa [clusterBytes, length_slice]
  rw [bytes, flatMap_cons, getElem?_append_left hlength, FatVolume.firstByte, if_pos hi,
    copyStart_toNat (d.valid _ mem_cons_self), clusterBytes, slice, getElem?_map, getElem?_range hi]
  rfl

/-- The loop reads a chain that it begins with. -/
theorem Chain.fatDir_eq {firstCluster : ℕ} (hstart : v.dirStart firstCluster = d.first)
    (hopens : v.opens firstCluster d.first)
    (hchain : ¬ (firstCluster % 2 ^ 32 = 0 ∧ v.partition.upartType ≠ .fat32))
    (hroot : ¬ (firstCluster % 2 ^ 32 = 0 ∧ v.header.rootCluster < 2)) (left : ℕ → UInt8) :
    v.fatDir left firstCluster = some d.bytes := by
  rw [FatVolume.fatDir, if_neg v.header_sound, if_neg hchain, if_neg hroot]
  dsimp only
  rw [hstart, if_pos hopens, d.filled_eq, if_neg (cons_ne_nil _ _), d.flatMap_readBytes]

end ValidFatVolume

/-! ## The whole directory -/

/-- The bytes of a directory are handed over. -/
theorem FatDirectory.fatDir_eq {v : ValidFatVolume} (d : FatDirectory v) (left : ℕ → UInt8) :
    v.fatDir left d.firstCluster = some d.bytes := by
  cases d with
  | fixedRoot fixed readable =>
    rw [FatVolume.fatDir, if_neg v.header_sound, if_pos ⟨rfl, fixed⟩]
    exact ValidFatVolume.fat1xRootdir_eq fixed readable left
  | chainRoot fat32 d first =>
    refine d.fatDir_eq ?_ (Or.inl ⟨fat32, rfl⟩) (fun h => h.2 fat32) (fun h => ?_) left
    · exact (if_pos ⟨rfl, fat32⟩).trans first.symm
    · have hvalid : 2 ≤ d.first := (d.valid _ mem_cons_self).1
      have hlt : v.header.rootCluster.toNat < 2 := UInt32.lt_iff_toNat_lt.mp h.2
      omega
  | subdirectory d dot dots dots' =>
    have hvalid := d.valid _ mem_cons_self
    have hsize := v.le_clusterSize
    have hmod : d.first % 2 ^ 32 = d.first := by
      have hlt := v.noOfCluster_add_lt
      have hle := hvalid.2
      exact Nat.mod_eq_of_lt (by omega)
    have hpos : d.first % 2 ^ 32 ≠ 0 := by
      have := hvalid.1
      omega
    rw [d.firstByte_eq (by omega), Option.some_inj] at dot dots dots'
    refine d.fatDir_eq ?_ (Or.inr ⟨dot, dots, dots'⟩) (fun h => hpos h.1) (fun h => hpos h.1) left
    exact (if_neg fun h => hpos h.1).trans hmod

/-- The loop comes to an end: it has room for so many clusters. -/
theorem FatVolume.length_dirReads_le (v : FatVolume) (firstCluster : ℕ) :
    (v.dirReads firstCluster).length ≤ v.nbrClusterMax := by
  rw [dirReads]
  split_ifs
  · exact DirChain.length_attempts_le _ _ _
  · exact (length_take_le' 1 _).trans (DirChain.length_attempts_le _ _ _)

/-- No read goes behind the end of the buffer. -/
theorem FatVolume.dirWrites_le (v : FatVolume) (firstCluster : ℕ) :
    ∀ w ∈ (v.dirWrites firstCluster).1, w.1 + w.2 ≤ (v.dirWrites firstCluster).2 := by
  intro w hw
  rw [dirWrites] at hw ⊢
  split_ifs at hw ⊢
  · obtain rfl := mem_singleton.mp hw
    exact (Nat.zero_add _).le
  · obtain ⟨k, hk, rfl⟩ := mem_mapIdx.mp hw
    have hlast : k + 1 ≤ v.nbrClusterMax := Nat.lt_of_lt_of_le hk (v.length_dirReads_le firstCluster)
    calc v.clusterSize * k + v.clusterSize = (k + 1) * v.clusterSize := by ring
      _ ≤ dirBytesMax := (Nat.le_div_iff_mul_le v.clusterSize_pos).mp hlast

/-- **A directory is handed over whole**: its bytes and no others, for every volume of the format and every directory
of it. Whatever a volume holds, the loop comes to an end and no read goes behind the end of its buffer. -/
theorem fatDir_whole :
    (∀ (v : ValidFatVolume) (d : FatDirectory v) (left : ℕ → UInt8),
      v.fatDir left d.firstCluster = some d.bytes) ∧
    ∀ (v : FatVolume) (firstCluster : ℕ), (v.dirReads firstCluster).length ≤ v.nbrClusterMax ∧
      ∀ w ∈ (v.dirWrites firstCluster).1, w.1 + w.2 ≤ (v.dirWrites firstCluster).2 :=
  ⟨fun _ d left => d.fatDir_eq left, fun v firstCluster =>
    ⟨v.length_dirReads_le firstCluster, v.dirWrites_le firstCluster⟩⟩

/-- A disk with a subdirectory of one cluster, the first one of the volume. -/
def dottedContent (o : ℕ) : UInt8 :=
  if o = 515 then 0xff else if o = 516 then 0x0f else if o = 2048 ∨ o = 2080 ∨ o = 2081 then 0x2e else 0

theorem dottedVolume_holds : HoldsEntries 512 tinyHeader.fatSectors (tinyHeader.noOfCluster 512) :=
  holdsEntries_iff.mpr (by decide)

/-- The small volume with that content. -/
def dottedVolume : ValidFatVolume where
  toFatVolume := tinyVolume dottedContent
  sectorSize_mem := mem_cons_self
  rootWhole := ⟨1, rfl⟩
  count := by decide
  holds := dottedVolume_holds
  onDisk := by decide

/-- The chain of the subdirectory. -/
def dottedChain : dottedVolume.Chain where
  first := 2
  tail := []
  valid c hc := by
    obtain rfl := mem_singleton.mp hc
    exact ⟨le_rfl, by decide⟩
  links := isChain_singleton 2
  ends c hc := by
    obtain rfl := Option.mem_some_iff.mp hc
    decide
  size := by decide
  readable c _ := ⟨rfl, Bool.false_ne_true⟩

example : dottedVolume.fatDir (fun _ => 0) 2 = some dottedChain.bytes := by decide +kernel

end RecoveryQt
