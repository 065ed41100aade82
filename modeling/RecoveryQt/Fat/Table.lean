import RecoveryQt.Fat.Model

/-!
# Entries of the allocation table

`set_next_cluster` reads the sectors of an entry, changes the entry and writes them back.

* `Disk.pwrite`, `put16`, `put32`: a write, and numbers put into a buffer;
* `fatSector`, `fatOffset`, `putEntry`, `setNextCluster`: `set_next_cluster`;
* `FatTable`: a table that lies on its disk; `FatTable.pos`: where its entries are;
* **`FatTable.getNextCluster_eq`**, **`FatTable.content_set`**: both functions on the content of the disk;
* `fatEntryAt_putEntry_self`, **`fatEntryAt_putEntry_of_ne`**: the entry that is put, and the other entries;
* **`setNextCluster_local_iff`**: when an update changes its entry and nothing else.
-/

namespace RecoveryQt

open List

/-! ## Writing an entry -/

/-- `disk->pwrite` of `count` bytes of a buffer. -/
def Disk.pwrite (d : Disk) (count offset : ℕ) (buffer : ℕ → UInt8) : Disk :=
  { d with content := fun q =>
      if offset ≤ q ∧ q < offset + count then buffer (q - offset) else d.content q }

/-- Put a 16-bit number at `i`. -/
def put16 (buffer : ℕ → UInt8) (i w : ℕ) : ℕ → UInt8 :=
  Function.update (Function.update buffer i (UInt8.ofNat w)) (i + 1) (UInt8.ofNat (w / 256))

/-- Put a 32-bit number at `i`. -/
def put32 (buffer : ℕ → UInt8) (i w : ℕ) : ℕ → UInt8 := put16 (put16 buffer i w) (i + 2) (w / 65536)

/-- `buffer_size`: an entry of FAT12 may go on in the next sector. -/
def fatBufferSize (upartType : UpartType) (sectorSize : ℕ) : ℕ :=
  if upartType = .fat12 then 2 * sectorSize else sectorSize

/-- `offset_s`. -/
def fatSector (upartType : UpartType) (sectorSize cluster : ℕ) : ℕ :=
  match upartType with
  | .fat12 => (cluster + cluster / 2) / sectorSize
  | .fat16 => cluster / (sectorSize / 2)
  | _ => cluster / (sectorSize / 4)

/-- `offset_o`, in bytes. -/
def fatOffset (upartType : UpartType) (sectorSize cluster : ℕ) : ℕ :=
  match upartType with
  | .fat12 => (cluster + cluster / 2) % sectorSize
  | .fat16 => cluster % (sectorSize / 2) * 2
  | _ => cluster % (sectorSize / 4) * 4

/-- The entry of a cluster changed, at a place of a buffer. -/
def putEntry (upartType : UpartType) (buffer : ℕ → UInt8) (i cluster nextCluster : ℕ) : ℕ → UInt8 :=
  match upartType with
  | .fat12 =>
    if cluster % 2 ≠ 0 then put16 buffer i (nextCluster * 16 ||| le16At buffer i % 16)
    else put16 buffer i (nextCluster ||| le16At buffer i / 4096 * 4096)
  | .fat16 => put16 buffer i nextCluster
  | _ => put32 buffer i nextCluster

/-- One of the three types of FAT. -/
def UpartType.IsFat (u : UpartType) : Prop := u = .fat12 ∨ u = .fat16 ∨ u = .fat32

instance (u : UpartType) : Decidable u.IsFat := by unfold UpartType.IsFat; infer_instance

/-- `set_next_cluster`: the disk afterwards, or `none` when it fails. `badWrite count offset` says that a
write fails. -/
def setNextCluster (badWrite : ℕ → ℕ → Bool) (d : Disk) (p : Partition) (upartType : UpartType)
    (offset cluster nextCluster : ℕ) : Option Disk :=
  if upartType.IsFat then
    let bufferSize := fatBufferSize upartType d.sectorSize
    let offsetS := fatSector upartType d.sectorSize cluster
    match readFat d p offset bufferSize offsetS with
    | none => none
    | some buffer =>
      let position := (p.partOffset + (offset + offsetS) * d.sectorSize) % 2 ^ 64
      if badWrite bufferSize position then none
      else some (d.pwrite bufferSize position
        (putEntry upartType buffer (fatOffset upartType d.sectorSize cluster) cluster nextCluster))
  else none

/-! ## Numbers in a buffer -/

section Put

variable (g : ℕ → UInt8) (i w : ℕ)

theorem put16_of_ne {q : ℕ} (h : q ≠ i) (h' : q ≠ i + 1) : put16 g i w q = g q := by
  rw [put16, Function.update_of_ne h', Function.update_of_ne h]

@[simp] theorem put16_low : put16 g i w i = UInt8.ofNat w := by
  rw [put16, Function.update_of_ne (by omega), Function.update_self]

@[simp] theorem put16_high : put16 g i w (i + 1) = UInt8.ofNat (w / 256) := by
  rw [put16, Function.update_self]

theorem le16At_put16_self : le16At (put16 g i w) i = w % 65536 := by
  rw [le16At, put16_low, put16_high, UInt8.toNat_ofNat', UInt8.toNat_ofNat']
  omega

theorem le16At_put16_of_disjoint {j : ℕ} (h : j + 1 < i ∨ i + 1 < j) :
    le16At (put16 g i w) j = le16At g j := by
  rw [le16At, le16At, put16_of_ne g i w (by omega) (by omega), put16_of_ne g i w (by omega) (by omega)]

theorem le32At_put32_self : le32At (put32 g i w) i = w % 2 ^ 32 := by
  rw [le32At, put32, le16At_put16_of_disjoint _ _ _ (by omega), le16At_put16_self, le16At_put16_self]
  omega

theorem le16At_lt : le16At g i < 65536 := by
  have h := (g i).toNat_lt
  have h' := (g (i + 1)).toNat_lt
  rw [le16At]
  omega

end Put

/-! ## Entries -/

/-- The entry of a cluster at a place of a buffer. -/
def fatEntryAt (upartType : UpartType) (buffer : ℕ → UInt8) (cluster i : ℕ) : ℕ :=
  match upartType with
  | .fat12 => if cluster % 2 ≠ 0 then le16At buffer i / 16 else le16At buffer i % 4096
  | .fat16 => le16At buffer i
  | _ => le32At buffer i % 2 ^ 28

/-- The bytes that the update of an entry may change. -/
def entryBytesNbr (upartType : UpartType) : ℕ :=
  match upartType with
  | .fat12 | .fat16 => 2
  | _ => 4

/-- The number of values of an entry. -/
def entryValues (upartType : UpartType) : ℕ :=
  match upartType with
  | .fat12 => 4096
  | .fat16 => 65536
  | _ => 2 ^ 28

section Shift

variable (g : ℕ → UInt8) (start : ℕ)

theorem put16_shift (i w : ℕ) :
    put16 (fun j => g (start + j)) i w = fun j => put16 g (start + i) w (start + j) := by
  funext j
  by_cases hhigh : j = i + 1
  · rw [hhigh, put16_high]
    exact (put16_high g (start + i) w).symm
  · by_cases hlow : j = i
    · rw [hlow, put16_low, put16_low]
    · rw [put16_of_ne _ _ _ hlow hhigh, put16_of_ne g _ _ (by omega) (by omega)]

theorem putEntry_shift (upartType : UpartType) (i cluster nextCluster : ℕ) :
    putEntry upartType (fun j => g (start + j)) i cluster nextCluster =
      fun j => putEntry upartType g (start + i) cluster nextCluster (start + j) := by
  have h32 : put32 (fun j => g (start + j)) i nextCluster =
      fun j => put32 g (start + i) nextCluster (start + j) := by
    rw [put32, put16_shift, put16_shift]
    rfl
  cases upartType
  case fat12 =>
    unfold putEntry
    split_ifs
    · exact put16_shift g start _ _
    · exact put16_shift g start _ _
  case fat16 => exact put16_shift g start _ _
  all_goals exact h32

theorem putEntry_of_outside (upartType : UpartType) {i cluster nextCluster q : ℕ}
    (h : q < i ∨ i + entryBytesNbr upartType ≤ q) : putEntry upartType g i cluster nextCluster q = g q := by
  have h32 : q < i ∨ i + 4 ≤ q → put32 g i nextCluster q = g q := by
    intro hq
    rw [put32, put16_of_ne _ _ _ (by omega) (by omega), put16_of_ne _ _ _ (by omega) (by omega)]
  have h16 : ∀ w, q < i ∨ i + 2 ≤ q → put16 g i w q = g q := by
    intro w hq
    rw [put16_of_ne _ _ _ (by omega) (by omega)]
  cases upartType
  case fat12 =>
    unfold putEntry
    split_ifs
    · exact h16 _ h
    · exact h16 _ h
  case fat16 => exact h16 _ h
  all_goals exact h32 h

end Shift

/-- An odd cluster of FAT12 has the upper 12 bits of two bytes. -/
theorem fat12_odd (v w : ℕ) : v * 16 ||| w % 16 = v * 16 + w % 16 := by
  have h : w % 16 < 2 ^ 4 := Nat.mod_lt w (by decide)
  rw [Nat.mul_comm]
  exact (Nat.two_pow_add_eq_or_of_lt h v).symm

/-- An even cluster of FAT12 has the lower 12 bits of two bytes. -/
theorem fat12_even {v : ℕ} (hv : v < 4096) (w : ℕ) : v ||| w / 4096 * 4096 = v + w / 4096 * 4096 := by
  have hv : v < 2 ^ 12 := hv
  rw [Nat.or_comm, Nat.mul_comm, Nat.add_comm]
  exact (Nat.two_pow_add_eq_or_of_lt hv _).symm

/-- **The entry that is put is read back**, when it has the value. -/
theorem fatEntryAt_putEntry_self {upartType : UpartType} (htype : upartType.IsFat) (g : ℕ → UInt8)
    (i cluster : ℕ) {nextCluster : ℕ} (h : nextCluster < entryValues upartType) :
    fatEntryAt upartType (putEntry upartType g i cluster nextCluster) cluster i = nextCluster := by
  rcases htype with rfl | rfl | rfl
  · have hlt := le16At_lt g i
    have hv : nextCluster < 4096 := h
    simp only [fatEntryAt, putEntry]
    split_ifs with hodd
    · rw [le16At_put16_self, fat12_odd]
      omega
    · rw [le16At_put16_self, fat12_even hv]
      omega
  · exact (le16At_put16_self g i nextCluster).trans (Nat.mod_eq_of_lt h)
  · have hv : nextCluster < 2 ^ 28 := h
    show le32At (put32 g i nextCluster) i % 2 ^ 28 = nextCluster
    rw [le32At_put32_self]
    omega

/-- Two entries have no byte in common, or they are the two of FAT12 that share one. -/
def EntriesApart (upartType : UpartType) (cluster i cluster' i' : ℕ) : Prop :=
  i + entryBytesNbr upartType ≤ i' ∨ i' + entryBytesNbr upartType ≤ i ∨
    upartType = .fat12 ∧ (cluster % 2 = 0 ∧ cluster' % 2 = 1 ∧ i' = i + 1 ∨
      cluster % 2 = 1 ∧ cluster' % 2 = 0 ∧ i = i' + 1)

theorem fatEntryAt_congr {upartType : UpartType} {g g' : ℕ → UInt8} {cluster i : ℕ}
    (h : ∀ q, i ≤ q → q < i + entryBytesNbr upartType → g q = g' q) :
    fatEntryAt upartType g cluster i = fatEntryAt upartType g' cluster i := by
  have h16 : (∀ q, i ≤ q → q < i + 2 → g q = g' q) → le16At g i = le16At g' i := by
    intro h
    rw [le16At, le16At, h i le_rfl (by omega), h (i + 1) (by omega) (by omega)]
  have h32 : (∀ q, i ≤ q → q < i + 4 → g q = g' q) → le32At g i = le32At g' i := by
    intro h
    simp only [le32At, le16At]
    rw [h i le_rfl (by omega), h (i + 1) (by omega) (by omega), h (i + 2) (by omega) (by omega),
      h (i + 2 + 1) (by omega) (by omega)]
  cases upartType
  case fat12 => simp only [fatEntryAt, h16 h]
  case fat16 => exact h16 h
  all_goals exact congrArg (· % 2 ^ 28) (h32 h)

/-- **Other entries keep their value**. -/
theorem fatEntryAt_putEntry_of_apart {upartType : UpartType} (g : ℕ → UInt8) {cluster i cluster' i' : ℕ}
    {nextCluster : ℕ} (h : nextCluster < entryValues upartType)
    (hapart : EntriesApart upartType cluster i cluster' i') :
    fatEntryAt upartType (putEntry upartType g i cluster nextCluster) cluster' i' =
      fatEntryAt upartType g cluster' i' := by
  rcases hapart with hapart | hapart | ⟨rfl, hshared⟩
  · exact fatEntryAt_congr fun q hq _ => putEntry_of_outside g upartType (by omega)
  · exact fatEntryAt_congr fun q _ hq => putEntry_of_outside g upartType (by omega)
  · have hv : nextCluster < 4096 := h
    have hbyte := fun q => (g q).toNat_lt
    -- the even cluster has the lower four bits of the byte in common, the odd one the upper ones
    rcases hshared with ⟨heven, hodd, rfl⟩ | ⟨hodd, heven, rfl⟩
    · have hsame : put16 g i (nextCluster + le16At g i / 4096 * 4096) (i + 1 + 1) = g (i + 1 + 1) :=
        put16_of_ne g i _ (by omega) (by omega)
      have h0 := hbyte i
      have h1 := hbyte (i + 1)
      simp only [fatEntryAt, putEntry, heven, hodd, ne_eq, not_true_eq_false, if_false, one_ne_zero, not_false_eq_true,
        if_true, fat12_even hv]
      unfold le16At at hsame ⊢
      rw [hsame, put16_high, UInt8.toNat_ofNat']
      omega
    · have hsame : put16 g (i' + 1) (nextCluster * 16 + le16At g (i' + 1) % 16) i' = g i' :=
        put16_of_ne g (i' + 1) _ (by omega) (by omega)
      have h0 := hbyte i'
      have h1 := hbyte (i' + 1)
      simp only [fatEntryAt, putEntry, heven, hodd, ne_eq, not_true_eq_false, if_false, one_ne_zero, not_false_eq_true,
        if_true, fat12_odd]
      unfold le16At at hsame ⊢
      rw [hsame, put16_low, UInt8.toNat_ofNat']
      omega

/-- `get_next_cluster` takes the entry out of the sectors that are read for it. -/
theorem getNextCluster_elim {u : UpartType} (hu : u.IsFat) (d : Disk) (p : Partition) (offset c : ℕ) :
    getNextCluster d p offset c u =
      (readFat d p offset (fatBufferSize u d.sectorSize) (fatSector u d.sectorSize c)).elim 0
        fun buffer => fatEntryAt u buffer c (fatOffset u d.sectorSize c) := by
  rcases hu with rfl | rfl | rfl
  · simp only [getNextCluster, getNextClusterFat12, fatBufferSize, fatSector, fatOffset, fatEntryAt, if_true]
    cases readFat d p offset (2 * d.sectorSize) ((c + c / 2) / d.sectorSize) <;> rfl
  · simp only [getNextCluster, getNextClusterFat16, fatBufferSize, fatSector, fatOffset, fatEntryAt, reduceCtorEq,
      if_false]
    cases readFat d p offset d.sectorSize (c / (d.sectorSize / 2)) <;> rfl
  · simp only [getNextCluster, getNextClusterFat32, fatBufferSize, fatSector, fatOffset, fatEntryAt, reduceCtorEq,
      if_false]
    cases readFat d p offset d.sectorSize (c / (d.sectorSize / 4)) <;> rfl

/-! ## A table on its disk -/

/-- A table of the clusters up to `last`, in sectors that hold an entry, on a disk of less than `2 ^ 64` bytes. -/
structure FatTable where
  disk : Disk
  partition : Partition
  offset : ℕ
  last : ℕ
  isFat : partition.upartType.IsFat
  sectorSize_ge : 4 ≤ disk.sectorSize
  onDisk : ∀ c ≤ last, partition.partOffset +
    (offset + fatSector partition.upartType disk.sectorSize c) * disk.sectorSize < 2 ^ 64

/-- Entries of `n` bytes, `k` in a sector, follow each other. -/
theorem entries_increase {n k ss : ℕ} (hk : 0 < k) (hfit : k * n ≤ ss) (offset : ℕ) {c c' : ℕ} (h : c < c') :
    (offset + c / k) * ss + c % k * n + n ≤ (offset + c' / k) * ss + c' % k * n := by
  have hmod : c % k * n + n ≤ ss := by
    calc c % k * n + n = (c % k + 1) * n := (Nat.succ_mul _ _).symm
      _ ≤ k * n := Nat.mul_le_mul_right n (Nat.mod_lt c hk)
      _ ≤ ss := hfit
  rcases Nat.lt_or_eq_of_le (Nat.div_le_div_right (c := k) h.le) with hdiv | hdiv
  · have hnext : (offset + c / k + 1) * ss ≤ (offset + c' / k) * ss := Nat.mul_le_mul_right ss (by omega)
    rw [Nat.succ_mul] at hnext
    omega
  · have hlt : c % k < c' % k := by
      have h1 := Nat.div_add_mod c k
      have h2 := Nat.div_add_mod c' k
      rw [← hdiv] at h2
      omega
    have hstep : (c % k + 1) * n ≤ c' % k * n := Nat.mul_le_mul_right n hlt
    rw [Nat.succ_mul] at hstep
    rw [hdiv]
    omega

namespace FatTable

variable (t : FatTable)

abbrev upartType : UpartType := t.partition.upartType

/-- Where the sectors of an entry start. -/
def start (c : ℕ) : ℕ :=
  t.partition.partOffset + (t.offset + fatSector t.upartType t.disk.sectorSize c) * t.disk.sectorSize

/-- Where an entry is. -/
def pos (c : ℕ) : ℕ := t.start c + fatOffset t.upartType t.disk.sectorSize c

/-- `get_next_cluster` when the disk has some content. -/
def nextIn (g : ℕ → UInt8) (c : ℕ) : ℕ :=
  getNextCluster { t.disk with content := g } t.partition t.offset c t.upartType

/-- The sectors of an entry can be read. -/
def Reads (c : ℕ) : Prop := t.disk.bad (fatBufferSize t.upartType t.disk.sectorSize) (t.start c) = false

variable {t}

theorem readFat_eq {c : ℕ} (hc : c ≤ t.last) (g : ℕ → UInt8) (count : ℕ) :
    readFat { t.disk with content := g } t.partition t.offset count (fatSector t.upartType t.disk.sectorSize c) =
      if t.disk.bad count (t.start c) then none else some fun i => g (t.start c + i) := by
  have hlt : t.start c < 2 ^ 64 := t.onDisk c hc
  show (if t.disk.bad count (t.start c % 2 ^ 64) then none else some fun i => g (t.start c % 2 ^ 64 + i)) = _
  rw [Nat.mod_eq_of_lt hlt]

/-- **`get_next_cluster`** reads the entry. -/
theorem nextIn_eq {c : ℕ} (hc : c ≤ t.last) (g : ℕ → UInt8) : t.nextIn g c =
    if t.disk.bad (fatBufferSize t.upartType t.disk.sectorSize) (t.start c) then 0
    else fatEntryAt t.upartType g c (t.pos c) := by
  rw [nextIn, getNextCluster_elim t.isFat]
  dsimp only
  rw [readFat_eq hc]
  split_ifs <;> rfl

/-- An entry lies in the buffer that is read for it. -/
theorem fatOffset_add_le (c : ℕ) : fatOffset t.upartType t.disk.sectorSize c + entryBytesNbr t.upartType ≤
    fatBufferSize t.upartType t.disk.sectorSize := by
  have hss := t.sectorSize_ge
  rcases t.isFat with h | h | h
  · have hmod := Nat.mod_lt (c + c / 2) (show 0 < t.disk.sectorSize by omega)
    simp only [upartType, h, fatOffset, entryBytesNbr, fatBufferSize, if_true]
    omega
  · have hmod := Nat.mod_lt c (show 0 < t.disk.sectorSize / 2 by omega)
    simp only [upartType, h, fatOffset, entryBytesNbr, fatBufferSize, reduceCtorEq, if_false]
    omega
  · have hmod := Nat.mod_lt c (show 0 < t.disk.sectorSize / 4 by omega)
    simp only [upartType, h, fatOffset, entryBytesNbr, fatBufferSize, reduceCtorEq, if_false]
    omega

/-- **`set_next_cluster`** puts the entry, and nothing else. -/
theorem setNextCluster_eq {c v : ℕ} (hc : c ≤ t.last) {badWrite : ℕ → ℕ → Bool} {d : Disk}
    (hset : setNextCluster badWrite t.disk t.partition t.upartType t.offset c v = some d) :
    t.disk.bad (fatBufferSize t.upartType t.disk.sectorSize) (t.start c) = false ∧
      d = { t.disk with content := putEntry t.upartType t.disk.content (t.pos c) c v } := by
  have hlt : t.start c < 2 ^ 64 := t.onDisk c hc
  have hread := readFat_eq hc t.disk.content (fatBufferSize t.upartType t.disk.sectorSize)
  rw [setNextCluster, if_pos t.isFat] at hset
  change readFat t.disk t.partition t.offset _ _ = _ at hread
  simp only [hread] at hset
  split_ifs at hset with hbad
  obtain rfl := Option.some.inj hset
  refine ⟨Bool.eq_false_iff.mpr hbad, ?_⟩
  have hstart : (t.partition.partOffset + (t.offset + fatSector t.upartType t.disk.sectorSize c) *
      t.disk.sectorSize) % 2 ^ 64 = t.start c := Nat.mod_eq_of_lt hlt
  rw [hstart, Disk.pwrite, putEntry_shift]
  congr 1
  funext q
  dsimp only
  split_ifs with hq
  · rw [Nat.add_sub_cancel' hq.1]
    rfl
  · have hfit := fatOffset_add_le (t := t) c
    refine (putEntry_of_outside _ _ ?_).symm
    rw [pos]
    omega

/-- Entries of FAT16 and FAT32, `n` bytes each. -/
theorem entriesApart_of_words {n c c' : ℕ} (hn : 0 < t.disk.sectorSize / n)
    (hbytes : entryBytesNbr t.upartType = n)
    (hsector : fatSector t.upartType t.disk.sectorSize = fun c => c / (t.disk.sectorSize / n))
    (hoffset : fatOffset t.upartType t.disk.sectorSize = fun c => c % (t.disk.sectorSize / n) * n)
    (hne : c ≠ c') : EntriesApart t.upartType c (t.pos c) c' (t.pos c') := by
  have hpos : ∀ c, t.pos c = t.partition.partOffset + ((t.offset + c / (t.disk.sectorSize / n)) *
      t.disk.sectorSize + c % (t.disk.sectorSize / n) * n) := by
    intro c
    rw [pos, start, hsector, hoffset, Nat.add_assoc]
  have hinc := @entries_increase n (t.disk.sectorSize / n) t.disk.sectorSize hn (Nat.div_mul_le_self _ n) t.offset
  rw [EntriesApart, hpos, hpos, hbytes]
  rcases Nat.lt_or_gt_of_ne hne with hlt | hlt
  · have := hinc hlt
    exact Or.inl (by omega)
  · have := hinc hlt
    exact Or.inr (Or.inl (by omega))

/-- The entries of two clusters. -/
theorem entriesApart {c c' : ℕ} (hne : c ≠ c') : EntriesApart t.upartType c (t.pos c) c' (t.pos c') := by
  have hss := t.sectorSize_ge
  rcases t.isFat with h | h | h
  · have hpos : ∀ c, t.pos c = t.partition.partOffset + t.offset * t.disk.sectorSize + (c + c / 2) := by
      intro c
      have hdiv := Nat.div_add_mod (c + c / 2) t.disk.sectorSize
      rw [Nat.mul_comm] at hdiv
      simp only [pos, start, upartType, h, fatSector, fatOffset, Nat.add_mul]
      omega
    rw [EntriesApart, hpos, hpos, show t.upartType = .fat12 from h]
    simp only [entryBytesNbr, true_and]
    omega
  · refine entriesApart_of_words (n := 2) (by omega) (by rw [upartType, h]; rfl) ?_ ?_ hne
    · funext c
      rw [upartType, h, fatSector]
    · funext c
      rw [upartType, h, fatOffset]
  · refine entriesApart_of_words (n := 4) (by omega) (by rw [upartType, h]; rfl) ?_ ?_ hne
    · funext c
      rw [upartType, h]
      rfl
    · funext c
      rw [upartType, h]
      rfl

variable (t) in
/-- The reserved bits of an entry of FAT32. -/
def reservedBits (d : Disk) (c : ℕ) : ℕ := le32At d.content (t.pos c) / 2 ^ 28

variable (t) in
/-- The entry is read back, and the other entries and the reserved bits are those of before. -/
structure UpdatesLocally (d : Disk) (c v : ℕ) : Prop where
  read : getNextCluster d t.partition t.offset c t.upartType = v
  others : ∀ c', 2 ≤ c' → c' ≤ t.last → c' ≠ c →
    getNextCluster d t.partition t.offset c' t.upartType =
      getNextCluster t.disk t.partition t.offset c' t.upartType
  reserved : t.upartType = .fat32 → t.reservedBits d c = t.reservedBits t.disk c

/-- **An update is local** unless it is of an entry of FAT32 with reserved bits, which it clears. -/
theorem setNextCluster_local_iff {c v : ℕ} (hc : 2 ≤ c ∧ c ≤ t.last) (hv : v < entryValues t.upartType)
    {badWrite : ℕ → ℕ → Bool} {d : Disk}
    (hset : setNextCluster badWrite t.disk t.partition t.upartType t.offset c v = some d) :
    t.UpdatesLocally d c v ↔ (t.upartType = .fat32 → t.reservedBits t.disk c = 0) := by
  obtain ⟨hread, rfl⟩ := setNextCluster_eq hc.2 hset
  have hcleared : t.upartType = .fat32 →
      t.reservedBits { t.disk with content := putEntry t.upartType t.disk.content (t.pos c) c v } c = 0 := by
    intro h32
    have hlt : v < 2 ^ 28 := by rwa [h32] at hv
    show le32At (putEntry t.upartType t.disk.content (t.pos c) c v) (t.pos c) / 2 ^ 28 = 0
    rw [h32]
    show le32At (put32 t.disk.content (t.pos c) v) (t.pos c) / 2 ^ 28 = 0
    rw [le32At_put32_self]
    omega
  constructor
  · intro h h32
    rw [← h.reserved h32, hcleared h32]
  · intro hzero
    refine ⟨?_, fun c' _ hc' hne => ?_, fun h32 => (hcleared h32).trans (hzero h32).symm⟩
    · refine (nextIn_eq hc.2 _).trans ?_
      rw [if_neg (by simp [hread]), fatEntryAt_putEntry_self t.isFat _ _ _ hv]
    · refine (nextIn_eq hc' _).trans (Eq.trans ?_ (nextIn_eq hc' t.disk.content).symm)
      rw [fatEntryAt_putEntry_of_apart _ hv (entriesApart hne.symm)]

end FatTable

/-! ## An entry with reserved bits -/

/-- A table in the first sector of a disk, all of whose bytes are the same. -/
def fullTable (u : UpartType) (h : u.IsFat) (b : UInt8) : FatTable where
  disk := ⟨512, 1048576, fun _ => b, fun _ _ => false⟩
  partition := ⟨0, 1048576, u, 0⟩
  offset := 0
  last := 100
  isFat := h
  sectorSize_ge := show 4 ≤ 512 by decide
  onDisk := by
    intro c hc
    rcases h with rfl | rfl | rfl <;> simp only [fatSector] <;> omega

/-- A table of FAT16. -/
def fat16Table : FatTable := fullTable .fat16 (Or.inr (Or.inl rfl)) 0xFF

/-- A table of FAT32. -/
def fat32Table : FatTable := fullTable .fat32 (Or.inr (Or.inr rfl)) 0xFF

/-- An entry of FAT16 is changed alone. -/
theorem fat16Table_updatesLocally :
    ∃ d, setNextCluster (fun _ _ => false) fat16Table.disk fat16Table.partition .fat16 0 2 3 = some d ∧
      fat16Table.UpdatesLocally d 2 3 := by
  obtain ⟨d, hset⟩ : ∃ d, setNextCluster (fun _ _ => false) fat16Table.disk fat16Table.partition .fat16 0 2 3 =
      some d := ⟨_, rfl⟩
  refine ⟨d, hset, ?_⟩
  exact (FatTable.setNextCluster_local_iff (t := fat16Table) ⟨by decide, by decide⟩
    (show 3 < 65536 by decide) hset).mpr fun h => by cases h

/-- An entry of FAT32 with all reserved bits loses them. -/
theorem fat32Table_clears :
    ∃ d, setNextCluster (fun _ _ => false) fat32Table.disk fat32Table.partition .fat32 0 2 3 = some d ∧
      fat32Table.reservedBits fat32Table.disk 2 = 15 ∧ fat32Table.reservedBits d 2 = 0 ∧
      ¬ fat32Table.UpdatesLocally d 2 3 := by
  refine ⟨_, rfl, by decide, by decide, fun h => ?_⟩
  exact absurd (h.reserved rfl) (by decide)

end RecoveryQt
