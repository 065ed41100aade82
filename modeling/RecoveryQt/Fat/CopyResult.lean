import RecoveryQt.Fat.Agree

/-!
# The result of `fat_copy`

`fat_copy` logs a failed read and writes what is in its buffer.

* `CopyTarget`, `FatVolume.copyLoop`, `FatVolume.fatCopyFile`: the loop with its buffer, the file and the result;
* `FatVolume.copyLoop_ok`: what is written when the result is `CP_OK`;
* `FatVolume.CompleteCopy`: the file has each byte from its data cluster;
* **`FatVolume.completeCopy_iff`**: `CP_OK` says so exactly if each cluster is one with data and can be read.
-/

namespace RecoveryQt

open List

/-- The results of `fat_copy`. -/
inductive FatCopyResult where
  | ok | createFailed | noSpace
  deriving DecidableEq

/-- The destination: whether it can be created, and how many of some bytes `fwrite` takes behind those written before. -/
structure CopyTarget where
  created : Bool
  fwrite : ℕ → ℕ → ℕ

/-- What a failed `pread` leaves in the buffer: from what was there, the number of bytes and the offset. -/
abbrev FailedRead := (ℕ → UInt8) → ℕ → UInt64 → ℕ → UInt8

namespace FatVolume

variable (v : FatVolume) (left : FailedRead) (target : CopyTarget)

/-- The buffer behind a `pread` of the loop. -/
def fillBuffer (buffer : ℕ → UInt8) (toread : ℕ) (start : UInt64) : ℕ → UInt8 :=
  match v.disk.pread toread start.toNat with
  | some bytes => fun i => if i < toread then bytes i else buffer i
  | none => left buffer toread start

/-- The loop of `fat_copy`, from a cluster on. -/
def copyLoop (stIno c fileSize : ℕ) (m : CopyMethod) (buffer : ℕ → UInt8) (written : List UInt8) :
    List UInt8 × FatCopyResult :=
  if 2 ≤ c ∧ c ≤ v.noOfCluster + 2 ∧ 0 < fileSize then
    let toread := min v.clusterSize fileSize
    let buffer' := v.fillBuffer left buffer toread (v.copyStart c)
    let taken := target.fwrite written.length toread
    if taken ≠ toread then (written ++ ((range toread).map buffer').take taken, .noSpace)
    else if 0 < fileSize - toread then
      copyLoop stIno ((v.fatFile stIno).step c m).1 (fileSize - toread) ((v.fatFile stIno).step c m).2 buffer'
        (written ++ (range toread).map buffer')
    else (written ++ (range toread).map buffer', .ok)
  else (written, .ok)
termination_by fileSize
decreasing_by
  have := v.clusterSize_pos
  omega

/-- **`fat_copy`**: what is in the file, and the result. `file_size` is 32 bits of `st_size`, and `buffer` is what `MALLOC`
gives. -/
def fatCopyFile (buffer : ℕ → UInt8) (stIno : UInt32) (stSize : UInt64) : List UInt8 × FatCopyResult :=
  if target.created then v.copyLoop left target stIno.toNat stIno.toNat stSize.toUInt32.toNat .followCluster buffer []
  else ([], .createFailed)

/-! ## What is written -/

variable {v left target}

/-- One cluster of the loop. -/
theorem copyLoop_cons {stIno c fileSize : ℕ} {m : CopyMethod} (h : 2 ≤ c ∧ c ≤ v.noOfCluster + 2 ∧ 0 < fileSize)
    (buffer : ℕ → UInt8) (written : List UInt8) :
    v.copyLoop left target stIno c fileSize m buffer written =
      if target.fwrite written.length (min v.clusterSize fileSize) ≠ min v.clusterSize fileSize then
        (written ++ ((range (min v.clusterSize fileSize)).map
          (v.fillBuffer left buffer (min v.clusterSize fileSize) (v.copyStart c))).take
            (target.fwrite written.length (min v.clusterSize fileSize)), .noSpace)
      else
        v.copyLoop left target stIno ((v.fatFile stIno).step c m).1 (fileSize - min v.clusterSize fileSize)
          ((v.fatFile stIno).step c m).2 (v.fillBuffer left buffer (min v.clusterSize fileSize) (v.copyStart c))
          (written ++ (range (min v.clusterSize fileSize)).map
            (v.fillBuffer left buffer (min v.clusterSize fileSize) (v.copyStart c))) := by
  rw [copyLoop, if_pos h]
  refine if_congr Iff.rfl rfl ?_
  split_ifs with hrest
  · rfl
  · rw [copyLoop, if_neg fun h => hrest h.2.2]

theorem copyLoop_of_not {stIno c fileSize : ℕ} {m : CopyMethod} (h : ¬ (2 ≤ c ∧ c ≤ v.noOfCluster + 2 ∧ 0 < fileSize))
    (buffer : ℕ → UInt8) (written : List UInt8) :
    v.copyLoop left target stIno c fileSize m buffer written = (written, .ok) := by
  rw [copyLoop, if_neg h]

/-- **What is written**, when the buffer behind a read does not depend on what was in it. -/
theorem copyLoop_ok {g : ℕ × ℕ → ℕ → UInt8} {stIno : ℕ} (c fileSize : ℕ) (m : CopyMethod) (buffer : ℕ → UInt8)
    (written : List UInt8)
    (hg : ∀ r ∈ (v.fatFile stIno).copyFrom c fileSize m, ∀ buffer, ∀ i < r.2,
      v.fillBuffer left buffer r.2 (v.copyStart r.1) i = g r i)
    (hok : (v.copyLoop left target stIno c fileSize m buffer written).2 = .ok) :
    (v.copyLoop left target stIno c fileSize m buffer written).1 =
      written ++ pieces g v.clusterSize fileSize ((v.fatFile stIno).copyFrom c fileSize m) := by
  have hpos := v.clusterSize_pos
  by_cases h : 2 ≤ c ∧ c ≤ v.noOfCluster + 2 ∧ 0 < fileSize
  · have hcons : (v.fatFile stIno).copyFrom c fileSize m = (c, min v.clusterSize fileSize) ::
        (v.fatFile stIno).copyFrom ((v.fatFile stIno).step c m).1 (fileSize - min v.clusterSize fileSize)
          ((v.fatFile stIno).step c m).2 := (v.fatFile stIno).copyFrom_cons h
    rw [hcons] at hg ⊢
    rw [copyLoop_cons h] at hok ⊢
    split_ifs at hok ⊢ with hwrite
    rw [copyLoop_ok _ _ _ _ _ (fun r hr => hg r (mem_cons_of_mem _ hr)) hok, pieces, append_assoc]
    congr 2
    exact map_congr_left fun i hi => hg _ mem_cons_self buffer i (mem_range.mp hi)
  · rw [copyLoop_of_not h, (v.fatFile stIno).copyFrom_of_not h, pieces_nil, append_nil]
termination_by fileSize
decreasing_by omega

/-- A destination that takes everything. -/
def takesAll : CopyTarget := ⟨true, fun _ n => n⟩

theorem copyLoop_cons_takesAll {stIno c fileSize : ℕ} {m : CopyMethod}
    (h : 2 ≤ c ∧ c ≤ v.noOfCluster + 2 ∧ 0 < fileSize) (buffer : ℕ → UInt8) (written : List UInt8) :
    v.copyLoop left takesAll stIno c fileSize m buffer written =
      v.copyLoop left takesAll stIno ((v.fatFile stIno).step c m).1 (fileSize - min v.clusterSize fileSize)
        ((v.fatFile stIno).step c m).2 (v.fillBuffer left buffer (min v.clusterSize fileSize) (v.copyStart c))
        (written ++ (range (min v.clusterSize fileSize)).map
          (v.fillBuffer left buffer (min v.clusterSize fileSize) (v.copyStart c))) :=
  (copyLoop_cons h buffer written).trans (if_neg (not_not.mpr rfl))

theorem copyLoop_takesAll (stIno c fileSize : ℕ) (m : CopyMethod) (buffer : ℕ → UInt8) (written : List UInt8) :
    (v.copyLoop left takesAll stIno c fileSize m buffer written).2 = .ok := by
  have hpos := v.clusterSize_pos
  by_cases h : 2 ≤ c ∧ c ≤ v.noOfCluster + 2 ∧ 0 < fileSize
  · rw [copyLoop_cons_takesAll h]
    exact copyLoop_takesAll _ _ _ _ _ _
  · rw [copyLoop_of_not h]
termination_by fileSize
decreasing_by omega

/-! ## Complete copies -/

variable (v)

/-- The offset of a data cluster. -/
def dataOffset (c : ℕ) : UInt64 :=
  UInt64.ofNat (v.partition.partOffset +
    (v.header.startData v.disk.sectorSize + (c - 2) * v.spc) * v.header.sectorSize.toNat)

/-- The file has `st_size` bytes, and each is that of the data cluster that it was taken from. -/
def CompleteCopy (stIno : UInt32) (stSize : UInt64) (output : List UInt8) : Prop :=
  output.length = stSize.toNat ∧
    ∀ k < stSize.toNat, ∃ c, (v.copyVisited stIno.toNat stSize.toUInt32.toNat)[k / v.clusterSize]? = some c ∧
      v.DataCluster c ∧
      output[k]? = some (v.disk.content ((v.dataOffset c).toNat + k % v.clusterSize))

/-- The `k`-th cluster of a file. -/
def clusterAt (stIno : UInt32) (k : ℕ) : ℕ := ((v.fatFile stIno.toNat).found stIno.toNat .followCluster k).1

/-- The file is smaller than 4 GiB, and each of its clusters is one with data and can be read. -/
def CopySound (stIno : UInt32) (stSize : UInt64) : Prop :=
  stSize.toNat < 2 ^ 32 ∧
    ∀ k, k * v.clusterSize < stSize.toNat → v.DataCluster (v.clusterAt stIno k) ∧
      v.disk.bad (min v.clusterSize (stSize.toNat - k * v.clusterSize)) (v.dataOffset (v.clusterAt stIno k)).toNat = false

variable {v}

/-- The loop reads a cluster where it is. -/
theorem copyStart_eq_dataOffset {c : ℕ} (hc : c ≤ v.noOfCluster + 2) : v.copyStart c = v.dataOffset c := by
  rw [copyStart, dataOffset, Nat.mod_eq_of_lt (v.mul_spc_lt hc), UInt64.ofNat_add]

theorem fillBuffer_of_read {toread : ℕ} {start : UInt64} (h : v.disk.bad toread start.toNat = false)
    (buffer : ℕ → UInt8) {i : ℕ} (hi : i < toread) :
    v.fillBuffer left buffer toread start i = v.disk.content (start.toNat + i) := by
  rw [fillBuffer, Disk.pread, if_neg (by rw [h]; exact Bool.false_ne_true)]
  exact if_pos hi

theorem fillBuffer_of_bad {toread : ℕ} {start : UInt64} (h : v.disk.bad toread start.toNat = true) (buffer : ℕ → UInt8) :
    v.fillBuffer left buffer toread start = left buffer toread start := by
  rw [fillBuffer, Disk.pread, if_pos h]

/-- How many clusters a file has that is found in whole. -/
theorem le_length_copyFrom {stIno : UInt32} {n : ℕ}
    (h : ∀ k, k * v.clusterSize < n → v.DataCluster (v.clusterAt stIno k)) :
    n ≤ ((v.fatFile stIno.toNat).copyFrom stIno.toNat n .followCluster).length * v.clusterSize := by
  by_contra hlt
  refine absurd ((v.fatFile stIno.toNat).lt_length_copyFrom.mpr ⟨not_le.mp hlt, fun j hj => ?_⟩) (lt_irrefl _)
  have hdata := h j ((Nat.mul_le_mul_right _ hj).trans_lt (not_le.mp hlt))
  exact ⟨hdata.1, hdata.2.trans (Nat.le_succ _)⟩

theorem lt_length_of_lt {stIno : UInt32} {n k : ℕ} (hk : k * v.clusterSize < n)
    (hlen : n ≤ ((v.fatFile stIno.toNat).copyFrom stIno.toNat n .followCluster).length * v.clusterSize) :
    k < ((v.fatFile stIno.toNat).copyFrom stIno.toNat n .followCluster).length :=
  lt_of_mul_lt_mul_right (hk.trans_le hlen) (Nat.zero_le _)

/-- The clusters that are visited, by their number. -/
theorem getElem?_copyVisited {stIno : UInt32} {n k : ℕ}
    (hk : k < ((v.fatFile stIno.toNat).copyFrom stIno.toNat n .followCluster).length) :
    (v.copyVisited stIno.toNat n)[k]? = some (v.clusterAt stIno k) := by
  rw [copyVisited, ChainFile.visited, getElem?_map, (v.fatFile stIno.toNat).getElem?_copyFrom hk]
  rfl

/-- The byte of a cluster in the buffer of a failed read that is filled with others. -/
def wrongByte (v : FatVolume) : FailedRead := fun _ _ start i => v.disk.content (start.toNat + i) + 1

/-- A copy that is complete whatever failed reads leave was made of clusters with data, without a failed read. -/
theorem copySound_of_complete {stIno : UInt32} {stSize : UInt64}
    (h : v.CompleteCopy stIno stSize (v.fatCopyFile v.wrongByte takesAll (fun _ => 0) stIno stSize).1) :
    v.CopySound stIno stSize := by
  have hpos := v.clusterSize_pos
  obtain ⟨hlength, hbytes⟩ := h
  have hsize : stSize.toUInt32.toNat = stSize.toNat % 2 ^ 32 := UInt64.toNat_toUInt32 stSize
  let g : ℕ × ℕ → ℕ → UInt8 := fun r i =>
    if v.disk.bad r.2 (v.copyStart r.1).toNat then v.disk.content ((v.copyStart r.1).toNat + i) + 1
    else v.disk.content ((v.copyStart r.1).toNat + i)
  have houtput : (v.fatCopyFile v.wrongByte takesAll (fun _ => 0) stIno stSize).1 =
      pieces g v.clusterSize stSize.toUInt32.toNat
        ((v.fatFile stIno.toNat).copyFrom stIno.toNat stSize.toUInt32.toNat .followCluster) := by
    refine (copyLoop_ok _ _ _ _ [] (fun r _ buffer i hi => ?_) (copyLoop_takesAll _ _ _ _ _ _)).trans (nil_append _)
    show _ = if v.disk.bad r.2 (v.copyStart r.1).toNat = true then _ else _
    split_ifs with hbad
    · rw [fillBuffer_of_bad hbad, wrongByte]
    · exact fillBuffer_of_read (eq_false_of_ne_true hbad) buffer hi
  rw [houtput, length_pieces] at hlength
  have hn : stSize.toUInt32.toNat = stSize.toNat := by omega
  rw [houtput, hn] at hbytes
  rw [hn] at hlength
  refine ⟨by omega, fun k hk => ?_⟩
  have hlen := lt_length_of_lt hk (min_eq_left_iff.mp hlength)
  obtain ⟨c, hc, hdata, hbyte⟩ := hbytes _ hk
  rw [Nat.mul_div_cancel _ hpos, getElem?_copyVisited hlen, Option.some_inj] at hc
  subst hc
  refine ⟨hdata, ?_⟩
  have hread := (v.fatFile stIno.toNat).getElem?_copyFrom hlen
  rw [getElem?_pieces g hpos hk (hk.trans_le (min_eq_left_iff.mp hlength)), Nat.mul_div_cancel _ hpos, Nat.mul_mod_left, Option.some_inj,
    getD_eq_getElem?_getD, hread, Option.getD_some] at hbyte
  have hstart := copyStart_eq_dataOffset (v := v) (hdata.2.trans (Nat.le_succ _))
  rw [← hstart] at hbyte ⊢
  by_contra hbad
  have hwrong := (if_pos (Bool.not_eq_false _ ▸ hbad)).symm.trans hbyte
  exact absurd (UInt8.add_eq_left.mp hwrong) (by decide)

/-- **A copy of such a file is complete.** -/
theorem CopySound.complete {stIno : UInt32} {stSize : UInt64} (h : v.CopySound stIno stSize) {buffer : ℕ → UInt8}
    (hok : (v.fatCopyFile left target buffer stIno stSize).2 = .ok) :
    v.CompleteCopy stIno stSize (v.fatCopyFile left target buffer stIno stSize).1 := by
  have hpos := v.clusterSize_pos
  obtain ⟨hsmall, hclusters⟩ := h
  have hn : stSize.toUInt32.toNat = stSize.toNat := by
    rw [UInt64.toNat_toUInt32]
    exact Nat.mod_eq_of_lt hsmall
  have hlength := le_length_copyFrom fun k hk => (hclusters k hk).1
  unfold fatCopyFile at hok ⊢
  split_ifs at hok ⊢ with hcreated
  rw [hn] at hok ⊢
  have hstart : ∀ k, k * v.clusterSize < stSize.toNat →
      v.copyStart (v.clusterAt stIno k) = v.dataOffset (v.clusterAt stIno k) := fun k hk =>
    copyStart_eq_dataOffset ((hclusters k hk).1.2.trans (Nat.le_succ _))
  have hread : ∀ r ∈ (v.fatFile stIno.toNat).copyFrom stIno.toNat stSize.toNat .followCluster, ∀ buffer, ∀ i < r.2,
      v.fillBuffer left buffer r.2 (v.copyStart r.1) i = v.disk.content ((v.copyStart r.1).toNat + i) := by
    intro r hr buffer i hi
    obtain ⟨k, hk, rfl⟩ := getElem_of_mem hr
    have hkth := (v.fatFile stIno.toNat).getElem?_copyFrom hk
    rw [getElem?_eq_getElem hk, Option.some_inj] at hkth
    have hlt := ((v.fatFile stIno.toNat).lt_length_copyFrom.mp hk).1
    rw [hkth] at hi ⊢
    refine fillBuffer_of_read ?_ buffer hi
    have hgood := (hclusters k hlt).2
    rw [← hstart k hlt] at hgood
    exact hgood
  rw [copyLoop_ok (g := fun r i => v.disk.content ((v.copyStart r.1).toNat + i)) _ _ _ _ _ hread hok, nil_append]
  refine ⟨by rw [length_pieces]; omega, fun k hk => ?_⟩
  rw [hn]
  have hkth : k / v.clusterSize * v.clusterSize < stSize.toNat := (Nat.div_mul_le_self k _).trans_lt hk
  have hlen := lt_length_of_lt hkth hlength
  refine ⟨_, getElem?_copyVisited hlen, (hclusters _ hkth).1, ?_⟩
  rw [getElem?_pieces _ hpos hk (by omega), getD_eq_getElem?_getD, (v.fatFile stIno.toNat).getElem?_copyFrom hlen,
    Option.getD_some, ← hstart _ hkth]
  rfl

/-- **`CP_OK` stands for a complete copy** exactly if the file has less than 4 GiB, and each of its clusters is one with data
and can be read. -/
theorem completeCopy_iff (v : FatVolume) (stIno : UInt32) (stSize : UInt64) :
    (∀ left target buffer, (v.fatCopyFile left target buffer stIno stSize).2 = .ok →
      v.CompleteCopy stIno stSize (v.fatCopyFile left target buffer stIno stSize).1) ↔ v.CopySound stIno stSize :=
  ⟨fun h => copySound_of_complete (h _ takesAll _ (copyLoop_takesAll _ _ _ _ _ _)), fun h _ _ _ => h.complete⟩

/-! ## A floppy disk -/

/-- A file of one byte in the first cluster. -/
theorem floppy_complete : floppy.CopySound 2 1 := by
  refine ⟨by decide, fun k hk => ?_⟩
  obtain rfl : k = 0 := by
    by_contra h0
    have hpos := Nat.mul_le_mul_right floppy.clusterSize (Nat.pos_of_ne_zero h0)
    have hcluster : floppy.clusterSize = 512 := rfl
    have hone : (1 : UInt64).toNat = 1 := rfl
    omega
  exact ⟨⟨le_rfl, by decide⟩, rfl⟩

/-- The disk of which nothing behind the boot sector can be read. -/
def badFloppy : FatVolume :=
  { floppy with
    disk := { floppy.disk with bad := fun _ _ => true }
    sectorSize_pos := floppy.sectorSize_pos
    accepted := floppy.accepted
    inside := floppy.inside
    typed := floppy.typed }

/-- A buffer that is left as it was. -/
def leftAlone : FailedRead := fun buffer _ _ => buffer

/-- **`CP_OK` without the file**: a first cluster that is none, and a cluster that cannot be read. -/
theorem fatCopyFile_incomplete :
    ((floppy.fatCopyFile leftAlone takesAll (fun _ => 0) 0 1).2 = .ok ∧
      ¬ floppy.CompleteCopy 0 1 (floppy.fatCopyFile leftAlone takesAll (fun _ => 0) 0 1).1) ∧
    ((badFloppy.fatCopyFile leftAlone takesAll (fun _ => 1) 2 1).2 = .ok ∧
      ¬ badFloppy.CompleteCopy 2 1 (badFloppy.fatCopyFile leftAlone takesAll (fun _ => 1) 2 1).1) := by
  refine ⟨⟨copyLoop_takesAll _ _ _ _ _ _, fun h => ?_⟩, ⟨copyLoop_takesAll _ _ _ _ _ _, fun h => ?_⟩⟩
  · have hnone : floppy.copyVisited 0 1 = [] := (floppy.fatFile 0).visited_of_not (by decide)
    obtain ⟨c, hc, -⟩ := h.2 0 (by decide)
    exact absurd (hc.symm.trans (congrArg (·[0]?) hnone)) (Option.some_ne_none _)
  · have houtput : (badFloppy.fatCopyFile leftAlone takesAll (fun _ => 1) 2 1).1 = [1] := by
      show (badFloppy.copyLoop leftAlone takesAll 2 2 1 .followCluster (fun _ => 1) []).1 = [1]
      rw [copyLoop_cons_takesAll (by decide), copyLoop_of_not fun h => absurd h.2.2 (by decide)]
      rfl
    obtain ⟨c, -, -, hbyte⟩ := h.2 0 (by decide)
    rw [houtput] at hbyte
    have hone : some (1 : UInt8) = some 0 := hbyte
    exact absurd hone (by decide)

end FatVolume

end RecoveryQt
