import Mathlib.Data.List.GetD
import RecoveryQt.Backup.Views
import RecoveryQt.Ntfs.Listed
import RecoveryQt.Restore.Length
import RecoveryQt.Restore.Preview

/-!
# The data of a deleted NTFS stream

`scan_disk` lists each stream of a record, and `ntfs_fill_clusters` looks for its clusters with the number of the record.

* `placeIn`, `RunList.listed`: where a cluster of a run list is, and the clusters that `ntfs_fill_clusters` lists;
* `MftScan`: a volume in its partition; `MftScan.fill`, `MftScan.node`: `ntfs_fill_clusters` and the node of a stream;
  `node_eq_newNode`: it is the one of the scan;
* `MftScan.HasData`: the data of a stream; `MftScan.Recovers`: a restore and a preview of the node give it;
* `MftScan.LiesAt`: the bytes of the stream are at these positions of the disk; `forall_hasData_iff`;
* `MftScan.Serves`, **`recovers_iff`**: the first data attribute of the record is that of the stream;
* `deletedScan`: a file whose data is in its record.
-/

namespace RecoveryQt

open List

/-! ## Run lists -/

/-- Where a cluster of a run list is: in a cluster of the volume, in a hole, or not in this list. -/
def placeIn : List (NtfsLcn × ℕ) → ℕ → Option (Option ℕ)
  | [], _ => none
  | (lcn, n) :: l, v =>
    if v < n then
      match lcn with
      | .at c => some (some (c + v))
      | .hole => some none
      | .notMapped => none
    else placeIn l (v - n)

/-- The clusters that `ntfs_fill_clusters` lists. The length of a run is cast to `unsigned int`. -/
def RunList.listed (rl : RunList) (clusterSize : ℕ) : List UInt64 :=
  rl.runs.flatMap fun r =>
    match r.1 with
    | .at lcn => (range (r.2 % 2 ^ 32)).map fun j => lcnPosition clusterSize (lcn + j)
    | .hole | .notMapped => []

/-- Where a cluster of a data attribute is. -/
def DataContent.place (v : ℕ) : DataContent → Option (Option ℕ)
  | .nonResident _ _ _ (some rl) => placeIn rl.runs v
  | _ => none

/-- The size of the node of a data attribute. -/
def DataContent.nodeSize (c : DataContent) : UInt64 := max c.sizeInit c.sizeData

namespace MftRecord

variable (rec : MftRecord) (clusterSize : ℕ)

/-- The clusters that `ntfs_fill_clusters` lists for a record: those of the first data attribute, and the position 0 for
one that is resident. -/
def listed : List UInt64 :=
  match rec.data.head?.map DataAttr.content with
  | some (.resident _) => [0]
  | some (.nonResident _ _ _ (some rl)) => rl.listed clusterSize
  | _ => []

/-- The first data attribute, if its run list has fewer clusters than an NTFS volume may have. -/
def mftData : Option MftData :=
  match rec.data.head?.map DataAttr.content with
  | none => some .missing
  | some (.resident value) => some (.resident value.length)
  | some (.nonResident _ dataSize _ none) => some (.nonResident dataSize.toNat none)
  | some (.nonResident _ dataSize _ (some rl)) =>
    if h : (rl.runs.map Prod.snd).sum < 2 ^ 32 then
      some (.nonResident dataSize.toNat (some ⟨rl.runs, rl.length_pos, h⟩))
    else none

end MftRecord

/-! ## The node of a stream -/

/-- A volume in its partition. The size of a cluster is a power of two. -/
structure MftScan where
  vol : MftVolume
  clusterBits : ℕ
  clusterSize_eq : vol.clusterSize = 2 ^ clusterBits
  clusterBits_lt : clusterBits < 32
  sectorSize : UInt32
  partition : Partition

namespace MftScan

variable (S : MftScan)

/-- `vol->cluster_size`. -/
def clusterSize : ℕ := S.vol.clusterSize

/-- `ntfs_fill_clusters` for a node of this size. The number of clusters is an `unsigned int`: the array of a list with
more of them is too small for it. -/
def fill (rec : MftRecord) (size : UInt64) : Option Clusters :=
  if size = 0 then some Clusters.none
  else if hnil : (rec.listed S.clusterSize).length % 2 ^ 32 = 0 then some Clusters.none
  else if h : (rec.listed S.clusterSize).length < 2 ^ 32 then
    some ⟨rec.listed S.clusterSize, UInt32.ofNat S.clusterSize, h, fun h0 => absurd (by rw [h0]; rfl) hnil⟩
  else none

/-- What `scan_disk` lists for a data attribute. -/
def entry (n : ℕ) (rec : MftRecord) (d : DataAttr) : FileInfo := S.vol.ufileToFileData (S.vol.ufile n rec) d

/-- The node that a scan makes of it. -/
def node (n : ℕ) (rec : MftRecord) (d : DataAttr) : Option NodeInfo :=
  (S.fill rec (S.entry n rec d).stSize).map fun c =>
    { nodeAlloc ((S.entry n rec d).addArgs S.sectorSize true) with orphan := true, clusters := c }

/-! ## The data of a stream -/

/-- The data attributes of a stream: in the record, or in those that its attribute list names. -/
def pieces (rec : MftRecord) (name : List UInt16) : List DataContent :=
  ((rec.data ++ (S.vol.named rec).flatMap S.vol.getData).filter fun d => d.uname = name).map DataAttr.content

/-- The one with which it begins. -/
def start (rec : MftRecord) (name : List UInt16) : Option DataContent :=
  (S.pieces rec name).find? fun c => c.Starts

/-- Where a cluster of the stream is. -/
def place (rec : MftRecord) (name : List UInt16) (v : ℕ) : Option (Option ℕ) :=
  (S.pieces rec name).findSome? (DataContent.place v)

/-- The position of a byte that is in this cluster. -/
def position (lcn i : ℕ) : ℕ :=
  blockPos (UInt64.ofNat S.partition.partOffset + lcnPosition S.clusterSize lcn) (i % S.clusterSize)

/-- A byte of a stream, as it is stored: zero in a hole and behind the initialized size. -/
def byteAt (rec : MftRecord) (name : List UInt16) (init : ℕ) (content : ℕ → UInt8) (i : ℕ) : Option UInt8 :=
  if init ≤ i then some 0
  else (S.place rec name (i / S.clusterSize)).map fun q => q.elim 0 fun lcn => content (S.position lcn i)

/-- These are the bytes of the stream. -/
def HasData (rec : MftRecord) (name : List UInt16) (content : ℕ → UInt8) (bytes : List UInt8) : Prop :=
  match S.start rec name with
  | none => False
  | some (.resident value) => bytes = value
  | some (.nonResident _ size init _) =>
    (range size.toNat).map (S.byteAt rec name init.toNat content) = bytes.map some

/-- A restore and a preview of the node of a stream give the data of that stream, whatever the disk holds. -/
def Recovers (n : ℕ) (rec : MftRecord) (d : DataAttr) : Prop :=
  ∃ x, S.node n rec d = some x ∧ ∀ disk : Disk, disk.sectorSize = S.sectorSize.toNat → disk.Readable →
    ∀ copyFile, ∃ bytes, S.HasData rec d.uname disk.content bytes ∧
      restoreFile copyFile disk S.partition x = (bytes, .ok) ∧
      (readFileBytes copyFile disk S.partition x).getD [] = bytes

/-! ## The condition -/

/-- The stream has `m` bytes, which are at these positions of the disk. -/
def LiesAt (rec : MftRecord) (name : List UInt16) (m : ℕ) (q : ℕ → ℕ) : Prop :=
  match S.start rec name with
  | none => False
  | some (.resident value) => value = [] ∧ m = 0
  | some (.nonResident _ size init _) => m = size.toNat ∧ m ≤ init.toNat ∧
    ∀ i < m, ∃ lcn, S.place rec name (i / S.clusterSize) = some (some lcn) ∧ S.position lcn i = q i

/-- The stream has `m` bytes, all of them initialized, and its clusters are those of a list. -/
def HasClusters (rec : MftRecord) (name : List UInt16) (l : List UInt64) (m : ℕ) : Prop :=
  ∃ lowestVcn size init rl, S.start rec name = some (.nonResident lowestVcn size init rl) ∧ size.toNat = m ∧
    m ≤ init.toNat ∧ ∀ j, j * S.clusterSize < m → ∃ lcn, S.place rec name j = some (some lcn) ∧
      l[j]? = some (lcnPosition S.clusterSize lcn)

/-- The first data attribute of the record has the clusters of the stream, all of them and in order; the size of the node
is that of the stream, or the clusters end with it; and a cluster is no longer than the buffer of a restore, or else the
stream is not. -/
structure ServesList (rec : MftRecord) (name : List UInt16) (nodeSize : UInt64) : Prop where
  fits : (rec.listed S.clusterSize).length < 2 ^ 32
  clusters : S.HasClusters rec name (rec.listed S.clusterSize)
    (min nodeSize.toNat ((rec.listed S.clusterSize).length * S.clusterSize))
  buffered : S.clusterSize ≤ blockSize ∨
    min nodeSize.toNat ((rec.listed S.clusterSize).length * S.clusterSize) ≤ blockSize

/-- The bytes in the sectors of a node. -/
def sectorsSize (nodeSize : UInt64) : ℕ :=
  ((if 0 < nodeSize then sectorCount nodeSize S.sectorSize else 0) * UInt64.ofNat S.sectorSize.toNat).toNat

/-- The stream is empty, or it happens to fill the sectors from the byte on that has the number of the record, and not
more than 64 MiB. -/
structure ServesRange (n : ℕ) (rec : MftRecord) (name : List UInt16) (nodeSize : UInt64) : Prop where
  lies : S.LiesAt rec name (S.sectorsSize nodeSize)
    (blockPos (UInt64.ofNat S.partition.partOffset + UInt64.ofNat n))
  shown : S.sectorsSize nodeSize = 0 ∨ UInt64.ofNat n ≠ 0 ∧ S.sectorsSize nodeSize ≤ maxRead

/-- The node serves the stream: with the clusters of the first data attribute, or without a list. -/
def Serves (n : ℕ) (rec : MftRecord) (d : DataAttr) : Prop :=
  if d.content.nodeSize = 0 ∨ (rec.listed S.clusterSize).length % 2 ^ 32 = 0 then
    S.ServesRange n rec d.uname d.content.nodeSize
  else S.ServesList rec d.uname d.content.nodeSize

/-! ## The node of the scan -/

variable {S}

theorem toNat_clusterSize : (UInt32.ofNat S.clusterSize).toNat = S.clusterSize := by
  refine UInt32.toNat_ofNat_of_lt' ?_
  show S.vol.clusterSize < 2 ^ 32
  rw [S.clusterSize_eq]
  exact Nat.pow_lt_pow_right (by decide) S.clusterBits_lt

theorem clusterSize_pos : 0 < S.clusterSize := by
  show 0 < S.vol.clusterSize
  rw [S.clusterSize_eq]
  exact Nat.two_pow_pos _

/-- A run list with fewer clusters is listed as it is. -/
theorem listed_eq {rl : RunList} (h : (rl.runs.map Prod.snd).sum < 2 ^ 32) (clusterSize : ℕ) :
    rl.listed clusterSize = rl.runs.flatMap (NtfsRunlist.listRun clusterSize) := by
  refine flatMap_congr fun r hr => ?_
  have hlt : r.2 < 2 ^ 32 := Nat.lt_of_le_of_lt (List.single_le_sum (fun _ _ => Nat.zero_le _) _ (mem_map_of_mem hr)) h
  obtain ⟨lcn, n⟩ := r
  cases lcn with
  | «at» lcn =>
    show map _ (range (n % 2 ^ 32)) = map _ (range n)
    rw [Nat.mod_eq_of_lt hlt]
  | hole => rfl
  | notMapped => rfl

/-- The lists agree. -/
theorem ntfsFillClusters_eq {rec : MftRecord} {data : MftData} (hdata : rec.mftData = some data) (clusterSize : ℕ)
    (size : UInt64) : ntfsFillClusters clusterSize size data =
      if size = 0 ∨ rec.listed clusterSize = [] then none else some (rec.listed clusterSize) := by
  unfold MftRecord.mftData at hdata
  unfold MftRecord.listed ntfsFillClusters
  by_cases hsize : size = 0
  · rw [if_pos hsize, if_pos (.inl hsize)]
  rw [if_neg hsize]
  match rec.data.head?.map DataAttr.content, hdata with
  | none, hdata =>
    obtain rfl := Option.some.inj hdata
    exact (if_pos (.inr rfl)).symm
  | some (.resident value), hdata =>
    obtain rfl := Option.some.inj hdata
    exact (if_neg (not_or.mpr ⟨hsize, cons_ne_nil 0 []⟩)).symm
  | some (.nonResident _ dataSize _ none), hdata =>
    obtain rfl := Option.some.inj hdata
    exact (if_pos (.inr rfl)).symm
  | some (.nonResident _ dataSize _ (some rl)), hdata =>
    dsimp only at hdata
    split_ifs at hdata with hfits
    obtain rfl := Option.some.inj hdata
    simp only [listed_eq hfits, length_eq_zero_iff, hsize, false_or]

theorem fill_eq {rec : MftRecord} {data : MftData} (hdata : rec.mftData = some data) (size : UInt64) :
    S.fill rec size = some ((data.fill (UInt32.ofNat S.clusterSize) size).getD Clusters.none) := by
  have hlist := ntfsFillClusters_eq hdata S.clusterSize size
  unfold MftData.fill fill
  by_cases hnone : size = 0 ∨ rec.listed S.clusterSize = []
  · rw [if_pos hnone] at hlist
    have hleft : (if size = 0 then some Clusters.none
        else if hnil : (rec.listed S.clusterSize).length % 2 ^ 32 = 0 then some Clusters.none
        else if h : (rec.listed S.clusterSize).length < 2 ^ 32 then
          some (⟨rec.listed S.clusterSize, UInt32.ofNat S.clusterSize, h,
            fun h0 => absurd (by rw [h0]; rfl) hnil⟩ : Clusters)
        else none) = some Clusters.none := by
      rcases hnone with h | h
      · rw [if_pos h]
      · rw [dif_pos (by rw [h]; rfl), ite_self]
    rw [hleft]
    split
    · rfl
    · next list h =>
      rw [toNat_clusterSize, hlist] at h
      cases h
  · rw [if_neg hnone] at hlist
    rw [not_or] at hnone
    have hlt := (ntfsFillClusters_bounds hlist).2
    have hpos := length_pos_of_ne_nil hnone.2
    rw [if_neg hnone.1, dif_neg (by rw [Nat.mod_eq_of_lt hlt]; exact Nat.ne_of_gt hpos), dif_pos hlt]
    split
    · next h =>
      rw [toNat_clusterSize, hlist] at h
      cases h
    · next list h =>
      obtain rfl : rec.listed S.clusterSize = list := by
        rw [toNat_clusterSize, hlist] at h
        exact Option.some.inj h
      rfl

/-- **The node is the one of the scan.** -/
theorem node_eq_newNode {rec : MftRecord} {data : MftData} (hdata : rec.mftData = some data) {env : ScanEnv}
    (henv : env.clusterSize = UInt32.ofNat S.clusterSize) (n : ℕ) (d : DataAttr) :
    S.node n rec d = some ((mftItem S.sectorSize (S.entry n rec d, data)).newNode env) := by
  rw [node, fill_eq hdata, ← henv]
  rfl

/-! ## Bytes and positions -/

/-- A stream has no more than one content. -/
theorem HasData.unique {rec : MftRecord} {name : List UInt16} {content : ℕ → UInt8} {bytes bytes' : List UInt8}
    (h : S.HasData rec name content bytes) (h' : S.HasData rec name content bytes') : bytes = bytes' := by
  unfold HasData at h h'
  match hstart : S.start rec name with
  | none => rw [hstart] at h; exact h.elim
  | some (.resident value) =>
    rw [hstart] at h h'
    exact h.trans h'.symm
  | some (.nonResident _ size init _) =>
    rw [hstart] at h h'
    exact map_injective_iff.mpr (Option.some_injective _) (h.symm.trans h')

/-- A byte that is, whatever the disk holds, the one at a position. -/
theorem byteAt_eq_iff {rec : MftRecord} {name : List UInt16} {init i o : ℕ} :
    (∀ content, S.byteAt rec name init content i = some (content o)) ↔
      i < init ∧ ∃ lcn, S.place rec name (i / S.clusterSize) = some (some lcn) ∧ S.position lcn i = o := by
  unfold byteAt
  by_cases hinit : init ≤ i
  · -- behind the initialized size there is a zero
    simp only [if_pos hinit]
    refine iff_of_false (fun h => ?_) fun h => absurd h.1 (Nat.not_lt.mpr hinit)
    exact absurd (Option.some.inj (h fun _ => 1)) (by decide)
  · simp only [if_neg hinit]
    rw [and_iff_right (Nat.not_le.mp hinit)]
    match S.place rec name (i / S.clusterSize) with
    | none => exact iff_of_false (fun h => (nomatch h fun _ => 0)) fun ⟨_, h, _⟩ => (nomatch h)
    | some none =>
      refine iff_of_false (fun h => ?_) fun ⟨_, h, _⟩ => (nomatch h)
      exact absurd (Option.some.inj (h fun _ => 1)) (by decide)
    | some (some lcn) =>
      constructor
      · intro h
        refine ⟨lcn, rfl, ?_⟩
        by_contra hne
        have hone := Option.some.inj (h fun p => if p = o then 1 else 0)
        simp [hne] at hone
      · rintro ⟨_, hlcn, rfl⟩ content
        obtain rfl := Option.some.inj (Option.some.inj hlcn)
        rfl

/-- **The bytes at these positions are those of the stream**, whatever the disk holds. -/
theorem forall_hasData_iff {rec : MftRecord} {name : List UInt16} {m : ℕ} {q : ℕ → ℕ} :
    (∀ content : ℕ → UInt8, S.HasData rec name content ((range m).map fun b => content (q b))) ↔
      S.LiesAt rec name m q := by
  unfold HasData LiesAt
  match S.start rec name with
  | none => exact ⟨fun h => h fun _ => 0, fun h => h.elim⟩
  | some (.resident value) =>
    constructor
    · intro h
      have hm : m = 0 := by
        by_contra hm
        have hbyte : (0 : UInt8) = 1 := by
          have heq := (h fun _ => 0).trans (h fun _ => 1).symm
          have hhead := map_inj_left.mp heq 0 (mem_range.mpr (Nat.pos_of_ne_zero hm))
          exact hhead
        exact absurd hbyte (by decide)
      have hvalue := h fun _ => 0
      rw [hm] at hvalue
      exact ⟨hvalue.symm, hm⟩
    · rintro ⟨rfl, rfl⟩ content
      rfl
  | some (.nonResident _ size init _) =>
    dsimp only
    constructor
    · intro h
      have hlength : m = size.toNat := by
        have := congrArg length (h fun _ => 0)
        rw [length_map, length_map, length_map, length_range, length_range] at this
        exact this.symm
      have hbytes : ∀ i < m, i < init.toNat ∧
          ∃ lcn, S.place rec name (i / S.clusterSize) = some (some lcn) ∧ S.position lcn i = q i := by
        intro i hi
        refine byteAt_eq_iff.mp fun content => ?_
        have hall := h content
        rw [← hlength, map_map] at hall
        exact map_inj_left.mp hall i (mem_range.mpr hi)
      refine ⟨hlength, ?_, fun i hi => (hbytes i hi).2⟩
      rcases Nat.eq_zero_or_pos m with hm | hm
      · omega
      · have := (hbytes (m - 1) (by omega)).1
        omega
    · rintro ⟨rfl, hinit, hbytes⟩ content
      rw [map_map]
      refine map_congr_left fun i hi => ?_
      have hi := mem_range.mp hi
      exact byteAt_eq_iff.mpr ⟨by omega, hbytes i hi⟩ content

/-! ## The two ways to read a node -/

/-- The bytes that are restored, and those that are shown, are those of the stream. -/
theorem recovers_iff_liesAt {n : ℕ} {rec : MftRecord} {d : DataAttr} {x : NodeInfo} (hx : S.node n rec d = some x)
    {m m' : ℕ} {q q' : ℕ → ℕ}
    (hrestored : ∀ disk : Disk, disk.sectorSize = S.sectorSize.toNat → disk.Readable → ∀ copyFile,
      restoreFile copyFile disk S.partition x = ((range m).map fun b => disk.content (q b), .ok))
    (hshown : ∀ disk : Disk, disk.sectorSize = S.sectorSize.toNat → disk.Readable → ∀ copyFile,
      (readFileBytes copyFile disk S.partition x).getD [] = (range m').map fun b => disk.content (q' b)) :
    S.Recovers n rec d ↔ S.LiesAt rec d.uname m q ∧ S.LiesAt rec d.uname m' q' := by
  rw [← forall_hasData_iff, ← forall_hasData_iff]
  constructor
  · rintro ⟨x', hx', h⟩
    obtain rfl := Option.some.inj (hx.symm.trans hx')
    have hall : ∀ content, S.HasData rec d.uname content ((range m).map fun b => content (q b)) ∧
        S.HasData rec d.uname content ((range m').map fun b => content (q' b)) := by
      intro content
      have hd := contentDisk_readable S.sectorSize.toNat content
      obtain ⟨bytes, hdata, hfile, hview⟩ := h _ rfl hd fun _ => ([], .ok)
      rw [hrestored _ rfl hd] at hfile
      rw [hshown _ rfl hd] at hview
      obtain ⟨rfl, -⟩ := Prod.mk.inj hfile
      exact ⟨hdata, by rw [show (range m').map (fun b => content (q' b)) = _ from hview]; exact hdata⟩
    exact ⟨fun content => (hall content).1, fun content => (hall content).2⟩
  · rintro ⟨h, h'⟩
    refine ⟨x, hx, fun disk hs hd copyFile => ⟨_, h disk.content, hrestored disk hs hd copyFile, ?_⟩⟩
    rw [hshown disk hs hd]
    exact (h' disk.content).unique (h disk.content)

/-! ## A list of clusters -/

section List

variable {rec : MftRecord} {name : List UInt16} {nodeSize : ℕ} {l : List UInt64}

/-- Bytes that are read cluster by cluster. -/
theorem liesAt_clusterPos_iff {m : ℕ} (hm : 0 < m) (hl : m ≤ l.length * S.clusterSize) :
    S.LiesAt rec name m (clusterPos (UInt64.ofNat S.partition.partOffset) S.clusterSize l) ↔ S.HasClusters rec name l m := by
  have hcs := clusterSize_pos (S := S)
  constructor
  · intro h
    unfold LiesAt at h
    match hstart : S.start rec name with
    | none => rw [hstart] at h; exact h.elim
    | some (.resident value) =>
      rw [hstart] at h
      exact absurd h.2 (Nat.ne_of_gt hm)
    | some (.nonResident lowestVcn size init rl) =>
      rw [hstart] at h
      refine ⟨lowestVcn, size, init, rl, hstart, h.1.symm, h.2.1, fun j hj => ?_⟩
      obtain ⟨lcn, hlcn, hpos⟩ := h.2.2 _ hj
      have hlt : j < l.length := Nat.lt_of_mul_lt_mul_right (Nat.lt_of_lt_of_le hj hl)
      rw [position, clusterPos, Nat.mul_mod_left, Nat.mul_div_cancel _ hcs, blockPos_of_lt _ (by decide),
        blockPos_of_lt _ (by decide), Nat.add_zero, Nat.add_zero, UInt64.toNat_inj, UInt64.add_right_inj,
        getD_eq_getElem _ _ hlt] at hpos
      rw [Nat.mul_div_cancel _ hcs] at hlcn
      exact ⟨lcn, hlcn, by rw [getElem?_eq_getElem hlt, hpos]⟩
  · rintro ⟨lowestVcn, size, init, rl, hstart, hsize, hinit, hclusters⟩
    unfold LiesAt
    rw [hstart]
    refine ⟨hsize.symm, hinit, fun i hi => ?_⟩
    obtain ⟨lcn, hlcn, hget⟩ := hclusters (i / S.clusterSize) (Nat.lt_of_le_of_lt (Nat.div_mul_le_self _ _) hi)
    refine ⟨lcn, hlcn, ?_⟩
    rw [position, clusterPos, getD_eq_getElem?_getD, hget]
    rfl

/-- At most a buffer is read of a cluster, which matters only for long streams in large clusters. -/
theorem liesAt_buffer_iff (hnode : 0 < nodeSize) (hl : l ≠ [])
    (hmul : ∀ c ∈ l, ∃ i, c = UInt64.ofNat (0 + i * S.clusterSize))
    (h : S.HasClusters rec name l (min nodeSize (l.length * S.clusterSize))) :
    S.LiesAt rec name (min nodeSize (l.length * min S.clusterSize blockSize))
        (clusterPos (UInt64.ofNat S.partition.partOffset) (min S.clusterSize blockSize) l) ↔
      S.clusterSize ≤ blockSize ∨ min nodeSize (l.length * S.clusterSize) ≤ blockSize := by
  have hcs := clusterSize_pos (S := S)
  have hB : 0 < blockSize := by decide
  have hn := length_pos_of_ne_nil hl
  by_cases hfit : S.clusterSize ≤ blockSize
  · have hm : 0 < min nodeSize (l.length * S.clusterSize) := Nat.lt_min.mpr ⟨hnode, Nat.mul_pos hn hcs⟩
    rw [Nat.min_eq_left hfit]
    exact iff_of_true ((liesAt_clusterPos_iff hm (Nat.min_le_right _ _)).mpr h) (.inl hfit)
  · rw [Nat.not_le] at hfit
    rw [Nat.min_eq_right hfit.le, or_iff_right (Nat.not_le.mpr hfit)]
    obtain ⟨lowestVcn, size, init, rl, hstart, hsize, hinit, hclusters⟩ := h
    have hle : S.clusterSize ≤ l.length * S.clusterSize := Nat.le_mul_of_pos_left _ hn
    have hle' : blockSize ≤ l.length * blockSize := Nat.le_mul_of_pos_left _ hn
    unfold LiesAt
    rw [hstart]
    dsimp only
    constructor
    · rintro ⟨hlength, -, hpos⟩
      by_contra hlong
      rw [hsize] at hlength
      have hsecond : 1 < l.length := by
        by_contra hone
        have := Nat.mul_le_mul_right blockSize (Nat.not_lt.mp hone)
        omega
      -- the second cluster would begin where the first one goes on
      obtain ⟨lcn, -, hat⟩ := hpos blockSize (by omega)
      rw [position, clusterPos, Nat.mod_eq_of_lt hfit, Nat.div_self hB, Nat.mod_self, blockPos_of_lt _ hB, blockPos,
        Nat.div_self hB, Nat.mod_self, Nat.one_mul, Nat.add_zero, Nat.add_zero, UInt64.toNat_inj, UInt64.add_assoc,
        UInt64.add_right_inj, getD_eq_getElem _ _ hsecond] at hat
      obtain ⟨i, hi⟩ := hmul _ (getElem_mem hsecond)
      have hdvd : S.clusterSize ∣ 2 ^ 64 := by
        show S.vol.clusterSize ∣ _
        rw [S.clusterSize_eq]
        exact Nat.pow_dvd_pow 2 (by have := S.clusterBits_lt; omega)
      refine ofNat_ne_add_blockSize hdvd hfit 0 i lcn ?_
      rw [← hi, ← hat, Nat.zero_add]
      rfl
    · intro hshort
      have hm : min nodeSize (l.length * blockSize) = min nodeSize (l.length * S.clusterSize) := by omega
      rw [hm]
      refine ⟨hsize.symm, hinit, fun i hi => ?_⟩
      obtain ⟨lcn, hlcn, hget⟩ := hclusters 0 (by omega)
      refine ⟨lcn, by rwa [Nat.div_eq_of_lt (by omega)], ?_⟩
      rw [position, clusterPos, Nat.mod_eq_of_lt (by omega), Nat.mod_eq_of_lt (by omega), Nat.div_eq_of_lt (by omega),
        getD_eq_getElem?_getD, hget]
      rfl

end List

/-- The clusters that are listed are multiples of a cluster. -/
theorem listed_multiple {rec : MftRecord} {clusterSize : ℕ} :
    ∀ c ∈ rec.listed clusterSize, ∃ i, c = UInt64.ofNat (0 + i * clusterSize) := by
  intro c hc
  unfold MftRecord.listed at hc
  split at hc
  · obtain rfl := mem_singleton.mp hc
    exact ⟨0, by rw [Nat.zero_mul]; rfl⟩
  · next rl _ =>
    obtain ⟨⟨lcn, n⟩, -, hc⟩ := mem_flatMap.mp hc
    cases lcn with
    | «at» lcn =>
      obtain ⟨j, -, rfl⟩ := mem_map.mp hc
      exact ⟨lcn + j, by rw [Nat.zero_add]; rfl⟩
    | hole => cases hc
    | notMapped => cases hc
  · cases hc

/-- **A node with clusters.** -/
theorem recovers_iff_servesList {n : ℕ} {rec : MftRecord} {d : DataAttr}
    (hsize : d.content.nodeSize ≠ 0)
    (hlist : (rec.listed S.clusterSize).length % 2 ^ 32 ≠ 0) :
    S.Recovers n rec d ↔ S.ServesList rec d.uname d.content.nodeSize := by
  by_cases hfits : (rec.listed S.clusterSize).length < 2 ^ 32
  · have hl : rec.listed S.clusterSize ≠ [] := fun h => hlist (by rw [h]; rfl)
    have hcs := clusterSize_pos (S := S)
    have hnode : 0 < d.content.nodeSize.toNat :=
      Nat.pos_of_ne_zero fun h => hsize (UInt64.toNat_inj.mp h)
    have hfill : S.fill rec (S.entry n rec d).stSize = some ⟨rec.listed S.clusterSize, UInt32.ofNat S.clusterSize, hfits,
        fun h => absurd h hl⟩ := by
      rw [fill, if_neg (show (S.entry n rec d).stSize ≠ 0 from hsize), dif_neg hlist, dif_pos hfits]
    obtain ⟨x, hx, horphan, hxsize, hxlist, hxcs⟩ : ∃ x, S.node n rec d = some x ∧ x.orphan = true ∧
        x.size = d.content.nodeSize ∧ x.clusters.list = rec.listed S.clusterSize ∧
        x.clusters.size.toNat = S.clusterSize :=
      ⟨_, by rw [node, hfill]; rfl, rfl, rfl, rfl, toNat_clusterSize⟩
    have hclustered : x.clustered := by
      refine ⟨hxlist ▸ hl, fun h => ?_⟩
      rw [h] at hxcs
      exact Nat.ne_of_gt hcs hxcs.symm
    have hrestored : ∀ disk : Disk, disk.sectorSize = S.sectorSize.toNat → disk.Readable → ∀ copyFile,
        restoreFile copyFile disk S.partition x =
          ((range (min d.content.nodeSize.toNat
            ((rec.listed S.clusterSize).length * min S.clusterSize blockSize))).map fun b => disk.content
              (clusterPos (UInt64.ofNat S.partition.partOffset) (min S.clusterSize blockSize)
                (rec.listed S.clusterSize) b), .ok) := by
      intro disk _ hd copyFile
      refine Prod.ext ?_ ?_
      · rw [restoreFile_clustered hd hclustered (orphan_raw horphan), clusterBytes, hxsize, hxlist, hxcs]
      · rw [restoreFile, if_pos (orphan_raw horphan)]
        exact restoreOrphan_ok hd _ _
    have hshown : ∀ disk : Disk, disk.sectorSize = S.sectorSize.toNat → disk.Readable → ∀ copyFile,
        (readFileBytes copyFile disk S.partition x).getD [] =
          (range (min d.content.nodeSize.toNat
            ((rec.listed S.clusterSize).length * S.clusterSize))).map fun b => disk.content
              (clusterPos (UInt64.ofNat S.partition.partOffset) S.clusterSize (rec.listed S.clusterSize) b) := by
      intro disk _ hd copyFile
      rw [readFileBytes_clustered hd (hxsize ▸ hsize) hclustered, clusterBytes, hxsize, hxlist, hxcs]
      rfl
    have hm : 0 < min d.content.nodeSize.toNat
        ((rec.listed S.clusterSize).length * S.clusterSize) :=
      Nat.lt_min.mpr ⟨hnode, Nat.mul_pos (length_pos_of_ne_nil hl) hcs⟩
    rw [recovers_iff_liesAt hx hrestored hshown, liesAt_clusterPos_iff hm (Nat.min_le_right _ _)]
    constructor
    · rintro ⟨hbuffer, hclusters⟩
      exact ⟨hfits, hclusters, (liesAt_buffer_iff hnode hl listed_multiple hclusters).mp hbuffer⟩
    · rintro ⟨-, hclusters, hbuffered⟩
      exact ⟨(liesAt_buffer_iff hnode hl listed_multiple hclusters).mpr hbuffered, hclusters⟩
  · refine iff_of_false ?_ fun h => hfits h.fits
    rintro ⟨x, hx, -⟩
    have hnone : S.fill rec (S.entry n rec d).stSize = none := by
      rw [fill, if_neg (show (S.entry n rec d).stSize ≠ 0 from hsize), dif_neg hlist, dif_neg hfits]
    rw [node, hnone] at hx
    cases hx

/-! ## A range of sectors -/

theorem LiesAt.length_unique {rec : MftRecord} {name : List UInt16} {m m' : ℕ} {q q' : ℕ → ℕ}
    (h : S.LiesAt rec name m q) (h' : S.LiesAt rec name m' q') : m = m' := by
  unfold LiesAt at h h'
  match hstart : S.start rec name with
  | none => rw [hstart] at h; exact h.elim
  | some (.resident value) =>
    rw [hstart] at h h'
    rw [h.2, h'.2]
  | some (.nonResident _ size init _) =>
    rw [hstart] at h h'
    rw [h.1, h'.1]

/-- There are no bytes exactly if there are no sectors. -/
theorem sectorsSize_eq_zero_iff (nodeSize : UInt64) : S.sectorsSize nodeSize = 0 ↔
    (if 0 < nodeSize then sectorCount nodeSize S.sectorSize else 0) = 0 := by
  unfold sectorsSize
  split_ifs with hpos
  · have hsector : UInt64.ofNat S.sectorSize.toNat = S.sectorSize.toUInt64 := by
      rw [← UInt32.toNat_toUInt64, UInt64.ofNat_toNat]
    rw [hsector]
    unfold sectorCount
    generalize nodeSize + S.sectorSize.toUInt64 - 1 = a
    generalize S.sectorSize.toUInt64 = b
    have hle := Nat.div_mul_le_self a.toNat b.toNat
    have hlt := a.toNat_lt
    rw [UInt64.toNat_mul, UInt64.toNat_div, Nat.mod_eq_of_lt (by omega), ← UInt64.toNat_inj, UInt64.toNat_div]
    rcases Nat.eq_zero_or_pos b.toNat with hb | hb
    · rw [hb, Nat.div_zero, Nat.zero_mul]
      exact Iff.rfl
    · exact Nat.mul_eq_zero.trans (or_iff_left (Nat.ne_of_gt hb))
  · simp

/-- **A node without clusters.** -/
theorem recovers_iff_servesRange {n : ℕ} {rec : MftRecord} {d : DataAttr}
    (hnone : d.content.nodeSize = 0 ∨ (rec.listed S.clusterSize).length % 2 ^ 32 = 0) :
    S.Recovers n rec d ↔ S.ServesRange n rec d.uname d.content.nodeSize := by
  have hfill : S.fill rec (S.entry n rec d).stSize = some Clusters.none := by
    by_cases hsize : (S.entry n rec d).stSize = 0
    · rw [fill, if_pos hsize]
    · rw [fill, if_neg hsize, dif_pos (hnone.resolve_left hsize)]
  obtain ⟨x, hx, horphan, hsize, hfirst, hsectors, hclusters⟩ : ∃ x, S.node n rec d = some x ∧ x.orphan = true ∧
      x.size = d.content.nodeSize ∧ x.firstSector = UInt64.ofNat n ∧
      x.numSectors = (if 0 < d.content.nodeSize then sectorCount d.content.nodeSize S.sectorSize else 0) ∧
      x.clusters = Clusters.none := ⟨_, by rw [node, hfill]; rfl, rfl, rfl, rfl, rfl, rfl⟩
  have hclustered : ¬ x.clustered := fun h => h.1 (by rw [hclusters]; rfl)
  have hbytes : ∀ disk : Disk, disk.sectorSize = S.sectorSize.toNat →
      sectorBytes disk.sectorSize x = S.sectorsSize d.content.nodeSize := by
    intro disk hs
    rw [sectorBytes, hsectors, hs]
    rfl
  have hrestored : ∀ disk : Disk, disk.sectorSize = S.sectorSize.toNat → disk.Readable → ∀ copyFile,
      restoreFile copyFile disk S.partition x = ((range (S.sectorsSize d.content.nodeSize)).map fun b =>
        disk.content (blockPos (UInt64.ofNat S.partition.partOffset + UInt64.ofNat n) b), .ok) := by
    intro disk hs hd copyFile
    rw [restoreFile, if_pos (orphan_raw horphan), restoreOrphan, if_neg hclustered, readBlocks_readable hd, hbytes disk hs,
      hfirst]
  have hshown : ∀ disk : Disk, disk.sectorSize = S.sectorSize.toNat → disk.Readable → ∀ copyFile,
      (readFileBytes copyFile disk S.partition x).getD [] =
        (range (if UInt64.ofNat n = 0 then 0 else min (S.sectorsSize d.content.nodeSize) maxRead)).map fun b =>
          disk.content (blockPos (UInt64.ofNat S.partition.partOffset + UInt64.ofNat n) b) := by
    intro disk hs hd copyFile
    have hcaptured : (if captured copyFile x = [] then none else some (captured copyFile x)) = none := by
      rw [captured, if_pos (orphan_raw horphan), if_pos rfl]
    have hzero : x.numSectors = 0 → S.sectorsSize d.content.nodeSize = 0 := fun h =>
      (sectorsSize_eq_zero_iff _).mpr (hsectors ▸ h)
    rw [readFileBytes, hcaptured, hfirst]
    by_cases hsize0 : x.size = 0
    · have hlt : ¬ 0 < d.content.nodeSize := by
        rw [← hsize, hsize0]
        decide
      rw [if_pos hsize0, hzero (hsectors.trans (if_neg hlt)), Nat.zero_min, ite_self]
      rfl
    rw [if_neg hsize0, if_neg hclustered]
    by_cases hn : UInt64.ofNat n = 0
    · rw [if_neg fun h => h.2.1 hn, if_pos hn]
      rfl
    rw [if_neg hn]
    by_cases hpos : 0 < x.numSectors
    · have hsome : S.sectorsSize d.content.nodeSize ≠ 0 := by
        rw [Ne, sectorsSize_eq_zero_iff, ← hsectors]
        exact (UInt64.pos_iff_ne_zero).mp hpos
      have hmin : min (S.sectorsSize d.content.nodeSize) maxRead ≠ 0 :=
        Nat.ne_of_gt (Nat.lt_min.mpr ⟨Nat.pos_of_ne_zero hsome, by decide⟩)
      rw [if_pos ⟨horphan, hn, hpos⟩]
      simp only [hbytes disk hs, readBlocks_readable hd, if_neg hmin, Option.getD_some]
    · rw [if_neg fun h => hpos h.2.2, hzero (by simpa using hpos), Nat.zero_min]
      rfl
  rw [recovers_iff_liesAt hx hrestored hshown]
  constructor
  · rintro ⟨h, h'⟩
    refine ⟨h, ?_⟩
    have hlength := h.length_unique h'
    split_ifs at hlength with hn
    · exact .inl hlength
    · exact .inr ⟨hn, min_eq_left_iff.mp hlength.symm⟩
  · rintro ⟨h, hzero | ⟨hn, hle⟩⟩
    · refine ⟨h, ?_⟩
      rw [hzero] at h ⊢
      rwa [Nat.zero_min, ite_self]
    · exact ⟨h, by rwa [if_neg hn, Nat.min_eq_left hle]⟩

end MftScan

/-! ## A small file -/

theorem deletedVolume_clusterSize : (MftVolume.deletedVolume none).clusterSize = 2 ^ 12 ∧ 12 < 32 := by decide

/-- The volume of the deleted file, one MiB behind the start of the disk. -/
def deletedScan : MftScan where
  vol := MftVolume.deletedVolume none
  clusterBits := 12
  clusterSize_eq := deletedVolume_clusterSize.1
  clusterBits_lt := deletedVolume_clusterSize.2
  sectorSize := 512
  partition := ⟨1048576, 262144, .ntfs, 0⟩

end RecoveryQt
