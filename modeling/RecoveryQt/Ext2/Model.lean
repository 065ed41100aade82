import RecoveryQt.Lib.Locations
import Mathlib.Tactic.Ring

/-!
# The blocks of an ext2 file

* `Ext2Fs`, `Ext2Inode`: the filesystem as libext2fs shows it, and an inode;
* `ext2ReadBlocks`, `ext2CollectBlocks`: `ext2_read_blocks`, `ext2_collect_blocks`;
* `Ext2Fs.lookup`, `Ext2Inode.blockMap`: the block map of the format, with 32-bit entries.
-/

namespace RecoveryQt

open List

/-- A filesystem: its block size, and the blocks as little-endian 32-bit words. -/
structure Ext2Fs where
  logBlockSize : ℕ
  log_bounds : 10 ≤ logBlockSize ∧ logBlockSize ≤ 16
  readBlk : ℕ → Option (ℕ → UInt32)

/-- `fs->blocksize`. -/
def Ext2Fs.blockSize (fs : Ext2Fs) : ℕ := 2 ^ fs.logBlockSize

/-- The fields of an inode that matter for its blocks. -/
structure Ext2Inode where
  size : ℕ
  iBlocks : UInt32
  iBlock : ℕ → UInt32

/-- The position of a block. -/
def Ext2Fs.position (fs : Ext2Fs) (block : ℕ) : UInt64 := UInt64.ofNat (block * fs.blockSize)

/-! ## `ext2_collect_blocks` -/

/-- `blk_size / sizeof(blk64_t)`. -/
def Ext2Fs.wideEntries (fs : Ext2Fs) : ℕ := fs.blockSize / 8

/-- The 64-bit entry `i` of an indirect block. -/
def wideEntry (words : ℕ → UInt32) (i : ℕ) : ℕ :=
  (words (2 * i)).toNat + 2 ^ 32 * (words (2 * i + 1)).toNat

/-- `ext2_read_blocks`: the entries that are `0` are passed over. -/
def ext2ReadBlocks (fs : Ext2Fs) : ℕ → ℕ → Option (List UInt64)
  | 0, block =>
    (fs.readBlk block).map fun words => (range fs.wideEntries).flatMap fun i =>
      if wideEntry words i = 0 then [] else [fs.position (wideEntry words i)]
  | level + 1, block =>
    (fs.readBlk block).bind fun words => ((range fs.wideEntries).mapM fun i =>
      if wideEntry words i = 0 then some [] else ext2ReadBlocks fs level (wideEntry words i)).map
        flatten

/-- The blocks below one of the indirect blocks of an inode. -/
def Ext2Inode.indirect (inode : Ext2Inode) (fs : Ext2Fs) (level : ℕ) : Option (List UInt64) :=
  if inode.iBlock (12 + level) = 0 then some []
  else ext2ReadBlocks fs level (inode.iBlock (12 + level)).toNat

/-- The direct blocks. -/
def Ext2Inode.direct (inode : Ext2Inode) (fs : Ext2Fs) : List UInt64 :=
  (range 12).flatMap fun i =>
    if inode.iBlock i = 0 then [] else [fs.position (inode.iBlock i).toNat]

/-- `ext2_collect_blocks`. -/
def ext2CollectBlocks (fs : Ext2Fs) (inode : Ext2Inode) : Option (List UInt64) := do
  let single ← inode.indirect fs 0
  let double ← inode.indirect fs 1
  let triple ← inode.indirect fs 2
  let list := inode.direct fs ++ (single ++ (double ++ triple))
  if list = [] ∧ inode.iBlocks = 0 then none else some list

/-! ## The block map -/

/-- The number of entries of an indirect block. -/
def Ext2Fs.entries (fs : Ext2Fs) : ℕ := fs.blockSize / 4

/-- The block at position `j` below an indirect block; `0` stands for a hole. -/
def Ext2Fs.lookup (fs : Ext2Fs) : ℕ → ℕ → ℕ → ℕ
  | 0, block, j => if block = 0 then 0 else (fs.readBlk block).elim 0 fun words => (words j).toNat
  | level + 1, block, j =>
    if block = 0 then 0
    else (fs.readBlk block).elim 0 fun words =>
      fs.lookup level (words (j / fs.entries ^ (level + 1))).toNat (j % fs.entries ^ (level + 1))

namespace Ext2Inode

variable (inode : Ext2Inode) (fs : Ext2Fs)

/-- The block of the file at index `j`, or `0`. -/
def blockMap (j : ℕ) : ℕ :=
  if j < 12 then (inode.iBlock j).toNat
  else if j < 12 + fs.entries then fs.lookup 0 (inode.iBlock 12).toNat (j - 12)
  else if j < 12 + fs.entries + fs.entries ^ 2 then
    fs.lookup 1 (inode.iBlock 13).toNat (j - 12 - fs.entries)
  else fs.lookup 2 (inode.iBlock 14).toNat (j - 12 - fs.entries - fs.entries ^ 2)

/-- The location of the bytes `j * blockSize ..` of the file. -/
def location (j : ℕ) : Option UInt64 :=
  if inode.blockMap fs j = 0 then none else some (fs.position (inode.blockMap fs j))

/-- The number of blocks of the file. -/
def blockCount : ℕ := (inode.size + fs.blockSize - 1) / fs.blockSize

/-- An inode as the format wants it: it has no block twice and none behind its end, and no indirect
block that its size does not ask for. -/
structure WellFormed : Prop where
  distinct : ∀ i j, i < j → j < inode.blockCount fs → inode.blockMap fs i ≠ 0 →
    inode.blockMap fs i ≠ inode.blockMap fs j
  behind : ∀ j, inode.blockCount fs ≤ j → inode.blockMap fs j = 0
  double : inode.blockCount fs ≤ 12 + fs.entries → inode.iBlock 13 = 0
  triple : inode.blockCount fs ≤ 12 + fs.entries + fs.entries ^ 2 → inode.iBlock 14 = 0

end Ext2Inode

end RecoveryQt
