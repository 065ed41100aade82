import RecoveryQt.Lib.Codec
import RecoveryQt.Lib.Siblings
import RecoveryQt.Scan.Twice

/-!
# Which inodes `scanner_deep_ext` finds

* `Ext2RawInode`: an inode as it is on the disk; `Ext2RawInode.extInode`: what the scanner makes of it;
* `ExtVolume`: a volume whose inodes are those of a table, in order;
* `ScanTree.deepResults`: what there is in `/Deep Scan Results`;
* `results_scan`: a scan of inodes adds one result for each inode that it keeps;
* `ExtVolume.ListsFreed`: the results added are those of the inodes that are not in use;
* **`listsFreed_iff`**: they are, exactly when there is nothing to add for the last inode, nothing in those in use,
  and the high halves of the sizes and of the ACL blocks agree.
-/

namespace RecoveryQt

open List

/-! ## Names -/

theorem isDigit_iff {c : Char} (h : c.isDigit = true) : 48 ≤ c.toNat ∧ c.toNat ≤ 57 := by
  rw [Char.isDigit, Bool.and_eq_true, decide_eq_true_eq, decide_eq_true_eq] at h
  exact ⟨UInt32.le_iff_toNat_le.mp h.1, UInt32.le_iff_toNat_le.mp h.2⟩

theorem toNat_digit {n : ℕ} {c : Char} (hc : c ∈ Nat.toDigits 10 n) : (UInt8.ofNat c.toNat).toNat = c.toNat := by
  obtain ⟨-, hle⟩ := isDigit_iff (Nat.isDigit_of_mem_toDigits (by decide) (by decide) hc)
  exact UInt8.toNat_ofNat_of_lt' (Nat.lt_of_le_of_lt hle (by decide))

/-- The digits of a number. -/
theorem mem_decimalBytes {n : ℕ} {b : UInt8} (hb : b ∈ decimalBytes n) : 48 ≤ b.toNat ∧ b.toNat ≤ 57 := by
  obtain ⟨c, hc, rfl⟩ := mem_map.mp hb
  rw [toNat_digit hc]
  exact isDigit_iff (Nat.isDigit_of_mem_toDigits (by decide) (by decide) hc)

/-- **Different numbers** have different digits. -/
theorem decimalBytes_injective : Function.Injective decimalBytes := by
  have hback : ∀ n, (decimalBytes n).map (fun b => Char.ofNat b.toNat) = Nat.toDigits 10 n := by
    intro n
    rw [decimalBytes, map_map]
    refine (map_congr_left fun c hc => ?_).trans (map_id _)
    show Char.ofNat (UInt8.ofNat c.toNat).toNat = c
    rw [toNat_digit hc, Char.ofNat_toNat]
  intro n m h
  have hdigits : Nat.toDigits 10 n = Nat.toDigits 10 m := by rw [← hback, ← hback, h]
  have hvalue := congrArg (fun l => Nat.ofDigitChars 10 l 0) hdigits
  simpa only [Nat.ofDigitChars_toDigits (by decide : 1 < 10) (by decide : 10 ≤ 10)] using hvalue

/-- `"inode_%lu"`. -/
def inodeBase (n : ℕ) : List UInt8 := [105, 110, 111, 100, 101, 95] ++ decimalBytes n

theorem inodeBase_injective : Function.Injective inodeBase :=
  fun _ _ h => decimalBytes_injective (append_cancel_left h)

theorem mem_inodeBase {n : ℕ} {b : UInt8} (hb : b ∈ inodeBase n) : b ≠ slash ∧ b ≠ 0 ∧ b ≠ dot := by
  have hplain : ∀ b ∈ ([105, 110, 111, 100, 101, 95] : List UInt8), b ≠ slash ∧ b ≠ 0 ∧ b ≠ dot := by simp [slash, dot]
  rcases mem_append.mp hb with hb | hb
  · exact hplain b hb
  · obtain ⟨hlo, hhi⟩ := mem_decimalBytes hb
    refine ⟨?_, ?_, ?_⟩ <;> (rintro rfl; revert hlo; decide)

/-- `"dir"` or `"file"`. -/
def inodeExt (isDir : Bool) : List UInt8 := if isDir then [100, 105, 114] else [102, 105, 108, 101]

/-- `"inode_%lu.%s"`. -/
def inodeName (n : ℕ) (isDir : Bool) : Name where
  bytes := inodeBase n ++ dot :: inodeExt isDir
  ne_nil := by simp [inodeBase]
  plain := by
    intro b hb
    have hplain : ∀ b ∈ dot :: inodeExt isDir, b ≠ slash ∧ b ≠ 0 := by cases isDir <;> simp [inodeExt, slash, dot]
    rcases mem_append.mp hb with hb | hb
    · exact ⟨(mem_inodeBase hb).1, (mem_inodeBase hb).2.1⟩
    · exact hplain b hb

/-- A name up to its first dot. -/
def Name.base (n : Name) : List UInt8 := n.bytes.takeWhile (· ≠ dot)

theorem takeWhile_base {l r : List UInt8} (h : ∀ b ∈ l, b ≠ dot) : (l ++ dot :: r).takeWhile (· ≠ dot) = l := by
  rw [takeWhile_append_of_pos fun b hb => decide_eq_true (h b hb), takeWhile_cons_of_neg (by simp), append_nil]

theorem inodeName_base (n : ℕ) (isDir : Bool) : (inodeName n isDir).base = inodeBase n :=
  takeWhile_base fun _ hb => (mem_inodeBase hb).2.2

theorem Name.stem_eq {n : Name} {l r : List UInt8} (h : n.bytes = l ++ dot :: r) (hr : ∀ b ∈ r, b ≠ dot) :
    n.stem = l := by
  have hmem : dot ∈ n.bytes := by
    rw [h]
    exact mem_append_right _ mem_cons_self
  have hdrop : n.bytes.reverse.dropWhile (· ≠ dot) = dot :: l.reverse := by
    rw [h, reverse_append, reverse_cons, append_assoc, dropWhile_append_of_pos, singleton_append,
      dropWhile_cons_of_neg (by simp)]
    exact fun b hb => decide_eq_true (hr b (mem_reverse.mp hb))
  rw [stem, if_pos hmem, hdrop, tail_cons, reverse_reverse]

theorem length_inodeBase {n : ℕ} (h : n < 2 ^ 32) : (inodeBase n).length ≤ 16 := by
  have hdigits : (Nat.toDigits 10 n).length ≤ 10 :=
    (Nat.length_toDigits_le_iff (by decide) (by decide)).mpr (by omega)
  rw [inodeBase, length_append, decimalBytes, length_map]
  exact Nat.add_le_add_left hdigits 6

/-- A name after a detected type is the same up to its first dot. -/
theorem newName_base {n : ℕ} (h : n < 2 ^ 32) (isDir : Bool) (e : Extension) :
    (newName (inodeName n isDir) e).base = inodeBase n := by
  have hstem : (inodeName n isDir).stem = inodeBase n := Name.stem_eq rfl (by cases isDir <;> simp [inodeExt, dot])
  have hlength := length_inodeBase h
  show ((((inodeName n isDir).stem ++ dot :: e.bytes).take 4095).takeWhile (· ≠ dot)) = _
  rw [hstem, take_append, take_of_length_le (by omega),
    show 4095 - (inodeBase n).length = 4094 - (inodeBase n).length + 1 by omega, take_succ_cons]
  exact takeWhile_base fun _ hb => (mem_inodeBase hb).2.2

/-! ## Inodes -/

/-- An inode of the table, and the position of its first block when `ext2fs_bmap2` maps it to one. -/
structure Ext2RawInode where
  iMode : UInt16
  iLinksCount : UInt16
  iSize : UInt32
  iSizeHigh : UInt32
  fileAclHigh : UInt16
  iBlocks : UInt32
  iDtime : UInt32
  iMtime : UInt32
  firstBlock : Option UInt64

namespace Ext2RawInode

variable (r : Ext2RawInode)

/-- `LINUX_S_ISREG`, `LINUX_S_ISDIR`, `LINUX_S_ISLNK`. -/
def isReg : Bool := r.iMode &&& 0o170000 == 0o100000
def isDir : Bool := r.iMode &&& 0o170000 == 0o040000
def isSymlink : Bool := r.iMode &&& 0o170000 == 0o120000

/-- `file_size`. -/
def fileSize : UInt64 := r.iSize.toUInt64 ||| r.fileAclHigh.toUInt64 <<< 32

/-- The inode as `scanner_deep_ext` reads it. -/
def extInode (ino : ℕ) : ExtInode where
  ino := ino
  isReg := r.isReg
  isDir := r.isDir
  isSymlink := r.isSymlink
  size := r.fileSize
  blocks := r.iBlocks
  dtime := r.iDtime
  mtime := r.iMtime.toUInt64
  firstBlock := r.firstBlock

/-- The size of an inode, in 64 bits. -/
def size64 : UInt64 := r.iSize.toUInt64 ||| r.iSizeHigh.toUInt64 <<< 32

/-- The inode has a link and no deletion time. -/
def InUse : Prop := r.iDtime = 0 ∧ r.iLinksCount ≠ 0

/-- A regular file, a directory or a symbolic link. -/
def HasKind : Prop := r.isReg = true ∨ r.isDir = true ∨ r.isSymlink = true

/-- An inode not in use, of one of the three kinds, with a size, blocks or a deletion time. -/
def Freed : Prop := ¬ r.InUse ∧ r.HasKind ∧ (r.size64 ≠ 0 ∨ r.iBlocks ≠ 0 ∨ r.iDtime ≠ 0)

instance : Decidable r.InUse := inferInstanceAs (Decidable (_ ∧ _))
instance : Decidable r.HasKind := inferInstanceAs (Decidable (_ ∨ _))
instance : Decidable r.Freed := inferInstanceAs (Decidable (_ ∧ _))

/-- The two halves of a size. -/
theorem toNat_or_shiftLeft (low high : UInt32) :
    (low.toUInt64 ||| high.toUInt64 <<< 32).toNat = low.toNat + 2 ^ 32 * high.toNat := by
  have hlow := low.toNat_lt
  have hhigh := high.toNat_lt
  rw [UInt64.toNat_or, UInt64.toNat_shiftLeft, UInt32.toNat_toUInt64, UInt32.toNat_toUInt64,
    show (32 : UInt64).toNat % 64 = 32 from rfl, Nat.shiftLeft_eq, Nat.mod_eq_of_lt (by omega), Nat.or_comm,
    Nat.mul_comm, ← Nat.two_pow_add_eq_or_of_lt hlow, Nat.add_comm]

theorem toNat_size64 : r.size64.toNat = r.iSize.toNat + 2 ^ 32 * r.iSizeHigh.toNat := toNat_or_shiftLeft _ _

theorem toNat_fileSize : r.fileSize.toNat = r.iSize.toNat + 2 ^ 32 * r.fileAclHigh.toNat :=
  toNat_or_shiftLeft r.iSize r.fileAclHigh.toUInt32

/-- The size is right if the high half of the ACL block is that of the size. -/
theorem fileSize_eq_iff : r.fileSize = r.size64 ↔ r.fileAclHigh.toUInt32 = r.iSizeHigh := by
  rw [← UInt64.toNat_inj, ← UInt32.toNat_inj, toNat_fileSize, toNat_size64, UInt16.toNat_toUInt32]
  omega

theorem fileSize_eq_zero_iff : r.fileSize = 0 ↔ r.iSize = 0 ∧ r.fileAclHigh = 0 := by
  rw [← UInt64.toNat_inj, ← UInt32.toNat_inj, ← UInt16.toNat_inj, toNat_fileSize]
  simp only [UInt64.toNat_zero, UInt32.toNat_zero, UInt16.toNat_zero]
  omega

end Ext2RawInode

/-! ## The results of a scan -/

/-- A node of `/Deep Scan Results`: its name without what follows the first dot, its status and its size. -/
structure DeepResult where
  name : List UInt8
  deleted : Bool
  size : UInt64
  deriving DecidableEq

namespace ScanTree

/-- What there is in `/Deep Scan Results`. -/
def deepResults (t : ScanTree) : List DeepResult :=
  (t.top.childrenOf deepName).siblings.map fun c => ⟨c.1.base, c.2.deleted, c.2.size⟩

theorem child?_of_results {t : ScanTree} {n : Name} (h : ∀ r ∈ t.deepResults, r.name ≠ n.base) :
    (t.top.childrenOf deepName).child? n = none := by
  rw [Forest.child?_eq_none, ← Forest.map_fst_siblings]
  intro hn
  obtain ⟨c, hc, rfl⟩ := mem_map.mp hn
  exact h _ (mem_map.mpr ⟨c, hc, rfl⟩) rfl

end ScanTree

/-- The item of an inode. -/
theorem ExtInode.item?_some {ss : UInt32} {firstIno : ℕ} {x : ExtInode} {i : ScanItem}
    (h : x.item? ss firstIno = some i) : i.tokens = [deepName, inodeName x.ino x.isDir] ∧
      i.args.size = x.size ∧ i.args.deleted = true ∧ ∃ b, i.kind = .inode b := by
  simp only [ExtInode.item?, Option.ite_none_left_eq_some] at h
  obtain ⟨-, -, -, h⟩ := h
  obtain rfl := Option.some.inj h
  refine ⟨?_, rfl, rfl, _, rfl⟩
  have hpath : deepDir ++ slash :: ([105, 110, 111, 100, 101, 95] ++ decimalBytes x.ino ++
      if x.isDir then [46, 100, 105, 114] else [46, 102, 105, 108, 101]) =
        renderPath [deepName, inodeName x.ino x.isDir] := by
    show _ = slash :: deepName.bytes ++ (slash :: (inodeBase x.ino ++ dot :: inodeExt x.isDir) ++ [])
    rw [append_nil]
    cases x.isDir <;> rfl
  show pathTokens _ = _
  rw [hpath, pathTokens_renderPath]

section Results

variable {env : ScanEnv} {ss : UInt32} {firstIno : ℕ} {t : ScanTree}

variable (env) in
/-- **One inode** adds one result, if there is none of its name. -/
theorem results_scanItem {x : ExtInode} {i : ScanItem} (hi : x.item? ss firstIno = some i) (hino : x.ino < 2 ^ 32)
    (hnew : ∀ r ∈ t.deepResults, r.name ≠ inodeBase x.ino) :
    (t.scanItem env i).deepResults = t.deepResults ++ [⟨inodeBase x.ino, true, x.size⟩] ∧
      ∀ m ≠ deepName, (t.scanItem env i).top.child? m = t.top.child? m := by
  obtain ⟨htokens, hsize, hdeleted, b, hkind⟩ := ExtInode.item?_some hi
  have hchild : (t.top.childrenOf deepName).child? (inodeName x.ino x.isDir) = none :=
    ScanTree.child?_of_results fun r hr => (inodeName_base x.ino x.isDir).symm ▸ hnew r hr
  have hnode : i.newNode env = nodeAlloc i.args := by rw [ScanItem.newNode, ScanItem.follow, hkind]
  -- below the directory the name is the one of the inode, or that one after the detected type
  obtain ⟨n, hbase, hbelow, helse⟩ : ∃ n : Name, n.base = inodeBase x.ino ∧
      (t.scanItem env i).top.childrenOf deepName = (t.top.childrenOf deepName).snoc n (nodeAlloc i.args) .nil ∧
        ∀ m ≠ deepName, (t.scanItem env i).top.child? m = t.top.child? m := by
    have htop := ScanTree.addItem_top env t i
    have hscan : t.scanItem env i =
        (t.addItem env i).renameTo (((t.addItem env i).findPath i.path).bind (i.detected env)) i.tokens := rfl
    rw [htokens, hnode] at htop
    rw [hscan, htokens]
    cases hext : ((t.addItem env i).findPath i.path).bind (i.detected env) with
    | none =>
      refine ⟨inodeName x.ino x.isDir, inodeName_base _ _, ?_⟩
      show (t.addItem env i).top.childrenOf deepName = _ ∧ ∀ m ≠ deepName, (t.addItem env i).top.child? m = _
      rw [htop]
      exact ⟨Forest.childrenOf_insertPath hchild, fun m hm => Forest.child?_insertPath_ne hm _⟩
    | some e =>
      refine ⟨newName (inodeName x.ino x.isDir) e, newName_base hino _ e, ?_⟩
      have heq : ((t.addItem env i).renameTo (some e) [deepName, inodeName x.ino x.isDir]).top =
          (t.addItem env i).top.rename (newName (inodeName x.ino x.isDir) e)
            [deepName, inodeName x.ino x.isDir] := rfl
      rw [heq, htop, Forest.childrenOf_rename, Forest.childrenOf_insertPath hchild, Forest.setName_snoc hchild]
      refine ⟨rfl, fun m hm => ?_⟩
      rw [Forest.child?_rename_ne hm, Forest.child?_insertPath_ne hm]
  refine ⟨?_, helse⟩
  rw [ScanTree.deepResults, hbelow, Forest.siblings_snoc, map_append, map_singleton, hbase]
  show _ ++ [(⟨_, i.args.deleted, i.args.size⟩ : DeepResult)] = _
  rw [hsize, hdeleted]
  rfl

variable (env ss firstIno) in
/-- **A scan of inodes** adds one result for each inode that is kept, in order. -/
theorem results_scan {xs : List ExtInode} (hino : ∀ x ∈ xs, x.ino < 2 ^ 32)
    (hne : xs.Pairwise fun x y => x.ino ≠ y.ino)
    (hnew : ∀ r ∈ t.deepResults, ∀ x ∈ xs, r.name ≠ inodeBase x.ino) :
    (t.scan env (xs.filterMap (ExtInode.item? ss firstIno))).deepResults = t.deepResults ++
        (xs.filter fun x => (x.item? ss firstIno).isSome).map (fun x => ⟨inodeBase x.ino, true, x.size⟩) ∧
      ∀ m ≠ deepName, (t.scan env (xs.filterMap (ExtInode.item? ss firstIno))).top.child? m = t.top.child? m := by
  induction xs generalizing t with
  | nil => exact ⟨(append_nil _).symm, fun _ _ => rfl⟩
  | cons x xs ih =>
    obtain ⟨hx, hne⟩ := pairwise_cons.mp hne
    have hino' : ∀ y ∈ xs, y.ino < 2 ^ 32 := fun y hy => hino y (mem_cons_of_mem x hy)
    cases hitem : x.item? ss firstIno with
    | none =>
      rw [filterMap_cons_none hitem, filter_cons_of_neg (by simp [hitem])]
      exact ih hino' hne fun r hr y hy => hnew r hr y (mem_cons_of_mem x hy)
    | some i =>
      obtain ⟨hresults, helse⟩ :=
        results_scanItem env hitem (hino x mem_cons_self) fun r hr => hnew r hr x mem_cons_self
      have hnew' : ∀ r ∈ (t.scanItem env i).deepResults, ∀ y ∈ xs, r.name ≠ inodeBase y.ino := by
        intro r hr y hy
        rw [hresults] at hr
        rcases mem_append.mp hr with hr | hr
        · exact hnew r hr y (mem_cons_of_mem x hy)
        · obtain rfl := mem_singleton.mp hr
          exact fun h => hx y hy (inodeBase_injective h)
      obtain ⟨hrest, helse'⟩ := ih hino' hne hnew'
      rw [filterMap_cons_some hitem, filter_cons_of_pos (by simp [hitem]), map_cons]
      refine ⟨?_, fun m hm => (helse' m hm).trans (helse m hm)⟩
      exact hrest.trans (by rw [hresults, append_assoc, singleton_append])

end Results

/-! ## Volumes -/

/-- A volume whose inodes are those of a table, from inode `1` on. -/
structure ExtVolume extends ScanVolume where
  table : List Ext2RawInode
  lt : table.length < 2 ^ 32
  inodesCount_eq : inodesCount = table.length
  inodes_eq : inodes = (table.zipIdx 1).map fun c => c.1.extInode c.2

namespace ExtVolume

variable (v : ExtVolume)

/-- The results for the inodes that are not in use, from the first that is not reserved on. -/
def freed : List DeepResult :=
  (v.table.zipIdx 1).filterMap fun c =>
    if v.firstIno ≤ c.2 ∧ c.1.Freed then some ⟨inodeBase c.2, true, c.1.size64⟩ else none

/-- `scanner_deep_ext` adds the inodes that are not in use to a tree that has no results of inodes, and nothing
else. -/
structure ListsFreed : Prop where
  results : ∀ t : ScanTree, (∀ r ∈ t.deepResults, ∀ n, r.name ≠ inodeBase n) →
    (t.scan v.env (v.scannerDeepExt none)).deepResults = t.deepResults ++ v.freed
  elsewhere : ∀ t : ScanTree, (∀ r ∈ t.deepResults, ∀ n, r.name ≠ inodeBase n) →
    ∀ m ≠ deepName, (t.scan v.env (v.scannerDeepExt none)).top.child? m = t.top.child? m

/-- An inode that the scanner treats as it should: there is nothing to add for the last one, an inode in use has no
size, blocks or high half of an ACL block, and in one that is not the high halves agree. -/
def Fits (c : Ext2RawInode × ℕ) : Prop :=
  v.firstIno ≤ c.2 → c.1.HasKind →
    if c.2 = v.inodesCount then ¬ c.1.Freed
    else if c.1.InUse then c.1.iSize = 0 ∧ c.1.fileAclHigh = 0 ∧ c.1.iBlocks = 0
    else c.1.fileAclHigh.toUInt32 = c.1.iSizeHigh

instance (c : Ext2RawInode × ℕ) : Decidable (v.Fits c) := by
  unfold Fits
  infer_instance

/-- What the scanner adds for an inode. -/
def listed (c : Ext2RawInode × ℕ) : Option DeepResult :=
  if c.2 < v.inodesCount ∧ v.firstIno ≤ c.2 ∧ c.1.HasKind ∧ (c.1.fileSize ≠ 0 ∨ c.1.iBlocks ≠ 0 ∨ c.1.iDtime ≠ 0)
  then some ⟨inodeBase c.2, true, c.1.fileSize⟩ else none

variable {v}

theorem mem_zipIdx_one {α : Type*} {l : List α} {c : α × ℕ} (h : c ∈ l.zipIdx 1) : 1 ≤ c.2 ∧ c.2 ≤ l.length := by
  have hsnd : c.2 ∈ (l.zipIdx 1).map Prod.snd := mem_map_of_mem h
  rw [zipIdx_map_snd, mem_range'_1] at hsnd
  omega

theorem nodup_snd (v : ExtVolume) : ((v.table.zipIdx 1).map Prod.snd).Nodup := by
  rw [zipIdx_map_snd]
  exact nodup_range'

theorem isSome_item? (c : Ext2RawInode × ℕ) : ((c.1.extInode c.2).item? v.sectorSize v.firstIno).isSome = true ↔
    v.firstIno ≤ c.2 ∧ c.1.HasKind ∧ (c.1.fileSize ≠ 0 ∨ c.1.iBlocks ≠ 0 ∨ c.1.iDtime ≠ 0) := by
  unfold ExtInode.item? Ext2RawInode.extInode Ext2RawInode.HasKind
  dsimp only
  by_cases hino : c.2 < v.firstIno
  · rw [if_pos hino]
    exact iff_of_false Bool.false_ne_true fun h => absurd h.1 (Nat.not_le.mpr hino)
  by_cases hkind : c.1.isReg = false ∧ c.1.isDir = false ∧ c.1.isSymlink = false
  · rw [if_neg hino, if_pos hkind]
    exact iff_of_false Bool.false_ne_true fun h => by simp [hkind] at h
  by_cases hmeta : c.1.fileSize = 0 ∧ c.1.iBlocks = 0 ∧ c.1.iDtime = 0
  · rw [if_neg hino, if_neg hkind, if_pos hmeta]
    exact iff_of_false Bool.false_ne_true fun h => by simp [hmeta] at h
  · rw [if_neg hino, if_neg hkind, if_neg hmeta]
    refine iff_of_true rfl ⟨Nat.not_lt.mp hino, ?_, ?_⟩
    · by_contra hnone
      exact hkind (by simpa using hnone)
    · by_contra hnone
      exact hmeta (by simpa using hnone)

/-- The inodes that are looked at are all but the last one. -/
theorem scannerDeepExt_eq : v.scannerDeepExt none =
    (((v.table.zipIdx 1).filter fun c => decide (c.2 < v.inodesCount)).map fun c => c.1.extInode c.2).filterMap
      (ExtInode.item? v.sectorSize v.firstIno) := by
  rcases eq_nil_or_concat' v.table with hnil | ⟨init, r, htable⟩
  · rw [ScanVolume.scannerDeepExt, v.inodes_eq, hnil, zipIdx_nil, map_nil]
    simp [upTo]
  · have hcount : v.inodesCount = init.length + 1 := by rw [v.inodesCount_eq, htable, length_append]; rfl
    have hinit : ∀ c ∈ init.zipIdx 1, c.2 < v.inodesCount := by
      intro c hc
      have := (mem_zipIdx_one hc).2
      omega
    have hlast : ((init.zipIdx 1 ++ [(r, 1 + init.length)]).filter fun c => decide (c.2 < v.inodesCount)) =
        init.zipIdx 1 := by
      rw [filter_append, filter_eq_self.mpr fun c hc => decide_eq_true (hinit c hc),
        filter_cons_of_neg (by simp only [decide_eq_true_eq]; omega), filter_nil, append_nil]
    have htotal : (if v.inodesCount = 0 then 1 else v.inodesCount) = v.inodesCount := if_neg (by omega)
    rw [ScanVolume.scannerDeepExt, v.inodes_eq, htable, zipIdx_append, zipIdx_singleton, hlast, map_append,
      map_singleton]
    dsimp only
    rw [htotal, takeWhile_append_of_pos, takeWhile_cons_of_neg, append_nil, take_of_length_le]
    · rfl
    · rw [length_map, length_zipIdx]
      omega
    · intro hlt
      have hlt : 1 + init.length < v.inodesCount := of_decide_eq_true hlt
      omega
    · intro x hx
      obtain ⟨c, hc, rfl⟩ := mem_map.mp hx
      exact decide_eq_true (hinit c hc)

/-- The results of a scan are those that are listed. -/
theorem results_scannerDeepExt {t : ScanTree} (h : ∀ r ∈ t.deepResults, ∀ n, r.name ≠ inodeBase n) :
    (t.scan v.env (v.scannerDeepExt none)).deepResults = t.deepResults ++ (v.table.zipIdx 1).filterMap v.listed ∧
      ∀ m ≠ deepName, (t.scan v.env (v.scannerDeepExt none)).top.child? m = t.top.child? m := by
  have hlt := v.lt
  rw [scannerDeepExt_eq]
  have hino : ∀ x ∈ ((v.table.zipIdx 1).filter fun c => decide (c.2 < v.inodesCount)).map fun c => c.1.extInode c.2,
      x.ino < 2 ^ 32 := by
    intro x hx
    obtain ⟨c, hc, rfl⟩ := mem_map.mp hx
    have hle := (mem_zipIdx_one (mem_filter.mp hc).1).2
    exact Nat.lt_of_le_of_lt hle hlt
  have hne : (((v.table.zipIdx 1).filter fun c => decide (c.2 < v.inodesCount)).map
      fun c => c.1.extInode c.2).Pairwise fun x y => x.ino ≠ y.ino :=
    pairwise_map.mpr ((pairwise_map.mp (nodup_snd v)).sublist filter_sublist)
  obtain ⟨hresults, helse⟩ := results_scan v.env v.sectorSize v.firstIno hino hne fun r hr x _ => h r hr x.ino
  refine ⟨?_, helse⟩
  rw [hresults, filter_map, map_map, filter_filter, ← filterMap_eq_map, filterMap_filter]
  refine congrArg (t.deepResults ++ ·) (filterMap_congr fun c _ => ?_)
  refine if_congr ?_ rfl rfl
  rw [Bool.and_eq_true, decide_eq_true_eq, and_comm]
  exact and_congr_right fun _ => isSome_item? c

theorem freedIf_eq_none_iff {c : Ext2RawInode × ℕ} (hfirst : v.firstIno ≤ c.2) :
    (if v.firstIno ≤ c.2 ∧ c.1.Freed then some (⟨inodeBase c.2, true, c.1.size64⟩ : DeepResult) else none) = none ↔
      ¬ c.1.Freed := by
  rw [ite_eq_right_iff]
  exact ⟨fun h hfreed => Option.some_ne_none _ (h ⟨hfirst, hfreed⟩), fun h hfreed => absurd hfreed.2 h⟩

/-- **What is listed for an inode** is its result when it is not in use, exactly if the inode fits. -/
theorem listed_eq_iff {c : Ext2RawInode × ℕ} (hc : c ∈ v.table.zipIdx 1) :
    v.listed c = (if v.firstIno ≤ c.2 ∧ c.1.Freed then some ⟨inodeBase c.2, true, c.1.size64⟩ else none) ↔
      v.Fits c := by
  have hle : c.2 ≤ v.inodesCount := v.inodesCount_eq ▸ (mem_zipIdx_one hc).2
  unfold Fits
  by_cases hfirst : v.firstIno ≤ c.2
  swap
  · rw [listed, if_neg fun h => hfirst h.2.1, if_neg fun h => hfirst h.1]
    exact iff_of_true rfl fun h => absurd h hfirst
  by_cases hkind : c.1.HasKind
  swap
  · rw [listed, if_neg fun h => hkind h.2.2.1, if_neg fun h => hkind h.2.2.1]
    exact iff_of_true rfl fun _ h => absurd h hkind
  rw [forall_prop_of_true hfirst, forall_prop_of_true hkind]
  rcases Nat.eq_or_lt_of_le hle with hlast | hlt
  · rw [listed, if_neg fun h => absurd h.1 (by omega), if_pos hlast, eq_comm, freedIf_eq_none_iff hfirst]
  rw [if_neg (Nat.ne_of_lt hlt)]
  by_cases huse : c.1.InUse
  · have hnone : ¬ c.1.Freed := fun h => h.1 huse
    rw [if_neg fun h => hnone h.2, if_pos huse, listed, ite_eq_right_iff]
    constructor
    · intro h
      have hmeta : ¬(c.1.fileSize ≠ 0 ∨ c.1.iBlocks ≠ 0 ∨ c.1.iDtime ≠ 0) :=
        fun hmeta => Option.some_ne_none _ (h ⟨hlt, hfirst, hkind, hmeta⟩)
      rw [not_or, not_or, not_not, not_not] at hmeta
      obtain ⟨hsize, hacl⟩ := c.1.fileSize_eq_zero_iff.mp hmeta.1
      exact ⟨hsize, hacl, hmeta.2.1⟩
    · rintro ⟨hsize, hacl, hblocks⟩ ⟨-, -, -, hmeta⟩
      rcases hmeta with h | h | h
      · exact absurd (c.1.fileSize_eq_zero_iff.mpr ⟨hsize, hacl⟩) h
      · exact absurd hblocks h
      · exact absurd huse.1 h
  · rw [if_neg huse, ← c.1.fileSize_eq_iff]
    constructor
    · intro h
      by_contra hne
      -- one of the two sizes is not zero, so the inode is listed on one side, with another size than on the other
      by_cases hzero : c.1.fileSize = 0
      · have hfreed : c.1.Freed := ⟨huse, hkind, .inl fun h0 => hne (hzero.trans h0.symm)⟩
        rw [if_pos ⟨hfirst, hfreed⟩] at h
        obtain ⟨-, hr⟩ := Option.ite_none_right_eq_some.mp h
        exact hne (congrArg DeepResult.size (Option.some.inj hr))
      · rw [listed, if_pos ⟨hlt, hfirst, hkind, .inl hzero⟩] at h
        obtain ⟨-, hr⟩ := Option.ite_none_right_eq_some.mp h.symm
        exact hne (congrArg DeepResult.size (Option.some.inj hr)).symm
    · intro h
      rw [listed, h]
      exact if_congr ⟨fun h => ⟨h.2.1, huse, h.2.2⟩, fun h => ⟨hlt, h.1, h.2.2⟩⟩ rfl rfl

/-- **Exactly the inodes that are not in use are listed**, with their sizes, if every inode of the table fits. -/
theorem listsFreed_iff (v : ExtVolume) : v.ListsFreed ↔ ∀ c ∈ v.table.zipIdx 1, v.Fits c := by
  have hselect : (v.table.zipIdx 1).filterMap v.listed = v.freed ↔ ∀ c ∈ v.table.zipIdx 1, v.Fits c := by
    rw [freed, filterMap_eq_iff (fun c => inodeBase c.2) DeepResult.name]
    · exact forall₂_congr fun c hc => listed_eq_iff hc
    · exact fun c hc c' hc' heq => inj_on_of_nodup_map (nodup_snd v) hc hc' (inodeBase_injective heq)
    · intro c _ r hr
      obtain ⟨-, hr⟩ := Option.ite_none_right_eq_some.mp hr
      exact congrArg DeepResult.name (Option.some.inj hr).symm
    · intro c _ r hr
      obtain ⟨-, hr⟩ := Option.ite_none_right_eq_some.mp hr
      exact congrArg DeepResult.name (Option.some.inj hr).symm
  rw [← hselect]
  constructor
  · intro h
    have hnone : ∀ r ∈ treeNew.deepResults, ∀ n, r.name ≠ inodeBase n := fun r hr => by cases hr
    have hresults := (results_scannerDeepExt hnone).1.symm.trans (h.results treeNew hnone)
    exact append_cancel_left hresults
  · intro h
    exact ⟨fun t ht => h ▸ (results_scannerDeepExt ht).1, fun t ht => (results_scannerDeepExt ht).2⟩

end ExtVolume

/-! ## A file in use -/

/-- The inodes of a volume on which inode `12` is a file of 100 bytes, with a link. -/
def liveTable : List Ext2RawInode :=
  replicate 11 ⟨0, 0, 0, 0, 0, 0, 0, 0, none⟩ ++
    [⟨0o100644, 1, 100, 0, 0, 2, 0, 7, none⟩, ⟨0, 0, 0, 0, 0, 0, 0, 0, none⟩]

/-- The volume, otherwise as the one with one inode. -/
def liveScan : ScanVolume :=
  { oneInode none with
    inodes := (liveTable.zipIdx 1).map fun c => c.1.extInode c.2
    inodesCount := 13 }

theorem liveTable_lt : liveTable.length < 2 ^ 32 := by decide

theorem liveScan_inodesCount : liveScan.inodesCount = liveTable.length := rfl

theorem liveScan_inodes : liveScan.inodes = (liveTable.zipIdx 1).map fun c => c.1.extInode c.2 := rfl

def liveVolume : ExtVolume := ⟨liveScan, liveTable, liveTable_lt, liveScan_inodesCount, liveScan_inodes⟩

/-- The file is listed among the deleted ones. -/
theorem liveVolume_not_listsFreed : ¬ liveVolume.ListsFreed := by
  intro h
  have hresults := h.results treeNew fun r hr => by cases hr
  revert hresults
  decide +kernel

end RecoveryQt
