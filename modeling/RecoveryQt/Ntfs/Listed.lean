import Mathlib.Algebra.BigOperators.Ring.List
import RecoveryQt.Lib.BitSweep
import RecoveryQt.Ntfs.Undelete

/-!
# The streams that the scan lists

* **`scanBitmap_listed`**: the free records are visited, in their order;
* `listValue`, `named`, `dataEntries_flatten`, `attrListBuf_eq`: attribute lists;
* `IsPiece`, `FullSize`, `ListsStreams`: the streams of a file, and that each is listed once with its size;
* `Unsplit`: no stream is in two places; **`listsStreams_iff`**: the streams are listed exactly then;
* **`scansOnce_iff`**: the whole scan; `listedVolume`: a file that is listed twice.
-/

namespace RecoveryQt

open List

/-- A list that is resident, or has at most 256 KiB, all of them in clusters. -/
def AttrList.Regular (clusterSize : ℕ) : AttrList → Prop
  | .resident _ => True
  | .nonResident dataSize rl => 0 < dataSize ∧ dataSize ≤ 256 * 1024 ∧ ∃ l, rl = some l ∧
      (∀ r ∈ l.runs, ∃ lcn, r.1 = .at lcn) ∧ dataSize.toNat ≤ (l.runs.map Prod.snd).sum * clusterSize

namespace MftVolume

variable {vol : MftVolume}

/-! ## The records that are visited -/

variable (vol) in
/-- The bit of a record is set. -/
def isSet (n : ℕ) : Bool := (vol.bitmap (n / 8)).toNat.testBit (n % 8)

variable (vol) in
/-- The records that have a bit, which is not set. -/
def free : List ℕ := (range (min (8 * vol.bitmapSize) vol.nrMftRecords)).filter fun n => !vol.isSet n

section Scan

variable {β : Type*} {f : ℕ → List β}

variable (vol f) in
/-- What is done for a record. -/
def visit (n : ℕ) : List β := if vol.isSet n then [] else f n

theorem flatMap_visit (l : List ℕ) : l.flatMap (vol.visit f) = (l.filter fun n => !vol.isSet n).flatMap f := by
  induction l with
  | nil => rfl
  | cons n l ih =>
    rw [flatMap_cons, ih, filter_cons, visit]
    cases vol.isSet n <;> simp

/-- **The free records are visited**, if the bitmap can be read. -/
theorem scanBitmap_listed (hreads : ∀ i, vol.bitmapBad i = false) : (vol.scanBitmap f).listed = vol.free.flatMap f := by
  have hbits := sweepBitmap_listed vol.nrMftRecords (fun n used => if used then [] else f n) vol.bitmap
    (show 0 < 8192 by decide) vol.bitmapSize hreads
  exact hbits.trans (flatMap_visit _)

theorem visited_eq (hreads : ∀ i, vol.bitmapBad i = false) : vol.visited = vol.free := by
  rw [visited, scanBitmap_listed hreads]
  exact flatMap_pure_eq_map _ _ |>.trans (map_id' _)

end Scan

/-! ## Attribute lists -/

variable (vol) in
/-- The content of a run, with zeros in a hole. -/
def runValue : NtfsLcn × ℕ → List UInt8
  | (.at lcn, n) => (range n).flatMap fun j => (vol.cluster (lcn + j)).getD (replicate vol.clusterSize 0)
  | (.hole, n) => replicate (n * vol.clusterSize) 0
  | (.notMapped, n) => replicate (n * vol.clusterSize) 0

variable (vol) in
/-- The value of an attribute list. -/
def listValue : AttrList → List UInt8
  | .resident value => value
  | .nonResident dataSize rl => ((rl.elim [] RunList.runs).flatMap vol.runValue).take dataSize.toNat

variable (vol) in
/-- The records that the attribute list of a record names for data attributes. -/
def named (rec : MftRecord) : List ℕ := (rec.attributeList.map fun l => dataEntries (vol.listValue l)).getD []

/-- The entries of a list, each with its length. -/
theorem dataEntries_flatten {l : List (List UInt8)} (h : ∀ e ∈ l, 26 ≤ e.length ∧ numAt e 4 2 = e.length) :
    dataEntries l.flatten =
      (l.filter fun e => numAt e 0 4 = atData).map fun e => mref (UInt64.ofNat (numAt e 16 8)) := by
  induction l with
  | nil =>
    rw [flatten_nil, dataEntries]
    rfl
  | cons e l ih =>
    obtain ⟨hlen, hfield⟩ := h e mem_cons_self
    have hnum : ∀ i n, i + n ≤ 26 → numAt (e ++ l.flatten) i n = numAt e i n := by
      intro i n hin
      rw [numAt, drop_append_of_le_length (by omega), take_append_of_le_length (by rw [length_drop]; omega), numAt]
    rw [flatten_cons, dataEntries, if_neg (by rw [length_append]; omega)]
    dsimp only
    rw [hnum 4 2 (by omega), hfield, if_neg (by rw [length_append]; omega), hnum 0 4 (by omega), hnum 16 8 (by omega),
      drop_left, ih fun e' he' => h e' (mem_cons_of_mem _ he'), filter_cons]
    by_cases hdata : numAt e 0 4 = atData
    · rw [if_pos hdata, if_pos (decide_eq_true hdata)]
      rfl
    · rw [if_neg hdata, if_neg (by rwa [decide_eq_true_eq])]
      rfl

theorem take_take_append {α : Type*} (k : ℕ) (l r : List α) : (l.take k ++ r).take k = (l ++ r).take k := by
  rw [take_append, take_append, take_take, min_self, length_take]
  congr 2
  omega

section Clusters

variable (hclusters : ∀ lcn, (vol.cluster lcn).isSome)

include hclusters

theorem readRun_eq (total lcn n : ℕ) {buf : List UInt8} (hbuf : buf.length ≤ total) :
    vol.readRun total lcn n buf = (buf ++ vol.runValue (.at lcn, n)).take total := by
  induction n generalizing lcn buf with
  | zero =>
    show buf = (buf ++ []).take total
    rw [append_nil, take_of_length_le hbuf]
  | succ n ih =>
    obtain ⟨c, hc⟩ := Option.isSome_iff_exists.mp (hclusters lcn)
    have hrun : vol.runValue (.at lcn, n + 1) = c ++ vol.runValue (.at (lcn + 1), n) := by
      rw [runValue, range_succ_eq_map, flatMap_cons, flatMap_map, Nat.add_zero, hc, runValue]
      simp only [Nat.succ_eq_add_one, Nat.add_right_comm lcn 1, Nat.add_assoc, Option.getD_some]
    rw [readRun]
    split_ifs with hfull
    · rw [take_append_of_le_length hfull, take_of_length_le hbuf]
    · rw [hc]
      dsimp only
      have htail : ∀ x y : List UInt8, x.take (total - buf.length) = y.take (total - buf.length) →
          (buf ++ x).take total = (buf ++ y).take total := fun x y hxy => by rw [take_append, take_append, hxy]
      rw [ih (lcn + 1) (by rw [length_append, length_take]; omega), hrun, append_assoc]
      exact htail _ _ (take_take_append _ _ _)

theorem readRuns_eq (total : ℕ) {l : List (NtfsLcn × ℕ)} (hl : ∀ r ∈ l, ∃ lcn, r.1 = .at lcn) {buf : List UInt8}
    (hbuf : buf.length ≤ total) : vol.readRuns total l buf = (buf ++ l.flatMap vol.runValue).take total := by
  induction l generalizing buf with
  | nil =>
    show buf = (buf ++ []).take total
    rw [append_nil, take_of_length_le hbuf]
  | cons r l ih =>
    obtain ⟨x, n⟩ := r
    obtain ⟨lcn, rfl⟩ := hl (x, n) mem_cons_self
    rw [readRuns, readRun_eq hclusters total lcn n hbuf, flatMap_cons, ← append_assoc]
    split_ifs with hfull
    · rw [length_take] at hfull
      exact (take_append_of_le_length (by omega)).symm
    · rw [length_take] at hfull
      have hle : (buf ++ vol.runValue (.at lcn, n)).length ≤ total := by omega
      rw [take_of_length_le hle]
      exact ih (fun r hr => hl r (mem_cons_of_mem _ hr)) (by omega)

theorem length_runValue (r : NtfsLcn × ℕ) : (vol.runValue r).length = r.2 * vol.clusterSize := by
  obtain ⟨x, n⟩ := r
  cases x with
  | «at» lcn =>
    have hlen : ∀ j, ((vol.cluster (lcn + j)).getD (replicate vol.clusterSize 0)).length = vol.clusterSize := by
      intro j
      obtain ⟨c, hc⟩ := Option.isSome_iff_exists.mp (hclusters (lcn + j))
      rw [hc]
      exact vol.length_cluster _ c hc
    rw [runValue, length_flatMap]
    simp only [hlen, map_const', length_range, sum_replicate_nat]
  | hole => exact length_replicate
  | notMapped => exact length_replicate

/-- **A regular list is read whole.** -/
theorem attrListBuf_eq {l : AttrList} (h : l.Regular vol.clusterSize) : vol.attrListBuf l = some (vol.listValue l) := by
  cases l with
  | resident value => rfl
  | nonResident dataSize rl =>
    obtain ⟨hpos, hle, l, rfl, hruns, hcover⟩ := h
    have hlen : (l.runs.flatMap vol.runValue).length = (l.runs.map Prod.snd).sum * vol.clusterSize := by
      rw [length_flatMap, ← sum_map_mul_right]
      exact congrArg List.sum (map_congr_left fun r _ => length_runValue hclusters r)
    have hpos' : 0 < dataSize.toNat := hpos
    have hnil : ([] : List UInt8).length ≤ dataSize.toNat := Nat.zero_le _
    have hbuf := readRuns_eq hclusters dataSize.toNat hruns hnil
    rw [nil_append] at hbuf
    have hne : ¬(l.runs = [] ∨ vol.readRuns dataSize.toNat l.runs [] = []) := by
      have hread : vol.readRuns dataSize.toNat l.runs [] ≠ [] := by
        rw [← length_pos_iff, hbuf, length_take]
        omega
      rintro (hnil | hnil)
      · rw [hnil] at hread
        exact hread rfl
      · exact hread hnil
    have hsize : ¬(dataSize = 0 ∨ 256 * 1024 < dataSize) := by
      rintro (rfl | hlt)
      · exact absurd hpos (UInt64.lt_irrefl _)
      · exact absurd hle (UInt64.not_le.mpr hlt)
    rw [attrListBuf, if_neg hsize]
    dsimp only
    rw [if_neg hne, hbuf, length_take, Nat.min_eq_left (by omega), Nat.sub_self, replicate_zero, append_nil]
    rfl

theorem followed_eq_named {rec : MftRecord} (h : ∀ l ∈ rec.attributeList, l.Regular vol.clusterSize) :
    vol.followed rec = vol.named rec := by
  rw [followed, named]
  cases hlist : rec.attributeList with
  | none => rfl
  | some l =>
    rw [Option.bind_some, attrListBuf_eq hclusters (h l hlist)]
    rfl

end Clusters

/-! ## Streams -/

variable (vol) in
/-- The names of the streams with data in a record. -/
def names (n : ℕ) : List (List UInt16) := (vol.getData n).map DataAttr.uname

variable (vol) in
/-- A data attribute of the file with this base record: in the record itself, or in one that its attribute list names. -/
def IsPiece (n : ℕ) (d : DataAttr) : Prop :=
  ∃ rec, vol.record n = some rec ∧ rec.baseRecord = 0 ∧ ∃ m ∈ n :: vol.named rec, d ∈ vol.getData m

variable (vol) in
/-- The size of a stream of the file is that of the attribute with which it begins. -/
def FullSize (n : ℕ) (name : List UInt16) (size : UInt64) : Prop :=
  ∃ d, vol.IsPiece n d ∧ d.uname = name ∧ d.content.Starts ∧ d.content.sizeData = size

variable (vol) in
/-- There is exactly one entry for each stream of the file, which has its full size. -/
structure ListsStreams (n : ℕ) : Prop where
  once : ((vol.added n).map Prod.fst).Nodup
  all : ∀ name, name ∈ (vol.added n).map Prod.fst ↔ ∃ d, vol.IsPiece n d ∧ d.uname = name
  size : ∀ e ∈ vol.added n, vol.FullSize n e.1 e.2.stSize

variable (vol) in
/-- The record is a base record. No two data attributes of the records that are followed have the same name, be they in one
record or in two (a record with data is not followed twice, and the list does not name the base record); they are of all
streams that the list names; and each has, as the larger one of its sizes, that of its stream. -/
structure Unsplit (n : ℕ) (rec : MftRecord) : Prop where
  base : rec.baseRecord = 0
  own : ∀ m ∈ n :: vol.followed rec, (vol.names m).Nodup
  apart : (n :: vol.followed rec).Pairwise fun m m' => Disjoint (vol.names m) (vol.names m')
  listed : ∀ name, (∃ m ∈ n :: vol.followed rec, name ∈ vol.names m) ↔ ∃ m ∈ n :: vol.named rec, name ∈ vol.names m
  sized : ∀ m ∈ n :: vol.followed rec, ∀ d ∈ vol.getData m,
    vol.FullSize n d.uname (max d.content.sizeInit d.content.sizeData)

section Streams

variable {n : ℕ} {rec : MftRecord}

/-- The data of a file. -/
theorem data_ufile (hrec : vol.record n = some rec) :
    (vol.ufile n rec).data = (n :: vol.followed rec).flatMap vol.getData := by
  rw [flatMap_cons, getData, hrec]
  show rec.data ++ _ = rec.data ++ _
  split_ifs with hlist
  · rfl
  · have hnone : rec.attributeList = none := by
      rw [← Option.not_isSome_iff_eq_none]
      exact fun h => hlist (.inl h)
    rw [followed, hnone]
    rfl

/-- What is added for a record of which something can be recovered. -/
theorem added_eq (hrec : vol.record n = some rec) (hpercent : 0 < vol.percent n) :
    (vol.ufile n rec).data ≠ [] ∧
      vol.added n = (vol.ufile n rec).data.map fun d => (d.uname, vol.ufileToFileData (vol.ufile n rec) d) := by
  unfold percent at hpercent
  unfold added
  cases hread : vol.readRecord n with
  | none =>
    rw [hread] at hpercent
    cases hpercent
  | some file =>
    rw [hread] at hpercent
    have hfile : file = vol.ufile n rec := by
      rw [readRecord, hrec, Option.bind_some] at hread
      split_ifs at hread
      exact (Option.some.inj hread).symm
    subst hfile
    refine ⟨fun hnil => ?_, if_pos hpercent⟩
    change 0 < vol.calcPercentage _ at hpercent
    rw [calcPercentage, if_pos (.inr hnil)] at hpercent
    exact absurd hpercent (lt_irrefl 0)

theorem names_added (hrec : vol.record n = some rec) (hpercent : 0 < vol.percent n) :
    (vol.added n).map Prod.fst = (n :: vol.followed rec).flatMap vol.names := by
  rw [(added_eq hrec hpercent).2, map_map, data_ufile hrec, map_flatMap]
  rfl

theorem mem_names {m : ℕ} {name : List UInt16} : name ∈ vol.names m ↔ ∃ d ∈ vol.getData m, d.uname = name := mem_map

theorem exists_isPiece_iff (hrec : vol.record n = some rec) (name : List UInt16) :
    (∃ d, vol.IsPiece n d ∧ d.uname = name) ↔ rec.baseRecord = 0 ∧ ∃ m ∈ n :: vol.named rec, name ∈ vol.names m := by
  constructor
  · rintro ⟨d, ⟨rec', hrec', hbase, m, hm, hd⟩, rfl⟩
    obtain rfl := Option.some.inj (hrec.symm.trans hrec')
    exact ⟨hbase, m, hm, mem_map_of_mem hd⟩
  · rintro ⟨hbase, m, hm, hname⟩
    obtain ⟨d, hd, rfl⟩ := mem_names.mp hname
    exact ⟨d, ⟨rec, hrec, hbase, m, hm, hd⟩, rfl⟩

/-- **The streams of a file are listed** exactly if none of them is in two places. -/
theorem listsStreams_iff (hrec : vol.record n = some rec) (hpercent : 0 < vol.percent n) :
    vol.ListsStreams n ↔ vol.Unsplit n rec := by
  obtain ⟨hdata, hadded⟩ := added_eq hrec hpercent
  have hnames := names_added hrec hpercent
  have hsize : (∀ e ∈ vol.added n, vol.FullSize n e.1 e.2.stSize) ↔ ∀ m ∈ n :: vol.followed rec, ∀ d ∈ vol.getData m,
      vol.FullSize n d.uname (max d.content.sizeInit d.content.sizeData) := by
    rw [hadded, data_ufile hrec, forall_mem_map, forall_mem_flatMap]
    rfl
  constructor
  · rintro ⟨honce, hall, hsized⟩
    rw [hnames, nodup_flatMap] at honce
    simp only [hnames, mem_flatMap, exists_isPiece_iff hrec] at hall
    -- there is an entry, so the file has a stream
    obtain ⟨d, hd⟩ := exists_mem_of_ne_nil _ hdata
    rw [data_ufile hrec, mem_flatMap] at hd
    obtain ⟨m, hm, hd⟩ := hd
    have hbase := ((hall d.uname).mp ⟨m, hm, mem_map_of_mem hd⟩).1
    exact ⟨hbase, honce.1, honce.2, fun name => (hall name).trans (and_iff_right hbase), hsize.mp hsized⟩
  · intro h
    refine ⟨?_, fun name => ?_, hsize.mpr h.sized⟩
    · rw [hnames, nodup_flatMap]
      exact ⟨h.own, h.apart⟩
    · rw [hnames, mem_flatMap, exists_isPiece_iff hrec, and_iff_right h.base]
      exact h.listed name

theorem max_eq_size_iff (init size : UInt64) : max init size = size ↔ init ≤ size := by
  show (if init ≤ size then size else init) = size ↔ init ≤ size
  split_ifs with hle
  · exact iff_of_true rfl hle
  · exact iff_of_false (fun heq => hle (UInt64.le_of_eq heq)) hle

/-- With a regular list, the attributes are the beginnings of their streams, and initialized to their size at most. -/
theorem unsplit_iff_of_regular (hclusters : ∀ lcn, (vol.cluster lcn).isSome)
    (hregular : ∀ l ∈ rec.attributeList, l.Regular vol.clusterSize) (hrec : vol.record n = some rec) :
    vol.Unsplit n rec ↔ rec.baseRecord = 0 ∧ ((n :: vol.named rec).flatMap vol.names).Nodup ∧
      ∀ m ∈ n :: vol.named rec, ∀ d ∈ vol.getData m, d.content.Starts ∧ d.content.sizeInit ≤ d.content.sizeData := by
  have hfollowed := followed_eq_named hclusters hregular
  constructor
  · rintro ⟨hbase, hown, hapart, -, hsized⟩
    rw [hfollowed] at hown hapart hsized
    have hnodup : ((n :: vol.named rec).flatMap vol.names).Nodup := nodup_flatMap.mpr ⟨hown, hapart⟩
    refine ⟨hbase, hnodup, fun m hm d hd => ?_⟩
    obtain ⟨d', ⟨rec', hrec', -, m', hm', hd'⟩, hname, hstarts, hmax⟩ := hsized m hm d hd
    obtain rfl := Option.some.inj (hrec.symm.trans hrec')
    -- the attribute with which the stream begins is this one
    have hmap : (((n :: vol.named rec).flatMap vol.getData).map DataAttr.uname).Nodup := by
      rw [map_flatMap]
      exact hnodup
    obtain rfl := inj_on_of_nodup_map hmap (mem_flatMap.mpr ⟨m', hm', hd'⟩) (mem_flatMap.mpr ⟨m, hm, hd⟩) hname
    exact ⟨hstarts, (max_eq_size_iff _ _).mp hmax.symm⟩
  · rintro ⟨hbase, hnodup, hwhole⟩
    obtain ⟨hown, hapart⟩ := nodup_flatMap.mp hnodup
    refine ⟨hbase, hfollowed ▸ hown, hfollowed ▸ hapart, fun name => by rw [hfollowed], fun m hm d hd => ?_⟩
    rw [hfollowed] at hm
    obtain ⟨hstarts, hle⟩ := hwhole m hm d hd
    exact ⟨d, ⟨rec, hrec, hbase, m, hm, hd⟩, rfl, hstarts, ((max_eq_size_iff _ _).mpr hle).symm⟩

end Streams

/-! ## The scan -/

variable (vol) in
/-- The scan visits the free records, and lists exactly what is added for them, which is each stream once. -/
structure ScansOnce : Prop where
  visits : vol.visited = vol.free
  lists : vol.scanDisk.Perm ((vol.free.flatMap vol.added).map Prod.snd)
  streams : ∀ n ∈ vol.free, 0 < vol.percent n → vol.ListsStreams n

/-- **The scan lists each stream once**, with its full size, exactly if no record of which something can be recovered has a
stream in two places. -/
theorem scansOnce_iff (vol : MftVolume) (hreads : ∀ i, vol.bitmapBad i = false) :
    vol.ScansOnce ↔ ∀ n ∈ vol.free, 0 < vol.percent n → ∀ rec ∈ vol.record n, vol.Unsplit n rec := by
  have hlists : vol.scanDisk.Perm ((vol.free.flatMap vol.added).map Prod.snd) := by
    rw [scanDisk, scanBitmap_listed hreads]
    exact mergeSort_perm _ _
  constructor
  · exact fun h n hn hpercent rec hrec => (listsStreams_iff hrec hpercent).mp (h.streams n hn hpercent)
  · refine fun h => ⟨visited_eq hreads, hlists, fun n hn hpercent => ?_⟩
    cases hrec : vol.record n with
    | none =>
      rw [percent, readRecord, hrec] at hpercent
      cases hpercent
    | some rec => exact (listsStreams_iff hrec hpercent).mpr (h n hn hpercent rec hrec)

/-! ## A file with an attribute list -/

/-- An entry of an attribute list for the unnamed data attribute of a record. -/
def dataEntry (reference : ℕ) : List UInt8 :=
  leBytes 4 atData ++ leBytes 2 32 ++ [0, 26] ++ leBytes 8 0 ++ leBytes 8 reference ++ leBytes 8 0

/-- A record in use. -/
def usedRecord : MftRecord := ⟨true, 1, true, 0, some 0, none, false, []⟩

/-- The record of a deleted file of four bytes. -/
def deletedRecord (list : Option AttrList) : MftRecord :=
  ⟨true, 3, false, 0, some 0, list, false, [⟨[], false, false, .resident (ascii "text")⟩]⟩

theorem length_zeroCluster (lcn : ℕ) : ∀ c ∈ (fun _ => some (replicate 4096 0) : ℕ → Option (List UInt8)) lcn,
    c.length = 4096 := by
  rintro c ⟨⟩
  exact length_replicate

/-- A volume with 64 records, of which the record 40 is free. -/
def deletedVolume (list : Option AttrList) : MftVolume where
  bitmapSize := 8
  bitmap := fun i => if i = 5 then 0xFE else 0xFF
  bitmapBad := fun _ => false
  mftSize := 65536
  recordSizeBits := 10
  record := fun n => some (if n = 40 then deletedRecord list else usedRecord)
  fileNames := fun _ => (some (ascii "note"), none)
  clusterSize := 4096
  cluster := fun _ => some (replicate 4096 0)
  length_cluster := length_zeroCluster
  clusterInUse := fun _ => false
  ucstombs := fun _ => none

theorem free_deletedVolume (list : Option AttrList) : (deletedVolume list).free = [40] := by
  show (range (min (8 * 8) (65536 / 2 ^ 10))).filter
    (fun n => !(if n / 8 = 5 then 0xFE else 0xFF : UInt8).toNat.testBit (n % 8)) = [40]
  decide +kernel

/-- Without an attribute list, the file is listed once. -/
theorem deletedVolume_scansOnce : (deletedVolume none).ScansOnce := by
  refine (scansOnce_iff (deletedVolume none) fun _ => rfl).mpr fun n hn _ rec hrec => ?_
  rw [free_deletedVolume, mem_singleton] at hn
  subst hn
  obtain rfl := Option.some.inj hrec
  have hregular : ∀ l ∈ (deletedRecord none).attributeList, l.Regular 4096 := by rintro l ⟨⟩
  refine (unsplit_iff_of_regular (fun _ => rfl) hregular rfl).mpr ⟨rfl, by decide, fun m hm d hd => ?_⟩
  obtain rfl := mem_singleton.mp hm
  obtain rfl := mem_singleton.mp hd
  exact ⟨trivial, by decide⟩

/-- The attribute list names the record itself. -/
def listedVolume : MftVolume := deletedVolume (some (.resident (dataEntry (40 + 3 * 2 ^ 48))))

/-- Its file is listed twice. -/
theorem listedVolume_not_scansOnce : (∀ i, listedVolume.bitmapBad i = false) ∧ ¬ listedVolume.ScansOnce := by
  refine ⟨fun _ => rfl, fun h => ?_⟩
  have hfree : 40 ∈ listedVolume.free := by
    rw [listedVolume, free_deletedVolume]
    exact mem_singleton_self 40
  have htwice : (listedVolume.added 40).map Prod.fst = [[], []] := by decide +kernel
  have honce := (h.streams 40 hfree (by decide +kernel)).once
  rw [htwice] at honce
  exact absurd honce (by decide)

end MftVolume

end RecoveryQt
