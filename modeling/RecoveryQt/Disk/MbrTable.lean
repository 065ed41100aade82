import RecoveryQt.Disk.MbrEntries

/-!
# A partition table of a PC that is written

* `PartitionStruct.Fits`, `MbrTable`: the partitions of a table, in the order of the list;
* `ptOffset_logBuffer`, `logRecord_on`: a record that is written, and found;
* `logChain`, `LogsFrom`: the records of the logical partitions, and the room that they have;
* `LogsFrom.next`, **`LogsFrom.records`**: where they go;
* `RecordsWritten`, **`writeLogLoop_written`**: what the loop leaves on the disk.
-/

namespace RecoveryQt

open List hiding Vector
open PartitionStruct

/-- A partition whose place fits in an entry. -/
structure PartitionStruct.Fits (sectorSize : ℕ) (p : PartitionStruct) : Prop where
  used : p.partTypeI386 ≠ 0
  byte : p.partTypeI386.toNat < 256
  nonempty : 0 < p.partSize.toNat
  behind_first : sectorSize ≤ p.partOffset.toNat
  start : sectorSize ∣ p.partOffset.toNat
  size : sectorSize ∣ p.partSize.toNat
  stop : p.stop ≤ 2 ^ 32 * sectorSize

instance PartitionStruct.decidableFits (sectorSize : ℕ) (p : PartitionStruct) : Decidable (p.Fits sectorSize) :=
  decidable_of_iff (p.partTypeI386 ≠ 0 ∧ p.partTypeI386.toNat < 256 ∧ 0 < p.partSize.toNat ∧
      sectorSize ≤ p.partOffset.toNat ∧ sectorSize ∣ p.partOffset.toNat ∧ sectorSize ∣ p.partSize.toNat ∧
      p.stop ≤ 2 ^ 32 * sectorSize)
    ⟨fun ⟨h1, h2, h3, h4, h5, h6, h7⟩ => ⟨h1, h2, h3, h4, h5, h6, h7⟩,
      fun ⟨h1, h2, h3, h4, h5, h6, h7⟩ => ⟨h1, h2, h3, h4, h5, h6, h7⟩⟩

/-- The partitions of a table, as they stand in the list: the logical ones are directly behind the extended one. -/
structure MbrTable (geom : ChsGeometry) (sectorSize : ℕ) where
  front : List PartitionStruct
  ext : Option PartitionStruct
  logs : List PartitionStruct
  back : List PartitionStruct
  primary : ∀ p ∈ front ++ back, (p.status = .prim ∨ p.status = .primBoot) ∧ isExtendedType p.partTypeI386 = false
  extended : ∀ e ∈ ext, e.status = .ext ∧ isExtendedType e.partTypeI386 = true
  logical : ∀ p ∈ logs, p.status = .log ∧ isExtendedType p.partTypeI386 = false
  fits : ∀ p ∈ front ++ ext.toList ++ logs ++ back, p.Fits sectorSize
  orders : ∀ p ∈ front ++ ext.toList ++ back, 1 ≤ p.order ∧ p.order ≤ 4
  orders_nodup : ((front ++ ext.toList ++ back).map PartitionStruct.order).Nodup
  places_nodup : ((front ++ ext.toList ++ logs ++ back).map place).Nodup
  inside : ∀ p ∈ logs, ∃ e ∈ ext, e.partOffset.toNat + sectorSize ≤ p.partOffset.toNat ∧ p.stop ≤ e.stop
  apart : logs.Pairwise fun p q => p.stop + sectorSize ≤ q.partOffset.toNat
  heads : ∀ q ∈ logs.tail, geom.sectorsPerHead * sectorSize ≤ q.partOffset.toNat

/-- The list of a table. -/
def MbrTable.list {geom : ChsGeometry} {sectorSize : ℕ} (t : MbrTable geom sectorSize) : List PartitionStruct :=
  t.front ++ t.ext.toList ++ t.logs ++ t.back

namespace PartitionStruct.Fits

variable {ss : ℕ} {p : PartitionStruct}

theorem proper (h : p.Fits ss) (hss : ss < 2 ^ 32) : p.Proper := by
  have hstop := h.stop
  have hle : 2 ^ 32 * ss ≤ 2 ^ 32 * 2 ^ 32 := Nat.mul_le_mul_left _ hss.le
  exact ⟨UInt64.le_iff_toNat_le.mpr h.nonempty, by omega⟩

theorem sysInd_ne_zero (h : p.Fits ss) : p.partTypeI386.toUInt8 ≠ 0 := by
  intro h0
  have hmod : p.partTypeI386.toNat % 256 = 0 := by rw [← UInt32.toNat_toUInt8, h0]; rfl
  rw [Nat.mod_eq_of_lt h.byte] at hmod
  exact h.used (UInt32.toNat_inj.mp hmod)

theorem isExtended_sysInd (h : p.Fits ss) : isExtended p.partTypeI386.toUInt8 = isExtendedType p.partTypeI386 := by
  have hiff : ∀ n : ℕ, n < 256 → (p.partTypeI386.toUInt8 = UInt8.ofNat n ↔ p.partTypeI386 = UInt32.ofNat n) := by
    intro n hn
    rw [← UInt8.toNat_inj, ← UInt32.toNat_inj, UInt32.toNat_toUInt8, Nat.mod_eq_of_lt h.byte, UInt8.toNat_ofNat',
      UInt32.toNat_ofNat', Nat.mod_eq_of_lt hn, Nat.mod_eq_of_lt (by omega)]
  rw [isExtended, isExtendedType]
  simp only [show (0x0F : UInt8) = UInt8.ofNat 15 from rfl, show (0x05 : UInt8) = UInt8.ofNat 5 from rfl,
    show (0x85 : UInt8) = UInt8.ofNat 133 from rfl, hiff 15 (by decide), hiff 5 (by decide), hiff 133 (by decide)]
  rfl

end PartitionStruct.Fits

/-! ## A record -/

/-- A part of a range. -/
theorem slice_of_slice {α : Type*} {g g' : ℕ → α} {a b n : ℕ} (h : slice g a n = slice g' b n) {i k : ℕ} (hik : i + k ≤ n) :
    slice g (a + i) k = slice g' (b + i) k := by
  have hpart := congrArg (fun l => (l.drop i).take k) h
  simp only [drop_slice _ _ (show i ≤ n by omega), take_slice _ _ (show k ≤ n - i by omega)] at hpart
  exact hpart

theorem slice_offset {α : Type*} (g : ℕ → α) (a i k : ℕ) : slice (fun j => g (a + j)) i k = slice g (a + i) k :=
  map_congr_left fun j _ => by rw [Nat.add_assoc]

section Record

variable {geom : ChsGeometry} {disk D : Disk} {mainExt pos : UInt64} {p : PartitionStruct} {next : Option PartitionStruct}

/-- A sector that was written is read. -/
theorem pread_written {count offset : ℕ} {buffer : ℕ → UInt8} (hread : D.bad count offset = false)
    (h : slice D.content offset 512 = slice buffer 0 512) :
    ∃ read, D.pread count offset = some read ∧ slice read 0x1FE 2 = slice buffer 0x1FE 2 ∧
      (∀ i < 4, slice read (tabPart + 16 * i) 16 = slice buffer (tabPart + 16 * i) 16) := by
  refine ⟨fun i => D.content (offset + i), by rw [Disk.pread, hread]; rfl, ?_, fun i hi => ?_⟩
  · rw [slice_offset, slice_of_slice h (by decide), Nat.zero_add]
  · rw [slice_offset, slice_of_slice h (by rw [tabPart]; omega), Nat.zero_add]

variable (geom disk mainExt pos p next) in
/-- The entries of a record. -/
theorem ptOffset_logBuffer (org : ℕ → UInt8) :
    ptOffset (logBuffer geom disk mainExt pos p next (keepCode org)) 0 = (partition2I386Entry geom disk pos p).read ∧
      (ptOffset (logBuffer geom disk mainExt pos p next (keepCode org)) 1 = next.elim ⟨0, 0, 0⟩ fun next =>
        (partition2I386Entry geom disk mainExt (blocNextext geom disk p next)).read) ∧
      ptOffset (logBuffer geom disk mainExt pos p next (keepCode org)) 2 = ⟨0, 0, 0⟩ ∧
      ptOffset (logBuffer geom disk mainExt pos p next (keepCode org)) 3 = ⟨0, 0, 0⟩ := by
  have hzero : ∀ i < 4, ptOffset (keepCode org) i = ⟨0, 0, 0⟩ := fun i hi =>
    ptOffset_of_bytes (e := ⟨0, 0, 0, 0, 0, 0, 0, 0, 0, 0⟩) (keepCode_entry org hi)
  have hself : ∀ (i : ℕ) (e : DosEntry) (buffer : ℕ → UInt8), ptOffset (putDosEntry i e buffer) i = e.read :=
    fun i e buffer => ptOffset_of_bytes slice_putDosEntry
  have hne : ∀ (i j : ℕ) (e : DosEntry) (buffer : ℕ → UInt8), i ≠ j →
      ptOffset (putDosEntry i e buffer) j = ptOffset buffer j :=
    fun i j e buffer h => ptOffset_congr (slice_putDosEntry_of_ne h)
  cases next with
  | none =>
    refine ⟨hself _ _ _, ?_, ?_, ?_⟩
    · exact (hne 0 1 _ _ (by decide)).trans (hzero 1 (by decide))
    · exact (hne 0 2 _ _ (by decide)).trans (hzero 2 (by decide))
    · exact (hne 0 3 _ _ (by decide)).trans (hzero 3 (by decide))
  | some next =>
    refine ⟨(hne 1 0 _ _ (by decide)).trans (hself _ _ _), hself _ _ _, ?_, ?_⟩
    · exact (hne 1 2 _ _ (by decide)).trans ((hne 0 2 _ _ (by decide)).trans (hzero 2 (by decide)))
    · exact (hne 1 3 _ _ (by decide)).trans ((hne 0 3 _ _ (by decide)).trans (hzero 3 (by decide)))

theorem slice_mark_logBuffer (org : ℕ → UInt8) :
    slice (logBuffer geom disk mainExt pos p next (keepCode org)) 0x1FE 2 = [0x55, 0xAA] := by
  cases next with
  | none => exact (slice_mark_putDosEntry (by decide)).trans (slice_mark_keepCode org)
  | some next =>
    exact (slice_mark_putDosEntry (by decide)).trans
      ((slice_mark_putDosEntry (by decide)).trans (slice_mark_keepCode org))

/-- The record of a logical partition. -/
def logRecord (geom : ChsGeometry) (disk : Disk) (mainExt pos : UInt64) (p : PartitionStruct)
    (next : Option PartitionStruct) : Ebr where
  offset := pos
  logical := (partition2I386Entry geom disk pos p).read
  link := next.map fun next => (partition2I386Entry geom disk mainExt (blocNextext geom disk p next)).read

/-- **A record that was written is found.** -/
theorem logRecord_on {ss : ℕ} (hfits : p.Fits ss) (htype : isExtendedType p.partTypeI386 = false) {org : ℕ → UInt8}
    (hread : D.bad 512 pos.toNat = false)
    (h : slice D.content pos.toNat 512 = slice (logBuffer geom disk mainExt pos p next (keepCode org)) 0 512) :
    (logRecord geom disk mainExt pos p next).On D := by
  obtain ⟨read, hpread, hmark, hentries⟩ := pread_written hread h
  obtain ⟨h0, h1, h2, h3⟩ := ptOffset_logBuffer geom disk mainExt pos p next org
  refine ⟨hfits.isExtended_sysInd.trans htype, ?_, read, ?_, ?_⟩
  · intro link hlink
    obtain ⟨next, -, rfl⟩ := Option.map_eq_some_iff.mp hlink
    rfl
  · have hmark : hasMark read = true := hasMark_of_slice (hmark.trans (slice_mark_logBuffer org))
    change (D.pread 512 pos.toNat).filter hasMark = some read
    rw [hpread, Option.filter_some, if_pos hmark]
  · have hread : ∀ i < 4, ptOffset read i = ptOffset (logBuffer geom disk mainExt pos p next (keepCode org)) i :=
      fun i hi => ptOffset_congr (hentries i hi)
    have hlist : recordEntries read = [(partition2I386Entry geom disk pos p).read, next.elim ⟨0, 0, 0⟩ fun next =>
        (partition2I386Entry geom disk mainExt (blocNextext geom disk p next)).read, ⟨0, 0, 0⟩, ⟨0, 0, 0⟩] := by
      change [ptOffset read 0, ptOffset read 1, ptOffset read 2, ptOffset read 3] = _
      rw [hread 0 (by decide), hread 1 (by decide), hread 2 (by decide), hread 3 (by decide), h0, h1, h2, h3]
    have hused : (partition2I386Entry geom disk pos p).read.sysInd ≠ 0 := hfits.sysInd_ne_zero
    rw [hlist]
    cases next with
    | none => simp [logRecord, hused]
    | some next =>
      have hlink : (partition2I386Entry geom disk mainExt (blocNextext geom disk p next)).read.sysInd ≠ 0 :=
        show (5 : UInt8) ≠ 0 by decide
      simp [logRecord, hused, hlink]

end Record

/-! ## The records of a table -/

/-- The records of the logical partitions, of which the first one is at `pos`. -/
def logChain (geom : ChsGeometry) (disk : Disk) (mainExt : UInt64) : UInt64 → List PartitionStruct → List Ebr
  | _, [] => []
  | pos, p :: rest => logRecord geom disk mainExt pos p rest.head? ::
      logChain geom disk mainExt (rest.head?.elim pos (nextExtOffset geom disk p)) rest

/-- The content of the disk says nothing about the records. -/
theorem logChain_content (geom : ChsGeometry) (disk : Disk) (content : ℕ → UInt8) (mainExt pos : UInt64)
    (logs : List PartitionStruct) :
    logChain geom { disk with content := content } mainExt pos logs = logChain geom disk mainExt pos logs := by
  induction logs generalizing pos with
  | nil => rfl
  | cons p rest ih => exact congrArg _ (ih _)

/-- Logical partitions of `e`, with room for a record at `pos` and in front of each one behind the first. -/
structure LogsFrom (geom : ChsGeometry) (ss : ℕ) (e : PartitionStruct) (pos : UInt64) (logs : List PartitionStruct) :
    Prop where
  sector : ss ∣ pos.toNat
  behind : e.partOffset.toNat ≤ pos.toNat
  first : ∀ p ∈ logs.head?, pos.toNat + ss ≤ p.partOffset.toNat
  logical : ∀ p ∈ logs, p.status = .log ∧ isExtendedType p.partTypeI386 = false
  fits : ∀ p ∈ logs, p.Fits ss
  inside : ∀ p ∈ logs, p.stop ≤ e.stop
  apart : logs.Pairwise fun p q => p.stop + ss ≤ q.partOffset.toNat
  heads : ∀ q ∈ logs.tail, geom.sectorsPerHead * ss ≤ q.partOffset.toNat

theorem MbrTable.logsFrom {geom : ChsGeometry} {ss : ℕ} (t : MbrTable geom ss) {e : PartitionStruct} (he : t.ext = some e) :
    LogsFrom geom ss e e.partOffset t.logs where
  sector := (t.fits e (by simp [he])).start
  behind := Nat.le_refl _
  first p hp := by
    obtain ⟨e', he', hin, -⟩ := t.inside p (List.mem_of_mem_head? hp)
    rw [he] at he'
    exact Option.some.inj he' ▸ hin
  logical := t.logical
  fits p hp := t.fits p (by simp [hp])
  inside p hp := by
    obtain ⟨e', he', -, hin⟩ := t.inside p hp
    rw [he] at he'
    exact Option.some.inj he' ▸ hin
  apart := t.apart
  heads := t.heads

section Chain

variable {geom : ChsGeometry} {disk : Disk} {e : PartitionStruct} {pos : UInt64} {p q : PartitionStruct}
  {logs : List PartitionStruct} (hheads : 0 < geom.headsPerCylinder) (hsectors : 0 < geom.sectorsPerHead)
  (hpos : 0 < disk.sectorSize) (hss : disk.sectorSize < 2 ^ 32)

include hheads hsectors hpos hss

/-- The next record is behind the partition in front of it. -/
theorem LogsFrom.next (h : LogsFrom geom disk.sectorSize e pos (p :: q :: logs)) :
    LogsFrom geom disk.sectorSize e (nextExtOffset geom disk p q) (q :: logs) ∧
      p.stop ≤ (nextExtOffset geom disk p q).toNat := by
  have hp := h.fits p mem_cons_self
  obtain ⟨hdvd, hbehind, hroom⟩ := nextExtOffset_spec hheads hsectors hpos hss (hp.proper hss)
    (h.fits q (by simp)).start (rel_of_pairwise_cons h.apart mem_cons_self) (h.heads q mem_cons_self)
  have hfirst : pos.toNat + disk.sectorSize ≤ p.partOffset.toNat := h.first p rfl
  refine ⟨⟨hdvd, ?_, ?_, fun r hr => h.logical r (mem_cons_of_mem _ hr), fun r hr => h.fits r (mem_cons_of_mem _ hr),
    fun r hr => h.inside r (mem_cons_of_mem _ hr), h.apart.tail, fun r hr => h.heads r (mem_cons_of_mem _ hr)⟩, hbehind⟩
  · have := h.behind
    have := (hp.proper hss).lt_stop
    omega
  · rintro r ⟨⟩
    exact hroom

/-- **The records are apart** from each other and from the logical partitions. -/
theorem LogsFrom.records (h : LogsFrom geom disk.sectorSize e pos logs) :
    ∀ b ∈ logChain geom disk e.partOffset pos logs, disk.sectorSize ∣ b.offset.toNat ∧ pos.toNat ≤ b.offset.toNat ∧
      (∀ r ∈ logs, b.offset.toNat + disk.sectorSize ≤ r.partOffset.toNat ∨ r.stop ≤ b.offset.toNat) ∧
      b.offset.toNat + disk.sectorSize ≤ e.stop := by
  induction logs generalizing pos with
  | nil => exact fun b hb => absurd hb not_mem_nil
  | cons p logs ih =>
    have hfirst : pos.toNat + disk.sectorSize ≤ p.partOffset.toNat := h.first p rfl
    have hp := h.fits p mem_cons_self
    have hstop := (hp.proper hss).lt_stop
    rw [logChain, forall_mem_cons]
    refine ⟨⟨h.sector, Nat.le_refl _, forall_mem_cons.mpr ⟨Or.inl hfirst, fun r hr => Or.inl ?_⟩, ?_⟩, ?_⟩
    · have := rel_of_pairwise_cons h.apart hr
      change pos.toNat + _ ≤ _
      omega
    · have := h.inside p mem_cons_self
      change pos.toNat + _ ≤ _
      omega
    · cases logs with
      | nil => exact fun b hb => absurd hb not_mem_nil
      | cons q logs =>
        obtain ⟨hnext, hbehind⟩ := h.next hheads hsectors hpos hss
        intro b hb
        obtain ⟨hdvd, hle, hapart, hend⟩ := ih hnext b hb
        exact ⟨hdvd, by omega, forall_mem_cons.mpr ⟨Or.inr (by omega), hapart⟩, hend⟩

end Chain

/-! ## Writing -/

section Write

variable {refuses : ℕ → ℕ → Bool} {geom : ChsGeometry} {disk D : Disk} {e : PartitionStruct} {pos : UInt64}
  {logs back : List PartitionStruct}

theorem tryWrite_eq_zero {bytes : List UInt8} {offset : UInt64} (h : disk.tryWrite refuses bytes offset = (0, D)) :
    refuses bytes.length offset.toNat = false ∧ D = { disk with content := overwrite bytes offset.toNat disk.content } := by
  rw [Disk.tryWrite, Disk.writeBytes] at h
  split_ifs at h with hrefuses
  · exact absurd (congrArg Prod.fst h) (by simp)
  · exact ⟨by simpa using hrefuses, (congrArg Prod.snd h).symm⟩

/-- What is written of the record behind `p`. -/
theorem head?_filter_log (hlogs : ∀ p ∈ logs, p.status = .log) (hback : ∀ p ∈ back, p.status ≠ .log) :
    ((logs ++ back).head?.filter fun next => next.status = .log) = logs.head? := by
  cases logs with
  | nil =>
    cases back with
    | nil => rfl
    | cons p back => simp [hback p mem_cons_self]
  | cons p logs => simp [hlogs p mem_cons_self]

/-- What a run of writes leaves: these records, and all other bytes as they were. -/
structure RecordsWritten (disk D : Disk) (chain : List Ebr) : Prop where
  device : D = { disk with content := D.content }
  on : ∀ b ∈ chain, b.On D
  same : ∀ x, (∀ b ∈ chain, x < b.offset.toNat ∨ b.offset.toNat + 512 ≤ x) → D.content x = disk.content x

theorem max_eq_zero_iff {a b : ℕ} : max a b = 0 ↔ a = 0 ∧ b = 0 := by omega

/-- A range that no record meets is as it was. -/
theorem RecordsWritten.slice_eq {chain : List Ebr} (h : RecordsWritten disk D chain) {a n : ℕ}
    (hapart : ∀ b ∈ chain, a + n ≤ b.offset.toNat ∨ b.offset.toNat + 512 ≤ a) :
    slice D.content a n = slice disk.content a n :=
  slice_congr fun x hx hxn => h.same x fun b hb => by
    have := hapart b hb
    omega

variable (hheads : 0 < geom.headsPerCylinder) (hsectors : 0 < geom.sectorsPerHead) (h512 : 512 ≤ disk.sectorSize)
  (hss : disk.sectorSize < 2 ^ 32) (hread : ∀ count offset, refuses count offset = false → disk.bad count offset = false)

include hheads hsectors h512 hss hread

/-- **The records of the logical partitions are written.** -/
theorem writeLogLoop_written (h : LogsFrom geom disk.sectorSize e pos logs) (hne : logs ≠ [])
    (hback : ∀ p ∈ back, p.status ≠ .log)
    (hwrite : writeLogLoop refuses geom e.partOffset pos (logs ++ back) disk = (0, D)) :
    RecordsWritten disk D (logChain geom disk e.partOffset pos logs) := by
  induction logs generalizing disk pos with
  | nil => exact absurd rfl hne
  | cons p logs ih =>
    have hpos : 0 < disk.sectorSize := by omega
    obtain ⟨hlog, htype⟩ := h.logical p mem_cons_self
    have hhead : ((logs ++ back).head?.filter fun next => next.status = .log) = logs.head? :=
      head?_filter_log (fun r hr => (h.logical r (mem_cons_of_mem _ hr)).1) hback
    rw [cons_append, writeLogLoop, if_pos hlog, hhead] at hwrite
    rcases hfirst : disk.tryWrite refuses (slice (logBuffer geom disk e.partOffset pos p logs.head?
      (emptyRecord disk pos)) 0 512) pos with ⟨res, disk₁⟩
    simp only [hfirst, Prod.mk.injEq, max_eq_zero_iff] at hwrite
    obtain ⟨⟨rfl, hres⟩, hD⟩ := hwrite
    obtain ⟨hrefuses, hdisk₁⟩ := tryWrite_eq_zero hfirst
    rw [length_slice] at hrefuses
    have hbytes : (slice (logBuffer geom disk e.partOffset pos p logs.head? (emptyRecord disk pos)) 0 512).length = 512 :=
      length_slice _ _ _
    have hsector : slice disk₁.content pos.toNat 512 =
        slice (logBuffer geom disk e.partOffset pos p logs.head? (emptyRecord disk pos)) 0 512 := by
      rw [hdisk₁]
      exact slice_overwrite hbytes _
    have hsame : ∀ x, x < pos.toNat ∨ pos.toNat + 512 ≤ x → disk₁.content x = disk.content x := by
      intro x hx
      rw [hdisk₁]
      exact overwrite_of_out (by rwa [hbytes]) _
    have hon : ∀ D', D'.bad = disk.bad → slice D'.content pos.toNat 512 = slice disk₁.content pos.toNat 512 →
        (logRecord geom disk e.partOffset pos p logs.head?).On D' := fun D' hbad hcontent =>
      logRecord_on (h.fits p mem_cons_self) htype (hbad ▸ hread _ _ hrefuses) (hcontent.trans hsector)
    cases logs with
    | nil =>
      have hend : writeLogLoop refuses geom e.partOffset pos back disk₁ = (0, disk₁) := by
        cases back with
        | nil => rfl
        | cons r back => rw [writeLogLoop, if_neg (hback r mem_cons_self)]
      have hD : (writeLogLoop refuses geom e.partOffset pos back disk₁).2 = D := hD
      rw [hend] at hD
      subst hD
      refine ⟨by rw [hdisk₁], forall_mem_singleton.mpr (hon _ (by rw [hdisk₁]) rfl), fun x hx => ?_⟩
      exact hsame x (hx (logRecord geom disk e.partOffset pos p none) mem_cons_self)
    | cons q logs =>
      obtain ⟨hnext, hbehind⟩ := h.next hheads hsectors hpos hss
      have hsize : disk₁.sectorSize = disk.sectorSize := by rw [hdisk₁]
      have hbad : disk₁.bad = disk.bad := by rw [hdisk₁]
      have hwrite : writeLogLoop refuses geom e.partOffset (nextExtOffset geom disk₁ p q) (q :: logs ++ back) disk₁ =
          (0, D) := by
        rw [hdisk₁] at hres hD ⊢
        exact Prod.ext hres hD
      have hchain : logChain geom disk₁ e.partOffset (nextExtOffset geom disk₁ p q) (q :: logs) =
          logChain geom disk e.partOffset (nextExtOffset geom disk p q) (q :: logs) := by
        rw [hdisk₁]
        exact logChain_content geom disk _ e.partOffset (nextExtOffset geom disk p q) (q :: logs)
      have hnext₁ : LogsFrom geom disk₁.sectorSize e (nextExtOffset geom disk₁ p q) (q :: logs) := by
        rw [hdisk₁]
        exact hnext
      have hrest : RecordsWritten disk₁ D (logChain geom disk e.partOffset (nextExtOffset geom disk p q) (q :: logs)) :=
        hchain ▸ ih (hsize ▸ h512) (hsize ▸ hss) (hbad ▸ hread) hnext₁ (cons_ne_nil _ _) hwrite
      have hlater : ∀ b ∈ logChain geom disk e.partOffset (nextExtOffset geom disk p q) (q :: logs),
          pos.toNat + 512 ≤ b.offset.toNat := by
        intro b hb
        have hle := (hnext.records hheads hsectors hpos hss b hb).2.1
        have := h.first p rfl
        have := ((h.fits p mem_cons_self).proper hss).lt_stop
        omega
      refine ⟨?_, forall_mem_cons.mpr ⟨hon D ?_ ?_, hrest.on⟩, fun x hx => ?_⟩
      · exact hrest.device.trans (by rw [hdisk₁])
      · exact (congrArg Disk.bad hrest.device).trans (by rw [hdisk₁])
      · exact hrest.slice_eq fun b hb => Or.inl (hlater b hb)
      · rw [hrest.same x fun b hb => hx b (mem_cons_of_mem _ hb)]
        exact hsame x (hx (logRecord geom disk e.partOffset pos p (some q)) mem_cons_self)

end Write

end RecoveryQt
