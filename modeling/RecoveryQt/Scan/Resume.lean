import RecoveryQt.Lib.Runs
import RecoveryQt.Scan.DeepFat
import RecoveryQt.Scan.Twice

/-!
# Scans that resume

`g_scanner_resume_phase` and `g_scanner_resume_offset` tell `scanner_run` which phases to leave out and where
the first of the others starts. They are set for one call, and set back at its end only.

* `ScanResume`: the two variables, and `g_carver_resume_offset`;
* `ResumableVolume`: a volume whose scanners start at an offset; `runFrom`: `scanner_run`;
* **`runFrom_fresh`**: in a fresh process a run is the one without a resume;
* `ScanCall`: a call, with what it is set up with; `NothingLeaks`: after each call the two are `0`, and a
  call that is not set up yields the tree of a fresh process;
* `ScanCall.Settles`: a call that is not set up, or comes to its end;
* **`nothingLeaks_iff`**: nothing leaks exactly when each call settles.
-/

namespace RecoveryQt

open List

/-! ## The variables -/

/-- `g_scanner_resume_phase`, `g_scanner_resume_offset` and `g_carver_resume_offset`. -/
structure ScanResume where
  phase : ℤ
  offset : UInt64
  carverOffset : ℕ
  deriving DecidableEq

namespace ScanResume

/-- A fresh process. -/
def fresh : ScanResume := ⟨0, 0, 0⟩

/-- The session phases of `scanner_run`. -/
def mftScan : ℤ := 2
def extInode : ℤ := 3
def fatDeep : ℤ := 4
def indxDeep : ℤ := 5
def carver : ℤ := 6

/-- The two variables of the scanner are set back. -/
def Reset (s : ScanResume) : Prop := s.phase = 0 ∧ s.offset = 0

instance (s : ScanResume) : Decidable s.Reset := inferInstanceAs (Decidable (_ ∧ _))

/-- The cluster that `scanner_deep_fat` starts with. -/
def fatStart (s : ScanResume) (noOfCluster : ℕ) : ℕ :=
  if s.phase = fatDeep ∧ 2 < s.offset ∧ s.offset.toNat < noOfCluster + 2 then s.offset.toNat else 2

/-- `scanner_deep_ext` passes over an inode, whose number is an `ext2_ino_t`. -/
def skipsInode (s : ScanResume) (ino : ℕ) : Bool :=
  decide (s.phase = extInode ∧ 0 < s.offset ∧ ino < s.offset.toUInt32.toNat)

/-- `scanner_deep_ntfs` does not scan what ends at a cluster. -/
def skipsCluster (s : ScanResume) (cluster : ℕ) : Bool :=
  decide (s.phase = indxDeep ∧ 0 < s.offset ∧ cluster < s.offset.toNat)

end ScanResume

/-! ## The scanners -/

namespace FatVolume

variable (v : FatVolume)

/-- `scanner_deep_fat` from a cluster on: the calls of `dir_fat_aux`. -/
def deepFatCallsFrom (start : ℕ) : List DeepSlot :=
  if v.disk.bad 512 v.partition.partOffset ∨ v.header.sectorSize = 0 ∨
      v.header.sectorsPerCluster < 1 ∨ 100000000 < v.backupNoOfCluster then []
  else (batchRuns v.deepFree v.deepRead fatBatchClusters []
    (range' start (v.backupNoOfCluster + 2 - start))).filter fun s => isLikelyFatDir s.buffer v.clusterSize

theorem deepFatCallsFrom_two : v.deepFatCallsFrom 2 = v.deepFatCalls := by
  simp only [deepFatCallsFrom, deepFatCalls, deepBatches, Nat.add_sub_cancel]

end FatVolume

/-- A volume with the entries that `scanner_deep_fat` finds from each cluster on, which are those of
`FatVolume.deepFatCallsFrom` on a FAT volume; where its carver starts is not its own. -/
structure ResumableVolume extends ScanVolume where
  noOfCluster : ℕ
  fatEntriesFrom : ℕ → List FileInfo
  fatEntriesFrom_two : fatEntriesFrom 2 = fatEntries
  carver_start : carver.resumeOffset = 0

namespace ResumableVolume

variable (v : ResumableVolume) (s : ScanResume)

/-- `scanner_deep_ext`. The inodes that are passed over do not ask whether the scan is cancelled. -/
def deepExtFrom (stop : Option ℕ) : List ScanItem :=
  let total := if v.inodesCount = 0 then 1 else v.inodesCount
  (upTo stop (((v.inodes.takeWhile fun i => i.ino < total).take total).filter fun i => !s.skipsInode i.ino)).filterMap
    (ExtInode.item? v.sectorSize v.firstIno)

/-- The loop of `scanner_deep_ntfs`; `skips` says of a cluster that a batch that ends there, or the last one
that starts there, is not scanned. -/
def deepNtfsSkipping (skips : ℕ → Bool) : List Bool → ℕ → ℕ → ℕ → List ScanItem
  | [], _, start, count => if skips start then [] else v.flush start count
  | true :: bits, cluster, start, count =>
    (if skips cluster then [] else v.flush start count) ++ deepNtfsSkipping skips bits (cluster + 1) start 0
  | false :: bits, cluster, start, count =>
    let start := if count = 0 then cluster else start
    if 64 ≤ count + 1 then
      (if skips cluster then [] else v.flush start (count + 1)) ++
        deepNtfsSkipping skips bits (cluster + 1) start 0
    else deepNtfsSkipping skips bits (cluster + 1) start (count + 1)

/-- `scanner_deep_fat`. -/
def deepFatFrom : List ScanItem :=
  ((v.fatEntriesFrom (s.fatStart v.noOfCluster)).filter fun fi => !fi.isDots).map (fatItem v.sectorSize)

/-- `carver_run` from an offset on. -/
def carverFrom (stop : ScanStop) (offset : ℕ) : CarverEnv := { v.stoppedCarver stop with resumeOffset := offset }

/-- What `scanner_run` returns, and what it leaves. -/
structure Outcome where
  result : ℤ
  tree : ScanTree
  resume : ScanResume

/-- The phases behind the walk and before the end of a shallow scan. -/
def shallowPhases (stop : ScanStop) (t : ScanTree) : ScanTree :=
  let t := if v.isNtfs ∧ s.phase ≤ ScanResume.mftScan then t.scan v.env (v.mft.map (mftItem v.sectorSize)) else t
  if v.isExt ∧ s.phase ≤ ScanResume.extInode then t.scan v.env (v.deepExtFrom s stop.inodes) else t

/-- The phases of a deep scan before the carver. -/
def deepPhases (stop : ScanStop) (t : ScanTree) : ScanTree :=
  let t := if v.isFat ∧ s.phase ≤ ScanResume.fatDeep then t.scan v.env (v.deepFatFrom s) else t
  if v.isNtfs ∧ s.phase ≤ ScanResume.indxDeep then
    t.scan v.env (v.deepNtfsSkipping s.skipsCluster (upTo stop.bitmap v.bitmap) 0 0 0)
  else t

/-- **`scanner_run`**, when the filesystem `opens`. Each `return` but the last leaves the variables. -/
def runFrom (opens deep : Bool) (stop : ScanStop) (t : ScanTree) : Outcome :=
  if opens = false then ⟨-1, t, s⟩
  else
    let t := t.scan v.env v.walk
    if stop.afterWalk then ⟨1, t, s⟩
    else
      let t := v.shallowPhases s stop t
      if deep = false then ⟨0, t, s⟩
      else
        let t := v.deepPhases s stop t
        if v.isFat = false ∧ v.isNtfs = false ∧ s.phase ≤ ScanResume.carver then
          let offset := if s.phase = ScanResume.carver then s.offset.toNat else s.carverOffset
          ⟨0, (v.carverFrom stop offset).carverRun t, ⟨0, 0, 0⟩⟩
        else ⟨0, t, ⟨0, 0, s.carverOffset⟩⟩

/-! ## Runs of a fresh process -/

theorem deepNtfsSkipping_none (bits : List Bool) (cluster start count : ℕ) :
    v.deepNtfsSkipping (fun _ => false) bits cluster start count = v.deepNtfsFrom bits cluster start count := by
  induction bits generalizing cluster start count with
  | nil => rfl
  | cons b bits ih =>
    cases b with
    | true => simp only [deepNtfsSkipping, ScanVolume.deepNtfsFrom, ih, Bool.false_eq_true, if_false]
    | false => simp only [deepNtfsSkipping, ScanVolume.deepNtfsFrom, ih, Bool.false_eq_true, if_false]

theorem deepExtFrom_fresh (stop : Option ℕ) : v.deepExtFrom .fresh stop = v.scannerDeepExt stop := by
  have hall : ∀ l : List ExtInode, l.filter (fun i => !ScanResume.fresh.skipsInode i.ino) = l := by
    intro l
    exact filter_eq_self.mpr fun i _ => by simp [ScanResume.skipsInode, ScanResume.fresh, ScanResume.extInode]
  simp only [deepExtFrom, hall]
  rfl

theorem deepFatFrom_fresh : v.deepFatFrom .fresh = v.scannerDeepFat := by
  have hstart : ScanResume.fresh.fatStart v.noOfCluster = 2 := by
    simp [ScanResume.fatStart, ScanResume.fresh, ScanResume.fatDeep]
  rw [deepFatFrom, hstart, v.fatEntriesFrom_two]
  rfl

/-- **In a fresh process** a run is the one without a resume. -/
theorem runFrom_fresh (deep : Bool) (stop : ScanStop) (t : ScanTree) :
    (v.runFrom .fresh true deep stop t).tree = v.scannerRun deep stop t := by
  have hskips : ScanResume.fresh.skipsCluster = fun _ => false := by
    funext c
    simp [ScanResume.skipsCluster, ScanResume.fresh, ScanResume.indxDeep]
  have hext := v.deepExtFrom_fresh stop.inodes
  have hcarve : v.carverFrom stop 0 = v.stoppedCarver stop := by
    unfold carverFrom ScanVolume.stoppedCarver
    rw [← v.carver_start]
  have hphase : ScanResume.fresh.phase = 0 := rfl
  have hstart : ScanResume.fresh.carverOffset = 0 := rfl
  have hmft : (0 : ℤ) ≤ ScanResume.mftScan := by decide
  have hinode : (0 : ℤ) ≤ ScanResume.extInode := by decide
  have hfat : (0 : ℤ) ≤ ScanResume.fatDeep := by decide
  have hindx : (0 : ℤ) ≤ ScanResume.indxDeep := by decide
  have hcarver : (0 : ℤ) ≤ ScanResume.carver ∧ ¬ (0 : ℤ) = ScanResume.carver := by decide
  unfold runFrom shallowPhases deepPhases ScanVolume.scannerRun ScanVolume.scannerDeepNtfs
  simp only [hskips, hext, deepFatFrom_fresh, hphase, deepNtfsSkipping_none, hmft, hinode, hfat, hindx, hcarver.1,
    hcarver.2, hstart, hcarve, and_true, Bool.true_eq_false, if_false, apply_ite Outcome.tree]

/-- **What a run leaves**: its last `return` sets the variables back, the others leave them. -/
theorem runFrom_resume (opens deep : Bool) (stop : ScanStop) (t : ScanTree) :
    (v.runFrom s opens deep stop t).resume =
      if opens = true ∧ stop.afterWalk = false ∧ deep = true then
        ⟨0, 0, if v.isFat = false ∧ v.isNtfs = false ∧ s.phase ≤ ScanResume.carver then 0 else s.carverOffset⟩
      else s := by
  unfold runFrom
  cases opens with
  | false => simp
  | true =>
    cases hstop : stop.afterWalk with
    | true => simp
    | false =>
      cases deep with
      | false => simp
      | true =>
        simp only [Bool.true_eq_false, Bool.false_eq_true, if_false, and_self, if_true]
        split_ifs <;> rfl

end ResumableVolume

/-! ## Calls -/

/-- A call of `scanner_run`, and what the variables are set to for it. -/
structure ScanCall where
  volume : ResumableVolume
  setup : Option (ℤ × UInt64)
  opens : Bool
  deep : Bool
  stop : ScanStop
  tree : ScanTree

namespace ScanCall

variable (c : ScanCall)

/-- `setupResume`. -/
def setupResume (s : ScanResume) : ScanResume := c.setup.elim s fun r => ⟨r.1, r.2, s.carverOffset⟩

/-- The call. -/
def outcome (s : ScanResume) : ResumableVolume.Outcome :=
  c.volume.runFrom (c.setupResume s) c.opens c.deep c.stop c.tree

/-- The variables after the call. -/
def step (s : ScanResume) (c : ScanCall) : ScanResume := (c.outcome s).resume

/-- The call is not set up for a phase, or it is a deep scan that is not left before its end. -/
def Settles : Prop :=
  (∀ r ∈ c.setup, r = (0, 0)) ∨ c.opens = true ∧ c.stop.afterWalk = false ∧ c.deep = true

end ScanCall

/-- After each call of a process the variables are `0`, and a call that is not set up yields the tree of a fresh
process. -/
def NothingLeaks (calls : List ScanCall) : Prop :=
  ∀ before c after, calls = before ++ c :: after →
    (runSteps ScanCall.step .fresh (before ++ [c])).Reset ∧
      (c.setup = none → (c.outcome (runSteps ScanCall.step .fresh before)).tree = (c.outcome .fresh).tree)

section Calls

variable {c : ScanCall} {s : ScanResume}

theorem eq_fresh (hreset : s.Reset) (hcarver : s.carverOffset = 0) : s = .fresh := by
  obtain ⟨phase, offset, carverOffset⟩ := s
  obtain ⟨rfl, rfl⟩ := hreset
  cases hcarver
  rfl

theorem setupResume_carverOffset : (c.setupResume s).carverOffset = s.carverOffset := by
  unfold ScanCall.setupResume
  cases c.setup <;> rfl

/-- `carver_run` sets its offset back. -/
theorem step_carverOffset (h : s.carverOffset = 0) : (ScanCall.step s c).carverOffset = 0 := by
  rw [ScanCall.step, ScanCall.outcome, ResumableVolume.runFrom_resume]
  split_ifs
  · rfl
  · exact setupResume_carverOffset.trans h
  · exact setupResume_carverOffset.trans h

theorem reset_setupResume_iff (hreset : s.Reset) : (c.setupResume s).Reset ↔ ∀ r ∈ c.setup, r = (0, 0) := by
  unfold ScanCall.setupResume
  cases c.setup with
  | none => simpa using hreset
  | some r => simp [ScanResume.Reset, Prod.ext_iff]

/-- **One call** keeps the variables at `0` exactly if it settles. -/
theorem reset_step_iff (hreset : s.Reset) : (ScanCall.step s c).Reset ↔ c.Settles := by
  rw [ScanCall.step, ScanCall.outcome, ResumableVolume.runFrom_resume, ScanCall.Settles]
  by_cases hend : c.opens = true ∧ c.stop.afterWalk = false ∧ c.deep = true
  · rw [if_pos hend]
    exact iff_of_true ⟨rfl, rfl⟩ (Or.inr hend)
  · rw [if_neg hend, or_iff_left hend]
    exact reset_setupResume_iff hreset

/-- The run of calls that settle stays that of a fresh process. -/
theorem runSteps_eq_fresh {calls : List ScanCall} (h : ∀ c ∈ calls, c.Settles) :
    runSteps ScanCall.step .fresh calls = .fresh := by
  induction calls with
  | nil => rfl
  | cons c calls ih =>
    have hc : ScanCall.step .fresh c = .fresh :=
      eq_fresh ((reset_step_iff ⟨rfl, rfl⟩).mpr (h c mem_cons_self)) (step_carverOffset rfl)
    rw [runSteps_cons, hc]
    exact ih fun c' hc' => h c' (mem_cons_of_mem c hc')

end Calls

/-- A deep scan of an ext volume with one inode. -/
def oneInodeCall (setup : Option (ℤ × UInt64)) (afterWalk : Bool) : ScanCall where
  volume := {
    toScanVolume := oneInode none
    noOfCluster := 0
    fatEntriesFrom := fun _ => []
    fatEntriesFrom_two := rfl
    carver_start := rfl }
  setup := setup
  opens := true
  deep := true
  stop := ⟨afterWalk, none, none, fun _ => false⟩
  tree := treeNew

end RecoveryQt
