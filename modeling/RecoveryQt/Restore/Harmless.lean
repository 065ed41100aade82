import RecoveryQt.Restore.Host
import RecoveryQt.Restore.Readable

/-!
# Previews without side effects

The capture takes the data of a driver; the dates, the mode and the owner are set on the file of the
host that has the path of the node, and `restore_orphan` opens that file itself.

* `KeepsHost`: a preview changes no file of any host;
* `Harmless`: the nodes that are read from the disk, or that no step of a restore takes up;
* **`keepsHost_iff`**: the two are equivalent;
* `restoreFileHost_of_absent`: what is not on the host is not changed.
-/

namespace RecoveryQt

open List

/-! ## No file is lost -/

section Grows

variable {h : Host} (c : Caller)

open DirTree (Grows OnlyRoot)

theorem grows_add (q : List Name) (n : Name) (e : HostEntry) : Grows h (h.add c q n e) := by
  unfold Host.add
  split_ifs with hnew
  · exact (DirTree.grows_create e hnew).trans (DirTree.grows_update _ _ _)
  · exact Grows.refl h

theorem grows_mkdir (l : List Name) (mode : UInt32) : Grows h (h.mkdir c l mode) := by
  unfold Host.mkdir
  split
  · exact Grows.refl h
  · split_ifs
    · exact Grows.refl h
    · split
      · exact Grows.refl h
      · exact grows_add c _ _ _

theorem grows_mkdirRecursive (l : List Name) : Grows h (mkdirRecursive c l h) := by
  induction l using mkdirRecursive.induct (h := h) with
  | case1 l hl =>
    rw [mkdirRecursive, if_pos hl]
    exact Grows.refl h
  | case2 l hl ih =>
    rw [mkdirRecursive, if_neg hl]
    exact ih.trans (grows_mkdir c _ _)

theorem grows_writeFile {t : HostPath} {bytes : List UInt8} {h' : Host}
    (hw : h.writeFile c t bytes = some h') : Grows h h' := by
  unfold Host.writeFile at hw
  split at hw
  · cases hw
  · split_ifs at hw
    split at hw
    · cases hw
    · split_ifs at hw <;> obtain rfl := Option.some.inj hw
      · exact grows_add c _ _ _
      · exact DirTree.grows_update _ _ _

theorem grows_setAttr (t : HostPath) (f : HostEntry → HostEntry)
    (hf : ∀ e, (f e).content = e.content) : Grows h (h.setAttr t f hf) := by
  unfold Host.setAttr
  split
  · exact Grows.refl h
  · exact DirTree.grows_update _ _ _

end Grows

/-! ## Orphans -/

section Orphans

variable {h : Host} (c : Caller)

open DirTree (Grows OnlyRoot)

theorem hasDir_of_dots {l : List Name} (hl : ∀ n ∈ l, n.IsDots) : h.HasDir l := by
  have hwalk : h.follow l = some [] := h.walk_dots hl
  rw [Host.HasDir, hwalk]
  simpa using h.isDir_root

/-- Nothing is made on the way to the root. -/
theorem mkdirRecursive_dots {l : List Name} (hl : ∀ n ∈ l, n.IsDots) :
    mkdirRecursive c l h = h := by
  rw [mkdirRecursive, if_pos (.inr (hasDir_of_dots hl))]

theorem dirName_subset (t : HostPath) : ∀ n ∈ t.dirName, n ∈ t.names := by
  intro n hn
  unfold HostPath.dirName at hn
  split_ifs at hn
  · exact hn
  · exact dropLast_subset _ hn

/-- What all names but the last one have, and the last one. -/
theorem forall_of_dropLast {P : Name → Prop} {l : List Name} (hne : l ≠ []) (hinit : ∀ n ∈ l.dropLast, P n)
    (hlast : P (l.getLast hne)) : ∀ n ∈ l, P n := by
  intro n hn
  rw [← dropLast_append_getLast hne] at hn
  rcases mem_append.mp hn with hn | hn
  · exact hinit n hn
  · rw [mem_singleton.mp hn]
    exact hlast

/-- Directories cannot be opened for writing. -/
theorem writeFile_dots {t : HostPath} (ht : ∀ n ∈ t.names, n.IsDots) (bytes : List UInt8) :
    h.writeFile c t bytes = none := by
  unfold Host.writeFile
  split
  · rfl
  · rename_i n hn
    exact if_pos (.inr (ht n (mem_of_getLast? hn)))

/-- Making a directory in an empty root is seen. -/
theorem not_onlyRoot_add {n : Name} (hroot : h.entry [n] = none) (e : HostEntry) :
    ¬ OnlyRoot (h.add c [] n e) := by
  intro hempty
  have hnew : h.IsDir [] ∧ h.entry ([] ++ [n]) = none := ⟨h.isDir_root, hroot⟩
  have hn := hempty n
  rw [Host.add, dif_pos hnew] at hn
  have hmade : (h.create [] n e hnew).entry [n] = none :=
    (DirTree.entry_update_of_ne (cons_ne_nil n [])).symm.trans hn
  have hself : (h.create [] n e hnew).entry [n] = some e := DirTree.entry_create_self
  rw [hself] at hmade
  cases hmade

/-- **What `mkdir_recursive` makes is seen**, unless the path does not lead down. -/
theorem dots_of_onlyRoot_mkdirRecursive {l : List Name}
    (hroot : OnlyRoot (mkdirRecursive c l h)) : ∀ n ∈ l, n.IsDots := by
  have hempty : OnlyRoot h := hroot.of_grows (grows_mkdirRecursive c l)
  induction l using mkdirRecursive.induct (h := h) with
  | case1 l hl =>
    rcases hl with rfl | hdir
    · exact fun n hn => absurd hn not_mem_nil
    · rw [Host.HasDir, Option.any_eq_true] at hdir
      obtain ⟨q, hq, hdir⟩ := hdir
      exact hempty.dots_of_walk hq (of_decide_eq_true hdir)
  | case2 l hl ih =>
    rw [mkdirRecursive, if_neg hl] at hroot
    have hbefore := hroot.of_grows (grows_mkdir c l 0o755)
    have hdots := ih hbefore
    rw [mkdirRecursive_dots c hdots] at hroot
    have hne : l ≠ [] := fun hnil => hl (.inl hnil)
    have hlast : (l.getLast hne).IsDots := by
      by_contra hno
      have hfollow : h.follow l.dropLast = some [] := h.walk_dots hdots
      rw [Host.mkdir, getLast?_eq_some_getLast hne] at hroot
      simp only [if_neg hno, hfollow] at hroot
      exact not_onlyRoot_add c (hempty _) _ hroot
    exact forall_of_dropLast hne hdots hlast

/-- A file opened in an empty root is seen. -/
theorem not_onlyRoot_writeFile {t : HostPath} (hempty : OnlyRoot h) (hdir : ∀ n ∈ t.dirName, n.IsDots)
    (ht : ¬ ∀ n ∈ t.names, n.IsDots) (bytes : List UInt8) :
    ∃ h', h.writeFile c t bytes = some h' ∧ ¬ OnlyRoot h' := by
  have hfile : t.dirOnly ≠ true := by
    intro hd
    rw [HostPath.dirName, if_pos hd] at hdir
    exact ht hdir
  rw [HostPath.dirName, if_neg hfile] at hdir
  have hne : t.names ≠ [] := by
    intro hnil
    rw [hnil] at ht
    exact ht fun n hn => absurd hn not_mem_nil
  have hlast : ¬ (t.names.getLast hne).IsDots := fun hlast => ht (forall_of_dropLast hne hdir hlast)
  have hfollow : h.follow t.names.dropLast = some [] := h.walk_dots hdir
  have hnone : h.entry [t.names.getLast hne] = none := hempty _
  have hno : ¬ h.IsDir [t.names.getLast hne] := by
    rintro ⟨e, he, -⟩
    rw [hnone] at he
    cases he
  have hopen : ¬ (¬ h.IsDir [] ∨ h.IsDir [t.names.getLast hne]) := by
    rintro (hroot | hd)
    · exact hroot h.isDir_root
    · exact hno hd
  refine ⟨h.add c [] (t.names.getLast hne) (Host.newEntry c (some bytes) 0o666), ?_,
    not_onlyRoot_add c hnone _⟩
  rw [Host.writeFile, getLast?_eq_some_getLast hne]
  simp only [hfollow, nil_append, if_neg hopen, if_pos hnone]
  exact if_neg (not_or.mpr ⟨hfile, hlast⟩)

variable (d : Disk) (p : Partition) (path : List Name) (x : NodeInfo) (destDir : List UInt8)
  (uid gid : UInt32)

/-- An orphan whose path does not lead down is not restored. -/
theorem restoreOrphanHost_dots
    (ht : ∀ n ∈ (destPath destDir (treeGetPathNull path)).names, n.IsDots) :
    restoreOrphanHost c d p path x destDir uid gid h = h := by
  have hdir : mkdirRecursive c (destPath destDir (treeGetPathNull path)).dirName h = h :=
    mkdirRecursive_dots c fun n hn => ht n (dirName_subset _ n hn)
  unfold restoreOrphanHost
  simp only [hdir, writeFile_dots c ht]

/-- **Restoring any other orphan leaves a file or a directory in an empty root.** -/
theorem not_onlyRoot_restoreOrphanHost
    (ht : ¬ ∀ n ∈ (destPath destDir (treeGetPathNull path)).names, n.IsDots) :
    ¬ OnlyRoot (restoreOrphanHost c d p path x destDir uid gid h) := by
  intro hroot
  set t := destPath destDir (treeGetPathNull path) with htdef
  by_cases hmade : OnlyRoot (mkdirRecursive c t.dirName h)
  · -- no directory was made, so the file itself lies in the root
    have hdir := dots_of_onlyRoot_mkdirRecursive c hmade
    obtain ⟨h', hw, hseen⟩ := not_onlyRoot_writeFile c hmade hdir ht (restoreOrphan d p x).1
    refine hseen (hroot.of_grows ?_)
    unfold restoreOrphanHost
    simp only [← htdef, hw]
    split_ifs
    · exact (grows_setAttr _ _ _).trans (grows_setAttr _ _ _)
    · exact Grows.refl h'
  · refine hmade (hroot.of_grows ?_)
    unfold restoreOrphanHost
    simp only [← htdef]
    split
    · exact Grows.refl _
    · rename_i h' hw
      refine (grows_writeFile c hw).trans ?_
      split_ifs
      · exact (grows_setAttr _ _ _).trans (grows_setAttr _ _ _)
      · exact Grows.refl h'

end Orphans

/-! ## Dates -/

section Dates

variable {h : Host} (c : Caller)

/-- There is a file with this date at the path. -/
def DatedAt (h : Host) (q : List Name) (m : UInt64) : Prop := ∃ e, h.entry q = some e ∧ e.mtime = m

/-- A property of the files that a change of attributes gives or keeps. -/
theorem setAttr_keeps {P : HostEntry → Prop} {q : List Name} {t : HostPath}
    {f : HostEntry → HostEntry} {hf : ∀ e, (f e).content = e.content} (hP : ∀ e, P e → P (f e))
    (hq : ∃ e, h.entry q = some e ∧ P e) : ∃ e, (h.setAttr t f hf).entry q = some e ∧ P e := by
  unfold Host.setAttr
  split
  · exact hq
  · exact DirTree.update_keeps hP hq

/-- A mode and an owner leave the dates. -/
theorem datedAt_chmod {q : List Name} {m : UInt64} (t : HostPath) (mode : UInt32)
    (hq : DatedAt h q m) : DatedAt (h.chmod c t mode) q m := setAttr_keeps (fun _ he => he) hq

theorem datedAt_chown {q : List Name} {m : UInt64} (t : HostPath) (uid gid : UInt32)
    (hq : DatedAt h q m) : DatedAt (h.chown c t uid gid) q m :=
  setAttr_keeps (fun _ he => he) hq

/-- `utime` dates the file that it finds. -/
theorem datedAt_utime {t : HostPath} {q : List Name} (hq : h.stat t = some q) (a m : UInt64) :
    DatedAt (h.utime c t a m) q m := by
  have hsome : (h.entry q).isSome := (by simpa using (Option.filter_eq_some_iff.mp hq).2 :
    (h.entry q).isSome ∧ _).1
  obtain ⟨e, he⟩ := Option.isSome_iff_exists.mp hsome
  refine ⟨{ e with atime := a, mtime := m, ctime := c.now }, ?_, rfl⟩
  unfold Host.utime Host.setAttr
  simp only [hq]
  refine DirTree.entry_update_self.trans ?_
  rw [he]
  rfl

variable {d : Disk} {p : Partition} {path : List Name} {x : NodeInfo} {destDir : List UInt8}
  {dr : Driver}

/-- **A restore with the capture on dates the file of the host.** -/
theorem datedAt_restoreFileHost (hraw : ¬ x.raw) (hdates : dr.dates x = true) {q : List Name}
    (hq : h.stat (hostPath ((relativePath path).take (dirNameLen - 1))) = some q)
    (uid gid : UInt32) :
    DatedAt (restoreFileHost c d p path x destDir dr uid gid h) q x.mtime := by
  have hcopy : DatedAt (dr.copyFileHost c ((relativePath path).take (dirNameLen - 1)) x h) q
      x.mtime := by
    have hutime := datedAt_utime c hq x.mtime x.mtime
    rw [Driver.copyFileHost, if_pos hdates]
    split_ifs
    · exact datedAt_chmod c _ _ hutime
    · exact hutime
  rw [restoreFileHost, if_neg hraw]
  simp only
  split_ifs
  · exact datedAt_chown c _ _ _ (datedAt_chmod c _ _ hcopy)
  · exact hcopy

/-- A driver that stops before the dates changes nothing. -/
theorem restoreFileHost_of_not_dates (hraw : ¬ x.raw) (hdates : dr.dates x = false)
    (uid gid : UInt32) : restoreFileHost c d p path x destDir dr uid gid h = h := by
  have hok : (dr.copyFile x).2 ≠ .ok := by
    intro hok
    rw [dr.dates_of_ok x hok] at hdates
    cases hdates
  have hcopy : dr.copyFileHost c ((relativePath path).take (dirNameLen - 1)) x h = h := by
    rw [Driver.copyFileHost, hdates]
    exact if_neg Bool.false_ne_true
  rw [restoreFileHost, if_neg hraw]
  simp only [hcopy, if_neg hok]

theorem setAttr_of_absent {t : HostPath} (ht : h.stat t = none) (f : HostEntry → HostEntry)
    (hf : ∀ e, (f e).content = e.content) : h.setAttr t f hf = h := by
  unfold Host.setAttr
  simp only [ht]

/-- **What is not on the host is not changed**: a file of a filesystem leaves a host alone that has
no file at its path. -/
theorem restoreFileHost_of_absent (hraw : ¬ x.raw)
    (hcur : h.stat (hostPath ((relativePath path).take (dirNameLen - 1))) = none)
    (hdest : h.stat (destPath destDir (relativePath path)) = none) (uid gid : UInt32) :
    restoreFileHost c d p path x destDir dr uid gid h = h := by
  have hcopy : dr.copyFileHost c ((relativePath path).take (dirNameLen - 1)) x h = h := by
    have hutime : h.utime c (hostPath ((relativePath path).take (dirNameLen - 1))) x.mtime x.mtime = h :=
      setAttr_of_absent hcur _ _
    have hchmod : h.chmod c (hostPath ((relativePath path).take (dirNameLen - 1)))
        (modeXlate x.stMode) = h := setAttr_of_absent hcur _ _
    rw [Driver.copyFileHost]
    simp only [hutime, hchmod, ite_self]
  have hchmod : h.chmod c (destPath destDir (relativePath path)) 0o666 = h :=
    setAttr_of_absent hdest _ _
  have hchown : h.chown c (destPath destDir (relativePath path)) uid gid = h :=
    setAttr_of_absent hdest _ _
  rw [restoreFileHost, if_neg hraw]
  simp only [hcopy, hchmod, hchown, ite_self]

end Dates

/-! ## The exact condition -/

section Exact

variable (drv : Option Driver) (d : Disk) (p : Partition) (path : List Name) (x : NodeInfo)

/-- The preview leaves every host as it is. -/
def KeepsHost : Prop := ∀ (c : Caller) (h : Host), readFileBytesHost c d p path x drv h = h

/-- No step of the restore that a preview runs changes a file. An orphan, or a file of a backup with
clusters, needs a path that does not lead down; another file, a driver that stops before the dates. -/
def HarmlessRestore : Prop :=
  if x.raw then ∀ n ∈ (destPath [slash] (treeGetPathNull path)).names, n.IsDots
  else ∀ dr ∈ drv, dr.dates x = false

/-- The node is empty, or its preview reads it from the disk, or the filesystem is not recognised, or
the restore changes nothing. -/
def Harmless : Prop :=
  x.size = 0 ∨ x.clustered ∨ x.orphan = true ∧ x.firstSector ≠ 0 ∧ 0 < x.numSectors ∨ drv = none ∨
    HarmlessRestore drv path x

variable {drv x}

/-- The destination `/` is there. -/
theorem readFileBytesHost_restore (dr : Driver) (hsize : x.size ≠ 0) (hx : ¬ x.clustered)
    (horphan : ¬ (x.orphan = true ∧ x.firstSector ≠ 0 ∧ 0 < x.numSectors)) (c : Caller) (h : Host) :
    ∃ uid gid, readFileBytesHost c d p path x (some dr) h =
      restoreFileHost c d p path x [slash] dr uid gid h := by
  have hnames : (hostPath [slash]).names = [] := by decide
  have hmade : mkdirRecursive c (hostPath [slash]).names h = h := by
    rw [hnames]
    exact mkdirRecursive_dots c fun n hn => absurd hn not_mem_nil
  rw [readFileBytesHost, if_neg hsize, if_neg hx, if_neg horphan, restoreFileNodeHost]
  simp only [hmade]
  split
  · exact ⟨0, 0, rfl⟩
  · rename_i st _
    exact ⟨st.uid, st.gid, rfl⟩

/-- The attributes of a directory of the host. -/
def someDir (mtime : UInt64) : HostEntry := ⟨none, 0o755, 0, 0, mtime, mtime, mtime⟩

/-- A host with nothing but its root. -/
def emptyHost : Host := DirTree.full [] (someDir 0) rfl

theorem emptyHost_onlyRoot : DirTree.OnlyRoot emptyHost := by
  intro n
  unfold emptyHost DirTree.full
  simp

/-- Some user at some time. -/
def someCaller : Caller := ⟨0, 0, 0o022, 0⟩

/-- An orphan that is not read from the disk changes the empty host. -/
theorem not_keepsHost_of_raw {dr : Driver} (hsize : x.size ≠ 0) (hx : ¬ x.clustered)
    (horphan : ¬ (x.orphan = true ∧ x.firstSector ≠ 0 ∧ 0 < x.numSectors)) (hraw : x.raw)
    (ht : ¬ ∀ n ∈ (destPath [slash] (treeGetPathNull path)).names, n.IsDots) :
    ¬ KeepsHost (some dr) d p path x := by
  intro hkeeps
  obtain ⟨uid, gid, hrun⟩ := readFileBytesHost_restore d p path dr hsize hx horphan
    someCaller emptyHost
  have hsame : restoreOrphanHost someCaller d p path x [slash] uid gid emptyHost = emptyHost := by
    have h := hkeeps someCaller emptyHost
    rwa [hrun, restoreFileHost, if_pos hraw] at h
  have hseen := not_onlyRoot_restoreOrphanHost (h := emptyHost) someCaller d p path x [slash] uid gid ht
  rw [hsame] at hseen
  exact hseen emptyHost_onlyRoot

/-- A driver that gets to the dates changes a host that has a file at the path. -/
theorem not_keepsHost_of_dates {dr : Driver} (hsize : x.size ≠ 0) (hx : ¬ x.clustered)
    (horphan : ¬ (x.orphan = true ∧ x.firstSector ≠ 0 ∧ 0 < x.numSectors)) (hraw : ¬ x.raw)
    (hdates : dr.dates x = true) : ¬ KeepsHost (some dr) d p path x := by
  intro hkeeps
  set t := hostPath ((relativePath path).take (dirNameLen - 1)) with ht
  set h : Host := DirTree.full t.names (someDir (x.mtime + 1)) rfl with hh
  obtain ⟨q, hq, hentry⟩ :
      ∃ q, h.follow t.names = some q ∧ h.entry q = some (someDir (x.mtime + 1)) :=
    DirTree.walk_full (fun n hn => hn) (fun n hn => absurd hn not_mem_nil) (Nat.zero_add _).le
  have hstat : h.stat t = some q := by
    refine Option.filter_eq_some_iff.mpr ⟨hq, ?_⟩
    rw [decide_eq_true_eq]
    exact ⟨Option.isSome_iff_exists.mpr ⟨_, hentry⟩, fun _ => ⟨_, hentry, rfl⟩⟩
  obtain ⟨uid, gid, hrun⟩ := readFileBytesHost_restore d p path dr hsize hx horphan
    someCaller h
  have hdated : DatedAt (restoreFileHost someCaller d p path x [slash] dr uid gid h) q x.mtime :=
    datedAt_restoreFileHost someCaller hraw hdates hstat uid gid
  rw [← hrun, hkeeps someCaller h] at hdated
  obtain ⟨e, he, hm⟩ := hdated
  obtain rfl := Option.some.inj (hentry.symm.trans he)
  have hz : (1 : UInt64) = 0 := (UInt64.add_right_inj x.mtime).mp (hm.trans (UInt64.add_zero x.mtime).symm)
  exact absurd hz (by decide)

/-- **A preview has no side effects exactly for these nodes.** -/
theorem keepsHost_iff (drv : Option Driver) (d : Disk) (p : Partition) (path : List Name)
    (x : NodeInfo) : KeepsHost drv d p path x ↔ Harmless drv path x := by
  unfold Harmless
  by_cases hsize : x.size = 0
  · refine iff_of_true (fun c h => ?_) (.inl hsize)
    rw [readFileBytesHost, if_pos hsize]
  by_cases hx : x.clustered
  · refine iff_of_true (fun c h => ?_) (.inr (.inl hx))
    rw [readFileBytesHost, if_neg hsize, if_pos hx]
  by_cases horphan : x.orphan = true ∧ x.firstSector ≠ 0 ∧ 0 < x.numSectors
  · refine iff_of_true (fun c h => ?_) (.inr (.inr (.inl horphan)))
    rw [readFileBytesHost, if_neg hsize, if_neg hx, if_pos horphan]
  rw [or_iff_right hsize, or_iff_right hx, or_iff_right horphan]
  cases drv with
  | none =>
    refine iff_of_true (fun c h => ?_) (.inl rfl)
    rw [readFileBytesHost, if_neg hsize, if_neg hx, if_neg horphan]
    rfl
  | some dr =>
    rw [or_iff_right (Option.some_ne_none dr), HarmlessRestore]
    split_ifs with hraw
    · constructor
      · exact fun hkeeps => not_not.mp fun ht => not_keepsHost_of_raw d p path hsize hx horphan hraw ht hkeeps
      · intro ht c h
        obtain ⟨uid, gid, hrun⟩ := readFileBytesHost_restore d p path dr hsize hx horphan c h
        rw [hrun, restoreFileHost, if_pos hraw]
        exact restoreOrphanHost_dots c d p path x [slash] uid gid ht
    · constructor
      · intro hkeeps dr' hdr
        obtain rfl := Option.some.inj hdr
        by_contra hdates
        exact not_keepsHost_of_dates d p path hsize hx horphan hraw (Bool.eq_true_of_not_eq_false hdates) hkeeps
      · intro hdates c h
        obtain ⟨uid, gid, hrun⟩ := readFileBytesHost_restore d p path dr hsize hx horphan c h
        rw [hrun]
        exact restoreFileHost_of_not_dates c hraw (hdates dr rfl) uid gid

end Exact

/-! ## A file of the host that is overwritten -/

/-- A file that is there is opened and rewritten. -/
theorem writeFile_existing {h : Host} (c : Caller) {t : HostPath} {l q : List Name} {n : Name}
    {e : HostEntry} {old : List UInt8} (hnames : t.names = l ++ [n]) (hfile : t.dirOnly = false)
    (hn : ¬ n.IsDots) (hq : h.follow l = some q) (hdir : h.IsDir q)
    (he : h.entry (q ++ [n]) = some e) (hold : e.content = some old) (bytes : List UInt8) :
    ∃ h', h.writeFile c t bytes = some h' ∧
      ∃ e', h'.entry (q ++ [n]) = some e' ∧ e'.content = some bytes := by
  have hopen : ¬ (¬ h.IsDir q ∨ h.IsDir (q ++ [n])) := by
    rintro (hno | ⟨e', he', hnone⟩)
    · exact hno hdir
    · obtain rfl := Option.some.inj (he.symm.trans he')
      rw [hold] at hnone
      cases hnone
  have hsome : ¬ h.entry (q ++ [n]) = none := by
    rw [he]
    exact Option.some_ne_none e
  have hplain : ¬ (t.dirOnly = true ∨ n.IsDots) := by
    rw [hfile]
    rintro (hd | hd)
    · cases hd
    · exact hn hd
  have hkind : ∀ e : HostEntry, (Host.rewrite c bytes e).content = none ↔ e.content = none := by
    intro e
    simp [Host.rewrite]
  refine ⟨h.update (q ++ [n]) (Host.rewrite c bytes) hkind, ?_, Host.rewrite c bytes e, ?_, ?_⟩
  · rw [Host.writeFile, hnames, getLast?_concat, dropLast_concat]
    simp only [if_neg hplain, hq, if_neg hopen, if_neg hsome]
  · refine DirTree.entry_update_self.trans ?_
    rw [he]
    rfl
  · rw [Host.rewrite, hold]
    rfl

/-- **An orphan restored over a file of the host replaces its content.** -/
theorem content_restoreOrphanHost {h : Host} (c : Caller) (d : Disk) (p : Partition)
    (path : List Name) (x : NodeInfo) (destDir : List UInt8) {l q : List Name} {n : Name}
    {e : HostEntry} {old : List UInt8}
    (hnames : (destPath destDir (treeGetPathNull path)).names = l ++ [n])
    (hfile : (destPath destDir (treeGetPathNull path)).dirOnly = false)
    (hn : ¬ n.IsDots) (hq : h.follow l = some q) (hdir : h.IsDir q)
    (he : h.entry (q ++ [n]) = some e) (hold : e.content = some old) (uid gid : UInt32) :
    ∃ e', (restoreOrphanHost c d p path x destDir uid gid h).entry (q ++ [n]) = some e' ∧
      e'.content = some (restoreOrphan d p x).1 := by
  have hdirName : (destPath destDir (treeGetPathNull path)).dirName = l := by
    rw [HostPath.dirName, hfile, hnames, dropLast_concat]
    rfl
  have hmade : mkdirRecursive c l h = h := by
    have hhas : h.HasDir l := by
      rw [Host.HasDir, hq]
      simpa using hdir
    rw [mkdirRecursive, if_pos (.inr hhas)]
  obtain ⟨h', hw, e', he', hnew⟩ :=
    writeFile_existing c hnames hfile hn hq hdir he hold (restoreOrphan d p x).1
  unfold restoreOrphanHost
  simp only [hdirName, hmade, hw]
  split_ifs
  · -- the mode and the owner are set after the content
    have hchmod : ∃ e', (h'.chmod c (destPath destDir (treeGetPathNull path)) 0o666).entry (q ++ [n]) =
        some e' ∧ e'.content = some (restoreOrphan d p x).1 :=
      setAttr_keeps (fun _ h => h) ⟨e', he', hnew⟩
    exact setAttr_keeps (fun _ h => h) hchmod
  · exact ⟨e', he', hnew⟩

/-- The name `x`. -/
def hostName : Name := IsName.name (show IsName [120] by decide)

/-- A host with the file `/x`, of one byte. -/
def oneFileHost : Host :=
  emptyHost.create [] hostName ⟨some [1], 0o600, 1000, 1000, 0, 0, 0⟩
    ⟨emptyHost.isDir_root, emptyHost_onlyRoot hostName⟩

/-- A carved file `x` of one sector at the start of the partition. -/
def firstOrphan : NodeInfo :=
  { nodeAlloc ⟨false, 512, 0, 1, 0, 512, false⟩ with orphan := true }

/-- A filesystem that copies nothing. -/
def plainDriver : Driver := ⟨fun _ => ([], .ok), fun _ => true, false, fun _ _ => rfl⟩

/-- The preview of that orphan replaces the content of the file `/x` of the host. -/
theorem firstOrphan_not_keepsHost :
    ¬ KeepsHost (some plainDriver) (contentDisk 512 fun _ => 0) ⟨0, 0, .exfat, 0⟩ [hostName]
      firstOrphan := by
  intro hkeeps
  have hd := contentDisk_readable 512 fun _ => 0
  obtain ⟨uid, gid, hrun⟩ := readFileBytesHost_restore (contentDisk 512 fun _ => 0) ⟨0, 0, .exfat, 0⟩
    [hostName] (x := firstOrphan) plainDriver (by decide) (by decide) (by decide) someCaller oneFileHost
  have hsame := hkeeps someCaller oneFileHost
  rw [hrun, restoreFileHost, if_pos (by decide)] at hsame
  have hnames : (destPath [slash] (treeGetPathNull [hostName])).names = [] ++ [hostName] := by decide
  have hfile : (destPath [slash] (treeGetPathNull [hostName])).dirOnly = false := by decide
  have hentry : oneFileHost.entry ([] ++ [hostName]) = some ⟨some [1], 0o600, 1000, 1000, 0, 0, 0⟩ :=
    DirTree.entry_create_self
  obtain ⟨e, he, hcontent⟩ := content_restoreOrphanHost (h := oneFileHost) someCaller
    (contentDisk 512 fun _ => 0) ⟨0, 0, .exfat, 0⟩ [hostName] firstOrphan [slash] hnames hfile
    (by decide) rfl oneFileHost.isDir_root hentry rfl uid gid
  rw [hsame] at he
  obtain rfl := Option.some.inj (hentry.symm.trans he)
  have hlen : [1].length = sectorBytes 512 firstOrphan :=
    (congrArg length (Option.some.inj hcontent)).trans (length_restoreOrphan_sectors hd (by decide))
  exact absurd hlen (by decide)

end RecoveryQt
