import RecoveryQt.Lib.Directory
import RecoveryQt.Restore.Model
import RecoveryQt.Session.Model

/-!
# What a preview does to the host

`read_file_bytes` runs `restore_file_node` with the destination `/` where it does not read the disk
itself. The memory capture takes the stream of `fopen_local` and nothing else. The host has no
symbolic links, and denies nothing to the program, which runs as root.

* `Host`: the files of the host; `Host.mkdir`, `Host.writeFile`, `Host.chmod`, `Host.chown`,
  `Host.utime`: the calls that change them;
* `Driver`: the `copy_file` of a filesystem, as far as the host sees it;
* `mkdirRecursive`, `restoreOrphanHost`, `restoreFileHost`, `restoreFileNodeHost`: the steps of a
  restore;
* `readFileBytesHost`: the host after a preview.
-/

namespace RecoveryQt

open List

/-! ## The host -/

/-- A file of the host; a directory has no content. -/
structure HostEntry where
  content : Option (List UInt8)
  mode : UInt32
  uid : UInt32
  gid : UInt32
  atime : UInt64
  mtime : UInt64
  ctime : UInt64

/-- The files of the host by their paths. -/
abbrev Host := DirTree Name HostEntry fun e => e.content = none

/-- The process: its user, its mask and the time. -/
structure Caller where
  uid : UInt32
  gid : UInt32
  umask : UInt32
  now : UInt64

/-- The name `.`. -/
def Name.IsDot (n : Name) : Prop := n.bytes = [46]

/-- The name `..`. -/
def Name.IsDotDot (n : Name) : Prop := n.bytes = [46, 46]

instance : DecidablePred Name.IsDot := fun n => inferInstanceAs (Decidable (n.bytes = [46]))

instance : DecidablePred Name.IsDotDot := fun n => inferInstanceAs (Decidable (n.bytes = [46, 46]))

/-- A name that does not lead down. -/
def Name.IsDots (n : Name) : Prop := n.IsDot ∨ n.IsDotDot

instance (n : Name) : Decidable n.IsDots := inferInstanceAs (Decidable (_ ∨ _))

/-- A path string as the host reads it: a separator at its end asks for a directory. -/
structure HostPath where
  names : List Name
  dirOnly : Bool

/-- The path of a string. -/
def hostPath (s : List UInt8) : HostPath := ⟨pathTokens s, decide (s.getLast? = some slash)⟩

/-- What lies before the last separator. -/
def HostPath.dirName (t : HostPath) : List Name := if t.dirOnly then t.names else t.names.dropLast

namespace Host

variable (h : Host)

/-- The path that the names lead to, from the root. -/
def follow (l : List Name) : Option (List Name) := h.walk Name.IsDot Name.IsDotDot [] l

/-- `stat`: where the path leads, if there is a file. -/
def stat (t : HostPath) : Option (List Name) :=
  (h.follow t.names).filter fun q => (h.entry q).isSome ∧ (t.dirOnly = true → h.IsDir q)

/-- `stat(path, &st) == 0 && S_ISDIR(st.st_mode)`. -/
def HasDir (l : List Name) : Prop := (h.follow l).any (fun q => h.IsDir q) = true

instance (l : List Name) : Decidable (h.HasDir l) := inferInstanceAs (Decidable (_ = true))

/-- A file made by the process. -/
def newEntry (c : Caller) (content : Option (List UInt8)) (mode : UInt32) : HostEntry where
  content := content
  mode := mode &&& ~~~ c.umask
  uid := c.uid
  gid := c.gid
  atime := c.now
  mtime := c.now
  ctime := c.now

/-- A new file changes its directory. -/
def touch (c : Caller) (e : HostEntry) : HostEntry := { e with mtime := c.now, ctime := c.now }

/-- The file made in a directory where it is missing. -/
def add (c : Caller) (q : List Name) (n : Name) (e : HostEntry) : Host :=
  if hnew : h.IsDir q ∧ h.entry (q ++ [n]) = none then
    (h.create q n e hnew).update q (touch c) fun _ => Iff.rfl
  else h

/-- `mkdir`. -/
def mkdir (c : Caller) (l : List Name) (mode : UInt32) : Host :=
  match l.getLast? with
  | none => h
  | some n =>
    if n.IsDots then h
    else match h.follow l.dropLast with
      | none => h
      | some q => h.add c q n (newEntry c none mode)

/-- A file opened with `"wb"` holds what is written, and nothing else. -/
def rewrite (c : Caller) (bytes : List UInt8) (e : HostEntry) : HostEntry :=
  { e with content := e.content.map fun _ => bytes, mtime := c.now, ctime := c.now }

/-- `fopen(path, "wb")`, the writes and `fclose`: `none` when the file cannot be opened. -/
def writeFile (c : Caller) (t : HostPath) (bytes : List UInt8) : Option Host :=
  match t.names.getLast? with
  | none => none
  | some n =>
    if t.dirOnly = true ∨ n.IsDots then none
    else match h.follow t.names.dropLast with
      | none => none
      | some q =>
        if ¬ h.IsDir q ∨ h.IsDir (q ++ [n]) then none
        else if h.entry (q ++ [n]) = none then some (h.add c q n (newEntry c (some bytes) 0o666))
        else some (h.update (q ++ [n]) (rewrite c bytes) fun e => by simp [rewrite])

/-- The attributes of a file changed. -/
def setAttr (t : HostPath) (f : HostEntry → HostEntry) (hf : ∀ e, (f e).content = e.content) : Host :=
  match h.stat t with
  | none => h
  | some q => h.update q f fun e => by rw [hf]

/-- `chmod`. -/
def chmod (c : Caller) (t : HostPath) (mode : UInt32) : Host :=
  h.setAttr t (fun e => { e with mode := mode, ctime := c.now }) fun _ => rfl

/-- `chown`. -/
def chown (c : Caller) (t : HostPath) (uid gid : UInt32) : Host :=
  h.setAttr t (fun e => { e with uid := uid, gid := gid, ctime := c.now }) fun _ => rfl

/-- `utime`. -/
def utime (c : Caller) (t : HostPath) (actime modtime : UInt64) : Host :=
  h.setAttr t (fun e => { e with atime := actime, mtime := modtime, ctime := c.now }) fun _ => rfl

end Host

/-! ## Restoring a node to the host -/

/-- The buffers of the paths. -/
def pathMax : ℕ := 4096

/-- `tree_get_path` up to no root, into a buffer of `pathMax` bytes: the chain begins with the root
itself, whose name is `/`, unless it is too long. -/
def treeGetPathNull (path : List Name) : List UInt8 :=
  ((if path.length < chainMax then [slash, slash] else []) ++
    renderPath (path.drop (path.length - chainMax))).take (pathMax - 1)

/-- `mkdir_recursive`. -/
def mkdirRecursive (c : Caller) (l : List Name) (h : Host) : Host :=
  if l = [] ∨ h.HasDir l then h
  else (mkdirRecursive c l.dropLast h).mkdir c l 0o755
termination_by l.length
decreasing_by
  have := length_pos_iff.mpr fun hl => ‹¬ (l = [] ∨ _)› (.inl hl)
  simp
  omega

/-- `dir_data_t` of a filesystem. `dates` says whether `copy_file` goes on to `set_date` for a node,
and `modes` whether it calls `set_mode` then; no driver returns `CP_OK` before. -/
structure Driver where
  copyFile : NodeInfo → List UInt8 × CopyFile
  dates : NodeInfo → Bool
  modes : Bool
  dates_of_ok : ∀ x, (copyFile x).2 = .ok → dates x = true

/-- `mode_xlate`. -/
def modeXlate (lmode : UInt32) : UInt32 := lmode &&& 0o777

/-- `LINUX_S_IFDIR` or `LINUX_S_IFREG`. -/
def NodeInfo.stMode (x : NodeInfo) : UInt32 := if x.isDir then 0o040000 else 0o100000

/-- What `copy_file` does to the host with the memory capture on: the stream is captured, and the
attributes are set on `current_directory`. -/
def Driver.copyFileHost (dr : Driver) (c : Caller) (currentDirectory : List UInt8) (x : NodeInfo)
    (h : Host) : Host :=
  if dr.dates x then
    let h := h.utime c (hostPath currentDirectory) x.mtime x.mtime
    if dr.modes then h.chmod c (hostPath currentDirectory) (modeXlate x.stMode) else h
  else h

/-- `snprintf(…, "%s%s", dest_dir, …)`: a path below the destination. -/
def destPath (destDir s : List UInt8) : HostPath := hostPath ((destDir ++ s).take (pathMax - 1))

/-- `relative_path`. -/
def relativePath (path : List Name) : List UInt8 :=
  if treeGetPathNull path = [] then [slash] else treeGetPathNull path

section Restore

variable (c : Caller) (d : Disk) (p : Partition) (path : List Name) (x : NodeInfo)
  (destDir : List UInt8)

/-- `restore_orphan`. -/
def restoreOrphanHost (uid gid : UInt32) (h : Host) : Host :=
  let t := destPath destDir (treeGetPathNull path)
  let h := mkdirRecursive c t.dirName h
  match h.writeFile c t (restoreOrphan d p x).1 with
  | none => h
  | some h =>
    if (restoreOrphan d p x).2 = .ok then (h.chmod c t 0o666).chown c t uid gid else h

/-- `restore_file`, with the memory capture on. -/
def restoreFileHost (dr : Driver) (uid gid : UInt32) (h : Host) : Host :=
  if x.raw then restoreOrphanHost c d p path x destDir uid gid h
  else
    let h := dr.copyFileHost c ((relativePath path).take (dirNameLen - 1)) x h
    let t := destPath destDir (relativePath path)
    if (dr.copyFile x).2 = .ok then (h.chmod c t 0o666).chown c t uid gid else h

/-- `restore_file_node`, with the memory capture on. `init_fs_for_restore` finds a driver or none. -/
def restoreFileNodeHost (drv : Option Driver) (h : Host) : Host :=
  match drv with
  | none => h
  | some dr =>
    let h := mkdirRecursive c (hostPath destDir).names h
    match (h.stat (hostPath destDir)).bind h.entry with
    | none => restoreFileHost c d p path x destDir dr 0 0 h
    | some st => restoreFileHost c d p path x destDir dr st.uid st.gid h

/-- `read_file_bytes`: the host after the preview of a node. A node with clusters and a sector range
are only read. -/
def readFileBytesHost (drv : Option Driver) (h : Host) : Host :=
  if x.size = 0 then h
  else if x.clustered then h
  else if x.orphan = true ∧ x.firstSector ≠ 0 ∧ 0 < x.numSectors then h
  else restoreFileNodeHost c d p path x [slash] drv h

end Restore

end RecoveryQt
