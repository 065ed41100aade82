import RecoveryQt.Backup.Model
import RecoveryQt.Session.Format

/-!
# Saving and loading a session

`session_save` writes the nodes parents first; `session_load` builds a tree from the paths. Writing
does not fail.

* `treeGetPath`: `tree_get_path`, with its limits;
* `writeNodes`, `sessionSave`: `session_write_node_rec` and `session_save`;
* `sessionReadTree`, `sessionLoad`: `session_read_tree` and `session_load`;
* `SessionRoundTrip`: what was saved is loaded.
-/

namespace RecoveryQt

open List

/-- The number of nodes that `tree_get_path` climbs. -/
def chainMax : ℕ := 128

/-- `tree_get_path` into a buffer of `SESSION_MAX_PATH` bytes: the last names of the path, cut at the
end of the buffer. -/
def treeGetPath (p : List Name) : List UInt8 :=
  (renderPath (p.drop (p.length - chainMax))).take (sessionMaxPath - 1)

/-- The flags of an entry. -/
def sessionFlags (x : NodeInfo) : UInt8 :=
  (if x.isDir then 0x01 else 0) ||| (if x.marked then 0x02 else 0) |||
  (if x.deleted then 0x04 else 0) ||| (if x.orphan then 0x08 else 0) |||
  (if x.expanded then 0x10 else 0) ||| (if x.backupRestored then 0x20 else 0) |||
  (if x.backupModified then 0x40 else 0)

/-- The entry of a node. -/
def sessionEntry (path : List UInt8) (x : NodeInfo) : SessionEntry where
  path := path
  flags := sessionFlags x
  size := x.size
  firstSector := x.firstSector
  numSectors := x.numSectors
  mtime := x.mtime
  sectorSize := x.sectorSize
  clusterCount := UInt32.ofNat x.clusters.list.length
  clusterSize := x.clusters.size

/-- The entry of a node with its clusters. -/
def writeNode (path : List UInt8) (x : NodeInfo) : List UInt8 :=
  writeSessionEntry (sessionEntry path x) ++ x.clusters.list.flatMap fun c => leBytes 8 c.toNat

/-- `session_write_node_rec` for the siblings below the path `up`. A node without a path is left out,
and the children of a file are too. -/
def writeNodes (up : List Name) : Forest Name NodeInfo → List UInt8
  | .nil => []
  | .cons n x ch nx =>
    (if (treeGetPath (up ++ [n])).length % 65536 = 0 then []
    else writeNode (treeGetPath (up ++ [n])) x ++
      if x.isDir then writeNodes (up ++ [n]) ch else []) ++ writeNodes up nx

/-- `session_save`: the file written. -/
def sessionSave (a : SessionArgs) (t : ScanTree) : List UInt8 :=
  writeSessionHeader a ++ (writeNodes [] t.top ++ sessionEnd)

namespace SessionEntry

variable (e : SessionEntry)

/-- A bit of the flags. -/
def flag (mask : UInt8) : Bool := e.flags &&& mask ≠ 0

/-- The arguments of `tree_add_path`. -/
def args : AddArgs where
  isDir := e.flag 0x01
  size := e.size
  firstSector := e.firstSector
  numSectors := e.numSectors
  mtime := e.mtime
  sectorSize := e.sectorSize
  deleted := e.flag 0x04

/-- The fields that `session_read_tree` sets, with the clusters if it read any. -/
def setNode (clusters : Option (List UInt64)) (x : NodeInfo) : NodeInfo :=
  { x with
    marked := e.flag 0x02
    orphan := e.flag 0x08
    expanded := e.flag 0x10
    backupRestored := e.flag 0x20
    backupModified := e.flag 0x40
    clusters := clusters.elim x.clusters fun l => Clusters.attach l e.clusterSize }

end SessionEntry

/-- `session_read_tree`: the clusters are read for a file and passed over for a path that is not
found, and for a directory they are left in the stream. -/
def sessionReadTree (s : List UInt8) (t : ScanTree) : ScanTree :=
  match _h : readSessionEntry s with
  | none => t
  | some (e, rest) =>
    let t := t.addPath e.path e.args
    match t.findPath e.path with
    | none => sessionReadTree (rest.drop (8 * e.clusterCount.toNat)) t
    | some _ =>
      if 0 < e.clusterCount ∧ e.args.isDir = false then
        let clusters := readClusterList e.clusterCount.toNat rest
        sessionReadTree clusters.2 (t.modify (e.setNode (some clusters.1)) (pathTokens e.path))
      else sessionReadTree rest (t.modify (e.setNode none) (pathTokens e.path))
termination_by s.length
decreasing_by
  · have := length_readSessionEntry_lt _h
    rw [length_drop]
    omega
  · exact (length_readClusterList_le _ rest).trans_lt (length_readSessionEntry_lt _h)
  · exact length_readSessionEntry_lt _h

/-- `session_info_t`. -/
structure SessionInfo where
  header : SessionHeader
  tree : ScanTree

/-- `session_load`. -/
def sessionLoad (file : List UInt8) : Option SessionInfo :=
  (readSessionHeader file).map fun x => ⟨x.1, sessionReadTree x.2 treeNew⟩

/-- What was saved is loaded: the header, and the nodes of the tree. -/
def SessionRoundTrip (a : SessionArgs) (t : ScanTree) : Prop :=
  ∃ info, sessionLoad (sessionSave a t) = some info ∧ info.header = a.header ∧
    info.tree.root = t.root ∧ info.tree.top = t.top

end RecoveryQt
