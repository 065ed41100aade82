import RecoveryQt.Session.RoundTrip

/-!
# Session files that were cut

* `streams_readSessionHeader`: the header is read without a look behind it;
* **`readSessionHeader_truncated_iff`**: it is refused when it is cut;
* **`sessionLoad_truncated_iff`**: what is left of a file is refused exactly when its header was cut;
* `headerOnly_loaded`: a file of one node, cut behind the header, is loaded as an empty tree.
-/

namespace RecoveryQt

open List

/-! ## The header -/

theorem streams_readSessionHeader : Streams readSessionHeader := by
  apply Streams.bind (streams_takeBytes _)
  intro buffer
  apply Streams.ite streams_none
  apply Streams.ite streams_none
  apply Streams.bind (streams_takeBytes _)
  intro device
  apply Streams.bind (streams_takeBytes _)
  intro model
  apply Streams.bind (streams_takeBytes _)
  intro filter
  apply Streams.bind (streams_takeBytes _)
  intro pad
  exact streams_some _

theorem length_writeSessionHeader (a : SessionArgs) : (writeSessionHeader a).length =
    roundUp8 (sessionHeaderEnd + (sessionStrings a).length) := by
  rw [writeSessionHeader, length_append, length_append, length_sessionHeaderBytes, length_replicate,
    roundUp8]
  omega

/-- **A header is refused when it is cut**, and read when it is whole. -/
theorem readSessionHeader_truncated_iff (a : SessionArgs) {p s : List UInt8}
    (hp : p <+: writeSessionHeader a ++ s) :
    readSessionHeader p = none ↔ p.length < (writeSessionHeader a).length := by
  constructor
  · intro hnone
    by_contra hlen
    obtain ⟨q, rfl⟩ := prefix_of_prefix_length_le (prefix_append _ s) hp (not_lt.mp hlen)
    rw [readSessionHeader_write] at hnone
    cases hnone
  · intro hlen
    have hcut : p <+: writeSessionHeader a :=
      prefix_of_prefix_length_le hp (prefix_append _ s) hlen.le
    have hwhole := readSessionHeader_write a []
    rw [List.append_nil] at hwhole
    exact streams_readSessionHeader.truncated hwhole hcut fun h => absurd (h ▸ hlen) (lt_irrefl _)

/-! ## Files -/

/-- **What is left of a file is refused** exactly when it was cut inside its header. -/
theorem sessionLoad_truncated_iff (a : SessionArgs) (t : ScanTree) (p : List UInt8)
    (hp : p <+: sessionSave a t) :
    sessionLoad p = none ↔ p.length < (writeSessionHeader a).length := by
  rw [sessionLoad, Option.map_eq_none_iff]
  exact readSessionHeader_truncated_iff a hp

/-- The header of the arguments is shorter than any file with them. -/
theorem writeSessionHeader_ne (a : SessionArgs) (t : ScanTree) : writeSessionHeader a ≠ sessionSave a t := by
  intro h
  have hnil : writeNodes [] t.top ++ sessionEnd = [] := by
    rw [sessionSave] at h
    exact self_eq_append_right.mp h
  exact absurd (append_eq_nil_iff.mp hnil).2 (by decide)

/-- The header is refused without its last bytes. -/
theorem headerCut_refused : sessionLoad ((writeSessionHeader carveArgs).take 60) = none := by
  have hpre : (writeSessionHeader carveArgs).take 60 <+: writeSessionHeader carveArgs := take_prefix _ _
  apply (sessionLoad_truncated_iff carveArgs oneFile _ (hpre.trans (prefix_append _ _))).mpr
  rw [length_take, length_writeSessionHeader]
  decide

/-- A file of one node that was cut behind its header is loaded, as an empty tree. -/
theorem headerOnly_loaded : writeSessionHeader carveArgs <+: sessionSave carveArgs oneFile ∧
    writeSessionHeader carveArgs ≠ sessionSave carveArgs oneFile ∧ oneFile.top ≠ .nil ∧
    sessionLoad (writeSessionHeader carveArgs) = some ⟨carveArgs.loaded, treeNew⟩ := by
  refine ⟨prefix_append _ _, writeSessionHeader_ne carveArgs oneFile, ?_, ?_⟩
  · rw [oneFile_eq]
    nofun
  · have hload := sessionLoad_header carveArgs []
    rw [List.append_nil] at hload
    rw [hload, sessionReadTree]
    rfl

end RecoveryQt
