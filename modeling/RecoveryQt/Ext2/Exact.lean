import RecoveryQt.Ext2.Model

/-!
# When the blocks of an ext2 file are its locations

* `Ext2Fs.position_inj`: a 64-bit entry at the position of a block has its number in the lower half;
* **`ext2_locates_iff`**: the list that is collected locates the file exactly when the file has no
  hole and at most one block behind the direct ones.
-/

namespace RecoveryQt

open List

namespace Ext2Fs

variable (fs : Ext2Fs)

theorem blockSize_pos : 0 < fs.blockSize := Nat.two_pow_pos _

theorem blockSize_eq : fs.blockSize = 8 * fs.wideEntries ∧ 128 ≤ fs.wideEntries := by
  obtain ⟨k, hk⟩ := Nat.exists_eq_add_of_le fs.log_bounds.1
  have hbs : fs.blockSize = 1024 * 2 ^ k := by rw [blockSize, hk, Nat.pow_add]
  have hpos := Nat.two_pow_pos k
  unfold wideEntries
  omega

theorem entries_eq : fs.entries = 2 * fs.wideEntries := by
  obtain ⟨hbs, -⟩ := fs.blockSize_eq
  unfold entries
  omega

/-- A 64-bit entry at the position of a block has its number in the lower half. -/
theorem position_inj {a b c : ℕ} (ha : a < 2 ^ 32) (hc : c < 2 ^ 32)
    (h : fs.position (a + 2 ^ 32 * b) = fs.position c) : a = c := by
  have hmod : (a + 2 ^ 32 * b) * fs.blockSize % 2 ^ 64 = c * fs.blockSize % 2 ^ 64 := by
    have := congrArg UInt64.toNat h
    simpa only [position, UInt64.toNat_ofNat'] using this
  have hlog := fs.log_bounds
  have hpow : 2 ^ 64 = 2 ^ (64 - fs.logBlockSize) * fs.blockSize := by
    rw [blockSize, ← Nat.pow_add]
    congr 1
    omega
  rw [hpow, Nat.mul_mod_mul_right, Nat.mul_mod_mul_right] at hmod
  have hmod := Nat.eq_of_mul_eq_mul_right fs.blockSize_pos hmod
  have hdvd : 2 ^ 32 ∣ 2 ^ (64 - fs.logBlockSize) := Nat.pow_dvd_pow 2 (by omega)
  have hlow := congrArg (· % 2 ^ 32) hmod
  simp only [Nat.mod_mod_of_dvd _ hdvd] at hlow
  rwa [Nat.add_mul_mod_self_left, Nat.mod_eq_of_lt ha, Nat.mod_eq_of_lt hc] at hlow

end Ext2Fs

section Collect

variable {fs : Ext2Fs} {inode : Ext2Inode} {list : List UInt64}

/-- The parts of the list. -/
theorem ext2CollectBlocks_eq (h : ext2CollectBlocks fs inode = some list) :
    ∃ single double triple, inode.indirect fs 0 = some single ∧ inode.indirect fs 1 = some double ∧
      inode.indirect fs 2 = some triple ∧
      list = inode.direct fs ++ (single ++ (double ++ triple)) := by
  simp only [ext2CollectBlocks, Option.bind_eq_bind, Option.bind_eq_some_iff] at h
  obtain ⟨single, hsingle, double, hdouble, triple, htriple, h⟩ := h
  split_ifs at h
  exact ⟨single, double, triple, hsingle, hdouble, htriple, (Option.some.inj h).symm⟩

theorem indirect_eq_nil {level : ℕ} {l : List UInt64} (hzero : inode.iBlock (12 + level) = 0)
    (h : inode.indirect fs level = some l) : l = [] := by
  rw [Ext2Inode.indirect, if_pos hzero] at h
  exact (Option.some.inj h).symm

/-- The blocks below the single indirect block. -/
theorem indirect_zero {l : List UInt64} (hne : inode.iBlock 12 ≠ 0)
    (h : inode.indirect fs 0 = some l) : ∃ words, fs.readBlk (inode.iBlock 12).toNat = some words ∧
      l = (range fs.wideEntries).flatMap fun i =>
        if wideEntry words i = 0 then [] else [fs.position (wideEntry words i)] := by
  rw [Ext2Inode.indirect, if_neg hne, ext2ReadBlocks] at h
  obtain ⟨words, hwords, hl⟩ := Option.map_eq_some_iff.mp h
  exact ⟨words, hwords, hl.symm⟩

theorem blockMap_direct {j : ℕ} (hj : j < 12) : inode.blockMap fs j = (inode.iBlock j).toNat :=
  if_pos hj

/-- A block behind the direct ones. -/
theorem blockMap_single {words : ℕ → UInt32} (hne : inode.iBlock 12 ≠ 0)
    (hread : fs.readBlk (inode.iBlock 12).toNat = some words) {i : ℕ} (hi : i < fs.entries) :
    inode.blockMap fs (12 + i) = (words i).toNat := by
  have hne' : (inode.iBlock 12).toNat ≠ 0 := fun h => hne (UInt32.toNat.inj h)
  rw [Ext2Inode.blockMap, if_neg (by omega), if_pos (by omega), Nat.add_sub_cancel_left, Ext2Fs.lookup,
    if_neg hne', hread]
  rfl

/-- The first block behind the direct ones comes from the single indirect block. -/
theorem exists_words (hfirst : inode.blockMap fs 12 ≠ 0) :
    inode.iBlock 12 ≠ 0 ∧ ∃ words, fs.readBlk (inode.iBlock 12).toNat = some words := by
  have hentries := fs.entries_eq
  have hwide := fs.blockSize_eq.2
  rw [Ext2Inode.blockMap, if_neg (by omega), if_pos (by omega), Nat.sub_self, Ext2Fs.lookup] at hfirst
  split_ifs at hfirst with hzero
  · exact absurd rfl hfirst
  constructor
  · exact fun h => hzero (by rw [h]; rfl)
  · cases hread : fs.readBlk (inode.iBlock 12).toNat with
    | none =>
      rw [hread] at hfirst
      exact absurd rfl hfirst
    | some words => exact ⟨words, rfl⟩

theorem location_isSome_iff {j : ℕ} : (inode.location fs j).isSome ↔ inode.blockMap fs j ≠ 0 := by
  rw [Ext2Inode.location]
  split_ifs with h <;> simp [h]

theorem location_eq_some {j : ℕ} (h : inode.blockMap fs j ≠ 0) :
    inode.location fs j = some (fs.position (inode.blockMap fs j)) := if_neg h

/-- The direct blocks of a file without holes. -/
theorem direct_eq (hwf : inode.WellFormed fs) {m : ℕ} (hm : m ≤ 12)
    (hall : ∀ j < m, inode.blockMap fs j ≠ 0) (hend : inode.blockCount fs ≤ m ∨ m = 12) :
    inode.direct fs = (range m).map fun j => fs.position (inode.blockMap fs j) := by
  have hmap : ((range m).map fun j => fs.position (inode.blockMap fs j)) =
      (range m).map fun j => fs.position (inode.iBlock j).toNat :=
    map_congr_left fun j hj => by rw [blockMap_direct (by have := mem_range.mp hj; omega)]
  rw [hmap]
  apply flatMap_range_ite hm
  · intro i hi hzero
    apply hall i hi
    rw [blockMap_direct (by omega), hzero]
    rfl
  · intro i hmi hi
    have hbehind := hwf.behind i (by omega)
    rw [blockMap_direct hi] at hbehind
    exact UInt32.toNat.inj hbehind

/-- A 64-bit entry of zeros. -/
theorem wideEntry_eq_zero {words : ℕ → UInt32} {i : ℕ} (hlow : (words (2 * i)).toNat = 0)
    (hhigh : (words (2 * i + 1)).toNat = 0) : wideEntry words i = 0 := by
  rw [wideEntry, hlow, hhigh, Nat.mul_zero]

theorem wideEntry_ne_zero {words : ℕ → UInt32} {i : ℕ} (h : (words (2 * i)).toNat ≠ 0) :
    wideEntry words i ≠ 0 := by
  unfold wideEntry
  omega

/-- The blocks below the single indirect block of a file that ends at index `12 + m`, `m ≤ 1` or the
second entry being in the first 64-bit one. -/
theorem single_eq (hwf : inode.WellFormed fs) {words : ℕ → UInt32} (hne : inode.iBlock 12 ≠ 0)
    (hread : fs.readBlk (inode.iBlock 12).toNat = some words) {m : ℕ} (hm : m ≤ 1)
    (hall : ∀ i < m, (words 0).toNat ≠ 0) (hend : inode.blockCount fs ≤ 12 + 2 * m) :
    ((range fs.wideEntries).flatMap fun i =>
      if wideEntry words i = 0 then [] else [fs.position (wideEntry words i)]) =
      (range m).map fun i => fs.position (wideEntry words i) := by
  have hwide := fs.blockSize_eq.2
  have hzero : ∀ k, 2 * m ≤ k → k < fs.entries → (words k).toNat = 0 := by
    intro k hk hlt
    rw [← blockMap_single hne hread hlt]
    exact hwf.behind _ (by omega)
  apply flatMap_range_ite (by omega)
  · intro i hi
    obtain rfl : i = 0 := by omega
    exact wideEntry_ne_zero (hall 0 hi)
  · intro i hmi hi
    have hentries := fs.entries_eq
    exact wideEntry_eq_zero (hzero _ (by omega) (by omega)) (hzero _ (by omega) (by omega))

/-- **A file of two or more blocks behind the direct ones** is not located. -/
theorem not_locates_of_large (hwf : inode.WellFormed fs) (h : ext2CollectBlocks fs inode = some list)
    (hlarge : 14 ≤ inode.blockCount fs) :
    ¬ Locates (inode.location fs) (inode.blockCount fs) list := by
  intro hloc
  obtain ⟨single, double, triple, hsingle, hdouble, htriple, hlist⟩ := ext2CollectBlocks_eq h
  have hall : ∀ j < inode.blockCount fs, inode.blockMap fs j ≠ 0 := fun j hj =>
    location_isSome_iff.mp (hloc.isSome hj)
  have hdirect : (inode.direct fs).length = 12 := by
    rw [direct_eq hwf le_rfl (fun j hj => hall j (by omega)) (.inr rfl), length_map, length_range]
  obtain ⟨hne, words, hread⟩ := exists_words (hall 12 (by omega))
  obtain ⟨words', hread', hsingle⟩ := indirect_zero hne hsingle
  obtain rfl := Option.some.inj (hread.symm.trans hread')
  have hentries := fs.entries_eq
  have hwide := fs.blockSize_eq.2
  have hword : ∀ i < fs.entries, inode.blockMap fs (12 + i) = (words i).toNat := fun i hi =>
    blockMap_single hne hread hi
  by_cases hend : inode.blockCount fs = 14
  · -- the second entry is the upper half of the first 64-bit one, and the list is too short
    have hsingle' : single.length = 1 := by
      rw [hsingle, single_eq hwf hne hread le_rfl
        (fun _ _ => by rw [← hword 0 (by omega)]; exact hall 12 (by omega)) (by omega), length_map,
        length_range]
    have hdouble' := indirect_eq_nil (hwf.double (by omega)) hdouble
    have htriple' := indirect_eq_nil (hwf.triple (by omega)) htriple
    have hlen := hloc.length_eq
    rw [hlist, hdouble', htriple', length_append, length_append, hdirect, hsingle'] at hlen
    simp only [List.append_nil, length_nil] at hlen
    omega
  · -- the second element of the list is the third block
    have hzero : wideEntry words 0 ≠ 0 := wideEntry_ne_zero (by
      rw [← hword _ (by omega)]
      exact hall _ (by omega))
    have hone : wideEntry words 1 ≠ 0 := wideEntry_ne_zero (by
      rw [← hword _ (by omega)]
      exact hall _ (by omega))
    obtain ⟨k, hk⟩ := Nat.exists_eq_add_of_le (show 2 ≤ fs.wideEntries by omega)
    obtain ⟨rest, hrest⟩ : ∃ rest, single =
        fs.position (wideEntry words 0) :: fs.position (wideEntry words 1) :: rest := by
      have hrange : range fs.wideEntries = 0 :: 1 :: (range k).map (2 + ·) := by
        rw [hk, range_add]
        rfl
      rw [hsingle, hrange, flatMap_cons, flatMap_cons, if_neg hzero, if_neg hone]
      exact ⟨_, rfl⟩
    obtain ⟨x, hx, hlx⟩ := hloc.getElem? (show 13 < inode.blockCount fs by omega)
    rw [hlist, getElem?_append_right (by omega), hdirect, hrest] at hlx
    rw [location_eq_some (hall 13 (by omega)), Option.some.injEq] at hx
    have hpos : fs.position (wideEntry words 1) = fs.position (inode.blockMap fs 13) :=
      (Option.some.inj hlx).trans hx.symm
    have heq : (words 2).toNat = (words 1).toNat :=
      fs.position_inj (words 2).toNat_lt (words 1).toNat_lt (by
        rw [hword 1 (by omega)] at hpos
        exact hpos)
    refine hwf.distinct 13 14 (by omega) (by omega) (hall 13 (by omega)) ?_
    rw [hword 1 (by omega), hword 2 (by omega), heq]

/-- **The list locates the file** exactly when the file has no hole and at most one block behind the
direct ones. -/
theorem ext2_locates_iff (hwf : inode.WellFormed fs) (h : ext2CollectBlocks fs inode = some list) :
    Locates (inode.location fs) (inode.blockCount fs) list ↔
      inode.blockCount fs ≤ 13 ∧ ∀ j < inode.blockCount fs, inode.blockMap fs j ≠ 0 := by
  constructor
  · intro hloc
    refine ⟨?_, fun j hj => location_isSome_iff.mp (hloc.isSome hj)⟩
    by_contra hlarge
    exact not_locates_of_large hwf h (by omega) hloc
  · rintro ⟨hsmall, hall⟩
    obtain ⟨single, double, triple, hsingle, hdouble, htriple, hlist⟩ := ext2CollectBlocks_eq h
    have hwide := fs.blockSize_eq.2
    have hentries := fs.entries_eq
    have hdouble' := indirect_eq_nil (hwf.double (by omega)) hdouble
    have htriple' := indirect_eq_nil (hwf.triple (by omega)) htriple
    rw [locates_iff_eq_map fun j hj => location_eq_some (hall j hj), hlist, hdouble', htriple']
    rcases Nat.lt_or_ge 12 (inode.blockCount fs) with hlt | hge
    · have hcount : inode.blockCount fs = 12 + 1 := by omega
      obtain ⟨hne, words, hread⟩ := exists_words (hall 12 hlt)
      obtain ⟨words', hread', hsingle⟩ := indirect_zero hne hsingle
      obtain rfl := Option.some.inj (hread.symm.trans hread')
      have hword : ∀ i < fs.entries, inode.blockMap fs (12 + i) = (words i).toNat := fun i hi =>
        blockMap_single hne hread hi
      have hfirst : wideEntry words 0 = inode.blockMap fs 12 := by
        have hhigh : (words 1).toNat = 0 := by
          rw [← hword 1 (by omega)]
          exact hwf.behind _ (by omega)
        rw [wideEntry, hhigh, hword 0 (by omega)]
        rfl
      have hlast : ((range 1).map fun i => fs.position (wideEntry words i)) =
          [fs.position (inode.blockMap fs 12)] := by
        rw [← hfirst]
        rfl
      rw [hsingle, single_eq hwf hne hread le_rfl
        (fun _ _ => by rw [← hword 0 (by omega)]; exact hall 12 hlt) (by omega), hlast,
        direct_eq hwf le_rfl (fun j hj => hall j (by omega)) (.inr rfl), hcount, range_succ, map_append,
        List.append_nil, List.append_nil]
      rfl
    · have hnil : single = [] := by
        by_cases hne : inode.iBlock 12 = 0
        · exact indirect_eq_nil hne hsingle
        · obtain ⟨words, hread, hsingle⟩ := indirect_zero hne hsingle
          rw [hsingle]
          exact single_eq hwf hne hread (Nat.zero_le 1) (fun i hi => absurd hi (Nat.not_lt_zero i))
            (by omega)
      rw [hnil, direct_eq hwf hge hall (.inl le_rfl)]
      simp

end Collect

end RecoveryQt
