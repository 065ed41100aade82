import RecoveryQt.Fat.DirectoryFormat

/-!
# The names that the FAT directory decoder lists

* `convert`: the conversion of the units of a name; `nameBytes_eq`: the loop of `dir_fat_aux` does it;
* **`convert_eq_iff`**: when the bytes are those of the name.
-/

namespace RecoveryQt

open List

/-- The bytes of some units, and whether `utf8` is still set behind them. -/
def convert : Bool → List ℕ → List UInt8 × Bool
  | utf8, [] => ([], utf8)
  | utf8, u :: l =>
    if utf8 ∧ 0x7F < u then
      match wctomb u with
      | none => (UInt8.ofNat u :: (convert false l).1, (convert false l).2)
      | some bytes => (bytes ++ (convert utf8 l).1, (convert utf8 l).2)
    else (UInt8.ofNat u :: (convert utf8 l).1, (convert utf8 l).2)

/-- A character of UTF-16 is encoded in UTF-8, half of one is refused. -/
theorem wctomb_eq {u : ℕ} (hu : u < 0x10000) : wctomb u = if IsSurrogate u then none else some (utf8Bytes u) := by
  unfold wctomb
  by_cases hs : IsSurrogate u
  · have hnot : ¬ u.isValidChar := fun h => by
      unfold IsSurrogate at hs
      unfold Nat.isValidChar at h
      omega
    rw [if_neg hnot, if_pos hs]
  · have hvalid : u.isValidChar := by
      unfold IsSurrogate at hs
      unfold Nat.isValidChar
      omega
    have hval : (Char.ofNat u).val.toNat = u := by
      rw [Char.ofNat, dif_pos hvalid]
      rfl
    rw [if_pos hvalid, if_neg hs]
    unfold String.utf8EncodeChar utf8Bytes
    simp only [hval]
    congr 1
    by_cases hone : u < 0x80
    · rw [if_pos (by omega), if_pos hone]
    by_cases htwo : u < 0x800
    · rw [if_neg (by omega), if_pos (by omega), if_neg hone, if_pos htwo,
        Nat.mod_eq_of_lt (show u / 64 < 32 by omega), Nat.add_comm (u / 64), Nat.add_comm (u % 64)]
    · rw [if_neg (by omega), if_neg (by omega), if_pos (by omega), if_neg hone, if_neg htwo, if_pos hu,
        Nat.mod_eq_of_lt (show u / 4096 < 16 by omega), Nat.add_comm (u / 4096), Nat.add_comm (u / 64 % 64),
        Nat.add_comm (u % 64)]

theorem length_utf8Bytes_pos (u : ℕ) : 0 < (utf8Bytes u).length := by
  unfold utf8Bytes
  split_ifs <;> exact Nat.succ_pos _

theorem utf8Bytes_ascii {u : ℕ} (hu : u < 0x80) : utf8Bytes u = [UInt8.ofNat u] := if_pos hu

theorem one_lt_length_utf8Bytes {u : ℕ} (hu : 0x80 ≤ u) : 1 < (utf8Bytes u).length := by
  unfold utf8Bytes
  rw [if_neg (by omega)]
  split_ifs <;> simp

theorem length_utf8Bytes_le {u : ℕ} (hu : u < 0x10000) : (utf8Bytes u).length ≤ 3 := by
  unfold utf8Bytes
  rw [if_pos hu]
  split_ifs <;> simp

/-! ## The loop -/

theorem length_le_convert (utf8 : Bool) (l : List ℕ) : l.length ≤ (convert utf8 l).1.length := by
  induction l generalizing utf8 with
  | nil => exact Nat.zero_le _
  | cons u l ih =>
    rw [convert]
    split_ifs with h
    · cases hw : wctomb u with
      | none => exact Nat.succ_le_succ (ih false)
      | some bytes =>
        have hpos : 0 < bytes.length := by
          unfold wctomb at hw
          split_ifs at hw
          · cases hw
            rw [String.length_utf8EncodeChar]
            exact Char.utf8Size_pos _
        have := ih utf8
        simp only [length_append, length_cons]
        omega
    · exact Nat.succ_le_succ (ih utf8)

theorem length_convert_le {l : List ℕ} (hl : ∀ u ∈ l, u < 0x10000) (utf8 : Bool) :
    (convert utf8 l).1.length ≤ 3 * l.length := by
  induction l generalizing utf8 with
  | nil => exact Nat.zero_le _
  | cons u l ih =>
    obtain ⟨hu, hl⟩ := forall_mem_cons.mp hl
    have htrue := ih hl utf8
    have hfalse := ih hl false
    have hbytes := length_utf8Bytes_le hu
    rw [convert, wctomb_eq hu]
    split_ifs with h hs
    · simp only [length_cons]
      omega
    · simp only [length_append, length_cons]
      omega
    · simp only [length_cons]
      omega

/-- **The loop of `dir_fat_aux` converts the units up to the first zero**, if there is room for the bytes. -/
theorem nameBytes_eq {unicode : ℕ → ℕ} {l : List ℕ} {n i : ℕ} {utf8 : Bool} {out : List UInt8}
    (hl : ∀ k (hk : k < l.length), unicode (i + k) = l[k]) (hend : unicode (i + l.length) = 0)
    (hne : ∀ u ∈ l, u ≠ 0) (hroom : out.length + (convert utf8 l).1.length ≤ dirNameLen - 2)
    (hn : l.length ≤ n) :
    nameBytes unicode n i utf8 out = (out ++ (convert utf8 l).1, (convert utf8 l).2) := by
  induction l generalizing n i utf8 out with
  | nil =>
    rw [convert, append_nil]
    cases n with
    | zero => rfl
    | succ n => exact if_neg fun h => h.2 hend
  | cons u l ih =>
    obtain ⟨n, rfl⟩ : ∃ k, n = k + 1 := ⟨n - 1, by rw [length_cons] at hn; omega⟩
    obtain ⟨hu, hne⟩ := forall_mem_cons.mp hne
    have hi : unicode i = u := hl 0 (Nat.succ_pos _)
    have hrest : ∀ k (hk : k < l.length), unicode (i + 1 + k) = l[k] := fun k hk => by
      rw [show i + 1 + k = i + (k + 1) by omega]
      exact hl (k + 1) (Nat.succ_lt_succ hk)
    have hlast : unicode (i + 1 + l.length) = 0 := by
      rw [show i + 1 + l.length = i + (l.length + 1) by omega]
      exact hend
    have hlt : out.length < dirNameLen - 2 := by
      have := length_le_convert utf8 (u :: l)
      rw [length_cons] at this
      omega
    rw [nameBytes, hi, if_pos ⟨hlt, hu⟩]
    rw [convert] at hroom ⊢
    rw [length_cons] at hn
    split_ifs at hroom ⊢ with h
    · cases hw : wctomb u with
      | none =>
        simp only [hw, length_cons] at hroom
        simp only
        rw [ih hrest hlast hne (by simp only [length_append, length_cons, length_nil]; omega) (by omega),
          append_assoc, singleton_append]
      | some bytes =>
        simp only [hw, length_append] at hroom
        simp only
        rw [ih hrest hlast hne (by rw [length_append]; omega) (by omega), append_assoc]
    · simp only [length_cons] at hroom
      rw [ih hrest hlast hne (by simp only [length_append, length_cons, length_nil]; omega) (by omega),
        append_assoc, singleton_append]

/-! ## Blanks -/

theorem mem_utf16Bytes {l : List ℕ} {u : ℕ} (hu : u ∈ l) (hascii : u < 0x80) : UInt8.ofNat u ∈ utf16Bytes l := by
  have hself : UInt8.ofNat u ∈ utf8Bytes u := by
    rw [utf8Bytes_ascii hascii]
    exact mem_cons_self
  induction l using utf16Bytes.induct with
  | case1 => cases hu
  | case2 v =>
    obtain rfl := mem_singleton.mp hu
    exact hself
  | case3 v w l h ih =>
    rw [utf16Bytes, if_pos h]
    rcases mem_cons.mp hu with rfl | hu
    · omega
    rcases mem_cons.mp hu with rfl | hu
    · omega
    exact mem_append_right _ (ih hu)
  | case4 v w l h ih =>
    rw [utf16Bytes, if_neg h]
    rcases mem_cons.mp hu with rfl | hu
    · exact mem_append_left _ hself
    · exact mem_append_right _ (ih hu)

/-- The conversion makes no blanks. -/
theorem not_mem_convert {l : List ℕ} (hl : ∀ u ∈ l, u < 256 ∧ u ≠ 0x20) (utf8 : Bool) :
    (0x20 : UInt8) ∉ (convert utf8 l).1 := by
  induction l generalizing utf8 with
  | nil => exact not_mem_nil
  | cons u l ih =>
    obtain ⟨⟨hu, hblank⟩, hl⟩ := forall_mem_cons.mp hl
    have hone : (0x20 : UInt8) ≠ UInt8.ofNat u := fun h => hblank <| by
      have hnat := congrArg UInt8.toNat h
      rw [UInt8.toNat_ofNat_of_lt' hu] at hnat
      exact hnat.symm
    have hbytes : 0x80 ≤ u → (0x20 : UInt8) ∉ utf8Bytes u := by
      have hall : ∀ u < 256, 0x80 ≤ u → (0x20 : UInt8) ∉ utf8Bytes u := by decide +kernel
      exact hall u hu
    rw [convert, wctomb_eq (by omega)]
    split_ifs with h hs
    · exact fun hmem => (mem_cons.mp hmem).elim hone (ih hl false)
    · exact fun hmem => (mem_append.mp hmem).elim (hbytes (by omega)) (ih hl utf8)
    · exact fun hmem => (mem_cons.mp hmem).elim hone (ih hl utf8)

/-! ## Where the conversion is right -/

/-- Without surrogates the units are encoded one by one. -/
theorem utf16Bytes_of_whole {l : List ℕ} (hl : ∀ u ∈ l, ¬ IsSurrogate u) : utf16Bytes l = l.flatMap utf8Bytes := by
  induction l using utf16Bytes.induct with
  | case1 => rfl
  | case2 u => exact (append_nil _).symm
  | case3 u v l h ih =>
    have := hl u mem_cons_self
    unfold IsSurrogate at this
    omega
  | case4 u v l h ih =>
    rw [utf16Bytes, if_neg h, ih (forall_mem_cons.mp hl).2]
    rfl

theorem convert_of_whole {l : List ℕ} (hl : ∀ u ∈ l, u < 0x10000) (hw : ∀ u ∈ l, ¬ IsSurrogate u) :
    convert true l = (l.flatMap utf8Bytes, true) := by
  induction l with
  | nil => rfl
  | cons u l ih =>
    obtain ⟨hu, hl⟩ := forall_mem_cons.mp hl
    obtain ⟨hs, hw⟩ := forall_mem_cons.mp hw
    rw [convert, wctomb_eq hu, ih hl hw, flatMap_cons]
    split_ifs with h
    · rfl
    · rw [utf8Bytes_ascii (by simp only [true_and] at h; omega)]
      rfl

theorem convert_of_ascii {l : List ℕ} (hl : ∀ u ∈ l, u < 0x80) (utf8 : Bool) :
    convert utf8 l = (l.flatMap utf8Bytes, utf8) := by
  induction l with
  | nil => rfl
  | cons u l ih =>
    obtain ⟨hu, hl⟩ := forall_mem_cons.mp hl
    rw [convert, if_neg (by omega), ih hl, flatMap_cons, utf8Bytes_ascii hu]
    rfl

/-- `utf8` stays as it is where no character is refused. -/
theorem convert_utf8 {l : List ℕ} (hl : ∀ u ∈ l, u < 0x10000) (hw : ∀ u ∈ l, ¬ IsSurrogate u) (utf8 : Bool) :
    (convert utf8 l).2 = utf8 := by
  cases utf8 with
  | true => rw [convert_of_whole hl hw]
  | false =>
    clear hl hw
    induction l with
    | nil => rfl
    | cons u l ih => rw [convert, if_neg (by simp), ih]

/-- The bytes that a unit gives at most, one if it is half of a character. -/
def unitBytes (u : ℕ) : ℕ := if IsSurrogate u then 1 else (utf8Bytes u).length

theorem length_convert_le_sum {l : List ℕ} (hl : ∀ u ∈ l, u < 0x10000) (utf8 : Bool) :
    (convert utf8 l).1.length ≤ (l.map unitBytes).sum := by
  induction l generalizing utf8 with
  | nil => exact Nat.zero_le _
  | cons u l ih =>
    obtain ⟨hu, hl⟩ := forall_mem_cons.mp hl
    have hpos := length_utf8Bytes_pos u
    have htrue := ih hl utf8
    have hfalse := ih hl false
    rw [convert, wctomb_eq hu, map_cons, sum_cons, unitBytes]
    split_ifs with h hs hs
    · simp only [length_cons]
      omega
    · simp only [length_append]
      omega
    · simp only [length_cons]
      omega
    · simp only [length_cons]
      omega

/-- What is counted for each unit is no more than its bytes, and less if it is for one that it holds of. -/
theorem sum_le_utf16Bytes {w : ℕ → ℕ} {P : ℕ → Prop}
    (hunit : ∀ u, w u ≤ (utf8Bytes u).length ∧ (P u → w u < (utf8Bytes u).length))
    (hhalf : ∀ u, IsSurrogate u → w u = 1) (l : List ℕ) : (l.map w).sum ≤ (utf16Bytes l).length ∧
      ((∃ u ∈ l, P u) → (l.map w).sum < (utf16Bytes l).length) := by
  induction l using utf16Bytes.induct with
  | case1 => simp [utf16Bytes]
  | case2 u => simpa [utf16Bytes] using hunit u
  | case3 u v l h ih =>
    have hu : w u = 1 := hhalf u (by unfold IsSurrogate; omega)
    have hv : w v = 1 := hhalf v (by unfold IsSurrogate; omega)
    have hpair : (utf8Bytes (0x10000 + (u - 0xD800) * 1024 + (v - 0xDC00))).length = 4 := by
      unfold utf8Bytes
      rw [if_neg (by omega), if_neg (by omega), if_neg (by omega)]
      rfl
    have := ih.1
    rw [utf16Bytes, if_pos h, length_append, hpair, map_cons, map_cons, sum_cons, sum_cons, hu, hv]
    exact ⟨by omega, fun _ => by omega⟩
  | case4 u v l h ih =>
    have := hunit u
    rw [utf16Bytes, if_neg h, length_append, map_cons, sum_cons]
    refine ⟨by omega, ?_⟩
    rintro ⟨x, hx, hs⟩
    rcases mem_cons.mp hx with rfl | hx
    · have := this.2 hs
      omega
    · have := ih.2 ⟨x, hx, hs⟩
      omega

/-- A half of a character needs more than one byte. -/
theorem sum_unitBytes {l : List ℕ} : (l.map unitBytes).sum ≤ (utf16Bytes l).length ∧
    ((∃ u ∈ l, IsSurrogate u) → (l.map unitBytes).sum < (utf16Bytes l).length) := by
  refine sum_le_utf16Bytes (w := unitBytes) (fun u => ?_) (fun u hu => if_pos hu) l
  unfold unitBytes
  split_ifs with h
  · have : 1 < (utf8Bytes u).length := one_lt_length_utf8Bytes (by unfold IsSurrogate at h; omega)
    exact ⟨by omega, fun _ => this⟩
  · exact ⟨le_refl _, fun hu => absurd hu h⟩

/-- Without `utf8` every unit gives one byte, and a character that is not of ASCII needs more. -/
theorem length_convert_false (l : List ℕ) : (convert false l).1.length = l.length := by
  induction l with
  | nil => rfl
  | cons u l ih => rw [convert, if_neg (by simp), length_cons, length_cons, ih]

theorem length_le_utf16Bytes {l : List ℕ} : l.length ≤ (utf16Bytes l).length ∧
    ((∃ u ∈ l, 0x80 ≤ u) → l.length < (utf16Bytes l).length) := by
  have hsum := sum_le_utf16Bytes (w := fun _ => 1) (P := fun u => 0x80 ≤ u)
    (fun u => ⟨length_utf8Bytes_pos u, one_lt_length_utf8Bytes⟩) (fun _ _ => rfl) l
  simpa using hsum

/-- **The bytes are those of the name** exactly if it holds no half of a character, and `utf8` is still set or the
name is one of ASCII. -/
theorem convert_eq_iff {l : List ℕ} (hl : ∀ u ∈ l, u < 0x10000) (utf8 : Bool) :
    (convert utf8 l).1 = utf16Bytes l ↔
      (∀ u ∈ l, ¬ IsSurrogate u) ∧ (utf8 = true ∨ ∀ u ∈ l, u < 0x80) := by
  constructor
  · intro h
    have hlen := congrArg length h
    constructor
    · intro u hu hs
      have hsum := length_convert_le_sum hl utf8
      have := sum_unitBytes.2 ⟨u, hu, hs⟩
      omega
    · cases utf8 with
      | true => exact Or.inl rfl
      | false =>
        refine Or.inr fun u hu => ?_
        rw [length_convert_false] at hlen
        by_contra hlarge
        have := length_le_utf16Bytes.2 ⟨u, hu, not_lt.mp hlarge⟩
        omega
  · rintro ⟨hw, rfl | hascii⟩
    · rw [convert_of_whole hl hw, utf16Bytes_of_whole hw]
    · rw [convert_of_ascii hascii, utf16Bytes_of_whole hw]

end RecoveryQt
