import Mcsos.Mcsfs1.Consistency

/-!
# MCSFS1: names

A directory entry stores up to 27 bytes of name, padded with zeros and without a terminator when
the name takes all 27.  `mcsfs1.c` looks for the end of a stored name in 28 bytes, and the last of
them is the first byte of the next entry.  So an entry with a name of 27 bytes is found only while
the entry behind it is empty, and in the last slot only if the byte behind the directory happens to
be zero.

`abs` is the map from names to contents that the directory stands for, read with the right length.
`NamesOk` collects what it takes for `find_dirent` to agree with it (`NamesOk.foundAt`,
`NamesOk.notFound`); its last field is the one that `mcsfs1_create` does not see to.
-/

set_option autoImplicit false

namespace Mcsos
namespace Mcsfs1

open Bytes Program

variable {dev : Blkdev} {B B' : ℕ → Block} {s t : CString} {i : ℕ}

/-! ## The map a directory stands for -/

/-- A name that can be stored. -/
structure ValidName (s : CString) : Prop where
  pos : 0 < s.length
  le : s.length ≤ maxName
  no_slash : slash ∉ s.1

/-- Entry `i` of a directory is in use and bears this name. -/
def nameMatches (dir : Block) (s : CString) (i : ℕ) : Bool :=
  Dirent.ino dir i ≠ 0 ∧ s.length ≤ maxName ∧ ∀ k, k < maxName → Dirent.name dir i k = s.view k

/-- The files of a file system, by name. -/
abbrev Files : Type := CString → Option (List UInt8)

/-- The contents of the file in slot `i`. -/
def slotBytes (B : ℕ → Block) (i : ℕ) : List UInt8 := fileBytes B (inodeAt B (slotIno B i))

/-- The files of a disk. -/
def abs (B : ℕ → Block) : Files := fun s ↦
  ((List.range direntCount).find? (nameMatches (B rootDirLba) s)).map (slotBytes B)

/-- The length of the name stored in entry `i`. -/
def nameLen (dir : Block) (i : ℕ) : ℕ := strnlen (Dirent.name dir i) maxName

/-- The names of a directory are as `mcsfs1_create` stores them, different from each other, and a
name of full length is followed by an empty entry. -/
structure NamesOk (B : ℕ → Block) : Prop where
  padded : ∀ i, Live B i → ∀ k, nameLen (B rootDirLba) i ≤ k → k < maxName →
    Dirent.name (B rootDirLba) i k = 0
  inj : ∀ i i', Live B i → Live B i' →
    (∀ k, k < maxName → Dirent.name (B rootDirLba) i k = Dirent.name (B rootDirLba) i' k) → i = i'
  ended : ∀ i, Live B i → nameLen (B rootDirLba) i = maxName →
    i + 1 < direntCount ∧ slotIno B (i + 1) = 0

theorem nameMatches_iff {dir : Block} : nameMatches dir s i = true ↔ Dirent.ino dir i ≠ 0 ∧
    s.length ≤ maxName ∧ ∀ k, k < maxName → Dirent.name dir i k = s.view k := by
  rw [nameMatches, decide_eq_true_iff]

theorem live_of_nameMatches (hi : i < direntCount) (h : nameMatches (B rootDirLba) s i = true) :
    Live B i :=
  ⟨hi, (nameMatches_iff.1 h).1⟩

/-- At most one entry bears a name. -/
theorem NamesOk.unique (hB : NamesOk B) {i' : ℕ} (hi : i < direntCount) (hi' : i' < direntCount)
    (h : nameMatches (B rootDirLba) s i = true) (h' : nameMatches (B rootDirLba) s i' = true) :
    i = i' :=
  hB.inj i i' (live_of_nameMatches hi h) (live_of_nameMatches hi' h') fun k hk ↦
    ((nameMatches_iff.1 h).2.2 k hk).trans ((nameMatches_iff.1 h').2.2 k hk).symm

/-- An entry that alone bears a name is what the name stands for. -/
theorem abs_eq_some (hi : i < direntCount) (h : nameMatches (B rootDirLba) s i = true)
    (hu : ∀ j, j < direntCount → j ≠ i → nameMatches (B rootDirLba) s j = false) :
    abs B s = some (slotBytes B i) := by
  rw [abs, Search.find?_range_eq_some hi h hu, Option.map_some]

/-- The file a name stands for, when the search for it is known to end at a slot. -/
theorem abs_of_find
    (h : (List.range direntCount).find? (nameMatches (B rootDirLba) s) = some i) :
    abs B s = some (slotBytes B i) := by
  rw [abs, h, Option.map_some]

theorem abs_eq_none_iff : abs B s = none ↔
    ∀ i, i < direntCount → nameMatches (B rootDirLba) s i = false := by
  rw [abs, Option.map_eq_none_iff]
  refine ⟨fun h i hi ↦ Search.of_find?_range_none h hi,
    fun h ↦ List.find?_eq_none.2 fun i hi hc ↦ ?_⟩
  rw [h i (List.mem_range.1 hi)] at hc
  cases hc

/-- Changes that do not touch the entry of a name, nor its file, go unnoticed. -/
theorem abs_congr (hname : ∀ i, i < direntCount →
      nameMatches (B' rootDirLba) s i = nameMatches (B rootDirLba) s i)
    (hbytes : ∀ i, i < direntCount → nameMatches (B rootDirLba) s i = true →
      slotBytes B' i = slotBytes B i) : abs B' s = abs B s := by
  rw [abs, abs, Search.find?_range_congr hname]
  cases h : (List.range direntCount).find? (nameMatches (B rootDirLba) s) with
  | none => rw [Option.map_none, Option.map_none]
  | some i =>
    obtain ⟨hi, hm⟩ := Search.of_find?_range h
    rw [Option.map_some, Option.map_some, hbytes i hi hm]

/-! ## What `find_dirent` sees -/

theorem memcmpFrom_eq_zero_iff {a b : ℕ → UInt8} {m i : ℕ} :
    memcmpFrom a b m i = 0 ↔ ∀ k, i ≤ k → k < i + m → a k = b k := by
  induction m generalizing i with
  | zero => exact ⟨fun _ k h1 h2 ↦ absurd h2 (by omega), fun _ ↦ rfl⟩
  | succ m ih =>
    rw [memcmpFrom]
    by_cases h : a i = b i
    · rw [if_neg (not_not.2 h), ih]
      refine ⟨fun hk k h1 h2 ↦ ?_, fun hk k h1 h2 ↦ hk k (by omega) (by omega)⟩
      rcases Nat.eq_or_lt_of_le h1 with rfl | h1
      · exact h
      · exact hk k h1 (by omega)
    · rw [if_pos h]
      refine ⟨fun h0 ↦ absurd (UInt8.toNat_inj.1 (by omega)) h, fun hk ↦ absurd (hk i le_rfl ?_) h⟩
      omega

theorem memcmp_eq_zero_iff {a b : ℕ → UInt8} {m : ℕ} :
    memcmp a b m = 0 ↔ ∀ k, k < m → a k = b k := by
  rw [memcmp, memcmpFrom_eq_zero_iff]
  exact ⟨fun h k hk ↦ h k (Nat.zero_le k) (by omega), fun h k _ hk ↦ h k (by omega)⟩

theorem dirByte_name {dir : Block} {p : UInt8} {k : ℕ} (hi : i < direntCount) (hk : k < maxName) :
    dirByte dir p (i * direntSize + 5 + k) = Dirent.name dir i k := by
  rw [dirByte, if_pos]
  · rfl
  · simp only [direntCount, maxName, direntSize, blockSize] at *; omega

/-- The byte behind a name is the first byte of the next entry. -/
theorem dirByte_behind {dir : Block} {p : UInt8} (hi : i + 1 < direntCount)
    (h0 : Dirent.ino dir (i + 1) = 0) : dirByte dir p (i * direntSize + 5 + maxName) = 0 := by
  have hpos : i * direntSize + 5 + maxName = (i + 1) * direntSize := by
    simp only [direntSize, maxName]; omega
  have hlt : (i + 1) * direntSize < blockSize := by
    simp only [direntCount, direntSize, blockSize] at *; omega
  rw [hpos, dirByte, if_pos hlt]
  have hb : (dir.get ((i + 1) * direntSize)).toNat = 0 := by
    have h := h0
    rw [Dirent.ino, Buf.field, le] at h
    omega
  exact UInt8.toNat_inj.1 hb

/-- Under `NamesOk`, the length that `find_dirent` determines is right. -/
theorem NamesOk.strlenBound_eq (hB : NamesOk B) (hl : Live B i) (p : UInt8) :
    strlenBound (fun k ↦ dirByte (B rootDirLba) p (i * direntSize + 5 + k)) (maxName + 1)
      = nameLen (B rootDirLba) i := by
  have hle : nameLen (B rootDirLba) i ≤ maxName := strnlen_le _ _
  refine strnlen_eq (Nat.le_succ_of_le hle) (fun k hk ↦ ?_) fun _ ↦ ?_
  · rw [dirByte_name hl.1 (lt_of_lt_of_le hk hle)]
    exact ne_zero_of_lt_strnlen hk
  · rcases Nat.lt_or_eq_of_le hle with hlt | heq
    · rw [dirByte_name hl.1 hlt]
      exact eq_zero_of_strnlen_lt hlt
    · rw [heq]
      obtain ⟨h1, h2⟩ := hB.ended i hl heq
      exact dirByte_behind h1 h2

theorem strlenBound_view (hv : ValidName s) : strlenBound s.view (maxName + 1) = s.length := by
  rw [strlenBound, CString.strnlen_view, min_eq_left (Nat.le_succ_of_le hv.le)]

theorem NameOk.length_eq {len : ℕ} (hv : ValidName s) (h : NameOk s.view len) : len = s.length :=
  h.strlen.symm.trans (strlenBound_view hv)

theorem ValidName.nameOk (hv : ValidName s) : NameOk s.view s.length where
  strlen := strlenBound_view hv
  pos := hv.pos
  le := hv.le
  no_slash i hi he := by
    rw [CString.view, List.getD_eq_getElem _ _ hi] at he
    exact hv.no_slash (he ▸ List.getElem_mem hi)

theorem NameOk.validName {len : ℕ} (h : NameOk s.view len) : ValidName s := by
  have hlen : len = s.length := by
    have h1 := h.strlen
    have h2 := h.le
    rw [strlenBound, CString.strnlen_view] at h1
    omega
  subst hlen
  refine ⟨h.pos, h.le, fun hm ↦ ?_⟩
  obtain ⟨k, hk, he⟩ := List.getElem_of_mem hm
  refine h.no_slash k hk ?_
  rw [CString.view, List.getD_eq_getElem _ _ hk, he]

/-- Under `NamesOk`, the test of `find_dirent` is the right one. -/
theorem NamesOk.direntMatches_eq (hB : NamesOk B) (hv : ValidName s) (hi : i < direntCount)
    (p : UInt8) : direntMatches (B rootDirLba) p s.view s.length i
      = nameMatches (B rootDirLba) s i := by
  rw [direntMatches, nameMatches, decide_eq_decide]
  refine and_congr_right fun h0 ↦ ?_
  have hl : Live B i := ⟨hi, h0⟩
  rw [hB.strlenBound_eq hl, memcmp_eq_zero_iff]
  constructor
  · rintro ⟨hlen, heq⟩
    refine ⟨hv.le, fun k hk ↦ ?_⟩
    by_cases hks : k < s.length
    · exact heq k hks
    · rw [hB.padded i hl k (hlen ▸ not_lt.1 hks) hk, CString.view_eq_zero (not_lt.1 hks)]
  · rintro ⟨-, heq⟩
    refine ⟨?_, fun k hk ↦ heq k (lt_of_lt_of_le hk hv.le)⟩
    rw [nameLen, strnlen_congr heq, CString.strnlen_view, min_eq_left hv.le]

/-- Under `NamesOk`, the entry that is found is the right one. -/
theorem NamesOk.foundAt (hB : NamesOk B) (h : FoundAt dev (B rootDirLba) s.view i) :
    ValidName s ∧ i < direntCount ∧ nameMatches (B rootDirLba) s i = true ∧
      abs B s = some (slotBytes B i) := by
  obtain ⟨len, p, hname, hfind⟩ := h
  have hv := hname.validName
  rw [hname.length_eq hv, Search.find?_range_congr fun i hi ↦ hB.direntMatches_eq hv hi _] at hfind
  obtain ⟨hi, hm⟩ := Search.of_find?_range hfind
  exact ⟨hv, hi, hm, abs_of_find hfind⟩

theorem NamesOk.notFound (hB : NamesOk B) (h : NotFound dev (B rootDirLba) s.view) :
    ValidName s ∧ abs B s = none := by
  obtain ⟨len, p, hname, hfind⟩ := h
  have hv := hname.validName
  rw [hname.length_eq hv, Search.find?_range_congr fun i hi ↦ hB.direntMatches_eq hv hi _] at hfind
  exact ⟨hv, by rw [abs, hfind, Option.map_none]⟩

theorem Rejected.not_valid {e : Err} (h : Rejected s.view e) : ¬ ValidName s := fun hv ↦
  h.2 _ hv.nameOk

end Mcsfs1
end Mcsos
