import Mcsos.Lib.Traced
import Mcsos.Mcsfs1.Names

/-!
# MCSFS1: where a lookup looks

`find_dirent` has the directory in a buffer of 512 bytes and goes through its 16 entries.  This file
is about the bytes of the buffer that it reads: its loops are written down once more with a record
of their reads, and `val_scanDirents` says that they compute what the model of `find_dirent`
computes.

An entry ends with 27 bytes of name, and the end of the name is looked for in 28.  So the test of an
entry reads one byte too many if the name has no terminator (`Full`).  For all entries but the last
it is the first byte of the next entry, and for the last one it is behind the buffer.  Whether an
entry matches then hangs on that byte if the name is the one that is looked for, and on nothing but
the entry itself otherwise (`selfContained_iff`).
-/

set_option autoImplicit false

namespace Mcsos
namespace Mcsfs1

open Bytes Program Traced

/-! ## The loops, with their reads -/

/-- `mcsfs_strlen_bound` on the string at `s`, with `m` bytes to go from byte `n` on. -/
def strlenBoundFrom (mem : ℕ → UInt8) (s : ℕ) : ℕ → ℕ → Traced ℕ
  | 0, n => pure n
  | m + 1, n => do
    let c ← look mem (s + n)
    if c = 0 then pure n else strlenBoundFrom mem s m (n + 1)

/-- `mcsfs_memcmp` of the bytes at `a` with a name, with `m` bytes to go from byte `i` on. -/
def memcmpAt (mem : ℕ → UInt8) (a : ℕ) (name : ℕ → UInt8) : ℕ → ℕ → Traced ℤ
  | 0, _ => pure 0
  | m + 1, i => do
    let x ← look mem (a + i)
    if x ≠ name i then pure ((x.toNat : ℤ) - (name i).toNat) else memcmpAt mem a name m (i + 1)

/-- The test of `find_dirent` on entry `i`. -/
def testDirent (mem name : ℕ → UInt8) (nameLen i : ℕ) : Traced Bool := do
  let ino ← lookLE mem (i * direntSize) 4
  if ino = 0 then pure false
  else do
    let len ← strlenBoundFrom mem (i * direntSize + 5) (maxName + 1) 0
    if len ≠ nameLen then pure false
    else do
      let c ← memcmpAt mem (i * direntSize + 5) name nameLen 0
      pure (c = 0)

/-- The loop of `find_dirent`. -/
def scanDirents (dir : Block) (past : UInt8) (name : ℕ → UInt8) (nameLen : ℕ) : Traced (Option ℕ) :=
  firstFrom (testDirent (dirByte dir past) name nameLen) direntCount 0

section Loops

variable {mem name : ℕ → UInt8} {s m n i k nameLen : ℕ} {dir : Block} {past : UInt8}

/-- The string from byte `n + 1` on. -/
theorem shift_view (mem : ℕ → UInt8) (s n : ℕ) :
    (fun i ↦ mem (s + n + (i + 1))) = fun i ↦ mem (s + (n + 1) + i) := by
  funext i
  congr 1
  omega

theorem val_strlenBoundFrom :
    (strlenBoundFrom mem s m n).val = n + strnlen (fun i ↦ mem (s + n + i)) m := by
  induction m generalizing n with
  | zero => rfl
  | succ m ih =>
    rw [strlenBoundFrom, val_bind, val_look, val_ite, val_pure, ih, strnlen, shift_view]
    simp only [Nat.add_zero]
    split <;> omega

/-- All bytes up to the terminator are read, and the terminator if it comes in time. -/
theorem mem_reads_strlenBoundFrom : k ∈ (strlenBoundFrom mem s m n).reads ↔
    s + n ≤ k ∧ k < s + n + m ∧ k ≤ s + n + strnlen (fun i ↦ mem (s + n + i)) m := by
  induction m generalizing n with
  | zero =>
    simp only [strlenBoundFrom, reads_pure, List.not_mem_nil, false_iff]
    omega
  | succ m ih =>
    rw [strlenBoundFrom, reads_bind, reads_look, val_look, reads_ite, reads_pure, List.mem_append,
      List.mem_singleton, strnlen, shift_view]
    simp only [Nat.add_zero]
    split
    · simp only [List.not_mem_nil, or_false]
      omega
    · rw [ih]
      omega

theorem val_memcmpAt :
    (memcmpAt mem s name m i).val = memcmpFrom (fun k ↦ mem (s + k)) name m i := by
  induction m generalizing i with
  | zero => rfl
  | succ m ih => rw [memcmpAt, memcmpFrom, val_bind, val_look, val_ite, val_pure, ih]

theorem of_mem_reads_memcmpAt (h : k ∈ (memcmpAt mem s name m i).reads) :
    s + i ≤ k ∧ k < s + i + m := by
  induction m generalizing i with
  | zero => exact absurd h List.not_mem_nil
  | succ m ih =>
    rw [memcmpAt, reads_bind, reads_look, List.mem_append, List.mem_singleton, reads_ite,
      reads_pure] at h
    rcases h with rfl | h
    · omega
    · split at h
      · exact absurd h List.not_mem_nil
      · have := ih h
        omega

/-- The number of an entry's inode is read inside the block. -/
theorem le_dirByte (hi : i < direntCount) :
    le (dirByte dir past) (i * direntSize) 4 = Dirent.ino dir i := by
  refine le_congr fun k h1 h2 ↦ ?_
  rw [dirByte, if_pos]
  simp only [direntCount, direntSize, blockSize] at *
  omega

/-- With its reads left out this is the test of the model. -/
theorem val_testDirent (hi : i < direntCount) (hlen : nameLen ≤ maxName) :
    (testDirent (dirByte dir past) name nameLen i).val
      = direntMatches dir past name nameLen i := by
  have hcmp : memcmpFrom (fun k ↦ dirByte dir past (i * direntSize + 5 + k)) name nameLen 0 = 0 ↔
      memcmp (Dirent.name dir i) name nameLen = 0 := by
    rw [memcmp, memcmpFrom_eq_zero_iff, memcmpFrom_eq_zero_iff]
    refine forall_congr' fun k ↦ forall_congr' fun _ ↦ forall_congr' fun hk ↦ ?_
    rw [dirByte_name hi (by omega)]
  rw [testDirent, val_bind, val_lookLE, le_dirByte hi, val_ite, val_pure, val_bind, val_ite,
    val_pure, val_bind, val_pure, val_strlenBoundFrom, val_memcmpAt, Nat.zero_add, Nat.add_zero,
    direntMatches, strlenBound]
  by_cases h0 : Dirent.ino dir i = 0
  · simp [h0]
  · by_cases h1 : strnlen (fun k ↦ dirByte dir past (i * direntSize + 5 + k)) (maxName + 1)
        = nameLen
    · simp only [h0, h1, hcmp, if_false, ne_eq, not_true_eq_false, not_false_eq_true, true_and]
    · simp [h0, h1]

/-- The loops with a record of their reads compute what the model of `find_dirent` does. -/
theorem val_scanDirents (hlen : nameLen ≤ maxName) : (scanDirents dir past name nameLen).val
    = (List.range direntCount).find? (direntMatches dir past name nameLen) := by
  rw [scanDirents, val_firstFrom, ← List.range_eq_range']
  exact Search.find?_range_congr fun i hi ↦ val_testDirent hi hlen

end Loops

/-! ## Entries -/

/-- Entry `i` is in use, and its name fills all 27 bytes. -/
def Full (dir : Block) (i : ℕ) : Prop :=
  Dirent.ino dir i ≠ 0 ∧ ∀ k, k < maxName → Dirent.name dir i k ≠ 0

/-- Entry `i` is in use and bears a name, of which it has stored up to 27 bytes. -/
def Bears (dir : Block) (name : ℕ → UInt8) (nameLen i : ℕ) : Prop :=
  Dirent.ino dir i ≠ 0 ∧ strnlen (Dirent.name dir i) maxName = nameLen ∧
    ∀ k, k < nameLen → Dirent.name dir i k = name k

instance (dir : Block) (i : ℕ) : Decidable (Full dir i) := inferInstanceAs (Decidable (_ ∧ _))

instance (dir : Block) (name : ℕ → UInt8) (nameLen i : ℕ) : Decidable (Bears dir name nameLen i) :=
  inferInstanceAs (Decidable (_ ∧ _))

/-- The two directories have the same entry `i`. -/
def SameEntry (dir dir' : Block) (i : ℕ) : Prop :=
  ∀ k, k < direntSize → dir'.get (i * direntSize + k) = dir.get (i * direntSize + k)

section Entries

variable {dir dir' : Block} {past : UInt8} {name : ℕ → UInt8} {nameLen i k : ℕ}

/-- The byte behind entry `i`. -/
def behind (dir : Block) (past : UInt8) (i : ℕ) : UInt8 :=
  dirByte dir past (i * direntSize + direntSize)

theorem SameEntry.ino_eq (h : SameEntry dir dir' i) : Dirent.ino dir' i = Dirent.ino dir i := by
  refine le_congr fun k h1 h2 ↦ ?_
  have := h (k - i * direntSize) (by simp only [direntSize] at *; omega)
  rwa [Nat.add_sub_cancel' h1] at this

theorem SameEntry.name_eq (h : SameEntry dir dir' i) (hk : k < maxName) :
    Dirent.name dir' i k = Dirent.name dir i k := by
  have := h (5 + k) (by simp only [direntSize, maxName] at *; omega)
  rwa [← Nat.add_assoc] at this

theorem SameEntry.full_iff (h : SameEntry dir dir' i) : Full dir' i ↔ Full dir i := by
  rw [Full, Full, h.ino_eq]
  refine and_congr_right fun _ ↦ forall_congr' fun k ↦ forall_congr' fun hk ↦ ?_
  rw [h.name_eq hk]

theorem SameEntry.bears_iff (h : SameEntry dir dir' i) (hlen : nameLen ≤ maxName) :
    Bears dir' name nameLen i ↔ Bears dir name nameLen i := by
  rw [Bears, Bears, h.ino_eq, strnlen_congr fun k hk ↦ h.name_eq hk]
  refine and_congr_right fun _ ↦ and_congr_right fun _ ↦ forall_congr' fun k ↦
    forall_congr' fun hk ↦ ?_
  rw [h.name_eq (by omega)]

theorem Full.length_eq (h : Full dir i) : strnlen (Dirent.name dir i) maxName = maxName :=
  strnlen_eq le_rfl h.2 fun hlt ↦ absurd hlt (lt_irrefl _)

theorem length_lt_of_not_full (h0 : Dirent.ino dir i ≠ 0) (h : ¬ Full dir i) :
    strnlen (Dirent.name dir i) maxName < maxName := by
  refine lt_of_le_of_ne (strnlen_le _ _) fun heq ↦ h ⟨h0, fun k hk ↦ ?_⟩
  exact ne_zero_of_lt_strnlen (heq.symm ▸ hk)

/-- A name with a terminator has the same length in 27 bytes and in 28. -/
theorem strlenBound_of_not_full (hi : i < direntCount) (h0 : Dirent.ino dir i ≠ 0)
    (h : ¬ Full dir i) :
    strlenBound (fun k ↦ dirByte dir past (i * direntSize + 5 + k)) (maxName + 1)
      = strnlen (Dirent.name dir i) maxName := by
  have hlt := length_lt_of_not_full h0 h
  refine strnlen_eq (by omega) (fun k hk ↦ ?_) fun _ ↦ ?_
  · rw [dirByte_name hi (by omega)]
    exact ne_zero_of_lt_strnlen hk
  · rw [dirByte_name hi hlt]
    exact eq_zero_of_strnlen_lt hlt

/-- A name without one has it found in the byte behind the entry, or not at all. -/
theorem strlenBound_of_full (hi : i < direntCount) (h : Full dir i) :
    strlenBound (fun k ↦ dirByte dir past (i * direntSize + 5 + k)) (maxName + 1)
      = if behind dir past i = 0 then maxName else maxName + 1 := by
  have hbehind : dirByte dir past (i * direntSize + 5 + maxName) = behind dir past i := rfl
  split
  · rename_i h0
    refine strnlen_eq (Nat.le_succ _) (fun k hk ↦ ?_) fun _ ↦ hbehind.trans h0
    rw [dirByte_name hi hk]
    exact h.2 k hk
  · rename_i h0
    refine strnlen_eq le_rfl (fun k hk ↦ ?_) fun hlt ↦ absurd hlt (lt_irrefl _)
    rcases Nat.eq_or_lt_of_le (Nat.le_of_lt_succ hk) with rfl | hk
    · exact fun hz ↦ h0 (hbehind.symm.trans hz)
    · rw [dirByte_name hi hk]
      exact h.2 k hk

/-- An entry with a terminator matches the name that it bears. -/
theorem direntMatches_of_not_full (hi : i < direntCount) (h : ¬ Full dir i) :
    direntMatches dir past name nameLen i = true ↔ Bears dir name nameLen i := by
  rw [direntMatches, decide_eq_true_iff, Bears, memcmp_eq_zero_iff]
  refine and_congr_right fun h0 ↦ ?_
  rw [strlenBound_of_not_full hi h0 h]

/-- An entry without a terminator matches the name that it bears if the next byte is zero. -/
theorem direntMatches_of_full (hi : i < direntCount) (hlen : nameLen ≤ maxName) (h : Full dir i) :
    direntMatches dir past name nameLen i = true ↔
      Bears dir name nameLen i ∧ behind dir past i = 0 := by
  rw [direntMatches, decide_eq_true_iff, Bears, memcmp_eq_zero_iff, strlenBound_of_full hi h,
    h.length_eq]
  split
  · rename_i h0
    simp only [h0, and_true]
  · rename_i h0
    simp only [h0, and_false, iff_false]
    rintro ⟨-, hlen', -⟩
    omega

/-- The byte behind an entry can be anything. -/
theorem exists_sameEntry (dir : Block) (i : ℕ) (v : UInt8) :
    ∃ dir' past', SameEntry dir dir' i ∧ behind dir' past' i = v := by
  by_cases hlast : i * direntSize + direntSize < blockSize
  · refine ⟨dir.put (i * direntSize + direntSize) v, 0, fun k hk ↦ ?_, ?_⟩
    · exact Buf.get_put_of_ne _ (by omega) v
    · rw [behind, dirByte, if_pos hlast, Buf.get_put_self _ hlast]
  · exact ⟨dir, v, fun k hk ↦ rfl, by rw [behind, dirByte, if_neg hlast]⟩

/-- Whether entry `i` matches depends on the entry and the name only. -/
def SelfContained (dir : Block) (past : UInt8) (name : ℕ → UInt8) (nameLen i : ℕ) : Prop :=
  ∀ dir' past', SameEntry dir dir' i →
    direntMatches dir' past' name nameLen i = direntMatches dir past name nameLen i

theorem selfContained_iff (hi : i < direntCount) (hlen : nameLen ≤ maxName) :
    SelfContained dir past name nameLen i ↔ ¬ (Full dir i ∧ Bears dir name nameLen i) := by
  constructor
  · rintro h ⟨hfull, hbears⟩
    -- the entry matches in front of a zero and does not match in front of a one
    have hmatch : ∀ v : UInt8, direntMatches dir past name nameLen i = true ↔ v = 0 := by
      intro v
      obtain ⟨dir', past', hsame, hv⟩ := exists_sameEntry dir i v
      rw [← h dir' past' hsame, direntMatches_of_full hi hlen (hsame.full_iff.2 hfull), hv,
        and_iff_right ((hsame.bears_iff hlen).2 hbears)]
    exact absurd ((hmatch 1).1 ((hmatch 0).2 rfl)) (by decide)
  · intro h dir' past' hsame
    rw [Bool.eq_iff_iff]
    by_cases hfull : Full dir i
    · rw [direntMatches_of_full hi hlen (hsame.full_iff.2 hfull),
        direntMatches_of_full hi hlen hfull, hsame.bears_iff hlen]
      have hno : ¬ Bears dir name nameLen i := fun hb ↦ h ⟨hfull, hb⟩
      simp only [hno, false_and]
    · rw [direntMatches_of_not_full hi fun hf ↦ hfull (hsame.full_iff.1 hf),
        direntMatches_of_not_full hi hfull, hsame.bears_iff hlen]

end Entries

/-! ## The end of the buffer -/

section Inside

variable {dir : Block} {past : UInt8} {name : ℕ → UInt8} {nameLen i k : ℕ}

/-- What the test of an entry reads lies in the entry, but for one byte. -/
theorem of_mem_reads_testDirent (hi : i < direntCount) (hlen : nameLen ≤ maxName)
    (hk : k ∈ (testDirent (dirByte dir past) name nameLen i).reads) :
    k < i * direntSize + direntSize ∨ k = i * direntSize + direntSize ∧ Full dir i := by
  rw [testDirent, reads_bind, val_lookLE, le_dirByte hi, reads_ite, reads_pure, reads_bind,
    reads_ite, reads_pure, reads_bind, reads_pure, List.append_nil, List.mem_append,
    mem_reads_lookLE] at hk
  rcases hk with hk | hk
  · exact .inl (by simp only [direntSize] at *; omega)
  · split at hk
    · exact absurd hk List.not_mem_nil
    · rename_i h0
      rcases List.mem_append.1 hk with hk | hk
      · -- looking for the end of the name
        obtain ⟨-, h2, h3⟩ := mem_reads_strlenBoundFrom.1 hk
        simp only [Nat.add_zero] at h2 h3
        by_cases hfull : Full dir i
        · refine (Nat.lt_or_ge k (i * direntSize + direntSize)).imp id fun hge ↦ ⟨?_, hfull⟩
          simp only [direntSize, maxName] at *
          omega
        · have hlt := length_lt_of_not_full h0 hfull
          rw [← strlenBound, strlenBound_of_not_full hi h0 hfull] at h3
          exact .inl (by simp only [direntSize, maxName] at *; omega)
      · -- comparing it
        split at hk
        · exact absurd hk List.not_mem_nil
        · have := of_mem_reads_memcmpAt hk
          exact .inl (by simp only [direntSize, maxName] at *; omega)

/-- And that byte is read. -/
theorem mem_reads_testDirent_of_full (hi : i < direntCount) (h : Full dir i) :
    i * direntSize + direntSize ∈ (testDirent (dirByte dir past) name nameLen i).reads := by
  rw [testDirent, reads_bind, val_lookLE, le_dirByte hi, if_neg h.1, reads_bind]
  refine List.mem_append_right _ (List.mem_append_left _ (mem_reads_strlenBoundFrom.2 ?_))
  have hlen : strlenBound (fun k ↦ dirByte dir past (i * direntSize + 5 + k)) (maxName + 1) = _ :=
    strlenBound_of_full hi h
  rw [strlenBound] at hlen
  simp only [Nat.add_zero]
  rw [hlen]
  simp only [direntSize, maxName]
  split <;> omega

/-- The search stays inside the block unless it gets to the last entry and that has no
terminator. -/
theorem reads_scanDirents_lt_iff (hlen : nameLen ≤ maxName) :
    (∀ k ∈ (scanDirents dir past name nameLen).reads, k < blockSize) ↔
      (Full dir 15 → ∃ j, j < 15 ∧ direntMatches dir past name nameLen j = true) := by
  constructor
  · intro h hfull
    by_contra hnone
    push Not at hnone
    have hread : 15 * direntSize + direntSize ∈ (scanDirents dir past name nameLen).reads := by
      refine mem_reads_firstFrom.2 ⟨15, by decide, by decide, fun l _ hl ↦ ?_,
        mem_reads_testDirent_of_full (by decide) hfull⟩
      rw [val_testDirent (lt_trans hl (by decide)) hlen]
      exact Bool.eq_false_iff.2 (hnone l hl)
    exact absurd (h _ hread) (by decide)
  · intro h k hk
    obtain ⟨j, -, hj, hall, hk⟩ := mem_reads_firstFrom.1 hk
    rw [Nat.zero_add] at hj
    rcases of_mem_reads_testDirent hj hlen hk with hlt | ⟨rfl, hfull⟩
    · simp only [direntCount, direntSize, blockSize] at *
      omega
    · by_cases hlast : j = 15
      · subst hlast
        obtain ⟨l, hl, hmatch⟩ := h hfull
        have hno := hall l (Nat.zero_le l) hl
        rw [val_testDirent (lt_trans hl hj) hlen, hmatch] at hno
        cases hno
      · simp only [direntCount, direntSize, blockSize] at *
        omega

/-- **`find_dirent` stays inside the block, and tests every entry by itself**, if and only if the
name that is looked for is not that of an entry without a terminator, and the last entry has a
terminator, unless an entry in front of it bears the name. -/
theorem find_dirent_contained_iff {d d' : Disk} (hname : validName name d = .ok nameLen d')
    (dir : Block) (past : UInt8) :
    ((∀ k ∈ (scanDirents dir past name nameLen).reads, k < blockSize) ∧
      ∀ i, i < direntCount → SelfContained dir past name nameLen i) ↔
    (∀ i, i < direntCount → ¬ (Full dir i ∧ Bears dir name nameLen i)) ∧
      (Full dir 15 → ∃ j, j < 15 ∧ Bears dir name nameLen j) := by
  have hlen : nameLen ≤ maxName := ((validName_ends d name).of_eq_ok hname).1.le
  have hself : (∀ i, i < direntCount → SelfContained dir past name nameLen i) ↔
      ∀ i, i < direntCount → ¬ (Full dir i ∧ Bears dir name nameLen i) :=
    forall_congr' fun i ↦ forall_congr' fun hi ↦ selfContained_iff hi hlen
  rw [reads_scanDirents_lt_iff hlen, hself, and_comm]
  refine and_congr_right fun hno ↦ imp_congr_right fun _ ↦ exists_congr fun j ↦
    and_congr_right fun hj ↦ ?_
  have hj' : j < direntCount := lt_trans hj (by decide)
  by_cases hfull : Full dir j
  · -- it does not bear the name, and so does not match
    have hbears : ¬ Bears dir name nameLen j := fun hb ↦ hno j hj' ⟨hfull, hb⟩
    rw [direntMatches_of_full hj' hlen hfull]
    simp only [hbears, false_and]
  · exact direntMatches_of_not_full hj' hfull

end Inside

/-! ## Directories -/

/-- A name of `n` times the letter `a`. -/
def letters (n k : ℕ) : UInt8 := if k < n then 97 else 0

/-- A directory with an entry of a given name in slot `i`. -/
def oneEntry (i : ℕ) (name : ℕ → UInt8) (nameLen : ℕ) : Block :=
  Dirent.set (Buf.zero blockSize) i 2 modeFile name nameLen

/-- A name that is short enough is accepted. -/
theorem validName_letters {n : ℕ} (hpos : 0 < n) (hle : n ≤ maxName) (d : Disk) :
    validName (letters n) d = .ok n d := by
  have hlen : strlenBound (letters n) (maxName + 1) = n := by
    refine strnlen_eq (Nat.le_succ_of_le hle) (fun k hk ↦ ?_) fun _ ↦ ?_
    · rw [letters, if_pos hk]
      decide
    · rw [letters, if_neg (lt_irrefl n)]
  have hslash : ¬ ∃ k, k < n ∧ letters n k = slash := by
    rintro ⟨k, hk, h⟩
    rw [letters, if_pos hk] at h
    exact absurd h (by decide)
  rw [validName, hlen, bind_of_ok (failIf_of_neg hpos.ne' _ d),
    bind_of_ok (failIf_of_neg (not_lt.2 hle) _ d), bind_of_ok (failIf_of_neg hslash _ d)]
  rfl

/-- A directory with a file `a`, which is looked for. -/
theorem find_dirent_contained_one_entry :
    (∀ k ∈ (scanDirents (oneEntry 0 (letters 1) 1) 0 (letters 1) 1).reads, k < blockSize) ∧
      ∀ i, i < direntCount → SelfContained (oneEntry 0 (letters 1) 1) 0 (letters 1) 1 i := by
  have hname := validName_letters (n := 1) (by decide) (by decide) ⟨fun _ ↦ Buf.zero blockSize, 0⟩
  refine (find_dirent_contained_iff hname _ _).2 ⟨?_, ?_⟩
  · decide +kernel
  · decide +kernel

/-- **A name of 27 letters.**  In the last slot, it makes the search for another name read the byte
behind the directory.  In the first slot, whether it is found depends on the second. -/
theorem lookup_reads_behind :
    (∀ d, validName (letters 1) d = .ok 1 d) ∧
      512 ∈ (scanDirents (oneEntry 15 (letters 27) 27) 0 (letters 1) 1).reads ∧
    (∀ d, validName (letters 27) d = .ok 27 d) ∧
      SameEntry (oneEntry 0 (letters 27) 27)
        (Dirent.set (oneEntry 0 (letters 27) 27) 1 3 modeFile (letters 1) 1) 0 ∧
      direntMatches (oneEntry 0 (letters 27) 27) 0 (letters 27) 27 0 = true ∧
      direntMatches (Dirent.set (oneEntry 0 (letters 27) 27) 1 3 modeFile (letters 1) 1) 0
        (letters 27) 27 0 = false := by
  refine ⟨validName_letters (by decide) (by decide), ?_, validName_letters (by decide) (by decide),
    ?_, ?_, ?_⟩
  · decide +kernel
  · rw [SameEntry]
    decide +kernel
  · decide +kernel
  · decide +kernel

end Mcsfs1
end Mcsos
