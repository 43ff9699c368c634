import Mcsos.Mcsfs1.Names

/-!
# MCSFS1: a map from names to contents

On a device that never fails, the operations do to `abs` what they should do to a map: the lemmas
`abs_created`, `abs_removed`, `Written.abs_eq` and `Grown.abs_eq` give the map after each of them.
What they return agrees with the map as long as `NamesOk` holds, and all that can break it is a
creation next to a name of full length.  `CreateSafe` says when a creation does not do that, and
`refines_map` is about the runs whose creations are safe.  `long_name_hidden` is a run with an
unsafe one.
-/

set_option autoImplicit false

namespace Mcsos
namespace Mcsfs1

open Bytes Program

variable {n : ℕ} {dev : Blkdev} {B B' : ℕ → Block} {s t : CString} {i slot : ℕ}

/-! ## Contents -/

/-- The contents of a file depend on its own blocks only. -/
theorem fileBytes_congr {bb : Block} {inode : Inode} (hok : InodeOk n bb inode)
    (h : ∀ j, j < directBlocks → inode.direct j ≠ 0 → B' (inode.direct j) = B (inode.direct j)) :
    fileBytes B' inode = fileBytes B inode := by
  refine List.map_congr_left fun k hk ↦ ?_
  have hsize := hok.size_le
  have hneed : k / blockSize < max (blocksNeeded inode.size) 1 := by
    have := List.mem_range.1 hk
    simp only [blocksNeeded, blockSize, directBlocks] at *
    omega
  rw [fileByte, fileByte, h _ (lt_of_lt_of_le hneed (blocksNeeded_le hsize)) (hok.filled _ hneed)]

theorem slotBytes_congr (hinv : Inv n B) (hl : Live B i) (hslot : slotIno B' i = slotIno B i)
    (hnode : inodeAt B' (slotIno B i) = inodeAt B (slotIno B i))
    (hdata : ∀ j, j < directBlocks → blockOf B i j ≠ 0 → B' (blockOf B i j) = B (blockOf B i j)) :
    slotBytes B' i = slotBytes B i := by
  rw [slotBytes, slotBytes, hslot, hnode]
  exact fileBytes_congr (hinv.inode i hl) hdata

theorem NamesOk.congr (hB : NamesOk B) (h7 : B' rootDirLba = B rootDirLba) : NamesOk B' := by
  have hl := live_congr h7
  refine ⟨?_, ?_, ?_⟩
  · rw [hl, h7]; exact hB.padded
  · rw [hl, h7]; exact hB.inj
  · rw [hl, h7, slotIno_congr h7]; exact hB.ended

/-! ## Creation -/

section Created

variable {ino lba : ℕ} (hinv : Inv n B) (hf : Fresh n B ino lba) (hslot : slot < direntCount)
  (hfree : slotIno B slot = 0) (hv : ValidName s)

theorem created_rootDir (B : ℕ → Block) (slot ino lba : ℕ) (name : ℕ → UInt8) (len : ℕ) :
    created B slot ino lba name len rootDirLba
      = Dirent.set (B rootDirLba) slot ino modeFile name len :=
  Function.update_self _ _ _

include hf in
theorem created_of_ge {x len : ℕ} {name : ℕ → UInt8} (hx : dataStartLba ≤ x) :
    created B slot ino lba name len x = B x := by
  have h7 : rootDirLba ≤ x := le_trans (by decide) hx
  rw [created, Function.update_of_ne (lt_of_lt_of_le (by decide) hx).ne',
    prepared_of_not_table hf (.inr h7), marked_of_ge (le_trans (by decide) h7)]

theorem inodeAt_created {j len : ℕ} {name : ℕ → UInt8} (hj : j ≤ maxInodes) :
    inodeAt (created B slot ino lba name len) j = inodeAt (prepared B ino lba) j :=
  inodeAt_congr (fun _ _ hx ↦ Function.update_of_ne hx.ne _ _) hj

include hv in
/-- The other entries are as before. -/
theorem entry_created_of_ne (hne : i ≠ slot) :
    Dirent.ino (created B slot ino lba s.view s.length rootDirLba) i = slotIno B i ∧
      ∀ k, k < maxName → Dirent.name (created B slot ino lba s.view s.length rootDirLba) i k
        = Dirent.name (B rootDirLba) i k := by
  rw [created_rootDir]
  exact ⟨(Dirent.set_of_ne hne hv.le).1, (Dirent.set_of_ne hne hv.le).2.2⟩

include hf hslot in
/-- The new entry. -/
theorem entry_created_self :
    Dirent.ino (created B slot ino lba s.view s.length rootDirLba) slot = ino ∧
      ∀ k, k < maxName → Dirent.name (created B slot ino lba s.view s.length rootDirLba) slot k
        = s.view k := by
  rw [created_rootDir]
  refine ⟨Dirent.ino_set_self hslot (lt_of_le_of_lt hf.file.2 (by decide)), fun k hk ↦ ?_⟩
  rw [Dirent.name_set_self hslot hk]
  split
  · rfl
  · exact (CString.view_eq_zero (not_lt.1 ‹_›)).symm

/-- Two names that can be stored are equal if the stored bytes are. -/
theorem eq_of_view_eq_of_le (hs : s.length ≤ maxName) (ht : t.length ≤ maxName)
    (h : ∀ k, k < maxName → s.view k = t.view k) : s = t := by
  refine CString.eq_of_view_eq fun k hk ↦ ?_
  rcases Nat.lt_or_eq_of_le (le_trans hk hs) with hlt | rfl
  · exact h k hlt
  · rw [CString.view_eq_zero hs, CString.view_eq_zero ht]

include hv hslot hf in
theorem nameMatches_created_self :
    nameMatches (created B slot ino lba s.view s.length rootDirLba) t slot = true ↔ t = s := by
  obtain ⟨h1, h2⟩ := entry_created_self (B := B) (s := s) hf hslot
  rw [nameMatches_iff, h1]
  constructor
  · rintro ⟨-, ht, heq⟩
    exact eq_of_view_eq_of_le ht hv.le fun k hk ↦ (heq k hk).symm.trans (h2 k hk)
  · rintro rfl
    exact ⟨hf.file.pos.ne', hv.le, h2⟩

include hv in
theorem nameMatches_created_of_ne (hne : i ≠ slot) :
    nameMatches (created B slot ino lba s.view s.length rootDirLba) t i
      = nameMatches (B rootDirLba) t i := by
  obtain ⟨h1, h2⟩ : Dirent.ino (created B slot ino lba s.view s.length rootDirLba) i = slotIno B i ∧
      _ := entry_created_of_ne hv hne
  rw [Bool.eq_iff_iff, nameMatches_iff, nameMatches_iff, h1]
  exact and_congr_right fun _ ↦ and_congr_right fun _ ↦ forall₂_congr fun k hk ↦ by rw [h2 k hk]

include hinv hf hv in
theorem slotBytes_created_of_live (hl : Live B i) (hne : i ≠ slot) :
    slotBytes (created B slot ino lba s.view s.length) i = slotBytes B i := by
  refine slotBytes_congr hinv hl (entry_created_of_ne hv hne).1 ?_ fun j hj hz ↦ ?_
  · rw [inodeAt_created (hinv.ino i hl).2, inodeAt_prepared_of_live hinv hf hl]
  · exact created_of_ge hf ((hinv.inode i hl).direct_ge j hj hz)

include hf hslot in
theorem slotBytes_created_self : slotBytes (created B slot ino lba s.view s.length) slot = [] := by
  have hsize : (Inode.make modeFile 0 lba).size = 0 := Inode.size_make _ _ (by decide)
  rw [slotBytes, slotIno, (entry_created_self hf hslot).1, inodeAt_created hf.file.2, prepared,
    inodeAt_setInode_self, fileBytes, hsize, List.range_zero, List.map_nil]

include hinv hf hslot hfree hv in
/-- **Creation adds an empty file.** -/
theorem abs_created (hnew : abs B s = none) :
    abs (created B slot ino lba s.view s.length) = Function.update (abs B) s (some []) := by
  funext t
  by_cases hts : t = s
  · subst hts
    rw [Function.update_self, ← slotBytes_created_self (B := B) (s := t) hf hslot]
    refine abs_eq_some hslot ((nameMatches_created_self hf hslot hv).2 rfl) fun j hj hne ↦ ?_
    rw [nameMatches_created_of_ne hv hne]
    exact abs_eq_none_iff.1 hnew j hj
  · rw [Function.update_of_ne hts]
    have hself : nameMatches (B rootDirLba) t slot = false :=
      Bool.eq_false_iff.2 fun hm ↦ (nameMatches_iff.1 hm).1 hfree
    refine abs_congr (fun i hi ↦ ?_) fun i hi hm ↦ ?_
    · by_cases hne : i = slot
      · rw [hne, hself]
        exact Bool.eq_false_iff.2 fun hm ↦ hts ((nameMatches_created_self hf hslot hv).1 hm)
      · exact nameMatches_created_of_ne hv hne
    · have hne : i ≠ slot := fun he ↦ by rw [he, hself] at hm; cases hm
      exact slotBytes_created_of_live hinv hf hv (live_of_nameMatches hi hm) hne

end Created

/-- Creating a file with this name does not spoil a name of full length: the new entry is not right
behind one, and if the new name is of full length itself, the next entry exists and is empty. -/
def CreateSafe (B : ℕ → Block) (s : CString) : Prop :=
  ∀ slot, findFreeSlot (B rootDirLba) = some slot →
    (∀ i, i + 1 = slot → Live B i → nameLen (B rootDirLba) i ≠ maxName) ∧
    (s.length = maxName → slot + 1 < direntCount ∧ slotIno B (slot + 1) = 0)

section Created

variable {ino lba : ℕ} (hf : Fresh n B ino lba) (hslot : slot < direntCount) (hv : ValidName s)

include hf hslot hv

/-- A safe creation of a new name keeps the names in order. -/
theorem namesOk_created (hB : NamesOk B) (hnew : abs B s = none)
    (hbefore : ∀ i, i + 1 = slot → Live B i → nameLen (B rootDirLba) i ≠ maxName)
    (hbehind : s.length = maxName → slot + 1 < direntCount ∧ slotIno B (slot + 1) = 0) :
    NamesOk (created B slot ino lba s.view s.length) := by
  have hself := (entry_created_self (B := B) (s := s) hf hslot).2
  have hother : ∀ i, i ≠ slot → Dirent.ino (created B slot ino lba s.view s.length rootDirLba) i
      = slotIno B i ∧ ∀ k, k < maxName → Dirent.name (created B slot ino lba s.view s.length
        rootDirLba) i k = Dirent.name (B rootDirLba) i k := fun i hne ↦ entry_created_of_ne hv hne
  have hlen_self : nameLen (created B slot ino lba s.view s.length rootDirLba) slot = s.length := by
    rw [nameLen, strnlen_congr hself, CString.strnlen_view, min_eq_left hv.le]
  have hlen : ∀ i, i ≠ slot → nameLen (created B slot ino lba s.view s.length rootDirLba) i
      = nameLen (B rootDirLba) i := fun i hne ↦ strnlen_congr (hother i hne).2
  have hlive : ∀ i, i ≠ slot → Live (created B slot ino lba s.view s.length) i → Live B i :=
    fun i hne hl ↦ ⟨hl.1, (hother i hne).1 ▸ hl.2⟩
  have hne_name : ∀ i, Live B i → i ≠ slot →
      ¬ ∀ k, k < maxName → Dirent.name (B rootDirLba) i k = s.view k := fun i hl _ heq ↦ by
    have hm := abs_eq_none_iff.1 hnew i hl.1
    rw [nameMatches_iff.2 ⟨hl.2, hv.le, heq⟩] at hm
    cases hm
  refine ⟨fun i hl k hk hk' ↦ ?_, fun i i' hl hl' heq ↦ ?_, fun i hl hfull ↦ ?_⟩
  · by_cases hi : i = slot
    · subst hi
      rw [hlen_self] at hk
      rw [hself k hk', CString.view_eq_zero hk]
    · rw [hlen i hi] at hk
      rw [(hother i hi).2 k hk']
      exact hB.padded i (hlive i hi hl) k hk hk'
  · by_cases hi : i = slot <;> by_cases hi' : i' = slot
    · rw [hi, hi']
    · refine absurd (fun k hk ↦ ?_) (hne_name i' (hlive i' hi' hl') hi')
      rw [← (hother i' hi').2 k hk, ← heq k hk, hi, hself k hk]
    · refine absurd (fun k hk ↦ ?_) (hne_name i (hlive i hi hl) hi)
      rw [← (hother i hi).2 k hk, heq k hk, hi', hself k hk]
    · refine hB.inj i i' (hlive i hi hl) (hlive i' hi' hl') fun k hk ↦ ?_
      rw [← (hother i hi).2 k hk, ← (hother i' hi').2 k hk, heq k hk]
  · by_cases hi : i = slot
    · subst hi
      rw [hlen_self] at hfull
      obtain ⟨h1, h2⟩ := hbehind hfull
      exact ⟨h1, (hother _ (Nat.succ_ne_self i)).1.trans h2⟩
    · rw [hlen i hi] at hfull
      obtain ⟨h1, h2⟩ := hB.ended i (hlive i hi hl) hfull
      have hne : i + 1 ≠ slot := fun he ↦ hbefore i he (hlive i hi hl) hfull
      exact ⟨h1, (hother _ hne).1.trans h2⟩

end Created

/-! ## Removal -/

section Removed

variable (hinv : Inv n B) (hl : Live B slot)

include hinv hl

theorem removed_of_ge {x : ℕ} (hx : rootDirLba ≤ x) :
    removed n B slot x = emptied B slot x := by
  rw [removed, setInode_of_not_table (hinv.ino slot hl).2 (.inr hx),
    blocksFreed_of_ge (le_trans (by decide) hx)]

theorem removed_rootDir : removed n B slot rootDirLba = Dirent.clear (B rootDirLba) slot := by
  rw [removed_of_ge hinv hl le_rfl, emptied, Function.update_self]

theorem entry_removed_of_ne (hne : i ≠ slot) :
    Dirent.ino (removed n B slot rootDirLba) i = slotIno B i ∧
      ∀ k, k < maxName →
        Dirent.name (removed n B slot rootDirLba) i k = Dirent.name (B rootDirLba) i k := by
  rw [removed_rootDir hinv hl]
  exact ⟨(Dirent.clear_of_ne hne).1, (Dirent.clear_of_ne hne).2.2⟩

theorem ino_removed_self : Dirent.ino (removed n B slot rootDirLba) slot = 0 := by
  rw [removed_rootDir hinv hl]
  exact Dirent.ino_clear_self hl.1

theorem nameMatches_removed_of_ne (hne : i ≠ slot) :
    nameMatches (removed n B slot rootDirLba) t i = nameMatches (B rootDirLba) t i := by
  obtain ⟨h1, h2⟩ := entry_removed_of_ne hinv hl hne
  rw [Bool.eq_iff_iff, nameMatches_iff, nameMatches_iff, h1]
  exact and_congr_right fun _ ↦ and_congr_right fun _ ↦ forall₂_congr fun k hk ↦ by rw [h2 k hk]

theorem nameMatches_removed_self : nameMatches (removed n B slot rootDirLba) t slot = false :=
  Bool.eq_false_iff.2 fun hm ↦ (nameMatches_iff.1 hm).1 (ino_removed_self hinv hl)

theorem slotBytes_removed_of_ne (hl' : Live B i) (hne : i ≠ slot) :
    slotBytes (removed n B slot) i = slotBytes B i := by
  have hino : slotIno B i ≠ slotIno B slot := fun he ↦ hne (hinv.ino_inj i slot hl' hl he)
  refine slotBytes_congr hinv hl' (entry_removed_of_ne hinv hl hne).1 ?_ fun j hj hz ↦ ?_
  · rw [removed, inodeAt_setInode_of_ne (hinv.ino slot hl).pos (hinv.ino i hl').pos hino,
      inodeAt_congr (fun x h1 h2 ↦ ?_) (hinv.ino i hl').2]
    rw [blocksFreed_of_ge h1, emptied_of_ne h2.ne]
  · have hge := (hinv.inode i hl').direct_ge j hj hz
    rw [removed_of_ge hinv hl (le_trans (by decide) hge),
      emptied_of_ne (lt_of_lt_of_le (by decide) hge).ne']

/-- **Removal deletes the file.** -/
theorem abs_removed (hB : NamesOk B) (hm : nameMatches (B rootDirLba) s slot = true) :
    abs (removed n B slot) = Function.update (abs B) s none := by
  funext t
  by_cases hts : t = s
  · subst hts
    rw [Function.update_self, abs_eq_none_iff]
    intro i hi
    by_cases hne : i = slot
    · rw [hne]; exact nameMatches_removed_self hinv hl
    · rw [nameMatches_removed_of_ne hinv hl hne]
      exact Bool.eq_false_iff.2 fun hm' ↦ hne (hB.unique hi hl.1 hm' hm)
  · rw [Function.update_of_ne hts]
    have hself : nameMatches (B rootDirLba) t slot = false := Bool.eq_false_iff.2 fun hm' ↦ by
      obtain ⟨-, h1, h2⟩ := nameMatches_iff.1 hm
      obtain ⟨-, h1', h2'⟩ := nameMatches_iff.1 hm'
      exact hts (eq_of_view_eq_of_le h1' h1 fun k hk ↦ (h2' k hk).symm.trans (h2 k hk))
    refine abs_congr (fun i _ ↦ ?_) fun i hi hm' ↦ ?_
    · by_cases hne : i = slot
      · rw [hne, hself]; exact nameMatches_removed_self hinv hl
      · exact nameMatches_removed_of_ne hinv hl hne
    · have hne : i ≠ slot := fun he ↦ by rw [he, hself] at hm'; cases hm'
      exact slotBytes_removed_of_ne hinv hl (live_of_nameMatches hi hm') hne

theorem namesOk_removed (hB : NamesOk B) : NamesOk (removed n B slot) := by
  have hne : ∀ i, Live (removed n B slot) i → i ≠ slot := by
    rintro i hi rfl
    exact hi.2 (ino_removed_self hinv hl)
  have hlive : ∀ i, Live (removed n B slot) i → Live B i := fun i hi ↦
    ⟨hi.1, (entry_removed_of_ne hinv hl (hne i hi)).1 ▸ hi.2⟩
  have hname := fun i (hi : Live (removed n B slot) i) ↦
    (entry_removed_of_ne hinv hl (hne i hi)).2
  have hlen : ∀ i, Live (removed n B slot) i →
      nameLen (removed n B slot rootDirLba) i = nameLen (B rootDirLba) i := fun i hi ↦
    strnlen_congr (hname i hi)
  refine ⟨fun i hi k hk hk' ↦ ?_, fun i i' hi hi' heq ↦ ?_, fun i hi hfull ↦ ?_⟩
  · rw [hlen i hi] at hk
    rw [hname i hi k hk']
    exact hB.padded i (hlive i hi) k hk hk'
  · refine hB.inj i i' (hlive i hi) (hlive i' hi') fun k hk ↦ ?_
    rw [← hname i hi k hk, ← hname i' hi' k hk, heq k hk]
  · rw [hlen i hi] at hfull
    obtain ⟨h1, h2⟩ := hB.ended i (hlive i hi) hfull
    refine ⟨h1, ?_⟩
    by_cases he : i + 1 = slot
    · rw [slotIno, he]; exact ino_removed_self hinv hl
    · exact (entry_removed_of_ne hinv hl he).1.trans h2

end Removed

/-! ## Writing -/

section Written

variable {old new : Inode} {buf : ℕ → UInt8} {len : ℕ}

/-- Blocks that have been marked in vain go unnoticed. -/
theorem Grown.abs_eq (hg : Grown n B old i B' new) (hinv : Inv n B) : abs B' = abs B := by
  have h7 : B' rootDirLba = B rootDirLba := hg.rest _ (by decide)
  funext t
  refine abs_congr (fun i _ ↦ by rw [h7]) fun i hi hm ↦ ?_
  have hl := live_of_nameMatches hi hm
  refine slotBytes_congr hinv hl (by rw [slotIno, h7]) ?_ fun j hj hz ↦ ?_
  · exact inodeAt_congr (fun x h1 _ ↦ hg.rest x (lt_of_lt_of_le (by decide) h1).ne')
      (hinv.ino i hl).2
  · exact hg.rest _ (lt_of_lt_of_le (by decide) ((hinv.inode i hl).direct_ge j hj hz)).ne'

/-- The stored blocks read back as the buffer. -/
theorem Stored.fileBytes_eq {B'' : ℕ → Block}
    (hs : Stored B new buf len (max (blocksNeeded len) 1) B')
    (hlen : len ≤ directBlocks * blockSize)
    (h : ∀ j, j < max (blocksNeeded len) 1 → B'' (new.direct j) = B' (new.direct j)) :
    fileBytes B'' (new.setSize len) = (List.range len).map buf := by
  have hsize : (new.setSize len).size = len := Inode.size_setSize (lt_of_le_of_lt hlen (by decide))
  rw [fileBytes, hsize]
  refine List.map_congr_left fun k hk ↦ ?_
  have hk := List.mem_range.1 hk
  have hneed : k / blockSize < max (blocksNeeded len) 1 := by
    simp only [blocksNeeded, blockSize, directBlocks] at *
    omega
  have hchunk : k % blockSize < chunkSize (len - k / blockSize * blockSize) := by
    simp only [chunkSize, blockSize] at *
    split <;> omega
  rw [fileByte, Inode.direct_setSize (lt_of_lt_of_le hneed (blocksNeeded_le hlen)), h _ hneed,
    hs.data _ hneed, dataBlock, Buf.get_copy_of_mem (Nat.zero_le _) (by omega)
      (Nat.mod_lt _ (by decide)), Nat.sub_zero, Nat.div_add_mod']

variable {B₁ B₂ B₃ : ℕ → Block} (hw : Written n B slot buf len B₁ B₂ B₃ new) (hinv : Inv n B)
  (hl : Live B slot) (hlen : len ≤ directBlocks * blockSize)

include hw hinv hl hlen

omit hinv hl in
theorem Written.meta_eq {x : ℕ} (hx : x < dataStartLba) : B₂ x = B₁ x := by
  have h8 := blocksNeeded_le hlen
  exact hw.stored.meta_eq (fun j hj ↦
    hw.grown.new_ge j (lt_of_lt_of_le hj h8) (hw.grown.filled j hj)) hx

theorem Written.rootDir_eq : B₃ rootDirLba = B rootDirLba := by
  rw [hw.blocks, setInode_of_not_table (hinv.ino slot hl).2 (.inr le_rfl),
    hw.meta_eq hlen (by decide), hw.grown.rest _ (by decide)]

theorem Written.slotBytes_of_ne (hl' : Live B i) (hne : i ≠ slot) :
    slotBytes B₃ i = slotBytes B i := by
  have h8 := blocksNeeded_le hlen
  have hino : slotIno B i ≠ slotIno B slot := fun he ↦ hne (hinv.ino_inj i slot hl' hl he)
  refine slotBytes_congr hinv hl' (by rw [slotIno, hw.rootDir_eq hinv hl hlen]) ?_ fun j hj hz ↦ ?_
  · rw [hw.blocks, inodeAt_setInode_of_ne (hinv.ino slot hl).pos (hinv.ino i hl').pos hino,
      inodeAt_congr (fun x h1 h2 ↦ ?_) (hinv.ino i hl').2]
    rw [hw.meta_eq hlen (lt_trans h2 (by decide)),
      hw.grown.rest x (lt_of_lt_of_le (by decide) h1).ne']
  · have hge := (hinv.inode i hl').direct_ge j hj hz
    rw [hw.blocks, setInode_of_not_table (hinv.ino slot hl).2 (.inr (le_trans (by decide) hge)),
      hw.stored.rest _ fun j' hj' ↦ ?_, hw.grown.rest _ (lt_of_lt_of_le (by decide) hge).ne']
    exact hw.grown.block_ne hinv hl hl' hne (lt_of_lt_of_le hj' h8) hj (hw.grown.filled j' hj')

theorem Written.slotBytes_self : slotBytes B₃ slot = (List.range len).map buf := by
  have h8 := blocksNeeded_le hlen
  have hslot : slotIno B₃ slot = slotIno B slot := by rw [slotIno, hw.rootDir_eq hinv hl hlen]
  rw [slotBytes, hslot, hw.blocks, inodeAt_setInode_self]
  refine hw.stored.fileBytes_eq hlen fun j hj ↦ ?_
  have hge := hw.grown.new_ge j (lt_of_lt_of_le hj h8) (hw.grown.filled j hj)
  exact setInode_of_not_table (hinv.ino slot hl).2 (.inr (le_trans (by decide) hge)) _

/-- **Writing replaces the contents of the file.** -/
theorem Written.abs_eq (hB : NamesOk B) (hm : nameMatches (B rootDirLba) s slot = true) :
    abs B₃ = Function.update (abs B) s (some ((List.range len).map buf)) := by
  have h7 := hw.rootDir_eq hinv hl hlen
  funext t
  by_cases hts : t = s
  · subst hts
    rw [Function.update_self, ← hw.slotBytes_self hinv hl hlen]
    refine abs_eq_some hl.1 (h7 ▸ hm) fun j hj hne ↦ ?_
    rw [h7]
    exact Bool.eq_false_iff.2 fun hm' ↦ hne (hB.unique hj hl.1 hm' hm)
  · rw [Function.update_of_ne hts]
    refine abs_congr (fun i _ ↦ by rw [h7]) fun i hi hm' ↦ ?_
    refine hw.slotBytes_of_ne hinv hl hlen (live_of_nameMatches hi hm') ?_
    rintro rfl
    obtain ⟨-, h1, h2⟩ := nameMatches_iff.1 hm
    obtain ⟨-, h1', h2'⟩ := nameMatches_iff.1 hm'
    exact hts (eq_of_view_eq_of_le h1' h1 fun k hk ↦ (h2' k hk).symm.trans (h2 k hk))

end Written

/-! ## The calls -/

section Calls

variable {d : Disk} {mnt : Mount} (hn : minBlocks ≤ dev.blockCount) (hh : dev.Healthy)
  (hinv : Inv dev.blockCount d.blocks) (hB : NamesOk d.blocks)

include hn hh hinv hB

theorem create_refines (hn' : dev.blockCount ≤ blockSize * 8) (s : CString) :
    Ends (create dev s.view) d
      (fun _ d' ↦ abs d.blocks s = none ∧
        abs d'.blocks = Function.update (abs d.blocks) s (some []) ∧
        Inv dev.blockCount d'.blocks ∧ (CreateSafe d.blocks s → NamesOk d'.blocks))
      (fun e d' ↦ d'.blocks = d.blocks ∧ (ValidName s →
        e = .exist ∧ abs d.blocks s ≠ none ∨ e = .nospc ∧ abs d.blocks s = none)) := by
  refine (create_ends hn hn' rfl hinv s.view).mono ?_ ?_
  · rintro - d' ⟨⟨slot, ino, lba, len, hc⟩, hnot⟩
    obtain ⟨hv, hnone⟩ := hB.notFound (hnot hh)
    have hlen := hc.nameOk.length_eq hv
    obtain ⟨hslot, hfree⟩ := findFreeSlot_some hc.slot_free
    rw [hc.blocks, hlen]
    refine ⟨hnone, abs_created hinv hc.fresh hslot hfree hv hnone,
      inv_created hinv hc.fresh hn' hslot hv.le, fun hsafe ↦ ?_⟩
    obtain ⟨hbefore, hbehind⟩ := hsafe slot hc.slot_free
    exact namesOk_created hc.fresh hslot hv hB hnone hbefore hbehind
  · rintro e d' ⟨-, he⟩
    obtain ⟨hd', ⟨rfl, slot, hfound⟩ | ⟨rfl, hnot⟩ | hrej⟩ := he hh
    · obtain ⟨-, -, -, habs⟩ := hB.foundAt hfound
      exact ⟨hd', fun _ ↦ .inl ⟨rfl, by rw [habs]; exact Option.some_ne_none _⟩⟩
    · exact ⟨hd', fun _ ↦ .inr ⟨rfl, (hB.notFound hnot).2⟩⟩
    · exact ⟨hd', fun hv ↦ absurd hv hrej.not_valid⟩

theorem write_refines (hn' : dev.blockCount ≤ blockSize * 8) (s : CString) (buf : ℕ → UInt8)
    (len : ℕ) :
    Ends (write dev s.view buf len) d
      (fun _ d' ↦ len ≤ directBlocks * blockSize ∧ abs d.blocks s ≠ none ∧
        abs d'.blocks = Function.update (abs d.blocks) s (some ((List.range len).map buf)) ∧
        Inv dev.blockCount d'.blocks ∧ NamesOk d'.blocks)
      (fun e d' ↦ abs d'.blocks = abs d.blocks ∧ Inv dev.blockCount d'.blocks ∧
        NamesOk d'.blocks ∧ (e = .range ∧ directBlocks * blockSize < len ∨
          len ≤ directBlocks * blockSize ∧ (ValidName s →
            e = .nospc ∧ abs d.blocks s ≠ none ∨ e = .noent ∧ abs d.blocks s = none))) := by
  refine (write_ends hn hn' rfl hinv s.view buf len).mono ?_ ?_
  · rintro - d' ⟨hlen, slot, B₁, B₂, new, hfound, hw⟩
    obtain ⟨hv, hi, hm, habs⟩ := hB.foundAt hfound
    have hl := live_of_nameMatches hi hm
    refine ⟨hlen, by rw [habs]; exact Option.some_ne_none _, hw.abs_eq hinv hl hlen hB hm,
      hw.inv hinv hl hlen, hB.congr (hw.rootDir_eq hinv hl hlen)⟩
  · rintro e d' ⟨hinv', he⟩
    obtain ⟨rfl, hd', hlen⟩ | ⟨rfl, hlen, slot, i, new, hfound, hg⟩ | ⟨hd', hlen, he⟩ := he hh
    · exact ⟨by rw [hd'], hinv', hd'.symm ▸ hB, .inl ⟨rfl, hlen⟩⟩
    · obtain ⟨-, -, -, habs⟩ := hB.foundAt hfound
      exact ⟨hg.abs_eq hinv, hinv', hB.congr (hg.rest _ (by decide)),
        .inr ⟨hlen, fun _ ↦ .inl ⟨rfl, by rw [habs]; exact Option.some_ne_none _⟩⟩⟩
    · refine ⟨by rw [hd'], hinv', hd'.symm ▸ hB, .inr ⟨hlen, fun hv ↦ ?_⟩⟩
      rcases he with ⟨rfl, hnot⟩ | hrej
      · exact .inr ⟨rfl, (hB.notFound hnot).2⟩
      · exact absurd hv hrej.not_valid

theorem read_refines (hmnt : mnt.blockCount = dev.blockCount) (s : CString) (cap : ℕ) :
    Ends (read dev mnt s.view cap) d
      (fun r d' ↦ d'.blocks = d.blocks ∧ abs d.blocks s = some r.1 ∧ r.2 = r.1.length ∧ r.2 ≤ cap)
      (fun e d' ↦ d'.blocks = d.blocks ∧ (ValidName s → e = .noent ∧ abs d.blocks s = none ∨
        e = .range ∧ ∃ c, abs d.blocks s = some c ∧ cap < c.length)) := by
  refine (read_ends hn hmnt rfl hinv s.view cap).mono ?_ ?_
  · rintro r d' ⟨hd', slot, hfound, hr, hcap⟩
    obtain ⟨-, -, -, habs⟩ := hB.foundAt hfound
    have hfst : r.1 = slotBytes d.blocks slot := by rw [hr, slotBytes]
    have hsnd : r.2 = (inodeAt d.blocks (slotIno d.blocks slot)).size := by rw [hr]
    rw [hfst, hsnd]
    exact ⟨hd', habs, by rw [slotBytes, length_fileBytes], hcap⟩
  · rintro e d' ⟨hd', he⟩
    refine ⟨hd', fun hv ↦ ?_⟩
    obtain ⟨rfl, slot, hfound, hcap⟩ | ⟨rfl, hnot⟩ | hrej := he hh
    · obtain ⟨-, -, -, habs⟩ := hB.foundAt hfound
      exact .inr ⟨rfl, _, habs, by rw [slotBytes, length_fileBytes]; exact hcap⟩
    · exact .inl ⟨rfl, (hB.notFound hnot).2⟩
    · exact absurd hv hrej.not_valid

theorem stat_refines (s : CString) :
    Ends (stat dev s.view) d
      (fun size d' ↦ d'.blocks = d.blocks ∧ ∃ c, abs d.blocks s = some c ∧ size = c.length)
      (fun e d' ↦ d'.blocks = d.blocks ∧ (ValidName s → e = .noent ∧ abs d.blocks s = none)) := by
  refine (stat_ends hn rfl hinv s.view).mono ?_ ?_
  · rintro size d' ⟨hd', slot, hfound, hsize⟩
    obtain ⟨-, -, -, habs⟩ := hB.foundAt hfound
    exact ⟨hd', _, habs, by rw [hsize, slotBytes, length_fileBytes]⟩
  · rintro e d' ⟨hd', he⟩
    refine ⟨hd', fun hv ↦ ?_⟩
    rcases he hh with ⟨rfl, hnot⟩ | hrej
    · exact ⟨rfl, (hB.notFound hnot).2⟩
    · exact absurd hv hrej.not_valid

theorem unlink_refines (hn' : dev.blockCount ≤ blockSize * 8) (s : CString) :
    Ends (unlink dev s.view) d
      (fun _ d' ↦ abs d.blocks s ≠ none ∧
        abs d'.blocks = Function.update (abs d.blocks) s none ∧
        Inv dev.blockCount d'.blocks ∧ NamesOk d'.blocks)
      (fun e d' ↦ d'.blocks = d.blocks ∧ (ValidName s → e = .noent ∧ abs d.blocks s = none)) := by
  refine (unlink_ends hn hn' rfl hinv s.view).mono ?_ ?_
  · rintro - d' ⟨slot, hfound, hd'⟩
    obtain ⟨-, hi, hm, habs⟩ := hB.foundAt hfound
    have hl := live_of_nameMatches hi hm
    rw [hd']
    exact ⟨by rw [habs]; exact Option.some_ne_none _, abs_removed hinv hl hB hm,
      inv_removed hinv hl hn', namesOk_removed hinv hl hB⟩
  · rintro e d' ⟨-, he⟩
    obtain ⟨hd', he⟩ := he hh
    refine ⟨hd', fun hv ↦ ?_⟩
    rcases he with ⟨rfl, hnot⟩ | hrej
    · exact ⟨rfl, (hB.notFound hnot).2⟩
    · exact absurd hv hrej.not_valid

end Calls

/-! ## Runs -/

/-- The disks that calls with NUL-terminated names lead to, if the creations among them are safe. -/
inductive SafelyReaches (dev : Blkdev) (mnt : Mount) (d₀ : Disk) : Disk → Prop
  | start : SafelyReaches dev mnt d₀ d₀
  | create (s : CString) {d : Disk} (h : SafelyReaches dev mnt d₀ d)
      (hsafe : CreateSafe d.blocks s) : SafelyReaches dev mnt d₀ (after (create dev s.view) d)
  | write (s : CString) (buf : ℕ → UInt8) (len : ℕ) {d : Disk} (h : SafelyReaches dev mnt d₀ d) :
      SafelyReaches dev mnt d₀ (after (write dev s.view buf len) d)
  | read (s : CString) (cap : ℕ) {d : Disk} (h : SafelyReaches dev mnt d₀ d) :
      SafelyReaches dev mnt d₀ (after (read dev mnt s.view cap) d)
  | stat (s : CString) {d : Disk} (h : SafelyReaches dev mnt d₀ d) :
      SafelyReaches dev mnt d₀ (after (stat dev s.view) d)
  | unlink (s : CString) {d : Disk} (h : SafelyReaches dev mnt d₀ d) :
      SafelyReaches dev mnt d₀ (after (unlink dev s.view) d)

/-- What a map from names to contents says about the next call with the name `s`: its result, and
the map after it. -/
structure AgreesWithMap (dev : Blkdev) (mnt : Mount) (d : Disk) (s : CString) : Prop where
  create : Ends (Mcsfs1.create dev s.view) d
    (fun _ d' ↦ abs d.blocks s = none ∧
      abs d'.blocks = Function.update (abs d.blocks) s (some []))
    (fun e d' ↦ abs d'.blocks = abs d.blocks ∧
      (e = .exist ∧ abs d.blocks s ≠ none ∨ e = .nospc ∧ abs d.blocks s = none))
  write : ∀ buf len, len ≤ directBlocks * blockSize → Ends (Mcsfs1.write dev s.view buf len) d
    (fun _ d' ↦ abs d.blocks s ≠ none ∧
      abs d'.blocks = Function.update (abs d.blocks) s (some ((List.range len).map buf)))
    (fun e d' ↦ abs d'.blocks = abs d.blocks ∧
      (e = .nospc ∧ abs d.blocks s ≠ none ∨ e = .noent ∧ abs d.blocks s = none))
  write_long : ∀ buf len, directBlocks * blockSize < len → Ends (Mcsfs1.write dev s.view buf len) d
    (fun _ _ ↦ False) (fun e d' ↦ abs d'.blocks = abs d.blocks ∧ e = .range)
  read : ∀ cap, Ends (Mcsfs1.read dev mnt s.view cap) d
    (fun r d' ↦ abs d'.blocks = abs d.blocks ∧ abs d.blocks s = some r.1 ∧ r.2 = r.1.length ∧
      r.2 ≤ cap)
    (fun e d' ↦ abs d'.blocks = abs d.blocks ∧ (e = .noent ∧ abs d.blocks s = none ∨
      e = .range ∧ ∃ c, abs d.blocks s = some c ∧ cap < c.length))
  stat : Ends (Mcsfs1.stat dev s.view) d
    (fun size d' ↦ abs d'.blocks = abs d.blocks ∧ ∃ c, abs d.blocks s = some c ∧ size = c.length)
    (fun e d' ↦ abs d'.blocks = abs d.blocks ∧ e = .noent ∧ abs d.blocks s = none)
  unlink : Ends (Mcsfs1.unlink dev s.view) d
    (fun _ d' ↦ abs d.blocks s ≠ none ∧ abs d'.blocks = Function.update (abs d.blocks) s none)
    (fun e d' ↦ abs d'.blocks = abs d.blocks ∧ e = .noent ∧ abs d.blocks s = none)

section Runs

variable {d d₀ : Disk} {mnt : Mount} (hn : minBlocks ≤ dev.blockCount)
  (hn' : dev.blockCount ≤ blockSize * 8) (hmnt : mnt.blockCount = dev.blockCount)
  (hh : dev.Healthy)

include hn hn' hmnt hh

theorem SafelyReaches.names (hinv₀ : Inv dev.blockCount d₀.blocks) (hB₀ : NamesOk d₀.blocks)
    (hr : SafelyReaches dev mnt d₀ d) : Inv dev.blockCount d.blocks ∧ NamesOk d.blocks := by
  induction hr with
  | start => exact ⟨hinv₀, hB₀⟩
  | create s _ hsafe ih =>
    exact ((create_refines hn hh ih.1 ih.2 hn' s).mono
      (fun _ _ h ↦ ⟨h.2.2.1, h.2.2.2 hsafe⟩) fun _ _ h ↦ h.1.symm ▸ ih).after
  | write s buf len _ ih =>
    exact ((write_refines hn hh ih.1 ih.2 hn' s buf len).mono (fun _ _ h ↦ h.2.2.2)
      fun _ _ h ↦ ⟨h.2.1, h.2.2.1⟩).after
  | read s cap _ ih =>
    exact ((read_refines hn hh ih.1 ih.2 hmnt s cap).mono (fun _ _ h ↦ h.1.symm ▸ ih)
      fun _ _ h ↦ h.1.symm ▸ ih).after
  | stat s _ ih =>
    exact ((stat_refines hn hh ih.1 ih.2 s).mono (fun _ _ h ↦ h.1.symm ▸ ih)
      fun _ _ h ↦ h.1.symm ▸ ih).after
  | unlink s _ ih =>
    exact ((unlink_refines hn hh ih.1 ih.2 hn' s).mono (fun _ _ h ↦ h.2.2)
      fun _ _ h ↦ h.1.symm ▸ ih).after

theorem agreesWithMap_of_names (hinv : Inv dev.blockCount d.blocks) (hB : NamesOk d.blocks)
    {s : CString} (hv : ValidName s) : AgreesWithMap dev mnt d s where
  create := (create_refines hn hh hinv hB hn' s).mono (fun _ _ h ↦ ⟨h.1, h.2.1⟩)
    fun _ _ h ↦ ⟨congrArg abs h.1, h.2 hv⟩
  write buf len hlen := by
    refine (write_refines hn hh hinv hB hn' s buf len).mono (fun _ _ h ↦ ⟨h.2.1, h.2.2.1⟩) ?_
    rintro e d' ⟨habs, -, -, ⟨-, hlt⟩ | ⟨-, he⟩⟩
    · exact absurd hlen (not_le.2 hlt)
    · exact ⟨habs, he hv⟩
  write_long buf len hlen := by
    refine (write_refines hn hh hinv hB hn' s buf len).mono
      (fun _ _ h ↦ absurd h.1 (not_le.2 hlen)) ?_
    rintro e d' ⟨habs, -, -, ⟨he, -⟩ | ⟨hle, -⟩⟩
    · exact ⟨habs, he⟩
    · exact absurd hle (not_le.2 hlen)
  read cap := (read_refines hn hh hinv hB hmnt s cap).mono (fun _ _ h ↦ ⟨congrArg abs h.1, h.2⟩)
    fun _ _ h ↦ ⟨congrArg abs h.1, h.2 hv⟩
  stat := (stat_refines hn hh hinv hB s).mono (fun _ _ h ↦ ⟨congrArg abs h.1, h.2⟩)
    fun _ _ h ↦ ⟨congrArg abs h.1, h.2 hv⟩
  unlink := (unlink_refines hn hh hinv hB hn' s).mono (fun _ _ h ↦ ⟨h.1, h.2.1⟩)
    fun _ _ h ↦ ⟨congrArg abs h.1, h.2 hv⟩

end Runs

/-- **MCSFS1 is a map from names to contents**, on a healthy device, for as long as no creation
spoils a name of full length: the map is empty after formatting, and every call agrees with it. -/
theorem refines_map {d d₀ d₁ d₂ : Disk} {mnt : Mount} (hh : dev.Healthy)
    (hf : format dev d₀ = .ok () d₁) (hm : mount dev d₁ = .ok mnt d₂)
    (hr : SafelyReaches dev mnt d₂ d) :
    (∀ s, abs d₂.blocks s = none) ∧ ∀ s, ValidName s → AgreesWithMap dev mnt d s := by
  have h := freshMount_of_eq_ok hf hm
  have hempty : ∀ i, ¬ Live d₂.blocks i := h.blocks_eq.symm ▸ h.empty
  have hnames : NamesOk d₂.blocks := ⟨fun i hl ↦ absurd hl (hempty i),
    fun i _ hl ↦ absurd hl (hempty i), fun i hl ↦ absurd hl (hempty i)⟩
  refine ⟨fun s ↦ abs_eq_none_iff.2 fun i hi ↦ Bool.eq_false_iff.2 fun hm ↦
    hempty i (live_of_nameMatches hi hm), fun s hv ↦ ?_⟩
  obtain ⟨hinv, hB⟩ := hr.names h.ge h.le h.blockCount hh (h.blocks_eq.symm ▸ h.inv) hnames
  exact agreesWithMap_of_names h.ge h.le h.blockCount hh hinv hB hv

/-- A name of 27 bytes. -/
def fullName : CString := .ofBytes (List.replicate maxName 97)

/-- On a fresh disk of sixteen blocks, the file that was just created has length zero. -/
theorem refines_map_fresh :
    ∃ (d₁ d₂ : Disk) (mnt : Mount), format smallDev blankDisk = .ok () d₁ ∧
      mount smallDev d₁ = .ok mnt d₂ ∧
      AgreesWithMap smallDev mnt (after (create smallDev (CString.ofBytes [98]).view) d₂)
        (CString.ofBytes [98]) := by
  obtain ⟨d₁, mnt, d₂, hf, hm⟩ :=
    exists_format_mount (by decide) (by decide) smallDev_healthy blankDisk
  have hempty := (freshMount_of_eq_ok hf hm).empty
  rw [← (freshMount_of_eq_ok hf hm).blocks_eq] at hempty
  refine ⟨d₁, d₂, mnt, hf, hm, (refines_map smallDev_healthy hf hm (.create _ .start ?_)).2 _
    ⟨by decide, by decide, by decide⟩⟩
  exact fun slot _ ↦ ⟨fun i _ hl ↦ absurd hl (hempty i), fun hlen ↦ absurd hlen (by decide)⟩

/-- A file with a name of full length and then another one. -/
def longNameFirst : M Unit := do
  format smallDev
  let _ ← mount smallDev
  create smallDev fullName.view
  create smallDev (CString.ofBytes [98]).view

/-- **A name of 27 bytes is hidden by the next entry.**  On a fresh disk of sixteen blocks, a file
with such a name and then another file are created, both with success, and now the first one is not
found. -/
theorem long_name_hidden :
    ValidName fullName ∧ errorOf longNameFirst blankDisk = none ∧
      errorOf (do longNameFirst; let _ ← stat smallDev fullName.view) blankDisk
        = some .noent := by
  refine ⟨⟨by decide, by decide, by decide⟩, ?_, ?_⟩
  · decide +kernel
  · decide +kernel

end Mcsfs1
end Mcsos
