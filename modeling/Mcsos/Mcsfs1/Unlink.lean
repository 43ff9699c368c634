import Mcsos.Mcsfs1.Effects

/-!
# MCSFS1: removing a file

`mcsfs1_unlink` first empties the directory slot and only then gives back the inode and the blocks,
so that everything it clears afterwards is unreferenced: no other entry has this inode or any of
its blocks.
-/

set_option autoImplicit false

namespace Mcsos
namespace Mcsfs1

open Bytes Program

variable {n : ℕ} {B : ℕ → Block} {slot : ℕ}

/-! ## Clearing bits -/

theorem bitTest_bitClear_of_ne {b : Block} {i j : ℕ} (hi : i < blockSize * 8) (hne : j ≠ i) :
    (b.bitClear i).bitTest j = b.bitTest j := by
  rw [Buf.bitTest_bitClear (Nat.div_lt_of_lt_mul (by omega)), decide_eq_false hne.symm,
    Bool.not_false, Bool.true_and]

theorem bitTest_bitClear_self {b : Block} {i : ℕ} (hi : i < blockSize * 8) :
    (b.bitClear i).bitTest i = false := by
  rw [Buf.bitTest_bitClear (Nat.div_lt_of_lt_mul (by omega)), decide_eq_true rfl, Bool.not_true,
    Bool.false_and]

/-- A bit is set after the loop of `free_inode_and_blocks` if it was set before and belongs to no
block of the inode. -/
theorem bitTest_clearBlocks {inode : Inode} (hn : n ≤ blockSize * 8) (bb : Block) (b : ℕ) :
    (clearBlocks bb inode n).bitTest b = true ↔ bb.bitTest b = true ∧
      ∀ j, j < directBlocks → inode.direct j ≠ 0 → inode.direct j < n → inode.direct j ≠ b := by
  have hl : ∀ (l : List ℕ) (bb : Block), (l.foldl (fun bb j ↦
      if inode.direct j ≠ 0 ∧ inode.direct j < n then bb.bitClear (inode.direct j) else bb)
        bb).bitTest b = true ↔ bb.bitTest b = true ∧
      ∀ j ∈ l, inode.direct j ≠ 0 → inode.direct j < n → inode.direct j ≠ b := by
    intro l
    induction l with
    | nil => intro bb; simp
    | cons j l ih =>
      intro bb
      rw [List.foldl_cons, ih, List.forall_mem_cons, ← and_assoc]
      refine and_congr_left fun _ ↦ ?_
      by_cases hc : inode.direct j ≠ 0 ∧ inode.direct j < n
      · rw [if_pos hc]
        by_cases hb : inode.direct j = b
        · rw [← hb, bitTest_bitClear_self (lt_of_lt_of_le hc.2 hn)]
          exact ⟨fun h ↦ (by cases h), fun h ↦ absurd rfl (h.2 hc.1 hc.2)⟩
        · rw [bitTest_bitClear_of_ne (lt_of_lt_of_le hc.2 hn) (Ne.symm hb)]
          exact ⟨fun h ↦ ⟨h, fun _ _ ↦ hb⟩, fun h ↦ h.1⟩
      · rw [if_neg hc]
        exact ⟨fun h ↦ ⟨h, fun h1 h2 ↦ absurd ⟨h1, h2⟩ hc⟩, fun h ↦ h.1⟩
  rw [clearBlocks, hl]
  exact and_congr_right fun _ ↦ ⟨fun h j hj ↦ h j (List.mem_range.2 hj),
    fun h j hj ↦ h j (List.mem_range.1 hj)⟩

/-! ## The stages of a removal -/

/-- The disk after the directory slot has been emptied. -/
def emptied (B : ℕ → Block) (slot : ℕ) : ℕ → Block :=
  Function.update B rootDirLba (Dirent.clear (B rootDirLba) slot)

/-- The disk after the inode has been given back as well. -/
def inodeFreed (B : ℕ → Block) (slot : ℕ) : ℕ → Block :=
  Function.update (emptied B slot) inodeBmapLba ((B inodeBmapLba).bitClear (slotIno B slot))

/-- The disk after the blocks have been given back as well. -/
def blocksFreed (n : ℕ) (B : ℕ → Block) (slot : ℕ) : ℕ → Block :=
  Function.update (inodeFreed B slot) blockBmapLba
    (clearBlocks (B blockBmapLba) (inodeAt B (slotIno B slot)) n)

/-- The disk after the inode has been zeroed. -/
def removed (n : ℕ) (B : ℕ → Block) (slot : ℕ) : ℕ → Block :=
  setInode (blocksFreed n B slot) (slotIno B slot) (Buf.zero inodeSize)

theorem emptied_of_ne {x : ℕ} (h : x ≠ rootDirLba) : emptied B slot x = B x :=
  Function.update_of_ne h _ _

theorem inodeFreed_of_ge {x : ℕ} (h : blockBmapLba ≤ x) : inodeFreed B slot x = emptied B slot x :=
  Function.update_of_ne (lt_of_lt_of_le (by decide) h).ne' _ _

theorem blocksFreed_of_ge {x : ℕ} (h : inodeTableLba ≤ x) :
    blocksFreed n B slot x = emptied B slot x := by
  rw [blocksFreed, Function.update_of_ne (lt_of_lt_of_le (by decide) h).ne',
    inodeFreed_of_ge (le_trans (by decide) h)]

section Stages

variable (h : Inv n B) (hl : Live B slot)

include h hl

theorem inv_emptied : Inv n (emptied B slot) :=
  h.remove_entry (Dirent.ino_clear_self hl.1) fun _ hi ↦
    ⟨(Dirent.clear_of_ne hi).1, (Dirent.clear_of_ne hi).2.1⟩

omit h in
/-- What is live afterwards was live before, in another slot. -/
theorem live_emptied {i : ℕ} (hi : Live (emptied B slot) i) :
    i ≠ slot ∧ Live B i ∧ slotIno (emptied B slot) i = slotIno B i := by
  have h7 : emptied B slot rootDirLba = Dirent.clear (B rootDirLba) slot :=
    Function.update_self _ _ _
  rw [Live, slotIno, h7] at hi
  rw [slotIno, h7]
  have hne : i ≠ slot := by
    rintro rfl
    exact hi.2 (Dirent.ino_clear_self hl.1)
  have he : Dirent.ino (Dirent.clear (B rootDirLba) slot) i = slotIno B i :=
    (Dirent.clear_of_ne hne).1
  exact ⟨hne, ⟨hi.1, he.symm ▸ hi.2⟩, he⟩

theorem slotIno_emptied_ne {i : ℕ} (hi : Live (emptied B slot) i) :
    slotIno (emptied B slot) i ≠ slotIno B slot := by
  obtain ⟨hne, hl', he⟩ := live_emptied hl hi
  exact fun heq ↦ hne (h.ino_inj i slot hl' hl (he ▸ heq))

theorem inv_inodeFreed : Inv n (inodeFreed B slot) := by
  have hfile := h.ino slot hl
  have hbits : slotIno B slot < blockSize * 8 := lt_of_le_of_lt hfile.2 (by decide)
  have hempty := inv_emptied h hl
  have h1 : emptied B slot inodeBmapLba = B inodeBmapLba := emptied_of_ne (by decide)
  refine hempty.set_inodeBmap ?_ fun i hi ↦ ?_
  · rw [bitTest_bitClear_of_ne hbits hfile.ne_root.symm, ← h1]
    exact hempty.root_marked
  · rw [bitTest_bitClear_of_ne hbits (slotIno_emptied_ne h hl hi), ← h1]
    exact hempty.ino_marked i hi

theorem inv_blocksFreed (hn : n ≤ blockSize * 8) : Inv n (blocksFreed n B slot) := by
  have hfreed := inv_inodeFreed h hl
  have hok := h.inode slot hl
  have h2 : inodeFreed B slot blockBmapLba = B blockBmapLba := by
    rw [inodeFreed_of_ge le_rfl, emptied_of_ne (by decide)]
  have h7 : inodeFreed B slot rootDirLba = emptied B slot rootDirLba := inodeFreed_of_ge (by decide)
  refine hfreed.set_blockBmap (fun b hb ↦ ?_) fun i hi j hj hz ↦ ?_
  · refine (bitTest_clearBlocks hn _ b).2 ⟨h.reserved b hb, fun j hj hz _ ↦ ?_⟩
    exact (lt_of_lt_of_le hb (hok.direct_ge j hj hz)).ne'
  · refine (bitTest_clearBlocks hn _ _).2 ⟨?_, fun j' hj' hz' _ ↦ ?_⟩
    · rw [← h2]; exact (hfreed.inode i hi).direct_marked j hj hz
    · have hi' : Live (emptied B slot) i := live_congr h7 ▸ hi
      obtain ⟨hne, hl', he⟩ := live_emptied hl hi'
      have hnode : blockOf (inodeFreed B slot) i j = blockOf B i j := by
        rw [blockOf, slotIno_congr h7, he, inodeAt_congr (fun x h3 h4 ↦ ?_) (h.ino i hl').2]
        rw [inodeFreed_of_ge (le_trans (by decide) h3), emptied_of_ne h4.ne]
      rw [hnode]
      exact h.block_inj slot i hl hl' hne.symm j' j hj' hj hz'

/-- **Removal keeps the invariant.** -/
theorem inv_removed (hn : n ≤ blockSize * 8) : Inv n (removed n B slot) := by
  have h7 : blocksFreed n B slot rootDirLba = emptied B slot rootDirLba :=
    blocksFreed_of_ge (by decide)
  refine (inv_blocksFreed h hl hn).set_inode (h.ino slot hl) fun i hi he ↦ ?_
  rw [slotIno_congr h7] at he
  exact absurd he (slotIno_emptied_ne h hl (live_congr h7 ▸ hi))

end Stages

/-! ## Running it -/

/-- A removal on a disk with blocks `B`.  A healthy device fails it only before anything is
written. -/
theorem unlink_ends {dev : Blkdev} {s : Disk} (hn : minBlocks ≤ dev.blockCount)
    (hn' : dev.blockCount ≤ blockSize * 8) (hs : s.blocks = B) (h : Inv dev.blockCount B)
    (name : ℕ → UInt8) :
    Ends (unlink dev name) s
      (fun _ s' ↦ ∃ slot, FoundAt dev (B rootDirLba) name slot ∧
        s'.blocks = removed dev.blockCount B slot)
      (fun e s' ↦ Inv dev.blockCount s'.blocks ∧ (dev.Healthy → s'.blocks = B ∧
        ((e = .noent ∧ NotFound dev (B rootDirLba) name) ∨ Rejected name e))) := by
  refine findInode_ends hn hs h name (fun e s' hs' he ↦ ⟨hs' ▸ h, fun hh ↦ ⟨hs', he hh⟩⟩) ?_
  intro slot s1 hfound hs1
  have hl := hfound.live
  have hfile := h.ino slot hl
  refine ends_bind ((devRead_ends hs1 (lt_blockCount hn (by decide))).mono (fun _ _ h ↦ h)
    fun _ _ hf ↦ hf.inv h) ?_
  rintro _ s2 ⟨rfl, hs2⟩
  refine ends_bind ((devWrite_ends hs2 (lt_blockCount hn (by decide)) _).mono (fun _ _ h ↦ h)
    fun _ _ hf ↦ hf.inv h) fun _ s3 hs3 ↦ ?_
  refine ends_bind ((freeInodeAndBlocks_ends hn hs3 _ _).mono (fun _ _ h ↦ h) ?_) fun _ s4 hs4 ↦ ?_
  · rintro e s' ⟨hblk | hblk, hh⟩
    · exact Faulted.inv (e := e) ⟨hblk, hh⟩ (inv_emptied h hl)
    · exact Faulted.inv (e := e) ⟨hblk, hh⟩ (inv_inodeFreed h hl)
  refine ends_bind ((writeInode_ends hn hs4 hfile.pos hfile.2 _).mono (fun _ _ h ↦ h)
    fun _ _ hf ↦ hf.inv (inv_blocksFreed h hl hn')) fun _ s5 hs5 ↦ ?_
  exact (devFlush_ends hs5).mono (fun _ s6 hs6 ↦ ⟨slot, hfound, hs6⟩) fun _ _ hf ↦
    hf.inv (inv_removed h hl hn')

end Mcsfs1
end Mcsos
