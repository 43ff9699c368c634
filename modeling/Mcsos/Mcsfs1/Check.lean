import Mcsos.Mcsfs1.Effects

/-!
# MCSFS1: what mounting and checking look at

`mcsfs1_mount` and `mcsfs1_fsck` are given any image.  What they test can be said without them, as a
property of the blocks: the superblock is the one that the layout prescribes (`SuperOk`), the root
inode is a directory in its place (`RootOk`), and every entry in use leads to an inode whose blocks
are marked data blocks (`EntryOk`).  On a device that does not fail, mounting succeeds exactly for
the first two, and the check exactly for all of them (`Clean`).

Each of the specifications says both directions at once: what has been found when the function
succeeds, and that something of it is wrong when it fails.
-/

set_option autoImplicit false

namespace Mcsos
namespace Mcsfs1

open Bytes Program

variable {dev : Blkdev} {s : Disk} {B : ℕ → Block} {n i : ℕ} {P : Prop}

/-! ## Properties of an image -/

/-- What `load_super` tests, in its order. -/
structure SuperOk (n : ℕ) (sb : Block) : Prop where
  format : Super.magic sb = magic ∧ Super.version sb = version ∧ Super.blockSize sb = blockSize
  counts : Super.blockCount sb = n ∧ Super.inodeCount sb = maxInodes
  tables : Super.inodeBmapLba sb = inodeBmapLba ∧ Super.blockBmapLba sb = blockBmapLba ∧
    Super.inodeTableLba sb = inodeTableLba
  areas : Super.rootIno sb = rootIno ∧ Super.rootDirLba sb = rootDirLba ∧
    Super.dataStartLba sb = dataStartLba
  lt : Super.dataStartLba sb < Super.blockCount sb

/-- The root inode is that of a directory, in the block where the directory is. -/
def RootOk (B : ℕ → Block) : Prop :=
  (inodeAt B rootIno).mode = modeDir ∧ (inodeAt B rootIno).direct 0 = rootDirLba

/-- What `mcsfs1_fsck` tests about an entry in use. -/
structure EntryOk (n : ℕ) (B : ℕ → Block) (i : ℕ) : Prop where
  entry : slotIno B i ≤ maxInodes ∧ Dirent.type (B rootDirLba) i = modeFile ∧
    (B inodeBmapLba).bitTest (slotIno B i) = true
  inode : (inodeAt B (slotIno B i)).mode = modeFile ∧
    (inodeAt B (slotIno B i)).size ≤ directBlocks * blockSize
  blocks : ∀ j < max (blocksNeeded (inodeAt B (slotIno B i)).size) 1,
    dataStartLba ≤ blockOf B i j ∧ blockOf B i j < n ∧
      (B blockBmapLba).bitTest (blockOf B i j) = true

/-- What `mcsfs1_fsck` tests. -/
structure Clean (n : ℕ) (B : ℕ → Block) : Prop where
  super : SuperOk n (B sbLba)
  root_marked : (B inodeBmapLba).bitTest rootIno = true ∧
    (B blockBmapLba).bitTest rootDirLba = true
  reserved : ∀ b < dataStartLba, (B blockBmapLba).bitTest b = true
  root : RootOk B
  entry : ∀ i < direntCount, slotIno B i ≠ 0 → EntryOk n B i

/-! ## Mounting -/

/-- The call has failed, and on a device that does not fail this is because `P` does not hold. -/
def Fails (dev : Blkdev) (B : ℕ → Block) (P : Prop) (_ : Err) (s : Disk) : Prop :=
  s.blocks = B ∧ (dev.Healthy → ¬ P)

theorem Faulted.fails {e : Err} (h : Faulted dev B e s) : Fails dev B P e s :=
  ⟨h.1, fun hh ↦ absurd hh h.2⟩

theorem Fails.faulted {e : Err} (h : Fails dev B P e s) (hP : P) : Faulted dev B e s :=
  ⟨h.1, fun hh ↦ h.2 hh hP⟩

theorem Fails.imp {e : Err} {Q : Prop} (h : Fails dev B P e s) (hQ : Q → P) : Fails dev B Q e s :=
  ⟨h.1, fun hh hq ↦ h.2 hh (hQ hq)⟩

section Specs

variable (hn : minBlocks ≤ dev.blockCount) (hs : s.blocks = B)

include hn hs

theorem loadSuper_ends :
    Ends (loadSuper dev) s
      (fun sb s' ↦ sb = B sbLba ∧ SuperOk dev.blockCount (B sbLba) ∧ s'.blocks = B)
      (Fails dev B (SuperOk dev.blockCount (B sbLba))) := by
  refine ends_bind ((devRead_ends hs (lt_blockCount hn (by decide))).mono (fun _ _ h ↦ h)
    fun _ _ h ↦ h.fails) ?_
  rintro _ s' ⟨rfl, hs'⟩
  refine ends_failIf (fun h ↦ ⟨hs', fun _ hok ↦ ?_⟩) fun h1 ↦
    ends_failIf (fun h ↦ ⟨hs', fun _ hok ↦ ?_⟩) fun h2 ↦
    ends_failIf (fun h ↦ ⟨hs', fun _ hok ↦ ?_⟩) fun h3 ↦
    ends_failIf (fun h ↦ ⟨hs', fun _ hok ↦ ?_⟩) fun h4 ↦
    ends_failIf (fun h ↦ ⟨hs', fun _ hok ↦ ?_⟩) fun h5 ↦ ?_
  all_goals simp only [ne_eq, ← not_and_or, not_not] at *
  · exact h hok.format
  · exact h hok.counts
  · exact h hok.tables
  · exact h hok.areas
  · exact absurd hok.lt (not_lt.2 h)
  · exact ends_pure ⟨rfl, ⟨h1, h2, h3, h4, not_le.1 h5⟩, hs'⟩

/-- Mounting succeeds for a superblock and a root inode in order. -/
theorem mount_ends :
    Ends (mount dev) s
      (fun mnt s' ↦ mnt.blockCount = dev.blockCount ∧ s'.blocks = B)
      (Fails dev B (SuperOk dev.blockCount (B sbLba) ∧ RootOk B)) := by
  refine ends_bind ((loadSuper_ends hn hs).mono (fun _ _ h ↦ h) fun _ _ h ↦ h.imp And.left) ?_
  rintro _ s1 ⟨rfl, hsuper, hs1⟩
  refine ends_bind ((readInode_ends hn hs1 (by decide) (by decide)).mono (fun _ _ h ↦ h)
    fun _ _ h ↦ h.fails) ?_
  rintro _ s2 ⟨rfl, hs2⟩
  refine ends_failIf (fun h ↦ ⟨hs2, fun _ hok ↦ ?_⟩) fun _ ↦ ends_pure ⟨hsuper.counts.1, hs2⟩
  rw [← not_and_or] at h
  exact h hok.2

/-! ## Checking -/

/-- The check of one entry. -/
theorem fsckDirent_ends :
    Ends (fsckDirent dev (B inodeBmapLba) (B blockBmapLba) (B rootDirLba) i) s
      (fun _ s' ↦ s'.blocks = B ∧ (slotIno B i ≠ 0 → EntryOk dev.blockCount B i))
      (Fails dev B (slotIno B i ≠ 0 → EntryOk dev.blockCount B i)) := by
  rw [fsckDirent]
  split
  · rename_i h0
    exact ends_pure ⟨hs, fun h ↦ absurd h0 h⟩
  · rename_i h0
    refine ends_failIf (fun h ↦ ⟨hs, fun _ hok ↦ ?_⟩) fun h1 ↦ ?_
    · simp only [ne_eq, gt_iff_lt, ← not_le, ← Bool.not_eq_true, ← not_and_or] at h
      exact h (hok h0).entry
    simp only [ne_eq, gt_iff_lt, ← not_le, ← Bool.not_eq_true, ← not_and_or, not_not] at h1
    refine ends_bind ((readInode_ends hn hs (Nat.pos_of_ne_zero h0) h1.1).mono (fun _ _ h ↦ h)
      fun _ _ h ↦ h.fails) ?_
    rintro _ s' ⟨rfl, hs'⟩
    refine ends_failIf (fun h ↦ ⟨hs', fun _ hok ↦ ?_⟩) fun h2 ↦ ?_
    · simp only [ne_eq, gt_iff_lt, ← not_le, ← not_and_or] at h
      exact h (hok h0).inode
    simp only [ne_eq, gt_iff_lt, ← not_le, ← not_and_or, not_not] at h2
    refine (checks_forM fun j ↦ checks_failIf _ _).ends (fun h3 ↦ ⟨hs', fun _ ↦ ?_⟩)
      fun h3 _ ↦ ⟨hs', fun _ hok ↦ h3 fun j hj hbad ↦ ?_⟩
    · refine ⟨h1, h2, fun j hj ↦ ?_⟩
      have hj := h3 j (List.mem_range.2 hj)
      simpa only [not_or, not_lt, ge_iff_le, not_le, Bool.not_eq_false] using hj
    · obtain ⟨hge, hlt, hmark⟩ := (hok h0).blocks j (List.mem_range.1 hj)
      rcases hbad with hbad | hbad | hbad
      · exact absurd hge (not_le.2 hbad)
      · exact absurd hlt (not_lt.2 hbad)
      · rw [hmark] at hbad
        cases hbad

/-- **The check succeeds for clean images.** -/
theorem fsck_ends :
    Ends (fsck dev) s (fun _ s' ↦ s'.blocks = B ∧ Clean dev.blockCount B)
      (Fails dev B (Clean dev.blockCount B)) := by
  refine ends_bind ((loadSuper_ends hn hs).mono (fun _ _ h ↦ h) fun _ _ h ↦ h.imp Clean.super) ?_
  rintro _ s1 ⟨-, hsuper, hs1⟩
  refine ends_bind ((loadBmaps_ends hn hs1).mono (fun _ _ h ↦ h) fun _ _ h ↦ h.fails) ?_
  rintro _ s2 ⟨rfl, hs2⟩
  refine ends_failIf (fun h ↦ ⟨hs2, fun _ hok ↦ ?_⟩) fun h1 ↦ ?_
  · simp only [← Bool.not_eq_true, ← not_and_or] at h
    exact h hok.root_marked
  simp only [← Bool.not_eq_true, ← not_and_or, not_not] at h1
  refine ends_bind ((checks_forM fun j ↦ checks_failIf _ _).ends
    (R := fun _ s' ↦ s'.blocks = B ∧ ∀ b < dataStartLba, (B blockBmapLba).bitTest b = true)
    (fun h ↦ ⟨hs2, fun b hb ↦ Bool.not_eq_false _ ▸ h b (List.mem_range.2 hb)⟩)
    fun h _ ↦ ⟨hs2, fun _ hok ↦ h fun b hb hbad ↦ ?_⟩) ?_
  · rw [hok.reserved b (List.mem_range.1 hb)] at hbad
    cases hbad
  rintro - s3 ⟨hs3, hreserved⟩
  refine ends_bind ((readInode_ends hn hs3 (by decide) (by decide)).mono (fun _ _ h ↦ h)
    fun _ _ h ↦ h.fails) ?_
  rintro _ s4 ⟨rfl, hs4⟩
  refine ends_failIf (fun h ↦ ⟨hs4, fun _ hok ↦ ?_⟩) fun h2 ↦ ?_
  · rw [← not_and_or] at h
    exact h hok.root
  rw [← not_and_or, not_not] at h2
  refine ends_bind ((devRead_ends hs4 (lt_blockCount hn (by decide))).mono (fun _ _ h ↦ h)
    fun _ _ h ↦ h.fails) ?_
  rintro _ s5 ⟨rfl, hs5⟩
  have hloop := ends_forM_each (l := List.range direntCount) (P := fun s ↦ s.blocks = B)
    (F := fun i _ ↦ slotIno B i ≠ 0 → EntryOk dev.blockCount B i) hs5 fun i hi s' hs' ↦
      (fsckDirent_ends (i := i) hn hs').mono (fun _ _ h ↦ ⟨h.1, h.2, fun _ hc ↦ hc⟩)
        fun _ _ h ↦ h.imp fun hok : Clean dev.blockCount B ↦ hok.entry i (List.mem_range.1 hi)
  refine hloop.mono (fun _ s' h ↦ ⟨h.1, hsuper, h1, hreserved, h2, fun i hi ↦ ?_⟩) fun _ _ h ↦ h
  exact h.2.1 i (List.mem_range.2 hi)

end Specs

end Mcsfs1
end Mcsos
