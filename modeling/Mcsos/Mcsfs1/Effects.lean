import Mcsos.Lib.Outcome
import Mcsos.Lib.Search
import Mcsos.Mcsfs1.Invariant

/-!
# MCSFS1: what the helpers do

One statement per helper, about a run from a disk with blocks `B`: which blocks are there when it
succeeds, and which when it is left early.  If an access fails, the device is not healthy; every
other error is a property of `B`, and the statement says which.  The operations are then analysed
with these statements alone.
-/

set_option autoImplicit false

namespace Mcsos
namespace Mcsfs1

open Bytes Program

variable {dev : Blkdev} {s : Disk} {B : ℕ → Block} {lba ino : ℕ}

/-! ## Accesses -/

/-- An access failed, and the blocks are still these. -/
def Faulted (dev : Blkdev) (B : ℕ → Block) (_ : Err) (s : Disk) : Prop :=
  s.blocks = B ∧ ¬ dev.Healthy

/-- On a disk that satisfies the invariant, nothing else needs to be said about a failed access. -/
theorem Faulted.inv {e : Err} {p : Prop} (hf : Faulted dev B e s) (h : Inv dev.blockCount B) :
    Inv dev.blockCount s.blocks ∧ (dev.Healthy → p) :=
  ⟨hf.1 ▸ h, fun hh ↦ absurd hh hf.2⟩

/-- A call that can only fail by a failed access succeeds on a device that does not fail. -/
theorem exists_ok_of_healthy {α : Type} {x : M α} {Q : α → Disk → Prop} (hh : dev.Healthy)
    (h : Ends x s Q (Faulted dev B)) : ∃ a s', x s = .ok a s' ∧ Q a s' := by
  cases hrun : x s with
  | error e s' => exact absurd hh (h.of_eq_error hrun).2
  | ok a s' => exact ⟨a, s', rfl, h.of_eq_ok hrun⟩

theorem not_healthy {t : ℕ} (h : dev.faults t = true) : ¬ dev.Healthy := fun hh ↦ by
  rw [hh t] at h; cases h

theorem devRead_ends (hs : s.blocks = B) (h : lba < dev.blockCount) :
    Ends (devRead dev lba) s (fun b s' ↦ b = B lba ∧ s'.blocks = B) (Faulted dev B) := by
  rw [Ends, devRead, if_neg (not_le.2 h)]
  by_cases hf : dev.faults s.clock = true
  · rw [if_pos hf]; exact ⟨hs, not_healthy hf⟩
  · rw [if_neg hf]; exact ⟨hs ▸ rfl, hs⟩

theorem devWrite_ends (hs : s.blocks = B) (h : lba < dev.blockCount) (b : Block) :
    Ends (devWrite dev lba b) s (fun _ s' ↦ s'.blocks = Function.update B lba b)
      (Faulted dev B) := by
  rw [Ends, devWrite, if_neg (not_le.2 h)]
  by_cases hf : dev.faults s.clock = true
  · rw [if_pos hf]; exact ⟨hs, not_healthy hf⟩
  · rw [if_neg hf]; exact hs ▸ rfl

theorem devFlush_ends (hs : s.blocks = B) :
    Ends (devFlush dev) s (fun _ s' ↦ s'.blocks = B) (Faulted dev B) := by
  rw [Ends, devFlush]
  by_cases hf : dev.faults s.clock = true
  · rw [if_pos hf]; exact ⟨hs, not_healthy hf⟩
  · rw [if_neg hf]; exact hs

/-! ## Inodes and bitmaps -/

section Table

variable (hn : minBlocks ≤ dev.blockCount)

include hn

theorem lt_blockCount {x : ℕ} (h : x ≤ dataStartLba) : x < dev.blockCount :=
  lt_of_le_of_lt h (lt_of_lt_of_le (by decide) hn)

theorem readInode_ends (hs : s.blocks = B) (h0 : 0 < ino) (h32 : ino ≤ maxInodes) :
    Ends (readInode dev ino) s (fun inode s' ↦ inode = inodeAt B ino ∧ s'.blocks = B)
      (Faulted dev B) := by
  have hlt := inodeLba_lt h32
  refine ends_failIf (fun h ↦ absurd h (by omega)) fun _ ↦
    ends_failIf (fun h ↦ absurd h (not_le.2 (lt_trans hlt (by decide)))) fun _ ↦
    ends_bind (devRead_ends hs (lt_blockCount hn (hlt.le.trans (by decide)))) ?_
  rintro b s' ⟨rfl, hs'⟩
  exact ends_pure ⟨rfl, hs'⟩

theorem writeInode_ends (hs : s.blocks = B) (h0 : 0 < ino) (h32 : ino ≤ maxInodes) (inode : Inode) :
    Ends (writeInode dev ino inode) s (fun _ s' ↦ s'.blocks = setInode B ino inode)
      (Faulted dev B) := by
  have hlt := inodeLba_lt h32
  refine ends_failIf (fun h ↦ absurd h (by omega)) fun _ ↦
    ends_failIf (fun h ↦ absurd h (not_le.2 (lt_trans hlt (by decide)))) fun _ ↦
    ends_bind (devRead_ends hs (lt_blockCount hn (hlt.le.trans (by decide)))) ?_
  rintro b s' ⟨rfl, hs'⟩
  exact devWrite_ends hs' (lt_blockCount hn (hlt.le.trans (by decide))) _

theorem loadBmaps_ends (hs : s.blocks = B) :
    Ends (loadBmaps dev) s (fun p s' ↦ p = (B inodeBmapLba, B blockBmapLba) ∧ s'.blocks = B)
      (Faulted dev B) := by
  refine ends_bind (devRead_ends hs (lt_blockCount hn (by decide))) ?_
  rintro ib s' ⟨rfl, hs'⟩
  refine ends_bind (devRead_ends hs' (lt_blockCount hn (by decide))) ?_
  rintro bb s'' ⟨rfl, hs''⟩
  exact ends_pure ⟨rfl, hs''⟩

/-- The two bitmaps are written one after the other. -/
theorem storeBmaps_ends (hs : s.blocks = B) (ib bb : Block) :
    Ends (storeBmaps dev ib bb) s
      (fun _ s' ↦ s'.blocks
        = Function.update (Function.update B inodeBmapLba ib) blockBmapLba bb)
      (fun _ s' ↦ (s'.blocks = B ∨ s'.blocks = Function.update B inodeBmapLba ib) ∧
        ¬ dev.Healthy) := by
  refine ends_bind ((devWrite_ends hs (lt_blockCount hn (by decide)) ib).mono (fun _ _ h ↦ h)
    fun _ _ h ↦ ⟨.inl h.1, h.2⟩) fun _ s' hs' ↦ ?_
  exact (devWrite_ends hs' (lt_blockCount hn (by decide)) bb).mono (fun _ _ h ↦ h)
    fun _ _ h ↦ ⟨.inr h.1, h.2⟩

/-! ## Allocation -/

/-- A failed allocation of an inode and a block may have marked the inode. -/
theorem allocInodeBlock_ends (hs : s.blocks = B) :
    Ends (allocInodeBlock dev) s
      (fun r s' ↦ findFreeInode (B inodeBmapLba) = some r.1 ∧
        findFreeBlock (B blockBmapLba) dev.blockCount = some r.2 ∧
        s'.blocks = Function.update (Function.update B inodeBmapLba
          ((B inodeBmapLba).bitSet r.1)) blockBmapLba ((B blockBmapLba).bitSet r.2))
      (fun e s' ↦ (s'.blocks = B ∨ ∃ ino, findFreeInode (B inodeBmapLba) = some ino ∧
          s'.blocks = Function.update B inodeBmapLba ((B inodeBmapLba).bitSet ino)) ∧
        (dev.Healthy → e = .nospc ∧ s'.blocks = B)) := by
  refine ends_bind ((loadBmaps_ends hn hs).mono (fun _ _ h ↦ h)
    fun _ _ h ↦ ⟨.inl h.1, fun hh ↦ absurd hh h.2⟩) ?_
  rintro _ s' ⟨rfl, hs'⟩
  refine ends_expect (fun _ ↦ ⟨.inl hs', fun _ ↦ ⟨rfl, hs'⟩⟩) fun ino hino ↦
    ends_expect (fun _ ↦ ⟨.inl hs', fun _ ↦ ⟨rfl, hs'⟩⟩) fun lba hlba ↦ ?_
  refine ends_bind ((storeBmaps_ends hn hs' _ _).mono (fun _ _ h ↦ h) fun _ _ h ↦ ?_) fun _ s'' h ↦
    ends_pure ⟨hino, hlba, h⟩
  exact ⟨h.1.imp id fun h1 ↦ ⟨ino, hino, h1⟩, fun hh ↦ absurd hh h.2⟩

/-- A failed allocation of a block has no effect; writing back the inode bitmap has none either. -/
theorem allocDataBlock_ends (hs : s.blocks = B) :
    Ends (allocDataBlock dev) s
      (fun lba s' ↦ findFreeBlock (B blockBmapLba) dev.blockCount = some lba ∧
        s'.blocks = Function.update B blockBmapLba ((B blockBmapLba).bitSet lba))
      (fun e s' ↦ s'.blocks = B ∧ (dev.Healthy →
        e = .nospc ∧ findFreeBlock (B blockBmapLba) dev.blockCount = none)) := by
  have hself : Function.update B inodeBmapLba (B inodeBmapLba) = B := Function.update_eq_self _ _
  refine ends_bind ((loadBmaps_ends hn hs).mono (fun _ _ h ↦ h)
    fun _ _ h ↦ ⟨h.1, fun hh ↦ absurd hh h.2⟩) ?_
  rintro _ s' ⟨rfl, hs'⟩
  refine ends_expect (fun hnone ↦ ⟨hs', fun _ ↦ ⟨rfl, hnone⟩⟩) fun lba hlba ↦ ?_
  refine ends_bind ((storeBmaps_ends hn hs' _ _).mono (fun _ _ h ↦ h) fun _ _ h ↦ ?_) fun _ s'' h ↦
    ends_pure ⟨hlba, ?_⟩
  · rw [hself, or_self] at h
    exact ⟨h.1, fun hh ↦ absurd hh h.2⟩
  · rw [h, hself]

theorem freeInodeAndBlocks_ends (hs : s.blocks = B) (ino : ℕ) (inode : Inode) :
    Ends (freeInodeAndBlocks dev ino inode) s
      (fun _ s' ↦ s'.blocks = Function.update (Function.update B inodeBmapLba
        ((B inodeBmapLba).bitClear ino)) blockBmapLba
        (clearBlocks (B blockBmapLba) inode dev.blockCount))
      (fun _ s' ↦ (s'.blocks = B ∨ s'.blocks = Function.update B inodeBmapLba
        ((B inodeBmapLba).bitClear ino)) ∧ ¬ dev.Healthy) := by
  refine ends_bind ((loadBmaps_ends hn hs).mono (fun _ _ h ↦ h) fun _ _ h ↦ ⟨.inl h.1, h.2⟩) ?_
  rintro _ s' ⟨rfl, hs'⟩
  exact storeBmaps_ends hn hs' _ _

end Table

/-! ## Names -/

/-- A name that `valid_name` accepts, and its length. -/
structure NameOk (name : ℕ → UInt8) (len : ℕ) : Prop where
  strlen : strlenBound name (maxName + 1) = len
  pos : 0 < len
  le : len ≤ maxName
  no_slash : ∀ i, i < len → name i ≠ slash

/-- The two errors by which `valid_name` rejects a name. -/
def Rejected (name : ℕ → UInt8) (e : Err) : Prop :=
  (e = .inval ∨ e = .nametoolong) ∧ ∀ len, ¬ NameOk name len

/-- `find_dirent` stops at this slot, for some value of the byte behind the directory. -/
def FoundAt (dev : Blkdev) (dir : Block) (name : ℕ → UInt8) (slot : ℕ) : Prop :=
  ∃ len t, NameOk name len ∧
    (List.range direntCount).find? (direntMatches dir (dev.past t) name len) = some slot

/-- `find_dirent` finds nothing, for some value of the byte behind the directory. -/
def NotFound (dev : Blkdev) (dir : Block) (name : ℕ → UInt8) : Prop :=
  ∃ len t, NameOk name len ∧
    (List.range direntCount).find? (direntMatches dir (dev.past t) name len) = none

variable {name : ℕ → UInt8}

theorem validName_ends (s : Disk) (name : ℕ → UInt8) :
    Ends (validName name) s (fun len s' ↦ NameOk name len ∧ s' = s)
      (fun e s' ↦ Rejected name e ∧ s' = s) := by
  refine ends_failIf (fun h ↦ ⟨⟨.inl rfl, fun len hl ↦ ?_⟩, rfl⟩) fun h1 ↦
    ends_failIf (fun h ↦ ⟨⟨.inr rfl, fun len hl ↦ ?_⟩, rfl⟩) fun h2 ↦
    ends_failIf (fun h ↦ ⟨⟨.inl rfl, fun len hl ↦ ?_⟩, rfl⟩) fun h3 ↦
    ends_pure ⟨⟨rfl, Nat.pos_of_ne_zero h1, not_lt.1 h2, fun i hi he ↦ h3 ⟨i, hi, he⟩⟩, rfl⟩
  · rw [hl.strlen] at h; exact hl.pos.ne' h
  · rw [hl.strlen] at h; exact absurd hl.le (not_le.2 h)
  · obtain ⟨i, hi, he⟩ := h
    exact hl.no_slash i (hl.strlen ▸ hi) he

theorem FoundAt.live {slot : ℕ} (h : FoundAt dev (B rootDirLba) name slot) : Live B slot := by
  obtain ⟨len, t, -, hf⟩ := h
  obtain ⟨hlt, hm⟩ := Search.of_find?_range hf
  rw [direntMatches, decide_eq_true_iff] at hm
  exact ⟨hlt, hm.1⟩

theorem findDirent_ends (hn : minBlocks ≤ dev.blockCount) (hs : s.blocks = B) (name : ℕ → UInt8) :
    Ends (findDirent dev name) s
      (fun r s' ↦ ∃ slot, r = (slot, slotIno B slot) ∧ FoundAt dev (B rootDirLba) name slot ∧
        s'.blocks = B)
      (fun e s' ↦ s'.blocks = B ∧
        (dev.Healthy → (e = .noent ∧ NotFound dev (B rootDirLba) name) ∨ Rejected name e)) := by
  refine ends_bind ((validName_ends s name).mono (fun _ _ h ↦ h) ?_) ?_
  · rintro e s' ⟨hr, rfl⟩
    exact ⟨hs, fun _ ↦ .inr hr⟩
  · rintro len s' ⟨hlen, rfl⟩
    refine ends_bind ((devRead_ends hs (lt_blockCount hn (by decide))).mono (fun _ _ h ↦ h)
      fun e s' h ↦ ⟨h.1, fun hh ↦ absurd hh h.2⟩) ?_
    rintro _ s'' ⟨rfl, hs''⟩
    refine ends_get (ends_expect (fun hnone ↦ ⟨hs'', fun _ ↦ .inl ⟨rfl, ?_⟩⟩) fun slot hslot ↦ ?_)
    · exact ⟨len, s''.clock, hlen, hnone⟩
    · exact ends_pure ⟨slot, rfl, ⟨len, s''.clock, hlen, hslot⟩, hs''⟩

/-- The common beginning of `mcsfs1_write`, `mcsfs1_read`, `mcsfs1_unlink` and `mcsfs1_stat`: find
the entry and read its inode, which is that of a file. -/
theorem findInode_ends {α : Type} {f : ℕ × ℕ → Inode → M α} {Q : α → Disk → Prop}
    {E : Err → Disk → Prop} (hn : minBlocks ≤ dev.blockCount) (hs : s.blocks = B)
    (hinv : Inv dev.blockCount B) (name : ℕ → UInt8)
    (hE : ∀ e s', s'.blocks = B → (dev.Healthy →
      (e = .noent ∧ NotFound dev (B rootDirLba) name) ∨ Rejected name e) → E e s')
    (hf : ∀ slot s', FoundAt dev (B rootDirLba) name slot → s'.blocks = B →
      Ends (f (slot, slotIno B slot) (inodeAt B (slotIno B slot))) s' Q E) :
    Ends (do
      let found ← findDirent dev name
      let inode ← readInode dev found.2
      failIf (inode.mode ≠ modeFile) .isdir
      f found inode) s Q E := by
  refine ends_bind ((findDirent_ends hn hs name).mono (fun _ _ h ↦ h)
    fun e s' h ↦ hE e s' h.1 h.2) ?_
  rintro _ s' ⟨slot, rfl, hfound, hs'⟩
  have hfile := hinv.ino slot hfound.live
  refine ends_bind ((readInode_ends hn hs' hfile.pos hfile.2).mono (fun _ _ h ↦ h)
    fun e s' h ↦ hE e s' h.1 fun hh ↦ absurd hh h.2) ?_
  rintro _ s'' ⟨rfl, hs''⟩
  refine ends_failIf ?_ fun _ ↦ ?_
  · exact fun hmode ↦ absurd (hinv.inode slot hfound.live).mode hmode
  · exact hf slot s'' hfound hs''

end Mcsfs1
end Mcsos
