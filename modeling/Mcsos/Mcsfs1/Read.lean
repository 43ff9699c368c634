import Mcsos.Mcsfs1.Check
import Mcsos.Mcsfs1.Write

/-!
# MCSFS1: reading and checking

The operations that write nothing.  On a disk that satisfies the invariant `mcsfs1_read`
returns the bytes of the file, `mcsfs1_stat` their number, and `mcsfs1_fsck` on a healthy device has
nothing to complain about.
-/

set_option autoImplicit false

namespace Mcsos
namespace Mcsfs1

open Bytes Program

variable {dev : Blkdev} {s : Disk} {B : ℕ → Block} {inode : Inode} {i : ℕ}

/-! ## Reading -/

/-- Byte `k` of a file. -/
def fileByte (B : ℕ → Block) (inode : Inode) (k : ℕ) : UInt8 :=
  (B (inode.direct (k / blockSize))).get (k % blockSize)

/-- The contents of a file. -/
def fileBytes (B : ℕ → Block) (inode : Inode) : List UInt8 :=
  (List.range inode.size).map (fileByte B inode)

theorem length_fileBytes : (fileBytes B inode).length = inode.size := by
  rw [fileBytes, List.length_map, List.length_range]

/-- One round of the loop of `mcsfs1_read` appends the next chunk. -/
theorem append_chunk (hi : i < blocksNeeded inode.size)
    (hsize : inode.size ≤ directBlocks * blockSize) :
    (List.range (min (i * blockSize) inode.size)).map (fileByte B inode) ++
        (List.range (chunkSize (inode.size - min (i * blockSize) inode.size))).map
          (B (inode.direct i)).get
      = (List.range (min ((i + 1) * blockSize) inode.size)).map (fileByte B inode) := by
  have hi' : i < max (blocksNeeded inode.size) 1 := lt_of_lt_of_le hi (le_max_left _ _)
  rw [written_eq hi' hsize, ← min_add_chunkSize hi' hsize, List.range_add, List.map_append,
    List.map_map]
  refine congrArg _ (List.map_congr_left fun k hk ↦ ?_)
  have hk' : k < blockSize := by
    have := List.mem_range.1 hk
    simp only [chunkSize, blockSize] at *
    split at this <;> omega
  have h1 : (i * blockSize + k) / blockSize = i := by
    rw [Nat.add_comm, Nat.add_mul_div_right _ _ (by decide), Nat.div_eq_of_lt hk', Nat.zero_add]
  have h2 : (i * blockSize + k) % blockSize = k := by
    rw [Nat.add_comm, Nat.add_mul_mod_self_right, Nat.mod_eq_of_lt hk']
  rw [Function.comp_apply, fileByte, h1, h2]

theorem readBlocks_ends {mnt : Mount} (hmnt : mnt.blockCount = dev.blockCount)
    (hok : InodeOk dev.blockCount (B blockBmapLba) inode) (hs : s.blocks = B) {m : ℕ}
    (hm : i + m = blocksNeeded inode.size) :
    Ends (readBlocks dev mnt inode m i
        ((List.range (min (i * blockSize) inode.size)).map (fileByte B inode))) s
      (fun out s' ↦ out = fileBytes B inode ∧ s'.blocks = B) (Faulted dev B) := by
  induction m generalizing i s with
  | zero =>
    refine ends_pure ⟨?_, hs⟩
    have hsize := hok.size_le
    have hmin : min (i * blockSize) inode.size = inode.size := by
      simp only [Nat.add_zero, blocksNeeded, blockSize, directBlocks] at *
      omega
    rw [hmin, fileBytes]
  | succ m ih =>
    have hi : i < blocksNeeded inode.size := by omega
    have hi' : i < max (blocksNeeded inode.size) 1 := lt_of_lt_of_le hi (le_max_left _ _)
    have hj : i < directBlocks := lt_of_lt_of_le hi' (blocksNeeded_le hok.size_le)
    have hz := hok.filled i hi'
    have hlt := hok.direct_lt i hj hz
    rw [readBlocks]
    refine ends_failIf (fun hc ↦ ?_) fun _ ↦ ends_bind (devRead_ends hs hlt) ?_
    · exact (hc.elim hz fun hc ↦ absurd hlt (not_lt.2 (hmnt ▸ hc))).elim
    · rintro _ s' ⟨rfl, hs'⟩
      dsimp only
      rw [List.length_map, List.length_range, append_chunk hi hok.size_le]
      exact ih hs' (by omega)

theorem read_ends {mnt : Mount} (hn : minBlocks ≤ dev.blockCount)
    (hmnt : mnt.blockCount = dev.blockCount) (hs : s.blocks = B) (h : Inv dev.blockCount B)
    (name : ℕ → UInt8) (cap : ℕ) :
    Ends (read dev mnt name cap) s
      (fun r s' ↦ s'.blocks = B ∧ ∃ slot, FoundAt dev (B rootDirLba) name slot ∧
        r = (fileBytes B (inodeAt B (slotIno B slot)), (inodeAt B (slotIno B slot)).size) ∧
        (inodeAt B (slotIno B slot)).size ≤ cap)
      (fun e s' ↦ s'.blocks = B ∧ (dev.Healthy →
        (e = .range ∧ ∃ slot, FoundAt dev (B rootDirLba) name slot ∧
          cap < (inodeAt B (slotIno B slot)).size) ∨
        (e = .noent ∧ NotFound dev (B rootDirLba) name) ∨ Rejected name e)) := by
  refine findInode_ends hn hs h name ?_ ?_
  · exact fun _ _ hs' he ↦ ⟨hs', fun hh ↦ .inr (he hh)⟩
  intro slot s1 hfound hs1
  refine ends_failIf ?_ fun hcap ↦ ?_
  · exact fun hc ↦ ⟨hs1, fun _ ↦ .inl ⟨rfl, slot, hfound, hc⟩⟩
  have hloop := readBlocks_ends (i := 0) hmnt (h.inode slot hfound.live) hs1 (Nat.zero_add _)
  rw [Nat.zero_mul, Nat.zero_min, List.range_zero, List.map_nil] at hloop
  refine ends_bind (hloop.mono (fun _ _ h ↦ h) fun _ _ hf ↦
    ⟨hf.1, fun hh ↦ absurd hh hf.2⟩) ?_
  rintro out s2 ⟨hout, hs2⟩
  rw [hout]
  exact ends_pure ⟨hs2, slot, hfound, rfl, not_lt.1 hcap⟩

theorem stat_ends (hn : minBlocks ≤ dev.blockCount) (hs : s.blocks = B)
    (h : Inv dev.blockCount B) (name : ℕ → UInt8) :
    Ends (stat dev name) s
      (fun size s' ↦ s'.blocks = B ∧ ∃ slot, FoundAt dev (B rootDirLba) name slot ∧
        size = (inodeAt B (slotIno B slot)).size)
      (fun e s' ↦ s'.blocks = B ∧ (dev.Healthy →
        (e = .noent ∧ NotFound dev (B rootDirLba) name) ∨ Rejected name e)) :=
  findInode_ends hn hs h name (fun _ _ hs' he ↦ ⟨hs', he⟩) fun slot _ hfound hs1 ↦
    ends_pure ⟨hs1, slot, hfound, rfl⟩

/-! ## Mounting and checking -/

/-- The fields of a superblock that has just been written. -/
theorem superBlock_fields {n : ℕ} (hn : n < 256 ^ 4) :
    Super.magic (superBlock n) = magic ∧ Super.version (superBlock n) = version ∧
      Super.blockSize (superBlock n) = blockSize ∧ Super.blockCount (superBlock n) = n ∧
      Super.inodeCount (superBlock n) = maxInodes ∧
      Super.inodeBmapLba (superBlock n) = inodeBmapLba ∧
      Super.blockBmapLba (superBlock n) = blockBmapLba ∧
      Super.inodeTableLba (superBlock n) = inodeTableLba ∧
      Super.rootIno (superBlock n) = rootIno ∧ Super.rootDirLba (superBlock n) = rootDirLba ∧
      Super.dataStartLba (superBlock n) = dataStartLba := by
  refine ⟨?_, ?_, ?_, ?_, ?_, ?_, ?_, ?_, ?_, ?_, ?_⟩
  all_goals
    simp (disch := first | decide | omega | assumption) only [Super.magic, Super.version,
      Super.blockSize, Super.blockCount, Super.inodeCount, Super.inodeBmapLba, Super.blockBmapLba,
      Super.inodeTableLba, Super.rootIno, Super.rootDirLba, Super.dataStartLba, superBlock,
      Buf.field_setField_same, Buf.field_setField_of_disjoint]

theorem superOk_superBlock {n : ℕ} (hn : minBlocks ≤ n) (hn' : n ≤ blockSize * 8) :
    SuperOk n (superBlock n) := by
  obtain ⟨f1, f2, f3, f4, f5, f6, f7, f8, f9, f10, f11⟩ :=
    superBlock_fields (lt_of_le_of_lt hn' (by decide))
  refine ⟨⟨f1, f2, f3⟩, ⟨f4, f5⟩, ⟨f6, f7, f8⟩, ⟨f9, f10, f11⟩, ?_⟩
  rw [f4, f11]
  exact lt_of_lt_of_le (by decide) hn

/-- An inode that is in order passes the tests of the check. -/
theorem InodeOk.blocks {n j : ℕ} {bb : Block} (h : InodeOk n bb inode)
    (hj : j < max (blocksNeeded inode.size) 1) :
    dataStartLba ≤ inode.direct j ∧ inode.direct j < n ∧ bb.bitTest (inode.direct j) = true := by
  have hj8 := lt_of_lt_of_le hj (blocksNeeded_le h.size_le)
  have hz := h.filled j hj
  exact ⟨h.direct_ge j hj8 hz, h.direct_lt j hj8 hz, h.direct_marked j hj8 hz⟩

/-- **The invariant implies what the check looks for.** -/
theorem Inv.clean {n : ℕ} (h : Inv n B) (hn : minBlocks ≤ n) (hn' : n ≤ blockSize * 8) :
    Clean n B where
  super := by
    rw [h.super]
    exact superOk_superBlock hn hn'
  root_marked := ⟨h.root_marked, h.reserved rootDirLba (by decide)⟩
  reserved := h.reserved
  root := by
    rw [RootOk, h.root]
    exact ⟨Inode.mode_make _ _ (by decide), Inode.direct_make_zero _ _ (by decide)⟩
  entry i hi h0 := by
    have hl : Live B i := ⟨hi, h0⟩
    have hok := h.inode i hl
    exact ⟨⟨(h.ino i hl).2, h.type i hl, h.ino_marked i hl⟩, ⟨hok.mode, hok.size_le⟩,
      fun j hj ↦ hok.blocks hj⟩

section Checking

variable (hn : minBlocks ≤ dev.blockCount) (hn' : dev.blockCount ≤ blockSize * 8)
  (hs : s.blocks = B) (h : Inv dev.blockCount B)

include hn hn' hs h

/-- Mounting a disk that satisfies the invariant. -/
theorem mount_ends_of_inv :
    Ends (mount dev) s (fun mnt s' ↦ mnt.blockCount = dev.blockCount ∧ s'.blocks = B)
      (Faulted dev B) :=
  (mount_ends hn hs).mono (fun _ _ hq ↦ hq) fun _ _ hf ↦
    hf.faulted ⟨(h.clean hn hn').super, (h.clean hn hn').root⟩

/-- Checking a disk that satisfies the invariant. -/
theorem fsck_ends_of_inv : Ends (fsck dev) s (fun _ s' ↦ s'.blocks = B) (Faulted dev B) :=
  (fsck_ends hn hs).mono (fun _ _ hq ↦ hq.1) fun _ _ hf ↦ hf.faulted (h.clean hn hn')

end Checking

end Mcsfs1
end Mcsos
