import Mcsos.Mcsfs1.Read
import Mcsos.Mcsfs1.Unlink

/-!
# MCSFS1: metadata consistency

A freshly formatted disk satisfies the invariant, and every call keeps it, wherever the device makes
it stop.  `metadata_consistent` spells out what that means for a disk that any calls have been
applied to, on a device that may fail at any access.
-/

set_option autoImplicit false

namespace Mcsos
namespace Mcsfs1

open Bytes Program

variable {dev : Blkdev} {B : ℕ → Block} {d d' : Disk}

/-! ## A fresh disk -/

theorem zeroBlocks_ends {m : ℕ} (lba : ℕ) (h : lba + m ≤ dev.blockCount)
    (hz : ∀ x, x < lba → d.blocks x = Buf.zero blockSize) :
    Ends (zeroBlocks dev m lba) d
      (fun _ d' ↦ ∀ x, x < lba + m → d'.blocks x = Buf.zero blockSize)
      (fun _ _ ↦ ¬ dev.Healthy) := by
  induction m generalizing lba d with
  | zero => exact ends_pure hz
  | succ m ih =>
    rw [zeroBlocks]
    refine ends_bind ((devWrite_ends rfl (by omega) _).mono (fun _ _ h ↦ h) fun _ _ h ↦ h.2) ?_
    intro _ d' hd'
    rw [show lba + (m + 1) = lba + 1 + m by omega]
    refine ih (lba + 1) (by omega) fun x hx ↦ ?_
    rw [hd']
    rcases Nat.lt_succ_iff_lt_or_eq.1 hx with hx | rfl
    · rw [Function.update_of_ne hx.ne, hz x hx]
    · rw [Function.update_self]

/-- The disk that `mcsfs1_format` leaves, where `B` is all zero. -/
def formatted (n : ℕ) (B : ℕ → Block) : ℕ → Block :=
  setInode (Function.update (Function.update (Function.update B sbLba (superBlock n)) inodeBmapLba
    formatInodeBmap) blockBmapLba formatBlockBmap) rootIno rootInode

theorem formatted_of_not_table {n x : ℕ} (hx : x < inodeTableLba ∨ rootDirLba ≤ x) :
    formatted n B x = Function.update (Function.update (Function.update B sbLba (superBlock n))
      inodeBmapLba formatInodeBmap) blockBmapLba formatBlockBmap x :=
  setInode_of_not_table (by decide) hx _

theorem formatted_rootDir {n : ℕ} (hB : B rootDirLba = Buf.zero blockSize) :
    formatted n B rootDirLba = Buf.zero blockSize := by
  rw [formatted_of_not_table (.inr le_rfl), Function.update_of_ne (by decide),
    Function.update_of_ne (by decide), Function.update_of_ne (by decide), hB]

/-- A fresh directory has no entries. -/
theorem not_live_of_zero {B : ℕ → Block} (h : B rootDirLba = Buf.zero blockSize) (i : ℕ) :
    ¬ Live B i := fun hl ↦ hl.2 (by rw [slotIno, h, Dirent.ino, Buf.field_zero])

theorem formatBlockBmap_marked {b : ℕ} : formatBlockBmap.bitTest b = true ↔ b < dataStartLba := by
  have hbits : ∀ i ∈ List.range dataStartLba, i / 8 < blockSize := fun i hi ↦
    lt_of_le_of_lt (Nat.div_le_self i 8) (lt_trans (List.mem_range.1 hi) (by decide))
  rw [formatBlockBmap, bitTest_bitSet_iff (by decide), Buf.bitTest_foldl_bitSet hbits,
    List.mem_range, Buf.bitTest_zero]
  simp only [rootDirLba, dataStartLba, Bool.false_eq_true, or_false]
  omega

theorem inv_formatted {n : ℕ} (hB : B rootDirLba = Buf.zero blockSize) : Inv n (formatted n B) := by
  have hl := not_live_of_zero (formatted_rootDir (n := n) hB)
  refine ⟨?_, fun b hb ↦ ?_, ?_, inodeAt_setInode_self _ _ _, fun i hi ↦ absurd hi (hl i),
    fun i hi ↦ absurd hi (hl i), fun i hi ↦ absurd hi (hl i), fun i hi ↦ absurd hi (hl i),
    fun i _ hi ↦ absurd hi (hl i), fun i _ hi ↦ absurd hi (hl i)⟩
  · rw [formatted_of_not_table (.inl (by decide)), Function.update_of_ne (by decide),
      Function.update_of_ne (by decide), Function.update_self]
  · rw [formatted_of_not_table (.inl (by decide)), Function.update_self]
    exact formatBlockBmap_marked.2 hb
  · rw [formatted_of_not_table (.inl (by decide)), Function.update_of_ne (by decide),
      Function.update_self]
    exact bitTest_bitSet_self (by decide)

/-- Formatting succeeds on a healthy device of a supported size. -/
theorem format_ends (dev : Blkdev) (d : Disk) :
    Ends (format dev) d
      (fun _ d' ↦ minBlocks ≤ dev.blockCount ∧ dev.blockCount ≤ blockSize * 8 ∧
        ∃ B : ℕ → Block, (∀ x, x < dev.blockCount → B x = Buf.zero blockSize) ∧
          d'.blocks = formatted dev.blockCount B)
      (fun _ _ ↦ minBlocks ≤ dev.blockCount → dev.blockCount ≤ blockSize * 8 → ¬ dev.Healthy) := by
  refine ends_failIf (fun hc h1 h2 ↦ ?_) fun hc ↦ ?_
  · omega
  have hn : minBlocks ≤ dev.blockCount := by omega
  have hn' : dev.blockCount ≤ blockSize * 8 := by omega
  refine ends_bind ((zeroBlocks_ends 0 (by omega) fun x hx ↦ absurd hx (Nat.not_lt_zero x)).mono
    (fun _ _ h ↦ h) fun _ _ h _ _ ↦ h) fun _ d1 hd1 ↦ ?_
  refine ends_bind ((devWrite_ends rfl (lt_blockCount hn (by decide)) _).mono (fun _ _ h ↦ h)
    fun _ _ h _ _ ↦ h.2) fun _ d2 hd2 ↦ ?_
  refine ends_bind ((storeBmaps_ends hn hd2 _ _).mono (fun _ _ h ↦ h) fun _ _ h _ _ ↦ h.2)
    fun _ d3 hd3 ↦ ?_
  refine ends_bind ((writeInode_ends hn hd3 (by decide) (by decide) _).mono (fun _ _ h ↦ h)
    fun _ _ h _ _ ↦ h.2) fun _ d4 hd4 ↦ ?_
  rw [Nat.zero_add] at hd1
  exact (devFlush_ends hd4).mono (fun _ d5 hd5 ↦ ⟨hn, hn', d1.blocks, hd1, hd5⟩)
    fun _ _ h _ _ ↦ h.2

/-- A file system that has just been formatted and mounted. -/
structure FreshMount (dev : Blkdev) (mnt : Mount) (d₁ d₂ : Disk) : Prop where
  ge : minBlocks ≤ dev.blockCount
  le : dev.blockCount ≤ blockSize * 8
  blockCount : mnt.blockCount = dev.blockCount
  blocks_eq : d₂.blocks = d₁.blocks
  inv : Inv dev.blockCount d₁.blocks
  empty : ∀ i, ¬ Live d₁.blocks i

theorem freshMount_of_eq_ok {d₀ d₁ d₂ : Disk} {mnt : Mount} (hf : format dev d₀ = .ok () d₁)
    (hm : mount dev d₁ = .ok mnt d₂) : FreshMount dev mnt d₁ d₂ := by
  obtain ⟨hn, hn', B, hzero, hd₁⟩ := (format_ends dev d₀).of_eq_ok hf
  have hB : B rootDirLba = Buf.zero blockSize := hzero _ (lt_blockCount hn (by decide))
  have hinv : Inv dev.blockCount d₁.blocks := hd₁ ▸ inv_formatted hB
  obtain ⟨hmnt, hd₂⟩ := (mount_ends_of_inv hn hn' rfl hinv).of_eq_ok hm
  exact ⟨hn, hn', hmnt, hd₂, hinv, not_live_of_zero (hd₁ ▸ formatted_rootDir hB)⟩

/-- Formatting and mounting a healthy device succeed. -/
theorem exists_format_mount (hn : minBlocks ≤ dev.blockCount) (hn' : dev.blockCount ≤ blockSize * 8)
    (hh : dev.Healthy) (d₀ : Disk) :
    ∃ d₁ mnt d₂, format dev d₀ = .ok () d₁ ∧ mount dev d₁ = .ok mnt d₂ := by
  cases hf : format dev d₀ with
  | error e d₁ => exact absurd hh ((format_ends dev d₀).of_eq_error hf hn hn')
  | ok _ d₁ =>
    obtain ⟨-, -, B, hzero, hd₁⟩ := (format_ends dev d₀).of_eq_ok hf
    have hB : B rootDirLba = Buf.zero blockSize := hzero _ (lt_blockCount hn (by decide))
    have hmount := mount_ends_of_inv hn hn' rfl (hd₁ ▸ inv_formatted (n := dev.blockCount) hB)
    obtain ⟨mnt, d₂, hm, -⟩ := exists_ok_of_healthy hh hmount
    exact ⟨d₁, mnt, d₂, rfl, hm⟩

/-- A healthy device of sixteen blocks. -/
def smallDev : Blkdev := ⟨16, fun _ ↦ false, fun _ ↦ 0⟩

/-- A disk that has never been written to. -/
def blankDisk : Disk := ⟨fun _ ↦ Buf.zero blockSize, 0⟩

theorem smallDev_healthy : smallDev.Healthy := fun _ ↦ rfl

/-! ## Calls -/

/-- The calls on a mounted file system. -/
inductive Call
  | create (name : ℕ → UInt8)
  | write (name buf : ℕ → UInt8) (len : ℕ)
  | read (name : ℕ → UInt8) (cap : ℕ)
  | stat (name : ℕ → UInt8)
  | unlink (name : ℕ → UInt8)

/-- The disk a call leaves behind, whatever it returns. -/
def Call.run (dev : Blkdev) (mnt : Mount) : Call → Disk → Disk
  | .create name => after (Mcsfs1.create dev name)
  | .write name buf len => after (Mcsfs1.write dev name buf len)
  | .read name cap => after (Mcsfs1.read dev mnt name cap)
  | .stat name => after (Mcsfs1.stat dev name)
  | .unlink name => after (Mcsfs1.unlink dev name)

/-- The error a call returns, if any. -/
def Call.error (dev : Blkdev) (mnt : Mount) : Call → Disk → Option Err
  | .create name => errorOf (Mcsfs1.create dev name)
  | .write name buf len => errorOf (Mcsfs1.write dev name buf len)
  | .read name cap => errorOf (Mcsfs1.read dev mnt name cap)
  | .stat name => errorOf (Mcsfs1.stat dev name)
  | .unlink name => errorOf (Mcsfs1.unlink dev name)

/-- The disks that calls can lead to from a given one. -/
inductive Reaches (dev : Blkdev) (mnt : Mount) (d₀ : Disk) : Disk → Prop
  | start : Reaches dev mnt d₀ d₀
  | call (c : Call) {d : Disk} (h : Reaches dev mnt d₀ d) : Reaches dev mnt d₀ (c.run dev mnt d)

section Calls

variable {mnt : Mount} (hn : minBlocks ≤ dev.blockCount) (hn' : dev.blockCount ≤ blockSize * 8)
  (hmnt : mnt.blockCount = dev.blockCount)

include hn hn' hmnt

/-- **Every call keeps the invariant**, wherever the device makes it stop. -/
theorem Call.inv (c : Call) (h : Inv dev.blockCount d.blocks) :
    Inv dev.blockCount (c.run dev mnt d).blocks := by
  cases c with
  | create name =>
    refine ((create_ends hn hn' rfl h name).mono (fun _ d' hq ↦ ?_) fun _ _ he ↦ he.1).after
    obtain ⟨⟨slot, ino, lba, len, hc⟩, -⟩ := hq
    rw [hc.blocks]
    exact inv_created h hc.fresh hn' (findFreeSlot_some hc.slot_free).1 hc.nameOk.le
  | write name buf len =>
    refine ((write_ends hn hn' rfl h name buf len).mono (fun _ d' hq ↦ ?_) fun _ _ he ↦ he.1).after
    obtain ⟨hlen, slot, B₁, B₂, new, hfound, hw⟩ := hq
    exact hw.inv h hfound.live hlen
  | read name cap =>
    exact ((read_ends hn hmnt rfl h name cap).mono (fun _ _ hq ↦ hq.1.symm ▸ h)
      fun _ _ he ↦ he.1.symm ▸ h).after
  | stat name =>
    exact ((stat_ends hn rfl h name).mono (fun _ _ hq ↦ hq.1.symm ▸ h)
      fun _ _ he ↦ he.1.symm ▸ h).after
  | unlink name =>
    refine ((unlink_ends hn hn' rfl h name).mono (fun _ d' hq ↦ ?_) fun _ _ he ↦ he.1).after
    obtain ⟨slot, hfound, hd'⟩ := hq
    rw [hd']
    exact inv_removed h hfound.live hn'

theorem Reaches.inv {d₀ : Disk} (h₀ : Inv dev.blockCount d₀.blocks)
    (hr : Reaches dev mnt d₀ d) : Inv dev.blockCount d.blocks := by
  induction hr with
  | start => exact h₀
  | call c _ ih => exact c.inv hn hn' hmnt ih

end Calls

/-- **Metadata consistency.**  Format and mount a disk and make any calls, on a device that may fail
at any access.  Whatever disk results, the check passes on the repaired device, the live entries
have marked inodes of their own, their blocks are marked data blocks that occur once, and the
metadata of the file system itself is as it was. -/
theorem metadata_consistent {d₀ d₁ d₂ : Disk} {mnt : Mount} (hf : format dev d₀ = .ok () d₁)
    (hm : mount dev d₁ = .ok mnt d₂) (hr : Reaches dev mnt d₂ d) :
    (∃ d', fsck dev.repaired d = .ok () d') ∧
      (∀ i, Live d.blocks i → 2 ≤ slotIno d.blocks i ∧ slotIno d.blocks i ≤ maxInodes ∧
        (d.blocks inodeBmapLba).bitTest (slotIno d.blocks i) = true) ∧
      (∀ i i', Live d.blocks i → Live d.blocks i' → i ≠ i' →
        slotIno d.blocks i ≠ slotIno d.blocks i') ∧
      (∀ i, Live d.blocks i → ∀ j, j < directBlocks → blockOf d.blocks i j ≠ 0 →
        dataStartLba ≤ blockOf d.blocks i j ∧ blockOf d.blocks i j < dev.blockCount ∧
          (d.blocks blockBmapLba).bitTest (blockOf d.blocks i j) = true) ∧
      (∀ i i', Live d.blocks i → Live d.blocks i' → ∀ j j', j < directBlocks → j' < directBlocks →
        blockOf d.blocks i j ≠ 0 → (i, j) ≠ (i', j') →
        blockOf d.blocks i j ≠ blockOf d.blocks i' j') ∧
      (∀ b, b < dataStartLba →
        (d.blocks blockBmapLba).bitTest b = (d₁.blocks blockBmapLba).bitTest b) ∧
      d.blocks sbLba = d₁.blocks sbLba ∧
      inodeAt d.blocks rootIno = inodeAt d₁.blocks rootIno := by
  have h := freshMount_of_eq_ok hf hm
  have hinv := hr.inv h.ge h.le h.blockCount (h.blocks_eq.symm ▸ h.inv)
  refine ⟨?_, fun i hi ↦ ?_, fun i i' hi hi' hne he ↦ ?_, fun i hi j hj hz ↦ ?_,
    fun i i' hi hi' j j' hj hj' hz hne ↦ ?_, fun b hb ↦ ?_, ?_, ?_⟩
  · have hcheck : Ends (fsck dev.repaired) d (fun _ d' ↦ d'.blocks = d.blocks)
        (Faulted dev.repaired d.blocks) := fsck_ends_of_inv h.ge h.le rfl hinv
    obtain ⟨_, d', hrun, -⟩ := exists_ok_of_healthy (fun _ ↦ rfl) hcheck
    exact ⟨d', hrun⟩
  · exact ⟨(hinv.ino i hi).1, (hinv.ino i hi).2, hinv.ino_marked i hi⟩
  · exact hne (hinv.ino_inj i i' hi hi' he)
  · have hok := hinv.inode i hi
    exact ⟨hok.direct_ge j hj hz, hok.direct_lt j hj hz, hok.direct_marked j hj hz⟩
  · by_cases hii : i = i'
    · subst hii
      exact fun he ↦ hne (by rw [(hinv.inode i hi).direct_inj j j' hj hj' hz he])
    · exact hinv.block_inj i i' hi hi' hii j j' hj hj' hz
  · rw [hinv.reserved b hb, h.inv.reserved b hb]
  · rw [hinv.super, h.inv.super]
  · rw [hinv.root, h.inv.root]

/-- `smallDev` with a fault at access number 41. -/
def faultyDev : Blkdev := { smallDev with faults := fun t ↦ t == 41 }

/-- The faulty device, formatted and mounted.  The second creation fails when it has marked an inode
and a block and not yet written the inode; after that the first file is removed. -/
theorem metadata_consistent_failed_create : ∃ (d₁ d₂ : Disk) (mnt : Mount),
    format faultyDev blankDisk = .ok () d₁ ∧ mount faultyDev d₁ = .ok mnt d₂ ∧
    (Call.create (CString.ofBytes [98]).view).error faultyDev mnt
      ((Call.create (CString.ofBytes [97]).view).run faultyDev mnt d₂) = some .io ∧
    (((Call.create (CString.ofBytes [98]).view).run faultyDev mnt
      ((Call.create (CString.ofBytes [97]).view).run faultyDev mnt d₂)).blocks
        inodeBmapLba).bitTest 3 = true ∧
    ∃ d', fsck faultyDev.repaired ((Call.unlink (CString.ofBytes [97]).view).run faultyDev mnt
      ((Call.create (CString.ofBytes [98]).view).run faultyDev mnt
        ((Call.create (CString.ofBytes [97]).view).run faultyDev mnt d₂))) = .ok () d' := by
  have hf := eq_ok_of_errorOf (show errorOf (format faultyDev) blankDisk = none by decide +kernel)
  obtain ⟨mnt, d₂, hm⟩ := errorOf_eq_none.1
    (show errorOf (mount faultyDev) (after (format faultyDev) blankDisk) = none by decide +kernel)
  have herror : errorOf (create faultyDev (CString.ofBytes [98]).view)
      (after (create faultyDev (CString.ofBytes [97]).view)
        (after (mount faultyDev) (after (format faultyDev) blankDisk))) = some .io := by
    decide +kernel
  have hmarked : ((after (create faultyDev (CString.ofBytes [98]).view)
      (after (create faultyDev (CString.ofBytes [97]).view)
        (after (mount faultyDev) (after (format faultyDev) blankDisk)))).blocks
          inodeBmapLba).bitTest 3 = true := by
    decide +kernel
  rw [after_of_ok hm] at herror hmarked
  refine ⟨_, d₂, mnt, hf, hm, herror, ?_,
    (metadata_consistent hf hm (.call _ (.call _ (.call _ .start)))).1⟩
  rw [Call.run, Call.run]
  exact hmarked

end Mcsfs1
end Mcsos
