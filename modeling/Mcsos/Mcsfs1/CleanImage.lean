import Mcsos.Mcsfs1.HostileRead
import Mcsos.Mcsfs1.RoundTrip

/-!
# MCSFS1: what a clean check is worth

`mcsfs1_fsck` accepts any image that is `Clean`, whether or not this code has produced it.  The
invariant need not hold then: two entries may share an inode or a block.  What the check promises is
that the files can be read.  The reader does not repeat the tests of the checker.  It counts the
blocks of an empty file differently, and it trusts the size, the mode and the direct blocks of the
inode, all of which the checker has looked at for every entry that the reader can arrive at.
-/

set_option autoImplicit false

namespace Mcsos
namespace Mcsfs1

open Bytes Program

variable {dev : Blkdev} {mnt : Mount} {inode : Inode} {name : ℕ → UInt8} {cap slot : ℕ}
  {d d' : Disk} {B : ℕ → Block} {p : UInt8}

/-! ## Reading -/

/-- `mcsfs1_read` gets to round `j` of its loop and reads this block there. -/
def Fetches (dev : Blkdev) (mnt : Mount) (name : ℕ → UInt8) (cap : ℕ) (d : Disk) (j lba : ℕ) :
    Prop :=
  ∃ inode d', GetsToLoop dev name cap d inode d' ∧ j < blocksNeeded inode.size ∧
    errorOf (readBlocks dev mnt inode j 0 []) d' = none ∧ lba = inode.direct j

/-- The name leads to a file of this size, which can be read. -/
structure Readable (dev : Blkdev) (mnt : Mount) (name : ℕ → UInt8) (size : ℕ) (d : Disk) :
    Prop where
  stat : ∃ d', stat dev name d = .ok size d'
  read : ∀ cap, size ≤ cap → ∃ out d', read dev mnt name cap d = .ok (out, size) d' ∧
    out.length = size
  index : ∀ cap j, Indexes dev mnt name cap d j → j < directBlocks
  block : ∀ cap j lba, Fetches dev mnt name cap d j lba →
    dataStartLba ≤ lba ∧ lba < dev.blockCount ∧ (d.blocks blockBmapLba).bitTest lba = true

section Reading

variable (hn : minBlocks ≤ dev.blockCount) (hp : ∀ t, dev.past t = p)
  (hfound : FoundAt dev (B rootDirLba) name slot) (hd : d.blocks = B)

include hn hp hfound hd

/-- The lookup arrives at the slot of the name. -/
theorem exists_findDirent_ok (hh : dev.Healthy) :
    ∃ d', findDirent dev name d = .ok (slot, slotIno B slot) d' ∧ d'.blocks = B := by
  have hends := findDirent_ends hn hd name
  cases hrun : findDirent dev name d with
  | ok found d' =>
    obtain ⟨slot', rfl, hfound', hd'⟩ := hends.of_eq_ok hrun
    rw [hfound.unique hp hfound']
    exact ⟨d', rfl, hd'⟩
  | error e d' =>
    rcases (hends.of_eq_error hrun).2 hh with ⟨-, hnot⟩ | hrejected
    · exact absurd hnot (hfound.not_notFound hp)
    · exact absurd hrejected hfound.not_rejected

variable (hentry : EntryOk dev.blockCount B slot)

include hentry

/-- There is only one inode that the reader can arrive at. -/
theorem GetsToLoop.eq_inodeAt (h : GetsToLoop dev name cap d inode d') :
    inode = inodeAt B (slotIno B slot) ∧ d'.blocks = B := by
  obtain ⟨⟨found, d₁, hfind, hread⟩, -⟩ := h
  obtain ⟨slot', rfl, hfound', hd₁⟩ := (findDirent_ends hn hd name).of_eq_ok hfind
  rw [← hfound.unique hp hfound'] at hread
  exact (readInode_ends hn hd₁ (Nat.pos_of_ne_zero hfound.live.2) hentry.entry.1).of_eq_ok hread

/-- The reader does arrive at it. -/
theorem exists_getsToLoop (hh : dev.Healthy) (hcap : (inodeAt B (slotIno B slot)).size ≤ cap) :
    ∃ d', GetsToLoop dev name cap d (inodeAt B (slotIno B slot)) d' ∧ d'.blocks = B := by
  obtain ⟨d₁, hfind, hd₁⟩ := exists_findDirent_ok hn hp hfound hd hh
  obtain ⟨_, d₂, hread, rfl, hd₂⟩ := exists_ok_of_healthy hh
    (readInode_ends hn hd₁ (Nat.pos_of_ne_zero hfound.live.2) hentry.entry.1)
  exact ⟨d₂, ⟨⟨_, d₁, hfind, hread⟩, hentry.inode.1, hcap⟩, hd₂⟩

omit hn hp hfound hd in
/-- Nothing stops the loop. -/
theorem errorOf_readBlocks_of_entryOk (hh : dev.Healthy) (hmnt : mnt.blockCount = dev.blockCount)
    (d' : Disk) :
    errorOf (readBlocks dev mnt (inodeAt B (slotIno B slot))
      (blocksNeeded (inodeAt B (slotIno B slot)).size) 0 []) d' = none := by
  refine (errorOf_readBlocks_iff hmnt).2 fun j hj hstop ↦ ?_
  rw [Nat.zero_add] at hstop
  obtain ⟨hge, hlt, -⟩ := hentry.blocks j (lt_of_lt_of_le hj (le_max_left _ _))
  rcases hstop with hstop | hstop | hstop
  · rw [blockOf, hstop] at hge
    exact absurd hge (by decide)
  · exact absurd (hmnt ▸ hlt) (not_lt.2 hstop)
  · exact not_healthy hstop hh

/-- An entry that passes the check is that of a file that can be read. -/
theorem readable_of_entryOk (hh : dev.Healthy) (hmnt : mnt.blockCount = dev.blockCount) :
    Readable dev mnt name (inodeAt B (slotIno B slot)).size d where
  stat := by
    obtain ⟨d', hloop, -⟩ := exists_getsToLoop hn hp hfound hd hentry hh le_rfl
    obtain ⟨⟨found, d₁, hfind, hread⟩, hmode, -⟩ := hloop
    refine ⟨d', ?_⟩
    rw [Mcsfs1.stat, bind_of_ok hfind, bind_of_ok hread,
      bind_of_ok (failIf_of_neg (not_not.2 hmode) _ d')]
    rfl
  read cap hcap := by
    obtain ⟨d', hloop, hd'⟩ := exists_getsToLoop hn hp hfound hd hentry hh hcap
    obtain ⟨out, d₂, hblocks⟩ := errorOf_eq_none.1
      (errorOf_readBlocks_of_entryOk hentry hh hmnt d')
    have hout : out = fileBytes B (inodeAt B (slotIno B slot)) :=
      readBlocks_eq_fileBytes hmnt hd' hentry.inode.2 (Nat.zero_add _) (by simpa using hblocks)
    refine ⟨out, d₂, ?_, hout ▸ length_fileBytes⟩
    rw [read_of_getsToLoop hloop, bind_of_ok hblocks]
    rfl
  index cap j := by
    rintro ⟨inode, d', hloop, hj, -⟩
    rw [(hloop.eq_inodeAt hn hp hfound hd hentry).1] at hj
    exact lt_of_lt_of_le hj (blocksNeeded_le_directBlocks hentry.inode.2)
  block cap j lba := by
    rintro ⟨inode, d', hloop, hj, -, rfl⟩
    rw [(hloop.eq_inodeAt hn hp hfound hd hentry).1] at hj ⊢
    rw [hd]
    exact hentry.blocks j (lt_of_lt_of_le hj (le_max_left _ _))

end Reading

/-! ## The main result -/

end Mcsfs1
end Mcsos
