import Mcsos.Mcsfs1.Accounting

/-!
# MCSFS1: calls that fail

On a healthy device a call that returns an error has usually not written anything yet.  The
exception is `mcsfs1_write`, which marks the blocks it is going to need one by one and does not take
the marks back when there are not enough: it leaves all blocks marked that were free.  So a failed
write goes unnoticed exactly if no block was free to begin with, and `failureAtomic_iff` says so in
terms of the number of free blocks and of the number of blocks the file lacks.
-/

set_option autoImplicit false

namespace Mcsos
namespace Mcsfs1

open Bytes Program

variable {n : ℕ} {dev : Blkdev} {B B' : ℕ → Block} {inode : Inode} {i k : ℕ}

/-! ## Counting -/

/-- The number of free data blocks. -/
def freeCount (n : ℕ) (B : ℕ → Block) : ℕ :=
  (List.range' dataStartLba (n - dataStartLba)).countP fun b ↦ !(B blockBmapLba).bitTest b

/-- How many of `k` blocks from `direct[i]` on a file lacks. -/
def lackCount (inode : Inode) (k i : ℕ) : ℕ :=
  (List.range' i k).countP fun j ↦ inode.direct j == 0

theorem findFreeBlock_eq_none_iff :
    findFreeBlock (B blockBmapLba) n = none ↔ freeCount n B = 0 := by
  rw [findFreeBlock, freeCount, List.find?_eq_none, List.countP_eq_zero]

theorem freeCount_bitSet (hn : n ≤ blockSize * 8) {lba : ℕ}
    (hf : findFreeBlock (B blockBmapLba) n = some lba)
    (hB : B' blockBmapLba = (B blockBmapLba).bitSet lba) : freeCount n B' + 1 = freeCount n B := by
  obtain ⟨-, hlt, hfree⟩ := findFreeBlock_some hf
  have hbits : lba < blockSize * 8 := lt_of_lt_of_le hlt hn
  refine Search.countP_add_one (List.nodup_range' ..) (List.mem_of_find?_eq_some hf) ?_ ?_
    fun b _ hne ↦ ?_
  · rw [hfree, Bool.not_false]
  · rw [hB, bitTest_bitSet_self hbits, Bool.not_true]
  · rw [hB, Bool.eq_iff_iff.2 ((bitTest_bitSet_iff hbits).trans (or_iff_right (Ne.symm hne)))]

theorem lackCount_of_zero (h : inode.direct i = 0) :
    lackCount inode (k + 1) i = lackCount inode k (i + 1) + 1 := by
  rw [lackCount, List.range'_succ, List.countP_cons, if_pos (beq_iff_eq.2 h), lackCount]

theorem lackCount_of_ne_zero (h : inode.direct i ≠ 0) :
    lackCount inode (k + 1) i = lackCount inode k (i + 1) := by
  rw [lackCount, List.range'_succ, List.countP_cons_of_neg (by simpa using h), lackCount]

/-- Blocks further on are not affected by filling in one. -/
theorem lackCount_setDirect {lba : ℕ} (hk : i + 1 + k ≤ directBlocks) :
    lackCount (inode.setDirect i lba) k (i + 1) = lackCount inode k (i + 1) := by
  refine List.countP_congr fun j hj ↦ ?_
  obtain ⟨h1, h2⟩ := List.mem_range'_1.1 hj
  rw [Inode.direct_setDirect_of_ne (by omega) (by omega)]

/-! ## The allocation loop -/

/-- The loop succeeds only if there are enough free blocks.  If there are not, it takes them all. -/
theorem allocBlocks_count (hn : minBlocks ≤ dev.blockCount) (hn' : dev.blockCount ≤ blockSize * 8)
    (hh : dev.Healthy) {s : Disk} (hk : i + k ≤ directBlocks) :
    Ends (allocBlocks dev k i inode) s
      (fun _ _ ↦ lackCount inode k i ≤ freeCount dev.blockCount s.blocks)
      (fun _ s' ↦ freeCount dev.blockCount s.blocks < lackCount inode k i ∧
        freeCount dev.blockCount s'.blocks = 0 ∧
        (freeCount dev.blockCount s.blocks = 0 → s'.blocks = s.blocks)) := by
  induction k generalizing i inode s with
  | zero => exact ends_pure (Nat.zero_le _)
  | succ k ih =>
    rw [allocBlocks]
    split
    · rename_i hz
      rw [lackCount_of_zero hz]
      refine ends_bind ((allocDataBlock_ends hn rfl).mono (fun _ _ h ↦ h) ?_) ?_
      · rintro e s' ⟨hs', he⟩
        have hnone := findFreeBlock_eq_none_iff.1 (he hh).2
        exact ⟨by omega, by rw [hs']; exact hnone, fun _ ↦ hs'⟩
      · rintro lba s' ⟨hf, hs'⟩
        have hcount : freeCount dev.blockCount s'.blocks + 1 = freeCount dev.blockCount s.blocks :=
          freeCount_bitSet hn' hf (by rw [hs', Function.update_self])
        refine (ih (by omega)).mono (fun _ _ h ↦ ?_) ?_
        · rw [lackCount_setDirect (by omega)] at h
          omega
        · rintro e s'' ⟨h1, h2, -⟩
          rw [lackCount_setDirect (by omega)] at h1
          exact ⟨by omega, h2, fun h0 ↦ absurd h0 (by omega)⟩
    · rename_i hz
      rw [lackCount_of_ne_zero hz]
      exact ih (by omega)

/-! ## Writing -/

/-- There are free blocks, but not as many as the file lacks for this length. -/
def ShortOfBlocks (dev : Blkdev) (d : Disk) (ino len : ℕ) : Prop :=
  0 < freeCount dev.blockCount d.blocks ∧ freeCount dev.blockCount d.blocks
    < lackCount (inodeAt d.blocks ino) (max (blocksNeeded len) 1) 0

/-- A write that will mark blocks in vain. -/
def WriteLoses (dev : Blkdev) (name : ℕ → UInt8) (len : ℕ) (d : Disk) : Prop :=
  len ≤ directBlocks * blockSize ∧
    ∃ slot ino d', findDirent dev name d = .ok (slot, ino) d' ∧ ShortOfBlocks dev d ino len

/-- A write that has found its file. -/
theorem write_of_found {name buf : ℕ → UInt8} {len slot ino : ℕ} {d d₁ : Disk}
    (hn : minBlocks ≤ dev.blockCount) (hn' : dev.blockCount ≤ blockSize * 8) (hh : dev.Healthy)
    (hinv : Inv dev.blockCount d.blocks) (hlen : len ≤ directBlocks * blockSize)
    (hfound : findDirent dev name d = .ok (slot, ino) d₁) :
    Ends (write dev name buf len) d (fun _ _ ↦ ¬ ShortOfBlocks dev d ino len)
      (fun _ d' ↦ d'.blocks = d.blocks ↔ ¬ ShortOfBlocks dev d ino len) := by
  obtain ⟨slot', hr, hat, hd₁⟩ := (findDirent_ends hn rfl name).of_eq_ok hfound
  obtain ⟨rfl, rfl⟩ := Prod.mk.inj hr
  have hl := hat.live
  have hfile := hinv.ino slot hl
  refine ends_failIf (fun hc ↦ absurd hlen (not_le.2 hc)) fun _ ↦ ends_bind_ok hfound ?_
  refine ends_bind ((readInode_ends hn hd₁ hfile.pos hfile.2).mono (fun _ _ h ↦ h)
    fun _ _ hf ↦ absurd hh hf.2) ?_
  rintro inode s ⟨rfl, hs⟩
  refine ends_failIf (fun hmode ↦ absurd (hinv.inode slot hl).mode hmode) fun _ ↦ ?_
  have hstart : Grown dev.blockCount d.blocks (inodeAt d.blocks (slotIno d.blocks slot)) 0 s.blocks
      (inodeAt d.blocks (slotIno d.blocks slot)) := by
    rw [hs]
    exact .refl (hinv.inode slot hl)
  have h8 : 0 + max (blocksNeeded len) 1 ≤ directBlocks := by
    rw [Nat.zero_add]
    exact blocksNeeded_le hlen
  refine ends_bind (((allocBlocks_ends hn hn' hstart h8).and
    (allocBlocks_count hn hn' hh h8)).mono (fun _ _ h ↦ h) ?_) ?_
  · rintro e s' ⟨-, hlt, hfull, hsame⟩
    rw [hs] at hlt hsame
    -- no block is free any more, so the blocks are the same only if none was free before
    constructor
    · rintro heq ⟨hpos, -⟩
      rw [heq] at hfull
      omega
    · intro hshort
      refine hsame (Nat.eq_zero_of_not_pos fun hpos ↦ hshort ⟨hpos, hlt⟩)
  · rintro new s' ⟨hg, hle⟩
    rw [hs] at hle
    rw [Nat.zero_add] at hg
    refine (storeFile_ends hn hinv hl hlen hg).mono ?_ fun _ _ hf ↦ absurd hh hf.2
    rintro - s'' - ⟨-, hlt⟩
    omega

/-- **When a write that fails leaves the disk alone.** -/
theorem write_atomic {d : Disk} (hn : minBlocks ≤ dev.blockCount)
    (hn' : dev.blockCount ≤ blockSize * 8) (hh : dev.Healthy)
    (hinv : Inv dev.blockCount d.blocks) (name buf : ℕ → UInt8) (len : ℕ) :
    Ends (write dev name buf len) d (fun _ _ ↦ ¬ WriteLoses dev name len d)
      (fun _ d' ↦ d'.blocks = d.blocks ↔ ¬ WriteLoses dev name len d) := by
  by_cases hlen : len ≤ directBlocks * blockSize
  · cases hfound : findDirent dev name d with
    | ok r d₁ =>
      obtain ⟨slot, ino⟩ := r
      have hiff : WriteLoses dev name len d ↔ ShortOfBlocks dev d ino len := by
        constructor
        · rintro ⟨-, slot', ino', d', hfound', hshort⟩
          rw [hfound] at hfound'
          cases hfound'
          exact hshort
        · exact fun hshort ↦ ⟨hlen, slot, ino, d₁, hfound, hshort⟩
      rw [hiff]
      exact write_of_found hn hn' hh hinv hlen hfound
    | error e d₁ =>
      have hnot : ¬ WriteLoses dev name len d := by
        rintro ⟨-, slot, ino, d', hfound', -⟩
        rw [hfound] at hfound'
        cases hfound'
      have hd₁ := ((findDirent_ends hn rfl name).of_eq_error hfound).1
      refine ends_of_error (e := e) ?_ (iff_of_true hd₁ hnot)
      rw [write, bind_of_ok (failIf_of_neg (not_lt.2 hlen) _ _), bind_of_error hfound]
  · refine ends_of_error (e := .range) ?_ (iff_of_true rfl fun h ↦ hlen h.1)
    rw [write, bind_of_error (failIf_of_pos (not_le.1 hlen) _ _)]

/-! ## All calls -/

/-- If the call returns an error, every block is as it was. -/
def FailureAtomic (dev : Blkdev) (mnt : Mount) (c : Call) (d : Disk) : Prop :=
  c.error dev mnt d ≠ none → (c.run dev mnt d).blocks = d.blocks

/-- The call is a write that will mark blocks in vain. -/
def Call.Loses (dev : Blkdev) : Call → Disk → Prop
  | .write name _ len, d => WriteLoses dev name len d
  | _, _ => False

/-- A program whose errors leave the blocks alone. -/
theorem blocks_of_errorOf {α : Type} {x : M α} {d : Disk} {Q : α → Disk → Prop}
    {E : Err → Disk → Prop} (h : Ends x d Q E) (hE : ∀ e d', E e d' → d'.blocks = d.blocks)
    (he : errorOf x d ≠ none) : (after x d).blocks = d.blocks := by
  cases hx : x d with
  | ok a d' => exact absurd (errorOf_of_ok hx) he
  | error e d' =>
    rw [after_of_error hx]
    exact hE e d' (h.of_eq_error hx)

/-- **Which calls are failure-atomic.**  On a healthy device, in every state that calls can lead to:
all of them, except a write for which there are free blocks but not enough. -/
theorem failureAtomic_iff {d d₀ d₁ d₂ : Disk} {mnt : Mount} (hh : dev.Healthy)
    (hf : format dev d₀ = .ok () d₁) (hm : mount dev d₁ = .ok mnt d₂)
    (hr : Reaches dev mnt d₂ d) (c : Call) : FailureAtomic dev mnt c d ↔ ¬ c.Loses dev d := by
  have h := freshMount_of_eq_ok hf hm
  have hinv := hr.inv h.ge h.le h.blockCount (h.blocks_eq.symm ▸ h.inv)
  cases c with
  | create name =>
    exact iff_of_true (blocks_of_errorOf (create_ends h.ge h.le rfl hinv name)
      fun _ _ he ↦ (he.2 hh).1) id
  | write name buf len =>
    have hends := write_atomic h.ge h.le hh hinv name buf len
    rw [FailureAtomic, Call.error, Call.run, Call.Loses]
    cases hrun : Mcsfs1.write dev name buf len d with
    | ok _ d' => exact iff_of_true (absurd (errorOf_of_ok hrun)) (hends.of_eq_ok hrun)
    | error e d' =>
      rw [errorOf_of_error hrun, after_of_error hrun, ← hends.of_eq_error hrun]
      exact ⟨fun h ↦ h (Option.some_ne_none e), fun h _ ↦ h⟩
  | read name cap =>
    exact iff_of_true (blocks_of_errorOf (read_ends h.ge h.blockCount rfl hinv name cap)
      fun _ _ he ↦ he.1) id
  | stat name =>
    exact iff_of_true (blocks_of_errorOf (stat_ends h.ge rfl hinv name) fun _ _ he ↦ he.1) id
  | unlink name =>
    exact iff_of_true (blocks_of_errorOf (unlink_ends h.ge h.le rfl hinv name)
      fun _ _ he ↦ (he.2 hh).1) id

/-- Two files on a disk of sixteen blocks. -/
def twoFiles : M Unit := do
  format smallDev
  let _ ← mount smallDev
  create smallDev (CString.ofBytes [97]).view
  create smallDev (CString.ofBytes [98]).view

/-- Two files are made, and the first takes every block that is left. -/
def filled (d : Disk) : Disk :=
  after (write smallDev (CString.ofBytes [97]).view (fun _ ↦ 0) 3584)
    (after (create smallDev (CString.ofBytes [98]).view)
      (after (create smallDev (CString.ofBytes [97]).view) d))

theorem reaches_filled (mnt : Mount) (d : Disk) : Reaches smallDev mnt d (filled d) := by
  have h : Reaches smallDev mnt d d := .start
  have hcalls := ((h.call (.create (CString.ofBytes [97]).view)).call
    (.create (CString.ofBytes [98]).view)).call
      (.write (CString.ofBytes [97]).view (fun _ ↦ 0) 3584)
  rw [Call.run, Call.run, Call.run] at hcalls
  rw [filled]
  exact hcalls

/-- On a full disk with two files a write fails, and leaves the disk alone. -/
theorem failureAtomic_filled :
    ∃ (d₁ d₂ : Disk) (mnt : Mount), format smallDev blankDisk = .ok () d₁ ∧
      mount smallDev d₁ = .ok mnt d₂ ∧
      (Call.write (CString.ofBytes [98]).view (fun _ ↦ 0) 4096).error smallDev mnt (filled d₂)
        = some .nospc ∧
      FailureAtomic smallDev mnt (.write (CString.ofBytes [98]).view (fun _ ↦ 0) 4096)
        (filled d₂) := by
  obtain ⟨d₁, mnt, d₂, hf, hm⟩ :=
    exists_format_mount (by decide) (by decide) smallDev_healthy blankDisk
  have hfull : freeCount smallDev.blockCount
      (filled (after (mount smallDev) (after (format smallDev) blankDisk))).blocks = 0 := by
    decide +kernel
  have herror : errorOf (write smallDev (CString.ofBytes [98]).view (fun _ ↦ 0) 4096)
      (filled (after (mount smallDev) (after (format smallDev) blankDisk))) = some .nospc := by
    decide +kernel
  rw [after_of_ok hf, after_of_ok hm] at hfull herror
  refine ⟨d₁, d₂, mnt, hf, hm, herror,
    (failureAtomic_iff smallDev_healthy hf hm (reaches_filled mnt d₂) _).2 ?_⟩
  -- no block is free, so none is marked in vain
  rintro ⟨-, slot, ino, d', -, hpos, -⟩
  exact hpos.ne' hfull

/-- **A failed write may lose blocks.**  The first file has one block and is to have eight, and six
are free.  The write runs out of space, and none is free any more. -/
theorem failed_write_loses_blocks :
    errorOf twoFiles blankDisk = none ∧
      errorOf (do twoFiles; write smallDev (CString.ofBytes [97]).view (fun _ ↦ 0) 4096)
        blankDisk = some .nospc ∧
      freeCount 16 (after twoFiles blankDisk).blocks = 6 ∧
      freeCount 16 (after (do
        twoFiles
        write smallDev (CString.ofBytes [97]).view (fun _ ↦ 0) 4096)
          blankDisk).blocks = 0 := by
  refine ⟨?_, ?_, ?_, ?_⟩ <;> decide +kernel

end Mcsfs1
end Mcsos
