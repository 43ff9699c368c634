import Mcsos.Lib.Outcome
import Mcsos.Mcsfs1j.Consistency
import Mcsos.Mcsfs1j.FailClosed

/-!
# Reading from a hostile image

`m16_read_file` trusts the size that an inode gives.  It compares it with the room that the caller
has, but not with the 512 bytes of the block that it copies from; only `m16_fsck` does that.  So a
file that claims to be larger than a block is copied from the stack behind the block, to a caller
who has room for it.  This is all that can go wrong: whatever else is on the image, the read either
fails or returns the first bytes of the block (`hostile_read_file_iff`).

The image that counts is the one that recovery leaves, since the journal may rewrite any block.
-/

set_option autoImplicit false

namespace Mcsos
namespace M16

open Bytes WriteLog Program

variable {d d' : Blockdev} {name : ℕ → UInt8} {cap slot size i : ℕ} {blk : Block}
  {out : List UInt8}

/-! ## Recovery -/

/-- What a successful recovery makes of a device: nothing if the journal is clear, and otherwise
all records of the journal are replayed and the journal is cleared. -/
def Recovered (d d' : Blockdev) : Prop :=
  headerIsClear (d.blocks journalStart) = true ∧ d' = d ∨
    HeaderOk d ∧ Replays d (recordCount d) ∧ d.Accepts (recordCount d + 1) ∧
      d' = (replayed d (recordCount d)).store journalStart (Buf.zero blockSize)

theorem totalBlocks_replayed (d : Blockdev) (i : ℕ) :
    (replayed d i).totalBlocks = d.totalBlocks := by
  induction i with
  | zero => rfl
  | succ i ih => rw [replayed, store_totalBlocks, ih]

theorem Recovered.totalBlocks_eq (h : Recovered d d') : d'.totalBlocks = d.totalBlocks := by
  rcases h with ⟨-, rfl⟩ | ⟨-, -, -, rfl⟩
  · rfl
  · rw [store_totalBlocks, totalBlocks_replayed]

theorem journalRecover_eq_ok_iff (hT : dataStartLba ≤ d.totalBlocks) :
    journalRecover d = .ok () d' ↔ Recovered d d' := by
  by_cases hok : HeaderOk d
  · rw [hok.recover_eq_ok_iff, Recovered, hok.not_clear]
    simp [hok]
  · rw [Recovered, or_iff_left fun h ↦ hok h.1]
    rcases journalRecover_of_not_headerOk hok with ⟨hr, hclear⟩ | ⟨e, hr⟩
    · rw [hr]
      exact ⟨fun h ↦ ⟨hclear, (EStateM.Result.ok.inj h).2.symm⟩, fun h ↦ by rw [h.2]⟩
    · rw [hr]
      refine ⟨fun h ↦ (by cases h), fun h ↦ ?_⟩
      rw [journalRecover_of_clear hT h.1] at hr
      cases hr

/-- A disk that can be mounted. -/
theorem recovered_of_mount {sb : Block} (hT : dataStartLba ≤ d.totalBlocks)
    (h : mount d = .ok sb d') : Recovered d d' ∧ SuperOk (d'.blocks 0) := by
  obtain ⟨_, d₁, hr, h⟩ := bind_eq_ok.1 h
  have hrec := (journalRecover_eq_ok_iff hT).1 hr
  have hT₁ : dataStartLba ≤ d₁.totalBlocks := by
    rw [hrec.totalBlocks_eq]
    exact hT
  rw [bind_of_ok (readBlock_of_lt hT₁ (by decide))] at h
  obtain ⟨h1, h⟩ := (checks_failIf _ _).bind_eq_ok.1 h
  obtain ⟨h2, h⟩ := (checks_failIf _ _).bind_eq_ok.1 h
  obtain ⟨-, rfl⟩ := EStateM.Result.ok.inj h
  simp only [not_or, not_not] at h1 h2
  exact ⟨hrec, h1.1, h1.2.1, h1.2.2, h2.1, h2.2⟩

/-! ## Reading -/

theorem locate_of_recovered (hT : dataStartLba ≤ d.totalBlocks) (hrec : Recovered d d')
    (h : Arrives d' name cap slot) :
    locate name cap d = .ok (d'.blocks ((inodeTable d'.blocks).direct (inoAt d'.blocks slot)),
      (inodeTable d'.blocks).size (inoAt d'.blocks slot)) d' := by
  have hT' : dataStartLba ≤ d'.totalBlocks := by
    rw [hrec.totalBlocks_eq]
    exact hT
  exact locate_of_arrives hT' ((journalRecover_eq_ok_iff hT).2 hrec) h

/-- What has been found when `m16_read_file` gets to its copy. -/
theorem locate_eq_ok (hT : dataStartLba ≤ d.totalBlocks)
    (h : locate name cap d = .ok (blk, size) d') :
    ∃ slot, Recovered d d' ∧ Arrives d' name cap slot ∧
      blk = d'.blocks ((inodeTable d'.blocks).direct (inoAt d'.blocks slot)) ∧
      size = (inodeTable d'.blocks).size (inoAt d'.blocks slot) := by
  obtain ⟨sb, d₁, hmount, h⟩ := bind_eq_ok.1 h
  obtain ⟨hrec, hsuper⟩ := recovered_of_mount hT hmount
  have hT₁ : dataStartLba ≤ d₁.totalBlocks := by
    rw [hrec.totalBlocks_eq]
    exact hT
  rw [bind_of_ok (loadInodeTable_eq hT₁), bind_of_ok (readBlock_of_lt hT₁ (by decide))] at h
  cases hfind : findDirent (d₁.blocks rootDirLba) name with
  | none =>
    rw [hfind, bind_of_error (expect_none _ _)] at h
    cases h
  | some slot =>
    rw [hfind, bind_of_ok (expect_some slot _ _)] at h
    obtain ⟨h1, h⟩ := (checks_failIf _ _).bind_eq_ok.1 h
    rw [bind_of_ok (get_apply d₁)] at h
    obtain ⟨h2, h⟩ := (checks_failIf _ _).bind_eq_ok.1 h
    simp only [not_or, not_le, not_lt, not_not, ge_iff_le, gt_iff_lt] at h1 h2
    cases hv : validLba d₁ ((inodeTable d₁.blocks).direct (inoAt d₁.blocks slot)) with
    | false =>
      rw [bind_of_error (readBlock_of_invalid hv)] at h
      cases h
    | true =>
      rw [bind_of_ok (readBlock_of_valid hv)] at h
      obtain ⟨heq, rfl⟩ := EStateM.Result.ok.inj h
      obtain ⟨rfl, rfl⟩ := Prod.mk.inj heq
      exact ⟨slot, hrec, ⟨hsuper, hfind, h1.1, h1.2.1, h1.2.2, h2.1, hv⟩, rfl, rfl⟩

/-- A read that succeeds has got to its copy, and returns what is copied. -/
theorem readFile_eq_ok (h : readFile name cap d = .ok out d') :
    ∃ blk size, locate name cap d = .ok (blk, size) d' ∧ out = (List.range size).map blk.get := by
  rw [readFile_eq_bind] at h
  obtain ⟨⟨blk, size⟩, d₁, hlocate, h⟩ := bind_eq_ok.1 h
  obtain ⟨rfl, rfl⟩ := EStateM.Result.ok.inj h
  exact ⟨blk, size, hlocate, rfl⟩

/-- Byte `i` behind the beginning of the block is copied. -/
def CopiesByte (name : ℕ → UInt8) (cap : ℕ) (d : Blockdev) (i : ℕ) : Prop :=
  ∃ blk size d', locate name cap d = .ok (blk, size) d' ∧ i < size

/-- Nothing behind the block is copied, and what is returned are the first bytes of the block that
the inode names. -/
structure ReadFileSafe (name : ℕ → UInt8) (cap : ℕ) (d : Blockdev) : Prop where
  copy : ∀ i, CopiesByte name cap d i → i < blockSize
  result : ∀ out d', readFile name cap d = .ok out d' → out.length ≤ min blockSize cap ∧
    ∃ slot, findDirent (d'.blocks rootDirLba) name = some slot ∧ out = (List.range out.length).map
      (d'.blocks ((inodeTable d'.blocks).direct (inoAt d'.blocks slot))).get

/-- **When reading from any image is safe**: whenever recovery succeeds and the name leads to an
inode that the read accepts, the size there is at most that of a block. -/
theorem hostile_read_file_iff (h128 : d.totalBlocks = maxBlocks) :
    ReadFileSafe name cap d ↔ ∀ d' slot, Recovered d d' → Arrives d' name cap slot →
      (inodeTable d'.blocks).size (inoAt d'.blocks slot) ≤ blockSize := by
  have hT := dataStart_le h128
  constructor
  · intro hsafe d' slot hrec harrives
    by_contra hsize
    have hcopies : CopiesByte name cap d blockSize :=
      ⟨_, _, d', locate_of_recovered hT hrec harrives, not_le.1 hsize⟩
    exact absurd (hsafe.copy _ hcopies) (lt_irrefl _)
  · intro hsize
    constructor
    · rintro i ⟨blk, size, d', hlocate, hi⟩
      obtain ⟨slot, hrec, harrives, -, hs⟩ := locate_eq_ok hT hlocate
      rw [hs] at hi
      exact lt_of_lt_of_le hi (hsize d' slot hrec harrives)
    · intro out d' hread
      obtain ⟨blk, size, hlocate, rfl⟩ := readFile_eq_ok hread
      obtain ⟨slot, hrec, harrives, hb, hs⟩ := locate_eq_ok hT hlocate
      rw [List.length_map, List.length_range, hb, hs]
      exact ⟨le_min (hsize d' slot hrec harrives) harrives.size_le, slot, harrives.find, rfl⟩

/-! ## Images -/

/-- The name `a`. -/
def letterA : CString := .ofBytes [97]

/-- An image without a journal, with one file that is called `a` and claims to have this size. -/
def claimedSize (size : ℕ) : Blockdev :=
  { devInit with
    blocks := fun lba ↦
      if lba = 0 then superBlock maxBlocks
      else if lba = inodeTableLba then
        (Inodes.set (Buf.zero _) 1 1 1 size dataStartLba).block 0
      else if lba = rootDirLba then
        Dirent.set (Buf.zero blockSize) 0 1 1 letterA.view 1
      else Buf.zero blockSize }

/-- A file that fits its block is read safely. -/
theorem hostile_read_file_three_bytes :
    (claimedSize 3).totalBlocks = maxBlocks ∧
      ReadFileSafe letterA.view 600 (claimedSize 3) ∧
      (result (readFile letterA.view 600) (claimedSize 3))
        = .ok [0, 0, 0] := by
  refine ⟨rfl, (hostile_read_file_iff rfl).2 fun d' slot hrec harrives ↦ ?_, by decide +kernel⟩
  have hlocate := locate_of_recovered (dataStart_le rfl) hrec harrives
  have hrun : (result (locate letterA.view 600) (claimedSize 3)).map Prod.snd
      = .ok 3 := by decide +kernel
  rw [result_of_ok hlocate] at hrun
  have hsize : (inodeTable d'.blocks).size (inoAt d'.blocks slot) = 3 := Except.ok.inj hrun
  rw [hsize]
  decide

/-- **A file that claims to be larger than its block** is read beyond the block, to its 600th
byte. -/
theorem oversized_file_overread :
    (claimedSize 600).totalBlocks = maxBlocks ∧
      CopiesByte letterA.view 600 (claimedSize 600) 599 ∧
      (result (readFile letterA.view 600) (claimedSize 600)).map List.length
        = .ok 600 := by
  have hread : (result (readFile letterA.view 600) (claimedSize 600)).map
      List.length = .ok 600 := by decide +kernel
  refine ⟨rfl, ?_, hread⟩
  cases hrun : readFile letterA.view 600 (claimedSize 600) with
  | error e d' =>
    rw [result_of_error hrun] at hread
    cases hread
  | ok out d' =>
    rw [result_of_ok hrun] at hread
    obtain ⟨blk, size, hlocate, rfl⟩ := readFile_eq_ok hrun
    have hsize : ((List.range size).map blk.get).length = 600 := Except.ok.inj hread
    rw [List.length_map, List.length_range] at hsize
    exact ⟨blk, size, d', hlocate, by omega⟩

end M16
end Mcsos
