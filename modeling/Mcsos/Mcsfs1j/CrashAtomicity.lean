import Mcsos.Mcsfs1j.Creation
import Mcsos.Lib.Outcome

/-!
# Crash atomicity of file creation

`Holds d f` says that the device `d` holds exactly the files `f`, as far as anyone can tell after
a recovery: its disk is worth a consistent set of home blocks whose lookup is `f`.  It says nothing
about where a crash may have left the journal, and that is the point: every call, cut off anywhere,
takes a device that holds `f` to one that holds `f`, or `f` with the new file
(`writeFileEx_holds`, `Call.holds`).

`writeFileEx_crash_atomic` is the resulting statement about all devices that calls and crashes can
lead to.
-/

set_option autoImplicit false

namespace Mcsos
namespace M16

open Bytes WriteLog Program

variable {d : Blockdev} {tx : Tx}

/-! ## One commit -/

/-- Wherever a commit over an empty journal is cut off, either the old or the new home blocks
count. -/
theorem logical_commit_take (seq : UInt32) (ht : TxOk tx) {B : ℕ → Block}
    (hc : headerIsClear (B journalStart) = true) (k : ℕ) :
    Logical (applyAll ((commitWrites tx seq).take k) B) B ∨
      Logical (applyAll ((commitWrites tx seq).take k) B) (applyAll (homeWrites tx) B) := by
  by_cases hk : 2 * tx.length + 2 ≤ k
  · exact .inr (logical_commit_of_ge seq ht hk).1
  · obtain ⟨hh | hh, ha⟩ := applyAll_commitWrites_of_lt (B := B) seq ht (not_le.1 hk)
    · exact .inl (.clear (by rw [hh]; exact hc) ha)
    · exact .inl (.clear (by rw [hh]; exact headerIsClear_zero) ha)

/-- A commit that is not cut off ends with an empty journal and the new home blocks. -/
theorem applyAll_commitWrites (seq : UInt32) (ht : TxOk tx) (B : ℕ → Block) :
    headerIsClear (applyAll (commitWrites tx seq) B journalStart) = true ∧
      AgreeOn IsHome (applyAll (commitWrites tx seq) B) (applyAll (homeWrites tx) B) := by
  rw [commitWrites, List.append_cons, applyAll_append, replayWrites, applyAll_append]
  refine ⟨?_, ((agreeOn_prepareWrites seq ht).applyAll _).update_left not_isHome_journalStart _⟩
  rw [applyAll_cons, applyAll_nil, clearWrite, Function.update_self]
  exact headerIsClear_zero

/-- A commit over an empty journal either succeeds, and then the new home blocks count, or is cut
off by the device, and then either the old or the new ones do. -/
theorem journalCommit_cases (seq : UInt32) (stop : ℤ) (h128 : d.totalBlocks = maxBlocks)
    (ht : TxOk tx) (hc : headerIsClear (d.blocks journalStart) = true) :
    (∃ d', journalCommit tx seq stop d = .ok () d' ∧ d'.totalBlocks = maxBlocks ∧
        Logical d'.blocks (applyAll (homeWrites tx) d.blocks) ∧
        (stop = 0 → headerIsClear (d'.blocks journalStart) = true ∧
          AgreeOn IsHome d'.blocks (applyAll (homeWrites tx) d.blocks))) ∨
      (∃ d', journalCommit tx seq stop d = .error .io d' ∧ d'.totalBlocks = maxBlocks ∧
        (Logical d'.blocks d.blocks ∨
          Logical d'.blocks (applyAll (homeWrites tx) d.blocks))) := by
  by_cases hs : stop = 0
  · subst hs
    rw [journalCommit_eq ht.length_le]
    have hv := valid_commitWrites seq (dataStart_le h128) ht (ht.valid_target h128)
    by_cases hf : d.Accepts (commitWrites tx seq).length
    · refine .inl ⟨_, writeAll_of_accepts hv hf, by rw [storeAll_totalBlocks, h128], ?_⟩
      rw [storeAll_blocks]
      obtain ⟨h1, h2⟩ := applyAll_commitWrites seq ht d.blocks
      exact ⟨.clear h1 h2, fun _ ↦ ⟨h1, h2⟩⟩
    · refine .inr ⟨_, writeAll_of_not_accepts hv hf, by rw [storeAll_totalBlocks, h128], ?_⟩
      rw [storeAll_blocks]
      exact logical_commit_take seq ht hc _
  · rw [journalCommit_eq_of_stop ht.length_le seq hs]
    have hv := valid_prepareWrites seq (dataStart_le h128) ht
    by_cases hf : d.Accepts (prepareWrites tx ++ [commitWrite tx seq]).length
    · refine .inl ⟨_, writeAll_of_accepts hv hf, by rw [storeAll_totalBlocks, h128], ?_,
        fun h ↦ absurd h hs⟩
      rw [storeAll_blocks]
      exact .committed tx seq (committed_commitWrite seq ht)
        ((agreeOn_prepareWrites seq ht).applyAll _)
    · refine .inr ⟨_, writeAll_of_not_accepts hv hf, by rw [storeAll_totalBlocks, h128], ?_⟩
      have hcount : d.failAfter.toNat ≤ (prepareWrites tx ++ [commitWrite tx seq]).length := by
        rw [Blockdev.Accepts] at hf; omega
      -- what was written before the cut is also a prefix of the batch that is not stopped
      have htake : (prepareWrites tx ++ [commitWrite tx seq]).take d.failAfter.toNat
          = (commitWrites tx seq).take d.failAfter.toNat := by
        rw [commitWrites, List.append_cons _ _ (replayWrites tx),
          List.take_append_of_le_length hcount]
      rw [storeAll_blocks, htake]
      exact logical_commit_take seq ht hc _

/-! ## Creating a file -/

section Create

variable {B B' B₁ B₂ : ℕ → Block} {ino blk slot size : ℕ} {name : CString} {dataBlk : Block}

theorem Metadata.congr_right (hm : Metadata B B' ino blk size) (h : AgreeOn IsHome B' B₁) :
    Metadata B B₁ ino blk size where
  inodeBitmap := (h _ (isHome_of_ge le_rfl)).symm.trans hm.inodeBitmap
  blockBitmap := (h _ (isHome_of_ge (by decide))).symm.trans hm.blockBitmap
  inodes := (inodeTable_congr h).symm.trans hm.inodes
  zero := (h 0 isHome_zero).symm.trans hm.zero
  rest x hx := (h x (isHome_of_ge (le_trans (by decide) hx))).symm.trans (hm.rest x hx)

theorem Metadata.congr_left (hm : Metadata B B' ino blk size) (h : AgreeOn IsHome B B₁) :
    Metadata B₁ B' ino blk size where
  inodeBitmap := by rw [hm.inodeBitmap, h _ (isHome_of_ge le_rfl)]
  blockBitmap := by rw [hm.blockBitmap, h _ (isHome_of_ge (by decide))]
  inodes := by rw [hm.inodes, inodeTable_congr h]
  zero := hm.zero.trans (h 0 isHome_zero)
  rest x hx := (hm.rest x hx).trans (h x (isHome_of_ge (le_trans (by decide) hx)))

theorem Free.congr (hf : Free B ino blk slot) (h : AgreeOn IsHome B B') : Free B' ino blk slot := by
  obtain ⟨h1, h2, h3, h4, h5, h6, h7, h8⟩ := hf
  rw [h _ (isHome_of_ge le_rfl)] at h3
  rw [h _ (isHome_of_ge (by decide))] at h6 h8
  exact ⟨h1, h2, h3, h4, h5, h6, h7, h8⟩

/-- The home blocks before, between and after the two transactions of a creation. -/
structure Creation (name : CString) (dataBlk : Block) (size ino blk slot : ℕ)
    (B B₁ B₂ : ℕ → Block) : Prop where
  free : Free B ino blk slot
  new : findDirent (B rootDirLba) name.view = none
  length_lt : name.length < maxName
  size_le : size ≤ blockSize
  metadata : Metadata B B₁ ino blk size
  contents : Contents B₁ B₂ ino blk slot name.view dataBlk

/-- Some creation makes `B₁` and then `B₂` of the home blocks `B`. -/
def Creates (name : CString) (dataBlk : Block) (size : ℕ) (B B₁ B₂ : ℕ → Block) : Prop :=
  ∃ ino blk slot, Creation name dataBlk size ino blk slot B B₁ B₂

namespace Creation

variable (hcr : Creation name dataBlk size ino blk slot B B₁ B₂)

include hcr

theorem congr_left (h : AgreeOn IsHome B B') :
    Creation name dataBlk size ino blk slot B' B₁ B₂ where
  free := hcr.free.congr h
  new := by rw [← h _ (isHome_of_ge (by decide))]; exact hcr.new
  length_lt := hcr.length_lt
  size_le := hcr.size_le
  metadata := hcr.metadata.congr_left h
  contents := hcr.contents

theorem ready (hB : FsOk B) : Ready B₁ ino blk slot size :=
  hcr.metadata.ready hcr.free hB hcr.size_le

theorem fsOk₁ (hB : FsOk B) : FsOk B₁ := hcr.metadata.fsOk hcr.free hB

theorem fsOk₂ (hB : FsOk B) : FsOk B₂ :=
  hcr.contents.fsOk (hcr.ready hB) (hcr.fsOk₁ hB) (CString.strnlen_view_lt hcr.length_lt)

theorem dir_eq : B₁ rootDirLba = B rootDirLba := hcr.metadata.rest _ le_rfl

theorem lookup₁ (hB : FsOk B) : lookup B₁ = lookup B := hcr.metadata.lookup_eq hcr.free hB

theorem lookup₂ (hB : FsOk B) (s : CString) : lookup B₂ s.view
    = if s = name then some ((List.range size).map dataBlk.get) else lookup B s.view := by
  rw [hcr.contents.lookup_eq (hcr.ready hB) hcr.length_lt (hcr.fsOk₁ hB)
    (hcr.dir_eq.symm ▸ hcr.new), hcr.lookup₁ hB]

end Creation

/-- The first transaction on a device. -/
theorem commit_metadata_spec (h128 : d.totalBlocks = maxBlocks)
    (hc : headerIsClear (d.blocks journalStart) = true) (ino blk size : ℕ) (seq : UInt32) :
    Ends (journalCommit (metadataRecords d.blocks ino blk size) seq 0) d
      (fun _ d' ↦ d'.totalBlocks = maxBlocks ∧ headerIsClear (d'.blocks journalStart) = true ∧
        Metadata d.blocks d'.blocks ino blk size)
      fun e d' ↦ e = .io ∧ d'.totalBlocks = maxBlocks ∧ (Logical d'.blocks d.blocks ∨
        ∃ B₁, Metadata d.blocks B₁ ino blk size ∧ Logical d'.blocks B₁) := by
  have hmd := metadata_applyAll d.blocks ino blk size
  rcases journalCommit_cases seq 0 h128 (metadataRecords_ok d.blocks ino blk size) hc with
    ⟨d', hr, h1, -, hcl⟩ | ⟨d', hr, h1, hl⟩
  · obtain ⟨hc', ha⟩ := hcl rfl
    exact ends_of_ok hr ⟨h1, hc', hmd.congr_right ha.symm⟩
  · exact ends_of_error hr ⟨rfl, h1, hl.imp_right fun hl ↦ ⟨_, hmd, hl⟩⟩

/-- The second transaction on a device. -/
theorem commit_contents_spec (h128 : d.totalBlocks = maxBlocks)
    (hc : headerIsClear (d.blocks journalStart) = true) (ino slot : ℕ) (name : ℕ → UInt8)
    (dataBlk : Block) (h1 : dataStartLba ≤ blk) (h2 : blk < maxBlocks) (seq : UInt32) (stop : ℤ) :
    Ends (journalCommit (contentsRecords (Dirent.set (d.blocks rootDirLba) slot 1 ino name
        (strnlen name maxName)) blk dataBlk) seq stop) d
      (fun _ d' ↦ d'.totalBlocks = maxBlocks ∧
        ∃ B₂, Contents d.blocks B₂ ino blk slot name dataBlk ∧ Logical d'.blocks B₂)
      fun e d' ↦ e = .io ∧ d'.totalBlocks = maxBlocks ∧ (Logical d'.blocks d.blocks ∨
        ∃ B₂, Contents d.blocks B₂ ino blk slot name dataBlk ∧ Logical d'.blocks B₂) := by
  have hco := contents_applyAll d.blocks ino slot name dataBlk h1
  rcases journalCommit_cases seq stop h128 (contentsRecords_ok _ dataBlk h1 h2) hc with
    ⟨d', hr, h1, hl, -⟩ | ⟨d', hr, h1, hl⟩
  · exact ends_of_ok hr ⟨h1, _, hco, hl⟩
  · exact ends_of_error hr ⟨rfl, h1, hl.imp_right fun hl ↦ ⟨_, hco, hl⟩⟩

theorem mount_spec (h128 : d.totalBlocks = maxBlocks) (hl : Logical d.blocks B) (hB : FsOk B) :
    Ends mount d
      (fun _ d' ↦ d'.totalBlocks = maxBlocks ∧ headerIsClear (d'.blocks journalStart) = true ∧
        AgreeOn IsHome d'.blocks B)
      fun e d' ↦ e = .io ∧ d'.totalBlocks = maxBlocks ∧ Logical d'.blocks B := by
  rcases journalRecover_cases h128 hl with ⟨d', hr, h1, hc, ha, -⟩ | ⟨-, d', hr, h1, hl', -⟩
  · exact ends_of_ok (mount_of_ok (dataStart_le h1) hr (hB.congr ha.symm).super) ⟨h1, hc, ha⟩
  · exact ends_of_error (mount_of_error hr) ⟨rfl, h1, hl'⟩

/-- **What a creation does to a disk** that is worth the home blocks `B`.  If it succeeds, the disk
is worth those after both transactions; if the device gives up, it may also be worth those in
between, or still `B`; and with any other error it is worth `B`. -/
theorem writeFileEx_spec (h128 : d.totalBlocks = maxBlocks) (hl : Logical d.blocks B) (hB : FsOk B)
    (name : CString) (data : ℕ → UInt8) (size : ℕ) (stop : ℤ) :
    Ends (writeFileEx name.view data size stop) d
      (fun _ d' ↦ d'.totalBlocks = maxBlocks ∧ ∃ B₁ B₂,
        Creates name ((Buf.zero blockSize).copy 0 data size) size B B₁ B₂ ∧ Logical d'.blocks B₂)
      fun e d' ↦ d'.totalBlocks = maxBlocks ∧ (Logical d'.blocks B ∨ e = .io ∧ ∃ B₁ B₂,
        Creates name ((Buf.zero blockSize).copy 0 data size) size B B₁ B₂ ∧
          (Logical d'.blocks B₁ ∨ Logical d'.blocks B₂)) := by
  rw [writeFileEx]
  refine ends_failIf (fun _ ↦ ⟨h128, .inl hl⟩) fun hn ↦
    ends_failIf (fun _ ↦ ⟨h128, .inl hl⟩) fun hs ↦ ?_
  refine ends_bind ((mount_spec h128 hl hB).mono (fun _ _ h ↦ h) ?_) ?_
  · rintro e d' ⟨-, h1, hl'⟩
    exact ⟨h1, .inl hl'⟩
  rintro sb d1 ⟨h1, hc1, ha⟩
  have hl1 : Logical d1.blocks B := .clear hc1 ha
  have hT := dataStart_le h1
  refine ends_bind_ok (readBlock_of_lt hT (by decide)) ?_
  refine ends_bind_ok (readBlock_of_lt hT (by decide)) ?_
  refine ends_bind_ok (loadInodeTable_eq hT) ?_
  refine ends_bind_ok (readBlock_of_lt hT (by decide)) ?_
  refine ends_failIf (fun _ ↦ ⟨h1, .inl hl1⟩) fun hex ↦
    ends_expect (fun _ ↦ ⟨h1, .inl hl1⟩) fun ino hino ↦
    ends_expect (fun _ ↦ ⟨h1, .inl hl1⟩) fun blk hblk ↦
    ends_expect (fun _ ↦ ⟨h1, .inl hl1⟩) fun slot hslot ↦ ?_
  have hfree := free_of_find hino hblk hslot
  have hnew : findDirent (d1.blocks rootDirLba) name.view = none :=
    Option.not_isSome_iff_eq_none.1 hex
  have hlen : name.length < maxName := by
    rw [strlenBounded, CString.strnlen_view] at hn
    simp only [maxName] at *
    omega
  have hcreates : ∀ {B₁ B₂}, Metadata d1.blocks B₁ ino blk size →
      Contents B₁ B₂ ino blk slot name.view ((Buf.zero blockSize).copy 0 data size) →
      Creates name ((Buf.zero blockSize).copy 0 data size) size B B₁ B₂ := fun hm hco ↦
    ⟨ino, blk, slot, Creation.congr_left ⟨hfree, hnew, hlen, not_lt.1 hs, hm, hco⟩ ha⟩
  refine ends_bind_ok (metadataTx_eq d1.blocks ino blk size d1) ?_
  refine ends_bind ((commit_metadata_spec h1 hc1 ino blk size _).mono (fun _ _ h ↦ h) ?_) ?_
  · rintro e d' ⟨rfl, h2, hl2 | ⟨B₁, hm, hl2⟩⟩
    · exact ⟨h2, .inl (hl2.congr ha)⟩
    · exact ⟨h2, .inr ⟨rfl, B₁, _, hcreates hm (contents_applyAll B₁ ino slot name.view _
        hfree.blk_ge), .inl hl2⟩⟩
  rintro - d2 ⟨h2, hc2, hm⟩
  refine ends_bind_ok (contentsTx_eq _ _ _ d2) ?_
  rw [← hm.rest rootDirLba le_rfl]
  refine (commit_contents_spec h2 hc2 ino slot name.view _ hfree.blk_ge hfree.blk_lt _ stop).mono
    ?_ ?_
  · rintro - d' ⟨h3, B₂, hco, hl3⟩
    exact ⟨h3, d2.blocks, B₂, hcreates hm hco, hl3⟩
  · rintro e d' ⟨rfl, h3, hl3⟩
    refine ⟨h3, .inr ⟨rfl, ?_⟩⟩
    rcases hl3 with hl3 | ⟨B₂, hco, hl3⟩
    · exact ⟨d2.blocks, _, hcreates hm (contents_applyAll d2.blocks ino slot name.view _
        hfree.blk_ge), .inl hl3⟩
    · exact ⟨d2.blocks, B₂, hcreates hm hco, .inr hl3⟩

end Create

/-! ## The files a device holds -/

/-- The files of a file system, by name. -/
abbrev Files : Type := CString → Option (List UInt8)

/-- After recovery, the device will hold exactly these files. -/
def Holds (d : Blockdev) (f : Files) : Prop :=
  d.totalBlocks = maxBlocks ∧
    ∃ h, Logical d.blocks h ∧ FsOk h ∧ ∀ s : CString, lookup h s.view = f s

/-- The files that can be read once the device accepts writes again and the journal has been
recovered. -/
def abs (d : Blockdev) : Files := fun name ↦
  match readFile name.view 0xffffffff (after journalRecover (d.withFailAfter (-1))) with
  | .ok bytes _ => some bytes
  | .error _ _ => none

/-- The device holds these files and its journal is empty. -/
structure Mounted (d : Blockdev) (f : Files) : Prop where
  total : d.totalBlocks = maxBlocks
  clear : headerIsClear (d.blocks journalStart) = true
  ok : FsOk d.blocks
  files : ∀ s : CString, lookup d.blocks s.view = f s

variable {f : Files}

theorem Mounted.holds (hm : Mounted d f) : Holds d f :=
  ⟨hm.total, d.blocks, .clear hm.clear (.refl _), hm.ok, hm.files⟩

theorem Holds.withFailAfter (hd : Holds d f) (k : ℤ) : Holds (d.withFailAfter k) f := hd

/-- Recovery either empties the journal or is cut off; the files are the same either way. -/
theorem Holds.journalRecover_cases (hd : Holds d f) :
    (∃ d', journalRecover d = .ok () d' ∧ Mounted d' f) ∨
      (0 ≤ d.failAfter ∧ ∃ d', journalRecover d = .error .io d' ∧ Holds d' f) := by
  obtain ⟨h128, h, hl, hok, hf⟩ := hd
  rcases M16.journalRecover_cases h128 hl with ⟨d', hr, h1, hc, ha, -⟩ | ⟨h0, d', hr, h1, hl', -⟩
  · refine .inl ⟨d', hr, h1, hc, hok.congr ha.symm, fun s ↦ ?_⟩
    rw [lookup_congr hok ha.symm, hf]
  · exact .inr ⟨h0, d', hr, h1, h, hl', hok, hf⟩

/-- Recovery that the device lets finish. -/
theorem Holds.recover (hd : Holds d f) :
    ∃ d', journalRecover (d.withFailAfter (-1)) = .ok () d' ∧ Mounted d' f := by
  rcases (hd.withFailAfter (-1)).journalRecover_cases with hr | ⟨hneg, -⟩
  · exact hr
  · exact absurd hneg (show ¬ (0 : ℤ) ≤ -1 by decide)

theorem Holds.abs_eq (hd : Holds d f) : abs d = f := by
  funext name
  obtain ⟨d', hr, hm⟩ := hd.recover
  show (match readFile name.view 0xffffffff (after journalRecover (d.withFailAfter (-1))) with
    | .ok bytes _ => some bytes
    | .error _ _ => none) = f name
  rw [after_of_ok hr, readFile_of_fsOk hm.total hm.clear hm.ok _ (by decide), hm.files]
  cases f name <;> rfl

theorem Holds.fsck (hd : Holds d f) :
    ∃ d', journalRecover (d.withFailAfter (-1)) = .ok () d' ∧ fsck d' = .ok () d' := by
  obtain ⟨d', hr, hm⟩ := hd.recover
  exact ⟨d', hr, fsck_of_fsOk hm.total hm.clear hm.ok⟩

/-! ## Creating a file -/

section Create

variable {name : CString}

/-- What a creation may do to a device that holds the files `f`. -/
def Created (f : Files) (name : CString) (bytes : List UInt8) :
    EStateM.Result Err Blockdev Unit → Prop
  | .ok _ d' => f name = none ∧ Holds d' (Function.update f name (some bytes))
  | .error .io d' => Holds d' f ∨ Holds d' (Function.update f name (some bytes))
  | .error _ d' => Holds d' f

theorem map_range_copy (data : ℕ → UInt8) {size : ℕ} (hs : size ≤ blockSize) :
    (List.range size).map ((Buf.zero blockSize).copy 0 data size).get
      = (List.range size).map data := by
  refine List.map_congr_left fun i hi ↦ ?_
  have hlt := List.mem_range.1 hi
  rw [Buf.get_copy_of_mem (Nat.zero_le i) (by omega) (lt_of_lt_of_le hlt hs), Nat.sub_zero]

/-- **Creation on any device.** -/
theorem writeFileEx_holds (hd : Holds d f) (name : CString) (data : ℕ → UInt8) (size : ℕ)
    (stop : ℤ) :
    Created f name ((List.range size).map data) (writeFileEx name.view data size stop d) := by
  obtain ⟨h128, B, hl, hB, hf⟩ := hd
  have hspec := writeFileEx_spec h128 hl hB name data size stop
  have h₁ : ∀ {d' B₁ B₂}, d'.totalBlocks = maxBlocks →
      Creates name ((Buf.zero blockSize).copy 0 data size) size B B₁ B₂ → Logical d'.blocks B₁ →
      Holds d' f := by
    rintro d' B₁ B₂ h1 ⟨ino, blk, slot, hcr⟩ hl'
    exact ⟨h1, B₁, hl', hcr.fsOk₁ hB, fun s ↦ by rw [hcr.lookup₁ hB, hf]⟩
  have h₂ : ∀ {d' B₁ B₂}, d'.totalBlocks = maxBlocks →
      Creates name ((Buf.zero blockSize).copy 0 data size) size B B₁ B₂ → Logical d'.blocks B₂ →
      f name = none ∧ Holds d' (Function.update f name (some ((List.range size).map data))) := by
    rintro d' B₁ B₂ h1 ⟨ino, blk, slot, hcr⟩ hl'
    refine ⟨by rw [← hf, lookup, hcr.new, Option.map_none], h1, B₂, hl', hcr.fsOk₂ hB, fun s ↦ ?_⟩
    rw [hcr.lookup₂ hB, hf, map_range_copy data hcr.size_le]
    exact (Function.update_apply f name _ s).symm
  cases hrun : writeFileEx name.view data size stop d with
  | ok u d' =>
    obtain ⟨h1, B₁, B₂, hcr, hl'⟩ := hspec.of_eq_ok hrun
    exact h₂ h1 hcr hl'
  | error e d' =>
    obtain ⟨h1, hl' | ⟨rfl, B₁, B₂, hcr, hl' | hl'⟩⟩ := hspec.of_eq_error hrun
    · have hd' : Holds d' f := ⟨h1, B, hl', hB, hf⟩
      cases e with
      | io => exact .inl hd'
      | _ => exact hd'
    · exact .inl (h₁ h1 hcr hl')
    · exact .inr (h₂ h1 hcr hl').2

end Create

/-! ## A fresh file system -/

/-- The writes of `m16_format`. -/
def formatWrites (totalBlocks : ℕ) : List (ℕ × Block) :=
  [(0, superBlock totalBlocks), (inodeBitmapLba, (Buf.zero blockSize).bitSet 0),
    (blockBitmapLba, formatBlockBitmap)] ++ homeWrites (inodeTableRecords formatInodes) ++
  [(rootDirLba, Buf.zero blockSize), clearWrite]

theorem format_eq (d : Blockdev) :
    format d = writeAll (formatWrites d.totalBlocks)
      { d with blocks := fun _ ↦ Buf.zero blockSize } := by
  rw [format, formatWrites, writeAll_append, writeAll_append, ← writeHome_eq]
  simp only [writeAll, clearWrite, journalClear, bind_assoc, bind_pure_unit]
  rfl

theorem superOk_superBlock (n : ℕ) : SuperOk (superBlock n) where
  magic := by
    simp (disch := first | decide | omega) [Super.magic, superBlock, Buf.field_setField_same,
      Buf.field_setField_of_disjoint]
  version := by
    simp (disch := first | decide | omega) [Super.version, superBlock, Buf.field_setField_same,
      Buf.field_setField_of_disjoint]
  blockSize := by
    simp (disch := first | decide | omega) [Super.blockSize, superBlock, Buf.field_setField_same,
      Buf.field_setField_of_disjoint]
  dataStart := by
    simp (disch := first | decide | omega) [Super.dataStartLba, superBlock, Buf.field_setField_same,
      Buf.field_setField_of_disjoint]
  rootDir := by
    simp (disch := first | decide | omega) [Super.rootDirLba, superBlock, Buf.field_setField_same,
      Buf.field_setField_of_disjoint]

theorem formatBlockBitmap_marked {b : ℕ} :
    formatBlockBitmap.bitTest b = true ↔ b < dataStartLba := by
  rw [formatBlockBitmap, Buf.bitTest_foldl_bitSet fun i hi ↦
    lt_of_le_of_lt (Nat.div_le_self i 8) (lt_trans (List.mem_range.1 hi) (by decide)),
    List.mem_range, Buf.bitTest_zero]
  simp

theorem dirent_used_zero (i : ℕ) : Dirent.used (Buf.zero blockSize) i = 0 := Buf.field_zero ..

/-- The blocks of a fresh file system. -/
theorem fsOk_formatWrites (n : ℕ) (B : ℕ → Block) : FsOk (applyAll (formatWrites n) B) := by
  have ht : inodeTable (applyAll (formatWrites n) B) = formatInodes := by
    refine inodeTable_eq fun i hi ↦ ?_
    have h1 : inodeTableLba + i ≠ journalStart :=
      (lt_of_lt_of_le (show journalStart < inodeTableLba by decide) (Nat.le_add_right _ _)).ne'
    have h2 : inodeTableLba + i ≠ rootDirLba := (Nat.add_lt_add_left hi _).ne
    rw [formatWrites, applyAll_append, applyAll_append, applyAll_cons, applyAll_cons, applyAll_nil,
      clearWrite, Function.update_of_ne h1, Function.update_of_ne h2,
      applyAll_inodeTableRecords _ _ hi]
  obtain ⟨hu, hk, -, hd⟩ : formatInodes.used 0 = 1 ∧ formatInodes.kind 0 = 2 ∧
      formatInodes.size 0 = 0 ∧ formatInodes.direct 0 = rootDirLba :=
    Inodes.fields_set_self (by decide) (by decide) (by decide) (by decide) (by decide)
  refine ⟨superOk_superBlock n, ?_, ?_, ?_, ?_, fun b hb ↦ ?_, fun i hi hu ↦ ?_⟩
  · show ((Buf.zero blockSize).bitSet 0).bitTest 0 = true
    rw [Buf.bitTest_bitSet (by decide), decide_eq_true rfl, Bool.true_or]
  · rw [ht]; exact hu
  · rw [ht]; exact hk
  · rw [ht]; exact hd
  · exact formatBlockBitmap_marked.2 hb
  · exact absurd (dirent_used_zero i) hu

theorem valid_formatWrites (hT : dataStartLba ≤ d.totalBlocks) (n : ℕ) :
    ∀ w ∈ formatWrites n, validLba d w.1 = true := by
  have hlt : ∀ w ∈ formatWrites n, w.1 < dataStartLba := by
    intro w hw
    rw [formatWrites, List.mem_append, List.mem_append] at hw
    rcases hw with (hw | hw) | hw
    · simp only [List.mem_cons, List.not_mem_nil, or_false] at hw
      rcases hw with rfl | rfl | rfl
      all_goals simp
    · obtain ⟨r, hr, rfl⟩ := List.mem_map.1 hw
      exact lt_trans (mem_inodeTableRecords hr).2 (by decide)
    · simp only [List.mem_cons, List.not_mem_nil, or_false] at hw
      rcases hw with rfl | rfl
      all_goals simp [clearWrite]
  exact fun w hw ↦ valid_of_lt_dataStart hT (hlt w hw)

/-- Format succeeds only on a device that has a root directory block, and then all its writes have
been stored. -/
theorem format_eq_ok {d' : Blockdev} (h : format d = .ok () d') :
    dataStartLba ≤ d.totalBlocks ∧ d' = Blockdev.storeAll
      { d with blocks := fun _ ↦ Buf.zero blockSize } (formatWrites d.totalBlocks) := by
  rw [format_eq] at h
  obtain ⟨hv, hd'⟩ := writeAll_eq_ok h
  have hroot := hv (rootDirLba, Buf.zero blockSize) (List.mem_append_right _ List.mem_cons_self)
  exact ⟨(validLba_iff.1 hroot).1, hd'⟩

/-- What a successful format leaves. -/
theorem blocks_of_format {d' : Blockdev} (h : format d = .ok () d') :
    d'.totalBlocks = d.totalBlocks ∧ headerIsClear (d'.blocks journalStart) = true ∧
      d'.blocks = applyAll (formatWrites d.totalBlocks) fun _ ↦ Buf.zero blockSize := by
  obtain ⟨-, rfl⟩ := format_eq_ok h
  rw [storeAll_totalBlocks, storeAll_blocks]
  exact ⟨rfl, headerIsClear_zero, rfl⟩

theorem lookup_formatWrites (n : ℕ) (B : ℕ → Block) (name : ℕ → UInt8) :
    lookup (applyAll (formatWrites n) B) name = none := by
  rw [lookup, Option.map_eq_none_iff]
  refine List.find?_eq_none.2 fun i _ hp ↦ ?_
  rw [Bool.and_eq_true, bne_iff_ne] at hp
  exact hp.1 (dirent_used_zero i)

/-- A successful format leaves an empty file system. -/
theorem mounted_of_format {d' : Blockdev} (h128 : d.totalBlocks = maxBlocks)
    (h : format d = .ok () d') : Mounted d' fun _ ↦ none := by
  obtain ⟨h1, hc, hblocks⟩ := blocks_of_format h
  refine ⟨h1.trans h128, hc, ?_, fun s ↦ ?_⟩
  · rw [hblocks]; exact fsOk_formatWrites _ _
  · rw [hblocks, lookup_formatWrites]

/-- A device that accepts all writes can be formatted. -/
theorem exists_format_eq_ok (hT : dataStartLba ≤ d.totalBlocks) (hf : d.failAfter < 0) :
    ∃ d', format d = .ok () d' := by
  rw [format_eq]
  exact ⟨_, writeAll_of_accepts (valid_formatWrites (d := { d with blocks := _ }) hT _) (.inl hf)⟩

/-! ## Calls -/

/-- The calls a device sees after it has been formatted. -/
inductive Call
  | writeFileEx (name : CString) (data : ℕ → UInt8) (size : ℕ) (stop : ℤ)
  | readFile (name : CString) (cap : ℕ)
  | fsck
  | mount
  | journalRecover

/-- The device a call leaves behind, whatever it returns. -/
def Call.run : Call → Blockdev → Blockdev
  | .writeFileEx name data size stop => after (M16.writeFileEx name.view data size stop)
  | .readFile name cap => after (M16.readFile name.view cap)
  | .fsck => after M16.fsck
  | .mount => after M16.mount
  | .journalRecover => after M16.journalRecover

/-- The devices that are reached from a successful format by calls, each of which may find that
the device accepts only so many more writes. -/
inductive Reachable : Blockdev → Prop
  | format (k : ℤ) {d : Blockdev} (h : format (devInit.withFailAfter k) = .ok () d) : Reachable d
  | call (c : Call) (k : ℤ) {d : Blockdev} (h : Reachable d) :
      Reachable (c.run (d.withFailAfter k))

theorem keeps_readBlock {P : Blockdev → Prop} (lba : ℕ) : Keeps P (readBlock lba) := by
  refine keeps_of_eq fun d ↦ ?_
  rw [after, readBlock]
  split <;> rename_i h <;> split at h <;> cases h <;> rfl

theorem keeps_loadInodeTable {P : Blockdev → Prop} : Keeps P loadInodeTable := by
  have h : ∀ n i t, Keeps P (loadInodeTableFrom n i t) := by
    intro n
    induction n with
    | zero => exact fun _ t ↦ keeps_pure t
    | succ n ih => exact fun i t ↦ keeps_bind (keeps_readBlock _) fun b ↦ ih _ _
  exact h _ _ _

theorem keeps_journalRecover (f : Files) : Keeps (Holds · f) journalRecover := by
  intro d hd
  rcases hd.journalRecover_cases with ⟨d', hr, hm⟩ | ⟨-, d', hr, hd'⟩
  · rw [after_of_ok hr]; exact hm.holds
  · rw [after_of_error hr]; exact hd'

theorem keeps_mount (f : Files) : Keeps (Holds · f) mount :=
  keeps_bind (keeps_journalRecover f) fun _ ↦ keeps_bind (keeps_readBlock 0) fun _ ↦
    keeps_bind (keeps_failIf _ _) fun _ ↦ keeps_bind (keeps_failIf _ _) fun _ ↦ keeps_pure _

theorem keeps_readFile (f : Files) (name : ℕ → UInt8) (cap : ℕ) :
    Keeps (Holds · f) (readFile name cap) :=
  keeps_bind (keeps_mount f) fun _ ↦ keeps_bind keeps_loadInodeTable fun _ ↦
    keeps_bind (keeps_readBlock _) fun _ ↦ keeps_bind (keeps_expect _ _) fun _ ↦
    keeps_bind (keeps_failIf _ _) fun _ ↦ keeps_bind keeps_get fun _ ↦
    keeps_bind (keeps_failIf _ _) fun _ ↦ keeps_bind (keeps_readBlock _) fun _ ↦ keeps_pure _

theorem keeps_fsckDirent (f : Files) (ib bb : Block) (t : Inodes) (dir : Block) (n i : ℕ) :
    Keeps (Holds · f) (fsckDirent ib bb t dir n i) := by
  rw [fsckDirent]
  split
  · exact keeps_bind (keeps_failIf _ _) fun _ ↦ keeps_bind (keeps_failIf _ _) fun _ ↦
      keeps_failIf _ _
  · exact keeps_pure _

theorem keeps_fsck (f : Files) : Keeps (Holds · f) fsck :=
  keeps_bind (keeps_mount f) fun _ ↦ keeps_bind (keeps_readBlock _) fun _ ↦
    keeps_bind (keeps_readBlock _) fun _ ↦ keeps_bind keeps_loadInodeTable fun _ ↦
    keeps_bind (keeps_readBlock _) fun _ ↦ keeps_bind (keeps_failIf _ _) fun _ ↦
    keeps_bind (keeps_forM fun _ _ ↦ keeps_failIf _ _) fun _ ↦ keeps_bind keeps_get fun _ ↦
    keeps_forM fun i _ ↦ keeps_fsckDirent f _ _ _ _ _ i

/-- After any call the device holds some files again. -/
theorem Call.holds (c : Call) (hd : Holds d f) : ∃ f', Holds (c.run d) f' := by
  cases c with
  | writeFileEx name data size stop =>
    have h := writeFileEx_holds hd name data size stop
    rw [Call.run, after]
    cases hr : M16.writeFileEx name.view data size stop d with
    | ok _ d' => rw [hr] at h; exact ⟨_, h.2⟩
    | error e d' =>
      rw [hr] at h
      cases e with
      | io => exact h.elim (fun h ↦ ⟨_, h⟩) fun h ↦ ⟨_, h⟩
      | _ => exact ⟨_, h⟩
  | readFile name cap => exact ⟨f, keeps_readFile f _ _ _ hd⟩
  | fsck => exact ⟨f, keeps_fsck f _ hd⟩
  | mount => exact ⟨f, keeps_mount f _ hd⟩
  | journalRecover => exact ⟨f, keeps_journalRecover f _ hd⟩

theorem Reachable.holds (h : Reachable d) : ∃ f, Holds d f := by
  induction h with
  | format k h => exact ⟨_, (mounted_of_format rfl h).holds⟩
  | call c k _ ih =>
    obtain ⟨f, hd⟩ := ih
    exact c.holds (hd.withFailAfter k)

/-- **Crash atomicity of file creation.**  On every device that calls and crashes can lead to,
recovery succeeds, the check passes, and a further creation is all or nothing: if it succeeds, the
file is there, and it was not before; if the device gives up, the file is there or nothing has
changed; with any other error nothing has changed. -/
theorem writeFileEx_crash_atomic {d : Blockdev} (hr : Reachable d) :
    (∃ d', journalRecover (d.withFailAfter (-1)) = .ok () d' ∧ ∃ d'', fsck d' = .ok () d'') ∧
      ∀ (k : ℤ) (name : CString) (data : ℕ → UInt8) (size : ℕ) (stop : ℤ),
        match writeFileEx name.view data size stop (d.withFailAfter k) with
        | .ok _ d' => abs d name = none ∧
            abs d' = Function.update (abs d) name (some ((List.range size).map data))
        | .error .io d' => abs d' = abs d ∨
            abs d' = Function.update (abs d) name (some ((List.range size).map data))
        | .error _ d' => abs d' = abs d := by
  obtain ⟨f, hd⟩ := hr.holds
  refine ⟨?_, fun k name data size stop ↦ ?_⟩
  · obtain ⟨d', h1, h2⟩ := hd.fsck
    exact ⟨d', h1, d', h2⟩
  · have h := writeFileEx_holds (hd.withFailAfter k) name data size stop
    rw [hd.abs_eq]
    cases hrun : writeFileEx name.view data size stop (d.withFailAfter k) with
    | ok _ d' => rw [hrun] at h; exact ⟨h.1, h.2.abs_eq⟩
    | error e d' =>
      rw [hrun] at h
      cases e with
      | io => exact h.imp Holds.abs_eq Holds.abs_eq
      | _ => exact h.abs_eq

/-- A creation on a fresh file system that is cut off after 20 writes, in the middle of its first
transaction: recovery succeeds and the check passes. -/
theorem writeFileEx_crash_atomic_cut_off :
    ∃ d, format (devInit.withFailAfter (-1)) = .ok () d ∧
      ∃ d', journalRecover (((Call.writeFileEx (.ofBytes [97]) (fun _ ↦ 1) 100 0).run
          (d.withFailAfter 20)).withFailAfter (-1)) = .ok () d' ∧ ∃ d'', fsck d' = .ok () d'' := by
  obtain ⟨d, h⟩ := exists_format_eq_ok (d := devInit.withFailAfter (-1)) (by decide) (by decide)
  exact ⟨d, h, (writeFileEx_crash_atomic (.call _ 20 (.format (-1) h))).1⟩

end M16
end Mcsos
