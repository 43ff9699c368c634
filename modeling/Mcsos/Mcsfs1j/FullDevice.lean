import Mcsos.Mcsfs1j.Allocation

/-!
# Filling a device

`m16_find_free_block` looks for a free block up to `M16_MAX_BLOCKS`, whatever the size of the
device, and `m16_write_block` refuses a block behind the end of the device.  On a device with fewer
than `M16_MAX_BLOCKS` blocks the two disagree: the last file that is created gets a block that does
not exist, and the commit of its contents fails after the commit record, so that no recovery can
succeed any more.

The directory has only twelve entries, and blocks are handed out from the first data block on.  A
device with a block for every directory entry is therefore never filled up to its end, and that is
exactly when all is well (`staysMountable_iff`).

`Serves d f` is the invariant: the device holds the files `f`, all of them before its end, and as
many blocks are marked as there are files.  `Serves.write_spec` says what one call does to it, as
long as there is room, and the runs follow by induction.
-/

set_option autoImplicit false

namespace Mcsos
namespace M16

open Bytes WriteLog Program

/-! ## Creating files one after the other -/

/-- The arguments of a call of `m16_write_file`. -/
structure NewFile where
  name : CString
  data : ℕ → UInt8
  size : ℕ

namespace NewFile

/-- The call itself. -/
def write (c : NewFile) : M Unit := writeFile c.name.view c.data c.size

/-- The bytes of the file. -/
def bytes (c : NewFile) : List UInt8 := (List.range c.size).map c.data

/-- The name and the size are such that a file may have them. -/
def Valid (c : NewFile) : Prop :=
  (0 < c.name.length ∧ c.name.length < maxName) ∧ c.size ≤ blockSize

end NewFile

/-- The device after a sequence of calls, whatever they have returned. -/
def writes (cs : List NewFile) (d : Blockdev) : Blockdev := cs.foldl (fun d c ↦ after c.write d) d

/-- No block of the device is free. -/
def Full (d : Blockdev) : Prop :=
  ∀ b, b < d.totalBlocks → (d.blocks blockBitmapLba).bitTest b = true

/-- **A device stays mountable** if, after any sequence of calls, the next call fails only for a
reason that lies in its arguments or for want of space, and certainly does so when the device is
full; the device can be mounted; and every file that has been created reads back as it was
written. -/
structure StaysMountable (d : Blockdev) : Prop where
  returns : ∀ (cs : List NewFile) (c : NewFile), errorOf c.write (writes cs d) = none ∨
    errorOf c.write (writes cs d) = some .exist ∨ errorOf c.write (writes cs d) = some .toolong ∨
    (errorOf c.write (writes cs d) = some .inval ∧ blockSize < c.size) ∨
    errorOf c.write (writes cs d) = some .nospc
  full : ∀ (cs : List NewFile) (c : NewFile), c.Valid →
    findDirent ((writes cs d).blocks rootDirLba) c.name.view = none → Full (writes cs d) →
    errorOf c.write (writes cs d) = some .nospc
  mount : ∀ cs : List NewFile, errorOf M16.mount (writes cs d) = none
  files : ∀ (cs : List NewFile) (c : NewFile) (cs' : List NewFile) (cap : ℕ),
    errorOf c.write (writes cs d) = none → c.size ≤ cap →
    result (readFile c.name.view cap) (writes (cs ++ c :: cs') d) = .ok c.bytes

/-! ## The invariant -/

/-- The device holds the files `f`, none of them behind its end, and accepts all writes. -/
structure Serves (d : Blockdev) (f : Files) : Prop where
  total_ge : dataStartLba ≤ d.totalBlocks
  running : d.failAfter < 0
  clear : headerIsClear (d.blocks journalStart) = true
  accounted : Accounted d.blocks 0
  files : ∀ s : CString, lookup d.blocks s.view = f s
  inside : ∀ b ∈ allocatedBlocks d.blocks, b < d.totalBlocks

variable {d d' : Blockdev} {f : Files} {c : NewFile} {tx : Tx}

theorem card_liveSlots_le (B : ℕ → Block) : (liveSlots B).card ≤ direntCount :=
  (Finset.card_filter_le _ _).trans (Finset.card_range _).le

theorem mem_allocatedBlocks {B : ℕ → Block} {b : ℕ} : b ∈ allocatedBlocks B ↔
    (dataStartLba ≤ b ∧ b < maxBlocks) ∧ (B blockBitmapLba).bitTest b = true := by
  rw [allocatedBlocks, Finset.mem_filter, Finset.mem_Ico]

theorem Serves.mount_eq (hd : Serves d f) : mount d = .ok (d.blocks 0) d :=
  mount_of_ok hd.total_ge (journalRecover_of_clear hd.total_ge hd.clear) hd.accounted.ok.super

theorem Serves.readFile_eq (hd : Serves d f) {s : CString} {bytes : List UInt8} {cap : ℕ}
    (h : f s = some bytes) (hcap : bytes.length ≤ cap) : readFile s.view cap d = .ok bytes d := by
  refine readFile_of_lookup_eq_some hd.total_ge hd.clear hd.accounted.ok ((hd.files s).trans h)
    hcap fun i hi hu ↦ hd.inside _ (mem_allocatedBlocks.2 ?_)
  have he := hd.accounted.ok.entry i hi hu
  exact ⟨⟨he.direct_ge, he.direct_lt⟩, he.direct_marked⟩

/-! ## What the search finds -/

section Search

variable {B : ℕ → Block} (hB : Accounted B 0)

include hB

theorem Accounted.exists_findFreeInode : ∃ ino, findFreeInode (B inodeBitmapLba) = some ino := by
  have hcard : (allocatedInodes B).card < maxInodes - 1 := by
    rw [hB.inodes_card, Nat.add_zero]
    exact lt_of_le_of_lt (card_liveSlots_le B) (by decide)
  refine (Search.exists_find?_range'_le (fun i h1 h2 hi ↦ ?_) hcard).imp fun _ h ↦ h.1
  rw [Bool.not_eq_true', Bool.eq_false_iff]
  exact fun hb ↦ hi (Finset.mem_filter.2 ⟨Finset.mem_Ico.2 ⟨h1, h2⟩, hb⟩)

/-- The blocks before the one that is found are those of the files. -/
theorem Accounted.exists_findFreeBlock : ∃ blk, findFreeBlock (B blockBitmapLba) = some blk ∧
    blk ≤ dataStartLba + (liveSlots B).card := by
  have hblocks : (allocatedBlocks B).card = (liveSlots B).card := hB.blocks_card
  have hcard : (allocatedBlocks B).card < maxBlocks - dataStartLba := by
    rw [hblocks]
    exact lt_of_le_of_lt (card_liveSlots_le B) (by decide)
  rw [← hblocks]
  refine Search.exists_find?_range'_le (fun i h1 h2 hi ↦ ?_) hcard
  rw [Bool.not_eq_true', Bool.eq_false_iff]
  exact fun hb ↦ hi (mem_allocatedBlocks.2 ⟨⟨h1, h2⟩, hb⟩)

omit hB in
theorem exists_findFreeDirent (h : (liveSlots B).card < direntCount) :
    ∃ slot, findFreeDirent (B rootDirLba) = some slot := by
  rw [findFreeDirent, List.range_eq_range']
  refine (Search.exists_find?_range'_le (fun i _ h2 hi ↦ ?_) h).imp fun _ h ↦ h.1
  rw [beq_iff_eq]
  by_contra hu
  exact hi (mem_liveSlots.2 ⟨by omega, hu⟩)

omit hB in
theorem findFreeDirent_eq_none (h : (liveSlots B).card = direntCount) :
    findFreeDirent (B rootDirLba) = none := by
  have hall : liveSlots B = Finset.range direntCount :=
    Finset.eq_of_subset_of_card_le (Finset.filter_subset _ _) (by rw [h, Finset.card_range])
  refine List.find?_eq_none.2 fun i hi hu ↦ ?_
  have hmem : i ∈ liveSlots B := hall ▸ Finset.mem_range.2 (List.mem_range.1 hi)
  exact (mem_liveSlots.1 hmem).2 (beq_iff_eq.1 hu)

end Search

/-! ## One call -/

/-- What is left of `m16_write_file` when the name has been found to be new. -/
def create (c : NewFile) (B : ℕ → Block) : M Unit := do
  let ino ← expect (findFreeInode (B inodeBitmapLba)) .nospc
  let blk ← expect (findFreeBlock (B blockBitmapLba)) .nospc
  let slot ← expect (findFreeDirent (B rootDirLba)) .nospc
  journalCommit (metadataRecords B ino blk c.size)
    (UInt32.ofNat (Super.cleanGeneration (B 0)) + 1) 0
  journalCommit (contentsRecords (Dirent.set (B rootDirLba) slot 1 ino c.name.view
      (strnlen c.name.view maxName)) blk ((Buf.zero blockSize).copy 0 c.data c.size))
    (UInt32.ofNat (Super.cleanGeneration (B 0)) + 2) 0

/-- The reasons to refuse a file whatever space there is. -/
def Refused (f : Files) (c : NewFile) : Err → Prop
  | .toolong => ¬ (0 < c.name.length ∧ c.name.length < maxName)
  | .inval => blockSize < c.size
  | .exist => f c.name ≠ none
  | _ => False

/-- A call refuses its arguments or sets out to create the file. -/
theorem Serves.write_cases (hd : Serves d f) (c : NewFile) :
    (∃ e, c.write d = .error e d ∧ Refused f c e) ∨
      c.Valid ∧ f c.name = none ∧ c.write d = create c d.blocks d := by
  have hlen : strlenBounded c.name.view maxName = min c.name.length maxName :=
    CString.strnlen_view _ _
  rw [NewFile.write, writeFile, writeFileEx]
  by_cases hname : 0 < c.name.length ∧ c.name.length < maxName
  swap
  · refine .inl ⟨.toolong, bind_of_error (failIf_of_pos ?_ _ _), hname⟩
    rw [hlen]
    simp only [maxName] at *
    omega
  rw [bind_of_ok (failIf_of_neg (by rw [hlen]; simp only [maxName] at *; omega) _ _)]
  by_cases hsize : c.size > blockSize
  · exact .inl ⟨.inval, bind_of_error (failIf_of_pos hsize _ _), hsize⟩
  have hread : ∀ {lba : ℕ}, lba < dataStartLba → readBlock lba d = .ok (d.blocks lba) d :=
    readBlock_of_lt hd.total_ge
  rw [bind_of_ok (failIf_of_neg hsize _ _), bind_of_ok hd.mount_eq,
    bind_of_ok (hread (by decide)), bind_of_ok (hread (by decide)),
    bind_of_ok (loadInodeTable_eq hd.total_ge), bind_of_ok (hread (by decide))]
  cases hnew : f c.name with
  | some bytes =>
    obtain ⟨i, hi, -⟩ := lookup_eq_some ((hd.files c.name).trans hnew)
    refine .inl ⟨.exist, bind_of_error (failIf_of_pos ?_ _ _), ?_⟩
    · rw [hi]; rfl
    · rw [Refused, hnew]
      exact Option.some_ne_none bytes
  | none =>
    have hi := lookup_eq_none ((hd.files c.name).trans hnew)
    refine .inr ⟨⟨hname, not_lt.1 hsize⟩, rfl, ?_⟩
    rw [bind_of_ok (failIf_of_neg (by rw [hi]; decide) _ _)]
    rfl

/-- Without a free entry in the directory nothing is written. -/
theorem create_of_card_eq (c : NewFile) (hB : Accounted d.blocks 0)
    (h : (liveSlots d.blocks).card = direntCount) :
    create c d.blocks d = .error .nospc d := by
  obtain ⟨ino, hino⟩ := hB.exists_findFreeInode
  obtain ⟨blk, hblk, -⟩ := hB.exists_findFreeBlock
  rw [create, hino, hblk, findFreeDirent_eq_none h]
  rfl

/-- A transaction on blocks of the device is carried out. -/
theorem journalCommit_of_running (seq : UInt32) (hT : dataStartLba ≤ d.totalBlocks)
    (hf : d.failAfter < 0) (ht : TxOk tx) (hv : ∀ r ∈ tx, validLba d r.targetLba = true) :
    ∃ d', journalCommit tx seq 0 d = .ok () d' ∧ d'.totalBlocks = d.totalBlocks ∧
      d'.failAfter < 0 ∧ headerIsClear (d'.blocks journalStart) = true ∧
      AgreeOn IsHome d'.blocks (applyAll (homeWrites tx) d.blocks) := by
  rw [journalCommit_eq ht.length_le]
  refine ⟨_, writeAll_of_accepts (valid_commitWrites seq hT ht hv) (.inl hf),
    storeAll_totalBlocks _ _, ?_, ?_⟩
  · rw [storeAll_failAfter _ hf]
    exact hf
  · rw [storeAll_blocks]
    exact applyAll_commitWrites seq ht d.blocks

/-- The file has been created, in a block that was free. -/
structure Stored (d : Blockdev) (f : Files) (c : NewFile) (d' : Blockdev) : Prop where
  serves : Serves d' (Function.update f c.name (some c.bytes))
  total : d'.totalBlocks = d.totalBlocks
  card : (liveSlots d'.blocks).card = (liveSlots d.blocks).card + 1
  room : ∃ b, b < d.totalBlocks ∧ (d.blocks blockBitmapLba).bitTest b = false

theorem Creation.card_liveSlots {name : CString} {dataBlk : Block} {size ino blk slot : ℕ}
    {B B₁ B₂ : ℕ → Block} (hcr : Creation name dataBlk size ino blk slot B B₁ B₂) (hB : FsOk B) :
    (liveSlots B₂).card = (liveSlots B).card + 1 := by
  have hlive : liveSlots B₁ = liveSlots B := by rw [liveSlots, liveSlots, hcr.dir_eq]
  rw [hcr.liveSlots_eq hB, Finset.card_insert_of_notMem hcr.slot_not_mem, hlive]

theorem Creation.mem_allocatedBlocks {name : CString} {dataBlk : Block}
    {size ino blk slot b : ℕ} {B B₁ B₂ : ℕ → Block}
    (hcr : Creation name dataBlk size ino blk slot B B₁ B₂) (hB : FsOk B)
    (hb : b ∈ allocatedBlocks B₂) : blk = b ∨ b ∈ allocatedBlocks B := by
  have hlt := hcr.free.blk_lt
  obtain ⟨hin, hbit⟩ := M16.mem_allocatedBlocks.1 hb
  rw [hcr.contents.blockBitmap_eq (hcr.ready hB), hcr.metadata.blockBitmap,
    Buf.bitTest_bitSet (by simp only [maxBlocks, blockSize] at *; omega), Bool.or_eq_true,
    decide_eq_true_iff] at hbit
  exact hbit.imp id fun hbit ↦ M16.mem_allocatedBlocks.2 ⟨hin, hbit⟩

/-- If the block that is found is on the device, the file is created. -/
theorem Serves.create_eq_ok (hd : Serves d f) (hvalid : c.Valid) (hnew : f c.name = none)
    (hcard : (liveSlots d.blocks).card < direntCount)
    (hroom : dataStartLba + (liveSlots d.blocks).card < d.totalBlocks) :
    ∃ d', create c d.blocks d = .ok () d' ∧ Stored d f c d' := by
  have hT := hd.total_ge
  have hB := hd.accounted
  obtain ⟨ino, hino⟩ := hB.exists_findFreeInode
  obtain ⟨blk, hblk, hle⟩ := hB.exists_findFreeBlock
  obtain ⟨slot, hslot⟩ := exists_findFreeDirent hcard
  have hfree := free_of_find hino hblk hslot
  have hblkT : blk < d.totalBlocks := lt_of_le_of_lt hle hroom
  -- the first transaction
  obtain ⟨d₁, hr₁, ht₁, hf₁, -, ha₁⟩ := journalCommit_of_running
    (UInt32.ofNat (Super.cleanGeneration (d.blocks 0)) + 1) hT hd.running
    (metadataRecords_ok d.blocks ino blk c.size)
    fun r hr ↦ valid_of_lt_dataStart hT ((mem_metadataRecords hr).2.trans (by decide))
  have hm := (metadata_applyAll d.blocks ino blk c.size).congr_right ha₁.symm
  have hdir : d₁.blocks rootDirLba = d.blocks rootDirLba := hm.rest _ le_rfl
  -- the second transaction
  have hco := contents_applyAll d₁.blocks ino slot c.name.view
    ((Buf.zero blockSize).copy 0 c.data c.size) hfree.blk_ge
  rw [hdir] at hco
  obtain ⟨d₂, hr₂, ht₂, hf₂, hc₂, ha₂⟩ := journalCommit_of_running
    (UInt32.ofNat (Super.cleanGeneration (d.blocks 0)) + 2) (ht₁ ▸ hT) hf₁
    (contentsRecords_ok (Dirent.set (d.blocks rootDirLba) slot 1 ino c.name.view
      (strnlen c.name.view maxName)) ((Buf.zero blockSize).copy 0 c.data c.size)
      hfree.blk_ge hfree.blk_lt)
    (by
      intro r hr
      rcases List.mem_cons.1 hr with rfl | hr
      · exact valid_of_lt_dataStart (ht₁ ▸ hT) (Nat.lt_succ_self _)
      · obtain rfl := List.mem_singleton.1 hr
        exact validLba_iff.2 ⟨ht₁ ▸ hblkT, hfree.blk_lt⟩)
  have hcr : Creation c.name _ c.size ino blk slot d.blocks d₁.blocks _ :=
    ⟨hfree, lookup_eq_none ((hd.files c.name).trans hnew), hvalid.1.2, hvalid.2, hm, hco⟩
  have hagree := ha₂.symm
  refine ⟨d₂, ?_, ⟨ht₂ ▸ ht₁ ▸ hT, hf₂, hc₂, (hcr.accounted₂ hB).congr hagree, fun s ↦ ?_,
    fun b hb ↦ ?_⟩, ht₂.trans ht₁, ?_, blk, hblkT, hfree.blk_free⟩
  · rw [create, hino, hblk, hslot]
    show (journalCommit _ _ _ >>= fun _ ↦ _) d = _
    rw [bind_of_ok hr₁]
    exact hr₂
  · rw [lookup_congr (hcr.fsOk₂ hB.ok) hagree, hcr.lookup₂ hB.ok, hd.files,
      map_range_copy c.data hvalid.2]
    exact (Function.update_apply f c.name _ s).symm
  · rw [allocatedBlocks, ← hagree _ (isHome_of_ge (by decide))] at hb
    rw [ht₂, ht₁]
    rcases hcr.mem_allocatedBlocks hB.ok hb with rfl | hb
    · exact hblkT
    · exact hd.inside b hb
  · rw [liveSlots, ← hagree _ (isHome_of_ge (by decide))]
    exact hcr.card_liveSlots hB.ok

theorem not_refused (hvalid : c.Valid) (hnew : f c.name = none) (e : Err) : ¬ Refused f c e := by
  cases e with
  | toolong => exact fun h ↦ h hvalid.1
  | inval => exact not_lt.2 hvalid.2
  | exist => exact fun h ↦ h hnew
  | _ => exact id

theorem Serves.write_eq_create (hd : Serves d f) (hvalid : c.Valid) (hnew : f c.name = none) :
    c.write d = create c d.blocks d := by
  rcases hd.write_cases c with ⟨e, -, href⟩ | ⟨-, -, hr⟩
  · exact absurd href (not_refused hvalid hnew e)
  · exact hr

/-- **One call**, on a device that has a block for every free entry of the directory. -/
theorem Serves.write_spec (hd : Serves d f) (hT : dataStartLba + direntCount ≤ d.totalBlocks)
    (c : NewFile) :
    (∃ e, c.write d = .error e d ∧ (Refused f c e ∨ e = .nospc)) ∨
      ∃ d', c.write d = .ok () d' ∧ f c.name = none ∧ Stored d f c d' := by
  rcases hd.write_cases c with ⟨e, hr, href⟩ | ⟨hvalid, hnew, hr⟩
  · exact .inl ⟨e, hr, .inl href⟩
  · rw [hr]
    rcases (card_liveSlots_le d.blocks).eq_or_lt with hcard | hcard
    · exact .inl ⟨.nospc, create_of_card_eq c hd.accounted hcard, .inr rfl⟩
    · obtain ⟨d', hr', hst⟩ := hd.create_eq_ok hvalid hnew hcard
        ((Nat.add_lt_add_left hcard _).trans_le hT)
      exact .inr ⟨d', hr', hnew, hst⟩

/-! ## A device with a block for every directory entry -/

theorem Serves.after_write (hd : Serves d f) (hT : dataStartLba + direntCount ≤ d.totalBlocks)
    (c : NewFile) :
    ∃ g, Serves (after c.write d) g ∧ (after c.write d).totalBlocks = d.totalBlocks ∧
      (∀ s bytes, f s = some bytes → g s = some bytes) ∧
      (errorOf c.write d = none → g c.name = some c.bytes) := by
  rcases hd.write_spec hT c with ⟨e, hr, -⟩ | ⟨d', hr, hnew, hst⟩
  · rw [after_of_error hr, errorOf_of_error hr]
    exact ⟨f, hd, rfl, fun _ _ h ↦ h, fun h ↦ absurd h (Option.some_ne_none e)⟩
  · rw [after_of_ok hr]
    refine ⟨_, hst.serves, hst.total, fun s bytes hs ↦ ?_, fun _ ↦ Function.update_self ..⟩
    have hne : s ≠ c.name := by
      rintro rfl
      rw [hnew] at hs
      cases hs
    rw [Function.update_of_ne hne, hs]

theorem Serves.writes (hd : Serves d f) (hT : dataStartLba + direntCount ≤ d.totalBlocks)
    (cs : List NewFile) :
    ∃ g, Serves (writes cs d) g ∧ dataStartLba + direntCount ≤ (M16.writes cs d).totalBlocks ∧
      ∀ s bytes, f s = some bytes → g s = some bytes := by
  induction cs generalizing d f with
  | nil => exact ⟨f, hd, hT, fun _ _ h ↦ h⟩
  | cons c cs ih =>
    obtain ⟨g, hg, htotal, hfg, -⟩ := hd.after_write hT c
    obtain ⟨g', hg', hT', hgg'⟩ := ih hg (htotal ▸ hT)
    exact ⟨g', hg', hT', fun s bytes h ↦ hgg' s bytes (hfg s bytes h)⟩

theorem Serves.staysMountable (hd : Serves d f) (hT : dataStartLba + direntCount ≤ d.totalBlocks) :
    StaysMountable d where
  returns cs c := by
    obtain ⟨g, hg, hT', -⟩ := hd.writes hT cs
    rcases hg.write_spec hT' c with ⟨e, hr, href⟩ | ⟨d', hr, -⟩
    · rw [errorOf_of_error hr]
      cases e with
      | inval => exact .inr (.inr (.inr (.inl ⟨rfl, href.resolve_right (by decide)⟩)))
      | exist => exact .inr (.inl rfl)
      | toolong => exact .inr (.inr (.inl rfl))
      | nospc => exact .inr (.inr (.inr (.inr rfl)))
      | _ => exact absurd href (by simp [Refused])
    · exact .inl (errorOf_of_ok hr)
  full cs c hvalid hnew hfull := by
    obtain ⟨g, hg, hT', -⟩ := hd.writes hT cs
    have hnone : g c.name = none := by
      rw [← hg.files, lookup, hnew, Option.map_none]
    rcases hg.write_spec hT' c with ⟨e, hr, href⟩ | ⟨d', hr, -, hst⟩
    · rw [errorOf_of_error hr, href.resolve_left (not_refused hvalid hnone e)]
    · obtain ⟨b, hb, hfree⟩ := hst.room
      exact absurd (hfull b hb) (Bool.eq_false_iff.1 hfree)
  mount cs := by
    obtain ⟨g, hg, -⟩ := hd.writes hT cs
    exact errorOf_of_ok hg.mount_eq
  files cs c cs' cap hok hcap := by
    obtain ⟨g, hg, hT', -⟩ := hd.writes hT cs
    obtain ⟨g₁, hg₁, htotal, -, hc⟩ := hg.after_write hT' c
    obtain ⟨g₂, hg₂, -, hkeep⟩ := hg₁.writes (htotal ▸ hT') cs'
    have hrun : M16.writes (cs ++ c :: cs') d
        = M16.writes cs' (after c.write (M16.writes cs d)) := List.foldl_append ..
    have hlen : c.bytes.length ≤ cap := by
      rw [NewFile.bytes, List.length_map, List.length_range]
      exact hcap
    rw [hrun]
    exact result_of_ok (hg₂.readFile_eq (hkeep _ _ (hc hok)) hlen)

/-! ## A smaller device -/

theorem raises_writeBlock (lba : ℕ) (b : Block) : Raises (· ≠ .nospc) (writeBlock lba b) := by
  intro s e s' h
  rw [writeBlock] at h
  split at h
  · cases h
    decide
  · split at h
    · cases h
      decide
    · cases h

theorem raises_writeAll (ws : List (ℕ × Block)) : Raises (· ≠ .nospc) (writeAll ws) := by
  induction ws with
  | nil => exact raises_pure ()
  | cons w ws ih => exact (raises_writeBlock w.1 w.2).bind fun _ ↦ ih

theorem raises_journalCommit (tx : Tx) (seq : UInt32) :
    Raises (· ≠ .nospc) (journalCommit tx seq 0) := by
  by_cases h : tx.length ≤ journalMaxRecords
  · rw [journalCommit_eq h]
    exact raises_writeAll _
  · intro s e s' hr
    rw [journalCommit, bind_of_error (failIf_of_pos (not_le.1 h) _ _)] at hr
    cases hr
    decide

/-- As long as there is a free entry in the directory, a block is found, wherever it is. -/
theorem create_ne_nospc (c : NewFile) (hB : Accounted d.blocks 0)
    (hcard : (liveSlots d.blocks).card < direntCount) :
    errorOf (create c d.blocks) d ≠ some .nospc := by
  obtain ⟨ino, hino⟩ := hB.exists_findFreeInode
  obtain ⟨blk, hblk, -⟩ := hB.exists_findFreeBlock
  obtain ⟨slot, hslot⟩ := exists_findFreeDirent hcard
  rw [create, hino, hblk, hslot]
  intro h
  exact ((raises_journalCommit _ _).bind fun _ ↦ raises_journalCommit _ _).of_errorOf h rfl

/-- A device with as many files as data blocks is full. -/
theorem Serves.full (hd : Serves d f)
    (hcard : dataStartLba + (liveSlots d.blocks).card = d.totalBlocks) : Full d := by
  intro b hb
  by_cases hlt : b < dataStartLba
  · exact hd.accounted.ok.reserved b hlt
  · have hsub : allocatedBlocks d.blocks ⊆ Finset.Ico dataStartLba d.totalBlocks := fun b hb ↦
      Finset.mem_Ico.2 ⟨(mem_allocatedBlocks.1 hb).1.1, hd.inside b hb⟩
    have hall : allocatedBlocks d.blocks = Finset.Ico dataStartLba d.totalBlocks := by
      refine Finset.eq_of_subset_of_card_le hsub ?_
      rw [hd.accounted.blocks_card, Nat.card_Ico]
      omega
    have hmem : b ∈ allocatedBlocks d.blocks := hall ▸ Finset.mem_Ico.2 ⟨not_lt.1 hlt, hb⟩
    exact (mem_allocatedBlocks.1 hmem).2

theorem zero_not_mem_replicate (k : ℕ) : (0 : UInt8) ∉ List.replicate k 1 :=
  fun h ↦ absurd (List.eq_of_mem_replicate h) (by decide)

/-- Empty files, each with a name of its own. -/
def emptyFile (k : ℕ) : NewFile :=
  { name := ⟨List.replicate (k + 1) 1, zero_not_mem_replicate (k + 1)⟩
    data := fun _ ↦ 0
    size := 0 }

theorem emptyFile_valid {k : ℕ} (h : k < direntCount) : (emptyFile k).Valid := by
  have hlen : (emptyFile k).name.length = k + 1 := List.length_replicate
  rw [NewFile.Valid, hlen]
  exact ⟨⟨Nat.succ_pos k, (Nat.succ_lt_succ h).trans (by decide)⟩, Nat.zero_le _⟩

theorem emptyFile_name_ne {j k : ℕ} (h : j ≠ k) : (emptyFile j).name ≠ (emptyFile k).name := by
  intro he
  have hlen := congrArg CString.length he
  rw [emptyFile, emptyFile, CString.length, CString.length, List.length_replicate,
    List.length_replicate] at hlen
  exact h (Nat.succ_injective hlen)

/-- A fresh device can be filled with as many files as it has data blocks, or directory entries. -/
theorem Serves.exists_writes (hd : Serves d fun _ ↦ none) (h0 : (liveSlots d.blocks).card = 0)
    {k : ℕ} (hk : k ≤ direntCount) (hroom : dataStartLba + k ≤ d.totalBlocks) :
    ∃ cs g, Serves (M16.writes cs d) g ∧ (M16.writes cs d).totalBlocks = d.totalBlocks ∧
      (liveSlots (M16.writes cs d).blocks).card = k ∧
      ∀ j, k ≤ j → g (emptyFile j).name = none := by
  induction k with
  | zero => exact ⟨[], _, hd, rfl, h0, fun _ _ ↦ rfl⟩
  | succ k ih =>
    obtain ⟨cs, g, hg, htotal, hcard, hnew⟩ := ih (by omega) (by omega)
    have hvalid : (emptyFile k).Valid := emptyFile_valid hk
    obtain ⟨d', hr, hst⟩ := hg.create_eq_ok hvalid (hnew k le_rfl) (hcard.trans_lt hk)
      (by rw [hcard, htotal]; exact hroom)
    rw [← hg.write_eq_create hvalid (hnew k le_rfl)] at hr
    have hrun : M16.writes (cs ++ [emptyFile k]) d = d' :=
      (List.foldl_append ..).trans (after_of_ok hr)
    refine ⟨cs ++ [emptyFile k], _, hrun ▸ hst.serves, ?_, ?_, fun j hj ↦ ?_⟩
    · rw [hrun, hst.total, htotal]
    · rw [hrun, hst.card, hcard]
    · rw [Function.update_of_ne (emptyFile_name_ne (by omega))]
      exact hnew j (by omega)

/-- On a smaller device, the file for which there is no block is not refused for want of space. -/
theorem Serves.not_staysMountable (hd : Serves d fun _ ↦ none)
    (h0 : (liveSlots d.blocks).card = 0) (hT : d.totalBlocks < dataStartLba + direntCount) :
    ¬ StaysMountable d := by
  intro h
  have hge := hd.total_ge
  obtain ⟨cs, g, hg, htotal, hcard, hnew⟩ := hd.exists_writes h0
    (k := d.totalBlocks - dataStartLba) (by omega) (by omega)
  have hlt : d.totalBlocks - dataStartLba < direntCount := by omega
  have hvalid := emptyFile_valid hlt
  have hnone := hnew _ le_rfl
  have hfull := h.full cs _ hvalid (lookup_eq_none ((hg.files _).trans hnone))
    (hg.full (by omega))
  rw [errorOf, hg.write_eq_create hvalid hnone] at hfull
  exact create_ne_nospc _ hg.accounted (hcard.trans_lt hlt) hfull

/-! ## The main result -/

theorem serves_of_format (hf : d.failAfter < 0) (h : format d = .ok () d') :
    Serves d' (fun _ ↦ none) ∧ (liveSlots d'.blocks).card = 0 ∧
      d'.totalBlocks = d.totalBlocks := by
  obtain ⟨htotal, hc, hblocks⟩ := blocks_of_format h
  obtain ⟨hT, hd'⟩ := format_eq_ok h
  refine ⟨⟨htotal ▸ hT, ?_, hc, ?_, fun s ↦ ?_, fun b hb ↦ ?_⟩, ?_, htotal⟩
  · rw [hd']
    exact lt_of_eq_of_lt (storeAll_failAfter _ hf) hf
  · rw [hblocks]
    exact accounted_formatWrites _ _
  · rw [hblocks, lookup_formatWrites]
  · rw [hblocks, allocatedBlocks_formatWrites] at hb
    exact absurd hb (Finset.notMem_empty b)
  · rw [hblocks, liveSlots_formatWrites, Finset.card_empty]

/-- **When a device can be filled.**  A device that has been formatted without fault injection stays
mountable, whatever files are created on it, if and only if it has a data block for each of the
twelve directory entries, that is, at least 37 blocks. -/
theorem staysMountable_iff {dev d : Blockdev} (hf : dev.failAfter < 0)
    (h : format dev = .ok () d) :
    StaysMountable d ↔ dataStartLba + direntCount ≤ dev.totalBlocks := by
  obtain ⟨hd, h0, htotal⟩ := serves_of_format hf h
  rw [← htotal]
  exact ⟨fun hs ↦ not_lt.1 fun hlt ↦ hd.not_staysMountable h0 hlt hs, hd.staysMountable⟩

/-- The device of `m16_dev_init`, cut down to `n` blocks. -/
def smallDevice (n : ℕ) : Blockdev := { devInit with totalBlocks := n }

theorem staysMountable_smallDevice :
    ∃ d, format (smallDevice 37) = .ok () d ∧ StaysMountable d := by
  obtain ⟨d, h⟩ := exists_format_eq_ok (d := smallDevice 37) (by decide) (by decide)
  exact ⟨d, h, (staysMountable_iff (by decide) h).2 (by decide)⟩

/-- A device without a data block: the first file is refused as invalid, and after that the device
cannot be mounted any more. -/
theorem first_file_corrupts :
    errorOf format (smallDevice 25) = none ∧
      errorOf (emptyFile 0).write (after format (smallDevice 25)) = some .inval ∧
      errorOf mount (writes [emptyFile 0] (after format (smallDevice 25))) = some .corrupt := by
  decide +kernel

end M16
end Mcsos
