import Mcsos.Mcsfs1.Create

/-!
# MCSFS1: writing a file

`mcsfs1_write` works in three stages.  It first allocates the blocks that the file does not have
yet, one by one, with the new block numbers kept in memory; `Grown` relates the disk and the inode
at the start to those after any number of rounds.  It then stores the data, which `Stored` describes
in the same way, and finally writes the inode.  Until then the new blocks are unreferenced, and the
old ones keep belonging to the file, so the invariant holds throughout.
-/

set_option autoImplicit false

namespace Mcsos
namespace Mcsfs1

open Bytes Program

variable {n : ℕ} {B B' : ℕ → Block} {old new : Inode} {i : ℕ}

/-! ## Updating an inode in memory -/

section Inode

variable {inode : Inode} {j lba len : ℕ}

theorem Inode.direct_setDirect_self (hi : i < directBlocks) (h : lba < 256 ^ 4) :
    (inode.setDirect i lba).direct i = lba := by
  refine Buf.field_setField_same ?_ h
  simp only [directBlocks, inodeSize] at *; omega

theorem Inode.direct_setDirect_of_ne (hj : j < directBlocks) (hne : j ≠ i) :
    (inode.setDirect i lba).direct j = inode.direct j := by
  refine Buf.field_setField_of_disjoint (by omega) ?_
  simp only [directBlocks, inodeSize] at *; omega

theorem Inode.mode_setDirect : (inode.setDirect i lba).mode = inode.mode :=
  Buf.field_setField_of_disjoint (by omega) (by decide)

theorem Inode.direct_setSize (hj : j < directBlocks) :
    (inode.setSize len).direct j = inode.direct j := by
  refine Buf.field_setField_of_disjoint (by omega) ?_
  simp only [directBlocks, inodeSize] at *; omega

theorem Inode.mode_setSize : (inode.setSize len).mode = inode.mode :=
  Buf.field_setField_of_disjoint (by omega) (by decide)

theorem Inode.size_setSize (h : len < 256 ^ 4) : (inode.setSize len).size = len :=
  Buf.field_setField_same (by decide) h

end Inode

theorem blocksNeeded_le {len : ℕ} (h : len ≤ directBlocks * blockSize) :
    max (blocksNeeded len) 1 ≤ directBlocks := by
  simp only [blocksNeeded, directBlocks, blockSize] at *
  omega

/-! ## Allocating -/

/-- Blocks `0` to `i` of the file have been allocated where they were missing: `old` has become
`new`, and the disk `B` has become `B'`. -/
structure Grown (n : ℕ) (B : ℕ → Block) (old : Inode) (i : ℕ) (B' : ℕ → Block) (new : Inode) :
    Prop where
  rest : ∀ x, x ≠ blockBmapLba → B' x = B x
  marks : ∀ b, (B blockBmapLba).bitTest b = true → (B' blockBmapLba).bitTest b = true
  only : ∀ b, (B' blockBmapLba).bitTest b = true → (B blockBmapLba).bitTest b = true ∨
    ∃ j, j < directBlocks ∧ new.direct j ≠ 0 ∧ new.direct j = b
  mode : new.mode = old.mode
  kept : ∀ j, j < directBlocks → old.direct j ≠ 0 → new.direct j = old.direct j
  new_ge : ∀ j, j < directBlocks → new.direct j ≠ 0 → dataStartLba ≤ new.direct j
  new_lt : ∀ j, j < directBlocks → new.direct j ≠ 0 → new.direct j < n
  new_marked : ∀ j, j < directBlocks → new.direct j ≠ 0 →
    (B' blockBmapLba).bitTest (new.direct j) = true
  fresh : ∀ j, j < directBlocks → old.direct j = 0 → new.direct j ≠ 0 →
    (B blockBmapLba).bitTest (new.direct j) = false
  filled : ∀ j, j < i → new.direct j ≠ 0
  inj : ∀ j j', j < directBlocks → j' < directBlocks → new.direct j ≠ 0 →
    new.direct j = new.direct j' → j = j'

theorem Grown.refl (h : InodeOk n (B blockBmapLba) old) : Grown n B old 0 B old where
  rest _ _ := rfl
  marks _ hb := hb
  only _ hb := .inl hb
  mode := rfl
  kept _ _ _ := rfl
  new_ge := h.direct_ge
  new_lt := h.direct_lt
  new_marked := h.direct_marked
  fresh _ _ h0 hz := absurd h0 hz
  filled _ hj := absurd hj (Nat.not_lt_zero _)
  inj := h.direct_inj

/-- A round that finds a block already there. -/
theorem Grown.skip (h : Grown n B old i B' new) (hi : new.direct i ≠ 0) :
    Grown n B old (i + 1) B' new :=
  { h with
    filled := fun j hj ↦ by
      rcases Nat.lt_succ_iff_lt_or_eq.1 hj with hj | rfl
      · exact h.filled j hj
      · exact hi }

/-- A round that allocates a block. -/
theorem Grown.alloc (h : Grown n B old i B' new) (hn : n ≤ blockSize * 8) (hi8 : i < directBlocks)
    (hi : new.direct i = 0) {lba : ℕ} (hf : findFreeBlock (B' blockBmapLba) n = some lba) :
    Grown n B old (i + 1)
      (Function.update B' blockBmapLba ((B' blockBmapLba).bitSet lba)) (new.setDirect i lba) := by
  obtain ⟨hge, hlt, hfree⟩ := findFreeBlock_some hf
  have hbits : lba < blockSize * 8 := lt_of_lt_of_le hlt hn
  have h0 : lba ≠ 0 := (lt_of_lt_of_le (by decide) hge).ne'
  have hself : (new.setDirect i lba).direct i = lba :=
    Inode.direct_setDirect_self hi8 (lt_of_lt_of_le hlt (hn.trans (by decide)))
  have hother : ∀ j, j < directBlocks → j ≠ i → (new.setDirect i lba).direct j = new.direct j :=
    fun j hj hne ↦ Inode.direct_setDirect_of_ne hj hne
  have hne_lba : ∀ j, j < directBlocks → new.direct j ≠ 0 → new.direct j ≠ lba :=
      fun j hj hz he ↦ by
    have hm := h.new_marked j hj hz
    rw [he, hfree] at hm
    cases hm
  have hmark : ∀ b, (B' blockBmapLba).bitTest b = true → (Function.update B' blockBmapLba
      ((B' blockBmapLba).bitSet lba) blockBmapLba).bitTest b = true := fun b hb ↦ by
    rw [Function.update_self]; exact bitTest_bitSet_of_true hbits hb
  refine ⟨fun x hx ↦ ?_, fun b hb ↦ hmark b (h.marks b hb), fun b hb ↦ ?_, ?_, fun j hj hz ↦ ?_,
    fun j hj hz ↦ ?_, fun j hj hz ↦ ?_, fun j hj hz ↦ ?_, fun j hj hz hz' ↦ ?_, fun j hj ↦ ?_,
    fun j j' hj hj' hz he ↦ ?_⟩
  · rw [Function.update_of_ne hx, h.rest x hx]
  · rw [Function.update_self, bitTest_bitSet_iff hbits] at hb
    rcases hb with rfl | hb
    · exact .inr ⟨i, hi8, by rw [hself]; exact h0, hself⟩
    · refine (h.only b hb).imp_right ?_
      rintro ⟨j, hj, hz, rfl⟩
      have hji : j ≠ i := fun he ↦ hz (he ▸ hi)
      exact ⟨j, hj, by rw [hother j hj hji]; exact hz, hother j hj hji⟩
  · rw [Inode.mode_setDirect, h.mode]
  · have hji : j ≠ i := fun he ↦ hz (by rw [← h.kept j hj hz, he, hi])
    rw [hother j hj hji, h.kept j hj hz]
  · by_cases hji : j = i
    · rw [hji, hself]; exact hge
    · rw [hother j hj hji] at hz ⊢; exact h.new_ge j hj hz
  · by_cases hji : j = i
    · rw [hji, hself]; exact hlt
    · rw [hother j hj hji] at hz ⊢; exact h.new_lt j hj hz
  · by_cases hji : j = i
    · rw [hji, hself, Function.update_self]; exact bitTest_bitSet_self hbits
    · rw [hother j hj hji] at hz ⊢; exact hmark _ (h.new_marked j hj hz)
  · by_cases hji : j = i
    · rw [hji, hself]
      exact Bool.eq_false_iff.2 fun hb ↦ by rw [h.marks lba hb] at hfree; cases hfree
    · rw [hother j hj hji] at hz' ⊢; exact h.fresh j hj hz hz'
  · rcases Nat.lt_succ_iff_lt_or_eq.1 hj with hj | rfl
    · rw [hother j (lt_trans hj hi8) hj.ne]; exact h.filled j hj
    · rw [hself]; exact h0
  · by_cases hji : j = i <;> by_cases hji' : j' = i
    · rw [hji, hji']
    · rw [hji, hself, hother j' hj' hji'] at he
      exact absurd he.symm (hne_lba j' hj' (he ▸ h0))
    · rw [hji', hself, hother j hj hji] at he
      exact absurd he (hne_lba j hj (he.symm ▸ h0))
    · rw [hother j hj hji] at hz he
      rw [hother j' hj' hji'] at he
      exact h.inj j j' hj hj' hz he

/-- Marking more blocks keeps the invariant. -/
theorem Grown.inv (h : Grown n B old i B' new) (hinv : Inv n B) : Inv n B' := by
  refine hinv.of_inodes_eq (h.rest _ (by decide))
    (fun x hx _ ↦ h.rest x (lt_of_lt_of_le (by decide) hx).ne') (fun b hb ↦ ?_) ?_ ?_ ?_
  · exact h.marks b (hinv.reserved b hb)
  · rw [h.rest _ (by decide)]; exact hinv.root_marked
  · rw [h.rest _ (by decide)]; exact hinv.ino_marked
  · exact fun i hl j hj hz ↦ h.marks _ ((hinv.inode i hl).direct_marked j hj hz)

theorem allocBlocks_ends {dev : Blkdev} (hn : minBlocks ≤ dev.blockCount)
    (hn' : dev.blockCount ≤ blockSize * 8) {k : ℕ} {s : Disk}
    (h : Grown dev.blockCount B old i s.blocks new) (hk : i + k ≤ directBlocks) :
    Ends (allocBlocks dev k i new) s
      (fun new' s' ↦ Grown dev.blockCount B old (i + k) s'.blocks new')
      (fun e s' ↦ (∃ i' new', Grown dev.blockCount B old i' s'.blocks new') ∧
        (dev.Healthy → e = .nospc)) := by
  induction k generalizing i new s with
  | zero => exact ends_pure h
  | succ k ih =>
    rw [allocBlocks, show i + (k + 1) = i + 1 + k by omega]
    split
    · rename_i hz
      refine ends_bind ((allocDataBlock_ends hn rfl).mono (fun _ _ h ↦ h) fun e s' he ↦ ?_) ?_
      · exact ⟨⟨i, new, he.1 ▸ h⟩, fun hh ↦ (he.2 hh).1⟩
      · rintro lba s' ⟨hf, hs'⟩
        exact ih (hs' ▸ h.alloc hn' (by omega) hz hf) (by omega)
    · rename_i hz
      exact ih (h.skip hz) (by omega)

/-! ## Storing the data -/

/-- Block `j` of a buffer of `len` bytes, padded with zeros. -/
def dataBlock (buf : ℕ → UInt8) (len j : ℕ) : Block :=
  (Buf.zero blockSize).copy 0 (fun k ↦ buf (j * blockSize + k)) (chunkSize (len - j * blockSize))

/-- The first `k` blocks of the buffer have been stored, which has turned `B` into `B'`. -/
structure Stored (B : ℕ → Block) (inode : Inode) (buf : ℕ → UInt8) (len k : ℕ) (B' : ℕ → Block) :
    Prop where
  data : ∀ j, j < k → B' (inode.direct j) = dataBlock buf len j
  rest : ∀ x, (∀ j, j < k → inode.direct j ≠ x) → B' x = B x

variable {inode : Inode} {buf : ℕ → UInt8} {len k : ℕ}

theorem Stored.zero (B : ℕ → Block) (inode : Inode) (buf : ℕ → UInt8) (len : ℕ) :
    Stored B inode buf len 0 B :=
  ⟨fun j hj ↦ absurd hj (Nat.not_lt_zero j), fun _ _ ↦ rfl⟩

theorem Stored.succ (h : Stored B inode buf len k B')
    (hinj : ∀ j, j < k → inode.direct j ≠ inode.direct k) :
    Stored B inode buf len (k + 1)
      (Function.update B' (inode.direct k) (dataBlock buf len k)) := by
  refine ⟨fun j hj ↦ ?_, fun x hx ↦ ?_⟩
  · rcases Nat.lt_succ_iff_lt_or_eq.1 hj with hj | rfl
    · rw [Function.update_of_ne (hinj j hj), h.data j hj]
    · rw [Function.update_self]
  · rw [Function.update_of_ne (hx k (Nat.lt_succ_self k)).symm,
      h.rest x fun j hj ↦ hx j (Nat.lt_succ_of_lt hj)]

/-- Data blocks lie behind the metadata. -/
theorem Stored.meta_eq (h : Stored B inode buf len k B')
    (hge : ∀ j, j < k → dataStartLba ≤ inode.direct j) {x : ℕ} (hx : x < dataStartLba) :
    B' x = B x :=
  h.rest x fun j hj ↦ (lt_of_lt_of_le hx (hge j hj)).ne'

/-- As long as there are blocks to be written, all chunks so far were whole blocks. -/
theorem written_eq (hi : i < max (blocksNeeded len) 1) (hlen : len ≤ directBlocks * blockSize) :
    min (i * blockSize) len = i * blockSize := by
  simp only [blocksNeeded, blockSize, directBlocks] at *
  omega

theorem min_add_chunkSize (hi : i < max (blocksNeeded len) 1)
    (hlen : len ≤ directBlocks * blockSize) :
    i * blockSize + chunkSize (len - i * blockSize) = min ((i + 1) * blockSize) len := by
  simp only [blocksNeeded, chunkSize, blockSize, directBlocks] at *
  split <;> omega

theorem writeBlocks_ends {dev : Blkdev} {s : Disk} {m : ℕ} (hlen : len ≤ directBlocks * blockSize)
    (hge : ∀ j, j < max (blocksNeeded len) 1 → dataStartLba ≤ inode.direct j)
    (hlt : ∀ j, j < max (blocksNeeded len) 1 → inode.direct j < dev.blockCount)
    (hinj : ∀ j j', j < max (blocksNeeded len) 1 → j' < max (blocksNeeded len) 1 →
      inode.direct j = inode.direct j' → j = j')
    (hm : i + m = max (blocksNeeded len) 1) (h : Stored B inode buf len i s.blocks) :
    Ends (writeBlocks dev inode buf len m i (min (i * blockSize) len)) s
      (fun _ s' ↦ Stored B inode buf len (max (blocksNeeded len) 1) s'.blocks)
      (fun _ s' ↦ (∀ x, x < dataStartLba → s'.blocks x = B x) ∧ ¬ dev.Healthy) := by
  induction m generalizing i s with
  | zero => exact ends_pure (hm ▸ h)
  | succ m ih =>
    have hi : i < max (blocksNeeded len) 1 := by omega
    rw [writeBlocks, written_eq hi hlen]
    refine ends_bind ((devWrite_ends rfl (hlt i hi) _).mono (fun _ _ h ↦ h) ?_) fun _ s' hs' ↦ ?_
    · rintro e s' ⟨hs', hh⟩
      exact ⟨fun x hx ↦ hs' ▸ h.meta_eq (fun j hj ↦ hge j (lt_trans hj hi)) hx, hh⟩
    · rw [min_add_chunkSize hi hlen]
      refine ih (by omega) ?_
      rw [hs']
      exact h.succ fun j hj he ↦ absurd (hinj j i (lt_trans hj hi) hi he) hj.ne

/-! ## Writing the inode -/

/-- What a successful write to the file in `slot` has done. -/
structure Written (n : ℕ) (B : ℕ → Block) (slot : ℕ) (buf : ℕ → UInt8) (len : ℕ)
    (B₁ B₂ B₃ : ℕ → Block) (new : Inode) : Prop where
  grown : Grown n B (inodeAt B (slotIno B slot)) (max (blocksNeeded len) 1) B₁ new
  stored : Stored B₁ new buf len (max (blocksNeeded len) 1) B₂
  blocks : B₃ = setInode B₂ (slotIno B slot) (new.setSize len)

section Written

variable {slot : ℕ} (h : Inv n B) (hl : Live B slot) (hlen : len ≤ directBlocks * blockSize)

include h hl hlen

theorem Grown.inodeOk
    (hg : Grown n B (inodeAt B (slotIno B slot)) (max (blocksNeeded len) 1) B' new) :
    InodeOk n (B' blockBmapLba) (new.setSize len) := by
  have hsize : (new.setSize len).size = len := Inode.size_setSize (lt_of_le_of_lt hlen (by decide))
  have h8 := blocksNeeded_le hlen
  refine ⟨?_, ?_, fun j hj hz ↦ ?_, fun j hj hz ↦ ?_, fun j hj hz ↦ ?_, fun j hj ↦ ?_,
    fun j j' hj hj' hz he ↦ ?_⟩
  · rw [Inode.mode_setSize, hg.mode]; exact (h.inode slot hl).mode
  · rw [hsize]; exact hlen
  · rw [Inode.direct_setSize hj] at hz ⊢; exact hg.new_ge j hj hz
  · rw [Inode.direct_setSize hj] at hz ⊢; exact hg.new_lt j hj hz
  · rw [Inode.direct_setSize hj] at hz ⊢; exact hg.new_marked j hj hz
  · rw [hsize] at hj
    rw [Inode.direct_setSize (lt_of_lt_of_le hj h8)]; exact hg.filled j hj
  · rw [Inode.direct_setSize hj] at hz he
    rw [Inode.direct_setSize hj'] at he
    exact hg.inj j j' hj hj' hz he

omit hlen in
/-- The blocks of the grown file belong to no other file. -/
theorem Grown.block_ne (hg : Grown n B (inodeAt B (slotIno B slot)) i B' new) {i' : ℕ}
    (hl' : Live B i') (hne : i' ≠ slot) {j j' : ℕ} (hj : j < directBlocks) (hj' : j' < directBlocks)
    (hz : new.direct j ≠ 0) : new.direct j ≠ blockOf B i' j' := by
  by_cases hold : (inodeAt B (slotIno B slot)).direct j = 0
  · intro he
    have hm := (h.inode i' hl').direct_marked j' hj' fun h0 ↦ hz (he.trans h0)
    have hf := hg.fresh j hj hold hz
    rw [he, hm] at hf
    cases hf
  · rw [hg.kept j hj hold]
    exact h.block_inj slot i' hl hl' hne.symm j j' hj hj' hold

/-- **Writing keeps the invariant.** -/
theorem Written.inv {B₁ B₂ B₃ : ℕ → Block} (hw : Written n B slot buf len B₁ B₂ B₃ new) :
    Inv n B₃ := by
  have h8 := blocksNeeded_le hlen
  have hmeta : ∀ x, x < dataStartLba → B₂ x = B₁ x := fun x hx ↦ hw.stored.meta_eq (fun j hj ↦
    hw.grown.new_ge j (lt_of_lt_of_le hj h8) (hw.grown.filled j hj)) hx
  have h2 : Inv n B₂ := (hw.grown.inv h).congr hmeta
  have h7 : B₂ rootDirLba = B rootDirLba := by
    rw [hmeta _ (by decide), hw.grown.rest _ (by decide)]
  rw [hw.blocks]
  refine h2.set_inode (h.ino slot hl) fun i hi he ↦ ⟨?_, fun i' hi' hne j j' hj hj' hz ↦ ?_⟩
  · rw [hmeta _ (by decide)]
    exact hw.grown.inodeOk h hl hlen
  · rw [live_congr h7] at hi hi'
    rw [slotIno_congr h7] at he
    obtain rfl := h.ino_inj i slot hi hl he
    rw [Inode.direct_setSize hj] at hz ⊢
    have hnode : blockOf B₂ i' j' = blockOf B i' j' := by
      rw [blockOf, slotIno_congr h7, inodeAt_congr (fun x h3 h4 ↦ ?_) (h.ino i' hi').2]
      rw [hmeta x (lt_trans h4 (by decide)), hw.grown.rest x (lt_of_lt_of_le (by decide) h3).ne']
    rw [hnode]
    exact hw.grown.block_ne h hl hi' hne hj hj' hz

end Written

/-- Everything after the allocation: the data, the inode, the flush. -/
theorem storeFile_ends {dev : Blkdev} {s : Disk} {slot : ℕ} (hn : minBlocks ≤ dev.blockCount)
    (h : Inv dev.blockCount B) (hl : Live B slot) (hlen : len ≤ directBlocks * blockSize)
    (hg : Grown dev.blockCount B (inodeAt B (slotIno B slot)) (max (blocksNeeded len) 1) s.blocks
      new) :
    Ends (do
        writeBlocks dev new buf len (max (blocksNeeded len) 1) 0 0
        writeInode dev (slotIno B slot) (new.setSize len)
        devFlush dev) s
      (fun _ s' ↦ ∃ B₂, Written dev.blockCount B slot buf len s.blocks B₂ s'.blocks new)
      (fun _ s' ↦ Inv dev.blockCount s'.blocks ∧ ¬ dev.Healthy) := by
  have h8 := blocksNeeded_le hlen
  have hfile := h.ino slot hl
  have hnew := fun j (hj : j < max (blocksNeeded len) 1) ↦ hg.filled j hj
  have hge := fun j (hj : j < max (blocksNeeded len) 1) ↦
    hg.new_ge j (lt_of_lt_of_le hj h8) (hnew j hj)
  have hw := writeBlocks_ends (i := 0) (m := max (blocksNeeded len) 1) hlen hge
    (fun j hj ↦ hg.new_lt j (lt_of_lt_of_le hj h8) (hnew j hj))
    (fun j j' hj hj' he ↦ hg.inj j j' (lt_of_lt_of_le hj h8) (lt_of_lt_of_le hj' h8) (hnew j hj) he)
    (Nat.zero_add _) (Stored.zero s.blocks new buf len)
  rw [Nat.zero_mul, Nat.zero_min] at hw
  refine ends_bind (hw.mono (fun _ _ h ↦ h) ?_) fun _ s3 hst ↦ ?_
  · rintro e s' ⟨hx, hh⟩
    exact ⟨(hg.inv h).congr hx, hh⟩
  have hmeta : ∀ x, x < dataStartLba → s3.blocks x = s.blocks x := fun x hx ↦ hst.meta_eq hge hx
  refine ends_bind ((writeInode_ends hn rfl hfile.pos hfile.2 _).mono (fun _ _ h ↦ h)
    fun _ _ hf ↦ ⟨hf.1 ▸ (hg.inv h).congr hmeta, hf.2⟩) fun _ s4 hs4 ↦ ?_
  have hwritten : Written dev.blockCount B slot buf len s.blocks s3.blocks s4.blocks new :=
    ⟨hg, hst, hs4⟩
  refine (devFlush_ends rfl).mono (fun _ s5 hs5 ↦ ⟨s3.blocks, hs5 ▸ hwritten⟩) fun _ _ hf ↦ ?_
  exact ⟨hf.1 ▸ hwritten.inv h hl hlen, hf.2⟩

/-- A write on a disk with blocks `B`.  On a healthy device it fails without writing anything, or
because there are not enough blocks, and then some have been marked in vain. -/
theorem write_ends {dev : Blkdev} {s : Disk} (hn : minBlocks ≤ dev.blockCount)
    (hn' : dev.blockCount ≤ blockSize * 8) (hs : s.blocks = B) (h : Inv dev.blockCount B)
    (name buf : ℕ → UInt8) (len : ℕ) :
    Ends (write dev name buf len) s
      (fun _ s' ↦ len ≤ directBlocks * blockSize ∧ ∃ slot B₁ B₂ new,
        FoundAt dev (B rootDirLba) name slot ∧
        Written dev.blockCount B slot buf len B₁ B₂ s'.blocks new)
      (fun e s' ↦ Inv dev.blockCount s'.blocks ∧ (dev.Healthy →
        (e = .range ∧ s'.blocks = B ∧ directBlocks * blockSize < len) ∨
        (e = .nospc ∧ len ≤ directBlocks * blockSize ∧ ∃ slot i new,
          FoundAt dev (B rootDirLba) name slot ∧
          Grown dev.blockCount B (inodeAt B (slotIno B slot)) i s'.blocks new) ∨
        (s'.blocks = B ∧ len ≤ directBlocks * blockSize ∧
          ((e = .noent ∧ NotFound dev (B rootDirLba) name) ∨ Rejected name e)))) := by
  refine ends_failIf (fun hc ↦ ⟨hs ▸ h, fun _ ↦ .inl ⟨rfl, hs, hc⟩⟩) fun hlen ↦ ?_
  have hlen := not_lt.1 hlen
  have h8 := blocksNeeded_le hlen
  refine findInode_ends hn hs h name
    (fun e s' hs' he ↦ ⟨hs' ▸ h, fun hh ↦ .inr (.inr ⟨hs', hlen, he hh⟩)⟩) ?_
  intro slot s1 hfound hs1
  have hl := hfound.live
  have hstart : Grown dev.blockCount B (inodeAt B (slotIno B slot)) 0 s1.blocks
      (inodeAt B (slotIno B slot)) := by
    rw [hs1]; exact .refl (h.inode slot hl)
  refine ends_bind ((allocBlocks_ends hn hn' hstart (by omega)).mono (fun _ _ h ↦ h) ?_)
    fun new s2 hg ↦ ?_
  · rintro e s' ⟨⟨i, new, hg⟩, he⟩
    exact ⟨hg.inv h, fun hh ↦ .inr (.inl ⟨he hh, hlen, slot, i, new, hfound, hg⟩)⟩
  rw [Nat.zero_add] at hg
  refine (storeFile_ends hn h hl hlen hg).mono ?_ fun e s' hf ↦ ⟨hf.1, fun hh ↦ absurd hh hf.2⟩
  rintro - s' ⟨B₂, hw⟩
  exact ⟨hlen, slot, s2.blocks, B₂, new, hfound, hw⟩

end Mcsfs1
end Mcsos
