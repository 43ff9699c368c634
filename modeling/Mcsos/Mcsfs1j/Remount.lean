import Mcsos.Block.RamArray
import Mcsos.Mcsfs1j.CrashAtomicity

/-!
# Saving the file system to a block device and mounting it again

The journalled file system works on an image in memory.  The kernel saves the image by writing it
to a RAM block device block by block, `m16_sync_to_device`, and after a restart it clears the image
and fills it from the block device again, `m16_sync_from_device`, before it mounts it.

A machine is the image together with the storages of the block devices.  It runs calls on the image,
in any of which the image may stop to accept writes, saves, restarts and writes to other block
devices, in any order.  What matters of such a machine are two sets of files, those the image holds
and those a restart would bring back: a call changes the former, saving copies the former to the
latter, a restart copies them back, and nothing else happens to the latter (`Stands.run`).  Hence a
restart brings back exactly the files that were there when the image was last saved
(`remount_restores_last_sync`).

Saving does not look at the journal, so an image that was cut off in the middle of a transaction is
saved as it is, and the recovery is left to the mount that follows.
-/

set_option autoImplicit false

namespace Mcsos
namespace M16

open Bytes WriteLog Program
open Mcsos.Block (Io blkRead blkWrite)
open Mcsos.Block.Ramblk (Storage)

/-! ## The loops -/

/-- The bytes of `dev->blocks` from block `lba` on. -/
def Blockdev.bytesFrom (dev : Blockdev) (lba : ℕ) : ℕ → UInt8 := fun i ↦
  (dev.blocks (lba + i / blockSize)).get (i % blockSize)

/-- The image with these bytes from block `lba` on. -/
def Blockdev.withBytesFrom (dev : Blockdev) (lba : ℕ) (bytes : ℕ → UInt8) : Blockdev :=
  { dev with
    blocks := fun k ↦
      if k < lba then dev.blocks k
      else Buf.ofView blockSize fun i ↦ bytes ((k - lba) * blockSize + i) }

/-- The image and the storages of the block devices. -/
structure Machine (D : Type) where
  dev : Blockdev
  storage : Storage D

section Model

variable {D : Type}

/-- One turn of a loop: the driver is given `dev->blocks[lba]`, and its answer is ignored. -/
def Machine.transfer (op : Mcsos.Block.RwFn (Storage D)) (m : Machine D) (lba : ℕ) : Machine D :=
  let io := after (op (.ofNat lba) 1) { buf := m.dev.bytesFrom lba, world := m.storage }
  { dev := m.dev.withBytesFrom lba io.buf, storage := io.world }

/-- `m16_sync_to_device` -/
def syncToDevice (blk : Mcsos.Block.Device (Storage D)) (m : Machine D) : Machine D :=
  (List.range m.dev.totalBlocks).foldl (Machine.transfer (blkWrite (some blk))) m

/-- `m16_sync_from_device` -/
def syncFromDevice (blk : Mcsos.Block.Device (Storage D)) (m : Machine D) : Machine D :=
  (List.range m.dev.totalBlocks).foldl (Machine.transfer (blkRead (some blk))) m

/-- `m16_dev_init` and `m16_sync_from_device`, what `m16_kernel_smoke_test` does for a restart. -/
def remount (blk : Mcsos.Block.Device (Storage D)) (m : Machine D) : Machine D :=
  syncFromDevice blk { m with dev := devInit }

end Model

/-! ## What the loops do -/

theorem bytesFrom_add (dev : Blockdev) (lba k : ℕ) {i : ℕ} (hi : i < blockSize) :
    dev.bytesFrom lba (k * blockSize + i) = (dev.blocks (lba + k)).get i := by
  have h1 : (k * blockSize + i) / blockSize = k := by
    simp only [blockSize] at hi ⊢
    omega
  have h2 : (k * blockSize + i) % blockSize = i := by
    simp only [blockSize] at hi ⊢
    omega
  rw [Blockdev.bytesFrom, h1, h2]

/-- Replacing the first of the blocks. -/
theorem withBytesFrom_copyAt (dev : Blockdev) (lba : ℕ) (src : ℕ → UInt8) :
    dev.withBytesFrom lba (copyAt (dev.bytesFrom lba) 0 src blockSize)
      = { dev with blocks := Function.update dev.blocks lba (Buf.ofView blockSize src) } := by
  refine congrArg (fun B ↦ { dev with blocks := B }) (funext fun k ↦ ?_)
  by_cases hk : k < lba
  · rw [if_pos hk, Function.update_of_ne hk.ne]
  · rw [if_neg hk]
    refine Buf.ext_get fun i hi ↦ ?_
    rw [Buf.get_ofView_of_lt _ hi]
    by_cases he : k = lba
    · rw [he, Function.update_self, Buf.get_ofView_of_lt _ hi, Nat.sub_self, Nat.zero_mul,
        Nat.zero_add, copyAt_of_mem (Nat.zero_le i) (show i < 0 + blockSize by omega),
        Nat.sub_zero]
    · have h1 : 0 + blockSize ≤ (k - lba) * blockSize + i := by
        have := Nat.le_mul_of_pos_left blockSize (show 0 < k - lba by omega)
        rw [Nat.zero_add]
        exact Nat.le_add_right_of_le this
      rw [Function.update_of_ne he, copyAt_of_not_mem (.inr h1), bytesFrom_add _ _ _ hi,
        Nat.add_sub_cancel' (by omega)]

theorem withBytesFrom_bytesFrom (dev : Blockdev) (lba : ℕ) :
    dev.withBytesFrom lba (dev.bytesFrom lba) = dev := by
  refine congrArg (fun B ↦ { dev with blocks := B }) (funext fun k ↦ ?_)
  by_cases hk : k < lba
  · rw [if_pos hk]
  · rw [if_neg hk]
    refine Buf.ext_get fun i hi ↦ ?_
    rw [Buf.get_ofView_of_lt _ hi, bytesFrom_add _ _ _ hi, Nat.add_sub_cancel' (by omega)]

section Loops

variable {D : Type} [DecidableEq D] {disk : D} {size : UInt64}
  {blk : Mcsos.Block.Device (Storage D)}

/-- The block device has blocks of the right size, and enough of them for the image. -/
structure Fits (disk : D) (size : UInt64) (blk : Mcsos.Block.Device (Storage D)) : Prop where
  init : Mcsos.Block.Ramblk.init disk size 512 = .ok blk
  size_le : maxBlocks * blockSize ≤ size.toNat

theorem toNat_ofNat_lba {lba : ℕ} (h : lba < maxBlocks) : (UInt64.ofNat lba).toNat = lba :=
  UInt64.toNat_ofNat_of_lt' (lt_trans h (by decide))

variable (hfit : Fits disk size blk)

include hfit

theorem Fits.has {lba : ℕ} (h : lba < maxBlocks) : blk.Has (.ofNat lba) 1 := by
  refine ⟨by decide, ?_⟩
  have hle : maxBlocks ≤ size.toNat / 512 := (Nat.le_div_iff_mul_le (by decide)).2 hfit.size_le
  rw [Mcsos.Block.Ramblk.init_eq_ok hfit.init, toNat_ofNat_lba h, UInt64.toNat_div]
  exact le_trans h hle

theorem Fits.transfer_write (m : Machine D) {lba : ℕ} (h : lba < maxBlocks) :
    m.transfer (blkWrite (some blk)) lba = { m with
      storage := Function.update m.storage disk
        (copyAt (m.storage disk) (lba * blockSize) (m.dev.bytesFrom lba) blockSize) } := by
  rw [Machine.transfer, after_of_ok (Mcsos.Block.Ramblk.blkWrite_of_has hfit.init (hfit.has h) _),
    toNat_ofNat_lba h]
  exact congrArg (Machine.mk · _) (withBytesFrom_bytesFrom m.dev lba)

theorem Fits.transfer_read (m : Machine D) {lba : ℕ} (h : lba < maxBlocks) :
    m.transfer (blkRead (some blk)) lba = { m with
      dev := { m.dev with
        blocks := Function.update m.dev.blocks lba
          (Buf.ofView blockSize fun i ↦ m.storage disk (lba * blockSize + i)) } } := by
  rw [Machine.transfer, after_of_ok (Mcsos.Block.Ramblk.blkRead_of_has hfit.init (hfit.has h) _),
    toNat_ofNat_lba h]
  have hsize : (512 : UInt32).toNat = blockSize := rfl
  have hone : (1 : UInt32).toNat * blockSize = blockSize := rfl
  simp only [hsize, hone, withBytesFrom_copyAt]

omit hfit in
/-- Copying a text in two pieces is copying it at once. -/
theorem copyAt_copyAt (dst src : ℕ → UInt8) (m n : ℕ) :
    copyAt (copyAt dst 0 src m) m (fun i ↦ src (m + i)) n = copyAt dst 0 src (m + n) := by
  funext i
  simp only [copyAt, Nat.zero_le, true_and, Nat.zero_add, Nat.sub_zero]
  split
  · rw [if_pos (by omega), Nat.add_sub_cancel' (by omega)]
  · refine if_congr ?_ rfl rfl
    omega

/-- After `n` turns, the first `n` blocks have been saved. -/
theorem Fits.foldl_write (m : Machine D) {n : ℕ} (h : n ≤ maxBlocks) :
    (List.range n).foldl (Machine.transfer (blkWrite (some blk))) m = { m with
      storage := Function.update m.storage disk
        (copyAt (m.storage disk) 0 (m.dev.bytesFrom 0) (n * blockSize)) } := by
  induction n with
  | zero =>
    have hcopy : copyAt (m.storage disk) 0 (m.dev.bytesFrom 0) (0 * blockSize) = m.storage disk :=
      funext fun i ↦ copyAt_of_not_mem (.inr (by omega))
    rw [hcopy, Function.update_eq_self]
    rfl
  | succ n ih =>
    rw [List.range_succ, List.foldl_append, ih (by omega), List.foldl_cons, List.foldl_nil,
      hfit.transfer_write _ h]
    dsimp only
    rw [Function.update_idem, Function.update_self, Nat.succ_mul, ← copyAt_copyAt]
    refine congrArg (fun s ↦ Machine.mk m.dev (Function.update m.storage disk s)) ?_
    refine congrArg (copyAt _ _ · _) (funext fun i ↦ ?_)
    rw [Blockdev.bytesFrom, Blockdev.bytesFrom, Nat.zero_add]
    have h1 : (n * blockSize + i) / blockSize = n + i / blockSize := by
      simp only [blockSize]
      omega
    have h2 : (n * blockSize + i) % blockSize = i % blockSize := by
      simp only [blockSize]
      omega
    rw [h1, h2]

/-- After `n` turns, the first `n` blocks have been loaded. -/
theorem Fits.foldl_read (m : Machine D) {n : ℕ} (h : n ≤ maxBlocks) :
    (List.range n).foldl (Machine.transfer (blkRead (some blk))) m = { m with
      dev := { m.dev with
        blocks := fun k ↦
          if k < n then Buf.ofView blockSize fun i ↦ m.storage disk (k * blockSize + i)
          else m.dev.blocks k } } := by
  induction n with
  | zero => rfl
  | succ n ih =>
    rw [List.range_succ, List.foldl_append, ih (by omega), List.foldl_cons, List.foldl_nil,
      hfit.transfer_read _ h]
    refine congrArg (fun B ↦ Machine.mk { m.dev with blocks := B } m.storage) (funext fun k ↦ ?_)
    by_cases hk : k = n
    · rw [hk, Function.update_self, if_pos n.lt_succ_self]
    · rw [Function.update_of_ne hk]
      refine if_congr ?_ rfl rfl
      omega

theorem Fits.remount_eq (m : Machine D) : remount blk m = { m with
    dev :=
      { blocks := fun k ↦
          if k < maxBlocks then Buf.ofView blockSize fun i ↦ m.storage disk (k * blockSize + i)
          else Buf.zero blockSize
        totalBlocks := maxBlocks
        writes := 0
        failAfter := -1 } } :=
  hfit.foldl_read _ le_rfl

/-- **What has been saved comes back**: after a restart the image has, block for block, what it had
when it was saved. -/
theorem Fits.remount_sync (m : Machine D) (h128 : m.dev.totalBlocks = maxBlocks) {lba : ℕ}
    (h : lba < maxBlocks) :
    (remount blk (syncToDevice blk m)).dev.blocks lba = m.dev.blocks lba := by
  rw [hfit.remount_eq, syncToDevice, h128, hfit.foldl_write _ le_rfl]
  dsimp only
  rw [if_pos h, Function.update_self]
  refine Buf.ext_get fun i hi ↦ ?_
  have hlt : lba * blockSize + i < 0 + maxBlocks * blockSize := by
    simp only [blockSize, maxBlocks] at h hi ⊢
    omega
  rw [Buf.get_ofView_of_lt _ hi, copyAt_of_mem (Nat.zero_le _) hlt, Nat.sub_zero,
    bytesFrom_add _ _ _ hi, Nat.zero_add]

end Loops

/-! ## Only the blocks of the image matter -/

section Image

/-- The addresses of the image. -/
def InImage (lba : ℕ) : Prop := lba < maxBlocks

variable {B B' : ℕ → Block} {d d' : Blockdev} {f : Files}

theorem inodeTable_of_inImage (h : AgreeOn InImage B B') : inodeTable B' = inodeTable B := by
  refine Buf.ext_get fun k hk ↦ ?_
  have hlba : inodeTableLba + k / blockSize < maxBlocks := by
    have : k < 2048 := hk
    have : inodeTableLba = 20 := rfl
    simp only [blockSize, maxBlocks]
    omega
  rw [inodeTable, inodeTable, Buf.get_ofView_of_lt _ hk, Buf.get_ofView_of_lt _ hk, h _ hlba]

theorem FsOk.of_inImage (hB : FsOk B) (h : AgreeOn InImage B B') : FsOk B' := by
  have ht := inodeTable_of_inImage h
  have h0 : B 0 = B' 0 := h 0 (show 0 < maxBlocks by decide)
  have hi : B inodeBitmapLba = B' inodeBitmapLba := h _ (show inodeBitmapLba < maxBlocks by decide)
  have hb : B blockBitmapLba = B' blockBitmapLba := h _ (show blockBitmapLba < maxBlocks by decide)
  have hdir : B rootDirLba = B' rootDirLba := h _ (show rootDirLba < maxBlocks by decide)
  refine ⟨h0 ▸ hB.super, hi ▸ hB.root_marked, ht ▸ hB.root_used, ht ▸ hB.root_kind,
    ht ▸ hB.root_direct, hb ▸ hB.reserved, fun i hlt hu ↦ ?_⟩
  rw [← hdir] at hu
  obtain ⟨a1, a2, a3, a4, a5, a6, a7, a8, a9⟩ := hB.entry i hlt hu
  simp only [inoAt, hi, hb, hdir, ← ht] at a1 a2 a3 a4 a5 a6 a7 a8 a9
  exact ⟨a1, a2, a3, a4, a5, a6, a7, a8, a9⟩

theorem lookup_of_inImage (hB : FsOk B) (h : AgreeOn InImage B B') : lookup B' = lookup B := by
  funext name
  have hdir : B rootDirLba = B' rootDirLba := h _ (show rootDirLba < maxBlocks by decide)
  rw [lookup, lookup, ← hdir]
  cases hf : findDirent (B rootDirLba) name with
  | none => rw [Option.map_none, Option.map_none]
  | some i =>
    obtain ⟨hi, hu, -⟩ := findDirent_some hf
    have hino : inoAt B' i = inoAt B i := by rw [inoAt, inoAt, hdir]
    have ht := inodeTable_of_inImage h
    rw [Option.map_some, Option.map_some, hino]
    refine congrArg some (contents_congr (by rw [ht]) (by rw [ht]) ?_)
    exact (h _ (hB.entry i hi hu).direct_lt).symm

/-- A disk is worth the same with other blocks behind the end of the image. -/
theorem Logical.of_inImage {h : ℕ → Block} (hl : Logical B h) (hB : AgreeOn InImage B B') :
    ∃ h', Logical B' h' ∧ AgreeOn InImage h h' := by
  have hj : AgreeOn InJournal B' B := fun lba hlba ↦
    (hB lba (lt_trans hlba.2 (show inodeBitmapLba < maxBlocks by decide))).symm
  refine ⟨fun lba ↦ if lba < maxBlocks then h lba else B' lba, ?_,
    fun lba hlba ↦ (if_pos hlba).symm⟩
  cases hl with
  | clear hc ha =>
    refine .clear (by rwa [hj journalStart ⟨le_rfl, by decide⟩]) fun lba hlba ↦ ?_
    split
    · rw [← ha lba hlba, hB lba ‹_›]
    · rfl
  | committed tx seq hc ha =>
    refine .committed tx seq (hc.of_agree hj) fun lba hlba ↦ ?_
    split
    · rw [← ha lba hlba]
      exact applyAll_congr fun _ ↦ (hB lba ‹_›).symm
    · refine applyAll_of_forall_ne fun w hw hwx ↦ ?_
      obtain ⟨r, hr, rfl⟩ := List.mem_map.1 hw
      exact ‹¬ lba < maxBlocks› (hwx ▸ hc.ok.target_lt r hr)

theorem Holds.of_inImage (hd : Holds d f) (h128 : d'.totalBlocks = maxBlocks)
    (h : AgreeOn InImage d.blocks d'.blocks) : Holds d' f := by
  obtain ⟨-, B, hl, hok, hf⟩ := hd
  obtain ⟨B', hl', hB⟩ := hl.of_inImage h
  exact ⟨h128, B', hl', hok.of_inImage hB, fun s ↦ by rw [lookup_of_inImage hok hB, hf]⟩

end Image

/-! ## Runs -/

/-- What happens to a machine whose image is saved on the device `disk`. -/
inductive Event {D : Type} (disk : D)
  /-- A call, which finds that the image accepts `k` more writes. -/
  | call (c : Call) (k : ℤ)
  | sync
  | remount
  /-- Some other device is written to. -/
  | elsewhere (d : D) (hd : d ≠ disk) (bytes : ℕ → UInt8)

section Runs

variable {D : Type} [DecidableEq D] {disk : D} {size : UInt64}

def Event.run (blk : Mcsos.Block.Device (Storage D)) (m : Machine D) : Event disk → Machine D
  | .call c k => { m with dev := c.run (m.dev.withFailAfter k) }
  | .sync => syncToDevice blk m
  | .remount => M16.remount blk m
  | .elsewhere d _ bytes => { m with storage := Function.update m.storage d bytes }

/-- The machine after a run. -/
def runAll (blk : Mcsos.Block.Device (Storage D)) (m : Machine D) (es : List (Event disk)) :
    Machine D :=
  es.foldl (Event.run blk) m

/-- The machines that runs lead to once the image has been formatted and saved. -/
inductive Saved (disk : D) (blk : Mcsos.Block.Device (Storage D)) : Machine D → Prop
  | start (k : ℤ) {dev : Blockdev} (h : format (devInit.withFailAfter k) = .ok () dev)
      (storage : Storage D) : Saved disk blk (syncToDevice blk { dev, storage })
  | event (e : Event disk) {m : Machine D} (h : Saved disk blk m) : Saved disk blk (e.run blk m)

variable {blk : Mcsos.Block.Device (Storage D)} {m : Machine D} {f g : Files}

/-- The image holds the files `f`, and a restart would bring back the files `g`. -/
structure Stands (blk : Mcsos.Block.Device (Storage D)) (m : Machine D) (f g : Files) : Prop where
  image : Holds m.dev f
  saved : Holds (remount blk m).dev g

variable (hfit : Fits disk size blk)

include hfit

/-- A restart looks at the storage of one device only. -/
theorem Fits.remount_congr {m' : Machine D} (h : m'.storage disk = m.storage disk) :
    (remount blk m').dev = (remount blk m).dev := by
  rw [hfit.remount_eq, hfit.remount_eq, h]

theorem Fits.stands_sync (hd : Holds m.dev f) : Stands blk (syncToDevice blk m) f f := by
  refine ⟨?_, hd.of_inImage ?_ fun lba hlba ↦ (hfit.remount_sync m hd.1 hlba).symm⟩
  · rw [syncToDevice, hd.1, hfit.foldl_write m le_rfl]
    exact hd
  · rw [hfit.remount_eq]

theorem Stands.remount (hs : Stands blk m f g) : Stands blk (remount blk m) g g := by
  refine ⟨hs.saved, ?_⟩
  rw [hfit.remount_congr (m := m) (by rw [hfit.remount_eq])]
  exact hs.saved

theorem Stands.run (hs : Stands blk m f g) (e : Event disk) :
    ∃ f' g', Stands blk (e.run blk m) f' g' ∧ (e ≠ .sync → g' = g) := by
  cases e with
  | call c k =>
    obtain ⟨f', hf'⟩ := c.holds (hs.image.withFailAfter k)
    exact ⟨f', g, ⟨hf', hs.saved⟩, fun _ ↦ rfl⟩
  | sync => exact ⟨f, f, hfit.stands_sync hs.image, fun h ↦ absurd rfl h⟩
  | remount => exact ⟨g, g, hs.remount hfit, fun _ ↦ rfl⟩
  | elsewhere d hd bytes =>
    refine ⟨f, g, ⟨hs.image, ?_⟩, fun _ ↦ rfl⟩
    rw [hfit.remount_congr (m := m) (Function.update_of_ne hd.symm _ _)]
    exact hs.saved

theorem Saved.stands (h : Saved disk blk m) : ∃ f g, Stands blk m f g := by
  induction h with
  | start k h storage => exact ⟨_, _, hfit.stands_sync (mounted_of_format rfl h).holds⟩
  | event e _ ih =>
    obtain ⟨f, g, hs⟩ := ih
    obtain ⟨f', g', hs', -⟩ := hs.run hfit e
    exact ⟨f', g', hs'⟩

/-- Until the image is saved again, a restart brings back the same files. -/
theorem Stands.runAll (hs : Stands blk m f g) {es : List (Event disk)} (hes : .sync ∉ es) :
    ∃ f', Stands blk (runAll blk m es) f' g := by
  induction es generalizing m f with
  | nil => exact ⟨f, hs⟩
  | cons e es ih =>
    obtain ⟨f', g', hs', hg⟩ := hs.run hfit e
    obtain rfl := hg fun h ↦ hes (h ▸ List.mem_cons_self)
    exact ih hs' fun h ↦ hes (List.mem_cons_of_mem _ h)

omit hfit in
/-- Mounting an image that accepts writes. -/
theorem Holds.mount {d : Blockdev} (hd : Holds d f) (hf : d.failAfter = -1) :
    ∃ sb d', mount d = .ok sb d' ∧ Mounted d' f := by
  obtain ⟨d', hr, hm⟩ := hd.recover
  have hd' : d.withFailAfter (-1) = d := by rw [Blockdev.withFailAfter, ← hf]
  rw [hd'] at hr
  exact ⟨_, d', mount_of_ok (dataStart_le hm.total) hr hm.ok.super, hm⟩

/-- **A restart brings back what was saved last.**  Whatever has happened to the machine before the
image was saved, and whatever happens to it afterwards (calls that are cut off, restarts, writes to
other devices) as long as the image is not saved again: after a restart the file system can be
mounted and passes its check, and its files are exactly those of the image when it was saved. -/
theorem remount_restores_last_sync (hm : Saved disk blk m) {es : List (Event disk)}
    (hes : .sync ∉ es) :
    ∃ sb d, mount (remount blk (runAll blk (syncToDevice blk m) es)).dev = .ok sb d ∧
      fsck d = .ok () d ∧
      ∀ (name : CString) (cap : ℕ), blockSize ≤ cap →
        readFile name.view cap d = match abs m.dev name with
          | some bytes => .ok bytes d
          | none => .error .noent d := by
  obtain ⟨f, g, hs⟩ := hm.stands hfit
  obtain ⟨f', hs'⟩ := (hfit.stands_sync hs.image).runAll hfit hes
  obtain ⟨sb, d, hmount, hd⟩ := hs'.saved.mount (by rw [hfit.remount_eq])
  refine ⟨sb, d, hmount, fsck_of_fsOk hd.total hd.clear hd.ok, fun name cap hcap ↦ ?_⟩
  have hread := readFile_of_fsOk hd.total hd.clear hd.ok name.view hcap
  rw [hd.files] at hread
  rw [hs.image.abs_eq]
  refine hread.trans ?_
  cases f name <;> rfl

end Runs

/-- A file is saved, and the creation of another one is cut off after 20 writes: a restart brings
back what was saved. -/
theorem remount_restores_last_sync_cut_off :
    ∃ (blk : Mcsos.Block.Device (Storage Unit)) (m : Machine Unit),
      Fits () 65536 blk ∧ Saved () blk m ∧
      ∃ sb d, mount (remount blk (runAll blk (syncToDevice blk m)
          ([.call (.writeFileEx (.ofBytes [98]) (fun _ ↦ 2) 7 0) 20] : List (Event ())))).dev
            = .ok sb d ∧ fsck d = .ok () d ∧
        readFile (CString.ofBytes [97]).view 512 d = match abs m.dev (.ofBytes [97]) with
          | some bytes => .ok bytes d
          | none => .error .noent d := by
  obtain ⟨blk, hblk⟩ : ∃ blk, Mcsos.Block.Ramblk.init () 65536 512 = .ok blk := ⟨_, rfl⟩
  obtain ⟨dev, hdev⟩ :=
    exists_format_eq_ok (d := devInit.withFailAfter (-1)) (by decide) (by decide)
  have hfit : Fits () 65536 blk := ⟨hblk, by decide⟩
  have h0 : Saved () blk (syncToDevice blk ⟨dev, fun _ _ ↦ 0⟩) := .start (-1) hdev _
  have hm := Saved.event (.call (.writeFileEx (.ofBytes [97]) (fun _ ↦ 1) 100 0) (-1)) h0
  have hes : Event.sync ∉
      ([.call (.writeFileEx (.ofBytes [98]) (fun _ ↦ 2) 7 0) 20] : List (Event ())) := by simp
  obtain ⟨sb, d, h1, h2, h3⟩ := remount_restores_last_sync hfit hm hes
  exact ⟨blk, _, hfit, hm, sb, d, h1, h2, h3 _ 512 le_rfl⟩

end M16
end Mcsos
