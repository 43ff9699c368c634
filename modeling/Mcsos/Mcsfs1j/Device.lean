import Mcsos.Lib.Bytes
import Mcsos.Lib.Program
import Mcsos.Lib.WriteLog
import Mathlib.Tactic.Common

/-!
# The block device under the journalled file system

`kernel/fs/mcsfs1j/m16_mcsfs_journal.c` keeps a whole disk in memory, as 128 blocks of 512 bytes,
and wraps every access in `m16_read_block` and `m16_write_block`.  The device can be told to stop
accepting writes: `fail_after` counts down with every write, and at zero every further write is
refused with `M16_E_IO` and leaves its block alone.  That is the source's own model of a power
loss, and all crash statements of this development are about it.

Functions that can fail are programs of `EStateM Err Blockdev`: an error carries the device as it
was when the error occurred, just as the C functions return early and leave what they have written
so far.

The one fact the crash proofs use is that a batch of writes is cut off at `fail_after`:
`writeAll_of_accepts` says what happens when the device accepts them all and
`writeAll_of_not_accepts` what happens when it does not — the first `fail_after` of them have
reached the disk, the others have not, and the result is `M16_E_IO`.
-/

set_option autoImplicit false

namespace Mcsos
namespace M16

open Bytes WriteLog Program

/-! ## Layout -/

@[simp] abbrev blockSize : ℕ := 512
@[simp] abbrev maxBlocks : ℕ := 128
@[simp] abbrev maxInodes : ℕ := 16
@[simp] abbrev maxName : ℕ := 32
@[simp] abbrev magic : ℕ := 0x4d43534631564a31
@[simp] abbrev jmagic : ℕ := 0x4d43534a524e4c31
@[simp] abbrev version : ℕ := 1
@[simp] abbrev jEmpty : ℕ := 0
@[simp] abbrev jCommitted : ℕ := 2
@[simp] abbrev journalMaxRecords : ℕ := 8
@[simp] abbrev journalStart : ℕ := 1
@[simp] abbrev journalBlocks : ℕ := 1 + 2 * journalMaxRecords
@[simp] abbrev inodeBitmapLba : ℕ := journalStart + journalBlocks
@[simp] abbrev blockBitmapLba : ℕ := inodeBitmapLba + 1
@[simp] abbrev inodeTableLba : ℕ := blockBitmapLba + 1
@[simp] abbrev inodeTableBlocks : ℕ := 4
@[simp] abbrev rootDirLba : ℕ := inodeTableLba + inodeTableBlocks
@[simp] abbrev dataStartLba : ℕ := rootDirLba + 1

/-- The error codes; `M16_E_OK` is the successful result of a program. -/
inductive Err
  | inval | io | nospc | exist | noent | corrupt | toolong
  deriving DecidableEq, Repr

/-- One disk block. -/
abbrev Block : Type := Buf blockSize

/-- `struct m16_blockdev`.  Only addresses below `maxBlocks` are ever accessed. -/
structure Blockdev where
  blocks : ℕ → Block
  totalBlocks : ℕ
  writes : UInt64
  /-- How many more writes the device accepts; negative disables fault injection. -/
  failAfter : ℤ

/-- A C function that may return an error code, with the device it leaves behind. -/
abbrev M : Type → Type := EStateM Err Blockdev

/-! ## Block access -/

/-- `m16_valid_lba` -/
def validLba (dev : Blockdev) (lba : ℕ) : Bool := lba < dev.totalBlocks && lba < maxBlocks

/-- `m16_read_block` -/
def readBlock (lba : ℕ) : M Block := fun dev ↦
  if validLba dev lba then .ok (dev.blocks lba) dev else .error .inval dev

/-- A write the device has accepted. -/
def Blockdev.store (dev : Blockdev) (lba : ℕ) (b : Block) : Blockdev :=
  { dev with
    blocks := Function.update dev.blocks lba b
    writes := dev.writes + 1
    failAfter := if 0 < dev.failAfter then dev.failAfter - 1 else dev.failAfter }

/-- `m16_write_block` -/
def writeBlock (lba : ℕ) (b : Block) : M Unit := fun dev ↦
  if !validLba dev lba then .error .inval dev
  else if dev.failAfter = 0 then .error .io dev
  else .ok () (dev.store lba b)

/-- `m16_dev_init` -/
def devInit : Blockdev :=
  { blocks := fun _ ↦ Buf.zero blockSize, totalBlocks := maxBlocks, writes := 0, failAfter := -1 }

/-! ## Checksums -/

/-- `m16_checksum` (32-bit FNV-1a) -/
def checksum (bytes : List UInt8) : UInt32 :=
  bytes.foldl (fun h b ↦ (h ^^^ b.toUInt32) * 16777619) 2166136261

/-- The checksum of a whole buffer. -/
def checksumBuf {n : ℕ} (b : Buf n) : UInt32 := checksum (List.ofFn b)

/-! ## Batches of writes -/

/-- Write blocks one after the other, stopping at the first error. -/
def writeAll : List (ℕ × Block) → M Unit
  | [] => pure ()
  | (lba, b) :: ws => do
    writeBlock lba b
    writeAll ws

/-- The device after it has accepted a whole batch. -/
def Blockdev.storeAll (dev : Blockdev) (ws : List (ℕ × Block)) : Blockdev :=
  ws.foldl (fun d w ↦ d.store w.1 w.2) dev

section Device

variable {dev : Blockdev} {lba : ℕ}

theorem validLba_iff : validLba dev lba = true ↔ lba < dev.totalBlocks ∧ lba < maxBlocks := by
  rw [validLba, Bool.and_eq_true, decide_eq_true_iff, decide_eq_true_iff]

theorem readBlock_of_valid (h : validLba dev lba = true) :
    readBlock lba dev = .ok (dev.blocks lba) dev := by
  rw [readBlock, if_pos h]

theorem writeBlock_of_ne_zero {b : Block} (h : validLba dev lba = true) (hf : dev.failAfter ≠ 0) :
    writeBlock lba b dev = .ok () (dev.store lba b) := by
  simp [writeBlock, h, hf]

theorem writeBlock_of_eq_zero {b : Block} (h : validLba dev lba = true) (hf : dev.failAfter = 0) :
    writeBlock lba b dev = .error .io dev := by
  simp [writeBlock, h, hf]

/-- A write that succeeds is to a block of the device, which accepts it. -/
theorem writeBlock_eq_ok {b : Block} {u : Unit} {dev' : Blockdev} :
    writeBlock lba b dev = .ok u dev' ↔
      validLba dev lba = true ∧ dev.failAfter ≠ 0 ∧ dev' = dev.store lba b := by
  constructor
  · intro h
    rw [writeBlock] at h
    split at h
    · cases h
    · rename_i hv
      split at h
      · cases h
      · cases h
        exact ⟨by simpa using hv, ‹_›, rfl⟩
  · rintro ⟨hv, hf, rfl⟩
    exact writeBlock_of_ne_zero hv hf

theorem eq_store_of_writeBlock_eq_ok {b : Block} {u : Unit} {dev' : Blockdev}
    (h : writeBlock lba b dev = .ok u dev') : dev' = dev.store lba b :=
  (writeBlock_eq_ok.1 h).2.2

@[simp] theorem store_blocks (dev : Blockdev) (lba : ℕ) (b : Block) :
    (dev.store lba b).blocks = Function.update dev.blocks lba b := rfl

@[simp] theorem store_totalBlocks (dev : Blockdev) (lba : ℕ) (b : Block) :
    (dev.store lba b).totalBlocks = dev.totalBlocks := rfl

theorem store_failAfter (dev : Blockdev) (lba : ℕ) (b : Block) : (dev.store lba b).failAfter
    = if 0 < dev.failAfter then dev.failAfter - 1 else dev.failAfter := rfl

@[simp] theorem validLba_store (dev : Blockdev) (lba : ℕ) (b : Block) :
    validLba (dev.store lba b) = validLba dev := rfl

@[simp] theorem storeAll_nil (dev : Blockdev) : dev.storeAll [] = dev := rfl

@[simp] theorem storeAll_cons (dev : Blockdev) (w : ℕ × Block) (ws : List (ℕ × Block)) :
    dev.storeAll (w :: ws) = (dev.store w.1 w.2).storeAll ws := rfl

@[simp] theorem storeAll_blocks (ws : List (ℕ × Block)) (dev : Blockdev) :
    (dev.storeAll ws).blocks = applyAll ws dev.blocks := by
  induction ws generalizing dev with
  | nil => rfl
  | cons w ws ih => rw [storeAll_cons, ih, store_blocks, applyAll_cons]

@[simp] theorem storeAll_totalBlocks (ws : List (ℕ × Block)) (dev : Blockdev) :
    (dev.storeAll ws).totalBlocks = dev.totalBlocks := by
  induction ws generalizing dev with
  | nil => rfl
  | cons w ws ih => rw [storeAll_cons, ih, store_totalBlocks]

@[simp] theorem validLba_storeAll (ws : List (ℕ × Block)) (dev : Blockdev) :
    validLba (dev.storeAll ws) = validLba dev := by
  funext lba
  rw [validLba, validLba, storeAll_totalBlocks]

/-- Without fault injection a write leaves it off. -/
theorem storeAll_failAfter (ws : List (ℕ × Block)) (h : dev.failAfter < 0) :
    (dev.storeAll ws).failAfter = dev.failAfter := by
  induction ws generalizing dev with
  | nil => rfl
  | cons w ws ih =>
    have hstore : (dev.store w.1 w.2).failAfter = dev.failAfter := by
      rw [store_failAfter, if_neg (not_lt.2 h.le)]
    rw [storeAll_cons, ih (hstore.trans_lt h), hstore]

/-- Does the device accept `n` more writes? -/
def Blockdev.Accepts (dev : Blockdev) (n : ℕ) : Prop := dev.failAfter < 0 ∨ (n : ℤ) ≤ dev.failAfter

theorem accepts_store {n : ℕ} (h : dev.Accepts (n + 1)) (lba : ℕ) (b : Block) :
    (dev.store lba b).Accepts n := by
  rw [Blockdev.Accepts] at h
  rw [Blockdev.Accepts, store_failAfter]
  split <;> omega

theorem not_accepts_store {n : ℕ} (h : ¬ dev.Accepts (n + 1)) (h0 : dev.failAfter ≠ 0)
    (lba : ℕ) (b : Block) :
    ¬ (dev.store lba b).Accepts n ∧
      (dev.store lba b).failAfter.toNat + 1 = dev.failAfter.toNat := by
  rw [Blockdev.Accepts] at h
  rw [Blockdev.Accepts, store_failAfter]
  split <;> omega

/-- A batch the device accepts in full. -/
theorem writeAll_of_accepts {ws : List (ℕ × Block)} (hv : ∀ w ∈ ws, validLba dev w.1 = true)
    (hf : dev.Accepts ws.length) : writeAll ws dev = .ok () (dev.storeAll ws) := by
  induction ws generalizing dev with
  | nil => rfl
  | cons w ws ih =>
    have h0 : dev.failAfter ≠ 0 := by
      rw [Blockdev.Accepts, List.length_cons] at hf
      omega
    rw [writeAll, bind_of_ok (writeBlock_of_ne_zero (hv w List.mem_cons_self) h0)]
    exact ih (fun v hvm ↦ hv v (List.mem_cons_of_mem _ hvm)) (accepts_store hf _ _)

/-- A batch that is cut off: its first `failAfter` writes are on the disk, the device is down. -/
theorem writeAll_of_not_accepts {ws : List (ℕ × Block)} (hv : ∀ w ∈ ws, validLba dev w.1 = true)
    (hf : ¬ dev.Accepts ws.length) :
    writeAll ws dev = .error .io (dev.storeAll (ws.take dev.failAfter.toNat)) := by
  induction ws generalizing dev with
  | nil =>
    rw [Blockdev.Accepts, List.length_nil] at hf
    omega
  | cons w ws ih =>
    have hvw := hv w List.mem_cons_self
    rw [writeAll]
    by_cases h0 : dev.failAfter = 0
    · rw [bind_of_error (writeBlock_of_eq_zero hvw h0), h0, Int.toNat_zero, List.take_zero,
        storeAll_nil]
    · rw [List.length_cons] at hf
      obtain ⟨hna, hcount⟩ := not_accepts_store hf h0 w.1 w.2
      rw [bind_of_ok (writeBlock_of_ne_zero hvw h0), ← hcount, List.take_succ_cons, storeAll_cons]
      exact ih (fun v hvm ↦ hv v (List.mem_cons_of_mem _ hvm)) hna

end Device

end M16
end Mcsos
