import Mcsos.Lib.Bytes
import Mcsos.Lib.Outcome

/-!
# Block devices

The block layer of `block.c`: a device is a size and a table of driver functions, and every access
is checked against the size before the driver sees it.

Drivers are code of their own.  They work on a buffer and on the state of the world outside, and
`Lawful` says what the rest of the block layer expects of them: that a read that succeeds delivers a
block, that a write that succeeds replaces one, and that a failure does no damage to the blocks.
-/

set_option autoImplicit false

namespace Mcsos
namespace Block

open Bytes Program

/-- The error values of `mcsos_blk_status_t`. -/
inductive Err
  | einval
  | erange
  | efull
  | eio
  | enodev
  deriving DecidableEq, Repr

/-- What a driver function works on: the buffer it was given and the world it lives in. -/
structure Io (σ : Type) where
  buf : ℕ → UInt8
  world : σ

/-- `mcsos_blk_rw_fn`, for a given device. -/
abbrev RwFn (σ : Type) : Type := UInt64 → UInt32 → EStateM Err (Io σ) Unit

/-- `mcsos_blk_ops_t`; a driver need not have all of the functions. -/
structure Ops (σ : Type) where
  read : Option (RwFn σ)
  write : Option (RwFn σ)

/-- `mcsos_blk_device_t` -/
structure Device (σ : Type) where
  blockSize : UInt32
  blockCount : UInt64
  ops : Option (Ops σ)

variable {σ τ : Type}

/-- `mcsos_blk_validate_range`, which hands on the driver functions it has made sure of. -/
def validateRange (dev : Option (Device σ)) (lba : UInt64) (count : UInt32) :
    EStateM Err τ (Ops σ) := do
  let dev ← expect dev .einval
  failIf (count = 0) .einval
  let ops ← expect dev.ops .einval
  failIf (dev.blockCount ≤ lba) .erange
  failIf (dev.blockCount - lba < count.toUInt64) .erange
  pure ops

/-- `mcsos_blk_read` -/
def blkRead (dev : Option (Device σ)) (lba : UInt64) (count : UInt32) :
    EStateM Err (Io σ) Unit := do
  let ops ← validateRange dev lba count
  let read ← expect ops.read .einval
  read lba count

/-- `mcsos_blk_write` -/
def blkWrite (dev : Option (Device σ)) (lba : UInt64) (count : UInt32) :
    EStateM Err (Io σ) Unit := do
  let ops ← validateRange dev lba count
  let write ← expect ops.write .einval
  write lba count

/-- The device has `count` blocks from `lba` on, and that is not none at all. -/
structure Device.Has (dev : Device σ) (lba : UInt64) (count : UInt32) : Prop where
  pos : 0 < count.toNat
  le : lba.toNat + count.toNat ≤ dev.blockCount.toNat

section Range

variable {dev : Device σ} {ops : Ops σ} {lba : UInt64} {count : UInt32}

theorem Device.has_iff_toNat : dev.Has lba count ↔
    0 < count.toNat ∧ lba.toNat + count.toNat ≤ dev.blockCount.toNat :=
  ⟨fun h ↦ ⟨h.pos, h.le⟩, fun h ↦ ⟨h.1, h.2⟩⟩

theorem Device.has_one (h : lba < dev.blockCount) : dev.Has lba 1 :=
  ⟨by decide, UInt64.lt_iff_toNat_lt.1 h⟩

theorem Device.Has.lt (h : dev.Has lba count) : lba < dev.blockCount := by
  have := h.pos
  have := h.le
  rw [UInt64.lt_iff_toNat_lt]
  omega

/-- The two checks against the size of the device make sure that it has the blocks, since the
difference they are written with does not wrap. -/
theorem Device.has_iff : dev.Has lba count ↔
    count ≠ 0 ∧ ¬ dev.blockCount ≤ lba ∧ ¬ dev.blockCount - lba < count.toUInt64 := by
  have hcount : count ≠ 0 ↔ 0 < count.toNat := by
    rw [Nat.pos_iff_ne_zero, ne_eq, ne_eq, ← UInt32.toNat_inj, UInt32.toNat_zero]
  rw [hcount, UInt64.not_le]
  constructor
  · intro h
    have hle := h.le
    refine ⟨h.pos, h.lt, ?_⟩
    rw [UInt64.lt_iff_toNat_lt, UInt64.toNat_sub_of_le _ _ (UInt64.le_of_lt h.lt),
      UInt32.toNat_toUInt64]
    omega
  · rintro ⟨hpos, hlt, hroom⟩
    rw [UInt64.lt_iff_toNat_lt, UInt64.toNat_sub_of_le _ _ (UInt64.le_of_lt hlt),
      UInt32.toNat_toUInt64] at hroom
    rw [UInt64.lt_iff_toNat_lt] at hlt
    exact ⟨hpos, by omega⟩

/-- Blocks that the device has are in range. -/
theorem validateRange_of_has (hops : dev.ops = some ops) (h : dev.Has lba count) (t : τ) :
    validateRange (some dev) lba count t = .ok ops t := by
  obtain ⟨hcount, hlba, hroom⟩ := Device.has_iff.1 h
  rw [validateRange, bind_of_ok (expect_some dev _ t), bind_of_ok (failIf_of_neg hcount _ t),
    hops, bind_of_ok (expect_some ops _ t), bind_of_ok (failIf_of_neg hlba _ t),
    bind_of_ok (failIf_of_neg hroom _ t)]
  rfl

theorem validateRange_ends {dev : Option (Device σ)} {t : τ} :
    Ends (validateRange dev lba count) t
      (fun ops t' ↦ t' = t ∧ ∃ d, dev = some d ∧ d.ops = some ops ∧ d.Has lba count)
      (fun _ t' ↦ t' = t) := by
  refine ends_expect (fun _ ↦ rfl) fun d hd ↦ ends_failIf (fun _ ↦ rfl) fun hcount ↦ ?_
  refine ends_expect (fun _ ↦ rfl) fun ops hops ↦ ends_failIf (fun _ ↦ rfl) fun hlba ↦ ?_
  refine ends_failIf (fun _ ↦ rfl) fun hroom ↦ ends_pure ⟨rfl, d, hd, hops, ?_⟩
  exact Device.has_iff.2 ⟨hcount, hlba, hroom⟩

theorem validateRange_of_not_has (h : ¬ dev.Has lba count) (t : τ) :
    ∃ e, validateRange (some dev) lba count t = .error e t := by
  have hends : Ends (validateRange (some dev) lba count) t _ _ := validateRange_ends
  cases hv : validateRange (some dev) lba count t with
  | ok ops t' =>
    obtain ⟨-, _, ⟨⟩, -, h'⟩ := hends.of_eq_ok hv
    exact absurd h' h
  | error e t' =>
    rw [hends.of_eq_error hv]
    exact ⟨e, rfl⟩

theorem blkRead_of_not_has (h : ¬ dev.Has lba count) (io : Io σ) :
    ∃ e, blkRead (some dev) lba count io = .error e io := by
  obtain ⟨e, he⟩ := validateRange_of_not_has h io
  exact ⟨e, bind_of_error he⟩

theorem blkWrite_of_not_has (h : ¬ dev.Has lba count) (io : Io σ) :
    ∃ e, blkWrite (some dev) lba count io = .error e io := by
  obtain ⟨e, he⟩ := validateRange_of_not_has h io
  exact ⟨e, bind_of_error he⟩

section Either

-- a call that succeeds if the device has the blocks, and otherwise fails without an effect
variable {x : EStateM Err (Io σ) Unit} {io io' : Io σ} (hok : dev.Has lba count → x io = .ok () io')
  (herror : ¬ dev.Has lba count → ∃ e, x io = .error e io)

include hok herror

theorem errorOf_eq_none_iff_has : errorOf x io = none ↔ dev.Has lba count := by
  by_cases h : dev.Has lba count
  · exact iff_of_true (errorOf_of_ok (hok h)) h
  · obtain ⟨e, he⟩ := herror h
    rw [errorOf_of_error he]
    exact iff_of_false (Option.some_ne_none e) h

theorem eq_of_eq_error {e : Err} {io'' : Io σ} (hx : x io = .error e io'') : io'' = io := by
  by_cases h : dev.Has lba count
  · rw [hok h] at hx
    cases hx
  · obtain ⟨e', he'⟩ := herror h
    rw [he'] at hx
    cases hx
    rfl

end Either

end Range

/-! ## What a driver promises -/

section Lawful

variable {D : Type} [DecidableEq D]

/-- The devices keep their blocks, of `bs` bytes each, in the world, where `block` finds them.  A
failed read may have scribbled on its buffer, but no failure changes a block. -/
structure Lawful (devs : D → Device σ) (bs : ℕ) (block : σ → D × UInt64 → Buf bs) : Prop where
  size : ∀ d, (devs d).blockSize.toNat = bs
  read : ∀ {d ops op lba io}, (devs d).ops = some ops → ops.read = some op →
    lba < (devs d).blockCount → Ends (op lba 1) io
      (fun _ io' ↦ block io'.world = block io.world ∧
        Buf.ofView bs io'.buf = block io.world (d, lba))
      (fun _ io' ↦ block io'.world = block io.world)
  write : ∀ {d ops op lba io}, (devs d).ops = some ops → ops.write = some op →
    lba < (devs d).blockCount → Ends (op lba 1) io
      (fun _ io' ↦ io'.buf = io.buf ∧
        block io'.world = Function.update (block io.world) (d, lba) (Buf.ofView bs io.buf))
      (fun _ io' ↦ io'.buf = io.buf ∧ block io'.world = block io.world)

variable {devs : D → Device σ} {bs : ℕ} {block : σ → D × UInt64 → Buf bs}

/-- A read of one block, whatever the driver's state. -/
theorem Lawful.blkRead_ends (h : Lawful devs bs block) (d : D) (lba : UInt64) (io : Io σ) :
    Ends (blkRead (some (devs d)) lba 1) io
      (fun _ io' ↦ block io'.world = block io.world ∧
        Buf.ofView bs io'.buf = block io.world (d, lba))
      (fun _ io' ↦ block io'.world = block io.world) := by
  refine ends_bind (validateRange_ends.mono (fun _ _ h ↦ h) fun _ t' ht ↦ by rw [ht]) ?_
  rintro ops _ ⟨rfl, _, ⟨⟩, hops, hlba⟩
  exact ends_expect (fun _ ↦ rfl) fun op hop ↦ h.read hops hop hlba.lt

/-- A write of one block. -/
theorem Lawful.blkWrite_ends (h : Lawful devs bs block) (d : D) (lba : UInt64) (io : Io σ) :
    Ends (blkWrite (some (devs d)) lba 1) io
      (fun _ io' ↦ io'.buf = io.buf ∧
        block io'.world = Function.update (block io.world) (d, lba) (Buf.ofView bs io.buf))
      (fun _ io' ↦ io'.buf = io.buf ∧ block io'.world = block io.world) := by
  refine ends_bind
    (validateRange_ends.mono (fun _ _ h ↦ h) fun _ t' ht ↦ by rw [ht]; exact ⟨rfl, rfl⟩)
    ?_
  rintro ops _ ⟨rfl, _, ⟨⟩, hops, hlba⟩
  exact ends_expect (fun _ ↦ ⟨rfl, rfl⟩) fun op hop ↦ h.write hops hop hlba.lt

end Lawful

end Block
end Mcsos
