import Mcsos.Block.Coherence

/-!
# The RAM block device

The driver of `ramblk.c`, for devices that each have a storage of their own.  Offsets are computed
in 64 bits.  For a block of the device they do not wrap, since the block count was computed from
the storage size (`toNat_byteOffset`), so the driver is lawful (`ramblk_lawful`).
-/

set_option autoImplicit false

namespace Mcsos
namespace Block
namespace Ramblk

open Bytes Program

/-- The storages of the devices. -/
abbrev Storage (D : Type) : Type := D → ℕ → UInt8

section Model

variable {D : Type} [DecidableEq D]

/-- `mcsos_ramblk_rw` on the device `d` -/
def rw (d : D) (storageSize : UInt64) (blockSize : UInt32) (isWrite : Bool) : RwFn (Storage D) :=
  fun lba count ↦ do
    let byteOffset := lba * blockSize.toUInt64
    let byteCount := count.toUInt64 * blockSize.toUInt64
    failIf (storageSize < byteOffset ∨ storageSize - byteOffset < byteCount) .erange
    if isWrite then
      modify fun io ↦
        let storage := copyAt (io.world d) byteOffset.toNat io.buf byteCount.toNat
        { io with world := Function.update io.world d storage }
    else
      modify fun io ↦
        let storage := fun i ↦ io.world d (byteOffset.toNat + i)
        { io with buf := copyAt io.buf 0 storage byteCount.toNat }

/-- `mcsos_is_power_of_two_u32_local` -/
def isPowerOfTwo (value : UInt32) : Bool := value ≠ 0 ∧ value &&& (value - 1) = 0

/-- `mcsos_ramblk_init` -/
def init (d : D) (storageSize : UInt64) (blockSize : UInt32) : Except Err (Device (Storage D)) :=
  if blockSize < 512 ∨ !isPowerOfTwo blockSize then .error .einval
  else if storageSize < blockSize.toUInt64 ∨ storageSize % blockSize.toUInt64 ≠ 0 then
    .error .einval
  else .ok
    { blockSize := blockSize
      blockCount := storageSize / blockSize.toUInt64
      ops := some
        { read := some (rw d storageSize blockSize false)
          write := some (rw d storageSize blockSize true) } }

end Model

/-- Block `k.2` of the device `k.1`. -/
def block {D : Type} (bs : ℕ) (w : Storage D) (k : D × UInt64) : Buf bs :=
  Buf.ofView bs fun i ↦ w k.1 (k.2.toNat * bs + i)

section Lawful

variable {D : Type} [DecidableEq D] {d : D} {size lba : UInt64} {bs count : UInt32}

/-- The blocks of a device lie inside its storage. -/
theorem bytes_le_size (h : lba.toNat + count.toNat ≤ (size / bs.toUInt64).toNat) :
    (lba.toNat + count.toNat) * bs.toNat ≤ size.toNat := by
  rw [UInt64.toNat_div, UInt32.toNat_toUInt64] at h
  exact le_trans (Nat.mul_le_mul_right _ h) (Nat.div_mul_le_self _ _)

theorem block_le_size (hlba : lba < size / bs.toUInt64) :
    (lba.toNat + (1 : UInt32).toNat) * bs.toNat ≤ size.toNat :=
  bytes_le_size (UInt64.lt_iff_toNat_lt.1 hlba)

/-- The offset of a block does not wrap. -/
theorem toNat_byteOffset (h : (lba.toNat + count.toNat) * bs.toNat ≤ size.toNat) :
    (lba * bs.toUInt64).toNat = lba.toNat * bs.toNat := by
  have hsize := size.toNat_lt
  rw [Nat.add_mul] at h
  rw [UInt64.toNat_mul, UInt32.toNat_toUInt64, Nat.mod_eq_of_lt (by omega)]

/-- Neither does the number of bytes, for any number of blocks. -/
theorem toNat_byteCount (count bs : UInt32) :
    (count.toUInt64 * bs.toUInt64).toNat = count.toNat * bs.toNat := by
  have h : count.toNat * bs.toNat < 2 ^ 32 * 2 ^ 32 :=
    Nat.mul_lt_mul'' count.toNat_lt bs.toNat_lt
  rw [UInt64.toNat_mul, UInt32.toNat_toUInt64, UInt32.toNat_toUInt64, Nat.mod_eq_of_lt (by omega)]

/-- The range check of the driver passes for blocks inside the storage. -/
theorem rw_in_range (h : (lba.toNat + count.toNat) * bs.toNat ≤ size.toNat) :
    ¬ (size < lba * bs.toUInt64 ∨
      size - lba * bs.toUInt64 < count.toUInt64 * bs.toUInt64) := by
  have hoff := toNat_byteOffset h
  rw [Nat.add_mul] at h
  have hle : lba * bs.toUInt64 ≤ size := by
    rw [UInt64.le_iff_toNat_le]; omega
  rw [UInt64.lt_iff_toNat_lt, UInt64.lt_iff_toNat_lt, UInt64.toNat_sub_of_le _ _ hle, hoff,
    toNat_byteCount]
  omega

/-- A read copies the bytes of the blocks to the buffer. -/
theorem rw_read_eq (h : (lba.toNat + count.toNat) * bs.toNat ≤ size.toNat) (io : Io (Storage D)) :
    rw d size bs false lba count io = .ok ()
      { io with
        buf := copyAt io.buf 0 (fun i ↦ io.world d (lba.toNat * bs.toNat + i))
          (count.toNat * bs.toNat) } := by
  rw [rw, bind_of_ok (failIf_of_neg (rw_in_range h) _ io), toNat_byteOffset h, toNat_byteCount]
  rfl

/-- A write copies the buffer to the bytes of the blocks. -/
theorem rw_write_eq (h : (lba.toNat + count.toNat) * bs.toNat ≤ size.toNat) (io : Io (Storage D)) :
    rw d size bs true lba count io = .ok ()
      { io with
        world := Function.update io.world d
          (copyAt (io.world d) (lba.toNat * bs.toNat) io.buf (count.toNat * bs.toNat)) } := by
  rw [rw, bind_of_ok (failIf_of_neg (rw_in_range h) _ io), toNat_byteOffset h, toNat_byteCount]
  rfl

/-- Bytes of different blocks are different bytes. -/
theorem offset_ne {lba' : UInt64} {i n : ℕ} (hne : lba' ≠ lba) (hi : i < n) :
    lba'.toNat * n + i < lba.toNat * n ∨ lba.toNat * n + n ≤ lba'.toNat * n + i := by
  rcases Nat.lt_or_gt_of_ne fun h ↦ hne (UInt64.toNat_inj.1 h) with h | h
  · have := Nat.mul_le_mul_right n h
    rw [Nat.succ_mul] at this
    omega
  · have := Nat.mul_le_mul_right n h
    rw [Nat.succ_mul] at this
    omega

theorem rw_read_ends (hlba : lba < size / bs.toUInt64) (io : Io (Storage D)) :
    Ends (rw d size bs false lba 1) io
      (fun _ io' ↦ io'.world = io.world ∧
        Buf.ofView bs.toNat io'.buf = block bs.toNat io.world (d, lba))
      (fun _ _ ↦ False) := by
  refine ends_of_ok (rw_read_eq (block_le_size hlba) io) ⟨rfl, Buf.ext_get fun i hi ↦ ?_⟩
  rw [block, Buf.get_ofView_of_lt _ hi, Buf.get_ofView_of_lt _ hi, UInt32.toNat_one, Nat.one_mul]
  dsimp only
  rw [copyAt_of_mem (Nat.zero_le i) (by omega), Nat.sub_zero]

theorem rw_write_ends (hlba : lba < size / bs.toUInt64) (io : Io (Storage D)) :
    Ends (rw d size bs true lba 1) io
      (fun _ io' ↦ io'.buf = io.buf ∧ block bs.toNat io'.world
        = Function.update (block bs.toNat io.world) (d, lba) (Buf.ofView bs.toNat io.buf))
      (fun _ _ ↦ False) := by
  refine ends_of_ok (rw_write_eq (block_le_size hlba) io) ⟨rfl, funext fun k ↦ ?_⟩
  refine Buf.ext_get fun i hi ↦ ?_
  rw [block, Buf.get_ofView_of_lt _ hi, UInt32.toNat_one, Nat.one_mul]
  obtain ⟨d', lba'⟩ := k
  dsimp only
  by_cases hd : d' = d
  · subst hd
    rw [Function.update_self]
    by_cases hl : lba' = lba
    · subst hl
      rw [Function.update_self, Buf.get_ofView_of_lt _ hi,
        copyAt_of_mem (Nat.le_add_right _ _) (by omega), Nat.add_sub_cancel_left]
    · rw [Function.update_of_ne fun h ↦ hl (congrArg Prod.snd h), block, Buf.get_ofView_of_lt _ hi,
        copyAt_of_not_mem (offset_ne hl hi)]
  · rw [Function.update_of_ne hd, Function.update_of_ne fun h ↦ hd (congrArg Prod.fst h), block,
      Buf.get_ofView_of_lt _ hi]

/-- What a successful `mcsos_ramblk_init` sets up. -/
theorem init_eq_ok {dev : Device (Storage D)} (h : init d size bs = .ok dev) :
    dev = ⟨bs, size / bs.toUInt64, some ⟨some (rw d size bs false), some (rw d size bs true)⟩⟩ := by
  rw [init] at h
  split at h
  · cases h
  · split at h
    · cases h
    · exact (Except.ok.inj h).symm

/-- **RAM block devices are lawful**, if each has a storage of its own. -/
theorem ramblk_lawful {devs : D → Device (Storage D)} {sizes : D → UInt64}
    (h : ∀ d, init d (sizes d) bs = .ok (devs d)) : Lawful devs bs.toNat (block bs.toNat) where
  size d := by rw [init_eq_ok (h d)]
  read {d ops op lba io} hops hop hlba := by
    rw [init_eq_ok (h d)] at hops hlba
    cases hops
    cases hop
    exact (rw_read_ends hlba io).mono (fun _ _ hq ↦ ⟨by rw [hq.1], hq.2⟩) fun _ _ hf ↦ hf.elim
  write {d ops op lba io} hops hop hlba := by
    rw [init_eq_ok (h d)] at hops hlba
    cases hops
    cases hop
    exact (rw_write_ends hlba io).mono (fun _ _ hq ↦ hq) fun _ _ hf ↦ hf.elim

end Lawful

/-- Two RAM devices of four blocks each, and a cache of one entry, which a write to one of them has
taken: a read from the other device returns what its users see there. -/
theorem bcache_coherent_two_devices :
    ∃ (devs : Bool → Device (Storage Bool)) (s : Bcache.State 512 Bool (Storage Bool)),
      (∀ d, init d 2048 512 = .ok (devs d)) ∧
      Bcache.init 1 (fun _ ↦ Buf.zero 512) (fun _ _ ↦ 0) = .ok s ∧
      Ends (Bcache.read devs true 3) (after (Bcache.write devs false 2 (Buf.zero 512)) s)
        (fun buf _ ↦ buf = Bcache.overlay (block 512)
          (after (Bcache.write devs false 2 (Buf.zero 512)) s) (true, 3))
        (fun _ _ ↦ True) := by
  have hdev : ∀ d : Bool, ∃ dev, init d 2048 512 = .ok dev := fun d ↦ ⟨_, rfl⟩
  choose devs hdevs using hdev
  have hlaw : Lawful devs 512 (block 512) := ramblk_lawful hdevs
  obtain ⟨s, hs⟩ : ∃ s : Bcache.State 512 Bool (Storage Bool),
      Bcache.init 1 (fun _ ↦ Buf.zero 512) (fun _ _ ↦ 0) = .ok s := ⟨_, rfl⟩
  refine ⟨devs, s, hdevs, hs, ?_⟩
  exact ((Bcache.bcache_coherent hlaw hs (.write false 2 (Buf.zero 512) .start)).2.2.1 true 3).mono
    (fun _ _ h ↦ h.1) fun _ _ _ ↦ trivial

end Ramblk
end Block
end Mcsos
