import Mcsos.Block.Ramblk

/-!
# The RAM block device is an array of blocks

`mcsos_blk_read` and `mcsos_blk_write` check a range of blocks against the size of the device, and
the driver checks the range of bytes that it comes to once more.  For a device that
`mcsos_ramblk_init` has set up the first check is all there is to it: a range that passes it lies
inside the storage, and none of the products wraps, so the second check passes as well
(`blkRead_of_has`, `blkWrite_of_has`), and a range that does not pass it never gets to the
driver (`blkRead_of_not_has`, `blkWrite_of_not_has`).

A run is a list of accesses, to any of the devices and of any ranges, of which some will fail.  What
a write has stored stays for as long as no other write of the run reaches a block of its range
(`storage_performAll`).
-/

set_option autoImplicit false

namespace Mcsos
namespace Block
namespace Ramblk

open Bytes Program

/-! ## Which devices there are -/

/-- A power of two is a number with a single bit. -/
theorem isPowerOfTwo_iff {v : UInt32} : isPowerOfTwo v = true ↔ ∃ k, v.toNat = 2 ^ k := by
  have key : (v.toNat ≠ 0 ∧ v.toNat &&& (v.toNat - 1) = 0) ↔ ∃ k, v.toNat = 2 ^ k :=
    Nat.ne_zero_and_sub_one_eq_zero_iff_isPowerOfTwo
  rw [← key, isPowerOfTwo, decide_eq_true_iff, ne_eq, ne_eq, ← UInt32.toNat_inj, ← UInt32.toNat_inj,
    UInt32.toNat_and]
  refine and_congr_right fun hv ↦ ?_
  have hpos : 0 < v.toNat := Nat.pos_of_ne_zero hv
  rw [UInt32.toNat_sub_of_le v 1 (UInt32.le_iff_toNat_le.2 hpos)]
  rfl

variable {D : Type} [DecidableEq D] {d : D} {size lba : UInt64} {bs count : UInt32}
  {dev : Device (Storage D)}

/-- `mcsos_ramblk_init` succeeds for blocks whose size is a power of two from 512 on, and a storage
that is a multiple of it and not empty. -/
theorem exists_init_eq_ok : (∃ dev, init d size bs = .ok dev) ↔
    512 ≤ bs.toNat ∧ (∃ k, bs.toNat = 2 ^ k) ∧ 0 < size.toNat ∧ bs.toNat ∣ size.toNat := by
  have hsize : size < bs.toUInt64 ↔ size.toNat < bs.toNat := by
    rw [UInt64.lt_iff_toNat_lt, UInt32.toNat_toUInt64]
  have hmod : size % bs.toUInt64 ≠ 0 ↔ ¬ bs.toNat ∣ size.toNat := by
    rw [ne_eq, ← UInt64.toNat_inj, UInt64.toNat_mod, UInt32.toNat_toUInt64, Nat.dvd_iff_mod_eq_zero]
    rfl
  have hbs : bs < 512 ↔ bs.toNat < 512 := UInt32.lt_iff_toNat_lt
  rw [init, ← isPowerOfTwo_iff]
  constructor
  · rintro ⟨dev, h⟩
    split at h
    · cases h
    · split at h
      · cases h
      · rename_i h1 h2
        simp only [not_or, hbs, hsize, hmod, not_lt, not_not, Bool.not_eq_true',
          Bool.not_eq_false] at h1 h2
        exact ⟨h1.1, h1.2, by omega, h2.2⟩
  · rintro ⟨h1, h2, h3, h4⟩
    rw [if_neg, if_neg]
    · exact ⟨_, rfl⟩
    · rw [hsize, hmod, not_or, not_lt, not_not]
      exact ⟨Nat.le_of_dvd h3 h4, h4⟩
    · rw [hbs, h2, not_or, not_lt]
      exact ⟨h1, Bool.false_ne_true⟩

/-! ## Single accesses -/

/-- Blocks that the device has are bytes of its storage. -/
theorem bytes_le (h : init d size bs = .ok dev) (hhas : dev.Has lba count) :
    (lba.toNat + count.toNat) * bs.toNat ≤ size.toNat := by
  obtain rfl := init_eq_ok h
  exact bytes_le_size hhas.le

theorem blkRead_of_has (h : init d size bs = .ok dev) (hhas : dev.Has lba count)
    (io : Io (Storage D)) : blkRead (some dev) lba count io = .ok ()
      { io with
        buf := copyAt io.buf 0 (fun i ↦ io.world d (lba.toNat * bs.toNat + i))
          (count.toNat * bs.toNat) } := by
  have hle := bytes_le h hhas
  obtain rfl := init_eq_ok h
  rw [blkRead, bind_of_ok (validateRange_of_has rfl hhas io), bind_of_ok (expect_some _ _ io)]
  exact rw_read_eq hle io

theorem blkWrite_of_has (h : init d size bs = .ok dev) (hhas : dev.Has lba count)
    (io : Io (Storage D)) : blkWrite (some dev) lba count io = .ok ()
      { io with
        world := Function.update io.world d
          (copyAt (io.world d) (lba.toNat * bs.toNat) io.buf (count.toNat * bs.toNat)) } := by
  have hle := bytes_le h hhas
  obtain rfl := init_eq_ok h
  rw [blkWrite, bind_of_ok (validateRange_of_has rfl hhas io), bind_of_ok (expect_some _ _ io)]
  exact rw_write_eq hle io

/-! ## Runs of accesses -/

/-- A call of `mcsos_blk_read` or `mcsos_blk_write`, with what the buffer contains before it. -/
structure Access (D : Type) where
  dev : D
  isWrite : Bool
  lba : UInt64
  count : UInt32
  buf : ℕ → UInt8

/-- The two ranges of blocks do not overlap. -/
def Apart (lba : UInt64) (count : UInt32) (lba' : UInt64) (count' : UInt32) : Prop :=
  lba.toNat + count.toNat ≤ lba'.toNat ∨ lba'.toNat + count'.toNat ≤ lba.toNat

/-- The storages after an access. -/
def perform (devs : D → Device (Storage D)) (w : Storage D) (a : Access D) : Storage D :=
  if a.isWrite then (after (blkWrite (some (devs a.dev)) a.lba a.count) ⟨a.buf, w⟩).world
  else (after (blkRead (some (devs a.dev)) a.lba a.count) ⟨a.buf, w⟩).world

/-- The storages after a run. -/
def performAll (devs : D → Device (Storage D)) (w : Storage D) (as : List (Access D)) : Storage D :=
  as.foldl (perform devs) w

section Runs

variable {devs : D → Device (Storage D)} {sizes : D → UInt64} {blockSizes : D → UInt32}

/-- Bytes of ranges that do not overlap are different bytes. -/
theorem byte_apart {lba' : UInt64} {count' : UInt32} {n i : ℕ} (h : Apart lba count lba' count')
    (hlo : lba.toNat * n ≤ i) (hhi : i < (lba.toNat + count.toNat) * n) :
    i < lba'.toNat * n ∨ lba'.toNat * n + count'.toNat * n ≤ i := by
  rcases h with h | h
  · have := Nat.mul_le_mul_right n h
    exact .inl (by omega)
  · have := Nat.mul_le_mul_right n h
    rw [Nat.add_mul] at this
    exact .inr (by omega)

/-- An access leaves the bytes of a range alone if it is a read, or to another device, or to blocks
outside of the range. -/
theorem storage_perform (h : ∀ d, init d (sizes d) (blockSizes d) = .ok (devs d)) {a : Access D}
    (ha : a.isWrite = true → a.dev = d → Apart lba count a.lba a.count) (w : Storage D) {i : ℕ}
    (hlo : lba.toNat * (blockSizes d).toNat ≤ i)
    (hhi : i < (lba.toNat + count.toNat) * (blockSizes d).toNat) :
    perform devs w a d i = w d i := by
  rw [perform]
  by_cases hhas : (devs a.dev).Has a.lba a.count
  · split
    · rename_i hwrite
      rw [after_of_ok (blkWrite_of_has (h a.dev) hhas _)]
      dsimp only
      by_cases hd : d = a.dev
      · subst hd
        rw [Function.update_self, copyAt_of_not_mem (byte_apart (ha hwrite rfl) hlo hhi)]
      · rw [Function.update_of_ne hd]
    · rw [after_of_ok (blkRead_of_has (h a.dev) hhas _)]
  · obtain ⟨e, he⟩ := blkWrite_of_not_has hhas ⟨a.buf, w⟩
    obtain ⟨e', he'⟩ := blkRead_of_not_has hhas ⟨a.buf, w⟩
    rw [after_of_error he, after_of_error he', ite_self]

/-- So does a run of such accesses. -/
theorem storage_performAll (h : ∀ d, init d (sizes d) (blockSizes d) = .ok (devs d))
    {as : List (Access D)}
    (has : ∀ a ∈ as, a.isWrite = true → a.dev = d → Apart lba count a.lba a.count) (w : Storage D)
    {i : ℕ} (hlo : lba.toNat * (blockSizes d).toNat ≤ i)
    (hhi : i < (lba.toNat + count.toNat) * (blockSizes d).toNat) :
    performAll devs w as d i = w d i := by
  induction as generalizing w with
  | nil => rfl
  | cons a as ih =>
    rw [performAll, List.foldl_cons, ← performAll,
      ih (fun b hb ↦ has b (List.mem_cons_of_mem _ hb)),
      storage_perform h (has a List.mem_cons_self) w hlo hhi]

/-- What has been written is read back after a run that does not reach its blocks. -/
theorem read_after_write (h : ∀ d, init d (sizes d) (blockSizes d) = .ok (devs d))
    (hhas : (devs d).Has lba count) {as : List (Access D)}
    (has : ∀ a ∈ as, a.isWrite = true → a.dev = d → Apart lba count a.lba a.count)
    (buf buf' : ℕ → UInt8) (w : Storage D) :
    ∃ io, blkRead (some (devs d)) lba count
        ⟨buf', performAll devs (perform devs w ⟨d, true, lba, count, buf⟩) as⟩ = .ok () io ∧
      ∀ i, i < count.toNat * (blockSizes d).toNat → io.buf i = buf i := by
  refine ⟨_, blkRead_of_has (h d) hhas _, fun i hi ↦ ?_⟩
  have hwrite : perform devs w ⟨d, true, lba, count, buf⟩ = Function.update w d
      (copyAt (w d) (lba.toNat * (blockSizes d).toNat) buf
        (count.toNat * (blockSizes d).toNat)) :=
    congrArg Io.world (after_of_ok (blkWrite_of_has (h d) hhas ⟨buf, w⟩))
  dsimp only
  rw [copyAt_of_mem (Nat.zero_le i) (by omega), Nat.sub_zero,
    storage_performAll h has _ (Nat.le_add_right _ i) (by rw [Nat.add_mul]; omega), hwrite,
    Function.update_self, copyAt_of_mem (Nat.le_add_right _ i) (by omega), Nat.add_sub_cancel_left]

/-! ## The device as an array -/

/-- The device `d` is an array of the blocks of its storage. -/
structure IsArray (devs : D → Device (Storage D)) (d : D) (size : UInt64) (bs : UInt32) :
    Prop where
  /-- The blocks are all of the storage. -/
  bytes : (devs d).blockCount.toNat * bs.toNat = size.toNat
  read_ok_iff : ∀ lba count io, errorOf (blkRead (some (devs d)) lba count) io = none ↔
    0 < count.toNat ∧ lba.toNat + count.toNat ≤ (devs d).blockCount.toNat
  write_ok_iff : ∀ lba count io, errorOf (blkWrite (some (devs d)) lba count) io = none ↔
    0 < count.toNat ∧ lba.toNat + count.toNat ≤ (devs d).blockCount.toNat
  /-- A read takes over the bytes of its blocks. -/
  read : ∀ lba count io io', blkRead (some (devs d)) lba count io = .ok () io' →
    (lba.toNat + count.toNat) * bs.toNat ≤ size.toNat ∧ io'.world = io.world ∧
    io'.buf = copyAt io.buf 0 (fun i ↦ io.world d (lba.toNat * bs.toNat + i))
      (count.toNat * bs.toNat)
  /-- A write replaces the bytes of its blocks, and no other byte of this or another device. -/
  write : ∀ lba count io io', blkWrite (some (devs d)) lba count io = .ok () io' →
    (lba.toNat + count.toNat) * bs.toNat ≤ size.toNat ∧ io'.buf = io.buf ∧
    io'.world = Function.update io.world d
      (copyAt (io.world d) (lba.toNat * bs.toNat) io.buf (count.toNat * bs.toNat))
  read_failed : ∀ lba count io e io', blkRead (some (devs d)) lba count io = .error e io' → io' = io
  write_failed : ∀ lba count io e io',
    blkWrite (some (devs d)) lba count io = .error e io' → io' = io
  /-- What is written can be read until the blocks are written again. -/
  kept : ∀ lba count as (buf buf' : ℕ → UInt8) (w : Storage D),
    errorOf (blkWrite (some (devs d)) lba count) ⟨buf, w⟩ = none →
    (∀ a ∈ as, a.isWrite = true → a.dev = d → Apart lba count a.lba a.count) →
    ∃ io, blkRead (some (devs d)) lba count
        ⟨buf', performAll devs (perform devs w ⟨d, true, lba, count, buf⟩) as⟩ = .ok () io ∧
      ∀ i, i < count.toNat * bs.toNat → io.buf i = buf i

theorem blkRead_ok_iff (h : init d size bs = .ok dev) (io : Io (Storage D)) :
    errorOf (blkRead (some dev) lba count) io = none ↔ dev.Has lba count :=
  errorOf_eq_none_iff_has (fun hhas ↦ blkRead_of_has h hhas io)
    fun hhas ↦ blkRead_of_not_has hhas io

theorem blkWrite_ok_iff (h : init d size bs = .ok dev) (io : Io (Storage D)) :
    errorOf (blkWrite (some dev) lba count) io = none ↔ dev.Has lba count :=
  errorOf_eq_none_iff_has (fun hhas ↦ blkWrite_of_has h hhas io)
    fun hhas ↦ blkWrite_of_not_has hhas io

/-- The block count is exact. -/
theorem blockCount_mul (h : init d size bs = .ok dev) :
    dev.blockCount.toNat * bs.toNat = size.toNat := by
  obtain ⟨-, -, -, hdvd⟩ := exists_init_eq_ok.1 ⟨dev, h⟩
  obtain rfl := init_eq_ok h
  rw [UInt64.toNat_div, UInt32.toNat_toUInt64]
  exact Nat.div_mul_cancel hdvd

/-- **The RAM block device is an exact array of blocks**, whatever the sizes of its blocks and of
its storage, and whatever other devices there are. -/
theorem ramblk_isArray (h : ∀ d, init d (sizes d) (blockSizes d) = .ok (devs d)) (d : D) :
    IsArray devs d (sizes d) (blockSizes d) where
  bytes := blockCount_mul (h d)
  read_ok_iff lba count io := (blkRead_ok_iff (h d) io).trans Device.has_iff_toNat
  write_ok_iff lba count io := (blkWrite_ok_iff (h d) io).trans Device.has_iff_toNat
  read lba count io io' hok := by
    have hhas := (blkRead_ok_iff (h d) io).1 (errorOf_of_ok hok)
    rw [blkRead_of_has (h d) hhas io] at hok
    cases hok
    exact ⟨bytes_le (h d) hhas, rfl, rfl⟩
  write lba count io io' hok := by
    have hhas := (blkWrite_ok_iff (h d) io).1 (errorOf_of_ok hok)
    rw [blkWrite_of_has (h d) hhas io] at hok
    cases hok
    exact ⟨bytes_le (h d) hhas, rfl, rfl⟩
  read_failed lba count io e io' herror :=
    eq_of_eq_error (fun hhas ↦ blkRead_of_has (h d) hhas io) (fun hn ↦ blkRead_of_not_has hn io)
      herror
  write_failed lba count io e io' herror :=
    eq_of_eq_error (fun hhas ↦ blkWrite_of_has (h d) hhas io) (fun hn ↦ blkWrite_of_not_has hn io)
      herror
  kept lba count as buf buf' w hok has :=
    read_after_write h ((blkWrite_ok_iff (h d) _).1 hok) has buf buf' w

/-- A device of four blocks of 512 bytes, next to one of two blocks of 1024 bytes. -/
theorem ramblk_isArray_two_devices :
    ∃ devs : Bool → Device (Storage Bool),
      (∀ d, init d 2048 (if d then 1024 else 512) = .ok (devs d)) ∧
      ∀ d, IsArray devs d 2048 (if d then 1024 else 512) := by
  have hdev : ∀ d : Bool, ∃ dev, init d 2048 (if d then 1024 else 512) = .ok dev := by
    intro d
    cases d
    · exact ⟨_, rfl⟩
    · exact ⟨_, rfl⟩
  choose devs hdevs using hdev
  exact ⟨devs, hdevs, fun d ↦ ramblk_isArray hdevs d⟩

end Runs

end Ramblk
end Block
end Mcsos
