import Mcsos.Block.Ramblk

/-!
# Writing back

The cache does not look at block numbers; the block layer does, when an entry is loaded or written
back.  A write to a block that the device does not have is therefore accepted, and fails later: when
its entry is needed for another block, or when everything is to be flushed.  Neither can succeed
from then on.

Without such writes all entries stay in range, and over devices that do not fail by themselves
nothing in the cache fails but reads of blocks that do not exist.
-/

set_option autoImplicit false

namespace Mcsos
namespace Block
namespace Bcache

open Bytes Program

variable {bs : ℕ} {D σ : Type} {devs : D → Device σ} {s : State bs D σ} {i : ℕ}

/-- The devices have blocks of `bs` bytes, and accesses to the blocks they have do not fail. -/
structure Reliable (devs : D → Device σ) (bs : ℕ) : Prop where
  size : ∀ d, (devs d).blockSize.toNat = bs
  read : ∀ d lba io, lba < (devs d).blockCount →
    Ends (blkRead (some (devs d)) lba 1) io (fun _ _ ↦ True) fun _ _ ↦ False
  write : ∀ d lba io, lba < (devs d).blockCount →
    Ends (blkWrite (some (devs d)) lba 1) io (fun _ _ ↦ True) fun _ _ ↦ False

/-- The entry is a copy of a block that its device has, if it is one at all. -/
def Entry.InRange (devs : D → Device σ) (e : Entry bs D) : Prop :=
  e.valid = true → ∃ d, e.dev = some d ∧ e.lba < (devs d).blockCount

/-- Every entry can be written back. -/
structure Flushable (devs : D → Device σ) (s : State bs D σ) : Prop where
  pos : 0 < s.entryCount
  inRange : ∀ i, (s.entries i).InRange devs

theorem Flushable.setEntry (h : Flushable devs s) {e : Entry bs D} (he : e.InRange devs) :
    Flushable devs (s.setEntry i e) := by
  refine ⟨h.pos, fun j ↦ ?_⟩
  rw [State.setEntry]
  dsimp only
  by_cases hj : j = i
  · rw [hj, Function.update_self]
    exact he
  · rw [Function.update_of_ne hj]
    exact h.inRange j

/-- A driver changes the data of an entry only. -/
theorem Flushable.setIo (h : Flushable devs s) (io : Io σ) : Flushable devs (s.setIo i io) := by
  obtain ⟨hpos, hin⟩ := h.setEntry (i := i)
    (e := { s.entries i with data := Buf.ofView bs io.buf }) (h.inRange i)
  exact ⟨hpos, hin⟩

/-! ## The calls -/

section Calls

variable (hdev : Reliable devs bs) (h : Flushable devs s)

include hdev h

theorem flushEntry_flushable (i : ℕ) :
    Ends (flushEntry devs i) s (fun _ s' ↦ Flushable devs s') fun _ _ ↦ False := by
  refine ends_get ?_
  by_cases hvd : ((s.entries i).valid && (s.entries i).dirty) = true
  · obtain ⟨d, hd, hlba⟩ := h.inRange i (Bool.and_eq_true_iff.1 hvd).1
    rw [if_pos hvd, hd, Option.map_some]
    refine ends_bind (Q := fun _ s' ↦ Flushable devs s') (ends_zoom ?_) fun _ s' hs' ↦ ?_
    · exact (hdev.write d _ _ hlba).mono (fun _ io _ ↦ h.setIo io) fun _ _ hf ↦ hf
    · exact ends_modifyEntry (hs'.setEntry (hs'.inRange i))
  · rw [if_neg hvd]
    exact ends_pure h

theorem selectVictim_flushable :
    Ends (selectVictim devs) s (fun _ s' ↦ Flushable devs s') fun _ _ ↦ False := by
  refine ends_get (ends_failIf (fun h0 ↦ h.pos.ne' h0) fun _ ↦ ?_)
  have hhand : ∀ hand, Flushable devs { s with clockHand := hand } := fun _ ↦ ⟨h.pos, h.inRange⟩
  split
  · exact ends_modify (ends_pure (hhand _))
  · refine ends_modify (ends_bind (flushEntry_flushable hdev (hhand _) _) fun _ s' hs' ↦ ?_)
    exact ends_pure hs'

/-- Loading a block fails if the device does not have it, and only then. -/
theorem fill_flushable (k : D × UInt64) (i : ℕ) :
    Ends (fill devs k i) s (fun _ s' ↦ Flushable devs s' ∧ k.2 < (devs k.1).blockCount)
      fun _ s' ↦ Flushable devs s' ∧ ¬ k.2 < (devs k.1).blockCount := by
  have hread : Ends (blkRead (some (devs k.1)) k.2 1) (s.io i)
      (fun _ _ ↦ k.2 < (devs k.1).blockCount) fun _ _ ↦ ¬ k.2 < (devs k.1).blockCount := by
    by_cases hlba : k.2 < (devs k.1).blockCount
    · exact (hdev.read k.1 k.2 _ hlba).mono (fun _ _ _ ↦ hlba) fun _ _ hf ↦ hf.elim
    · refine ends_bind (Q := fun _ _ ↦ False) (validateRange_ends.mono ?_ fun _ _ _ ↦ hlba)
        fun _ _ hf ↦ hf.elim
      rintro ops _ ⟨-, _, ⟨⟩, -, hlt⟩
      exact hlba hlt.lt
  refine ends_bind (Q := fun _ s' ↦ Flushable devs s' ∧ k.2 < (devs k.1).blockCount)
    (ends_onError (ends_zoom (hread.mono (fun _ io hlt ↦ ⟨h.setIo io, hlt⟩) fun _ io hlt ↦ ?_))) ?_
  · refine ⟨(h.setIo io).setEntry fun hv ↦ ?_, hlt⟩
    cases hv
  · rintro - s' ⟨hs', hlt⟩
    exact ends_modifyEntry ⟨hs'.setEntry fun _ ↦ ⟨k.1, rfl, hlt⟩, hlt⟩

variable [DecidableEq D]

/-- A read of a block that the device has does not fail. -/
theorem read_flushable (d : D) (lba : UInt64) :
    Ends (read devs d lba) s (fun _ s' ↦ Flushable devs s')
      fun _ s' ↦ Flushable devs s' ∧ ¬ lba < (devs d).blockCount := by
  refine ends_failIf (fun hs ↦ absurd (hdev.size d).symm hs) fun _ ↦ ends_get ?_
  split
  · exact ends_pure h
  · refine ends_bind
      ((selectVictim_flushable hdev h).mono (fun _ _ hs ↦ hs) fun _ _ hf ↦ hf.elim) ?_
    intro i s1 hs1
    refine ends_bind (fill_flushable hdev hs1 (d, lba) i) fun _ s2 hs2 ↦ ?_
    exact ends_get (ends_pure hs2.1)

/-- A write does not fail, whatever the block. -/
theorem write_flushable (d : D) (lba : UInt64) (buf : Buf bs) :
    Ends (write devs d lba buf) s
      (fun _ s' ↦ lba < (devs d).blockCount → Flushable devs s') fun _ _ ↦ False := by
  refine ends_failIf (fun hs ↦ absurd (hdev.size d).symm hs) fun _ ↦ ends_get ?_
  split
  · exact ends_modifyEntry fun _ ↦ h.setEntry (h.inRange _)
  · refine ends_bind (selectVictim_flushable hdev h) fun i s1 hs1 ↦ ?_
    refine ends_bind (Q := fun _ s2 ↦ lba < (devs d).blockCount → Flushable devs s2)
      (ends_modifyEntry fun hlt ↦ hs1.setEntry fun _ ↦ ⟨d, rfl, hlt⟩) fun _ s2 hs2 ↦ ?_
    exact ends_modifyEntry fun hlt ↦ (hs2 hlt).setEntry ((hs2 hlt).inRange i)

omit [DecidableEq D] in
theorem flushAll_flushable :
    Ends (flushAll devs) s (fun _ s' ↦ Flushable devs s') fun _ _ ↦ False :=
  ends_get (ends_forM h fun i _ _ hs' ↦ flushEntry_flushable hdev hs' i)

end Calls

/-! ## Runs -/

variable [DecidableEq D]

/-- The states that calls lead to, if every write is to a block that the device has. -/
inductive ReachesInRange (devs : D → Device σ) (s₀ : State bs D σ) : State bs D σ → Prop
  | start : ReachesInRange devs s₀ s₀
  | read (d : D) (lba : UInt64) {s : State bs D σ} (h : ReachesInRange devs s₀ s) :
      ReachesInRange devs s₀ (after (read devs d lba) s)
  | write (d : D) (lba : UInt64) (buf : Buf bs) {s : State bs D σ} (h : ReachesInRange devs s₀ s)
      (hlba : lba < (devs d).blockCount) : ReachesInRange devs s₀ (after (write devs d lba buf) s)
  | flushAll {s : State bs D σ} (h : ReachesInRange devs s₀ s) :
      ReachesInRange devs s₀ (after (flushAll devs) s)

omit [DecidableEq D] in
theorem flushable_init {n : ℕ} {pool : ℕ → Buf bs} {w : σ} (h : init n pool w = .ok s) :
    Flushable devs s := by
  rw [init] at h
  split at h
  · cases h
  · rename_i hn
    cases h
    exact ⟨Nat.pos_of_ne_zero fun h0 ↦ hn (.inl h0), fun _ hv ↦ by cases hv⟩

theorem ReachesInRange.flushable {s₀ : State bs D σ} (hdev : Reliable devs bs)
    (h₀ : Flushable devs s₀) (hr : ReachesInRange devs s₀ s) : Flushable devs s := by
  induction hr with
  | start => exact h₀
  | read d lba _ ih =>
    exact ((read_flushable hdev ih d lba).mono (fun _ _ h ↦ h) fun _ _ h ↦ h.1).after
  | write d lba buf _ hlba ih =>
    exact ((write_flushable hdev ih d lba buf).mono (fun _ _ h ↦ h hlba) fun _ _ h ↦ h.elim).after
  | flushAll _ ih =>
    exact ((flushAll_flushable hdev ih).mono (fun _ _ h ↦ h) fun _ _ h ↦ h.elim).after

end Bcache

namespace Ramblk

open Bytes Program

variable {D : Type} [DecidableEq D] {devs : D → Device (Storage D)} {sizes : D → UInt64}
  {bs : UInt32}

/-- RAM block devices do not fail by themselves. -/
theorem ramblk_reliable (h : ∀ d, init d (sizes d) bs = .ok (devs d)) :
    Bcache.Reliable devs bs.toNat where
  size d := by rw [init_eq_ok (h d)]
  read d lba io hlba := by
    rw [init_eq_ok (h d)] at hlba ⊢
    refine ends_bind_ok (validateRange_of_has rfl (Device.has_one hlba) io)
      (ends_bind_ok (expect_some _ _ io) ?_)
    exact (rw_read_ends hlba io).mono (fun _ _ _ ↦ trivial) fun _ _ hf ↦ hf
  write d lba io hlba := by
    rw [init_eq_ok (h d)] at hlba ⊢
    refine ends_bind_ok (validateRange_of_has rfl (Device.has_one hlba) io)
      (ends_bind_ok (expect_some _ _ io) ?_)
    exact (rw_write_ends hlba io).mono (fun _ _ _ ↦ trivial) fun _ _ hf ↦ hf

/-- **The cache stays flushable as long as no write is out of range.**  In every state of such a run
flushing succeeds, and so do all reads and writes of blocks that the device has.  But a write of
another block is never rejected. -/
theorem bcache_flushable (h : ∀ d, init d (sizes d) bs = .ok (devs d)) {n : ℕ}
    {pool : ℕ → Buf bs.toNat} {w : Storage D} {s₀ s : Bcache.State bs.toNat D (Storage D)}
    (h₀ : Bcache.init n pool w = .ok s₀) (hr : Bcache.ReachesInRange devs s₀ s) :
    errorOf (Bcache.flushAll devs) s = none ∧
    (∀ d lba, lba < (devs d).blockCount → errorOf (Bcache.read devs d lba) s = none ∧
      ∀ buf, errorOf (Bcache.write devs d lba buf) s = none) ∧
    ∀ d lba, ¬ lba < (devs d).blockCount →
      ∀ buf, errorOf (Bcache.write devs d lba buf) s = none := by
  have hdev := ramblk_reliable h
  have hs := hr.flushable hdev (Bcache.flushable_init h₀)
  have hwrite : ∀ d lba buf, errorOf (Bcache.write devs d lba buf) s = none := fun d lba buf ↦
    ((Bcache.write_flushable hdev hs d lba buf).mono (fun _ _ _ ↦ trivial) fun _ _ hf ↦ hf).errorOf
  refine ⟨((Bcache.flushAll_flushable hdev hs).mono (fun _ _ _ ↦ trivial) fun _ _ hf ↦ hf).errorOf,
    fun d lba hlba ↦ ⟨?_, hwrite d lba⟩, fun d lba _ ↦ hwrite d lba⟩
  exact ((Bcache.read_flushable hdev hs d lba).mono (fun _ _ _ ↦ trivial)
    fun _ _ he ↦ he.2 hlba).errorOf

/-- A RAM device of four blocks, as `mcsos_ramblk_init` sets it up. -/
def fourBlocks (d : Unit) : Device (Storage Unit) :=
  ⟨512, 4, some ⟨some (rw d 2048 512 false), some (rw d 2048 512 true)⟩⟩

/-- An empty cache of one entry. -/
def emptyCache : Bcache.State 512 Unit (Storage Unit) :=
  ⟨fun _ ↦ ⟨Buf.zero 512, 0, false, false, none⟩, 1, 0, fun _ _ ↦ 0⟩

theorem bcache_flushable_last_block :
    Bcache.ReachesInRange fourBlocks emptyCache
      (after (Bcache.write fourBlocks () 3 (Buf.zero 512)) emptyCache) ∧
    errorOf (Bcache.flushAll fourBlocks)
      (after (Bcache.write fourBlocks () 3 (Buf.zero 512)) emptyCache) = none := by
  have hr : Bcache.ReachesInRange fourBlocks emptyCache
      (after (Bcache.write fourBlocks () 3 (Buf.zero 512)) emptyCache) :=
    .write () 3 (Buf.zero 512) .start (by decide)
  have hdev : ∀ d, init d 2048 512 = .ok (fourBlocks d) := by
    rintro ⟨⟩
    rfl
  have hcache : Bcache.init 1 (fun _ ↦ Buf.zero 512) (fun _ _ ↦ 0) = .ok emptyCache := rfl
  exact ⟨hr, (bcache_flushable hdev hcache hr).1⟩

/-- **A write out of range makes the cache useless.**  It is accepted, and from then on flushing
fails, and so does reading a block that is there. -/
theorem bcache_stuck :
    init () 2048 512 = .ok (fourBlocks ()) ∧
    Bcache.init 1 (fun _ ↦ Buf.zero 512) (fun _ _ ↦ 0) = .ok emptyCache ∧
    errorOf (Bcache.write fourBlocks () 4 (Buf.zero 512)) emptyCache = none ∧
    errorOf (Bcache.flushAll fourBlocks)
      (after (Bcache.write fourBlocks () 4 (Buf.zero 512)) emptyCache) = some .erange ∧
    errorOf (Bcache.read fourBlocks () 0)
      (after (Bcache.write fourBlocks () 4 (Buf.zero 512)) emptyCache) = some .erange := by
  refine ⟨rfl, rfl, ?_⟩
  decide +kernel

end Ramblk
end Block
end Mcsos
