import Mcsos.Block.Device

/-!
# The buffer cache

`bcache.c` keeps copies of blocks in a fixed number of entries and writes them back when an entry is
needed for another block, or when it is told to.  All functions here run on a `State`, the cache
together with the world its devices live in.

The entry to be replaced is an invalid one if the scan from the clock hand comes across one.  The
scan computes `start + pass` in 32 bits, so with more than 2^31 entries it may miss some; then the
entry under the clock hand is written back and taken.
-/

set_option autoImplicit false

namespace Mcsos
namespace Block
namespace Bcache

open Bytes Program

/-- `mcsos_bcache_entry_t`, with its part of the data pool. -/
structure Entry (bs : ℕ) (D : Type) where
  data : Buf bs
  lba : UInt64
  valid : Bool
  dirty : Bool
  dev : Option D

/-- `mcsos_bcache_t` for blocks of `bs` bytes, and the world outside. -/
structure State (bs : ℕ) (D σ : Type) where
  entries : ℕ → Entry bs D
  entryCount : ℕ
  clockHand : ℕ
  world : σ

section Model

variable {bs : ℕ} {D σ : Type}

abbrev M (bs : ℕ) (D σ : Type) : Type → Type := EStateM Err (State bs D σ)

/-- Replace entry `i`. -/
def State.setEntry (s : State bs D σ) (i : ℕ) (e : Entry bs D) : State bs D σ :=
  { s with entries := Function.update s.entries i e }

/-- The buffer of entry `i` and the world, as a driver sees them. -/
def State.io (s : State bs D σ) (i : ℕ) : Io σ := ⟨(s.entries i).data.get, s.world⟩

/-- What a driver has left in the buffer of entry `i` and in the world. -/
def State.setIo (s : State bs D σ) (i : ℕ) (io : Io σ) : State bs D σ :=
  { s.setEntry i { s.entries i with data := Buf.ofView bs io.buf } with world := io.world }

/-- Run a driver on the buffer of entry `i`. -/
def onEntry (i : ℕ) (x : EStateM Err (Io σ) Unit) : M bs D σ Unit :=
  zoom (State.io · i) (fun io s ↦ s.setIo i io) x

/-- Change entry `i`. -/
def modifyEntry (i : ℕ) (f : Entry bs D → Entry bs D) : M bs D σ Unit :=
  modify fun s ↦ s.setEntry i (f (s.entries i))

/-- `mcsos_bcache_init` on entries whose part of the data pool holds `pool`. -/
def init (n : ℕ) (pool : ℕ → Buf bs) (w : σ) : Except Err (State bs D σ) :=
  if n = 0 ∨ bs = 0 then .error .einval
  else .ok
    { entries := fun i ↦ { data := pool i, lba := 0, valid := false, dirty := false, dev := none }
      entryCount := n
      clockHand := 0
      world := w }

variable [DecidableEq D]

/-- Entry `e` is a copy of the block `k`. -/
def Entry.holds (e : Entry bs D) (k : D × UInt64) : Bool :=
  e.valid && e.dev = some k.1 && e.lba = k.2

/-- `mcsos_bcache_find` -/
def find (s : State bs D σ) (k : D × UInt64) : Option ℕ :=
  (List.range s.entryCount).find? fun i ↦ (s.entries i).holds k

variable (devs : D → Device σ)

/-- `mcsos_bcache_flush_entry` -/
def flushEntry (i : ℕ) : M bs D σ Unit := do
  let s ← get
  if (s.entries i).valid && (s.entries i).dirty then do
    onEntry i (blkWrite ((s.entries i).dev.map devs) (s.entries i).lba 1)
    modifyEntry i fun e ↦ { e with dirty := false }
  else pure ()

/-- `(start + pass) % cache->entry_count`, where the sum is one of 32 bits. -/
def victimIndex (s : State bs D σ) (pass : ℕ) : ℕ :=
  (s.clockHand % s.entryCount + pass) % 2 ^ 32 % s.entryCount

/-- `mcsos_bcache_select_victim` -/
def selectVictim : M bs D σ ℕ := do
  let s ← get
  failIf (s.entryCount = 0) .einval
  match (List.range s.entryCount).find? fun pass ↦ !(s.entries (victimIndex s pass)).valid with
  | some pass => do
    modify fun s' ↦ { s' with clockHand := (victimIndex s pass + 1) % 2 ^ 32 }
    pure (victimIndex s pass)
  | none => do
    modify fun s' ↦ { s' with clockHand := (s.clockHand % s.entryCount + 1) % 2 ^ 32 }
    flushEntry devs (s.clockHand % s.entryCount)
    pure (s.clockHand % s.entryCount)

/-- Load the block `k` into entry `i`, which is lost if that fails. -/
def fill (k : D × UInt64) (i : ℕ) : M bs D σ Unit := do
  onError (onEntry i (blkRead (some (devs k.1)) k.2 1)) fun s ↦
    s.setEntry i { s.entries i with valid := false }
  modifyEntry i fun e ↦ { e with dev := some k.1, lba := k.2, valid := true, dirty := false }

/-- `mcsos_bcache_read`, which returns the contents of the caller's buffer. -/
def read (d : D) (lba : UInt64) : M bs D σ (Buf bs) := do
  failIf (bs ≠ (devs d).blockSize.toNat) .einval
  let s ← get
  match find s (d, lba) with
  | some i => pure (s.entries i).data
  | none => do
    let i ← selectVictim devs
    fill devs (d, lba) i
    let s ← get
    pure (s.entries i).data

/-- `mcsos_bcache_write` -/
def write (d : D) (lba : UInt64) (buf : Buf bs) : M bs D σ Unit := do
  failIf (bs ≠ (devs d).blockSize.toNat) .einval
  let s ← get
  match find s (d, lba) with
  | some i => modifyEntry i fun e ↦ { e with data := buf, dirty := true }
  | none => do
    let i ← selectVictim devs
    modifyEntry i fun e ↦ { e with dev := some d, lba := lba, valid := true, dirty := false }
    modifyEntry i fun e ↦ { e with data := buf, dirty := true }

/-- `mcsos_bcache_flush_all` -/
def flushAll : M bs D σ Unit := do
  let s ← get
  (List.range s.entryCount).forM (flushEntry devs)

end Model

end Bcache
end Block
end Mcsos
