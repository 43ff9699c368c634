import Mcsos.Lib.Program
import Mcsos.Mcsfs1j.Device

/-!
# The redo journal

A transaction is a list of at most eight records, each a target address and the block to be put
there.  `journalCommit` writes it into the journal area — a descriptor and a payload block for
every record, then the header, which is the commit record — and only then to the home locations,
and clears the header at the end.  `journalRecover` looks at the header and, if it is a commit
record, checks and replays the records one by one and clears the header.

`commitWrites` and `replayWrites` are the block writes the two perform, as lists.  The theorems
`journalCommit_eq`, `journalCommit_eq_of_stop`, `journalRecover_of_clear` and
`journalRecover_of_committed` reduce the two functions to `writeAll` of these lists, so that the
crash argument is about prefixes of lists and never looks at a program again.
-/

set_option autoImplicit false

namespace Mcsos
namespace M16

open Bytes WriteLog Program

/-! ## On-disk structures -/

/-- `struct m16_jrec` -/
structure Jrec where
  targetLba : ℕ
  payload : Block

/-- `struct m16_tx`; `count` is the length of the list. -/
abbrev Tx : Type := List Jrec

/-! The fields of `struct m16_journal_header` -/

namespace JournalHeader

def magic (h : Block) : ℕ := h.field 0 8
def version (h : Block) : ℕ := h.field 8 4
def state (h : Block) : ℕ := h.field 12 4
def count (h : Block) : ℕ := h.field 20 4
def headerChecksum (h : Block) : ℕ := h.field 24 4

end JournalHeader

/-! The fields of `struct m16_journal_desc` -/

namespace JournalDesc

def magic (d : Block) : ℕ := d.field 0 8
def targetLba (d : Block) : ℕ := d.field 8 4
def payloadChecksum (d : Block) : ℕ := d.field 12 4

end JournalDesc

/-- `m16_header_checksum`: the checksum of the header with its own checksum field zeroed. -/
def headerChecksum (h : Block) : UInt32 := checksumBuf (h.setField 24 4 0)

/-- The header block that `m16_journal_commit` builds: the commit record. -/
def commitHeader (seq : UInt32) (count : ℕ) : Block :=
  let h := ((((Buf.zero blockSize).setField 0 8 jmagic).setField 8 4 version).setField 12 4
    jCommitted).setField 16 4 seq.toNat |>.setField 20 4 count
  h.setField 24 4 (headerChecksum h).toNat

/-- The descriptor block of a record. -/
def descBlock (r : Jrec) : Block :=
  (((Buf.zero blockSize).setField 0 8 jmagic).setField 8 4 r.targetLba).setField 12 4
    (checksumBuf r.payload).toNat

/-- Where the descriptor of record `i` lives; its payload is in the next block. -/
def descLba (i : ℕ) : ℕ := journalStart + 1 + i * 2

/-! ## Commit -/

/-- `m16_tx_add` -/
def txAdd (tx : Tx) (lba : ℕ) (payload : Block) : M Tx :=
  if tx.length ≥ journalMaxRecords then throw .nospc else pure (tx ++ [⟨lba, payload⟩])

/-- `m16_journal_clear` -/
def journalClear : M Unit := writeBlock journalStart (Buf.zero blockSize)

/-- The first loop of `m16_journal_commit`, from record `i` on: descriptors and payloads. -/
def writeRecords : Tx → ℕ → M Unit
  | [], _ => pure ()
  | r :: tx, i => do
    writeBlock (descLba i) (descBlock r)
    writeBlock (descLba i + 1) r.payload
    writeRecords tx (i + 1)

/-- The second loop of `m16_journal_commit`: the home locations. -/
def writeHome : Tx → M Unit
  | [] => pure ()
  | r :: tx => do
    writeBlock r.targetLba r.payload
    writeHome tx

/-- `m16_journal_commit` -/
def journalCommit (tx : Tx) (seq : UInt32) (stopAfterCommitRecord : ℤ) : M Unit := do
  failIf (tx.length > journalMaxRecords) .inval
  journalClear
  writeRecords tx 0
  writeBlock journalStart (commitHeader seq tx.length)
  if stopAfterCommitRecord ≠ 0 then
    return ()
  else
    writeHome tx
    journalClear

/-! ## Recovery -/

/-- The loop of `m16_journal_recover`, with `n` records to go from record `i` on. -/
def replayRecords : ℕ → ℕ → M Unit
  | 0, _ => pure ()
  | n + 1, i => do
    let d ← readBlock (descLba i)
    let dev ← get
    failIf (JournalDesc.magic d ≠ jmagic ∨ validLba dev (JournalDesc.targetLba d) = false) .corrupt
    let payload ← readBlock (descLba i + 1)
    failIf ((checksumBuf payload).toNat ≠ JournalDesc.payloadChecksum d) .corrupt
    writeBlock (JournalDesc.targetLba d) payload
    replayRecords n (i + 1)

/-- The test by which `m16_journal_recover` recognises an empty journal. -/
def headerIsClear (h : Block) : Bool := JournalHeader.magic h = 0 ∧ JournalHeader.state h = jEmpty

/-- `m16_journal_recover` -/
def journalRecover : M Unit := do
  let h ← readBlock journalStart
  if headerIsClear h then
    return ()
  else
    failIf (JournalHeader.magic h ≠ jmagic ∨ JournalHeader.version h ≠ version ∨
      JournalHeader.state h ≠ jCommitted ∨ JournalHeader.count h > journalMaxRecords) .corrupt
    failIf ((headerChecksum h).toNat ≠ JournalHeader.headerChecksum h) .corrupt
    replayRecords (JournalHeader.count h) 0
    journalClear

/-! ## The writes a commit performs -/

/-- The write that clears the journal header. -/
def clearWrite : ℕ × Block := (journalStart, Buf.zero blockSize)

/-- The writes of `writeRecords`. -/
def recordWrites : Tx → ℕ → List (ℕ × Block)
  | [], _ => []
  | r :: tx, i => (descLba i, descBlock r) :: (descLba i + 1, r.payload) :: recordWrites tx (i + 1)

/-- The writes of `writeHome`. -/
def homeWrites (tx : Tx) : List (ℕ × Block) := tx.map fun r ↦ (r.targetLba, r.payload)

/-- The writes up to, and without, the commit record. -/
def prepareWrites (tx : Tx) : List (ℕ × Block) := clearWrite :: recordWrites tx 0

/-- The commit record itself. -/
def commitWrite (tx : Tx) (seq : UInt32) : ℕ × Block := (journalStart, commitHeader seq tx.length)

/-- What replaying a transaction writes; a commit ends the same way. -/
def replayWrites (tx : Tx) : List (ℕ × Block) := homeWrites tx ++ [clearWrite]

/-- All writes of a commit that is not stopped at its commit record. -/
def commitWrites (tx : Tx) (seq : UInt32) : List (ℕ × Block) :=
  prepareWrites tx ++ commitWrite tx seq :: replayWrites tx

theorem writeAll_append (ws vs : List (ℕ × Block)) :
    writeAll (ws ++ vs) = (do writeAll ws; writeAll vs) := by
  induction ws with
  | nil => rfl
  | cons w ws ih =>
    obtain ⟨lba, b⟩ := w
    rw [List.cons_append, writeAll, writeAll, ih, bind_assoc]

theorem writeAll_singleton (w : ℕ × Block) : writeAll [w] = writeBlock w.1 w.2 := by
  rw [writeAll, writeAll]
  exact bind_pure _

/-- A batch that succeeds is on blocks of the device, and all of it has been stored. -/
theorem writeAll_eq_ok {ws : List (ℕ × Block)} {d d' : Blockdev} {u : Unit}
    (h : writeAll ws d = .ok u d') :
    (∀ w ∈ ws, validLba d w.1 = true) ∧ d' = d.storeAll ws := by
  induction ws generalizing d with
  | nil =>
    cases h
    exact ⟨fun w hw ↦ absurd hw List.not_mem_nil, rfl⟩
  | cons w ws ih =>
    rw [writeAll] at h
    obtain ⟨_, d₁, hw, hrest⟩ := bind_eq_ok.1 h
    obtain ⟨hv, -, rfl⟩ := writeBlock_eq_ok.1 hw
    obtain ⟨hvs, rfl⟩ := ih hrest
    refine ⟨fun w' hw' ↦ ?_, (storeAll_cons d w ws).symm⟩
    rcases List.mem_cons.1 hw' with rfl | hmem
    · exact hv
    · exact hvs w' hmem

theorem writeRecords_eq (tx : Tx) (i : ℕ) : writeRecords tx i = writeAll (recordWrites tx i) := by
  induction tx generalizing i with
  | nil => rfl
  | cons r tx ih => rw [writeRecords, recordWrites, writeAll, writeAll, ih]

theorem writeHome_eq (tx : Tx) : writeHome tx = writeAll (homeWrites tx) := by
  induction tx with
  | nil => rfl
  | cons r tx ih => rw [writeHome, ih]; rfl

theorem journalClear_eq : journalClear = writeAll [clearWrite] := by
  rw [writeAll_singleton]; rfl

/-- An uninterrupted commit is one batch of writes. -/
theorem journalCommit_eq {tx : Tx} (h : tx.length ≤ journalMaxRecords) (seq : UInt32) :
    journalCommit tx seq 0 = writeAll (commitWrites tx seq) := by
  have hn : ¬ tx.length > journalMaxRecords := by omega
  simp only [journalCommit, failIf, hn, if_false, pure_bind, ne_eq, not_true_eq_false,
    commitWrites, prepareWrites, replayWrites, commitWrite, List.cons_append, writeAll_append,
    writeAll, writeRecords_eq, writeHome_eq, clearWrite, journalClear, bind_pure_unit]

/-- A commit that stops at its commit record is a prefix of that batch. -/
theorem journalCommit_eq_of_stop {tx : Tx} (h : tx.length ≤ journalMaxRecords) (seq : UInt32)
    {stop : ℤ} (hs : stop ≠ 0) :
    journalCommit tx seq stop = writeAll (prepareWrites tx ++ [commitWrite tx seq]) := by
  have hn : ¬ tx.length > journalMaxRecords := by omega
  simp only [journalCommit, failIf, hn, if_false, pure_bind, ne_eq, hs, not_false_eq_true, if_true,
    prepareWrites, commitWrite, List.cons_append, writeAll_append, writeAll, writeRecords_eq,
    clearWrite, journalClear, bind_pure_unit]

end M16
end Mcsos
