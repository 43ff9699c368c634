import Mcsos.Lib.Notes
import Mcsos.Mcsfs1j.Recovery

/-!
# When recovery is fail-closed

`m16_journal_recover` checks a record and writes its payload before it looks at the next record.  So
an invalid record is found too late if there are valid ones in front of it, and even if all of them
are valid, the first one is written before the others have been looked at.

The order is a matter of what recovery does on the way, and not of the disk it leaves behind.
`journalRecoverNoted` is recovery with notes of what it has checked and written
(`journalRecoverNoted_annotates`), and `FailClosed` is about the disk and the notes.

`replayed d i` is the disk on which record `i` is read.  The loop goes on exactly as long as the
records on these disks are valid and the device accepts writes (`replayRecords_cases`).  The main
result, `failClosed_iff`, comes down to the first record: once it has been written, there must not
be a second one.
-/

set_option autoImplicit false

namespace Mcsos
namespace M16

open Bytes WriteLog Program Notes

/-! ## What recovery checks -/

/-- The header is a commit record. -/
structure HeaderOk (d : Blockdev) : Prop where
  valid : validLba d journalStart = true
  not_clear : headerIsClear (d.blocks journalStart) = false
  magic : JournalHeader.magic (d.blocks journalStart) = jmagic
  version : JournalHeader.version (d.blocks journalStart) = version
  state : JournalHeader.state (d.blocks journalStart) = jCommitted
  count_le : JournalHeader.count (d.blocks journalStart) ≤ journalMaxRecords
  checksum : (headerChecksum (d.blocks journalStart)).toNat
    = JournalHeader.headerChecksum (d.blocks journalStart)

/-- The target of record `i`. -/
abbrev recordTarget (d : Blockdev) (i : ℕ) : ℕ := JournalDesc.targetLba (d.blocks (descLba i))

/-- The payload of record `i`. -/
abbrev recordPayload (d : Blockdev) (i : ℕ) : Block := d.blocks (descLba i + 1)

/-- Record `i` can be read and is valid. -/
structure RecordOk (d : Blockdev) (i : ℕ) : Prop where
  desc_valid : validLba d (descLba i) = true
  payload_valid : validLba d (descLba i + 1) = true
  magic : JournalDesc.magic (d.blocks (descLba i)) = jmagic
  target_valid : validLba d (recordTarget d i) = true
  checksum : (checksumBuf (recordPayload d i)).toNat
    = JournalDesc.payloadChecksum (d.blocks (descLba i))

/-- The number of records of the journal. -/
abbrev recordCount (d : Blockdev) : ℕ := JournalHeader.count (d.blocks journalStart)

/-- A commit record is recognised. -/
theorem headerOk_of_eq {d : Blockdev} {seq : UInt32} {n : ℕ} (hv : validLba d journalStart = true)
    (hd : d.blocks journalStart = commitHeader seq n) (hn : n ≤ journalMaxRecords) :
    HeaderOk d where
  valid := hv
  not_clear := by rw [hd]; exact headerIsClear_commitHeader seq n
  magic := by rw [hd]; exact commitHeader_magic seq n
  version := by rw [hd]; exact commitHeader_version seq n
  state := by rw [hd]; exact commitHeader_state seq n
  count_le := by rw [hd, commitHeader_count seq hn]; exact hn
  checksum := by rw [hd]; exact (commitHeader_headerChecksum seq n).symm

theorem recordCount_of_eq {d : Blockdev} {seq : UInt32} {n : ℕ}
    (hd : d.blocks journalStart = commitHeader seq n) (hn : n ≤ journalMaxRecords) :
    recordCount d = n := by
  rw [recordCount, hd, commitHeader_count seq hn]

/-- The record that a descriptor and a payload block hold. -/
theorem record_of_eq {d : Blockdev} {r : Jrec} {i : ℕ} (hdesc : d.blocks (descLba i) = descBlock r)
    (hr : r.targetLba < maxBlocks) : JournalDesc.magic (d.blocks (descLba i)) = jmagic ∧
      recordTarget d i = r.targetLba ∧ JournalDesc.payloadChecksum (d.blocks (descLba i))
        = (checksumBuf r.payload).toNat := by
  rw [recordTarget, hdesc]
  exact ⟨descBlock_magic r, descBlock_targetLba r hr, descBlock_payloadChecksum r⟩

/-! ## One record -/

/-- What a round of the loop of `m16_journal_recover` checks before it writes; it returns the target
and the payload. -/
def checkRecord (i : ℕ) : M (ℕ × Block) := do
  let d ← readBlock (descLba i)
  let dev ← get
  failIf (JournalDesc.magic d ≠ jmagic ∨ validLba dev (JournalDesc.targetLba d) = false) .corrupt
  let payload ← readBlock (descLba i + 1)
  failIf ((checksumBuf payload).toNat ≠ JournalDesc.payloadChecksum d) .corrupt
  return (JournalDesc.targetLba d, payload)

/-- One round of the loop of `m16_journal_recover`. -/
def replayRecord (i : ℕ) : M Unit := do
  let r ← checkRecord i
  writeBlock r.1 r.2

variable {d d' : Blockdev} {i k n : ℕ}

theorem replayRecords_succ (n i : ℕ) :
    replayRecords (n + 1) i = (do replayRecord i; replayRecords n (i + 1)) := by
  rw [replayRecords, replayRecord, checkRecord]
  simp only [bind_assoc, pure_bind]

theorem replayRecords_concat (n i : ℕ) :
    replayRecords (n + 1) i = (do replayRecords n i; replayRecord (i + n)) := by
  induction n generalizing i with
  | zero =>
    rw [replayRecords_succ]
    exact bind_pure _
  | succ n ih =>
    rw [replayRecords_succ, ih, replayRecords_succ, bind_assoc]
    simp only [Nat.add_assoc, Nat.add_comm 1 n]

theorem RecordOk.checkRecord_eq (h : RecordOk d i) :
    checkRecord i d = .ok (recordTarget d i, recordPayload d i) d := by
  rw [checkRecord, bind_of_ok (readBlock_of_valid h.desc_valid), bind_of_ok (get_apply d),
    bind_of_ok (failIf_of_neg (by simp [h.magic, h.target_valid]) _ _),
    bind_of_ok (readBlock_of_valid h.payload_valid),
    bind_of_ok (failIf_of_neg (by simp [h.checksum]) _ _)]
  rfl

theorem replayRecord_of_ok (h : RecordOk d i) :
    replayRecord i d = writeBlock (recordTarget d i) (recordPayload d i) d :=
  bind_of_ok h.checkRecord_eq

theorem readBlock_of_invalid {lba : ℕ} (h : validLba d lba = false) :
    readBlock lba d = .error .inval d := by
  rw [readBlock, if_neg (by simp [h])]

/-- An invalid record is refused, and the disk stays as it is.  The error is `M16_E_CORRUPT` if the
record can be read at all. -/
theorem checkRecord_of_not_ok (h : ¬ RecordOk d i) :
    ∃ e, checkRecord i d = .error e d ∧
      (validLba d (descLba i) = true → validLba d (descLba i + 1) = true → e = .corrupt) := by
  rw [checkRecord]
  cases h1 : validLba d (descLba i) with
  | false => exact ⟨_, bind_of_error (readBlock_of_invalid h1), nofun⟩
  | true =>
  rw [bind_of_ok (readBlock_of_valid h1), bind_of_ok (get_apply d)]
  by_cases h2 : JournalDesc.magic (d.blocks (descLba i)) ≠ jmagic ∨
      validLba d (recordTarget d i) = false
  · exact ⟨_, bind_of_error (failIf_of_pos h2 _ _), fun _ _ ↦ rfl⟩
  rw [bind_of_ok (failIf_of_neg h2 _ _)]
  rw [not_or, not_not, Bool.not_eq_false] at h2
  cases h3 : validLba d (descLba i + 1) with
  | false => exact ⟨_, bind_of_error (readBlock_of_invalid h3), fun _ ↦ nofun⟩
  | true =>
  rw [bind_of_ok (readBlock_of_valid h3)]
  by_cases h4 : (checksumBuf (recordPayload d i)).toNat
      = JournalDesc.payloadChecksum (d.blocks (descLba i))
  · exact absurd ⟨h1, h3, h2.1, h2.2, h4⟩ h
  · exact ⟨_, bind_of_error (failIf_of_pos h4 _ _), fun _ _ ↦ rfl⟩

theorem replayRecord_of_not_ok (h : ¬ RecordOk d i) :
    ∃ e, replayRecord i d = .error e d ∧
      (validLba d (descLba i) = true → validLba d (descLba i + 1) = true → e = .corrupt) := by
  obtain ⟨e, he, hcorrupt⟩ := checkRecord_of_not_ok h
  exact ⟨e, bind_of_error he, hcorrupt⟩

/-- A round that succeeds has checked a valid record and made one write. -/
theorem replayRecord_eq_ok : replayRecord i d = .ok () d' ↔ RecordOk d i ∧ d.failAfter ≠ 0 ∧
    d' = d.store (recordTarget d i) (recordPayload d i) := by
  by_cases h : RecordOk d i
  · rw [replayRecord_of_ok h]
    by_cases hf : d.failAfter = 0
    · rw [writeBlock_of_eq_zero h.target_valid hf]
      simp [hf]
    · rw [writeBlock_of_ne_zero h.target_valid hf]
      simp [h, hf, eq_comm]
  · obtain ⟨e, he, -⟩ := replayRecord_of_not_ok h
    rw [he]
    simp [h]

/-! ## The records in front of a record -/

/-- The disk on which record `i` is read, if the device has accepted the writes up to there. -/
def replayed (d : Blockdev) : ℕ → Blockdev
  | 0 => d
  | i + 1 => (replayed d i).store (recordTarget (replayed d i) i) (recordPayload (replayed d i) i)

theorem validLba_replayed (d : Blockdev) (i : ℕ) : validLba (replayed d i) = validLba d := by
  induction i with
  | zero => rfl
  | succ i ih => rw [replayed, validLba_store, ih]

theorem failAfter_replayed (d : Blockdev) (i : ℕ) :
    (replayed d i).failAfter
      = if d.failAfter < 0 then d.failAfter else max (d.failAfter - i) 0 := by
  induction i with
  | zero => simp only [replayed]; split <;> omega
  | succ i ih =>
    simp only [replayed, Blockdev.store, ih, Nat.cast_add, Nat.cast_one]
    split <;> split <;> omega

theorem replayed_failAfter_ne_zero : (replayed d i).failAfter ≠ 0 ↔ d.Accepts (i + 1) := by
  rw [failAfter_replayed, Blockdev.Accepts, Nat.cast_add, Nat.cast_one]
  split <;> omega

theorem Blockdev.Accepts.of_le (h : d.Accepts n) (hk : k ≤ n) : d.Accepts k :=
  h.imp_right fun hn ↦ le_trans (Int.ofNat_le.2 hk) hn

/-- What recovery reads of record `i` is the same on both disks. -/
structure SameRecord (d d' : Blockdev) (i : ℕ) : Prop where
  magic : JournalDesc.magic (d'.blocks (descLba i)) = JournalDesc.magic (d.blocks (descLba i))
  target : recordTarget d' i = recordTarget d i
  checksum : JournalDesc.payloadChecksum (d'.blocks (descLba i))
    = JournalDesc.payloadChecksum (d.blocks (descLba i))
  payload : recordPayload d' i = recordPayload d i

theorem sameRecord_of_eq (hdesc : d'.blocks (descLba i) = d.blocks (descLba i))
    (hpay : d'.blocks (descLba i + 1) = d.blocks (descLba i + 1)) : SameRecord d d' i :=
  ⟨congrArg _ hdesc, congrArg _ hdesc, congrArg _ hdesc, hpay⟩

theorem RecordOk.congr (h : RecordOk d i) (hs : SameRecord d d' i) (hv : validLba d' = validLba d) :
    RecordOk d' i where
  desc_valid := (congrFun hv _).trans h.desc_valid
  payload_valid := (congrFun hv _).trans h.payload_valid
  magic := hs.magic.trans h.magic
  target_valid := by rw [hv, hs.target]; exact h.target_valid
  checksum := by rw [hs.payload, hs.checksum]; exact h.checksum

/-! ## The loop -/

/-- The loop gets past the first `k` records. -/
structure Replays (d : Blockdev) (k : ℕ) : Prop where
  ok : ∀ i, i < k → RecordOk (replayed d i) i
  accepts : d.Accepts k

theorem Replays.replayRecords_eq (h : Replays d k) :
    replayRecords k 0 d = .ok () (replayed d k) := by
  induction k with
  | zero => rfl
  | succ k ih =>
    have hk := ih ⟨fun i hi ↦ h.ok i (by omega), h.accepts.of_le (Nat.le_succ k)⟩
    rw [replayRecords_concat, bind_of_ok hk, Nat.zero_add]
    exact replayRecord_eq_ok.2
      ⟨h.ok k (by omega), replayed_failAfter_ne_zero.2 h.accepts, rfl⟩

theorem Replays.of_le (h : Replays d n) (hk : k ≤ n) : Replays d k :=
  ⟨fun i hi ↦ h.ok i (by omega), h.accepts.of_le hk⟩

/-- The first record is written if it is valid and the device is not down. -/
theorem replays_one : Replays d 1 ↔ RecordOk d 0 ∧ d.failAfter ≠ 0 := by
  constructor
  · intro h
    exact ⟨h.ok 0 Nat.one_pos, (replayed_failAfter_ne_zero (i := 0)).2 h.accepts⟩
  · rintro ⟨hok, hf⟩
    refine ⟨fun i hi ↦ ?_, (replayed_failAfter_ne_zero (i := 0)).1 hf⟩
    obtain rfl : i = 0 := by omega
    exact hok

/-- Once the loop has stopped, more rounds make no difference. -/
theorem replayRecords_eq_error {e : Err} (h : replayRecords k 0 d = .error e d') (hk : k ≤ n) :
    replayRecords n 0 d = .error e d' := by
  induction n, hk using Nat.le_induction with
  | base => exact h
  | succ n _ ih => rw [replayRecords_concat, bind_of_error ih]

/-- **Where the loop stops.**  It gets past all records, or past `k` of them and then meets an
invalid one or a device that is down. -/
theorem replayRecords_cases (d : Blockdev) (n : ℕ) :
    Replays d n ∨ ∃ k, k < n ∧ Replays d k ∧
      ((¬ RecordOk (replayed d k) k ∧ ∃ e, replayRecords n 0 d = .error e (replayed d k) ∧
          (validLba d (descLba k) = true → validLba d (descLba k + 1) = true → e = .corrupt)) ∨
        (RecordOk (replayed d k) k ∧ ¬ d.Accepts (k + 1) ∧
          replayRecords n 0 d = .error .io (replayed d k))) := by
  induction n with
  | zero => exact .inl ⟨fun i hi ↦ absurd hi (Nat.not_lt_zero i), by
      rw [Blockdev.Accepts]; omega⟩
  | succ n ih =>
    rcases ih with hr | ⟨k, hk, hr, hstop⟩
    · have hround : replayRecords (n + 1) 0 d = replayRecord n (replayed d n) := by
        rw [replayRecords_concat, bind_of_ok hr.replayRecords_eq, Nat.zero_add]
      by_cases hok : RecordOk (replayed d n) n
      · by_cases hacc : d.Accepts (n + 1)
        · refine .inl ⟨fun i hi ↦ ?_, hacc⟩
          rcases Nat.lt_succ_iff_lt_or_eq.1 hi with hi | rfl
          · exact hr.ok i hi
          · exact hok
        · have hf : (replayed d n).failAfter = 0 :=
            not_not.1 (mt replayed_failAfter_ne_zero.1 hacc)
          refine .inr ⟨n, Nat.lt_succ_self n, hr, .inr ⟨hok, hacc, ?_⟩⟩
          rw [hround, replayRecord_of_ok hok, writeBlock_of_eq_zero hok.target_valid hf]
      · obtain ⟨e, he, hcorrupt⟩ := replayRecord_of_not_ok hok
        rw [validLba_replayed] at hcorrupt
        exact .inr ⟨n, Nat.lt_succ_self n, hr, .inl ⟨hok, e, hround.trans he, hcorrupt⟩⟩
    · refine .inr ⟨k, by omega, hr, hstop.imp ?_ ?_⟩
      · rintro ⟨hok, e, he, hcorrupt⟩
        exact ⟨hok, e, replayRecords_eq_error he (Nat.le_succ n), hcorrupt⟩
      · rintro ⟨hok, hacc, he⟩
        exact ⟨hok, hacc, replayRecords_eq_error he (Nat.le_succ n)⟩

/-! ## Recovery -/

/-- What `m16_journal_recover` checks before it looks at the records; it returns their number, or
nothing if the header is clear. -/
def checkHeader : M (Option ℕ) := do
  let h ← readBlock journalStart
  if headerIsClear h then
    return none
  else
    failIf (JournalHeader.magic h ≠ jmagic ∨ JournalHeader.version h ≠ version ∨
      JournalHeader.state h ≠ jCommitted ∨ JournalHeader.count h > journalMaxRecords) .corrupt
    failIf ((headerChecksum h).toNat ≠ JournalHeader.headerChecksum h) .corrupt
    return some (JournalHeader.count h)

theorem journalRecover_eq : journalRecover = checkHeader >>= fun found ↦
    found.elim (pure ()) fun n ↦ replayRecords n 0 >>= fun _ ↦ journalClear := by
  rw [journalRecover, checkHeader, bind_assoc]
  refine bind_congr fun h ↦ ?_
  cases headerIsClear h with
  | true => rfl
  | false => simp only [Bool.false_eq_true, if_false, bind_assoc, pure_bind, Option.elim]

theorem HeaderOk.checkHeader_eq (h : HeaderOk d) :
    checkHeader d = .ok (some (recordCount d)) d := by
  rw [checkHeader, bind_of_ok (readBlock_of_valid h.valid), if_neg (by simp [h.not_clear]),
    bind_of_ok (failIf_of_neg (by simp [h.magic, h.version, h.state, h.count_le]) _ _),
    bind_of_ok (failIf_of_neg (not_not.2 h.checksum) _ _)]
  rfl

theorem checkHeader_of_not_headerOk (h : ¬ HeaderOk d) :
    checkHeader d = .ok none d ∧ headerIsClear (d.blocks journalStart) = true ∨
      ∃ e, checkHeader d = .error e d := by
  rw [checkHeader]
  cases h1 : validLba d journalStart with
  | false => exact .inr ⟨_, bind_of_error (readBlock_of_invalid h1)⟩
  | true =>
  rw [bind_of_ok (readBlock_of_valid h1)]
  cases h2 : headerIsClear (d.blocks journalStart) with
  | true => exact .inl ⟨rfl, rfl⟩
  | false =>
  rw [if_neg Bool.false_ne_true]
  by_cases h3 : JournalHeader.magic (d.blocks journalStart) ≠ jmagic ∨
      JournalHeader.version (d.blocks journalStart) ≠ version ∨
      JournalHeader.state (d.blocks journalStart) ≠ jCommitted ∨
      JournalHeader.count (d.blocks journalStart) > journalMaxRecords
  · exact .inr ⟨_, bind_of_error (failIf_of_pos h3 _ _)⟩
  rw [bind_of_ok (failIf_of_neg h3 _ _)]
  by_cases h4 : (headerChecksum (d.blocks journalStart)).toNat
      ≠ JournalHeader.headerChecksum (d.blocks journalStart)
  · exact .inr ⟨_, bind_of_error (failIf_of_pos h4 _ _)⟩
  · simp only [not_or, not_not, not_lt] at h3
    exact absurd ⟨h1, h2, h3.1, h3.2.1, h3.2.2.1, h3.2.2.2, not_not.1 h4⟩ h

/-- Without a commit record there is nothing to replay: recovery returns at once, and calls the
journal empty only if its header is clear. -/
theorem journalRecover_of_not_headerOk (h : ¬ HeaderOk d) :
    journalRecover d = .ok () d ∧ headerIsClear (d.blocks journalStart) = true ∨
      ∃ e, journalRecover d = .error e d := by
  rw [journalRecover_eq]
  rcases checkHeader_of_not_headerOk h with ⟨hc, hclear⟩ | ⟨e, he⟩
  · exact .inl ⟨bind_of_ok hc, hclear⟩
  · exact .inr ⟨e, bind_of_error he⟩

theorem after_journalRecover_of_not_headerOk (h : ¬ HeaderOk d) : after journalRecover d = d := by
  rcases journalRecover_of_not_headerOk h with ⟨hr, -⟩ | ⟨e, hr⟩
  · exact after_of_ok hr
  · exact after_of_error hr

theorem HeaderOk.recover_eq (h : HeaderOk d) :
    journalRecover d = (replayRecords (recordCount d) 0 >>= fun _ ↦ journalClear) d := by
  rw [journalRecover_eq, bind_of_ok h.checkHeader_eq]
  rfl

theorem HeaderOk.recover_of_error {e : Err} (h : HeaderOk d)
    (he : replayRecords (recordCount d) 0 d = .error e d') : journalRecover d = .error e d' := by
  rw [h.recover_eq, bind_of_error he]

theorem HeaderOk.valid_replayed (h : HeaderOk d) (k : ℕ) :
    validLba (replayed d k) journalStart = true := by
  rw [validLba_replayed]
  exact h.valid

/-- When the loop gets past all records, the header is cleared. -/
theorem HeaderOk.recover_of_replays (h : HeaderOk d) (hr : Replays d (recordCount d)) :
    journalRecover d = journalClear (replayed d (recordCount d)) := by
  rw [h.recover_eq, bind_of_ok hr.replayRecords_eq]

/-- Recovery succeeds if the loop gets past all records and the header can be cleared. -/
theorem HeaderOk.recover_eq_ok_iff (h : HeaderOk d) : journalRecover d = .ok () d' ↔
    Replays d (recordCount d) ∧ d.Accepts (recordCount d + 1) ∧
      d' = (replayed d (recordCount d)).store journalStart (Buf.zero blockSize) := by
  have hv := h.valid_replayed (recordCount d)
  rw [← replayed_failAfter_ne_zero]
  constructor
  · intro hok
    rcases replayRecords_cases d (recordCount d) with
      hr | ⟨k, hk, hr, ⟨-, e, he, -⟩ | ⟨-, -, he⟩⟩
    · rw [h.recover_of_replays hr, journalClear] at hok
      refine ⟨hr, fun hf ↦ ?_, eq_store_of_writeBlock_eq_ok hok⟩
      rw [writeBlock_of_eq_zero hv hf] at hok
      cases hok
    · rw [h.recover_of_error he] at hok
      cases hok
    · rw [h.recover_of_error he] at hok
      cases hok
  · rintro ⟨hr, hf, rfl⟩
    rw [h.recover_of_replays hr]
    exact writeBlock_of_ne_zero hv hf

/-- Recovery finds a journal corrupt at the first record that is invalid on the disk it is read
from, and leaves that disk. -/
theorem HeaderOk.eq_replayed_of_corrupt (h : HeaderOk d)
    (hc : journalRecover d = .error .corrupt d') :
    ∃ k, k < recordCount d ∧ Replays d k ∧ ¬ RecordOk (replayed d k) k ∧ d' = replayed d k := by
  rcases replayRecords_cases d (recordCount d) with
    hr | ⟨k, hk, hr, ⟨hok, e, he, -⟩ | ⟨-, -, he⟩⟩
  · -- clearing the header can fail, but not in this way
    rw [h.recover_eq, bind_of_ok hr.replayRecords_eq, journalClear, writeBlock] at hc
    split at hc
    · cases hc
    · split at hc <;> cases hc
  · rw [h.recover_of_error he] at hc
    cases hc
    exact ⟨k, hk, hr, hok, rfl⟩
  · rw [h.recover_of_error he] at hc
    cases hc

theorem HeaderOk.recover_corrupt (h : HeaderOk d) (hk : k < recordCount d) (hr : Replays d k)
    (hok : ¬ RecordOk (replayed d k) k) (hv1 : validLba d (descLba k) = true)
    (hv2 : validLba d (descLba k + 1) = true) :
    journalRecover d = .error .corrupt (replayed d k) := by
  obtain ⟨e, he, hcorrupt⟩ := replayRecord_of_not_ok hok
  rw [validLba_replayed] at hcorrupt
  obtain rfl := hcorrupt hv1 hv2
  have hround : replayRecords (k + 1) 0 d = .error .corrupt (replayed d k) := by
    rw [replayRecords_concat, bind_of_ok hr.replayRecords_eq, Nat.zero_add, he]
  exact h.recover_of_error (replayRecords_eq_error hround hk)

/-! ## Recovery with notes -/

/-- What there is to note about recovery. -/
inductive Note
  /-- Record `i` has passed all checks. -/
  | validated (i : ℕ)
  /-- A payload has been written to its target. -/
  | wrote (lba : ℕ)
  deriving DecidableEq, Repr

/-- `replayRecord` with notes. -/
def replayRecordNoted (i : ℕ) : EStateM Err (Blockdev × List Note) Unit := do
  let r ← silent (checkRecord i)
  note (.validated i)
  silent (writeBlock r.1 r.2)
  note (.wrote r.1)

/-- `replayRecords` with notes. -/
def replayRecordsNoted : ℕ → ℕ → EStateM Err (Blockdev × List Note) Unit
  | 0, _ => pure ()
  | n + 1, i => do
    replayRecordNoted i
    replayRecordsNoted n (i + 1)

/-- `journalRecover` with notes.  Clearing the header is not a write to a target. -/
def journalRecoverNoted : EStateM Err (Blockdev × List Note) Unit := do
  let found ← silent checkHeader
  found.elim (pure ()) fun n ↦ do
    replayRecordsNoted n 0
    silent journalClear

theorem replayRecordNoted_annotates (i : ℕ) : Annotates (replayRecordNoted i) (replayRecord i) :=
  (annotates_silent _).bind fun _ ↦ ((annotates_silent _).bind_note _).note_bind _

theorem replayRecordsNoted_annotates (n i : ℕ) :
    Annotates (replayRecordsNoted n i) (replayRecords n i) := by
  induction n generalizing i with
  | zero => exact annotates_pure ()
  | succ n ih =>
    rw [replayRecords_succ]
    exact (replayRecordNoted_annotates i).bind fun _ ↦ ih (i + 1)

/-- The notes are about the recovery of the source. -/
theorem journalRecoverNoted_annotates : Annotates journalRecoverNoted journalRecover := by
  rw [journalRecover_eq]
  refine (annotates_silent _).bind fun found ↦ ?_
  cases found with
  | none => exact annotates_pure ()
  | some n => exact (replayRecordsNoted_annotates n 0).bind fun _ ↦ annotates_silent _

/-- The notes of a recovery, first to last. -/
def recoveryNotes (d : Blockdev) : List Note := (after journalRecoverNoted (d, [])).2

/-- **Fail-closed recovery**: a corrupt journal leaves every block as it was, and before a payload
is written to its target, all records of the journal have been validated. -/
structure FailClosed (d : Blockdev) : Prop where
  unchanged : ∀ d', journalRecover d = .error .corrupt d' → d'.blocks = d.blocks
  ordered : ∀ earlier lba later, recoveryNotes d = earlier ++ .wrote lba :: later →
    ∀ i, i < recordCount d → .validated i ∈ earlier

/-! ## What is noted -/

theorem recoveryNotes_of_not_headerOk (h : ¬ HeaderOk d) : recoveryNotes d = [] := by
  rw [recoveryNotes, journalRecoverNoted]
  rcases checkHeader_of_not_headerOk h with ⟨hc, -⟩ | ⟨e, he⟩
  · rw [after_bind_of_ok (silent_of_ok hc [])]
    rfl
  · rw [after_of_error (bind_of_error (silent_of_error he []))]

theorem HeaderOk.recoveryNotes_eq (h : HeaderOk d) : recoveryNotes d =
    (after (replayRecordsNoted (recordCount d) 0 >>= fun _ ↦ silent journalClear) (d, [])).2 := by
  rw [recoveryNotes, journalRecoverNoted, after_bind_of_ok (silent_of_ok h.checkHeader_eq [])]
  rfl

theorem replayRecordNoted_of_ok (h : RecordOk d i) (hf : d.failAfter ≠ 0) (ns : List Note) :
    replayRecordNoted i (d, ns) = .ok () (d.store (recordTarget d i) (recordPayload d i),
      ns ++ [.validated i] ++ [.wrote (recordTarget d i)]) := by
  rw [replayRecordNoted, bind_of_ok (silent_of_ok h.checkRecord_eq ns),
    bind_of_ok (note_apply _ _ _),
    bind_of_ok (silent_of_ok (writeBlock_of_ne_zero h.target_valid hf) _), note_apply]

/-- A record that is invalid or cannot be written is not noted as written. -/
theorem replayRecordNoted_of_not (h : ¬ (RecordOk d i ∧ d.failAfter ≠ 0)) :
    ∃ e d' ns, replayRecordNoted i (d, []) = .error e (d', ns) ∧ ∀ lba, .wrote lba ∉ ns := by
  by_cases hok : RecordOk d i
  · have hf : d.failAfter = 0 := not_not.1 fun hf ↦ h ⟨hok, hf⟩
    have hw := silent_of_error
      (writeBlock_of_eq_zero (b := recordPayload d i) hok.target_valid hf) [Note.validated i]
    refine ⟨.io, d, [.validated i], ?_, by simp⟩
    rw [replayRecordNoted, bind_of_ok (silent_of_ok hok.checkRecord_eq []),
      bind_of_ok (note_apply _ _ _), List.nil_append, bind_of_error hw]
  · obtain ⟨e, he, -⟩ := checkRecord_of_not_ok hok
    exact ⟨e, d, [], bind_of_error (silent_of_error he []), by simp⟩

theorem appends_replayRecordsNoted (n i : ℕ) : Appends (replayRecordsNoted n i) := by
  induction n generalizing i with
  | zero => exact appends_pure ()
  | succ n ih =>
    have hround : Appends (replayRecordNoted i) := (appends_silent _).bind fun _ ↦
      (appends_note _).bind fun _ ↦ (appends_silent _).bind fun _ ↦ appends_note _
    exact hround.bind fun _ ↦ ih (i + 1)

/-- The first round comes first. -/
theorem HeaderOk.recoveryNotes_of_pos (h : HeaderOk d) (hpos : 0 < recordCount d) :
    recoveryNotes d = (after (replayRecordNoted 0 >>= fun _ ↦
      replayRecordsNoted (recordCount d - 1) 1 >>= fun _ ↦ silent journalClear) (d, [])).2 := by
  rw [h.recoveryNotes_eq, show recordCount d = recordCount d - 1 + 1 by omega, replayRecordsNoted,
    bind_assoc, Nat.add_sub_cancel]

/-- If the first record is not written, no record is. -/
theorem wrote_notMem_recoveryNotes (h : HeaderOk d) (hpos : 0 < recordCount d)
    (hn : ¬ (RecordOk d 0 ∧ d.failAfter ≠ 0)) (lba : ℕ) : .wrote lba ∉ recoveryNotes d := by
  obtain ⟨e, d', ns, hr, hns⟩ := replayRecordNoted_of_not hn
  rw [h.recoveryNotes_of_pos hpos, after_of_error (bind_of_error hr)]
  exact hns lba

/-- If the first record is written, the notes begin with it. -/
theorem prefix_recoveryNotes (h : HeaderOk d) (hpos : 0 < recordCount d) (hok : RecordOk d 0)
    (hf : d.failAfter ≠ 0) : [.validated 0, .wrote (recordTarget d 0)] <+: recoveryNotes d := by
  have hrest : Appends (replayRecordsNoted (recordCount d - 1) 1 >>= fun _ ↦ silent journalClear) :=
    (appends_replayRecordsNoted _ 1).bind fun _ ↦ appends_silent _
  rw [h.recoveryNotes_of_pos hpos, after_bind_of_ok (replayRecordNoted_of_ok hok hf [])]
  exact hrest (_, [.validated 0, .wrote (recordTarget d 0)])

/-! ## The main result -/

/-- **Exactly when recovery is fail-closed.**  It must not get to write the first record of a
journal that has more of them: the header is no commit record, or the first record is invalid, or
the device refuses to write it, or there is no other record. -/
theorem failClosed_iff (d : Blockdev) : FailClosed d ↔
    (HeaderOk d → RecordOk d 0 → d.failAfter ≠ 0 → recordCount d ≤ 1) := by
  constructor
  · intro h hh hok hf
    by_contra hcount
    obtain ⟨later, hnotes⟩ := prefix_recoveryNotes hh (by omega) hok hf
    have hmem := h.ordered [.validated 0] _ later hnotes.symm 1 (by omega)
    simp at hmem
  · intro h
    refine ⟨fun d' hc ↦ ?_, fun earlier lba later hnotes i hi ↦ ?_⟩
    · by_cases hh : HeaderOk d
      · obtain ⟨k, hk, hr, -, rfl⟩ := hh.eq_replayed_of_corrupt hc
        obtain rfl : k = 0 := by
          by_contra hk0
          obtain ⟨hok, hf⟩ := replays_one.1 (hr.of_le (Nat.one_le_iff_ne_zero.2 hk0))
          have := h hh hok hf
          omega
        rfl
      · rw [← after_of_error hc, after_journalRecover_of_not_headerOk hh]
    · have hmem : .wrote lba ∈ recoveryNotes d := by simp [hnotes]
      have hh : HeaderOk d := by
        by_contra hh
        simp [recoveryNotes_of_not_headerOk hh] at hmem
      obtain ⟨hok, hf⟩ : RecordOk d 0 ∧ d.failAfter ≠ 0 := by
        by_contra hn
        exact wrote_notMem_recoveryNotes hh (by omega) hn lba hmem
      -- there is one record, and its note stands in front
      obtain rfl : i = 0 := by
        have := h hh hok hf
        omega
      obtain ⟨rest, hrest⟩ := prefix_recoveryNotes hh hi hok hf
      rw [hnotes] at hrest
      cases earlier with
      | nil => simp at hrest
      | cons n earlier => simp_all

/-- A record for the first data block. -/
def firstRecord : Jrec := ⟨dataStartLba, (Buf.zero blockSize).setField 0 4 7⟩

/-- A committed journal of two records, the second of which has no descriptor. -/
def badSecondRecord : Blockdev :=
  { devInit with
    blocks := fun x ↦
      if x = journalStart then commitHeader 1 2
      else if x = descLba 0 then descBlock firstRecord
      else if x = descLba 0 + 1 then firstRecord.payload
      else Buf.zero blockSize }

/-- Recovery calls this journal corrupt, and has overwritten a data block by then. -/
theorem recovery_not_failClosed :
    ∃ d', journalRecover badSecondRecord = .error .corrupt d' ∧
      d'.blocks dataStartLba ≠ badSecondRecord.blocks dataStartLba := by
  have hvalid : ∀ {x}, x < maxBlocks → validLba badSecondRecord x = true := fun hx ↦
    valid_of_lt rfl hx
  have hheader : badSecondRecord.blocks journalStart = commitHeader 1 2 := rfl
  have hpay : recordPayload badSecondRecord 0 = firstRecord.payload := rfl
  have h := headerOk_of_eq (hvalid (by decide)) hheader (by decide)
  have hcount := recordCount_of_eq hheader (by decide)
  obtain ⟨hmagic, htarget, hsum⟩ := record_of_eq (d := badSecondRecord) (i := 0) (r := firstRecord)
    rfl (by decide)
  have h0 : RecordOk badSecondRecord 0 := by
    refine ⟨hvalid (by decide), hvalid (by decide), hmagic, ?_, hsum.symm⟩
    rw [htarget]
    exact hvalid (by decide)
  have hr : Replays badSecondRecord 1 := replays_one.2 ⟨h0, by decide⟩
  have hblocks : (replayed badSecondRecord 1).blocks
      = Function.update badSecondRecord.blocks dataStartLba firstRecord.payload := by
    rw [replayed, replayed, store_blocks, htarget, hpay]
    rfl
  have h1 : ¬ RecordOk (replayed badSecondRecord 1) 1 := by
    intro hok
    have hmagic := hok.magic
    rw [hblocks, Function.update_of_ne (by decide)] at hmagic
    exact absurd hmagic (by decide +kernel)
  refine ⟨_, h.recover_corrupt (by rw [hcount]; decide) hr h1 (hvalid (by decide))
    (hvalid (by decide)), ?_⟩
  rw [hblocks, Function.update_self]
  exact fun heq ↦ absurd (congrArg (Buf.field · 0 4) heq) (by decide +kernel)

end M16
end Mcsos
