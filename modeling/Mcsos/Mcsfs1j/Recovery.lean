import Mcsos.Lib.Program
import Mcsos.Mcsfs1j.Journal

/-!
# Recovery after a crash

The blocks outside the journal area are the *home* blocks.  `Logical B h` says what a disk `B` is
worth: either its journal is empty and its home blocks are those of `h`, or a transaction is
committed in its journal and its home blocks become those of `h` once the transaction is replayed.

Two facts about it carry everything that follows.

* A commit over an empty journal leaves a disk that is worth the old home blocks as long as the
  commit record has not been written, and worth the new ones from that write on
  (`logical_commit_of_lt`, `logical_commit_of_ge`).  The commit record is write number
  `2 * count + 2`.
* Recovery does not change what a disk is worth, wherever it is cut off (`logical_replay`).

The first rests on the journal's records being complete before the header that makes them count is
written, so that no record of an older transaction is ever read back; the second on replay being
idempotent.  `journalCommit_atomic` puts them together for a commit that is cut off, followed by
any number of recoveries that are cut off, followed by one that is not.
-/

set_option autoImplicit false

namespace Mcsos
namespace M16

open Bytes WriteLog Program

/-! ## Reading the journal back -/

section Header

variable (seq : UInt32)

theorem uint32_toNat_lt (x : UInt32) : x.toNat < 256 ^ 4 := x.toNat_lt

@[simp] theorem commitHeader_magic (n : ℕ) : JournalHeader.magic (commitHeader seq n) = jmagic := by
  simp (disch := first | decide | omega) [JournalHeader.magic, commitHeader,
    Buf.field_setField_same, Buf.field_setField_of_disjoint]

@[simp] theorem commitHeader_version (n : ℕ) :
    JournalHeader.version (commitHeader seq n) = version := by
  simp (disch := first | decide | omega) [JournalHeader.version, commitHeader,
    Buf.field_setField_same, Buf.field_setField_of_disjoint]

@[simp] theorem commitHeader_state (n : ℕ) :
    JournalHeader.state (commitHeader seq n) = jCommitted := by
  simp (disch := first | decide | omega) [JournalHeader.state, commitHeader,
    Buf.field_setField_same, Buf.field_setField_of_disjoint]

theorem commitHeader_count {n : ℕ} (h : n ≤ journalMaxRecords) :
    JournalHeader.count (commitHeader seq n) = n := by
  have hn : n < 256 ^ 4 := lt_of_le_of_lt h (by decide)
  simp (disch := first | decide | omega | assumption) [JournalHeader.count, commitHeader,
    Buf.field_setField_same, Buf.field_setField_of_disjoint]

/-- The stored checksum is that of the header with a zero in its place. -/
theorem commitHeader_headerChecksum (n : ℕ) :
    JournalHeader.headerChecksum (commitHeader seq n)
      = (headerChecksum (commitHeader seq n)).toNat := by
  rw [headerChecksum, commitHeader, Buf.setField_setField_self, JournalHeader.headerChecksum,
    Buf.field_setField_same (by decide) (uint32_toNat_lt _), headerChecksum]

theorem headerIsClear_zero : headerIsClear (Buf.zero blockSize) = true := by
  simp [headerIsClear, JournalHeader.magic, JournalHeader.state]

theorem headerIsClear_commitHeader (n : ℕ) : headerIsClear (commitHeader seq n) = false := by
  simp [headerIsClear]

end Header

section Desc

variable (r : Jrec)

theorem descBlock_magic : JournalDesc.magic (descBlock r) = jmagic := by
  simp (disch := first | decide | omega) [JournalDesc.magic, descBlock, Buf.field_setField_same,
    Buf.field_setField_of_disjoint]

theorem descBlock_targetLba (h : r.targetLba < maxBlocks) :
    JournalDesc.targetLba (descBlock r) = r.targetLba := by
  have hr : r.targetLba < 256 ^ 4 := lt_trans h (by decide)
  simp (disch := first | decide | omega | assumption) [JournalDesc.targetLba, descBlock,
    Buf.field_setField_same, Buf.field_setField_of_disjoint]

theorem descBlock_payloadChecksum :
    JournalDesc.payloadChecksum (descBlock r) = (checksumBuf r.payload).toNat := by
  rw [JournalDesc.payloadChecksum, descBlock,
    Buf.field_setField_same (by decide) (uint32_toNat_lt _)]

end Desc

/-! ## A committed transaction -/

/-- Addresses of the journal area. -/
def InJournal (x : ℕ) : Prop := journalStart ≤ x ∧ x < inodeBitmapLba

/-- Addresses outside the journal area. -/
def IsHome (x : ℕ) : Prop := ¬ InJournal x

theorem isHome_zero : IsHome 0 := fun h ↦ absurd h.1 (by decide)

theorem isHome_of_ge {x : ℕ} (h : inodeBitmapLba ≤ x) : IsHome x := fun hj ↦
  absurd hj.2 (not_lt.2 h)

/-- A transaction that fits the journal and writes to home blocks behind it only. -/
structure TxOk (tx : Tx) : Prop where
  length_le : tx.length ≤ journalMaxRecords
  target_ge : ∀ r ∈ tx, inodeBitmapLba ≤ r.targetLba
  target_lt : ∀ r ∈ tx, r.targetLba < maxBlocks

/-- The journal of the disk `B` holds the transaction `tx`, commit record and all. -/
structure Committed (B : ℕ → Block) (tx : Tx) (seq : UInt32) : Prop where
  ok : TxOk tx
  header : B journalStart = commitHeader seq tx.length
  desc : ∀ i r, tx[i]? = some r → B (descLba i) = descBlock r
  payload : ∀ i r, tx[i]? = some r → B (descLba i + 1) = r.payload

variable {B : ℕ → Block} {tx : Tx} {seq : UInt32} {d : Blockdev}

/-- The journal area has room for eight records. -/
theorem descLba_bounds {i : ℕ} (h : i < journalMaxRecords) :
    journalStart < descLba i ∧ descLba i + 1 < inodeBitmapLba := by
  simp only [journalMaxRecords, journalStart, descLba, inodeBitmapLba, journalBlocks] at *
  omega

/-- Writes to home blocks leave the journal as it is. -/
theorem Committed.of_agree {B' : ℕ → Block} (h : Committed B tx seq)
    (hB : AgreeOn InJournal B' B) : Committed B' tx seq := by
  have hi : ∀ i r, tx[i]? = some r → i < journalMaxRecords := fun i r hr ↦
    lt_of_lt_of_le (List.getElem?_eq_some_iff.1 hr).1 h.ok.length_le
  refine ⟨h.ok, ?_, fun i r hr ↦ ?_, fun i r hr ↦ ?_⟩
  · rw [hB _ ⟨le_rfl, by decide⟩, h.header]
  · have hb := descLba_bounds (hi i r hr)
    rw [hB _ ⟨hb.1.le, by omega⟩, h.desc i r hr]
  · have hb := descLba_bounds (hi i r hr)
    rw [hB _ ⟨by omega, hb.2⟩, h.payload i r hr]

theorem TxOk.isHome (h : TxOk tx) : ∀ w ∈ homeWrites tx, IsHome w.1 := by
  intro w hw
  obtain ⟨r, hr, rfl⟩ := List.mem_map.1 hw
  exact isHome_of_ge (h.target_ge r hr)

/-- Any part of the replay writes to home blocks, so the transaction stays committed. -/
theorem Committed.applyAll_take (h : Committed B tx seq) (m : ℕ) :
    Committed (applyAll ((homeWrites tx).take m) B) tx seq :=
  h.of_agree ((AgreeOn.refl B).applyAll_left fun w hw ↦ h.ok.isHome w (List.mem_of_mem_take hw))

theorem valid_of_lt (h128 : d.totalBlocks = maxBlocks) {lba : ℕ} (h : lba < maxBlocks) :
    validLba d lba = true :=
  validLba_iff.2 ⟨h128 ▸ h, h⟩

theorem dataStart_le (h128 : d.totalBlocks = maxBlocks) : dataStartLba ≤ d.totalBlocks := by
  rw [h128]
  decide

/-- A device that can be formatted at all has all the blocks before the data blocks. -/
theorem valid_of_lt_dataStart (hT : dataStartLba ≤ d.totalBlocks) {lba : ℕ}
    (h : lba < dataStartLba) : validLba d lba = true :=
  validLba_iff.2 ⟨h.trans_le hT, h.trans (by decide)⟩

theorem TxOk.valid_target (ht : TxOk tx) (h128 : d.totalBlocks = maxBlocks) :
    ∀ r ∈ tx, validLba d r.targetLba = true :=
  fun r hr ↦ valid_of_lt h128 (ht.target_lt r hr)

/-- The replay loop on a committed journal writes the remaining records home. -/
theorem replayRecords_of_committed {n i : ℕ} (hc : Committed d.blocks tx seq)
    (h128 : d.totalBlocks = maxBlocks) (hn : i + n = tx.length) :
    replayRecords n i d = writeAll (homeWrites (tx.drop i)) d := by
  induction n generalizing i d with
  | zero =>
    rw [List.drop_of_length_le (by omega)]
    rfl
  | succ n ih =>
    have hi : i < tx.length := by omega
    have hr : tx[i]? = some tx[i] := List.getElem?_eq_getElem hi
    have hmem : tx[i] ∈ tx := List.getElem_mem hi
    have hlen := hc.ok.length_le
    have hb := descLba_bounds (lt_of_lt_of_le hi hlen)
    have hv1 : validLba d (descLba i) = true :=
      valid_of_lt h128 (lt_trans (lt_trans (Nat.lt_succ_self _) hb.2) (by decide))
    have hv2 : validLba d (descLba i + 1) = true := valid_of_lt h128 (lt_trans hb.2 (by decide))
    have ht : JournalDesc.targetLba (descBlock tx[i]) = tx[i].targetLba :=
      descBlock_targetLba _ (hc.ok.target_lt _ hmem)
    have hv3 : validLba d tx[i].targetLba = true := hc.ok.valid_target h128 _ hmem
    rw [List.drop_eq_getElem_cons hi]
    show replayRecords (n + 1) i d
      = (writeBlock tx[i].targetLba tx[i].payload >>= fun _ ↦
          writeAll (homeWrites (tx.drop (i + 1)))) d
    rw [replayRecords, bind_of_ok (readBlock_of_valid hv1), hc.desc i _ hr,
      bind_of_ok (get_apply d), bind_of_ok (failIf_of_neg (by simp [descBlock_magic, ht, hv3]) _ _),
      bind_of_ok (readBlock_of_valid hv2), hc.payload i _ hr,
      bind_of_ok (failIf_of_neg (by simp [descBlock_payloadChecksum]) _ _), ht]
    refine bind_congr_at rfl fun _ d' hw ↦ ?_
    obtain rfl := eq_store_of_writeBlock_eq_ok hw
    have hhome : IsHome tx[i].targetLba :=
      hc.ok.isHome (tx[i].targetLba, tx[i].payload) (List.mem_map.2 ⟨_, hmem, rfl⟩)
    exact ih (hc.of_agree ((AgreeOn.refl _).update_left hhome _)) h128 (by omega)

theorem journalRecover_of_clear (hT : dataStartLba ≤ d.totalBlocks)
    (hc : headerIsClear (d.blocks journalStart) = true) : journalRecover d = .ok () d := by
  rw [journalRecover, bind_of_ok (readBlock_of_valid (valid_of_lt_dataStart hT (by decide))),
    if_pos hc]
  rfl

/-- Recovery of a committed journal is one batch of writes. -/
theorem journalRecover_of_committed (h128 : d.totalBlocks = maxBlocks)
    (hc : Committed d.blocks tx seq) : journalRecover d = writeAll (replayWrites tx) d := by
  have hlen := hc.ok.length_le
  rw [journalRecover, bind_of_ok (readBlock_of_valid (valid_of_lt h128 (by decide))), hc.header,
    if_neg (by simp [headerIsClear_commitHeader]),
    bind_of_ok (failIf_of_neg (by simpa [commitHeader_count seq hlen] using hlen) _ _),
    bind_of_ok (failIf_of_neg (by simp [commitHeader_headerChecksum]) _ _),
    commitHeader_count seq hlen, replayWrites, writeAll_append, journalClear_eq]
  refine bind_congr_at ?_ fun _ _ _ ↦ rfl
  rw [replayRecords_of_committed hc h128 (by omega), List.drop_zero]

/-! ## What a disk is worth -/

/-- Recovery makes `h` of the home blocks of the disk `B`. -/
inductive Logical (B h : ℕ → Block) : Prop
  | clear (hc : headerIsClear (B journalStart) = true) (ha : AgreeOn IsHome B h)
  | committed (tx : Tx) (seq : UInt32) (hc : Committed B tx seq)
      (ha : AgreeOn IsHome (applyAll (homeWrites tx) B) h)

variable {h : ℕ → Block}

theorem Logical.congr {h' : ℕ → Block} (hl : Logical B h) (hh : AgreeOn IsHome h h') :
    Logical B h' := by
  cases hl with
  | clear hc ha => exact .clear hc (ha.trans hh)
  | committed tx seq hc ha => exact .committed tx seq hc (ha.trans hh)

/-- A clear header that `m16_journal_clear` has written, or that was all zero to begin with. -/
def ZeroIfClear (B : ℕ → Block) : Prop :=
  headerIsClear (B journalStart) = true → B journalStart = Buf.zero blockSize

theorem not_isHome_journalStart : ¬ IsHome journalStart := fun h ↦ h ⟨le_rfl, by decide⟩

theorem length_homeWrites (tx : Tx) : (homeWrites tx).length = tx.length := List.length_map _

theorem length_recordWrites (tx : Tx) (i : ℕ) : (recordWrites tx i).length = 2 * tx.length := by
  induction tx generalizing i with
  | nil => rfl
  | cons r tx ih =>
    rw [recordWrites, List.length_cons, List.length_cons, ih, List.length_cons]
    omega

theorem length_prepareWrites (tx : Tx) : (prepareWrites tx).length = 2 * tx.length + 1 := by
  rw [prepareWrites, List.length_cons, length_recordWrites]

/-- The records of a transaction go to the journal blocks behind the header. -/
theorem mem_recordWrites {tx : Tx} {i : ℕ} {w : ℕ × Block} (hw : w ∈ recordWrites tx i) :
    descLba i ≤ w.1 ∧ w.1 < descLba (i + tx.length) := by
  induction tx generalizing i with
  | nil => simp [recordWrites] at hw
  | cons r tx ih =>
    rw [recordWrites, List.mem_cons, List.mem_cons] at hw
    rw [List.length_cons]
    obtain rfl | rfl | hw := hw
    · simp only [descLba]; omega
    · simp only [descLba]; omega
    · have := ih hw
      simp only [descLba] at *; omega

theorem TxOk.recordWrites_inJournal (ht : TxOk tx) {w : ℕ × Block} (hw : w ∈ recordWrites tx 0) :
    journalStart < w.1 ∧ w.1 < inodeBitmapLba := by
  have hb := mem_recordWrites hw
  have hlen := ht.length_le
  simp only [descLba, journalMaxRecords, journalStart, inodeBitmapLba, journalBlocks] at *
  omega

/-- Once all records are written, the journal holds them. -/
theorem applyAll_recordWrites (tx : Tx) (k : ℕ) (B : ℕ → Block) {i : ℕ} {r : Jrec}
    (hr : tx[i]? = some r) :
    applyAll (recordWrites tx k) B (descLba (k + i)) = descBlock r ∧
      applyAll (recordWrites tx k) B (descLba (k + i) + 1) = r.payload := by
  induction tx generalizing k B i with
  | nil => simp at hr
  | cons r' tx ih =>
    rw [recordWrites, applyAll_cons, applyAll_cons]
    cases i with
    | zero =>
      obtain rfl : r' = r := by simpa using hr
      -- later records go to later blocks
      have hlt : ∀ w ∈ recordWrites tx (k + 1), descLba k + 1 < w.1 := fun w hw ↦ by
        have := (mem_recordWrites hw).1
        simp only [descLba] at *; omega
      simp only [Nat.add_zero]
      constructor
      · rw [applyAll_of_forall_ne fun w hw ↦ by have := hlt w hw; omega,
          Function.update_of_ne (by omega), Function.update_self]
      · rw [applyAll_of_forall_ne fun w hw ↦ by have := hlt w hw; omega, Function.update_self]
    | succ i =>
      rw [show k + (i + 1) = k + 1 + i by omega]
      exact ih (k + 1) _ (by simpa using hr)

/-! ## Cutting off a commit -/

/-- As long as the commit record is not on the disk, the home blocks are the old ones and the
header is the old one or zero. -/
theorem applyAll_commitWrites_of_lt (seq : UInt32) (ht : TxOk tx) {k : ℕ}
    (hk : k < 2 * tx.length + 2) :
    (applyAll ((commitWrites tx seq).take k) B journalStart = B journalStart ∨
        applyAll ((commitWrites tx seq).take k) B journalStart = Buf.zero blockSize) ∧
      AgreeOn IsHome (applyAll ((commitWrites tx seq).take k) B) B := by
  rw [commitWrites, List.take_append_of_le_length (by rw [length_prepareWrites]; omega)]
  constructor
  · cases k with
    | zero => exact .inl rfl
    | succ k =>
      right
      rw [prepareWrites, List.take_succ_cons, applyAll_cons, applyAll_of_forall_ne fun w hw ↦
        (ht.recordWrites_inJournal (List.mem_of_mem_take hw)).1.ne', clearWrite,
        Function.update_self]
  · refine (AgreeOn.refl B).applyAll_left fun w hw ↦ ?_
    rcases List.mem_cons.1 (List.mem_of_mem_take hw) with rfl | hw
    · exact not_isHome_journalStart
    · have hb := ht.recordWrites_inJournal hw
      exact fun hn ↦ hn ⟨hb.1.le, hb.2⟩

/-- The commit record makes the transaction committed. -/
theorem committed_commitWrite (seq : UInt32) (ht : TxOk tx) :
    Committed (applyAll (prepareWrites tx ++ [commitWrite tx seq]) B) tx seq := by
  have hrec : ∀ i r, tx[i]? = some r →
      applyAll (prepareWrites tx ++ [commitWrite tx seq]) B (descLba i) = descBlock r ∧
        applyAll (prepareWrites tx ++ [commitWrite tx seq]) B (descLba i + 1) = r.payload := by
    intro i r hr
    have hb := descLba_bounds (lt_of_lt_of_le (List.getElem?_eq_some_iff.1 hr).1 ht.length_le)
    have := applyAll_recordWrites tx 0 (Function.update B clearWrite.1 clearWrite.2) hr
    rw [Nat.zero_add] at this
    rw [applyAll_append, applyAll_cons, applyAll_nil, commitWrite, prepareWrites, applyAll_cons,
      Function.update_of_ne hb.1.ne', Function.update_of_ne (by omega)]
    exact this
  refine ⟨ht, ?_, fun i r hr ↦ (hrec i r hr).1, fun i r hr ↦ (hrec i r hr).2⟩
  rw [commitWrite, applyAll_append_singleton_self]

theorem agreeOn_prepareWrites (seq : UInt32) (ht : TxOk tx) :
    AgreeOn IsHome (applyAll (prepareWrites tx ++ [commitWrite tx seq]) B) B := by
  refine (AgreeOn.refl B).applyAll_left fun w hw ↦ ?_
  rcases List.mem_append.1 hw with hw | hw
  · rcases List.mem_cons.1 hw with rfl | hw
    · exact not_isHome_journalStart
    · have hb := ht.recordWrites_inJournal hw
      exact fun hn ↦ hn ⟨hb.1.le, hb.2⟩
  · obtain rfl := List.mem_singleton.1 hw
    exact not_isHome_journalStart

/-- **Replay may be cut off anywhere**: the disk stays worth the same, and once the last write is
done the journal is empty. -/
theorem logical_replay (hc : Committed B tx seq) (k : ℕ) :
    Logical (applyAll ((replayWrites tx).take k) B) (applyAll (homeWrites tx) B) ∧
      (tx.length < k →
        applyAll ((replayWrites tx).take k) B journalStart = Buf.zero blockSize) := by
  rw [replayWrites]
  by_cases hk : k ≤ tx.length
  · rw [List.take_append_of_le_length (by rwa [length_homeWrites])]
    refine ⟨.committed tx seq (hc.applyAll_take k) ?_, fun h ↦ absurd h (by omega)⟩
    rw [applyAll_applyAll_take]
    exact .refl _
  · rw [List.take_of_length_le (by rw [List.length_append, length_homeWrites]; simp; omega)]
    have hz : applyAll (homeWrites tx ++ [clearWrite]) B journalStart = Buf.zero blockSize :=
      applyAll_append_singleton_self ..
    refine ⟨.clear (by rw [hz]; exact headerIsClear_zero) ?_, fun _ ↦ hz⟩
    rw [applyAll_append]
    exact (AgreeOn.refl _).update_left not_isHome_journalStart _

theorem Committed.not_clear (hc : Committed B tx seq) :
    headerIsClear (B journalStart) = false := by
  rw [hc.header]; exact headerIsClear_commitHeader seq _

theorem zeroIfClear_replay (hc : Committed B tx seq) (k : ℕ) :
    ZeroIfClear (applyAll ((replayWrites tx).take k) B) := by
  by_cases hk : tx.length < k
  · exact fun _ ↦ (logical_replay hc k).2 hk
  · intro hcl
    rw [replayWrites, List.take_append_of_le_length (by rw [length_homeWrites]; omega),
      (hc.applyAll_take k).not_clear] at hcl
    cases hcl

/-- From the commit record on, the home blocks are the new ones. -/
theorem logical_commit_of_ge (seq : UInt32) (ht : TxOk tx) {k : ℕ} (hk : 2 * tx.length + 2 ≤ k) :
    Logical (applyAll ((commitWrites tx seq).take k) B) (applyAll (homeWrites tx) B) ∧
      ZeroIfClear (applyAll ((commitWrites tx seq).take k) B) := by
  have hlen : (prepareWrites tx ++ [commitWrite tx seq]).length = 2 * tx.length + 2 := by
    rw [List.length_append, length_prepareWrites]; rfl
  have hsplit : (commitWrites tx seq).take k = (prepareWrites tx ++ [commitWrite tx seq]) ++
      (replayWrites tx).take (k - (2 * tx.length + 2)) := by
    rw [commitWrites, List.append_cons, List.take_append, hlen, List.take_of_length_le (by omega)]
  rw [hsplit, applyAll_append]
  have hc := committed_commitWrite (B := B) seq ht
  exact ⟨(logical_replay hc _).1.congr ((agreeOn_prepareWrites seq ht).applyAll _),
    zeroIfClear_replay hc _⟩

/-! ## Running the two functions -/

theorem valid_replayWrites (hT : dataStartLba ≤ d.totalBlocks)
    (hv : ∀ r ∈ tx, validLba d r.targetLba = true) :
    ∀ w ∈ replayWrites tx, validLba d w.1 = true := by
  intro w hw
  rcases List.mem_append.1 hw with hw | hw
  · obtain ⟨r, hr, rfl⟩ := List.mem_map.1 hw
    exact hv r hr
  · obtain rfl := List.mem_singleton.1 hw
    exact valid_of_lt_dataStart hT (by decide)

theorem valid_prepareWrites (seq : UInt32) (hT : dataStartLba ≤ d.totalBlocks) (ht : TxOk tx) :
    ∀ w ∈ prepareWrites tx ++ [commitWrite tx seq], validLba d w.1 = true := by
  intro w hw
  rcases List.mem_append.1 hw with hw | hw
  · rcases List.mem_cons.1 hw with rfl | hw
    · exact valid_of_lt_dataStart hT (by decide)
    · exact valid_of_lt_dataStart hT (lt_trans (ht.recordWrites_inJournal hw).2 (by decide))
  · obtain rfl := List.mem_singleton.1 hw
    exact valid_of_lt_dataStart hT (show journalStart < dataStartLba by decide)

theorem valid_commitWrites (seq : UInt32) (hT : dataStartLba ≤ d.totalBlocks) (ht : TxOk tx)
    (hv : ∀ r ∈ tx, validLba d r.targetLba = true) :
    ∀ w ∈ commitWrites tx seq, validLba d w.1 = true := by
  intro w hw
  rw [commitWrites, List.append_cons, List.mem_append] at hw
  exact hw.elim (valid_prepareWrites seq hT ht w) (valid_replayWrites hT hv w)

theorem length_replayWrites (tx : Tx) : (replayWrites tx).length = tx.length + 1 := by
  rw [replayWrites, List.length_append, length_homeWrites]; rfl

/-- Recovery of a disk that is worth `h` either succeeds and leaves exactly `h`, or is cut off by
the device and leaves a disk that is still worth `h`. -/
theorem journalRecover_cases (h128 : d.totalBlocks = maxBlocks) (hl : Logical d.blocks h) :
    (∃ d', journalRecover d = .ok () d' ∧ d'.totalBlocks = maxBlocks ∧
        headerIsClear (d'.blocks journalStart) = true ∧ AgreeOn IsHome d'.blocks h ∧
        (ZeroIfClear d.blocks → ZeroIfClear d'.blocks)) ∨
      (0 ≤ d.failAfter ∧ ∃ d', journalRecover d = .error .io d' ∧
        d'.totalBlocks = maxBlocks ∧ Logical d'.blocks h ∧ ZeroIfClear d'.blocks) := by
  cases hl with
  | clear hc ha => exact .inl ⟨d, journalRecover_of_clear (dataStart_le h128) hc, h128, hc, ha, id⟩
  | committed tx seq hc ha =>
    have hr := journalRecover_of_committed h128 hc
    have hv := valid_replayWrites (dataStart_le h128) (hc.ok.valid_target h128)
    by_cases hf : d.Accepts (replayWrites tx).length
    · refine .inl ⟨_, hr.trans (writeAll_of_accepts hv hf), ?_⟩
      have hz := (logical_replay hc (replayWrites tx).length).2 (by rw [length_replayWrites]; omega)
      rw [List.take_length] at hz
      rw [storeAll_totalBlocks, storeAll_blocks]
      refine ⟨h128, by rw [hz]; exact headerIsClear_zero, ?_, fun _ _ ↦ hz⟩
      rw [replayWrites, applyAll_append]
      exact ha.update_left not_isHome_journalStart _
    · refine .inr ⟨?_, _, hr.trans (writeAll_of_not_accepts hv hf), ?_⟩
      · rw [Blockdev.Accepts] at hf
        omega
      · rw [storeAll_totalBlocks, storeAll_blocks]
        exact ⟨h128, (logical_replay hc _).1.congr ha, zeroIfClear_replay hc _⟩

/-- What any recovery, cut off or not, leaves behind. -/
theorem after_journalRecover (h128 : d.totalBlocks = maxBlocks) (hl : Logical d.blocks h) :
    (after journalRecover d).totalBlocks = maxBlocks ∧
      Logical (after journalRecover d).blocks h ∧
      (ZeroIfClear d.blocks → ZeroIfClear (after journalRecover d).blocks) := by
  rcases journalRecover_cases h128 hl with ⟨d', hr, h1, hc, ha, hz⟩ | ⟨-, d', hr, h1, hl', hz⟩
  · rw [after_of_ok hr]
    exact ⟨h1, .clear hc ha, hz⟩
  · rw [after_of_error hr]
    exact ⟨h1, hl', fun _ ↦ hz⟩

/-- A commit over an empty journal, cut off after `k` writes, or not at all. -/
theorem after_journalCommit (seq : UInt32) (h128 : d.totalBlocks = maxBlocks) (ht : TxOk tx)
    (hc : headerIsClear (d.blocks journalStart) = true) {k : ℕ} (hf : d.failAfter = k) :
    (after (journalCommit tx seq 0) d).totalBlocks = maxBlocks ∧
      Logical (after (journalCommit tx seq 0) d).blocks
        (if 2 * tx.length + 2 ≤ k then applyAll (homeWrites tx) d.blocks else d.blocks) ∧
      (ZeroIfClear d.blocks → ZeroIfClear (after (journalCommit tx seq 0) d).blocks) := by
  have hv := valid_commitWrites seq (dataStart_le h128) ht (ht.valid_target h128)
  have hstate : after (journalCommit tx seq 0) d = d.storeAll ((commitWrites tx seq).take k) := by
    rw [journalCommit_eq ht.length_le]
    by_cases hacc : d.Accepts (commitWrites tx seq).length
    · have hk : (commitWrites tx seq).length ≤ k := by
        rw [Blockdev.Accepts] at hacc
        omega
      rw [after_of_ok (writeAll_of_accepts hv hacc), List.take_of_length_le hk]
    · rw [after_of_error (writeAll_of_not_accepts hv hacc), hf, Int.toNat_natCast]
  rw [hstate, storeAll_totalBlocks, storeAll_blocks]
  refine ⟨h128, ?_⟩
  split
  · obtain ⟨h1, h2⟩ := logical_commit_of_ge (B := d.blocks) seq ht ‹_›
    exact ⟨h1, fun _ ↦ h2⟩
  · obtain ⟨hh | hh, ha⟩ :=
      applyAll_commitWrites_of_lt (B := d.blocks) seq ht (not_le.1 ‹_›)
    · exact ⟨.clear (by rw [hh]; exact hc) ha, fun hz hcl ↦ by rw [hh] at hcl ⊢; exact hz hcl⟩
    · exact ⟨.clear (by rw [hh]; exact headerIsClear_zero) ha, fun _ _ ↦ hh⟩

/-- The device with its power supply arranged to fail after `k` more writes. -/
def Blockdev.withFailAfter (dev : Blockdev) (k : ℤ) : Blockdev := { dev with failAfter := k }

/-- Recoveries that are cut off, one after the other, after the given numbers of writes. -/
def crashedRecoveries (dev : Blockdev) (cuts : List ℕ) : Blockdev :=
  cuts.foldl (fun d k ↦ after journalRecover (d.withFailAfter k)) dev

theorem crashedRecoveries_logical (cuts : List ℕ) (h128 : d.totalBlocks = maxBlocks)
    (hl : Logical d.blocks h) :
    (crashedRecoveries d cuts).totalBlocks = maxBlocks ∧
      Logical (crashedRecoveries d cuts).blocks h ∧
      (ZeroIfClear d.blocks → ZeroIfClear (crashedRecoveries d cuts).blocks) := by
  induction cuts generalizing d with
  | nil => exact ⟨h128, hl, id⟩
  | cons k cuts ih =>
    obtain ⟨h1, h2, h3⟩ := after_journalRecover (d := d.withFailAfter k) h128 hl
    obtain ⟨h1', h2', h3'⟩ := ih h1 h2
    exact ⟨h1', h2', fun hz ↦ h3' (h3 hz)⟩

/-- **Write-ahead atomicity.**  Start a commit over an empty journal and cut it off after `k`
writes; run recovery any number of times, cutting it off each time; then let it run.  The last
recovery succeeds and empties the journal, and the blocks outside the journal are the old ones with
all records applied in order if the commit record — write number `2 * count + 2` — made it to the
disk, and exactly the old ones if it did not. -/
theorem journalCommit_atomic (dev : Blockdev) (h128 : dev.totalBlocks = maxBlocks)
    (hclear : headerIsClear (dev.blocks journalStart) = true) (tx : Tx)
    (hcount : tx.length ≤ journalMaxRecords)
    (htarget : ∀ r ∈ tx, inodeBitmapLba ≤ r.targetLba ∧ r.targetLba < maxBlocks)
    (seq : UInt32) (k : ℕ) (cuts : List ℕ) :
    ∃ final, journalRecover ((crashedRecoveries
          (after (journalCommit tx seq 0) (dev.withFailAfter k)) cuts).withFailAfter (-1))
        = .ok () final ∧
      headerIsClear (final.blocks journalStart) = true ∧
      (dev.blocks journalStart = Buf.zero blockSize →
        final.blocks journalStart = Buf.zero blockSize) ∧
      ∀ x, IsHome x → final.blocks x =
        (if 2 * tx.length + 2 ≤ k then applyAll (homeWrites tx) dev.blocks else dev.blocks) x := by
  have ht : TxOk tx := ⟨hcount, fun r hr ↦ (htarget r hr).1, fun r hr ↦ (htarget r hr).2⟩
  obtain ⟨h1, h2, h3⟩ :=
    after_journalCommit (d := dev.withFailAfter k) seq h128 ht hclear rfl
  obtain ⟨h1', h2', h3'⟩ := crashedRecoveries_logical cuts h1 h2
  rcases journalRecover_cases (d := Blockdev.withFailAfter _ (-1)) h1' h2' with
    ⟨final, hr, -, hc, ha, hz⟩ | ⟨hf, -⟩
  · exact ⟨final, hr, hc, fun h0 ↦ hz (h3' (h3 fun _ ↦ h0)) hc, ha⟩
  · exact absurd hf (show ¬ (0 : ℤ) ≤ -1 by decide)

/-- A one-record transaction cut off right after its commit record, with the first recovery cut
off as well: the record is applied. -/
theorem journalCommit_atomic_one_record :
    ∃ final, journalRecover ((crashedRecoveries (after (journalCommit
          [⟨dataStartLba, (Buf.zero blockSize).setField 0 4 7⟩] 2 0)
          (devInit.withFailAfter 4)) [1]).withFailAfter (-1)) = .ok () final ∧
      final.blocks dataStartLba = (Buf.zero blockSize).setField 0 4 7 := by
  obtain ⟨final, hr, -, -, ha⟩ := journalCommit_atomic devInit rfl headerIsClear_zero
    [⟨dataStartLba, (Buf.zero blockSize).setField 0 4 7⟩] (by decide) (by simp) 2 4 [1]
  refine ⟨final, hr, (ha _ fun hj ↦ absurd hj.2 (by decide)).trans ?_⟩
  rw [if_pos (by decide)]
  rfl

end M16
end Mcsos
