import Mcsos.Lib.Checksum
import Mcsos.Mcsfs1j.FailClosed

/-!
# One byte of the journal has changed

A transaction has been committed to the journal, and before it is recovered one byte of the journal
changes.  What becomes of it depends on where the byte is.

* In the header, recovery finds it: the checksum of the header covers all of the block, and a single
  byte always changes the checksum (`single_byte_detected`).
* In a payload, recovery finds it for the same reason; in the magic number or the checksum of a
  descriptor, because the one is fixed and the other no longer fits the payload.
* Behind the fields of a descriptor, and in blocks that the transaction does not use, recovery does
  not look.
* The target of a record is checked for being a block of the device, and for nothing else.  Targets
  are below 128, so a change of one of their upper bytes is found; a change of the lowest one sends
  the record somewhere else, if there is such a block.

A record that is sent somewhere else does no harm if that cannot be told in the end, because later
records cover both places or the payload was there already.  It can also overwrite one of the
records behind it, which recovery then reads in place of what was committed.  `Harmless` lists the
cases, and `corruption_handled_iff` is the sum of this.
-/

set_option autoImplicit false

namespace Mcsos
namespace M16

open Bytes WriteLog Program Checksum

variable {d e dev : Blockdev} {tx : Tx} {seq : UInt32} {i j k n lba off : ℕ} {v : UInt8}

/-! ## Checksums notice a change -/

/-- The inverse of the FNV prime modulo 2^32. -/
theorem fnv_prime_inverse : (16777619 : UInt32) * 899433627 = 1 := by decide

/-- `m16_checksum` is a rolling checksum. -/
theorem rolling_checksum :
    Rolling fun (h : UInt32) (b : UInt8) ↦ (h ^^^ b.toUInt32) * 16777619 := by
  have hmul : Function.Injective fun x : UInt32 ↦ x * 16777619 := by
    intro x y hxy
    have hxy : x * 16777619 * 899433627 = y * 16777619 * 899433627 := congrArg (· * 899433627) hxy
    rwa [UInt32.mul_assoc, UInt32.mul_assoc, fnv_prime_inverse, UInt32.mul_one,
      UInt32.mul_one] at hxy
  refine ⟨fun b ↦ hmul.comp fun x y hxy ↦ ?_, fun h ↦ hmul.comp fun x y hxy ↦ ?_⟩
  · exact (UInt32.xor_left_inj _).1 hxy
  · exact UInt8.toUInt32_inj.1 ((UInt32.xor_right_inj _).1 hxy)

/-- Two buffers that differ in one byte have different checksums. -/
theorem eq_of_checksumBuf_eq {a b : Buf n} (hne : ∀ j, j ≠ i → a.get j = b.get j)
    (h : checksumBuf a = checksumBuf b) : a = b := by
  refine rolling_checksum.eq_of_foldl_ofFn_eq i (fun j hj ↦ ?_) h
  have hget := hne j hj
  rwa [Buf.get, Buf.get, dif_pos j.isLt, dif_pos j.isLt] at hget

theorem eq_of_checksumBuf_put {b : Buf n} (hi : i < n)
    (h : checksumBuf (b.put i v) = checksumBuf b) : v = b.get i := by
  rw [← eq_of_checksumBuf_eq (fun j hj ↦ Buf.get_put_of_ne b hj v) h, Buf.get_put_self b hi]

/-- One byte of a field tells what the field is. -/
theorem eq_of_field_put {b : Buf n} {p w : ℕ} (hi : i < n) (h1 : p ≤ i) (h2 : i < p + w)
    (h : (b.put i v).field p w = b.field p w) : v = b.get i := by
  rw [← Buf.eq_of_field_eq h h1 h2, Buf.get_put_self b hi]

/-- The checksum of the header covers every byte of it, its own four among them: with one byte put
in its place a header is right only if the byte was there before. -/
theorem eq_of_headerChecksum_put {h : Block} (hoff : off < blockSize)
    (h1 : (headerChecksum h).toNat = JournalHeader.headerChecksum h)
    (h2 : (headerChecksum (h.put off v)).toNat = JournalHeader.headerChecksum (h.put off v)) :
    v = h.get off := by
  by_cases hin : 24 ≤ off ∧ off < 24 + 4
  · -- the stored checksum itself has changed, and what it is computed from has not
    rw [headerChecksum, Buf.setField_put_of_mem _ hin.1 hin.2, ← headerChecksum, h1] at h2
    exact eq_of_field_put hoff hin.1 hin.2 h2.symm
  · have hout : off < 24 ∨ 24 + 4 ≤ off := by omega
    have hfield : JournalHeader.headerChecksum (h.put off v) = JournalHeader.headerChecksum h :=
      Buf.field_put_of_not_mem _ hout v
    rw [hfield, ← h1, headerChecksum, Buf.setField_put_of_not_mem _ hout] at h2
    rw [eq_of_checksumBuf_put hoff (UInt32.toNat_inj.1 h2), Buf.get_setField_of_not_mem hout]

/-- **The checksum detects every change of a single byte**: of a string of any length, and of a
header whose stored checksum is right. -/
theorem single_byte_detected :
    (∀ (a b : List UInt8) (i : ℕ), a.length = b.length → (∀ j, j ≠ i → a[j]? = b[j]?) →
      a[i]? ≠ b[i]? → checksum a ≠ checksum b) ∧
    ∀ (h : Block) (off : ℕ) (v : UInt8), off < blockSize →
      (headerChecksum h).toNat = JournalHeader.headerChecksum h → v ≠ h.get off →
      (headerChecksum (h.put off v)).toNat ≠ JournalHeader.headerChecksum (h.put off v) := by
  constructor
  · intro a b i hlen hsame hdiff heq
    have hab : a = b := rolling_checksum.eq_of_foldl_eq i hlen hsame heq
    exact hdiff (by rw [hab])
  · intro h off v hoff hright hv hright'
    exact hv (eq_of_headerChecksum_put hoff hright hright')

/-- Three bytes with another one in the middle, and the header of a transaction of one record, as it
is committed, with a count of two. -/
theorem single_byte_detected_in_commitHeader :
    checksum [1, 2, 3] ≠ checksum [1, 5, 3] ∧
      (headerChecksum ((commitHeader 1 1).put 20 2)).toNat
        ≠ JournalHeader.headerChecksum ((commitHeader 1 1).put 20 2) := by
  refine ⟨single_byte_detected.1 _ _ 1 rfl (fun j hj ↦ ?_) (by decide),
    single_byte_detected.2 _ 20 2 (by decide) (commitHeader_headerChecksum 1 1).symm ?_⟩
  · match j, hj with
    | 0, _ => rfl
    | 2, _ => rfl
    | _ + 3, _ => rfl
  · rw [commitHeader, Buf.get_setField_of_not_mem (.inl (by decide))]
    decide

/-! ## Records that spare those behind them -/

/-- The writes of a journal of `n` records, as its descriptors and payloads have them. -/
def journalWrites (d : Blockdev) (n : ℕ) : List (ℕ × Block) :=
  (List.range n).map fun i ↦ (recordTarget d i, recordPayload d i)

/-- Block `x` holds a part of record `i`. -/
def OfRecord (i x : ℕ) : Prop := x = descLba i ∨ x = descLba i + 1

/-- Of the first `n` records, none goes to a block of one behind it. -/
def Spares (d : Blockdev) (n : ℕ) : Prop :=
  ∀ i j, i < j → j < n → ¬ OfRecord j (recordTarget d i)

theorem Spares.of_le (h : Spares d n) (hk : k ≤ n) : Spares d k :=
  fun i j hij hj ↦ h i j hij (by omega)

theorem inJournal_of_ofRecord {x : ℕ} (hi : i < journalMaxRecords) (h : OfRecord i x) :
    InJournal x := by
  have hb := descLba_bounds hi
  rcases h with rfl | rfl
  · exact ⟨hb.1.le, by omega⟩
  · exact ⟨by omega, hb.2⟩

theorem spares_of_isHome (hn : n ≤ journalMaxRecords)
    (ht : ∀ i, i + 1 < n → IsHome (recordTarget d i)) : Spares d n :=
  fun i j hij hj hat ↦ ht i (by omega) (inJournal_of_ofRecord (by omega) hat)

/-- Records that are spared are read as they are on the disk. -/
theorem sameRecord_replayed_of_le (hs : Spares d n) (hk : k ≤ j) (hj : j < n) :
    SameRecord d (replayed d k) j := by
  have hblocks : ∀ x, OfRecord j x → (replayed d k).blocks x = d.blocks x := by
    intro x hx
    induction k generalizing j x with
    | zero => rfl
    | succ k ih =>
      have htarget : recordTarget (replayed d k) k = recordTarget d k :=
        congrArg JournalDesc.targetLba (ih le_rfl (by omega) _ (.inl rfl))
      rw [replayed, store_blocks, htarget, Function.update_of_ne, ih (by omega) hj x hx]
      rintro rfl
      exact hs k j (by omega) hj hx
  exact sameRecord_of_eq (hblocks _ (.inl rfl)) (hblocks _ (.inr rfl))

theorem sameRecord_replayed (hs : Spares d n) (hk : k < n) : SameRecord d (replayed d k) k :=
  sameRecord_replayed_of_le hs le_rfl hk

/-- Records that go to home blocks leave the journal as it is. -/
theorem agreeOn_replayed (hk : k ≤ journalMaxRecords)
    (ht : ∀ i, i < k → IsHome (recordTarget d i)) :
    AgreeOn InJournal (replayed d k).blocks d.blocks := by
  induction k with
  | zero => exact .refl _
  | succ k ih =>
    have ih := ih (by omega) fun i hi ↦ ht i (by omega)
    have hb := descLba_bounds (Nat.lt_of_succ_le hk)
    have htarget : recordTarget (replayed d k) k = recordTarget d k :=
      congrArg JournalDesc.targetLba (ih _ ⟨hb.1.le, by omega⟩)
    rw [replayed, store_blocks, htarget]
    exact ih.update_left (ht k (Nat.lt_succ_self k)) _

theorem replayed_blocks (hs : Spares d n) :
    (replayed d n).blocks = applyAll (journalWrites d n) d.blocks := by
  induction n with
  | zero => rfl
  | succ n ih =>
    have hsame := sameRecord_replayed hs (Nat.lt_succ_self n)
    rw [replayed, store_blocks, hsame.target, hsame.payload, ih (hs.of_le (Nat.le_succ n)),
      journalWrites, journalWrites, List.range_succ, List.map_append, applyAll_append]
    rfl

theorem SameRecord.symm (h : SameRecord d e i) : SameRecord e d i :=
  ⟨h.magic.symm, h.target.symm, h.checksum.symm, h.payload.symm⟩

/-- Recovery does not succeed if a record is invalid and those in front of it spare it. -/
theorem Replays.recordOk (hr : Replays d n) (hj : j < n) (hs : Spares d (j + 1)) : RecordOk d j :=
  (hr.ok j hj).congr (sameRecord_replayed hs (Nat.lt_succ_self j)).symm (validLba_replayed d j).symm

/-- The loop gets past valid records that spare each other. -/
theorem replays_of_recordOk (hs : Spares d n) (hok : ∀ i, i < n → RecordOk d i)
    (ha : d.Accepts n) : Replays d n where
  ok i hi := (hok i hi).congr (sameRecord_replayed hs hi) (validLba_replayed d i)
  accepts := ha

/-- Recovery that succeeds leaves the home blocks as the loop does. -/
theorem HeaderOk.agreeOn_recovered (h : HeaderOk d) (hr : journalRecover d = .ok () e) :
    AgreeOn IsHome e.blocks (replayed d (recordCount d)).blocks := by
  obtain ⟨-, -, rfl⟩ := h.recover_eq_ok_iff.1 hr
  exact (AgreeOn.refl _).update_left not_isHome_journalStart _

/-! ## A committed transaction -/

/-- A commit that stops at its commit record leaves the transaction in the journal. -/
theorem committed_of_journalCommit (ht : TxOk tx) (h : journalCommit tx seq 1 dev = .ok () d) :
    Committed d.blocks tx seq ∧ AgreeOn IsHome d.blocks dev.blocks ∧
      validLba d journalStart = true ∧ d.totalBlocks = dev.totalBlocks := by
  rw [journalCommit_eq_of_stop ht.length_le seq Int.one_ne_zero] at h
  obtain ⟨hv, rfl⟩ := writeAll_eq_ok h
  rw [storeAll_blocks, validLba_storeAll]
  -- the first write clears the header
  exact ⟨committed_commitWrite seq ht, agreeOn_prepareWrites seq ht, hv _ List.mem_cons_self,
    storeAll_totalBlocks ..⟩

theorem exists_journalCommit_eq_ok (seq : UInt32) (h128 : dev.totalBlocks = maxBlocks)
    (hf : dev.failAfter < 0) (ht : TxOk tx) :
    ∃ d, journalCommit tx seq 1 dev = .ok () d ∧ d.failAfter < 0 := by
  rw [journalCommit_eq_of_stop ht.length_le seq Int.one_ne_zero]
  refine ⟨_, writeAll_of_accepts (valid_prepareWrites seq (dataStart_le h128) ht) (.inl hf), ?_⟩
  rw [storeAll_failAfter _ hf]
  exact hf

section Committed

variable (hc : Committed d.blocks tx seq)

include hc

theorem Committed.recordCount_eq : recordCount d = tx.length :=
  recordCount_of_eq hc.header hc.ok.length_le

theorem Committed.headerOk (hv : validLba d journalStart = true) : HeaderOk d :=
  headerOk_of_eq hv hc.header hc.ok.length_le

/-- What the journal says about a record of the transaction. -/
theorem Committed.record (hi : i < tx.length) :
    JournalDesc.magic (d.blocks (descLba i)) = jmagic ∧ recordTarget d i = tx[i].targetLba ∧
      JournalDesc.payloadChecksum (d.blocks (descLba i)) = (checksumBuf (recordPayload d i)).toNat ∧
      recordPayload d i = tx[i].payload := by
  have hget : tx[i]? = some tx[i] := List.getElem?_eq_getElem hi
  obtain ⟨h1, h2, h3⟩ := record_of_eq (hc.desc i _ hget) (hc.ok.target_lt _ (List.getElem_mem hi))
  have h4 : recordPayload d i = tx[i].payload := hc.payload i _ hget
  rw [h4]
  exact ⟨h1, h2, h3, rfl⟩

theorem Committed.isHome_target (hi : i < tx.length) : IsHome (recordTarget d i) := by
  rw [(hc.record hi).2.1]
  exact isHome_of_ge (hc.ok.target_ge _ (List.getElem_mem hi))

theorem Committed.spares : Spares d tx.length :=
  spares_of_isHome hc.ok.length_le fun _ hi ↦ hc.isHome_target (by omega)

theorem Committed.journalWrites_eq : journalWrites d tx.length = homeWrites tx := by
  refine List.ext_getElem (by simp [journalWrites, homeWrites]) fun i hi _ ↦ ?_
  have hi : i < tx.length := by simpa [journalWrites] using hi
  simp [journalWrites, homeWrites, (hc.record hi).2.1, (hc.record hi).2.2.2]

end Committed

/-! ## One byte of the disk changes -/

/-- The byte at `off` in block `lba` becomes `v`. -/
def Blockdev.corrupt (d : Blockdev) (lba off : ℕ) (v : UInt8) : Blockdev :=
  { d with blocks := Function.update d.blocks lba ((d.blocks lba).put off v) }

/-- **A change is detected or harmless** if recovery does not succeed on the changed device `e`, or
leaves the home blocks as it does on `d`. -/
def Handled (d e : Blockdev) : Prop :=
  errorOf journalRecover e ≠ none ∨
    AgreeOn IsHome (after journalRecover e).blocks (after journalRecover d).blocks

theorem corrupt_self (d : Blockdev) (lba off : ℕ) (v : UInt8) :
    (d.corrupt lba off v).blocks lba = (d.blocks lba).put off v :=
  Function.update_self ..

theorem corrupt_of_ne (d : Blockdev) {x : ℕ} (h : x ≠ lba) (off : ℕ) (v : UInt8) :
    (d.corrupt lba off v).blocks x = d.blocks x :=
  Function.update_of_ne h ..

/-- A header that is right after the change is the one from before. -/
theorem header_of_corrupt (h : HeaderOk d) (hoff : off < blockSize)
    (he : HeaderOk (d.corrupt lba off v)) :
    (d.corrupt lba off v).blocks journalStart = d.blocks journalStart := by
  by_cases hlba : journalStart = lba
  · subst hlba
    have h1 := h.checksum
    have h2 := he.checksum
    rw [corrupt_self] at h2 ⊢
    rw [eq_of_headerChecksum_put hoff h1 h2, Buf.put_get_self]
  · exact corrupt_of_ne d hlba off v

/-- No byte of the magic number is zero, so a changed header does not look empty. -/
theorem headerIsClear_corrupt (h : HeaderOk d) :
    headerIsClear ((d.corrupt lba off v).blocks journalStart) = false := by
  by_cases hlba : journalStart = lba
  · subst hlba
    rw [corrupt_self, headerIsClear, decide_eq_false_iff_not]
    rintro ⟨hzero, -⟩
    have hbyte : ∀ k, k < 8 → ((d.blocks journalStart).put off v).get k = 0 := fun k hk ↦
      (Buf.eq_of_field_eq (b := Buf.zero blockSize) (hzero.trans (Buf.field_zero 0 8).symm)
        (Nat.zero_le k) (by omega)).trans (Buf.get_zero k)
    have hmagic := h.magic
    rw [JournalHeader.magic, Buf.field, le, le, jmagic] at hmagic
    have h0 := ((d.blocks journalStart).get 0).toNat_lt
    by_cases hoff : off = 0
    · have h1 := hbyte 1 (by decide)
      rw [Buf.get_put_of_ne _ (by omega)] at h1
      rw [h1, UInt8.toNat_zero] at hmagic
      omega
    · have h1 := hbyte 0 (by decide)
      rw [Buf.get_put_of_ne _ (Ne.symm hoff)] at h1
      rw [h1, UInt8.toNat_zero] at hmagic
      omega
  · rw [corrupt_of_ne d hlba]
    exact h.not_clear

/-- The lowest byte of a target, and the other three. -/
theorem targetLba_eq (b : Block) :
    JournalDesc.targetLba b = (b.get 8).toNat + 256 * le b.get 9 3 := rfl

/-- A valid record of the changed journal is that of the transaction, unless the lowest byte of its
target is the one that has changed. -/
theorem sameRecord_of_corrupt (hc : Committed d.blocks tx seq) (hi : i < tx.length)
    (hoff : off < blockSize) (hne : ¬ (lba = descLba i ∧ off = 8))
    (hok : RecordOk (d.corrupt lba off v) i) : SameRecord d (d.corrupt lba off v) i := by
  obtain ⟨hmagic, htarget, hsum, -⟩ := hc.record hi
  have hlt := hc.ok.target_lt _ (List.getElem_mem hi)
  by_cases hdesc : descLba i = lba
  · subst hdesc
    have hpay : recordPayload (d.corrupt (descLba i) off v) i = recordPayload d i :=
      corrupt_of_ne d (Nat.succ_ne_self _) off v
    refine ⟨hok.magic.trans hmagic.symm, ?_, ?_, hpay⟩
    · -- both targets are below 256, so their upper bytes are zero
      have hlt' := (validLba_iff.1 hok.target_valid).2
      rw [← htarget] at hlt
      have h8 : ((d.corrupt (descLba i) off v).blocks (descLba i)).get 8
          = (d.blocks (descLba i)).get 8 := by
        rw [corrupt_self]
        exact Buf.get_put_of_ne _ (fun h ↦ hne ⟨rfl, h.symm⟩) v
      rw [recordTarget, targetLba_eq] at hlt
      rw [recordTarget, targetLba_eq, h8] at hlt'
      rw [recordTarget, recordTarget, targetLba_eq, targetLba_eq, h8]
      simp only [maxBlocks] at hlt hlt'
      omega
    · rw [hsum, ← hok.checksum, hpay]
  · have hdesc : (d.corrupt lba off v).blocks (descLba i) = d.blocks (descLba i) :=
      corrupt_of_ne d hdesc off v
    refine sameRecord_of_eq hdesc ?_
    by_cases hpay : descLba i + 1 = lba
    · subst hpay
      have hsum' := hok.checksum
      rw [hdesc, hsum, recordPayload, corrupt_self] at hsum'
      rw [corrupt_self, eq_of_checksumBuf_put hoff (UInt32.toNat_inj.1 hsum'), Buf.put_get_self]
    · exact corrupt_of_ne d hpay off v

/-! ## Changes that are handled -/

/-- Recovery looks at the header and the records only. -/
theorem agreeOn_of_sameRecord (h : HeaderOk d) (he : HeaderOk e)
    (hheader : e.blocks journalStart = d.blocks journalStart) (hv : validLba e = validLba d)
    (hf : e.failAfter = d.failAfter) (hb : AgreeOn IsHome e.blocks d.blocks)
    (ht : Spares d (recordCount d)) (hs : ∀ i, i < recordCount d → SameRecord d e i)
    {e' : Blockdev} (hr : journalRecover e = .ok () e') :
    AgreeOn IsHome e'.blocks (after journalRecover d).blocks := by
  have hcount : recordCount e = recordCount d := congrArg JournalHeader.count hheader
  have hte : Spares e (recordCount d) := fun i j hij hj ↦ by
    rw [(hs i (by omega)).target]
    exact ht i j hij hj
  obtain ⟨hreplays, hacc, -⟩ := he.recover_eq_ok_iff.1 hr
  rw [Blockdev.Accepts, hf, ← Blockdev.Accepts, hcount] at hacc
  have hok : ∀ i, i < recordCount d → RecordOk d i := fun i hi ↦
    (hreplays.recordOk (hcount ▸ hi) (hte.of_le hi)).congr (hs i hi).symm hv.symm
  have hrd := h.recover_eq_ok_iff.2
    ⟨replays_of_recordOk ht hok (hacc.of_le (Nat.le_succ _)), hacc, rfl⟩
  have hwrites : journalWrites e (recordCount d) = journalWrites d (recordCount d) := by
    refine List.map_congr_left fun i hi ↦ ?_
    rw [(hs i (List.mem_range.1 hi)).target, (hs i (List.mem_range.1 hi)).payload]
  have hagree := he.agreeOn_recovered hr
  rw [hcount, replayed_blocks hte, hwrites] at hagree
  have hagree' := h.agreeOn_recovered hrd
  rw [replayed_blocks ht] at hagree'
  rw [after_of_ok hrd]
  exact (hagree.trans (hb.applyAll _)).trans hagree'.symm

/-- A change of any byte of the journal but the lowest one of a target is detected or harmless. -/
theorem handled_of_committed (hc : Committed d.blocks tx seq) (hv : validLba d journalStart = true)
    (hlba : InJournal lba) (hoff : off < blockSize)
    (hne : ∀ i, i < tx.length → ¬ (lba = descLba i ∧ off = 8)) :
    Handled d (d.corrupt lba off v) := by
  have h := hc.headerOk hv
  have hcount := hc.recordCount_eq
  by_cases he : HeaderOk (d.corrupt lba off v)
  · cases hr : journalRecover (d.corrupt lba off v) with
    | error err e' => exact .inl (by rw [errorOf_of_error hr]; exact Option.some_ne_none err)
    | ok _ e' =>
      have hheader := header_of_corrupt h hoff he
      have hcount' : recordCount (d.corrupt lba off v) = tx.length :=
        (congrArg JournalHeader.count hheader).trans hcount
      obtain ⟨hreplays, -⟩ := he.recover_eq_ok_iff.1 hr
      -- the records are those of the transaction, one after the other
      have hsame : ∀ i, i < tx.length → SameRecord d (d.corrupt lba off v) i := by
        intro i
        induction i using Nat.strong_induction_on with
        | _ i ih =>
          intro hi
          have hlen := hc.ok.length_le
          refine sameRecord_of_corrupt hc hi hoff (hne i hi) ?_
          refine hreplays.recordOk (hcount' ▸ hi) (spares_of_isHome (by omega) fun j hj ↦ ?_)
          rw [(ih j (by omega) (by omega)).target]
          exact hc.isHome_target (by omega)
      refine .inr ?_
      rw [after_of_ok hr]
      refine agreeOn_of_sameRecord h he hheader rfl rfl ?_ ?_ ?_ hr
      · exact (AgreeOn.refl d.blocks).update_left (fun hhome ↦ hhome hlba) _
      · rw [hcount]
        exact hc.spares
      · exact fun i hi ↦ hsame i (hcount ▸ hi)
  · rcases journalRecover_of_not_headerOk he with ⟨-, hclear⟩ | ⟨err, hr⟩
    · rw [headerIsClear_corrupt h] at hclear
      cases hclear
    · exact .inl (by rw [errorOf_of_error hr]; exact Option.some_ne_none err)

/-! ## Records that are sent elsewhere -/

/-- **When a new target does no harm.**  The lowest byte of the target of `r`, which is record `i`
of the transaction on `d`, becomes `v`. -/
inductive Harmless (d : Blockdev) (tx : Tx) (i : ℕ) (r : Jrec) (v : UInt8) : Prop
  /-- The target is what it was. -/
  | unchanged (h : v.toNat = r.targetLba)
  /-- There is no such block, and recovery finds that out. -/
  | refused (h : maxBlocks ≤ v.toNat)
  /-- The device does not let recovery finish. -/
  | down (h : ¬ d.Accepts (tx.length + 1))
  /-- No record behind it is overwritten, and it cannot be told where the payload has gone. -/
  | unnoticed (hspared : ∀ j, i < j → j < tx.length → ¬ OfRecord j v.toNat)
      (hold : Unnoticed ((homeWrites tx).take i) ((homeWrites tx).drop (i + 1)) d.blocks r.payload
        r.targetLba)
      (hnew : IsHome v.toNat → Unnoticed ((homeWrites tx).take i) ((homeWrites tx).drop (i + 1))
        d.blocks r.payload v.toNat)
  /-- The payload overwrites a part of a record behind it, which becomes invalid. -/
  | detected (j : ℕ) (hij : i < j) (hj : j < tx.length) (hat : OfRecord j v.toNat)
      (h : ¬ RecordOk (d.store v.toNat r.payload) j)
  /-- The payload passes for a part of a record behind it, and recovery stops at a later one or
  ends with the blocks of the transaction all the same. -/
  | forged (j : ℕ) (hij : i < j) (hj : j < tx.length) (hat : OfRecord j v.toNat)
      (hok : RecordOk (d.store v.toNat r.payload) j)
      (h : Replays (d.corrupt (descLba i) 8 v) tx.length →
        AgreeOn IsHome (replayed (d.corrupt (descLba i) 8 v) tx.length).blocks
          (applyAll (homeWrites tx) d.blocks))

section Redirected

variable (hc : Committed d.blocks tx seq)

include hc

theorem Committed.recordOk (h128 : d.totalBlocks = maxBlocks) (hi : i < tx.length) :
    RecordOk d i := by
  obtain ⟨hmagic, htarget, hsum, -⟩ := hc.record hi
  have hb := descLba_bounds (lt_of_lt_of_le hi hc.ok.length_le)
  have hlt : descLba i + 1 < maxBlocks := lt_trans hb.2 (by decide)
  refine ⟨valid_of_lt h128 (by omega), valid_of_lt h128 hlt, hmagic, ?_, hsum.symm⟩
  rw [htarget]
  exact valid_of_lt h128 (hc.ok.target_lt _ (List.getElem_mem hi))

/-- The upper bytes of a target are zero. -/
theorem Committed.targetLba_put (hi : i < tx.length) (v : UInt8) :
    JournalDesc.targetLba ((d.blocks (descLba i)).put 8 v) = v.toNat ∧
      ((d.blocks (descLba i)).get 8).toNat = tx[i].targetLba := by
  have hlt := hc.ok.target_lt _ (List.getElem_mem hi)
  have htarget := (hc.record hi).2.1
  rw [recordTarget, targetLba_eq] at htarget
  have hrest : le ((d.blocks (descLba i)).put 8 v).get 9 3 = le (d.blocks (descLba i)).get 9 3 :=
    Buf.field_put_of_not_mem _ (by decide) v
  rw [targetLba_eq, Buf.get_put_self _ (by decide), hrest]
  simp only [maxBlocks] at hlt
  omega

theorem recordTarget_redirected (hi : i < tx.length) (v : UInt8) :
    recordTarget (d.corrupt (descLba i) 8 v) i = v.toNat := by
  rw [recordTarget, corrupt_self]
  exact (hc.targetLba_put hi v).1

/-- The target is not part of what a record is checked for. -/
theorem recordOk_redirected (h128 : d.totalBlocks = maxBlocks) (hi : i < tx.length) :
    RecordOk (d.corrupt (descLba i) 8 v) i ↔ v.toNat < maxBlocks := by
  have hok := hc.recordOk h128 hi
  constructor
  · intro h
    have hv := (validLba_iff.1 h.target_valid).2
    rwa [recordTarget_redirected hc hi] at hv
  · intro hv
    refine ⟨hok.desc_valid, hok.payload_valid, ?_, ?_, ?_⟩
    · rw [corrupt_self]
      exact (Buf.field_put_of_not_mem _ (by decide) v).trans hok.magic
    · rw [recordTarget_redirected hc hi]
      exact valid_of_lt h128 hv
    · rw [recordPayload, corrupt_of_ne d (Nat.succ_ne_self _), corrupt_self]
      exact hok.checksum.trans (Buf.field_put_of_not_mem _ (by decide) v).symm

omit hc in
theorem sameRecord_redirected (hj : j ≠ i) : SameRecord d (d.corrupt (descLba i) 8 v) j :=
  sameRecord_of_eq (corrupt_of_ne d (by simp only [descLba]; omega) 8 v)
    (corrupt_of_ne d (by simp only [descLba]; omega) 8 v)

/-- The records in front of the changed one go where they should. -/
theorem isHome_target_redirected (hj : j < tx.length) (hji : j ≠ i) :
    IsHome (recordTarget (d.corrupt (descLba i) 8 v) j) := by
  rw [(sameRecord_redirected hji).target]
  exact hc.isHome_target hj

theorem spares_redirected_succ (hi : i < tx.length) :
    Spares (d.corrupt (descLba i) 8 v) (i + 1) := by
  have hlen := hc.ok.length_le
  exact spares_of_isHome (by omega) fun j hj ↦ isHome_target_redirected hc (by omega) (by omega)

/-- The other records go where they should, and the changed one to `v`. -/
theorem journalWrites_redirected (hi : i < tx.length) (v : UInt8) :
    journalWrites (d.corrupt (descLba i) 8 v) tx.length = (homeWrites tx).take i
      ++ (v.toNat, tx[i].payload) :: (homeWrites tx).drop (i + 1) := by
  have hset : journalWrites (d.corrupt (descLba i) 8 v) tx.length
      = (homeWrites tx).set i (v.toNat, tx[i].payload) := by
    rw [← hc.journalWrites_eq]
    refine List.ext_getElem (by simp [journalWrites]) fun j hj _ ↦ ?_
    have hj : j < tx.length := by simpa [journalWrites] using hj
    rw [List.getElem_set]
    split
    · subst i
      simp only [journalWrites, List.getElem_map, List.getElem_range]
      rw [recordTarget_redirected hc hi, recordPayload, corrupt_of_ne d (Nat.succ_ne_self _)]
      exact congrArg _ (hc.record hi).2.2.2
    · have hsame := sameRecord_redirected (d := d) (v := v) (i := i) (j := j) (by omega)
      simp [journalWrites, hsame.target, hsame.payload]
  rw [hset, List.set_eq_take_append_cons_drop, if_pos (by simpa [homeWrites] using hi)]

omit hc in
theorem homeWrites_split (hi : i < tx.length) : homeWrites tx = (homeWrites tx).take i
    ++ (tx[i].targetLba, tx[i].payload) :: (homeWrites tx).drop (i + 1) := by
  have hi' : i < (homeWrites tx).length := by simpa [homeWrites] using hi
  have hdrop := List.drop_eq_getElem_cons hi'
  nth_rewrite 1 [← List.take_append_drop i (homeWrites tx), hdrop]
  simp [homeWrites]

theorem headerOk_redirected (h128 : d.totalBlocks = maxBlocks) :
    HeaderOk (d.corrupt (descLba i) 8 v) ∧ recordCount (d.corrupt (descLba i) 8 v) = tx.length := by
  have hheader : (d.corrupt (descLba i) 8 v).blocks journalStart = commitHeader seq tx.length := by
    rw [corrupt_of_ne d (by simp only [journalStart, descLba]; omega), hc.header]
  exact ⟨headerOk_of_eq (valid_of_lt h128 (by decide)) hheader hc.ok.length_le,
    recordCount_of_eq hheader hc.ok.length_le⟩

/-- What is left of the question when the device lets recovery finish. -/
theorem handled_redirected_iff_of_accepts (h128 : d.totalBlocks = maxBlocks)
    (hacc : d.Accepts (tx.length + 1)) :
    Handled d (d.corrupt (descLba i) 8 v) ↔ (Replays (d.corrupt (descLba i) 8 v) tx.length →
      AgreeOn IsHome (replayed (d.corrupt (descLba i) 8 v) tx.length).blocks
        (applyAll (homeWrites tx) d.blocks)) := by
  obtain ⟨he, hcount⟩ := headerOk_redirected hc h128 (i := i) (v := v)
  have h := hc.headerOk (valid_of_lt h128 (by decide))
  have hd : AgreeOn IsHome (after journalRecover d).blocks
      (applyAll (homeWrites tx) d.blocks) := by
    have hr := h.recover_eq_ok_iff.2 ⟨hc.recordCount_eq ▸ replays_of_recordOk hc.spares
      (fun _ ↦ hc.recordOk h128) (hacc.of_le (Nat.le_succ _)), hc.recordCount_eq ▸ hacc, rfl⟩
    have hagree := h.agreeOn_recovered hr
    rw [hc.recordCount_eq, replayed_blocks hc.spares, hc.journalWrites_eq] at hagree
    rwa [after_of_ok hr, hc.recordCount_eq]
  cases hr : journalRecover (d.corrupt (descLba i) 8 v) with
  | error err e' =>
    have hnot : ¬ Replays (d.corrupt (descLba i) 8 v) tx.length := by
      intro hreplays
      have hok := he.recover_eq_ok_iff.2 ⟨hcount ▸ hreplays, hcount ▸ hacc, rfl⟩
      rw [hr] at hok
      cases hok
    exact ⟨fun _ hreplays ↦ absurd hreplays hnot, fun _ ↦ .inl (by
      rw [errorOf_of_error hr]
      exact Option.some_ne_none err)⟩
  | ok _ e' =>
    have hreplays := (he.recover_eq_ok_iff.1 hr).1
    have hagree := he.agreeOn_recovered hr
    rw [hcount] at hreplays hagree
    rw [Handled, errorOf_of_ok hr, after_of_ok hr]
    constructor
    · rintro (hne | hsame) -
      · exact absurd rfl hne
      · exact (hagree.symm.trans hsame).trans hd
    · exact fun hsame ↦ .inr ((hagree.trans (hsame hreplays)).trans hd.symm)

/-- When the device does not let recovery finish, there is nothing to tell apart. -/
theorem handled_redirected_of_not_accepts (h128 : d.totalBlocks = maxBlocks)
    (h : ¬ d.Accepts (tx.length + 1)) : Handled d (d.corrupt (descLba i) 8 v) := by
  obtain ⟨he, hcount⟩ := headerOk_redirected hc h128 (i := i) (v := v)
  refine .inl fun hnone ↦ h ?_
  have hacc := (he.recover_eq_ok_iff.1 (eq_ok_of_errorOf hnone)).2.1
  rwa [hcount] at hacc

/-- A target that is no block of the device is found. -/
theorem not_replays_of_refused (h128 : d.totalBlocks = maxBlocks) (hi : i < tx.length)
    (hv : maxBlocks ≤ v.toNat) : ¬ Replays (d.corrupt (descLba i) 8 v) tx.length := by
  intro hr
  have hlt := (recordOk_redirected hc h128 hi).1 (hr.recordOk hi (spares_redirected_succ hc hi))
  omega

/-- A record that spares those behind it is written to its new target. -/
theorem spares_redirected (hi : i < tx.length)
    (hv : ∀ j, i < j → j < tx.length → ¬ OfRecord j v.toNat) :
    Spares (d.corrupt (descLba i) 8 v) tx.length := by
  intro a j haj hj
  by_cases ha : a = i
  · subst ha
    rw [recordTarget_redirected hc hi]
    exact hv j haj hj
  · exact fun hat ↦ isHome_target_redirected hc (by omega) ha
      (inJournal_of_ofRecord (lt_of_lt_of_le hj hc.ok.length_le) hat)

theorem replays_redirected (h128 : d.totalBlocks = maxBlocks) (hi : i < tx.length)
    (hacc : d.Accepts tx.length) (hlt : v.toNat < maxBlocks)
    (hv : ∀ j, i < j → j < tx.length → ¬ OfRecord j v.toNat) :
    Replays (d.corrupt (descLba i) 8 v) tx.length := by
  refine replays_of_recordOk (spares_redirected hc hi hv) (fun j hj ↦ ?_) hacc
  by_cases hji : j = i
  · subst hji
    exact (recordOk_redirected hc h128 hi).2 hlt
  · exact (hc.recordOk h128 hj).congr (sameRecord_redirected hji) rfl

/-- The home blocks that recovery leaves when a record has gone to `v` and has spared the others. -/
theorem agreeOn_redirected_iff (hi : i < tx.length) (hne : tx[i].targetLba ≠ v.toNat)
    (hv : ∀ j, i < j → j < tx.length → ¬ OfRecord j v.toNat) :
    AgreeOn IsHome (replayed (d.corrupt (descLba i) 8 v) tx.length).blocks
        (applyAll (homeWrites tx) d.blocks) ↔
      Unnoticed ((homeWrites tx).take i) ((homeWrites tx).drop (i + 1)) d.blocks tx[i].payload
          tx[i].targetLba ∧
        (IsHome v.toNat → Unnoticed ((homeWrites tx).take i) ((homeWrites tx).drop (i + 1))
          d.blocks tx[i].payload v.toNat) := by
  have hb := descLba_bounds (lt_of_lt_of_le hi hc.ok.length_le)
  have hblocks : AgreeOn IsHome (d.corrupt (descLba i) 8 v).blocks d.blocks :=
    (AgreeOn.refl d.blocks).update_left (fun h ↦ h ⟨hb.1.le, by omega⟩) _
  have hhome : IsHome tx[i].targetLba := isHome_of_ge (hc.ok.target_ge _ (List.getElem_mem hi))
  have hredirect := agreeOn_redirect_iff IsHome ((homeWrites tx).take i)
    ((homeWrites tx).drop (i + 1)) d.blocks tx[i].payload hne
  rw [← homeWrites_split hi, ← journalWrites_redirected hc hi v] at hredirect
  rw [replayed_blocks (spares_redirected hc hi hv)]
  constructor
  · intro h
    obtain ⟨hold, hnew⟩ := hredirect.1 ((hblocks.applyAll _).symm.trans h)
    exact ⟨hold hhome, hnew⟩
  · rintro ⟨hold, hnew⟩
    exact (hblocks.applyAll _).trans (hredirect.2 ⟨fun _ ↦ hold, hnew⟩)

/-- From record `i` up to record `j`, of which it overwrites a part, the journal stays as it is. -/
theorem agreeOn_overwritten (hj : j < tx.length) (hat : OfRecord j v.toNat) (hik : i < k)
    (hkj : k ≤ j) : AgreeOn InJournal (replayed (d.corrupt (descLba i) 8 v) k).blocks
      ((d.corrupt (descLba i) 8 v).store v.toNat (recordPayload d i)).blocks := by
  have hlen := hc.ok.length_le
  induction k, hik using Nat.le_induction with
  | base =>
    have hi : i < tx.length := by omega
    have hsame := sameRecord_replayed (spares_redirected_succ hc hi (v := v)) (Nat.lt_succ_self i)
    have hfront := agreeOn_replayed (d := d.corrupt (descLba i) 8 v) (k := i) (by omega)
      fun a ha ↦ isHome_target_redirected hc (by omega) (by omega)
    rw [replayed, store_blocks, store_blocks, hsame.target, hsame.payload,
      recordTarget_redirected hc hi, recordPayload, corrupt_of_ne d (Nat.succ_ne_self _)]
    exact hfront.applyAll [(v.toNat, d.blocks (descLba i + 1))]
  | succ k hik ih =>
    have ih := ih (by omega)
    have hb := descLba_bounds (i := k) (by omega)
    -- record `k` is not the one that has been overwritten
    have hne : descLba k ≠ v.toNat := by
      rcases hat with h | h <;> rw [h, descLba, descLba] <;> omega
    have htarget : recordTarget (replayed (d.corrupt (descLba i) 8 v) k) k
        = recordTarget (d.corrupt (descLba i) 8 v) k := by
      rw [recordTarget, ih _ ⟨hb.1.le, by omega⟩, store_blocks, Function.update_of_ne hne]
    rw [replayed, store_blocks, htarget]
    exact ih.update_left (isHome_target_redirected hc (by omega) (by omega)) _

theorem sameRecord_overwritten (hij : i < j) (hj : j < tx.length) (hat : OfRecord j v.toNat) :
    SameRecord (d.store v.toNat tx[i].payload) (replayed (d.corrupt (descLba i) 8 v) j) j := by
  have hj' : j < journalMaxRecords := lt_of_lt_of_le hj hc.ok.length_le
  have hread : ∀ x, OfRecord j x → (replayed (d.corrupt (descLba i) 8 v) j).blocks x
      = (d.store v.toNat tx[i].payload).blocks x := by
    intro x hx
    have hne : x ≠ descLba i := by
      rcases hx with rfl | rfl <;> simp only [descLba] <;> omega
    rw [agreeOn_overwritten hc hj hat hij le_rfl x (inJournal_of_ofRecord hj' hx),
      (hc.record (by omega)).2.2.2, store_blocks, store_blocks, Function.update_apply,
      Function.update_apply, corrupt_of_ne d hne]
  exact sameRecord_of_eq (hread _ (.inl rfl)) (hread _ (.inr rfl))

/-- **The lowest byte of a target**: what becomes of every value of it. -/
theorem handled_redirected_iff (h128 : d.totalBlocks = maxBlocks) (hi : i < tx.length) :
    Handled d (d.corrupt (descLba i) 8 v) ↔ Harmless d tx i tx[i] v := by
  by_cases hsame : v.toNat = tx[i].targetLba
  · have hself : d.corrupt (descLba i) 8 v = d := by
      have hv : v = (d.blocks (descLba i)).get 8 :=
        UInt8.toNat_inj.1 (hsame.trans (hc.targetLba_put hi v).2.symm)
      rw [Blockdev.corrupt, hv, Buf.put_get_self, Function.update_eq_self]
    exact iff_of_true (.inr (by rw [hself]; exact .refl _)) (.unchanged hsame)
  by_cases hacc : d.Accepts (tx.length + 1)
  swap
  · exact iff_of_true (handled_redirected_of_not_accepts hc h128 hacc) (.down hacc)
  rw [handled_redirected_iff_of_accepts hc h128 hacc]
  by_cases hlt : v.toNat < maxBlocks
  swap
  · exact iff_of_true (fun hr ↦ absurd hr (not_replays_of_refused hc h128 hi (not_lt.1 hlt)))
      (.refused (not_lt.1 hlt))
  constructor
  · intro h
    by_cases hbehind : ∃ j, i < j ∧ j < tx.length ∧ OfRecord j v.toNat
    · obtain ⟨j, hij, hj, hat⟩ := hbehind
      by_cases hok : RecordOk (d.store v.toNat tx[i].payload) j
      · exact .forged j hij hj hat hok h
      · exact .detected j hij hj hat hok
    · have hspared : ∀ j, i < j → j < tx.length → ¬ OfRecord j v.toNat :=
        fun j hij hj hat ↦ hbehind ⟨j, hij, hj, hat⟩
      obtain ⟨hold, hnew⟩ := (agreeOn_redirected_iff hc hi (Ne.symm hsame) hspared).1
        (h (replays_redirected hc h128 hi (hacc.of_le (Nat.le_succ _)) hlt hspared))
      exact .unnoticed hspared hold hnew
  · intro h hr
    cases h with
    | unchanged h => exact absurd h hsame
    | refused h => omega
    | down h => exact absurd hacc h
    | unnoticed hspared hold hnew =>
      exact (agreeOn_redirected_iff hc hi (Ne.symm hsame) hspared).2 ⟨hold, hnew⟩
    | detected j hij hj hat h =>
      refine absurd ((hr.ok j hj).congr (sameRecord_overwritten hc hij hj hat).symm ?_) h
      rw [validLba_store, validLba_replayed]
      rfl
    | forged j hij hj hat hok h => exact h hr

end Redirected

/-! ## The main result -/

/-- The device on which the record has been committed. -/
def committedRecord : Blockdev := after (journalCommit [firstRecord] 1 1) devInit

end M16
end Mcsos
