import Mcsos.Block.Bcache
import Mcsos.Lib.Search

/-!
# Coherence of the buffer cache

The contents of a block, for whoever goes through the cache, is its copy in the cache if there is
one, and otherwise what is on the device: `overlay`.  Reads return it, writes change it at one
block, and nothing else changes it, whatever the drivers fail to do.

What makes this true is `Coherent`: no block has two copies, and a copy that is not marked dirty is
a copy indeed.  Nearly every step of the cache replaces one entry, and `Coherent.replace` with
`Coherent.overlay_drop` and `Coherent.overlay_put` say what that does to the invariant and to the
overlay.  The exception is a write-back, which changes a block of the device under its copy.
-/

set_option autoImplicit false

namespace Mcsos
namespace Block
namespace Bcache

open Bytes Program

variable {bs : ℕ} {D σ : Type} [DecidableEq D] {block : σ → D × UInt64 → Buf bs}
  {s s' : State bs D σ} {i j : ℕ} {k : D × UInt64}

/-! ## The invariant -/

/-- Entry `i` of the cache is a copy of the block `k`. -/
def Holds (s : State bs D σ) (i : ℕ) (k : D × UInt64) : Prop :=
  i < s.entryCount ∧ (s.entries i).holds k = true

/-- What the block `k` is for those who use the cache. -/
def overlay (block : σ → D × UInt64 → Buf bs) (s : State bs D σ) (k : D × UInt64) : Buf bs :=
  match find s k with
  | some i => (s.entries i).data
  | none => block s.world k

/-- No block has two copies, the copies belong to devices, and the clean ones are right. -/
structure Coherent (block : σ → D × UInt64 → Buf bs) (s : State bs D σ) : Prop where
  unique : ∀ i j k, Holds s i k → Holds s j k → i = j
  named : ∀ i, i < s.entryCount → (s.entries i).valid = true → ∃ k, Holds s i k
  clean : ∀ i k, Holds s i k → (s.entries i).dirty = false → (s.entries i).data = block s.world k

theorem Entry.holds_iff {e : Entry bs D} :
    e.holds k = true ↔ e.valid = true ∧ e.dev = some k.1 ∧ e.lba = k.2 := by
  simp [Entry.holds, and_assoc]

/-- An entry is a copy of one block at most. -/
theorem Entry.holds_inj {e : Entry bs D} {k' : D × UInt64} (h : e.holds k = true)
    (h' : e.holds k' = true) : k = k' := by
  obtain ⟨-, hd, hl⟩ := Entry.holds_iff.1 h
  obtain ⟨-, hd', hl'⟩ := Entry.holds_iff.1 h'
  exact Prod.ext (Option.some_injective _ (hd.symm.trans hd')) (hl.symm.trans hl')

theorem find_some (h : find s k = some i) : Holds s i k := Search.of_find?_range h

theorem find_none (h : find s k = none) (i : ℕ) : ¬ Holds s i k := by
  rintro ⟨hi, hk⟩
  have := Search.of_find?_range_none h hi
  rw [hk] at this
  cases this

theorem Coherent.overlay_of_holds (hc : Coherent block s) (h : Holds s i k) :
    overlay block s k = (s.entries i).data := by
  rw [overlay]
  cases hf : find s k with
  | none => exact absurd h (find_none hf i)
  | some j => rw [hc.unique j i k (find_some hf) h]

theorem overlay_of_not_holds (h : ∀ i, ¬ Holds s i k) : overlay block s k = block s.world k := by
  rw [overlay]
  cases hf : find s k with
  | none => rfl
  | some j => exact absurd (find_some hf) (h j)

/-! ## Changes of one entry -/

/-- Entry `i` has been replaced by `e`. -/
structure Replaced (s : State bs D σ) (i : ℕ) (e : Entry bs D) (s' : State bs D σ) : Prop where
  count : s'.entryCount = s.entryCount
  entries : s'.entries = Function.update s.entries i e

section Change

variable {e : Entry bs D} (h : Replaced s i e s')

include h

omit [DecidableEq D] in
theorem Replaced.entries_self : s'.entries i = e := by
  rw [h.entries, Function.update_self]

omit [DecidableEq D] in
theorem Replaced.entries_of_ne (hne : j ≠ i) : s'.entries j = s.entries j := by
  rw [h.entries, Function.update_of_ne hne]

theorem Replaced.holds_of_ne (hne : j ≠ i) : Holds s' j k ↔ Holds s j k := by
  rw [Holds, Holds, h.count, h.entries_of_ne hne]

theorem Replaced.holds_self (hi : i < s.entryCount) : Holds s' i k ↔ e.holds k = true := by
  rw [Holds, h.count, h.entries_self]
  exact and_iff_right hi

/-- Entry `i` may be replaced by `e` if it is not the only place of another block, and if no other
entry is a copy of the block that `e` is to be a copy of. -/
structure Replaceable (block : σ → D × UInt64 → Buf bs) (s : State bs D σ) (i : ℕ)
    (e : Entry bs D) : Prop where
  lt : i < s.entryCount
  idle : ∀ k, Holds s i k → e.holds k = false → (s.entries i).data = block s.world k
  named : e.valid = true → ∃ k, e.holds k = true
  alone : ∀ k, e.holds k = true → ∀ j, Holds s j k → j = i
  clean : ∀ k, e.holds k = true → e.dirty = false → e.data = block s.world k

variable (hc : Coherent block s) (hblock : block s'.world = block s.world)
  (hr : Replaceable block s i e)

include hc hblock hr

theorem Coherent.replace : Coherent block s' := by
  have hne : ∀ {j k}, Holds s' j k → j ≠ i → Holds s j k := fun hj hji ↦
    (h.holds_of_ne hji).1 hj
  have hself : ∀ {k}, Holds s' i k → e.holds k = true := (h.holds_self hr.lt).1
  refine ⟨fun j j' k hj hj' ↦ ?_, fun j hj hv ↦ ?_, fun j k hj hd ↦ ?_⟩
  · by_cases hji : j = i <;> by_cases hji' : j' = i
    · rw [hji, hji']
    · subst hji
      exact (hr.alone k (hself hj) j' (hne hj' hji')).symm
    · subst hji'
      exact hr.alone k (hself hj') j (hne hj hji)
    · exact hc.unique j j' k (hne hj hji) (hne hj' hji')
  · by_cases hji : j = i
    · subst hji
      rw [h.entries_self] at hv
      obtain ⟨k, hk⟩ := hr.named hv
      exact ⟨k, (h.holds_self hr.lt).2 hk⟩
    · rw [h.entries_of_ne hji] at hv
      obtain ⟨k, hk⟩ := hc.named j (h.count ▸ hj) hv
      exact ⟨k, (h.holds_of_ne hji).2 hk⟩
  · rw [hblock]
    by_cases hji : j = i
    · subst hji
      rw [h.entries_self] at hd ⊢
      exact hr.clean k (hself hj) hd
    · rw [h.entries_of_ne hji] at hd ⊢
      exact hc.clean j k (hne hj hji) hd

theorem Coherent.overlay_replace_self (hk : e.holds k = true) : overlay block s' k = e.data := by
  rw [(hc.replace h hblock hr).overlay_of_holds
    ((h.holds_self hr.lt).2 hk), h.entries_self]

theorem Coherent.overlay_replace_of_not_holds (hk : e.holds k = false) :
    overlay block s' k = overlay block s k := by
  have hself : ¬ Holds s' i k := fun hi ↦ by
    rw [(h.holds_self hr.lt).1 hi] at hk
    cases hk
  by_cases hex : ∃ j, Holds s' j k
  · obtain ⟨j, hj⟩ := hex
    have hji : j ≠ i := by rintro rfl; exact hself hj
    rw [(hc.replace h hblock hr).overlay_of_holds hj, h.entries_of_ne hji,
      hc.overlay_of_holds ((h.holds_of_ne hji).1 hj)]
  rw [overlay_of_not_holds fun j hj ↦ hex ⟨j, hj⟩, hblock]
  -- the entry that was replaced may have had the block, but then the device has it too
  by_cases hik : Holds s i k
  · rw [hc.overlay_of_holds hik, hr.idle k hik hk]
  · refine (overlay_of_not_holds fun j hj ↦ ?_).symm
    by_cases hji : j = i
    · exact hik (hji ▸ hj)
    · exact hex ⟨j, (h.holds_of_ne hji).2 hj⟩

/-- Giving up an entry changes nothing. -/
theorem Coherent.overlay_drop (he : e.valid = false) : overlay block s' = overlay block s := by
  funext k
  refine hc.overlay_replace_of_not_holds h hblock hr ?_
  rw [Entry.holds, he, Bool.false_and, Bool.false_and]

/-- An entry that becomes the copy of a block changes that block. -/
theorem Coherent.overlay_put (he : e.holds k = true) :
    overlay block s' = Function.update (overlay block s) k e.data := by
  funext k'
  by_cases hk : k' = k
  · subst hk
    rw [Function.update_self, hc.overlay_replace_self h hblock hr he]
  · rw [Function.update_of_ne hk]
    refine hc.overlay_replace_of_not_holds h hblock hr ?_
    exact Bool.eq_false_iff.2 fun hk' ↦ hk (Entry.holds_inj hk' he)

end Change

/-- Entry `i` is not the only place of a block. -/
def Idle (s : State bs D σ) (i : ℕ) : Prop :=
  (s.entries i).valid = true → (s.entries i).dirty = false

section Replaceable

variable {e : Entry bs D} (hc : Coherent block s) (hi : i < s.entryCount)

include hc

theorem Coherent.eq_block_of_idle (hidle : Idle s i) (h : Holds s i k) :
    (s.entries i).data = block s.world k :=
  hc.clean i k h (hidle (Entry.holds_iff.1 h.2).1)

include hi

theorem Coherent.replaceable_drop (hidle : Idle s i) (he : e.valid = false) :
    Replaceable block s i e := by
  have hnot : ∀ k, ¬ e.holds k = true := fun k h ↦ by
    rw [Entry.holds, he, Bool.false_and, Bool.false_and] at h
    cases h
  refine ⟨hi, fun k h _ ↦ hc.eq_block_of_idle hidle h, fun hv ↦ ?_, fun k h ↦ absurd h (hnot k),
    fun k h ↦ absurd h (hnot k)⟩
  rw [he] at hv
  cases hv

theorem Coherent.replaceable_put (hidle : Idle s i) (hnew : ∀ j, ¬ Holds s j k)
    (he : e.holds k = true) (hclean : e.dirty = false → e.data = block s.world k) :
    Replaceable block s i e := by
  refine ⟨hi, fun k h _ ↦ hc.eq_block_of_idle hidle h, fun _ ↦ ⟨k, he⟩, fun k' hk' j hj ↦ ?_,
    fun k' hk' ↦ ?_⟩
  · exact absurd (Entry.holds_inj hk' he ▸ hj) (hnew j)
  · rw [Entry.holds_inj hk' he]
    exact hclean

theorem Coherent.replaceable_same (hik : Holds s i k) (he : e.holds k = true)
    (hd : e.dirty = true) : Replaceable block s i e := by
  refine ⟨hi, fun k' h hk' ↦ ?_, fun _ ↦ ⟨k, he⟩, fun k' hk' j hj ↦ ?_, fun k' _ hd' ↦ ?_⟩
  · rw [Entry.holds_inj h.2 hik.2, he] at hk'
    cases hk'
  · exact hc.unique j i k (Entry.holds_inj hk' he ▸ hj) hik
  · rw [hd] at hd'
    cases hd'

end Replaceable

/-! ## Writing back -/

/-- A step that leaves the overlay and the roles of the entries as they are. -/
structure Kept (block : σ → D × UInt64 → Buf bs) (s s' : State bs D σ) : Prop where
  coherent : Coherent block s'
  overlay : overlay block s' = overlay block s
  count : s'.entryCount = s.entryCount
  holds : ∀ i k, Holds s' i k ↔ Holds s i k

theorem Kept.trans {s'' : State bs D σ} (h : Kept block s s') (h' : Kept block s' s'') :
    Kept block s s'' :=
  ⟨h'.coherent, h'.overlay.trans h.overlay, h'.count.trans h.count,
    fun i k ↦ (h'.holds i k).trans (h.holds i k)⟩

/-- The invariant and the overlay depend on the entries and the blocks only. -/
theorem Coherent.kept (hc : Coherent block s) (hentries : s'.entries = s.entries)
    (hcount : s'.entryCount = s.entryCount) (hblock : block s'.world = block s.world) :
    Kept block s s' := by
  have hholds : ∀ i k, Holds s' i k ↔ Holds s i k := fun i k ↦ by
    rw [Holds, Holds, hcount, hentries]
  refine ⟨⟨fun i j k h h' ↦ ?_, fun i hi hv ↦ ?_, fun i k h hd ↦ ?_⟩, funext fun k ↦ ?_, hcount,
    hholds⟩
  · exact hc.unique i j k ((hholds i k).1 h) ((hholds j k).1 h')
  · rw [hentries] at hv
    obtain ⟨k, hk⟩ := hc.named i (hcount ▸ hi) hv
    exact ⟨k, (hholds i k).2 hk⟩
  · rw [hentries] at hd ⊢
    rw [hblock]
    exact hc.clean i k ((hholds i k).1 h) hd
  · simp only [Bcache.overlay, find, hentries, hcount, hblock]

/-- An entry that has been written back is clean, and everybody sees what they saw before. -/
theorem Coherent.writeBack (hc : Coherent block s) (hik : Holds s i k)
    (hr : Replaced s i { s.entries i with dirty := false } s')
    (hblock : block s'.world = Function.update (block s.world) k (s.entries i).data) :
    Kept block s s' := by
  have hholds : ∀ j k, Holds s' j k ↔ Holds s j k := fun j k ↦ by
    by_cases hji : j = i
    · subst hji
      rw [hr.holds_self hik.1, Holds, and_iff_right hik.1]
      rfl
    · exact hr.holds_of_ne hji
  have hdata : ∀ j, (s'.entries j).data = (s.entries j).data := fun j ↦ by
    by_cases hji : j = i
    · rw [hji, hr.entries_self]
    · rw [hr.entries_of_ne hji]
  have hc' : Coherent block s' := by
    refine ⟨fun j j' k h h' ↦ ?_, fun j hj hv ↦ ?_, fun j k' h hd ↦ ?_⟩
    · exact hc.unique j j' k ((hholds j k).1 h) ((hholds j' k).1 h')
    · by_cases hji : j = i
      · exact ⟨k, hji ▸ (hholds i k).2 hik⟩
      · rw [hr.entries_of_ne hji] at hv
        obtain ⟨k', hk'⟩ := hc.named j (hr.count ▸ hj) hv
        exact ⟨k', (hholds j k').2 hk'⟩
    · rw [hdata, hblock]
      have h := (hholds j k').1 h
      by_cases hji : j = i
      · subst hji
        rw [Entry.holds_inj h.2 hik.2, Function.update_self]
      · have hk : k' ≠ k := by rintro rfl; exact hji (hc.unique j i k' h hik)
        rw [hr.entries_of_ne hji] at hd
        rw [Function.update_of_ne hk]
        exact hc.clean j k' h hd
  refine ⟨hc', funext fun k' ↦ ?_, hr.count, hholds⟩
  by_cases h : ∃ j, Holds s j k'
  · obtain ⟨j, hj⟩ := h
    rw [hc.overlay_of_holds hj, hc'.overlay_of_holds ((hholds j k').2 hj), hdata]
  · have hk : k' ≠ k := by rintro rfl; exact h ⟨i, hik⟩
    rw [overlay_of_not_holds fun j hj ↦ h ⟨j, (hholds j k').1 hj⟩,
      overlay_of_not_holds fun j hj ↦ h ⟨j, hj⟩, hblock, Function.update_of_ne hk]

section Calls

omit [DecidableEq D] in
/-- A driver that leaves the buffer alone leaves the entries alone. -/
theorem entries_setIo {io : Io σ} (h : io.buf = (s.entries i).data.get) :
    (s.setIo i io).entries = s.entries := by
  simp [State.setIo, State.setEntry, h]

omit [DecidableEq D] in
theorem ends_modifyEntry {f : Entry bs D → Entry bs D} {Q : Unit → State bs D σ → Prop}
    {E : Err → State bs D σ → Prop} (h : Q () (s.setEntry i (f (s.entries i)))) :
    Ends (modifyEntry i f) s Q E :=
  ends_of_ok rfl h

variable {devs : D → Device σ} (hlaw : Lawful devs bs block)

include hlaw

theorem flushEntry_ends (hc : Coherent block s) (hi : i < s.entryCount) :
    Ends (flushEntry devs i) s
      (fun _ s' ↦ Kept block s s' ∧ Idle s' i ∧ ∀ j, Idle s j → Idle s' j)
      (fun _ s' ↦ Kept block s s') := by
  refine ends_get ?_
  by_cases hvd : ((s.entries i).valid && (s.entries i).dirty) = true
  · rw [if_pos hvd]
    obtain ⟨hv, -⟩ := Bool.and_eq_true_iff.1 hvd
    obtain ⟨k, hik⟩ := hc.named i hi hv
    obtain ⟨-, hdev, hlba⟩ := Entry.holds_iff.1 hik.2
    rw [hdev, hlba, Option.map_some]
    refine ends_bind (Q := fun _ s' ↦ s'.entries = s.entries ∧ s'.entryCount = s.entryCount ∧
      block s'.world = Function.update (block s.world) k (s.entries i).data) (ends_zoom ?_) ?_
    · refine (hlaw.blkWrite_ends k.1 k.2 (s.io i)).mono ?_ ?_
      · rintro - io ⟨hbuf, hblock⟩
        exact ⟨entries_setIo hbuf, rfl, hblock.trans (by rw [State.io, Buf.ofView_get])⟩
      · rintro - io ⟨hbuf, hblock⟩
        exact hc.kept (entries_setIo hbuf) rfl hblock
    · rintro - s' ⟨hentries, hcount, hblock⟩
      refine ends_modifyEntry ?_
      have hkept : Kept block s (s'.setEntry i { s'.entries i with dirty := false }) :=
        hc.writeBack hik ⟨hcount, by rw [State.setEntry, hentries]⟩ hblock
      refine ⟨hkept, fun _ ↦ ?_, fun j hj ↦ ?_⟩
      · simp [State.setEntry]
      · by_cases hji : j = i
        · simp [Idle, State.setEntry, hji]
        · simpa [Idle, State.setEntry, hji, hentries] using hj
  · rw [if_neg hvd]
    refine ends_pure ⟨hc.kept rfl rfl rfl, fun hv ↦ ?_, fun j hj ↦ hj⟩
    simpa [hv] using hvd

theorem selectVictim_ends (hc : Coherent block s) :
    Ends (selectVictim devs) s
      (fun i s' ↦ Kept block s s' ∧ i < s.entryCount ∧ Idle s' i)
      (fun _ s' ↦ Kept block s s') := by
  refine ends_get (ends_failIf (fun _ ↦ hc.kept rfl rfl rfl) fun hn ↦ ?_)
  have hpos : 0 < s.entryCount := Nat.pos_of_ne_zero hn
  split
  · rename_i pass hf
    obtain ⟨-, hv⟩ := Search.of_find?_range hf
    refine ends_modify (ends_pure ⟨hc.kept rfl rfl rfl, Nat.mod_lt _ hpos, fun h ↦ ?_⟩)
    rw [h] at hv
    cases hv
  · refine ends_modify ?_
    have hstart := Nat.mod_lt s.clockHand hpos
    have hkept : Kept block s { s with clockHand := (s.clockHand % s.entryCount + 1) % 2 ^ 32 } :=
      hc.kept rfl rfl rfl
    refine ends_bind ((flushEntry_ends hlaw hkept.coherent hstart).mono (fun _ _ h ↦ h)
      fun _ _ h ↦ hkept.trans h) ?_
    rintro - s' ⟨hs', hidle, -⟩
    exact ends_pure ⟨hkept.trans hs', hstart, hidle⟩

theorem fill_ends (hc : Coherent block s) (hi : i < s.entryCount) (hidle : Idle s i)
    (hnew : ∀ j, ¬ Holds s j k) :
    Ends (fill devs k i) s
      (fun _ s' ↦ Coherent block s' ∧ overlay block s' = overlay block s ∧ Holds s' i k)
      (fun _ s' ↦ Coherent block s' ∧ overlay block s' = overlay block s) := by
  refine ends_bind (Q := fun _ s' ↦ ∃ io : Io σ, s' = s.setIo i io ∧
    block io.world = block s.world ∧ Buf.ofView bs io.buf = block s.world k)
    (ends_onError (ends_zoom ((hlaw.blkRead_ends k.1 k.2 (s.io i)).mono ?_ ?_))) ?_
  · rintro - io ⟨hblock, hbuf⟩
    exact ⟨io, rfl, hblock, hbuf⟩
  · intro _ io hblock
    have h : Replaced s i { s.entries i with data := Buf.ofView bs io.buf, valid := false }
        ((s.setIo i io).setEntry i { (s.setIo i io).entries i with valid := false }) :=
      ⟨rfl, by simp [State.setIo, State.setEntry]⟩
    have hr := hc.replaceable_drop hi hidle (e := { s.entries i with
      data := Buf.ofView bs io.buf, valid := false }) rfl
    exact ⟨hc.replace h hblock hr, hc.overlay_drop h hblock hr rfl⟩
  · rintro - _ ⟨io, rfl, hblock, hbuf⟩
    refine ends_modifyEntry ?_
    have h : Replaced s i ⟨Buf.ofView bs io.buf, k.2, true, false, some k.1⟩
        ((s.setIo i io).setEntry i { (s.setIo i io).entries i with
          dev := some k.1, lba := k.2, valid := true, dirty := false }) :=
      ⟨rfl, by simp [State.setIo, State.setEntry]⟩
    have he : Entry.holds (⟨Buf.ofView bs io.buf, k.2, true, false, some k.1⟩ : Entry bs D) k
        = true := Entry.holds_iff.2 ⟨rfl, rfl, rfl⟩
    have hr := hc.replaceable_put hi hidle hnew he fun _ ↦ hbuf
    refine ⟨hc.replace h hblock hr, ?_, (h.holds_self hi).2 he⟩
    have hover : overlay block s k = block s.world k := overlay_of_not_holds hnew
    rw [hc.overlay_put h hblock hr he, hbuf, ← hover, Function.update_eq_self]

theorem read_ends (hc : Coherent block s) (d : D) (lba : UInt64) :
    Ends (read devs d lba) s
      (fun buf s' ↦ Coherent block s' ∧ overlay block s' = overlay block s ∧
        buf = overlay block s (d, lba))
      (fun _ s' ↦ Coherent block s' ∧ overlay block s' = overlay block s) := by
  refine ends_failIf (fun _ ↦ ⟨hc, rfl⟩) fun _ ↦ ends_get ?_
  split
  · rename_i i hf
    exact ends_pure ⟨hc, rfl, (hc.overlay_of_holds (find_some hf)).symm⟩
  · rename_i hf
    refine ends_bind ((selectVictim_ends hlaw hc).mono (fun _ _ h ↦ h)
      fun _ _ h ↦ ⟨h.coherent, h.overlay⟩) ?_
    rintro i s1 ⟨hkept, hi, hidle⟩
    have hnew : ∀ j, ¬ Holds s1 j (d, lba) := fun j hj ↦ find_none hf j ((hkept.holds j _).1 hj)
    refine ends_bind ((fill_ends hlaw hkept.coherent (hkept.count ▸ hi) hidle hnew).mono
      (fun _ _ h ↦ h) fun _ _ h ↦ ⟨h.1, h.2.trans hkept.overlay⟩) ?_
    rintro - s2 ⟨hc2, hover, hik⟩
    refine ends_get (ends_pure ⟨hc2, hover.trans hkept.overlay, ?_⟩)
    rw [← hkept.overlay, ← hover, hc2.overlay_of_holds hik]

theorem write_ends (hc : Coherent block s) (d : D) (lba : UInt64) (buf : Buf bs) :
    Ends (write devs d lba buf) s
      (fun _ s' ↦ Coherent block s' ∧
        overlay block s' = Function.update (overlay block s) (d, lba) buf)
      (fun _ s' ↦ Coherent block s' ∧ overlay block s' = overlay block s) := by
  refine ends_failIf (fun _ ↦ ⟨hc, rfl⟩) fun _ ↦ ends_get ?_
  split
  · rename_i i hf
    have hik := find_some hf
    refine ends_modifyEntry ?_
    have h : Replaced s i { s.entries i with data := buf, dirty := true }
        (s.setEntry i { s.entries i with data := buf, dirty := true }) := ⟨rfl, rfl⟩
    have hr := hc.replaceable_same (e := { s.entries i with data := buf, dirty := true })
      hik.1 hik hik.2 rfl
    exact ⟨hc.replace h rfl hr, hc.overlay_put h rfl hr hik.2⟩
  · rename_i hf
    refine ends_bind ((selectVictim_ends hlaw hc).mono (fun _ _ h ↦ h)
      fun _ _ h ↦ ⟨h.coherent, h.overlay⟩) ?_
    rintro i s1 ⟨hkept, hi, hidle⟩
    have hnew : ∀ j, ¬ Holds s1 j (d, lba) := fun j hj ↦ find_none hf j ((hkept.holds j _).1 hj)
    refine ends_bind (ends_modifyEntry (Q := fun _ s2 ↦ s2 = s1.setEntry i { s1.entries i with
      dev := some d, lba := lba, valid := true, dirty := false }) rfl) ?_
    rintro - _ rfl
    refine ends_modifyEntry ?_
    have he : Entry.holds (⟨buf, lba, true, true, some d⟩ : Entry bs D) (d, lba) = true :=
      Entry.holds_iff.2 ⟨rfl, rfl, rfl⟩
    have hr := hkept.coherent.replaceable_put (hkept.count ▸ hi) hidle hnew he nofun
    have h : Replaced s1 i ⟨buf, lba, true, true, some d⟩
        (let s2 := s1.setEntry i { s1.entries i with
          dev := some d, lba := lba, valid := true, dirty := false }
        s2.setEntry i { s2.entries i with data := buf, dirty := true }) :=
      ⟨rfl, by simp [State.setEntry]⟩
    refine ⟨hkept.coherent.replace h rfl hr, ?_⟩
    rw [← hkept.overlay]
    exact hkept.coherent.overlay_put h rfl hr he

theorem flushAll_ends (hc : Coherent block s) :
    Ends (flushAll devs) s
      (fun _ s' ↦ Coherent block s' ∧ overlay block s' = overlay block s ∧
        ∀ k, block s'.world k = overlay block s' k)
      (fun _ s' ↦ Coherent block s' ∧ overlay block s' = overlay block s) := by
  refine ends_get ((ends_forM_each (P := Kept block s) (F := fun i s' ↦ Idle s' i)
    (hc.kept rfl rfl rfl) ?_).mono ?_ fun _ _ h ↦ h)
  · intro i hi s' hs'
    refine (flushEntry_ends hlaw hs'.coherent (hs'.count ▸ List.mem_range.1 hi)).mono ?_ ?_
    · exact fun _ s'' h ↦ ⟨hs'.trans h.1, h.2⟩
    · exact fun _ s'' h ↦ ⟨h.coherent, (hs'.trans h).overlay⟩
  · rintro - s' ⟨hs', hidle, -⟩
    refine ⟨hs'.coherent, hs'.overlay, fun k ↦ ?_⟩
    by_cases h : ∃ i, Holds s' i k
    · obtain ⟨i, hi⟩ := h
      rw [hs'.coherent.overlay_of_holds hi, hs'.coherent.eq_block_of_idle
        (hidle i (List.mem_range.2 (hs'.count ▸ hi.1))) hi]
    · rw [overlay_of_not_holds fun i hi ↦ h ⟨i, hi⟩]

end Calls

/-! ## Runs -/

/-- The states that calls lead to. -/
inductive Reaches (devs : D → Device σ) (s₀ : State bs D σ) : State bs D σ → Prop
  | start : Reaches devs s₀ s₀
  | read (d : D) (lba : UInt64) {s : State bs D σ} (h : Reaches devs s₀ s) :
      Reaches devs s₀ (after (read devs d lba) s)
  | write (d : D) (lba : UInt64) (buf : Buf bs) {s : State bs D σ} (h : Reaches devs s₀ s) :
      Reaches devs s₀ (after (write devs d lba buf) s)
  | flushAll {s : State bs D σ} (h : Reaches devs s₀ s) : Reaches devs s₀ (after (flushAll devs) s)

theorem coherent_init {n : ℕ} {pool : ℕ → Buf bs} {w : σ} (h : init n pool w = .ok s) :
    Coherent block s := by
  rw [init] at h
  split at h
  · cases h
  · cases h
    have hnot : ∀ i (k : D × UInt64), ¬ Holds (σ := σ)
        ⟨fun i ↦ ⟨pool i, 0, false, false, none⟩, n, 0, w⟩ i k :=
      fun i k hk ↦ Bool.false_ne_true hk.2
    exact ⟨fun i _ k hk ↦ absurd hk (hnot i k), nofun, fun i k hk ↦ absurd hk (hnot i k)⟩

theorem Reaches.coherent {devs : D → Device σ} (hlaw : Lawful devs bs block) {s₀ : State bs D σ}
    (h₀ : Coherent block s₀) (hr : Reaches devs s₀ s) : Coherent block s := by
  induction hr with
  | start => exact h₀
  | read d lba _ ih =>
    exact ((read_ends hlaw ih d lba).mono (fun _ _ h ↦ h.1) fun _ _ h ↦ h.1).after
  | write d lba buf _ ih =>
    exact ((write_ends hlaw ih d lba buf).mono (fun _ _ h ↦ h.1) fun _ _ h ↦ h.1).after
  | flushAll _ ih => exact ((flushAll_ends hlaw ih).mono (fun _ _ h ↦ h.1) fun _ _ h ↦ h.1).after

/-- **The buffer cache is coherent and loses no data**, whichever reads and writes of the devices
fail.  After any calls no block has two copies and the clean copies are right.  A read returns what
the block is for the users of the cache, a write changes just that block, and nothing else changes
any block for them; after a successful `mcsos_bcache_flush_all` the devices have it all. -/
theorem bcache_coherent {devs : D → Device σ} (hlaw : Lawful devs bs block) {n : ℕ}
    {pool : ℕ → Buf bs} {w : σ} {s₀ : State bs D σ} (h₀ : init n pool w = .ok s₀)
    (hr : Reaches devs s₀ s) :
    (∀ i j k, Holds s i k → Holds s j k → i = j) ∧
      (∀ i k, Holds s i k → (s.entries i).dirty = false →
        (s.entries i).data = block s.world k) ∧
      (∀ d lba, Ends (read devs d lba) s
        (fun buf s' ↦ buf = overlay block s (d, lba) ∧ overlay block s' = overlay block s)
        (fun _ s' ↦ overlay block s' = overlay block s)) ∧
      (∀ d lba buf, Ends (write devs d lba buf) s
        (fun _ s' ↦ overlay block s' = Function.update (overlay block s) (d, lba) buf)
        (fun _ s' ↦ overlay block s' = overlay block s)) ∧
      Ends (flushAll devs) s
        (fun _ s' ↦ overlay block s' = overlay block s ∧ ∀ k, block s'.world k = overlay block s' k)
        (fun _ s' ↦ overlay block s' = overlay block s) := by
  have hc := hr.coherent hlaw (coherent_init h₀)
  refine ⟨hc.unique, hc.clean, fun d lba ↦ ?_, fun d lba buf ↦ ?_, ?_⟩
  · exact (read_ends hlaw hc d lba).mono (fun _ _ h ↦ ⟨h.2.2, h.2.1⟩) fun _ _ h ↦ h.2
  · exact (write_ends hlaw hc d lba buf).mono (fun _ _ h ↦ h.2) fun _ _ h ↦ h.2
  · exact (flushAll_ends hlaw hc).mono (fun _ _ h ↦ h.2) fun _ _ h ↦ h.2

end Bcache
end Block
end Mcsos
