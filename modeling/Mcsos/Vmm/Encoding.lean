import Mcsos.Vmm.Refinement

/-!
# Which frames an entry can hold

`vmm_map_page` accepts every address that is aligned, but an entry has room for 52 bits of it and
the rest is masked away.  So a call does what the call with the masked address does
(`mapPage_masked`), and a run with any addresses is a run with addresses that fit, of which the
refinement of the map speaks (`Runs.reaches`).  The answer to a query is then the address that was
asked for exactly if nothing was masked away (`recorded_iff`).
-/

set_option autoImplicit false

namespace Mcsos
namespace Vmm

open Program

/-! ## The mask -/

theorem and_mask_and_mask (p : Word) : p &&& pteAddrMask &&& pteAddrMask = p &&& pteAddrMask := by
  rw [BitVec.and_assoc, BitVec.and_self]

theorem toNat_and_mask_lt (p : Word) : (p &&& pteAddrMask).toNat < 2 ^ 52 := by
  rw [BitVec.toNat_and]
  exact lt_of_le_of_lt Nat.and_le_right (by decide)

theorem isAligned4k_and_mask (p : Word) : isAligned4k (p &&& pteAddrMask) = true := by
  rw [isAligned4k, BitVec.and_assoc, show pteAddrMask &&& (pageSize - 1) = 0 from by decide]
  simp

/-- An aligned address is its own masked address exactly if it has 52 bits. -/
theorem and_mask_eq_self_iff {p : Word} (ha : isAligned4k p = true) :
    p &&& pteAddrMask = p ↔ p.toNat < 2 ^ 52 := by
  refine ⟨fun h ↦ ?_, and_pteAddrMask ha⟩
  rw [← h]
  exact toNat_and_mask_lt p

theorem pageEntry_masked (p f : Word) : pageEntry (p &&& pteAddrMask) f = pageEntry p f := by
  rw [pageEntry, and_mask_and_mask, pageEntry]

/-! ## Runs -/

section Runs

variable {σ V : Type} [DecidableEq V]

/-- The states that calls on a fresh space lead to, whatever their arguments. -/
abbrev Runs (space : Space σ V) : State σ V → PageMap → Prop := ReachesBy (fun _ ↦ True) space

/-- What is left of a map when the addresses are cut down to what fits in an entry. -/
def PageMap.masked (m : PageMap) : PageMap := fun v ↦
  (m v).map fun pf ↦ (pf.1 &&& pteAddrMask, pf.2)

theorem PageMap.masked_update (m : PageMap) (v : Word) (o : Option (Word × Word)) :
    PageMap.masked (Function.update m v o)
      = Function.update m.masked v (o.map fun pf ↦ (pf.1 &&& pteAddrMask, pf.2)) := by
  funext w
  by_cases hw : w = v
  · rw [hw, PageMap.masked, Function.update_self, Function.update_self]
  · rw [PageMap.masked, Function.update_of_ne hw, Function.update_of_ne hw, PageMap.masked]

variable {space : Space σ V} {table : Word → V} {returned : σ → Set Word} {s : State σ V}
  {m : PageMap} {v p f : Word}

/-- A call has the effect of the call with the masked address. -/
theorem mapPage_masked (hp : isAligned4k p = true) :
    mapPage space v (p &&& pteAddrMask) f = mapPage space v p f := by
  rw [mapPage, mapPage, isAligned4k_and_mask, hp, pageEntry_masked]

/-- Every run is one with addresses that fit. -/
theorem Runs.reaches (h : Runs space s m) : Reaches space s m.masked := by
  induction h with
  | init hspace hroot h0 => exact .init hspace hroot h0
  | @mapPage s m _ v p f _ ih =>
    by_cases hp : isAligned4k p = true
    · have hstep := ih.mapPage v (p &&& pteAddrMask) f (toNat_and_mask_lt p)
      rw [mapPage_masked hp] at hstep
      convert hstep using 1
      split
      · exact m.masked_update v _
      · rfl
    · have herr : Vmm.mapPage space v p f s = .error .errInval s := mapPage_inval fun h ↦ hp h.2
      rw [after_of_error herr, errorOf_of_error herr, if_neg (Option.some_ne_none _)]
      exact ih
  | @unmapPage s m _ v ih =>
    convert ih.unmapPage v using 1
    split
    · exact m.masked_update v _
    · rfl
  | queryPage _ v ih => exact ih.queryPage v

/-- What is mapped can be mapped. -/
theorem valid_of_mapPage (hok : errorOf (mapPage space v p f) s = none) :
    Valid v ∧ isAligned4k p = true := by
  by_contra h
  rw [errorOf_of_error (mapPage_inval h)] at hok
  cases hok

/-- **What is recorded is what was asked for, if it fits.**  After a call that has mapped a page in
any state of a run, a query returns the address and the flags of the call if and only if the address
has no more than 52 bits. -/
theorem recorded_iff (hL : Lawful space table returned) (h : Runs space s m)
    (hok : errorOf (mapPage space v p f) s = none) :
    queryPage space v (after (mapPage space v p f) s)
        = .ok ⟨v, p, ptePresent ||| (f &&& allowed)⟩ (after (mapPage space v p f) s) ↔
      p.toNat < 2 ^ 52 := by
  obtain ⟨hv, hp⟩ := valid_of_mapPage hok
  have hreach := Runs.reaches (h.mapPage v p f trivial)
  rw [if_pos hok, m.masked_update, Option.map_some] at hreach
  have hquery := (hreach.holds hL).queryPage_eq hL hv
  rw [Function.update_self] at hquery
  rw [hquery, ← and_mask_eq_self_iff hp]
  simp

end Runs

/-- A frame of the lower memory is recorded. -/
theorem recorded_low_frame :
    queryPage countingSpace 0x400000 (after (mapPage countingSpace 0x400000 0x500000 6)
        ⟨fun _ _ ↦ 0, 0⟩)
      = .ok ⟨0x400000, 0x500000, 7⟩
        (after (mapPage countingSpace 0x400000 0x500000 6) ⟨fun _ _ ↦ 0, 0⟩) := by
  have hok : errorOf (mapPage countingSpace 0x400000 0x500000 6) ⟨fun _ _ ↦ 0, 0⟩ = none := by
    decide +kernel
  exact (recorded_iff countingSpace_lawful (countingSpace_fresh _) hok).2 (by decide)

/-- Bit 52 of an address is lost: the page is mapped, to frame 0. -/
theorem high_frame_masked :
    Lawful countingSpace id (fun n ↦ { p | ∃ k < n, k < 62 ∧ p = nthFrame k }) ∧
      ∃ s m, Runs countingSpace s m ∧
        errorOf (mapPage countingSpace 0x400000 0x10000000000000 2) s = none ∧
        result (queryPage countingSpace 0x400000)
          (after (mapPage countingSpace 0x400000 0x10000000000000 2) s)
            = .ok ⟨0x400000, 0, 3⟩ := by
  refine ⟨countingSpace_lawful, _, _, (countingSpace_fresh _), ?_, ?_⟩
  · decide +kernel
  · decide +kernel

end Vmm
end Mcsos
