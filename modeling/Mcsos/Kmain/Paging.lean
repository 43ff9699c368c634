import Mcsos.Pmm.Refinement
import Mcsos.Vmm.Refinement

/-!
# Page tables in the frames of the allocator

In the kernel, `kmain.c` puts the page tables of `vmm.c` on top of the frame allocator of `pmm.c`:
tables lie in frames that `m7_vmm_alloc` takes from `g_pmm`, and are found at a fixed distance from
their physical address.

The page tables are correct if the functions of their space are `Lawful`.  Here these functions are
known, and what is shown is that they keep their part, as long as the rest of the kernel keeps
its own: it may allocate frames, write to those it got, reserve ranges, and free what it got, but
not what others got.  Lawful functions are asked to be so in every state, and those of the kernel
are where the allocator works properly (`Good`); so they are compared with a `guarded` version,
which agrees with them there.
-/

set_option autoImplicit false

namespace Mcsos
namespace Kmain

open Program Vmm

/-- Memory as far as it has page tables, and `g_pmm`. -/
abbrev Frames : Type := Vmm.State Pmm.State Word

/-- `m7_vmm_alloc` -/
def m7VmmAlloc (s : Frames) : Word × Frames :=
  (BitVec.ofNat 64 (Pmm.allocFrame s.ctx).1, { s with ctx := (Pmm.allocFrame s.ctx).2 })

/-- `m7_vmm_free` -/
def m7VmmFree (paddr : Word) (s : Frames) : Frames :=
  { s with ctx := (Pmm.freeFrame paddr.toNat s.ctx).2 }

/-- `m7_phys_to_virt`, where `offset` is `g_hhdm_offset` -/
def m7PhysToVirt (offset : Word) (_ : Pmm.State) (paddr : Word) : Option Word :=
  if offset + paddr = 0 then none else some (offset + paddr)

/-- The space that `m7_vmm_init` sets up. -/
def kernelSpace (offset root : Word) : Space Pmm.State Word where
  rootPaddr := root
  allocFrame := some m7VmmAlloc
  freeFrame := some m7VmmFree
  physToVirt := some (m7PhysToVirt offset)

/-! ## The allocator -/

/-- The allocator has given out a frame. -/
structure Taken (c : Pmm.State) (p : ℕ) (c' : Pmm.State) : Prop where
  running : Pmm.Running c'
  maxPhys : c'.maxPhys = c.maxPhys
  fresh : ¬ Pmm.Freeable c p
  freeable : ∀ q, Pmm.Freeable c' q ↔ q = p ∨ Pmm.Freeable c q
  card : (Pmm.freeSet c').card + 1 = (Pmm.freeSet c).card

theorem taken_takeFrame {c : Pmm.State} (hc : Pmm.Running c) {f : ℕ} (hf : f ∈ Pmm.freeSet c)
    (hmin : ∀ f' ∈ Pmm.freeSet c, f ≤ f') :
    Taken c (f * Pmm.pageSize) (Pmm.takeFrame f c).2 := by
  obtain ⟨hlt, htest⟩ := Pmm.mem_freeSet.1 hf
  have hphys := hc.phys
  have hne : f ≠ 0 := fun h ↦ hc.zero (h ▸ hf)
  have hshape : Pmm.SameShape c (Pmm.markFrameUsed f c) := Pmm.markFrameUsed_shape
  have hdiv : f * Pmm.pageSize / Pmm.pageSize = f := Nat.mul_div_cancel _ (by decide)
  have hset : Pmm.freeSet (Pmm.takeFrame f c).2 = (Pmm.freeSet c).erase f :=
    Pmm.freeSet_markFrameUsed
  refine ⟨hc.takeFrame hf hmin, hshape.maxPhys, fun h ↦ ?_, fun q ↦ ?_, ?_⟩
  · rw [Pmm.Freeable, hdiv, htest] at h
    exact Bool.false_ne_true h.2.2.2
  · have hmax : (Pmm.takeFrame f c).2.maxPhys = c.maxPhys := hshape.maxPhys
    rw [Pmm.Freeable, Pmm.Freeable, Pmm.test_takeFrame hf, hmax, Bool.or_eq_true,
      decide_eq_true_eq]
    constructor
    · rintro ⟨hdvd, h0, hq, hq' | hq'⟩
      · left
        rw [← hq', Nat.div_mul_cancel hdvd]
      · exact .inr ⟨hdvd, h0, hq, hq'⟩
    · rintro (rfl | ⟨hdvd, h0, hq, hq'⟩)
      · refine ⟨Nat.dvd_mul_left _ _, Nat.mul_ne_zero hne (by decide), ?_, .inl hdiv⟩
        simp only [Pmm.pageSize] at hphys ⊢
        omega
      · exact ⟨hdvd, h0, hq, .inr hq'⟩
  · rw [hset, Finset.card_erase_of_mem hf]
    exact Nat.sub_add_cancel (Finset.card_pos.2 ⟨f, hf⟩)

theorem Taken.self {c c' : Pmm.State} {p : ℕ} (h : Taken c p c') : Pmm.Freeable c' p :=
  (h.freeable p).2 (.inl rfl)

/-- The state of the allocator in a kernel whose page tables have their root at `root`: the root is
in use, and the addresses of all frames are such that they fit into an entry, and that they are no
null pointers at their distance. -/
structure Good (offset root : Word) (c : Pmm.State) : Prop where
  running : Pmm.Running c
  small : c.maxPhys ≤ 2 ^ 52
  fits : offset.toNat + c.maxPhys ≤ 2 ^ 64
  root : Pmm.Freeable c root.toNat

variable {offset root : Word} {s s' : Frames} {c c' : Pmm.State}

theorem Good.taken {p : ℕ} (h : Good offset root c) (ht : Taken c p c') : Good offset root c' :=
  ⟨ht.running, ht.maxPhys.symm ▸ h.small, ht.maxPhys.symm ▸ h.fits, (ht.freeable _).2 (.inr h.root)⟩

/-- What is in use can be a table. -/
theorem Good.isTable (h : Good offset root c) {p : Word} (hp : Pmm.Freeable c p.toNat) :
    isAligned4k p = true ∧ p.toNat < 2 ^ 52 ∧ m7PhysToVirt offset c p = some (offset + p) := by
  obtain ⟨hdvd, h0, hlt, -⟩ := hp
  have hsmall := h.small
  have hfits := h.fits
  refine ⟨isAligned4k_iff.2 (Nat.mod_eq_zero_of_dvd hdvd), by omega, if_neg ?_⟩
  bv_omega

theorem allocFrame_cases (hc : Pmm.Running c) :
    Pmm.freeSet c = ∅ ∧ Pmm.allocFrame c = (Pmm.invalidFrame, c) ∨
      ∃ p, Pmm.allocFrame c = (p, (Pmm.allocFrame c).2) ∧ Taken c p (Pmm.allocFrame c).2 := by
  obtain h | ⟨f, hf, hmin, heq⟩ := hc.allocFrame_eq
  · exact .inl h
  · refine .inr ⟨f * Pmm.pageSize, by rw [heq]; rfl, ?_⟩
    rw [heq]
    exact taken_takeFrame hc hf hmin

/-- **What `m7_vmm_alloc` does.** -/
theorem Good.m7VmmAlloc_eq (h : Good offset root s.ctx) :
    Pmm.freeSet s.ctx = ∅ ∧ m7VmmAlloc s = (invalidPhys, s) ∨
      ∃ (p : Word) (c' : Pmm.State), m7VmmAlloc s = (p, { s with ctx := c' }) ∧
        Taken s.ctx p.toNat c' := by
  obtain ⟨hempty, heq⟩ | ⟨p, heq, ht⟩ := allocFrame_cases h.running
  · refine .inl ⟨hempty, ?_⟩
    rw [m7VmmAlloc, heq]
    rfl
  · refine .inr ⟨BitVec.ofNat 64 p, (Pmm.allocFrame s.ctx).2, ?_, ?_⟩
    · rw [m7VmmAlloc, heq]
    · have hp := ht.self.2.2.1
      rw [ht.maxPhys] at hp
      have hsmall := h.small
      rw [BitVec.toNat_ofNat, Nat.mod_eq_of_lt (by omega)]
      exact ht

/-! ## The guarded space -/

open Classical in
/-- The space with an allocator that refuses to work in a state that is not good. -/
noncomputable def guarded (offset root : Word) : Space Pmm.State Word :=
  { kernelSpace offset root with
    allocFrame := some fun s ↦ if Good offset root s.ctx then m7VmmAlloc s else (invalidPhys, s) }

/-- The frames that are in use. -/
def used (offset root : Word) (c : Pmm.State) : Set Word :=
  { p | Good offset root c ∧ Pmm.Freeable c p.toNat }

/-- Where a frame is found. -/
abbrev table (offset p : Word) : Word := offset + p

theorem guarded_lawful (h0 : offset + root ≠ 0) :
    Lawful (guarded offset root) (table offset) (used offset root) where
  find := by
    refine ⟨m7PhysToVirt offset, rfl, fun c p hp ↦ ?_⟩
    rcases hp with rfl | ⟨hgood, hp⟩
    · exact if_neg h0
    · exact (hgood.isTable hp).2.2
  inj := fun _ _ _ _ _ h ↦ (BitVec.add_right_inj offset).1 h
  same := by
    rintro - ⟨⟩ s p -
    dsimp only
    split <;> rfl
  alloc := by
    rintro - ⟨⟩ s
    dsimp only
    by_cases hgood : Good offset root s.ctx
    · rw [if_pos hgood]
      obtain ⟨-, heq⟩ | ⟨p, c', heq, ht⟩ := hgood.m7VmmAlloc_eq
      · rw [heq]
        exact .inl ⟨rfl, rfl⟩
      · have hgood' := hgood.taken ht
        obtain ⟨hal, hlt, -⟩ := hgood'.isTable ht.self
        rw [heq]
        refine .inr ⟨hal, hlt, ?_, Set.ext fun q ↦ ?_⟩
        · rintro (hr | hr)
          · have hroot : p.toNat = root.toNat := congrArg BitVec.toNat hr
            exact ht.fresh (hroot ▸ hgood.root)
          · exact ht.fresh hr.2
        · constructor
          · rintro ⟨-, hq⟩
            rcases (ht.freeable _).1 hq with hq | hq
            · exact .inl (BitVec.eq_of_toNat_eq hq)
            · exact .inr ⟨hgood, hq⟩
          · rintro (rfl | hq)
            · exact ⟨hgood', ht.self⟩
            · exact ⟨hgood', (ht.freeable _).2 (.inr hq.2)⟩
    · rw [if_neg hgood]
      exact .inl ⟨rfl, rfl⟩

theorem Good.lawful (hG : Good offset root s.ctx) :
    Lawful (guarded offset root) (table offset) (used offset root) := by
  refine guarded_lawful fun h0 ↦ ?_
  have hroot := (hG.isTable hG.root).2.2
  rw [m7PhysToVirt, if_pos h0] at hroot
  cases hroot

/-! ## The calls in a good state -/

theorem modifyGet_apply {ε σ α : Type} (f : σ → α × σ) (s : σ) :
    (modifyGet f : EStateM ε σ α) s = .ok (f s).1 (f s).2 := rfl

theorem expect_allocFrame (offset root : Word) (s : Frames) :
    (expect (kernelSpace offset root).allocFrame .errNomem : EStateM Err Frames _) s
      = .ok m7VmmAlloc s := rfl

/-- A new table, or none if there are no frames left. -/
theorem Good.allocNextTable_eq (h : Good offset root s.ctx) (t : Word) (i : Fin 512) :
    Pmm.freeSet s.ctx = ∅ ∧ allocNextTable (kernelSpace offset root) t i s = .error .errNomem s ∨
      ∃ p c', Taken s.ctx p.toNat c' ∧ allocNextTable (kernelSpace offset root) t i s
        = .ok (table offset p) (setEntry t i (tableEntry p)
          (zeroPage (table offset p) { s with ctx := c' })) := by
  obtain ⟨hempty, heq⟩ | ⟨p, c', heq, ht⟩ := h.m7VmmAlloc_eq
  · refine .inl ⟨hempty, ?_⟩
    have hget : (modifyGet m7VmmAlloc : EStateM Err Frames Word) s
        = .ok invalidPhys s := by rw [modifyGet_apply, heq]
    rw [allocNextTable, bind_of_ok (expect_allocFrame offset root s), bind_of_ok hget,
      bind_of_error (failIf_of_pos (.inl rfl) _ s)]
  · refine .inr ⟨p, c', ht, ?_⟩
    obtain ⟨hal, hlt, hfind⟩ := (h.taken ht).isTable ht.self
    have hget : (modifyGet m7VmmAlloc : EStateM Err Frames Word) s
        = .ok p { s with ctx := c' } := by rw [modifyGet_apply, heq]
    have hvalid : ¬ (p = invalidPhys ∨ (!isAligned4k p) = true) := by
      rw [hal, not_or]
      refine ⟨fun hp ↦ ?_, by decide⟩
      rw [hp] at hlt
      exact absurd hlt (by decide)
    have htable : tableFromPhys (kernelSpace offset root) p { s with ctx := c' }
        = some (table offset p) := by
      rw [tableFromPhys, hal]
      exact hfind
    rw [allocNextTable, bind_of_ok (expect_allocFrame offset root s), bind_of_ok hget,
      bind_of_ok (failIf_of_neg hvalid _ _), bind_of_ok (get_apply _), htable]
    rfl

/-- Tables are found in the same places. -/
theorem tableFromPhys_guarded (p : Word) (s : Frames) :
    tableFromPhys (guarded offset root) p s = tableFromPhys (kernelSpace offset root) p s := by
  rw [tableFromPhys, tableFromPhys,
    show (guarded offset root).physToVirt = some (m7PhysToVirt offset) from rfl,
    show (kernelSpace offset root).physToVirt = some (m7PhysToVirt offset) from rfl]

theorem Good.allocNextTable_guarded (h : Good offset root s.ctx) (t : Word) (i : Fin 512) :
    allocNextTable (guarded offset root) t i s
      = allocNextTable (kernelSpace offset root) t i s := by
  rw [allocNextTable, allocNextTable, bind_of_ok (expect_allocFrame offset root s)]
  refine (bind_of_ok (expect_some _ _ s)).trans (bind_congr_at ?_ fun _ _ _ ↦ rfl)
  rw [modifyGet_apply, modifyGet_apply, if_pos h]

theorem Good.getOrAllocNextTable_guarded (h : Good offset root s.ctx) (t : Word) (i : Fin 512) :
    getOrAllocNextTable (guarded offset root) t i s
      = getOrAllocNextTable (kernelSpace offset root) t i s := by
  rw [getOrAllocNextTable, getOrAllocNextTable, bind_of_ok (get_apply s), bind_of_ok (get_apply s)]
  split
  · rfl
  · exact h.allocNextTable_guarded t i

theorem Good.getOrAllocNextTable_ends (h : Good offset root s.ctx) (t : Word) (i : Fin 512) :
    Ends (getOrAllocNextTable (kernelSpace offset root) t i) s (fun _ s' ↦ Good offset root s'.ctx)
      fun _ s' ↦ Good offset root s'.ctx := by
  refine ends_get ?_
  dsimp only
  split
  · refine ends_failIf (fun _ ↦ h) fun _ ↦ ?_
    cases tableFromPhys (kernelSpace offset root) (s.mem t i &&& pteAddrMask) s with
    | none => exact ends_of_error (expect_none _ s) h
    | some v => exact ends_of_ok (expect_some v _ s) h
  · obtain ⟨-, heq⟩ | ⟨p, c', ht, heq⟩ := h.allocNextTable_eq t i
    · exact ends_of_error heq h
    · exact ends_of_ok heq (h.taken ht)

/-- In a good state, the guard does not matter. -/
theorem Good.mapPage_guarded (h : Good offset root s.ctx) (v p f : Word) :
    mapPage (guarded offset root) v p f s = mapPage (kernelSpace offset root) v p f s := by
  have hstep : ∀ {s1 s2 : Frames} {t v : Word} {i : Fin 512}, Good offset root s1.ctx →
      getOrAllocNextTable (kernelSpace offset root) t i s1 = .ok v s2 → Good offset root s2.ctx :=
    fun h1 heq ↦ (h1.getOrAllocNextTable_ends _ _).of_eq_ok heq
  have hwalk : ∀ (pml4 : Word) (g : Word → EStateM Err Frames Unit),
      (getOrAllocNextTable (guarded offset root) pml4 (idxPml4 v) >>= fun pdpt ↦
        getOrAllocNextTable (guarded offset root) pdpt (idxPdpt v) >>= fun pd ↦
        getOrAllocNextTable (guarded offset root) pd (idxPd v) >>= g) s
      = (getOrAllocNextTable (kernelSpace offset root) pml4 (idxPml4 v) >>= fun pdpt ↦
        getOrAllocNextTable (kernelSpace offset root) pdpt (idxPdpt v) >>= fun pd ↦
        getOrAllocNextTable (kernelSpace offset root) pd (idxPd v) >>= g) s := by
    intro pml4 g
    refine bind_congr_at (h.getOrAllocNextTable_guarded _ _) fun pdpt s1 heq1 ↦ ?_
    have h1 := hstep h heq1
    refine bind_congr_at (h1.getOrAllocNextTable_guarded _ _) fun pd s2 heq2 ↦ ?_
    exact bind_congr_at ((hstep h1 heq2).getOrAllocNextTable_guarded _ _) fun _ _ _ ↦ rfl
  by_cases hc : (!isCanonical v) = true ∨ (!isAligned4k v) = true ∨ (!isAligned4k p) = true
  · rw [mapPage, mapPage, bind_of_error (failIf_of_pos hc _ s),
      bind_of_error (failIf_of_pos hc _ s)]
  · rw [mapPage, mapPage, bind_of_ok (failIf_of_neg hc _ s), bind_of_ok (failIf_of_neg hc _ s),
      bind_of_ok (get_apply s), bind_of_ok (get_apply s)]
    rw [tableFromPhys_guarded, show (guarded offset root).rootPaddr = root from rfl,
      show (kernelSpace offset root).rootPaddr = root from rfl]
    cases tableFromPhys (kernelSpace offset root) root s with
    | none => rw [bind_of_error (expect_none _ s), bind_of_error (expect_none _ s)]
    | some pml4 =>
      rw [bind_of_ok (expect_some pml4 _ s), bind_of_ok (expect_some pml4 _ s)]
      exact hwalk pml4 _

/-! ## The tables and the frames they take -/

section Tables

variable {t : Word} {i : Fin 512} {a : List (Fin 512)}

/-- The invariant of the page tables, in the kernel. -/
abbrev KInv (offset root : Word) (s : Frames) : Prop :=
  Inv (guarded offset root) (table offset) (used offset root) s

/-- The table at the end of a path, in the kernel. -/
abbrev kTableAt (offset root : Word) (s : Frames) (a : List (Fin 512)) : Option Word :=
  tableAt (kernelSpace offset root) (table offset) s a

/-- A table was made in a frame of its own, at the end of the path `a`. -/
structure NewTable (offset root : Word) (s : Frames) (a : List (Fin 512)) (p : Word) (s' : Frames) :
    Prop where
  taken : Taken s.ctx p.toNat s'.ctx
  inv : KInv offset root s'
  walk : ∀ b t, b.length ≤ 3 → (kTableAt offset root s' b = some t ↔
    kTableAt offset root s b = some t ∨ b = a ∧ t = table offset p)

theorem Good.newTable (hG : Good offset root s.ctx) (hI : KInv offset root s) (ha : a.length < 3)
    (ht : kTableAt offset root s a = some t) (h0 : s.mem t i = 0) {p : Word} {c' : Pmm.State}
    (htaken : Taken s.ctx p.toNat c') :
    NewTable offset root s (a ++ [i]) p (setEntry t i (tableEntry p)
      (zeroPage (table offset p) { s with ctx := c' })) := by
  have hG' := hG.taken htaken
  obtain ⟨hal, hlt, -⟩ := hG'.isTable htaken.self
  have htm : t ∈ tables (guarded offset root) (table offset) (used offset root) s :=
    hI.mem_tables ha.le ht
  have hnew : table offset p ∉
      tables (guarded offset root) (table offset) (used offset root) s := by
    rintro ⟨q, hq, hqp⟩
    obtain rfl : q = p := (BitVec.add_right_inj offset).1 hqp
    rcases hq with rfl | hq
    · exact htaken.fresh hG.root
    · exact htaken.fresh hq.2
  have hlinked : Linked (guarded offset root) (table offset) (used offset root) s t i p
      (setEntry t i (tableEntry p) (zeroPage (table offset p) { s with ctx := c' })) := by
    have hne : table offset p ≠ t := fun h ↦ hnew (h ▸ htm)
    refine ⟨hal, hlt, hnew, Set.ext fun q ↦ ?_, ?_, fun r hr j hrj ↦ ?_, fun j ↦ ?_⟩
    · constructor
      · rintro ⟨-, hq⟩
        rcases (htaken.freeable _).1 hq with hq | hq
        · exact .inl (BitVec.eq_of_toNat_eq hq)
        · exact .inr ⟨hG, hq⟩
      · rintro (rfl | hq)
        · exact ⟨hG', htaken.self⟩
        · exact ⟨hG', (htaken.freeable _).2 (.inr hq.2)⟩
    · simp [setEntry]
    · have hrp : r ≠ table offset p := fun h ↦ hnew (h ▸ hr)
      by_cases hrt : r = t
      · subst hrt
        simp [setEntry, zeroPage, Function.update_of_ne hrp, hrj.resolve_left (not_not.2 rfl)]
      · simp [setEntry, zeroPage, Function.update_of_ne hrt, Function.update_of_ne hrp]
    · simp [setEntry, zeroPage, Function.update_of_ne hne]
  have hgrown : Radix.Tree.Grown (child (table offset)) s.mem (table offset root)
      (tables (guarded offset root) (table offset) (used offset root) s) a i t (table offset p)
      (setEntry t i (tableEntry p) (zeroPage (table offset p) { s with ctx := c' })).mem :=
    ⟨ht, by rw [h0, child_zero], hnew, hlinked.same,
      by rw [hlinked.link, child_tableEntry hal hlt], fun j ↦ by rw [hlinked.empty, child_zero]⟩
  exact ⟨htaken, (hI.linked ha ht h0 hlinked).1.inv,
    fun b t hb ↦ hI.tree.walk_grow ha hgrown b hb t⟩

/-- The free frames. -/
def freeFrames (s : Frames) : ℕ := (Pmm.freeSet s.ctx).card

/-- The tables that are missing at the end of a path. -/
def lacks (offset root : Word) (s : Frames) (a : List (Fin 512)) : ℕ :=
  if kTableAt offset root s a = none then 1 else 0

/-- The tables that have to be made to map a page. -/
def missing (offset root : Word) (s : Frames) (v : Word) : ℕ :=
  lacks offset root s [idxPml4 v] + lacks offset root s [idxPml4 v, idxPdpt v]
    + lacks offset root s [idxPml4 v, idxPdpt v, idxPd v]

/-- What the calls do to the tables and to the allocator: new tables lie in frames that were free,
and frames in use stay in use. -/
structure Grows (offset root : Word) (s s' : Frames) : Prop where
  good : Good offset root s'.ctx
  tables : ∀ b t, b.length ≤ 3 → kTableAt offset root s' b = some t →
    kTableAt offset root s b = some t ∨
      ∃ p : Word, t = table offset p ∧ ¬ Pmm.Freeable s.ctx p.toNat
  freeable : ∀ q, Pmm.Freeable s.ctx q → Pmm.Freeable s'.ctx q

theorem Grows.refl (h : Good offset root s.ctx) : Grows offset root s s :=
  ⟨h, fun _ _ _ ht ↦ .inl ht, fun _ hq ↦ hq⟩

theorem Grows.trans {s'' : Frames} (h : Grows offset root s s') (h' : Grows offset root s' s'') :
    Grows offset root s s'' := by
  refine ⟨h'.good, fun b t hb ht ↦ ?_, fun q hq ↦ h'.freeable q (h.freeable q hq)⟩
  rcases h'.tables b t hb ht with ht | ⟨p, hp, hfree⟩
  · exact h.tables b t hb ht
  · exact .inr ⟨p, hp, fun hq ↦ hfree (h.freeable _ hq)⟩

/-- One step of the way down that makes tables where there are none. -/
structure Descends (offset root : Word) (s : Frames) (a : List (Fin 512)) (s' : Frames) : Prop where
  grows : Grows offset root s s'
  inv : KInv offset root s'
  frames : freeFrames s' + lacks offset root s a = freeFrames s
  others : ∀ b, b.length ≤ 3 → b ≠ a → kTableAt offset root s' b = kTableAt offset root s b

theorem NewTable.descends {p : Word} (hG : Good offset root s.ctx)
    (hnone : kTableAt offset root s a = none) (h : NewTable offset root s a p s') :
    Descends offset root s a s' := by
  refine ⟨⟨hG.taken h.taken, fun b t hb ht ↦ ?_, fun q hq ↦ (h.taken.freeable q).2 (.inr hq)⟩,
    h.inv, ?_, fun b hb hne ↦ Option.ext fun t ↦ ?_⟩
  · rcases (h.walk b t hb).1 ht with ht | ⟨-, ht⟩
    · exact .inl ht
    · exact .inr ⟨p, ht, h.taken.fresh⟩
  · rw [lacks, if_pos hnone]
    exact h.taken.card
  · exact (h.walk b t hb).trans (or_iff_left fun hb' ↦ hne hb'.1)

theorem Good.getOrAllocNextTable_descends (hG : Good offset root s.ctx) (hI : KInv offset root s)
    (ha : a.length < 3) (ht : kTableAt offset root s a = some t) :
    Ends (getOrAllocNextTable (kernelSpace offset root) t i) s
      (fun v s' ↦ Descends offset root s (a ++ [i]) s' ∧
        kTableAt offset root s' (a ++ [i]) = some v)
      (fun e s' ↦ s' = s ∧ e = .errNomem ∧ freeFrames s = 0 ∧
        lacks offset root s (a ++ [i]) = 1) := by
  refine ends_get ?_
  dsimp only
  rcases hI.entry_cases hG.lawful ha ht i with ⟨h0, hn⟩ | ⟨hpres, hhuge, v, hfind, hv⟩
  · rw [if_neg (by rw [h0]; decide)]
    obtain ⟨hempty, heq⟩ | ⟨p, c', htaken, heq⟩ := hG.allocNextTable_eq t i
    · refine ends_of_error heq ⟨rfl, rfl, ?_, if_pos hn⟩
      rw [freeFrames, hempty]
      rfl
    · have hnew := hG.newTable hI ha ht h0 htaken
      refine ends_of_ok heq ⟨hnew.descends hG hn, (hnew.walk _ _ ?_).2 (.inr ⟨rfl, rfl⟩)⟩
      rw [List.length_append]
      exact ha
  · rw [if_pos hpres]
    refine ends_failIf (fun h ↦ absurd hhuge h) fun _ ↦ ?_
    have hfind' : tableFromPhys (kernelSpace offset root) (s.mem t i &&& pteAddrMask) s = some v :=
      hfind
    have hv' : kTableAt offset root s (a ++ [i]) = some v := hv
    rw [hfind']
    refine ends_of_ok (expect_some v _ s) ⟨⟨.refl hG, hI, ?_, fun _ _ _ ↦ rfl⟩, hv'⟩
    rw [lacks, hv']
    rfl

end Tables

end Kmain
end Mcsos
