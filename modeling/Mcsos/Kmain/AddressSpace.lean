import Mcsos.Kmain.Paging

/-!
# The kernel's address space

`m7_vmm_init` takes the frame of the root from the allocator, sets up the space and tries it out
on one page.  From then on page tables and the rest of the kernel share the allocator.  `Runs` has
everything that can happen: calls on the space, and a kernel that allocates, writes to what it got,
reserves and frees.  The page tables keep their meaning throughout (`address_space_survives`), and
what a call costs in frames is exactly what tables are missing (`mapping_takes_missing_tables`).
-/

set_option autoImplicit false

namespace Mcsos
namespace Kmain

open Program Vmm

/-! ## Initialization -/

/-- `KERNEL_PANIC` -/
structure Panic where
  reason : String
  code : Word
  deriving DecidableEq

/-- `(uint64_t)(uint32_t)rc` -/
def errCode : Err → Word
  | .errInval => 0xffffffff
  | .errNomem => 0xfffffffe
  | .errExists => 0xfffffffd
  | .errNotFound => 0xfffffffc

/-- Panic if a call fails. -/
def orPanic {α : Type} (reason : String) (x : EStateM Err Frames α) : EStateM Panic Frames α :=
  x.adaptExcept fun e ↦ ⟨reason, errCode e⟩

/-- `test_vaddr` -/
abbrev testVaddr : Word := 0x600000

/-- `test_paddr` -/
abbrev testPaddr : Word := 0x700000

/-- The end of `m7_vmm_init`, which maps a page and unmaps it again. -/
def m7SmokeTest (space : Space Pmm.State Word) : EStateM Panic Frames Unit := do
  orPanic "M7: vmm_map_page smoke test failed" (mapPage space testVaddr testPaddr pteWritable)
  let m ← orPanic "M7: vmm_query_page smoke test failed" (queryPage space testVaddr)
  failIf (m.paddr ≠ testPaddr) ⟨"M7: vmm_query_page smoke test failed", 0⟩
  orPanic "M7: vmm_unmap_page smoke test failed" (unmapPage space testVaddr)

/-- `m7_vmm_init`, with `g_vmm` as its result -/
def m7VmmInit (offset : Word) : EStateM Panic Frames (Space Pmm.State Word) := do
  let root ← modifyGet m7VmmAlloc
  failIf (root = BitVec.ofNat 64 Pmm.invalidFrame)
    ⟨"M7: cannot allocate root page table frame", 0⟩
  modify (zeroPage (offset + root))
  let space ← expect (spaceInit root (some m7VmmAlloc) (some m7VmmFree)
    (some (m7PhysToVirt offset))).toOption ⟨"M7: vmm_space_init failed", errCode .errInval⟩
  m7SmokeTest space
  pure space

/-! ## Mapping a page -/

variable {offset root : Word} {s s' : Frames} {m : PageMap}

/-- Where an entry of the last level is changed, no table is. -/
theorem kTableAt_setEntry {v pt : Word} (hI : KInv offset root s)
    (ht : kTableAt offset root s (path v) = some pt) (e : Word) (b : List (Fin 512))
    (hb : b.length ≤ 3) :
    kTableAt offset root (setEntry pt (idxPt v) e s) b = kTableAt offset root s b :=
  hI.tree.walk_leaf rfl ht (fun _ _ hr ↦ Function.update_of_ne hr _ _) b hb

theorem Grows.setEntry {v pt : Word} (h : Grows offset root s s') (hI : KInv offset root s')
    (ht : kTableAt offset root s' (path v) = some pt) (e : Word) :
    Grows offset root s (setEntry pt (idxPt v) e s') := by
  refine ⟨h.good, fun b t hb hbt ↦ h.tables b t hb ?_, h.freeable⟩
  rwa [kTableAt_setEntry hI ht e b hb] at hbt

/-- Mapping a page takes the frames for the tables that are missing, and fails if there are not
enough of them; then it has taken all there were. -/
theorem Good.mapPage_grows (hG : Good offset root s.ctx) (hI : KInv offset root s) {v p f : Word}
    (hv : Valid v) (hp : isAligned4k p = true) :
    Ends (mapPage (kernelSpace offset root) v p f) s
      (fun _ s' ↦ Grows offset root s s' ∧
        freeFrames s' + missing offset root s v = freeFrames s)
      (fun e s' ↦ Grows offset root s s' ∧ (e = .errNomem →
        freeFrames s' = 0 ∧ freeFrames s < missing offset root s v)) := by
  have hroot : tableFromPhys (kernelSpace offset root) (kernelSpace offset root).rootPaddr s
      = some (table offset root) := by
    obtain ⟨hal, -, hfind⟩ := hG.isTable hG.root
    rw [tableFromPhys, show (kernelSpace offset root).rootPaddr = root from rfl, hal]
    exact hfind
  refine ends_failIf (fun h ↦ ?_) fun _ ↦ ends_get ?_
  · simp [hv.1, hv.2, hp] at h
  rw [hroot]
  refine ends_expect (fun h ↦ absurd h (Option.some_ne_none _)) fun t hroot ↦ ?_
  obtain rfl := Option.some.inj hroot
  refine ends_bind ((hG.getOrAllocNextTable_descends hI (a := []) (by decide) rfl).mono
    (fun _ _ h ↦ h) ?_) ?_
  · rintro e s' ⟨rfl, -, hfree, hlacks⟩
    rw [List.nil_append] at hlacks
    exact ⟨.refl hG, fun _ ↦ ⟨hfree, by rw [missing]; omega⟩⟩
  rintro pdpt s1 ⟨h1, ht1⟩
  have hlacks1 : lacks offset root s1 [idxPml4 v, idxPdpt v]
      = lacks offset root s [idxPml4 v, idxPdpt v] := by
    rw [lacks, lacks, h1.others _ (by simp) (by simp)]
  have hframes1 := h1.frames
  rw [List.nil_append] at hframes1
  refine ends_bind ((h1.grows.good.getOrAllocNextTable_descends h1.inv (a := [idxPml4 v]) (by simp)
    ht1).mono (fun _ _ h ↦ h) ?_) ?_
  · rintro e s' ⟨rfl, -, hfree, hlacks⟩
    rw [List.singleton_append, hlacks1] at hlacks
    exact ⟨h1.grows, fun _ ↦ ⟨hfree, by rw [missing]; omega⟩⟩
  rintro pd s2 ⟨h2, ht2⟩
  have hlacks2 : lacks offset root s2 (path v) = lacks offset root s (path v) := by
    rw [lacks, lacks, h2.others _ (by simp [path]) (by simp [path]),
      h1.others _ (by simp [path]) (by simp [path])]
  have hframes2 := h2.frames
  rw [List.singleton_append, hlacks1] at hframes2
  have hgrows2 := h1.grows.trans h2.grows
  refine ends_bind ((hgrows2.good.getOrAllocNextTable_descends h2.inv (a := [idxPml4 v, idxPdpt v])
    (by simp) ht2).mono (fun _ _ h ↦ h) ?_) ?_
  · rintro e s' ⟨rfl, -, hfree, hlacks⟩
    have hlacks : lacks offset root s' (path v) = 1 := hlacks
    rw [hlacks2] at hlacks
    exact ⟨hgrows2, fun _ ↦ ⟨hfree, by rw [missing, ← path]; omega⟩⟩
  rintro pt s3 ⟨h3, ht3⟩
  have hframes3 : freeFrames s3 + lacks offset root s2 (path v) = freeFrames s2 := h3.frames
  rw [hlacks2] at hframes3
  have hgrows3 := hgrows2.trans h3.grows
  refine ends_get (ends_failIf (fun _ ↦ ⟨hgrows3, fun h ↦ absurd h (by decide)⟩) fun _ ↦
    ends_of_ok rfl ?_)
  refine ⟨hgrows3.setEntry h3.inv ht3 _, ?_⟩
  have hsame : freeFrames (setEntry pt (idxPt v) (pageEntry p f) s3) = freeFrames s3 := rfl
  rw [hsame, missing, ← path]
  omega

/-! ## What the page tables need -/

/-- The page tables hold a map, and the frames that the rest of the kernel holds are none of
theirs. -/
structure Kept (offset root : Word) (s : Frames) (m : PageMap) (held : Set Word) : Prop where
  good : Good offset root s.ctx
  holds : Holds (guarded offset root) (table offset) (used offset root) s m
  inUse : ∀ p ∈ held, Pmm.Freeable s.ctx p.toNat
  apart : ∀ p ∈ held, ∀ a, a.length ≤ 3 → kTableAt offset root s a ≠ some (table offset p)

variable {held : Set Word}

/-- A walk reads the tables only. -/
theorem kTableAt_congr
    (hmem : ∀ a t, a.length ≤ 3 → kTableAt offset root s a = some t → s'.mem t = s.mem t) :
    ∀ a, a.length ≤ 3 → kTableAt offset root s' a = kTableAt offset root s a :=
  Radix.walk_congr fun a t ha ht i ↦ by rw [hmem a t ha.le ht]

/-- What the rest of the kernel does is not seen, if it keeps off the tables. -/
theorem KInv.elsewhere (hI : KInv offset root s)
    (hmem : ∀ a t, a.length ≤ 3 → kTableAt offset root s a = some t → s'.mem t = s.mem t)
    (hused : ∀ a p, a.length ≤ 3 → kTableAt offset root s a = some (table offset p) →
      p ∈ used offset root s.ctx → p ∈ used offset root s'.ctx) :
    Unseen (guarded offset root) (table offset) (used offset root) s s' := by
  have hwalk := kTableAt_congr hmem
  refine ⟨⟨hI.aligned, ⟨fun a b t ha hb hta htb ↦ ?_, fun a t ha hta ↦ ?_⟩,
    fun a t i ha hta ↦ ?_⟩, fun v ↦ ?_⟩
  · exact hI.tree.unique a b t ha hb ((hwalk a ha).symm.trans hta) ((hwalk b hb).symm.trans htb)
  · have hta' : kTableAt offset root s a = some t := (hwalk a ha).symm.trans hta
    obtain ⟨p, hp, rfl⟩ := hI.mem_tables ha hta'
    rcases hp with rfl | hp
    · exact ⟨_, .inl rfl, rfl⟩
    · exact ⟨p, .inr (hused a p ha hta' hp), rfl⟩
  · have hta' : kTableAt offset root s a = some t := (hwalk a ha.le).symm.trans hta
    rw [hmem a t ha.le hta']
    refine (hI.nodes a t i ha hta').imp_right fun ⟨p, hp, hal, hlt, he⟩ ↦ ⟨p, ?_, hal, hlt, he⟩
    refine hused (a ++ [i]) p (by rwa [List.length_append]) ?_ hp
    refine Radix.walk_concat_eq_some.2 ⟨t, hta', ?_⟩
    rw [he, child_tableEntry hal hlt]
  · have hpath : kTableAt offset root s' (path v) = kTableAt offset root s (path v) :=
      hwalk (path v) le_rfl
    cases ht : kTableAt offset root s (path v) with
    | none =>
      exact (entryAt_of_tableAt_none (hpath.trans ht)).trans (entryAt_of_tableAt_none ht).symm
    | some t =>
      refine (entryAt_of_tableAt (hpath.trans ht)).trans (.trans ?_ (entryAt_of_tableAt ht).symm)
      rw [hmem _ t le_rfl ht]

/-- The frame of a table is in use. -/
theorem Kept.freeable_of_table (h : Kept offset root s m held) {a : List (Fin 512)} {p : Word}
    (ha : a.length ≤ 3) (ht : kTableAt offset root s a = some (table offset p)) :
    Pmm.Freeable s.ctx p.toNat := by
  obtain ⟨q, hq, hqp⟩ := h.holds.inv.mem_tables ha ht
  obtain rfl : q = p := (BitVec.add_right_inj offset).1 hqp
  rcases hq with rfl | hq
  · exact h.good.root
  · exact hq.2

/-! ### Calls on the space -/

theorem Kept.grows (h : Kept offset root s m held) (hgrows : Grows offset root s s') {m' : PageMap}
    (hholds : Holds (guarded offset root) (table offset) (used offset root) s' m') :
    Kept offset root s' m' held := by
  refine ⟨hgrows.good, hholds, fun p hp ↦ hgrows.freeable _ (h.inUse p hp), fun p hp a ha ht ↦ ?_⟩
  rcases hgrows.tables a _ ha ht with ht | ⟨q, hq, hfree⟩
  · exact h.apart p hp a ha ht
  · obtain rfl : p = q := (BitVec.add_right_inj offset).1 hq
    exact hfree (h.inUse p hp)

theorem Kept.mapPage (h : Kept offset root s m held) (v p f : Word) (hp : p.toNat < 2 ^ 52) :
    Kept offset root (after (mapPage (kernelSpace offset root) v p f) s)
      (if errorOf (Vmm.mapPage (kernelSpace offset root) v p f) s = none
        then Function.update m v (some (p, f)) else m) held := by
  have heq := h.good.mapPage_guarded v p f
  have hholds := h.holds.mapPage h.good.lawful v p f hp
  rw [after, errorOf, heq, ← after, ← errorOf] at hholds
  refine h.grows ?_ hholds
  by_cases hvp : Valid v ∧ isAligned4k p = true
  · exact Ends.after ((h.good.mapPage_grows h.holds.inv hvp.1 hvp.2).mono (fun _ _ h ↦ h.1)
      fun _ _ h ↦ h.1)
  · rw [after_of_error (mapPage_inval hvp)]
    exact .refl h.good

theorem Kept.unmapPage (h : Kept offset root s m held) (v : Word) :
    Kept offset root (after (unmapPage (kernelSpace offset root) v) s)
      (if errorOf (Vmm.unmapPage (kernelSpace offset root) v) s = none
        then Function.update m v none else m) held := by
  have hholds := h.holds.unmapPage h.good.lawful v
  refine h.grows ?_ hholds
  by_cases hv : Valid v
  · have hfind : findTable (kernelSpace offset root) v s
        = expect (kTableAt offset root s (path v)) .errNotFound s :=
      findTable_eq h.good.lawful h.holds.inv hv
    refine Ends.after ?_
    cases ht : kTableAt offset root s (path v) with
    | none =>
      rw [ht, expect_none] at hfind
      exact ends_of_error (bind_of_error hfind) (.refl h.good)
    | some pt =>
      rw [ht, expect_some] at hfind
      refine ends_bind_ok hfind (ends_get (ends_failIf (fun _ ↦ .refl h.good) fun _ ↦
        ends_of_ok rfl ?_))
      exact (Grows.refl h.good).setEntry h.holds.inv ht 0
  · rw [after_of_error (unmapPage_inval hv)]
    exact .refl h.good

theorem Kept.queryPage (h : Kept offset root s m held) (v : Word) :
    Kept offset root (after (queryPage (kernelSpace offset root) v) s) m held := by
  have heq : after (Vmm.queryPage (kernelSpace offset root) v) s = s :=
    h.holds.after_queryPage h.good.lawful v
  rwa [heq]

/-! ### The rest of the kernel -/

/-- Nothing else matters to the page tables than their memory and that their frames are in use. -/
theorem Kept.elsewhere (h : Kept offset root s m held) (s' : Frames)
    (hgood : Good offset root s'.ctx)
    (hmem : ∀ a t, a.length ≤ 3 → kTableAt offset root s a = some t → s'.mem t = s.mem t)
    (htables : ∀ a p, a.length ≤ 3 → kTableAt offset root s a = some (table offset p) →
      Pmm.Freeable s'.ctx p.toNat) {held' : Set Word}
    (hheld : ∀ p ∈ held', Pmm.Freeable s'.ctx p.toNat)
    (hapart : ∀ p ∈ held', ∀ a, a.length ≤ 3 → kTableAt offset root s a ≠ some (table offset p)) :
    Kept offset root s' m held' := by
  refine ⟨hgood, h.holds.unseen (KInv.elsewhere h.holds.inv hmem fun a p ha ht _ ↦
    ⟨hgood, htables a p ha ht⟩), hheld, fun p hp a ha ht ↦ hapart p hp a ha ?_⟩
  rwa [kTableAt_congr hmem a ha] at ht

/-- A frame is given out to the kernel. -/
theorem Kept.allocFrame (h : Kept offset root s m held) :
    Kept offset root (m7VmmAlloc s).2 m
      (if (m7VmmAlloc s).1 = invalidPhys then held else insert (m7VmmAlloc s).1 held) := by
  obtain ⟨-, heq⟩ | ⟨p, c', heq, ht⟩ := h.good.m7VmmAlloc_eq
  · rw [heq, if_pos rfl]
    exact h
  · have hgood := h.good.taken ht
    have hlt := (hgood.isTable ht.self).2.1
    have hne : p ≠ invalidPhys := by
      rintro rfl
      exact absurd hlt (by decide)
    rw [heq, if_neg hne]
    refine h.elsewhere { s with ctx := c' } hgood (fun _ _ _ _ ↦ rfl)
      (fun a q ha hta ↦ (ht.freeable _).2 (.inr (h.freeable_of_table ha hta))) ?_ ?_
    · rintro q (rfl | hq)
      · exact ht.self
      · exact (ht.freeable _).2 (.inr (h.inUse q hq))
    · rintro q (rfl | hq) a ha hta
      · exact ht.fresh (h.freeable_of_table ha hta)
      · exact h.apart q hq a ha hta

theorem freeable_freeFrame {c : Pmm.State} (hc : Pmm.Running c) {p : ℕ} (hp : Pmm.Freeable c p)
    {q : ℕ} (hq : Pmm.Freeable c q) (hne : q ≠ p) : Pmm.Freeable (Pmm.freeFrame p c).2 q := by
  have hlt : p / Pmm.pageSize < c.frameCount := by
    have h1 := hc.phys
    have h2 := hp.2.2.1
    simp only [Pmm.pageSize] at *
    omega
  have hdiv : p / Pmm.pageSize ≠ q / Pmm.pageSize := fun heq ↦ hne (by
    rw [← Nat.div_mul_cancel hq.1, ← heq, Nat.div_mul_cancel hp.1])
  rw [hc.freeFrame_of_freeable hp, Pmm.markFrameFree_of_used hlt hp.2.2.2]
  refine ⟨hq.1, hq.2.1, hq.2.2.1, ?_⟩
  dsimp only
  rw [Bitmap.test_clear, hq.2.2.2, decide_eq_false hdiv]
  rfl

theorem maxPhys_freeFrame {c : Pmm.State} (hc : Pmm.Running c) (p : ℕ) :
    (Pmm.freeFrame p c).2.maxPhys = c.maxPhys := by
  by_cases hp : Pmm.Freeable c p
  · rw [hc.freeFrame_of_freeable hp]
    exact Pmm.markFrameFree_shape.maxPhys
  · rw [hc.freeFrame_of_not_freeable hp]

/-- The kernel frees a frame it holds. -/
theorem Kept.freeFrame (h : Kept offset root s m held) {p : Word} (hp : p ∈ held) :
    Kept offset root (m7VmmFree p s) m (held \ {p}) := by
  have hrunning := h.good.running
  have hmax := maxPhys_freeFrame hrunning p.toNat
  have hkept : ∀ q : Word, Pmm.Freeable s.ctx q.toNat → q ≠ p →
      Pmm.Freeable (m7VmmFree p s).ctx q.toNat := fun q hq hne ↦
    freeable_freeFrame hrunning (h.inUse p hp) hq fun heq ↦ hne (BitVec.eq_of_toNat_eq heq)
  have hroot : root ≠ p := by
    rintro rfl
    exact h.apart root hp [] (by simp) rfl
  have hgood : Good offset root (m7VmmFree p s).ctx :=
    ⟨hrunning.freeFrame _, hmax.symm ▸ h.good.small, hmax.symm ▸ h.good.fits,
      hkept root h.good.root hroot⟩
  refine h.elsewhere (m7VmmFree p s) hgood (fun _ _ _ _ ↦ rfl) (fun a q ha hta ↦ ?_)
    (fun q hq ↦ ?_) fun q hq ↦ h.apart q hq.1
  · refine hkept q (h.freeable_of_table ha hta) ?_
    rintro rfl
    exact h.apart q hp a ha hta
  · exact hkept q (h.inUse q hq.1) hq.2

/-- The kernel reserves a range. -/
theorem Kept.reserveRange (h : Kept offset root s m held) (base length : ℕ) :
    Kept offset root { s with ctx := (Pmm.reserveRange base length s.ctx).2 } m held := by
  have hrunning := h.good.running
  have hshrunk : Pmm.Shrunk s.ctx (Pmm.reserveRange base length s.ctx).2 := by
    rw [Pmm.reserveRange]
    split
    · exact .refl hrunning.toInv
    · exact Pmm.markRangeUsed_shrunk base length hrunning.toInv
  have hmax := hshrunk.shape.maxPhys
  have hkept : ∀ q, Pmm.Freeable s.ctx q →
      Pmm.Freeable (Pmm.reserveRange base length s.ctx).2 q := by
    rintro q ⟨hdvd, h0, hlt, htest⟩
    refine ⟨hdvd, h0, hmax.symm ▸ hlt, ?_⟩
    by_contra hfree
    refine Pmm.not_mem_freeSet htest (hshrunk.subset (Pmm.mem_freeSet.2 ⟨?_, ?_⟩))
    · have hphys := hrunning.phys
      rw [hshrunk.shape.frameCount]
      simp only [Pmm.pageSize] at *
      omega
    · exact Bool.eq_false_iff.2 hfree
  have hgood : Good offset root (Pmm.reserveRange base length s.ctx).2 :=
    ⟨hrunning.reserveRange base length, hmax.symm ▸ h.good.small, hmax.symm ▸ h.good.fits,
      hkept _ h.good.root⟩
  exact h.elsewhere { s with ctx := (Pmm.reserveRange base length s.ctx).2 } hgood
    (fun _ _ _ _ ↦ rfl) (fun a q ha hta ↦ hkept _ (h.freeable_of_table ha hta))
    (fun q hq ↦ hkept _ (h.inUse q hq)) h.apart

/-- The kernel writes to a frame it holds. -/
theorem Kept.store (h : Kept offset root s m held) {p : Word} (hp : p ∈ held)
    (page : Fin 512 → Word) :
    Kept offset root { s with mem := Function.update s.mem (table offset p) page } m held := by
  refine h.elsewhere { s with mem := Function.update s.mem (table offset p) page } h.good
    (fun a t ha ht ↦ Function.update_of_ne ?_ _ _) (fun a q ha hta ↦ h.freeable_of_table ha hta)
    h.inUse h.apart
  rintro rfl
  exact h.apart p hp a ha ht

/-! ## After `m7_vmm_init` -/

theorem ends_orPanic {α : Type} {reason : String} {x : EStateM Err Frames α}
    {Q : α → Frames → Prop} {E : Panic → Frames → Prop}
    (h : Ends x s Q fun e ↦ E ⟨reason, errCode e⟩) : Ends (orPanic reason x) s Q E := by
  cases hx : x s with
  | ok a s' =>
    refine ends_of_ok ?_ (h.of_eq_ok hx)
    rw [orPanic, EStateM.adaptExcept, hx]
  | error e s' =>
    refine ends_of_error ?_ (h.of_eq_error hx)
    rw [orPanic, EStateM.adaptExcept, hx]

/-- Unmapping a page gives no frame back. -/
theorem keeps_ctx_unmapPage {space : Space Pmm.State Word} (v : Word) (c : Pmm.State) :
    Keeps (fun s : Frames ↦ s.ctx = c) (unmapPage space v) := by
  have hnext : ∀ t i, Keeps (fun s : Frames ↦ s.ctx = c) (nextTable space t i) := fun t i ↦
    keeps_bind keeps_get fun _ ↦ keeps_bind (keeps_failIf _ _) fun _ ↦ keeps_expect _ _
  have hfind : Keeps (fun s : Frames ↦ s.ctx = c) (findTable space v) :=
    keeps_bind (keeps_failIf _ _) fun _ ↦ keeps_bind keeps_get fun _ ↦
      keeps_bind (keeps_expect _ _) fun _ ↦ keeps_bind (hnext _ _) fun _ ↦
      keeps_bind (hnext _ _) fun _ ↦ hnext _ _
  exact keeps_bind hfind fun _ ↦ keeps_bind keeps_get fun _ ↦ keeps_bind (keeps_failIf _ _)
    fun _ s hs ↦ hs

/-- A root of zeros in a frame that was just taken. -/
theorem kept_root {c : Pmm.State} {p : Word} (hc : Good offset p c) (held : Set Word)
    (hheld : ∀ q ∈ held, Pmm.Freeable c q.toNat) (hp : p ∉ held) (mem : Word → Fin 512 → Word) :
    Kept offset p (zeroPage (offset + p) ⟨mem, c⟩) (fun _ ↦ none) held := by
  obtain ⟨hal, -, hfind⟩ := hc.isTable hc.root
  have hzero : ∀ i, (zeroPage (offset + p) ⟨mem, c⟩ : Frames).mem (table offset p) i = 0 :=
    fun i ↦ by simp [zeroPage]
  have hspace : spaceInit p (guarded offset p).allocFrame (guarded offset p).freeFrame
      (guarded offset p).physToVirt = .ok (guarded offset p) :=
    if_neg (by rw [hal]; simp [guarded, kernelSpace])
  have hroot : tableFromPhys (guarded offset p) (guarded offset p).rootPaddr
      (zeroPage (offset + p) ⟨mem, c⟩) = some (table offset p) := by
    rw [tableFromPhys, show (guarded offset p).rootPaddr = p from rfl, hal]
    exact hfind
  have hleaf : ∀ i, child (table offset)
      ((zeroPage (offset + p) ⟨mem, c⟩ : Frames).mem (table offset p) i) = none := fun i ↦ by
    rw [hzero, child_zero]
  refine ⟨hc, holds_init (Good.lawful (s := ⟨mem, c⟩) hc) hspace hroot hzero, hheld,
    fun q hq a ha ht ↦ hp ?_⟩
  have heq : table offset q = table offset p := (Radix.eq_of_leaf hleaf ht).2
  obtain rfl : q = p := (BitVec.add_right_inj offset).1 heq
  exact hq

/-- Nothing but the root is there. -/
theorem missing_root {c : Pmm.State} {p : Word} (mem : Word → Fin 512 → Word) (v : Word) :
    missing offset p (zeroPage (offset + p) ⟨mem, c⟩) v = 3 := by
  have hleaf : ∀ i, child (table offset)
      ((zeroPage (offset + p) ⟨mem, c⟩ : Frames).mem (table offset p) i) = none := fun i ↦ by
    rw [show (zeroPage (offset + p) ⟨mem, c⟩ : Frames).mem (table offset p) i = 0 by
      simp [zeroPage], child_zero]
  have hnone : ∀ a : List (Fin 512), a ≠ [] →
      lacks offset p (zeroPage (offset + p) ⟨mem, c⟩) a = 1 := fun a ha ↦ by
    refine if_pos ?_
    cases ht : kTableAt offset p (zeroPage (offset + p) ⟨mem, c⟩) a with
    | none => rfl
    | some t => exact absurd (Radix.eq_of_leaf hleaf ht).1 ha
  rw [missing, hnone _ (by simp), hnone _ (by simp), hnone _ (by simp)]

/-- The calls of the kernel give the answers of the map. -/
theorem Kept.agrees (h : Kept offset root s m held) : Agrees (kernelSpace offset root) s m := by
  have hagrees := h.holds.agrees h.good.lawful
  have herr : ∀ v p f, errorOf (Vmm.mapPage (guarded offset root) v p f) s
      = errorOf (Vmm.mapPage (kernelSpace offset root) v p f) s := fun v p f ↦ by
    rw [errorOf, errorOf, h.good.mapPage_guarded]
  refine ⟨hagrees.valid, hagrees.query, hagrees.query_invalid, fun v p f ↦ ?_, fun v p f ↦ ?_,
    hagrees.unmap⟩
  · rw [← herr]
    exact hagrees.map_exists v p f
  · rw [← herr]
    exact hagrees.map_inval v p f

/-- What mapping a page that is not mapped leads to. -/
theorem Kept.mapPage_ends (h : Kept offset root s m held) {v p : Word} (hv : Valid v)
    (hp : isAligned4k p = true) (hm : m v = none) (f : Word) :
    Ends (Vmm.mapPage (kernelSpace offset root) v p f) s
      (fun _ s' ↦ freeFrames s' + missing offset root s v = freeFrames s)
      (fun e s' ↦ e = .errNomem ∧ freeFrames s' = 0 ∧
        freeFrames s < missing offset root s v) := by
  have hgrows := h.good.mapPage_grows (f := f) h.holds.inv hv hp
  cases hx : Vmm.mapPage (kernelSpace offset root) v p f s with
  | ok a s' => exact ends_of_ok hx (hgrows.of_eq_ok hx).2
  | error e s' =>
    have hx' := (h.good.mapPage_guarded v p f).trans hx
    obtain ⟨-, ⟨-, hne⟩ | ⟨rfl, -⟩⟩ :=
      (mapPage_spec (f := f) h.good.lawful h.holds.inv hv hp).of_eq_error hx'
    · exact absurd ((h.holds.entryAt_eq_none_iff hv).2 hm) hne
    · exact ends_of_error hx ⟨rfl, (hgrows.of_eq_error hx).2 rfl⟩

theorem Kept.m7SmokeTest (h : Kept offset root s (fun _ ↦ none) held) :
    Ends (m7SmokeTest (kernelSpace offset root)) s
      (fun _ s' ↦ Kept offset root s' (fun _ ↦ none) held ∧
        freeFrames s' + missing offset root s testVaddr = freeFrames s)
      (fun _ _ ↦ freeFrames s < missing offset root s testVaddr) := by
  have hv : Valid testVaddr := ⟨by decide, by decide⟩
  refine ends_bind (ends_orPanic (Q := fun _ s1 ↦
      Kept offset root s1 (Function.update (fun _ ↦ none) testVaddr (some (testPaddr, pteWritable)))
        held ∧ freeFrames s1 + missing offset root s testVaddr = freeFrames s) ?_) ?_
  · have hmap := h.mapPage testVaddr testPaddr pteWritable (by decide)
    have hends := h.mapPage_ends hv (p := testPaddr) (by decide) rfl pteWritable
    cases hx : Vmm.mapPage (kernelSpace offset root) testVaddr testPaddr pteWritable s with
    | ok a s1 =>
      rw [after_of_ok hx, errorOf_of_ok hx, if_pos rfl] at hmap
      exact ends_of_ok hx ⟨hmap, hends.of_eq_ok hx⟩
    | error e s1 => exact ends_of_error hx (hends.of_eq_error hx).2.2
  rintro - s1 ⟨h1, hframes⟩
  have hquery := h1.agrees.query testVaddr hv
  rw [Function.update_self] at hquery
  refine ends_bind (ends_orPanic (ends_of_ok (Q := fun q s2 ↦ q.paddr = testPaddr ∧ s2 = s1)
    hquery ⟨rfl, rfl⟩)) ?_
  rintro q s2 ⟨hq, rfl⟩
  refine ends_failIf (fun hne ↦ absurd hq hne) fun _ ↦ ends_orPanic ?_
  have hunmap := h1.unmapPage testVaddr
  have hok : errorOf (Vmm.unmapPage (kernelSpace offset root) testVaddr) s2 = none := by
    rw [h1.agrees.unmap, Function.update_self]
    exact Option.some_ne_none _
  have hctx : (after (Vmm.unmapPage (kernelSpace offset root) testVaddr) s2).ctx = s2.ctx :=
    keeps_ctx_unmapPage testVaddr s2.ctx s2 rfl
  have hmap : Function.update (Function.update (fun _ ↦ none) testVaddr
      (some (testPaddr, pteWritable))) testVaddr none = (fun _ ↦ none : PageMap) := by
    rw [Function.update_idem, Function.update_eq_self_iff]
  rw [if_pos hok, hmap] at hunmap
  refine ends_of_ok (eq_ok_of_errorOf hok) ⟨hunmap, ?_⟩
  rwa [freeFrames, hctx]

theorem m7VmmInit_ends (held : Set Word) (hc : Pmm.Running s.ctx)
    (hsmall : s.ctx.maxPhys ≤ 2 ^ 52) (hfits : offset.toNat + s.ctx.maxPhys ≤ 2 ^ 64)
    (hheld : ∀ p ∈ held, Pmm.Freeable s.ctx p.toNat) :
    Ends (m7VmmInit offset) s
      (fun space s' ↦ (∃ root, space = kernelSpace offset root ∧
        Kept offset root s' (fun _ ↦ none) held) ∧ freeFrames s' + 4 = freeFrames s)
      (fun _ _ ↦ freeFrames s < 4) := by
  obtain ⟨hempty, heq⟩ | ⟨p, heq, ht⟩ := allocFrame_cases hc
  · have hget : (modifyGet m7VmmAlloc : EStateM Panic Frames Word) s
        = .ok (BitVec.ofNat 64 Pmm.invalidFrame) s := by
      rw [modifyGet_apply, m7VmmAlloc, heq]
    refine ends_bind_ok hget (ends_failIf (fun _ ↦ ?_) fun h ↦ absurd rfl h)
    rw [freeFrames, hempty]
    decide
  · have hget : (modifyGet m7VmmAlloc : EStateM Panic Frames Word) s
        = .ok (BitVec.ofNat 64 p) { s with ctx := (Pmm.allocFrame s.ctx).2 } := by
      rw [modifyGet_apply, m7VmmAlloc, heq]
    have hp := ht.self.2.2.1
    rw [ht.maxPhys] at hp
    have htoNat : (BitVec.ofNat 64 p).toNat = p := by
      rw [BitVec.toNat_ofNat, Nat.mod_eq_of_lt (by omega)]
    generalize BitVec.ofNat 64 p = root at *
    generalize (Pmm.allocFrame s.ctx).2 = c' at *
    subst htoNat
    have hgood : Good offset root c' :=
      ⟨ht.running, ht.maxPhys.symm ▸ hsmall, ht.maxPhys.symm ▸ hfits, ht.self⟩
    have hkept := kept_root hgood held (fun q hq ↦ (ht.freeable _).2 (.inr (hheld q hq)))
      (fun hroot ↦ ht.fresh (hheld root hroot)) s.mem
    have hspace : (spaceInit root (some m7VmmAlloc) (some m7VmmFree)
        (some (m7PhysToVirt offset))).toOption = some (kernelSpace offset root) := by
      rw [spaceInit, if_neg (by rw [(hgood.isTable hgood.root).1]; simp)]
      rfl
    refine ends_bind_ok hget (ends_failIf (fun hbad ↦ ?_) fun _ ↦ ends_modify ?_)
    · rw [hbad] at hp
      exact absurd (hp.trans_le hsmall) (by decide)
    rw [hspace]
    have hcard : freeFrames (zeroPage (offset + root) { s with ctx := c' }) + 1 = freeFrames s :=
      ht.card
    have hsmoke := hkept.m7SmokeTest
    rw [missing_root] at hsmoke
    refine ends_bind_ok (expect_some _ _ _) (ends_bind (hsmoke.mono (fun _ _ h ↦ h)
      fun _ _ (hlt : _ < 3) ↦ by omega) ?_)
    rintro - s' ⟨h', hframes⟩
    exact ends_pure ⟨⟨root, rfl, h'⟩, by omega⟩

/-! ## Runs -/

/-- What can happen in a kernel after `m7_vmm_init` has set up the space, with the map that the
calls on it amount to and the frames that the rest of the kernel holds.  It writes to these frames
and frees them, but no others. -/
inductive Runs (offset : Word) (space : Space Pmm.State Word) :
    Frames → PageMap → Set Word → Prop
  | init {s s' : Frames} {held : Set Word} (hpmm : Pmm.Reaches s.ctx)
      (hsmall : s.ctx.maxPhys ≤ 2 ^ 52) (hfits : offset.toNat + s.ctx.maxPhys ≤ 2 ^ 64)
      (hheld : ∀ p ∈ held, Pmm.Freeable s.ctx p.toNat)
      (h : m7VmmInit offset s = .ok space s') : Runs offset space s' (fun _ ↦ none) held
  | mapPage {s : Frames} {m : PageMap} {held : Set Word} (h : Runs offset space s m held)
      (v p f : Word) (hp : p.toNat < 2 ^ 52) :
      Runs offset space (after (mapPage space v p f) s)
        (if errorOf (mapPage space v p f) s = none then Function.update m v (some (p, f)) else m)
        held
  | unmapPage {s : Frames} {m : PageMap} {held : Set Word} (h : Runs offset space s m held)
      (v : Word) :
      Runs offset space (after (unmapPage space v) s)
        (if errorOf (unmapPage space v) s = none then Function.update m v none else m) held
  | queryPage {s : Frames} {m : PageMap} {held : Set Word} (h : Runs offset space s m held)
      (v : Word) : Runs offset space (after (queryPage space v) s) m held
  | allocFrame {s : Frames} {m : PageMap} {held : Set Word} (h : Runs offset space s m held) :
      Runs offset space (m7VmmAlloc s).2 m
        (if (m7VmmAlloc s).1 = invalidPhys then held else insert (m7VmmAlloc s).1 held)
  | freeFrame {s : Frames} {m : PageMap} {held : Set Word} (h : Runs offset space s m held)
      {p : Word} (hp : p ∈ held) : Runs offset space (m7VmmFree p s) m (held \ {p})
  | reserveRange {s : Frames} {m : PageMap} {held : Set Word} (h : Runs offset space s m held)
      (base length : ℕ) :
      Runs offset space { s with ctx := (Pmm.reserveRange base length s.ctx).2 } m held
  | store {s : Frames} {m : PageMap} {held : Set Word} (h : Runs offset space s m held) {p : Word}
      (hp : p ∈ held) (page : Fin 512 → Word) :
      Runs offset space { s with mem := Function.update s.mem (offset + p) page } m held

variable {space : Space Pmm.State Word}

theorem Runs.kept (h : Runs offset space s m held) :
    ∃ root, space = kernelSpace offset root ∧ Kept offset root s m held := by
  induction h with
  | init hpmm hsmall hfits hheld h =>
    exact ((m7VmmInit_ends _ hpmm.running hsmall hfits hheld).of_eq_ok h).1
  | mapPage _ v p f hp ih =>
    obtain ⟨root, rfl, h⟩ := ih
    exact ⟨root, rfl, h.mapPage v p f hp⟩
  | unmapPage _ v ih =>
    obtain ⟨root, rfl, h⟩ := ih
    exact ⟨root, rfl, h.unmapPage v⟩
  | queryPage _ v ih =>
    obtain ⟨root, rfl, h⟩ := ih
    exact ⟨root, rfl, h.queryPage v⟩
  | allocFrame _ ih =>
    obtain ⟨root, rfl, h⟩ := ih
    exact ⟨root, rfl, h.allocFrame⟩
  | freeFrame _ hp ih =>
    obtain ⟨root, rfl, h⟩ := ih
    exact ⟨root, rfl, h.freeFrame hp⟩
  | reserveRange _ base length ih =>
    obtain ⟨root, rfl, h⟩ := ih
    exact ⟨root, rfl, h.reserveRange base length⟩
  | store _ hp page ih =>
    obtain ⟨root, rfl, h⟩ := ih
    exact ⟨root, rfl, h.store hp page⟩

/-- The allocator of a machine with eight frames, of which the first is not used. -/
def eightFrames : Option Pmm.State := Pmm.initFromMap [⟨0, 0x8000, 1⟩] (fun _ ↦ 0) 1 0x8000

theorem eightFrames_reaches : ∃ pmm, eightFrames = some pmm ∧ Pmm.Reaches pmm ∧
    pmm.maxPhys = 0x8000 ∧ pmm.freeFrames = 7 := by
  have hinit : eightFrames.map (fun s ↦ (s.maxPhys, s.freeFrames)) = some (0x8000, 7) := by
    decide +kernel
  obtain ⟨pmm, hpmm, heq⟩ := Option.map_eq_some_iff.1 hinit
  rw [Prod.mk.injEq] at heq
  exact ⟨pmm, hpmm, .init (by decide) hpmm, heq⟩

/-- The space and the state after `m7_vmm_init` on this machine. -/
def eightFramesUp : Option (Space Pmm.State Word × Frames) :=
  eightFrames.bind fun pmm ↦ match m7VmmInit 0 ⟨fun _ _ ↦ 0, pmm⟩ with
    | .ok space s => some (space, s)
    | .error _ _ => none

theorem eightFramesUp_runs (h : eightFramesUp = some (space, s)) :
    Runs 0 space s (fun _ ↦ none) ∅ := by
  obtain ⟨pmm, hpmm, hreach, hmax, -⟩ := eightFrames_reaches
  rw [eightFramesUp, hpmm, Option.bind_some] at h
  split at h
  · rename_i hx
    cases h
    exact .init hreach (by rw [hmax]; decide) (by rw [hmax]; decide)
      (fun _ hp ↦ absurd hp (Set.notMem_empty _)) hx
  · cases h

/-- Three frames are left.  Two tables are missing for a page in the second gigabyte, and once that
is mapped, three for a page in the second half of the first terabyte. -/
theorem eightFramesUp_missing : ∃ space s, eightFramesUp = some (space, s) ∧ freeFrames s = 3 ∧
    missing 0 space.rootPaddr s 0x40000000 = 2 ∧
    missing 0 space.rootPaddr (after (mapPage space 0x40000000 0x2000 2) s) 0x8000000000 = 3 := by
  have hup : eightFramesUp.map (fun (space, s) ↦ (freeFrames s,
      missing 0 space.rootPaddr s 0x40000000, missing 0 space.rootPaddr
        (after (mapPage space 0x40000000 0x2000 2) s) 0x8000000000)) = some (3, 2, 3) := by
    decide +kernel
  obtain ⟨⟨space, s⟩, heq, hvalues⟩ := Option.map_eq_some_iff.1 hup
  simp only [Prod.mk.injEq] at hvalues
  exact ⟨space, s, heq, hvalues⟩

/-- **Page tables and the kernel do not get in each other's way.**  Whatever the kernel does with
the frames it was given, the calls on the space give the answers of the map; no frame that the
kernel holds is a table, and the allocator will not give out one that is. -/
theorem address_space_survives (h : Runs offset space s m held) :
    Agrees space s m ∧
      (∀ p ∈ held, ∀ a, a.length ≤ 3 →
        tableAt space (table offset) s a ≠ some (table offset p)) ∧
      ∀ a p, a.length ≤ 3 → tableAt space (table offset) s a = some (table offset p) →
        Pmm.Freeable s.ctx p.toNat ∧ (m7VmmAlloc s).1 ≠ p := by
  obtain ⟨root, rfl, hkept⟩ := h.kept
  refine ⟨hkept.agrees, hkept.apart, fun a p ha ht ↦ ?_⟩
  have hp := hkept.freeable_of_table ha ht
  refine ⟨hp, ?_⟩
  rintro rfl
  obtain ⟨-, heq⟩ | ⟨q, c', heq, ht⟩ := hkept.good.m7VmmAlloc_eq
  · rw [heq] at hp
    have hlt : invalidPhys.toNat < 2 ^ 52 := hp.2.2.1.trans_le hkept.good.small
    exact absurd hlt (by decide)
  · rw [heq] at hp
    exact ht.fresh hp

/-- A page is mapped, and then the kernel gets a frame and fills it.  The page is still where it
was. -/
theorem address_space_survives_allocation : ∃ space s, Runs 0 space s (fun _ ↦ none) ∅ ∧
    (m7VmmAlloc (after (mapPage space 0x40000000 0x2000 2) s)).1 = 0x7000 ∧
    ∃ s', s' = { (m7VmmAlloc (after (mapPage space 0x40000000 0x2000 2) s)).2 with
        mem := Function.update (m7VmmAlloc (after (mapPage space 0x40000000 0x2000 2) s)).2.mem
          0x7000 fun _ ↦ 0x6003 } ∧
      queryPage space 0x40000000 s' = .ok ⟨0x40000000, 0x2000, 3⟩ s' := by
  have hup : eightFramesUp.map (fun (space, s) ↦
      (errorOf (mapPage space 0x40000000 0x2000 2) s,
        (m7VmmAlloc (after (mapPage space 0x40000000 0x2000 2) s)).1)) = some (none, 0x7000) := by
    decide +kernel
  obtain ⟨⟨space, s⟩, heq, hvalues⟩ := Option.map_eq_some_iff.1 hup
  obtain ⟨hok, hframe⟩ := Prod.mk.inj hvalues
  have hruns := eightFramesUp_runs heq
  have hmapped := (hruns.mapPage 0x40000000 0x2000 2 (by decide)).allocFrame
  rw [if_pos hok, if_neg (by rw [hframe]; decide), hframe] at hmapped
  have hstored := hmapped.store (Set.mem_insert _ _) fun _ ↦ 0x6003
  refine ⟨space, s, hruns, hframe, _, rfl, ?_⟩
  have hquery := (address_space_survives hstored).1.query 0x40000000 ⟨by decide, by decide⟩
  rw [Function.update_self] at hquery
  exact hquery

/-- **Mapping a page costs the tables that are missing.**  A page that is not mapped can be mapped
if there are as many free frames as there are tables missing on the way to it, which are then
taken; otherwise the call fails for lack of memory, and has used up the frames there were. -/
theorem mapping_takes_missing_tables (h : Runs offset space s m held) {v p : Word} (hv : Valid v)
    (hp : isAligned4k p = true) (hm : m v = none) (f : Word) :
    (missing offset space.rootPaddr s v ≤ freeFrames s ∧
        errorOf (mapPage space v p f) s = none ∧
        freeFrames (after (mapPage space v p f) s) + missing offset space.rootPaddr s v
          = freeFrames s) ∨
      (freeFrames s < missing offset space.rootPaddr s v ∧
        errorOf (mapPage space v p f) s = some .errNomem ∧
        freeFrames (after (mapPage space v p f) s) = 0) := by
  obtain ⟨root, rfl, hkept⟩ := h.kept
  have hends := hkept.mapPage_ends hv hp hm f
  rw [show (kernelSpace offset root).rootPaddr = root from rfl]
  cases hx : mapPage (kernelSpace offset root) v p f s with
  | ok a s' =>
    have hframes := hends.of_eq_ok hx
    rw [errorOf_of_ok hx, after_of_ok hx]
    exact .inl ⟨by omega, rfl, hframes⟩
  | error e s' =>
    obtain ⟨rfl, hframes, hlt⟩ := hends.of_eq_error hx
    rw [errorOf_of_error hx, after_of_error hx]
    exact .inr ⟨hlt, rfl, hframes⟩

/-- Of three free frames two are taken for the first page, and the one that is left is lost when the
second page cannot be mapped. -/
theorem mapping_takes_two_of_three : ∃ space s, Runs 0 space s (fun _ ↦ none) ∅ ∧
    freeFrames s = 3 ∧ errorOf (mapPage space 0x40000000 0x2000 2) s = none ∧
    ∃ s', s' = after (mapPage space 0x40000000 0x2000 2) s ∧ freeFrames s' = 1 ∧
      errorOf (mapPage space 0x8000000000 0x3000 2) s' = some .errNomem ∧
      freeFrames (after (mapPage space 0x8000000000 0x3000 2) s') = 0 := by
  obtain ⟨space, s, heq, hfree, htwo, hthree⟩ := eightFramesUp_missing
  have hruns := eightFramesUp_runs heq
  obtain ⟨-, hok, hleft⟩ := (mapping_takes_missing_tables hruns (v := 0x40000000) (p := 0x2000)
    ⟨by decide, by decide⟩ (by decide) rfl 2).resolve_right fun hcase ↦ by omega
  have hmapped := hruns.mapPage 0x40000000 0x2000 2 (by decide)
  rw [if_pos hok] at hmapped
  obtain ⟨-, hnomem, hnone⟩ := (mapping_takes_missing_tables hmapped (v := 0x8000000000)
    (p := 0x3000) ⟨by decide, by decide⟩ (by decide) rfl 2).resolve_left fun hcase ↦ by omega
  exact ⟨space, s, hruns, hfree, hok, _, rfl, by omega, hnomem, hnone⟩

/-- **When the kernel comes up with paging.**  `m7_vmm_init` panics if fewer than four frames are
free, and takes four frames otherwise. -/
theorem vmm_init_takes_four_frames (offset : Word) (mem : Word → Fin 512 → Word) {pmm : Pmm.State}
    (hpmm : Pmm.Reaches pmm) (hsmall : pmm.maxPhys ≤ 2 ^ 52)
    (hfits : offset.toNat + pmm.maxPhys ≤ 2 ^ 64) :
    (errorOf (m7VmmInit offset) ⟨mem, pmm⟩ = none ↔ 4 ≤ pmm.freeFrames) ∧
      (4 ≤ pmm.freeFrames →
        (after (m7VmmInit offset) ⟨mem, pmm⟩).ctx.freeFrames + 4 = pmm.freeFrames) := by
  have hends := m7VmmInit_ends (s := ⟨mem, pmm⟩) ∅ hpmm.running hsmall hfits
    fun _ hp ↦ nomatch hp
  have hfree : pmm.freeFrames = freeFrames ⟨mem, pmm⟩ := hpmm.running.free
  rw [hfree]
  cases hx : m7VmmInit offset ⟨mem, pmm⟩ with
  | ok space s' =>
    obtain ⟨⟨root, -, hkept⟩, hframes⟩ := hends.of_eq_ok hx
    rw [errorOf_of_ok hx, after_of_ok hx, hkept.good.running.free]
    exact ⟨iff_of_true rfl (by omega), fun _ ↦ hframes⟩
  | error e s' =>
    have hlt := hends.of_eq_error hx
    rw [errorOf_of_error hx]
    exact ⟨iff_of_false (Option.some_ne_none e) (by omega), fun h ↦ absurd h (by omega)⟩

theorem vmm_init_takes_four_of_seven : ∃ pmm, eightFrames = some pmm ∧
    errorOf (m7VmmInit 0) ⟨fun _ _ ↦ 0, pmm⟩ = none ∧
    (after (m7VmmInit 0) ⟨fun _ _ ↦ 0, pmm⟩).ctx.freeFrames = 3 := by
  obtain ⟨pmm, heq, hreach, hmax, hfree⟩ := eightFrames_reaches
  have hinit := vmm_init_takes_four_frames 0 (fun _ _ ↦ 0) hreach
    (by rw [hmax]; decide) (by rw [hmax]; decide)
  rw [hfree] at hinit
  have hafter := hinit.2 (by decide)
  exact ⟨pmm, heq, hinit.1.2 (by decide), by omega⟩

end Kmain
end Mcsos
