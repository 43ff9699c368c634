import Mcsos.Vmm.Walk

/-!
# Page tables are a partial map

The calls on a space are compared with a map from virtual pages to frames and flags.
`mapPage_spec` and `unmapPage_spec` say what the calls do to the entries of all pages at once; a
call that fails is not seen, wherever it fails on its way down.  A page is determined by its four
indices (`eq_of_indices`), so that changing one entry changes one page.
-/

set_option autoImplicit false

namespace Mcsos
namespace Vmm

open Program Radix

/-! ## Indices -/

theorem idx_val (v : Word) (k : ℕ) :
    (Fin.ofNat 512 ((v >>> k) &&& 0x1FF).toNat).val = v.toNat / 2 ^ k % 512 := by
  rw [Fin.val_ofNat, BitVec.toNat_and, BitVec.toNat_ushiftRight, Nat.shiftRight_eq_div_pow]
  rw [show (0x1FF : Word).toNat = 2 ^ 9 - 1 from rfl, Nat.and_two_pow_sub_one_eq_mod]
  exact Nat.mod_mod _ _

theorem isCanonical_iff {v : Word} :
    isCanonical v = true ↔ v.toNat / 2 ^ 47 = 0 ∨ v.toNat / 2 ^ 47 = 0x1FFFF := by
  have hsign : (v >>> 47) &&& 1 ≠ 0 ↔ v.toNat / 2 ^ 47 % 2 ≠ 0 := by
    rw [Ne, ← BitVec.toNat_inj, BitVec.toNat_and, BitVec.toNat_ushiftRight,
      Nat.shiftRight_eq_div_pow, show (1 : Word).toNat = 2 ^ 1 - 1 from rfl,
      Nat.and_two_pow_sub_one_eq_mod]
    rfl
  have hupper : ∀ c : Word, v >>> 48 = c ↔ v.toNat / 2 ^ 48 = c.toNat := fun c ↦ by
    rw [← BitVec.toNat_inj, BitVec.toNat_ushiftRight, Nat.shiftRight_eq_div_pow]
  have hlt := v.isLt
  rw [isCanonical]
  by_cases h : v.toNat / 2 ^ 47 % 2 = 0
  · rw [if_neg (fun hc ↦ hsign.1 hc h), beq_iff_eq, hupper, show (0 : Word).toNat = 0 from rfl]
    omega
  · rw [if_pos (hsign.2 h), beq_iff_eq, hupper, show (0xFFFF : Word).toNat = 0xFFFF from rfl]
    omega

/-- Addresses that agree up to an index and in the index. -/
theorem mod_two_pow_eq {x y k : ℕ} (h : x % 2 ^ k = y % 2 ^ k)
    (hidx : x / 2 ^ k % 512 = y / 2 ^ k % 512) : x % 2 ^ (k + 9) = y % 2 ^ (k + 9) := by
  rw [Nat.pow_add, show 2 ^ 9 = 512 from rfl, Nat.mod_mul, Nat.mod_mul, h, hidx]

/-- A page is determined by its four indices. -/
theorem eq_of_indices {v w : Word} (hv : Valid v) (hw : Valid w) (hpath : path v = path w)
    (hpt : idxPt v = idxPt w) : v = w := by
  rw [path, path, List.cons.injEq, List.cons.injEq, List.cons.injEq] at hpath
  have h4 := congrArg Fin.val hpath.1
  have h3 := congrArg Fin.val hpath.2.1
  have h2 := congrArg Fin.val hpath.2.2.1
  have h1 := congrArg Fin.val hpt
  rw [idxPml4, idxPml4, idx_val, idx_val] at h4
  rw [idxPdpt, idxPdpt, idx_val, idx_val] at h3
  rw [idxPd, idxPd, idx_val, idx_val] at h2
  rw [idxPt, idxPt, idx_val, idx_val] at h1
  -- the lower 48 bits agree, index by index
  have h12 : v.toNat % 2 ^ 12 = w.toNat % 2 ^ 12 :=
    (isAligned4k_iff.1 hv.2).trans (isAligned4k_iff.1 hw.2).symm
  have h21 : v.toNat % 2 ^ 21 = w.toNat % 2 ^ 21 := mod_two_pow_eq h12 h1
  have h30 : v.toNat % 2 ^ 30 = w.toNat % 2 ^ 30 := mod_two_pow_eq h21 h2
  have h39 : v.toNat % 2 ^ 39 = w.toNat % 2 ^ 39 := mod_two_pow_eq h30 h3
  have h48 : v.toNat % 2 ^ 48 = w.toNat % 2 ^ 48 := mod_two_pow_eq h39 h4
  clear h1 h2 h3 h4 h12 h21 h30 h39
  have hcv := isCanonical_iff.1 hv.1
  have hcw := isCanonical_iff.1 hw.1
  apply BitVec.eq_of_toNat_eq
  omega

/-! ## The calls -/

section Calls

variable {σ V : Type} [DecidableEq V] {space : Space σ V} {table : Word → V}
  {returned : σ → Set Word} {s : State σ V}

/-- Making a table is not seen, and it fails for lack of memory only. -/
theorem allocNextTable_spec (hL : Lawful space table returned) (hI : Inv space table returned s)
    {a : List (Fin 512)} {t : V} {i : Fin 512} (ha : a.length < 3)
    (ht : tableAt space table s a = some t) (h0 : s.mem t i = 0) :
    Ends (allocNextTable space t i) s
      (fun v s' ↦ Unseen space table returned s s' ∧ tableAt space table s' (a ++ [i]) = some v)
      (fun e s' ↦ Unseen space table returned s s' ∧ e = .errNomem) := by
  refine ends_expect (fun _ ↦ ⟨.refl hI, rfl⟩) fun alloc halloc ↦ ?_
  have hsame : ∀ r ∈ tables space table returned s, (alloc s).2.mem r = s.mem r := by
    rintro - ⟨p, hp, rfl⟩
    exact hL.same alloc halloc s p hp
  refine ends_bind (Q := fun p s' ↦ (p, s') = alloc s) (ends_of_ok rfl rfl) ?_
  intro p s' heq
  obtain ⟨rfl, rfl⟩ := Prod.ext_iff.1 heq
  rcases hL.alloc alloc halloc s with ⟨hfail, hret⟩ | ⟨hal, hlt, hfresh, hret⟩
  · refine ends_failIf (fun _ ↦ ⟨hI.outside hret hsame, rfl⟩) fun h ↦ ?_
    exact absurd (Or.inl hfail) h
  refine ends_failIf (fun h ↦ ?_) fun _ ↦ ends_get ?_
  · rcases h with h | h
    · rw [h] at hlt
      exact absurd hlt (by decide)
    · rw [hal] at h
      exact absurd h (by decide)
  have hmem : (alloc s).1 ∈ insert space.rootPaddr (returned (alloc s).2.ctx) := by
    rw [hret]
    exact Set.mem_insert_of_mem _ (Set.mem_insert _ _)
  have hnew : table (alloc s).1 ∉ tables space table returned s := by
    rintro ⟨q, hq, hqt⟩
    have hq' : q ∈ insert space.rootPaddr (returned (alloc s).2.ctx) := by
      rw [hret, Set.insert_comm]
      exact Set.mem_insert_of_mem _ hq
    rw [← hL.inj _ hq' hmem hqt] at hfresh
    exact hfresh hq
  rw [hL.tableFromPhys_eq hmem hal]
  refine ends_bind (Q := fun v s' ↦ v = table (alloc s).1 ∧ s' = (alloc s).2)
    (ends_onError (ends_of_ok (expect_some _ _ _) ⟨rfl, rfl⟩)) ?_
  rintro - - ⟨rfl, rfl⟩
  refine ends_modify (ends_modify (ends_pure ?_))
  have htm := hI.mem_tables ha.le ht
  refine hI.linked ha ht h0 ⟨hal, hlt, hnew, hret, ?_, fun r hr j hrj ↦ ?_, fun j ↦ ?_⟩
  · simp [setEntry]
  · have hne : r ≠ table (alloc s).1 := fun h ↦ hnew (h ▸ hr)
    have hne' : t ≠ table (alloc s).1 := fun h ↦ hnew (h ▸ htm)
    rw [← hsame r hr]
    by_cases hrt : r = t
    · subst hrt
      simp [setEntry, zeroPage, Function.update_of_ne hne', hrj.resolve_left (not_not.2 rfl)]
    · simp [setEntry, zeroPage, Function.update_of_ne hrt, Function.update_of_ne hne]
  · have hne' : table (alloc s).1 ≠ t := fun h ↦ hnew (h ▸ htm)
    simp [setEntry, zeroPage, Function.update_of_ne hne']

/-- One step of the way down that makes tables where there are none. -/
theorem getOrAllocNextTable_spec (hL : Lawful space table returned)
    (hI : Inv space table returned s) {a : List (Fin 512)} {t : V} {i : Fin 512}
    (ha : a.length < 3) (ht : tableAt space table s a = some t) :
    Ends (getOrAllocNextTable space t i) s
      (fun v s' ↦ Unseen space table returned s s' ∧ tableAt space table s' (a ++ [i]) = some v)
      (fun e s' ↦ Unseen space table returned s s' ∧ e = .errNomem ∧
        tableAt space table s (a ++ [i]) = none) := by
  refine ends_get ?_
  dsimp only
  rcases hI.entry_cases hL ha ht i with ⟨h0, hn⟩ | ⟨hpres, hhuge, v, hfind, hv⟩
  · rw [if_neg (by rw [h0]; decide)]
    refine (allocNextTable_spec hL hI ha ht h0).mono (fun _ _ h ↦ h) fun e s' h ↦ ?_
    exact ⟨h.1, h.2, hn⟩
  · rw [if_pos hpres]
    refine ends_failIf (fun h ↦ absurd hhuge h) fun _ ↦ ?_
    rw [hfind]
    exact ends_of_ok (expect_some _ _ _) ⟨.refl hI, hv⟩

/-- An entry of the last level is changed. -/
theorem Inv.setEntry (hI : Inv space table returned s) {v : Word} {pt : V}
    (ht : tableAt space table s (path v) = some pt) (e : Word) :
    Inv space table returned (setEntry pt (idxPt v) e s) ∧
      ∀ w, entryAt space table (setEntry pt (idxPt v) e s) w
        = if path w = path v ∧ idxPt w = idxPt v then
            if e &&& ptePresent ≠ 0 then some e else none
          else entryAt space table s w := by
  have hother : ∀ r ∈ tables space table returned s, r ≠ pt →
      (Vmm.setEntry pt (idxPt v) e s).mem r = s.mem r := fun r _ hr ↦ Function.update_of_ne hr _ _
  have hwalk := hI.tree.walk_leaf rfl ht hother
  refine ⟨⟨hI.aligned, hI.tree.of_walk_eq subset_rfl hwalk, fun a t i ha hta ↦ ?_⟩, fun w ↦ ?_⟩
  · have hta' : tableAt space table s a = some t := (hwalk a ha.le).symm.trans hta
    have hne : t ≠ pt := by
      rintro rfl
      have hpath := hI.tree.unique (path v) a t le_rfl ha.le ht hta'
      rw [← hpath] at ha
      exact absurd ha (lt_irrefl 3)
    rw [hother t (hI.mem_tables ha.le hta') hne]
    exact hI.nodes a t i ha hta'
  · have hw : tableAt space table (Vmm.setEntry pt (idxPt v) e s) (path w)
        = tableAt space table s (path w) := hwalk (path w) le_rfl
    cases htw : tableAt space table s (path w) with
    | none =>
      rw [entryAt_of_tableAt_none (hw.trans htw), entryAt_of_tableAt_none htw, if_neg]
      rintro ⟨hpath, -⟩
      rw [hpath, ht] at htw
      cases htw
    | some t =>
      rw [entryAt_of_tableAt (hw.trans htw), entryAt_of_tableAt htw]
      by_cases hpath : path w = path v
      · obtain rfl : pt = t := Option.some.inj (ht.symm.trans (hpath ▸ htw))
        by_cases hpt : idxPt w = idxPt v
        · rw [if_pos (c := path w = path v ∧ _) ⟨hpath, hpt⟩, hpt]
          simp [Vmm.setEntry]
        · rw [if_neg (c := path w = path v ∧ _) (fun h ↦ hpt h.2)]
          simp [Vmm.setEntry, hpt]
      · have hne : t ≠ pt := by
          rintro rfl
          exact hpath (hI.tree.unique _ _ t le_rfl le_rfl htw ht)
        rw [hother t (hI.mem_tables le_rfl htw) hne,
          if_neg (c := path w = path v ∧ _) (fun h ↦ hpath h.1)]

/-- Mapping a page that is not mapped changes that page only; otherwise it is not seen. -/
theorem mapPage_spec (hL : Lawful space table returned) (hI : Inv space table returned s)
    {v p f : Word} (hv : Valid v) (hp : isAligned4k p = true) :
    Ends (mapPage space v p f) s
      (fun _ s' ↦ Inv space table returned s' ∧ entryAt space table s v = none ∧
        ∀ w, Valid w → entryAt space table s' w
          = if w = v then some (pageEntry p f) else entryAt space table s w)
      (fun e s' ↦ Unseen space table returned s s' ∧
        (e = .errExists ∧ entryAt space table s v ≠ none ∨
          e = .errNomem ∧ entryAt space table s v = none)) := by
  have hroot : tableFromPhys space space.rootPaddr s = some (table space.rootPaddr) :=
    hL.tableFromPhys_eq (Set.mem_insert _ _) hI.aligned
  -- where a table is missing on the way, the page is not mapped
  have hmiss : ∀ {s' : State σ V} {a : List (Fin 512)}, Unseen space table returned s s' →
      a <+: path v → tableAt space table s' a = none → entryAt space table s v = none := by
    rintro s' a hs' ⟨b, hb⟩ ha
    rw [← hs'.entryAt v]
    apply entryAt_of_tableAt_none
    rw [← hb, tableAt, walk_append, show walk _ _ _ a = _ from ha]
    rfl
  refine ends_failIf (fun h ↦ ?_) fun _ ↦ ends_get ?_
  · simp [hv.1, hv.2, hp] at h
  rw [hroot]
  refine ends_expect (fun h ↦ absurd h (Option.some_ne_none _)) fun t hroot ↦ ?_
  obtain rfl := Option.some.inj hroot
  refine ends_bind ((getOrAllocNextTable_spec hL hI (a := []) (by decide) rfl).mono
    (fun _ _ h ↦ h) fun e s' h ↦ ⟨h.1, .inr ⟨h.2.1, ?_⟩⟩) ?_
  · exact hmiss (.refl hI) ⟨_, rfl⟩ h.2.2
  rintro pdpt s1 ⟨h1, ht1⟩
  refine ends_bind ((getOrAllocNextTable_spec hL h1.inv (a := [idxPml4 v]) (by simp) ht1).mono
    (fun _ _ h ↦ h) fun e s' h ↦ ⟨h1.trans h.1, .inr ⟨h.2.1, ?_⟩⟩) ?_
  · exact hmiss h1 ⟨_, rfl⟩ h.2.2
  rintro pd s2 ⟨h2, ht2⟩
  have h12 := h1.trans h2
  refine ends_bind ((getOrAllocNextTable_spec hL h2.inv (a := [idxPml4 v, idxPdpt v]) (by simp)
    ht2).mono (fun _ _ h ↦ h) fun e s' h ↦ ⟨h12.trans h.1, .inr ⟨h.2.1, ?_⟩⟩) ?_
  · exact hmiss h12 ⟨_, rfl⟩ h.2.2
  rintro pt s3 ⟨h3, ht3⟩
  have h123 := h12.trans h3
  have ht : tableAt space table s3 (path v) = some pt := ht3
  have hentry := h123.entryAt v
  rw [entryAt_of_tableAt ht] at hentry
  refine ends_get (ends_failIf (fun h ↦ ⟨h123, .inl ⟨rfl, ?_⟩⟩) fun h ↦ ends_of_ok rfl ?_)
  · rw [← hentry, if_pos h]
    exact Option.some_ne_none _
  · obtain ⟨hI', hw⟩ := h3.inv.setEntry ht (pageEntry p f)
    refine ⟨hI', by rw [← hentry, if_neg h], fun w hvw ↦ ?_⟩
    rw [hw w, h123.entryAt w, if_pos (pageEntry_present p f)]
    refine if_congr ⟨fun h ↦ eq_of_indices hvw hv h.1 h.2, ?_⟩ rfl rfl
    rintro rfl
    exact ⟨rfl, rfl⟩

omit [DecidableEq V] in
theorem queryPage_spec (hL : Lawful space table returned) (hI : Inv space table returned s)
    {v : Word} (hv : Valid v) :
    queryPage space v s = match entryAt space table s v with
      | some e => .ok ⟨v, e &&& pteAddrMask, e &&& ~~~pteAddrMask⟩ s
      | none => .error .errNotFound s := by
  have hfind := findTable_eq hL hI hv
  cases ht : tableAt space table s (path v) with
  | none =>
    rw [ht, expect_none] at hfind
    rw [queryPage, bind_of_error hfind, entryAt_of_tableAt_none ht]
  | some pt =>
    rw [ht, expect_some] at hfind
    rw [queryPage, bind_of_ok hfind, bind_of_ok (get_apply s), entryAt_of_tableAt ht]
    by_cases hpres : s.mem pt (idxPt v) &&& ptePresent = 0
    · rw [bind_of_error (failIf_of_pos hpres _ s), if_neg (not_not.2 hpres)]
    · rw [bind_of_ok (failIf_of_neg hpres _ s), if_pos hpres]
      rfl

theorem unmapPage_spec (hL : Lawful space table returned) (hI : Inv space table returned s)
    {v : Word} (hv : Valid v) :
    Ends (unmapPage space v) s
      (fun _ s' ↦ Inv space table returned s' ∧ entryAt space table s v ≠ none ∧
        ∀ w, Valid w → entryAt space table s' w
          = if w = v then none else entryAt space table s w)
      (fun e s' ↦ s' = s ∧ e = .errNotFound ∧ entryAt space table s v = none) := by
  have hfind := findTable_eq hL hI hv
  cases ht : tableAt space table s (path v) with
  | none =>
    rw [ht, expect_none] at hfind
    exact ends_of_error (bind_of_error hfind) ⟨rfl, rfl, entryAt_of_tableAt_none ht⟩
  | some pt =>
    rw [ht, expect_some] at hfind
    rw [entryAt_of_tableAt ht]
    refine ends_bind (Q := fun t s' ↦ t = pt ∧ s' = s) (ends_of_ok hfind ⟨rfl, rfl⟩) ?_
    rintro t s' ⟨rfl, hs⟩
    subst hs
    refine ends_get (ends_failIf (fun h ↦ ⟨rfl, rfl, if_neg (not_not.2 h)⟩) fun h ↦
      ends_of_ok rfl ?_)
    obtain ⟨hI', hw⟩ := hI.setEntry ht 0
    refine ⟨hI', by rw [if_pos h]; exact Option.some_ne_none _, fun w hvw ↦ ?_⟩
    rw [hw w]
    refine if_congr ⟨fun h ↦ eq_of_indices hvw hv h.1 h.2, ?_⟩ rfl rfl
    rintro rfl
    exact ⟨rfl, rfl⟩

end Calls

/-! ## Runs -/

section Runs

variable {σ V : Type} [DecidableEq V]

/-- What the tables stand for: the frame and the flags that each page was mapped with. -/
abbrev PageMap : Type := Word → Option (Word × Word)

/-- The states that calls on a fresh space lead to if the addresses that are mapped satisfy `fits`,
with the map that the calls so far amount to.  It is changed by the calls that succeed. -/
inductive ReachesBy (fits : Word → Prop) (space : Space σ V) : State σ V → PageMap → Prop
  | init {rootPaddr : Word} {allocFrame : Option (State σ V → Word × State σ V)}
      {freeFrame : Option (Word → State σ V → State σ V)}
      {physToVirt : Option (σ → Word → Option V)} {s : State σ V} {pml4 : V}
      (hspace : spaceInit rootPaddr allocFrame freeFrame physToVirt = .ok space)
      (hroot : tableFromPhys space space.rootPaddr s = some pml4) (h0 : ∀ i, s.mem pml4 i = 0) :
      ReachesBy fits space s fun _ ↦ none
  | mapPage {s : State σ V} {m : PageMap} (h : ReachesBy fits space s m) (v p f : Word)
      (hp : fits p) :
      ReachesBy fits space (after (mapPage space v p f) s)
        (if errorOf (mapPage space v p f) s = none then Function.update m v (some (p, f)) else m)
  | unmapPage {s : State σ V} {m : PageMap} (h : ReachesBy fits space s m) (v : Word) :
      ReachesBy fits space (after (unmapPage space v) s)
        (if errorOf (unmapPage space v) s = none then Function.update m v none else m)
  | queryPage {s : State σ V} {m : PageMap} (h : ReachesBy fits space s m) (v : Word) :
      ReachesBy fits space (after (queryPage space v) s) m

/-- The states of the runs that map addresses of no more than 52 bits. -/
abbrev Reaches (space : Space σ V) : State σ V → PageMap → Prop :=
  ReachesBy (fun p ↦ p.toNat < 2 ^ 52) space

/-- The calls give the answers of the map. -/
structure Agrees (space : Space σ V) (s : State σ V) (m : PageMap) : Prop where
  valid : ∀ v, m v ≠ none → Valid v
  query : ∀ v, Valid v → queryPage space v s = match m v with
    | some (p, f) => .ok ⟨v, p, ptePresent ||| (f &&& allowed)⟩ s
    | none => .error .errNotFound s
  query_invalid : ∀ v, ¬ Valid v → queryPage space v s = .error .errInval s
  map_exists : ∀ v p f, errorOf (mapPage space v p f) s = some .errExists ↔
    m v ≠ none ∧ isAligned4k p = true
  map_inval : ∀ v p f, errorOf (mapPage space v p f) s = some .errInval ↔
    ¬ (Valid v ∧ isAligned4k p = true)
  unmap : ∀ v, errorOf (unmapPage space v) s = none ↔ m v ≠ none

/-- The tables hold the map. -/
structure Holds (space : Space σ V) (table : Word → V) (returned : σ → Set Word) (s : State σ V)
    (m : PageMap) : Prop where
  inv : Inv space table returned s
  entryAt : ∀ v, Valid v → entryAt space table s v = (m v).map fun pf ↦ pageEntry pf.1 pf.2
  mapped : ∀ v p f, m v = some (p, f) → Valid v ∧ isAligned4k p = true ∧ p.toNat < 2 ^ 52

variable {space : Space σ V} {table : Word → V} {returned : σ → Set Word} {s : State σ V}
  {m : PageMap}

omit [DecidableEq V] in
theorem Holds.entryAt_eq_none_iff (h : Holds space table returned s m) {v : Word} (hv : Valid v) :
    Vmm.entryAt space table s v = none ↔ m v = none := by
  rw [h.entryAt v hv, Option.map_eq_none_iff]

omit [DecidableEq V] in
theorem Holds.unseen {s' : State σ V} (h : Holds space table returned s m)
    (hs : Unseen space table returned s s') : Holds space table returned s' m :=
  ⟨hs.inv, fun v hv ↦ (hs.entryAt v).trans (h.entryAt v hv), h.mapped⟩

omit [DecidableEq V] in
theorem Holds.valid (h : Holds space table returned s m) {v : Word} (hm : m v ≠ none) :
    Valid v := by
  obtain ⟨⟨p, f⟩, hpf⟩ := Option.ne_none_iff_exists'.1 hm
  exact (h.mapped v p f hpf).1

omit [DecidableEq V] in
/-- A change of one page. -/
theorem Holds.update {s' : State σ V} {v : Word} {o : Option (Word × Word)}
    (h : Holds space table returned s m) (hinv : Inv space table returned s')
    (hentry : ∀ w, Valid w → Vmm.entryAt space table s' w
      = if w = v then o.map fun pf ↦ pageEntry pf.1 pf.2 else Vmm.entryAt space table s w)
    (ho : ∀ p f, o = some (p, f) → Valid v ∧ isAligned4k p = true ∧ p.toNat < 2 ^ 52) :
    Holds space table returned s' (Function.update m v o) := by
  refine ⟨hinv, fun w hw ↦ ?_, fun w p f hwm ↦ ?_⟩
  · rw [hentry w hw]
    by_cases hwv : w = v
    · rw [hwv, if_pos rfl, Function.update_self]
    · rw [if_neg hwv, Function.update_of_ne hwv, h.entryAt w hw]
  · by_cases hwv : w = v
    · rw [hwv, Function.update_self] at hwm
      exact hwv ▸ ho p f hwm
    · rw [Function.update_of_ne hwv] at hwm
      exact h.mapped w p f hwm

theorem mapPage_inval {v p f : Word} (h : ¬ (Valid v ∧ isAligned4k p = true)) :
    mapPage space v p f s = .error .errInval s := by
  refine bind_of_error (failIf_of_pos ?_ _ s)
  rw [Valid, and_assoc, not_and_or, not_and_or] at h
  simpa using h

omit [DecidableEq V] in
theorem findTable_inval {v : Word} (h : ¬ Valid v) :
    findTable space v s = .error .errInval s := by
  refine bind_of_error (failIf_of_pos ?_ _ s)
  rw [Valid, not_and_or] at h
  simpa using h

theorem Holds.mapPage (hL : Lawful space table returned) (h : Holds space table returned s m)
    (v p f : Word) (hp : p.toNat < 2 ^ 52) :
    Holds space table returned (after (mapPage space v p f) s)
      (if errorOf (Vmm.mapPage space v p f) s = none then Function.update m v (some (p, f))
        else m) := by
  by_cases hvp : Valid v ∧ isAligned4k p = true
  · have hspec := mapPage_spec (f := f) hL h.inv hvp.1 hvp.2
    cases hx : Vmm.mapPage space v p f s with
    | error e s' =>
      rw [after_of_error hx, errorOf_of_error hx, if_neg (Option.some_ne_none e)]
      exact h.unseen (hspec.of_eq_error hx).1
    | ok a s' =>
      obtain ⟨hinv, -, hentry⟩ := hspec.of_eq_ok hx
      rw [after_of_ok hx, errorOf_of_ok hx, if_pos rfl]
      refine h.update hinv hentry fun q g hqg ↦ ?_
      obtain ⟨rfl, rfl⟩ := Prod.mk.inj (Option.some.inj hqg)
      exact ⟨hvp.1, hvp.2, hp⟩
  · rw [after_of_error (mapPage_inval hvp), errorOf_of_error (mapPage_inval hvp),
      if_neg (Option.some_ne_none _)]
    exact h

theorem unmapPage_inval {v : Word} (h : ¬ Valid v) :
    unmapPage space v s = .error .errInval s := bind_of_error (findTable_inval h)

theorem Holds.unmapPage (hL : Lawful space table returned) (h : Holds space table returned s m)
    (v : Word) :
    Holds space table returned (after (unmapPage space v) s)
      (if errorOf (Vmm.unmapPage space v) s = none then Function.update m v none else m) := by
  by_cases hv : Valid v
  · have hspec := unmapPage_spec hL h.inv hv
    cases hx : Vmm.unmapPage space v s with
    | error e s' =>
      rw [after_of_error hx, errorOf_of_error hx, if_neg (Option.some_ne_none e)]
      rw [(hspec.of_eq_error hx).1]
      exact h
    | ok a s' =>
      obtain ⟨hinv, -, hentry⟩ := hspec.of_eq_ok hx
      rw [after_of_ok hx, errorOf_of_ok hx, if_pos rfl]
      exact h.update hinv hentry fun _ _ hqg ↦ nomatch hqg
  · rw [after_of_error (unmapPage_inval hv), errorOf_of_error (unmapPage_inval hv),
      if_neg (Option.some_ne_none _)]
    exact h

omit [DecidableEq V] in
theorem Holds.queryPage_eq (hL : Lawful space table returned) (h : Holds space table returned s m)
    {v : Word} (hv : Valid v) :
    queryPage space v s = match m v with
      | some (p, f) => .ok ⟨v, p, ptePresent ||| (f &&& allowed)⟩ s
      | none => .error .errNotFound s := by
  rw [queryPage_spec hL h.inv hv, h.entryAt v hv]
  cases hm : m v with
  | none => rfl
  | some pf =>
    obtain ⟨p, f⟩ := pf
    obtain ⟨-, hal, hlt⟩ := h.mapped v p f hm
    rw [Option.map_some]
    dsimp only
    rw [pageEntry, BitVec.or_assoc, entry_and_pteAddrMask (pageFlags_addr f),
      entry_and_not_pteAddrMask (pageFlags_addr f), and_pteAddrMask hal hlt]

omit [DecidableEq V] in
theorem queryPage_inval {v : Word} (h : ¬ Valid v) :
    queryPage space v s = .error .errInval s := bind_of_error (findTable_inval h)

omit [DecidableEq V] in
theorem Holds.after_queryPage (hL : Lawful space table returned)
    (h : Holds space table returned s m) (v : Word) : after (queryPage space v) s = s := by
  by_cases hv : Valid v
  · have heq := h.queryPage_eq hL hv
    cases hm : m v with
    | none => exact after_of_error (heq.trans (by rw [hm]))
    | some pf => exact after_of_ok (heq.trans (by rw [hm]))
  · exact after_of_error (queryPage_inval hv)

theorem Holds.agrees (hL : Lawful space table returned) (h : Holds space table returned s m) :
    Agrees space s m where
  valid v hm := h.valid hm
  query v hv := h.queryPage_eq hL hv
  query_invalid v hv := queryPage_inval hv
  map_exists v p f := by
    by_cases hvp : Valid v ∧ isAligned4k p = true
    · have hspec := mapPage_spec (f := f) hL h.inv hvp.1 hvp.2
      rw [Ne, ← h.entryAt_eq_none_iff hvp.1]
      cases hx : Vmm.mapPage space v p f s with
      | ok a s' =>
        obtain ⟨-, hnone, -⟩ := hspec.of_eq_ok hx
        rw [errorOf_of_ok hx]
        simp [hnone]
      | error e s' =>
        rw [errorOf_of_error hx]
        obtain ⟨-, ⟨rfl, hne⟩ | ⟨rfl, hnone⟩⟩ := hspec.of_eq_error hx
        · simp [hne, hvp.2]
        · simp [hnone]
    · rw [errorOf_of_error (mapPage_inval hvp)]
      exact iff_of_false (by decide) fun hm ↦ hvp ⟨h.valid hm.1, hm.2⟩
  map_inval v p f := by
    by_cases hvp : Valid v ∧ isAligned4k p = true
    · have hspec := mapPage_spec (f := f) hL h.inv hvp.1 hvp.2
      refine iff_of_false (fun hx ↦ ?_) (not_not.2 hvp)
      cases hx' : Vmm.mapPage space v p f s with
      | ok a s' =>
        rw [errorOf_of_ok hx'] at hx
        cases hx
      | error e s' =>
        rw [errorOf_of_error hx', Option.some.injEq] at hx
        obtain ⟨-, ⟨rfl, -⟩ | ⟨rfl, -⟩⟩ := hspec.of_eq_error hx' <;> cases hx
    · exact iff_of_true (errorOf_of_error (mapPage_inval hvp)) hvp
  unmap v := by
    by_cases hv : Valid v
    · have hspec := unmapPage_spec hL h.inv hv
      rw [Ne, ← h.entryAt_eq_none_iff hv]
      cases hx : Vmm.unmapPage space v s with
      | ok a s' => exact iff_of_true (errorOf_of_ok hx) (hspec.of_eq_ok hx).2.1
      | error e s' =>
        rw [errorOf_of_error hx]
        exact iff_of_false (Option.some_ne_none e) (not_not.2 (hspec.of_eq_error hx).2.2)
    · rw [errorOf_of_error (unmapPage_inval hv)]
      exact iff_of_false (Option.some_ne_none _) fun hm ↦ hv (h.valid hm)

omit [DecidableEq V] in
/-- A root of zeros holds the empty map. -/
theorem holds_init (hL : Lawful space table returned) {rootPaddr : Word}
    {allocFrame : Option (State σ V → Word × State σ V)}
    {freeFrame : Option (Word → State σ V → State σ V)}
    {physToVirt : Option (σ → Word → Option V)} {pml4 : V}
    (hspace : spaceInit rootPaddr allocFrame freeFrame physToVirt = .ok space)
    (hroot : tableFromPhys space space.rootPaddr s = some pml4) (h0 : ∀ i, s.mem pml4 i = 0) :
    Holds space table returned s fun _ ↦ none := by
  have haligned : isAligned4k space.rootPaddr = true := by
    rw [spaceInit] at hspace
    split at hspace
    · cases hspace
    · rename_i hc
      obtain rfl := Except.ok.inj hspace
      simpa using (not_or.1 hc).2
  obtain rfl : table space.rootPaddr = pml4 :=
    Option.some.inj ((hL.tableFromPhys_eq (Set.mem_insert _ _) haligned).symm.trans hroot)
  have hleaf : ∀ i, child table (s.mem (table space.rootPaddr) i) = none := fun i ↦ by
    rw [h0, child_zero]
  refine ⟨⟨haligned, .of_leaf hleaf ⟨_, Set.mem_insert _ _, rfl⟩, fun a t i _ ht ↦ ?_⟩,
    fun v _ ↦ ?_, fun _ _ _ h ↦ nomatch h⟩
  · left
    rw [(eq_of_leaf hleaf ht).2, h0]
  · cases ht : tableAt space table s (path v) with
    | none => rw [entryAt_of_tableAt_none ht]; rfl
    | some t => exact absurd (eq_of_leaf hleaf ht).1 (List.cons_ne_nil _ _)

theorem Reaches.holds (hL : Lawful space table returned) (h : Reaches space s m) :
    Holds space table returned s m := by
  induction h with
  | init hspace hroot h0 => exact holds_init hL hspace hroot h0
  | mapPage _ v p f hp ih => exact ih.mapPage hL v p f hp
  | unmapPage _ v ih => exact ih.unmapPage hL v
  | queryPage _ v ih => rwa [ih.after_queryPage hL v]

/-- **The page tables are a partial map.**  In every state that calls on a fresh space lead to, the
calls give the answers of the map, and a call that fails leaves all of them as they are. -/
theorem page_tables_refine_map (hL : Lawful space table returned) (h : Reaches space s m) :
    Agrees space s m ∧
      (∀ v p f, p.toNat < 2 ^ 52 → errorOf (mapPage space v p f) s ≠ none →
        Agrees space (after (mapPage space v p f) s) m) ∧
      (∀ v, errorOf (unmapPage space v) s ≠ none →
        Agrees space (after (unmapPage space v) s) m) := by
  have hs := h.holds hL
  refine ⟨hs.agrees hL, fun v p f hp herr ↦ ?_, fun v herr ↦ ?_⟩
  · have hmap := hs.mapPage hL v p f hp
    rw [if_neg herr] at hmap
    exact hmap.agrees hL
  · have hunmap := hs.unmapPage hL v
    rw [if_neg herr] at hunmap
    exact hunmap.agrees hL

end Runs

/-! ## A space with an allocator that counts -/

/-- The frame that is given out after `n` others. -/
def nthFrame (n : ℕ) : Word := BitVec.ofNat 64 (4096 * (n + 2))

/-- A space in the first 64 frames, whose tables are where the frames are. -/
def countingSpace : Space ℕ Word where
  rootPaddr := 4096
  allocFrame := some fun s ↦
    if s.ctx < 62 then (nthFrame s.ctx, { s with ctx := s.ctx + 1 }) else (invalidPhys, s)
  freeFrame := none
  physToVirt := some fun _ p ↦ some p

theorem toNat_nthFrame {n : ℕ} (hn : n < 62) : (nthFrame n).toNat = 4096 * (n + 2) :=
  Nat.mod_eq_of_lt (by omega)

theorem countingSpace_lawful :
    Lawful countingSpace id fun n ↦ { p | ∃ k < n, k < 62 ∧ p = nthFrame k } where
  find := ⟨_, rfl, fun _ _ _ ↦ rfl⟩
  inj _ := fun _ _ _ _ h ↦ h
  same := by
    rintro - ⟨⟩ s p -
    dsimp only
    split <;> rfl
  alloc := by
    rintro - ⟨⟩ s
    dsimp only
    split
    · rename_i hn
      refine .inr ⟨isAligned4k_iff.2 ?_, ?_, ?_, Set.ext fun p ↦ ?_⟩
      · rw [toNat_nthFrame hn, Nat.mul_mod_right]
      · rw [toNat_nthFrame hn]
        omega
      · rintro (hroot | ⟨k, hk, hk', heq⟩)
        · have := congrArg BitVec.toNat hroot
          rw [toNat_nthFrame hn, show countingSpace.rootPaddr.toNat = 4096 from rfl] at this
          omega
        · have := congrArg BitVec.toNat heq
          rw [toNat_nthFrame hn, toNat_nthFrame hk'] at this
          omega
      · constructor
        · rintro ⟨k, hk, hk', rfl⟩
          rcases Nat.lt_succ_iff_lt_or_eq.1 hk with hk | rfl
          · exact .inr ⟨k, hk, hk', rfl⟩
          · exact .inl rfl
        · rintro (rfl | ⟨k, hk, hk', rfl⟩)
          · exact ⟨_, Nat.lt_succ_self _, hn, rfl⟩
          · exact ⟨k, Nat.lt_succ_of_lt hk, hk', rfl⟩
    · exact .inl ⟨rfl, rfl⟩

theorem countingSpace_fresh (fits : Word → Prop) :
    ReachesBy fits countingSpace ⟨fun _ _ ↦ 0, 0⟩ fun _ ↦ none := by
  have hspace : spaceInit countingSpace.rootPaddr countingSpace.allocFrame countingSpace.freeFrame
      countingSpace.physToVirt = .ok countingSpace := if_neg (by decide)
  exact .init hspace rfl fun _ ↦ rfl

/-- A page can be mapped, and the answer to a second attempt is that it exists. -/
theorem page_tables_refine_map_twice :
    errorOf (mapPage countingSpace 0xFFFF800000200000 0x300000 2) ⟨fun _ _ ↦ 0, 0⟩ = none ∧
      errorOf (mapPage countingSpace 0xFFFF800000200000 0x400000 0)
        (after (mapPage countingSpace 0xFFFF800000200000 0x300000 2) ⟨fun _ _ ↦ 0, 0⟩)
          = some .errExists := by
  have hok : errorOf (mapPage countingSpace 0xFFFF800000200000 0x300000 2) ⟨fun _ _ ↦ 0, 0⟩
      = none := by decide +kernel
  have hreach : Reaches countingSpace _ _ :=
    (countingSpace_fresh _).mapPage 0xFFFF800000200000 0x300000 2 (by decide)
  rw [if_pos hok] at hreach
  have hagrees := (page_tables_refine_map countingSpace_lawful hreach).1
  refine ⟨hok, (hagrees.map_exists _ _ _).2 ⟨?_, ?_⟩⟩
  · rw [Function.update_self]
    exact Option.some_ne_none _
  · decide

/-- Mapping a page that is mapped to an address that is not aligned is answered with
`VMM_ERR_INVAL`. -/
theorem map_exists_unaligned :
    Lawful countingSpace id (fun n ↦ { p | ∃ k < n, k < 62 ∧ p = nthFrame k }) ∧
      ∃ s m, Reaches countingSpace s m ∧ m 0x400000 = some (0x500000, 2) ∧
        errorOf (mapPage countingSpace 0x400000 0x500001 2) s = some .errInval := by
  have hok : errorOf (mapPage countingSpace 0x400000 0x500000 2) ⟨fun _ _ ↦ 0, 0⟩ = none := by
    decide +kernel
  have hreach : Reaches countingSpace _ _ :=
    (countingSpace_fresh _).mapPage 0x400000 0x500000 2 (by decide)
  rw [if_pos hok] at hreach
  refine ⟨countingSpace_lawful, _, _, hreach, Function.update_self _ _ _, ?_⟩
  exact errorOf_of_error (mapPage_inval fun h ↦ absurd h.2 (by decide))

end Vmm
end Mcsos
