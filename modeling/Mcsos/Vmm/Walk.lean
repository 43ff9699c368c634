import Mathlib.Data.Set.Image
import Mcsos.Lib.Radix
import Mcsos.Vmm.PageTable

/-!
# Walks through the page tables

The tables of a space are a radix tree of depth three, below which the entries map pages.  `Lawful`
is what the space's functions are expected to do, and `Inv` what holds of the tables then.  The two
walks of the code are compared with `Radix.walk`: `findTable_eq` is the one that only looks, and
`getOrAllocNextTable_spec` a step of the one that makes tables where there are none.
-/

set_option autoImplicit false

namespace Mcsos
namespace Vmm

open Program Radix

/-! ## Entries -/

theorem isAligned4k_iff {p : Word} : isAligned4k p = true ↔ p.toNat % 4096 = 0 := by
  rw [isAligned4k, beq_iff_eq, ← BitVec.toNat_inj, BitVec.toNat_and]
  rw [show (pageSize - 1).toNat = 2 ^ 12 - 1 from rfl, Nat.and_two_pow_sub_one_eq_mod]
  rfl

theorem getLsbD_pteAddrMask : ∀ i, i < 64 → pteAddrMask.getLsbD i = decide (12 ≤ i ∧ i < 52) := by
  decide

/-- The address of a frame survives in an entry. -/
theorem and_pteAddrMask {p : Word} (ha : isAligned4k p = true) (hlt : p.toNat < 2 ^ 52) :
    p &&& pteAddrMask = p := by
  refine BitVec.eq_of_getLsbD_eq fun i hi ↦ ?_
  rw [BitVec.getLsbD_and, getLsbD_pteAddrMask i hi]
  by_cases hi' : 12 ≤ i ∧ i < 52
  · rw [decide_eq_true hi', Bool.and_true]
  · rw [decide_eq_false hi', Bool.and_false, ← BitVec.testBit_toNat]
    symm
    rcases Nat.lt_or_ge i 12 with hlow | hhigh
    · have hmod : p.toNat % 2 ^ 12 = 0 := isAligned4k_iff.1 ha
      have hbit := Nat.testBit_mod_two_pow p.toNat 12 i
      rw [hmod, Nat.zero_testBit, decide_eq_true hlow, Bool.true_and] at hbit
      exact hbit.symm
    · have h52 : 52 ≤ i := by omega
      exact Nat.testBit_lt_two_pow (hlt.trans_le (Nat.pow_le_pow_right (by decide) h52))

/-- What an entry has beside the address. -/
theorem entry_and_of_disjoint {p x k : Word} (h : pteAddrMask &&& k = 0) :
    ((p &&& pteAddrMask) ||| x) &&& k = x &&& k := by
  rw [BitVec.and_or_distrib_right, BitVec.and_assoc, h]
  simp

theorem entry_and_pteAddrMask {p x : Word} (h : x &&& pteAddrMask = 0) :
    ((p &&& pteAddrMask) ||| x) &&& pteAddrMask = p &&& pteAddrMask := by
  rw [BitVec.and_or_distrib_right, BitVec.and_assoc, h]
  simp

theorem entry_and_not_pteAddrMask {p x : Word} (h : x &&& pteAddrMask = 0) :
    ((p &&& pteAddrMask) ||| x) &&& ~~~pteAddrMask = x := by
  rw [entry_and_of_disjoint (by decide)]
  have hx : x = x &&& (pteAddrMask ||| ~~~pteAddrMask) := by
    rw [show pteAddrMask ||| ~~~pteAddrMask = BitVec.allOnes 64 from by decide,
      BitVec.and_allOnes]
  conv_rhs => rw [hx, BitVec.and_or_distrib_left, h]
  simp

theorem tableEntry_present (p : Word) : tableEntry p &&& ptePresent ≠ 0 := by
  rw [tableEntry, BitVec.or_assoc, entry_and_of_disjoint (by decide)]
  decide

theorem tableEntry_huge (p : Word) : tableEntry p &&& pteHuge = 0 := by
  rw [tableEntry, BitVec.or_assoc, entry_and_of_disjoint (by decide)]
  decide

theorem tableEntry_addr {p : Word} (ha : isAligned4k p = true) (hlt : p.toNat < 2 ^ 52) :
    tableEntry p &&& pteAddrMask = p := by
  rw [tableEntry, BitVec.or_assoc, entry_and_pteAddrMask (by decide), and_pteAddrMask ha hlt]

theorem pageFlags_addr (flags : Word) :
    (ptePresent ||| (flags &&& allowed)) &&& pteAddrMask = 0 := by
  rw [BitVec.and_or_distrib_right, BitVec.and_assoc,
    show allowed &&& pteAddrMask = 0#64 from by decide,
    show ptePresent &&& pteAddrMask = 0#64 from by decide, BitVec.and_zero]
  rfl

theorem pageEntry_present (p flags : Word) : pageEntry p flags &&& ptePresent ≠ 0 := by
  rw [pageEntry, BitVec.or_assoc, entry_and_of_disjoint (by decide), BitVec.and_or_distrib_right,
    BitVec.and_assoc, show allowed &&& ptePresent = 0#64 from by decide, BitVec.and_zero]
  decide

/-! ## The tree of tables -/

section Walk

variable {σ V : Type}

/-- What the functions of a space are expected to do, where `returned` are the frames that the
allocator has given out so far: the root and these frames have a table each, and what is given out
next is a frame of its own. -/
structure Lawful (space : Space σ V) (table : Word → V) (returned : σ → Set Word) : Prop where
  find : ∃ f, space.physToVirt = some f ∧
    ∀ c, ∀ p ∈ insert space.rootPaddr (returned c), f c p = some (table p)
  inj : ∀ c, Set.InjOn table (insert space.rootPaddr (returned c))
  same : ∀ alloc ∈ space.allocFrame, ∀ s, ∀ p ∈ insert space.rootPaddr (returned s.ctx),
    (alloc s).2.mem (table p) = s.mem (table p)
  alloc : ∀ alloc ∈ space.allocFrame, ∀ s,
    (alloc s).1 = invalidPhys ∧ returned (alloc s).2.ctx = returned s.ctx ∨
      isAligned4k (alloc s).1 = true ∧ (alloc s).1.toNat < 2 ^ 52 ∧
        (alloc s).1 ∉ insert space.rootPaddr (returned s.ctx) ∧
        returned (alloc s).2.ctx = insert (alloc s).1 (returned s.ctx)

/-- The table behind an entry. -/
def child (table : Word → V) (e : Word) : Option V :=
  if e &&& ptePresent ≠ 0 then some (table (e &&& pteAddrMask)) else none

/-- The way to the table of the last level. -/
def path (vaddr : Word) : List (Fin 512) := [idxPml4 vaddr, idxPdpt vaddr, idxPd vaddr]

variable (space : Space σ V) (table : Word → V) (returned : σ → Set Word)

/-- The tables of a space. -/
def tables (s : State σ V) : Set V := table '' insert space.rootPaddr (returned s.ctx)

/-- The table at the end of a path. -/
abbrev tableAt (s : State σ V) (a : List (Fin 512)) : Option V :=
  walk (child table) s.mem (table space.rootPaddr) a

/-- The entry that maps a page, if there is one. -/
def entryAt (s : State σ V) (vaddr : Word) : Option Word :=
  (tableAt space table s (path vaddr)).bind fun pt ↦
    if s.mem pt (idxPt vaddr) &&& ptePresent ≠ 0 then some (s.mem pt (idxPt vaddr)) else none

/-- The tables form a tree, in which the upper levels have nothing but links to tables. -/
structure Inv (s : State σ V) : Prop where
  aligned : isAligned4k space.rootPaddr = true
  tree : Tree (child table) s.mem (table space.rootPaddr) 3 (tables space table returned s)
  nodes : ∀ a t i, a.length < 3 → tableAt space table s a = some t →
    s.mem t i = 0 ∨ ∃ p ∈ returned s.ctx, isAligned4k p = true ∧ p.toNat < 2 ^ 52 ∧
      s.mem t i = tableEntry p

/-- A step that no query notices. -/
structure Unseen (s s' : State σ V) : Prop where
  inv : Inv space table returned s'
  entryAt : ∀ v, entryAt space table s' v = entryAt space table s v

variable {space table returned} {s s' : State σ V}

theorem child_zero : child table 0 = none := if_neg (by decide)

theorem child_tableEntry {p : Word} (ha : isAligned4k p = true) (hlt : p.toNat < 2 ^ 52) :
    child table (tableEntry p) = some (table p) := by
  rw [child, if_pos (tableEntry_present p), tableEntry_addr ha hlt]

theorem Unseen.refl (hI : Inv space table returned s) : Unseen space table returned s s :=
  ⟨hI, fun _ ↦ rfl⟩

theorem Unseen.trans {s'' : State σ V} (h : Unseen space table returned s s')
    (h' : Unseen space table returned s' s'') : Unseen space table returned s s'' :=
  ⟨h'.inv, fun v ↦ (h'.entryAt v).trans (h.entryAt v)⟩

theorem entryAt_of_tableAt {v : Word} {pt : V} (h : tableAt space table s (path v) = some pt) :
    entryAt space table s v = if s.mem pt (idxPt v) &&& ptePresent ≠ 0 then
      some (s.mem pt (idxPt v)) else none := by
  rw [entryAt, h]
  rfl

/-- Nothing is mapped behind a table that does not exist. -/
theorem entryAt_of_tableAt_none {v : Word} (h : tableAt space table s (path v) = none) :
    entryAt space table s v = none := by
  rw [entryAt, h]
  rfl

theorem Lawful.tableFromPhys_eq (hL : Lawful space table returned) {p : Word}
    (hp : p ∈ insert space.rootPaddr (returned s.ctx)) (ha : isAligned4k p = true) :
    tableFromPhys space p s = some (table p) := by
  obtain ⟨f, hf, hfind⟩ := hL.find
  rw [tableFromPhys, ha, hf]
  exact hfind s.ctx p hp

/-- What is behind an entry of the upper levels. -/
theorem Inv.entry_cases (hI : Inv space table returned s) (hL : Lawful space table returned)
    {a : List (Fin 512)} {t : V} (ha : a.length < 3) (ht : tableAt space table s a = some t)
    (i : Fin 512) :
    s.mem t i = 0 ∧ tableAt space table s (a ++ [i]) = none ∨
      s.mem t i &&& ptePresent ≠ 0 ∧ s.mem t i &&& pteHuge = 0 ∧
        ∃ v, tableFromPhys space (s.mem t i &&& pteAddrMask) s = some v ∧
          tableAt space table s (a ++ [i]) = some v := by
  have hwalk : tableAt space table s (a ++ [i]) = child table (s.mem t i) := by
    rw [tableAt, walk_concat, show walk _ _ _ a = _ from ht]
    rfl
  rcases hI.nodes a t i ha ht with h0 | ⟨p, hp, hal, hlt, he⟩
  · left
    exact ⟨h0, by rw [hwalk, h0, child_zero]⟩
  · right
    rw [hwalk, he, tableEntry_addr hal hlt, child_tableEntry hal hlt]
    exact ⟨tableEntry_present p, tableEntry_huge p, table p,
      hL.tableFromPhys_eq (Set.mem_insert_of_mem _ hp) hal, rfl⟩

/-- One step of the way down that makes no tables. -/
theorem expect_bind_nextTable (hL : Lawful space table returned) (hI : Inv space table returned s)
    {a : List (Fin 512)} (ha : a.length < 3) (i : Fin 512) :
    (expect (tableAt space table s a) .errNotFound >>= fun t ↦ nextTable space t i) s
      = expect (tableAt space table s (a ++ [i])) .errNotFound s := by
  cases ht : tableAt space table s a with
  | none =>
    have hn : tableAt space table s (a ++ [i]) = none := by
      rw [tableAt, walk_concat, show walk _ _ _ a = _ from ht]
      rfl
    rw [hn, bind_of_error (expect_none _ s), expect_none]
  | some t =>
    rw [bind_of_ok (expect_some _ _ s), nextTable, bind_of_ok (get_apply s)]
    rcases hI.entry_cases hL ha ht i with ⟨h0, hn⟩ | ⟨hpres, hhuge, v, hfind, hv⟩
    · rw [hn, bind_of_error (failIf_of_pos (.inl (by rw [h0]; rfl)) _ s), expect_none]
    · rw [hv, bind_of_ok (failIf_of_neg (not_or.2 ⟨hpres, not_not.2 hhuge⟩) _ s), hfind,
        expect_some, expect_some]

/-- The pages that can be mapped. -/
def Valid (vaddr : Word) : Prop := isCanonical vaddr = true ∧ isAligned4k vaddr = true

/-- The way down that makes no tables is `walk`. -/
theorem findTable_eq (hL : Lawful space table returned) (hI : Inv space table returned s)
    {v : Word} (hv : Valid v) :
    findTable space v s = expect (tableAt space table s (path v)) .errNotFound s := by
  have hroot : tableFromPhys space space.rootPaddr s = some (table space.rootPaddr) :=
    hL.tableFromPhys_eq (Set.mem_insert _ _) hI.aligned
  have h1 := expect_bind_nextTable hL hI (a := []) (by decide) (idxPml4 v)
  have h2 := expect_bind_nextTable hL hI (a := [idxPml4 v]) (by simp) (idxPdpt v)
  have h3 := expect_bind_nextTable hL hI (a := [idxPml4 v, idxPdpt v]) (by simp) (idxPd v)
  rw [findTable, bind_of_ok (failIf_of_neg (by simp [hv.1, hv.2]) _ s), bind_of_ok (get_apply s),
    hroot, bind_of_ok (expect_some _ _ s), ← bind_assoc]
  rw [tableAt, walk_nil, bind_of_ok (expect_some _ _ s)] at h1
  refine (bind_congr_at ?_ fun _ _ _ ↦ rfl).trans h3
  exact (bind_congr_at h1 fun _ _ _ ↦ rfl).trans h2

/-! ## Changes of the tables -/

theorem Inv.mem_tables (hI : Inv space table returned s) {a : List (Fin 512)} {t : V}
    (ha : a.length ≤ 3) (ht : tableAt space table s a = some t) :
    t ∈ tables space table returned s := hI.tree.mem_owned a t ha ht

/-- What happens outside of the tables is not seen. -/
theorem Inv.outside (hI : Inv space table returned s) (hret : returned s'.ctx = returned s.ctx)
    (hmem : ∀ t ∈ tables space table returned s, s'.mem t = s.mem t) :
    Unseen space table returned s s' := by
  have hwalk := hI.tree.walk_outside hmem
  have htables : tables space table returned s' = tables space table returned s := by
    rw [tables, tables, hret]
  refine ⟨⟨hI.aligned, ?_, fun a t i ha ht ↦ ?_⟩, fun v ↦ ?_⟩
  · rw [htables]
    exact hI.tree.of_walk_eq subset_rfl hwalk
  · have ht' : tableAt space table s a = some t := (hwalk a ha.le).symm.trans ht
    rw [hmem t (hI.mem_tables ha.le ht'), hret]
    exact hI.nodes a t i ha ht'
  · have hpath : tableAt space table s' (path v) = tableAt space table s (path v) :=
      hwalk (path v) le_rfl
    cases ht : tableAt space table s (path v) with
    | none => rw [entryAt_of_tableAt_none ht, entryAt_of_tableAt_none (hpath.trans ht)]
    | some t =>
      rw [entryAt_of_tableAt ht, entryAt_of_tableAt (hpath.trans ht),
        hmem t (hI.mem_tables le_rfl ht)]

/-- The tables after a new one has been linked in behind an entry that was zero. -/
structure Linked (space : Space σ V) (table : Word → V) (returned : σ → Set Word)
    (s : State σ V) (t : V) (i : Fin 512) (p : Word) (s' : State σ V) : Prop where
  aligned : isAligned4k p = true
  lt : p.toNat < 2 ^ 52
  fresh : table p ∉ tables space table returned s
  given : returned s'.ctx = insert p (returned s.ctx)
  link : s'.mem t i = tableEntry p
  same : ∀ r ∈ tables space table returned s, ∀ j, r ≠ t ∨ j ≠ i → s'.mem r j = s.mem r j
  empty : ∀ j, s'.mem (table p) j = 0

/-- A new table is not seen either, since it maps nothing. -/
theorem Inv.linked (hI : Inv space table returned s) {a : List (Fin 512)} {t : V} {i : Fin 512}
    {p : Word} (ha : a.length < 3) (ht : tableAt space table s a = some t) (h0 : s.mem t i = 0)
    (h : Linked space table returned s t i p s') :
    Unseen space table returned s s' ∧ tableAt space table s' (a ++ [i]) = some (table p) := by
  have hgrown : Tree.Grown (child table) s.mem (table space.rootPaddr)
      (tables space table returned s) a i t (table p) s'.mem :=
    ⟨ht, by rw [h0, child_zero], h.fresh, h.same,
      by rw [h.link, child_tableEntry h.aligned h.lt], fun j ↦ by rw [h.empty, child_zero]⟩
  have hwalk := hI.tree.walk_grow ha hgrown
  refine ⟨⟨⟨hI.aligned, ?_, fun b r j hb hr ↦ ?_⟩, fun v ↦ ?_⟩, ?_⟩
  · have htables : tables space table returned s'
        = insert (table p) (tables space table returned s) := by
      rw [tables, tables, h.given, Set.insert_comm, Set.image_insert_eq]
    rw [htables]
    exact hI.tree.grow ha hgrown
  · rw [h.given]
    rcases (hwalk b hb.le r).1 hr with hr | ⟨-, rfl⟩
    · by_cases hrj : r = t ∧ j = i
      · right
        rw [hrj.1, hrj.2]
        exact ⟨p, Set.mem_insert _ _, h.aligned, h.lt, h.link⟩
      · rw [h.same r (hI.mem_tables hb.le hr) j (not_and_or.1 hrj)]
        refine (hI.nodes b r j hb hr).imp_right fun ⟨q, hq, hq'⟩ ↦ ?_
        exact ⟨q, Set.mem_insert_of_mem _ hq, hq'⟩
    · left
      exact h.empty j
  · cases hr : tableAt space table s (path v) with
    | some r =>
      have hr' : tableAt space table s' (path v) = some r :=
        (hwalk (path v) le_rfl r).2 (.inl hr)
      -- the table of a page is on the last level, and the one that was changed is above it
      have hne : r ≠ t := by
        rintro rfl
        have hpath := hI.tree.unique (path v) a r le_rfl ha.le hr ht
        rw [← hpath] at ha
        exact absurd ha (lt_irrefl 3)
      rw [entryAt_of_tableAt hr, entryAt_of_tableAt hr',
        h.same r (hI.mem_tables le_rfl hr) (idxPt v) (.inl hne)]
    | none =>
      rw [entryAt_of_tableAt_none hr]
      cases hr' : tableAt space table s' (path v) with
      | none => exact entryAt_of_tableAt_none hr'
      | some r =>
        rcases (hwalk (path v) le_rfl r).1 hr' with hr'' | ⟨-, rfl⟩
        · exact absurd (hr.symm.trans hr'') (by simp)
        · rw [entryAt_of_tableAt hr', h.empty]
          rfl
  · exact (hwalk (a ++ [i]) (by rw [List.length_append]; exact ha) (table p)).2 (.inr ⟨rfl, rfl⟩)

end Walk

end Vmm
end Mcsos
