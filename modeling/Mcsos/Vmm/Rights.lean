import Mcsos.Vmm.Encoding

/-!
# What the processor grants

A translation reads four entries.  The processor lets user code in, and lets it write, if all four
of them say so, and it refuses to execute if one of them does.  The entries on the way down are made
by `get_or_alloc_next_table`, all of them with the same bits (`Inv.exists_trail`): they may be
written through and executed through, but they are not for user code.  So the last entry decides
about writing and executing, and user code gets in nowhere (`rights_eq`).
-/

set_option autoImplicit false

namespace Mcsos
namespace Vmm

open Program Radix

/-! ## Rights -/

/-- What may be done with a page. -/
structure Rights where
  user : Bool
  writable : Bool
  noExecute : Bool
  deriving DecidableEq

/-- The rights that the flags of a mapping ask for. -/
def Rights.asked (flags : Word) : Rights where
  user := flags &&& pteUser != 0
  writable := flags &&& pteWritable != 0
  noExecute := flags &&& pteNoExecute != 0

/-- The rights that a sequence of entries grants on x86-64. -/
def Rights.along (entries : List Word) : Rights where
  user := entries.all fun e ↦ e &&& pteUser != 0
  writable := entries.all fun e ↦ e &&& pteWritable != 0
  noExecute := entries.any fun e ↦ e &&& pteNoExecute != 0

/-- A bit of an entry that maps a page comes from the flags. -/
theorem pageEntry_and {k : Word} (p f : Word) (hmask : pteAddrMask &&& k = 0)
    (hpresent : ptePresent &&& k = 0) (hallowed : allowed &&& k = k) :
    pageEntry p f &&& k = f &&& k := by
  rw [pageEntry, BitVec.or_assoc, entry_and_of_disjoint hmask, BitVec.and_or_distrib_right,
    hpresent, BitVec.and_assoc, hallowed]
  exact BitVec.zero_or

/-- A bit of an entry that leads to a table is the same in all of them. -/
theorem tableEntry_and {k : Word} (p : Word) (hmask : pteAddrMask &&& k = 0) :
    tableEntry p &&& k = (ptePresent ||| pteWritable) &&& k := by
  rw [tableEntry, BitVec.or_assoc, entry_and_of_disjoint hmask]

/-- The entries of the upper levels take the right of user code away, and nothing else. -/
theorem along_tableEntries {ps : List Word} (hne : ps ≠ []) (p f : Word) :
    Rights.along (ps.map tableEntry ++ [pageEntry p f])
      = { Rights.asked f with user := false } := by
  have huser : (ps.map tableEntry ++ [pageEntry p f]).all (fun e ↦ e &&& pteUser != 0)
      = false := by
    obtain ⟨q, qs, rfl⟩ := List.exists_cons_of_ne_nil hne
    refine List.all_eq_false.2 ⟨tableEntry q, List.mem_cons_self, ?_⟩
    rw [tableEntry_and q (by decide)]
    decide
  have hwrite : (ps.map tableEntry).all (fun e ↦ e &&& pteWritable != 0) = true := by
    refine List.all_eq_true.2 (List.forall_mem_map.2 fun q _ ↦ ?_)
    rw [tableEntry_and q (by decide)]
    decide
  have hexec : (ps.map tableEntry).any (fun e ↦ e &&& pteNoExecute != 0) = false := by
    refine List.any_eq_false.2 (List.forall_mem_map.2 fun q _ ↦ ?_)
    rw [tableEntry_and q (by decide)]
    decide
  have hwrite' : pageEntry p f &&& pteWritable = f &&& pteWritable :=
    pageEntry_and p f (by decide) (by decide) (by decide)
  have hexec' : pageEntry p f &&& pteNoExecute = f &&& pteNoExecute :=
    pageEntry_and p f (by decide) (by decide) (by decide)
  rw [Rights.along, huser, List.all_append, hwrite, List.any_append, hexec, List.all_cons, hwrite',
    List.any_cons, hexec', Rights.asked]
  simp only [List.all_nil, List.any_nil, Bool.and_true, Bool.true_and, Bool.or_false, Bool.false_or]

/-! ## Translations -/

section Translation

variable {σ V : Type} {space : Space σ V} {table : Word → V} {returned : σ → Set Word}
  {s : State σ V} {m : PageMap} {v p f : Word}

/-- The rights that the processor grants for an address, if it can be translated. -/
def rights (space : Space σ V) (table : Word → V) (s : State σ V) (v : Word) : Option Rights :=
  (trail (child table) s.mem (table space.rootPaddr) (path v ++ [idxPt v])).map Rights.along

/-- On the way down there are entries that lead to tables. -/
theorem Inv.exists_trail (hI : Inv space table returned s) {a : List (Fin 512)} {t : V}
    (ha : a.length ≤ 3) (ht : tableAt space table s a = some t) :
    ∃ ps : List Word, ps.length = a.length ∧
      trail (child table) s.mem (table space.rootPaddr) a = some (ps.map tableEntry) := by
  induction a using List.reverseRecOn generalizing t with
  | nil => exact ⟨[], rfl, rfl⟩
  | append_singleton a i ih =>
    rw [List.length_append] at ha
    obtain ⟨r, hr, hc⟩ := walk_concat_eq_some.1 ht
    obtain ⟨ps, hlen, htrail⟩ := ih (Nat.le_of_lt ha) hr
    rcases hI.nodes a r i ha hr with h0 | ⟨q, -, -, -, hq⟩
    · rw [h0, child_zero] at hc
      cases hc
    · refine ⟨ps ++ [q], by simp [hlen], ?_⟩
      rw [trail_concat hr htrail hc, hq, List.map_append]
      rfl

/-- The rights of a page that is mapped. -/
theorem Inv.rights_eq (hI : Inv space table returned s)
    (he : entryAt space table s v = some (pageEntry p f)) :
    rights space table s v = some { Rights.asked f with user := false } := by
  obtain ⟨pt, hpt, he⟩ := Option.bind_eq_some_iff.1 he
  split at he
  · rename_i hpresent
    have he := Option.some.inj he
    obtain ⟨ps, hlen, htrail⟩ := hI.exists_trail le_rfl hpt
    have hchild : child table (s.mem pt (idxPt v))
        = some (table (s.mem pt (idxPt v) &&& pteAddrMask)) := if_pos hpresent
    have hne : ps ≠ [] := by
      rintro rfl
      cases hlen
    rw [rights, trail_concat hpt htrail hchild, he, Option.map_some, along_tableEntries hne]
  · cases he

/-- **User code gets in nowhere.**  In every state that calls on a fresh space lead to, whatever
their arguments, the processor grants exactly the rights that a page was mapped with if and only if
these do not include that of user code. -/
theorem rights_granted_iff [DecidableEq V] (hL : Lawful space table returned)
    (h : Runs space s m) (hm : m v = some (p, f)) :
    rights space table s v = some (Rights.asked f) ↔ f &&& pteUser = 0 := by
  have hs := h.reaches.holds hL
  have hmasked : m.masked v = some (p &&& pteAddrMask, f) := by
    rw [PageMap.masked, hm, Option.map_some]
  have hentry := hs.entryAt v (hs.mapped v _ _ hmasked).1
  rw [hmasked, Option.map_some] at hentry
  rw [hs.inv.rights_eq hentry, Option.some_inj, Rights.asked, Rights.mk.injEq, eq_comm,
    bne_eq_false_iff_eq]
  exact and_iff_left ⟨rfl, rfl⟩

end Translation

/-- A page for the kernel, mapped next to one for user code, gets its rights. -/
theorem rights_granted_kernel_page : ∃ s,
    rights countingSpace id s 0x400000 = some ⟨false, true, true⟩ ∧
      rights countingSpace id s 0x401000 = some ⟨false, false, false⟩ := by
  have hok : errorOf (mapPage countingSpace 0x401000 0x600000 4) ⟨fun _ _ ↦ 0, 0⟩ = none := by
    decide +kernel
  have hok' : errorOf (mapPage countingSpace 0x400000 0x500000 0x8000000000000002)
      (after (mapPage countingSpace 0x401000 0x600000 4) ⟨fun _ _ ↦ 0, 0⟩) = none := by
    decide +kernel
  have hrun : Runs countingSpace _ _ :=
    ((countingSpace_fresh _).mapPage 0x401000 0x600000 4 trivial).mapPage 0x400000 0x500000
      0x8000000000000002 trivial
  rw [if_pos hok, if_pos hok'] at hrun
  refine ⟨_, (rights_granted_iff countingSpace_lawful hrun (Function.update_self _ _ _)).2 ?_, ?_⟩
  · decide
  · decide +kernel

/-- A page that is mapped for user code is not accessible to it. -/
theorem user_page_denied :
    Lawful countingSpace id (fun n ↦ { p | ∃ k < n, k < 62 ∧ p = nthFrame k }) ∧
      ∃ s m, Runs countingSpace s m ∧ m 0x400000 = some (0x500000, pteUser ||| pteWritable) ∧
        rights countingSpace id s 0x400000 = some ⟨false, true, false⟩ := by
  have hok : errorOf (mapPage countingSpace 0x400000 0x500000 (pteUser ||| pteWritable))
      ⟨fun _ _ ↦ 0, 0⟩ = none := by decide +kernel
  have hrun : Runs countingSpace _ _ :=
    (countingSpace_fresh _).mapPage 0x400000 0x500000 (pteUser ||| pteWritable) trivial
  rw [if_pos hok] at hrun
  exact ⟨countingSpace_lawful, _, _, hrun, Function.update_self _ _ _, by decide +kernel⟩

end Vmm
end Mcsos
