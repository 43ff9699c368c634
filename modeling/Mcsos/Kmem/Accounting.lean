import Mcsos.Kmem.Coalescing

/-!
# The accounts of the heap

The blocks of the heap as a list, in the order in which the loops of `kmem.c` come across them
(`Blocks`).  `kmem_validate` and `kmem_get_stats` go along this list: the first finds nothing wrong
with it, and the second counts every byte of the heap once.
-/

set_option autoImplicit false

namespace Mcsos
namespace Kmem

variable {m m' : Mem} {h h' : Heap} {a b n p w lo hi : ℕ} {S S' : Set ℕ} {live live' : Ranges}

/-! ## The list of blocks -/

/-- From `cur` on, the `next` pointers lead along the blocks `l` to the end.  The blocks tile
`[pos, hi)` in the order of their addresses, their `prev` pointers lead back, with `prev` in front
of the first, and their sizes are multiples of 16. -/
def Blocks (m : Mem) (hi : ℕ) : (prev cur pos : ℕ) → List ℕ → Prop
  | _, cur, pos, [] => cur = 0 ∧ pos = hi
  | prev, cur, pos, a :: l => cur = a ∧ a ≠ 0 ∧ a = pos ∧ fld m a .prev = prev ∧
      16 ∣ fld m a .size ∧ Blocks m hi a (fld m a .next) (a + headerSize + fld m a .size) l

/-- The blocks of a chain, from any of them on. -/
theorem Chain.exists_blocks (hC : Chain m lo hi S) (ha : a ∈ S) :
    ∃ l, Blocks m hi (fld m a .prev) a a l ∧ ∀ x, x ∈ l ↔ x ∈ S ∧ a ≤ x := by
  induction hk : hi - a using Nat.strong_induction_on generalizing a with
  | _ k ih =>
    have hle := hC.le_hi ha
    have h16 := hC.size_dvd a ha
    by_cases h0 : fld m a .next = 0
    · have hend : a + 48 + fld m a .size = hi := hC.tiling.eq_hi_of_next ha h0
      refine ⟨[a], ⟨rfl, (hC.tiling.pos ha).ne', rfl, rfl, h16, h0, hend⟩, fun x ↦ ?_⟩
      rw [List.mem_singleton]
      constructor
      · rintro rfl
        exact ⟨ha, le_rfl⟩
      · rintro ⟨hx, hax⟩
        by_contra hne
        have := hC.le_hi hx
        have := hC.apart hx ha hne
        omega
    · obtain ⟨hnS, hn⟩ := hC.next_eq ha h0
      have hprev : fld m (fld m a .next) .prev = a := hC.tiling.prev_next (by decide) ha h0
      obtain ⟨l, hl, hmem⟩ := ih (hi - fld m a .next) (by omega) hnS rfl
      rw [hprev] at hl
      refine ⟨a :: l, ⟨rfl, (hC.tiling.pos ha).ne', rfl, rfl, h16, ?_⟩, fun x ↦ ?_⟩
      · show Blocks m hi a (fld m a .next) (a + 48 + fld m a .size) l
        rwa [← hn]
      · rw [List.mem_cons, hmem]
        constructor
        · rintro (rfl | ⟨hx, hax⟩)
          · exact ⟨ha, le_rfl⟩
          · exact ⟨hx, by omega⟩
        · rintro ⟨hx, hax⟩
          rcases Nat.eq_or_lt_of_le hax with rfl | hlt
          · exact .inl rfl
          · exact .inr ⟨hx, hn ▸ hC.tiling.apart a ha x hx hlt⟩

section Blocks

variable {prev cur pos : ℕ} {l : List ℕ}

theorem Blocks.le (hl : Blocks m hi prev cur pos l) : pos ≤ hi := by
  induction l generalizing prev cur pos with
  | nil => exact hl.2.le
  | cons a l ih =>
    obtain ⟨-, -, rfl, -, -, hl⟩ := hl
    have := ih hl
    omega

/-- Every block takes at least 64 bytes. -/
theorem Blocks.length_le (hC : Chain m lo hi S) (hl : Blocks m hi prev cur pos l)
    (hS : ∀ a ∈ l, a ∈ S) : pos + 64 * l.length ≤ hi := by
  induction l generalizing prev cur pos with
  | nil => exact hl.2.le
  | cons a l ih =>
    obtain ⟨-, -, rfl, -, h16, hl⟩ := hl
    have := ih hl fun x hx ↦ hS x (List.mem_cons_of_mem _ hx)
    have := hC.size_pos a (hS a List.mem_cons_self)
    simp only [headerSize, List.length_cons] at *
    omega

/-- Neighbours in the list are neighbours in the heap. -/
theorem Blocks.isChain (hl : Blocks m hi prev cur pos l) (hF : ∀ a ∈ l, FreeApartAt m a) :
    l.IsChain fun a b ↦ fld m a .free = 0 ∨ fld m b .free = 0 := by
  induction l generalizing prev cur pos with
  | nil => exact .nil
  | cons a l ih =>
    obtain ⟨-, -, -, -, -, hl⟩ := hl
    have ih := ih hl fun x hx ↦ hF x (List.mem_cons_of_mem _ hx)
    cases l with
    | nil => exact .singleton a
    | cons b l =>
      refine .cons_cons ?_ ih
      obtain ⟨hn, h0, -⟩ := hl
      by_cases hfree : fld m a .free = 0
      · exact .inl hfree
      · exact .inr (hn ▸ hF a List.mem_cons_self hfree (hn.symm ▸ h0))

end Blocks

/-! ## Validation -/

/-- The address behind a block. -/
theorem Chain.alignUpPtr_end (hC : Chain m lo hi S) (ha : a ∈ S) :
    alignUpPtr ((payload a + fld m a .size) % 2 ^ 64) align = a + 48 + fld m a .size := by
  have hlt := hC.lt_word ha
  have h1 := hC.aligned a ha
  have h2 := hC.size_dvd a ha
  rw [payload_eq hC ha, Nat.mod_eq_of_lt hlt, alignUpPtr_eq, roundUp_of_dvd (by omega) hlt]

theorem validateLoop_eq_zero (hC : Chain h.mem h.heapBase h.heapEnd S) {l : List ℕ}
    {blocks prev cursor cur : ℕ} (hl : Blocks h.mem h.heapEnd prev cur cursor l)
    (hS : ∀ a ∈ l, a ∈ S) (hlen : l.length ≤ blocks) :
    validateLoop h blocks prev cursor cur = 0 := by
  induction l generalizing blocks prev cursor cur with
  | nil =>
    obtain ⟨rfl, -⟩ := hl
    cases blocks with
    | zero => rw [validateLoop, if_pos rfl]
    | succ blocks => rw [validateLoop, if_pos rfl]
  | cons a l ih =>
    obtain ⟨rfl, h0, rfl, hprev, -, hl⟩ := hl
    obtain ⟨blocks, rfl⟩ : ∃ k, blocks = k + 1 :=
      ⟨blocks - 1, by rw [List.length_cons] at hlen; omega⟩
    have hcur := hS cur List.mem_cons_self
    have hge := hC.tiling.ge cur hcur
    have hle := hC.le_hi hcur
    have hlt := hC.hi_lt
    rw [validateLoop, if_neg h0, if_neg (not_not.2 rfl),
      if_neg (by simp only [headerSize]; omega), if_neg (not_not.2 (hC.magic cur hcur)),
      if_neg (not_not.2 hprev), payload_eq hC hcur, if_neg (by omega), ← payload_eq hC hcur,
      hC.alignUpPtr_end hcur]
    dsimp only
    rw [if_neg (by omega)]
    exact ih hl (fun x hx ↦ hS x (List.mem_cons_of_mem _ hx))
      (by rw [List.length_cons] at hlen; omega)

/-- The blocks of a heap, from the first on. -/
theorem Inv.exists_blocks (hI : Inv h S live) :
    ∃ l, Blocks h.mem h.heapEnd 0 h.head h.heapBase l ∧ (∀ a, a ∈ l ↔ a ∈ S) ∧
      h.heapBase + 64 * l.length ≤ h.heapEnd := by
  obtain ⟨l, hl, hmem⟩ := hI.chain.exists_blocks hI.chain.tiling.lo_mem
  have hprev : fld h.mem h.heapBase .prev = 0 := hI.chain.tiling.prev_lo (by decide)
  have hS : ∀ a, a ∈ l ↔ a ∈ S := fun a ↦
    (hmem a).trans ⟨And.left, fun ha ↦ ⟨ha, hI.chain.tiling.ge a ha⟩⟩
  exact ⟨l, by rwa [hI.head, ← hprev], hS, hl.length_le hI.chain fun a ha ↦ (hS a).1 ha⟩

/-- A heap of at most 64 MiB has few enough blocks for `kmem_validate`. -/
theorem Inv.validate_eq_zero (hI : Inv h S live) (hsize : h.heapEnd ≤ h.heapBase + 2 ^ 26) :
    validate h = 0 := by
  obtain ⟨l, hl, hS, hlen⟩ := hI.exists_blocks
  have hpos := hI.chain.tiling.lo_pos
  have hle := hI.chain.le_hi hI.chain.tiling.lo_mem
  rw [validate, if_neg (by simp only [hI.initialized, hI.head]; simp; omega),
    if_neg (not_not.2 hI.head)]
  exact validateLoop_eq_zero hI.chain hl (fun a ha ↦ (hS a).1 ha) (by omega)

/-! ## Statistics -/

/-- The bytes that have been counted. -/
def Stats.sum (out : Stats) : ℕ := out.usedBytes + out.freeBytes + headerSize * out.blockCount

theorem Stats.sum_add {out : Stats} (hlt : out.sum + 48 + fld m a .size < 2 ^ 64) :
    (out.add m a).sum = out.sum + 48 + fld m a .size := by
  rw [Stats.sum] at hlt
  simp only [headerSize] at hlt
  by_cases hfree : fld m a .free ≠ 0
  · simp only [Stats.sum, Stats.add, if_pos hfree, headerSize]
    omega
  · simp only [Stats.sum, Stats.add, if_neg hfree, headerSize]
    omega

theorem Stats.largestFree_add {out : Stats} :
    (out.add m a).largestFree < w ↔
      out.largestFree < w ∧ (fld m a .free ≠ 0 → fld m a .size < w) := by
  by_cases hfree : fld m a .free ≠ 0
  · simp only [Stats.add, if_pos hfree]
    split <;> constructor <;> intro hlt <;> grind
  · simp only [Stats.add, if_neg hfree]
    exact ⟨fun hlt ↦ ⟨hlt, fun hc ↦ absurd hc hfree⟩, And.left⟩

theorem Stats.totalBytes_add {out : Stats} : (out.add m a).totalBytes = out.totalBytes := by
  rw [Stats.add]
  split <;> rfl

/-- The loop of `kmem_get_stats` counts every byte of the blocks once. -/
theorem statsLoop_spec {l : List ℕ} {blocks prev cur pos : ℕ} {out : Stats}
    (hl : Blocks m hi prev cur pos l) (hlen : l.length < blocks)
    (hlt : out.sum + (hi - pos) < 2 ^ 64) :
    ∃ out', statsLoop m blocks out cur = some out' ∧ out'.totalBytes = out.totalBytes ∧
      out'.sum = out.sum + (hi - pos) ∧
      ∀ w, out'.largestFree < w ↔
        out.largestFree < w ∧ ∀ a ∈ l, fld m a .free ≠ 0 → fld m a .size < w := by
  induction l generalizing blocks prev cur pos out with
  | nil =>
    obtain ⟨rfl, rfl⟩ := hl
    obtain ⟨blocks, rfl⟩ : ∃ k, blocks = k + 1 := ⟨blocks - 1, by omega⟩
    exact ⟨out, by rw [statsLoop, if_pos rfl], rfl, by simp, by simp⟩
  | cons a l ih =>
    obtain ⟨rfl, h0, rfl, -, -, hl⟩ := hl
    obtain ⟨blocks, rfl⟩ : ∃ k, blocks = k + 1 := ⟨blocks - 1, by omega⟩
    have hle := hl.le
    simp only [headerSize, List.length_cons] at hle hlen
    have hsum : (out.add m cur).sum = out.sum + 48 + fld m cur .size := Stats.sum_add (by omega)
    have hlen : l.length < blocks := by omega
    have hlt : (out.add m cur).sum + (hi - (cur + headerSize + fld m cur .size)) < 2 ^ 64 := by
      simp only [headerSize]
      omega
    obtain ⟨out', heq, htotal, hsum', hlargest⟩ := ih hl hlen hlt
    refine ⟨out', by rw [statsLoop, if_neg h0, heq], htotal.trans Stats.totalBytes_add, ?_,
      fun w ↦ ?_⟩
    · simp only [headerSize] at hsum'
      omega
    · rw [hlargest, Stats.largestFree_add, List.forall_mem_cons, and_assoc]

theorem getStats_spec (hI : Inv h S live) {l : List ℕ}
    (hl : Blocks h.mem h.heapEnd 0 h.head h.heapBase l) (hlen : l.length < 2 ^ 64) :
    ∃ stats, getStats h = some stats ∧ stats.totalBytes = h.heapEnd - h.heapBase ∧
      stats.sum = stats.totalBytes ∧
      ∀ w, 0 < w → (stats.largestFree < w ↔
        ∀ a ∈ l, fld h.mem a .free ≠ 0 → fld h.mem a .size < w) := by
  have hle := hl.le
  have hlt := hI.chain.hi_lt
  have htotal : (h.heapEnd + 2 ^ 64 - h.heapBase) % 2 ^ 64 = h.heapEnd - h.heapBase := by omega
  have hstart : (⟨h.heapEnd - h.heapBase, 0, 0, 0, 0, 0⟩ : Stats).sum
      + (h.heapEnd - h.heapBase) < 2 ^ 64 := by
    simp only [Stats.sum]
    omega
  obtain ⟨stats, heq, htot, hsum, hlargest⟩ := statsLoop_spec hl hlen hstart
  refine ⟨stats, ?_, htot, ?_, fun w hw ↦ ?_⟩
  · rw [getStats, if_neg (by simp [hI.initialized]), htotal, heq]
  · rw [hsum, htot]
    simp [Stats.sum]
  · rw [hlargest]
    exact ⟨And.right, fun hall ↦ ⟨hw, hall⟩⟩

/-! ## The bounds of the heap -/

/-- The heap has the same bounds. -/
def SameBounds (h h' : Heap) : Prop := h'.heapBase = h.heapBase ∧ h'.heapEnd = h.heapEnd

theorem alloc_bounds (hcall : alloc n h = some (p, h')) : SameBounds h h' := by
  rw [alloc] at hcall
  split at hcall
  · cases hcall
    exact ⟨rfl, rfl⟩
  · dsimp only at hcall
    split at hcall
    · cases hcall
      exact ⟨rfl, rfl⟩
    · obtain ⟨r, -, heq⟩ := Option.map_eq_some_iff.1 hcall
      cases heq
      exact ⟨rfl, rfl⟩

theorem calloc_bounds {count bytes : ℕ} (hcall : calloc count bytes h = some (p, h')) :
    SameBounds h h' := by
  rw [calloc] at hcall
  split at hcall
  · cases hcall
    exact ⟨rfl, rfl⟩
  · obtain ⟨⟨q, h₁⟩, halloc, heq⟩ := Option.map_eq_some_iff.1 hcall
    have hsame := alloc_bounds halloc
    dsimp only at heq
    split at heq <;> cases heq <;> exact hsame

theorem release_bounds {r : Int} (hI : Inv h S live) (hb : b ∈ S)
    (hcall : release b h = some (r, h')) : SameBounds h h' := by
  obtain ⟨m₂, S₂, -, ⟨-, m₃, S₃, -, heq⟩ | ⟨-, heq⟩⟩ := release_cases hI hb <;>
  · cases heq.symm.trans hcall
    exact ⟨rfl, rfl⟩

/-- Where `kmem_init` puts the heap. -/
theorem init_bounds {base bytes : ℕ} {h₀ : Heap} (hinit : init base bytes h₀ = (0, h)) :
    h.heapBase = alignUpPtr base align ∧
      h.heapEnd = (alignUpPtr base align +
        ((bytes - (alignUpPtr base align - base)) &&& (2 ^ 64 - 1 - (align - 1)))) % 2 ^ 64 := by
  obtain ⟨start, usable, hi⟩ := exists_initializedAt hinit
  rw [hi.base_eq, hi.end_eq, hi.usable_eq, hi.start_eq]
  exact ⟨rfl, rfl⟩

/-- All heaps that are reached have the bounds that they got first. -/
theorem Reaches.sameBounds {base bytes : ℕ} (harena : IsArena base bytes)
    (hr : Reaches base bytes h live) {h₀ h₁ : Heap}
    (hinit : Kmem.init base bytes h₀ = (0, h₁)) : SameBounds h₁ h := by
  induction hr with
  | init hinit' =>
    obtain ⟨h1, h2⟩ := init_bounds hinit
    obtain ⟨h1', h2'⟩ := init_bounds hinit'
    exact ⟨h1'.trans h1.symm, h2'.trans h2.symm⟩
  | alloc hr n hn hcall ih =>
    exact ⟨(alloc_bounds hcall).1.trans ih.1, (alloc_bounds hcall).2.trans ih.2⟩
  | calloc hr count size _ _ hcall ih =>
    exact ⟨(calloc_bounds hcall).1.trans ih.1, (calloc_bounds hcall).2.trans ih.2⟩
  | freeChecked hr hp hcall ih =>
    obtain ⟨S, hI⟩ := hr.inv harena
    obtain ⟨a, ha, rfl, hused, -⟩ := hI.owns.block _ _ hp
    rw [freeChecked_eq hI ha hused] at hcall
    have hsame := release_bounds hI ha hcall
    exact ⟨hsame.1.trans ih.1, hsame.2.trans ih.2⟩
  | write hr m hm ih => exact ih

/-- An arena of moderate size is apart from the static variables. -/
theorem isArena_of_le {base bytes : ℕ} (hfits : base + bytes ≤ 2 ^ 64) (hbytes : bytes ≤ 2 ^ 26) :
    IsArena base bytes := by
  refine ⟨hfits, ?_⟩
  by_cases hbase : 28 ≤ base
  · exact ⟨0, by decide, .inl hbase⟩
  · exact ⟨base + bytes, by omega, .inr le_rfl⟩

theorem Reaches.exists_init {base bytes : ℕ} (hr : Reaches base bytes h live) :
    ∃ h₀ h₁, Kmem.init base bytes h₀ = (0, h₁) := by
  induction hr with
  | init hinit => exact ⟨_, _, hinit⟩
  | alloc _ _ _ _ ih => exact ih
  | calloc _ _ _ _ _ _ ih => exact ih
  | freeChecked _ _ _ ih => exact ih
  | write _ _ _ ih => exact ih

theorem Reaches.size_le {base bytes : ℕ} (harena : IsArena base bytes)
    (hr : Reaches base bytes h live) : h.heapEnd ≤ h.heapBase + bytes := by
  obtain ⟨h₀, h₁, hinit⟩ := hr.exists_init
  obtain ⟨hbase, hend⟩ := hr.sameBounds harena hinit
  obtain ⟨h1, h2⟩ := init_bounds hinit
  rw [hbase, hend, h2, h1]
  calc _ ≤ _ := Nat.mod_le _ _
    _ ≤ alignUpPtr base align + (bytes - (alignUpPtr base align - base)) :=
      Nat.add_le_add_left Nat.and_le_left _
    _ ≤ alignUpPtr base align + bytes := Nat.add_le_add_left (Nat.sub_le _ _) _

/-! ## The result -/

/-- The size that a request is rounded up to, if it is below 2^64. -/
def ceil16 (n : ℕ) : ℕ := (n + 15) / 16 * 16

theorem roundUp_eq_zero_iff (hn : 0 < n) (hlt : n < 2 ^ 64) :
    roundUp n = 0 ↔ 2 ^ 64 ≤ ceil16 n := by
  rw [roundUp, ceil16]
  split <;> omega

/-- `kmem_alloc` fails exactly if there is no free block that is large enough. -/
theorem alloc_eq_null_iff (hI : Inv h S live) (hn : 0 < n) (hlt : n < 2 ^ 64) :
    ∃ p h', alloc n h = some (p, h') ∧
      (p = 0 ↔ 2 ^ 64 ≤ ceil16 n ∨
        ∀ b ∈ S, fld h.mem b .free ≠ 0 → fld h.mem b .size < ceil16 n) := by
  rw [← roundUp_eq_zero_iff hn hlt]
  rcases alloc_cases hI hn.ne' with ⟨hall, heq⟩ | ⟨hw, b, hb, hfree, hle, heq⟩
  · refine ⟨0, h, heq, fun _ ↦ ?_, fun _ ↦ rfl⟩
    by_cases hw : roundUp n = 0
    · exact .inl hw
    · exact .inr fun b hb hfree ↦ (hall.resolve_left hw b hb hfree).trans_eq (roundUp_spec hw)
  · refine ⟨b + 48, _, heq, fun h0 ↦ by omega, ?_⟩
    rintro (h0 | hall)
    · exact absurd h0 hw
    · have := hall b hb hfree
      have : roundUp n = ceil16 n := roundUp_spec hw
      omega

/-- A chain of a single block. -/
theorem Chain.size_of_singleton (hC : Chain m lo hi {lo}) :
    lo + 48 + fld m lo .size = hi := by
  refine hC.tiling.eq_hi_of_next rfl ?_
  by_contra h0
  obtain ⟨hmem, he⟩ := hC.next_eq rfl h0
  rw [Set.mem_singleton_iff.1 hmem] at he
  omega

/-- **The heap is tiled by its blocks, and free blocks coalesce.**  After any calls on an arena of
at most 64 MiB, the blocks from `g_head` on tile the heap and no two neighbours are free;
`kmem_validate` agrees, and the statistics account for every byte.  A request fails only if there
is no free block that is large enough, and once nothing is live, the heap is a single free block,
as it was in the beginning. -/
theorem heap_tiled {base bytes : ℕ} (hfits : base + bytes ≤ 2 ^ 64) (hbytes : bytes ≤ 2 ^ 26)
    (hr : Reaches base bytes h live) :
    ∃ l stats, Blocks h.mem h.heapEnd 0 h.head h.heapBase l ∧
      (l.IsChain fun a b ↦ fld h.mem a .free = 0 ∨ fld h.mem b .free = 0) ∧
      validate h = 0 ∧
      getStats h = some stats ∧ stats.totalBytes = h.heapEnd - h.heapBase ∧
      stats.usedBytes + stats.freeBytes + 48 * stats.blockCount = stats.totalBytes ∧
      (∀ n, 0 < n → n < 2 ^ 64 → ∃ p h', alloc n h = some (p, h') ∧
        (p = 0 ↔ 2 ^ 64 ≤ ceil16 n ∨ stats.largestFree < ceil16 n)) ∧
      (live = ∅ → l = [h.head] ∧ fld h.mem h.head .free ≠ 0 ∧
        ∀ h₀ h₁, Kmem.init base bytes h₀ = (0, h₁) →
          h.head = h₁.head ∧ fld h.mem h.head .size = fld h₁.mem h₁.head .size) := by
  have harena := isArena_of_le hfits hbytes
  obtain ⟨S, hI⟩ := hr.inv harena
  have hF := hr.freeApart harena hI
  obtain ⟨l, hl, hS, hlen⟩ := hI.exists_blocks
  have hsize := hr.size_le harena
  obtain ⟨stats, hstats, htotal, hsum, hlargest⟩ := getStats_spec hI hl (by omega)
  refine ⟨l, stats, hl, hl.isChain fun a ha ↦ hF a ((hS a).1 ha),
    hI.validate_eq_zero (by omega), hstats, htotal, hsum, fun n hn hn64 ↦ ?_, ?_⟩
  · obtain ⟨p, h', heq, hnull⟩ := alloc_eq_null_iff hI hn hn64
    refine ⟨p, h', heq, ?_⟩
    rw [hnull, hlargest _ (by rw [ceil16]; omega)]
    exact or_congr_right
      ⟨fun hall a ha ↦ hall a ((hS a).1 ha), fun hall a ha ↦ hall a ((hS a).2 ha)⟩
  · rintro rfl
    obtain ⟨hone, hfree, hnext⟩ := hI.eq_singleton hF
    rw [hI.head]
    refine ⟨?_, hfree, fun h₀ h₁ hinit ↦ ?_⟩
    · cases l with
      | nil => exact absurd ((hS _).2 hI.chain.tiling.lo_mem) List.not_mem_nil
      | cons a l =>
        obtain ⟨hcur, -, -, -, -, hrest⟩ := hl
        rw [← hcur, hI.head, hnext] at hrest
        cases l with
        | nil => rw [← hcur, hI.head]
        | cons b l => exact absurd hrest.1.symm hrest.2.1
    · have hI₁ := init_spec harena hinit
      obtain ⟨hbase, hend⟩ := hr.sameBounds harena hinit
      have h1 := hI₁.chain.size_of_singleton
      have h2 := (hone ▸ hI.chain).size_of_singleton
      rw [hI₁.head]
      refine ⟨hbase, ?_⟩
      omega

/-- After two requests and a free, which leaves a gap in front of the range that is still live. -/
theorem heap_tiled_smallHeap : ∃ h l stats, Reaches 4096 1024 h {(4304, 200)} ∧
    Blocks h.mem h.heapEnd 0 h.head h.heapBase l ∧ validate h = 0 ∧ getStats h = some stats ∧
    stats.usedBytes + stats.freeBytes + 48 * stats.blockCount = stats.totalBytes := by
  obtain ⟨h, hr⟩ := reaches_smallHeap_calls
  obtain ⟨l, stats, hl, -, hvalid, hstats, -, hsum, -⟩ := heap_tiled (by decide) (by decide) hr
  exact ⟨h, l, stats, hr, hl, hvalid, hstats, hsum⟩

end Kmem
end Mcsos
