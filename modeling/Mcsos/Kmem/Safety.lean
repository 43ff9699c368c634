import Mcsos.Kmem.Calls

/-!
# Safety of the heap

The ranges that the allocator has handed out and not taken back are called live.  Each of them is
in a block of its own that is not free (`Owns`), so the ranges do not overlap, nor do they overlap
with a header.  All calls keep this, and none of them writes to a live range that it is not about.
-/

set_option autoImplicit false

namespace Mcsos
namespace Kmem

/-- Pointers with the sizes that were asked for. -/
abbrev Ranges : Type := Set (ℕ × ℕ)

variable {m m' : Mem} {h h' : Heap} {a b i n p w lo hi : ℕ} {S S' : Set ℕ} {live : Ranges}

/-! ## The invariant -/

/-- The live ranges and the blocks that are not free belong together. -/
structure Owns (m : Mem) (S : Set ℕ) (live : Ranges) : Prop where
  block : ∀ p n, (p, n) ∈ live →
    ∃ a ∈ S, p = a + 48 ∧ fld m a .free = 0 ∧ 0 < n ∧ n ≤ fld m a .size
  used : ∀ a ∈ S, fld m a .free = 0 → ∃ n, (a + 48, n) ∈ live
  unique : ∀ p n n', (p, n) ∈ live → (p, n') ∈ live → n = n'

/-- The bytes of the live ranges are the same in both memories. -/
def SameOn (live : Ranges) (m m' : Mem) : Prop :=
  ∀ p n, (p, n) ∈ live → ∀ i, p ≤ i → i < p + n → m' i = m i

/-- An initialized heap with the headers `S` and the live ranges `live`. -/
structure Inv (h : Heap) (S : Set ℕ) (live : Ranges) : Prop where
  initialized : h.initialized = true
  head : h.head = h.heapBase
  room : h.heapEnd + 48 ≤ h.heapBase + 2 ^ 64
  chain : Chain h.mem h.heapBase h.heapEnd S
  owns : Owns h.mem S live

theorem Owns.sameOn (ho : Owns m S live) (hsame : ∀ a ∈ S, fld m a .free = 0 → ∀ i, a + 48 ≤ i →
    i < a + 48 + fld m a .size → m' i = m i) : SameOn live m m' := by
  intro p n hp i h1 h2
  obtain ⟨a, ha, rfl, hfree, -, hle⟩ := ho.block p n hp
  exact hsame a ha hfree i h1 (by omega)

theorem SameOn.trans {m'' : Mem} (h₁ : SameOn live m m') (h₂ : SameOn live m' m'') :
    SameOn live m m'' := fun p n hp i h1 h2 ↦ (h₂ p n hp i h1 h2).trans (h₁ p n hp i h1 h2)

/-! ## Taking a block -/

/-- The block `b` has been taken, after what is not needed of it has been split off. -/
structure Taken (lo hi : ℕ) (m : Mem) (S : Set ℕ) (b w : ℕ) (m' : Mem) (S' : Set ℕ) : Prop where
  chain : Chain m' lo hi S'
  subset : S ⊆ S'
  new_free : ∀ a ∈ S', a ∉ S → fld m' a .free ≠ 0
  self_free : fld m' b .free = 0
  self_size : w ≤ fld m' b .size
  other : ∀ a ∈ S, a ≠ b → fld m' a .free = fld m a .free ∧ fld m' a .size = fld m a .size
  payload : ∀ a ∈ S, a ≠ b → ∀ i, a + 48 ≤ i → i < a + 48 + fld m a .size → m' i = m i

/-- Marking a block as free or used leaves the chain alone. -/
theorem Chain.setFree (hC : Chain m lo hi S) (hb : b ∈ S) (v : ℕ) :
    Chain (setFld b .free v m) lo hi S := by
  refine hC.congr fun a ha f hf ↦ ?_
  by_cases hab : a = b
  · rw [hab, fld_setFld_of_ne hf]
  · exact fld_setFld_of_apart (hC.tiling.header_apart ha hb hab)

theorem taken_spec (hC : Chain m lo hi S) (hb : b ∈ S) (hw : 16 ∣ w) (hw0 : 0 < w)
    (hle : w ≤ fld m b .size) (hroom : hi + 48 ≤ lo + 2 ^ 64) :
    ∃ S', Taken lo hi m S b w (setFld b .free 0 (splitIfUseful hi b w m)) S' := by
  rw [splitIfUseful_eq hC hb hw hle hroom]
  by_cases hsplit : w + 80 < fld m b .size
  · rw [if_pos hsplit]
    have hfit : w + 48 < fld m b .size := by omega
    have hC' := hC.split hb hfit hw hw0
    have hlt := hC.lt_word hb
    have hb' : b ∈ insert (b + 48 + w) S := .inr hb
    refine ⟨insert (b + 48 + w) S, hC'.setFree hb' 0, fun a ha ↦ .inr ha, ?_,
      fld_setFld_free (by decide), ?_, fun a ha hab ↦ ?_, fun a ha hab i h1 h2 ↦ ?_⟩
    · rintro a (rfl | ha) hnot
      · rw [fld_setFld_of_apart (by omega), fld_split_new (by omega) (hC.split_next_le hb hfit)
          (hC.split_new_lt hb hfit)]
        exact Nat.one_ne_zero
      · exact absurd ha hnot
    · rw [fld_setFld_of_ne (by decide), fld_split_self (by omega) (hC.split_next_le hb hfit)
        (hC.split_new_lt hb hfit) (by omega)]
    · have hapart := hC.tiling.header_apart ha hb hab
      rw [fld_setFld_of_apart hapart, fld_setFld_of_apart hapart, hC.fld_free_split hb hfit ha,
        hC.fld_split_of_ne hb hfit ha hab (by exact fun _ ↦ nofun)]
      exact ⟨rfl, rfl⟩
    · rw [setFld_of_not_mem (hC.payload_apart ha hb h1 h2), hC.split_payload hb hfit ha hab h1 h2]
  · rw [if_neg hsplit]
    refine ⟨S, hC.setFree hb 0, le_rfl, fun a ha hnot ↦ absurd ha hnot, fld_setFld_free (by decide),
      ?_, fun a ha hab ↦ ?_, fun a ha hab i h1 h2 ↦ ?_⟩
    · rwa [fld_setFld_of_ne (by decide)]
    · have hapart := hC.tiling.header_apart ha hb hab
      rw [fld_setFld_of_apart hapart, fld_setFld_of_apart hapart]
      exact ⟨rfl, rfl⟩
    · exact setFld_of_not_mem (hC.payload_apart ha hb h1 h2)

/-- No live range starts in a free block. -/
theorem Owns.not_mem_of_free (ho : Owns m S live) (hfree : fld m b .free ≠ 0) (k : ℕ) :
    (b + 48, k) ∉ live := by
  intro hp
  obtain ⟨a, -, he, hused, -⟩ := ho.block _ _ hp
  obtain rfl : a = b := by omega
  exact hfree hused

/-- A block that was free and has been taken is a new live range. -/
theorem Owns.taken (ho : Owns m S live) (hfree : fld m b .free ≠ 0) (hb : b ∈ S) (hn : 0 < n)
    (hnw : n ≤ w) (ht : Taken lo hi m S b w m' S') : Owns m' S' (insert (b + 48, n) live) := by
  have hold : ∀ {p k}, (p, k) ∈ live → p ≠ b + 48 := by
    rintro p k hp rfl
    exact ho.not_mem_of_free hfree k hp
  refine ⟨?_, fun a ha hused ↦ ?_, ?_⟩
  · rintro p k (he | hp)
    · cases he
      exact ⟨b, ht.subset hb, rfl, ht.self_free, hn, hnw.trans ht.self_size⟩
    · obtain ⟨a, ha, rfl, hused, hk, hle⟩ := ho.block p k hp
      have hab : a ≠ b := fun he ↦ hfree (he ▸ hused)
      obtain ⟨hfree', hsize'⟩ := ht.other a ha hab
      exact ⟨a, ht.subset ha, rfl, hfree'.trans hused, hk, hsize'.symm ▸ hle⟩
  · by_cases hab : a = b
    · exact ⟨n, .inl (by rw [hab])⟩
    · have haS : a ∈ S := by_contra fun hnot ↦ ht.new_free a ha hnot hused
      obtain ⟨k, hk⟩ := ho.used a haS ((ht.other a haS hab).1 ▸ hused)
      exact ⟨k, .inr hk⟩
  · rintro p k k' (he | hp) (he' | hp')
    · cases he
      cases he'
      rfl
    · cases he
      exact absurd rfl (hold hp')
    · cases he'
      exact absurd rfl (hold hp)
    · exact ho.unique p k k' hp hp'

/-- Rounding up to a positive multiple of 16, if there is one below 2^64. -/
theorem roundUp_spec (hw : roundUp n ≠ 0) : roundUp n = (n + 15) / 16 * 16 := by
  rw [roundUp] at hw ⊢
  split at hw
  · exact absurd rfl hw
  · rename_i hle
    rw [if_neg hle]

/-- What `kmem_alloc` does: it takes the first free block that is large enough, if there is one. -/
theorem alloc_cases (hI : Inv h S live) (hn : n ≠ 0) :
    (roundUp n = 0 ∨ ∀ b ∈ S, fld h.mem b .free ≠ 0 → fld h.mem b .size < roundUp n) ∧
      alloc n h = some (0, h) ∨
    roundUp n ≠ 0 ∧ ∃ b ∈ S, fld h.mem b .free ≠ 0 ∧ roundUp n ≤ fld h.mem b .size ∧
      alloc n h = some (b + 48,
        { h with mem := setFld b .free 0 (splitIfUseful h.heapEnd b (roundUp n) h.mem) }) := by
  rw [alloc, alignUpSize_eq, if_neg (by simp [hI.initialized, hn])]
  by_cases hw : roundUp n = 0
  · exact .inl ⟨.inl hw, by rw [if_pos hw]⟩
  dsimp only
  rw [if_neg hw]
  have hhead : h.head ∈ S := hI.head ▸ hI.chain.tiling.lo_mem
  have hlt : h.heapEnd - h.head < 2 ^ 64 := lt_of_le_of_lt (Nat.sub_le _ _) hI.chain.hi_lt
  rcases allocLoop_spec hI.chain h.heapEnd (roundUp n) hhead hlt with
    ⟨b, hb, hfree, hle, heq⟩ | ⟨hall, heq⟩
  · exact .inr ⟨hw, b, hb, hfree, hle, by rw [heq]; rfl⟩
  · refine .inl ⟨.inr fun b hb ↦ hall b hb ?_, by rw [heq]; rfl⟩
    exact hI.head ▸ hI.chain.tiling.ge b hb

/-- **Allocation.**  The call returns, with `NULL` or with a new live range, and changes no live
range. -/
theorem alloc_spec (hI : Inv h S live) (n : ℕ) :
    ∃ p h', alloc n h = some (p, h') ∧ SameOn live h.mem h'.mem ∧
      (p = 0 ∧ h' = h ∨
        p ≠ 0 ∧ (∀ k, (p, k) ∉ live) ∧ ∃ S', Inv h' S' (insert (p, n) live)) := by
  by_cases hn : n = 0
  · exact ⟨0, h, by rw [alloc, if_pos (.inr hn)], fun _ _ _ _ _ _ ↦ rfl, .inl ⟨rfl, rfl⟩⟩
  rcases alloc_cases hI hn with ⟨-, heq⟩ | ⟨hw, b, hb, hfree, hle, heq⟩
  · exact ⟨0, h, heq, fun _ _ _ _ _ _ ↦ rfl, .inl ⟨rfl, rfl⟩⟩
  have hround := roundUp_spec hw
  have hw16 : 16 ∣ roundUp n := ⟨_, by rw [hround, Nat.mul_comm]⟩
  obtain ⟨S', ht⟩ := taken_spec hI.chain hb hw16 (by omega) hle hI.room
  refine ⟨_, _, heq, hI.owns.sameOn fun a ha hused ↦ ?_,
    .inr ⟨by omega, hI.owns.not_mem_of_free hfree, S', ?_⟩⟩
  · exact ht.payload a ha fun he ↦ hfree (he ▸ hused)
  · exact ⟨hI.initialized, hI.head, hI.room, ht.chain,
      hI.owns.taken hfree hb (Nat.pos_of_ne_zero hn) (by omega) ht⟩

/-! ## Writes of the clients -/

theorem Owns.congr (ho : Owns m S live) (hf : ∀ a ∈ S, ∀ f, fld m' a f = fld m a f) :
    Owns m' S live := by
  refine ⟨fun p n hp ↦ ?_, fun a ha hused ↦ ?_, ho.unique⟩
  · obtain ⟨a, ha, rfl, hused, hn, hle⟩ := ho.block p n hp
    exact ⟨a, ha, rfl, by rw [hf a ha, hused], hn, by rwa [hf a ha]⟩
  · rw [hf a ha] at hused
    exact ho.used a ha hused

/-- A live range does not meet a header. -/
theorem Inv.header_apart (hI : Inv h S live) (hp : (p, n) ∈ live) (ha : a ∈ S) :
    a + 48 ≤ p ∨ p + n ≤ a := by
  obtain ⟨b, hb, rfl, -, -, hle⟩ := hI.owns.block p n hp
  by_cases hab : a = b
  · exact .inl (by rw [hab])
  · have := hI.chain.apart ha hb hab
    omega

/-- Two live ranges do not meet. -/
theorem Inv.disjoint (hI : Inv h S live) {q k : ℕ} (hp : (p, n) ∈ live) (hq : (q, k) ∈ live)
    (hne : p ≠ q) : p + n ≤ q ∨ q + k ≤ p := by
  obtain ⟨a, ha, rfl, -, -, hle⟩ := hI.owns.block p n hp
  obtain ⟨b, hb, rfl, -, -, hle'⟩ := hI.owns.block q k hq
  have := hI.chain.apart ha hb fun hab ↦ hne (by rw [hab])
  omega

/-- Live ranges are in the heap, at aligned addresses. -/
theorem Inv.inside (hI : Inv h S live) (hp : (p, n) ∈ live) :
    16 ∣ p ∧ h.heapBase ≤ p ∧ p + n ≤ h.heapEnd := by
  obtain ⟨a, ha, rfl, -, -, hle⟩ := hI.owns.block p n hp
  have h1 := hI.chain.aligned a ha
  have h2 := hI.chain.tiling.ge a ha
  have h3 := hI.chain.le_hi ha
  omega

/-- Headers are not where those who use the heap may write. -/
theorem Inv.fld_write (hI : Inv h S live) (hm : ∀ i, h.heapBase ≤ i → i < h.heapEnd →
    (∀ p n, (p, n) ∈ live → i < p ∨ p + n ≤ i) → m' i = h.mem i) (ha : a ∈ S) (f : Field) :
    fld m' a f = fld h.mem a f := by
  have h1 := hI.chain.tiling.ge a ha
  have h2 := hI.chain.le_hi ha
  refine fld_congr fun i hi hi' ↦ hm i (by omega) (by omega) fun p n hp ↦ ?_
  have := hI.header_apart hp ha
  omega

/-- Those who use the heap may write to the live ranges, and anybody outside of the heap. -/
theorem Inv.write (hI : Inv h S live) (hm : ∀ i, h.heapBase ≤ i → i < h.heapEnd →
    (∀ p n, (p, n) ∈ live → i < p ∨ p + n ≤ i) → m' i = h.mem i) :
    Inv { h with mem := m' } S live :=
  ⟨hI.initialized, hI.head, hI.room, hI.chain.congr fun _ ha f _ ↦ hI.fld_write hm ha f,
    hI.owns.congr fun _ ha f ↦ hI.fld_write hm ha f⟩

theorem memset_apply (m : Mem) (dst : ℕ) (v : UInt8) (n i : ℕ) :
    memset m dst v n i = if dst ≤ i ∧ i < dst + n then v else m i := by
  induction n generalizing m dst with
  | zero => rw [memset, if_neg (by omega)]
  | succ n ih =>
    rw [memset, ih]
    by_cases hi : i = dst
    · subst hi
      rw [Function.update_self, if_pos (by omega : i ≤ i ∧ i < i + (n + 1)), ite_self]
    · rw [Function.update_of_ne hi]
      exact if_congr (by omega) rfl rfl

/-- **Allocation of zeroed memory.** -/
theorem calloc_spec (hI : Inv h S live) (count bytes : ℕ) :
    ∃ p h', calloc count bytes h = some (p, h') ∧ SameOn live h.mem h'.mem ∧
      (2 ^ 64 ≤ count * bytes → p = 0) ∧ (p = 0 ∧ h' = h ∨
        p ≠ 0 ∧ (∀ k, (p, k) ∉ live) ∧ (∃ S', Inv h' S' (insert (p, count * bytes) live)) ∧
          ∀ i, p ≤ i → i < p + count * bytes → h'.mem i = 0) := by
  rw [calloc]
  have hiff : count ≠ 0 ∧ (2 ^ 64 - 1) / count < bytes ↔ 2 ^ 64 ≤ count * bytes := by
    constructor
    · rintro ⟨h0, hlt⟩
      rw [Nat.div_lt_iff_lt_mul (Nat.pos_of_ne_zero h0), Nat.mul_comm] at hlt
      omega
    · intro hle
      have h0 : count ≠ 0 := by rintro rfl; omega
      rw [Nat.div_lt_iff_lt_mul (Nat.pos_of_ne_zero h0), Nat.mul_comm]
      exact ⟨h0, by omega⟩
  by_cases hbig : 2 ^ 64 ≤ count * bytes
  · exact ⟨0, h, by rw [if_pos (hiff.2 hbig)], fun _ _ _ _ _ _ ↦ rfl, fun _ ↦ rfl, .inl ⟨rfl, rfl⟩⟩
  rw [if_neg fun hc ↦ hbig (hiff.1 hc)]
  dsimp only
  rw [Nat.mod_eq_of_lt (not_le.1 hbig)]
  obtain ⟨p, h₁, heq, hsame, ⟨rfl, rfl⟩ | ⟨hp, hnew, S', hI'⟩⟩ := alloc_spec hI (count * bytes)
  · exact ⟨0, h₁, by rw [heq]; rfl, hsame, fun hc ↦ absurd hc hbig, .inl ⟨rfl, rfl⟩⟩
  have hmem := memset_apply h₁.mem p 0 (count * bytes)
  refine ⟨p, { h₁ with mem := memset h₁.mem p 0 (count * bytes) }, ?_, hsame.trans ?_,
    fun hc ↦ absurd hc hbig, .inr ⟨hp, hnew, ⟨S', hI'.write fun i _ _ hi ↦ ?_⟩,
      fun i h1 h2 ↦ ?_⟩⟩
  · rw [heq, Option.map_some, if_pos hp]
  · intro q k hq i h1 h2
    have hne : q ≠ p := by rintro rfl; exact hnew k hq
    have := hI'.disjoint (.inr hq) (.inl rfl) hne
    exact (hmem i).trans (if_neg (by omega))
  · have := hi p (count * bytes) (.inl rfl)
    exact (hmem i).trans (if_neg (by omega))
  · exact (hmem i).trans (if_pos ⟨h1, h2⟩)

/-- What `kmem_calloc` does: an allocation, with zeros stored in what was allocated. -/
theorem calloc_cases {count bytes : ℕ} (hI : Inv h S live)
    (hcall : calloc count bytes h = some (p, h')) :
    h' = h ∨ ∃ n h₁ S₁, alloc n h = some (p, h₁) ∧ Inv h₁ S₁ (insert (p, n) live) ∧
      h' = { h₁ with mem := memset h₁.mem p 0 n } := by
  rw [calloc] at hcall
  split at hcall
  · cases hcall
    exact .inl rfl
  obtain ⟨⟨q, h₁⟩, halloc, heq⟩ := Option.map_eq_some_iff.1 hcall
  obtain ⟨q', h₁', he, -, hcase⟩ := alloc_spec hI (count * bytes % 2 ^ 64)
  cases he.symm.trans halloc
  dsimp only at heq
  rcases hcase with ⟨rfl, rfl⟩ | ⟨hq, -, S₁, hI₁⟩
  · rw [if_neg (not_not.2 rfl)] at heq
    cases heq
    exact .inl rfl
  · rw [if_pos hq] at heq
    cases heq
    exact .inr ⟨_, h₁, S₁, halloc, hI₁, rfl⟩

/-- Storing zeros in a live range is a write of its owner. -/
theorem memset_of_not_mem (hp : (p, n) ∈ live)
    (hi : ∀ q k, (q, k) ∈ live → i < q ∨ q + k ≤ i) : memset m p 0 n i = m i := by
  have := hi p n hp
  rw [memset_apply, if_neg (by omega)]

/-! ## Giving a block back -/

/-- Merging free blocks is of no concern to the live ranges. -/
theorem Owns.coalesced (ho : Owns m S live) (hfree : fld m b .free ≠ 0)
    (hco : Coalesced lo hi m S b m' S') : Owns m' S' live ∧ SameOn live m m' := by
  have hne : ∀ a, fld m a .free = 0 → a ≠ b := by
    rintro a hused rfl
    exact hfree hused
  refine ⟨⟨fun p n hp ↦ ?_, fun a ha hused ↦ ?_, ho.unique⟩,
    ho.sameOn fun a ha _ ↦ hco.payload a ha⟩
  · obtain ⟨a, ha, rfl, hused, hn, hle⟩ := ho.block p n hp
    have haS := hco.used a ha hused
    refine ⟨a, haS, rfl, (hco.free_eq a haS).trans hused, hn, ?_⟩
    rwa [hco.size_eq a haS (hne a hused)]
  · exact ho.used a (hco.subset ha) ((hco.free_eq a ha) ▸ hused)

/-- A block that is marked as free is no live range any more. -/
theorem Owns.setFree (ho : Owns m S live) (hC : Chain m lo hi S) (hb : b ∈ S)
    (hp : (b + 48, n) ∈ live) : Owns (setFld b .free 1 m) S (live \ {(b + 48, n)}) ∧
      SameOn live m (setFld b .free 1 m) := by
  have hother : ∀ a ∈ S, a ≠ b → ∀ f, fld (setFld b .free 1 m) a f = fld m a f :=
    fun a ha hab f ↦ fld_setFld_of_apart (hC.tiling.header_apart ha hb hab)
  have hself : fld (setFld b .free 1 m) b .free = 1 := fld_setFld_free (by decide)
  refine ⟨⟨?_, fun a ha hused ↦ ?_, fun p k k' hk hk' ↦ ho.unique p k k' hk.1 hk'.1⟩,
    ho.sameOn fun a ha _ i h1 h2 ↦ setFld_of_not_mem (hC.payload_apart ha hb h1 h2)⟩
  · rintro p k ⟨hk, hne⟩
    obtain ⟨a, ha, rfl, hused, hk0, hle⟩ := ho.block p k hk
    have hab : a ≠ b := by
      rintro rfl
      exact hne (by rw [ho.unique _ k n hk hp]; rfl)
    exact ⟨a, ha, rfl, by rw [hother a ha hab, hused], hk0, by rwa [hother a ha hab]⟩
  · have hab : a ≠ b := by
      rintro rfl
      rw [hself] at hused
      cases hused
    rw [hother a ha hab] at hused
    obtain ⟨k, hk⟩ := ho.used a ha hused
    exact ⟨k, hk, fun he ↦ hab (by cases he; omega)⟩

theorem SameOn.mono {live' : Ranges} (hsub : live' ⊆ live) (h : SameOn live m m') :
    SameOn live' m m' := fun p n hp ↦ h p n (hsub hp)

/-- What `kmem_free_checked` does behind its checks: the free blocks behind `b` are merged into it,
and then `b` and those behind it into the block in front if that is free. -/
theorem release_cases (hI : Inv h S live) (hb : b ∈ S) :
    ∃ m₂ S₂, Coalesced h.heapBase h.heapEnd (setFld b .free 1 h.mem) S b m₂ S₂ ∧
      ((fld m₂ b .prev ≠ 0 ∧ fld m₂ (fld m₂ b .prev) .free ≠ 0) ∧
        (∃ m₃ S₃, Coalesced h.heapBase h.heapEnd m₂ S₂ (fld m₂ b .prev) m₃ S₃ ∧
          release b h = some (validate { h with mem := m₃ }, { h with mem := m₃ })) ∨
      ¬ (fld m₂ b .prev ≠ 0 ∧ fld m₂ (fld m₂ b .prev) .free ≠ 0) ∧
        release b h = some (validate { h with mem := m₂ }, { h with mem := m₂ })) := by
  have hC₁ := hI.chain.setFree hb 1
  have hrounds : ∀ x, h.heapEnd - x < 2 ^ 64 := fun x ↦
    lt_of_le_of_lt (Nat.sub_le _ _) hI.chain.hi_lt
  obtain ⟨m₂, S₂, heq₂, hco₂⟩ := coalesceForward_spec hC₁ hb (hrounds _)
  refine ⟨m₂, S₂, hco₂, ?_⟩
  rw [release]
  dsimp only
  rw [heq₂, Option.bind_eq_bind, Option.bind_some]
  by_cases hprev : fld m₂ b .prev ≠ 0 ∧ fld m₂ (fld m₂ b .prev) .free ≠ 0
  · have hpS : fld m₂ b .prev ∈ S₂ := (hco₂.chain.tiling.prev_mem hco₂.self hprev.1).1
    obtain ⟨m₃, S₃, heq₃, hco₃⟩ := coalesceForward_spec hco₂.chain hpS (hrounds _)
    rw [if_pos hprev, heq₃]
    exact .inl ⟨hprev, m₃, S₃, hco₃, rfl⟩
  · rw [if_neg hprev]
    exact .inr ⟨hprev, rfl⟩

theorem release_spec (hI : Inv h S live) (hb : b ∈ S) (hp : (b + 48, n) ∈ live) :
    ∃ r h' S', release b h = some (r, h') ∧ Inv h' S' (live \ {(b + 48, n)}) ∧
      SameOn (live \ {(b + 48, n)}) h.mem h'.mem := by
  obtain ⟨ho₁, hs₁⟩ := hI.owns.setFree hI.chain hb hp
  have hfree₁ : fld (setFld b .free 1 h.mem) b .free ≠ 0 := by
    rw [fld_setFld_free (by decide)]
    exact Nat.one_ne_zero
  obtain ⟨m₂, S₂, hco₂, hcase⟩ := release_cases hI hb
  obtain ⟨ho₂, hs₂⟩ := ho₁.coalesced hfree₁ hco₂
  have hs₁₂ := (hs₁.mono Set.sdiff_subset).trans hs₂
  rcases hcase with ⟨hprev, m₃, S₃, hco₃, heq⟩ | ⟨-, heq⟩
  · obtain ⟨ho₃, hs₃⟩ := ho₂.coalesced hprev.2 hco₃
    exact ⟨_, _, S₃, heq, ⟨hI.initialized, hI.head, hI.room, hco₃.chain, ho₃⟩, hs₁₂.trans hs₃⟩
  · exact ⟨_, _, S₂, heq, ⟨hI.initialized, hI.head, hI.room, hco₂.chain, ho₂⟩, hs₁₂⟩

/-- A live pointer passes the checks of `kmem_free_checked`. -/
theorem freeChecked_eq (hI : Inv h S live) (ha : a ∈ S) (hused : fld h.mem a .free = 0) :
    freeChecked (a + 48) h = release a h := by
  have hge := hI.chain.tiling.ge a ha
  have hhi := hI.chain.le_hi ha
  have hlt := hI.chain.hi_lt
  have h16 := hI.chain.aligned a ha
  have hsize := hI.chain.size_pos a ha
  have hin : ∀ x, h.heapBase ≤ x → x < h.heapEnd → h.ptrInHeap x = true := fun x h1 h2 ↦ by
    simp [Heap.ptrInHeap, hI.initialized, h1, h2]
  have hmask : (a + 48) &&& (align - 1) = 0 := by
    rw [show align - 1 = 2 ^ 4 - 1 from rfl, Nat.and_two_pow_sub_one_eq_mod]
    omega
  have hheader : headerFromPayload (a + 48) = a := by
    rw [headerFromPayload]
    simp only [headerSize]
    omega
  rw [freeChecked, if_neg (by omega), hin (a + 48) (by omega) (by omega), if_neg (by decide), hmask,
    if_neg (not_not.2 rfl)]
  dsimp only
  rw [hheader, hin a hge (by omega), if_neg (by simp [hI.chain.magic a ha]),
    if_neg (not_not.2 hused)]

/-- **Freeing.**  On a live pointer the call returns, the range is not live any more, and the others
stay as they are. -/
theorem freeChecked_spec (hI : Inv h S live) (hp : (p, n) ∈ live) :
    ∃ r h' S', freeChecked p h = some (r, h') ∧ Inv h' S' (live \ {(p, n)}) ∧
      SameOn (live \ {(p, n)}) h.mem h'.mem := by
  obtain ⟨a, ha, rfl, hused, -⟩ := hI.owns.block p n hp
  rw [freeChecked_eq hI ha hused]
  exact release_spec hI ha hp

/-! ## Initialization -/

/-- What `kmem_init` may be given: an object of the C program, in the address space and apart from
the static variables of the allocator, three pointers and an `int`. -/
structure IsArena (base bytes : ℕ) : Prop where
  fits : base + bytes ≤ 2 ^ 64
  apart : ∃ statics, statics + 28 ≤ 2 ^ 64 ∧ (statics + 28 ≤ base ∨ base + bytes ≤ statics)

/-- A single block is a chain. -/
theorem chain_single {size : ℕ} (hlo : 0 < lo) (hlt : lo + 48 + size < 2 ^ 64) (h16 : 16 ∣ lo)
    (hs16 : 16 ∣ size) (hpos : 0 < size) (hmagic : fld m lo .magic = kmemMagic)
    (hsize : fld m lo .size = size) (hprev : fld m lo .prev = 0) (hnext : fld m lo .next = 0) :
    Chain m lo (lo + 48 + size) {lo} := by
  have hnode : node m lo = ⟨size, 0, 0⟩ := by rw [node, hsize, hprev, hnext]
  refine ⟨⟨hlo, rfl, ?_, ?_, ?_, ?_, ?_⟩, hlt, ?_, ?_, ?_, ?_⟩
  · rintro a rfl; exact le_rfl
  · rintro a rfl; rw [hnode]
  · rintro a rfl b rfl hab; omega
  · rintro a rfl; rw [hnode]; exact .inl ⟨rfl, rfl⟩
  · rintro a rfl; rw [hnode]; exact .inl ⟨rfl, rfl⟩
  · rintro a rfl; exact h16
  · rintro a rfl; rwa [hsize]
  · rintro a rfl; rwa [hsize]
  · rintro a rfl; exact hmagic

/-- What a successful `kmem_init` has done: the heap is one free block of `usable` bytes. -/
structure InitializedAt (base bytes : ℕ) (h₀ h : Heap) (start usable : ℕ) : Prop where
  start_eq : start = alignUpPtr base align
  start_ok : ¬ (start = 0 ∨ start < base)
  usable_eq : usable = (bytes - (start - base)) &&& (2 ^ 64 - 1 - (align - 1))
  usable_ok : ¬ usable ≤ headerSize + minSplit
  mem_eq : h.mem = setFld start .next 0 (setFld start .prev 0 (setFld start .free 1
    (setFld start .size (usable - headerSize) (setFld start .magic kmemMagic h₀.mem))))
  base_eq : h.heapBase = start
  end_eq : h.heapEnd = (start + usable) % 2 ^ 64
  head_eq : h.head = start
  initialized : h.initialized = true
  valid : validate h = 0

theorem exists_initializedAt {base bytes : ℕ} {h₀ : Heap} (hinit : init base bytes h₀ = (0, h)) :
    ∃ start usable, InitializedAt base bytes h₀ h start usable := by
  rw [init] at hinit
  split at hinit
  · cases hinit
  dsimp only at hinit
  split at hinit
  · cases hinit
  rename_i hstart
  split at hinit
  · cases hinit
  split at hinit
  · cases hinit
  rename_i husable
  obtain ⟨hvalid, rfl⟩ := Prod.mk.inj hinit
  exact ⟨_, _, rfl, hstart, rfl, husable, rfl, rfl, rfl, rfl, rfl, hvalid⟩

/-- The heap is the part of the arena between multiples of 16. -/
theorem InitializedAt.bounds {base bytes start usable : ℕ} {h₀ : Heap}
    (hi : InitializedAt base bytes h₀ h start usable) (hfits : base + bytes ≤ 2 ^ 64) :
    16 ∣ start ∧ base ≤ start ∧ 16 ∣ usable ∧ start + usable ≤ base + bytes ∧
      h.heapEnd = start + usable := by
  have hstart := hi.start_eq
  have husable := hi.usable_eq
  have hstart_ok := hi.start_ok
  have husable_ok := hi.usable_ok
  rw [alignUpPtr_eq, roundUp] at hstart
  rw [and_mask_eq (by omega)] at husable
  -- the check at the end fails if the end of the heap has wrapped around to zero
  have hend : start < (start + usable) % 2 ^ 64 := by
    by_contra hle
    have hvalid := hi.valid
    rw [validate, hi.base_eq, hi.end_eq, if_pos (.inr (.inr (.inl (not_lt.1 hle))))] at hvalid
    cases hvalid
  rw [hi.end_eq]
  simp only [headerSize, minSplit] at husable_ok
  split at hstart <;> omega

theorem init_spec {base bytes : ℕ} (harena : IsArena base bytes) {h₀ : Heap}
    (hinit : init base bytes h₀ = (0, h)) : Inv h {h.heapBase} ∅ := by
  obtain ⟨start, usable, hi⟩ := exists_initializedAt hinit
  obtain ⟨hs16, hge, hu16, hle, hend⟩ := hi.bounds harena.fits
  have hstart_ok := hi.start_ok
  have husable_ok := hi.usable_ok
  have hlt : start + usable < 2 ^ 64 := by
    rw [← hend, hi.end_eq]
    exact Nat.mod_lt _ (by decide)
  obtain ⟨hfits, g, hg, hg'⟩ := harena
  simp only [headerSize, minSplit] at husable_ok
  have hsum : start + usable = start + 48 + (usable - 48) := by omega
  refine ⟨hi.initialized, hi.head_eq.trans hi.base_eq.symm, ?_, ?_,
    fun p n hp ↦ absurd hp (Set.notMem_empty _), ?_,
    fun p n n' hp ↦ absurd hp (Set.notMem_empty _)⟩
  · rw [hend, hi.base_eq]
    omega
  · rw [hend, hi.base_eq, hsum, hi.mem_eq]
    refine chain_single (by omega) (by omega) hs16 (by omega) (by omega) ?_ ?_ ?_ ?_ <;>
      simp (disch := first | omega | decide) [fld_setFld_same, fld_setFld_of_ne]
  · rintro a rfl hused
    rw [hi.mem_eq, hi.base_eq, fld_setFld_of_ne (by decide), fld_setFld_of_ne (by decide),
      fld_setFld_free (by decide)] at hused
    cases hused

/-! ## Runs -/

/-- The heaps, with their live ranges, that calls lead to after a successful `kmem_init`.  Sizes
are numbers below 2^64, only live pointers are freed, and between two calls the live ranges and the
memory outside the heap may be written to. -/
inductive Reaches (base bytes : ℕ) : Heap → Ranges → Prop
  | init {h₀ h : Heap} (hinit : init base bytes h₀ = (0, h)) : Reaches base bytes h ∅
  | alloc {h h' : Heap} {live : Ranges} {p : ℕ} (hr : Reaches base bytes h live) (n : ℕ)
      (hn : n < 2 ^ 64) (hcall : alloc n h = some (p, h')) :
      Reaches base bytes h' (if p = 0 then live else insert (p, n) live)
  | calloc {h h' : Heap} {live : Ranges} {p : ℕ} (hr : Reaches base bytes h live) (count size : ℕ)
      (hcount : count < 2 ^ 64) (hsize : size < 2 ^ 64)
      (hcall : calloc count size h = some (p, h')) :
      Reaches base bytes h' (if p = 0 then live else insert (p, count * size) live)
  | freeChecked {h h' : Heap} {live : Ranges} {p n : ℕ} {r : Int} (hr : Reaches base bytes h live)
      (hp : (p, n) ∈ live) (hcall : freeChecked p h = some (r, h')) :
      Reaches base bytes h' (live \ {(p, n)})
  | write {h : Heap} {live : Ranges} (hr : Reaches base bytes h live) (m : Mem)
      (hm : ∀ i, h.heapBase ≤ i → i < h.heapEnd →
        (∀ p n, (p, n) ∈ live → i < p ∨ p + n ≤ i) → m i = h.mem i) :
      Reaches base bytes { h with mem := m } live

/-- The headers that one comes across on the way from `g_head` along the `next` pointers. -/
inductive InChain (h : Heap) : ℕ → Prop
  | head : InChain h h.head
  | next {a : ℕ} (ha : InChain h a) (h0 : fld h.mem a .next ≠ 0) : InChain h (fld h.mem a .next)

theorem Inv.mem_of_inChain (hI : Inv h S live) (ha : InChain h a) : a ∈ S := by
  induction ha with
  | head => exact hI.head ▸ hI.chain.tiling.lo_mem
  | next _ h0 ih => exact (hI.chain.next_eq ih h0).1

theorem Reaches.inv {base bytes : ℕ} (harena : IsArena base bytes)
    (hr : Reaches base bytes h live) :
    ∃ S, Inv h S live := by
  induction hr with
  | init hinit => exact ⟨_, init_spec harena hinit⟩
  | alloc hr n hn hcall ih =>
    obtain ⟨S, hI⟩ := ih
    obtain ⟨p, h', heq, -, ⟨rfl, rfl⟩ | ⟨hp, -, S', hI'⟩⟩ := alloc_spec hI n
    · cases heq.symm.trans hcall
      exact ⟨S, by rwa [if_pos rfl]⟩
    · cases heq.symm.trans hcall
      exact ⟨S', by rwa [if_neg hp]⟩
  | calloc hr count size _ _ hcall ih =>
    obtain ⟨S, hI⟩ := ih
    obtain ⟨p, h', heq, -, -, ⟨rfl, rfl⟩ | ⟨hp, -, ⟨S', hI'⟩, -⟩⟩ := calloc_spec hI count size
    · cases heq.symm.trans hcall
      exact ⟨S, by rwa [if_pos rfl]⟩
    · cases heq.symm.trans hcall
      exact ⟨S', by rwa [if_neg hp]⟩
  | freeChecked hr hp hcall ih =>
    obtain ⟨S, hI⟩ := ih
    obtain ⟨r, h', S', heq, hI', -⟩ := freeChecked_spec hI hp
    cases heq.symm.trans hcall
    exact ⟨S', hI'⟩
  | write hr m hm ih =>
    obtain ⟨S, hI⟩ := ih
    exact ⟨S, hI.write hm⟩

/-- An arena of 1024 bytes at 4096. -/
def smallHeap : Heap := (init 4096 1024 ⟨fun _ ↦ 0, 0, 0, 0, false⟩).2

theorem init_smallHeap : init 4096 1024 ⟨fun _ ↦ 0, 0, 0, 0, false⟩ = (0, smallHeap) := by
  have hinit : (init 4096 1024 ⟨fun _ ↦ 0, 0, 0, 0, false⟩).1 = 0 := by decide +kernel
  exact Prod.ext hinit rfl

/-- There, a request for 100 bytes gets the range behind the first header and one for 200 bytes the
range behind the second, and the first of them can be given back. -/
theorem smallHeap_calls : ∃ h₁ h₂ h₃, alloc 100 smallHeap = some (4144, h₁) ∧
    alloc 200 h₁ = some (4304, h₂) ∧ freeChecked 4144 h₂ = some (0, h₃) := by
  have hcalls : ((alloc 100 smallHeap).bind fun (p, h₁) ↦ (alloc 200 h₁).bind fun (q, h₂) ↦
      (freeChecked p h₂).map fun (r, _) ↦ (p, q, r)) = some (4144, 4304, 0) := by
    decide +kernel
  obtain ⟨⟨p, h₁⟩, halloc₁, hcalls⟩ := Option.bind_eq_some_iff.1 hcalls
  obtain ⟨⟨q, h₂⟩, halloc₂, hcalls⟩ := Option.bind_eq_some_iff.1 hcalls
  obtain ⟨⟨r, h₃⟩, hfree, heq⟩ := Option.map_eq_some_iff.1 hcalls
  cases heq
  exact ⟨h₁, h₂, h₃, halloc₁, halloc₂, hfree⟩

theorem reaches_smallHeap_calls : ∃ h, Reaches 4096 1024 h {(4304, 200)} := by
  obtain ⟨h₁, h₂, h₃, halloc₁, halloc₂, hfree⟩ := smallHeap_calls
  have hr := ((Reaches.init init_smallHeap).alloc 100 (by decide) halloc₁).alloc 200 (by decide)
    halloc₂
  rw [if_neg (by decide), if_neg (by decide), LawfulSingleton.insert_empty_eq] at hr
  have hr' := hr.freeChecked (Set.mem_insert_of_mem _ rfl) hfree
  rw [Set.insert_sdiff_of_notMem _ (by simp), Set.sdiff_self,
    LawfulSingleton.insert_empty_eq] at hr'
  exact ⟨h₃, hr'⟩

/-- **Heap allocation is safe.**  After any calls, the live ranges are aligned, inside the heap,
disjoint from each other and from the headers; every call returns and leaves the live ranges of
others alone; no pointer that is live is handed out again; and `kmem_calloc` returns `NULL` for a
product that overflows, or zeroed memory. -/
theorem heap_safe {base bytes : ℕ} (harena : IsArena base bytes) (hr : Reaches base bytes h live) :
    (∀ p n, (p, n) ∈ live → 16 ∣ p ∧ h.heapBase ≤ p ∧ p + n ≤ h.heapEnd) ∧
      (∀ p n q k, (p, n) ∈ live → (q, k) ∈ live → (p, n) ≠ (q, k) → p + n ≤ q ∨ q + k ≤ p) ∧
      (∀ p n a, (p, n) ∈ live → InChain h a → a + headerSize ≤ p ∨ p + n ≤ a) ∧
      (∀ n, ∃ p h', alloc n h = some (p, h') ∧ SameOn live h.mem h'.mem ∧
        (p ≠ 0 → ∀ k, (p, k) ∉ live)) ∧
      (∀ count size, ∃ p h', calloc count size h = some (p, h') ∧ SameOn live h.mem h'.mem ∧
        (2 ^ 64 ≤ count * size → p = 0) ∧ (p ≠ 0 → ∀ k, (p, k) ∉ live) ∧
        (p ≠ 0 → ∀ i, p ≤ i → i < p + count * size → h'.mem i = 0)) ∧
      (∀ p n, (p, n) ∈ live → ∃ r h', freeChecked p h = some (r, h') ∧
        SameOn (live \ {(p, n)}) h.mem h'.mem) := by
  obtain ⟨S, hI⟩ := hr.inv harena
  refine ⟨fun p n hp ↦ hI.inside hp, fun p n q k hp hq hne ↦ ?_, fun p n a hp ha ↦ ?_, fun n ↦ ?_,
    fun count size ↦ ?_, fun p n hp ↦ ?_⟩
  · refine hI.disjoint hp hq fun hpq ↦ hne ?_
    subst hpq
    rw [hI.owns.unique p n k hp hq]
  · exact hI.header_apart hp (hI.mem_of_inChain ha)
  · obtain ⟨p, h', heq, hsame, hcase⟩ := alloc_spec hI n
    refine ⟨p, h', heq, hsame, fun hp ↦ ?_⟩
    exact hcase.elim (fun h0 ↦ absurd h0.1 hp) fun hcase ↦ hcase.2.1
  · obtain ⟨p, h', heq, hsame, hbig, hcase⟩ := calloc_spec hI count size
    rcases hcase with ⟨hp, -⟩ | ⟨-, hnew, -, hzero⟩
    · exact ⟨p, h', heq, hsame, hbig, absurd hp, absurd hp⟩
    · exact ⟨p, h', heq, hsame, hbig, fun _ ↦ hnew, fun _ ↦ hzero⟩
  · obtain ⟨r, h', S', heq, -, hsame⟩ := freeChecked_spec hI hp
    exact ⟨r, h', heq, hsame⟩

/-- After two requests and a free, the range that is still live is in the heap, and another request
does not get it. -/
theorem heap_safe_smallHeap : ∃ h, Reaches 4096 1024 h {(4304, 200)} ∧
    (16 ∣ 4304 ∧ h.heapBase ≤ 4304 ∧ 4304 + 200 ≤ h.heapEnd) ∧
    ∃ p h', alloc 100 h = some (p, h') ∧ SameOn {(4304, 200)} h.mem h'.mem ∧
      (p ≠ 0 → ∀ k, (p, k) ∉ ({(4304, 200)} : Ranges)) := by
  obtain ⟨h, hr⟩ := reaches_smallHeap_calls
  have harena : IsArena 4096 1024 := ⟨by decide, 0, by decide, .inl (by decide)⟩
  obtain ⟨hinside, -, -, halloc, -⟩ := heap_safe harena hr
  exact ⟨h, hr, hinside 4304 200 rfl, halloc 100⟩

end Kmem
end Mcsos
