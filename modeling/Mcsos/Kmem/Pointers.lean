import Mcsos.Kmem.Accounting

/-!
# Which pointers can be freed

`kmem_free_checked` looks for a magic number where the header of a block would be, and takes the
pointer for good if it finds one.  This is right as long as the number stands nowhere else
(`NoStray`).  A header of a block starts at a multiple of 16, so only the words at multiples of 16
count: of a header these are its magic number, the word with `free`, and `prev`.

Blocks that are merged lose their magic number, and those who use the heap are trusted not to write
it.  So nothing in the heap looks like a header that is none, and the pointers that
`kmem_free_checked` accepts are those that are live.
-/

set_option autoImplicit false

namespace Mcsos
namespace Kmem

open Bytes

variable {m m' : Mem} {h h' : Heap} {a b n p v w x lo hi : ℕ} {f : Field} {S S' : Set ℕ}
  {live live' : Ranges}

/-! ## Magic numbers -/

theorem fld_magic (m : Mem) (a : ℕ) : fld m a .magic = le m a 8 := rfl

/-- The first byte of the magic number. -/
theorem toNat_of_magic (h : fld m a .magic = kmemMagic) : (m a).toNat = 65 := by
  have := (m a).toNat_lt
  rw [fld_magic, le] at h
  simp only [kmemMagic] at h
  omega

/-- What the allocator stores in a field whose word is at a multiple of 16. -/
def Stored : Field → ℕ → Prop
  | .free, v => v ≤ 1
  | .prev, v => 16 ∣ v
  | _, _ => True

/-- A store to a header makes up no magic number, unless it is meant to. -/
theorem magic_of_setFld (hx : 16 ∣ x) (ha : 16 ∣ a) (hv : Stored f v)
    (h : fld (setFld x f v m) a .magic = kmemMagic) :
    f = .magic ∧ a = x ∨ fld m a .magic = kmemMagic := by
  have hdisjoint : a + 8 ≤ x + blockLayout.off f ∨
      x + blockLayout.off f + blockLayout.width f ≤ a → fld m a .magic = kmemMagic := fun hd ↦ by
    rw [← h]
    exact (le_putLE_of_disjoint hd).symm
  cases f with
  | magic =>
    by_cases hax : a = x
    · exact .inl ⟨rfl, hax⟩
    · exact .inr (hdisjoint (by simp only [blockLayout]; omega))
  | size => exact .inr (hdisjoint (by simp only [blockLayout]; omega))
  | next => exact .inr (hdisjoint (by simp only [blockLayout]; omega))
  | free =>
    by_cases hax : a = x + 16
    · have hbyte : setFld x .free v m a = byteAt v 0 := by
        rw [hax]
        show putLE m (x + 16) 4 v (x + 16) = byteAt v 0
        rw [putLE, if_pos ⟨le_rfl, by omega⟩, Nat.sub_self]
      have h65 := toNat_of_magic h
      rw [hbyte, byteAt, UInt8.toNat_ofNat', Nat.pow_zero, Nat.div_one] at h65
      have hv : v ≤ 1 := hv
      omega
    · exact .inr (hdisjoint (by simp only [blockLayout]; omega))
  | prev =>
    by_cases hax : a = x + 32
    · have hword : fld (setFld x .prev v m) a .magic = v % 256 ^ 8 := by
        rw [hax]
        exact le_putLE_same m (x + 32) 8 v
      have hv : 16 ∣ v := hv
      rw [hword, kmemMagic] at h
      omega
    · exact .inr (hdisjoint (by simp only [blockLayout]; omega))

/-- Wherever in the heap the magic number stands, there is the header of a block. -/
def NoStray (m : Mem) (lo hi : ℕ) (S : Set ℕ) : Prop :=
  ∀ a, 16 ∣ a → lo ≤ a → a + headerSize ≤ hi → fld m a .magic = kmemMagic → a ∈ S

theorem NoStray.mono (hN : NoStray m lo hi S) (hS : S ⊆ S') : NoStray m lo hi S' :=
  fun a h16 hlo hhi hmagic ↦ hS (hN a h16 hlo hhi hmagic)

section Stores

variable (hN : NoStray m lo hi S) (hx : 16 ∣ x)

include hN hx

theorem NoStray.setFld (hv : Stored f v) (hS : f = .magic → x ∈ S) :
    NoStray (setFld x f v m) lo hi S := by
  intro a h16 hlo hhi hmagic
  rcases magic_of_setFld hx h16 hv hmagic with ⟨hf, rfl⟩ | hmagic
  · exact hS hf
  · exact hN a h16 hlo hhi hmagic

theorem NoStray.setMagic (hS : x ∈ S) (v : ℕ) : NoStray (Kmem.setFld x .magic v m) lo hi S :=
  hN.setFld hx trivial fun _ ↦ hS

theorem NoStray.setSize (v : ℕ) : NoStray (Kmem.setFld x .size v m) lo hi S :=
  hN.setFld hx trivial nofun

theorem NoStray.setFree (hv : v ≤ 1) : NoStray (Kmem.setFld x .free v m) lo hi S :=
  hN.setFld hx hv nofun

theorem NoStray.setPrev (hv : 16 ∣ v) : NoStray (Kmem.setFld x .prev v m) lo hi S :=
  hN.setFld hx hv nofun

theorem NoStray.setNext (v : ℕ) : NoStray (Kmem.setFld x .next v m) lo hi S :=
  hN.setFld hx trivial nofun

end Stores

/-! ## Splitting and merging -/

theorem Chain.aligned_next (hC : Chain m lo hi S) (hb : b ∈ S) (h0 : fld m b .next ≠ 0) :
    16 ∣ fld m b .next :=
  hC.aligned _ (hC.next_eq hb h0).1

theorem NoStray.split (hC : Chain m lo hi S) (hN : NoStray m lo hi S) (hb : b ∈ S)
    (hw : 16 ∣ w) :
    NoStray (Kmem.split b (b + 48 + w) w w m) lo hi (insert (b + 48 + w) S) := by
  have hb16 := hC.aligned b hb
  have hn16 : 16 ∣ b + 48 + w := by omega
  rw [Kmem.split]
  generalize hm₁ : Kmem.setFld (b + 48 + w) .next _ _ = m₁
  -- the header of the new block
  have hN₁ : NoStray m₁ lo hi (insert (b + 48 + w) S) := by
    rw [← hm₁]
    have hmagic := (hN.mono (Set.subset_insert _ S)).setMagic hn16 (Set.mem_insert _ S) kmemMagic
    exact (((hmagic.setSize hn16 _).setFree hn16 le_rfl).setPrev hn16 hb16).setNext hn16 _
  have hnext : fld m₁ b .next = fld m b .next := by
    rw [← hm₁]
    simp (disch := omega) only [fld_setFld_of_apart]
  refine NoStray.setSize (NoStray.setNext ?_ hb16 _) hb16 _
  rw [hnext]
  split
  · exact hN₁.setPrev (hC.aligned_next hb ‹_›) hn16
  · exact hN₁

/-- A block that is merged with the one in front of it loses its magic number. -/
theorem fld_merge_next : fld (merge b n m) n .magic = 0 := by
  rw [merge]
  simp only [fld_setFld_of_ne, ne_eq, reduceCtorEq, not_false_eq_true]
  exact fld_setFld_same (by decide) (by decide)

theorem NoStray.merge (hC : Chain m lo hi S) (hN : NoStray m lo hi S) (hb : b ∈ S)
    (hn : fld m b .next = n) (h0 : n ≠ 0) : NoStray (Kmem.merge b n m) lo hi (S \ {n}) := by
  obtain ⟨hnS, hne⟩ := hC.merge_next_eq hb hn h0
  have hb16 := hC.aligned b hb
  have hn16 := hC.aligned n hnS
  have hmerge : NoStray (Kmem.merge b n m) lo hi S := by
    rw [Kmem.merge]
    generalize hm₁ : Kmem.setFld b .next _ _ = m₁
    have hN₁ : NoStray m₁ lo hi S := by
      rw [← hm₁]
      exact (hN.setSize hb16 _).setNext hb16 _
    have hnext : fld m₁ n .next = fld m n .next := by
      rw [← hm₁]
      simp (disch := omega) only [fld_setFld_of_apart]
    have hN₂ : NoStray (if fld m₁ n .next ≠ 0 then Kmem.setFld (fld m₁ n .next) .prev b m₁ else m₁)
        lo hi S := by
      rw [hnext]
      split
      · exact hN₁.setPrev (hC.aligned_next hnS ‹_›) hb16
      · exact hN₁
    exact (((hN₂.setMagic hn16 hnS 0).setSize hn16 0).setPrev hn16 (dvd_zero 16)).setNext hn16 0
  intro a h16 hlo hhi hmagic
  refine ⟨hmerge a h16 hlo hhi hmagic, ?_⟩
  rintro rfl
  rw [fld_merge_next] at hmagic
  cases hmagic

theorem NoStray.coalesceForward {rounds : ℕ} (hC : Chain m lo hi S) (hN : NoStray m lo hi S)
    (hb : b ∈ S) (hco : coalesceForward b rounds m = some m') :
    ∃ S', Chain m' lo hi S' ∧ b ∈ S' ∧ NoStray m' lo hi S' := by
  induction rounds generalizing m S with
  | zero => cases hco
  | succ rounds ih =>
    rw [Kmem.coalesceForward] at hco
    split at hco
    · rename_i hcond
      dsimp only at hco
      split at hco
      · cases hco
        exact ⟨S, hC, hb, hN⟩
      · have hne := (hC.next_eq hb hcond.2.1).2
        refine ih (hC.merge hb rfl hcond.2.1) (hN.merge hC hb rfl hcond.2.1) ⟨hb, ?_⟩ hco
        rw [Set.mem_singleton_iff]
        omega
    · cases hco
      exact ⟨S, hC, hb, hN⟩

/-! ## The calls -/

theorem NoStray.take (hC : Chain m lo hi S) (hN : NoStray m lo hi S) (hb : b ∈ S) (hw : 16 ∣ w)
    (hw0 : 0 < w) (hle : w ≤ fld m b .size) (hroom : hi + 48 ≤ lo + 2 ^ 64) :
    ∃ S', Chain (Kmem.setFld b .free 0 (splitIfUseful hi b w m)) lo hi S' ∧
      NoStray (Kmem.setFld b .free 0 (splitIfUseful hi b w m)) lo hi S' := by
  have hb16 := hC.aligned b hb
  rw [splitIfUseful_eq hC hb hw hle hroom]
  split
  · exact ⟨_, (hC.split hb (by omega) hw hw0).setFree (.inr hb) 0,
      (hN.split hC hb hw).setFree hb16 (Nat.zero_le 1)⟩
  · exact ⟨S, hC.setFree hb 0, hN.setFree hb16 (Nat.zero_le 1)⟩

theorem NoStray.alloc (hI : Inv h S live) (hN : NoStray h.mem h.heapBase h.heapEnd S)
    (hcall : alloc n h = some (p, h')) (hI' : Inv h' S' live') :
    NoStray h'.mem h'.heapBase h'.heapEnd S' := by
  by_cases hn : n = 0
  · rw [Kmem.alloc, if_pos (.inr hn)] at hcall
    cases hcall
    rwa [hI'.chain.unique hI.chain]
  rcases alloc_cases hI hn with ⟨-, heq⟩ | ⟨hw, b, hb, hfree, hle, heq⟩
  · cases heq.symm.trans hcall
    rwa [hI'.chain.unique hI.chain]
  · cases heq.symm.trans hcall
    have hround := roundUp_spec hw
    have hw16 : 16 ∣ roundUp n := ⟨_, by rw [hround, Nat.mul_comm]⟩
    obtain ⟨S₁, hC₁, hN₁⟩ := hN.take hI.chain hb hw16 (by omega) hle hI.room
    rwa [hI'.chain.unique hC₁]

/-- A write to live ranges leaves no stray magic number if it makes up none. -/
theorem NoStray.write (hI : Inv h S live) (hN : NoStray h.mem h.heapBase h.heapEnd S)
    (hm : ∀ i, h.heapBase ≤ i → i < h.heapEnd →
      (∀ p n, (p, n) ∈ live → i < p ∨ p + n ≤ i) → m' i = h.mem i)
    (hmagic : ∀ p n, (p, n) ∈ live → ∀ a, 16 ∣ a → p ≤ a → a < p + n →
      fld m' a .magic = kmemMagic → fld h.mem a .magic = kmemMagic) :
    NoStray m' h.heapBase h.heapEnd S := by
  intro a h16 hlo hhi ha
  refine hN a h16 hlo hhi (by_contra fun hne ↦ hne ?_)
  rw [← ha]
  refine le_congr fun i h1 h2 ↦ (hm i (by omega) ?_ fun p n hp ↦ ?_).symm
  · simp only [headerSize, blockLayout] at *
    omega
  · -- a range that starts at a multiple of 16 has the first byte of the word if it has any
    by_contra hin
    have hp16 := (hI.inside hp).1
    simp only [blockLayout] at h1 h2
    exact hne (hmagic p n hp a h16 (by omega) (by omega) ha)

theorem NoStray.calloc {count bytes : ℕ} (hI : Inv h S live)
    (hN : NoStray h.mem h.heapBase h.heapEnd S) (hcall : calloc count bytes h = some (p, h'))
    (hI' : Inv h' S' live') : NoStray h'.mem h'.heapBase h'.heapEnd S' := by
  rcases calloc_cases hI hcall with rfl | ⟨n, h₁, S₁, halloc, hI₁, rfl⟩
  · rwa [hI'.chain.unique hI.chain]
  have hnew := Set.mem_insert (p, n) live
  have hm := fun i (_ : h₁.heapBase ≤ i) (_ : i < h₁.heapEnd) ↦
    memset_of_not_mem (m := h₁.mem) (i := i) hnew
  rw [hI'.chain.unique (hI₁.write hm).chain]
  show NoStray (memset h₁.mem p 0 n) h₁.heapBase h₁.heapEnd S₁
  refine NoStray.write (h := h₁) hI₁ (hN.alloc hI halloc hI₁) hm fun q k _ a h16 _ _ ha ↦ ?_
  have hp16 := (hI₁.inside hnew).1
  by_cases hin : p ≤ a ∧ a < p + n
  · -- the magic number does not start with a zero
    have h65 := toNat_of_magic ha
    rw [memset_apply, if_pos hin] at h65
    cases h65
  · rw [← ha]
    refine le_congr fun i h1 h2 ↦ ?_
    simp only [blockLayout] at h1 h2
    rw [memset_apply, if_neg (by omega)]

/-- The merges of `kmem_free_checked`, and what it returns. -/
theorem release_eq_some {r : Int} (hcall : release b h = some (r, h')) :
    ∃ m₂ m₃, coalesceForward b (2 ^ 64) (setFld b .free 1 h.mem) = some m₂ ∧
      (fld m₂ b .prev ≠ 0 ∧ coalesceForward (fld m₂ b .prev) (2 ^ 64) m₂ = some m₃ ∨ m₃ = m₂) ∧
      h' = { h with mem := m₃ } ∧ r = validate h' := by
  rw [release] at hcall
  simp only [Option.bind_eq_bind, Option.bind_eq_some_iff] at hcall
  obtain ⟨m₂, hm₂, hcall⟩ := hcall
  split at hcall
  · rename_i hprev
    simp only [Option.bind_eq_some_iff] at hcall
    obtain ⟨m₃, hm₃, hcall⟩ := hcall
    cases hcall
    exact ⟨m₂, m₃, hm₂, .inl ⟨hprev.1, hm₃⟩, rfl, rfl⟩
  · cases hcall
    exact ⟨m₂, m₂, hm₂, .inr rfl, rfl, rfl⟩

theorem NoStray.release {r : Int} (hI : Inv h S live) (hN : NoStray h.mem h.heapBase h.heapEnd S)
    (hb : b ∈ S) (hcall : release b h = some (r, h')) (hI' : Inv h' S' live') :
    NoStray h'.mem h'.heapBase h'.heapEnd S' := by
  obtain ⟨m₂, m₃, hm₂, hm₃, rfl, -⟩ := release_eq_some hcall
  obtain ⟨S₂, hC₂, hb₂, hN₂⟩ :=
    (hN.setFree (hI.chain.aligned b hb) le_rfl).coalesceForward (hI.chain.setFree hb 1) hb hm₂
  rcases hm₃ with ⟨hprev, hm₃⟩ | rfl
  · obtain ⟨S₃, hC₃, -, hN₃⟩ := hN₂.coalesceForward hC₂ (hC₂.tiling.prev_mem hb₂ hprev).1 hm₃
    rwa [hI'.chain.unique hC₃]
  · rwa [hI'.chain.unique hC₂]

/-- A pointer that is not live does not pass the checks of `kmem_free_checked`. -/
theorem freeChecked_of_not_live (hI : Inv h S live) (hN : NoStray h.mem h.heapBase h.heapEnd S)
    (h0 : p ≠ 0) (hlive : ∀ n, (p, n) ∉ live) :
    ∃ r, freeChecked p h = some (r, h) ∧ r < 0 := by
  rw [freeChecked, if_neg h0]
  by_cases h1 : (!h.ptrInHeap p) = true
  · exact ⟨-1, if_pos h1, by decide⟩
  rw [if_neg h1]
  by_cases h2 : p &&& (align - 1) ≠ 0
  · exact ⟨-2, if_pos h2, by decide⟩
  rw [if_neg h2]
  dsimp only
  by_cases h3 : (!h.ptrInHeap (headerFromPayload p)) = true ∨
      fld h.mem (headerFromPayload p) .magic ≠ kmemMagic
  · exact ⟨-3, if_pos h3, by decide⟩
  rw [if_neg h3]
  by_cases h4 : fld h.mem (headerFromPayload p) .free ≠ 0
  · exact ⟨-4, if_pos h4, by decide⟩
  -- a pointer that passes all of them is that of a block which is not free
  exfalso
  rw [not_or, not_not] at h3
  simp only [Heap.ptrInHeap, hI.initialized, Bool.true_and, Bool.not_eq_true', Bool.not_eq_false,
    Bool.and_eq_true, decide_eq_true_eq] at h1 h3
  have hroom := hI.room
  have h16 : p % 16 = 0 := by
    rw [show align - 1 = 2 ^ 4 - 1 from rfl, Nat.and_two_pow_sub_one_eq_mod, not_not] at h2
    exact h2
  have hheader : headerFromPayload p + 48 = p := by
    have := h3.1
    simp only [headerFromPayload, headerSize] at *
    omega
  have hS := hN (headerFromPayload p) (by omega) h3.1.1 (by simp only [headerSize]; omega) h3.2
  obtain ⟨n, hn⟩ := hI.owns.used _ hS (not_not.1 h4)
  exact hlive n (hheader ▸ hn)

/-! ## Runs -/

theorem noStray_init {base bytes : ℕ} {h₀ : Heap} (hfits : base + bytes ≤ 2 ^ 64)
    (hzero : ∀ i, base ≤ i → i < base + bytes → h₀.mem i = 0)
    (hinit : init base bytes h₀ = (0, h)) :
    NoStray h.mem h.heapBase h.heapEnd {h.heapBase} := by
  obtain ⟨start, usable, hi⟩ := exists_initializedAt hinit
  obtain ⟨h16, hge, -, hle, hend⟩ := hi.bounds hfits
  have hN : NoStray h₀.mem start (start + usable) {start} := by
    intro a _ hlo hhi hmagic
    have h65 := toNat_of_magic hmagic
    simp only [headerSize] at hhi
    rw [hzero a (by omega) (by omega)] at h65
    cases h65
  rw [hi.mem_eq, hi.base_eq, hend]
  exact ((((hN.setMagic h16 rfl kmemMagic).setSize h16 _).setFree h16 le_rfl).setPrev h16
    (dvd_zero 16)).setNext h16 0

/-- The heaps, with their live ranges, that calls lead to after a successful `kmem_init` on an arena
of zeros.  Any pointer may be given to `kmem_free_checked`, and is not live any more then.  Between
two calls the live ranges may be written to, as long as no aligned word that starts in one becomes
the magic number, and so may the memory outside the heap. -/
inductive Runs (base bytes : ℕ) : Heap → Ranges → Prop
  | init {h₀ h : Heap} (hzero : ∀ i, base ≤ i → i < base + bytes → h₀.mem i = 0)
      (hinit : init base bytes h₀ = (0, h)) : Runs base bytes h ∅
  | alloc {h h' : Heap} {live : Ranges} {p : ℕ} (hr : Runs base bytes h live) (n : ℕ)
      (hn : n < 2 ^ 64) (hcall : alloc n h = some (p, h')) :
      Runs base bytes h' (if p = 0 then live else insert (p, n) live)
  | calloc {h h' : Heap} {live : Ranges} {p : ℕ} (hr : Runs base bytes h live) (count size : ℕ)
      (hcount : count < 2 ^ 64) (hsize : size < 2 ^ 64)
      (hcall : calloc count size h = some (p, h')) :
      Runs base bytes h' (if p = 0 then live else insert (p, count * size) live)
  | freeChecked {h h' : Heap} {live : Ranges} {r : Int} (hr : Runs base bytes h live) (p : ℕ)
      (hcall : freeChecked p h = some (r, h')) :
      Runs base bytes h' {q | q ∈ live ∧ q.1 ≠ p}
  | write {h : Heap} {live : Ranges} (hr : Runs base bytes h live) (m : Mem)
      (hm : ∀ i, h.heapBase ≤ i → i < h.heapEnd →
        (∀ p n, (p, n) ∈ live → i < p ∨ p + n ≤ i) → m i = h.mem i)
      (hmagic : ∀ p n, (p, n) ∈ live → ∀ a, 8 ∣ a → p ≤ a → a < p + n → le m a 8 ≠ kmemMagic) :
      Runs base bytes { h with mem := m } live

/-- What is live after a pointer has been freed. -/
theorem Owns.freed (ho : Owns m S live) (hp : (p, n) ∈ live) :
    {q | q ∈ live ∧ q.1 ≠ p} = live \ {(p, n)} := by
  ext ⟨q, k⟩
  refine and_congr_right fun hq ↦ not_congr ⟨?_, fun he ↦ congrArg Prod.fst he⟩
  rintro rfl
  rw [ho.unique _ k n hq hp]
  rfl

theorem freed_of_not_live (hlive : ∀ n, (p, n) ∉ live) : {q | q ∈ live ∧ q.1 ≠ p} = live := by
  ext ⟨q, k⟩
  refine and_iff_left_of_imp fun hq ↦ ?_
  rintro rfl
  exact hlive k hq

/-- Pointers that are not live make no difference, so all runs are among those of heaps on which
only live pointers are freed. -/
theorem Runs.spec {base bytes : ℕ} (harena : IsArena base bytes) (hr : Runs base bytes h live) :
    Reaches base bytes h live ∧ ∃ S, Inv h S live ∧ NoStray h.mem h.heapBase h.heapEnd S := by
  induction hr with
  | init hzero hinit =>
    exact ⟨.init hinit, _, init_spec harena hinit, noStray_init harena.fits hzero hinit⟩
  | alloc hr n hn hcall ih =>
    obtain ⟨hreach, S, hI, hN⟩ := ih
    have hreach' := hreach.alloc n hn hcall
    obtain ⟨S', hI'⟩ := hreach'.inv harena
    exact ⟨hreach', S', hI', hN.alloc hI hcall hI'⟩
  | calloc hr count size hcount hsize hcall ih =>
    obtain ⟨hreach, S, hI, hN⟩ := ih
    have hreach' := hreach.calloc count size hcount hsize hcall
    obtain ⟨S', hI'⟩ := hreach'.inv harena
    exact ⟨hreach', S', hI', hN.calloc hI hcall hI'⟩
  | @freeChecked h h' live r hr p hcall ih =>
    obtain ⟨hreach, S, hI, hN⟩ := ih
    by_cases hlive : ∃ n, (p, n) ∈ live
    · obtain ⟨n, hp⟩ := hlive
      have hreach' := hreach.freeChecked hp hcall
      obtain ⟨S', hI'⟩ := hreach'.inv harena
      obtain ⟨a, ha, rfl, hused, -⟩ := hI.owns.block p n hp
      rw [freeChecked_eq hI ha hused] at hcall
      rw [hI.owns.freed hp]
      exact ⟨hreach', S', hI', hN.release hI ha hcall hI'⟩
    · have hlive := not_exists.1 hlive
      rw [freed_of_not_live hlive]
      by_cases h0 : p = 0
      · rw [Kmem.freeChecked, if_pos h0] at hcall
        cases hcall
        exact ⟨hreach, S, hI, hN⟩
      · obtain ⟨r', heq, -⟩ := freeChecked_of_not_live hI hN h0 hlive
        cases heq.symm.trans hcall
        exact ⟨hreach, S, hI, hN⟩
  | @write h live hr m hm hmagic ih =>
    obtain ⟨hreach, S, hI, hN⟩ := ih
    refine ⟨hreach.write m hm, S, hI.write hm, ?_⟩
    refine NoStray.write (h := h) hI hN hm fun p n hp a h16 h1 h2 ha ↦ ?_
    exact absurd ha (hmagic p n hp a (dvd_trans (by decide) h16) h1 h2)

/-- **`kmem_free_checked` accepts exactly the live pointers.**  After any calls on an arena of zeros
of at most 64 MiB, freeing any pointer returns 0 if, and only if, it is `NULL` or live; otherwise it
returns a negative code and the heap stays as it is. -/
theorem free_checked_iff_live {base bytes : ℕ} (hfits : base + bytes ≤ 2 ^ 64)
    (hbytes : bytes ≤ 2 ^ 26) (hr : Runs base bytes h live) (p : ℕ) :
    ∃ r h', freeChecked p h = some (r, h') ∧ (r = 0 ↔ p = 0 ∨ ∃ n, (p, n) ∈ live) ∧
      (¬ (p = 0 ∨ ∃ n, (p, n) ∈ live) → r < 0 ∧ h' = h) := by
  have harena := isArena_of_le hfits hbytes
  obtain ⟨hreach, S, hI, hN⟩ := hr.spec harena
  by_cases h0 : p = 0
  · refine ⟨0, h, by rw [freeChecked, if_pos h0], iff_of_true rfl (.inl h0), fun hne ↦ ?_⟩
    exact absurd (.inl h0) hne
  by_cases hlive : ∃ n, (p, n) ∈ live
  · obtain ⟨n, hp⟩ := hlive
    obtain ⟨r, h', S', hcall, hI', -⟩ := freeChecked_spec hI hp
    have hsize := (hreach.freeChecked hp hcall).size_le harena
    refine ⟨r, h', hcall, iff_of_true ?_ (.inr ⟨n, hp⟩), fun hne ↦ absurd (.inr ⟨n, hp⟩) hne⟩
    obtain ⟨a, ha, rfl, hused, -⟩ := hI.owns.block p n hp
    rw [freeChecked_eq hI ha hused] at hcall
    obtain ⟨-, -, -, -, -, hr⟩ := release_eq_some hcall
    rw [hr]
    exact hI'.validate_eq_zero (by omega)
  · obtain ⟨r, hcall, hneg⟩ := freeChecked_of_not_live hI hN h0 (not_exists.1 hlive)
    refine ⟨r, h, hcall, iff_of_false (by omega) ?_, fun _ ↦ ⟨hneg, rfl⟩⟩
    exact not_or.2 ⟨h0, hlive⟩

/-- After the first request for 100 bytes, the pointer that was returned can be freed, and one into
the middle of the range cannot. -/
theorem free_checked_iff_live_first_alloc : ∃ h, Runs 4096 1024 h {(4144, 100)} ∧
    (∃ h', freeChecked 4144 h = some (0, h')) ∧ ∃ r, freeChecked 4192 h = some (r, h) ∧ r < 0 := by
  obtain ⟨h, -, -, hcall, -⟩ := smallHeap_calls
  have hr : Runs 4096 1024 h _ :=
    .alloc (.init (fun _ _ _ ↦ rfl) init_smallHeap) 100 (by decide) hcall
  rw [if_neg (by decide), LawfulSingleton.insert_empty_eq] at hr
  obtain ⟨r, h', hfree, hiff, -⟩ := free_checked_iff_live (by decide) (by decide) hr 4144
  obtain ⟨r₂, h₂, hfree₂, -, hneg⟩ := free_checked_iff_live (by decide) (by decide) hr 4192
  obtain rfl := hiff.2 (.inr ⟨100, rfl⟩)
  have hnot : ¬ (4192 = 0 ∨ ∃ n, (4192, n) ∈ ({(4144, 100)} : Ranges)) := by
    rintro (h0 | ⟨n, hn⟩)
    · cases h0
    · cases hn
  obtain ⟨hlt, rfl⟩ := hneg hnot
  exact ⟨h₂, hr, ⟨h', hfree⟩, r₂, hfree₂, hlt⟩

end Kmem
end Mcsos
