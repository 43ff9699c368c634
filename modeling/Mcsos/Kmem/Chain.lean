import Mcsos.Kmem.Heap
import Mcsos.Lib.Tiling

/-!
# The chain of blocks

The blocks of the heap tile it, and their headers are linked in both directions.  `Chain` is this
invariant on the bytes of memory, with `S` the set of addresses of headers.  `kmem_split_if_useful`
and each round of `kmem_coalesce_forward` lead from one chain to another (`Chain.split`,
`Chain.merge`), and change nothing but headers.
-/

set_option autoImplicit false

namespace Mcsos
namespace Kmem

variable {m m' : Mem} {a b i v w lo hi : ℕ} {f g : Field} {S : Set ℕ}

/-! ## Fields of headers -/

theorem fld_lt (hf : f ≠ .free) : fld m a f < 2 ^ 64 := by
  have h : fld m a f < 256 ^ blockLayout.width f := Layout.get_lt
  cases f with
  | free => exact absurd rfl hf
  | _ => exact h

theorem fld_setFld_same (hf : f ≠ .free) (hv : v < 2 ^ 64) : fld (setFld a f v m) a f = v := by
  refine Layout.get_set_same ?_
  cases f with
  | free => exact absurd rfl hf
  | _ => exact hv

theorem fld_setFld_free (hv : v < 2 ^ 32) : fld (setFld a .free v m) a .free = v :=
  Layout.get_set_same hv

theorem fld_setFld_of_ne (h : g ≠ f) : fld (setFld a f v m) a g = fld m a g :=
  Layout.get_set_of_ne h

theorem fld_setFld_of_apart (h : b + 48 ≤ a ∨ a + 48 ≤ b) :
    fld (setFld a f v m) b g = fld m b g :=
  Layout.get_set_of_apart h

theorem setFld_of_not_mem (h : i < a ∨ a + 48 ≤ i) : setFld a f v m i = m i :=
  Layout.set_of_not_mem h

theorem fld_congr (h : ∀ i, a ≤ i → i < a + 48 → m' i = m i) : fld m' a f = fld m a f :=
  Layout.get_congr h

/-! ## Rounding -/

theorem and_mask_eq {x : ℕ} (hx : x < 2 ^ 64) : x &&& (2 ^ 64 - 1 - (align - 1)) = x / 16 * 16 := by
  refine Nat.eq_of_testBit_eq fun i ↦ ?_
  have hmask : 2 ^ 64 - 1 - (align - 1) = (2 ^ 60 - 1) <<< 4 := by decide
  have hdiv : x / 16 * 16 = (x >>> 4) <<< 4 := by
    rw [Nat.shiftLeft_eq, Nat.shiftRight_eq_div_pow]
  rw [hmask, hdiv, Nat.testBit_and, Nat.testBit_shiftLeft, Nat.testBit_shiftLeft,
    Nat.testBit_two_pow_sub_one, Nat.testBit_shiftRight]
  by_cases hi : 4 ≤ i
  · have hsub : 4 + (i - 4) = i := by omega
    by_cases h64 : i < 64
    · simp [hi, hsub, show i - 4 < 60 by omega]
    · have hbit : x.testBit i = false :=
        Nat.testBit_lt_two_pow (lt_of_lt_of_le hx (Nat.pow_le_pow_right (by decide) (by omega)))
      simp [hsub, hbit]
  · simp [hi]

/-- Rounding up to a multiple of 16, with `0` for an overflow. -/
def roundUp (x : ℕ) : ℕ := if 2 ^ 64 - 16 < x then 0 else (x + 15) / 16 * 16

theorem round_eq (x : ℕ) : (if 2 ^ 64 - 1 - 15 < x then 0 else (x + 15) &&& (2 ^ 64 - 1 - 15))
    = roundUp x := by
  rw [roundUp, show 2 ^ 64 - 1 - 15 = 2 ^ 64 - 16 by decide]
  by_cases h : 2 ^ 64 - 16 < x
  · rw [if_pos h, if_pos h]
  · rw [if_neg h, if_neg h]
    exact and_mask_eq (by omega)

theorem alignUpSize_eq (x : ℕ) : alignUpSize x align = roundUp x := by
  rw [alignUpSize, if_neg (by decide), if_neg (by decide)]
  exact round_eq x

theorem alignUpPtr_eq (x : ℕ) : alignUpPtr x align = roundUp x := by
  rw [alignUpPtr, if_neg (by decide), show (align + (2 ^ 64 - 1)) % 2 ^ 64 = 15 by decide]
  exact round_eq x

theorem roundUp_of_dvd {x : ℕ} (hx : 16 ∣ x) (hlt : x < 2 ^ 64) : roundUp x = x := by
  rw [roundUp, if_neg (by omega)]
  omega

/-! ## The invariant -/

/-- What the header at `a` says about the block and its neighbours. -/
def node (m : Mem) (a : ℕ) : Node := ⟨fld m a .size, fld m a .prev, fld m a .next⟩

/-- The headers at the addresses `S` make a chain of blocks that tile `[lo, hi)`. -/
structure Chain (m : Mem) (lo hi : ℕ) (S : Set ℕ) : Prop where
  tiling : Tiling headerSize lo hi S (node m)
  hi_lt : hi < 2 ^ 64
  aligned : ∀ a ∈ S, 16 ∣ a
  size_dvd : ∀ a ∈ S, 16 ∣ fld m a .size
  size_pos : ∀ a ∈ S, 0 < fld m a .size
  magic : ∀ a ∈ S, fld m a .magic = kmemMagic

/-! ## Splitting -/

section Split

variable {n c x : ℕ} (hbn : b + 48 ≤ n)
  (hnext : fld m b .next ≠ 0 → n + 48 ≤ fld m b .next)

include hbn hnext

theorem fld_split_new (hn : n < 2 ^ 64) : fld (split b n w c m) n g =
    match g with
    | .magic => kmemMagic
    | .size => (fld m b .size + 2 * 2 ^ 64 - c - headerSize) % 2 ^ 64
    | .free => 1
    | .prev => b
    | .next => fld m b .next := by
  have hlt : fld m b .next < 2 ^ 64 := fld_lt nofun
  by_cases h0 : fld m b .next = 0
  · cases g <;> simp (disch := first | omega | decide) [split, fld_setFld_same, fld_setFld_free,
      fld_setFld_of_ne, fld_setFld_of_apart, h0]
  · have := hnext h0
    cases g <;> simp (disch := first | omega | decide) [split, fld_setFld_same, fld_setFld_free,
      fld_setFld_of_ne, fld_setFld_of_apart, h0]

theorem fld_split_self (hn : n < 2 ^ 64) (hw : w < 2 ^ 64) : fld (split b n w c m) b g =
    match g with
    | .size => w
    | .next => n
    | g => fld m b g := by
  by_cases h0 : fld m b .next = 0
  · cases g <;> simp (disch := first | omega | decide) [split, fld_setFld_same, fld_setFld_of_ne,
      fld_setFld_of_apart, h0]
  · have := hnext h0
    cases g <;> simp (disch := first | omega | decide) [split, fld_setFld_same, fld_setFld_of_ne,
      fld_setFld_of_apart, h0]

theorem fld_split_behind (hn : n < 2 ^ 64) (h0 : fld m b .next ≠ 0) :
    fld (split b n w c m) (fld m b .next) g =
      match g with
      | .prev => n
      | g => fld m (fld m b .next) g := by
  have := hnext h0
  cases g <;> simp (disch := first | omega | decide) [split, fld_setFld_same, fld_setFld_of_ne,
    fld_setFld_of_apart, h0]

theorem fld_split_other (hxb : x + 48 ≤ b ∨ b + 48 ≤ x) (hxn : x + 48 ≤ n ∨ n + 48 ≤ x)
    (hx : fld m b .next ≠ 0 → x + 48 ≤ fld m b .next ∨ fld m b .next + 48 ≤ x) :
    fld (split b n w c m) x g = fld m x g := by
  by_cases h0 : fld m b .next = 0
  · simp (disch := omega) [split, fld_setFld_of_apart, h0]
  · have := hnext h0
    have := hx h0
    simp (disch := omega) [split, fld_setFld_of_apart, h0]

theorem split_of_not_mem (hib : i < b ∨ b + 48 ≤ i) (hin : i < n ∨ n + 48 ≤ i)
    (hi : fld m b .next ≠ 0 → i < fld m b .next ∨ fld m b .next + 48 ≤ i) :
    split b n w c m i = m i := by
  by_cases h0 : fld m b .next = 0
  · simp (disch := omega) [split, setFld_of_not_mem, fld_setFld_of_apart, h0]
  · have := hnext h0
    have := hi h0
    simp (disch := omega) [split, setFld_of_not_mem, fld_setFld_of_apart, h0]

end Split

/-! ## Merging -/

section Merge

variable {n x : ℕ} (hbn : b + 48 ≤ n) (hnext : fld m n .next ≠ 0 → n + 48 ≤ fld m n .next)

include hbn hnext

theorem fld_merge_self : fld (merge b n m) b g =
    match g with
    | .size => (fld m b .size + (headerSize + fld m n .size)) % 2 ^ 64
    | .next => fld m n .next
    | g => fld m b g := by
  have hlt : fld m n .next < 2 ^ 64 := fld_lt nofun
  by_cases h0 : fld m n .next = 0
  · cases g <;> simp (disch := first | omega | decide) [merge, fld_setFld_same, fld_setFld_of_ne,
      fld_setFld_of_apart, h0]
  · have := hnext h0
    cases g <;> simp (disch := first | omega | decide) [merge, fld_setFld_same, fld_setFld_of_ne,
      fld_setFld_of_apart, h0]

theorem fld_merge_behind (hb : b < 2 ^ 64) (h0 : fld m n .next ≠ 0) :
    fld (merge b n m) (fld m n .next) g =
      match g with
      | .prev => b
      | g => fld m (fld m n .next) g := by
  have := hnext h0
  cases g <;> simp (disch := first | omega | decide) [merge, fld_setFld_same, fld_setFld_of_ne,
    fld_setFld_of_apart, h0]

theorem fld_merge_other (hxb : x + 48 ≤ b ∨ b + 48 ≤ x) (hxn : x + 48 ≤ n ∨ n + 48 ≤ x)
    (hx : fld m n .next ≠ 0 → x + 48 ≤ fld m n .next ∨ fld m n .next + 48 ≤ x) :
    fld (merge b n m) x g = fld m x g := by
  by_cases h0 : fld m n .next = 0
  · simp (disch := omega) [merge, fld_setFld_of_apart, h0]
  · have := hnext h0
    have := hx h0
    simp (disch := omega) [merge, fld_setFld_of_apart, h0]

theorem merge_of_not_mem (hib : i < b ∨ b + 48 ≤ i) (hin : i < n ∨ n + 48 ≤ i)
    (hi : fld m n .next ≠ 0 → i < fld m n .next ∨ fld m n .next + 48 ≤ i) :
    merge b n m i = m i := by
  by_cases h0 : fld m n .next = 0
  · simp (disch := omega) [merge, setFld_of_not_mem, fld_setFld_of_apart, h0]
  · have := hnext h0
    have := hi h0
    simp (disch := omega) [merge, setFld_of_not_mem, fld_setFld_of_apart, h0]

end Merge

/-! ## The chain after a split and after a merge -/

namespace Chain

variable (hC : Chain m lo hi S) (hb : b ∈ S)

include hC

theorem le_hi (ha : a ∈ S) : a + 48 + fld m a .size ≤ hi := hC.tiling.le a ha

theorem lt_word (ha : a ∈ S) : a + 48 + fld m a .size < 2 ^ 64 :=
  lt_of_le_of_lt (hC.le_hi ha) hC.hi_lt

theorem next_eq (ha : a ∈ S) (h : fld m a .next ≠ 0) :
    fld m a .next ∈ S ∧ fld m a .next = a + 48 + fld m a .size :=
  hC.tiling.next_mem ha h

/-- Different blocks do not overlap. -/
theorem apart (ha : a ∈ S) (hb : b ∈ S) (hne : a ≠ b) :
    a + 48 + fld m a .size ≤ b ∨ b + 48 + fld m b .size ≤ a :=
  (Nat.lt_or_gt_of_ne hne).imp (hC.tiling.apart a ha b hb) (hC.tiling.apart b hb a ha)

/-- A byte of a block that is behind its header is in no header. -/
theorem payload_apart (ha : a ∈ S) (hb : b ∈ S) (h1 : a + 48 ≤ i)
    (h2 : i < a + 48 + fld m a .size) : i < b ∨ b + 48 ≤ i := by
  by_cases hne : a = b
  · subst hne
    exact .inr h1
  · have := hC.apart ha hb hne
    omega

/-- The chain depends on its headers only. -/
theorem congr (h : ∀ a ∈ S, ∀ f, f ≠ .free → fld m' a f = fld m a f) : Chain m' lo hi S where
  tiling := hC.tiling.congr fun a ha ↦ by
    rw [node, node, h a ha .size nofun, h a ha .prev nofun, h a ha .next nofun]
  hi_lt := hC.hi_lt
  aligned := hC.aligned
  size_dvd a ha := by rw [h a ha .size nofun]; exact hC.size_dvd a ha
  size_pos a ha := by rw [h a ha .size nofun]; exact hC.size_pos a ha
  magic a ha := by rw [h a ha .magic nofun]; exact hC.magic a ha

section Split

variable (hfit : w + 48 < fld m b .size)

include hb hfit

theorem split_next_le (h0 : fld m b .next ≠ 0) : b + 48 + w + 48 ≤ fld m b .next := by
  have := (hC.next_eq hb h0).2
  omega

theorem split_new_lt : b + 48 + w < 2 ^ 64 := by
  have := hC.lt_word hb
  omega

/-- The other blocks keep their headers, except that the block behind has a new neighbour. -/
theorem fld_split_of_ne (ha : a ∈ S) (hne : a ≠ b) (hg : a = fld m b .next → g ≠ .prev) :
    fld (Kmem.split b (b + 48 + w) w w m) a g = fld m a g := by
  have hnext := hC.split_next_le hb hfit
  by_cases hn : a = fld m b .next
  · have h0 : fld m b .next ≠ 0 := hn ▸ (hC.tiling.pos ha).ne'
    have hg := hg hn
    rw [hn, fld_split_behind (by omega) hnext (hC.split_new_lt hb hfit) h0]
    cases g with
    | prev => exact absurd rfl hg
    | _ => rfl
  · have := hC.apart ha hb hne
    refine fld_split_other (by omega) hnext (by omega) (by omega) fun h0 ↦ ?_
    exact hC.tiling.header_apart ha (hC.next_eq hb h0).1 hn

theorem splitAt : Tiling.SplitAt headerSize S (node m) b w
    (node (Kmem.split b (b + 48 + w) w w m)) := by
  have hnext := hC.split_next_le hb hfit
  have hlt := hC.split_new_lt hb hfit
  have hw : w < 2 ^ 64 := by omega
  have hsize := hC.lt_word hb
  refine ⟨?_, ?_, fun h0 ↦ ?_, fun a ha hne hn ↦ ?_⟩
  · rw [node, fld_split_self (by omega) hnext hlt hw, fld_split_self (by omega) hnext hlt hw,
      fld_split_self (by omega) hnext hlt hw]
    rfl
  · rw [node, fld_split_new (by omega) hnext hlt, fld_split_new (by omega) hnext hlt,
      fld_split_new (by omega) hnext hlt]
    simp only [node, headerSize, Node.mk.injEq, and_self, and_true]
    omega
  · rw [node, show (node m b).next = fld m b .next from rfl,
      fld_split_behind (by omega) hnext hlt h0, fld_split_behind (by omega) hnext hlt h0,
      fld_split_behind (by omega) hnext hlt h0]
    rfl
  · rw [node, node, hC.fld_split_of_ne hb hfit ha hne fun h ↦ absurd h hn,
      hC.fld_split_of_ne hb hfit ha hne fun h ↦ absurd h hn,
      hC.fld_split_of_ne hb hfit ha hne fun h ↦ absurd h hn]

/-- **Splitting a block of a chain gives a chain** with one more block. -/
theorem split (hw : 16 ∣ w) (hw0 : 0 < w) :
    Chain (Kmem.split b (b + 48 + w) w w m) lo hi (insert (b + 48 + w) S) := by
  have hnext := hC.split_next_le hb hfit
  have hlt := hC.split_new_lt hb hfit
  have hsize := hC.lt_word hb
  have hb16 := hC.aligned b hb
  have hs16 := hC.size_dvd b hb
  have hother : ∀ a ∈ S, a ≠ b → ∀ g, g ≠ .prev →
      fld (Kmem.split b (b + 48 + w) w w m) a g = fld m a g :=
    fun a ha hab _ hg ↦ hC.fld_split_of_ne hb hfit ha hab fun _ ↦ hg
  refine ⟨hC.tiling.split (hC.splitAt hb hfit) (by decide) hb hfit.le, hC.hi_lt, ?_, ?_, ?_, ?_⟩
  · rintro a (rfl | ha)
    · omega
    · exact hC.aligned a ha
  · rintro a (rfl | ha)
    · rw [fld_split_new (by omega) hnext hlt]
      simp only [headerSize]
      omega
    · by_cases hab : a = b
      · rw [hab, fld_split_self (by omega) hnext hlt (by omega)]
        exact hw
      · rw [hother a ha hab .size nofun]
        exact hC.size_dvd a ha
  · rintro a (rfl | ha)
    · rw [fld_split_new (by omega) hnext hlt]
      simp only [headerSize]
      omega
    · by_cases hab : a = b
      · rw [hab, fld_split_self (by omega) hnext hlt (by omega)]
        exact hw0
      · rw [hother a ha hab .size nofun]
        exact hC.size_pos a ha
  · rintro a (rfl | ha)
    · rw [fld_split_new (by omega) hnext hlt]
    · by_cases hab : a = b
      · rw [hab, fld_split_self (by omega) hnext hlt (by omega)]
        exact hC.magic b hb
      · rw [hother a ha hab .magic nofun]
        exact hC.magic a ha

theorem fld_free_split (ha : a ∈ S) :
    fld (Kmem.split b (b + 48 + w) w w m) a .free = fld m a .free := by
  by_cases hab : a = b
  · have hlt := hC.lt_word hb
    rw [hab, fld_split_self (by omega) (hC.split_next_le hb hfit) (hC.split_new_lt hb hfit)
      (by omega)]
  · exact hC.fld_split_of_ne hb hfit ha hab fun _ ↦ nofun

/-- A split does not touch the other blocks behind their headers. -/
theorem split_payload (ha : a ∈ S) (hne : a ≠ b) (h1 : a + 48 ≤ i)
    (h2 : i < a + 48 + fld m a .size) : Kmem.split b (b + 48 + w) w w m i = m i := by
  have := hC.apart ha hb hne
  refine split_of_not_mem (by omega) (hC.split_next_le hb hfit) (by omega) (by omega) fun h0 ↦ ?_
  exact hC.payload_apart ha (hC.next_eq hb h0).1 h1 h2

end Split

section Merge

variable {n : ℕ} (hn : fld m b .next = n) (h0 : n ≠ 0)

include hb hn h0

theorem merge_next_eq : n ∈ S ∧ n = b + 48 + fld m b .size := hn ▸ hC.next_eq hb (hn ▸ h0)

theorem merge_next_le (h : fld m n .next ≠ 0) : n + 48 ≤ fld m n .next := by
  have := (hC.next_eq (hC.merge_next_eq hb hn h0).1 h).2
  omega

/-- The other blocks keep their headers, except that the block behind has a new neighbour. -/
theorem fld_merge_of_ne (ha : a ∈ S) (hab : a ≠ b) (han : a ≠ n)
    (hg : a = fld m n .next → g ≠ .prev) : fld (Kmem.merge b n m) a g = fld m a g := by
  obtain ⟨hnS, hne⟩ := hC.merge_next_eq hb hn h0
  have hnext := hC.merge_next_le hb hn h0
  have hlt := hC.lt_word hb
  by_cases hnn : a = fld m n .next
  · have h1 : fld m n .next ≠ 0 := hnn ▸ (hC.tiling.pos ha).ne'
    have hg := hg hnn
    rw [hnn, fld_merge_behind (by omega) hnext (by omega) h1]
    cases g with
    | prev => exact absurd rfl hg
    | _ => rfl
  · exact fld_merge_other (by omega) hnext (hC.tiling.header_apart ha hb hab)
      (hC.tiling.header_apart ha hnS han) fun h1 ↦
        hC.tiling.header_apart ha (hC.next_eq hnS h1).1 hnn

theorem merged_size : fld (Kmem.merge b n m) b .size = fld m b .size + 48 + fld m n .size := by
  obtain ⟨hnS, hne⟩ := hC.merge_next_eq hb hn h0
  have hlt := hC.lt_word hnS
  rw [fld_merge_self (by omega) (hC.merge_next_le hb hn h0)]
  simp only [headerSize]
  omega

theorem mergedAt : Tiling.MergedAt headerSize S (node m) b (node (Kmem.merge b n m)) := by
  obtain ⟨hnS, hne⟩ := hC.merge_next_eq hb hn h0
  have hnext := hC.merge_next_le hb hn h0
  have hlt := hC.lt_word hb
  have hnode : (node m b).next = n := hn
  refine ⟨?_, fun h1 ↦ ?_, fun a ha hab han hnn ↦ ?_⟩
  · rw [hnode, node, hC.merged_size hb hn h0, fld_merge_self (by omega) hnext,
      fld_merge_self (by omega) hnext]
    rfl
  · rw [hnode] at h1 ⊢
    rw [node, show (node m n).next = fld m n .next from rfl,
      fld_merge_behind (by omega) hnext (by omega) h1,
      fld_merge_behind (by omega) hnext (by omega) h1,
      fld_merge_behind (by omega) hnext (by omega) h1]
    rfl
  · rw [hnode] at han hnn
    rw [node, node, hC.fld_merge_of_ne hb hn h0 ha hab han fun h ↦ absurd h hnn,
      hC.fld_merge_of_ne hb hn h0 ha hab han fun h ↦ absurd h hnn,
      hC.fld_merge_of_ne hb hn h0 ha hab han fun h ↦ absurd h hnn]

/-- **Merging a block of a chain with the next one gives a chain** with one block less. -/
theorem merge : Chain (Kmem.merge b n m) lo hi (S \ {n}) := by
  obtain ⟨hnS, hne⟩ := hC.merge_next_eq hb hn h0
  have hnext := hC.merge_next_le hb hn h0
  have hsize := hC.merged_size hb hn h0
  have hother : ∀ a ∈ S \ {n}, a ≠ b → ∀ g, g ≠ .prev → fld (Kmem.merge b n m) a g = fld m a g :=
    fun a ha hab _ hg ↦ hC.fld_merge_of_ne hb hn h0 ha.1 hab ha.2 fun _ ↦ hg
  have htiling := hC.tiling.merge (hC.mergedAt hb hn h0) (by decide) hb
    fun h ↦ h0 (hn.symm.trans h)
  rw [show (node m b).next = n from hn] at htiling
  refine ⟨htiling, hC.hi_lt, fun a ha ↦ hC.aligned a ha.1, fun a ha ↦ ?_, fun a ha ↦ ?_,
    fun a ha ↦ ?_⟩
  · by_cases hab : a = b
    · have h1 := hC.size_dvd b hb
      have h2 := hC.size_dvd n hnS
      rw [hab, hsize]
      omega
    · rw [hother a ha hab .size nofun]
      exact hC.size_dvd a ha.1
  · by_cases hab : a = b
    · rw [hab, hsize]
      omega
    · rw [hother a ha hab .size nofun]
      exact hC.size_pos a ha.1
  · by_cases hab : a = b
    · rw [hab, fld_merge_self (by omega) hnext]
      exact hC.magic b hb
    · rw [hother a ha hab .magic nofun]
      exact hC.magic a ha.1

theorem fld_free_merge (ha : a ∈ S) (han : a ≠ n) :
    fld (Kmem.merge b n m) a .free = fld m a .free := by
  by_cases hab : a = b
  · have := (hC.merge_next_eq hb hn h0).2
    rw [hab, fld_merge_self (by omega) (hC.merge_next_le hb hn h0)]
  · exact hC.fld_merge_of_ne hb hn h0 ha hab han fun _ ↦ nofun

/-- A merge does not touch the blocks behind their headers. -/
theorem merge_payload (ha : a ∈ S) (h1 : a + 48 ≤ i) (h2 : i < a + 48 + fld m a .size) :
    Kmem.merge b n m i = m i := by
  obtain ⟨hnS, hne⟩ := hC.merge_next_eq hb hn h0
  exact merge_of_not_mem (by omega) (hC.merge_next_le hb hn h0) (hC.payload_apart ha hb h1 h2)
    (hC.payload_apart ha hnS h1 h2) fun h ↦ hC.payload_apart ha (hC.next_eq hnS h).1 h1 h2

end Merge

end Chain

end Kmem
end Mcsos
