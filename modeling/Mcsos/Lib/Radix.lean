import Mathlib.Data.List.Induction
import Mathlib.Data.Set.Insert

/-!
# Radix trees of tables

A memory holds tables of entries, and an entry may lead to a further table.  `walk` follows a path
of indices from the root, and `trail` collects the entries on the way.  `Tree` says that the tables
that are at most `n` steps from the root form a tree, which is where no two paths meet, and that all
of them belong to a given set.

There are two ways to change such a tree.  An entry of a table at depth `n` can be overwritten,
which no walk notices (`Tree.walk_leaf`).  Or an entry that leads nowhere can be made to lead to a
table that is not yet in use and that has no way out; then the walk to it is the only new one
(`Tree.walk_grow`).
-/

set_option autoImplicit false

namespace Radix

variable {P I E : Type*} {child : E → Option P} {mem mem' : P → I → E} {root p q : P} {n : ℕ}
  {owned : Set P}

/-- The table at the end of a path. -/
def walk (child : E → Option P) (mem : P → I → E) (root : P) (path : List I) : Option P :=
  path.foldlM (fun p i ↦ child (mem p i)) root

@[simp] theorem walk_nil : walk child mem root [] = some root := rfl

theorem walk_cons (i : I) (a : List I) :
    walk child mem root (i :: a) = (child (mem root i)).bind fun p ↦ walk child mem p a := rfl

theorem walk_append (a b : List I) :
    walk child mem root (a ++ b) = (walk child mem root a).bind fun p ↦ walk child mem p b :=
  List.foldlM_append

theorem walk_concat (a : List I) (i : I) :
    walk child mem root (a ++ [i]) = (walk child mem root a).bind fun p ↦ child (mem p i) := by
  rw [walk_append]
  exact congrArg _ (funext fun p ↦ bind_pure _)

theorem walk_concat_eq_some {a : List I} {i : I} :
    walk child mem root (a ++ [i]) = some q ↔
      ∃ p, walk child mem root a = some p ∧ child (mem p i) = some q := by
  rw [walk_concat, Option.bind_eq_some_iff]

/-- The entries that are read on the way along a path. -/
def trail (child : E → Option P) (mem : P → I → E) : P → List I → Option (List E)
  | _, [] => some []
  | p, i :: path => (child (mem p i)).bind fun q ↦ (trail child mem q path).map (mem p i :: ·)

theorem trail_concat {a : List I} {i : I} {es : List E} (hp : walk child mem root a = some p)
    (hes : trail child mem root a = some es) (hq : child (mem p i) = some q) :
    trail child mem root (a ++ [i]) = some (es ++ [mem p i]) := by
  induction a generalizing root es with
  | nil =>
    obtain rfl := Option.some.inj hp
    obtain rfl := Option.some.inj hes
    simp [trail, hq]
  | cons j a ih =>
    rw [walk_cons, Option.bind_eq_some_iff] at hp
    obtain ⟨r, hr, hp⟩ := hp
    rw [trail, hr, Option.bind_some, Option.map_eq_some_iff] at hes
    obtain ⟨es', hes', rfl⟩ := hes
    simp [trail, hr, ih hp hes']

/-- A walk reads the tables on its way only. -/
theorem walk_congr (h : ∀ a p, a.length < n → walk child mem root a = some p →
    ∀ i, child (mem' p i) = child (mem p i)) (a : List I) (ha : a.length ≤ n) :
    walk child mem' root a = walk child mem root a := by
  induction a using List.reverseRecOn with
  | nil => rfl
  | append_singleton a i ih =>
    rw [List.length_append] at ha
    rw [walk_concat, walk_concat, ih (Nat.le_of_lt ha)]
    cases hp : walk child mem root a with
    | none => rfl
    | some p => exact h a p ha hp i

/-- There is one walk from a root without a way out. -/
theorem eq_of_leaf (hroot : ∀ i, child (mem root i) = none) {a : List I}
    (hp : walk child mem root a = some p) : a = [] ∧ p = root := by
  induction a using List.reverseRecOn generalizing p with
  | nil => exact ⟨rfl, (Option.some.inj hp).symm⟩
  | append_singleton a i ih =>
    obtain ⟨r, hr, hc⟩ := walk_concat_eq_some.1 hp
    rw [(ih hr).2, hroot] at hc
    cases hc

/-- The tables in reach of the root form a tree of depth `n`, and belong to `owned`. -/
structure Tree (child : E → Option P) (mem : P → I → E) (root : P) (n : ℕ) (owned : Set P) :
    Prop where
  unique : ∀ a b p, a.length ≤ n → b.length ≤ n → walk child mem root a = some p →
    walk child mem root b = some p → a = b
  mem_owned : ∀ a p, a.length ≤ n → walk child mem root a = some p → p ∈ owned

namespace Tree

theorem of_walk_eq {owned' : Set P} (h : Tree child mem root n owned) (hsub : owned ⊆ owned')
    (heq : ∀ a, a.length ≤ n → walk child mem' root a = walk child mem root a) :
    Tree child mem' root n owned' where
  unique a b p ha hb hpa hpb := h.unique a b p ha hb (heq a ha ▸ hpa) (heq b hb ▸ hpb)
  mem_owned a p ha hp := hsub (h.mem_owned a p ha (heq a ha ▸ hp))

/-- A root without a way out is a tree. -/
theorem of_leaf (hroot : ∀ i, child (mem root i) = none) (hmem : root ∈ owned) :
    Tree child mem root n owned := by
  refine ⟨fun a b p _ _ ha hb ↦ ?_, fun a p _ hp ↦ ?_⟩
  · rw [(eq_of_leaf hroot ha).1, (eq_of_leaf hroot hb).1]
  · rw [(eq_of_leaf hroot hp).2]
    exact hmem

/-- Walks do not notice what happens outside of the tree. -/
theorem walk_outside (h : Tree child mem root n owned) (hmem : ∀ r ∈ owned, mem' r = mem r)
    (a : List I) (ha : a.length ≤ n) : walk child mem' root a = walk child mem root a :=
  walk_congr (fun b p hb hp i ↦ by rw [hmem p (h.mem_owned b p hb.le hp)]) a ha

/-- Walks do not notice changes of the tables at depth `n`. -/
theorem walk_leaf (h : Tree child mem root n owned) {a : List I} (ha : a.length = n)
    (hp : walk child mem root a = some p) (hmem : ∀ r ∈ owned, r ≠ p → mem' r = mem r)
    (b : List I) (hb : b.length ≤ n) : walk child mem' root b = walk child mem root b := by
  refine walk_congr (fun c r hc hr i ↦ ?_) b hb
  have hne : r ≠ p := by
    rintro rfl
    have := h.unique a c r ha.le hc.le hp hr
    rw [this] at ha
    exact absurd ha hc.ne
  rw [hmem r (h.mem_owned c r hc.le hr) hne]

/-- A new table `q` behind the entry `i` of the table at the end of `a`. -/
structure Grown (child : E → Option P) (mem : P → I → E) (root : P) (owned : Set P) (a : List I)
    (i : I) (p q : P) (mem' : P → I → E) : Prop where
  walk : walk child mem root a = some p
  free : child (mem p i) = none
  fresh : q ∉ owned
  same : ∀ r ∈ owned, ∀ j, r ≠ p ∨ j ≠ i → mem' r j = mem r j
  link : child (mem' p i) = some q
  empty : ∀ j, child (mem' q j) = none

variable {a : List I} {i : I}

theorem walk_grow (h : Tree child mem root n owned) (ha : a.length < n)
    (g : Grown child mem root owned a i p q mem') (b : List I) (hb : b.length ≤ n) (r : P) :
    Radix.walk child mem' root b = some r ↔
      Radix.walk child mem root b = some r ∨ b = a ++ [i] ∧ r = q := by
  induction b using List.reverseRecOn generalizing r with
  | nil => simp
  | append_singleton b j ih =>
    rw [List.length_append] at hb
    have ih := ih (Nat.le_of_lt hb)
    have happ : b ++ [j] = a ++ [i] ↔ b = a ∧ j = i := by simp
    rw [walk_concat_eq_some, walk_concat_eq_some, happ]
    constructor
    · rintro ⟨t, ht, hc⟩
      rcases (ih t).1 ht with ht | ⟨-, rfl⟩
      · by_cases htj : t = p ∧ j = i
        · obtain ⟨rfl, rfl⟩ := htj
          right
          rw [g.link] at hc
          exact ⟨⟨h.unique b a t (Nat.le_of_lt hb) ha.le ht g.walk, rfl⟩,
            (Option.some.inj hc).symm⟩
        · left
          rw [g.same t (h.mem_owned b t (Nat.le_of_lt hb) ht) j (not_and_or.1 htj)] at hc
          exact ⟨t, ht, hc⟩
      · rw [g.empty] at hc
        cases hc
    · rintro (⟨t, ht, hc⟩ | ⟨⟨rfl, rfl⟩, rfl⟩)
      · refine ⟨t, (ih t).2 (.inl ht), ?_⟩
        rw [g.same t (h.mem_owned b t (Nat.le_of_lt hb) ht) j, hc]
        by_contra hcon
        simp only [not_or, not_not] at hcon
        rw [hcon.1, hcon.2, g.free] at hc
        cases hc
      · exact ⟨p, (ih p).2 (.inl g.walk), g.link⟩

theorem grow (h : Tree child mem root n owned) (ha : a.length < n)
    (g : Grown child mem root owned a i p q mem') : Tree child mem' root n (insert q owned) := by
  have hwalk := h.walk_grow ha g
  refine ⟨fun b c r hb hc hrb hrc ↦ ?_, fun b r hb hr ↦ ?_⟩
  · rcases (hwalk b hb r).1 hrb with hrb | ⟨rfl, rfl⟩ <;>
      rcases (hwalk c hc r).1 hrc with hrc | ⟨rfl, hq⟩
    · exact h.unique b c r hb hc hrb hrc
    · exact absurd (hq ▸ h.mem_owned b r hb hrb) g.fresh
    · exact absurd (h.mem_owned c r hc hrc) g.fresh
    · rfl
  · rcases (hwalk b hb r).1 hr with hr | ⟨-, rfl⟩
    · exact Set.mem_insert_of_mem _ (h.mem_owned b r hb hr)
    · exact Set.mem_insert _ _

end Tree

end Radix
