import Mathlib.Data.List.Induction
import Mathlib.Data.List.TakeWhile
import Mathlib.Tactic.Common

/-!
# Paths

A path is a list that is cut at a separator, and the pieces are the names by which one walks down a
tree.

Cutting is `List.splitOn`.  A program that scans a path finds the first piece by `List.takeWhile`
and what comes after it by `List.dropWhile`; `splitOn_of_dropWhile_nil` and
`splitOn_of_dropWhile_cons` say that it sees the same pieces.

A tree is given by a relation: which node is a child of which, and by what name.  If every node is
the child of one node only, by one name, and the root of none, then the way to a node is unique
(`Walk.names_unique`).
-/

set_option autoImplicit false

namespace PathWalk

/-! ## Cutting at a separator -/

section Cut

variable {α : Type} {sep b : α} {l rest piece : List α}

theorem length_lt_of_dropWhile_cons {p : α → Bool} (h : l.dropWhile p = b :: rest) :
    rest.length < l.length := by
  have := (List.dropWhile_sublist (l := l) p).length_le
  rw [h, List.length_cons] at this
  omega

variable [DecidableEq α]

theorem notMem_takeWhile_bne (sep : α) (l : List α) : sep ∉ l.takeWhile (· != sep) := by
  intro h
  simpa using List.mem_takeWhile_imp h

/-- There is one piece if there is no separator. -/
theorem splitOn_of_dropWhile_nil (h : l.dropWhile (· != sep) = []) :
    l.splitOn sep = [l.takeWhile (· != sep)] := by
  have hl : l.takeWhile (· != sep) = l := by
    have := List.takeWhile_append_dropWhile (p := (· != sep)) (l := l)
    rwa [h, List.append_nil] at this
  rw [hl]
  refine List.splitOn_eq_singleton ?_
  rw [← hl]
  exact notMem_takeWhile_bne sep l

/-- The first piece ends at the first separator. -/
theorem splitOn_of_dropWhile_cons (h : l.dropWhile (· != sep) = b :: rest) :
    l.splitOn sep = l.takeWhile (· != sep) :: rest.splitOn sep := by
  have hb : b = sep := by
    have := List.head_dropWhile_not (· != sep) (l := l) (by rw [h]; exact List.cons_ne_nil _ _)
    simpa [h] using this
  have hl := List.takeWhile_append_dropWhile (p := (· != sep)) (l := l)
  rw [h, hb] at hl
  nth_rewrite 1 [← hl]
  exact List.splitOn_append_cons_self_of_not_mem (notMem_takeWhile_bne sep l) rest

/-- Pieces have no separators, and nothing that was not in the list. -/
theorem mem_splitOn (h : piece ∈ l.splitOn sep) : sep ∉ piece ∧ ∀ x ∈ piece, x ∈ l := by
  induction hn : l.length using Nat.strongRecOn generalizing l with
  | ind n ih =>
    have htake : sep ∉ l.takeWhile (· != sep) ∧ ∀ x ∈ l.takeWhile (· != sep), x ∈ l :=
      ⟨notMem_takeWhile_bne sep l, fun x hx ↦ (List.takeWhile_sublist _).mem hx⟩
    cases hdrop : l.dropWhile (· != sep) with
    | nil =>
      rw [splitOn_of_dropWhile_nil hdrop, List.mem_singleton] at h
      rw [h]
      exact htake
    | cons b rest =>
      rw [splitOn_of_dropWhile_cons hdrop, List.mem_cons] at h
      rcases h with rfl | h
      · exact htake
      · have hlt := length_lt_of_dropWhile_cons hdrop
        obtain ⟨h1, h2⟩ := ih rest.length (by omega) h rfl
        refine ⟨h1, fun x hx ↦ (List.dropWhile_sublist (l := l) (· != sep)).mem ?_⟩
        rw [hdrop]
        exact List.mem_cons_of_mem b (h2 x hx)

theorem splitOn_injective (sep : α) : Function.Injective (List.splitOn sep) := by
  intro l l' h
  have hl : [sep].intercalate (l.splitOn sep) = l := List.intercalate_splitOn sep
  rw [← hl, h, List.intercalate_splitOn]

end Cut

/-! ## Walking down -/

theorem bind_eq_ok {ε α β : Type} {x : Except ε α} {f : α → Except ε β} {b : β} :
    x >>= f = .ok b ↔ ∃ a, x = .ok a ∧ f a = .ok b := by
  cases x with
  | error e =>
    constructor
    · intro h
      cases h
    · rintro ⟨a, h, -⟩
      cases h
  | ok a =>
    constructor
    · exact fun h ↦ ⟨a, rfl, h⟩
    · rintro ⟨a', h, hb⟩
      obtain rfl := Except.ok.inj h
      exact hb

section Tree

variable {ν κ : Type} {child : ν → κ → ν → Prop} {root n : ν} {names names' : List κ}

/-- The names lead from the one node to the other. -/
inductive Walk (child : ν → κ → ν → Prop) (root : ν) : List κ → ν → Prop
  | nil : Walk child root [] root
  | snoc {names : List κ} {name : κ} {a b : ν} (h : Walk child root names a)
      (hc : child a name b) : Walk child root (names ++ [name]) b

/-- There is one way to each node. -/
theorem Walk.names_unique
    (hinj : ∀ a b s s' c, child a s c → child b s' c → a = b ∧ s = s')
    (hroot : ∀ a s, ¬ child a s root) (h : Walk child root names n)
    (h' : Walk child root names' n) : names = names' := by
  induction h generalizing names' with
  | nil =>
    cases h' with
    | nil => rfl
    | snoc _ hc => exact absurd hc (hroot _ _)
  | snoc _ hc ih =>
    cases h' with
    | nil => exact absurd hc (hroot _ _)
    | snoc h' hc' =>
      obtain ⟨rfl, rfl⟩ := hinj _ _ _ _ _ hc hc'
      rw [ih h']

/-- A program that looks up one name after the other walks down, among nodes that satisfy `P`. -/
theorem Walk.of_foldlM {ε : Type} {f : ν → κ → Except ε ν} {P : ν → Prop} (hroot : P root)
    (hf : ∀ a s b, P a → s ∈ names → f a s = .ok b → child a s b ∧ P b)
    (h : names.foldlM f root = .ok n) : Walk child root names n ∧ P n := by
  induction names using List.reverseRecOn generalizing n with
  | nil =>
    obtain rfl := Except.ok.inj h
    exact ⟨.nil, hroot⟩
  | append_singleton names name ih =>
    rw [List.foldlM_append, bind_eq_ok] at h
    obtain ⟨a, ha, hlast⟩ := h
    rw [List.foldlM_cons, bind_eq_ok] at hlast
    obtain ⟨b, hb, hn⟩ := hlast
    obtain rfl := Except.ok.inj hn
    obtain ⟨hwalk, hPa⟩ := ih (fun a s b hP hs ↦ hf a s b hP (List.mem_append_left _ hs)) ha
    obtain ⟨hc, hPb⟩ := hf a name b hPa (List.mem_append_right _ (List.mem_singleton_self name)) hb
    exact ⟨.snoc hwalk hc, hPb⟩

end Tree

end PathWalk
