import Mcsos.Lib.Program

/-!
# What a call ends in

`Ends x s Q E` is the two-sided postcondition of a program run from the state `s`: if the call
succeeds, its result and its state satisfy `Q`, and if it fails, its error and its state satisfy
`E`.  Since the starting state is a parameter, `Q` and `E` can speak about it, and no auxiliary
variables are needed.

The rules follow the structure of a program.  A sequence of calls is worked off from the front with
`ends_bind`, early returns with `ends_failIf` and `ends_expect`; every step asks for the error
condition `E` of the whole sequence at the place where it may be left.
-/

set_option autoImplicit false

namespace Program

universe u

variable {ε σ α β : Type u}

/-- Run from `s`, the call ends with a result in `Q` or an error in `E`.  It is irreducible, since
tactics would otherwise run the program to see whether the goal is an implication. -/
@[irreducible] def Ends (x : EStateM ε σ α) (s : σ) (Q : α → σ → Prop) (E : ε → σ → Prop) : Prop :=
  match x s with
  | .ok a s' => Q a s'
  | .error e s' => E e s'

section Rules

variable {x : EStateM ε σ α} {f : α → EStateM ε σ β} {s s' : σ}
  {Q Q' : α → σ → Prop} {R : β → σ → Prop} {E E' : ε → σ → Prop}

theorem ends_of_ok {a : α} (h : x s = .ok a s') (hq : Q a s') : Ends x s Q E := by
  rw [Ends, h]; exact hq

theorem ends_of_error {e : ε} (h : x s = .error e s') (he : E e s') : Ends x s Q E := by
  rw [Ends, h]; exact he

theorem Ends.of_eq_ok {a : α} (h : Ends x s Q E) (hx : x s = .ok a s') : Q a s' := by
  rwa [Ends, hx] at h

theorem Ends.of_eq_error {e : ε} (h : Ends x s Q E) (hx : x s = .error e s') : E e s' := by
  rwa [Ends, hx] at h

theorem Ends.mono (h : Ends x s Q E) (hQ : ∀ a s', Q a s' → Q' a s')
    (hE : ∀ e s', E e s' → E' e s') : Ends x s Q' E' := by
  rw [Ends] at h ⊢
  cases hx : x s with
  | ok a s' => rw [hx] at h; exact hQ a s' h
  | error e s' => rw [hx] at h; exact hE e s' h

/-- Two statements about the same run. -/
theorem Ends.and (h : Ends x s Q E) (h' : Ends x s Q' E') :
    Ends x s (fun a s' ↦ Q a s' ∧ Q' a s') fun e s' ↦ E e s' ∧ E' e s' := by
  cases hx : x s with
  | ok a s' => exact ends_of_ok hx ⟨h.of_eq_ok hx, h'.of_eq_ok hx⟩
  | error e s' => exact ends_of_error hx ⟨h.of_eq_error hx, h'.of_eq_error hx⟩

/-- A property that both ends establish holds of the state left behind. -/
theorem Ends.after {P : σ → Prop} (h : Ends x s (fun _ ↦ P) fun _ ↦ P) : P (after x s) := by
  rw [Ends] at h
  rw [Program.after]
  cases hx : x s with
  | ok a s' => rw [hx] at h; exact h
  | error e s' => rw [hx] at h; exact h

/-- A call that cannot fail. -/
theorem Ends.errorOf (h : Ends x s (fun _ _ ↦ True) fun _ _ ↦ False) : errorOf x s = none := by
  cases hx : x s with
  | ok a s' => exact errorOf_of_ok hx
  | error e s' => exact (h.of_eq_error hx).elim

theorem ends_pure {a : α} (h : Q a s) : Ends (pure a) s Q E := ends_of_ok rfl h

theorem ends_bind (hx : Ends x s Q E) (hf : ∀ a s', Q a s' → Ends (f a) s' R E) :
    Ends (x >>= f) s R E := by
  rw [Ends] at hx
  cases h : x s with
  | ok a s' =>
    rw [h] at hx
    have hf := hf a s' hx
    rw [Ends] at hf ⊢
    rwa [bind_of_ok h]
  | error e s' =>
    rw [h] at hx
    rw [Ends, bind_of_error h]
    exact hx

theorem ends_bind_ok {a : α} {s' : σ} (h : x s = .ok a s') (hf : Ends (f a) s' R E) :
    Ends (x >>= f) s R E := by
  rw [Ends] at hf ⊢
  rwa [bind_of_ok h]

theorem ends_get {f : σ → EStateM ε σ β} (h : Ends (f s) s R E) : Ends (get >>= f) s R E := by
  rw [Ends] at h ⊢
  exact h

theorem ends_modify {g : σ → σ} {f : PUnit → EStateM ε σ β} (h : Ends (f ⟨⟩) (g s) R E) :
    Ends (modify g >>= f) s R E := by
  rw [Ends] at h ⊢
  exact h

theorem ends_zoom {τ : Type u} {get : σ → τ} {put : τ → σ → σ} {x : EStateM ε τ α}
    (h : Ends x (get s) (fun a t ↦ Q a (put t s)) fun e t ↦ E e (put t s)) :
    Ends (zoom get put x) s Q E := by
  rw [Ends] at h ⊢
  rw [zoom]
  cases hx : x (get s) with
  | ok a t => rw [hx] at h; exact h
  | error e t => rw [hx] at h; exact h

theorem ends_onError {f : σ → σ} (h : Ends x s Q fun e s' ↦ E e (f s')) :
    Ends (onError x f) s Q E := by
  rw [Ends] at h ⊢
  rw [onError]
  cases hx : x s with
  | ok a s' => rw [hx] at h; exact h
  | error e s' => rw [hx] at h; exact h

theorem ends_failIf {c : Prop} [Decidable c] {e : ε} {f : PUnit → EStateM ε σ β} (hc : c → E e s)
    (hf : ¬ c → Ends (f ⟨⟩) s R E) : Ends (failIf c e >>= f) s R E := by
  by_cases h : c
  · exact ends_of_error (bind_of_error (failIf_of_pos h e s)) (hc h)
  · have hf := hf h
    rw [Ends] at hf ⊢
    rwa [bind_of_ok (failIf_of_neg h e s)]

theorem ends_expect {o : Option α} {e : ε} (hn : o = none → E e s)
    (hf : ∀ a, o = some a → Ends (f a) s R E) : Ends (expect o e >>= f) s R E := by
  cases o with
  | none => exact ends_of_error (bind_of_error (expect_none e s)) (hn rfl)
  | some a =>
    have hf := hf a rfl
    rw [Ends] at hf ⊢
    rwa [bind_of_ok (expect_some a e s)]

/-- A loop of calls that each keep an invariant. -/
theorem ends_forM {l : List β} {f : β → EStateM ε σ PUnit} {P : σ → Prop} (hs : P s)
    (hf : ∀ b ∈ l, ∀ s', P s' → Ends (f b) s' (fun _ ↦ P) E) :
    Ends (l.forM f) s (fun _ ↦ P) E := by
  induction l generalizing s with
  | nil => exact ends_pure hs
  | cons b l ih =>
    exact ends_bind (hf b List.mem_cons_self s hs) fun _ s' hs' ↦
      ih hs' fun c hc ↦ hf c (List.mem_cons_of_mem _ hc)

/-- A loop of calls that each keep an invariant and establish a fact about their own element, which
the calls that follow do not undo. -/
theorem ends_forM_each {l : List β} {f : β → EStateM ε σ PUnit} {P : σ → Prop} {F : β → σ → Prop}
    (hs : P s) (hf : ∀ b ∈ l, ∀ s', P s' →
      Ends (f b) s' (fun _ s'' ↦ P s'' ∧ F b s'' ∧ ∀ c, F c s' → F c s'') E) :
    Ends (l.forM f) s (fun _ s' ↦ P s' ∧ (∀ b ∈ l, F b s') ∧ ∀ c, F c s → F c s') E := by
  induction l generalizing s with
  | nil => exact ends_pure ⟨hs, fun b hb ↦ absurd hb List.not_mem_nil, fun _ h ↦ h⟩
  | cons b l ih =>
    refine ends_bind (hf b List.mem_cons_self s hs) fun _ s' hs' ↦ ?_
    obtain ⟨hP, hb, hkeep⟩ := hs'
    refine (ih hP fun c hc ↦ hf c (List.mem_cons_of_mem _ hc)).mono ?_ fun _ _ h ↦ h
    rintro - s'' ⟨hP', hl, hkeep'⟩
    refine ⟨hP', fun c hc ↦ ?_, fun c hc ↦ hkeep' c (hkeep c hc)⟩
    rcases List.mem_cons.1 hc with rfl | hc
    · exact hkeep' c hb
    · exact hl c hc

end Rules

theorem ends_succeeds {ε σ α : Type} {x : EStateM ε σ α} {s : σ} {Q : Bool → σ → Prop}
    {E : ε → σ → Prop} (h : Ends x s (fun _ ↦ Q true) fun _ ↦ Q false) :
    Ends (succeeds x) s Q E := by
  rw [Ends] at h ⊢
  rw [succeeds]
  cases hx : x s with
  | ok a s' => rw [hx] at h; exact h
  | error e s' => rw [hx] at h; exact h

/-! ## Errors

Which errors a call can end in, whatever the state. -/

section Raises

variable {R : ε → Prop} {x : EStateM ε σ α} {f : α → EStateM ε σ β}

/-- Every error that `x` ends in satisfies `R`. -/
def Raises (R : ε → Prop) (x : EStateM ε σ α) : Prop := ∀ s e s', x s = .error e s' → R e

theorem Raises.of_errorOf {s : σ} {e : ε} (hx : Raises R x) (h : Program.errorOf x s = some e) :
    R e := by
  cases hs : x s with
  | ok a s' =>
    rw [errorOf_of_ok hs] at h
    cases h
  | error e' s' =>
    rw [errorOf_of_error hs] at h
    cases h
    exact hx s e s' hs

theorem raises_pure (a : α) : Raises R (pure a : EStateM ε σ α) := by
  intro s e s' h
  cases h

theorem raises_throw {e : ε} (he : R e) : Raises R (throw e : EStateM ε σ α) := by
  intro s e' s' h
  cases h
  exact he

theorem raises_failIf {c : Prop} [Decidable c] {e : ε} (he : R e) :
    Raises R (failIf c e : EStateM ε σ PUnit) := by
  rw [failIf]
  split
  · exact raises_throw he
  · exact raises_pure _

theorem raises_expect {o : Option α} {e : ε} (he : R e) :
    Raises R (expect o e : EStateM ε σ α) := by
  cases o with
  | none => exact raises_throw he
  | some a => exact raises_pure a

theorem Raises.bind (hx : Raises R x) (hf : ∀ a, Raises R (f a)) : Raises R (x >>= f) := by
  intro s e s' h
  cases hs : x s with
  | ok a s1 =>
    rw [bind_of_ok hs] at h
    exact hf a s1 e s' h
  | error e1 s1 =>
    rw [bind_of_error hs] at h
    cases h
    exact hx s e s' hs

end Raises

/-! ## Checks

A validator changes nothing and either accepts or rejects.  `Checks x P` says that it accepts
exactly when `P` holds; the rules compute the `P` of a sequence of validators. -/

section Checks

variable {ε σ β : Type u} {x : EStateM ε σ PUnit} {P Q : Prop}

/-- `x` leaves the state alone, and succeeds exactly when `P` holds. -/
def Checks (x : EStateM ε σ PUnit) (P : Prop) : Prop :=
  ∀ s, (P → x s = .ok ⟨⟩ s) ∧ (¬ P → ∃ e, x s = .error e s)

theorem Checks.congr (h : Checks x P) (hPQ : P ↔ Q) : Checks x Q := fun s ↦
  ⟨fun hQ ↦ (h s).1 (hPQ.2 hQ), fun hQ ↦ (h s).2 fun hP ↦ hQ (hPQ.1 hP)⟩

theorem checks_failIf (c : Prop) [Decidable c] (e : ε) :
    Checks (failIf c e : EStateM ε σ PUnit) (¬ c) := fun s ↦
  ⟨fun h ↦ failIf_of_neg h e s, fun h ↦ ⟨e, failIf_of_pos (not_not.1 h) e s⟩⟩

theorem Checks.andThen {y : EStateM ε σ PUnit} (hx : Checks x P) (hy : P → Checks y Q) :
    Checks (x >>= fun _ ↦ y) (P ∧ Q) := by
  intro s
  constructor
  · intro h
    rw [bind_of_ok ((hx s).1 h.1)]
    exact (hy h.1 s).1 h.2
  · intro h
    by_cases hP : P
    · obtain ⟨e, he⟩ := (hy hP s).2 fun hQ ↦ h ⟨hP, hQ⟩
      exact ⟨e, (bind_of_ok ((hx s).1 hP)).trans he⟩
    · obtain ⟨e, he⟩ := (hx s).2 hP
      exact ⟨e, bind_of_error he⟩

theorem checks_expect {α : Type u} {o : Option α} {e : ε} {f : α → EStateM ε σ PUnit} {R : α → Prop}
    (hf : ∀ a, o = some a → Checks (f a) (R a)) :
    Checks (expect o e >>= f) (∃ a, o = some a ∧ R a) := by
  intro s
  cases o with
  | none =>
    refine ⟨?_, fun _ ↦ ⟨e, bind_of_error (expect_none e s)⟩⟩
    rintro ⟨a, h, -⟩
    exact absurd h.symm (Option.some_ne_none a)
  | some a =>
    rw [bind_of_ok (expect_some a e s)]
    refine ((hf a rfl).congr ⟨fun h ↦ ⟨a, rfl, h⟩, ?_⟩) s
    rintro ⟨b, hb, h⟩
    rwa [Option.some.inj hb]

theorem Checks.withError (hx : Checks x P) (e : ε) : Checks (tryCatch x fun _ ↦ throw e) P := by
  intro s
  constructor
  · intro h
    show EStateM.tryCatch x (fun _ ↦ throw e) s = _
    rw [EStateM.tryCatch, (hx s).1 h]
  · intro h
    obtain ⟨e', he⟩ := (hx s).2 h
    refine ⟨e, ?_⟩
    show EStateM.tryCatch x (fun _ ↦ throw e) s = _
    rw [EStateM.tryCatch, he]
    rfl

/-- A loop of checks checks everything that they check. -/
theorem checks_forM {l : List β} {f : β → EStateM ε σ PUnit} {R : β → Prop}
    (hf : ∀ b, Checks (f b) (R b)) : Checks (l.forM f) (∀ b ∈ l, R b) := by
  induction l with
  | nil => exact fun s ↦ ⟨fun _ ↦ rfl, fun h ↦ absurd (fun b hb ↦ absurd hb List.not_mem_nil) h⟩
  | cons b l ih => exact ((hf b).andThen fun _ ↦ ih).congr List.forall_mem_cons.symm

theorem Checks.ends (hx : Checks x P) {s : σ} {R : PUnit → σ → Prop} {E : ε → σ → Prop}
    (hP : P → R ⟨⟩ s) (hn : ¬ P → ∀ e, E e s) : Ends x s R E := by
  by_cases h : P
  · exact ends_of_ok ((hx s).1 h) (hP h)
  · obtain ⟨e, he⟩ := (hx s).2 h
    exact ends_of_error he (hn h e)

/-- A sequence that starts with a check, where something is known about the errors of the check. -/
theorem Checks.ends_bind {f : PUnit → EStateM ε σ β} (hx : Checks x P) {R : ε → Prop}
    (hr : Raises R x) {s : σ} {Q : β → σ → Prop} {E : ε → σ → Prop} (hE : ∀ e, R e → E e s)
    (hf : P → Ends (f ⟨⟩) s Q E) : Ends (x >>= f) s Q E := by
  by_cases h : P
  · exact ends_bind_ok ((hx s).1 h) (hf h)
  · obtain ⟨e, he⟩ := (hx s).2 h
    exact ends_of_error (bind_of_error he) (hE e (hr s e s he))

/-- A call that starts with a check succeeds exactly when the check and the rest do. -/
theorem Checks.bind_eq_ok {f : PUnit → EStateM ε σ β} (hx : Checks x P) {s s' : σ} {b : β} :
    (x >>= f) s = .ok b s' ↔ P ∧ f ⟨⟩ s = .ok b s' := by
  by_cases hP : P
  · rw [bind_of_ok ((hx s).1 hP)]
    exact ⟨fun h ↦ ⟨hP, h⟩, And.right⟩
  · obtain ⟨e, he⟩ := (hx s).2 hP
    rw [bind_of_error he]
    exact ⟨fun h ↦ (by cases h), fun h ↦ absurd h.1 hP⟩

theorem Checks.eq_ok {s s' : σ} (hx : Checks x P) : x s = .ok ⟨⟩ s' ↔ P ∧ s' = s := by
  by_cases hP : P
  · rw [(hx s).1 hP]
    exact ⟨fun h ↦ ⟨hP, (EStateM.Result.ok.inj h).2.symm⟩, fun h ↦ by rw [h.2]⟩
  · obtain ⟨e, he⟩ := (hx s).2 hP
    rw [he]
    exact ⟨fun h ↦ (by cases h), fun h ↦ absurd h.1 hP⟩

end Checks

end Program
