import Mcsos.Sync.Mutex

/-!
# Mutual exclusion

A thread is *outside* unless it has exchanged `locked` and not yet stored it back.  At most one
thread is not outside, and the two words of the mutex are then a function of how far this thread
has got (`words`): its id is in `owner` between its store of the id and its store of zero.  A
thread that is outside therefore never finds its own id there, and the thread that holds the mutex
never finds anything else.  So whether a thread holds the mutex determines the answers to its
calls, and the past of a thread is a sequence of only five kinds of calls (`Past`).
-/

set_option autoImplicit false

namespace Mcsos
namespace Sync

open Interleaving Prog

/-! ## Places -/

/-- How far a thread has got with taking the mutex and giving it back. -/
inductive Place
  | outside
  | acquiring
  | owner
  | releasing
  deriving DecidableEq, Repr

/-- The place of a thread between its calls. -/
def home (held : Bool) : Place := if held then .owner else .outside

/-- The mutex, when the thread with this id has got this far. -/
def words (id : UInt64) : Place → Mutex
  | .outside => mutexInit
  | .acquiring => ⟨1, 0⟩
  | .owner => ⟨1, id⟩
  | .releasing => ⟨1, 0⟩

variable {id : UInt64} {p p' : Place} {m m' : Mutex}

theorem locked_words (h : p ≠ .outside) : (words id p).locked = 1 := by
  cases p with
  | outside => exact absurd rfl h
  | acquiring | owner | releasing => rfl

theorem owner_words (id : UInt64) (p : Place) :
    (words id p).owner = 0 ∨ (words id p).owner = id := by
  cases p with
  | owner => exact .inr rfl
  | outside | acquiring | releasing => exact .inl rfl

/-! ## The memory -/

section Shared

variable {T : Type} {ids : T → UInt64} {place : T → Place} {t : T}

/-- If one thread is not outside, the others are, and the mutex shows how far it has got. -/
structure Shared (ids : T → UInt64) (m : Mutex) (place : T → Place) : Prop where
  free : (∀ t, place t = .outside) → m = mutexInit
  taken : ∀ t, place t ≠ .outside →
    m = words (ids t) (place t) ∧ ∀ u, u ≠ t → place u = .outside

theorem shared_start : Shared ids mutexInit fun _ ↦ .outside :=
  ⟨fun _ ↦ rfl, fun _ h ↦ absurd rfl h⟩

/-- What the mutex looks like from one of the places. -/
structure Sees (id : UInt64) (m : Mutex) (p : Place) : Prop where
  outside : p = .outside → m.owner ≠ id
  inside : p ≠ .outside → m = words id p
  free : m.locked = 0 → m = mutexInit

theorem Shared.sees (h : Shared ids m place) (hinj : Function.Injective ids) (h0 : ids t ≠ 0) :
    Sees (ids t) m (place t) := by
  refine ⟨fun hout ↦ ?_, fun hin ↦ (h.taken t hin).1, fun hlocked ↦ h.free fun u ↦ ?_⟩
  · by_cases hall : ∀ u, place u = .outside
    · rw [h.free hall]
      exact h0.symm
    · obtain ⟨u, hu⟩ := not_forall.1 hall
      have hne : ids u ≠ ids t := fun he ↦ hu (hinj he ▸ hout)
      rw [(h.taken u hu).1]
      rcases owner_words (ids u) (place u) with howner | howner
      · rw [howner]
        exact h0.symm
      · rw [howner]
        exact hne
  · by_contra hu
    rw [(h.taken u hu).1, locked_words hu] at hlocked
    exact absurd hlocked (by decide)

/-- A thread that is not outside, or finds the mutex unlocked, may set it to what it is at another
place, and go there. -/
def Moves (id : UInt64) (m : Mutex) (p : Place) (m' : Mutex) (p' : Place) : Prop :=
  m' = m ∧ p' = p ∨ (p ≠ .outside ∨ m.locked = 0) ∧ m' = words id p'

theorem Shared.moves [DecidableEq T] (h : Shared ids m place)
    (hm : Moves (ids t) m (place t) m' p') : Shared ids m' (Function.update place t p') := by
  rcases hm with ⟨rfl, rfl⟩ | ⟨hmay, rfl⟩
  · rwa [Function.update_eq_self]
  have hothers : ∀ u, u ≠ t → place u = .outside := by
    intro u hut
    rcases hmay with hin | hlocked
    · exact (h.taken t hin).2 u hut
    · by_contra hu
      rw [(h.taken u hu).1, locked_words hu] at hlocked
      exact absurd hlocked (by decide)
  constructor
  · intro hall
    have hp' := hall t
    rw [Function.update_self] at hp'
    rw [hp']
    rfl
  · intro u hu
    by_cases hut : u = t
    · subst hut
      rw [Function.update_self]
      refine ⟨rfl, fun v hv ↦ ?_⟩
      rw [Function.update_of_ne hv]
      exact hothers v hv
    · rw [Function.update_of_ne hut] at hu
      exact absurd (hothers u hut) hu

end Shared

/-! ## The threads -/

/-- The answer to a thread that asks for the mutex while it is locked. -/
def refusal (held : Bool) : Err := if held then .edeadlk else .ebusy

/-- What a thread has done in its completed calls, and whether it holds the mutex now. -/
inductive Past : List (Event Call Result) → Bool → Prop
  | start : Past [] false
  | acquired {o} : Past o false → Past (.returned .tryLock (.ok ()) :: .accessed true ::
      .accessed true :: .called .tryLock :: o) true
  | refused {o held} : Past o held → Past (.returned .tryLock (.error (refusal held)) ::
      .accessed false :: .accessed false :: .called .tryLock :: o) held
  | released {o} : Past o true → Past (.returned .unlock (.ok ()) :: .accessed true ::
      .accessed true :: .accessed false :: .called .unlock :: o) false
  | denied {o} : Past o false → Past (.returned .unlock (.error .eperm) :: .accessed false ::
      .called .unlock :: o) false

/-- Where a thread with this id can be, after what it has done. -/
inductive At (id : UInt64) :
    List (Event Call Result) → Option (Call × Prog Mutex Result) → Place → Prop
  | idle {o held} : Past o held → At id o none (home held)
  | trying {o held} : Past o held →
      At id (.called .tryLock :: o) (some (.tryLock, mutexTryLock id)) (home held)
  | contending {o held} : Past o held →
      At id (.accessed false :: .called .tryLock :: o) (some (.tryLock, contended id)) (home held)
  | refused {o held} : Past o held →
      At id (.accessed false :: .accessed false :: .called .tryLock :: o)
        (some (.tryLock, pure (.error (refusal held)))) (home held)
  | acquiring {o} : Past o false →
      At id (.accessed true :: .called .tryLock :: o) (some (.tryLock, takeOwnership id)) .acquiring
  | acquired {o} : Past o false →
      At id (.accessed true :: .accessed true :: .called .tryLock :: o)
        (some (.tryLock, pure (.ok ()))) .owner
  | unlocking {o held} : Past o held →
      At id (.called .unlock :: o) (some (.unlock, mutexUnlock id)) (home held)
  | denied {o} : Past o false →
      At id (.accessed false :: .called .unlock :: o) (some (.unlock, pure (.error .eperm)))
        .outside
  | givingUp {o} : Past o true →
      At id (.accessed false :: .called .unlock :: o) (some (.unlock, giveUpOwnership)) .owner
  | releasing {o} : Past o true →
      At id (.accessed true :: .accessed false :: .called .unlock :: o) (some (.unlock, release))
        .releasing
  | released {o} : Past o true →
      At id (.accessed true :: .accessed true :: .accessed false :: .called .unlock :: o)
        (some (.unlock, pure (.ok ()))) .outside

variable {o l : List (Event Call Result)} {held : Bool}

theorem At.call (h : At id o none p) (c : Call) :
    At id (.called c :: o) (some (c, mutexCall id c)) p := by
  cases h with
  | idle hpast =>
    cases c with
    | tryLock => exact .trying hpast
    | unlock => exact .unlocking hpast

theorem At.answer {c : Call} {prog : Prog Mutex Result} {r : Result} (h0 : id ≠ 0)
    (h : At id o (some (c, prog)) p) (ha : prog.answer = some r) :
    At id (.returned c r :: o) none p := by
  cases h with
  | refused hpast =>
    rw [answer_pure] at ha
    cases ha
    exact .idle (.refused hpast)
  | acquired hpast =>
    rw [answer_pure] at ha
    cases ha
    exact .idle (.acquired hpast)
  | denied hpast =>
    rw [answer_pure] at ha
    cases ha
    exact .idle (.denied hpast)
  | released hpast =>
    rw [answer_pure] at ha
    cases ha
    exact .idle (.released hpast)
  | trying => simp [mutexTryLock_eq h0] at ha
  | contending => simp [contended] at ha
  | acquiring => simp [takeOwnership] at ha
  | unlocking => simp [mutexUnlock_eq h0] at ha
  | givingUp => simp [giveUpOwnership] at ha
  | releasing => simp [release] at ha

/-- A thread that holds the mutex finds its own id in it, and no other thread finds its id. -/
theorem Sees.owner_eq_iff (h : Sees id m (home held)) : m.owner = id ↔ held = true := by
  cases held with
  | true => exact iff_of_true (congrArg Mutex.owner (h.inside (by decide))) rfl
  | false => exact iff_of_false (h.outside rfl) Bool.false_ne_true

theorem Sees.held_eq_false (h : Sees id m (home held)) (hlocked : m.locked = 0) :
    held = false := by
  cases held with
  | false => rfl
  | true =>
    rw [h.inside (by decide), locked_words (by decide)] at hlocked
    exact absurd hlocked (by decide)

/-- **One operation of one thread.** -/
theorem At.access {c : Call} {prog rest : Prog Mutex Result} {write : Option Mutex} (h0 : id ≠ 0)
    (h : At id o (some (c, prog)) p) (hs : Sees id m p)
    (ha : prog.access m = some (write, rest)) :
    ∃ p', At id (.accessed write.isSome :: o) (some (c, rest)) p' ∧
      Moves id m p (write.getD m) p' := by
  cases h with
  | trying hpast =>
    rw [mutexTryLock_eq h0, access_compareExchange] at ha
    by_cases hlocked : m.locked = 0
    · -- the exchange finds a mutex that nobody has
      obtain rfl := hs.held_eq_false hlocked
      obtain rfl := hs.free hlocked
      cases ha
      exact ⟨.acquiring, .acquiring hpast, .inr ⟨.inr rfl, rfl⟩⟩
    · simp only [hlocked, decide_false, Bool.false_eq_true, if_false, Bool.not_false, if_true] at ha
      cases ha
      exact ⟨_, .contending hpast, .inl ⟨rfl, rfl⟩⟩
  | @contending o held hpast =>
    rw [contended, access_load] at ha
    cases ha
    have howner := hs.owner_eq_iff
    cases held with
    | true =>
      rw [if_pos (howner.2 rfl)]
      exact ⟨_, .refused hpast, .inl ⟨rfl, rfl⟩⟩
    | false =>
      rw [if_neg fun he ↦ Bool.false_ne_true (howner.1 he)]
      exact ⟨_, .refused hpast, .inl ⟨rfl, rfl⟩⟩
  | acquiring hpast =>
    obtain rfl := hs.inside (by decide)
    rw [takeOwnership, access_store] at ha
    cases ha
    exact ⟨.owner, .acquired hpast, .inr ⟨.inl (by decide), rfl⟩⟩
  | @unlocking o held hpast =>
    rw [mutexUnlock_eq h0, access_load] at ha
    cases ha
    have howner := hs.owner_eq_iff
    cases held with
    | true =>
      rw [if_neg (not_not.2 (howner.2 rfl))]
      exact ⟨_, .givingUp hpast, .inl ⟨rfl, rfl⟩⟩
    | false =>
      rw [if_pos fun he ↦ Bool.false_ne_true (howner.1 he)]
      exact ⟨_, .denied hpast, .inl ⟨rfl, rfl⟩⟩
  | givingUp hpast =>
    obtain rfl := hs.inside (by decide)
    rw [giveUpOwnership, access_store] at ha
    cases ha
    exact ⟨.releasing, .releasing hpast, .inr ⟨.inl (by decide), rfl⟩⟩
  | releasing hpast =>
    obtain rfl := hs.inside (by decide)
    rw [release, access_store] at ha
    cases ha
    exact ⟨.outside, .released hpast, .inr ⟨.inl (by decide), rfl⟩⟩
  | refused | acquired | denied | released => simp at ha

section Outline

variable {T : Type} [DecidableEq T] {ids : T → UInt64} {place : T → Place} {t : T} {c : Call}
  {prog rest : Prog Mutex Result}

theorem exists_at_call (hs : Shared ids m place) (h : At (ids t) o none (place t)) :
    ∃ p, At (ids t) (.called c :: o) (some (c, mutexCall (ids t) c)) p ∧
      Shared ids m (Function.update place t p) :=
  ⟨_, h.call c, hs.moves (.inl ⟨rfl, rfl⟩)⟩

theorem exists_at_access {write : Option Mutex} (hinj : Function.Injective ids)
    (h0 : ∀ t, ids t ≠ 0) (hs : Shared ids m place) (h : At (ids t) o (some (c, prog)) (place t))
    (ha : prog.access m = some (write, rest)) :
    ∃ p, At (ids t) (.accessed write.isSome :: o) (some (c, rest)) p ∧
      Shared ids (write.getD m) (Function.update place t p) := by
  obtain ⟨p, hat, hmoves⟩ := h.access (h0 t) (hs.sees hinj (h0 t)) ha
  exact ⟨p, hat, hs.moves hmoves⟩

theorem exists_at_answer {r : Result} (h0 : ∀ t, ids t ≠ 0) (hs : Shared ids m place)
    (h : At (ids t) o (some (c, prog)) (place t)) (ha : prog.answer = some r) :
    ∃ p, At (ids t) (.returned c r :: o) none p ∧ Shared ids m (Function.update place t p) :=
  ⟨_, h.answer (h0 t) ha, hs.moves (.inl ⟨rfl, rfl⟩)⟩

/-- The outline of the calls on a mutex, by threads with these ids. -/
def mutexOutline (hinj : Function.Injective ids) (h0 : ∀ t, ids t ≠ 0) :
    Outline (fun t ↦ mutexCall (ids t)) mutexInit Place where
  start := .outside
  shared := Shared ids
  thread t := At (ids t)
  shared_start := shared_start
  thread_start _ := .idle .start
  call := exists_at_call
  access := exists_at_access hinj h0
  answer := exists_at_answer h0

end Outline

/-! ## What a thread has done -/

/-- What the past says is what the thread holds. -/
theorem Past.holds_eq (h : Past o held) : holds o = held := by
  induction h with
  | start => rfl
  | acquired => rfl
  | refused _ ih => exact ih
  | released => rfl
  | denied => rfl

/-- The place of a thread that holds the mutex. -/
theorem At.eq_owner {running : Option (Call × Prog Mutex Result)} (h : At id o running p)
    (hholds : holds o = true) : p = .owner := by
  cases h with
  | idle hpast | trying hpast | contending hpast | refused hpast =>
    have hheld := hpast.holds_eq.symm.trans hholds
    rw [hheld]
    rfl
  | acquired => rfl
  | acquiring hpast =>
    exact absurd (hpast.holds_eq.symm.trans hholds) Bool.false_ne_true
  | unlocking | denied | givingUp | releasing | released => cases hholds

/-- What the end of an unlock looks like that is refused, latest first. -/
def refusedUnlock : List (Event Call Result) :=
  [.returned .unlock (.error .eperm), .accessed false]

/-- Each unlock without the mutex has gone on in a way that satisfies `Q`, and each thread that was
told that it has the mutex already had it. -/
structure Answered (Q : List (Event Call Result) → Prop) (o : List (Event Call Result)) :
    Prop where
  unlock : ∀ later before, o = later ++ .called .unlock :: before → holds before = false → Q later
  deadlk : ∀ later before, o = later ++ .returned .tryLock (.error .edeadlk) :: before →
    holds before = true

/-- What is not in the first part of a list is in the second. -/
theorem exists_of_append_eq {α : Type} {l o later before : List α} {x : α} (hx : x ∉ l)
    (h : l ++ o = later ++ x :: before) :
    ∃ later', later = l ++ later' ∧ o = later' ++ x :: before := by
  rcases List.append_eq_append_iff.1 h with ⟨later', h1, h2⟩ | ⟨rest, h1, h2⟩
  · exact ⟨later', h1, h2⟩
  · cases rest with
    | nil => exact ⟨[], by rw [h1, List.append_nil, List.append_nil], h2.symm⟩
    | cons y rest =>
      obtain ⟨rfl, -⟩ := List.cons.inj h2
      exact absurd (h1 ▸ List.mem_append_right _ List.mem_cons_self) hx

section Answered

variable {Q : List (Event Call Result) → Prop} (hQ : ∀ later, refusedUnlock <:+ later → Q later)
  (ho : Answered (refusedUnlock <:+ ·) o) (hd : .returned .tryLock (.error .edeadlk) ∉ l)

include hQ ho hd

/-- A call that is not an unlock, complete or not. -/
theorem Answered.append (hu : .called .unlock ∉ l) : Answered Q (l ++ o) where
  unlock later before heq hb := by
    obtain ⟨later', rfl, h⟩ := exists_of_append_eq hu heq
    exact hQ _ ((ho.unlock later' before h hb).trans (List.suffix_append l later'))
  deadlk later before heq := by
    obtain ⟨later', -, h⟩ := exists_of_append_eq hd heq
    exact ho.deadlk later' before h

/-- An unlock, complete or not. -/
theorem Answered.append_unlock (hu : .called .unlock ∉ l) (hb : holds o = false → Q l) :
    Answered Q (l ++ .called .unlock :: o) where
  unlock later before heq hbefore := by
    obtain ⟨later', rfl, h⟩ := exists_of_append_eq hu heq
    cases later' with
    | nil =>
      obtain rfl := (List.cons.inj h).2
      rw [List.append_nil]
      exact hb hbefore
    | cons x later' =>
      have hsuffix := ho.unlock later' before (List.cons.inj h).2 hbefore
      exact hQ _ (hsuffix.trans ((List.suffix_cons x later').trans (List.suffix_append l _)))
  deadlk later before heq := by
    obtain ⟨later', -, h⟩ := exists_of_append_eq hd heq
    cases later' with
    | nil => cases (List.cons.inj h).1
    | cons x later' => exact ho.deadlk later' before (List.cons.inj h).2

omit hQ hd in
/-- A thread that holds the mutex is told so. -/
theorem Answered.cons_deadlk (h : holds o = true) :
    Answered (refusedUnlock <:+ ·) (.returned .tryLock (.error .edeadlk) :: o) where
  unlock later before heq hb := by
    cases later with
    | nil => cases (List.cons.inj heq).1
    | cons x later =>
      exact (ho.unlock later before (List.cons.inj heq).2 hb).trans (List.suffix_cons x later)
  deadlk later before heq := by
    cases later with
    | nil => exact (List.cons.inj heq).2 ▸ h
    | cons x later => exact ho.deadlk later before (List.cons.inj heq).2

end Answered

theorem answered_nil (Q : List (Event Call Result) → Prop) : Answered Q [] where
  unlock _ _ heq := absurd heq.symm (List.append_ne_nil_of_right_ne_nil _ (List.cons_ne_nil _ _))
  deadlk _ _ heq := absurd heq.symm (List.append_ne_nil_of_right_ne_nil _ (List.cons_ne_nil _ _))

/-- In the completed calls, each unlock without the mutex was refused and wrote nothing. -/
theorem Past.answered (h : Past o held) : Answered (refusedUnlock <:+ ·) o := by
  induction h with
  | start => exact answered_nil _
  | @acquired o _ ih =>
    exact ih.append (l := [.returned .tryLock (.ok ()), .accessed true, .accessed true,
      .called .tryLock]) (fun _ h ↦ h) (by decide) (by decide)
  | @refused o held hpast ih =>
    have hcall : Answered (refusedUnlock <:+ ·)
        (.accessed false :: .accessed false :: .called .tryLock :: o) :=
      ih.append (l := [.accessed false, .accessed false, .called .tryLock]) (fun _ h ↦ h)
        (by decide) (by decide)
    cases held with
    | true => exact hcall.cons_deadlk hpast.holds_eq
    | false =>
      exact hcall.append (l := [.returned .tryLock (.error .ebusy)]) (fun _ h ↦ h) (by decide)
        (by decide)
  | @released o hpast ih =>
    refine ih.append_unlock (l := [.returned .unlock (.ok ()), .accessed true, .accessed true,
      .accessed false]) (fun _ h ↦ h) (by decide) (by decide) fun hfalse ↦ ?_
    exact absurd (hpast.holds_eq.symm.trans hfalse) (by decide)
  | @denied o _ ih =>
    exact ih.append_unlock (l := refusedUnlock) (fun _ h ↦ h) (by decide) (by decide)
      fun _ ↦ List.suffix_rfl

/-- An unlock without the mutex, as far as it has got. -/
def Refused (later : List (Event Call Result)) : Prop :=
  later <:+ refusedUnlock ∨ refusedUnlock <:+ later

/-- The same for all calls, the one in progress included. -/
theorem At.answered {running : Option (Call × Prog Mutex Result)} (h : At id o running p) :
    Answered Refused o := by
  have hQ : ∀ later, refusedUnlock <:+ later → Refused later := fun _ h ↦ .inr h
  cases h with
  | idle hpast => exact hpast.answered.append (l := []) hQ (by decide) (by decide)
  | trying hpast => exact hpast.answered.append (l := [_]) hQ (by decide) (by decide)
  | contending hpast => exact hpast.answered.append (l := [_, _]) hQ (by decide) (by decide)
  | acquiring hpast => exact hpast.answered.append (l := [_, _]) hQ (by decide) (by decide)
  | refused hpast => exact hpast.answered.append (l := [_, _, _]) hQ (by decide) (by decide)
  | acquired hpast => exact hpast.answered.append (l := [_, _, _]) hQ (by decide) (by decide)
  | unlocking hpast =>
    exact hpast.answered.append_unlock (l := []) hQ (by decide) (by decide) fun _ ↦
      .inl List.nil_suffix
  | denied hpast =>
    exact hpast.answered.append_unlock (l := [_]) hQ (by decide) (by decide) fun _ ↦
      .inl (List.suffix_cons _ _)
  | givingUp hpast =>
    refine hpast.answered.append_unlock (l := [_]) hQ (by decide) (by decide) fun hfalse ↦ ?_
    exact absurd (hpast.holds_eq.symm.trans hfalse) (by decide)
  | releasing hpast =>
    refine hpast.answered.append_unlock (l := [_, _]) hQ (by decide) (by decide) fun hfalse ↦ ?_
    exact absurd (hpast.holds_eq.symm.trans hfalse) (by decide)
  | released hpast =>
    refine hpast.answered.append_unlock (l := [_, _, _]) hQ (by decide) (by decide) fun hfalse ↦ ?_
    exact absurd (hpast.holds_eq.symm.trans hfalse) (by decide)

/-! ## The main result -/

section Exclusion

variable {T : Type} [DecidableEq T] {ids : T → UInt64}

/-- What is true of a mutex and the threads that use it. -/
structure Exclusive (ids : T → UInt64) (s : Machine T Mutex Call Result) : Prop where
  /-- At most one thread holds the mutex. -/
  unique : ∀ t u, holds (own t s.history) = true → holds (own u s.history) = true → t = u
  /-- After a thread without the mutex has called unlock, what it does next is to make an access
  that writes nothing, and to return `MCS_SYNC_EPERM`. -/
  unlock : ∀ t later before, own t s.history = later ++ .called .unlock :: before →
    holds before = false → later <:+ [.returned .unlock (.error .eperm), .accessed false] ∨
      [.returned .unlock (.error .eperm), .accessed false] <:+ later
  /-- Whoever is told `MCS_SYNC_EDEADLK` holds the mutex at that time. -/
  deadlk : ∀ t later before,
    own t s.history = later ++ .returned .tryLock (.error .edeadlk) :: before →
      holds before = true
  /-- When no call is in progress, the words of the mutex say who holds it. -/
  idle : (∀ t, s.running t = none) →
    (s.mem.locked = 1 ↔ ∃ t, holds (own t s.history) = true) ∧
      (∀ t, holds (own t s.history) = true → s.mem.owner = ids t) ∧
      (s.mem.locked = 0 → s.mem.owner = 0)
  /-- No call waits: each turn of a thread adds to what it has done. -/
  proceeds : ∀ t c, ∃ e, own t (s.turn (fun t ↦ mutexCall (ids t)) t c).history
    = e :: own t s.history

variable (hinj : Function.Injective ids) (h0 : ∀ t, ids t ≠ 0) {s : Machine T Mutex Call Result}
  {place : T → Place}

/-- Between calls, the place of a thread is known from what it holds. -/
theorem At.eq_home (h : At id o none p) : p = home (holds o) := by
  cases h with
  | idle hpast => rw [hpast.holds_eq]

/-- The words of the mutex between calls. -/
theorem mem_of_idle (h : (mutexOutline hinj h0).Describes s place)
    (hidle : ∀ t, s.running t = none) :
    (∃ t, holds (own t s.history) = true ∧ s.mem = ⟨1, ids t⟩) ∨
      (∀ t, holds (own t s.history) = false) ∧ s.mem = mutexInit := by
  have hplace : ∀ t, place t = home (holds (own t s.history)) := by
    intro t
    have hat : At (ids t) (own t s.history) (s.running t) (place t) := h.thread t
    rw [hidle t] at hat
    exact hat.eq_home
  by_cases hall : ∀ t, holds (own t s.history) = false
  · refine .inr ⟨hall, h.shared.free fun t ↦ ?_⟩
    rw [hplace t, hall t]
    rfl
  · obtain ⟨t, ht⟩ := not_forall.1 hall
    rw [Bool.not_eq_false] at ht
    have howner : place t = .owner := by
      rw [hplace t, ht]
      rfl
    have hmem := (h.shared.taken t (by rw [howner]; decide)).1
    rw [howner] at hmem
    exact .inl ⟨t, ht, hmem⟩

/-- Only one thread is not outside, and the others hold nothing. -/
theorem eq_of_holds (h : (mutexOutline hinj h0).Describes s place) {t u : T}
    (ht : holds (own t s.history) = true) (hu : holds (own u s.history) = true) : t = u := by
  have hplace : ∀ t, holds (own t s.history) = true → place t = .owner := fun t ↦
    At.eq_owner (h.thread t)
  by_contra htu
  have hout := (h.shared.taken u (by rw [hplace u hu]; decide)).2 t htu
  rw [hplace t ht] at hout
  cases hout

include hinj h0

/-- **Mutual exclusion**, for any number of threads and under every interleaving. -/
theorem mutex_exclusive (schedule : List (T × Call)) :
    Exclusive ids (Machine.run (fun t ↦ mutexCall (ids t)) mutexInit schedule) := by
  obtain ⟨place, h⟩ := (mutexOutline hinj h0).describes_run schedule
  have hanswered := fun t ↦ At.answered (h.thread t)
  refine ⟨fun t u ↦ eq_of_holds hinj h0 h, fun t ↦ (hanswered t).unlock,
    fun t ↦ (hanswered t).deadlk, fun hidle ↦ ?_, Machine.own_turn _ _⟩
  rcases mem_of_idle hinj h0 h hidle with ⟨t, ht, hmem⟩ | ⟨hall, hmem⟩
  · rw [hmem]
    refine ⟨⟨fun _ ↦ ⟨t, ht⟩, fun _ ↦ rfl⟩, fun u hu ↦ ?_, fun hlocked ↦ ?_⟩
    · rw [eq_of_holds hinj h0 h hu ht]
    · exact absurd hlocked (show ¬ (1 : UInt32) = 0 by decide)
  · rw [hmem]
    refine ⟨⟨fun hlocked ↦ absurd hlocked (by decide), ?_⟩, fun u hu ↦ ?_, fun _ ↦ rfl⟩
    · rintro ⟨t, ht⟩
      exact absurd (hall t) (by rw [ht]; decide)
    · exact absurd (hall u) (by rw [hu]; decide)

end Exclusion

/-- Two threads with the ids 1 and 2. -/
def twoIds (t : Bool) : UInt64 := if t then 1 else 2

theorem twoIds_injective : Function.Injective twoIds := by
  intro t u
  revert t u
  decide

/-- The turns, latest first, in which thread 1 takes the mutex, thread 2 is told that it is busy and
that it may not unlock it, and thread 1 is told that it has it already. -/
def contention : List (Bool × Call) :=
  List.replicate 4 (true, .tryLock) ++ List.replicate 3 (false, .unlock) ++
    List.replicate 4 (false, .tryLock) ++ List.replicate 4 (true, .tryLock)

/-- The two threads and their mutex after these turns. -/
theorem mutex_exclusive_contention :
    Exclusive twoIds (Machine.run (fun t ↦ mutexCall (twoIds t)) mutexInit contention) ∧
      holds (own true (Machine.run (fun t ↦ mutexCall (twoIds t)) mutexInit contention).history)
        = true ∧
      (Machine.run (fun t ↦ mutexCall (twoIds t)) mutexInit contention).mem = ⟨1, 1⟩ :=
  ⟨mutex_exclusive twoIds_injective (by decide) contention, by decide +kernel, by decide +kernel⟩

end Sync
end Mcsos
