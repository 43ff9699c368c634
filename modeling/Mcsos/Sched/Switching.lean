import Mcsos.Lib.Assembly
import Mcsos.Sched.Runs

/-!
# Threads and their registers

The scheduler as it is built for the kernel: `mcsos_sched_yield` ends with `mcsos_context_switch`,
which is described here by what it does to the contexts of the two threads.  The processor goes on
with the registers of the thread that was switched to; when that thread is switched to for the first
time, it starts in `mcsos_thread_trampoline`, which finds out from the scheduler which thread it is.

Between the calls a thread computes, so that its registers may be anything when it calls.  What the
threads have left is kept in a history, together with what they were prepared with.  A thread that
is not running has a context that follows from the last thing in the history that concerns it.
-/

set_option autoImplicit false

namespace Mcsos
namespace Sched

open Program LinkedQueue

/-- The threads and the scheduler, and the registers that a context has: those of the running
thread, and where it goes on. -/
structure Kernel where
  state : State
  cpu : Context

/-- Where the code is that contexts lead to. -/
structure CodeLabels where
  /-- `mcsos_thread_trampoline` -/
  trampoline : UInt64
  /-- The end of `mcsos_context_switch` -/
  resume : UInt64

/-- What `mcsos_thread_trampoline` calls: the entry function of the current thread, with its
argument.  There may be nothing to call. -/
def threadTrampoline (s : State) : Option (UInt64 × UInt64) :=
  let self := s.sched.current
  if validThreadObject s self ∧ (s.threads self).entry ≠ 0 then
    some ((s.threads self).entry, (s.threads self).arg)
  else none

namespace Kernel

variable (code : CodeLabels)

/-- A call that does not switch registers. -/
def onState {α : Type} (x : EStateM Err State α) : EStateM Err Kernel α :=
  zoom Kernel.state (fun s k ↦ { k with state := s }) x

/-- `mcsos_context_switch` -/
def contextSwitch (oldThread nextThread : Ptr) (k : Kernel) : Kernel :=
  let s := k.state.modifyThread oldThread fun t ↦
    { t with context := { k.cpu with rip := code.resume } }
  { state := s, cpu := (s.threads nextThread).context }

/-- `mcsos_sched_yield` -/
def schedYield : EStateM Err Kernel Unit := do
  let k ← get
  failIf (!k.state.sched.initialized ∨ !validThreadObject k.state k.state.sched.current) .einval
  let oldThread := k.state.sched.current
  let nextThread ← onState (modifyGet schedPickNext)
  let k ← get
  failIf (!validThreadObject k.state nextThread) .ecorrupt
  if nextThread = oldThread then onState (modify (setState oldThread .running))
  else
    onState (requeue oldThread)
    onState (modify (switchTo oldThread nextThread))
    modify (contextSwitch code oldThread nextThread)

/-- `mcsos_thread_block_current` -/
def threadBlockCurrent : EStateM Err Kernel Unit := do
  let k ← get
  failIf (!k.state.sched.initialized ∨ !validThreadObject k.state k.state.sched.current) .einval
  failIf (k.state.sched.current = k.state.sched.idle) .estate
  onState (modify (setState k.state.sched.current .blocked))
  schedYield code

/-! ## Against the scheduler without registers -/

variable {k : Kernel} {s s' : State}

theorem onState_of_ok {α : Type} {x : EStateM Err State α} {a : α} (h : x k.state = .ok a s') :
    onState x k = .ok a { k with state := s' } := by
  rw [onState, zoom, h]

theorem after_onState {α : Type} (x : EStateM Err State α) :
    after (onState x) k = { k with state := after x k.state } := by
  rw [after, onState, zoom, after]
  cases x k.state <;> rfl

theorem onState_of_error {α : Type} {x : EStateM Err State α} {e : Err}
    (h : x k.state = .error e s') : onState x k = .error e { k with state := s' } := by
  rw [onState, zoom, h]

/-- The registers after a call that has left the scheduler in `s'`. -/
def resumed (k : Kernel) (s' : State) : Kernel :=
  if s'.sched.current = k.state.sched.current then { k with state := s' }
  else contextSwitch code k.state.sched.current s'.sched.current { k with state := s' }

theorem current_schedPickNext (s : State) :
    (schedPickNext s).2.sched.current = s.sched.current := by
  rw [schedPickNext]
  split
  · rfl
  · dsimp only
    split
    · rfl
    · rw [sched_dropHead]

/-- `mcsos_sched_yield` does the same to the scheduler whether or not it switches registers. -/
theorem schedYield_ends : Ends (schedYield code) k
    (fun _ k' ↦ ∃ s', Sched.schedYield k.state = .ok () s' ∧ k' = resumed code k s')
    (fun e k' ↦ ∃ s', Sched.schedYield k.state = .error e s' ∧ k' = { k with state := s' }) := by
  have hpick : (modifyGet schedPickNext : EStateM Err State Ptr) k.state
      = .ok (schedPickNext k.state).1 (schedPickNext k.state).2 := rfl
  have hcurrent := current_schedPickNext k.state
  rw [Sched.schedYield, bind_of_ok (get_apply k.state)]
  refine ends_get (ends_failIf (fun hc ↦ ?_) fun hc ↦ ends_bind_ok (onState_of_ok hpick) ?_)
  · rw [bind_of_error (failIf_of_pos hc _ _)]
    exact ⟨_, rfl, rfl⟩
  rw [bind_of_ok (failIf_of_neg hc _ _), bind_of_ok hpick, bind_of_ok (get_apply _)]
  generalize (schedPickNext k.state).1 = next at *
  generalize (schedPickNext k.state).2 = s1 at *
  refine ends_get (ends_failIf (fun hv ↦ ?_) fun hv ↦ ?_)
  · rw [bind_of_error (failIf_of_pos hv _ _)]
    exact ⟨_, rfl, rfl⟩
  rw [bind_of_ok (failIf_of_neg hv _ _)]
  by_cases hnext : next = k.state.sched.current
  · rw [if_pos hnext, if_pos hnext]
    exact ends_of_ok rfl ⟨_, rfl, (if_pos hcurrent).symm⟩
  · rw [if_neg hnext, if_neg hnext]
    cases hq : requeue k.state.sched.current s1 with
    | ok a s2 =>
      rw [bind_of_ok hq]
      exact ends_bind_ok (onState_of_ok hq) (ends_of_ok rfl ⟨_, rfl, (if_neg hnext).symm⟩)
    | error e s2 =>
      rw [bind_of_error hq]
      exact ends_of_error (bind_of_error (onState_of_error hq)) ⟨_, rfl, rfl⟩

/-- The same for `mcsos_thread_block_current`. -/
theorem threadBlockCurrent_ends : Ends (threadBlockCurrent code) k
    (fun _ k' ↦ ∃ s', Sched.threadBlockCurrent k.state = .ok () s' ∧ k' = resumed code k s')
    (fun e k' ↦ ∃ s', Sched.threadBlockCurrent k.state = .error e s' ∧
      k' = { k with state := s' }) := by
  rw [Sched.threadBlockCurrent, bind_of_ok (get_apply k.state)]
  refine ends_get (ends_failIf (fun hc ↦ ?_) fun hc ↦ ends_failIf (fun hi ↦ ?_) fun hi ↦
    ends_bind_ok (onState_of_ok rfl) ?_)
  · rw [bind_of_error (failIf_of_pos hc _ _)]
    exact ⟨_, rfl, rfl⟩
  · rw [bind_of_ok (failIf_of_neg hc _ _), bind_of_error (failIf_of_pos hi _ _)]
    exact ⟨_, rfl, rfl⟩
  · rw [bind_of_ok (failIf_of_neg hc _ _), bind_of_ok (failIf_of_neg hi _ _)]
    exact schedYield_ends code

/-! ## What the scheduler leaves alone -/

section Given

variable {p q : Ptr}

/-- What a thread was given when it was prepared, and where it has left. -/
def given (t : Thread) : Context × UInt64 × UInt64 := (t.context, t.entry, t.arg)

@[simp] theorem given_setState (st : ThreadState) :
    given ((setState p st s).threads q) = given (s.threads q) :=
  field_modifyThread given fun _ ↦ rfl

@[simp] theorem given_setNext {r : Ptr} :
    given ((setNext p r s).threads q) = given (s.threads q) :=
  field_modifyThread given fun _ ↦ rfl

@[simp] theorem given_countSwitch : given ((countSwitch p s).threads q) = given (s.threads q) :=
  field_modifyThread given fun _ ↦ rfl

@[simp] theorem given_append : given ((append p s).threads q) = given (s.threads q) := by
  rw [append]
  by_cases h : s.sched.readyTail = 0 <;> simp [h]

@[simp] theorem given_dropHead : given ((dropHead p s).threads q) = given (s.threads q) := by
  rw [dropHead]
  by_cases h : (s.threads p).next = 0 <;> by_cases h' : 0 < s.sched.runnableCount <;> simp [h, h']

@[simp] theorem given_switchTo {r : Ptr} :
    given ((switchTo p q s).threads r) = given (s.threads r) := by
  rw [switchTo]
  exact given_countSwitch.trans (given_countSwitch.trans (given_setState _))

/-- All threads have what they were given. -/
def Gives (g : Ptr → Context × UInt64 × UInt64) (s : State) : Prop := ∀ p, given (s.threads p) = g p

variable {g : Ptr → Context × UInt64 × UInt64}

theorem keeps_modify_gives {f : State → State}
    (h : ∀ s p, given ((f s).threads p) = given (s.threads p)) :
    Keeps (Gives g) (modify f : EStateM Err State PUnit) := fun s hs p ↦ (h s p).trans (hs p)

theorem keeps_schedEnqueue : Keeps (Gives g) (schedEnqueue p) :=
  keeps_bind keeps_get fun _ ↦ keeps_bind (keeps_failIf _ _) fun _ ↦
    keeps_bind (keeps_failIf _ _) fun _ ↦ keeps_modify_gives fun _ _ ↦ given_append

theorem keeps_requeue : Keeps (Gives g) (requeue p) := by
  refine keeps_bind keeps_get fun s ↦ ?_
  split
  · exact keeps_bind (keeps_modify_gives fun _ _ ↦ given_setState _) fun _ ↦ keeps_schedEnqueue
  · exact keeps_pure _

theorem keeps_schedPickNext :
    Keeps (Gives g) (modifyGet schedPickNext : EStateM Err State Ptr) := by
  intro s hs p
  show given ((schedPickNext s).2.threads p) = g p
  rw [schedPickNext]
  split
  · exact hs p
  · dsimp only
    split
    · exact hs p
    · rw [given_dropHead, hs p]

theorem keeps_schedYield : Keeps (Gives g) Sched.schedYield := by
  refine keeps_bind keeps_get fun s ↦ keeps_bind (keeps_failIf _ _) fun _ ↦
    keeps_bind keeps_schedPickNext fun next ↦ keeps_bind keeps_get fun s' ↦
    keeps_bind (keeps_failIf _ _) fun _ ↦ ?_
  split
  · exact keeps_modify_gives fun _ _ ↦ given_setState _
  · exact keeps_bind keeps_requeue fun _ ↦ keeps_modify_gives fun _ _ ↦ given_switchTo

theorem keeps_threadBlockCurrent : Keeps (Gives g) Sched.threadBlockCurrent :=
  keeps_bind keeps_get fun _ ↦ keeps_bind (keeps_failIf _ _) fun _ ↦
    keeps_bind (keeps_failIf _ _) fun _ ↦
    keeps_bind (keeps_modify_gives fun _ _ ↦ given_setState _) fun _ ↦ keeps_schedYield

theorem keeps_schedTick : Keeps (Gives g) schedTick :=
  keeps_bind keeps_get fun _ ↦ keeps_bind (keeps_failIf _ _) fun _ ↦
    keeps_modify_gives fun _ p ↦ field_countTick given (fun _ _ ↦ rfl) p

end Given

/-! ## Histories -/

/-- What happens to a thread. -/
inductive Event
  | prepared (thread entry arg stackBase stackSize : UInt64)
  | left (thread : Ptr) (cpu : Context)

/-- The thread that it happens to. -/
def Event.thread : Event → Ptr
  | prepared thread .. => thread
  | left thread _ => thread

/-- Where the stack of a new thread begins. -/
def stackTop (stackBase stackSize : UInt64) : UInt64 :=
  alignDownUintptr (stackBase + stackSize) stackAlign - 8

/-- The registers with which the thread goes on afterwards. -/
def Event.context : Event → Context
  | prepared _ _ _ stackBase stackSize =>
    { zeroContext with rsp := stackTop stackBase stackSize, rip := code.trampoline }
  | left _ cpu => { cpu with rip := code.resume }

/-- The last thing that has happened to a thread, where the history has the latest first. -/
def last (p : Ptr) (history : List Event) : Option Event := history.find? fun e ↦ e.thread = p

/-- A thread that is not current any more has left. -/
def record (k k' : Kernel) (history : List Event) : List Event :=
  if k'.state.sched.current = k.state.sched.current then history
  else .left k.state.sched.current k.cpu :: history

/-- The states of the kernel after `mcsos_scheduler_init`, with the threads that the scheduler was
given, and their history.  A thread may do anything to its registers before it calls. -/
inductive Runs : Kernel → Set Ptr → List Event → Prop
  | init {s s' : State} {bootThread name : UInt64} (cpu : Context)
      (h : schedulerInit bootThread name s = .ok () s') : Runs ⟨s', cpu⟩ {bootThread} []
  | compute {k : Kernel} {T : Set Ptr} {history : List Event} (cpu : Context)
      (hk : Runs k T history) : Runs { k with cpu := cpu } T history
  | prepare {k : Kernel} {s' : State} {T : Set Ptr} {history : List Event}
      {thread name entry arg stackBase stackSize id : UInt64} (hk : Runs k T history)
      (hcurrent : thread ≠ k.state.sched.current) (hidle : thread ≠ k.state.sched.idle)
      (hready : thread ∉ readyList k.state)
      (h : threadPrepare code.trampoline thread name entry arg stackBase stackSize id k.state
        = .ok () s') :
      Runs { k with state := s' } (insert thread T)
        (.prepared thread entry arg stackBase stackSize :: history)
  | enqueue {k : Kernel} {s' : State} {T : Set Ptr} {history : List Event} {thread : Ptr}
      (hk : Runs k T history) (hthread : thread ∈ T) (hready : thread ∉ readyList k.state)
      (h : schedEnqueue thread k.state = .ok () s') : Runs { k with state := s' } T history
  | markReady {k : Kernel} {s' : State} {T : Set Ptr} {history : List Event} {thread : Ptr}
      (hk : Runs k T history) (hthread : thread ∈ T)
      (h : threadMarkReady thread k.state = .ok () s') : Runs { k with state := s' } T history
  | yield {k : Kernel} {T : Set Ptr} {history : List Event} (hk : Runs k T history) :
      Runs (after (schedYield code) k) T (record k (after (schedYield code) k) history)
  | blockCurrent {k : Kernel} {T : Set Ptr} {history : List Event} (hk : Runs k T history) :
      Runs (after (threadBlockCurrent code) k) T
        (record k (after (threadBlockCurrent code) k) history)
  | tick {k : Kernel} {T : Set Ptr} {history : List Event} (hk : Runs k T history) :
      Runs (after (onState schedTick) k) T history

/-! ## The invariant -/

variable {p : Ptr} {T : Set Ptr} {history : List Event}

theorem last_cons (e : Event) :
    last p (e :: history) = if e.thread = p then some e else last p history := by
  rw [last, List.find?_cons]
  by_cases h : e.thread = p
  · simp [h]
  · simp [h, last]

theorem last_prepared {thread entry arg stackBase stackSize : UInt64} :
    last p (.prepared thread entry arg stackBase stackSize :: history) = if thread = p then
      some (.prepared thread entry arg stackBase stackSize) else last p history :=
  last_cons _

theorem last_left {thread : Ptr} {cpu : Context} : last p (.left thread cpu :: history)
    = if thread = p then some (.left thread cpu) else last p history :=
  last_cons _

/-- What a thread was prepared with is good enough to start it. -/
structure Startable (entry stackBase stackSize : UInt64) : Prop where
  entry : entry ≠ 0
  size : minKernelStack ≤ stackSize
  bounds : stackBase < stackBase + stackSize
  room : stackBase + 128 < alignDownUintptr (stackBase + stackSize) stackAlign

/-- The history accounts for the threads that wait. -/
structure Recorded (k : Kernel) (T : Set Ptr) (history : List Event) : Prop where
  managed : ∃ l, Managed k.state T l
  waiting : ∀ p ∈ T, p ≠ k.state.sched.current →
    ∃ e, last p history = some e ∧ (k.state.threads p).context = e.context code
  started : ∀ p thread entry arg stackBase stackSize,
    last p history = some (.prepared thread entry arg stackBase stackSize) →
    (k.state.threads p).entry = entry ∧ (k.state.threads p).arg = arg ∧
      Startable entry stackBase stackSize

theorem context_eq_of_given {t t' : Thread} (h : given t = given t') : t.context = t'.context :=
  congrArg Prod.fst h

variable {code}

/-- Calls that switch to nobody. -/
theorem Recorded.frame (h : Recorded code k T history) (hm : ∃ l, Managed s' T l)
    (hcurrent : s'.sched.current = k.state.sched.current)
    (hgiven : ∀ p, given (s'.threads p) = given (k.state.threads p)) (cpu : Context) :
    Recorded code ⟨s', cpu⟩ T history := by
  refine ⟨hm, fun p hp hne ↦ ?_, fun p thread entry arg base size hlast ↦ ?_⟩
  · rw [hcurrent] at hne
    obtain ⟨e, hlast, hcontext⟩ := h.waiting p hp hne
    exact ⟨e, hlast, (context_eq_of_given (hgiven p)).trans hcontext⟩
  · obtain ⟨hentry, harg, hstart⟩ := h.started p thread entry arg base size hlast
    have hboth := congrArg Prod.snd (hgiven p)
    exact ⟨(congrArg Prod.fst hboth).trans hentry, (congrArg Prod.snd hboth).trans harg, hstart⟩

/-- The state in which `mcsos_thread_prepare` succeeds. -/
theorem threadPrepare_eq_ok {thread name entry arg stackBase stackSize id : UInt64}
    (h : threadPrepare code.trampoline thread name entry arg stackBase stackSize id s
      = .ok () s') :
    Startable entry stackBase stackSize ∧ ∃ t : Thread, t.state = .new ∧ t.magic = threadMagic ∧
      given t = ((Event.prepared thread entry arg stackBase stackSize).context code, entry, arg) ∧
      s' = s.modifyThread thread fun _ ↦ t := by
  have hends : Ends
      (threadPrepare code.trampoline thread name entry arg stackBase stackSize id) s
      (fun _ s' ↦ Startable entry stackBase stackSize ∧ ∃ t : Thread, t.state = .new ∧
        t.magic = threadMagic ∧
        given t = ((Event.prepared thread entry arg stackBase stackSize).context code, entry, arg) ∧
        s' = s.modifyThread thread fun _ ↦ t)
      (fun _ _ ↦ True) := by
    refine ends_failIf (fun _ ↦ trivial) fun hnull ↦ ends_failIf (fun _ ↦ trivial) fun hsize ↦
      ends_failIf (fun _ ↦ trivial) fun hbounds ↦ ends_failIf (fun _ ↦ trivial) fun hroom ↦
      ends_of_ok rfl ⟨⟨fun h0 ↦ hnull (.inr (.inl h0)), ?_, ?_, ?_⟩, _, rfl, rfl, rfl, rfl⟩
    · exact UInt64.not_lt.1 hsize
    · exact UInt64.not_le.1 hbounds
    · exact UInt64.not_le.1 hroom
  exact hends.of_eq_ok h

theorem Recorded.prepare {thread name entry arg stackBase stackSize id : UInt64}
    (h : Recorded code k T history) (hcurrent : thread ≠ k.state.sched.current)
    (hidle : thread ≠ k.state.sched.idle) (hready : thread ∉ readyList k.state)
    (hprepare : threadPrepare code.trampoline thread name entry arg stackBase stackSize id k.state
      = .ok () s') :
    Recorded code { k with state := s' } (insert thread T)
      (.prepared thread entry arg stackBase stackSize :: history) := by
  obtain ⟨hstart, t, hnew, -, hgiven, rfl⟩ := threadPrepare_eq_ok hprepare
  obtain ⟨l, hl⟩ := h.managed
  rw [hl.sound.ready.readyList_eq] at hready
  refine ⟨⟨l, hl.prepare hnew hcurrent hidle hready⟩, fun p hp hne ↦ ?_,
    fun p thread' entry' arg' base size hlast ↦ ?_⟩
  · rw [last_prepared, threads_modifyThread]
    by_cases hpt : p = thread
    · rw [if_pos hpt, if_pos hpt.symm]
      exact ⟨_, rfl, congrArg Prod.fst hgiven⟩
    · rw [if_neg hpt, if_neg (Ne.symm hpt)]
      exact h.waiting p (Set.mem_of_mem_insert_of_ne hp hpt) hne
  · rw [last_prepared] at hlast
    rw [threads_modifyThread]
    by_cases hpt : p = thread
    · rw [if_pos hpt.symm] at hlast
      cases hlast
      rw [if_pos hpt]
      exact ⟨congrArg (·.2.1) hgiven, congrArg (·.2.2) hgiven, hstart⟩
    · rw [if_neg (Ne.symm hpt)] at hlast
      rw [if_neg hpt]
      exact h.started p thread' entry' arg' base size hlast

theorem Sound.setContext {l : List Ptr} (h : Sound s l) (p : Ptr) (c : Context) :
    Sound (s.modifyThread p fun t ↦ { t with context := c }) l := by
  have hfield : ∀ {α : Type} (f : Thread → α), (∀ t, f { t with context := c } = f t) → ∀ q,
      f ((s.modifyThread p fun t ↦ { t with context := c }).threads q) = f (s.threads q) :=
    fun f hf q ↦ field_modifyThread f hf
  have hstate := hfield Thread.state fun _ ↦ rfl
  have hmagic := hfield Thread.magic fun _ ↦ rfl
  have hnext := hfield Thread.next fun _ ↦ rfl
  exact h.frame (h.ready.frame (fun q _ ↦ ⟨hnext q, hstate q, hmagic q⟩) ⟨rfl, rfl, rfl, rfl⟩)
    (fun q _ ↦ ⟨hstate q, hmagic q⟩) rfl rfl

theorem Managed.setContext {l : List Ptr} (h : Managed s T l) (p : Ptr) (c : Context) :
    Managed (s.modifyThread p fun t ↦ { t with context := c }) T l :=
  h.frame (Sound.setContext h.sound p c) (fun _ hq ↦ hq)
    (fun _ ↦ field_modifyThread Thread.state fun _ ↦ rfl) rfl rfl

theorem record_contextSwitch (h : s'.sched.current ≠ k.state.sched.current) :
    record k (contextSwitch code k.state.sched.current s'.sched.current { k with state := s' })
      history = .left k.state.sched.current k.cpu :: history :=
  if_neg h

/-- Calls that may switch to another thread. -/
theorem Recorded.resumed (h : Recorded code k T history) (hm : ∃ l, Managed s' T l)
    (hgiven : ∀ p, given (s'.threads p) = given (k.state.threads p)) :
    Recorded code (resumed code k s') T (record k (resumed code k s') history) := by
  by_cases hcurrent : s'.sched.current = k.state.sched.current
  · rw [Kernel.resumed, if_pos hcurrent, record, if_pos hcurrent]
    exact h.frame hm hcurrent hgiven k.cpu
  obtain ⟨l, hl⟩ := hm
  rw [Kernel.resumed, if_neg hcurrent, record_contextSwitch hcurrent, contextSwitch]
  refine ⟨⟨l, Managed.setContext hl _ _⟩, fun p hp hne ↦ ?_,
    fun p thread entry arg base size hlast ↦ ?_⟩
  · rw [last_left, threads_modifyThread]
    by_cases hpold : p = k.state.sched.current
    · rw [if_pos hpold, if_pos hpold.symm]
      exact ⟨_, rfl, rfl⟩
    · rw [if_neg hpold, if_neg (Ne.symm hpold)]
      obtain ⟨e, hlast, hcontext⟩ := h.waiting p hp hpold
      exact ⟨e, hlast, (context_eq_of_given (hgiven p)).trans hcontext⟩
  · rw [last_left] at hlast
    by_cases hpold : p = k.state.sched.current
    · rw [if_pos hpold.symm] at hlast
      cases hlast
    · rw [if_neg (Ne.symm hpold)] at hlast
      rw [threads_modifyThread, if_neg hpold]
      obtain ⟨hentry, harg, hstart⟩ := h.started p thread entry arg base size hlast
      have hboth := congrArg Prod.snd (hgiven p)
      exact ⟨(congrArg Prod.fst hboth).trans hentry, (congrArg Prod.snd hboth).trans harg, hstart⟩

/-- What the two calls that may switch threads do. -/
structure Yields (k : Kernel) (T : Set Ptr) (s' : State) : Prop where
  managed : ∃ l, Managed s' T l
  given : ∀ p, given (s'.threads p) = given (k.state.threads p)

theorem yields_of_ends {x : EStateM Err State Unit} {y : EStateM Err Kernel Unit}
    (h : Ends y k (fun _ k' ↦ ∃ s', x k.state = .ok () s' ∧ k' = Kernel.resumed code k s')
      (fun e k' ↦ ∃ s', x k.state = .error e s' ∧ k' = { k with state := s' }))
    (herror : ∀ e s', x k.state = .error e s' → s' = k.state) (hx : ∀ g, Keeps (Gives g) x)
    (hm : ∃ l, Managed (after x k.state) T l) :
    after y k = Kernel.resumed code k (after x k.state) ∧ Yields k T (after x k.state) := by
  refine ⟨Ends.after (P := fun k' ↦ k' = Kernel.resumed code k (after x k.state)) (h.mono ?_ ?_),
    hm, hx (fun p ↦ given (k.state.threads p)) k.state fun _ ↦ rfl⟩
  · rintro - k' ⟨s1, hs1, rfl⟩
    rw [after_of_ok hs1]
  · rintro e k' ⟨s1, hs1, rfl⟩
    rw [after_of_error hs1, herror e s1 hs1]
    exact (if_pos rfl).symm

theorem after_schedYield (code : CodeLabels) (h : ∃ l, Managed k.state T l) :
    ∃ s', after (schedYield code) k = Kernel.resumed code k s' ∧ Yields k T s' := by
  obtain ⟨l, hl⟩ := h
  obtain ⟨s', hrun, -⟩ := schedYield_spec hl.sound.canYield
  refine ⟨_, yields_of_ends (schedYield_ends code) (fun e s1 hs1 ↦ ?_)
    (fun _ ↦ keeps_schedYield) hl.yield⟩
  rw [hrun] at hs1
  cases hs1

theorem after_threadBlockCurrent (code : CodeLabels) (h : ∃ l, Managed k.state T l) :
    ∃ s', after (threadBlockCurrent code) k = Kernel.resumed code k s' ∧ Yields k T s' := by
  obtain ⟨l, hl⟩ := h
  have hcheck : ¬ (!k.state.sched.initialized ∨
      !validThreadObject k.state k.state.sched.current) := by
    rw [hl.sound.ready.initialized, hl.sound.valid]
    decide
  refine ⟨_, yields_of_ends (threadBlockCurrent_ends code) (fun e s1 hs1 ↦ ?_)
    (fun _ ↦ keeps_threadBlockCurrent) hl.blockCurrent⟩
  by_cases hidle : k.state.sched.current = k.state.sched.idle
  · rw [threadBlockCurrent_of_idle hcheck hidle] at hs1
    cases hs1
    rfl
  · obtain ⟨s', hrun, -⟩ := schedYield_spec hl.sound.canYield_blocked
    rw [threadBlockCurrent_of_ne hcheck hidle, hrun] at hs1
    cases hs1

theorem Runs.recorded (hr : Runs code k T history) : Recorded code k T history := by
  induction hr with
  | init cpu h =>
    have hm := managed_init h
    refine ⟨⟨[], hm⟩, fun p hp hne ↦ absurd ?_ hne, fun p _ _ _ _ _ hlast ↦ by cases hlast⟩
    rw [Set.mem_singleton_iff.1 hp, Set.mem_singleton_iff.1 hm.current_mem]
  | compute cpu _ ih => exact ih.frame ih.managed rfl (fun _ ↦ rfl) cpu
  | prepare _ hcurrent hidle hready h ih => exact ih.prepare hcurrent hidle hready h
  | enqueue _ hthread hready h ih =>
    obtain ⟨l, hl⟩ := ih.managed
    obtain ⟨rfl, hvalid, hstate⟩ := schedEnqueue_ends.of_eq_ok h
    rw [hl.sound.ready.readyList_eq] at hready
    have hm := hl.append hvalid hstate hready
    rw [Set.insert_eq_of_mem hthread] at hm
    exact ih.frame ⟨_, hm⟩ (by rw [sched_append]) (fun _ ↦ given_append) _
  | markReady _ hthread h ih =>
    obtain ⟨l, hl⟩ := ih.managed
    obtain ⟨rfl, hvalid, hblocked⟩ := threadMarkReady_ends.of_eq_ok h
    have hm := hl.append hvalid (by rw [hblocked]; decide) fun hc ↦ by
      rw [hl.sound.ready.state _ hc] at hblocked
      cases hblocked
    rw [Set.insert_eq_of_mem hthread] at hm
    exact ih.frame ⟨_, hm⟩ (by rw [sched_append]) (fun _ ↦ given_append) _
  | yield _ ih =>
    obtain ⟨s', hrun, hs'⟩ := after_schedYield code ih.managed
    rw [hrun]
    exact ih.resumed hs'.managed hs'.given
  | blockCurrent _ ih =>
    obtain ⟨s', hrun, hs'⟩ := after_threadBlockCurrent code ih.managed
    rw [hrun]
    exact ih.resumed hs'.managed hs'.given
  | tick _ ih =>
    obtain ⟨l, hl⟩ := ih.managed
    rw [after_onState]
    refine ih.frame ⟨l, hl.tick⟩ ?_ (keeps_schedTick _ fun _ ↦ rfl) _
    exact Ends.after (P := fun s' : State ↦ s'.sched.current = _)
      (ends_get (ends_failIf (fun _ ↦ rfl) fun _ ↦ ends_of_ok rfl rfl))

/-! ## Where a thread goes on -/

theorem thread_of_last {e : Event} (h : last p history = some e) : e.thread = p := by
  simpa using List.find?_some h

theorem toNat_alignDownUintptr (v : UInt64) :
    (alignDownUintptr v stackAlign).toNat = v.toNat / 16 * 16 :=
  Assembly.toNat_align16 v.toBitVec

/-- The stack of a new thread begins inside the thread's memory, and such that it is aligned when
the trampoline calls a function. -/
theorem Startable.stackTop_bounds {entry stackBase stackSize : UInt64}
    (h : Startable entry stackBase stackSize) :
    stackBase.toNat + 120 < (stackTop stackBase stackSize).toNat ∧
      (stackTop stackBase stackSize).toNat + 8 ≤ stackBase.toNat + stackSize.toNat ∧
      (stackTop stackBase stackSize).toNat % 16 = 8 := by
  have hbounds := UInt64.lt_iff_toNat_lt.1 h.bounds
  have hroom := UInt64.lt_iff_toNat_lt.1 h.room
  have hsize : 4096 ≤ stackSize.toNat := UInt64.le_iff_toNat_le.1 h.size
  have h128 : (128 : UInt64).toNat = 128 := rfl
  have h8 : (8 : UInt64).toNat = 8 := rfl
  rw [toNat_alignDownUintptr, UInt64.toNat_add, UInt64.toNat_add, h128] at hroom
  rw [UInt64.toNat_add] at hbounds
  have hb := stackBase.toNat_lt
  have hs := stackSize.toNat_lt
  rw [stackTop, UInt64.toNat_sub, toNat_alignDownUintptr, UInt64.toNat_add, h8]
  omega

/-- The calls with which a thread may give way to another one. -/
inductive GivesWay (code : CodeLabels) : EStateM Err Kernel Unit → Prop
  | yield : GivesWay code (schedYield code)
  | blockCurrent : GivesWay code (threadBlockCurrent code)

theorem GivesWay.after_eq {x : EStateM Err Kernel Unit} (hx : GivesWay code x)
    (h : ∃ l, Managed k.state T l) :
    ∃ s', after x k = Kernel.resumed code k s' ∧ Yields k T s' := by
  cases hx with
  | yield => exact after_schedYield code h
  | blockCurrent => exact after_threadBlockCurrent code h

/-- A thread goes on where it has left, with the registers that it had. -/
def GoesOn (code : CodeLabels) (k : Kernel) (history : List Event) : Prop :=
  ∃ cpu, last k.state.sched.current history = some (.left k.state.sched.current cpu) ∧
    k.cpu = { cpu with rip := code.resume }

/-- A thread starts: in the trampoline, which calls the thread's own entry function, at the top of
the thread's own stack. -/
def Starts (code : CodeLabels) (k : Kernel) (history : List Event) : Prop :=
  ∃ entry arg stackBase stackSize,
    last k.state.sched.current history
      = some (.prepared k.state.sched.current entry arg stackBase stackSize) ∧
    k.cpu = { zeroContext with rsp := stackTop stackBase stackSize, rip := code.trampoline } ∧
    threadTrampoline k.state = some (entry, arg) ∧
    stackBase.toNat + 120 < k.cpu.rsp.toNat ∧
    k.cpu.rsp.toNat + 8 ≤ stackBase.toNat + stackSize.toNat ∧ k.cpu.rsp.toNat % 16 = 8

/-- The trampoline calls what the thread was prepared with. -/
theorem Recorded.threadTrampoline_eq {thread entry arg stackBase stackSize : UInt64}
    (h : Recorded code k T history) (hlast : last k.state.sched.current history
      = some (.prepared thread entry arg stackBase stackSize)) :
    threadTrampoline k.state = some (entry, arg) := by
  obtain ⟨l, hl⟩ := h.managed
  obtain ⟨hentry, harg, hstart⟩ := h.started _ _ _ _ _ _ hlast
  have htest : validThreadObject k.state k.state.sched.current ∧
      (k.state.threads k.state.sched.current).entry ≠ 0 :=
    ⟨hl.sound.valid, hentry ▸ hstart.entry⟩
  rw [threadTrampoline, if_pos htest, hentry, harg]

/-- **Threads go on where they have left.**  Whatever the threads compute and however they are
scheduled: a call that gives way to another thread has that thread go on with the registers with
which it has called last, or start as it was prepared if it has not run yet; and a call that gives
way to nobody leaves the registers alone. -/
theorem goes_on_where_left (hr : Runs code k T history) {x : EStateM Err Kernel Unit}
    (hx : GivesWay code x) :
    ((after x k).state.sched.current = k.state.sched.current → (after x k).cpu = k.cpu) ∧
    ((after x k).state.sched.current ≠ k.state.sched.current →
      GoesOn code (after x k) history ∨ Starts code (after x k) history) := by
  have hrecorded := hr.recorded
  obtain ⟨s', hrun, hs'⟩ := hx.after_eq hrecorded.managed
  have hafter := hrecorded.resumed hs'.managed hs'.given
  rw [hrun]
  by_cases hcurrent : s'.sched.current = k.state.sched.current
  · rw [resumed, if_pos hcurrent]
    exact ⟨fun _ ↦ rfl, fun hne ↦ absurd hcurrent hne⟩
  rw [resumed, if_neg hcurrent] at hafter ⊢
  rw [record_contextSwitch hcurrent] at hafter
  refine ⟨fun h ↦ absurd h hcurrent, fun _ ↦ ?_⟩
  obtain ⟨l, hl⟩ := hafter.managed
  obtain ⟨e, hlast, hcontext⟩ := hrecorded.waiting _ hl.current_mem hcurrent
  have hcpu : (contextSwitch code k.state.sched.current s'.sched.current
      { k with state := s' }).cpu = e.context code := by
    rw [contextSwitch]
    dsimp only
    rw [threads_modifyThread, if_neg hcurrent, context_eq_of_given (hs'.given _)]
    exact hcontext
  cases e with
  | left thread cpu =>
    obtain rfl : thread = _ := thread_of_last hlast
    exact .inl ⟨cpu, hlast, hcpu⟩
  | prepared thread entry arg stackBase stackSize =>
    obtain rfl : thread = _ := thread_of_last hlast
    have hstart := (hrecorded.started _ _ _ _ _ _ hlast).2.2.stackTop_bounds
    refine .inr ⟨entry, arg, stackBase, stackSize, hlast, hcpu, hafter.threadTrampoline_eq
      (last_left.trans ((if_neg (Ne.symm hcurrent)).trans hlast)), ?_⟩
    rw [hcpu]
    exact hstart

/-! ### A thread is started -/

/-- Some place for the code. -/
def someCode : CodeLabels where
  trampoline := 0x8000
  resume := 0x8100

theorem runs_enqueued_thread : Runs someCode ⟨enqueued, zeroContext⟩
    (insert 0x2000 {0x1000}) [.prepared 0x2000 0x9000 0 0x10000 8192] := by
  have hprepared : Runs someCode ⟨prepared, zeroContext⟩ (insert 0x2000 {0x1000})
      [.prepared 0x2000 0x9000 0 0x10000 8192] := by
    have hbooted : Runs someCode ⟨booted, zeroContext⟩ {0x1000} [] :=
      .init zeroContext (eq_ok_of_errorOf (by decide +kernel))
    refine .prepare hbooted (by decide) (by decide) ?_ (eq_ok_of_errorOf (by decide +kernel))
    rw [runs_booted.readyList_eq_nil rfl]
    exact List.not_mem_nil
  refine .enqueue hprepared (Set.mem_insert ..) ?_ (eq_ok_of_errorOf (by decide +kernel))
  obtain ⟨l, hl⟩ := hprepared.recorded.managed
  have hnil : l = [] := hl.sound.ready.queue.linked.eq_null_iff.1 (by decide +kernel)
  rw [hl.sound.ready.readyList_eq, hnil]
  exact List.not_mem_nil

theorem goes_on_where_left_enqueued :
    (after (schedYield someCode) ⟨enqueued, zeroContext⟩).state.sched.current = 0x2000 ∧
    Starts someCode (after (schedYield someCode) ⟨enqueued, zeroContext⟩)
      [.prepared 0x2000 0x9000 0 0x10000 8192] := by
  have hcurrent :
      (after (schedYield someCode) ⟨enqueued, zeroContext⟩).state.sched.current = 0x2000 := by
    decide +kernel
  refine ⟨hcurrent, ((goes_on_where_left runs_enqueued_thread .yield).2
    (by rw [hcurrent]; decide +kernel)).resolve_left ?_⟩
  rintro ⟨cpu, hlast, -⟩
  rw [hcurrent] at hlast
  cases hlast

end Kernel
end Sched
end Mcsos
