import RlboxDynamic.CrashLock
import RlboxDynamic.ShimHandlers

/-! Who is in the shared mspace. Its lock word is in the region the shim maps
together with its children, so that the word outlives a child that dies in its
call. The request thread's own calls are those of the request it handles; the
other threads, and a child that runs library code, call as they like. -/
namespace RlboxDynamic.SharedHeap
open Transition CrashLock

variable {t : Target}

/-- The four overrides that reach the mspace. Each holds its lock throughout. -/
inductive HeapCall where
  | malloc
  | free
  | realloc
  | calloc
  deriving DecidableEq

/-- Which fork of the shim. -/
abbrev ChildId := Nat

/-- The threads of the shim, `main` being the program it is loaded into, and the
one thread of each child. -/
inductive Thread where
  | request
  | refill
  | main
  | child (c : ChildId)
  deriving DecidableEq

/-- What a request makes the request thread do, in order. -/
inductive Job where
  | heap (call : HeapCall)
  | invoke
  deriving DecidableEq

/-- What the transport's own code calls around the handler of a request. -/
structure TransportCalls where
  before : WireRequest → List HeapCall
  after : WireRequest → List HeapCall

/-- The blocks of the Cap'n Proto loop body: the response builder, the reader
and the vectors of an invoke. `malloc(0)` reaches no mspace. -/
def loopBlocks (env : ServerEnv t) (request : WireRequest) : List (SizeT t) :=
  (env.builderBytes :: (env.readerBytes request ++ vectorBytes request)).filter (· ≠ 0)

def capnpCalls (env : ServerEnv t) : TransportCalls where
  before request := (loopBlocks env request).map fun _ => .malloc
  after request := (loopBlocks env request).map fun _ => .free

/-- The jobs of a request's handler. `outside` says that the block `malloc` gives
lies outside the region, so that `handle_allocate` frees it again. -/
def handlerJobs (env : ServerEnv t) (outside : Bool) : WireRequest → List Job
  | .allocate size =>
    if size.setWidth t.ptrBits = 0 then []
    else .heap .malloc :: if outside then [.heap .free] else []
  | .release address => if address.setWidth t.ptrBits = 0 then [] else [.heap .free]
  | .invoke funcAddr _ argTags argValues =>
    if env.shmBase = 0 ∨ funcAddr.setWidth t.ptrBits = 0 ∨ argTags.length ≠ argValues.length ∨
        argTags.length > kMaxArgs then []
    else [.invoke]
  | .lookupSymbol _ | .registerCallback _ | .unregisterCallback _ => []

def requestJobs (calls : TransportCalls) (env : ServerEnv t) (outside : Bool)
    (request : WireRequest) : List Job :=
  (calls.before request).map .heap ++ handlerJobs env outside request ++
    (calls.after request).map .heap

/-- Where a child is. It runs library code from its job on. -/
inductive Stage where
  | unborn
  | pooled
  | running
  | gone
  deriving DecidableEq

/-- The lock, the jobs left of the request in work, the child it waits for. -/
structure Shim where
  heap : CrashLock.State Thread
  todo : List Job
  serving : Option ChildId
  stage : ChildId → Stage

inductive Event where
  | receive (request : WireRequest) (outside : Bool)
  | call (thread : Thread) (call : HeapCall)
  | acquire (thread : Thread)
  | release (thread : Thread)
  | spawn (c : ChildId)
  | dispatch (c : ChildId)
  | forkFails
  | finish (c : ChildId)
  | die (c : ChildId)
  | resume
  deriving DecidableEq

namespace Shim

def start : Shim where
  heap := .free Thread
  todo := []
  serving := none
  stage _ := .unborn

/-- The thread may make the call here. The request thread makes none while it
waits for a child. -/
def mayCall (s : Shim) (thread : Thread) (call : HeapCall) : Bool :=
  match thread with
  | .request => decide (s.serving = none ∧ s.todo.head? = some (.heap call))
  | .refill | .main => true
  | .child c => decide (s.stage c = .running)

def setStage (s : Shim) (c : ChildId) (stage : Stage) : Shim :=
  { s with stage := Function.update s.stage c stage }

/-- The job a completed call was. -/
def afterCall (s : Shim) : Thread → List Job
  | .request => s.todo.tail
  | _ => s.todo

section
variable (calls : TransportCalls) (env : ServerEnv t)

/-- One event, of any thread of any process. `dispatch` hands the invoke to a
worker of the pool or to a child forked for it. -/
def exec (s : Shim) : Event → Option Shim
  | .receive request outside =>
    if s.serving = none ∧ s.todo = [] then
      some { s with todo := requestJobs calls env outside request }
    else none
  | .call thread call =>
    if s.mayCall thread call then (s.heap.exec (.call thread)).map fun heap => { s with heap }
    else none
  | .acquire thread => (s.heap.exec (.acquire thread)).map fun heap => { s with heap }
  | .release thread =>
    (s.heap.exec (.release thread)).map fun heap => { s with heap, todo := s.afterCall thread }
  | .spawn c => if s.stage c = .unborn then some (s.setStage c .pooled) else none
  | .dispatch c =>
    if s.todo.head? = some .invoke ∧ s.serving = none ∧ (s.stage c = .unborn ∨ s.stage c = .pooled)
    then some { s.setStage c .running with serving := some c, todo := s.todo.tail }
    else none
  | .forkFails =>
    if s.todo.head? = some .invoke ∧ s.serving = none then some { s with todo := s.todo.tail }
    else none
  | .finish c =>
    if s.stage c = .running ∧ s.heap.phase (.child c) = .outside then some (s.setStage c .gone)
    else none
  | .die c =>
    if s.stage c = .running then
      (s.heap.exec (.die (.child c))).map fun heap => { s.setStage c .gone with heap }
    else none
  | .resume =>
    match s.serving with
    | none => none
    | some c =>
      if s.stage c = .gone then some { s with serving := none } else none

abbrev Step : Shim → Event → Shim → Prop := ofPartial (exec calls env)

/-- The thread's process is alive. -/
def Live (s : Shim) : Thread → Prop
  | .request | .refill | .main => True
  | .child c => s.stage c = .pooled ∨ s.stage c = .running

/-- The heap is usable: a set lock word has a live process inside a call, and
whoever waits is let in by steps of live calls alone. -/
structure Usable (s : Shim) : Prop where
  held : s.heap.word = true → ∃ thread, s.Live thread ∧ s.heap.phase thread = .inside
  proceeds : ∀ thread, s.heap.phase thread = .waiting →
    ∃ events s', Run (Step calls env) s events s' ∧ s'.heap.phase thread = .inside ∧
      ∀ e ∈ events, ∃ other, e = .release other ∨ e = .acquire other

/-- A child dies inside an operation of the allocator. -/
def DiesInside (s : Shim) : Event → Prop
  | .die c => s.heap.phase (.child c) = .inside
  | _ => False

end

/-! ## The lock under the shim's events -/

/-- What an event is to the lock. -/
def lockEvent : Event → Option (CrashLock.Event Thread)
  | .call thread _ => some (.call thread)
  | .acquire thread => some (.acquire thread)
  | .release thread => some (.release thread)
  | .die c => some (.die (.child c))
  | _ => none

variable {calls : TransportCalls} {env : ServerEnv t} {s s' : Shim} {e : Event}

/-- All that one event can do, with what it found. -/
inductive Does (calls : TransportCalls) (env : ServerEnv t) (s : Shim) : Event → Shim → Prop where
  | receives (idle : s.todo = []) :
      Does calls env s (.receive request outside)
        { s with todo := requestJobs calls env outside request }
  | calls (may : s.mayCall thread call = true) (took : s.heap.exec (.call thread) = some after) :
      Does calls env s (.call thread call) { s with heap := after }
  | acquires (took : s.heap.exec (.acquire thread) = some after) :
      Does calls env s (.acquire thread) { s with heap := after }
  | releases (took : s.heap.exec (.release thread) = some after) :
      Does calls env s (.release thread) { s with heap := after, todo := s.afterCall thread }
  | spawns (unborn : s.stage c = .unborn) : Does calls env s (.spawn c) (s.setStage c .pooled)
  | dispatches (next : s.todo.head? = some .invoke) :
      Does calls env s (.dispatch c)
        { s.setStage c .running with serving := some c, todo := s.todo.tail }
  | forkFails (next : s.todo.head? = some .invoke) :
      Does calls env s .forkFails { s with todo := s.todo.tail }
  | finishes (outside : s.heap.phase (.child c) = .outside) :
      Does calls env s (.finish c) (s.setStage c .gone)
  | dies (took : s.heap.exec (.die (.child c)) = some after) :
      Does calls env s (.die c) { s.setStage c .gone with heap := after }
  | resumes : Does calls env s .resume { s with serving := none }

theorem does (step : Step calls env s e s') : Does calls env s e s' := by
  cases e with
  | receive request outside =>
    obtain ⟨⟨-, idle⟩, same⟩ := Option.ite_none_right_eq_some.mp step
    cases same
    exact .receives idle
  | call thread call =>
    obtain ⟨may, ran⟩ := Option.ite_none_right_eq_some.mp step
    obtain ⟨heap, took, rfl⟩ := Option.map_eq_some_iff.mp ran
    exact .calls may took
  | acquire thread =>
    obtain ⟨heap, took, rfl⟩ := Option.map_eq_some_iff.mp step
    exact .acquires took
  | release thread =>
    obtain ⟨heap, took, rfl⟩ := Option.map_eq_some_iff.mp step
    exact .releases took
  | spawn c =>
    obtain ⟨unborn, same⟩ := Option.ite_none_right_eq_some.mp step
    cases same
    exact .spawns unborn
  | dispatch c =>
    obtain ⟨⟨next, -⟩, same⟩ := Option.ite_none_right_eq_some.mp step
    cases same
    exact .dispatches next
  | forkFails =>
    obtain ⟨⟨next, -⟩, same⟩ := Option.ite_none_right_eq_some.mp step
    cases same
    exact .forkFails next
  | finish c =>
    obtain ⟨⟨-, outside⟩, same⟩ := Option.ite_none_right_eq_some.mp step
    cases same
    exact .finishes outside
  | die c =>
    obtain ⟨-, ran⟩ := Option.ite_none_right_eq_some.mp step
    obtain ⟨heap, took, rfl⟩ := Option.map_eq_some_iff.mp ran
    exact .dies took
  | resume =>
    unfold Step ofPartial exec at step
    cases waits : s.serving with
    | none => simp [waits] at step
    | some c =>
      simp only [waits] at step
      obtain ⟨-, same⟩ := Option.ite_none_right_eq_some.mp step
      cases same
      exact .resumes

/-- An event is one of the lock's, or leaves the lock as it is. -/
theorem step_heap (step : Step calls env s e s') :
    match lockEvent e with
    | some l => s.heap.exec l = some s'.heap
    | none => s'.heap = s.heap := by
  cases does step with
  | calls may took => exact took
  | acquires took => exact took
  | releases took => exact took
  | dies took => exact took
  | receives | spawns | dispatches | forkFails | finishes | resumes => rfl

/-- What holds in every state: the lock excludes, and a child in a call runs. -/
structure Inv (s : Shim) : Prop where
  exclusive : s.heap.Exclusive
  running : ∀ c, s.heap.phase (.child c) ≠ .outside → s.stage c = .running

theorem inv_start : start.Inv := ⟨State.exclusive_free, fun _ inside => absurd rfl inside⟩

/-- What every event of the lock keeps, every event keeps. -/
theorem step_keeps {P : State Thread → Prop} (kept : ∀ h h' l, P h → h.exec l = some h' → P h')
    (holds : P s.heap) (step : Step calls env s e s') : P s'.heap := by
  have heap := step_heap step
  cases lock : lockEvent e with
  | none =>
    rw [lock] at heap
    exact heap ▸ holds
  | some l =>
    rw [lock] at heap
    exact kept _ _ l holds heap

theorem step_running (running : ∀ c, s.heap.phase (.child c) ≠ .outside → s.stage c = .running)
    (step : Step calls env s e s') :
    ∀ c, s'.heap.phase (.child c) ≠ .outside → s'.stage c = .running := by
  intro c busy
  cases does step with
  | receives | forkFails | resumes => exact running c busy
  | @calls thread call heap may took =>
    rcases State.busy_before took busy with before | own
    · exact running c before
    · cases own
      simpa [mayCall] using may
  | acquires took =>
    rcases State.busy_before took busy with before | own
    · exact running c before
    · cases own
  | releases took =>
    rcases State.busy_before took busy with before | own
    · exact running c before
    · cases own
  | @spawns other unborn =>
    have runs := running c busy
    simp only [setStage, Function.update_apply]
    split
    · subst c
      rw [unborn] at runs
      cases runs
    · exact runs
  | dispatches next =>
    simp only [setStage, Function.update_apply]
    split
    · rfl
    · exact running c busy
  | finishes outside =>
    simp only [setStage, Function.update_apply]
    split
    · subst c
      exact absurd outside busy
    · exact running c busy
  | @dies other heap took =>
    simp only [setStage, Function.update_apply]
    split
    · subst c
      cases took
      simp at busy
    · rcases State.busy_before took busy with before | own
      · exact running c before
      · cases own

theorem step_inv (inv : s.Inv) (step : Step calls env s e s') : s'.Inv :=
  ⟨step_keeps (fun _ _ _ => State.step_exclusive) inv.exclusive step, step_running inv.running step⟩

/-! ## Usable -/

/-- A thread in a call is alive. -/
theorem Inv.live (inv : s.Inv) {thread : Thread} (busy : s.heap.phase thread ≠ .outside) :
    s.Live thread := by
  cases thread with
  | request => trivial
  | refill => trivial
  | main => trivial
  | child c => exact .inr (inv.running c busy)

theorem acquire_step {thread : Thread} {heap : State Thread}
    (took : s.heap.exec (.acquire thread) = some heap) :
    Step calls env s (.acquire thread) { s with heap } :=
  Option.map_eq_some_iff.mpr ⟨heap, took, rfl⟩

theorem release_step {thread : Thread} {heap : State Thread}
    (took : s.heap.exec (.release thread) = some heap) :
    Step calls env s (.release thread) { s with heap, todo := s.afterCall thread } :=
  Option.map_eq_some_iff.mpr ⟨heap, took, rfl⟩

/-- The heap is usable exactly where a set lock word has a holder. -/
theorem usable_iff_held (inv : s.Inv) : s.Usable calls env ↔ s.heap.Held := by
  constructor
  · intro usable set
    obtain ⟨thread, -, inside⟩ := usable.held set
    exact ⟨thread, inside⟩
  · intro holder
    constructor
    · intro set
      obtain ⟨thread, inside⟩ := holder set
      exact ⟨thread, inv.live (by simp [inside]), inside⟩
    · intro thread waiting
      rcases State.acquires holder waiting with
        ⟨heap, took, inside⟩ | ⟨b, m, heap, -, out, took, inside⟩
      · exact ⟨_, _, .single (acquire_step took), inside, by simp⟩
      · exact ⟨_, _, .cons (release_step out) (.single (acquire_step took)), inside, by simp⟩

theorem diesInside_iff : s.DiesInside e ↔ ∃ l, lockEvent e = some l ∧ s.heap.DiesInside l := by
  cases e <;> simp [DiesInside, lockEvent, State.DiesInside]

/-- An event keeps the heap usable unless a child dies inside. -/
theorem step_usable_iff (inv : s.Inv) (usable : s.Usable calls env) (step : Step calls env s e s') :
    s'.Usable calls env ↔ ¬ s.DiesInside e := by
  rw [usable_iff_held inv] at usable
  rw [usable_iff_held (step_inv inv step), diesInside_iff]
  have heap := step_heap step
  cases lock : lockEvent e with
  | none =>
    rw [lock] at heap
    simpa [heap] using usable
  | some l =>
    rw [lock] at heap
    simpa using State.step_held_iff inv.exclusive usable heap

/-- Along every sequence of events, of all requests and all children, the heap
is usable in every state exactly when no child dies inside an operation. -/
theorem heap_usable_iff (calls : TransportCalls) (env : ServerEnv t) (events : List Event) :
    (∀ before after u, events = before ++ after → Run (Step calls env) start before u →
        u.Usable calls env) ↔
      ∀ before e after u v, events = before ++ e :: after → Run (Step calls env) start before u →
        Step calls env u e v → ¬ u.DiesInside e :=
  throughout_iff inv_start ((usable_iff_held inv_start).mpr State.held_free)
    (fun _ _ _ inv step => step_inv inv step)
    (fun _ _ _ inv usable step => step_usable_iff inv usable step)

/-- A child that dies inside leaves the lock word set for good. -/
theorem death_inside_abandons {c : ChildId} (inv : s.Inv) (usable : s.Usable calls env)
    (inside : s.heap.phase (.child c) = .inside) (step : Step calls env s (.die c) s') :
    s'.heap.Abandoned := by
  have unusable : ¬ s'.Usable calls env :=
    fun still => (step_usable_iff inv usable step).mp still inside
  rw [usable_iff_held (step_inv inv step)] at unusable
  exact State.not_held.mp unusable

/-- Once a child has died inside, no call gets into the heap again, and the
request thread never gets past its next one. -/
theorem dead_call_blocks {events : List Event} {call : HeapCall} {rest : List Job}
    (abandoned : s.heap.Abandoned) (next : s.todo = .heap call :: rest)
    (run : Run (Step calls env) s events s') :
    s'.heap.Abandoned ∧ s'.todo = .heap call :: rest := by
  have kept : ∀ u e v, (u.heap.Abandoned ∧ u.todo = .heap call :: rest) → Step calls env u e v →
      (v.heap.Abandoned ∧ v.todo = .heap call :: rest) := by
    rintro u e v ⟨abandoned, next⟩ step
    refine ⟨step_keeps (fun _ _ _ => State.step_abandoned) abandoned step, ?_⟩
    cases does step with
    | receives idle => rw [next] at idle; cases idle
    | @releases thread heap took =>
      exact absurd (Option.ite_none_right_eq_some.mp took).1 (abandoned.nobody thread)
    | dispatches invoke => rw [next] at invoke; cases invoke
    | forkFails invoke => rw [next] at invoke; cases invoke
    | calls | acquires | spawns | finishes | dies | resumes => exact next
  exact run.invariant ⟨abandoned, next⟩ kept

/-- A shim whose response builder takes one block. -/
def oneBlock : ServerEnv .i386 where
  shmBase := 0x40000000
  shmSize := 0x4000000
  dlsym _ := 0
  trampoline i := BitVec.ofNat 32 (0x8000 + i)
  builderBytes := 1024
  readerBytes _ := []

/-- An invoke whose library code calls `malloc` and is inside. -/
def insideMalloc : List Event :=
  [.receive (.invoke 0x2000 0 [] []) false, .call .request .malloc, .acquire .request,
    .release .request, .dispatch 0, .call (.child 0) .malloc, .acquire (.child 0)]

/-- The child dies there, and the lock word stays set with nobody inside. -/
theorem death_inside_malloc :
    ¬ ∀ before after u, insideMalloc ++ [.die 0] = before ++ after →
      Run (Step (capnpCalls oneBlock) oneBlock) start before u →
        u.Usable (capnpCalls oneBlock) oneBlock := by
  intro always
  obtain ⟨u, run, at_death⟩ : ∃ u, Run (Step (capnpCalls oneBlock) oneBlock) start insideMalloc u ∧
      (u.heap.phase (.child 0), u.stage 0) = (.inside, .running) :=
    exists_run (by decide)
  obtain ⟨inside, running⟩ := Prod.mk.inj at_death
  have dies : Step (capnpCalls oneBlock) oneBlock u (.die 0) _ :=
    Option.ite_none_right_eq_some.mpr ⟨running, rfl⟩
  have inv : u.Inv := run.invariant inv_start fun _ _ _ inv step => step_inv inv step
  have before := always insideMalloc [.die 0] u rfl run
  have after := always (insideMalloc ++ [.die 0]) [] _ (List.append_nil _).symm (run.snoc dies)
  exact (step_usable_iff inv before dies).mp after inside

end Shim
end RlboxDynamic.SharedHeap
