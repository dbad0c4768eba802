import RlboxDynamic.Transition
import Mathlib.Tactic.ByContra

/-! A host callback that uses its own sandbox while an invoke is under way. Four
parties take turns on the two sockets of the Cap'n Proto transport: the thread
that invokes, the callback thread, the shim's request loop and the worker. -/
namespace RlboxDynamic.CallbackReentry
open Transition

/-- What a host thread asks of the sandbox, an invoke apart. -/
inductive Operation where
  | lookupSymbol
  | mallocInSandbox
  | freeInSandbox
  | registerCallback
  | unregisterCallback
  deriving DecidableEq, Repr

mutual

/-- The operations a host thread issues, in order. -/
inductive Program where
  | done
  | request (operation : Operation) (rest : Program)
  | invoke (library : Library) (rest : Program)

/-- The callbacks that one library call fires, each with what its host function
issues. -/
inductive Library where
  | returns
  | fires (callback : Program) (rest : Library)

end

/-- A message on the request channel. -/
inductive Message where
  | operation (operation : Operation)
  | invoke (library : Library)

inductive HostThread where
  | invoker
  | callback
  deriving DecidableEq, Repr

/-- Host code on a thread: between two calls, waiting for `request_mutex` in
`capnp_call`, or holding it until the reply. -/
inductive HostState where
  | running (program : Program)
  | locking (message : Message) (rest : Program)
  | awaiting (rest : Program)

/-- The single-threaded request loop. -/
inductive ShimState where
  | receiving
  | serving
  | replying

/-- The child that runs the library call, if there is one. -/
inductive WorkerState where
  | absent
  | running (library : Library)
  | awaiting (rest : Library)

/-- All four parties with what is on the two sockets. The callback thread is
`none` while it waits for a `CallbackRequest`. -/
structure Parties where
  requestMutex : Option HostThread
  toShim : Option Message
  toHost : Bool
  toCallback : Option Program
  toWorker : Bool
  invoker : HostState
  callback : Option HostState
  shim : ShimState
  worker : WorkerState

inductive Action where
  | begin (who : HostThread)
  | lock (who : HostThread)
  | read (who : HostThread)
  | take
  | refuse
  | finish
  | reply
  | fire
  | dispatch
  | respond
  | resume
  deriving DecidableEq, Repr

namespace Parties

/-- The invoking thread before its first call, everybody else waiting. -/
def start (program : Program) : Parties :=
  { requestMutex := none, toShim := none, toHost := false, toCallback := none, toWorker := false
    invoker := .running program, callback := none, shim := .receiving, worker := .absent }

def host (s : Parties) : HostThread → Option HostState
  | .invoker => some s.invoker
  | .callback => s.callback

def setHost (s : Parties) : HostThread → HostState → Parties
  | .invoker, state => { s with invoker := state }
  | .callback, state => { s with callback := some state }

/-- One step of one party. `capnp_call` locks, writes and keeps the mutex until
it has read the reply. The loop reads the next request only after the last reply;
`handle_invoke` may also answer without a child. The worker waits for the response
to each callback it fires. -/
def exec (s : Parties) : Action → Option Parties
  | .begin who =>
    match s.host who with
    | some (.running (.request operation rest)) =>
      some (s.setHost who (.locking (.operation operation) rest))
    | some (.running (.invoke library rest)) =>
      some (s.setHost who (.locking (.invoke library) rest))
    | _ => none
  | .lock who =>
    match s.host who, s.requestMutex with
    | some (.locking message rest), none =>
      some { s.setHost who (.awaiting rest) with requestMutex := some who, toShim := some message }
    | _, _ => none
  | .read who =>
    match s.host who, s.toHost with
    | some (.awaiting rest), true =>
      some { s.setHost who (.running rest) with requestMutex := none, toHost := false }
    | _, _ => none
  | .take =>
    match s.shim, s.toShim with
    | .receiving, some (.operation _) => some { s with shim := .replying, toShim := none }
    | .receiving, some (.invoke library) =>
      some { s with shim := .serving, toShim := none, worker := .running library }
    | _, _ => none
  | .refuse =>
    match s.shim, s.toShim with
    | .receiving, some (.invoke _) => some { s with shim := .replying, toShim := none }
    | _, _ => none
  | .finish =>
    match s.shim, s.worker with
    | .serving, .running .returns => some { s with shim := .replying, worker := .absent }
    | _, _ => none
  | .reply =>
    match s.shim with
    | .replying => some { s with shim := .receiving, toHost := true }
    | _ => none
  | .fire =>
    match s.worker with
    | .running (.fires callback rest) =>
      some { s with worker := .awaiting rest, toCallback := some callback }
    | _ => none
  | .dispatch =>
    match s.callback, s.toCallback with
    | none, some program => some { s with callback := some (.running program), toCallback := none }
    | _, _ => none
  | .respond =>
    match s.callback with
    | some (.running .done) => some { s with callback := none, toWorker := true }
    | _ => none
  | .resume =>
    match s.worker, s.toWorker with
    | .awaiting rest, true => some { s with worker := .running rest, toWorker := false }
    | _, _ => none

abbrev Step : Parties → Action → Parties → Prop := ofPartial exec

/-- The invoking thread has nothing left to do. -/
def Final (s : Parties) : Prop := s.invoker = .running .done

end Parties

/-! ## One thread of control -/

/-- Where control is. Each message is awaited by the party that sent the one
before it, so the four parties act like one thread. -/
inductive Control where
  | between (program : Program)
  | locking (message : Message) (rest : Program)
  | sent (message : Message) (rest : Program)
  | answering (rest : Program)
  | answered (rest : Program)
  | inLibrary (library : Library) (rest : Program)
  | fired (callback : Program) (library : Library) (rest : Program)
  | inCallback (callback : Program) (library : Library) (rest : Program)
  | blocked (message : Message) (callback : Program) (library : Library) (rest : Program)
  | responded (library : Library) (rest : Program)

namespace Control

/-- An invoke is under way: the mutex is the invoking thread's. -/
def invoking (rest : Program) : Parties :=
  { Parties.start .done with requestMutex := some .invoker, invoker := .awaiting rest }

/-- The state of the four parties where control is at a point. -/
def parties : Control → Parties
  | .between program => .start program
  | .locking message rest => { Parties.start .done with invoker := .locking message rest }
  | .sent message rest => { invoking rest with toShim := some message }
  | .answering rest => { invoking rest with shim := .replying }
  | .answered rest => { invoking rest with toHost := true }
  | .inLibrary library rest => { invoking rest with shim := .serving, worker := .running library }
  | .fired callback library rest =>
    { invoking rest with
      shim := .serving, worker := .awaiting library, toCallback := some callback }
  | .inCallback callback library rest =>
    { invoking rest with
      shim := .serving, worker := .awaiting library, callback := some (.running callback) }
  | .blocked message callback library rest =>
    { invoking rest with
      shim := .serving, worker := .awaiting library
      callback := some (.locking message callback) }
  | .responded library rest =>
    { invoking rest with shim := .serving, worker := .awaiting library, toWorker := true }

/-- Where control goes next. From `blocked` it goes nowhere. -/
def exec : Control → Action → Option Control
  | .between (.request operation rest), .begin .invoker =>
    some (.locking (.operation operation) rest)
  | .between (.invoke library rest), .begin .invoker => some (.locking (.invoke library) rest)
  | .locking message rest, .lock .invoker => some (.sent message rest)
  | .sent (.operation _) rest, .take => some (.answering rest)
  | .sent (.invoke library) rest, .take => some (.inLibrary library rest)
  | .sent (.invoke _) rest, .refuse => some (.answering rest)
  | .answering rest, .reply => some (.answered rest)
  | .answered rest, .read .invoker => some (.between rest)
  | .inLibrary .returns rest, .finish => some (.answering rest)
  | .inLibrary (.fires callback library) rest, .fire => some (.fired callback library rest)
  | .fired callback library rest, .dispatch => some (.inCallback callback library rest)
  | .inCallback .done library rest, .respond => some (.responded library rest)
  | .inCallback (.request operation callback) library rest, .begin .callback =>
    some (.blocked (.operation operation) callback library rest)
  | .inCallback (.invoke inner callback) library rest, .begin .callback =>
    some (.blocked (.invoke inner) callback library rest)
  | .responded library rest, .resume => some (.inLibrary library rest)
  | _, _ => none

abbrev Step : Control → Action → Control → Prop := ofPartial exec

/-- The four parties do exactly what their one thread of control does. -/
theorem exec_parties (c : Control) (a : Action) :
    c.parties.exec a = (c.exec a).map parties := by
  obtain (_ | _) | (_ | _) | (_ | _) | _ | _ | _ | _ | _ | _ | _ | _ := a
  all_goals
    cases c with
    | between program => cases program <;> rfl
    | sent message => cases message <;> rfl
    | inLibrary library => cases library <;> rfl
    | inCallback callback => cases callback <;> rfl
    | locking | answering | answered | fired | blocked | responded => rfl

theorem parties_step (step : Step c a c') : Parties.Step c.parties a c'.parties := by
  change c.exec a = some c' at step
  simp [Parties.Step, ofPartial, exec_parties, step]

theorem step_parties (step : Parties.Step (parties c) a s) : ∃ c', Step c a c' ∧ c'.parties = s := by
  change c.parties.exec a = some s at step
  rw [exec_parties] at step
  exact Option.map_eq_some_iff.mp step

/-- Every reachable state of the parties is one of the points of control. -/
theorem reachable_parties (reached : Reachable Parties.Step (.start program) s) :
    ∃ c, Reachable Step (.between program) c ∧ c.parties = s := by
  obtain ⟨ls, run⟩ := reached
  have lifted : ∃ c, Run Step (.between program) ls c ∧ c.parties = s :=
    Run.comap (f := parties) run fun _ _ _ => step_parties
  obtain ⟨c, taken, same⟩ := lifted
  exact ⟨c, ⟨ls, taken⟩, same⟩

theorem parties_reachable (reached : Reachable Step c c') :
    Reachable Parties.Step c.parties c'.parties := by
  obtain ⟨ls, run⟩ := reached
  exact ⟨ls, run.map fun _ _ _ => parties_step⟩

/-- The invoking thread waits for the loop, the loop for the worker, the worker
for the callback thread and that one for the mutex. -/
theorem blocked_stuck (message : Message) (callback : Program) (library : Library)
    (rest : Program) : Stuck Parties.Step (blocked message callback library rest).parties := by
  intro a s step
  obtain ⟨c', moved, -⟩ := step_parties step
  change exec _ a = some c' at moved
  obtain (_ | _) | (_ | _) | (_ | _) | _ | _ | _ | _ | _ | _ | _ | _ := a <;> cases moved

end Control

/-! ## Callbacks that ask nothing of their sandbox -/

/-- No callback that the library fires issues an operation. -/
def Library.Quiet : Library → Prop
  | .returns => True
  | .fires callback rest => callback = .done ∧ rest.Quiet

def Program.Quiet : Program → Prop
  | .done => True
  | .request _ rest => rest.Quiet
  | .invoke library rest => library.Quiet ∧ rest.Quiet

def Message.Quiet : Message → Prop
  | .operation _ => True
  | .invoke library => library.Quiet

namespace Control

/-- Nothing that is still to come has a callback issue an operation. -/
def Quiet : Control → Prop
  | .between program => program.Quiet
  | .locking message rest | .sent message rest => message.Quiet ∧ rest.Quiet
  | .answering rest | .answered rest => rest.Quiet
  | .inLibrary library rest | .responded library rest => library.Quiet ∧ rest.Quiet
  | .fired callback library rest | .inCallback callback library rest =>
    callback = .done ∧ library.Quiet ∧ rest.Quiet
  | .blocked .. => False

theorem step_quiet (quiet : c.Quiet) (step : Step c a c') : c'.Quiet := by
  change c.exec a = some c' at step
  unfold exec at step
  split at step <;> cases step <;>
    simp_all [Quiet, Program.Quiet, Library.Quiet, Message.Quiet]

/-- Control always goes on from a quiet point, unless the program is over. -/
theorem quiet_moves (quiet : c.Quiet) (unfinished : c ≠ .between .done) :
    ∃ a c', Step c a c' := by
  cases c with
  | between program =>
    cases program with
    | done => exact absurd rfl unfinished
    | request => exact ⟨.begin .invoker, _, rfl⟩
    | invoke => exact ⟨.begin .invoker, _, rfl⟩
  | locking => exact ⟨.lock .invoker, _, rfl⟩
  | sent message =>
    cases message with
    | operation => exact ⟨.take, _, rfl⟩
    | invoke => exact ⟨.take, _, rfl⟩
  | answering => exact ⟨.reply, _, rfl⟩
  | answered => exact ⟨.read .invoker, _, rfl⟩
  | inLibrary library =>
    cases library with
    | returns => exact ⟨.finish, _, rfl⟩
    | fires => exact ⟨.fire, _, rfl⟩
  | fired => exact ⟨.dispatch, _, rfl⟩
  | inCallback callback =>
    obtain rfl := quiet.1
    exact ⟨.respond, _, rfl⟩
  | blocked => exact quiet.elim
  | responded => exact ⟨.resume, _, rfl⟩

theorem reachable_quiet (quiet : c.Quiet) (reached : Reachable Step c c') : c'.Quiet :=
  reached.invariant quiet fun _ _ _ => step_quiet

/-- A library call whose callbacks are quiet comes back. -/
theorem library_returns (rest : Program) :
    ∀ library : Library, library.Quiet → Reachable Step (.inLibrary library rest) (.between rest)
  | .returns, _ => ⟨[.finish, .reply, .read .invoker], .cons rfl (.cons rfl (.cons rfl .nil))⟩
  | .fires .done library, ⟨_, quiet⟩ =>
    have round : Run Step (.inLibrary (.fires .done library) rest)
        [.fire, .dispatch, .respond, .resume] (.inLibrary library rest) :=
      .cons rfl (.cons rfl (.cons rfl (.cons rfl .nil)))
    Reachable.trans ⟨_, round⟩ (library_returns rest library quiet)

/-- A library call that fires another callback gets no further than that. -/
theorem library_blocks (rest : Program) :
    ∀ library : Library, ¬ library.Quiet → ∃ message callback after,
      Reachable Step (.inLibrary library rest) (.blocked message callback after rest)
  | .returns, loud => absurd trivial loud
  | .fires .done library, loud =>
    have round : Run Step (.inLibrary (.fires .done library) rest)
        [.fire, .dispatch, .respond, .resume] (.inLibrary library rest) :=
      .cons rfl (.cons rfl (.cons rfl (.cons rfl .nil)))
    let ⟨message, callback, after, blocks⟩ :=
      library_blocks rest library fun quiet => loud ⟨rfl, quiet⟩
    ⟨message, callback, after, Reachable.trans ⟨_, round⟩ blocks⟩
  | .fires (.request _ _) _, _ =>
    ⟨_, _, _, [.fire, .dispatch, .begin .callback], .cons rfl (.cons rfl (.cons rfl .nil))⟩
  | .fires (.invoke _ _) _, _ =>
    ⟨_, _, _, [.fire, .dispatch, .begin .callback], .cons rfl (.cons rfl (.cons rfl .nil))⟩

/-- A program with such a library call can come to it. -/
theorem program_blocks :
    ∀ program : Program, ¬ program.Quiet → ∃ message callback after rest,
      Reachable Step (.between program) (.blocked message callback after rest)
  | .done, loud => absurd trivial loud
  | .request operation rest, loud =>
    have whole : Run Step (.between (.request operation rest))
        [.begin .invoker, .lock .invoker, .take, .reply, .read .invoker] (.between rest) :=
      .cons rfl (.cons rfl (.cons rfl (.cons rfl (.cons rfl .nil))))
    let ⟨message, callback, after, last, blocks⟩ := program_blocks rest loud
    ⟨message, callback, after, last, Reachable.trans ⟨_, whole⟩ blocks⟩
  | .invoke library rest, loud => by
    have enters : Run Step (.between (.invoke library rest))
        [.begin .invoker, .lock .invoker, .take] (.inLibrary library rest) :=
      .cons rfl (.cons rfl (.cons rfl .nil))
    by_cases quiet : library.Quiet
    · obtain ⟨message, callback, after, last, blocks⟩ :=
        program_blocks rest fun later => loud ⟨quiet, later⟩
      exact ⟨message, callback, after, last,
        (Reachable.trans ⟨_, enters⟩ (library_returns rest library quiet)).trans blocks⟩
    · obtain ⟨message, callback, after, blocks⟩ := library_blocks rest library quiet
      exact ⟨message, callback, after, rest, Reachable.trans ⟨_, enters⟩ blocks⟩

end Control
end RlboxDynamic.CallbackReentry

namespace RlboxDynamic
open Transition CallbackReentry

/-- The parties never all wait on each other, in any run of the program, exactly
when no callback its library calls fire asks anything of the sandbox. -/
theorem never_stuck_iff (program : Program) :
    (∀ s, Reachable Parties.Step (.start program) s → ¬ s.Final → ¬ Stuck Parties.Step s) ↔
      program.Quiet := by
  constructor
  · intro free
    by_contra loud
    obtain ⟨message, callback, after, rest, blocks⟩ := Control.program_blocks program loud
    exact free _ (Control.parties_reachable blocks) (fun final => HostState.noConfusion final)
      (Control.blocked_stuck message callback after rest)
  · rintro quiet s reached unfinished stuck
    obtain ⟨c, moved, rfl⟩ := Control.reachable_parties reached
    have still : c.Quiet := Control.reachable_quiet (c := .between program) quiet moved
    have before : c ≠ .between .done := by rintro rfl; exact unfinished rfl
    obtain ⟨a, c', step⟩ := Control.quiet_moves still before
    exact stuck a _ (Control.parties_step step)

/-- A callback that allocates in its sandbox blocks all four parties. -/
theorem allocating_callback_stuck :
    ∃ s, Run Parties.Step
        (.start (.invoke (.fires (.request .mallocInSandbox .done) .returns) .done))
        [.begin .invoker, .lock .invoker, .take, .fire, .dispatch, .begin .callback] s ∧
      ¬ s.Final ∧ Stuck Parties.Step s := by
  refine ⟨(Control.blocked (.operation .mallocInSandbox) .done .returns .done).parties,
    .cons rfl (.cons rfl (.cons rfl (.cons rfl (.cons rfl (.cons rfl .nil))))), ?_, ?_⟩
  · exact fun final => HostState.noConfusion final
  · exact Control.blocked_stuck (.operation .mallocInSandbox) .done .returns .done

end RlboxDynamic
