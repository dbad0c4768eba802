import RlboxDynamic.FfiCall
import RlboxDynamic.SeccompFilter
import RlboxDynamic.Transition
import Mathlib.Logic.Function.Basic

/-! The shim's pre-forked worker pool: the refill thread, any number of
`handle_invoke` calls, and the forked children. Each step is what one of them
does between two points where another may run. No signal interrupts a
`waitpid`. -/
namespace RlboxDynamic
open Transition

abbrev Pid := Nat
abbrev Fd := Nat
abbrev RequestId := Nat

/-- `Worker`. Where the code has pid -1, none. -/
structure Worker where
  pid : Pid
  reqFd : Fd
  respFd : Fd
  deriving DecidableEq, Repr

/-- What stays the same in one shim process. -/
structure ShimEnv (t : Target) where
  compileMode : Mode
  shmBase : TPointer t
  poolSize : Option Int
  prepCif : List FfiType → FfiType → Bool

/-- The target of `start_worker_pool` for `RLBOX_WORKER_POOL_SIZE`, parsed, if
it is set. -/
def ShimEnv.poolTarget {t : Target} (env : ShimEnv t) : Nat :=
  match env.poolSize with
  | none => 4
  | some parsed => parsed.toNat

/-! ## Forked children -/

/-- Where a forked child is. -/
inductive Phase (t : Target) where
  | readingJob
  | filtering (job : Job t)
  | calling (job : Job t)
  | inLibrary (retTag : BitVec 32)
  | writing (result : BitVec 64)
  | gone
  deriving DecidableEq

/-- A forked child. `applied` is set once `apply_filter` returned true in it,
`called` once it reached `ffi_call`. -/
structure Child (t : Target) where
  phase : Phase t
  inbox : Option (Job t)
  applied : Bool
  filter : Option TerminalAction
  called : Bool
  wrote : Option (BitVec 64)
  deriving DecidableEq

inductive ChildAction (t : Target) where
  | receive
  | lockDown (os : FilterAnswers)
  | call
  | libraryReturns (retBuf : BitVec t.ptrBits)
  | write
  | die
  deriving DecidableEq

namespace Child
variable {t : Target}

/-- What `spawn_worker` forks, at the start of `worker_main`. -/
def worker : Child t :=
  { phase := .readingJob, inbox := none, applied := false, filter := none, called := false
    wrote := none }

/-- What `handle_invoke` forks, before its `do_ffi_call`. -/
def inline (job : Job t) : Child t := { worker with phase := .calling job }

/-- `worker_main` and the inline child, from where the child is. A child may
also die at any point, from a crash or from the filter. -/
def exec (env : ShimEnv t) (c : Child t) : ChildAction t → Option (Child t)
  | .receive =>
    match c.phase, c.inbox with
    | .readingJob, some job =>
      if job.argTags.length > kMaxArgs then some { c with phase := .gone }
      else some { c with phase := .filtering job }
    | _, _ => none
  | .lockDown os =>
    match c.phase with
    | .filtering job =>
      if (applyFilter env.compileMode os).1 then
        some { c with
          phase := .calling job, applied := true, filter := (applyFilter env.compileMode os).2 }
      else some { c with phase := .gone }
    | _ => none
  | .call =>
    match c.phase with
    | .calling job =>
      match prepareCall env.prepCif env.shmBase job with
      | none => some { c with phase := .writing 0 }
      | some _ => some { c with phase := .inLibrary job.retTag, called := true }
    | _ => none
  | .libraryReturns retBuf =>
    match c.phase with
    | .inLibrary retTag => some { c with phase := .writing (ffiResult retTag retBuf) }
    | _ => none
  | .write =>
    match c.phase with
    | .writing result => some { c with phase := .gone, wrote := some result }
    | _ => none
  | .die => if c.phase = .gone then none else some { c with phase := .gone }

/-- The parent's `write_full` of a job: nobody reads it once the child is gone. -/
def deliver (job : Job t) (c : Child t) : Child t :=
  if c.phase = .gone then c else { c with inbox := some job }

end Child

/-! ## The shim process -/

/-- Where the refill thread is. It is absent where the pool is disabled. -/
inductive Refill where
  | absent
  | waiting
  | spawning
  | holding (w : Worker)
  deriving DecidableEq

/-- Where one `handle_invoke` call is. -/
inductive Request (t : Target) where
  | entered (job : Job t)
  | forking (job : Job t)
  | dispatching (w : Worker) (job : Job t)
  | reading (pid : Pid)
  | returned (result : BitVec 64)
  deriving DecidableEq

structure Shim (t : Target) where
  pool : List Worker
  refill : Refill
  requests : RequestId → Option (Request t)
  processes : Pid → Option (Child t)

inductive ShimAction (t : Target) where
  | refillWake
  | refillSpawn (answer : Option Worker)
  | refillPush
  | invoke (r : RequestId) (job : Job t)
  | acquire (r : RequestId)
  | inlineFork (r : RequestId) (answer : Option Pid)
  | send (r : RequestId)
  | collect (r : RequestId)
  | child (pid : Pid) (action : ChildAction t)
  deriving DecidableEq

namespace Shim
variable {t : Target}

/-- The shim when its request loop starts, its static initialisers having run.
The refill thread is not started without an mspace or with a target of 0. -/
def start (mspace : Bool) (target : Nat) : Shim t :=
  { pool := [], refill := if mspace ∧ target ≠ 0 then .waiting else .absent
    requests := fun _ => none, processes := fun _ => none }

/-- The checks of `handle_invoke`. -/
def enter (env : ShimEnv t) (job : Job t) : Request t :=
  if env.shmBase = 0 ∨ job.funcAddr = 0 then .returned 0
  else if job.argTags.length ≠ job.argValues.length then .returned 0
  else if job.argTags.length > kMaxArgs then .returned 0
  else .entered job

def setRequest (s : Shim t) (r : RequestId) (request : Request t) : Shim t :=
  { s with requests := Function.update s.requests r (some request) }

def setProcess (s : Shim t) (pid : Pid) (c : Child t) : Shim t :=
  { s with processes := Function.update s.processes pid (some c) }

/-- One step. `refill_loop`'s wait, its `spawn_worker` and its push are steps
of the refill thread; `try_acquire_worker`, the inline fork, the write of a job
and the read with its `waitpid` are steps of a `handle_invoke`. A new process
gets a pid nothing else has. -/
def exec (env : ShimEnv t) (s : Shim t) : ShimAction t → Option (Shim t)
  | .refillWake =>
    if s.refill = .waiting ∧ s.pool.length < env.poolTarget then
      some { s with refill := .spawning }
    else none
  | .refillSpawn none =>
    if s.refill = .spawning then some { s with refill := .waiting } else none
  | .refillSpawn (some w) =>
    if s.refill = .spawning ∧ s.processes w.pid = none then
      some ({ s with refill := .holding w }.setProcess w.pid .worker)
    else none
  | .refillPush =>
    match s.refill with
    | .holding w => some { s with refill := .waiting, pool := s.pool ++ [w] }
    | _ => none
  | .invoke r job =>
    if s.requests r = none then some (s.setRequest r (enter env job)) else none
  | .acquire r =>
    match s.requests r, s.pool with
    | some (.entered job), [] => some (s.setRequest r (.forking job))
    | some (.entered job), w :: rest =>
      some ({ s with pool := rest }.setRequest r (.dispatching w job))
    | _, _ => none
  | .inlineFork r none =>
    match s.requests r with
    | some (.forking _) => some (s.setRequest r (.returned 0))
    | _ => none
  | .inlineFork r (some pid) =>
    match s.requests r with
    | some (.forking job) =>
      if s.processes pid = none then
        some ((s.setRequest r (.reading pid)).setProcess pid (.inline job))
      else none
    | _ => none
  | .send r =>
    match s.requests r with
    | some (.dispatching w job) =>
      match s.processes w.pid with
      | some c => some ((s.setRequest r (.reading w.pid)).setProcess w.pid (c.deliver job))
      | none => none
    | _ => none
  | .collect r =>
    match s.requests r with
    | some (.reading pid) =>
      match s.processes pid with
      | some c => if c.phase = .gone then some (s.setRequest r (.returned (c.wrote.getD 0))) else none
      | none => none
    | _ => none
  | .child pid action =>
    match s.processes pid with
    | some c => (c.exec env action).map (s.setProcess pid)
    | none => none

abbrev Step (env : ShimEnv t) : Shim t → ShimAction t → Shim t → Prop := ofPartial (exec env)

@[simp] theorem setRequest_processes (s : Shim t) (r : RequestId) (request : Request t) :
    (s.setRequest r request).processes = s.processes := rfl

@[simp] theorem setRequest_requests (s : Shim t) (r : RequestId) (request : Request t) :
    (s.setRequest r request).requests = Function.update s.requests r (some request) := rfl

@[simp] theorem setProcess_processes (s : Shim t) (pid : Pid) (c : Child t) :
    (s.setProcess pid c).processes = Function.update s.processes pid (some c) := rfl

@[simp] theorem setProcess_requests (s : Shim t) (pid : Pid) (c : Child t) :
    (s.setProcess pid c).requests = s.requests := rfl

/-- All that one step can do, with what it found. -/
inductive Does (env : ShimEnv t) (s : Shim t) : ShimAction t → Shim t → Prop where
  | wakes (waiting : s.refill = .waiting) (short : s.pool.length < env.poolTarget) :
      Does env s .refillWake { s with refill := .spawning }
  | spawnFails (spawning : s.refill = .spawning) :
      Does env s (.refillSpawn none) { s with refill := .waiting }
  | spawns (spawning : s.refill = .spawning) (fresh : s.processes w.pid = none) :
      Does env s (.refillSpawn (some w)) ({ s with refill := .holding w }.setProcess w.pid .worker)
  | pushes (holding : s.refill = .holding w) :
      Does env s .refillPush { s with refill := .waiting, pool := s.pool ++ [w] }
  | enters (unused : s.requests r = none) :
      Does env s (.invoke r job) (s.setRequest r (enter env job))
  | finds (entered : s.requests r = some (.entered job)) (front : s.pool = w :: rest) :
      Does env s (.acquire r) ({ s with pool := rest }.setRequest r (.dispatching w job))
  | misses (entered : s.requests r = some (.entered job)) (empty : s.pool = []) :
      Does env s (.acquire r) (s.setRequest r (.forking job))
  | forkFails (forking : s.requests r = some (.forking job)) :
      Does env s (.inlineFork r none) (s.setRequest r (.returned 0))
  | forks (forking : s.requests r = some (.forking job)) (fresh : s.processes pid = none) :
      Does env s (.inlineFork r (some pid))
        ((s.setRequest r (.reading pid)).setProcess pid (.inline job))
  | sends (dispatching : s.requests r = some (.dispatching w job))
      (held : s.processes w.pid = some c) :
      Does env s (.send r) ((s.setRequest r (.reading w.pid)).setProcess w.pid (c.deliver job))
  | collects (reading : s.requests r = some (.reading pid)) (held : s.processes pid = some c)
      (gone : c.phase = .gone) :
      Does env s (.collect r) (s.setRequest r (.returned (c.wrote.getD 0)))
  | acts (held : s.processes pid = some c) (done : c.exec env action = some c') :
      Does env s (.child pid action) (s.setProcess pid c')

theorem does_of_step {s s' : Shim t} (done : Step env s a s') : Does env s a s' := by
  change exec env s a = some s' at done
  cases a with
  | refillWake =>
    simp only [exec] at done
    split at done
    next free => cases done; exact .wakes free.1 free.2
    next => cases done
  | refillSpawn answer =>
    cases answer with
    | none =>
      simp only [exec] at done
      split at done
      next spawning => cases done; exact .spawnFails spawning
      next => cases done
    | some w =>
      simp only [exec] at done
      split at done
      next free => cases done; exact .spawns free.1 free.2
      next => cases done
  | refillPush =>
    simp only [exec] at done
    split at done
    next w holding => cases done; exact .pushes holding
    next => cases done
  | invoke r job =>
    simp only [exec] at done
    split at done
    next unused => cases done; exact .enters unused
    next => cases done
  | acquire r =>
    simp only [exec] at done
    split at done
    next job entered empty => cases done; exact .misses entered empty
    next job w rest entered front => cases done; exact .finds entered front
    next => cases done
  | inlineFork r answer =>
    cases answer with
    | none =>
      simp only [exec] at done
      split at done
      next job forking => cases done; exact .forkFails forking
      next => cases done
    | some pid =>
      simp only [exec] at done
      split at done
      next job forking =>
        split at done
        next fresh => cases done; exact .forks forking fresh
        next => cases done
      next => cases done
  | send r =>
    simp only [exec] at done
    split at done
    next w job dispatching =>
      split at done
      next c held => cases done; exact .sends dispatching held
      next => cases done
    next => cases done
  | collect r =>
    simp only [exec] at done
    split at done
    next pid reading =>
      split at done
      next c held =>
        split at done
        next gone => cases done; exact .collects reading held gone
        next => cases done
      next => cases done
    next => cases done
  | child pid action =>
    simp only [exec] at done
    split at done
    next c held =>
      obtain ⟨c', acted, rfl⟩ := Option.map_eq_some_iff.mp done
      exact .acts held acted
    next => cases done

end Shim
end RlboxDynamic
