import RlboxDynamic.KeyMap
import RlboxDynamic.WorkerPool

/-! The shim and the children it forks, system call by system call, with the
pipe ends each of them holds: a fork copies the shim's descriptors, and a process
that ends drops its own. A process id, or a descriptor, is used again once it is
free. Library code is taken not to fork and not to open or pass on descriptors,
and no signal interrupts a `waitpid`. -/
namespace RlboxDynamic.PoolDescriptors
open Transition

inductive Side where
  | read
  | write
  deriving DecidableEq

structure PipeEnd where
  pipe : Nat
  side : Side
  deriving DecidableEq

abbrev Descriptors := KeyMap Fd PipeEnd

def Descriptors.refersTo (d : Descriptors) (e : PipeEnd) : Bool := d.entries.any (·.2 = e)

theorem Descriptors.refersTo_iff {d : Descriptors} {e : PipeEnd} :
    d.refersTo e = true ↔ ∃ fd, d.lookup fd = some e := by
  simp only [refersTo, List.any_eq_true, decide_eq_true_eq]
  constructor
  · rintro ⟨⟨fd, held⟩, inside, rfl⟩
    exact ⟨fd, AList.mem_lookup_iff.mpr inside⟩
  · rintro ⟨fd, here⟩
    exact ⟨⟨fd, e⟩, AList.mem_lookup_iff.mp here, rfl⟩

/-- The two descriptors `pipe` stored, and which pipe they are of. -/
structure Pipe where
  id : Nat
  readFd : Fd
  writeFd : Fd
  deriving DecidableEq

inductive Thread where
  | refill
  | request (r : RequestId)
  deriving DecidableEq

/-- What a pipe is for. It is only `opened` until its child is forked. -/
inductive PipeUse where
  | opened (thread : Thread)
  | jobs (child : Nat)
  | results (child : Nat)
  deriving DecidableEq

/-- What the shim has done with a child, for the record. -/
inductive HandleEvent where
  | inlineFor (r : RequestId)
  | pushed
  | acquired (r : RequestId)
  | sent
  | closedReq
  | closedResp
  | waited
  deriving DecidableEq

/-- The child this is the shim's own end for, and what closing it there means. -/
def PipeUse.closed : PipeUse → Side → Option (Nat × HandleEvent)
  | .jobs k, .write => some (k, .closedReq)
  | .results k, .read => some (k, .closedResp)
  | _, _ => none

/-- A forked process. `closes` has the descriptors it closes before it goes on,
`calls` how often it entered library code. -/
structure Forked (t : Target) where
  pid : Pid
  descriptors : Descriptors
  closes : List Fd
  child : Child t
  reaped : Bool
  calls : Nat
  handle : List HandleEvent

namespace Forked
variable {t : Target}

def note (event : HandleEvent) (f : Forked t) : Forked t := { f with handle := f.handle ++ [event] }

/-- The process a system call on this pid means: one nobody has waited for. -/
def Named (pid : Pid) (f : Forked t) : Prop := f.pid = pid ∧ f.reaped = false

instance (pid : Pid) (f : Forked t) : Decidable (f.Named pid) := inferInstanceAs (Decidable (_ ∧ _))

def noteNamed (pid : Pid) (event : HandleEvent) (f : Forked t) : Forked t :=
  if f.Named pid then f.note event else f

/-- A job is in its pipe, read by the child unless it is gone. -/
def submit (job : Job t) (f : Forked t) : Forked t :=
  { f with child := f.child.deliver job, handle := f.handle ++ [.sent] }

/-- What `waitpid` leaves of a child that is gone. -/
def reap (pid : Pid) (f : Forked t) : Forked t :=
  if f.Named pid then { f with reaped := true, handle := f.handle ++ [.waited] } else f

/-- The next `close` on the child's way to its job. -/
def closeNext (f : Forked t) : Option (Forked t) :=
  match f.closes with
  | [] => none
  | fd :: fds =>
    if f.child.phase = .gone then none
    else some { f with descriptors := f.descriptors.erase fd, closes := fds }

/-- A step of the child. Its descriptors go with it. -/
def act (env : ShimEnv t) (action : ChildAction t) (f : Forked t) : Option (Forked t) :=
  if f.closes = [] ∨ action = .die then
    (f.child.exec env action).map fun child =>
      { f with
        child, descriptors := if child.phase = .gone then ∅ else f.descriptors
        calls := if action = .call ∧ child.called then f.calls + 1 else f.calls }
  else none

end Forked

/-- Where the refill thread is. In `closing` it goes on with a worker, or
without one. -/
inductive Spawning where
  | absent
  | waiting
  | spawning
  | opened (req : Pipe)
  | forking (req resp : Pipe)
  | closing (fds : List Fd) (w : Option Worker)
  deriving DecidableEq

/-- Who serves a call. An inline child has no request pipe. -/
inductive Server where
  | pooled (w : Worker)
  | inline (pid : Pid) (respFd : Fd)
  deriving DecidableEq

namespace Server

def pid : Server → Pid
  | .pooled w => w.pid
  | .inline pid _ => pid

def respFd : Server → Fd
  | .pooled w => w.respFd
  | .inline _ respFd => respFd

/-- The descriptors closed after the read, in order. -/
def fds : Server → List Fd
  | .pooled w => [w.reqFd, w.respFd]
  | .inline _ respFd => [respFd]

end Server

/-- Where one `handle_invoke` call is. -/
inductive Call (t : Target) where
  | entered (job : Job t)
  | piping (job : Job t)
  | forking (job : Job t) (p : Pipe)
  | abandoning (fds : List Fd)
  | dispatching (w : Worker) (job : Job t)
  | closingWrite (fd : Fd) (server : Server)
  | reading (server : Server)
  | finishing (server : Server) (fds : List Fd) (result : BitVec 64)
  | returned (result : BitVec 64)
  deriving DecidableEq

/-- The shim, and every child it has forked, in order. -/
structure Procs (t : Target) where
  descriptors : Descriptors
  pipes : List PipeUse
  forked : List (Forked t)
  pool : List Worker
  refill : Spawning
  requests : RequestId → Option (Call t)

inductive Action (t : Target) where
  | refillWake
  | refillPipe (answer : Option (Fd × Fd))
  | refillFork (answer : Option Pid)
  | refillClose
  | refillPush
  | invoke (r : RequestId) (job : Job t)
  | acquire (r : RequestId)
  | pipe (r : RequestId) (answer : Option (Fd × Fd))
  | fork (r : RequestId) (answer : Option Pid)
  | send (r : RequestId)
  | read (r : RequestId)
  | close (r : RequestId)
  | wait (r : RequestId)
  | childClose (k : Nat)
  | child (k : Nat) (action : ChildAction t)
  deriving DecidableEq

/-- The call a system call is part of. -/
def Action.request {t : Target} : Action t → Option RequestId
  | .acquire r | .pipe r _ | .fork r _ | .send r | .read r | .close r | .wait r => some r
  | _ => none

namespace Procs
variable {t : Target}

/-- The shim when its request loop starts, its static initialisers having run. -/
def start (mspace : Bool) (target : Nat) : Procs t :=
  { descriptors := ∅, pipes := [], forked := [], pool := []
    refill := if mspace ∧ target ≠ 0 then .waiting else .absent, requests := fun _ => none }

/-- The checks of `handle_invoke`. -/
def enter (env : ShimEnv t) (job : Job t) : Call t :=
  if env.shmBase = 0 ∨ job.funcAddr = 0 then .returned 0
  else if job.argTags.length ≠ job.argValues.length then .returned 0
  else if job.argTags.length > kMaxArgs then .returned 0
  else .entered job

def setCall (s : Procs t) (r : RequestId) (call : Call t) : Procs t :=
  { s with requests := Function.update s.requests r (some call) }

/-- Two descriptors that were free. -/
def Free (s : Procs t) (fds : Fd × Fd) : Prop :=
  fds.1 ≠ fds.2 ∧ s.descriptors.lookup fds.1 = none ∧ s.descriptors.lookup fds.2 = none

instance (s : Procs t) (fds : Fd × Fd) : Decidable (s.Free fds) := inferInstanceAs (Decidable (_ ∧ _))

/-- The pipe that `pipe` makes next. -/
def newPipe (s : Procs t) (fds : Fd × Fd) : Pipe := ⟨s.pipes.length, fds.1, fds.2⟩

def openPipe (s : Procs t) (thread : Thread) (fds : Fd × Fd) : Procs t :=
  { s with
    descriptors := AList.insert fds.2 ⟨s.pipes.length, .write⟩
      (AList.insert fds.1 ⟨s.pipes.length, .read⟩ s.descriptors)
    pipes := s.pipes ++ [.opened thread] }

/-- No process has the pid but those already waited for. -/
def PidFree (s : Procs t) (pid : Pid) : Prop := ∀ f ∈ s.forked, ¬ f.Named pid

instance (s : Procs t) (pid : Pid) : Decidable (s.PidFree pid) :=
  inferInstanceAs (Decidable (∀ f ∈ s.forked, _))

/-- The fork in `spawn_worker`. -/
def forkWorker (s : Procs t) (pid : Pid) (req resp : Pipe) : Procs t :=
  { s with
    pipes := (s.pipes.set req.id (.jobs s.forked.length)).set resp.id (.results s.forked.length)
    forked := s.forked ++ [{ pid, descriptors := s.descriptors, closes := [req.writeFd, resp.readFd]
                             child := .worker, reaped := false, calls := 0, handle := [] }] }

/-- The fork in `handle_invoke`. -/
def forkInline (s : Procs t) (pid : Pid) (r : RequestId) (job : Job t) (p : Pipe) : Procs t :=
  { s with
    pipes := s.pipes.set p.id (.results s.forked.length)
    forked := s.forked ++ [{ pid, descriptors := s.descriptors, closes := [p.readFd]
                             child := .inline job, reaped := false, calls := 0
                             handle := [.inlineFor r] }] }

def noteClosed (s : Procs t) (e : PipeEnd) : List (Forked t) :=
  match s.pipes[e.pipe]?.bind (·.closed e.side) with
  | some (k, event) => s.forked.modify k (·.note event)
  | none => s.forked

/-- `close`. -/
def closeFd (s : Procs t) (fd : Fd) : Procs t :=
  match s.descriptors.lookup fd with
  | none => s
  | some e => { s with descriptors := s.descriptors.erase fd, forked := s.noteClosed e }

def note (s : Procs t) (pid : Pid) (event : HandleEvent) : Procs t :=
  { s with forked := s.forked.map (·.noteNamed pid event) }

def reap (s : Procs t) (pid : Pid) : Procs t := { s with forked := s.forked.map (·.reap pid) }

def setChild (s : Procs t) (k : Nat) (f : Forked t) : Procs t := { s with forked := s.forked.set k f }

/-- Some process has a descriptor of this pipe end. -/
def held (s : Procs t) (e : PipeEnd) : Bool :=
  s.descriptors.refersTo e || s.forked.any (·.descriptors.refersTo e)

/-- The job a `write_full` puts into the pipe of a descriptor. -/
def submit (s : Procs t) (fd : Fd) (job : Job t) : Procs t :=
  match s.descriptors.lookup fd with
  | some ⟨p, .write⟩ =>
    match s.pipes[p]? with
    | some (.jobs k) => { s with forked := s.forked.modify k (·.submit job) }
    | _ => s
  | _ => s

/-- Whether it fails, for want of a reader. -/
def broken (s : Procs t) (fd : Fd) : Bool :=
  match s.descriptors.lookup fd with
  | some ⟨p, .write⟩ => !s.held ⟨p, .read⟩
  | _ => true

/-- What was written into a pipe for results. -/
def resultIn (s : Procs t) (p : Nat) : Option (BitVec 64) :=
  match s.pipes[p]? with
  | some (.results k) => s.forked[k]?.bind (·.child.wrote)
  | _ => none

/-- `read_full`: the result, 0 at the end of file, or none while it blocks. -/
def readResult (s : Procs t) (fd : Fd) : Option (BitVec 64) :=
  match s.descriptors.lookup fd with
  | some ⟨p, .read⟩ =>
    match s.resultIn p with
    | some result => some result
    | none => if s.held ⟨p, .write⟩ then none else some 0
  | _ => some 0

/-- A step of the refill thread. -/
def execRefill (env : ShimEnv t) (s : Procs t) : Action t → Option (Procs t)
  | .refillWake =>
    match s.refill with
    | .waiting => if s.pool.length < env.poolTarget then some { s with refill := .spawning } else none
    | .closing [] none => some { s with refill := .waiting }
    | _ => none
  | .refillPipe none =>
    match s.refill with
    | .spawning => some { s with refill := .closing [] none }
    | .opened req => some { s with refill := .closing [req.readFd, req.writeFd] none }
    | _ => none
  | .refillPipe (some fds) =>
    if s.Free fds then
      match s.refill with
      | .spawning => some { s.openPipe .refill fds with refill := .opened (s.newPipe fds) }
      | .opened req => some { s.openPipe .refill fds with refill := .forking req (s.newPipe fds) }
      | _ => none
    else none
  | .refillFork none =>
    match s.refill with
    | .forking req resp =>
      some { s with
        refill := .closing [req.readFd, req.writeFd, resp.readFd, resp.writeFd] none }
    | _ => none
  | .refillFork (some pid) =>
    match s.refill with
    | .forking req resp =>
      if s.PidFree pid then
        some { s.forkWorker pid req resp with
          refill := .closing [req.readFd, resp.writeFd] (some ⟨pid, req.writeFd, resp.readFd⟩) }
      else none
    | _ => none
  | .refillClose =>
    match s.refill with
    | .closing (fd :: fds) w => some { s.closeFd fd with refill := .closing fds w }
    | _ => none
  | .refillPush =>
    match s.refill with
    | .closing [] (some w) =>
      some { s.note w.pid .pushed with refill := .waiting, pool := s.pool ++ [w] }
    | _ => none
  | _ => none

/-- A step of one `handle_invoke` call, from where it is. -/
def execCall (s : Procs t) (r : RequestId) (call : Call t) : Action t → Option (Procs t)
  | .acquire _ =>
    match call, s.pool with
    | .entered job, [] => some (s.setCall r (.piping job))
    | .entered job, w :: rest =>
      some ({ s.note w.pid (.acquired r) with pool := rest }.setCall r (.dispatching w job))
    | _, _ => none
  | .pipe _ none =>
    match call with
    | .piping _ => some (s.setCall r (.returned 0))
    | _ => none
  | .pipe _ (some fds) =>
    match call with
    | .piping job =>
      if s.Free fds then
        some ((s.openPipe (.request r) fds).setCall r (.forking job (s.newPipe fds)))
      else none
    | _ => none
  | .fork _ none =>
    match call with
    | .forking _ p => some (s.setCall r (.abandoning [p.readFd, p.writeFd]))
    | _ => none
  | .fork _ (some pid) =>
    match call with
    | .forking job p =>
      if s.PidFree pid then
        some ((s.forkInline pid r job p).setCall r (.closingWrite p.writeFd (.inline pid p.readFd)))
      else none
    | _ => none
  | .send _ =>
    match call with
    | .dispatching w job =>
      some ((s.submit w.reqFd job).setCall r
        (if s.broken w.reqFd then .finishing (.pooled w) (Server.pooled w).fds 0
          else .reading (.pooled w)))
    | _ => none
  | .read _ =>
    match call with
    | .reading server =>
      (s.readResult server.respFd).map fun result => s.setCall r (.finishing server server.fds result)
    | _ => none
  | .close _ =>
    match call with
    | .abandoning (fd :: fds) => some ((s.closeFd fd).setCall r (.abandoning fds))
    | .closingWrite fd server => some ((s.closeFd fd).setCall r (.reading server))
    | .finishing server (fd :: fds) result =>
      some ((s.closeFd fd).setCall r (.finishing server fds result))
    | _ => none
  | .wait _ =>
    match call with
    | .abandoning [] => some (s.setCall r (.returned 0))
    | .finishing server [] result =>
      if ∀ f ∈ s.forked, f.Named server.pid → f.child.phase = .gone then
        some ((s.reap server.pid).setCall r (.returned result))
      else none
    | _ => none
  | _ => none

/-- One step. -/
def exec (env : ShimEnv t) (s : Procs t) : Action t → Option (Procs t)
  | .invoke r job => if s.requests r = none then some (s.setCall r (enter env job)) else none
  | .childClose k =>
    match s.forked[k]? with
    | some f => f.closeNext.map (s.setChild k)
    | none => none
  | .child k action =>
    match s.forked[k]? with
    | some f => (f.act env action).map (s.setChild k)
    | none => none
  | action =>
    match action.request with
    | some r =>
      match s.requests r with
      | some call => s.execCall r call action
      | none => none
    | none => s.execRefill env action

abbrev Step (env : ShimEnv t) : Procs t → Action t → Procs t → Prop := ofPartial (exec env)

/-- All that one step can do, with what it found. -/
inductive Does (env : ShimEnv t) (s : Procs t) : Action t → Procs t → Prop where
  | wakes (waiting : s.refill = .waiting) (short : s.pool.length < env.poolTarget) :
      Does env s .refillWake { s with refill := .spawning }
  | sleeps (done : s.refill = .closing [] none) :
      Does env s .refillWake { s with refill := .waiting }
  | opensNone (spawning : s.refill = .spawning) :
      Does env s (.refillPipe none) { s with refill := .closing [] none }
  | opensOne (opened : s.refill = .opened req) :
      Does env s (.refillPipe none) { s with refill := .closing [req.readFd, req.writeFd] none }
  | opensReq (spawning : s.refill = .spawning) (free : s.Free fds) :
      Does env s (.refillPipe (some fds))
        { s.openPipe .refill fds with refill := .opened (s.newPipe fds) }
  | opensResp (opened : s.refill = .opened req) (free : s.Free fds) :
      Does env s (.refillPipe (some fds))
        { s.openPipe .refill fds with refill := .forking req (s.newPipe fds) }
  | spawnFails (forking : s.refill = .forking req resp) :
      Does env s (.refillFork none)
        { s with refill := .closing [req.readFd, req.writeFd, resp.readFd, resp.writeFd] none }
  | spawns (forking : s.refill = .forking req resp) (free : s.PidFree pid) :
      Does env s (.refillFork (some pid))
        { s.forkWorker pid req resp with
          refill := .closing [req.readFd, resp.writeFd] (some ⟨pid, req.writeFd, resp.readFd⟩) }
  | refillCloses (closing : s.refill = .closing (fd :: fds) w) :
      Does env s .refillClose { s.closeFd fd with refill := .closing fds w }
  | pushes (closed : s.refill = .closing [] (some w)) :
      Does env s .refillPush
        { s.note w.pid .pushed with refill := .waiting, pool := s.pool ++ [w] }
  | enters (unused : s.requests r = none) : Does env s (.invoke r job) (s.setCall r (enter env job))
  | misses (entered : s.requests r = some (.entered job)) (empty : s.pool = []) :
      Does env s (.acquire r) (s.setCall r (.piping job))
  | finds (entered : s.requests r = some (.entered job)) (front : s.pool = w :: rest) :
      Does env s (.acquire r)
        ({ s.note w.pid (.acquired r) with pool := rest }.setCall r (.dispatching w job))
  | pipeFails (piping : s.requests r = some (.piping job)) :
      Does env s (.pipe r none) (s.setCall r (.returned 0))
  | opensInline (piping : s.requests r = some (.piping job)) (free : s.Free fds) :
      Does env s (.pipe r (some fds))
        ((s.openPipe (.request r) fds).setCall r (.forking job (s.newPipe fds)))
  | forkFails (forking : s.requests r = some (.forking job p)) :
      Does env s (.fork r none) (s.setCall r (.abandoning [p.readFd, p.writeFd]))
  | forks (forking : s.requests r = some (.forking job p)) (free : s.PidFree pid) :
      Does env s (.fork r (some pid))
        ((s.forkInline pid r job p).setCall r (.closingWrite p.writeFd (.inline pid p.readFd)))
  | sends (dispatching : s.requests r = some (.dispatching w job)) (reader : s.broken w.reqFd = false) :
      Does env s (.send r) ((s.submit w.reqFd job).setCall r (.reading (.pooled w)))
  | sendFails (dispatching : s.requests r = some (.dispatching w job))
      (broken : s.broken w.reqFd = true) :
      Does env s (.send r)
        ((s.submit w.reqFd job).setCall r (.finishing (.pooled w) (Server.pooled w).fds 0))
  | reads (reading : s.requests r = some (.reading server))
      (got : s.readResult server.respFd = some result) :
      Does env s (.read r) (s.setCall r (.finishing server server.fds result))
  | abandons (abandoning : s.requests r = some (.abandoning (fd :: fds))) :
      Does env s (.close r) ((s.closeFd fd).setCall r (.abandoning fds))
  | closesWrite (closing : s.requests r = some (.closingWrite fd server)) :
      Does env s (.close r) ((s.closeFd fd).setCall r (.reading server))
  | closes (finishing : s.requests r = some (.finishing server (fd :: fds) result)) :
      Does env s (.close r) ((s.closeFd fd).setCall r (.finishing server fds result))
  | gaveUp (abandoned : s.requests r = some (.abandoning [])) :
      Does env s (.wait r) (s.setCall r (.returned 0))
  | waits (finished : s.requests r = some (.finishing server [] result))
      (gone : ∀ f ∈ s.forked, f.Named server.pid → f.child.phase = .gone) :
      Does env s (.wait r) ((s.reap server.pid).setCall r (.returned result))
  | childCloses (here : s.forked[k]? = some f) (done : f.closeNext = some f') :
      Does env s (.childClose k) (s.setChild k f')
  | acts (here : s.forked[k]? = some f) (done : f.act env action = some f') :
      Does env s (.child k action) (s.setChild k f')

theorem does_of_execRefill {env : ShimEnv t} {s s' : Procs t} {a : Action t}
    (done : s.execRefill env a = some s') : Does env s a s' := by
  cases a with
  | refillWake =>
    simp only [execRefill] at done
    split at done
    next waiting =>
      split at done
      next short => cases done; exact .wakes waiting short
      next => cases done
    next closed => cases done; exact .sleeps closed
    next => cases done
  | refillPipe answer =>
    cases answer with
    | none =>
      simp only [execRefill] at done
      split at done
      next spawning => cases done; exact .opensNone spawning
      next opened => cases done; exact .opensOne opened
      next => cases done
    | some fds =>
      simp only [execRefill] at done
      split at done
      next free =>
        split at done
        next spawning => cases done; exact .opensReq spawning free
        next opened => cases done; exact .opensResp opened free
        next => cases done
      next => cases done
  | refillFork answer =>
    cases answer with
    | none =>
      simp only [execRefill] at done
      split at done
      next forking => cases done; exact .spawnFails forking
      next => cases done
    | some pid =>
      simp only [execRefill] at done
      split at done
      next forking =>
        split at done
        next free => cases done; exact .spawns forking free
        next => cases done
      next => cases done
  | refillClose =>
    simp only [execRefill] at done
    split at done
    next closing => cases done; exact .refillCloses closing
    next => cases done
  | refillPush =>
    simp only [execRefill] at done
    split at done
    next closed => cases done; exact .pushes closed
    next => cases done
  | _ => cases done

theorem does_of_execCall {env : ShimEnv t} {s s' : Procs t} {a : Action t} {r : RequestId}
    {call : Call t} (asks : a.request = some r) (at_call : s.requests r = some call)
    (done : s.execCall r call a = some s') : Does env s a s' := by
  cases a with
  | acquire r' =>
    cases asks
    simp only [execCall] at done
    split at done
    next empty => cases done; exact .misses at_call empty
    next front => cases done; exact .finds at_call front
    next => cases done
  | pipe r' answer =>
    cases asks
    cases answer with
    | none =>
      simp only [execCall] at done
      split at done
      next => cases done; exact .pipeFails at_call
      next => cases done
    | some fds =>
      simp only [execCall] at done
      split at done
      next =>
        split at done
        next free => cases done; exact .opensInline at_call free
        next => cases done
      next => cases done
  | fork r' answer =>
    cases asks
    cases answer with
    | none =>
      simp only [execCall] at done
      split at done
      next => cases done; exact .forkFails at_call
      next => cases done
    | some pid =>
      simp only [execCall] at done
      split at done
      next =>
        split at done
        next free => cases done; exact .forks at_call free
        next => cases done
      next => cases done
  | send r' =>
    cases asks
    simp only [execCall] at done
    split at done
    next w job =>
      cases broken : s.broken w.reqFd with
      | true =>
        simp only [broken, ↓reduceIte] at done
        cases done
        exact .sendFails at_call broken
      | false =>
        simp only [broken, Bool.false_eq_true, ↓reduceIte] at done
        cases done
        exact .sends at_call broken
    next => cases done
  | read r' =>
    cases asks
    simp only [execCall] at done
    split at done
    next =>
      obtain ⟨result, got, rfl⟩ := Option.map_eq_some_iff.mp done
      exact .reads at_call got
    next => cases done
  | close r' =>
    cases asks
    simp only [execCall] at done
    split at done
    next => cases done; exact .abandons at_call
    next => cases done; exact .closesWrite at_call
    next => cases done; exact .closes at_call
    next => cases done
  | wait r' =>
    cases asks
    simp only [execCall] at done
    split at done
    next => cases done; exact .gaveUp at_call
    next =>
      split at done
      next gone => cases done; exact .waits at_call gone
      next => cases done
    next => cases done
  | _ => cases asks

theorem does_of_step {env : ShimEnv t} {s s' : Procs t} {a : Action t} (done : Step env s a s') :
    Does env s a s' := by
  change exec env s a = some s' at done
  unfold exec at done
  split at done
  next =>
    split at done
    next unused => cases done; exact .enters unused
    next => cases done
  next =>
    split at done
    next here =>
      obtain ⟨f', closed, rfl⟩ := Option.map_eq_some_iff.mp done
      exact .childCloses here closed
    next => cases done
  next =>
    split at done
    next here =>
      obtain ⟨f', acted, rfl⟩ := Option.map_eq_some_iff.mp done
      exact .acts here acted
    next => cases done
  next =>
    split at done
    next asks =>
      split at done
      next at_call => exact does_of_execCall asks at_call done
      next => cases done
    next => exact does_of_execRefill done

end Procs
end RlboxDynamic.PoolDescriptors
