import RlboxDynamic.ShimHandlers
import RlboxDynamic.Transition
import Mathlib.Logic.Function.Basic

/-! The request channel of the Cap'n Proto transport: any number of host threads
in `capnp_call`, the stream socket, and the shim's request loop. Messages are
read and written whole, since `request_mutex` keeps writers apart. -/
namespace RlboxDynamic.RequestChannel
open Transition

abbrev ThreadId := Nat

/-- A request with its place in the order of all requests written. The place is
not on the wire; it tells two requests with the same content apart. -/
structure Call where
  place : Nat
  request : WireRequest
  deriving DecidableEq

/-- Where a host thread is in `capnp_call`. `closed` is the return of 0 after an
exception or on a closed descriptor. -/
inductive HostThread where
  | idle
  | entering (request : WireRequest)
  | sending (request : WireRequest)
  | awaiting (call : Call)
  | replied (call : Call) (result : BitVec 64)
  | closed (request : WireRequest)
  deriving DecidableEq

/-- The thread is in its critical section. -/
def HostThread.inCall : HostThread → Bool
  | .sending _ | .awaiting _ => true
  | .idle | .entering _ | .replied _ _ | .closed _ => false

namespace HostThread

@[simp] theorem inCall_idle : idle.inCall = false := rfl

@[simp] theorem inCall_entering : (entering request).inCall = false := rfl

@[simp] theorem inCall_sending : (sending request).inCall = true := rfl

@[simp] theorem inCall_awaiting : (awaiting call).inCall = true := rfl

@[simp] theorem inCall_replied : (replied call result).inCall = false := rfl

@[simp] theorem inCall_closed : (closed request).inCall = false := rfl

end HostThread

/-- Where the shim's request loop is, with the blocks the iteration's builder
and reader hold. -/
inductive RequestLoop (t : Target) where
  | top
  | receiving (out : List (TPointer t))
  | handling (out reader : List (TPointer t)) (call : Call)
  | replying (out reader : List (TPointer t)) (call : Call) (result : BitVec 64)
  | ended
  deriving DecidableEq

/-- Both ends of the channel. `computed` records what the loop computed for
which request. -/
structure Channel {t : Target} (A : Allocator t) where
  requestMutex : Option ThreadId
  hostOpen : Bool
  shimOpen : Bool
  toShim : List Call
  toHost : List (Call × BitVec 64)
  threads : ThreadId → HostThread
  loop : RequestLoop t
  process : ShimProcess A
  written : Nat
  computed : List (Call × BitVec 64)

/-- `throws` is an exception of the loop body where the channel is not at its
end. `shimExits` closes the shim's end: the shim is gone and so is every child
it forked, which all have the descriptor too. A host that writes after that is
taken to ignore SIGPIPE. `others` is what the rest of the sandbox does to the
shared memory. -/
inductive Action {t : Target} (A : Allocator t) where
  | call (tid : ThreadId) (request : WireRequest)
  | lock (tid : ThreadId)
  | write (tid : ThreadId)
  | read (tid : ThreadId)
  | readEof (tid : ThreadId)
  | destroy
  | build
  | receive
  | handle (invoked : BitVec 64)
  | reply
  | eof
  | throws
  | shimExits
  | others (process : ShimProcess A)

namespace RequestLoop
variable {t : Target}

/-- The blocks that leaving the iteration frees. -/
def held : RequestLoop t → List (TPointer t)
  | .top | .ended => []
  | .receiving out => out
  | .handling out reader _ | .replying out reader _ _ => reader ++ out

/-- The request the loop is working on. -/
def carried : RequestLoop t → List Call
  | .handling _ _ call | .replying _ _ call _ => [call]
  | .top | .receiving _ | .ended => []

/-- The request it has read and not computed. -/
def unanswered : RequestLoop t → List Call
  | .handling _ _ call => [call]
  | .top | .receiving _ | .replying _ _ _ _ | .ended => []

/-- The result it has computed and not written. -/
def answer : RequestLoop t → List (Call × BitVec 64)
  | .replying _ _ call result => [(call, result)]
  | .top | .receiving _ | .handling _ _ _ | .ended => []

end RequestLoop

namespace Channel
variable {t : Target} {A : Allocator t} (env : ServerEnv t)

/-- After `impl_create_sandbox`, before any call. -/
def start (process : ShimProcess A) : Channel A :=
  { requestMutex := none, hostOpen := true, shimOpen := true, toShim := [], toHost := []
    threads := fun _ => .idle, loop := .top, process, written := 0, computed := [] }

/-- Neither end is closed. -/
def IsOpen (s : Channel A) : Prop := s.hostOpen = true ∧ s.shimOpen = true

instance (s : Channel A) : Decidable s.IsOpen := inferInstanceAs (Decidable (_ ∧ _))

def setThread (s : Channel A) (tid : ThreadId) (th : HostThread) : Channel A :=
  { s with threads := Function.update s.threads tid th }

/-- `capnp_call` leaves its critical section. -/
def unlock (s : Channel A) : Channel A := { s with requestMutex := none }

/-- The loop goes where an iteration's objects are destroyed. -/
def leaveIteration (s : Channel A) (loop : RequestLoop t) : Channel A :=
  { s with loop, process := { s.process with heap := A.freeAll s.loop.held s.process.heap } }

/-- One step of one party. The builder of the next reply is made before its
request is read; a failing allocation leaves the loop body only its exception,
which may come at any other point as well. Every exception ends the loop and
nothing closes the shim's end with it. -/
def exec (s : Channel A) : Action A → Option (Channel A)
  | .call tid request =>
    match s.threads tid with
    | .idle | .replied _ _ | .closed _ => some (s.setThread tid (.entering request))
    | _ => none
  | .lock tid =>
    match s.threads tid, s.requestMutex with
    | .entering request, none =>
      if s.hostOpen then some { s.setThread tid (.sending request) with requestMutex := some tid }
      else some (s.setThread tid (.closed request))
    | _, _ => none
  | .write tid =>
    match s.threads tid with
    | .sending request =>
      if s.IsOpen then
        some { s.setThread tid (.awaiting ⟨s.written, request⟩) with
          toShim := s.toShim ++ [⟨s.written, request⟩], written := s.written + 1 }
      else some (s.setThread tid (.closed request)).unlock
    | _ => none
  | .read tid =>
    match s.threads tid, s.toHost with
    | .awaiting call, (_, result) :: rest =>
      some { (s.setThread tid (.replied call result)).unlock with toHost := rest }
    | _, _ => none
  | .readEof tid =>
    match s.threads tid with
    | .awaiting call =>
      if s.IsOpen then none else some (s.setThread tid (.closed call.request)).unlock
    | _ => none
  | .destroy => some { s with hostOpen := false }
  | .build =>
    match s.loop, A.mallocAll [env.builderBytes] s.process.heap with
    | .top, some (out, heap) =>
      some { s with loop := .receiving out, process := { s.process with heap } }
    | _, _ => none
  | .receive =>
    match s.loop, s.toShim with
    | .receiving out, call :: rest =>
      match A.mallocAll (env.readerBytes call.request) s.process.heap with
      | some (reader, heap) =>
        some { s with
          loop := .handling out reader call, toShim := rest, process := { s.process with heap } }
      | none => none
    | _, _ => none
  | .handle invoked =>
    match s.loop with
    | .handling out reader call =>
      match A.mallocAll (vectorBytes call.request) s.process.heap with
      | some (vectors, heap) =>
        let (result, process) := handleRequest env invoked { s.process with heap } call.request
        some { s with
          loop := .replying out reader call result
          process := { process with heap := A.freeAll vectors process.heap }
          computed := s.computed ++ [(call, result)] }
      | none => none
    | _ => none
  | .reply =>
    match s.loop with
    | .replying _ _ call result =>
      if s.hostOpen then some { s.leaveIteration .top with toHost := s.toHost ++ [(call, result)] }
      else some (s.leaveIteration .ended)
    | _ => none
  | .eof =>
    match s.loop, s.toShim with
    | .receiving _, [] => if s.hostOpen then none else some (s.leaveIteration .ended)
    | _, _ => none
  | .throws => if s.loop = .ended then none else some (s.leaveIteration .ended)
  | .shimExits => some { s with shimOpen := false, loop := .ended }
  | .others process => some { s with process }

abbrev Step : Channel A → Action A → Channel A → Prop := ofPartial (exec env)

/-- All that one step can do, with what it found. -/
inductive Does (s : Channel A) : Action A → Channel A → Prop where
  | calls (outside : (s.threads tid).inCall = false) :
      Does s (.call tid request) (s.setThread tid (.entering request))
  | locks (free : s.requestMutex = none) (up : s.hostOpen = true) :
      Does s (.lock tid) { s.setThread tid (.sending request) with requestMutex := some tid }
  | lockFinds (outside : (s.threads tid).inCall = false) (down : s.hostOpen = false) :
      Does s (.lock tid) (s.setThread tid (.closed request))
  | writes (sending : s.threads tid = .sending request) (up : s.IsOpen) :
      Does s (.write tid)
        { s.setThread tid (.awaiting ⟨s.written, request⟩) with
          toShim := s.toShim ++ [⟨s.written, request⟩], written := s.written + 1 }
  | writeFails (sending : s.threads tid = .sending request) (down : ¬ s.IsOpen) :
      Does s (.write tid) (s.setThread tid (.closed request)).unlock
  | reads (awaiting : s.threads tid = .awaiting call) (next : s.toHost = (call', result) :: rest) :
      Does s (.read tid) { (s.setThread tid (.replied call result)).unlock with toHost := rest }
  | readFails (awaiting : s.threads tid = .awaiting call) (down : ¬ s.IsOpen) :
      Does s (.readEof tid) (s.setThread tid (.closed call.request)).unlock
  | destroys : Does s .destroy { s with hostOpen := false }
  | builds (top : s.loop = .top) :
      Does s .build { s with loop := .receiving out, process := memory }
  | receives (receiving : s.loop = .receiving out) (next : s.toShim = call :: rest) :
      Does s .receive { s with loop := .handling out reader call, toShim := rest, process := memory }
  | handles (handling : s.loop = .handling out reader call) :
      Does s (.handle invoked)
        { s with
          loop := .replying out reader call result, process := memory
          computed := s.computed ++ [(call, result)] }
  | replies (replying : s.loop = .replying out reader call result) (up : s.hostOpen = true) :
      Does s .reply { s with loop := .top, process := memory, toHost := s.toHost ++ [(call, result)] }
  | replyFails (down : s.hostOpen = false) : Does s .reply { s with loop := .ended, process := memory }
  | ends (down : s.hostOpen = false) : Does s .eof { s with loop := .ended, process := memory }
  | throws : Does s .throws { s with loop := .ended, process := memory }
  | exits : Does s .shimExits { s with shimOpen := false, loop := .ended }
  | moves : Does s (.others memory) { s with process := memory }

theorem does_of_step {s s' : Channel A} (done : Step env s a s') : Does s a s' := by
  change exec env s a = some s' at done
  cases a with
  | call tid request =>
    simp only [exec] at done
    split at done <;> cases done <;> exact .calls (by simp [*])
  | lock tid =>
    simp only [exec] at done
    split at done
    next request entering free =>
      split at done
      next up => cases done; exact .locks free up
      next down => cases done; exact .lockFinds (by simp [*]) (by simpa using down)
    next => cases done
  | write tid =>
    simp only [exec] at done
    split at done
    next request sending =>
      split at done
      next up => cases done; exact .writes sending up
      next down => cases done; exact .writeFails sending down
    next => cases done
  | read tid =>
    simp only [exec] at done
    split at done
    next call call' result rest awaiting next_reply => cases done; exact .reads awaiting next_reply
    next => cases done
  | readEof tid =>
    simp only [exec] at done
    split at done
    next call awaiting =>
      split at done
      next => cases done
      next down => cases done; exact .readFails awaiting down
    next => cases done
  | destroy => cases done; exact .destroys
  | build =>
    simp only [exec] at done
    split at done
    next out heap top made => cases done; exact .builds top
    next => cases done
  | receive =>
    simp only [exec] at done
    split at done
    next out call rest receiving next_call =>
      split at done
      next reader heap made => cases done; exact .receives receiving next_call
      next => cases done
    next => cases done
  | handle invoked =>
    simp only [exec] at done
    split at done
    next out reader call handling =>
      split at done
      next vectors heap made => cases done; exact .handles handling
      next => cases done
    next => cases done
  | reply =>
    simp only [exec] at done
    split at done
    next out reader call result replying =>
      split at done
      next up => cases done; exact .replies replying up
      next down => cases done; exact .replyFails (by simpa using down)
    next => cases done
  | eof =>
    simp only [exec] at done
    split at done
    next out receiving drained =>
      split at done
      next => cases done
      next down => cases done; exact .ends (by simpa using down)
    next => cases done
  | throws =>
    simp only [exec] at done
    split at done
    next => cases done
    next => cases done; exact .throws
  | shimExits => cases done; exact .exits
  | others process => cases done; exact .moves

/-- The requests between their writing and the reading of their reply. -/
def pipeline (s : Channel A) : List Call := s.toHost.map Prod.fst ++ s.loop.carried ++ s.toShim

/-- A call waits in its read while the loop has ended and both ends are open. -/
def Hangs (s : Channel A) : Prop :=
  ∃ tid call, s.threads tid = .awaiting call ∧ s.toHost = [] ∧ s.IsOpen ∧ s.loop = .ended

end Channel
end RlboxDynamic.RequestChannel
