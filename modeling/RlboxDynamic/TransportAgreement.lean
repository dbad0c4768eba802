import RlboxDynamic.CallPipeline
import RlboxDynamic.HostProcess
import RlboxDynamic.ShimHandlers

/-! The rpclib build and the Cap'n Proto build over the handlers they share. They
differ in which calls the host waits for, in who carries a callback out of a
forked child, and in the blocks their own messages take from the shared heap. -/
namespace RlboxDynamic.TransportAgreement
open Transition CallPipeline HostProcess

variable {t : Target} {A : Allocator t} {H : Type}

/-- Library code in a forked child, on the shared heap. -/
inductive LibraryCode (t : Target) (H : Type) where
  | returns (retBuf : BitVec t.ptrBits) (heap : H)
  | dies (heap : H)
  | callsBack (slot : Nat) (params : List (BitVec 64)) (heap : H)
      (resume : BitVec 64 → H → LibraryCode t H)

/-- The code the shim is linked with. `rpclibBytes` is what an rpclib session
allocates for a message, `callbackBytes` what the builder and the reader of
`fire_callback` do. `pastEnd` is what a dispatcher answers after a read past the
end of its arguments. -/
structure Linked (A : Allocator t) where
  env : ServerEnv t
  rpclibBytes : WireRequest → List (SizeT t)
  callbackBytes : List (SizeT t)
  prepCif : List FfiType → FfiType → Bool
  library : FfiCall t → A.Heap → LibraryCode t A.Heap
  pastEnd : PastEnd → BitVec 64

/-- The operations of a host thread. -/
inductive HostCall (t : Target) where
  | lookupSymbol (name : String)
  | malloc (size : SizeT t)
  | free (p : TPointer t)
  | invoke (job : Job t)
  | registerCallback (key : TPointer t) (callback : HostCallback t)
  | unregisterCallback (key : TPointer t)

/-- What the host makes of an answer. -/
inductive HostResult (t : Target) where
  | unit
  | pointer (p : TPointer t)
  | raw (slot : BitVec 64)
  deriving DecidableEq

namespace HostCall

def request : HostCall t → WireRequest
  | .lookupSymbol name => .lookupSymbol name
  | .malloc size => .allocate (size.setWidth 64)
  | .free p => .release (p.setWidth 64)
  | .invoke job => .invoke (job.funcAddr.setWidth 64) job.retTag job.argTags job.argValues
  | .registerCallback key _ => .registerCallback (key.setWidth 64)
  | .unregisterCallback key => .unregisterCallback (key.setWidth 64)

def result (raw : BitVec 64) : HostCall t → HostResult t
  | .lookupSymbol _ | .malloc _ | .registerCallback _ _ => .pointer (raw.setWidth t.ptrBits)
  | .free _ | .unregisterCallback _ => .unit
  | .invoke job => if job.retTag = argVoid then .unit else .raw raw

/-- `callback_map` is updated before the request is sent. -/
def issue (table : CallbackMap t) : HostCall t → CallbackMap t
  | .registerCallback key callback => table.insert key callback
  | .unregisterCallback key => table.erase key
  | _ => table

/-- `async_call` is rpclib's for the two that return nothing. -/
def waits (transport : Transport) (call : HostCall t) : Bool :=
  match transport, call with
  | .rpclib, .free _ | .rpclib, .unregisterCallback _ => false
  | _, _ => true

end HostCall

/-- The answer to a trampoline's request. Cap'n Proto writes it and reads the
response on the calling thread, and answers 0 where a block for them is not
granted. `rpc::client` leaves both to a thread of its own, which fork does not
copy, and `call` waits for ever. -/
def answerCallback (transport : Transport) (linked : Linked A) (table : CallbackMap t)
    (request : CallbackRequest) (heap : A.Heap) : Option (BitVec 64 × A.Heap) :=
  match transport with
  | .rpclib => none
  | .capnp =>
    match A.mallocAll linked.callbackBytes heap with
    | none => some (0, heap)
    | some (blocks, heap) =>
      match dispatchCallback table request with
      | .ok result => some (result, A.freeAll blocks.reverse heap)
      | .error past => some (linked.pastEnd past, A.freeAll blocks.reverse heap)

namespace LibraryCode

/-- Runs the code. None where it waits for ever, none inside where it dies. -/
def run (answer : CallbackRequest → H → Option (BitVec 64 × H))
    (callbackKeys : Option (List (TPointer t))) :
    LibraryCode t H → Option (Option (BitVec t.ptrBits) × H)
  | .returns retBuf heap => some (some retBuf, heap)
  | .dies heap => some (none, heap)
  | .callsBack slot params heap resume =>
    match trampolineImpl callbackKeys true slot params with
    | none => (resume 0 heap).run answer callbackKeys
    | some request =>
      match answer request heap with
      | none => none
      | some (result, heap) => (resume result heap).run answer callbackKeys

/-- The code calls a trampoline whose slot has a key. -/
def callsHost (callbackKeys : Option (List (TPointer t))) : LibraryCode t H → Bool
  | .returns _ _ | .dies _ => false
  | .callsBack slot params heap resume =>
    match trampolineImpl callbackKeys true slot params with
    | none => (resume 0 heap).callsHost callbackKeys
    | some _ => true

end LibraryCode

/-- The library code an invoke comes to run, where its checks let it. -/
def libraryCode (linked : Linked A) (heap : A.Heap) (job : Job t) : Option (LibraryCode t A.Heap) :=
  if linked.env.shmBase = 0 ∨ job.funcAddr = 0 then none
  else if job.argTags.length ≠ job.argValues.length then none
  else if job.argTags.length > kMaxArgs then none
  else (prepareCall linked.prepCif linked.env.shmBase job).map (linked.library · heap)

/-- `handle_invoke`, with the child it forks. -/
def handleInvoke (transport : Transport) (linked : Linked A) (table : CallbackMap t)
    (process : ShimProcess A) (job : Job t) : Option (BitVec 64 × A.Heap) :=
  match libraryCode linked process.heap job with
  | none => some (0, process.heap)
  | some code =>
    (code.run (answerCallback transport linked table) process.callbackKeys).map fun
      | (none, heap) => (0, heap)
      | (some retBuf, heap) => (ffiResult job.retTag retBuf, heap)

/-- What the handler of a call does, up to the host's result. -/
def handleCall (transport : Transport) (linked : Linked A) (table : CallbackMap t)
    (process : ShimProcess A) (call : HostCall t) : Option (HostResult t × ShimProcess A) :=
  let invoked := match call with
    | .invoke job => handleInvoke transport linked table process job
    | _ => some (0, process.heap)
  invoked.map fun (raw, heap) =>
    let (raw, process) := handleRequest linked.env raw { process with heap } call.request
    (call.result raw, process)

/-- The blocks a request loop holds while a request is handled: the Cap'n Proto
loop's builder, reader and vectors, or those of an rpclib session. -/
def loopBytes (transport : Transport) (linked : Linked A) (request : WireRequest) :
    List (SizeT t) :=
  match transport with
  | .capnp => linked.env.builderBytes :: linked.env.readerBytes request ++ vectorBytes request
  | .rpclib => linked.rpclibBytes request

/-- One call in the shim. A block that is not granted ends the request loop, and
the call waits for ever. -/
def serveCall (transport : Transport) (linked : Linked A) (table : CallbackMap t)
    (process : ShimProcess A) (call : HostCall t) : Option (HostResult t × ShimProcess A) :=
  match A.mallocAll (loopBytes transport linked call.request) process.heap with
  | none => none
  | some (blocks, heap) =>
    (handleCall transport linked table { process with heap } call).map fun (result, process) =>
      (result, { process with heap := A.freeAll blocks.reverse process.heap })

/-- The invoke runs library code that calls a trampoline whose slot has a key. -/
def callsHost (linked : Linked A) (process : ShimProcess A) (job : Job t) : Bool :=
  match libraryCode linked process.heap job with
  | none => false
  | some code => code.callsHost process.callbackKeys

def stuck (transport : Transport) (linked : Linked A) (process : ShimProcess A) :
    HostCall t → Bool
  | .invoke job => transport = .rpclib && callsHost linked process job
  | _ => false

/-! ## The two builds against each other -/

section
variable {linked : Linked A} {table : CallbackMap t} {process : ShimProcess A} {call : HostCall t}
  {keys : Option (List (TPointer t))}

/-- The host's callback loop answers every request. -/
theorem answerCallback_capnp (linked : Linked A) (table : CallbackMap t)
    (request : CallbackRequest) (heap : A.Heap) :
    ∃ result after, answerCallback .capnp linked table request heap = some (result, after) := by
  unfold answerCallback
  cases A.mallocAll linked.callbackBytes heap with
  | none => exact ⟨0, heap, rfl⟩
  | some granted =>
    cases dispatchCallback table request with
    | ok result => exact ⟨result, _, rfl⟩
    | error past => exact ⟨linked.pastEnd past, _, rfl⟩

theorem run_capnp (code : LibraryCode t A.Heap) :
    (code.run (answerCallback .capnp linked table) keys).isSome = true := by
  induction code with
  | returns => rfl
  | dies => rfl
  | callsBack slot params heap resume ih =>
    unfold LibraryCode.run
    cases trampolineImpl keys true slot params with
    | none => exact ih 0 heap
    | some request =>
      obtain ⟨result, after, answered⟩ := answerCallback_capnp linked table request heap
      dsimp only
      rw [answered]
      exact ih result after

theorem handleInvoke_capnp (job : Job t) :
    (handleInvoke .capnp linked table process job).isSome = true := by
  unfold handleInvoke
  cases libraryCode linked process.heap job with
  | none => rfl
  | some code => exact Option.isSome_map.trans (run_capnp code)

theorem handleCall_capnp : (handleCall .capnp linked table process call).isSome = true := by
  cases call with
  | invoke job => exact Option.isSome_map.trans (handleInvoke_capnp job)
  | _ => rfl

end

/-- The calls of a build, as its handlers serve them. -/
def calls (transport : Transport) (linked : Linked A) :
    Calls (HostCall t) (CallbackMap t) (ShimProcess A) (HostResult t) where
  issue := HostCall.issue
  waits := HostCall.waits transport
  answer table process call := (handleCall .capnp linked table process call).get handleCall_capnp
  stuck _ := stuck transport linked
  atOnce _ := .unit
  unwaited table process call async := by
    cases transport <;> cases call <;> first | exact ⟨rfl, rfl⟩ | cases async
  apart table table' process call async := by
    cases transport <;> cases call <;> first | rfl | cases async

section
variable {linked : Linked A} {table : CallbackMap t} {process : ShimProcess A} {call : HostCall t}
  {transport : Transport} {ops : List (HostCall t)}

/-- What the calls come to, each answered before the next. The builds differ in
none of it. -/
def inOrder (linked : Linked A) (table : CallbackMap t) (process : ShimProcess A)
    (ops : List (HostCall t)) : Outcome (CallbackMap t) (ShimProcess A) (HostResult t) :=
  (calls .capnp linked).inOrder ops table process

/-- One event of a build. -/
abbrev Step (transport : Transport) (linked : Linked A) :=
  (calls transport linked).StepOf (serveCall transport linked)

end

/-- A host function of one argument that answers 12. -/
def answersTwelve : HostCallback .i386 := ⟨[.int], fun _ => some ⟨.int, 12, by simp⟩⟩

/-- A callback registered, a block and the invoke of a function that calls
nothing back. -/
def quiet : List (HostCall .i386) :=
  [.registerCallback 0x5000 answersTwelve, .malloc 0x3000, .invoke ⟨0x3000, argSint32, [], []⟩]

/-- A callback registered, and an invoke whose library code fires it. -/
def firing : List (HostCall .i386) :=
  [.registerCallback 0x5000 answersTwelve, .invoke ⟨0x2000, argSint32, [], []⟩]

end RlboxDynamic.TransportAgreement
