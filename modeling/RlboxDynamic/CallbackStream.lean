import RlboxDynamic.CallbackDispatch
import RlboxDynamic.MessageFraming
import RlboxDynamic.Transition

/-! The callback socket, byte by byte: the workers in `fire_callback`, one worker
after the other on the one descriptor they inherit, and the host's callback
thread. Each `read` and `write` moves any positive number of bytes, and a worker
may die between any two. -/
namespace RlboxDynamic.CallbackStream
open LittleEndian MessageFraming Transition

abbrev FiringId := Nat

/-- Where the worker that runs library code is. -/
inductive Firer where
  | idle
  | writing (firing : FiringId) (request : CallbackRequest) (left : List Byte)
  | reading (firing : FiringId) (got : List Byte)
  deriving DecidableEq

/-- Where the callback thread is. A byte of a request comes with the firing that
wrote it, which is not on the wire. `owner` is the one that wrote all of the
message. -/
inductive Host where
  | reading (got : List (Byte × FiringId))
  | dispatching (owner : Option FiringId) (request : CallbackRequest)
  | writing (left : List Byte)
  | stopped
  deriving DecidableEq

/-- What the host computed, for which message of whom. -/
structure Computed where
  owner : Option FiringId
  request : CallbackRequest
  result : BitVec 64
  deriving DecidableEq

/-- Both ends of the socket. `fired` has what each firing asked for, `computed`
what the host computed, and `returned` what `fire_callback` returned: a response,
or none where it caught an exception. -/
structure Channel where
  requests : List (Byte × FiringId)
  responses : List Byte
  host : Host
  firer : Firer
  fired : List CallbackRequest
  computed : List Computed
  returned : List (FiringId × Option (BitVec 64))
  deriving DecidableEq

inductive Action where
  | fire (key a b c d : BitVec 64)
  | write (k : Nat)
  | read (k : Nat)
  | fails
  | die
  | hostRead (k : Nat)
  | dispatch (result : BitVec 64)
  | hostWrite (k : Nat)
  | hostStops
  deriving DecidableEq

/-- The one firing all these bytes are of. -/
def soleOwner : List (Byte × FiringId) → Option FiringId
  | [] => none
  | (_, firing) :: rest => if ∀ byte ∈ rest, byte.2 = firing then some firing else none

/-- The bytes a firing writes. -/
def tagged (firing : FiringId) (bytes : List Byte) : List (Byte × FiringId) := bytes.map (·, firing)

namespace Channel

/-- The socket when the first worker is forked. -/
def start : Channel :=
  { requests := [], responses := [], host := .reading [], firer := .idle, fired := [], computed := []
    returned := [] }

/-- The message reader of `fire_callback`, with these bytes of the response. -/
def readOn (responses : Framing (BitVec 64)) (s : Channel) (firing : FiringId) (got : List Byte) : Channel :=
  match responses.scan got with
  | .more _ => { s with firer := .reading firing got }
  | .malformed => { s with firer := .idle, returned := s.returned ++ [(firing, none)] }
  | .message result => { s with firer := .idle, returned := s.returned ++ [(firing, some result)] }

/-- The message reader of the callback thread. It ends on an exception. -/
def hostReadOn (requests : Framing CallbackRequest) (got : List (Byte × FiringId)) : Host :=
  match requests.scan (got.map Prod.fst) with
  | .more _ => .reading got
  | .malformed => .stopped
  | .message request => .dispatching (soleOwner got) request

/-- One step. `die` is the death of the worker, wherever it is; the next one
starts idle. `fails` is the exception after the host's end is closed. -/
def exec (requests : Framing CallbackRequest) (responses : Framing (BitVec 64)) (s : Channel) :
    Action → Option Channel
  | .fire key a b c d =>
    if s.firer = .idle then
      some { s with
        firer := .writing s.fired.length ⟨key, [a, b, c, d]⟩ (requests.encode ⟨key, [a, b, c, d]⟩)
        fired := s.fired ++ [⟨key, [a, b, c, d]⟩] }
    else none
  | .write k =>
    match s.firer with
    | .writing firing request left =>
      if 0 < k ∧ k ≤ left.length then
        some { s with
          firer := if left.drop k = [] then .reading firing [] else .writing firing request (left.drop k)
          requests := s.requests ++ tagged firing (left.take k) }
      else none
    | _ => none
  | .read k =>
    match s.firer with
    | .reading firing got =>
      match responses.scan got with
      | .more wanted =>
        if 0 < k ∧ k ≤ wanted ∧ k ≤ s.responses.length then
          some ({ s with responses := s.responses.drop k }.readOn responses firing
            (got ++ s.responses.take k))
        else none
      | _ => none
    | _ => none
  | .fails =>
    match s.firer with
    | .writing firing _ _ =>
      if s.host = .stopped then
        some { s with firer := .idle, returned := s.returned ++ [(firing, none)] }
      else none
    | .reading firing _ =>
      if s.host = .stopped ∧ s.responses = [] then
        some { s with firer := .idle, returned := s.returned ++ [(firing, none)] }
      else none
    | .idle => none
  | .die => some { s with firer := .idle }
  | .hostRead k =>
    match s.host with
    | .reading got =>
      match requests.scan (got.map Prod.fst) with
      | .more wanted =>
        if 0 < k ∧ k ≤ wanted ∧ k ≤ s.requests.length then
          some { s with
            host := hostReadOn requests (got ++ s.requests.take k), requests := s.requests.drop k }
        else none
      | _ => none
    | _ => none
  | .dispatch result =>
    match s.host with
    | .dispatching owner request =>
      some { s with
        host := .writing (responses.encode result), computed := s.computed ++ [⟨owner, request, result⟩] }
    | _ => none
  | .hostWrite k =>
    match s.host with
    | .writing left =>
      if 0 < k ∧ k ≤ left.length then
        some { s with
          host := if left.drop k = [] then .reading [] else .writing (left.drop k)
          responses := s.responses ++ left.take k }
      else none
    | _ => none
  | .hostStops =>
    match s.host with
    | .reading _ | .writing _ => some { s with host := .stopped }
    | _ => none

abbrev Step (requests : Framing CallbackRequest) (responses : Framing (BitVec 64)) :
    Channel → Action → Channel → Prop :=
  ofPartial (exec requests responses)

/-- All that one step can do, with what it found. -/
inductive Does (requests : Framing CallbackRequest) (responses : Framing (BitVec 64)) (s : Channel) :
    Action → Channel → Prop where
  | fires (idle : s.firer = .idle) :
      Does requests responses s (.fire key a b c d)
        { s with
          firer := .writing s.fired.length ⟨key, [a, b, c, d]⟩ (requests.encode ⟨key, [a, b, c, d]⟩)
          fired := s.fired ++ [⟨key, [a, b, c, d]⟩] }
  | writes (writing : s.firer = .writing firing request left) (some_bytes : 0 < k)
      (there : k ≤ left.length) :
      Does requests responses s (.write k)
        { s with
          firer := if left.drop k = [] then .reading firing [] else .writing firing request (left.drop k)
          requests := s.requests ++ tagged firing (left.take k) }
  | reads (reading : s.firer = .reading firing got) (scans : responses.scan got = .more wanted)
      (some_bytes : 0 < k) (asked : k ≤ wanted) (there : k ≤ s.responses.length) :
      Does requests responses s (.read k)
        ({ s with responses := s.responses.drop k }.readOn responses firing (got ++ s.responses.take k))
  | writeFails (writing : s.firer = .writing firing request left) (stopped : s.host = .stopped) :
      Does requests responses s .fails
        { s with firer := .idle, returned := s.returned ++ [(firing, none)] }
  | readFails (reading : s.firer = .reading firing got) (stopped : s.host = .stopped)
      (empty : s.responses = []) :
      Does requests responses s .fails
        { s with firer := .idle, returned := s.returned ++ [(firing, none)] }
  | dies : Does requests responses s .die { s with firer := .idle }
  | hostReads (reading : s.host = .reading got) (scans : requests.scan (got.map Prod.fst) = .more wanted)
      (some_bytes : 0 < k) (asked : k ≤ wanted) (there : k ≤ s.requests.length) :
      Does requests responses s (.hostRead k)
        { s with host := hostReadOn requests (got ++ s.requests.take k), requests := s.requests.drop k }
  | dispatches (dispatching : s.host = .dispatching owner request) :
      Does requests responses s (.dispatch result)
        { s with
          host := .writing (responses.encode result)
          computed := s.computed ++ [⟨owner, request, result⟩] }
  | hostWrites (writing : s.host = .writing left) (some_bytes : 0 < k) (there : k ≤ left.length) :
      Does requests responses s (.hostWrite k)
        { s with
          host := if left.drop k = [] then .reading [] else .writing (left.drop k)
          responses := s.responses ++ left.take k }
  | hostStops (undispatched : ∀ owner request, s.host ≠ .dispatching owner request) :
      Does requests responses s .hostStops { s with host := .stopped }

theorem does_of_step {requests : Framing CallbackRequest} {responses : Framing (BitVec 64)}
    {s s' : Channel} {a : Action} (done : Step requests responses s a s') :
    Does requests responses s a s' := by
  change exec requests responses s a = some s' at done
  cases a with
  | fire key a b c d =>
    simp only [exec] at done
    split at done
    next idle => cases done; exact .fires idle
    next => cases done
  | write k =>
    simp only [exec] at done
    split at done
    next writing =>
      split at done
      next fits => cases done; exact .writes writing fits.1 fits.2
      next => cases done
    next => cases done
  | read k =>
    simp only [exec] at done
    split at done
    next reading =>
      split at done
      next scans =>
        split at done
        next fits => cases done; exact .reads reading scans fits.1 fits.2.1 fits.2.2
        next => cases done
      next => cases done
    next => cases done
  | fails =>
    simp only [exec] at done
    split at done
    next writing =>
      split at done
      next stopped => cases done; exact .writeFails writing stopped
      next => cases done
    next reading =>
      split at done
      next ended => cases done; exact .readFails reading ended.1 ended.2
      next => cases done
    next => cases done
  | die => cases done; exact .dies
  | hostRead k =>
    simp only [exec] at done
    split at done
    next reading =>
      split at done
      next scans =>
        split at done
        next fits => cases done; exact .hostReads reading scans fits.1 fits.2.1 fits.2.2
        next => cases done
      next => cases done
    next => cases done
  | dispatch result =>
    simp only [exec] at done
    split at done
    next dispatching => cases done; exact .dispatches dispatching
    next => cases done
  | hostWrite k =>
    simp only [exec] at done
    split at done
    next writing =>
      split at done
      next fits => cases done; exact .hostWrites writing fits.1 fits.2
      next => cases done
    next => cases done
  | hostStops =>
    simp only [exec] at done
    split at done
    next reading => cases done; exact .hostStops (by simp [reading])
    next writing => cases done; exact .hostStops (by simp [writing])
    next => cases done

end Channel
end RlboxDynamic.CallbackStream
