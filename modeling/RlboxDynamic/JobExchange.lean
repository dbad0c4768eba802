import RlboxDynamic.Transition
import RlboxDynamic.WireJob
import RlboxDynamic.WorkerPool

/-! One call over its two pipes, byte by byte: the `write_full` and `read_full`
loops of the request thread and of the child that serves it. Every `read` and
`write` moves any positive number of bytes, or is interrupted, and the child may
die between any two. Another process may have ends of the pipes as well, copied
by a fork. -/
namespace RlboxDynamic.JobExchange
open LittleEndian Transition

/-- Where the request thread is, in `dispatch_to_worker` or after the inline
fork. -/
inductive Parent where
  | sending (left : List (List Byte))
  | reading (got : List Byte)
  | finishing (result : BitVec 64)
  | returned (result : BitVec 64)
  deriving DecidableEq

/-- Where the child is, in `worker_main` or after the inline fork. -/
inductive Server (t : Target) where
  | receiving (part : JobPart) (got : List Byte)
  | filtering (job : Job t)
  | calling (job : Job t)
  | inLibrary (job : Job t)
  | writing (left : List Byte)
  | gone
  deriving DecidableEq

/-- The ends of the call's pipes that others have: a process besides the child
has the write end of the response pipe; library code of another call has the
write end of the request pipe, or the read end of the response pipe. -/
structure Strays where
  resultWriter : Bool
  jobWriter : Bool
  resultReader : Bool
  deriving DecidableEq

def Strays.nobody : Strays := ⟨false, false, false⟩

/-- The pipes have what is on the way. `calls`, `answer` and `written` say what
the child did: its `do_ffi_call` calls, what the last returned, and what it
wrote. -/
structure Exchange (t : Target) where
  strays : Strays
  parent : Parent
  jobs : List Byte
  results : List Byte
  child : Server t
  calls : List (Job t)
  answer : Option (BitVec 64)
  written : List Byte
  deriving DecidableEq

/-- `interrupted` is EINTR, in either process. Library code of another call may
`forge` a job and `steal` a result. -/
inductive Action (t : Target) where
  | send (k : Nat)
  | sendFails
  | read (k : Nat)
  | readEof
  | wait
  | receive (k : Nat)
  | lockDown (os : FilterAnswers)
  | call
  | libraryReturns (retBuf : BitVec t.ptrBits)
  | write (k : Nat)
  | die
  | interrupted
  | forge (bytes : List Byte)
  | steal (k : Nat)
  deriving DecidableEq

/-- `write_full` and what follows it, with these bytes left of its buffer. -/
def Parent.sendOn : List Byte → List (List Byte) → Parent
  | [], [] => .reading []
  | [], buffer :: buffers => .sending (buffer :: buffers)
  | byte :: left, buffers => .sending ((byte :: left) :: buffers)

/-- `read_full` of the result. -/
def Parent.readOn (got : List Byte) : Parent :=
  if got.length = 8 then .finishing (bytesWord 64 got) else .reading got

/-- What the worker does once a `read_full` has all its bytes. -/
def Server.received (t : Target) (bytes : List Byte) : JobPart → Server t
  | .header =>
    if (WireJobHeader.ofBytes bytes).nargs.toNat > kMaxArgs then .gone
    else if (WireJobHeader.ofBytes bytes).nargs = 0 then
      .filtering ((WireJobHeader.ofBytes bytes).job t [] [])
    else .receiving (.tags (WireJobHeader.ofBytes bytes)) []
  | .tags hdr => .receiving (.values hdr (bytesWords 32 4 hdr.nargs.toNat bytes)) []
  | .values hdr argTags => .filtering (hdr.job t argTags (bytesWords 64 8 hdr.nargs.toNat bytes))

def Server.receiveOn (t : Target) (part : JobPart) (got : List Byte) : Server t :=
  if got.length = part.size then received t got part else .receiving part got

/-- `write_full` of the result, after which the child exits. -/
def Server.writeOn {t : Target} : List Byte → Server t
  | [] => .gone
  | byte :: left => .writing (byte :: left)

namespace Exchange
variable {t : Target}

/-- `dispatch_to_worker` on a worker that waits for its job. -/
def pooled (strays : Strays) (job : Job t) : Exchange t :=
  { strays, parent := .sending job.buffers, jobs := [], results := [], child := .receiving .header []
    calls := [], answer := none, written := [] }

/-- After the inline fork. -/
def inline (strays : Strays) (job : Job t) : Exchange t :=
  { strays, parent := .reading [], jobs := [], results := [], child := .calling job
    calls := [], answer := none, written := [] }

/-- One step. -/
def exec (env : ShimEnv t) (s : Exchange t) : Action t → Option (Exchange t)
  | .send k =>
    match s.parent with
    | .sending (buffer :: rest) =>
      if 0 < k ∧ k ≤ buffer.length then
        some { s with parent := .sendOn (buffer.drop k) rest, jobs := s.jobs ++ buffer.take k }
      else none
    | _ => none
  | .sendFails =>
    match s.parent with
    | .sending _ => if s.child = .gone then some { s with parent := .finishing 0 } else none
    | _ => none
  | .read k =>
    match s.parent with
    | .reading got =>
      if 0 < k ∧ k ≤ 8 - got.length ∧ k ≤ s.results.length then
        some { s with
          parent := .readOn (got ++ s.results.take k), results := s.results.drop k }
      else none
    | _ => none
  | .readEof =>
    match s.parent with
    | .reading _ =>
      if s.results = [] ∧ s.child = .gone ∧ s.strays.resultWriter = false then
        some { s with parent := .finishing 0 }
      else none
    | _ => none
  | .wait =>
    match s.parent with
    | .finishing result => if s.child = .gone then some { s with parent := .returned result } else none
    | _ => none
  | .receive k =>
    match s.child with
    | .receiving part got =>
      if 0 < k ∧ k ≤ part.size - got.length ∧ k ≤ s.jobs.length then
        some { s with
          child := .receiveOn t part (got ++ s.jobs.take k), jobs := s.jobs.drop k }
      else none
    | _ => none
  | .lockDown os =>
    match s.child with
    | .filtering job =>
      some { s with child := if (applyFilter env.compileMode os).1 then .calling job else .gone }
    | _ => none
  | .call =>
    match s.child with
    | .calling job =>
      match prepareCall env.prepCif env.shmBase job with
      | none =>
        some { s with
          child := .writing (wordBytes 8 (0 : BitVec 64)), calls := s.calls ++ [job], answer := some 0 }
      | some _ => some { s with child := .inLibrary job, calls := s.calls ++ [job] }
    | _ => none
  | .libraryReturns retBuf =>
    match s.child with
    | .inLibrary job =>
      some { s with
        child := .writing (wordBytes 8 (ffiResult job.retTag retBuf))
        answer := some (ffiResult job.retTag retBuf) }
    | _ => none
  | .write k =>
    match s.child with
    | .writing left =>
      if 0 < k ∧ k ≤ left.length then
        some { s with
          child := .writeOn (left.drop k), results := s.results ++ left.take k
          written := s.written ++ left.take k }
      else none
    | _ => none
  | .die => if s.child = .gone then none else some { s with child := .gone }
  | .interrupted => some s
  | .forge bytes =>
    if s.strays.jobWriter = true then some { s with jobs := s.jobs ++ bytes } else none
  | .steal k =>
    if s.strays.resultReader = true then some { s with results := s.results.drop k } else none

abbrev Step (env : ShimEnv t) : Exchange t → Action t → Exchange t → Prop := ofPartial (exec env)

/-- All that one step can do, with what it found. -/
inductive Does (env : ShimEnv t) (s : Exchange t) : Action t → Exchange t → Prop where
  | sends (sending : s.parent = .sending (buffer :: rest)) (some_bytes : 0 < k) (there : k ≤ buffer.length) :
      Does env s (.send k)
        { s with parent := .sendOn (buffer.drop k) rest, jobs := s.jobs ++ buffer.take k }
  | sendFails (sending : s.parent = .sending left) (gone : s.child = .gone) :
      Does env s .sendFails { s with parent := .finishing 0 }
  | reads (reading : s.parent = .reading got) (some_bytes : 0 < k) (wanted : k ≤ 8 - got.length)
      (there : k ≤ s.results.length) :
      Does env s (.read k)
        { s with parent := .readOn (got ++ s.results.take k), results := s.results.drop k }
  | ends (reading : s.parent = .reading got) (empty : s.results = []) (gone : s.child = .gone)
      (unheld : s.strays.resultWriter = false) :
      Does env s .readEof { s with parent := .finishing 0 }
  | waits (finishing : s.parent = .finishing result) (gone : s.child = .gone) :
      Does env s .wait { s with parent := .returned result }
  | receives (receiving : s.child = .receiving part got) (some_bytes : 0 < k)
      (wanted : k ≤ part.size - got.length) (there : k ≤ s.jobs.length) :
      Does env s (.receive k)
        { s with child := .receiveOn t part (got ++ s.jobs.take k), jobs := s.jobs.drop k }
  | locksDown (filtering : s.child = .filtering job) :
      Does env s (.lockDown os)
        { s with child := if (applyFilter env.compileMode os).1 then .calling job else .gone }
  | refuses (calling : s.child = .calling job)
      (refused : prepareCall env.prepCif env.shmBase job = none) :
      Does env s .call
        { s with
          child := .writing (wordBytes 8 (0 : BitVec 64)), calls := s.calls ++ [job], answer := some 0 }
  | calls (calling : s.child = .calling job)
      (prepared : prepareCall env.prepCif env.shmBase job = some ffi) :
      Does env s .call { s with child := .inLibrary job, calls := s.calls ++ [job] }
  | returns (inside : s.child = .inLibrary job) :
      Does env s (.libraryReturns buf)
        { s with
          child := .writing (wordBytes 8 (ffiResult job.retTag buf))
          answer := some (ffiResult job.retTag buf) }
  | writes (writing : s.child = .writing left) (some_bytes : 0 < k) (there : k ≤ left.length) :
      Does env s (.write k)
        { s with
          child := .writeOn (left.drop k), results := s.results ++ left.take k
          written := s.written ++ left.take k }
  | dies (running : s.child ≠ .gone) : Does env s .die { s with child := .gone }
  | interrupted : Does env s .interrupted s
  | forges (writer : s.strays.jobWriter = true) :
      Does env s (.forge bytes) { s with jobs := s.jobs ++ bytes }
  | steals (reader : s.strays.resultReader = true) :
      Does env s (.steal k) { s with results := s.results.drop k }

theorem does_of_step {env : ShimEnv t} {s s' : Exchange t} {a : Action t} (done : Step env s a s') :
    Does env s a s' := by
  change exec env s a = some s' at done
  cases a with
  | send k =>
    simp only [exec] at done
    split at done
    next sending =>
      split at done
      next fits => cases done; exact .sends sending fits.1 fits.2
      next => cases done
    next => cases done
  | sendFails =>
    simp only [exec] at done
    split at done
    next sending =>
      split at done
      next gone => cases done; exact .sendFails sending gone
      next => cases done
    next => cases done
  | read k =>
    simp only [exec] at done
    split at done
    next reading =>
      split at done
      next fits => cases done; exact .reads reading fits.1 fits.2.1 fits.2.2
      next => cases done
    next => cases done
  | readEof =>
    simp only [exec] at done
    split at done
    next reading =>
      split at done
      next ended => cases done; exact .ends reading ended.1 ended.2.1 ended.2.2
      next => cases done
    next => cases done
  | wait =>
    simp only [exec] at done
    split at done
    next finishing =>
      split at done
      next gone => cases done; exact .waits finishing gone
      next => cases done
    next => cases done
  | receive k =>
    simp only [exec] at done
    split at done
    next receiving =>
      split at done
      next fits => cases done; exact .receives receiving fits.1 fits.2.1 fits.2.2
      next => cases done
    next => cases done
  | lockDown os =>
    simp only [exec] at done
    split at done
    next filtering => cases done; exact .locksDown filtering
    next => cases done
  | call =>
    simp only [exec] at done
    split at done
    next calling =>
      split at done
      next refused => cases done; exact .refuses calling refused
      next prepared => cases done; exact .calls calling prepared
    next => cases done
  | libraryReturns retBuf =>
    simp only [exec] at done
    split at done
    next inside => cases done; exact .returns inside
    next => cases done
  | write k =>
    simp only [exec] at done
    split at done
    next writing =>
      split at done
      next fits => cases done; exact .writes writing fits.1 fits.2
      next => cases done
    next => cases done
  | die =>
    simp only [exec] at done
    split at done
    next => cases done
    next running => cases done; exact .dies running
  | interrupted => cases done; exact .interrupted
  | forge bytes =>
    simp only [exec] at done
    split at done
    next writer => cases done; exact .forges writer
    next => cases done
  | steal k =>
    simp only [exec] at done
    split at done
    next reader => cases done; exact .steals reader
    next => cases done

theorem step_of_does {env : ShimEnv t} {s s' : Exchange t} {a : Action t} (does : Does env s a s') :
    Step env s a s' := by
  cases does with
  | sends sending some_bytes there => simp [Step, ofPartial, exec, sending, some_bytes, there]
  | sendFails sending gone => simp [Step, ofPartial, exec, sending, gone]
  | reads reading some_bytes wanted there =>
    simp [Step, ofPartial, exec, reading, some_bytes, wanted, there]
  | ends reading empty gone unheld => simp [Step, ofPartial, exec, reading, empty, gone, unheld]
  | waits finishing gone => simp [Step, ofPartial, exec, finishing, gone]
  | receives receiving some_bytes wanted there =>
    simp [Step, ofPartial, exec, receiving, some_bytes, wanted, there]
  | locksDown filtering => simp [Step, ofPartial, exec, filtering]
  | refuses calling refused => simp [Step, ofPartial, exec, calling, refused]
  | calls calling prepared => simp [Step, ofPartial, exec, calling, prepared]
  | returns inside => simp [Step, ofPartial, exec, inside]
  | writes writing some_bytes there => simp [Step, ofPartial, exec, writing, some_bytes, there]
  | dies running => simp [Step, ofPartial, exec, running]
  | interrupted => rfl
  | forges writer => simp [Step, ofPartial, exec, writer]
  | steals reader => simp [Step, ofPartial, exec, reader]

end Exchange
end RlboxDynamic.JobExchange
