import RlboxDynamic.AllocationRouting
import RlboxDynamic.Interleaving

/-! `impl_malloc_in_sandbox` and `impl_free_in_sandbox` as any number of threads
run them: `alloc_mutex` is taken anew for each of the steps here, and between two
of them the other threads and the two allocators go on. The policy may choose
anything; the dispatch counters, which no lock guards, are left out. -/
namespace RlboxDynamic.ConcurrentAllocation
open Transition Interleaving

variable {t : Target} {D π ι : Type}

/-- Where a thread is, with the locals it still needs. -/
inductive Place (t : Target) where
  | idle
  /-- Malloc: a backend gave the block. -/
  | granted (size : SizeT t) (p : TPointer t) (choice : MetaBackend)
  /-- Malloc: `alloc_owner[p] = choice` is done. -/
  | owned (size : SizeT t) (p : TPointer t)
  /-- Malloc: one struct type matched, with a `wasm_size` other than 0. -/
  | matched (size : SizeT t) (p : TPointer t) (wasmSize : SizeT t)
      (translator : Option StructTranslator)
  /-- Malloc: wasm gave the scratch. -/
  | scratched (size : SizeT t) (p : TPointer t) (scratch : WasmPointer)
      (translator : Option StructTranslator)
  /-- Free: nothing is looked up yet. -/
  | freeing (p : TPointer t)
  /-- Free: the entry of `alloc_owner` is erased. -/
  | disowned (registryKey : TPointer t) (owner : MetaBackend)
  /-- Free: both entries are erased, and these calls are left to make. -/
  | releasing (registryKey : TPointer t) (calls : List (BackendCall t))
  deriving DecidableEq

/-- What one thread does next. A backend's answer comes with the call. -/
inductive Act (t : Target) where
  | malloc (size : SizeT t) (answer : BlockAddress t)
  | own
  | matchType
  | scratch (answer : WasmPointer)
  | link
  | free (p : TPointer t)
  | disown
  | unlink
  | release
  | registerStructType (info : MetaStructTypeInfo t)
  /-- A pointer-returning invoke comes back. -/
  | registerReturn (which : MetaBackend) (answer : InvokeAnswer t)

/-- How far a malloc or a free has come: its client has the allocation from the
malloc's last step to the free's first look into the registry. -/
inductive Stage where
  | obtaining
  | live
  | releasing
  deriving DecidableEq

/-- What is known of a block that some thread obtained and none has given back:
the allocation it belongs to, which registries name it, and the thread at work on
it, or none for the client. -/
structure Custody (t : Target) (ι : Type) where
  alloc : LiveAlloc t
  owned : Bool := false
  linked : Bool := false
  stage : Stage := .obtaining
  holder : Option ι
  deriving DecidableEq

/-- What took effect. A malloc does where it returns, a free where it erases the
entry of `alloc_owner`. -/
inductive Effected (t : Target) where
  | malloc (size : SizeT t) (p : TPointer t)
  | free (p : TPointer t)
  | registerStructType (info : MetaStructTypeInfo t)
  | registerReturn (which : MetaBackend) (answer : InvokeAnswer t)

/-- What the threads share: the sandbox and the heaps. `custody` and `history` are
an account of it that no step reads. -/
structure Commons (t : Target) (D π ι : Type) where
  sandbox : MetaSandbox t D π
  heaps : Heaps t
  custody : KeyMap (TPointer t) (Custody t ι)
  history : List (Effected t)

abbrev System (t : Target) (D π ι : Type) := Threads (Commons t D π ι) ι (Place t)

section
variable [DecidableEq ι]

namespace Commons

def amend (s : Commons t D π ι) (k : TPointer t) (f : Custody t ι → Custody t ι) : Commons t D π ι :=
  { s with custody := KeyMap.amend k f s.custody }

def took (s : Commons t D π ι) (effect : Effected t) : Commons t D π ι :=
  { s with history := s.history ++ [effect] }

/-- The malloc returns: its client has the allocation. -/
def handOver (s : Commons t D π ι) (size : SizeT t) (p : TPointer t) : Commons t D π ι :=
  (s.amend p fun c => { c with stage := .live, holder := none }).took (.malloc size p)

/-- A backend gave a block. -/
def grant (s : Commons t D π ι) (i : ι) (a : LiveAlloc t) : Commons t D π ι :=
  { s with
    heaps := s.heaps.apply a.obtainBlock
    custody := s.custody.insert a.key { alloc := a, holder := some i } }

/-- The key a client's pointer is in custody under. -/
def denotedKey (s : Commons t D π ι) (p : TPointer t) : TPointer t :=
  if p ∈ s.custody then p else tagWasm p

end Commons

/-- The calls left to a free, once it has erased what the registries had. -/
def releaseCalls (registryKey : TPointer t) (owner : MetaBackend) (scratchToFree : WasmPointer) :
    List (BackendCall t) :=
  (if scratchToFree = 0#32 then [] else [.wasmFree scratchToFree]) ++
    [match owner with
      | .wasm => .wasmFree (narrow (tagStrip registryKey))
      | .process => .processFree (tagStrip registryKey)]

/-- One step of thread `i`. None where the process aborts, and where the thread is
not at such a step. -/
def own (i : ι) (s : Commons t D π ι) : Place t → Act t → Option (Commons t D π ι × Place t)
  | .idle, .malloc size (.wasm raw) =>
    if raw = 0#32 then some (s.took (.malloc size 0#t.ptrBits), .idle)
    else
      let a : LiveAlloc t := ⟨.wasm, widen t raw, size, none, 0#32⟩
      some (s.grant i a, .granted size a.key .wasm)
  | .idle, .malloc size (.process p) =>
    if p = 0#t.ptrBits then some (s.took (.malloc size 0#t.ptrBits), .idle)
    else if Tagged p then none
    else
      let a : LiveAlloc t := ⟨.process, p, size, none, 0#32⟩
      some (s.grant i a, .granted size a.key .process)
  | .granted size p choice, .own =>
    some ({ s.amend p fun c => { c with owned := true } with
        sandbox := { s.sandbox with allocOwner := s.sandbox.allocOwner.insert p choice } },
      .owned size p)
  | .owned size p, .matchType =>
    match s.sandbox.structMatches size with
    | [] => some (s.handOver size p, .idle)
    | [info] =>
      let s := s.amend p fun c => { c with alloc := { c.alloc with structType := some info } }
      if info.wasmSize = 0#t.ptrBits then some (s.handOver size p, .idle)
      else some (s, .matched size p info.wasmSize info.translator)
    | _ :: _ :: _ => none
  | .matched size p wasmSize translator, .scratch raw =>
    if raw = 0#32 then some (s.handOver size p, .idle)
    else
      some ({ s.amend p fun c => { c with alloc := { c.alloc with scratch := raw } } with
          heaps := s.heaps.apply (.wasmMalloc wasmSize raw) },
        .scratched size p raw translator)
  | .scratched size p raw translator, .link =>
    some ({ (s.amend p fun c => { c with linked := true }).handOver size p with
        sandbox := { s.sandbox with
          structAllocs := s.sandbox.structAllocs.insert p ⟨raw, translator⟩ } },
      .idle)
  | .idle, .free p =>
    if p = 0#t.ptrBits then some (s.took (.free p), .idle)
    else some (s.amend (s.denotedKey p) fun c => { c with holder := some i }, .freeing p)
  | .freeing p, .disown =>
    let (registryKey, owner) := s.sandbox.registryEntry p
    some ({ (s.amend registryKey fun c => { c with owned := false, stage := .releasing }).took
          (.free p) with
        sandbox := { s.sandbox with allocOwner := s.sandbox.allocOwner.erase registryKey } },
      .disowned registryKey owner)
  | .disowned registryKey owner, .unlink =>
    let calls := releaseCalls registryKey owner (s.sandbox.getStructScratch registryKey)
    some ({ s.amend registryKey fun c => { c with linked := false } with
        sandbox := { s.sandbox with structAllocs := s.sandbox.structAllocs.erase registryKey } },
      .releasing registryKey calls)
  | .releasing registryKey calls, .release =>
    match calls with
    | [] => none
    | [last] =>
      some ({ s with heaps := s.heaps.apply last, custody := s.custody.erase registryKey }, .idle)
    | call :: rest =>
      some ({ s.amend registryKey fun c => { c with alloc := { c.alloc with scratch := 0#32 } } with
          heaps := s.heaps.apply call },
        .releasing registryKey rest)
  | .idle, .registerStructType info =>
    some ({ s.took (.registerStructType info) with
      sandbox := s.sandbox.registerStructType info }, .idle)
  | .idle, .registerReturn which answer =>
    some ({ s.took (.registerReturn which answer) with
      sandbox := (s.sandbox.registerReturn which answer).2 }, .idle)
  | _, _ => none

/-- The backend call a step makes, if any. -/
def Place.call : Place t → Act t → Option (BackendCall t)
  | .idle, .malloc size (.wasm raw) => some (.wasmMalloc size raw)
  | .idle, .malloc size (.process p) => some (.processMalloc size p)
  | .matched _ _ wasmSize _, .scratch raw => some (.wasmMalloc wasmSize raw)
  | .releasing _ calls, .release => calls.head?
  | _, _ => none

/-- The allocators answer with addresses of their own. -/
def Act.AnswersFrom (total : Nat) : Act t → Prop
  | .malloc _ (.wasm raw) | .scratch raw => InWasm total raw
  | .malloc _ (.process p) => AboveWasm total p
  | .registerReturn _ answer => AboveWasm total answer.process
  | _ => True

instance (total : Nat) (a : Act t) : Decidable (a.AnswersFrom total) := by
  unfold Act.AnswersFrom
  split <;> infer_instance

/-- The client frees only what it has. -/
def Act.FreesLive (s : Commons t D π ι) : Act t → Prop
  | .free p => p ≠ 0#t.ptrBits → ∃ k c, s.custody.lookup k = some c ∧ c.holder = none ∧ Spells p k
  | _ => True

/-- What is relied on: allocators that keep their contract and answer with
addresses of their own, and a client that frees only what it has. -/
def Relied (total : Nat) (s : System t D π ι) (l : ι × Act t) : Prop :=
  s.shared.heaps.Allows ((s.place l.1).call l.2).toList ∧ l.2.AnswersFrom total ∧
    l.2.FreesLive s.shared

abbrev Step (total : Nat) : System t D π ι → ι × Act t → System t D π ι → Prop :=
  Guarded (Relied total) (Interleaving.Step own)

/-- A new sandbox, and every thread outside of it. -/
def start (policyState : π) : System t D π ι where
  shared := ⟨.initial policyState, ⟨∅, ∅⟩, ∅, []⟩
  place _ := .idle

end
end RlboxDynamic.ConcurrentAllocation
