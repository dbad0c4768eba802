import RlboxDynamic.MetaPolicy

/-! The meta sandbox's own state and the operations that allocate, free and
register. The two backends are other code: an operation takes the answers of
the backend calls it may make, and reports the calls it did make, in order. -/
namespace RlboxDynamic

/-- A `meta_struct_translator_fn` the macros emit, named by its library and its
struct. The empty `std::function` is `none` where one is stored. -/
structure StructTranslator where
  libId : String
  structName : String
  deriving DecidableEq

/-- `meta_struct_type_info`. -/
structure MetaStructTypeInfo (t : Target) where
  symbol : String
  hostSize : SizeT t
  wasmSize : SizeT t
  translator : Option StructTranslator
  deriving DecidableEq

/-- `meta_struct_alloc_info`. -/
structure MetaStructAllocInfo where
  wasmScratch : WasmPointer
  translator : Option StructTranslator
  deriving DecidableEq

/-- `meta_callback_record`. -/
structure MetaCallbackRecord (t : Target) where
  wasmSlot : WasmPointer
  key : TPointer t
  deriving DecidableEq

/-- The data members of `rlbox_meta_sandbox`, the two backends apart. -/
structure MetaSandbox (t : Target) (D π : Type) where
  symbolCache : KeyMap String (MetaSymbolRecord t D)
  allocOwner : KeyMap (TPointer t) MetaBackend
  structTypes : List (MetaStructTypeInfo t)
  structAllocs : KeyMap (TPointer t) MetaStructAllocInfo
  mallocsOnProcess : Nat
  mallocsOnWasm : Nat
  invokesOnProcess : Nat
  invokesOnWasm : Nat
  callbackRegistry : KeyMap (TPointer t) (MetaCallbackRecord t)
  policyState : π
  pinThreshold : BitVec 32

/-- The reasons an operation ends the process. -/
inductive MetaAbort where
  | processTagCollision
  | structSizeCollision
  | mixedOwnership
  | noWasmBinding
  | noStructScratch (translator : StructTranslator)
  deriving DecidableEq

/-- What is written to `stderr` first, as a format text. -/
def MetaAbort.message : MetaAbort → String
  | .processTagCollision => "rlbox_meta_sandbox: process allocation collided with tag bit\n"
  | .structSizeCollision =>
    "rlbox_meta_sandbox: malloc(%zu) matches %zu registered struct types -- cannot disambiguate " ++
      "translator at alloc time.  Colliding symbols follow:\n"
  | .mixedOwnership => "rlbox_meta_sandbox: invoke args span both backends' allocations\n"
  | .noWasmBinding => "rlbox_meta_sandbox: policy chose wasm for symbol with no wasm binding\n"
  | .noStructScratch translator =>
    "meta_struct_translator_" ++ translator.libId ++ "_" ++ translator.structName ++
      ": no scratch registered for allocation -- did you forget meta_" ++ translator.libId ++
      "_setup(meta)?\n"

/-- A call that leaves the meta sandbox. `translate` and `cleanup` are the two
field copies of a struct translator. -/
inductive BackendCall (t : Target) where
  | wasmMalloc (size : SizeT t) (result : WasmPointer)
  | processMalloc (size : SizeT t) (result : TPointer t)
  | wasmFree (offset : WasmPointer)
  | processFree (address : TPointer t)
  | translate (translator : StructTranslator) (hostPtr : TPointer t) (scratch : WasmPointer)
  | cleanup (translator : StructTranslator) (hostPtr : TPointer t) (scratch : WasmPointer)
  | wasmInvoke (name : String) (params : List (BitVec 64))
  | processInvoke (name : String) (params : List (BitVec 64))
  deriving DecidableEq

/-- The backend a call goes to. A field copy goes to neither. -/
def BackendCall.side {t : Target} : BackendCall t → Option MetaBackend
  | .wasmMalloc _ _ | .wasmFree _ | .wasmInvoke _ _ => some .wasm
  | .processMalloc _ _ | .processFree _ | .processInvoke _ _ => some .process
  | .translate _ _ _ | .cleanup _ _ _ => none

/-- What an operation did: the calls it made, and its result unless it ended
the process. -/
structure Effect (t : Target) (α : Type) where
  calls : List (BackendCall t)
  result : Except MetaAbort α

/-- What the backends' allocators answer, for the calls one allocation may
make. -/
structure MallocAnswers (t : Target) where
  wasm : WasmPointer
  process : TPointer t
  scratch : WasmPointer

namespace MetaSandbox
variable {t : Target} {D π : Type} [Millis D]

def initial (policyState : π) : MetaSandbox t D π where
  symbolCache := ∅
  allocOwner := ∅
  structTypes := []
  structAllocs := ∅
  mallocsOnProcess := 0
  mallocsOnWasm := 0
  invokesOnProcess := 0
  invokesOnWasm := 0
  callbackRegistry := ∅
  policyState
  pinThreshold := 0#32

/-- The two lookups of `impl_lookup_symbol`, made once for each name. -/
def implLookupSymbol (processSym wasmSym : TPointer t) (funcName : String)
    (s : MetaSandbox t D π) : MetaSandbox t D π :=
  if funcName ∈ s.symbolCache then s
  else
    { s with
      symbolCache := s.symbolCache.insert funcName
        { name := funcName, processSym, wasmSym, processLatency := .empty, wasmLatency := .empty,
          pinned := 0#8, consecutiveSamePicks := 0#32, lastPick := .process } }

/-- Sums each backend's medians over the symbols that resolve on both sides
and have a sample on each. -/
def snapshotMedianSums (s : MetaSandbox t D π) : D × D :=
  let records := (s.symbolCache.entries.map Sigma.snd).filter (·.wasmSym ≠ 0#t.ptrBits)
  records.foldl
    (fun sums record =>
      if record.processLatency.size = 0 ∨ record.wasmLatency.size = 0 then sums
      else (sums.1 + record.processLatency.median, sums.2 + record.wasmLatency.median))
    (0, 0)

def setPinThreshold (n : BitVec 32) (s : MetaSandbox t D π) : MetaSandbox t D π :=
  { s with pinThreshold := n }

/-- `register_struct_type`: the same symbol again replaces in place. -/
def replaceStructType (info : MetaStructTypeInfo t) :
    List (MetaStructTypeInfo t) → List (MetaStructTypeInfo t)
  | [] => [info]
  | head :: rest =>
    if head.symbol = info.symbol then info :: rest else head :: replaceStructType info rest

def registerStructType (info : MetaStructTypeInfo t) (s : MetaSandbox t D π) : MetaSandbox t D π :=
  { s with structTypes := replaceStructType info s.structTypes }

/-- `get_struct_scratch`: 0 where there is none. -/
def getStructScratch (p : TPointer t) (s : MetaSandbox t D π) : WasmPointer :=
  match s.structAllocs.lookup p with
  | none => 0#32
  | some info => info.wasmScratch

/-- `owner_of`: the tagged form is tried for an untagged pointer that has no
entry of its own. -/
def ownerOf (p : TPointer t) (s : MetaSandbox t D π) : Option MetaBackend :=
  match s.allocOwner.lookup p with
  | some owner => some owner
  | none => if Tagged p then none else s.allocOwner.lookup (tagWasm p)

/-- The registered struct types of a size, in registration order. -/
def structMatches (size : SizeT t) (s : MetaSandbox t D π) : List (MetaStructTypeInfo t) :=
  s.structTypes.filter (·.hostSize = size)

/-- The policy query of `impl_malloc_in_sandbox`. -/
def mallocChoice (policy : MetaPolicyFn t D π) (size : SizeT t) (s : MetaSandbox t D π) :
    MetaBackend × MetaSandbox t D π :=
  let (procMedianSum, wasmMedianSum) := s.snapshotMedianSums
  let (choice, policyState) :=
    policy s.policyState { funcName := none, allocSize := size, procMedianSum, wasmMedianSum }
  (choice, { s with policyState })

/-- The part of `impl_malloc_in_sandbox` after a backend gave the block: own
it, and co-allocate a wasm scratch when its size is that of one struct type. -/
def publishAllocation (answers : MallocAnswers t) (size : SizeT t) (p : TPointer t)
    (choice : MetaBackend) (s : MetaSandbox t D π) : Effect t (TPointer t × MetaSandbox t D π) :=
  let s := { s with allocOwner := s.allocOwner.insert p choice }
  match s.structMatches size with
  | [] => ⟨[], .ok (p, s)⟩
  | [info] =>
    if info.wasmSize = 0#t.ptrBits then ⟨[], .ok (p, s)⟩
    else
      let calls := [.wasmMalloc info.wasmSize answers.scratch]
      if answers.scratch = 0#32 then ⟨calls, .ok (p, s)⟩
      else
        ⟨calls, .ok (p, { s with
          structAllocs := s.structAllocs.insert p ⟨answers.scratch, info.translator⟩ })⟩
  | _ :: _ :: _ => ⟨[], .error .structSizeCollision⟩

/-- The backend call `impl_malloc_in_sandbox` makes on the chosen side. -/
def mallocOn (choice : MetaBackend) (answers : MallocAnswers t) (size : SizeT t)
    (s : MetaSandbox t D π) : Effect t (TPointer t × MetaSandbox t D π) :=
  match choice with
  | .wasm =>
    let call := .wasmMalloc size answers.wasm
    if answers.wasm = 0#32 then ⟨[call], .ok (0#t.ptrBits, s)⟩
    else
      let rest := publishAllocation answers size (tagWasm (widen t answers.wasm)) .wasm
        { s with mallocsOnWasm := s.mallocsOnWasm + 1 }
      ⟨call :: rest.calls, rest.result⟩
  | .process =>
    let call := .processMalloc size answers.process
    if answers.process = 0#t.ptrBits then ⟨[call], .ok (0#t.ptrBits, s)⟩
    else if Tagged answers.process then ⟨[call], .error .processTagCollision⟩
    else
      let rest := publishAllocation answers size answers.process .process
        { s with mallocsOnProcess := s.mallocsOnProcess + 1 }
      ⟨call :: rest.calls, rest.result⟩

def implMallocInSandbox (policy : MetaPolicyFn t D π) (answers : MallocAnswers t) (size : SizeT t)
    (s : MetaSandbox t D π) : Effect t (TPointer t × MetaSandbox t D π) :=
  let (choice, s) := s.mallocChoice policy size
  s.mallocOn choice answers size

/-- The first locked block of `impl_free_in_sandbox`: the key the pointer is
registered under and its owner, with the tag deciding only when there is no
entry at all. -/
def registryEntry (p : TPointer t) (s : MetaSandbox t D π) : TPointer t × MetaBackend :=
  match s.allocOwner.lookup p with
  | some owner => (p, owner)
  | none =>
    if Tagged p then (p, tagOwner p)
    else
      match s.allocOwner.lookup (tagWasm p) with
      | some owner => (tagWasm p, owner)
      | none => (p, tagOwner p)

/-- `impl_free_in_sandbox`. Erasing a key that has no entry changes nothing, so
the three branches of the source erase the one registry key. -/
def implFreeInSandbox (p : TPointer t) (s : MetaSandbox t D π) :
    List (BackendCall t) × MetaSandbox t D π :=
  if p = 0#t.ptrBits then ([], s)
  else
    let (registryKey, owner) := s.registryEntry p
    let raw := tagStrip registryKey
    let scratchToFree := s.getStructScratch registryKey
    let scratchCalls := if scratchToFree = 0#32 then [] else [.wasmFree scratchToFree]
    let call := match owner with
      | .wasm => .wasmFree (narrow raw)
      | .process => .processFree raw
    (scratchCalls ++ [call],
      { s with
        allocOwner := s.allocOwner.erase registryKey
        structAllocs := s.structAllocs.erase registryKey })

/-- `impl_register_callback`, given the process trampoline and the wasm slot
the two backends answer with. -/
def implRegisterCallback (procPtr : TPointer t) (wasmSlot : WasmPointer) (key : TPointer t)
    (s : MetaSandbox t D π) : TPointer t × MetaSandbox t D π :=
  if procPtr = 0#t.ptrBits then (0#t.ptrBits, s)
  else
    (procPtr, { s with
      callbackRegistry := KeyMap.emplace procPtr ⟨wasmSlot, key⟩ s.callbackRegistry })

/-- `impl_unregister_callback`: drops the first entry that holds the key. -/
def implUnregisterCallback (key : TPointer t) (s : MetaSandbox t D π) : MetaSandbox t D π :=
  match s.callbackRegistry.entries.find? (·.2.key = key) with
  | none => s
  | some entry => { s with callbackRegistry := s.callbackRegistry.erase entry.1 }

end MetaSandbox
end RlboxDynamic
