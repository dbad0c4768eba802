import RlboxDynamic.InvokeAbi
import RlboxDynamic.MetaSandbox

/-! `impl_invoke_with_func_ptr` of the meta sandbox, cut where the chosen
backend runs foreign code: everything up to that call, and everything after
it. A callback may use the sandbox in between. -/
namespace RlboxDynamic

/-- A translator's cleanup closure, with what it captures. -/
structure StructCleanup (t : Target) where
  translator : StructTranslator
  hostPtr : TPointer t
  scratch : WasmPointer
  deriving DecidableEq

/-- Running the closure. -/
def StructCleanup.call {t : Target} (c : StructCleanup t) : BackendCall t :=
  .cleanup c.translator c.hostPtr c.scratch

/-- `meta_struct_translation`. -/
structure MetaStructTranslation (t : Target) where
  wasmScratch : TPointer t
  cleanup : StructCleanup t

/-- `saw_process_ptr` and `saw_wasm_ptr`. -/
structure SawPointers where
  process : Bool := false
  wasm : Bool := false
  deriving DecidableEq

/-- The locals that live across the backend call. `ret` is the original return
type, none for `void`. -/
structure InvokeFrame (t : Target) where
  symbol : String
  which : MetaBackend
  ret : Option CType
  structCleanups : List (StructCleanup t)
  pinThreshold : BitVec 32
  deriving DecidableEq

/-- What the backend call answers, read by the return type. -/
structure InvokeAnswer (t : Target) where
  wasm : WasmPointer
  process : TPointer t
  scalar : BitVec 64

/-- What an invoke gives back to RLBox. -/
inductive Returned (t : Target) where
  | nothing
  | scalar (bits : BitVec 64)
  | pointer (p : TPointer t)
  deriving DecidableEq

namespace MetaSymbolRecord
variable {t : Target} {D : Type} [Millis D]

/-- `~sample_pusher`: one more latency, and the run of equal picks. -/
def pushSample (which : MetaBackend) (pinThreshold : BitVec 32) (elapsed : D)
    (record : MetaSymbolRecord t D) : MetaSymbolRecord t D :=
  let timed := match which with
    | .process => { record with processLatency := record.processLatency.push elapsed }
    | .wasm => { record with wasmLatency := record.wasmLatency.push elapsed }
  if pinThreshold = 0#32 then timed
  else if timed.lastPick = which then
    let picked := { timed with consecutiveSamePicks := timed.consecutiveSamePicks + 1 }
    if pinThreshold ≤ picked.consecutiveSamePicks then
      { picked with pinned := if which = .process then 1#8 else 2#8 }
    else picked
  else { timed with consecutiveSamePicks := 1#32, lastPick := which }

end MetaSymbolRecord

namespace MetaSandbox
variable {t : Target} {D π : Type} [Millis D]

/-- The context of a named invoke. -/
def invokeContext (record : MetaSymbolRecord t D) (s : MetaSandbox t D π) : MetaPolicyContext t D :=
  let (procMedianSum, wasmMedianSum) := s.snapshotMedianSums
  { funcName := some record.name
    hasWasm := decide (record.wasmSym ≠ 0#t.ptrBits)
    procSamples := record.processLatency.size
    wasmSamples := record.wasmLatency.size
    procMedianMs := record.processLatency.median
    wasmMedianMs := record.wasmLatency.median
    procMedianSum, wasmMedianSum }

/-- The `inspect` lambda, on one parameter. -/
def inspect (s : MetaSandbox t D π) (saw : SawPointers) (a : Arg t) : SawPointers :=
  match a.asTPointer with
  | none => saw
  | some p =>
    if p = 0#t.ptrBits then saw
    else
      match s.ownerOf p with
      | none => saw
      | some .process => { saw with process := true }
      | some .wasm => { saw with wasm := true }

/-- The pointer-ownership override of the policy's choice. -/
def overrideChoice (saw : SawPointers) (choice : MetaBackend) : Except MetaAbort MetaBackend :=
  if saw.process && saw.wasm then .error .mixedOwnership
  else if saw.process then .ok .process
  else if saw.wasm then .ok .wasm
  else .ok choice

/-- Everything that decides which backend an invoke enters: the policy, the
override, and the check that the symbol has a wasm binding. -/
def dispatch (policy : MetaPolicyFn t D π) (record : MetaSymbolRecord t D) (args : List (Arg t))
    (s : MetaSandbox t D π) : Except MetaAbort MetaBackend × MetaSandbox t D π :=
  let (choice, policyState) := policy s.policyState (s.invokeContext record)
  let s := { s with policyState }
  match overrideChoice (args.foldl s.inspect {}) choice with
  | .error abort => (.error abort, s)
  | .ok .process => (.ok .process, s)
  | .ok .wasm =>
    if record.wasmSym = 0#t.ptrBits then (.error .noWasmBinding, s) else (.ok .wasm, s)

/-- The body of an emitted `meta_struct_translator_<libId>_<T_Struct>`, with
its field copy as one call. -/
def metaStructTranslator (translator : StructTranslator) (hostPtrTagged : TPointer t)
    (s : MetaSandbox t D π) : Effect t (MetaStructTranslation t) :=
  let wasmOffset := s.getStructScratch hostPtrTagged
  if wasmOffset = 0#32 then ⟨[], .error (.noStructScratch translator)⟩
  else
    ⟨[.translate translator hostPtrTagged wasmOffset],
      .ok ⟨tagWasm (widen t wasmOffset), ⟨translator, hostPtrTagged, wasmOffset⟩⟩⟩

/-- The translator recorded for a live struct allocation, if any. -/
def allocTranslator (val : TPointer t) (s : MetaSandbox t D π) : Option StructTranslator :=
  (s.structAllocs.lookup val).bind (·.translator)

/-- The `translate` lambda on one parameter: its value for the callee, before
the conversion to the callee's parameter type. -/
def translate (a : Arg t) (s : MetaSandbox t D π) :
    Effect t (BitVec 64 × Option (StructCleanup t)) :=
  match a.asTPointer with
  | none => ⟨[], .ok (a.bits, none)⟩
  | some val =>
    if val = 0#t.ptrBits then ⟨[], .ok ((tagStrip val).setWidth 64, none)⟩
    else
      match s.allocTranslator val with
      | some translator =>
        match s.metaStructTranslator translator val with
        | ⟨calls, .error abort⟩ => ⟨calls, .error abort⟩
        | ⟨calls, .ok translation⟩ =>
          ⟨calls, .ok (translation.wasmScratch.setWidth 64, some translation.cleanup)⟩
      | none =>
        match s.callbackRegistry.lookup val with
        | some record => ⟨[], .ok ((widen t record.wasmSlot).setWidth 64, none)⟩
        | none => ⟨[], .ok ((tagStrip val).setWidth 64, none)⟩

/-- `translate(params)...`, and each value as the wasm callee receives it. The
order is one of those C++ allows; compilers choose, some from right to left. -/
def translateAll (s : MetaSandbox t D π) :
    List (Arg t) → Effect t (List (BitVec 64) × List (StructCleanup t))
  | [] => ⟨[], .ok ([], [])⟩
  | a :: rest =>
    match s.translate a with
    | ⟨calls, .error abort⟩ => ⟨calls, .error abort⟩
    | ⟨calls, .ok (value, cleanup)⟩ =>
      match s.translateAll rest with
      | ⟨more, .error abort⟩ => ⟨calls ++ more, .error abort⟩
      | ⟨more, .ok (values, cleanups)⟩ =>
        ⟨calls ++ more, .ok (Arg.wasmParam a.type value :: values, cleanup.toList ++ cleanups)⟩

/-- `impl_invoke_with_func_ptr` up to the backend call, which is the last call
made. -/
def enterInvoke (policy : MetaPolicyFn t D π) (record : MetaSymbolRecord t D) (ret : Option CType)
    (args : List (Arg t)) (s : MetaSandbox t D π) : Effect t (InvokeFrame t × MetaSandbox t D π) :=
  match s.dispatch policy record args with
  | (.error abort, _) => ⟨[], .error abort⟩
  | (.ok .wasm, s) =>
    match s.translateAll args with
    | ⟨calls, .error abort⟩ => ⟨calls, .error abort⟩
    | ⟨calls, .ok (values, structCleanups)⟩ =>
      ⟨calls ++ [.wasmInvoke record.name values],
        .ok ({ symbol := record.name, which := .wasm, ret, structCleanups,
               pinThreshold := s.pinThreshold },
          { s with invokesOnWasm := s.invokesOnWasm + 1 })⟩
  | (.ok .process, s) =>
    ⟨[.processInvoke record.name (args.map Arg.bits)],
      .ok ({ symbol := record.name, which := .process, ret, structCleanups := [],
             pinThreshold := s.pinThreshold },
        { s with invokesOnProcess := s.invokesOnProcess + 1 })⟩

/-- `static_cast<T_Ret_conv>` of a scalar result. -/
def castReturn (t : Target) (type : CType) (bits : BitVec 64) : BitVec 64 :=
  (bits.setWidth ((CType.convert t type).bits t)).setWidth 64

/-- The pointer an invoke gives back, and its entry in the registry. A null
result is given back as it is. -/
def registerReturn (which : MetaBackend) (answer : InvokeAnswer t) (s : MetaSandbox t D π) :
    TPointer t × MetaSandbox t D π :=
  match which with
  | .wasm =>
    if answer.wasm = 0#32 then (0#t.ptrBits, s)
    else
      let tagged := tagWasm (widen t answer.wasm)
      (tagged, { s with allocOwner := KeyMap.emplace tagged .wasm s.allocOwner })
  | .process =>
    if answer.process = 0#t.ptrBits then (answer.process, s)
    else
      (answer.process,
        { s with allocOwner := KeyMap.emplace answer.process .process s.allocOwner })

/-- The return expression, by the original return type. -/
def returnValue (answer : InvokeAnswer t) (frame : InvokeFrame t) (s : MetaSandbox t D π) :
    Returned t × MetaSandbox t D π :=
  match frame.ret with
  | none => (.nothing, s)
  | some .pointer =>
    let (p, s) := s.registerReturn frame.which answer
    (.pointer p, s)
  | some type => (.scalar (castReturn t type answer.scalar), s)

/-- `impl_invoke_with_func_ptr` after the backend call returned: register a
returned pointer, run the cleanups, push the latency sample. -/
def returnInvoke (answer : InvokeAnswer t) (elapsed : D) (frame : InvokeFrame t)
    (s : MetaSandbox t D π) : List (BackendCall t) × Returned t × MetaSandbox t D π :=
  let (returned, s) := s.returnValue answer frame
  let symbolCache := match s.symbolCache.lookup frame.symbol with
    | none => s.symbolCache
    | some record =>
      s.symbolCache.insert frame.symbol (record.pushSample frame.which frame.pinThreshold elapsed)
  (frame.structCleanups.map StructCleanup.call, returned, { s with symbolCache })

end MetaSandbox
end RlboxDynamic
