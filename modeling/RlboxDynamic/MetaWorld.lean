import RlboxDynamic.MetaInvoke
import RlboxDynamic.Transition

/-! The meta sandbox together with what surrounds it: the two backends' heaps,
the invokes in flight, and the allocations its client still holds. Heaps and
allocations are read off the backend calls an operation makes, so they say
nothing the sandbox's own registries could have got wrong. -/
namespace RlboxDynamic
open Transition

/-- The live blocks of each backend's allocator, base to size. -/
structure Heaps (t : Target) where
  wasm : KeyMap WasmPointer (SizeT t)
  process : KeyMap (TPointer t) (SizeT t)

/-- No byte of a new block lies in a live one. An allocator keeps at least one
byte for each block. -/
def FreshBlock {v w : Nat} (heap : KeyMap (BitVec v) (BitVec w)) (base : BitVec v)
    (size : BitVec w) : Prop :=
  ∀ other length, heap.lookup other = some length →
    base.toNat + max size.toNat 1 ≤ other.toNat ∨ other.toNat + max length.toNat 1 ≤ base.toNat

instance {v w : Nat} (heap : KeyMap (BitVec v) (BitVec w)) (base : BitVec v) (size : BitVec w) :
    Decidable (FreshBlock heap base size) :=
  -- by the entries of the heap, not by all bit vectors
  @decidable_of_iff _ (∀ entry ∈ heap.entries, base.toNat + max size.toNat 1 ≤ entry.1.toNat ∨
      entry.1.toNat + max entry.2.toNat 1 ≤ base.toNat) (by
    constructor
    · intro apart other length found
      exact apart ⟨other, length⟩ (AList.mem_lookup_iff.mp found)
    · intro fresh entry inside
      exact fresh entry.1 entry.2 (AList.mem_lookup_iff.mpr inside)) (List.decidableBAll _ _)

theorem FreshBlock.lookup_base {v w : Nat} {heap : KeyMap (BitVec v) (BitVec w)} {base : BitVec v}
    {size : BitVec w} (fresh : FreshBlock heap base size) : heap.lookup base = none := by
  cases found : heap.lookup base with
  | none => rfl
  | some length =>
    have apart := fresh base length found
    omega

namespace Heaps
variable {t : Target}

/-- What one backend call does to the heaps. An allocator that answers null
allocated nothing, and freeing what is not there changes nothing. -/
def apply (h : Heaps t) : BackendCall t → Heaps t
  | .wasmMalloc size raw => if raw = 0#32 then h else { h with wasm := h.wasm.insert raw size }
  | .processMalloc size p =>
    if p = 0#t.ptrBits then h else { h with process := h.process.insert p size }
  | .wasmFree raw => { h with wasm := h.wasm.erase raw }
  | .processFree p => { h with process := h.process.erase p }
  | _ => h

def applyAll (h : Heaps t) (calls : List (BackendCall t)) : Heaps t := calls.foldl apply h

/-- The allocators' contract: every block they answer with is disjoint from
the blocks live at that moment. -/
def Allows (h : Heaps t) : List (BackendCall t) → Prop
  | [] => True
  | call :: rest =>
    (match call with
      | .wasmMalloc size raw => raw ≠ 0#32 → FreshBlock h.wasm raw size
      | .processMalloc size p => p ≠ 0#t.ptrBits → FreshBlock h.process p size
      | _ => True) ∧ (h.apply call).Allows rest

instance decidableAllows : (h : Heaps t) → (calls : List (BackendCall t)) → Decidable (h.Allows calls)
  | _, [] => .isTrue trivial
  | h, call :: rest =>
    have := decidableAllows (h.apply call) rest
    match call with
    | .wasmMalloc _ _ | .processMalloc _ _ | .wasmFree _ | .processFree _ | .translate _ _ _
    | .cleanup _ _ _ | .wasmInvoke _ _ | .processInvoke _ _ => inferInstanceAs (Decidable (_ ∧ _))

/-- A call releases a block that is live in the heap it is released on. -/
def Releases (h : Heaps t) : BackendCall t → Prop
  | .wasmFree raw => h.wasm.lookup raw ≠ none
  | .processFree p => h.process.lookup p ≠ none
  | _ => True

/-- Each call in turn releases only a live block. -/
def ReleasesAll (h : Heaps t) : List (BackendCall t) → Prop
  | [] => True
  | call :: rest => h.Releases call ∧ (h.apply call).ReleasesAll rest

end Heaps

/-- A block `impl_malloc_in_sandbox` handed out and no free took back yet:
which allocator gave it and at which address, the struct type its size matched
where exactly one did, and its scratch, 0 for none. -/
structure LiveAlloc (t : Target) where
  owner : MetaBackend
  base : TPointer t
  size : SizeT t
  structType : Option (MetaStructTypeInfo t)
  scratch : WasmPointer
  deriving DecidableEq

namespace LiveAlloc
variable {t : Target}

/-- The pointer value that names the allocation: tagged for wasm. -/
def key (a : LiveAlloc t) : TPointer t :=
  match a.owner with
  | .wasm => tagWasm a.base
  | .process => a.base

/-- The second call of an allocation, if there is one, is for its scratch. -/
def scratchOf : List (BackendCall t) → WasmPointer
  | [.wasmMalloc _ raw] => raw
  | _ => 0#32

/-- The allocation that the calls of one `impl_malloc_in_sandbox` made. -/
def ofCalls (size : SizeT t) (structType : Option (MetaStructTypeInfo t)) :
    List (BackendCall t) → Option (LiveAlloc t)
  | .wasmMalloc _ raw :: rest =>
    if raw = 0#32 then none else some ⟨.wasm, widen t raw, size, structType, scratchOf rest⟩
  | .processMalloc _ p :: rest =>
    if p = 0#t.ptrBits then none else some ⟨.process, p, size, structType, scratchOf rest⟩
  | _ => none

/-- The translator recorded for the allocation. -/
def translator (a : LiveAlloc t) : Option StructTranslator := a.structType.bind (·.translator)

/-- The call that obtained its own block. -/
def obtainBlock (a : LiveAlloc t) : BackendCall t :=
  match a.owner with
  | .wasm => .wasmMalloc a.size (narrow a.base)
  | .process => .processMalloc a.size a.base

/-- The call that obtained its scratch, where it has one. -/
def obtainScratch (a : LiveAlloc t) : List (BackendCall t) :=
  match a.structType with
  | none => []
  | some info => if a.scratch = 0#32 then [] else [.wasmMalloc info.wasmSize a.scratch]

def obtain (a : LiveAlloc t) : List (BackendCall t) := a.obtainBlock :: a.obtainScratch

/-- The call that releases the allocation's own block. -/
def release (a : LiveAlloc t) : BackendCall t :=
  match a.owner with
  | .wasm => .wasmFree (narrow a.base)
  | .process => .processFree a.base

/-- The call that releases its scratch, where it has one. -/
def releaseScratch (a : LiveAlloc t) : List (BackendCall t) :=
  if a.scratch = 0#32 then [] else [.wasmFree a.scratch]

end LiveAlloc

/-- A pointer value spells an allocation's key, tagged or with the tag lost. -/
def Spells {t : Target} (p key : TPointer t) : Prop := p = key ∨ p = tagStrip key

instance {t : Target} (p key : TPointer t) : Decidable (Spells p key) :=
  inferInstanceAs (Decidable (_ ∨ _))

/-- The sandbox, its surroundings, and every pointer handed to RLBox so far
with the backend that produced it. -/
structure MetaWorld (t : Target) (D π : Type) where
  sandbox : MetaSandbox t D π
  heaps : Heaps t
  live : KeyMap (TPointer t) (LiveAlloc t)
  frames : List (InvokeFrame t)
  handed : List (TPointer t × MetaBackend)

/-- The operations of a client, with the answers of the backends. `leave`
takes the invoke in flight that returns. -/
inductive MetaOp (t : Target) (D : Type) where
  | lookupSymbol (processSym wasmSym : TPointer t) (funcName : String)
  | registerStructType (info : MetaStructTypeInfo t)
  | registerCallback (procPtr : TPointer t) (wasmSlot : WasmPointer) (key : TPointer t)
  | unregisterCallback (key : TPointer t)
  | setPinThreshold (n : BitVec 32)
  | malloc (size : SizeT t) (answers : MallocAnswers t)
  | free (p : TPointer t)
  | enter (symbol : String) (ret : Option CType) (args : List (Arg t))
  | leave (index : Nat) (answer : InvokeAnswer t) (elapsed : D)

/-- What an operation did: its backend calls, the pointer it handed out, and
the world it leaves. -/
structure MetaEffect (t : Target) (D π : Type) where
  calls : List (BackendCall t)
  returned : Option (TPointer t)
  next : MetaWorld t D π

namespace MetaWorld
variable {t : Target} {D π : Type} [Millis D]

def initial (policyState : π) : MetaWorld t D π where
  sandbox := .initial policyState
  heaps := ⟨∅, ∅⟩
  live := ∅
  frames := []
  handed := []

/-- The one registered struct type of a size, where there is exactly one. -/
def structType (w : MetaWorld t D π) (size : SizeT t) : Option (MetaStructTypeInfo t) :=
  match w.sandbox.structMatches size with
  | [info] => some info
  | _ => none

/-- The allocation a pointer value is freed as: its own key, or the tagged
form of it. -/
def denotedKey (w : MetaWorld t D π) (p : TPointer t) : TPointer t :=
  if p ∈ w.live then p else tagWasm p

/-- An operation that only touches the sandbox's own data. -/
def internal (w : MetaWorld t D π) (sandbox : MetaSandbox t D π) : MetaEffect t D π :=
  ⟨[], none, { w with sandbox }⟩

def execMalloc (policy : MetaPolicyFn t D π) (size : SizeT t) (answers : MallocAnswers t)
    (w : MetaWorld t D π) : Option (MetaEffect t D π) :=
  match w.sandbox.implMallocInSandbox policy answers size with
  | ⟨_, .error _⟩ => none
  | ⟨calls, .ok (p, sandbox)⟩ =>
    let w := { w with sandbox, heaps := w.heaps.applyAll calls }
    match LiveAlloc.ofCalls size (w.structType size) calls with
    | none => some ⟨calls, none, w⟩
    | some a =>
      some ⟨calls, some p,
        { w with live := w.live.insert p a, handed := w.handed ++ [(p, a.owner)] }⟩

def execFree (p : TPointer t) (w : MetaWorld t D π) : MetaEffect t D π :=
  let (calls, sandbox) := w.sandbox.implFreeInSandbox p
  let live := if p = 0#t.ptrBits then w.live else w.live.erase (w.denotedKey p)
  ⟨calls, none, { w with sandbox, heaps := w.heaps.applyAll calls, live }⟩

def execEnter (policy : MetaPolicyFn t D π) (symbol : String) (ret : Option CType)
    (args : List (Arg t)) (w : MetaWorld t D π) : Option (MetaEffect t D π) :=
  match w.sandbox.symbolCache.lookup symbol with
  | none => none
  | some record =>
    match w.sandbox.enterInvoke policy record ret args with
    | ⟨_, .error _⟩ => none
    | ⟨calls, .ok (frame, sandbox)⟩ =>
      some ⟨calls, none, { w with sandbox, frames := w.frames ++ [frame] }⟩

def execLeave (index : Nat) (answer : InvokeAnswer t) (elapsed : D) (w : MetaWorld t D π) :
    Option (MetaEffect t D π) :=
  match w.frames[index]? with
  | none => none
  | some frame =>
    let (calls, returned, sandbox) := w.sandbox.returnInvoke answer elapsed frame
    let w := { w with sandbox, frames := w.frames.eraseIdx index }
    match returned with
    | .pointer p =>
      if p = 0#t.ptrBits then some ⟨calls, none, w⟩
      else some ⟨calls, some p, { w with handed := w.handed ++ [(p, frame.which)] }⟩
    | _ => some ⟨calls, none, w⟩

/-- One operation. None where the process aborts, and where there is nothing
to do it on: an invoke of a symbol never looked up, a return with no invoke. -/
def exec (policy : MetaPolicyFn t D π) (w : MetaWorld t D π) :
    MetaOp t D → Option (MetaEffect t D π)
  | .lookupSymbol processSym wasmSym funcName =>
    some (w.internal (w.sandbox.implLookupSymbol processSym wasmSym funcName))
  | .registerStructType info => some (w.internal (w.sandbox.registerStructType info))
  | .registerCallback procPtr wasmSlot key =>
    some (w.internal (w.sandbox.implRegisterCallback procPtr wasmSlot key).2)
  | .unregisterCallback key => some (w.internal (w.sandbox.implUnregisterCallback key))
  | .setPinThreshold n => some (w.internal (w.sandbox.setPinThreshold n))
  | .malloc size answers => w.execMalloc policy size answers
  | .free p => some (w.execFree p)
  | .enter symbol ret args => w.execEnter policy symbol ret args
  | .leave index answer elapsed => w.execLeave index answer elapsed

/-- The step relation: an operation that the process survives. -/
def Step (policy : MetaPolicyFn t D π) (w : MetaWorld t D π) (op : MetaOp t D)
    (w' : MetaWorld t D π) : Prop :=
  ∃ calls returned, w.exec policy op = some ⟨calls, returned, w'⟩

end MetaWorld
end RlboxDynamic
