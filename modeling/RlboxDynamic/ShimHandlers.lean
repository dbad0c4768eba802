import RlboxDynamic.FfiCall

/-! The handlers both transports' request loops share, over an allocator that is
other code, and the dispatch on a wire request. -/
namespace RlboxDynamic

/-- The union of `Request` in the wire schema. -/
inductive WireRequest where
  | lookupSymbol (name : String)
  | allocate (size : BitVec 64)
  | release (address : BitVec 64)
  | invoke (funcAddr : BitVec 64) (retTag : BitVec 32) (argTags : List (BitVec 32))
      (argValues : List (BitVec 64))
  | registerCallback (key : BitVec 64)
  | unregisterCallback (key : BitVec 64)
  deriving DecidableEq

/-- The shim's `malloc` and `free`, with none for NULL. -/
structure Allocator (t : Target) where
  Heap : Type
  malloc : SizeT t → Heap → Option (TPointer t × Heap)
  free : TPointer t → Heap → Heap

namespace Allocator
variable {t : Target} (A : Allocator t)

/-- Several allocations in a row, failing with the first that fails. -/
def mallocAll : List (SizeT t) → A.Heap → Option (List (TPointer t) × A.Heap)
  | [], heap => some ([], heap)
  | size :: sizes, heap =>
    match A.malloc size heap with
    | none => none
    | some (p, heap) => (mallocAll sizes heap).map fun (ps, heap) => (p :: ps, heap)

def freeAll (ps : List (TPointer t)) (heap : A.Heap) : A.Heap := ps.foldl (fun h p => A.free p h) heap

end Allocator

/-- What stays the same in one shim process. `builderBytes` is a response
builder's first segment, `readerBytes` what reading a message allocates. -/
structure ServerEnv (t : Target) where
  shmBase : TPointer t
  shmSize : SizeT t
  dlsym : String → TPointer t
  trampoline : Nat → TPointer t
  builderBytes : SizeT t
  readerBytes : WireRequest → List (SizeT t)

/-- What the handlers change. `callbackKeys` is none while `g_callback_keys` is
null. -/
structure ShimProcess (A : Allocator t) where
  heap : A.Heap
  callbackKeys : Option (List (TPointer t))

section
variable {t : Target} {A : Allocator t} (env : ServerEnv t)

def handleLookupSymbol (name : String) : TPointer t := env.dlsym name

/-- Blocks outside the shared region are refused and given back. -/
def handleAllocate (size : SizeT t) (heap : A.Heap) : TPointer t × A.Heap :=
  match A.malloc size heap with
  | none => (0, heap)
  | some (p, heap) =>
    if env.shmBase = 0 then (0, heap)
    else if p < env.shmBase ∨ p + size > env.shmBase + env.shmSize then (0, A.free p heap)
    else (p, heap)

def handleRelease (address : TPointer t) (heap : A.Heap) : A.Heap :=
  if address ≠ 0 then A.free address heap else heap

/-- The first free slot, taken for a key. -/
def claimSlot (key : TPointer t) : List (TPointer t) → Option (Nat × List (TPointer t))
  | [] => none
  | slot :: rest =>
    if slot = 0 then some (0, key :: rest)
    else (claimSlot key rest).map fun (i, rest) => (i + 1, slot :: rest)

/-- The first slot with the key, freed. -/
def releaseSlot (key : TPointer t) : List (TPointer t) → List (TPointer t)
  | [] => []
  | slot :: rest => if slot = key then 0 :: rest else slot :: releaseSlot key rest

def handleRegisterCallback (key : TPointer t) (callbackKeys : Option (List (TPointer t))) :
    TPointer t × Option (List (TPointer t)) :=
  match callbackKeys with
  | none => (0, none)
  | some slots =>
    match claimSlot key slots with
    | none => (0, some slots)
    | some (i, slots) => (env.trampoline i, some slots)

def handleUnregisterCallback (key : TPointer t) (callbackKeys : Option (List (TPointer t))) :
    Option (List (TPointer t)) :=
  callbackKeys.map (releaseSlot key)

/-- `tags` and `vals` of an invoke, which the loop body reserves. -/
def vectorBytes : WireRequest → List (SizeT t)
  | .invoke _ _ argTags argValues =>
    (if argTags = [] then [] else [BitVec.ofNat _ (4 * argTags.length)]) ++
      if argValues = [] then [] else [BitVec.ofNat _ (8 * argValues.length)]
  | _ => []

/-- The `switch` of the request loop: the result and what it leaves. For an
invoke, `invoked` is what `handle_invoke` returns. -/
def handleRequest (invoked : BitVec 64) (process : ShimProcess A) :
    WireRequest → BitVec 64 × ShimProcess A
  | .lookupSymbol name => ((handleLookupSymbol env name).setWidth 64, process)
  | .allocate size =>
    let (p, heap) := handleAllocate env (size.setWidth t.ptrBits) process.heap
    (p.setWidth 64, { process with heap })
  | .release address =>
    (0, { process with heap := handleRelease (address.setWidth t.ptrBits) process.heap })
  | .invoke .. => (invoked, process)
  | .registerCallback key =>
    let (p, callbackKeys) :=
      handleRegisterCallback env (key.setWidth t.ptrBits) process.callbackKeys
    (p.setWidth 64, { process with callbackKeys })
  | .unregisterCallback key =>
    (0, { process with
      callbackKeys := handleUnregisterCallback (key.setWidth t.ptrBits) process.callbackKeys })

end

/-! What the two handlers do to the slots, index by index. -/

section
variable {t : Target} {key : TPointer t} {slots slots' : List (TPointer t)} {i j : Nat}

theorem claimSlot_eq_none : claimSlot key slots = none ↔ ∀ slot ∈ slots, slot ≠ 0 := by
  induction slots with
  | nil => simp [claimSlot]
  | cons slot rest ih =>
    by_cases free : slot = 0
    · simp [claimSlot, free]
    · simp only [claimSlot, if_neg free, Option.map_eq_none_iff, ih, List.forall_mem_cons]
      exact ⟨fun taken => ⟨free, taken⟩, fun taken => taken.2⟩

/-- The slot taken was free, and it alone changes. -/
theorem claimSlot_eq_some (claimed : claimSlot key slots = some (i, slots')) :
    slots[i]? = some 0 ∧ slots' = slots.set i key := by
  induction slots generalizing i slots' with
  | nil => cases claimed
  | cons slot rest ih =>
    by_cases free : slot = 0
    · simp only [claimSlot, if_pos free, Option.some.injEq, Prod.mk.injEq] at claimed
      obtain ⟨rfl, rfl⟩ := claimed
      simp [free]
    · simp only [claimSlot, if_neg free, Option.map_eq_some_iff] at claimed
      obtain ⟨⟨j, rest'⟩, later, same⟩ := claimed
      cases same
      obtain ⟨was, now⟩ := ih later
      simp [was, now]

/-- A key that is in one slot at most is in none afterwards. -/
theorem getElem?_releaseSlot
    (unique : ∀ i j : Nat, slots[i]? = some key → slots[j]? = some key → i = j) :
    (releaseSlot key slots)[i]? = if slots[i]? = some key then some 0 else slots[i]? := by
  induction slots generalizing i with
  | nil => simp [releaseSlot]
  | cons slot rest ih =>
    have later : ∀ i j : Nat, rest[i]? = some key → rest[j]? = some key → i = j := fun i j here there =>
      Nat.succ.inj (unique (i + 1) (j + 1) (by simpa using here) (by simpa using there))
    by_cases same : slot = key
    · cases i with
      | zero => simp [releaseSlot, same]
      | succ i =>
        have apart : rest[i]? ≠ some key := fun found =>
          absurd (unique (i + 1) 0 (by simpa using found) (by simp [same])) (Nat.succ_ne_zero i)
        simp [releaseSlot, same, apart]
    · cases i with
      | zero => simp [releaseSlot, same]
      | succ i => simp [releaseSlot, same, ih later]

/-- Freeing a key frees a slot where some slot has it, -/
theorem zero_mem_releaseSlot (held : key ∈ slots) : 0 ∈ releaseSlot key slots := by
  induction slots with
  | nil => cases held
  | cons slot rest ih =>
    unfold releaseSlot
    split
    next => exact List.mem_cons_self
    next other =>
      exact List.mem_cons_of_mem _ (ih ((List.mem_cons.mp held).resolve_left (other ·.symm)))

/-- and takes no other key out. -/
theorem mem_releaseSlot {other : TPointer t} (held : other ∈ slots) (apart : other ≠ key) :
    other ∈ releaseSlot key slots := by
  induction slots with
  | nil => cases held
  | cons slot rest ih =>
    unfold releaseSlot
    split
    next same =>
      exact List.mem_cons_of_mem _ ((List.mem_cons.mp held).resolve_left fun first =>
        apart (first.trans same))
    next =>
      rcases List.mem_cons.mp held with rfl | later
      · exact List.mem_cons_self
      · exact List.mem_cons_of_mem _ (ih later)

theorem length_releaseSlot : (releaseSlot key slots).length = slots.length := by
  induction slots with
  | nil => rfl
  | cons slot rest ih =>
    unfold releaseSlot
    split <;> simp [ih]

end
end RlboxDynamic
