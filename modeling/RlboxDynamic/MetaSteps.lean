import RlboxDynamic.MetaWorld

/-! What one operation can do to the ownership registry, the struct registry,
the heaps and the client's allocations. Every operation is one of four ledger
steps, and the invariants of the later modules are read off those four. -/
namespace RlboxDynamic
open Transition

variable {t : Target} {D π : Type}

/-- `alloc_owner` and `struct_allocs`, with the heaps and the client's own
account of what it holds. -/
structure Ledger (t : Target) where
  owners : KeyMap (TPointer t) MetaBackend
  structs : KeyMap (TPointer t) MetaStructAllocInfo
  live : KeyMap (TPointer t) (LiveAlloc t)
  heaps : Heaps t
  handed : List (TPointer t × MetaBackend)

def MetaWorld.ledger (w : MetaWorld t D π) : Ledger t where
  owners := w.sandbox.allocOwner
  structs := w.sandbox.structAllocs
  live := w.live
  heaps := w.heaps
  handed := w.handed

/-- Calls that allocate nothing and free nothing. -/
def Still (calls : List (BackendCall t)) : Prop := ∀ h : Heaps t, h.applyAll calls = h

theorem Still.append {calls more : List (BackendCall t)} (first : Still calls) (rest : Still more) :
    Still (calls ++ more) := by
  intro h
  have before := first h
  have after := rest h
  unfold Heaps.applyAll at *
  rw [List.foldl_append, before, after]

/-- A call that runs foreign code or copies fields leaves both heaps alone. -/
theorem Still.of_each {calls : List (BackendCall t)} (each : ∀ c ∈ calls, ∀ h : Heaps t, h.apply c = h) : Still calls := by
  intro h
  induction calls with
  | nil => rfl
  | cons c rest ih =>
    have here := each c List.mem_cons_self h
    have later := ih fun d inside => each d (List.mem_cons_of_mem _ inside)
    rw [Heaps.applyAll, List.foldl_cons, here]
    exact later

/-- What the sandbox checked of an allocation before handing it out. -/
structure LiveAlloc.Checked (a : LiveAlloc t) : Prop where
  nonNull : a.base ≠ 0#t.ptrBits
  processUntagged : a.owner = .process → ¬ Tagged a.base
  wasmNarrow : a.owner = .wasm → widen t (narrow a.base) = a.base
  scratchTyped : a.scratch ≠ 0#32 → a.structType ≠ none

theorem LiveAlloc.Checked.key_ne_zero {a : LiveAlloc t} (checked : a.Checked) :
    a.key ≠ 0#t.ptrBits := by
  unfold LiveAlloc.key
  split
  · exact tagWasm_ne_zero
  · exact checked.nonNull

namespace Ledger

def allocate (l : Ledger t) (a : LiveAlloc t) : Ledger t where
  owners := l.owners.insert a.key a.owner
  structs := if a.scratch = 0#32 then l.structs
    else l.structs.insert a.key ⟨a.scratch, a.translator⟩
  live := l.live.insert a.key a
  heaps := l.heaps.applyAll a.obtain
  handed := l.handed ++ [(a.key, a.owner)]

def handOut (l : Ledger t) (p : TPointer t) (owner : MetaBackend) : Ledger t :=
  { l with owners := KeyMap.emplace p owner l.owners, handed := l.handed ++ [(p, owner)] }

/-- The key and owner a pointer is freed under. The tag decides only when
neither spelling has an entry. -/
inductive FreedAs (l : Ledger t) (p : TPointer t) : TPointer t → MetaBackend → Prop where
  | own (found : l.owners.lookup p = some owner) : FreedAs l p p owner
  | tagged (missing : l.owners.lookup p = none) (untagged : ¬ Tagged p)
      (found : l.owners.lookup (tagWasm p) = some owner) : FreedAs l p (tagWasm p) owner
  | unknown (missing : l.owners.lookup p = none)
      (alsoMissing : l.owners.lookup (tagWasm p) = none) : FreedAs l p p (tagOwner p)

/-- The scratch recorded under a key, 0 for none. -/
def scratchAt (l : Ledger t) (key : TPointer t) : WasmPointer :=
  ((l.structs.lookup key).map (·.wasmScratch)).getD 0#32

/-- The backend calls of a free: the scratch, then the block. -/
def freeCalls (l : Ledger t) (key : TPointer t) (owner : MetaBackend) : List (BackendCall t) :=
  (if l.scratchAt key = 0#32 then [] else [.wasmFree (l.scratchAt key)]) ++
    [match owner with
      | .wasm => .wasmFree (narrow (tagStrip key))
      | .process => .processFree (tagStrip key)]

/-- The allocation a pointer denotes for the client. -/
def denotedKey (l : Ledger t) (p : TPointer t) : TPointer t := if p ∈ l.live then p else tagWasm p

def free (l : Ledger t) (p key : TPointer t) (owner : MetaBackend) : Ledger t :=
  { l with
    owners := l.owners.erase key
    structs := l.structs.erase key
    live := l.live.erase (l.denotedKey p)
    heaps := l.heaps.applyAll (l.freeCalls key owner) }

/-! What each of the three leaves at a key. -/

section
variable (l : Ledger t) (a : LiveAlloc t) (p key k : TPointer t) (owner : MetaBackend)

theorem lookup_live_allocate :
    (l.allocate a).live.lookup k = if k = a.key then some a else l.live.lookup k :=
  KeyMap.lookup_insert a.key k a l.live

theorem lookup_owners_allocate :
    (l.allocate a).owners.lookup k = if k = a.key then some a.owner else l.owners.lookup k :=
  KeyMap.lookup_insert a.key k a.owner l.owners

theorem lookup_structs_allocate :
    (l.allocate a).structs.lookup k =
      if k = a.key ∧ a.scratch ≠ 0#32 then some ⟨a.scratch, a.translator⟩
      else l.structs.lookup k := by
  unfold allocate
  by_cases none : a.scratch = 0#32
  · simp [none]
  · simp [none, KeyMap.lookup_insert]

theorem lookup_owners_handOut :
    (l.handOut p owner).owners.lookup k =
      if k = p then some ((l.owners.lookup p).getD owner) else l.owners.lookup k :=
  KeyMap.lookup_emplace p k owner l.owners

theorem lookup_live_free :
    (l.free p key owner).live.lookup k = if k = l.denotedKey p then none else l.live.lookup k :=
  KeyMap.lookup_erase (l.denotedKey p) k l.live

theorem lookup_owners_free :
    (l.free p key owner).owners.lookup k = if k = key then none else l.owners.lookup k :=
  KeyMap.lookup_erase key k l.owners

theorem lookup_structs_free :
    (l.free p key owner).structs.lookup k = if k = key then none else l.structs.lookup k :=
  KeyMap.lookup_erase key k l.structs

end

end Ledger

/-- At most one more call, which the wasm allocator answered with null. -/
def Refused (calls : List (BackendCall t)) : Prop := calls = [] ∨ ∃ n, calls = [.wasmMalloc n 0#32]

theorem Refused.still {calls : List (BackendCall t)} (refused : Refused calls) : Still calls := by
  rcases refused with rfl | ⟨n, rfl⟩
  · exact fun _ => rfl
  · exact fun h => by simp [Heaps.applyAll, Heaps.apply]

/-- The four things an operation can do to the ledger, with the backend calls
it makes and the pointer it hands out. -/
inductive LedgerStep (l : Ledger t) :
    MetaOp t D → List (BackendCall t) → Option (TPointer t) → Ledger t → Prop where
  | quiet (still : Still calls) : LedgerStep l op calls none l
  | allocate (a : LiveAlloc t) (checked : a.Checked)
      (answered : a.base = match a.owner with
        | .wasm => widen t answers.wasm
        | .process => answers.process)
      (scratchAnswered : a.scratch ≠ 0#32 → a.scratch = answers.scratch) (refused : Refused more) :
      LedgerStep l (.malloc a.size answers) (a.obtain ++ more) (some a.key) (l.allocate a)
  | free (nonNull : p ≠ 0#t.ptrBits) (freed : l.FreedAs p key owner) :
      LedgerStep l (.free p) (l.freeCalls key owner) none (l.free p key owner)
  | handOut (nonNull : p ≠ 0#t.ptrBits) (still : Still calls)
      (wasmTagged : owner = .wasm → Tagged p)
      (answered : owner = .process → p = answer.process)
      (wasmAnswered : owner = .wasm → answer.wasm ≠ 0#32 ∧ p = tagWasm (widen t answer.wasm)) :
      LedgerStep l (.leave index answer elapsed) calls (some p) (l.handOut p owner)

namespace MetaSandbox

/-- The scratch calls and the registry entries of a published allocation. -/
structure Published (s : MetaSandbox t D π) (answers : MallocAnswers t) (size : SizeT t)
    (p : TPointer t) (choice : MetaBackend) (calls : List (BackendCall t))
    (s' : MetaSandbox t D π) : Prop where
  owners : s'.allocOwner = s.allocOwner.insert p choice
  types : s'.structTypes = s.structTypes
  symbols : s'.symbolCache = s.symbolCache
  policy : s'.policyState = s.policyState
  scratch :
    (s'.structAllocs = s.structAllocs ∧ (calls = [] ∨ ∃ n, calls = [.wasmMalloc n 0#32])) ∨
    ∃ info, s.structMatches size = [info] ∧ answers.scratch ≠ 0#32 ∧
      calls = [.wasmMalloc info.wasmSize answers.scratch] ∧
      s'.structAllocs = s.structAllocs.insert p ⟨answers.scratch, info.translator⟩

/-- A malloc either was refused by the chosen backend, or published the block
that backend gave. -/
inductive Malloced (s : MetaSandbox t D π) (answers : MallocAnswers t) (size : SizeT t) :
    MetaBackend → List (BackendCall t) → TPointer t → MetaSandbox t D π → Prop where
  | refusedWasm : Malloced s answers size .wasm [.wasmMalloc size 0#32] 0#t.ptrBits s
  | refusedProcess (null : answers.process = 0#t.ptrBits) :
      Malloced s answers size .process [.processMalloc size 0#t.ptrBits] 0#t.ptrBits s
  | wasm (granted : answers.wasm ≠ 0#32)
      (published : Published s answers size (tagWasm (widen t answers.wasm)) .wasm more s') :
      Malloced s answers size .wasm (.wasmMalloc size answers.wasm :: more)
        (tagWasm (widen t answers.wasm)) s'
  | process (granted : answers.process ≠ 0#t.ptrBits) (untagged : ¬ Tagged answers.process)
      (published : Published s answers size answers.process .process more s') :
      Malloced s answers size .process (.processMalloc size answers.process :: more)
        answers.process s'

variable {s s' : MetaSandbox t D π} {calls : List (BackendCall t)} {p q : TPointer t}
  {answers : MallocAnswers t} {size : SizeT t} {choice : MetaBackend}

theorem publishAllocation_ok
    (ran : s.publishAllocation answers size p choice = ⟨calls, .ok (q, s')⟩) :
    q = p ∧ Published s answers size p choice calls s' := by
  unfold publishAllocation at ran
  dsimp only at ran
  split at ran
  · cases ran
    exact ⟨rfl, rfl, rfl, rfl, rfl, .inl ⟨rfl, .inl rfl⟩⟩
  · rename_i info only
    split at ran
    · cases ran
      exact ⟨rfl, rfl, rfl, rfl, rfl, .inl ⟨rfl, .inl rfl⟩⟩
    · split at ran
      · rename_i refused
        cases ran
        exact ⟨rfl, rfl, rfl, rfl, rfl, .inl ⟨rfl, .inr ⟨_, by rw [refused]⟩⟩⟩
      · rename_i granted
        cases ran
        exact ⟨rfl, rfl, rfl, rfl, rfl, .inr ⟨info, only, granted, rfl, rfl⟩⟩
  · cases ran

theorem mallocOn_ok (ran : s.mallocOn choice answers size = ⟨calls, .ok (p, s')⟩) :
    Malloced s answers size choice calls p s' := by
  cases choice with
  | wasm =>
    simp only [mallocOn] at ran
    split at ran
    · rename_i refused
      rw [refused] at ran
      cases ran
      exact .refusedWasm
    · rename_i granted
      injection ran with callsEq resultEq
      obtain ⟨rfl, published⟩ := publishAllocation_ok
        (show _ = (⟨_, .ok (p, s')⟩ : Effect t _) by rw [← resultEq])
      rw [← callsEq]
      exact .wasm granted ⟨published.owners, published.types, published.symbols, published.policy,
        published.scratch⟩
  | process =>
    simp only [mallocOn] at ran
    split at ran
    · rename_i refused
      rw [refused] at ran
      cases ran
      exact .refusedProcess refused
    · rename_i granted
      split at ran
      · cases ran
      · rename_i untagged
        injection ran with callsEq resultEq
        obtain ⟨rfl, published⟩ := publishAllocation_ok
          (show _ = (⟨_, .ok (p, s')⟩ : Effect t _) by rw [← resultEq])
        rw [← callsEq]
        exact .process granted untagged ⟨published.owners, published.types, published.symbols,
          published.policy, published.scratch⟩

end MetaSandbox

/-- The second call is the allocation's scratch, or it was refused. -/
theorem published_obtain {s s' : MetaSandbox t D π} {answers : MallocAnswers t} {a : LiveAlloc t}
    {more : List (BackendCall t)} {p : TPointer t}
    (published : s.Published answers a.size p a.owner more s')
    (scratch : a.scratch = LiveAlloc.scratchOf more)
    (typed : ∀ info, s.structMatches a.size = [info] → a.structType = some info) :
    (∃ extra, a.obtainBlock :: more = a.obtain ++ extra ∧ Refused extra) ∧
      (a.scratch ≠ 0#32 → a.structType ≠ none ∧ a.scratch = answers.scratch) ∧
      s'.structAllocs = if a.scratch = 0#32 then s.structAllocs
        else s.structAllocs.insert p ⟨a.scratch, a.translator⟩ := by
  rcases published.scratch with ⟨kept, refused⟩ | ⟨info, only, granted, calls, added⟩
  · have noScratch : a.scratch = 0#32 := by rcases refused with rfl | ⟨n, rfl⟩ <;> exact scratch
    have bare : a.obtain = [a.obtainBlock] := by
      cases shape : a.structType <;> simp [LiveAlloc.obtain, LiveAlloc.obtainScratch, shape, noScratch]
    refine ⟨⟨more, by rw [bare]; rfl, refused⟩, fun nonzero => absurd noScratch nonzero, ?_⟩
    rw [if_pos noScratch, kept]
  · subst calls
    have shape := typed info only
    have full : a.obtain = [a.obtainBlock, .wasmMalloc info.wasmSize answers.scratch] := by
      simp [LiveAlloc.obtain, LiveAlloc.obtainScratch, shape, scratch, LiveAlloc.scratchOf, granted]
    refine ⟨⟨[], by rw [full]; rfl, .inl rfl⟩, fun _ => ⟨by simp [shape], scratch⟩, ?_⟩
    have nonzero : a.scratch ≠ 0#32 := by rw [scratch]; exact granted
    rw [if_neg nonzero, added]
    simp [scratch, LiveAlloc.scratchOf, LiveAlloc.translator, shape]

private theorem structType_congr {w : MetaWorld t D π} {s : MetaSandbox t D π} {size : SizeT t}
    (same : w.sandbox.structTypes = s.structTypes) (info : MetaStructTypeInfo t)
    (only : s.structMatches size = [info]) : w.structType size = some info := by
  simp only [MetaSandbox.structMatches] at only
  simp [MetaWorld.structType, MetaSandbox.structMatches, same, only]

/-- A published block is an allocation of the ledger. -/
private theorem published_step {s : MetaSandbox t D π} (w w' : MetaWorld t D π) (a : LiveAlloc t)
    {answers : MallocAnswers t} {more : List (BackendCall t)}
    (published : s.Published answers a.size a.key a.owner more w'.sandbox)
    (answered : a.base = match a.owner with
      | .wasm => widen t answers.wasm
      | .process => answers.process)
    (nonNull : a.base ≠ 0#t.ptrBits) (untagged : a.owner = .process → ¬ Tagged a.base)
    (narrowed : a.owner = .wasm → widen t (narrow a.base) = a.base)
    (scratch : a.scratch = LiveAlloc.scratchOf more)
    (typed : a.structType = w'.structType a.size)
    (owners : s.allocOwner = w.sandbox.allocOwner) (structs : s.structAllocs = w.sandbox.structAllocs)
    (live : w'.live = w.live.insert a.key a)
    (heaps : w'.heaps = w.heaps.applyAll (a.obtainBlock :: more))
    (handed : w'.handed = w.handed ++ [(a.key, a.owner)]) :
    LedgerStep w.ledger (.malloc a.size answers : MetaOp t D) (a.obtainBlock :: more) (some a.key)
      w'.ledger := by
  obtain ⟨⟨extra, split, refused⟩, scratchTyped, added⟩ := published_obtain published scratch
    fun info only => typed.trans (structType_congr published.types info only)
  have same : w.heaps.applyAll (a.obtainBlock :: more) = w.heaps.applyAll a.obtain := by
    rw [split, Heaps.applyAll, List.foldl_append]
    exact refused.still _
  have after : w'.ledger = w.ledger.allocate a := by
    simp only [MetaWorld.ledger, Ledger.allocate, published.owners, owners, added, structs, live,
      heaps, same, handed]
  rw [after, split]
  exact .allocate a ⟨nonNull, untagged, narrowed, fun nonzero => (scratchTyped nonzero).1⟩ answered
    (fun nonzero => (scratchTyped nonzero).2) refused

/-- The pointer a return hands out: a wasm offset gets its tag, a process
address stays as the backend gave it. -/
def InvokeFrame.handsOut (frame : InvokeFrame t) (answer : InvokeAnswer t) : Option (TPointer t) :=
  match frame.ret, frame.which with
  | some .pointer, .wasm =>
    if answer.wasm = 0#32 then none else some (tagWasm (widen t answer.wasm))
  | some .pointer, .process => if answer.process = 0#t.ptrBits then none else some answer.process
  | _, _ => none

theorem InvokeFrame.handsOut_some (frame : InvokeFrame t) {answer : InvokeAnswer t} {p : TPointer t}
    (handed : frame.handsOut answer = some p) :
    p ≠ 0#t.ptrBits ∧ (frame.which = .wasm → Tagged p) ∧
      (frame.which = .process → p = answer.process) ∧
      (frame.which = .wasm → answer.wasm ≠ 0#32 ∧ p = tagWasm (widen t answer.wasm)) := by
  unfold handsOut at handed
  split at handed
  · rename_i side
    split at handed
    · cases handed
    · rename_i nonNull
      cases handed
      refine ⟨tagWasm_ne_zero, fun _ => tagged_tagWasm, fun other => ?_, fun _ => ⟨nonNull, rfl⟩⟩
      rw [side] at other
      cases other
  · rename_i side
    split at handed
    · cases handed
    · rename_i nonNull
      cases handed
      refine ⟨nonNull, fun other => ?_, fun _ => rfl, fun other => ?_⟩ <;>
      · rw [side] at other
        cases other
  · cases handed

/-- An invoke entered: where it was dispatched, and the calls up to the one
that runs the library's code. -/
inductive Entered [Millis D] (policy : MetaPolicyFn t D π) (symbol : String) (ret : Option CType)
    (args : List (Arg t)) (w : MetaWorld t D π) :
    MetaBackend → List (BackendCall t) → MetaWorld t D π → Prop where
  | process (found : w.sandbox.symbolCache.lookup symbol = some record)
      (chosen : (w.sandbox.dispatch policy record args).1 = .ok .process) :
      Entered policy symbol ret args w .process [.processInvoke record.name (args.map Arg.bits)]
        { w with
          sandbox := { w.sandbox with
            policyState := (policy w.sandbox.policyState (w.sandbox.invokeContext record)).2
            invokesOnProcess := w.sandbox.invokesOnProcess + 1 }
          frames := w.frames ++ [⟨record.name, .process, ret, [], w.sandbox.pinThreshold⟩] }
  | wasm (found : w.sandbox.symbolCache.lookup symbol = some record)
      (chosen : (w.sandbox.dispatch policy record args).1 = .ok .wasm)
      (translated : w.sandbox.translateAll args = ⟨calls, .ok (values, cleanups)⟩) :
      Entered policy symbol ret args w .wasm (calls ++ [.wasmInvoke record.name values])
        { w with
          sandbox := { w.sandbox with
            policyState := (policy w.sandbox.policyState (w.sandbox.invokeContext record)).2
            invokesOnWasm := w.sandbox.invokesOnWasm + 1 }
          frames := w.frames ++ [⟨record.name, .wasm, ret, cleanups, w.sandbox.pinThreshold⟩] }

section Steps
variable [Millis D] {policy : MetaPolicyFn t D π} {w w' : MetaWorld t D π}
  {calls : List (BackendCall t)} {returned : Option (TPointer t)} {op : MetaOp t D}

/-- The malloc's choice is the policy's, its first call goes there, and so does
the block it hands out. A process block that was granted is handed out. -/
structure MallocRouted (policy : MetaPolicyFn t D π) (size : SizeT t) (answers : MallocAnswers t)
    (w : MetaWorld t D π) (calls : List (BackendCall t)) (returned : Option (TPointer t))
    (w' : MetaWorld t D π) : Prop where
  policyState : w'.sandbox.policyState = (w.sandbox.mallocChoice policy size).2.policyState
  symbols : w'.sandbox.symbolCache = w.sandbox.symbolCache
  first : calls.head?.bind BackendCall.side = some (w.sandbox.mallocChoice policy size).1
  owner : ∀ p, returned = some p →
    w'.sandbox.allocOwner.lookup p = some (w.sandbox.mallocChoice policy size).1
  refused : returned = none → (w.sandbox.mallocChoice policy size).1 = .process →
    answers.process = 0#t.ptrBits

theorem execMalloc_ok {size : SizeT t} {answers : MallocAnswers t}
    (ran : w.execMalloc policy size answers = some ⟨calls, returned, w'⟩) :
    LedgerStep w.ledger (.malloc size answers : MetaOp t D) calls returned w'.ledger ∧
      MallocRouted policy size answers w calls returned w' := by
  unfold MetaWorld.execMalloc at ran
  cases outcome : w.sandbox.implMallocInSandbox policy answers size with
  | mk made result =>
    cases result with
    | error abort => simp [outcome] at ran
    | ok pair =>
      obtain ⟨p, sandbox⟩ := pair
      have malloced : MetaSandbox.Malloced (w.sandbox.mallocChoice policy size).2 answers size
        (w.sandbox.mallocChoice policy size).1 made p sandbox := MetaSandbox.mallocOn_ok outcome
      simp only [outcome] at ran
      generalize chosen : (w.sandbox.mallocChoice policy size).1 = choice at malloced
      cases malloced with
      | refusedWasm =>
        simp only [LiveAlloc.ofCalls, ↓reduceIte, Option.some.injEq, MetaEffect.mk.injEq] at ran
        obtain ⟨rfl, rfl, rfl⟩ := ran
        refine ⟨.quiet fun h => by simp [Heaps.applyAll, Heaps.apply],
          rfl, rfl, chosen ▸ rfl, (fun _ none => nomatch none), fun _ other => ?_⟩
        rw [chosen] at other
        cases other
      | refusedProcess null =>
        simp only [LiveAlloc.ofCalls, ↓reduceIte, Option.some.injEq, MetaEffect.mk.injEq] at ran
        obtain ⟨rfl, rfl, rfl⟩ := ran
        exact ⟨.quiet fun h => by simp [Heaps.applyAll, Heaps.apply],
          rfl, rfl, chosen ▸ rfl, (fun _ none => nomatch none), fun _ _ => null⟩
      | @wasm more _ granted published =>
        simp only [LiveAlloc.ofCalls, granted, ↓reduceIte, Option.some.injEq, MetaEffect.mk.injEq] at ran
        obtain ⟨rfl, rfl, rfl⟩ := ran
        let a : LiveAlloc t := ⟨.wasm, widen t answers.wasm, size,
          MetaWorld.structType { w with sandbox } size, LiveAlloc.scratchOf more⟩
        have call : a.obtainBlock = .wasmMalloc size answers.wasm := by simp [a, LiveAlloc.obtainBlock]
        have step := published_step w
          { w with
            sandbox, heaps := w.heaps.applyAll (.wasmMalloc size answers.wasm :: more)
            live := w.live.insert a.key a, handed := w.handed ++ [(a.key, .wasm)] }
          a published rfl (by simpa [a] using granted) (fun process => nomatch process)
          (fun _ => by simp [a]) rfl rfl rfl rfl rfl (by rw [call]) rfl
        rw [call] at step
        refine ⟨step, published.policy, published.symbols, chosen ▸ rfl, fun p same => ?_,
          fun none => nomatch none⟩
        cases same
        rw [chosen, published.owners]
        exact AList.lookup_insert _
      | @process more _ granted untagged published =>
        simp only [LiveAlloc.ofCalls, granted, ↓reduceIte, Option.some.injEq, MetaEffect.mk.injEq] at ran
        obtain ⟨rfl, rfl, rfl⟩ := ran
        let a : LiveAlloc t := ⟨.process, answers.process, size,
          MetaWorld.structType { w with sandbox } size, LiveAlloc.scratchOf more⟩
        have step := published_step w
          { w with
            sandbox, heaps := w.heaps.applyAll (.processMalloc size answers.process :: more)
            live := w.live.insert a.key a, handed := w.handed ++ [(a.key, .process)] }
          a published rfl granted (fun _ => untagged) (fun wasm => nomatch wasm) rfl rfl rfl rfl rfl rfl rfl
        refine ⟨step, published.policy, published.symbols, chosen ▸ rfl, fun p same => ?_,
          fun none => nomatch none⟩
        cases same
        rw [chosen, published.owners]
        exact AList.lookup_insert _

omit [Millis D] in
theorem execFree_ok {p : TPointer t} (ran : w.execFree p = ⟨calls, returned, w'⟩) :
    returned = none ∧
      ((p = 0#t.ptrBits ∧ calls = [] ∧ w'.ledger = w.ledger) ∨
        (p ≠ 0#t.ptrBits ∧ ∃ key owner, w.ledger.FreedAs p key owner ∧
          calls = w.ledger.freeCalls key owner ∧ w'.ledger = w.ledger.free p key owner)) := by
  unfold MetaWorld.execFree MetaSandbox.implFreeInSandbox at ran
  by_cases null : p = 0#t.ptrBits
  · simp only [null, ↓reduceIte, MetaEffect.mk.injEq] at ran
    obtain ⟨rfl, rfl, rfl⟩ := ran
    exact ⟨rfl, .inl ⟨null, rfl, rfl⟩⟩
  · simp only [null, ↓reduceIte] at ran
    generalize entry : w.sandbox.registryEntry p = found at ran
    obtain ⟨key, owner⟩ := found
    simp only [MetaEffect.mk.injEq] at ran
    obtain ⟨rfl, rfl, rfl⟩ := ran
    have freed : w.ledger.FreedAs p key owner := by
      unfold MetaSandbox.registryEntry at entry
      split at entry
      · rename_i own
        cases entry
        exact .own own
      · rename_i missing
        split at entry
        · rename_i tagged
          cases entry
          exact .unknown missing (by rw [tagWasm_eq_self tagged]; exact missing)
        · rename_i untagged
          split at entry
          · rename_i found
            cases entry
            exact .tagged missing untagged found
          · rename_i alsoMissing
            cases entry
            exact .unknown missing alsoMissing
    have scratch : w.sandbox.getStructScratch key = w.ledger.scratchAt key := by
      unfold MetaSandbox.getStructScratch Ledger.scratchAt MetaWorld.ledger
      cases w.sandbox.structAllocs.lookup key <;> rfl
    rw [scratch]
    exact ⟨rfl, .inr ⟨null, key, owner, freed, rfl, rfl⟩⟩

section Enter
variable {record : MetaSymbolRecord t D} {args : List (Arg t)} {s : MetaSandbox t D π}

theorem MetaSandbox.dispatch_snd (policy : MetaPolicyFn t D π) (record : MetaSymbolRecord t D)
    (args : List (Arg t)) (s : MetaSandbox t D π) : (s.dispatch policy record args).2 =
    { s with policyState := (policy s.policyState (s.invokeContext record)).2 } := by
  unfold dispatch
  dsimp only
  split
  · rfl
  · rfl
  · split <;> rfl

omit [Millis D] in
/-- Translation reads the struct and callback registries only. -/
theorem MetaSandbox.translateAll_policyState (state : π) :
    ({ s with policyState := state }).translateAll args = s.translateAll args := by
  induction args with
  | nil => rfl
  | cons a rest ih =>
    unfold translateAll
    rw [ih]
    rfl

omit [Millis D] in
theorem MetaSandbox.metaStructTranslator_calls {translator : StructTranslator} {val : TPointer t}
    {result : Except MetaAbort _} (ran : s.metaStructTranslator translator val = ⟨calls, result⟩) :
    ∀ c ∈ calls, ∃ translator val offset, c = .translate translator val offset := by
  unfold metaStructTranslator at ran
  dsimp only at ran
  split at ran
  · cases ran
    exact fun c inside => nomatch inside
  · cases ran
    intro c inside
    exact ⟨_, _, _, List.mem_singleton.mp inside⟩

omit [Millis D] in
/-- Translating an argument copies fields at most, whatever comes of it. -/
theorem MetaSandbox.translate_calls {a : Arg t} {result : Except MetaAbort _}
    (ran : s.translate a = ⟨calls, result⟩) :
    ∀ c ∈ calls, ∃ translator val offset, c = .translate translator val offset := by
  unfold translate at ran
  split at ran
  · cases ran
    exact fun c inside => nomatch inside
  · split at ran
    · cases ran
      exact fun c inside => nomatch inside
    · split at ran
      · split at ran <;> rename_i translated <;> cases ran <;>
          exact metaStructTranslator_calls translated
      · split at ran <;> cases ran <;> exact fun c inside => nomatch inside

omit [Millis D] in
theorem MetaSandbox.translateAll_calls {result : Except MetaAbort _}
    (ran : s.translateAll args = ⟨calls, result⟩) :
    ∀ c ∈ calls, ∃ translator val offset, c = .translate translator val offset := by
  induction args generalizing calls result with
  | nil =>
    cases ran
    exact fun c inside => nomatch inside
  | cons a rest ih =>
    unfold translateAll at ran
    split at ran
    · rename_i aborted
      cases ran
      exact translate_calls aborted
    · rename_i first
      have own := translate_calls first
      split at ran <;> rename_i later <;> cases ran <;> intro c inside <;>
        exact (List.mem_append.mp inside).elim (own c) (ih later c)

theorem execEnter_ok {symbol : String} {ret : Option CType}
    (ran : w.execEnter policy symbol ret args = some ⟨calls, returned, w'⟩) :
    returned = none ∧ ∃ b, Entered policy symbol ret args w b calls w' := by
  unfold MetaWorld.execEnter at ran
  split at ran
  · cases ran
  · rename_i record found
    split at ran
    · cases ran
    · rename_i made frame sandbox entered
      simp only [Option.some.injEq, MetaEffect.mk.injEq] at ran
      obtain ⟨rfl, rfl, rfl⟩ := ran
      refine ⟨rfl, ?_⟩
      unfold MetaSandbox.enterInvoke at entered
      split at entered
      · cases entered
      · rename_i after chosen
        have same := MetaSandbox.dispatch_snd policy record args w.sandbox
        rw [chosen] at same
        subst same
        rw [MetaSandbox.translateAll_policyState] at entered
        split at entered
        · cases entered
        · rename_i translated
          cases entered
          exact ⟨.wasm, .wasm found (by rw [chosen]) translated⟩
      · rename_i after chosen
        have same := MetaSandbox.dispatch_snd policy record args w.sandbox
        rw [chosen] at same
        subst same
        cases entered
        exact ⟨.process, .process found (by rw [chosen])⟩

theorem Entered.quiet {symbol : String} {ret : Option CType} {b : MetaBackend}
    (entered : Entered policy symbol ret args w b calls w') :
    w'.ledger = w.ledger ∧ Still calls := by
  cases entered with
  | process => exact ⟨rfl, fun _ => rfl⟩
  | wasm found chosen translated =>
    have copies := MetaSandbox.translateAll_calls translated
    refine ⟨rfl, Still.append (Still.of_each fun c inside h => ?_) fun _ => rfl⟩
    obtain ⟨translator, val, offset, rfl⟩ := copies c inside
    rfl

end Enter

omit [Millis D] in
/-- A return hands out the pointer its frame's backend answered with, and runs
the cleanups the frame kept. -/
theorem execLeave_ok {index : Nat} {answer : InvokeAnswer t} {elapsed : D}
    (ran : w.execLeave index answer elapsed = some ⟨calls, returned, w'⟩) :
    ∃ frame, w.frames[index]? = some frame ∧ calls = frame.structCleanups.map StructCleanup.call ∧
      returned = frame.handsOut answer ∧ w'.ledger = match frame.handsOut answer with
        | none => w.ledger
        | some p => w.ledger.handOut p frame.which := by
  unfold MetaWorld.execLeave at ran
  split at ran
  · cases ran
  · rename_i frame inFlight
    refine ⟨frame, inFlight, ?_⟩
    unfold MetaSandbox.returnInvoke MetaSandbox.returnValue at ran
    unfold InvokeFrame.handsOut
    rcases shape : frame.ret with _ | type
    · simp only [shape] at ran
      cases ran
      exact ⟨rfl, rfl, rfl⟩
    · by_cases pointer : type = .pointer
      · subst pointer
        simp only [shape, MetaSandbox.registerReturn] at ran
        cases side : frame.which with
        | wasm =>
          simp only [side] at ran
          by_cases null : answer.wasm = 0#32
          · simp only [null, ↓reduceIte] at ran ⊢
            cases ran
            exact ⟨rfl, rfl, rfl⟩
          · simp only [null, ↓reduceIte, tagWasm_ne_zero] at ran ⊢
            cases ran
            exact ⟨rfl, rfl, rfl⟩
        | process =>
          simp only [side] at ran
          by_cases null : answer.process = 0#t.ptrBits
          · simp only [null, ↓reduceIte] at ran ⊢
            cases ran
            exact ⟨rfl, rfl, rfl⟩
          · simp only [null, ↓reduceIte] at ran ⊢
            cases ran
            exact ⟨rfl, rfl, rfl⟩
      · cases type <;> first
          | exact absurd rfl pointer
          | (simp only [shape] at ran
             cases ran
             exact ⟨rfl, rfl, rfl⟩)

/-- Every operation the process survives is one ledger step. -/
theorem step_ledger (ran : w.exec policy op = some ⟨calls, returned, w'⟩) :
    LedgerStep w.ledger op calls returned w'.ledger := by
  cases op with
  | lookupSymbol processSym wasmSym funcName =>
    have same : (w.sandbox.implLookupSymbol processSym wasmSym funcName).allocOwner =
          w.sandbox.allocOwner ∧
        (w.sandbox.implLookupSymbol processSym wasmSym funcName).structAllocs =
          w.sandbox.structAllocs := by
      unfold MetaSandbox.implLookupSymbol
      split <;> exact ⟨rfl, rfl⟩
    cases ran
    simp only [MetaWorld.ledger, same]
    exact .quiet fun _ => rfl
  | registerStructType info =>
    cases ran
    exact .quiet fun _ => rfl
  | registerCallback procPtr wasmSlot key =>
    have same : (w.sandbox.implRegisterCallback procPtr wasmSlot key).2.allocOwner =
          w.sandbox.allocOwner ∧
        (w.sandbox.implRegisterCallback procPtr wasmSlot key).2.structAllocs =
          w.sandbox.structAllocs := by
      unfold MetaSandbox.implRegisterCallback
      split <;> exact ⟨rfl, rfl⟩
    cases ran
    simp only [MetaWorld.ledger, same]
    exact .quiet fun _ => rfl
  | unregisterCallback key =>
    have same : (w.sandbox.implUnregisterCallback key).allocOwner = w.sandbox.allocOwner ∧
        (w.sandbox.implUnregisterCallback key).structAllocs = w.sandbox.structAllocs := by
      unfold MetaSandbox.implUnregisterCallback
      split <;> exact ⟨rfl, rfl⟩
    cases ran
    simp only [MetaWorld.ledger, same]
    exact .quiet fun _ => rfl
  | setPinThreshold n =>
    cases ran
    exact .quiet fun _ => rfl
  | malloc size answers => exact (execMalloc_ok ran).1
  | free p =>
    obtain ⟨rfl, ⟨-, rfl, same⟩ | ⟨nonNull, key, owner, freed, rfl, after⟩⟩ :=
      execFree_ok (Option.some.inj ran)
    · rw [same]
      exact .quiet fun _ => rfl
    · rw [after]
      exact .free nonNull freed
  | enter symbol ret args =>
    obtain ⟨rfl, b, entered⟩ := execEnter_ok ran
    obtain ⟨same, still⟩ := entered.quiet
    rw [same]
    exact .quiet still
  | leave index answer elapsed =>
    obtain ⟨frame, -, rfl, rfl, after⟩ := execLeave_ok ran
    have still : Still (frame.structCleanups.map StructCleanup.call) := by
      refine Still.of_each fun c inside h => ?_
      obtain ⟨cleanup, -, rfl⟩ := List.mem_map.mp inside
      rfl
    rw [after]
    cases handed : frame.handsOut answer with
    | none => exact .quiet still
    | some p =>
      obtain ⟨nonNull, wasmTagged, answered, wasmAnswered⟩ := frame.handsOut_some handed
      exact .handOut nonNull still wasmTagged answered wasmAnswered

end Steps
end RlboxDynamic
