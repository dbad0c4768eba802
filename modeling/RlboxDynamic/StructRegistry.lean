import RlboxDynamic.KeyedList
import RlboxDynamic.StructTranslation

/-! Which struct type an allocation is taken for. `struct_types` has the last
registration of each symbol; a malloc goes by the sizes in it, and what a live
allocation was taken for stays, whatever is registered later. -/
namespace RlboxDynamic
open KeyedList Transition

variable {t : Target} {D π : Type} [Millis D] {policy : MetaPolicyFn t D π} {start : π}

/-- The struct types registered, in order. -/
def registrations (ops : List (MetaOp t D)) : List (MetaStructTypeInfo t) :=
  ops.filterMap fun
    | .registerStructType info => some info
    | _ => none

/-- The registration is the last one of its symbol. -/
abbrev Registered (history : List (MetaStructTypeInfo t)) (info : MetaStructTypeInfo t) : Prop :=
  Last MetaStructTypeInfo.symbol history info

/-- The struct type that a block of the size is taken for: the one that has the
size now, or none where none has. -/
inductive TypeFor (history : List (MetaStructTypeInfo t)) (size : SizeT t) :
    Option (MetaStructTypeInfo t) → Prop where
  | one (registered : Registered history info) (fits : info.hostSize = size)
      (only : ∀ other, Registered history other → other.hostSize = size → other = info) :
      TypeFor history size (some info)
  | none (unfit : ∀ info, Registered history info → info.hostSize ≠ size) : TypeFor history size none

/-- Two symbols have the size now. -/
def Collides (history : List (MetaStructTypeInfo t)) (size : SizeT t) : Prop :=
  ∃ info other, Registered history info ∧ Registered history other ∧ info.symbol ≠ other.symbol ∧
    info.hostSize = size ∧ other.hostSize = size

omit [Millis D] in
theorem replaceStructType_eq (info : MetaStructTypeInfo t) (types : List (MetaStructTypeInfo t)) :
    MetaSandbox.replaceStructType info types = put MetaStructTypeInfo.symbol info types := by
  induction types with
  | nil => rfl
  | cons head rest ih => rw [MetaSandbox.replaceStructType, put, ih]

section Matches
variable {s : MetaSandbox t D π} {history : List (MetaStructTypeInfo t)} {size : SizeT t}
  {info : MetaStructTypeInfo t}

omit [Millis D] in
theorem mem_structMatches (tracks : Tracks MetaStructTypeInfo.symbol history s.structTypes) :
    info ∈ s.structMatches size ↔ Registered history info ∧ info.hostSize = size := by
  rw [MetaSandbox.structMatches, List.mem_filter, tracks.mem_iff, decide_eq_true_eq]

omit [Millis D] in
theorem typeFor_of_one (tracks : Tracks MetaStructTypeInfo.symbol history s.structTypes)
    (only : s.structMatches size = [info]) : TypeFor history size (some info) := by
  have mem : ∀ other, other = info ↔ Registered history other ∧ other.hostSize = size := by
    intro other
    rw [← mem_structMatches tracks, only, List.mem_singleton]
  obtain ⟨registered, fits⟩ := (mem info).mp rfl
  exact .one registered fits fun other also has => (mem other).mpr ⟨also, has⟩

omit [Millis D] in
theorem typeFor_of_none (tracks : Tracks MetaStructTypeInfo.symbol history s.structTypes)
    (empty : s.structMatches size = []) : TypeFor history size none := by
  refine .none fun info registered fits => ?_
  have inside := (mem_structMatches tracks).mpr ⟨registered, fits⟩
  rw [empty] at inside
  cases inside

omit [Millis D] in
theorem collides_iff (tracks : Tracks MetaStructTypeInfo.symbol history s.structTypes) :
    Collides history size ↔ ∃ first second rest, s.structMatches size = first :: second :: rest := by
  constructor
  · rintro ⟨info, other, registered, also, apart, fits, has⟩
    have left := (mem_structMatches tracks).mpr ⟨registered, fits⟩
    have right := (mem_structMatches tracks).mpr ⟨also, has⟩
    rcases found : s.structMatches size with _ | ⟨first, _ | ⟨second, rest⟩⟩
    · rw [found] at left
      cases left
    · rw [found] at left right
      cases List.mem_singleton.mp left
      cases List.mem_singleton.mp right
      exact absurd rfl apart
    · exact ⟨first, second, rest, rfl⟩
  · rintro ⟨first, second, rest, found⟩
    have distinct : ((s.structMatches size).map MetaStructTypeInfo.symbol).Nodup :=
      tracks.distinct.sublist (List.filter_sublist.map _)
    obtain ⟨registered, fits⟩ := (mem_structMatches tracks).mp (found ▸ List.mem_cons_self)
    obtain ⟨also, has⟩ := (mem_structMatches tracks).mp
      (found ▸ List.mem_cons_of_mem first List.mem_cons_self)
    rw [found, List.map_cons, List.map_cons, List.nodup_cons] at distinct
    refine ⟨first, second, registered, also, fun same => ?_, fits, has⟩
    exact distinct.1 (same ▸ List.mem_cons_self)

end Matches

/-! ## A malloc and the registry -/

/-- The chosen backend has a block for the malloc. -/
def Granted (answers : MallocAnswers t) : MetaBackend → Prop
  | .wasm => answers.wasm ≠ 0#32
  | .process => answers.process ≠ 0#t.ptrBits

section Malloc
variable {s s' : MetaSandbox t D π} {w w' : MetaWorld t D π} {answers : MallocAnswers t}
  {size : SizeT t} {choice : MetaBackend} {p : TPointer t} {calls : List (BackendCall t)}
  {returned : Option (TPointer t)} {history : List (MetaStructTypeInfo t)}

omit [Millis D] in
theorem publishAllocation_aborts : (∃ abort, (s.publishAllocation answers size p choice).result = .error abort) ↔
    ∃ first second rest, s.structMatches size = first :: second :: rest := by
  have same : (MetaSandbox.structMatches size
      ({ s with allocOwner := s.allocOwner.insert p choice } : MetaSandbox t D π)) = s.structMatches size := rfl
  unfold MetaSandbox.publishAllocation
  dsimp only
  rw [same]
  rcases s.structMatches size with _ | ⟨first, _ | ⟨second, rest⟩⟩
  · constructor
    · rintro ⟨_, other⟩
      cases other
    · rintro ⟨_, _, _, other⟩
      cases other
  · constructor
    · rintro ⟨_, other⟩
      dsimp only at other
      split at other
      · cases other
      · split at other <;> cases other
    · rintro ⟨_, _, _, other⟩
      cases other
  · exact ⟨fun _ => ⟨_, _, _, rfl⟩, fun _ => ⟨_, rfl⟩⟩

omit [Millis D] in
/-- A malloc aborts on a granted process block with the tag, and where a block was
granted of a size that two struct types have. -/
theorem mallocOn_aborts : (∃ abort, (s.mallocOn choice answers size).result = .error abort) ↔
    Granted answers choice ∧ (choice = .process ∧ Tagged answers.process ∨
      ∃ first second rest, s.structMatches size = first :: second :: rest) := by
  unfold MetaSandbox.mallocOn Granted
  cases choice with
  | wasm =>
    by_cases refused : answers.wasm = 0#32
    · simp [refused]
    · simp only [refused, ↓reduceIte, publishAllocation_aborts, ne_eq, not_false_eq_true, true_and,
        reduceCtorEq, false_and, false_or]
      rfl
  | process =>
    by_cases refused : answers.process = 0#t.ptrBits
    · simp [refused]
    · by_cases tagged : Tagged answers.process
      · simp [refused, tagged]
      · simp only [refused, tagged, ↓reduceIte, publishAllocation_aborts, ne_eq, not_false_eq_true,
          true_and, and_false, false_or]
        rfl

theorem execMalloc_aborts : w.execMalloc policy size answers = none ↔
    ∃ abort, (w.sandbox.implMallocInSandbox policy answers size).result = .error abort := by
  unfold MetaWorld.execMalloc
  rcases w.sandbox.implMallocInSandbox policy answers size with ⟨made, abort | ⟨p, sandbox⟩⟩
  · exact ⟨fun _ => ⟨abort, rfl⟩, fun _ => rfl⟩
  · dsimp only
    constructor
    · intro other
      split at other <;> cases other
    · rintro ⟨_, other⟩
      cases other

omit [Millis D] in
/-- The one struct type of the size, where a malloc of it went through. -/
theorem structMatches_of_ok (ran : s.mallocOn choice answers size = ⟨calls, .ok (p, s')⟩)
    (granted : Granted answers choice) : ∃ shape : Option (MetaStructTypeInfo t), s.structMatches size = shape.toList := by
  rcases found : s.structMatches size with _ | ⟨first, _ | ⟨second, rest⟩⟩
  · exact ⟨none, rfl⟩
  · exact ⟨some first, rfl⟩
  · obtain ⟨abort, aborts⟩ := mallocOn_aborts.mpr ⟨granted, .inr ⟨first, second, rest, found⟩⟩
    rw [ran] at aborts
    cases aborts

omit [Millis D] in
theorem structType_of_matches {shape : Option (MetaStructTypeInfo t)}
    (only : w.sandbox.structMatches size = shape.toList) : w.structType size = shape := by
  unfold MetaWorld.structType
  rw [only]
  cases shape <;> rfl

/-- A malloc leaves the registered types, and what it allocates has the one of
its size, if there is one. -/
structure Typed (w : MetaWorld t D π) (size : SizeT t) (w' : MetaWorld t D π) : Prop where
  types : w'.sandbox.structTypes = w.sandbox.structTypes
  live : w'.live = w.live ∨ ∃ k a, w'.live = w.live.insert k a ∧ a.size = size ∧
    w.sandbox.structMatches size = a.structType.toList

theorem execMalloc_typed (ran : w.execMalloc policy size answers = some ⟨calls, returned, w'⟩) :
    Typed w size w' := by
  unfold MetaWorld.execMalloc at ran
  cases outcome : w.sandbox.implMallocInSandbox policy answers size with
  | mk made result =>
    cases result with
    | error abort => simp [outcome] at ran
    | ok pair =>
      obtain ⟨p, sandbox⟩ := pair
      have malloced : MetaSandbox.Malloced (w.sandbox.mallocChoice policy size).2 answers size
        (w.sandbox.mallocChoice policy size).1 made p sandbox := MetaSandbox.mallocOn_ok outcome
      have shaped : Granted answers (w.sandbox.mallocChoice policy size).1 →
          ∃ shape : Option (MetaStructTypeInfo t), w.sandbox.structMatches size = shape.toList :=
        structMatches_of_ok (s := (w.sandbox.mallocChoice policy size).2) outcome
      -- the choice changes the policy's state only
      have stored : (w.sandbox.mallocChoice policy size).2.structTypes = w.sandbox.structTypes := rfl
      simp only [outcome] at ran
      generalize (w.sandbox.mallocChoice policy size).1 = choice at malloced shaped
      generalize (w.sandbox.mallocChoice policy size).2 = chosen at malloced stored
      have typed : ∀ {more : List (BackendCall t)} {q},
          MetaSandbox.Published chosen answers size q choice more sandbox → Granted answers choice →
          sandbox.structTypes = w.sandbox.structTypes ∧
            w.sandbox.structMatches size =
              (MetaWorld.structType { w with sandbox, heaps := w.heaps.applyAll made } size).toList := by
        intro more q published granted
        have types := published.types.trans stored
        obtain ⟨shape, only⟩ := shaped granted
        have after : sandbox.structMatches size = shape.toList := by
          rw [← only, MetaSandbox.structMatches, MetaSandbox.structMatches, types]
        exact ⟨types, by rw [structType_of_matches after]; exact only⟩
      cases malloced with
      | refusedWasm | refusedProcess =>
        simp only [LiveAlloc.ofCalls, ↓reduceIte, Option.some.injEq, MetaEffect.mk.injEq] at ran
        obtain ⟨-, -, rfl⟩ := ran
        exact ⟨stored, .inl rfl⟩
      | wasm granted published | process granted untagged published =>
        simp only [LiveAlloc.ofCalls, granted, ↓reduceIte, Option.some.injEq, MetaEffect.mk.injEq] at ran
        obtain ⟨-, -, rfl⟩ := ran
        obtain ⟨types, only⟩ := typed published granted
        exact ⟨types, .inr ⟨_, _, rfl, rfl, only⟩⟩

end Malloc

/-! ## Runs -/

/-- A step that the allocation outlives, or that makes it. -/
def KeepsLive (policy : MetaPolicyFn t D π) (k : TPointer t) (a : LiveAlloc t) (w : MetaWorld t D π)
    (op : MetaOp t D) (w' : MetaWorld t D π) : Prop :=
  MetaWorld.Step policy w op w' ∧ w'.live.lookup k = some a

/-- One malloc of the run made the allocation, which stayed ever since, for the
type that its size had then. -/
inductive TypedSince (policy : MetaPolicyFn t D π) (start : π) (k : TPointer t) (a : LiveAlloc t)
    (ops : List (MetaOp t D)) (w : MetaWorld t D π) : Prop where
  | made (before : Run (MetaWorld.Step policy) (.initial start) past v)
      (made : KeepsLive policy k a v (.malloc a.size answers) v') (after : Run (KeepsLive policy k a) v' since w)
      (split : ops = past ++ .malloc a.size answers :: since)
      (typed : TypeFor (registrations past) a.size a.structType) : TypedSince policy start k a ops w

/-- The registry is the history's, and so are the types of the live allocations. -/
structure Catalogued (policy : MetaPolicyFn t D π) (start : π) (ops : List (MetaOp t D))
    (w : MetaWorld t D π) : Prop where
  run : Run (MetaWorld.Step policy) (.initial start) ops w
  tracks : Tracks MetaStructTypeInfo.symbol (registrations ops) w.sandbox.structTypes
  live : ∀ k a, w.live.lookup k = some a → TypedSince policy start k a ops w

section Runs
variable {w w' : MetaWorld t D π} {ops : List (MetaOp t D)} {op : MetaOp t D} {calls : List (BackendCall t)}
  {returned : Option (TPointer t)} {a : LiveAlloc t} {k : TPointer t}

omit [Millis D] in
theorem registrations_snoc (quiet : ∀ info, op ≠ .registerStructType info) :
    registrations (ops ++ [op]) = registrations ops := by
  unfold registrations
  rw [List.filterMap_append]
  cases op with
  | registerStructType info => exact absurd rfl (quiet info)
  | _ => exact List.append_nil _

theorem TypedSince.snoc (since : TypedSince policy start k a ops w) (step : KeepsLive policy k a w op w') :
    TypedSince policy start k a (ops ++ [op]) w' := by
  obtain ⟨before, made, after, rfl, typed⟩ := since
  exact .made before made (after.snoc step) (by simp) typed

theorem catalogued_initial : Catalogued policy start [] (.initial start) where
  run := .nil
  tracks := tracks_nil
  live k a held := by cases held

omit [Millis D] in
theorem returnInvoke_structTypes (s : MetaSandbox t D π) (answer : InvokeAnswer t) (elapsed : D)
    (frame : InvokeFrame t) : (s.returnInvoke answer elapsed frame).2.2.structTypes = s.structTypes := by
  unfold MetaSandbox.returnInvoke MetaSandbox.returnValue MetaSandbox.registerReturn
  dsimp only
  split <;> (try split) <;> (try split) <;> rfl

omit [Millis D] in
theorem implFree_structTypes (s : MetaSandbox t D π) (p : TPointer t) :
    (s.implFreeInSandbox p).2.structTypes = s.structTypes := by
  unfold MetaSandbox.implFreeInSandbox
  split <;> rfl

theorem implLookupSymbol_structTypes (s : MetaSandbox t D π) (processSym wasmSym : TPointer t) (funcName : String) :
    (s.implLookupSymbol processSym wasmSym funcName).structTypes = s.structTypes := by
  unfold MetaSandbox.implLookupSymbol
  split <;> rfl

omit [Millis D] in
theorem implRegisterCallback_structTypes (s : MetaSandbox t D π) (procPtr key : TPointer t) (wasmSlot : WasmPointer) :
    (s.implRegisterCallback procPtr wasmSlot key).2.structTypes = s.structTypes := by
  unfold MetaSandbox.implRegisterCallback
  split <;> rfl

omit [Millis D] in
theorem implUnregisterCallback_structTypes (s : MetaSandbox t D π) (key : TPointer t) :
    (s.implUnregisterCallback key).structTypes = s.structTypes := by
  unfold MetaSandbox.implUnregisterCallback
  split <;> rfl

/-- Only a registration changes the registered types. -/
theorem step_structTypes (quiet : ∀ info, op ≠ .registerStructType info)
    (ran : w.exec policy op = some ⟨calls, returned, w'⟩) :
    w'.sandbox.structTypes = w.sandbox.structTypes := by
  cases op with
  | registerStructType info => exact absurd rfl (quiet info)
  | setPinThreshold n =>
    cases ran
    rfl
  | lookupSymbol processSym wasmSym funcName =>
    obtain ⟨-, -, rfl⟩ := MetaEffect.mk.inj (Option.some.inj ran)
    exact implLookupSymbol_structTypes ..
  | registerCallback procPtr wasmSlot key =>
    obtain ⟨-, -, rfl⟩ := MetaEffect.mk.inj (Option.some.inj ran)
    exact implRegisterCallback_structTypes ..
  | unregisterCallback key =>
    obtain ⟨-, -, rfl⟩ := MetaEffect.mk.inj (Option.some.inj ran)
    exact implUnregisterCallback_structTypes ..
  | malloc size answers => exact (execMalloc_typed ran).types
  | free p =>
    obtain ⟨-, -, rfl⟩ := MetaEffect.mk.inj (Option.some.inj ran)
    exact implFree_structTypes ..
  | enter symbol ret args =>
    obtain ⟨-, b, entered⟩ := execEnter_ok ran
    cases entered <;> rfl
  | leave index answer elapsed =>
    change w.execLeave index answer elapsed = _ at ran
    unfold MetaWorld.execLeave at ran
    split at ran
    · cases ran
    · rename_i frame inFlight
      dsimp only at ran
      have types := returnInvoke_structTypes w.sandbox answer elapsed frame
      split at ran
      · split at ran <;> obtain ⟨-, -, rfl⟩ := MetaEffect.mk.inj (Option.some.inj ran) <;> exact types
      · obtain ⟨-, -, rfl⟩ := MetaEffect.mk.inj (Option.some.inj ran)
        exact types

/-- Only a malloc adds a live allocation. -/
theorem step_live (other : ∀ size answers, op ≠ .malloc size answers)
    (ran : w.exec policy op = some ⟨calls, returned, w'⟩) {k : TPointer t}
    (held : w'.live.lookup k = some a) : w.live.lookup k = some a := by
  have taken := step_ledger ran
  have live : w'.live = w'.ledger.live := rfl
  rw [live] at held
  generalize w'.ledger = next at taken held
  cases taken with
  | quiet | handOut => exact held
  | allocate => exact absurd rfl (other _ _)
  | free =>
    change (w.live.erase _).lookup k = some a at held
    rw [KeyMap.lookup_erase] at held
    split at held
    · cases held
    · exact held

theorem step_catalogued (catalogued : Catalogued policy start ops w)
    (step : MetaWorld.Step policy w op w') : Catalogued policy start (ops ++ [op]) w' := by
  have run := catalogued.run.snoc step
  obtain ⟨calls, returned, ran⟩ := id step
  by_cases registers : ∃ info, op = .registerStructType info
  · obtain ⟨info, rfl⟩ := registers
    have history : registrations (ops ++ [.registerStructType info]) = registrations ops ++ [info] := by
      unfold registrations
      rw [List.filterMap_append]
      rfl
    cases ran
    refine ⟨run, ?_, fun k a held => (catalogued.live k a held).snoc ⟨step, held⟩⟩
    rw [history]
    change Tracks _ _ (MetaSandbox.replaceStructType info w.sandbox.structTypes)
    rw [replaceStructType_eq]
    exact catalogued.tracks.put info
  · have quiet : ∀ info, op ≠ .registerStructType info := fun info same => registers ⟨info, same⟩
    have tracks : Tracks MetaStructTypeInfo.symbol (registrations (ops ++ [op])) w'.sandbox.structTypes := by
      rw [registrations_snoc quiet, step_structTypes quiet ran]
      exact catalogued.tracks
    refine ⟨run, tracks, fun k a held => ?_⟩
    by_cases malloc : ∃ size answers, op = .malloc size answers
    · obtain ⟨size, answers, rfl⟩ := malloc
      rcases (execMalloc_typed ran).live with same | ⟨key, made, added, rfl, only⟩
      · exact (catalogued.live k a (same ▸ held)).snoc ⟨step, held⟩
      · have there := held
        rw [added, KeyMap.lookup_insert] at there
        split at there
        · cases there
          refine .made catalogued.run ⟨step, held⟩ .nil rfl ?_
          cases shape : a.structType with
          | none => exact typeFor_of_none catalogued.tracks (by rw [only, shape]; rfl)
          | some info => exact typeFor_of_one catalogued.tracks (by rw [only, shape]; rfl)
        · exact (catalogued.live k a there).snoc ⟨step, held⟩
    · have before := step_live (fun size answers same => malloc ⟨size, answers, same⟩) ran held
      exact (catalogued.live k a before).snoc ⟨step, held⟩

theorem run_catalogued (run : Run (MetaWorld.Step policy) (.initial start) ops w) :
    Catalogued policy start ops w :=
  run.recorded (Catalogued policy start) [] catalogued_initial fun _ _ _ _ => step_catalogued

/-- In every run, the registered types are the last of each symbol; a live
allocation has the type that its size had at its own malloc, whatever came
after, and its scratch is registered with that type's translator; and the next
malloc aborts exactly on a block of a size that two symbols have by now, or on a
process block with the tag. -/
theorem struct_type_of_allocation (run : Run (MetaWorld.Step policy) (.initial start) ops w) :
    (∀ info, info ∈ w.sandbox.structTypes ↔ Registered (registrations ops) info) ∧
    (∀ k a, w.live.lookup k = some a → TypedSince policy start k a ops w ∧
      (a.scratch ≠ 0#32 → w.sandbox.structAllocs.lookup k = some ⟨a.scratch, a.translator⟩)) ∧
    ∀ size answers, w.exec policy (.malloc size answers) = none ↔
      Granted answers (w.sandbox.mallocChoice policy size).1 ∧
        ((w.sandbox.mallocChoice policy size).1 = .process ∧ Tagged answers.process ∨
          Collides (registrations ops) size) := by
  have kept := run_catalogued run
  refine ⟨kept.tracks.mem_iff, fun k a held => ⟨kept.live k a held, (run_owned run).scratch held⟩,
    fun size answers => ?_⟩
  rw [collides_iff kept.tracks]
  exact execMalloc_aborts.trans mallocOn_aborts

end Runs

/-- A struct type that changed its size and met another of that size: the block
made before still has what it was made with, and no block is made of the new size. -/
theorem struct_type_of_allocation_resized : ∃ (w : MetaWorld .x86_64 Int Unit) (a : LiveAlloc .x86_64),
    w.live.lookup 0x8000000000000010#64 = some a ∧
      w.sandbox.structAllocs.lookup 0x8000000000000010#64 = some ⟨a.scratch, some ⟨"lib", "pair"⟩⟩ ∧
      Registered (registrations (D := Int)
        (structOps ++ [.registerStructType ⟨"lib:pair", 16#64, 8#64, none⟩,
          .registerStructType ⟨"lib:span", 16#64, 8#64, none⟩])) ⟨"lib:pair", 16#64, 8#64, none⟩ ∧
      Collides (registrations (D := Int)
        (structOps ++ [.registerStructType ⟨"lib:pair", 16#64, 8#64, none⟩,
          .registerStructType ⟨"lib:span", 16#64, 8#64, none⟩])) 16#64 := by
  have run : Run (MetaWorld.Step wasmPolicy) (.initial ())
      (structOps ++ [.registerStructType ⟨"lib:pair", 16#64, 8#64, none⟩,
        .registerStructType ⟨"lib:span", 16#64, 8#64, none⟩]) _ :=
    .cons ⟨_, _, rfl⟩ (.cons ⟨_, _, rfl⟩ (.cons ⟨_, _, rfl⟩ (.cons ⟨_, _, rfl⟩ (.cons ⟨_, _, rfl⟩ .nil))))
  obtain ⟨registry, live, aborts⟩ := struct_type_of_allocation run
  refine ⟨_, ⟨.wasm, 0x10#64, 8#64, some ⟨"lib:pair", 8#64, 4#64, some ⟨"lib", "pair"⟩⟩, 0x20#32⟩, rfl,
    (live _ _ rfl).2 (by decide), (registry _).mp (by decide), ?_⟩
  exact (((aborts 16#64 ⟨0x40#32, 0#64, 0#32⟩).mp rfl).2).resolve_left fun other => nomatch other.1

end RlboxDynamic
