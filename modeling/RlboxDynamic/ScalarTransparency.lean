import RlboxDynamic.StructTranslation

/-! Which signatures keep their scalars out of the dispatch. Pointers are told
from integers by the converted C++ type, so an unsigned integer as wide as a
pointer is looked up, counted for ownership and stripped like one. -/
namespace RlboxDynamic
open Transition

variable {t : Target} {D π : Type} [Millis D] {policy : MetaPolicyFn t D π} {start : π}
  {w w' : MetaWorld t D π} {s : MetaSandbox t D π} {record : MetaSymbolRecord t D}
  {args args' : List (Arg t)} {signature : List CType}

/-- Two arguments of one type, with one value if that is a pointer. -/
def SamePointer (a b : Arg t) : Prop := a.type = b.type ∧ (a.type = .pointer → a.bits = b.bits)

/-- Argument lists of one signature that differ in scalars only. -/
def SamePointers (args args' : List (Arg t)) : Prop := List.Forall₂ SamePointer args args'

/-- Scalars of the signature never decide where an invoke goes or whether it
aborts, in any reachable state and under any policy. -/
def RouteBlind (t : Target) (signature : List CType) : Prop :=
  ∀ (D π : Type) [Millis D] (policy : MetaPolicyFn t D π) (start : π) (ops : List (MetaOp t D))
    (w : MetaWorld t D π), Run (MetaWorld.Step policy) (.initial start) ops w →
  ∀ (symbol : String) (record : MetaSymbolRecord t D) (ret : Option CType) (args args' : List (Arg t)),
    w.sandbox.symbolCache.lookup symbol = some record → args.map Arg.type = signature →
    SamePointers args args' →
    (w.sandbox.dispatch policy record args).1 = (w.sandbox.dispatch policy record args').1 ∧
      (w.exec policy (.enter symbol ret args)).isSome = (w.exec policy (.enter symbol ret args')).isSome

/-- Scalars of the signature reach the wasm callee as passed, at the width its
ABI has for their type. -/
def ScalarsArrive (t : Target) (signature : List CType) : Prop :=
  ∀ (D π : Type) [Millis D] (policy : MetaPolicyFn t D π) (start : π) (ops : List (MetaOp t D))
    (w : MetaWorld t D π), Run (MetaWorld.Step policy) (.initial start) ops w →
  ∀ (symbol : String) (ret : Option CType) (args : List (Arg t)) (calls : List (BackendCall t))
    (returned : Option (TPointer t)) (w' : MetaWorld t D π) (name : String) (params : List (BitVec 64)),
    args.map Arg.type = signature →
    w.exec policy (.enter symbol ret args) = some ⟨calls, returned, w'⟩ →
    .wasmInvoke name params ∈ calls →
    ∀ (i : Nat) (a : Arg t), args[i]? = some a → a.type ≠ .pointer →
      params[i]? = some (Arg.wasmParam a.type a.bits)

/-- Every parameter converted to `T_PointerType` is a pointer. -/
def NoPointerSizedScalar (t : Target) (signature : List CType) : Prop :=
  ∀ type ∈ signature, CType.IsTPointer t type → type = .pointer

section Blind

/-- An argument that is no pointer and has no pointer's type is not looked at. -/
theorem asTPointer_scalar (blind : NoPointerSizedScalar t signature) {a : Arg t}
    (inside : a.type ∈ signature) (scalar : a.type ≠ .pointer) : a.asTPointer = none :=
  if_neg fun same => scalar (blind _ inside same)

theorem asTPointer_same (blind : NoPointerSizedScalar t signature) {a b : Arg t}
    (inside : a.type ∈ signature) (same : SamePointer a b) : a.asTPointer = b.asTPointer := by
  obtain ⟨type, bits⟩ := same
  by_cases pointer : a.type = .pointer
  · unfold Arg.asTPointer
    rw [← type, bits pointer]
  · rw [asTPointer_scalar blind inside pointer,
      asTPointer_scalar blind (type ▸ inside) (type ▸ pointer)]

omit [Millis D] in
/-- The flags the arguments set do not depend on the scalars. -/
theorem inspect_same (blind : NoPointerSizedScalar t signature) (same : SamePointers args args')
    (inside : ∀ a ∈ args, a.type ∈ signature) (saw : SawPointers) :
    args.foldl s.inspect saw = args'.foldl s.inspect saw := by
  induction same generalizing saw with
  | nil => rfl
  | @cons a b rest rest' first _ ih =>
    have pointer := asTPointer_same blind (inside a List.mem_cons_self) first
    rw [List.foldl_cons, List.foldl_cons, ih fun c later => inside c (List.mem_cons_of_mem _ later)]
    have one : s.inspect saw a = s.inspect saw b := by
      unfold MetaSandbox.inspect
      rw [pointer]
    rw [one]

theorem dispatch_same (blind : NoPointerSizedScalar t signature) (same : SamePointers args args')
    (inside : ∀ a ∈ args, a.type ∈ signature) :
    (s.dispatch policy record args).1 = (s.dispatch policy record args').1 := by
  rw [MetaSandbox.dispatch_fst, MetaSandbox.dispatch_fst, inspect_same blind same inside]

/-- In a reachable state an invoke survives exactly when its dispatch does. -/
theorem enter_survives (owned : w.ledger.Owned) {symbol : String} {ret : Option CType}
    (known : w.sandbox.symbolCache.lookup symbol = some record) :
    (w.exec policy (.enter symbol ret args)).isSome ↔
      ∃ b, (w.sandbox.dispatch policy record args).1 = .ok b := by
  constructor
  · intro survives
    obtain ⟨⟨calls, returned, w'⟩, ran⟩ := Option.isSome_iff_exists.mp survives
    obtain ⟨-, b, entered⟩ := execEnter_ok ran
    cases entered with
    | process found chosen =>
      cases known.symm.trans found
      exact ⟨_, chosen⟩
    | wasm found chosen =>
      cases known.symm.trans found
      exact ⟨_, chosen⟩
  · rintro ⟨b, chosen⟩
    cases b with
    | wasm =>
      obtain ⟨calls, values, cleanups, translated⟩ :=
        MetaSandbox.translateAll_total (fun _ _ found => owned.structScratch found) args
      obtain ⟨w', ran, -⟩ := enter_on_wasm ret known chosen translated
      rw [ran]
      rfl
    | process =>
      cases dispatched : w.sandbox.dispatch policy record args with
      | mk choice after =>
        rw [dispatched] at chosen
        cases chosen
        simp only [MetaWorld.exec, MetaWorld.execEnter, known, MetaSandbox.enterInvoke, dispatched]
        rfl

omit [Millis D] in
/-- The value at a place is the translation of the argument there. -/
theorem translateAll_getElem {calls : List (BackendCall t)} {values : List (BitVec 64)}
    {cleanups : List (StructCleanup t)} (ran : s.translateAll args = ⟨calls, .ok (values, cleanups)⟩)
    {i : Nat} {a : Arg t} (place : args[i]? = some a) :
    ∃ own value cleanup, s.translate a = ⟨own, .ok (value, cleanup)⟩ ∧
      values[i]? = some (Arg.wasmParam a.type value) := by
  induction args generalizing calls values cleanups i with
  | nil => cases place
  | cons b rest ih =>
    unfold MetaSandbox.translateAll at ran
    split at ran
    · cases ran
    · rename_i first
      split at ran
      · cases ran
      · rename_i later
        cases ran
        cases i with
        | zero =>
          cases place
          exact ⟨_, _, _, first, rfl⟩
        | succ i => exact ih later place

end Blind

theorem routeBlind_of (blind : NoPointerSizedScalar t signature) : RouteBlind t signature := by
  intro D π _ policy start ops w run symbol record ret args args' known typed same
  have inside : ∀ a ∈ args, a.type ∈ signature := fun a member => by
    rw [← typed]
    exact List.mem_map.mpr ⟨a, member, rfl⟩
  have route : (w.sandbox.dispatch policy record args).1 = (w.sandbox.dispatch policy record args').1 :=
    dispatch_same blind same inside
  have owned := run_owned run
  refine ⟨route, ?_⟩
  rw [Bool.eq_iff_iff, enter_survives owned known, enter_survives owned known, route]

theorem scalarsArrive_of (blind : NoPointerSizedScalar t signature) : ScalarsArrive t signature := by
  intro D π _ policy start ops w run symbol ret args calls returned w' name params typed ran inside i a
    place scalar
  obtain ⟨-, b, entered⟩ := execEnter_ok ran
  cases entered with
  | process => cases List.mem_singleton.mp inside
  | wasm found chosen translated =>
    rcases List.mem_append.mp inside with copy | invoke
    · obtain ⟨translator, val, offset, same⟩ := MetaSandbox.translateAll_calls translated _ copy
      cases same
    · cases List.mem_singleton.mp invoke
      obtain ⟨own, value, cleanup, one, there⟩ := translateAll_getElem translated place
      have member : a.type ∈ signature := by
        rw [← typed]
        exact List.mem_map.mpr ⟨a, List.mem_of_getElem? place, rfl⟩
      have plain : w.sandbox.translate a = ⟨[], .ok (a.bits, none)⟩ := by
        unfold MetaSandbox.translate
        rw [asTPointer_scalar blind member scalar]
      rw [plain] at one
      cases one
      exact there

/-- Allocations on process, named invokes on wasm. -/
def allocOnProcess : MetaPolicyFn t D Unit := fun _ ctx =>
  (if ctx.funcName = none then .process else .wasm, ())

/-- A function both backends have, and a process block at address 4096. -/
def collisionOps (t : Target) : List (MetaOp t Int) :=
  [.lookupSymbol 1#t.ptrBits 1#t.ptrBits "f", .malloc 16#t.ptrBits ⟨0#32, 4096#t.ptrBits, 0#32⟩]

/-- The block is registered as process's, and the function is bound in wasm. -/
theorem collision_world (t : Target) : ∃ (w : MetaWorld t Int Unit) (record : MetaSymbolRecord t Int),
    Run (MetaWorld.Step allocOnProcess) (.initial ()) (collisionOps t) w ∧
    w.sandbox.symbolCache.lookup "f" = some record ∧ record.wasmSym ≠ 0#t.ptrBits ∧
    w.sandbox.ownerOf 4096#t.ptrBits = some .process := by
  cases t with
  | i386 => exact ⟨_, _, .cons ⟨_, _, rfl⟩ (.cons ⟨_, _, rfl⟩ .nil), rfl, by decide, by decide⟩
  | x86_64 => exact ⟨_, _, .cons ⟨_, _, rfl⟩ (.cons ⟨_, _, rfl⟩ .nil), rfl, by decide, by decide⟩

omit [Millis D] in
/-- An argument of value zero shows no owner. -/
theorem not_finds_zero {type : CType} {b : MetaBackend} : ¬ s.Finds ⟨type, 0#64⟩ b := by
  rintro ⟨p, pointer, nonNull, -⟩
  unfold Arg.asTPointer at pointer
  split at pointer
  · cases pointer
    exact nonNull (BitVec.setWidth_zero _ _)
  · cases pointer

/-- A pointer-sized scalar with the value of a live process address takes the
invoke to process; with the value zero it goes to wasm. -/
theorem noPointerSizedScalar_of (blind : RouteBlind t signature) : NoPointerSizedScalar t signature := by
  intro type inside same
  by_contra scalar
  obtain ⟨before, after, rfl⟩ := List.append_of_mem inside
  obtain ⟨w, record, run, known, bound, owner⟩ := collision_world t
  let zeros (types : List CType) : List (Arg t) := types.map fun type => ⟨type, 0#64⟩
  have typed : ∀ types, (zeros types).map Arg.type = types := fun types => by
    simp [zeros, Function.comp_def]
  have kept : ∀ types, SamePointers (zeros types) (zeros types) := fun types =>
    List.forall₂_same.mpr fun a _ => ⟨rfl, fun _ => rfl⟩
  let low : Arg t := ⟨type, 0#64⟩
  let high : Arg t := ⟨type, 4096#64⟩
  have agree : SamePointers (zeros before ++ low :: zeros after) (zeros before ++ high :: zeros after) :=
    List.rel_append (kept before) (.cons ⟨rfl, fun pointer => absurd pointer scalar⟩ (kept after))
  obtain ⟨route, -⟩ := blind Int Unit allocOnProcess () _ w run "f" record none _ _ known
    (by rw [List.map_append, List.map_cons, typed, typed]) agree
  have toWasm : (w.sandbox.dispatch allocOnProcess record (zeros before ++ low :: zeros after)).1 =
      .ok .wasm := by
    refine MetaSandbox.dispatch_pick rfl (fun _ => bound) fun a member b found => ?_
    have zero : ∃ type, a = ⟨type, 0#64⟩ := by
      rcases List.mem_append.mp member with front | back
      · obtain ⟨other, -, rfl⟩ := List.mem_map.mp front
        exact ⟨other, rfl⟩
      · rcases List.mem_cons.mp back with rfl | back
        · exact ⟨type, rfl⟩
        · obtain ⟨other, -, rfl⟩ := List.mem_map.mp back
          exact ⟨other, rfl⟩
    obtain ⟨type, rfl⟩ := zero
    exact absurd found not_finds_zero
  have process : w.sandbox.Finds high .process := by
    refine ⟨4096#t.ptrBits, ?_, by cases t <;> decide, owner⟩
    have value : (4096#64).setWidth t.ptrBits = 4096#t.ptrBits := by cases t <;> rfl
    rw [← value]
    exact if_pos same
  rw [toWasm] at route
  have wrong := MetaSandbox.dispatch_owner route.symm
    (List.mem_append_right _ List.mem_cons_self) process
  cases wrong

/-- A signature keeps its scalars out of the dispatch and delivers them as
passed exactly when none of them has the pointers' converted type. -/
theorem scalar_transparency_iff :
    RouteBlind t signature ∧ ScalarsArrive t signature ↔ NoPointerSizedScalar t signature :=
  ⟨fun both => noPointerSizedScalar_of both.1, fun blind => ⟨routeBlind_of blind, scalarsArrive_of blind⟩⟩

/-- On a 32-bit target the value of one `unsigned int` decides the backend. -/
theorem scalar_decides_route : ∃ (w : MetaWorld .i386 Int Unit) (record : MetaSymbolRecord .i386 Int),
    Run (MetaWorld.Step allocOnProcess) (.initial ()) (collisionOps .i386) w ∧
    w.sandbox.symbolCache.lookup "f" = some record ∧
    (w.sandbox.dispatch allocOnProcess record [⟨.uint, 0#64⟩]).1 = .ok .wasm ∧
    (w.sandbox.dispatch allocOnProcess record [⟨.uint, 4096#64⟩]).1 = .ok .process :=
  ⟨_, _, .cons ⟨_, _, rfl⟩ (.cons ⟨_, _, rfl⟩ .nil), rfl, rfl, rfl⟩

end RlboxDynamic
