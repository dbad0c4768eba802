import RlboxDynamic.AllocationRouting
import RlboxDynamic.Dispatch

/-! When an invoke on wasm replaces a struct argument by its scratch. The
struct registry is asked for the pointer as it was passed, so the untagged
spelling of a struct block misses its entry; and the scratch comes back tagged,
so a target whose narrowing keeps the tag passes a different offset on. -/
namespace RlboxDynamic
open Transition

variable {t : Target} {D π : Type} [Millis D] {policy : MetaPolicyFn t D π} {start : π}

namespace MetaSandbox
variable {s : MetaSandbox t D π} {a : Arg t} {own : List (BackendCall t)} {value : BitVec 64}
  {cleanup : Option (StructCleanup t)} {p : TPointer t}

/-- Every scratch on record is one the allocator gave. -/
def ScratchesGiven (s : MetaSandbox t D π) : Prop :=
  ∀ k info, s.structAllocs.lookup k = some info → info.wasmScratch ≠ 0#32

omit [Millis D] in
/-- An argument with a translator on record is replaced by the tagged scratch. -/
theorem translate_struct {info : MetaStructAllocInfo} {translator : StructTranslator}
    (pointer : a.asTPointer = some p) (nonNull : p ≠ 0#t.ptrBits)
    (found : s.structAllocs.lookup p = some info) (filled : info.translator = some translator)
    (given : info.wasmScratch ≠ 0#32) :
    s.translate a = ⟨[.translate translator p info.wasmScratch],
      .ok ((tagWasm (widen t info.wasmScratch)).setWidth 64,
        some ⟨translator, p, info.wasmScratch⟩)⟩ := by
  have known : s.allocTranslator p = some translator := by simp [allocTranslator, found, filled]
  have scratch : s.getStructScratch p = info.wasmScratch := by simp [getStructScratch, found]
  simp only [translate, pointer, nonNull, ↓reduceIte, known, metaStructTranslator, scratch, given]

omit [Millis D] in
/-- An argument without one runs no translator and leaves no cleanup. -/
theorem translate_plain (missing : ∀ p, a.asTPointer = some p → s.allocTranslator p = none) :
    ∃ value, s.translate a = ⟨[], .ok (value, none)⟩ := by
  unfold translate
  cases pointer : a.asTPointer with
  | none => exact ⟨_, rfl⟩
  | some p =>
    dsimp only
    rw [missing p pointer]
    split
    · exact ⟨_, rfl⟩
    · dsimp only
      split <;> exact ⟨_, rfl⟩

omit [Millis D] in
/-- With every scratch given, no translator aborts. -/
theorem translate_total (given : s.ScratchesGiven) (a : Arg t) :
    ∃ own value cleanup, s.translate a = ⟨own, .ok (value, cleanup)⟩ := by
  by_cases known : ∃ p, a.asTPointer = some p ∧ p ≠ 0#t.ptrBits ∧ s.allocTranslator p ≠ none
  · obtain ⟨p, pointer, nonNull, known⟩ := known
    obtain ⟨translator, known⟩ := Option.ne_none_iff_exists'.mp known
    obtain ⟨info, found, filled⟩ := Option.bind_eq_some_iff.mp known
    exact ⟨_, _, _, translate_struct pointer nonNull found filled (given p info found)⟩
  · by_cases null : a.asTPointer = some (0#t.ptrBits)
    · exact ⟨[], (tagStrip (0#t.ptrBits)).setWidth 64, none, by simp [translate, null]⟩
    · obtain ⟨value, plain⟩ := translate_plain (s := s) (a := a) fun p pointer => by
        by_contra held
        refine known ⟨p, pointer, ?_, held⟩
        rintro rfl
        exact null pointer
      exact ⟨_, _, _, plain⟩

omit [Millis D] in
theorem translateAll_total (given : s.ScratchesGiven) (args : List (Arg t)) :
    ∃ calls values cleanups, s.translateAll args = ⟨calls, .ok (values, cleanups)⟩ := by
  induction args with
  | nil => exact ⟨_, _, _, rfl⟩
  | cons a rest ih =>
    obtain ⟨own, value, cleanup, first⟩ := translate_total given a
    obtain ⟨more, values, cleanups, later⟩ := ih
    refine ⟨own ++ more, Arg.wasmParam a.type value :: values, cleanup.toList ++ cleanups, ?_⟩
    simp only [translateAll, first, later]

omit [Millis D] in
/-- Each argument is translated on its own: its copies, its value and its
cleanup stand at its place among those of the others. -/
theorem translateAll_at (given : s.ScratchesGiven) (before after : List (Arg t))
    (own : s.translate a = ⟨calls, .ok (value, cleanup)⟩) :
    ∃ pre post values values' kept kept', values.length = before.length ∧
      s.translateAll (before ++ a :: after) = ⟨pre ++ calls ++ post,
        .ok (values ++ Arg.wasmParam a.type value :: values', kept ++ cleanup.toList ++ kept')⟩ := by
  induction before with
  | nil =>
    obtain ⟨post, values', kept', later⟩ := translateAll_total given after
    refine ⟨[], post, [], values', [], kept', rfl, ?_⟩
    simp only [List.nil_append, translateAll, own, later]
  | cons b before ih =>
    obtain ⟨pre, post, values, values', kept, kept', length, later⟩ := ih
    obtain ⟨first, value', cleanup', ran⟩ := translate_total given b
    refine ⟨first ++ pre, post, Arg.wasmParam b.type value' :: values, values', cleanup'.toList ++ kept, kept', ?_, ?_⟩
    · rw [List.length_cons, List.length_cons, length]
    · simp only [List.cons_append, translateAll, ran, later, List.append_assoc]

end MetaSandbox

/-- A step over allocators that keep their contract. -/
def ContractStep (policy : MetaPolicyFn t D π) (w : MetaWorld t D π) (op : MetaOp t D)
    (w' : MetaWorld t D π) : Prop :=
  ∃ calls returned, w.exec policy op = some ⟨calls, returned, w'⟩ ∧ w.heaps.Allows calls

section Runs
variable {w w' : MetaWorld t D π} {op : MetaOp t D} {ops : List (MetaOp t D)}

/-- No allocation's scratch is its own block. -/
def ScratchesApart (w : MetaWorld t D π) : Prop :=
  ∀ k a, w.live.lookup k = some a → (a.blocks.map Prod.fst).Nodup

theorem step_apart (apart : ScratchesApart w) (step : ContractStep policy w op w') :
    ScratchesApart w' := by
  obtain ⟨calls, returned, ran, allowed⟩ := step
  have taken := step_ledger ran
  have live : w'.live = w'.ledger.live := rfl
  unfold ScratchesApart
  rw [live]
  generalize w'.ledger = next at taken
  cases taken with
  | quiet => exact apart
  | allocate a checked answered scratchAnswered refused =>
    obtain ⟨-, -, distinct⟩ :=
      Heaps.blockAt_grants checked.obtain_granted (Heaps.allows_of_append allowed)
    intro k b held
    rcases Ledger.lookup_allocate held with ⟨-, rfl⟩ | ⟨-, held⟩
    · exact distinct
    · exact apart k b held
  | free nonNull freed =>
    intro k b held
    change (w.live.erase _).lookup k = some b at held
    rw [KeyMap.lookup_erase] at held
    split at held
    · cases held
    · exact apart k b held
  | handOut => exact apart

theorem run_apart (run : Run (ContractStep policy) (.initial start) ops w) :
    w.ledger.Owned ∧ ScratchesApart w := by
  refine ⟨run_owned (run.mono fun _ _ _ ⟨calls, returned, ran, _⟩ => ⟨calls, returned, ran⟩), ?_⟩
  refine run.invariant (fun k a held => ?_) fun _ _ _ apart step => step_apart apart step
  cases held

omit [Millis D] in
theorem scratch_ne_block (apart : ScratchesApart w) {k : TPointer t} {a : LiveAlloc t}
    (held : w.live.lookup k = some a) (checked : a.Checked) (wasm : a.owner = .wasm)
    (given : a.scratch ≠ 0#32) : a.scratch ≠ narrow a.base := by
  have distinct := apart k a held
  obtain ⟨info, shape⟩ := Option.ne_none_iff_exists'.mp (checked.scratchTyped given)
  intro same
  rw [same] at given
  simp [LiveAlloc.blocks, wasm, shape, given, same] at distinct

/-- An invoke dispatched to wasm makes its copies, then the call, and keeps the
cleanups. -/
theorem enter_on_wasm {symbol : String} (ret : Option CType) {record : MetaSymbolRecord t D}
    {args : List (Arg t)} {calls : List (BackendCall t)} {values : List (BitVec 64)}
    {cleanups : List (StructCleanup t)} (found : w.sandbox.symbolCache.lookup symbol = some record)
    (onWasm : (w.sandbox.dispatch policy record args).1 = .ok .wasm)
    (translated : w.sandbox.translateAll args = ⟨calls, .ok (values, cleanups)⟩) :
    ∃ w', w.exec policy (.enter symbol ret args) =
        some ⟨calls ++ [.wasmInvoke record.name values], none, w'⟩ ∧
      w'.frames = w.frames ++ [⟨record.name, .wasm, ret, cleanups, w.sandbox.pinThreshold⟩] := by
  cases dispatched : w.sandbox.dispatch policy record args with
  | mk choice after =>
    have state := MetaSandbox.dispatch_snd policy record args w.sandbox
    rw [dispatched] at onWasm state
    dsimp only at onWasm state
    subst onWasm state
    refine ⟨{ w with
      sandbox := { w.sandbox with
        policyState := (policy w.sandbox.policyState (w.sandbox.invokeContext record)).2
        invokesOnWasm := w.sandbox.invokesOnWasm + 1 }
      frames := w.frames ++ [⟨record.name, .wasm, ret, cleanups, w.sandbox.pinThreshold⟩] }, ?_, rfl⟩
    simp only [MetaWorld.exec, MetaWorld.execEnter, found, MetaSandbox.enterInvoke, dispatched,
      MetaSandbox.translateAll_policyState, translated]

/-- The cleanups kept by an invoke are what its return runs, whatever happened
to the sandbox in between. -/
theorem leave_cleans_up {index : Nat} {frame : InvokeFrame t} (answer : InvokeAnswer t) (elapsed : D)
    (inFlight : w.frames[index]? = some frame) :
    ∃ returned w', w.exec policy (.leave index answer elapsed) =
      some ⟨frame.structCleanups.map StructCleanup.call, returned, w'⟩ := by
  simp only [MetaWorld.exec, MetaWorld.execLeave, inFlight, MetaSandbox.returnInvoke]
  split
  · split <;> exact ⟨_, _, rfl⟩
  · exact ⟨_, _, rfl⟩

/-- A struct argument passed as intended: its translator ran and its cleanup is
kept, both for the block it denotes, and the callee gets the scratch, which is
not the block. -/
def PassesScratch (k : TPointer t) (a : LiveAlloc t) (own : List (BackendCall t)) (param : BitVec 64)
    (cleanup : Option (StructCleanup t)) : Prop :=
  ∃ translator, a.translator = some translator ∧ own = [.translate translator k a.scratch] ∧
    cleanup = some ⟨translator, k, a.scratch⟩ ∧ param = a.scratch.setWidth 64 ∧
    param ≠ (narrow a.base).setWidth 64

/-- The exact condition: the tagged spelling, a scratch and a translator on
record, and a narrowing that takes the scratch's tag off. -/
def ScratchReaches (k : TPointer t) (a : LiveAlloc t) (arg : Arg t) : Prop :=
  arg.asTPointer = some k ∧ a.scratch ≠ 0#32 ∧ a.translator ≠ none ∧
    (t = .x86_64 ∨ Tagged (widen t a.scratch))

section Argument
variable {k : TPointer t} {a : LiveAlloc t} {arg : Arg t} {own : List (BackendCall t)}
  {value : BitVec 64} {cleanup : Option (StructCleanup t)}

theorem wasmParam_pointer {p : TPointer t} :
    Arg.wasmParam .pointer (p.setWidth 64) = (narrow p).setWidth 64 := by
  have wide : 32 ≤ 64 := by omega
  unfold Arg.wasmParam narrow CType.wasmBits
  rw [BitVec.setWidth_setWidth_of_le p wide]

omit [Millis D] in
/-- A pointer that has an entry in the struct registry and goes to wasm is the
tagged key of a wasm allocation. -/
theorem tagged_of_wasm {args : List (Arg t)} (owned : w.ledger.Owned) (inside : arg ∈ args)
    (onWasm : ∀ c ∈ args, ∀ owner, w.sandbox.Finds c owner → owner = .wasm)
    {p : TPointer t} (pointer : arg.asTPointer = some p) (nonNull : p ≠ 0#t.ptrBits)
    {owner : MetaBackend} (recorded : w.sandbox.allocOwner.lookup p = some owner) : Tagged p := by
  by_contra clear
  have found : w.sandbox.Finds arg owner := ⟨p, pointer, nonNull, by
    unfold MetaSandbox.ownerOf
    rw [recorded]⟩
  have wasm := onWasm arg inside owner found
  have process := owned.untagged recorded clear
  rw [wasm] at process
  cases process

omit [Millis D] in
theorem passesScratch_iff {args : List (Arg t)} (owned : w.ledger.Owned) (apart : ScratchesApart w)
    (inside : arg ∈ args) (onWasm : ∀ c ∈ args, ∀ owner, w.sandbox.Finds c owner → owner = .wasm)
    (denotes : w.Denotes arg k a) (ran : w.sandbox.translate arg = ⟨own, .ok (value, cleanup)⟩) :
    PassesScratch k a own (Arg.wasmParam .pointer value) cleanup ↔ ScratchReaches k a arg := by
  obtain ⟨held, p, pointer, nonNull, spells⟩ := denotes
  have checked := owned.checked held
  constructor
  · rintro ⟨translator, filled, made, kept, passed, -⟩
    -- a translator ran, so the pointer as passed has an entry, and is tagged
    have known : w.sandbox.allocTranslator p ≠ none := by
      intro none
      obtain ⟨plain, ran'⟩ := MetaSandbox.translate_plain (s := w.sandbox) (a := arg) fun q same => by
        rw [pointer] at same
        cases same
        exact none
      rw [ran'] at ran
      cases ran
      cases made
    obtain ⟨other, known⟩ := Option.ne_none_iff_exists'.mp known
    obtain ⟨info, found, filled'⟩ := Option.bind_eq_some_iff.mp known
    have given := owned.structScratch found
    obtain ⟨owner, recorded⟩ := owned.structKeys found
    have tagged := tagged_of_wasm owned inside onWasm pointer nonNull recorded
    have key : p = k := by
      rcases spells with same | stripped
      · exact same
      · rw [stripped] at tagged
        exact absurd tagged not_tagged_tagStrip
    subst key
    rw [MetaSandbox.translate_struct pointer nonNull found filled' given] at ran
    cases ran
    obtain ⟨-, scratch⟩ : other = translator ∧ info.wasmScratch = a.scratch := by simpa using made
    rw [scratch] at given passed
    refine ⟨pointer, given, by rw [filled]; exact Option.some_ne_none _, ?_⟩
    rw [wasmParam_pointer] at passed
    exact narrow_tagWasm_widen.mp (widen_injective (t := .x86_64) passed)
  · rintro ⟨direct, given, filled, narrows⟩
    rw [pointer] at direct
    cases direct
    obtain ⟨translator, filled⟩ := Option.ne_none_iff_exists'.mp filled
    have found : w.sandbox.structAllocs.lookup k = some ⟨a.scratch, a.translator⟩ :=
      owned.scratch held given
    rw [MetaSandbox.translate_struct pointer nonNull found filled given] at ran
    cases ran
    have passed : Arg.wasmParam .pointer ((tagWasm (widen t a.scratch)).setWidth 64) =
        a.scratch.setWidth 64 := by
      rw [wasmParam_pointer, narrow_tagWasm_widen.mpr narrows]
    refine ⟨translator, filled, rfl, rfl, passed, ?_⟩
    rw [passed]
    intro same
    have tagged := tagged_of_wasm owned inside onWasm pointer nonNull (owned.owners held)
    have wasm := (owned.tagged_iff_wasm held).mp tagged
    exact scratch_ne_block apart held checked wasm given (widen_injective (t := .x86_64) same)

end Argument

/-- For every run over contract-keeping allocators and every invoke dispatched
to wasm: the invoke makes its call after all the copies, its return runs the
cleanups it kept, and a pointer argument that denotes a live struct allocation
is passed as its scratch exactly when `ScratchReaches` holds of it. -/
theorem struct_argument_iff (run : Run (ContractStep policy) (.initial start) ops w) (symbol : String)
    (ret : Option CType) (before after : List (Arg t)) (arg : Arg t) {record : MetaSymbolRecord t D}
    {k : TPointer t} {a : LiveAlloc t} (found : w.sandbox.symbolCache.lookup symbol = some record)
    (onWasm : (w.sandbox.dispatch policy record (before ++ arg :: after)).1 = .ok .wasm)
    (pointer : arg.type = .pointer) (denotes : w.Denotes arg k a) :
    ∃ own value cleanup pre post values values' kept kept' w' frame,
      w.sandbox.translate arg = ⟨own, .ok (value, cleanup)⟩ ∧ values.length = before.length ∧
      w.exec policy (.enter symbol ret (before ++ arg :: after)) =
        some ⟨pre ++ own ++ post ++ [.wasmInvoke record.name
          (values ++ Arg.wasmParam .pointer value :: values')], none, w'⟩ ∧
      w'.frames = w.frames ++ [frame] ∧ frame.structCleanups = kept ++ cleanup.toList ++ kept' ∧
      (∀ (v : MetaWorld t D π) index answer elapsed, v.frames[index]? = some frame →
        ∃ returned v', v.exec policy (.leave index answer elapsed) =
          some ⟨frame.structCleanups.map StructCleanup.call, returned, v'⟩) ∧
      (PassesScratch k a own (Arg.wasmParam .pointer value) cleanup ↔ ScratchReaches k a arg) := by
  obtain ⟨owned, apart⟩ := run_apart run
  have given : w.sandbox.ScratchesGiven := fun _ _ found => owned.structScratch found
  obtain ⟨own, value, cleanup, ran⟩ := MetaSandbox.translate_total given arg
  obtain ⟨pre, post, values, values', kept, kept', length, all⟩ :=
    MetaSandbox.translateAll_at given before after ran
  obtain ⟨w', entered, frames⟩ := enter_on_wasm ret found onWasm all
  rw [pointer] at entered
  refine ⟨own, value, cleanup, pre, post, values, values', kept, kept', w', _, ran, length, entered,
    frames, rfl, fun v index answer elapsed inFlight => leave_cleans_up answer elapsed inFlight, ?_⟩
  have inside : arg ∈ before ++ arg :: after := List.mem_append_right _ List.mem_cons_self
  refine passesScratch_iff owned apart inside ?_ denotes ran
  exact fun c inside owner seen => MetaSandbox.dispatch_owner onWasm inside seen

end Runs
/-- Everything on wasm. -/
def wasmPolicy : MetaPolicyFn t D Unit := fun _ _ => (.wasm, ())

/-- One struct type, a symbol both backends have, and a struct block at offset
16 with its scratch at 32. -/
def structOps : List (MetaOp .x86_64 Int) :=
  [.registerStructType ⟨"lib:pair", 8#64, 4#64, some ⟨"lib", "pair"⟩⟩,
    .lookupSymbol 0x401000#64 1#64 "area", .malloc 8#64 ⟨0x10#32, 0#64, 0x20#32⟩]

theorem struct_argument_iff_tagged : ∃ (w : MetaWorld .x86_64 Int Unit) (a : LiveAlloc .x86_64)
    (own : List (BackendCall .x86_64)) (param : BitVec 64) (cleanup : Option (StructCleanup .x86_64)),
    Run (ContractStep wasmPolicy) (.initial ()) structOps w ∧
    w.live.lookup 0x8000000000000010#64 = some a ∧
    PassesScratch 0x8000000000000010#64 a own param cleanup := by
  have run : Run (ContractStep wasmPolicy) (.initial ()) structOps _ :=
    .cons ⟨_, _, rfl, trivial⟩ (.cons ⟨_, _, rfl, trivial⟩ (.cons ⟨_, _, rfl, by decide⟩ .nil))
  obtain ⟨own, value, cleanup, -, -, -, -, -, -, -, -, -, -, -, -, -, -, iff⟩ :=
    struct_argument_iff run "area" none [] [] (Arg.pointer 0x8000000000000010#64)
      (a := ⟨.wasm, 0x10#64, 8#64, some ⟨"lib:pair", 8#64, 4#64, some ⟨"lib", "pair"⟩⟩, 0x20#32⟩)
      rfl rfl rfl ⟨by decide, _, rfl, by decide, .inl rfl⟩
  exact ⟨_, _, own, _, cleanup, run, by decide, iff.mpr ⟨rfl, by simp, by decide, .inl rfl⟩⟩

/-- The untagged spelling of a struct block goes to the wasm callee as it is:
no translator runs, and the callee gets the block itself. -/
theorem struct_argument_untagged_bypasses : ∃ (w w' : MetaWorld .x86_64 Int Unit),
    Run (RoutedStep 0x10000 wasmPolicy) (.initial ()) structOps w ∧
    w.live.lookup 0x8000000000000010#64 = some
      ⟨.wasm, 0x10#64, 8#64, some ⟨"lib:pair", 8#64, 4#64, some ⟨"lib", "pair"⟩⟩, 0x20#32⟩ ∧
    tagStrip (t := .x86_64) 0x8000000000000010#64 = 0x10#64 ∧
    w.exec wasmPolicy (.enter "area" none [Arg.pointer 0x10#64]) =
      some ⟨[.wasmInvoke "area" [0x10#64]], none, w'⟩ :=
  ⟨_, _, .cons ⟨_, _, rfl, trivial, trivial, trivial⟩ (.cons ⟨_, _, rfl, trivial, trivial, trivial⟩
    (.cons ⟨_, _, rfl, by decide, by decide, trivial⟩ .nil)), by decide, by decide, rfl⟩

end RlboxDynamic
