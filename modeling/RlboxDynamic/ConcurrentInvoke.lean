import RlboxDynamic.ConcurrentReads
import RlboxDynamic.CopyBrackets

/-! An invoke beside threads that allocate and free. It takes `alloc_mutex` once for
each argument it inspects and twice for each struct it translates, so the others go
on in between; while they spare its arguments, it enters the backend, with the
copies and the values, that it would have in one step. -/
namespace RlboxDynamic
open Transition

/-! ## The steps of an invoke -/

/-- What `translate` has made of the arguments so far. -/
structure Translated (t : Target) where
  calls : List (BackendCall t)
  values : List (BitVec 64)
  cleanups : List (StructCleanup t)

namespace Translated
variable {t : Target}

def start : Translated t := ⟨[], [], []⟩

/-- An argument with its value for the callee. -/
def pass (d : Translated t) (a : Arg t) (value : BitVec 64) : Translated t :=
  { d with values := d.values ++ [Arg.wasmParam a.type value] }

/-- A struct copied into its scratch. -/
def copy (d : Translated t) (a : Arg t) (c : StructCleanup t) : Translated t where
  calls := d.calls ++ [.translate c.translator c.hostPtr c.scratch]
  values := d.values ++ [Arg.wasmParam a.type ((tagWasm (widen t c.scratch)).setWidth 64)]
  cleanups := d.cleanups ++ [c]

end Translated

/-- Where an invoke is on its way to the backend call. -/
inductive InvokePlace (t : Target) where
  | inspecting (saw : SawPointers) (rest : List (Arg t))
  | translating (done : Translated t) (rest : List (Arg t))
  /-- The argument has a translator, which asks for its scratch. -/
  | scratching (done : Translated t) (translator : StructTranslator) (a : Arg t) (val : TPointer t)
      (rest : List (Arg t))
  /-- The argument has none, and is looked up among the callbacks. -/
  | rewriting (done : Translated t) (a : Arg t) (val : TPointer t) (rest : List (Arg t))
  | calling (which : MetaBackend) (done : Translated t)
  | aborted (abort : MetaAbort) (calls : List (BackendCall t))

section
variable {t : Target} {D π : Type}

/-- The closures kept so far. -/
def InvokePlace.cleanups : InvokePlace t → List (StructCleanup t)
  | .translating d _ | .scratching d _ _ _ _ | .rewriting d _ _ _ | .calling _ d => d.cleanups
  | .inspecting _ _ | .aborted _ _ => []

/-- From one look into a registry to the next. The policy has chosen before. -/
def InvokePlace.next (choice : MetaBackend) (record : MetaSymbolRecord t D) (args : List (Arg t))
    (s : MetaSandbox t D π) : InvokePlace t → Option (InvokePlace t)
  | .inspecting saw (a :: rest) => some (.inspecting (s.inspect saw a) rest)
  | .inspecting saw [] =>
    match MetaSandbox.overrideChoice saw choice with
    | .error abort => some (.aborted abort [])
    | .ok .process => some (.calling .process { Translated.start with values := args.map Arg.bits })
    | .ok .wasm =>
      if record.wasmSym = 0#t.ptrBits then some (.aborted .noWasmBinding [])
      else some (.translating .start args)
  | .translating done [] => some (.calling .wasm done)
  | .translating done (a :: rest) =>
    match a.asTPointer with
    | none => some (.translating (done.pass a a.bits) rest)
    | some val =>
      if val = 0#t.ptrBits then some (.translating (done.pass a ((tagStrip val).setWidth 64)) rest)
      else
        match s.allocTranslator val with
        | some translator => some (.scratching done translator a val rest)
        | none => some (.rewriting done a val rest)
  | .scratching done translator a val rest =>
    let wasmOffset := s.getStructScratch val
    if wasmOffset = 0#32 then some (.aborted (.noStructScratch translator) done.calls)
    else some (.translating (done.copy a ⟨translator, val, wasmOffset⟩) rest)
  | .rewriting done a val rest =>
    match s.callbackRegistry.lookup val with
    | some record => some (.translating (done.pass a ((widen t record.wasmSlot).setWidth 64)) rest)
    | none => some (.translating (done.pass a ((tagStrip val).setWidth 64)) rest)
  | .calling _ _ | .aborted _ _ => none

end

/-! ## The same in one step -/

namespace MetaSandbox
variable {t : Target} {D π : Type} {s : MetaSandbox t D π} {args : List (Arg t)} {a : Arg t}
  {calls own : List (BackendCall t)} {values : List (BitVec 64)} {cleanups : List (StructCleanup t)}
  {value : BitVec 64} {cleanup : Option (StructCleanup t)} {abort : MetaAbort}

/-- One more argument after those that are translated. -/
theorem translateAll_snoc (first : s.translateAll args = ⟨calls, .ok (values, cleanups)⟩)
    (last : s.translate a = ⟨own, .ok (value, cleanup)⟩) :
    s.translateAll (args ++ [a]) = ⟨calls ++ own,
      .ok (values ++ [Arg.wasmParam a.type value], cleanups ++ cleanup.toList)⟩ := by
  induction args generalizing calls values cleanups with
  | nil =>
    cases first
    simp only [List.nil_append, translateAll, last, List.append_nil]
  | cons b rest ih =>
    unfold translateAll at first
    split at first
    · cases first
    · rename_i head
      split at first
      · cases first
      · rename_i tail
        cases first
        simp only [List.cons_append, translateAll, head, ih tail, List.append_assoc]

theorem translateAll_aborts (first : s.translateAll args = ⟨calls, .ok (values, cleanups)⟩)
    (last : s.translate a = ⟨own, .error abort⟩) (rest : List (Arg t)) :
    s.translateAll (args ++ a :: rest) = ⟨calls ++ own, .error abort⟩ := by
  induction args generalizing calls values cleanups with
  | nil =>
    cases first
    simp only [List.nil_append, translateAll, last]
  | cons b others ih =>
    unfold translateAll at first
    split at first
    · cases first
    · rename_i head
      split at first
      · cases first
      · rename_i tail
        cases first
        simp only [List.cons_append, translateAll, head, ih tail, List.append_assoc]

/-! What an invoke does, by where it is dispatched. -/

section
variable [Millis D] {policy : MetaPolicyFn t D π} {record : MetaSymbolRecord t D} (ret : Option CType)

theorem enterInvoke_aborts (aborts : (s.dispatch policy record args).1 = .error abort) :
    s.enterInvoke policy record ret args = ⟨[], .error abort⟩ := by
  unfold enterInvoke
  cases dispatched : s.dispatch policy record args with
  | mk chosen after =>
    rw [dispatched] at aborts
    dsimp only at aborts
    subst aborts
    rfl

theorem enterInvoke_process (onProcess : (s.dispatch policy record args).1 = .ok .process) :
    ∃ frame after, s.enterInvoke policy record ret args =
      ⟨[.processInvoke record.name (args.map Arg.bits)], .ok (frame, after)⟩ ∧
      frame.which = .process ∧ frame.structCleanups = [] := by
  unfold enterInvoke
  cases dispatched : s.dispatch policy record args with
  | mk chosen after =>
    rw [dispatched] at onProcess
    dsimp only at onProcess
    subst onProcess
    exact ⟨_, _, rfl, rfl, rfl⟩

theorem enterInvoke_wasm (onWasm : (s.dispatch policy record args).1 = .ok .wasm)
    (translated : s.translateAll args = ⟨calls, .ok (values, cleanups)⟩) :
    ∃ frame after, s.enterInvoke policy record ret args =
      ⟨calls ++ [.wasmInvoke record.name values], .ok (frame, after)⟩ ∧
      frame.which = .wasm ∧ frame.structCleanups = cleanups := by
  have state := dispatch_snd policy record args s
  unfold enterInvoke
  cases dispatched : s.dispatch policy record args with
  | mk chosen after =>
    rw [dispatched] at onWasm state
    dsimp only at onWasm state
    subst onWasm state
    dsimp only
    rw [translateAll_policyState, translated]
    exact ⟨_, _, rfl, rfl, rfl⟩

theorem enterInvoke_untranslated (onWasm : (s.dispatch policy record args).1 = .ok .wasm)
    (aborts : s.translateAll args = ⟨calls, .error abort⟩) :
    s.enterInvoke policy record ret args = ⟨calls, .error abort⟩ := by
  have state := dispatch_snd policy record args s
  unfold enterInvoke
  cases dispatched : s.dispatch policy record args with
  | mk chosen after =>
    rw [dispatched] at onWasm state
    dsimp only at onWasm state
    subst onWasm state
    dsimp only
    rw [translateAll_policyState, aborts]

end
/-! What is read of an argument decides what becomes of it. -/

section
variable {s' : MetaSandbox t D π}
open ConcurrentAllocation

theorem inspect_same (same : ∀ p, a.asTPointer = some p → p ≠ 0#t.ptrBits → SameReads s s' p)
    (saw : SawPointers) : s'.inspect saw a = s.inspect saw a := by
  unfold inspect
  cases pointer : a.asTPointer with
  | none => rfl
  | some p =>
    by_cases null : p = 0#t.ptrBits
    · simp only [null, ↓reduceIte]
    · simp only [null, ↓reduceIte, (same p pointer null).owner]

theorem inspectAll_same (saw : SawPointers)
    (same : ∀ a ∈ args, ∀ p, a.asTPointer = some p → p ≠ 0#t.ptrBits → SameReads s s' p) :
    args.foldl s'.inspect saw = args.foldl s.inspect saw := by
  induction args generalizing saw with
  | nil => rfl
  | cons a rest ih =>
    rw [List.foldl_cons, List.foldl_cons, inspect_same (same a List.mem_cons_self)]
    exact ih _ fun b inside => same b (List.mem_cons_of_mem a inside)

theorem allocTranslator_same {p : TPointer t} (same : SameReads s s' p) :
    s'.allocTranslator p = s.allocTranslator p := by
  unfold allocTranslator
  rw [same.structs]

theorem getStructScratch_same {p : TPointer t} (same : SameReads s s' p) :
    s'.getStructScratch p = s.getStructScratch p := by
  unfold getStructScratch
  rw [same.structs]

theorem translate_same (same : ∀ p, a.asTPointer = some p → p ≠ 0#t.ptrBits → SameReads s s' p) :
    s'.translate a = s.translate a := by
  unfold translate
  cases pointer : a.asTPointer with
  | none => rfl
  | some p =>
    by_cases null : p = 0#t.ptrBits
    · simp only [null, ↓reduceIte]
    · have reads := same p pointer null
      simp only [null, ↓reduceIte, metaStructTranslator, allocTranslator_same reads,
        getStructScratch_same reads, reads.callbacks]

theorem translateAll_same
    (same : ∀ a ∈ args, ∀ p, a.asTPointer = some p → p ≠ 0#t.ptrBits → SameReads s s' p) :
    s'.translateAll args = s.translateAll args := by
  induction args with
  | nil => rfl
  | cons a rest ih =>
    unfold translateAll
    rw [translate_same (same a List.mem_cons_self),
      ih fun b inside => same b (List.mem_cons_of_mem a inside)]

end
end MetaSandbox

/-! ## The invoke and the others -/

/-- The threads that allocate and free, and the invoke. -/
structure Invoking (t : Target) (D π ι : Type) where
  system : ConcurrentAllocation.System t D π ι
  place : InvokePlace t

section
variable {t : Target} {D π ι : Type} [DecidableEq ι]
open ConcurrentAllocation

/-- A step of the invoke, or a step of another thread that spares its arguments. -/
inductive InvokingStep (total : Nat) (choice : MetaBackend) (record : MetaSymbolRecord t D)
    (args : List (Arg t)) (s : Invoking t D π ι) : Option (ι × Act t) → Invoking t D π ι → Prop where
  | own (moves : s.place.next choice record args s.system.shared.sandbox = some place) :
      InvokingStep total choice record args s none ⟨s.system, place⟩
  | other (moves : ConcurrentAllocation.Step total s.system l system)
      (spares : ∀ p, Points args p → l.2.Spares s.system.shared p) :
      InvokingStep total choice record args s (some l) ⟨system, s.place⟩

/-- The policy chose wasm, or the arguments did, and the symbol has a binding. -/
structure OnWasm (choice : MetaBackend) (record : MetaSymbolRecord t D) (args : List (Arg t))
    (s : MetaSandbox t D π) : Prop where
  chosen : MetaSandbox.overrideChoice (args.foldl s.inspect {}) choice = .ok .wasm
  bound : record.wasmSym ≠ 0#t.ptrBits

/-- The arguments translated so far. -/
def Translates (s : MetaSandbox t D π) (args : List (Arg t)) (d : Translated t) : Prop :=
  s.translateAll args = ⟨d.calls, .ok (d.values, d.cleanups)⟩

/-- Where the invoke comes to in one sandbox. -/
inductive Comes (choice : MetaBackend) (record : MetaSymbolRecord t D) (args : List (Arg t))
    (s : MetaSandbox t D π) : InvokePlace t → Prop where
  | inspecting (split : args = seen ++ rest) :
      Comes choice record args s (.inspecting (seen.foldl s.inspect {}) rest)
  | translating (onWasm : OnWasm choice record args s) (split : args = seen ++ rest)
      (translated : Translates s seen d) : Comes choice record args s (.translating d rest)
  | scratching (onWasm : OnWasm choice record args s) (split : args = seen ++ a :: rest)
      (translated : Translates s seen d) (pointer : a.asTPointer = some val)
      (nonNull : val ≠ 0#t.ptrBits) (found : s.allocTranslator val = some translator) :
      Comes choice record args s (.scratching d translator a val rest)
  | rewriting (onWasm : OnWasm choice record args s) (split : args = seen ++ a :: rest)
      (translated : Translates s seen d) (pointer : a.asTPointer = some val)
      (nonNull : val ≠ 0#t.ptrBits) (missing : s.allocTranslator val = none) :
      Comes choice record args s (.rewriting d a val rest)
  | process (chosen : MetaSandbox.overrideChoice (args.foldl s.inspect {}) choice = .ok .process) :
      Comes choice record args s (.calling .process { Translated.start with values := args.map Arg.bits })
  | wasm (onWasm : OnWasm choice record args s) (translated : Translates s args d) :
      Comes choice record args s (.calling .wasm d)
  | mixed (aborts : MetaSandbox.overrideChoice (args.foldl s.inspect {}) choice = .error abort) :
      Comes choice record args s (.aborted abort [])
  | unbound (chosen : MetaSandbox.overrideChoice (args.foldl s.inspect {}) choice = .ok .wasm)
      (unbound : record.wasmSym = 0#t.ptrBits) : Comes choice record args s (.aborted .noWasmBinding [])
  | untranslated (onWasm : OnWasm choice record args s)
      (aborts : s.translateAll args = ⟨calls, .error abort⟩) :
      Comes choice record args s (.aborted abort calls)

omit [DecidableEq ι]
variable {choice : MetaBackend} {record : MetaSymbolRecord t D} {args : List (Arg t)}
  {s s' : MetaSandbox t D π} {place place' : InvokePlace t}

section
variable {seen rest : List (Arg t)} {a : Arg t} {d : Translated t} {value : BitVec 64}

theorem Comes.passes (onWasm : OnWasm choice record args s) (split : args = seen ++ a :: rest)
    (translated : Translates s seen d) (ran : s.translate a = ⟨[], .ok (value, none)⟩) :
    Comes choice record args s (.translating (d.pass a value) rest) := by
  refine .translating onWasm (split.trans (List.append_cons seen a rest)) ?_
  have more := MetaSandbox.translateAll_snoc translated ran
  rw [List.append_nil, Option.toList_none, List.append_nil] at more
  exact more

theorem Comes.copies {c : StructCleanup t} (onWasm : OnWasm choice record args s)
    (split : args = seen ++ a :: rest) (translated : Translates s seen d)
    (ran : s.translate a = ⟨[.translate c.translator c.hostPtr c.scratch],
      .ok ((tagWasm (widen t c.scratch)).setWidth 64, some c)⟩) :
    Comes choice record args s (.translating (d.copy a c) rest) :=
  .translating onWasm (split.trans (List.append_cons seen a rest))
    (MetaSandbox.translateAll_snoc translated ran)

end

/-- A step that reads what this sandbox has comes to where this sandbox leads. -/
theorem Comes.step (comes : Comes choice record args s place)
    (same : ∀ p, Points args p → SameReads s s' p)
    (moves : place.next choice record args s' = some place') : Comes choice record args s place' := by
  have at_arg : ∀ {seen rest a}, args = seen ++ a :: rest →
      ∀ p, a.asTPointer = some p → p ≠ 0#t.ptrBits → SameReads s s' p := by
    intro seen rest a split p pointer nonNull
    exact same p ⟨a, split ▸ List.mem_append_right seen List.mem_cons_self, pointer, nonNull⟩
  cases comes with
  | @inspecting seen rest split =>
    cases rest with
    | nil =>
      rw [List.append_nil] at split
      subst split
      simp only [InvokePlace.next] at moves
      split at moves
      · rename_i aborts
        cases moves
        exact .mixed aborts
      · rename_i chosen
        cases moves
        exact .process chosen
      · rename_i chosen
        split at moves
        · rename_i unbound
          cases moves
          exact .unbound chosen unbound
        · rename_i bound
          cases moves
          exact .translating ⟨chosen, bound⟩ (List.nil_append args).symm rfl
    | cons a rest =>
      cases moves
      rw [MetaSandbox.inspect_same (at_arg split)]
      have folded : s.inspect (seen.foldl s.inspect {}) a = (seen ++ [a]).foldl s.inspect {} := by
        rw [List.foldl_append]
        rfl
      rw [folded]
      exact .inspecting (split.trans (List.append_cons seen a rest))
  | @translating seen rest d onWasm split translated =>
    cases rest with
    | nil =>
      rw [List.append_nil] at split
      subst split
      cases moves
      exact .wasm onWasm translated
    | cons a rest =>
      simp only [InvokePlace.next] at moves
      cases pointer : a.asTPointer with
      | none =>
        simp only [pointer] at moves
        cases moves
        exact .passes onWasm split translated (by simp only [MetaSandbox.translate, pointer])
      | some val =>
        simp only [pointer] at moves
        split at moves
        · rename_i null
          cases moves
          exact .passes onWasm split translated
            (by simp only [MetaSandbox.translate, pointer, null, ↓reduceIte])
        · rename_i nonNull
          rw [MetaSandbox.allocTranslator_same (at_arg split val pointer nonNull)] at moves
          split at moves
          · rename_i found
            cases moves
            exact .scratching onWasm split translated pointer nonNull found
          · rename_i missing
            cases moves
            exact .rewriting onWasm split translated pointer nonNull missing
  | @scratching seen a rest d val translator onWasm split translated pointer nonNull found =>
    simp only [InvokePlace.next] at moves
    rw [MetaSandbox.getStructScratch_same (at_arg split val pointer nonNull)] at moves
    split at moves
    · rename_i none
      cases moves
      refine .untranslated onWasm ?_
      have aborts : s.translate a = ⟨[], .error (.noStructScratch translator)⟩ := by
        simp only [MetaSandbox.translate, pointer, nonNull, ↓reduceIte, found,
          MetaSandbox.metaStructTranslator, none]
      rw [split, MetaSandbox.translateAll_aborts translated aborts, List.append_nil]
    · rename_i given
      cases moves
      refine .copies onWasm split translated ?_
      simp only [MetaSandbox.translate, pointer, nonNull, ↓reduceIte, found,
        MetaSandbox.metaStructTranslator, given]
  | @rewriting seen a rest d val onWasm split translated pointer nonNull missing =>
    simp only [InvokePlace.next] at moves
    rw [(at_arg split val pointer nonNull).callbacks] at moves
    split at moves
    · rename_i record' found
      cases moves
      refine .passes onWasm split translated ?_
      simp only [MetaSandbox.translate, pointer, nonNull, ↓reduceIte, missing, found]
    · rename_i unknown
      cases moves
      refine .passes onWasm split translated ?_
      simp only [MetaSandbox.translate, pointer, nonNull, ↓reduceIte, missing, unknown]
  | process | wasm | mixed | unbound | untranslated => cases moves

/-! ## The result -/

/-- What has been reached is what one look at this sandbox comes to. -/
def AsAtomic (choice : MetaBackend) (record : MetaSymbolRecord t D) (args : List (Arg t))
    [Millis D] (s : MetaSandbox t D π) (place : InvokePlace t) : Prop :=
  ∀ (policy : MetaPolicyFn t D π) (ret : Option CType),
    (policy s.policyState (s.invokeContext record)).1 = choice →
    (∀ which d, place = .calling which d → ∃ frame after,
      s.enterInvoke policy record ret args =
        ⟨d.calls ++ [match which with
          | .wasm => .wasmInvoke record.name d.values
          | .process => .processInvoke record.name d.values], .ok (frame, after)⟩ ∧
      frame.which = which ∧ frame.structCleanups = d.cleanups) ∧
    ∀ abort calls, place = .aborted abort calls → s.enterInvoke policy record ret args = ⟨calls, .error abort⟩

theorem asAtomic_of_comes [Millis D] (comes : Comes choice record args s place)
    (same : ∀ p, Points args p → SameReads s s' p) : AsAtomic choice record args s' place := by
  intro policy ret chose
  have same' : ∀ a ∈ args, ∀ p, a.asTPointer = some p → p ≠ 0#t.ptrBits → SameReads s s' p :=
    fun a inside p pointer nonNull => same p ⟨a, inside, pointer, nonNull⟩
  have inspected := MetaSandbox.inspectAll_same {} same'
  have translated := MetaSandbox.translateAll_same same'
  have dispatched : (s'.dispatch policy record args).1 = _ := MetaSandbox.dispatch_fst
  rw [chose, inspected] at dispatched
  refine ⟨fun which d here => ?_, fun abort calls here => ?_⟩
  · subst here
    cases comes with
    | process chosen =>
      rw [chosen] at dispatched
      exact MetaSandbox.enterInvoke_process ret dispatched
    | wasm onWasm ran =>
      rw [onWasm.chosen] at dispatched
      exact MetaSandbox.enterInvoke_wasm ret (dispatched.trans (if_neg onWasm.bound))
        (translated.trans ran)
  · subst here
    cases comes with
    | mixed aborts =>
      rw [aborts] at dispatched
      exact MetaSandbox.enterInvoke_aborts ret dispatched
    | unbound chosen unbound =>
      rw [chosen] at dispatched
      exact MetaSandbox.enterInvoke_aborts ret (dispatched.trans (if_pos unbound))
    | untranslated onWasm aborts =>
      rw [onWasm.chosen] at dispatched
      exact MetaSandbox.enterInvoke_untranslated ret (dispatched.trans (if_neg onWasm.bound))
        (translated.trans aborts)

/-- Every closure kept is of an argument with a struct entry. -/
theorem Comes.recorded (comes : Comes choice record args s place) :
    ∀ c ∈ place.cleanups, s.Records c ∧ Points args c.hostPtr := by
  have of_part : ∀ {seen rest d}, args = seen ++ rest → Translates s seen d →
      ∀ c ∈ d.cleanups, s.Records c ∧ Points args c.hostPtr := by
    intro seen rest d split translated c inside
    obtain ⟨-, recorded⟩ := MetaSandbox.translateAll_copies translated
    obtain ⟨found, a, among, points⟩ := recorded c inside
    exact ⟨found, a, split ▸ List.mem_append_left rest among, points⟩
  cases comes with
  | translating _ split translated | scratching _ split translated | rewriting _ split translated =>
    exact of_part split translated
  | wasm _ translated => exact of_part (List.append_nil args).symm translated
  | inspecting | process | mixed | unbound | untranslated => exact fun c inside => by cases inside

/-- The invoke is where one sandbox leads, and its arguments are as in that one. -/
structure Undisturbed (total : Nat) (choice : MetaBackend) (record : MetaSymbolRecord t D)
    (args : List (Arg t)) (s : MetaSandbox t D π) (u : Invoking t D π ι) : Prop where
  holding : Interleaving.Holding (Commons.Kept total) Commons.Local u.system
  steady : ∀ p, Points args p → u.system.shared.Steady p
  same : ∀ p, Points args p → SameReads s u.system.shared.sandbox p
  comes : Comes choice record args s u.place

/-- The client's allocation that a copy is of, with all its blocks in the heaps. -/
def CopiesHeld (s : Commons t D π ι) (c : StructCleanup t) : Prop :=
  ∃ d, s.custody.lookup c.hostPtr = some d ∧ d.holder = none ∧ d.alloc.scratch = c.scratch ∧
    d.alloc.translator = some c.translator ∧ ∀ x n, (x, n) ∈ d.alloc.blocks → s.heaps.blockAt x = some n

theorem Undisturbed.copiesHeld {total : Nat} {u : Invoking t D π ι} (free : TagFree t total)
    (kept : Undisturbed total choice record args s u) :
    ∀ c ∈ u.place.cleanups, CopiesHeld u.system.shared c := by
  intro c inside
  obtain ⟨found, points⟩ := kept.comes.recorded c inside
  have recorded : u.system.shared.sandbox.structAllocs.lookup c.hostPtr = some ⟨c.scratch, some c.translator⟩ :=
    (kept.same _ points).structs.trans found
  cases kept.steady _ points with
  | @held k d held client spells =>
    obtain ⟨-, structs⟩ := kept.holding.shared.reads_held free held client spells
    rw [recorded] at structs
    split at structs
    · rename_i direct
      subst direct
      have entry : d.alloc.structInfo = some ⟨c.scratch, some c.translator⟩ := structs.symm
      unfold LiveAlloc.structInfo at entry
      split at entry
      · cases entry
      · obtain ⟨scratch, translator⟩ : d.alloc.scratch = c.scratch ∧ d.alloc.translator = some c.translator := by
          simpa using entry
        refine ⟨d, held, client, scratch, translator, fun x n own => ?_⟩
        exact (accounted kept.holding).occupied _ d x n held own
    · cases structs
  | foreign unknown =>
    obtain ⟨-, structs⟩ := kept.holding.shared.reads_foreign unknown
    cases structs.symm.trans recorded

theorem Undisturbed.step [DecidableEq ι] {total : Nat} {u u' : Invoking t D π ι} {l : Option (ι × Act t)}
    (free : TagFree t total) (kept : Undisturbed total choice record args s u)
    (step : InvokingStep total choice record args u l u') : Undisturbed total choice record args s u' := by
  cases step with
  | own moves => exact ⟨kept.holding, kept.steady, kept.same, kept.comes.step kept.same moves⟩
  | @other l system moves spares =>
    have holding := holding_step free kept.holding moves
    obtain ⟨⟨allowed, answers, client⟩, done⟩ := moves
    obtain ⟨i, act⟩ := l
    obtain ⟨shared, next, ran, rfl⟩ := Interleaving.exec_some done
    have each : ∀ p, Points args p → shared.Steady p ∧ SameReads u.system.shared.sandbox shared.sandbox p :=
      fun p points => (kept.steady p points).step kept.holding.shared holding.shared free
        (kept.holding.each i) allowed answers client ran (spares p points)
    exact ⟨holding, fun p points => (each p points).1,
      fun p points => (kept.same p points).trans (each p points).2, kept.comes⟩

/-- However the steps of any number of threads that spare its arguments fall
between those of an invoke, it enters the backend, with the copies, the values
and the closures, that it would have entered in one step at any moment meanwhile,
or aborts as it would have; and every struct it has copied is still its client's,
with its scratch. -/
theorem concurrent_invoke_atomic [DecidableEq ι] [Millis D] {total : Nat} (free : TagFree t total)
    (policyState : π) {before : List (ι × Act t)} {begins : System t D π ι}
    (ran : Run (ConcurrentAllocation.Step total) (start policyState) before begins)
    (steady : ∀ p, Points args p → begins.shared.Steady p) {ls ls' : List (Option (ι × Act t))}
    {m u : Invoking t D π ι}
    (first : Run (InvokingStep total choice record args) ⟨begins, .inspecting {} args⟩ ls m)
    (second : Run (InvokingStep total choice record args) m ls' u) :
    AsAtomic choice record args m.system.shared.sandbox u.place ∧
      ∀ c ∈ u.place.cleanups, CopiesHeld u.system.shared c := by
  have opens : Undisturbed total choice record args begins.shared.sandbox ⟨begins, .inspecting {} args⟩ :=
    ⟨holding_run free ran, steady, fun p _ => ⟨rfl, rfl, rfl⟩, .inspecting (List.nil_append args).symm⟩
  have midway := first.invariant opens fun _ _ _ kept step => kept.step free step
  have ends := second.invariant midway fun _ _ _ kept step => kept.step free step
  exact ⟨asAtomic_of_comes ends.comes midway.same, ends.copiesHeld free⟩

end

/-- A symbol both backends have. -/
def areaRecord : MetaSymbolRecord .x86_64 Int where
  name := "area"
  processSym := 0x401000#64
  wasmSym := 1#64
  processLatency := .empty
  wasmLatency := .empty
  pinned := 0#8
  consecutiveSamePicks := 0#32
  lastPick := .process

open ConcurrentAllocation in
/-- One thread gets a struct block at offset 16, with its scratch at 32. -/
def obtainStruct : List (Bool × Act .x86_64) :=
  [(true, .registerStructType ⟨"lib:pair", 8#64, 4#64, some ⟨"lib", "pair"⟩⟩),
    (true, .malloc 8#64 (.wasm 0x10#32)), (true, .own), (true, .matchType),
    (true, .scratch 0x20#32), (true, .link)]

open ConcurrentAllocation in
def heldStruct : System .x86_64 Int Unit Bool :=
  (execAll (Interleaving.exec own) (start ()) obtainStruct).getD (start ())

open ConcurrentAllocation in
/-- An invoke of it on wasm, with another thread's malloc between its looks into
the registries. -/
theorem concurrent_invoke_atomic_overlapping : ∃ (u : Invoking .x86_64 Int Unit Bool)
    (d : Translated .x86_64) (frame : InvokeFrame .x86_64) (after : MetaSandbox .x86_64 Int Unit),
    u.place = .calling .wasm d ∧ d.calls = [.translate ⟨"lib", "pair"⟩ 0x8000000000000010#64 0x20#32] ∧
      heldStruct.shared.sandbox.enterInvoke wasmPolicy areaRecord none
        [Arg.pointer 0x8000000000000010#64] = ⟨d.calls ++ [.wasmInvoke "area" d.values], .ok (frame, after)⟩ ∧
      ∀ c ∈ d.cleanups, CopiesHeld u.system.shared c := by
  let key : TPointer .x86_64 := 0x8000000000000010#64
  have ran : Run (ConcurrentAllocation.Step 0x10000) (start ()) obtainStruct heldStruct :=
    .cons ⟨⟨trivial, trivial, trivial⟩, rfl⟩ <| .cons ⟨⟨by decide, by decide, trivial⟩, rfl⟩ <|
    .cons ⟨⟨trivial, trivial, trivial⟩, rfl⟩ <| .cons ⟨⟨trivial, trivial, trivial⟩, rfl⟩ <|
    .cons ⟨⟨by decide, by decide, trivial⟩, rfl⟩ <| .cons ⟨⟨trivial, trivial, trivial⟩, rfl⟩ .nil
  have only : ∀ {p}, Points [Arg.pointer key] p → p = key := by
    rintro p ⟨a, inside, pointer, -⟩
    cases List.mem_singleton.mp inside
    exact (Option.some.inj pointer).symm
  have spares : ∀ (s : Commons .x86_64 Int Unit Bool) (act : Act .x86_64), s.custody.lookup key ≠ none →
      (∀ q, act ≠ .free q) → ∀ p, Points [Arg.pointer key] p → act.Spares s p := by
    intro s act known kind p points
    cases only points
    exact ⟨fun q k freed => absurd freed (kind q),
      fun unknown => absurd (unknown.custody key (.inl rfl)) known⟩
  have run : Run (InvokingStep 0x10000 .wasm areaRecord [Arg.pointer key])
      ⟨heldStruct, .inspecting {} [Arg.pointer key]⟩
      [none, some (false, .malloc 8#64 (.wasm 0x30#32)), none, some (false, .own), none,
        some (false, .matchType), none, none] ⟨_, _⟩ :=
    .cons (.own rfl) <| .cons (.other ⟨⟨by decide, by decide, trivial⟩, rfl⟩
      (spares _ _ (by decide) fun q other => by cases other)) <|
    .cons (.own rfl) <| .cons (.other ⟨⟨trivial, trivial, trivial⟩, rfl⟩
      (spares _ _ (by decide) fun q other => by cases other)) <|
    .cons (.own rfl) <| .cons (.other ⟨⟨trivial, trivial, trivial⟩, rfl⟩
      (spares _ _ (by decide) fun q other => by cases other)) <|
    .cons (.own rfl) <| .cons (.own rfl) .nil
  obtain ⟨atomic, held⟩ := concurrent_invoke_atomic ⟨0x10000#64, by decide, by decide⟩ () ran
    (fun p points => by
      cases only points
      exact .held rfl rfl (.inl rfl)) .nil run
  obtain ⟨entered, -⟩ := atomic wasmPolicy none rfl
  obtain ⟨frame, after, same, -⟩ := entered .wasm _ rfl
  exact ⟨_, _, frame, after, rfl, rfl, same, held⟩

end RlboxDynamic
