import RlboxDynamic.StructTranslation
import RlboxDynamic.PointerTranslation

/-! Every struct copied into its scratch for a wasm call is copied back once,
when that call returns, and both copies stay inside blocks that are live and
long enough. -/
namespace RlboxDynamic
open Transition

variable {t : Target} {D π : Type} [Millis D] {policy : MetaPolicyFn t D π} {start : π} {total : Nat}

/-! ## Copies and what is left to copy back -/

/-- The copy that the closure takes back. -/
def StructCleanup.copyIn (c : StructCleanup t) : BackendCall t :=
  .translate c.translator c.hostPtr c.scratch

omit [Millis D] in
theorem StructCleanup.copyIn_injective :
    Function.Injective (StructCleanup.copyIn : StructCleanup t → BackendCall t) := by
  intro c d same
  cases c
  cases d
  cases same
  rfl

theorem StructCleanup.call_injective :
    Function.Injective (StructCleanup.call : StructCleanup t → BackendCall t) := by
  intro c d same
  cases c
  cases d
  cases same
  rfl

/-- The closures that the invokes in flight have not run yet. -/
def MetaWorld.pendingCopies (w : MetaWorld t D π) : List (StructCleanup t) :=
  w.frames.flatMap InvokeFrame.structCleanups

/-- The pointers among the arguments, null apart. -/
def Points (args : List (Arg t)) (p : TPointer t) : Prop :=
  ∃ a ∈ args, a.asTPointer = some p ∧ p ≠ 0#t.ptrBits

namespace MetaSandbox
variable {s : MetaSandbox t D π} {args : List (Arg t)} {calls : List (BackendCall t)}

/-- The registry has the closure's scratch and translator under its pointer. -/
def Records (s : MetaSandbox t D π) (c : StructCleanup t) : Prop :=
  s.structAllocs.lookup c.hostPtr = some ⟨c.scratch, some c.translator⟩

omit [Millis D] in
theorem translate_copies {a : Arg t} {value : BitVec 64} {cleanup : Option (StructCleanup t)}
    (ran : s.translate a = ⟨calls, .ok (value, cleanup)⟩) :
    calls = cleanup.toList.map StructCleanup.copyIn ∧
      ∀ c ∈ cleanup.toList, s.Records c ∧ Points [a] c.hostPtr := by
  have plain : ∀ other, s.translate a = ⟨[], .ok (other, none)⟩ →
      calls = cleanup.toList.map StructCleanup.copyIn ∧
        ∀ c ∈ cleanup.toList, s.Records c ∧ Points [a] c.hostPtr := by
    intro other same
    cases ran.symm.trans same
    exact ⟨rfl, fun c inside => by cases inside⟩
  by_cases known : ∃ p, a.asTPointer = some p ∧ p ≠ 0#t.ptrBits ∧ s.allocTranslator p ≠ none
  · obtain ⟨p, pointer, nonNull, known⟩ := known
    obtain ⟨translator, known⟩ := Option.ne_none_iff_exists'.mp known
    obtain ⟨⟨scratch, _⟩, found, rfl⟩ := Option.bind_eq_some_iff.mp known
    by_cases given : scratch = 0#32
    · -- a translator without a scratch aborts
      simp only [translate, pointer, nonNull, ↓reduceIte, known, metaStructTranslator, getStructScratch,
        found, given] at ran
      cases ran
    · cases ran.symm.trans (translate_struct pointer nonNull found rfl given)
      refine ⟨rfl, fun c inside => ?_⟩
      cases List.mem_singleton.mp inside
      exact ⟨found, a, List.mem_singleton_self a, pointer, nonNull⟩
  · by_cases null : a.asTPointer = some (0#t.ptrBits)
    · exact plain ((tagStrip (0#t.ptrBits)).setWidth 64) (by simp [translate, null])
    · obtain ⟨other, same⟩ := translate_plain (s := s) (a := a) fun p pointer => by
        by_contra held
        refine known ⟨p, pointer, ?_, held⟩
        rintro rfl
        exact null pointer
      exact plain other same

omit [Millis D] in
/-- Translating the arguments makes one copy for each closure it keeps. -/
theorem translateAll_copies {values : List (BitVec 64)} {cleanups : List (StructCleanup t)}
    (ran : s.translateAll args = ⟨calls, .ok (values, cleanups)⟩) :
    calls = cleanups.map StructCleanup.copyIn ∧
      ∀ c ∈ cleanups, s.Records c ∧ Points args c.hostPtr := by
  induction args generalizing calls values cleanups with
  | nil =>
    cases ran
    exact ⟨rfl, fun c inside => by cases inside⟩
  | cons a rest ih =>
    unfold translateAll at ran
    split at ran
    · cases ran
    · rename_i first
      obtain ⟨own, recorded⟩ := translate_copies first
      split at ran
      · cases ran
      · rename_i later
        obtain ⟨others, recorded'⟩ := ih later
        cases ran
        refine ⟨by rw [own, others, List.map_append], fun c inside => ?_⟩
        rcases List.mem_append.mp inside with here | there
        · obtain ⟨found, b, only, points⟩ := recorded c here
          cases List.mem_singleton.mp only
          exact ⟨found, a, List.mem_cons_self, points⟩
        · obtain ⟨found, b, later, points⟩ := recorded' c there
          exact ⟨found, b, List.mem_cons_of_mem a later, points⟩

end MetaSandbox

/-! ## What one operation copies -/

/-- What an operation copies, and what it leaves to be copied back. -/
inductive Copied (w : MetaWorld t D π) : List (BackendCall t) → MetaWorld t D π → Prop where
  | none (sided : ∀ c ∈ calls, c.side ≠ none) (kept : w'.pendingCopies = w.pendingCopies) :
      Copied w calls w'
  | enters (recorded : ∀ c ∈ cleanups, w.sandbox.Records c) (live : w'.live = w.live)
      (pending : w'.pendingCopies = w.pendingCopies ++ cleanups) :
      Copied w (cleanups.map StructCleanup.copyIn ++ [.wasmInvoke name values]) w'
  | leaves (inFlight : w.frames[index]? = some frame) (left : w'.frames = w.frames.eraseIdx index) :
      Copied w (frame.structCleanups.map StructCleanup.call) w'

section Steps
variable {w w' : MetaWorld t D π} {calls : List (BackendCall t)} {returned : Option (TPointer t)}
  {op : MetaOp t D} {c : StructCleanup t}

theorem malloc_sided {size : SizeT t} {answers : MallocAnswers t}
    (ran : w.execMalloc policy size answers = some ⟨calls, returned, w'⟩) :
    (∀ c ∈ calls, c.side ≠ none) ∧ w'.frames = w.frames := by
  unfold MetaWorld.execMalloc at ran
  cases outcome : w.sandbox.implMallocInSandbox policy answers size with
  | mk made result =>
    cases result with
    | error abort => simp [outcome] at ran
    | ok pair =>
      obtain ⟨p, sandbox⟩ := pair
      have malloced : MetaSandbox.Malloced (w.sandbox.mallocChoice policy size).2 answers size
        (w.sandbox.mallocChoice policy size).1 made p sandbox := MetaSandbox.mallocOn_ok outcome
      have sided : ∀ c ∈ made, c.side ≠ none := by
        have scratch : ∀ {more : List (BackendCall t)} {s' : MetaSandbox t D π} {q choice},
            MetaSandbox.Published s' answers size q choice more sandbox → ∀ c ∈ more, c.side ≠ none := by
          intro more s' q choice published c inside
          rcases published.scratch with ⟨-, rfl | ⟨n, rfl⟩⟩ | ⟨info, -, -, rfl, -⟩
          · cases inside
          · cases List.mem_singleton.mp inside
            exact Option.some_ne_none _
          · cases List.mem_singleton.mp inside
            exact Option.some_ne_none _
        generalize (w.sandbox.mallocChoice policy size).1 = choice at malloced
        cases malloced with
        | refusedWasm | refusedProcess =>
          intro c inside
          cases List.mem_singleton.mp inside
          exact Option.some_ne_none _
        | wasm _ published | process _ _ published =>
          intro c inside
          rcases List.mem_cons.mp inside with rfl | later
          · exact Option.some_ne_none _
          · exact scratch published c later
      simp only [outcome] at ran
      split at ran <;> cases ran <;> exact ⟨sided, rfl⟩

omit [Millis D] in
theorem free_sided {p : TPointer t} (ran : w.execFree p = ⟨calls, returned, w'⟩) :
    (∀ c ∈ calls, c.side ≠ none) ∧ w'.frames = w.frames := by
  have frames : w'.frames = w.frames := by
    have after : w' = (w.execFree p).next := by rw [ran]
    rw [after]
    rfl
  refine ⟨?_, frames⟩
  obtain ⟨-, ⟨-, rfl, -⟩ | ⟨-, key, owner, -, rfl, -⟩⟩ := execFree_ok ran
  · intro c inside
    cases inside
  · intro c inside
    unfold Ledger.freeCalls at inside
    rcases List.mem_append.mp inside with scratch | block
    · split at scratch
      · cases scratch
      · cases List.mem_singleton.mp scratch
        exact Option.some_ne_none _
    · cases List.mem_singleton.mp block
      cases owner <;> exact Option.some_ne_none _

theorem step_copied (ran : w.exec policy op = some ⟨calls, returned, w'⟩) : Copied w calls w' := by
  have same : w'.frames = w.frames → w'.pendingCopies = w.pendingCopies := by
    intro frames
    unfold MetaWorld.pendingCopies
    rw [frames]
  cases op with
  | lookupSymbol | registerStructType | registerCallback | unregisterCallback | setPinThreshold =>
    cases ran
    exact .none (fun c inside => by cases inside) rfl
  | malloc =>
    obtain ⟨sided, frames⟩ := malloc_sided ran
    exact .none sided (same frames)
  | free =>
    obtain ⟨sided, frames⟩ := free_sided (Option.some.inj ran)
    exact .none sided (same frames)
  | enter =>
    obtain ⟨-, b, entered⟩ := execEnter_ok ran
    cases entered with
    | process =>
      refine .none (fun c inside => ?_) (by simp [MetaWorld.pendingCopies])
      cases List.mem_singleton.mp inside
      exact Option.some_ne_none _
    | wasm _ _ translated =>
      obtain ⟨rfl, recorded⟩ := MetaSandbox.translateAll_copies translated
      exact .enters (fun c inside => (recorded c inside).1) rfl (by simp [MetaWorld.pendingCopies])
  | leave index answer elapsed =>
    obtain ⟨frame, inFlight, rfl, -⟩ := execLeave_ok ran
    refine .leaves inFlight ?_
    change w.execLeave index answer elapsed = _ at ran
    unfold MetaWorld.execLeave at ran
    rw [inFlight] at ran
    dsimp only at ran
    split at ran
    · split at ran <;> cases ran <;> rfl
    · cases ran
      rfl

end Steps

/-! ## Where a copy reads and writes -/

/-- The block that a resolved pointer is the address of. -/
def Resolved.block : Resolved t → Option (BlockAddress t)
  | .null => none
  | .wasm offset => some (.wasm offset)
  | .process address => some (.process address)

/-- The struct at the pointer and the scratch are live blocks, each as long as
the struct is on that side, and not the same block. -/
structure CopyEnds (total : Nat) (w : MetaWorld t D π) (c : StructCleanup t)
    (info : MetaStructTypeInfo t) (host : BlockAddress t) : Prop where
  translator : info.translator = some c.translator
  resolves : (implGetUnsandboxedPointer total c.hostPtr).block = some host
  hostLive : w.heaps.blockAt host = some info.hostSize
  scratchLive : w.heaps.blockAt (.wasm c.scratch) = some info.wasmSize
  apart : host ≠ .wasm c.scratch

/-- A copy, either way, stays in its two blocks. -/
def InBounds (total : Nat) (w : MetaWorld t D π) (c : StructCleanup t) : Prop :=
  ∃ info host, CopyEnds total w c info host

/-- A live allocation has the closure's scratch and translator. -/
def Backs (w : MetaWorld t D π) (c : StructCleanup t) : Prop :=
  ∃ a, w.live.lookup c.hostPtr = some a ∧ a.scratch = c.scratch ∧ c.scratch ≠ 0#32 ∧
    a.translator = some c.translator

/-- A struct type is given to allocations of its own size. -/
def Sized (w : MetaWorld t D π) : Prop :=
  ∀ k a info, w.live.lookup k = some a → a.structType = some info → info.hostSize = a.size

section Ends
variable {w w' : MetaWorld t D π} {calls : List (BackendCall t)} {returned : Option (TPointer t)}
  {op : MetaOp t D} {c : StructCleanup t} {k : TPointer t} {a : LiveAlloc t}

omit [Millis D] in
theorem backs_of_records (routed : w.ledger.Routed total) (recorded : w.sandbox.Records c) :
    Backs w c := by
  have held : (w.live.lookup c.hostPtr).bind LiveAlloc.structInfo = some ⟨c.scratch, some c.translator⟩ := by
    rw [← recorded]
    exact (routed.structs c.hostPtr).symm
  obtain ⟨a, live, info⟩ := Option.bind_eq_some_iff.mp held
  unfold LiveAlloc.structInfo at info
  split at info
  · cases info
  · rename_i given
    obtain ⟨scratch, translator⟩ : a.scratch = c.scratch ∧ a.translator = some c.translator := by
      simpa using info
    exact ⟨a, live, scratch, scratch ▸ given, translator⟩

omit [Millis D] in
/-- The key of a live allocation resolves to its own block. -/
theorem resolves_own (routed : w.ledger.Routed total) (held : w.live.lookup k = some a) :
    ∃ own rest, (implGetUnsandboxedPointer total k).block = some own ∧ a.blocks = (own, a.size) :: rest := by
  have checked := routed.owned.checked held
  have nonNull : k ≠ 0#t.ptrBits := by
    rw [routed.owned.keyed held]
    exact checked.key_ne_zero
  have strip := routed.owned.strip_key routed.placed routed.tagFree held
  have tag := routed.owned.tagged_iff_wasm held
  unfold implGetUnsandboxedPointer LiveAlloc.blocks
  rw [if_neg nonNull]
  cases side : a.owner with
  | wasm =>
    rw [if_pos (tag.mpr side), strip]
    exact ⟨_, _, rfl, rfl⟩
  | process =>
    have clear : ¬ Tagged k := fun tagged => by cases (tag.mp tagged).symm.trans side
    have above := routed.placed.high (routed.owned.owners held) clear
    rw [if_neg clear, if_neg (Nat.not_lt.mpr above), ← strip, tagStrip_eq_self.mpr clear]
    exact ⟨_, _, rfl, rfl⟩

omit [Millis D] in
theorem inBounds_of_backs (routed : w.ledger.Routed total) (sized : Sized w) (backs : Backs w c) :
    InBounds total w c := by
  obtain ⟨a, held, scratch, given, translator⟩ := backs
  obtain ⟨info, shape, filled⟩ := Option.bind_eq_some_iff.mp translator
  obtain ⟨own, rest, resolves, blocks⟩ := resolves_own routed held
  have two : a.blocks = [(own, a.size), (.wasm c.scratch, info.wasmSize)] := by
    have tail : rest = [(.wasm c.scratch, info.wasmSize)] := by
      have same := congrArg List.tail blocks
      simpa only [LiveAlloc.blocks, shape, scratch, given, ↓reduceIte, List.tail_cons] using same.symm
    rw [blocks, tail]
  have distinct := routed.distinct held
  rw [two] at distinct
  refine ⟨info, own, filled, resolves, ?_, ?_, by simpa using distinct⟩
  · rw [sized _ a info held shape]
    exact (routed.heap own a.size).mpr ⟨_, a, held, by simp [two]⟩
  · exact (routed.heap _ info.wasmSize).mpr ⟨_, a, held, by simp [two]⟩

omit [Millis D] in
/-- The struct's own free takes the copy out of its blocks. -/
theorem not_inBounds_of_freed (routed : w.ledger.Routed total) (held : w.live.lookup c.hostPtr = some a)
    (gone : ∀ x n, (x, n) ∈ a.blocks → w'.heaps.blockAt x = none) : ¬ InBounds total w' c := by
  rintro ⟨info, host, ends⟩
  obtain ⟨own, rest, resolves, blocks⟩ := resolves_own routed held
  cases resolves.symm.trans ends.resolves
  have vacant := gone host a.size (by rw [blocks]; exact List.mem_cons_self)
  cases vacant.symm.trans ends.hostLive

theorem malloc_sized {size : SizeT t} {answers : MallocAnswers t}
    (ran : w.execMalloc policy size answers = some ⟨calls, returned, w'⟩) (sized : Sized w) : Sized w' := by
  have typed : ∀ {v : MetaWorld t D π} {info}, v.structType size = some info → info.hostSize = size := by
    intro v info only
    unfold MetaWorld.structType at only
    split at only
    · rename_i single
      cases only
      have inside : info ∈ v.sandbox.structMatches size := by rw [single]; exact List.mem_singleton_self _
      simpa using (List.mem_filter.mp inside).2
    · cases only
  have shape : ∀ {made : List (BackendCall t)} {structType a}, LiveAlloc.ofCalls size structType made = some a →
      a.size = size ∧ a.structType = structType := by
    intro made structType a given
    unfold LiveAlloc.ofCalls at given
    split at given
    · split at given <;> cases given
      exact ⟨rfl, rfl⟩
    · split at given <;> cases given
      exact ⟨rfl, rfl⟩
    · cases given
  unfold MetaWorld.execMalloc at ran
  split at ran
  · cases ran
  · dsimp only at ran
    split at ran <;> cases ran
    · exact sized
    · rename_i made
      intro k b info held own
      dsimp only at held
      rw [KeyMap.lookup_insert] at held
      split at held
      · cases held
        obtain ⟨length, matched⟩ := shape made
        rw [length]
        exact typed (matched.symm.trans own)
      · exact sized k b info held own

theorem step_sized (ran : w.exec policy op = some ⟨calls, returned, w'⟩) (sized : Sized w) : Sized w' := by
  by_cases malloc : ∃ size answers, op = .malloc size answers
  · obtain ⟨size, answers, rfl⟩ := malloc
    exact malloc_sized ran sized
  · have taken := step_ledger ran
    have live : w'.live = w'.ledger.live := rfl
    unfold Sized
    rw [live]
    generalize w'.ledger = next at taken
    cases taken with
    | quiet | handOut => exact sized
    | allocate => exact absurd ⟨_, _, rfl⟩ malloc
    | free =>
      intro k b info held
      change (w.live.erase _).lookup k = some b at held
      rw [KeyMap.lookup_erase] at held
      split at held
      · cases held
      · exact sized k b info held

end Ends

/-! ## Runs -/

/-- No struct is freed while a call works on its scratch. -/
def SparesCopies (w : MetaWorld t D π) : MetaOp t D → Prop
  | .free p => ∀ c ∈ w.pendingCopies, ¬ Spells p c.hostPtr
  | _ => True

/-- A world with the backend calls made so far. -/
structure Traced (t : Target) (D π : Type) where
  world : MetaWorld t D π
  trace : List (BackendCall t)

def Traced.exec (policy : MetaPolicyFn t D π) (s : Traced t D π) (op : MetaOp t D) : Option (Traced t D π) :=
  (s.world.exec policy op).map fun effect => ⟨effect.next, s.trace ++ effect.calls⟩

/-- A step of a client that frees only what it holds and no call works on. -/
structure TracedStep (total : Nat) (policy : MetaPolicyFn t D π) (s : Traced t D π) (op : MetaOp t D)
    (s' : Traced t D π) : Prop where
  ran : s.exec policy op = some s'
  routed : RoutedStep total policy s.world op s'.world
  spares : SparesCopies s.world op

section Runs
variable {w w' : MetaWorld t D π} {s s' : Traced t D π} {calls : List (BackendCall t)}
  {op : MetaOp t D} {ops : List (MetaOp t D)} {c : StructCleanup t}

/-- What backs a copy stays until its struct is freed. -/
theorem step_backs (routed : w.ledger.Routed total) (step : RoutedStep total policy w op w')
    (spared : ∀ p, op = .free p → ¬ Spells p c.hostPtr) (backs : Backs w c) : Backs w' c := by
  obtain ⟨a, held, backed⟩ := backs
  refine ⟨a, ?_, backed⟩
  obtain ⟨calls, returned, ran, allowed, answers, freesLive⟩ := step
  have taken := step_ledger ran
  have live : w'.live = w'.ledger.live := rfl
  rw [live]
  generalize w'.ledger = next at taken
  cases taken with
  | quiet | handOut => exact held
  | allocate b checked answered scratchAnswered =>
    obtain ⟨inMemory, -, -⟩ := answers.allocation checked answered scratchAnswered
    obtain ⟨-, missing, -⟩ :=
      Heaps.blockAt_grants checked.obtain_granted (Heaps.allows_of_append allowed)
    have fresh := routed.key_fresh checked inMemory missing
    rw [Ledger.lookup_live_allocate, if_neg]
    · exact held
    · intro same
      rw [← same] at fresh
      cases fresh.symm.trans held
  | @free p key owner nonNull freed =>
    obtain ⟨k, b, other, spells⟩ := freesLive nonNull
    obtain ⟨-, -, denoted⟩ := routed.freedAs_live other spells freed
    rw [Ledger.lookup_live_free, denoted, if_neg]
    · exact held
    · rintro same
      exact spared p rfl (same ▸ spells)

omit [Millis D] in
theorem count_copied (copied : Copied w calls w') (c : StructCleanup t) :
    calls.count c.copyIn + w.pendingCopies.count c = calls.count c.call + w'.pendingCopies.count c := by
  cases copied with
  | none sided kept =>
    have noneIn : c.copyIn ∉ calls := fun inside => sided _ inside rfl
    have noneOut : c.call ∉ calls := fun inside => sided _ inside rfl
    rw [List.count_eq_zero_of_not_mem noneIn, List.count_eq_zero_of_not_mem noneOut, kept]
  | @enters cleanups _ name values recorded _ pending =>
    have copies : (cleanups.map StructCleanup.copyIn).count c.copyIn = cleanups.count c :=
      List.count_map_of_injective _ _ StructCleanup.copyIn_injective c
    have noneOut : c.call ∉ cleanups.map StructCleanup.copyIn ++ [.wasmInvoke name values] := by
      simp [StructCleanup.call, StructCleanup.copyIn]
    have invoke : [BackendCall.wasmInvoke name values].count c.copyIn = 0 := by
      simp [StructCleanup.copyIn]
    rw [List.count_append, copies, invoke, List.count_eq_zero_of_not_mem noneOut, pending,
      List.count_append]
    omega
  | @leaves index frame _ inFlight left =>
    have copies : (frame.structCleanups.map StructCleanup.call).count c.call = frame.structCleanups.count c :=
      List.count_map_of_injective _ _ StructCleanup.call_injective c
    have noneIn : c.copyIn ∉ frame.structCleanups.map StructCleanup.call := by
      simp [StructCleanup.call, StructCleanup.copyIn]
    obtain ⟨inside, same⟩ := List.getElem?_eq_some_iff.mp inFlight
    have split : w.pendingCopies.Perm (frame.structCleanups ++ w'.pendingCopies) := by
      have moved := (List.getElem_cons_eraseIdx_perm inside).flatMap_right InvokeFrame.structCleanups
      rw [same, List.flatMap_cons, ← left] at moved
      exact moved.symm
    rw [copies, List.count_eq_zero_of_not_mem noneIn, split.count_eq c, List.count_append]
    omega

/-- Copies in and copies back in step, and every copy still to be taken back
with both its blocks. -/
structure Bracketed (total : Nat) (s : Traced t D π) : Prop where
  routed : s.world.ledger.Routed total
  sized : Sized s.world
  matched : ∀ c : StructCleanup t,
    s.trace.count c.copyIn = s.trace.count c.call + s.world.pendingCopies.count c
  backed : ∀ c ∈ s.world.pendingCopies, Backs s.world c

theorem TracedStep.traces (step : TracedStep total policy s op s') : ∃ calls returned,
    s.world.exec policy op = some ⟨calls, returned, s'.world⟩ ∧ s'.trace = s.trace ++ calls := by
  obtain ⟨⟨calls, returned, next⟩, ran, after⟩ := Option.map_eq_some_iff.mp step.ran
  subst after
  exact ⟨calls, returned, ran, rfl⟩

theorem step_bracketed (kept : Bracketed total s) (step : TracedStep total policy s op s') :
    Bracketed total s' := by
  obtain ⟨calls, returned, ran, trace⟩ := step.traces
  have copied := step_copied ran
  refine ⟨step_routed kept.routed step.routed, step_sized ran kept.sized, fun c => ?_, fun c pending => ?_⟩
  · have before := kept.matched c
    have here := count_copied copied c
    rw [trace, List.count_append, List.count_append]
    omega
  · have still : ∀ c ∈ s.world.pendingCopies, Backs s'.world c := by
      intro c inside
      refine step_backs kept.routed step.routed (fun p freed => ?_) (kept.backed c inside)
      have spares := step.spares
      rw [freed] at spares
      exact spares c inside
    cases copied with
    | none _ same =>
      rw [same] at pending
      exact still c pending
    | enters recorded live grown =>
      rw [grown] at pending
      rcases List.mem_append.mp pending with old | new
      · exact still c old
      · have backs := backs_of_records kept.routed (recorded c new)
        unfold Backs at backs ⊢
        rwa [live]
    | leaves inFlight left =>
      unfold MetaWorld.pendingCopies at pending
      rw [left] at pending
      obtain ⟨frame, inside, own⟩ := List.mem_flatMap.mp pending
      exact still c (List.mem_flatMap.mpr ⟨frame, List.mem_of_mem_eraseIdx inside, own⟩)

theorem run_bracketed (free : TagFree t total)
    (run : Run (TracedStep total policy) ⟨.initial start, []⟩ ops s) : Bracketed total s := by
  refine run.invariant ⟨routed_initial free, fun k a info held => ?_, fun c => rfl, fun c inside => ?_⟩
    fun s op s' kept step => step_bracketed kept step
  · cases held
  · cases inside

/-- Along every run, each copy into a scratch is taken back exactly once, when
the call it was made for returns; no copy, either way, leaves the two live
blocks it is between; and freeing the struct before that would take it out of
them. -/
theorem struct_copies_bracketed (free : TagFree t total)
    (run : Run (TracedStep total policy) ⟨.initial start, []⟩ ops s) :
    (∀ c : StructCleanup t,
      s.trace.count c.copyIn = s.trace.count c.call + s.world.pendingCopies.count c) ∧
    (∀ op calls returned w' c, s.world.exec policy op = some ⟨calls, returned, w'⟩ →
      c.copyIn ∈ calls ∨ c.call ∈ calls → InBounds total s.world c) ∧
    ∀ c ∈ s.world.pendingCopies, ∀ p, Spells p c.hostPtr →
      ∃ calls w', s.world.exec policy (.free p) = some ⟨calls, none, w'⟩ ∧ ¬ InBounds total w' c := by
  have kept := run_bracketed free run
  refine ⟨kept.matched, fun op calls returned w' c ran copies => ?_, fun c pending p spells => ?_⟩
  · refine inBounds_of_backs kept.routed kept.sized ?_
    cases step_copied ran with
    | none sided =>
      rcases copies with inside | inside
      · exact absurd rfl (sided _ inside)
      · exact absurd rfl (sided _ inside)
    | @enters cleanups _ _ _ recorded =>
      have made : c.copyIn ∈ cleanups.map StructCleanup.copyIn := by
        rcases copies with inside | inside
        · exact (List.mem_append.mp inside).resolve_right (by simp [StructCleanup.copyIn])
        · simp [StructCleanup.copyIn, StructCleanup.call] at inside
      have new := (List.mem_map_of_injective StructCleanup.copyIn_injective).mp made
      exact backs_of_records kept.routed (recorded c new)
    | leaves inFlight =>
      rcases copies with inside | inside
      · simp [StructCleanup.copyIn, StructCleanup.call] at inside
      · refine kept.backed c (List.mem_flatMap.mpr ⟨_, List.mem_of_getElem? inFlight, ?_⟩)
        exact (List.mem_map_of_injective StructCleanup.call_injective).mp inside
  · obtain ⟨a, held, -⟩ := kept.backed c pending
    obtain ⟨w', ran, freed⟩ := free_exactly kept.routed held spells
    exact ⟨_, w', ran, not_inBounds_of_freed kept.routed held freed.gone⟩

end Runs

/-- A struct passed to a call on wasm, which has not returned yet: copied in
once, and to be copied back where it came from. -/
theorem struct_copies_bracketed_midway : ∃ (s : Traced .x86_64 Int Unit) (c : StructCleanup .x86_64),
    s.trace.count c.copyIn = 1 ∧ s.trace.count c.call = 0 ∧ InBounds 0x10000 s.world c ∧
      ∃ calls w', s.world.exec wasmPolicy (.free 0x10#64) = some ⟨calls, none, w'⟩ ∧
        ¬ InBounds 0x10000 w' c := by
  let c : StructCleanup .x86_64 := ⟨⟨"lib", "pair"⟩, 0x8000000000000010#64, 0x20#32⟩
  have run : Run (TracedStep 0x10000 wasmPolicy) ⟨.initial (), []⟩
      (structOps ++ [.enter "area" none [Arg.pointer 0x8000000000000010#64]]) ⟨_, _⟩ :=
    .cons ⟨rfl, ⟨_, _, rfl, trivial, trivial, trivial⟩, trivial⟩
      (.cons ⟨rfl, ⟨_, _, rfl, trivial, trivial, trivial⟩, trivial⟩
        (.cons ⟨rfl, ⟨_, _, rfl, by decide, by decide, trivial⟩, trivial⟩
          (.cons ⟨rfl, ⟨_, _, rfl, by decide, trivial, trivial⟩, trivial⟩ .nil)))
  obtain ⟨matched, inBounds, freed⟩ := struct_copies_bracketed ⟨0x10000#64, by decide, by decide⟩ run
  refine ⟨_, c, (matched c).trans (by decide), by decide, ?_, freed c (by decide) 0x10#64 (.inr (by decide))⟩
  exact inBounds (.leave 0 ⟨0#32, 0#64, 0#64⟩ 1) _ _ _ c rfl (.inr (by decide))

end RlboxDynamic
