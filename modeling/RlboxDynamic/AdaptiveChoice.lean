import RlboxDynamic.PolicyContext

/-! What the adaptive policy's choices rest on over whole runs: the medians of
the history before the last named invoke, once the warm-up is over and no
exploration is due. Every allocation after that invoke, and the next invoke
whose arguments no backend owns, goes where those medians were lower. -/
namespace RlboxDynamic
open Transition OrderStatistics

variable {t : Target} {D : Type}

/-- The policy draws after its `n`-th named invoke. -/
def Explores (allocWarmup reexplorePeriod n : SizeT t) : Prop :=
  n < allocWarmup ∨
    reexplorePeriod ≠ 0#t.ptrBits ∧ (n - allocWarmup) % reexplorePeriod = 0#t.ptrBits

def invokedAfter {D : Type} : SymbolHistory t D × MetaOp t D → Option (SymbolHistory t D)
  | (h, .enter _ _ _) => some h
  | _ => none

/-- The history each named invoke so far came after. -/
def Observation.invokes {π : Type} (o : Observation t D π) : List (SymbolHistory t D) :=
  o.queries.filterMap invokedAfter

variable [Millis D] [LinearOrder D]

/-- The backend whose medians add up to less, unless they add up to the same. -/
def Settles (h : SymbolHistory t D) (b : MetaBackend) : Prop :=
  ∃ rows process wasm, SumsUp h rows process wasm ∧
    (process < wasm → b = .process) ∧ (wasm < process → b = .wasm)

/-- What a stored choice rests on. Before any named invoke it is process. -/
structure RestsOn (allocWarmup reexplorePeriod : SizeT t) (invokes : List (SymbolHistory t D))
    (b : MetaBackend) : Prop where
  unasked : invokes = [] → b = .process
  settled : ∀ earlier h, invokes = earlier ++ [h] →
    ¬ Explores allocWarmup reexplorePeriod (BitVec.ofNat t.ptrBits earlier.length) → Settles h b

/-- `double`s compare as the samples do. -/
structure Ordered (D : Type) [Millis D] [LinearOrder D] : Prop where
  lt : ∀ a b : D, Millis.lt a b = decide (a < b)
  eq : ∀ a b : D, Millis.eq a b = decide (a = b)

variable {allocWarmup reexplorePeriod : SizeT t}

section Policy
variable {state : AdaptiveState t} {ctx : MetaPolicyContext t D} {name : String}

omit [LinearOrder D] in
theorem adaptive_counts (named : ctx.funcName = some name) :
    (makeAdaptivePolicy allocWarmup reexplorePeriod state ctx).2.namedInvokeCount =
      state.namedInvokeCount + 1 := by
  simp only [makeAdaptivePolicy, named]
  repeat' split
  all_goals rfl

theorem adaptive_settles (ordered : Ordered D) (named : ctx.funcName = some name)
    (steady : ¬ Explores allocWarmup reexplorePeriod state.namedInvokeCount) :
    (ctx.procMedianSum < ctx.wasmMedianSum →
        (makeAdaptivePolicy allocWarmup reexplorePeriod state ctx).2.currentBest = .process) ∧
      (ctx.wasmMedianSum < ctx.procMedianSum →
        (makeAdaptivePolicy allocWarmup reexplorePeriod state ctx).2.currentBest = .wasm) := by
  obtain ⟨warm, due⟩ := not_or.mp steady
  simp only [makeAdaptivePolicy, named, if_neg warm, if_neg due, ordered.lt, ordered.eq]
  constructor <;> intro less
  · simp [less.ne, less]
  · simp [less.ne', less.not_gt]

omit [LinearOrder D] in
/-- A named invoke of a symbol asks for the stored choice, or for process where
that has no binding for it. -/
theorem adaptive_asks (named : ctx.funcName = some name) :
    (makeAdaptivePolicy allocWarmup reexplorePeriod state ctx).1 =
      if state.currentBest = .wasm ∧ ctx.hasWasm = false then .process else state.currentBest := by
  simp [makeAdaptivePolicy, named]

end Policy

section Run
variable {o o' : Observation t D (AdaptiveState t)} {op : MetaOp t D} {ops : List (MetaOp t D)}

/-- The stored choice rests on the last named invoke, and the policy has
counted them. -/
structure Adapts (allocWarmup reexplorePeriod : SizeT t) (o : Observation t D (AdaptiveState t)) :
    Prop where
  remembers : Remembers o.history o.world
  counted : o.world.sandbox.policyState.namedInvokeCount = BitVec.ofNat t.ptrBits o.invokes.length
  rests : o.history.Countable →
    RestsOn allocWarmup reexplorePeriod o.invokes o.world.sandbox.policyState.currentBest

omit [LinearOrder D] in
/-- An operation that is no named invoke leaves the policy and its account. -/
theorem ObservedStep.noInvoke (observed : ObservedStep (makeAdaptivePolicy allocWarmup reexplorePeriod) o op o')
    (quiet : ¬ op.IsInvoke) :
    o'.world.sandbox.policyState = o.world.sandbox.policyState ∧ o'.invokes = o.invokes := by
  refine ⟨step_steady ⟨quiet, observed.step⟩, ?_⟩
  rw [Observation.invokes, Observation.invokes, observed.queries, List.filterMap_append]
  cases op with
  | enter => exact absurd trivial quiet
  | _ => exact List.append_nil _

omit [LinearOrder D] in
/-- A named invoke asks the policy with the context of its symbol's record. -/
theorem ObservedStep.invoke {symbol : String} {ret : Option CType} {args : List (Arg t)}
    (observed : ObservedStep (makeAdaptivePolicy allocWarmup reexplorePeriod) o (.enter symbol ret args) o') :
    o'.invokes = o.invokes ++ [o.history] ∧ ∃ r, o.world.record symbol = some r ∧
      o'.world.sandbox.policyState = (makeAdaptivePolicy allocWarmup reexplorePeriod
        o.world.sandbox.policyState (o.world.sandbox.invokeContext r)).2 := by
  constructor
  · rw [Observation.invokes, Observation.invokes, observed.queries, List.filterMap_append]
    rfl
  · obtain ⟨calls, returned, ran⟩ := observed.step
    obtain ⟨-, b, went⟩ := execEnter_ok ran
    generalize o'.world = next at went
    cases went with
    | process found | wasm found => exact ⟨_, found, rfl⟩

theorem Adapts.step (ordered : Ordered D) (adapts : Adapts allocWarmup reexplorePeriod o)
    (observed : ObservedStep (makeAdaptivePolicy allocWarmup reexplorePeriod) o op o') :
    Adapts allocWarmup reexplorePeriod o' := by
  by_cases quiet : op.IsInvoke
  · cases op with
    | enter symbol ret args =>
      obtain ⟨invokes, r, found, state⟩ := observed.invoke
      refine ⟨observed.remembers adapts.remembers, ?_, fun countable => ⟨?_, ?_⟩⟩
      · rw [state, adaptive_counts rfl, adapts.counted, invokes, List.length_append]
        exact (BitVec.ofNat_add _ _).symm
      · rw [invokes]
        intro none
        simp at none
      · intro earlier h split steady
        rw [invokes] at split
        obtain ⟨rfl, last⟩ := List.append_inj' split rfl
        cases last
        rw [← adapts.counted] at steady
        have told := adapts.remembers.invokeTold ordered.lt (observed.countable countable) found
        obtain ⟨rows, sums⟩ := told.sums
        rw [state]
        exact ⟨rows, _, _, sums, adaptive_settles ordered rfl steady⟩
    | _ => cases quiet
  · obtain ⟨state, invokes⟩ := observed.noInvoke quiet
    refine ⟨observed.remembers adapts.remembers, ?_, fun countable => ?_⟩
    · rw [state, invokes]
      exact adapts.counted
    · rw [state, invokes]
      exact adapts.rests (observed.countable countable)

theorem run_adapts (ordered : Ordered D) (draws : Nat → Bool)
    (run : Run (ObservedStep (makeAdaptivePolicy allocWarmup reexplorePeriod)) (.initial { rng := draws })
      ops o) : Adapts allocWarmup reexplorePeriod o := by
  have first : Adapts (D := D) allocWarmup reexplorePeriod (.initial { rng := draws }) :=
    ⟨remembers_initial _, rfl, fun _ => ⟨fun _ => rfl, fun earlier _ split => by
      cases earlier <;> cases split⟩⟩
  exact run.invariant first fun _ _ _ adapts observed => adapts.step ordered observed

/-- Over every run under the adaptive policy one choice is stored that rests on
the medians before the last named invoke. Every allocation goes there, and so
does the next invoke of which no argument has an owner, or to process where its
symbol has no wasm binding. -/
theorem adaptive_choice_rests_on_medians (ordered : Ordered D) (draws : Nat → Bool)
    (run : Run (ObservedStep (makeAdaptivePolicy allocWarmup reexplorePeriod)) (.initial { rng := draws })
      ops o) (countable : o.history.Countable) :
    ∃ b, RestsOn allocWarmup reexplorePeriod o.invokes b ∧
      (∀ size answers calls returned w',
        o.world.exec (makeAdaptivePolicy allocWarmup reexplorePeriod) (.malloc size answers) =
          some ⟨calls, returned, w'⟩ →
        calls.head?.bind BackendCall.side = some b ∧
          ∀ p, returned = some p → w'.sandbox.allocOwner.lookup p = some b) ∧
      ∀ symbol r args, o.world.record symbol = some r →
        (∀ a ∈ args, ∀ owner, ¬ o.world.sandbox.Finds a owner) →
        (o.world.sandbox.dispatch (makeAdaptivePolicy allocWarmup reexplorePeriod) r args).1 =
          .ok (if b = .wasm ∧ o.history.binding symbol = some 0#t.ptrBits then .process else b) := by
  have adapts := run_adapts ordered draws run
  refine ⟨_, adapts.rests countable, ?_, ?_⟩
  · intro size answers calls returned w' ran
    have routed := (execMalloc_ok ran).2
    rw [← mallocChoice_adaptive.1]
    exact ⟨routed.first, routed.owner⟩
  · intro symbol r args found unowned
    have recalls : Recalls o.history symbol r := adapts.remembers.records symbol r found
    have unbound : (o.world.sandbox.invokeContext r).hasWasm = false ↔
        o.history.binding symbol = some 0#t.ptrBits := by
      simp [MetaSandbox.invokeContext, recalls.binding]
    refine MetaSandbox.dispatch_pick ?_ ?_ fun a inside owner found => absurd found (unowned a inside owner)
    · rw [adaptive_asks rfl]
      simp only [unbound]
    · intro wasm bound
      rw [recalls.binding, bound] at wasm
      split at wasm
      · cases wasm
      · rename_i other
        exact other ⟨wasm, rfl⟩

/-- Two measured invokes, one on each backend, and a third. -/
def thirdOps : List (MetaOp .x86_64 Int) :=
  [.lookupSymbol 0x401000#64 1#64 "area", .enter "area" none [], .leave 0 ⟨0#32, 0#64, 0#64⟩ 3,
    .enter "area" none [], .leave 0 ⟨0#32, 0#64, 0#64⟩ 5, .enter "area" none []]

theorem adaptive_choice_after_third : ∃ (o : Observation .x86_64 Int (AdaptiveState .x86_64)) (b : _),
    Run (ObservedStep (makeAdaptivePolicy 1#64 0#64)) (.initial { rng := fun _ => false }) thirdOps o ∧
      o.invokes.length = 3 ∧ RestsOn 1#64 0#64 o.invokes b ∧
      ∀ size answers calls returned w',
        o.world.exec (makeAdaptivePolicy 1#64 0#64) (.malloc size answers) =
          some ⟨calls, returned, w'⟩ → calls.head?.bind BackendCall.side = some b := by
  have done : (execAll (Observation.exec (makeAdaptivePolicy (D := Int) 1#64 0#64))
      (.initial { rng := fun _ => false }) thirdOps).map
      (fun o => (o.invokes.length, o.history.length)) = some (3, 3) := rfl
  obtain ⟨o, ran, seen⟩ := exists_run done
  obtain ⟨three, short⟩ := Prod.mk.inj seen
  have run : Run (ObservedStep (makeAdaptivePolicy 1#64 0#64)) (.initial { rng := fun _ => false })
      thirdOps o := ran.mono (observed_of_exec _)
  obtain ⟨b, rests, mallocs, -⟩ := adaptive_choice_rests_on_medians ⟨fun _ _ => rfl, fun _ _ => by
    simp [Millis.eq, beq_eq_decide]⟩ _ run (SymbolHistory.countable_of_length (by rw [short]; decide))
  exact ⟨o, b, run, three, rests, fun size answers calls returned w' ran =>
    (mallocs size answers calls returned w' ran).1⟩

end Run
end RlboxDynamic
