import RlboxDynamic.AdaptiveLocality
import RlboxDynamic.SymbolHistory

/-! What a policy is told. Over whole runs, each context it is asked with says
what the history up to then says: the binding and the last latencies of the
symbol, and the sums of medians over the symbols both backends have served. The
adaptive policy's choices are read off that. -/
namespace RlboxDynamic
open Transition OrderStatistics

variable {t : Target} {D π : Type}

/-! ## Contexts and histories -/

section Contexts
variable [Millis D] [LinearOrder D]

/-- A count and a median tell the last eight of some latencies. -/
structure Reports (latencies : List D) (samples : Nat) (median : D) : Prop where
  samples : samples = min latencies.length LatencyRing.N
  fresh : latencies = [] → median = 0
  median : latencies ≠ [] →
    IsLowerMedian (LatencyRing.recent LatencyRing.N latencies) median

/-- The symbol has a wasm binding and has been measured on both backends. -/
def SymbolHistory.Compared (h : SymbolHistory t D) (symbol : String) : Prop :=
  (∃ wasmSym, h.binding symbol = some wasmSym ∧ wasmSym ≠ 0#t.ptrBits) ∧
    ∀ b, h.latencies symbol b ≠ []

/-- What one symbol adds to the two sums. -/
structure MedianRow (D : Type) where
  symbol : String
  process : D
  wasm : D

/-- The sums of the rows in turn, with one row for each compared symbol. The
order is the cache's own. -/
structure SumsUp (h : SymbolHistory t D) (rows : List (MedianRow D)) (process wasm : D) : Prop where
  once : (rows.map MedianRow.symbol).Nodup
  compared : ∀ symbol, symbol ∈ rows.map MedianRow.symbol ↔ h.Compared symbol
  medians : ∀ row ∈ rows,
    IsLowerMedian (LatencyRing.recent LatencyRing.N (h.latencies row.symbol .process)) row.process ∧
      IsLowerMedian (LatencyRing.recent LatencyRing.N (h.latencies row.symbol .wasm)) row.wasm
  process : process = rows.foldl (fun sum row => sum + row.process) 0
  wasm : wasm = rows.foldl (fun sum row => sum + row.wasm) 0

/-- The context of a named invoke says what the history says. -/
structure InvokeTold (h : SymbolHistory t D) (symbol : String) (ctx : MetaPolicyContext t D) : Prop where
  name : ctx.funcName = some symbol
  hasWasm : ctx.hasWasm = true ↔ ∃ wasmSym, h.binding symbol = some wasmSym ∧ wasmSym ≠ 0#t.ptrBits
  process : Reports (h.latencies symbol .process) ctx.procSamples ctx.procMedianMs
  wasm : Reports (h.latencies symbol .wasm) ctx.wasmSamples ctx.wasmMedianMs
  noSize : ctx.allocSize = 0#t.ptrBits
  sums : ∃ rows, SumsUp h rows ctx.procMedianSum ctx.wasmMedianSum

/-- The context of an allocation has the size and the sums. -/
structure AllocTold (h : SymbolHistory t D) (size : SizeT t) (ctx : MetaPolicyContext t D) : Prop where
  unnamed : ctx.funcName = none ∧ ctx.hasWasm = false
  unsampled : ctx.procSamples = 0 ∧ ctx.wasmSamples = 0 ∧ ctx.procMedianMs = 0 ∧ ctx.wasmMedianMs = 0
  size : ctx.allocSize = size
  sums : ∃ rows, SumsUp h rows ctx.procMedianSum ctx.wasmMedianSum

/-- The context belongs to the operation and to the history before it. -/
inductive Told : SymbolHistory t D × MetaOp t D → MetaPolicyContext t D → Prop where
  | invoke (told : InvokeTold h symbol ctx) : Told (h, .enter symbol ret args) ctx
  | alloc (told : AllocTold h size ctx) : Told (h, .malloc size answers) ctx

end Contexts

/-! ## What the sandbox reads off its records -/

section Records
variable [Millis D] [LinearOrder D] {h : SymbolHistory t D} {w : MetaWorld t D π} {symbol : String}
  {r : MetaSymbolRecord t D}

theorem reports_pushAll (compares : ∀ a b : D, Millis.lt a b = decide (a < b)) {latencies : List D}
    (short : latencies.length < 2 ^ t.ptrBits) :
    Reports latencies (LatencyRing.pushAll t latencies).size (LatencyRing.pushAll t latencies).median := by
  have told := (LatencyRing.summarizes_iff compares latencies).mpr (.inl short)
  have last : LatencyRing.recent (LatencyRing.pushAll t latencies).size latencies =
      LatencyRing.recent LatencyRing.N latencies := by
    rw [told.size, LatencyRing.recent, LatencyRing.recent]
    congr 1
    omega
  have eight : LatencyRing.recent LatencyRing.N latencies = [] ↔ latencies = [] := by
    rw [LatencyRing.recent, List.drop_eq_nil_iff, ← List.length_eq_zero_iff, LatencyRing.N]
    omega
  refine ⟨told.size, fun none => told.fresh (by rw [last, eight]; exact none), fun some_ => ?_⟩
  have median := (told.median (by rw [last, Ne, eight]; exact some_) _).mpr rfl
  rwa [last] at median

theorem Recalls.reports (compares : ∀ a b : D, Millis.lt a b = decide (a < b))
    (recalls : Recalls h symbol r) (countable : h.Countable) (b : MetaBackend) :
    Reports (h.latencies symbol b) (r.latency b).size (r.latency b).median := by
  rw [recalls.latency b]
  exact reports_pushAll compares (countable symbol b)

omit [LinearOrder D] in
theorem Recalls.sampled (recalls : Recalls h symbol r) (countable : h.Countable) (b : MetaBackend) :
    (r.latency b).size ≠ 0 ↔ h.latencies symbol b ≠ [] := by
  have counted := (LatencyRing.holds_pushAll (t := t) (h.latencies symbol b)).size_eq_min_iff.mpr
    (.inl (countable symbol b))
  rw [recalls.latency b, counted, Ne, Ne, ← List.length_eq_zero_iff, LatencyRing.N]
  omega

/-- The record takes part in the sums. -/
def MetaSymbolRecord.isCompared (r : MetaSymbolRecord t D) : Bool :=
  r.wasmSym ≠ 0#t.ptrBits && r.processLatency.size ≠ 0 && r.wasmLatency.size ≠ 0

def MetaSymbolRecord.row (entry : Sigma fun _ : String => MetaSymbolRecord t D) : MedianRow D :=
  ⟨entry.1, entry.2.processLatency.median, entry.2.wasmLatency.median⟩

/-- The rows `snapshot_median_sums` adds up, in the cache's order. -/
def MetaSandbox.medianRows (s : MetaSandbox t D π) : List (MedianRow D) :=
  (s.symbolCache.entries.filter (·.2.isCompared)).map MetaSymbolRecord.row

omit [LinearOrder D] in
theorem snapshot_rows (s : MetaSandbox t D π) : s.snapshotMedianSums =
    (s.medianRows.foldl (fun sum row => sum + row.process) 0,
      s.medianRows.foldl (fun sum row => sum + row.wasm) 0) := by
  unfold MetaSandbox.snapshotMedianSums MetaSandbox.medianRows
  generalize (0 : D) = process
  dsimp only
  generalize s.symbolCache.entries = entries
  suffices loop : ∀ wasm : D,
      ((entries.map Sigma.snd).filter (·.wasmSym ≠ 0#t.ptrBits)).foldl
        (fun sums record =>
          if record.processLatency.size = 0 ∨ record.wasmLatency.size = 0 then sums
          else (sums.1 + record.processLatency.median, sums.2 + record.wasmLatency.median))
        (process, wasm) =
      (((entries.filter (·.2.isCompared)).map MetaSymbolRecord.row).foldl
          (fun sum row => sum + row.process) process,
        ((entries.filter (·.2.isCompared)).map MetaSymbolRecord.row).foldl
          (fun sum row => sum + row.wasm) wasm) from loop process
  induction entries generalizing process with
  | nil => exact fun _ => rfl
  | cons entry rest ih =>
    intro wasm
    by_cases bound : entry.2.wasmSym = 0#t.ptrBits
    · have left : entry.2.isCompared = false := by simp [MetaSymbolRecord.isCompared, bound]
      simpa [bound, left] using ih process wasm
    · by_cases sampled : entry.2.processLatency.size = 0 ∨ entry.2.wasmLatency.size = 0
      · have left : entry.2.isCompared = false := by
          rcases sampled with none | none <;> simp [MetaSymbolRecord.isCompared, none]
        simpa [bound, sampled, left] using ih process wasm
      · have taken : entry.2.isCompared = true := by
          simpa [MetaSymbolRecord.isCompared, bound] using sampled
        simpa [bound, sampled, taken, MetaSymbolRecord.row] using ih _ _

theorem Remembers.sums (compares : ∀ a b : D, Millis.lt a b = decide (a < b))
    (remembers : Remembers h w) (countable : h.Countable) :
    SumsUp h w.sandbox.medianRows w.sandbox.snapshotMedianSums.1 w.sandbox.snapshotMedianSums.2 := by
  have entry : ∀ symbol r, ⟨symbol, r⟩ ∈ w.sandbox.symbolCache.entries ↔ w.record symbol = some r :=
    fun symbol r => AList.mem_lookup_iff.symm
  have recalled : ∀ symbol r, w.record symbol = some r → Recalls h symbol r := remembers.records
  have isCompared : ∀ symbol r, w.record symbol = some r →
      (r.isCompared = true ↔ h.Compared symbol) := by
    intro symbol r found
    have recalls := recalled symbol r found
    have process := recalls.sampled countable .process
    have wasm := recalls.sampled countable .wasm
    have both : (∀ b, h.latencies symbol b ≠ []) ↔
        r.processLatency.size ≠ 0 ∧ r.wasmLatency.size ≠ 0 :=
      ⟨fun every => ⟨process.mpr (every .process), wasm.mpr (every .wasm)⟩,
        fun sizes b => by cases b; exacts [process.mp sizes.1, wasm.mp sizes.2]⟩
    have bound : (∃ wasmSym, h.binding symbol = some wasmSym ∧ wasmSym ≠ 0#t.ptrBits) ↔
        r.wasmSym ≠ 0#t.ptrBits := by simp [recalls.binding]
    rw [SymbolHistory.Compared, both, bound]
    simp [MetaSymbolRecord.isCompared, and_assoc]
  have names : w.sandbox.medianRows.map MedianRow.symbol =
      (w.sandbox.symbolCache.entries.filter (·.2.isCompared)).map Sigma.fst := by
    simp [MetaSandbox.medianRows, MetaSymbolRecord.row]
  refine ⟨?_, fun symbol => ?_, fun row inside => ?_, congrArg Prod.fst (snapshot_rows _),
    congrArg Prod.snd (snapshot_rows _)⟩
  · rw [names]
    exact List.NodupKeys.sublist List.filter_sublist w.sandbox.symbolCache.nodupKeys
  · rw [names, List.mem_map]
    constructor
    · rintro ⟨⟨name, r⟩, inside, rfl⟩
      obtain ⟨cached, taken⟩ := List.mem_filter.mp inside
      exact (isCompared name r ((entry name r).mp cached)).mp taken
    · intro compared
      cases found : w.record symbol with
      | none =>
        obtain ⟨⟨wasmSym, bound, -⟩, -⟩ := compared
        cases (remembers.unbound symbol found).symm.trans bound
      | some r =>
        exact ⟨⟨symbol, r⟩, List.mem_filter.mpr ⟨(entry symbol r).mpr found,
          (isCompared symbol r found).mpr compared⟩, rfl⟩
  · obtain ⟨⟨name, r⟩, taken, rfl⟩ := List.mem_map.mp inside
    obtain ⟨cached, comparedHere⟩ := List.mem_filter.mp taken
    have found := (entry name r).mp cached
    have compared := (isCompared name r found).mp comparedHere
    have recalls := recalled name r found
    exact ⟨(recalls.reports compares countable .process).median (compared.2 .process),
      (recalls.reports compares countable .wasm).median (compared.2 .wasm)⟩

theorem Remembers.invokeTold (compares : ∀ a b : D, Millis.lt a b = decide (a < b))
    (remembers : Remembers h w) (countable : h.Countable) (found : w.record symbol = some r) :
    InvokeTold h symbol (w.sandbox.invokeContext r) := by
  have recalls : Recalls h symbol r := remembers.records symbol r found
  exact {
    name := congrArg some recalls.name
    hasWasm := by simp [MetaSandbox.invokeContext, recalls.binding]
    process := recalls.reports compares countable .process
    wasm := recalls.reports compares countable .wasm
    noSize := rfl
    sums := ⟨_, remembers.sums compares countable⟩ }

end Records

/-! ## Over a run -/

/-- An operation the policy is asked about. -/
def MetaOp.consults : MetaOp t D → Bool
  | .enter _ _ _ | .malloc _ _ => true
  | _ => false

/-- A world, its history, and the operations the policy was asked about with
the history each of them came after. -/
structure Observation (t : Target) (D π : Type) where
  world : MetaWorld t D π
  history : SymbolHistory t D
  queries : List (SymbolHistory t D × MetaOp t D)

def Observation.query (o : Observation t D π) (op : MetaOp t D) :
    List (SymbolHistory t D × MetaOp t D) := if op.consults then [(o.history, op)] else []

section Steps
variable [Millis D]

def Observation.initial (start : π) : Observation t D π := ⟨.initial start, [], []⟩

/-- A step with what is seen of it. -/
structure ObservedStep (policy : MetaPolicyFn t D π) (o : Observation t D π) (op : MetaOp t D)
    (o' : Observation t D π) : Prop where
  step : MetaWorld.Step policy o.world op o'.world
  history : o'.history = o.history ++ o.world.events op
  queries : o'.queries = o.queries ++ o.query op

/-- The one step of an operation, where the process survives it. -/
def Observation.exec (policy : MetaPolicyFn t D π) (o : Observation t D π) (op : MetaOp t D) :
    Option (Observation t D π) :=
  (o.world.exec policy op).map fun effect =>
    ⟨effect.next, o.history ++ o.world.events op, o.queries ++ o.query op⟩

theorem observed_of_exec (policy : MetaPolicyFn t D π) (o : Observation t D π) (op : MetaOp t D)
    (o' : Observation t D π) (ran : o.exec policy op = some o') : ObservedStep policy o op o' := by
  obtain ⟨⟨calls, returned, next⟩, step, rfl⟩ := Option.map_eq_some_iff.mp ran
  exact ⟨⟨calls, returned, step⟩, rfl, rfl⟩

/-- A policy with the contexts it was asked with, which it does not look at. -/
def logged (policy : MetaPolicyFn t D π) : MetaPolicyFn t D (π × List (MetaPolicyContext t D)) :=
  fun state ctx =>
    let (choice, next) := policy state.1 ctx
    (choice, next, state.2 ++ [ctx])

/-- The contexts a logged policy was asked with. -/
def MetaWorld.contexts (w : MetaWorld t D (π × List (MetaPolicyContext t D))) :
    List (MetaPolicyContext t D) := w.sandbox.policyState.2

variable {policy : MetaPolicyFn t D π} {op : MetaOp t D} {ops : List (MetaOp t D)}

theorem ObservedStep.remembers {o o' : Observation t D π} (observed : ObservedStep policy o op o')
    (remembers : Remembers o.history o.world) : Remembers o'.history o'.world := by
  obtain ⟨⟨_, _, ran⟩, history, -⟩ := observed
  rw [history]
  exact step_remembers remembers ran

theorem ObservedStep.countable {o o' : Observation t D π} (observed : ObservedStep policy o op o')
    (countable : o'.history.Countable) : o.history.Countable := by
  rw [observed.history] at countable
  exact countable.of_append

variable [LinearOrder D]

/-- An operation asks the policy once, if at all, and tells it the history. -/
theorem step_told {w w' : MetaWorld t D (π × List (MetaPolicyContext t D))}
    {h : SymbolHistory t D} {calls : List (BackendCall t)} {returned : Option (TPointer t)}
    (compares : ∀ a b : D, Millis.lt a b = decide (a < b)) (remembers : Remembers h w)
    (countable : h.Countable) (ran : w.exec (logged policy) op = some ⟨calls, returned, w'⟩) :
    ∃ asked, w'.contexts = w.contexts ++ asked ∧
      List.Forall₂ Told (if op.consults then [(h, op)] else []) asked := by
  have quiet : w'.sandbox.policyState = w.sandbox.policyState → op.consults = false →
      ∃ asked, w'.contexts = w.contexts ++ asked ∧
        List.Forall₂ Told (if op.consults then [(h, op)] else []) asked := by
    intro same unasked
    exact ⟨[], by rw [MetaWorld.contexts, same, List.append_nil]; rfl, by simp [unasked]⟩
  cases op with
  | enter symbol ret args =>
    obtain ⟨-, b, went⟩ := execEnter_ok ran
    cases went with
    | process found | wasm found =>
      exact ⟨_, rfl, .cons (.invoke (remembers.invokeTold compares countable found)) .nil⟩
  | malloc size answers =>
    have routed := (execMalloc_ok ran).2.policyState
    let ctx : MetaPolicyContext t D :=
      { funcName := none, allocSize := size, procMedianSum := w.sandbox.snapshotMedianSums.1,
        wasmMedianSum := w.sandbox.snapshotMedianSums.2 }
    have told : AllocTold h size ctx :=
      ⟨⟨rfl, rfl⟩, ⟨rfl, rfl, rfl, rfl⟩, rfl, _, remembers.sums compares countable⟩
    refine ⟨[ctx], ?_, .cons (.alloc told) .nil⟩
    rw [MetaWorld.contexts, routed]
    rfl
  | _ => exact quiet (step_policyState id (fun _ _ other => by cases other) ran) rfl

/-- The sandbox remembers the history, and has told the policy all of it. -/
structure ToldSoFar (o : Observation t D (π × List (MetaPolicyContext t D))) : Prop where
  remembers : Remembers o.history o.world
  told : o.history.Countable → List.Forall₂ Told o.queries o.world.contexts

theorem ToldSoFar.step {o o' : Observation t D (π × List (MetaPolicyContext t D))}
    (compares : ∀ a b : D, Millis.lt a b = decide (a < b)) (soFar : ToldSoFar o)
    (observed : ObservedStep (logged policy) o op o') : ToldSoFar o' := by
  refine ⟨observed.remembers soFar.remembers, fun countable => ?_⟩
  have before := observed.countable countable
  obtain ⟨_, _, ran⟩ := observed.step
  obtain ⟨asked, contexts, here⟩ := step_told compares soFar.remembers before ran
  rw [observed.queries, contexts]
  exact List.rel_append (soFar.told before) here

/-- Every context a policy is asked with over a run is told by the history
before it, one for each invoke and each allocation in turn. -/
theorem policy_told_exactly (policy : MetaPolicyFn t D π) (start : π)
    (compares : ∀ a b : D, Millis.lt a b = decide (a < b))
    {o : Observation t D (π × List (MetaPolicyContext t D))}
    (run : Run (ObservedStep (logged policy)) (.initial (start, [])) ops o)
    (countable : o.history.Countable) : List.Forall₂ Told o.queries o.world.contexts := by
  have first : ToldSoFar (D := D) (t := t) (.initial (start, [])) :=
    ⟨remembers_initial _, fun _ => .nil⟩
  exact (run.invariant first fun _ _ _ soFar observed => soFar.step compares observed).told countable

/-- A policy that takes turns. -/
def takesTurns : MetaPolicyFn .x86_64 Int Bool := fun turn _ =>
  (if turn then .wasm else .process, !turn)

/-- One invoke on each backend, then an allocation and one more invoke. -/
def turnOps : List (MetaOp .x86_64 Int) :=
  [.lookupSymbol 0x401000#64 1#64 "area", .enter "area" none [], .leave 0 ⟨0#32, 0#64, 0#64⟩ 3,
    .enter "area" none [], .leave 0 ⟨0#32, 0#64, 0#64⟩ 5, .malloc 8#64 ⟨0x10#32, 0x40001000#64, 0#32⟩,
    .enter "area" none []]

theorem policy_told_of_turns : ∃ o : Observation .x86_64 Int (Bool × _),
    Run (ObservedStep (logged takesTurns)) (.initial (false, [])) turnOps o ∧
      o.queries.length = 4 ∧ List.Forall₂ Told o.queries o.world.contexts := by
  have done : (execAll (Observation.exec (logged takesTurns)) (.initial (false, [])) turnOps).map
      (fun o => (o.queries.length, o.history.length)) = some (4, 3) := rfl
  obtain ⟨o, ran, seen⟩ := exists_run done
  obtain ⟨four, short⟩ := Prod.mk.inj seen
  have run := ran.mono (observed_of_exec (logged takesTurns))
  have countable : o.history.Countable :=
    SymbolHistory.countable_of_length (by rw [short]; decide)
  exact ⟨o, run, four, policy_told_exactly takesTurns false (fun _ _ => rfl) run countable⟩

end Steps
end RlboxDynamic
