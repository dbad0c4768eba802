import RlboxDynamic.LatencySamples
import RlboxDynamic.SymbolRecords

/-! What the sandbox remembers of its symbols. The history of a run, as its
client sees it, has the lookups and the measured dispatches; the records of the
cache hold what that history says and nothing else. -/
namespace RlboxDynamic
open Transition

variable {t : Target} {D π : Type}

/-- What happens to a symbol: a lookup, with the wasm binding it found, or a
dispatch that returned. -/
inductive SymbolEvent (t : Target) (D : Type) where
  | lookedUp (symbol : String) (wasmSym : TPointer t)
  | measured (symbol : String) (which : MetaBackend) (elapsed : D)

namespace SymbolEvent

def binds (symbol : String) : SymbolEvent t D → Option (TPointer t)
  | .lookedUp name wasmSym => if name = symbol then some wasmSym else none
  | .measured .. => none

def measures (symbol : String) (b : MetaBackend) : SymbolEvent t D → Option D
  | .lookedUp .. => none
  | .measured name which elapsed => if name = symbol ∧ which = b then some elapsed else none

end SymbolEvent

abbrev SymbolHistory (t : Target) (D : Type) := List (SymbolEvent t D)

namespace SymbolHistory

/-- The wasm binding a symbol has from its first lookup on. -/
def binding (h : SymbolHistory t D) (symbol : String) : Option (TPointer t) :=
  h.findSome? (SymbolEvent.binds symbol)

/-- The latencies a symbol showed on a backend, oldest first. -/
def latencies (h : SymbolHistory t D) (symbol : String) (b : MetaBackend) : List D :=
  h.filterMap (SymbolEvent.measures symbol b)

/-- No latency ring has been pushed as often as its counter can count. -/
def Countable (h : SymbolHistory t D) : Prop :=
  ∀ symbol b, (h.latencies symbol b).length < 2 ^ t.ptrBits

variable {h more : SymbolHistory t D} {symbol : String} {b : MetaBackend}

theorem binding_append :
    binding (h ++ more) symbol = (h.binding symbol).or (binding more symbol) := by
  simp [binding, List.findSome?_append]

theorem latencies_append :
    latencies (h ++ more) symbol b = h.latencies symbol b ++ latencies more symbol b := by
  simp [latencies]

theorem Countable.of_append (countable : Countable (h ++ more)) : h.Countable := by
  intro symbol b
  have longer := countable symbol b
  rw [latencies_append, List.length_append] at longer
  omega

theorem countable_of_length (short : h.length < 2 ^ t.ptrBits) : h.Countable := by
  intro symbol b
  have fewer := List.length_filterMap_le (SymbolEvent.measures symbol b) h
  exact Nat.lt_of_le_of_lt fewer short

end SymbolHistory

/-- What an operation adds to the history. -/
def MetaWorld.events (w : MetaWorld t D π) : MetaOp t D → SymbolHistory t D
  | .lookupSymbol _ wasmSym funcName => [.lookedUp funcName wasmSym]
  | op =>
    match w.completes op with
    | some (frame, elapsed) => [.measured frame.symbol frame.which elapsed]
    | none => []

/-- The ring of a record for one backend. -/
def MetaSymbolRecord.latency (r : MetaSymbolRecord t D) : MetaBackend → LatencyRing t D
  | .process => r.processLatency
  | .wasm => r.wasmLatency

/-- A sample is pushed on its own backend's ring. Names and bindings stay. -/
theorem MetaSymbolRecord.pushSample_keeps (r : MetaSymbolRecord t D) (which : MetaBackend)
    (n : BitVec 32) (elapsed : D) :
    (r.pushSample which n elapsed).name = r.name ∧ (r.pushSample which n elapsed).wasmSym = r.wasmSym ∧
      ∀ b, (r.pushSample which n elapsed).latency b =
        if which = b then (r.latency b).push elapsed else r.latency b := by
  unfold MetaSymbolRecord.pushSample
  cases which <;> dsimp only <;> (repeat' split) <;> refine ⟨rfl, rfl, ?_⟩ <;> rintro (_ | _) <;> rfl

section Recalls
variable [Millis D] {h : SymbolHistory t D} {w : MetaWorld t D π} {symbol : String}
  {r : MetaSymbolRecord t D} {op : MetaOp t D}

/-- A record holds what the history says of its symbol. -/
structure Recalls (h : SymbolHistory t D) (symbol : String) (r : MetaSymbolRecord t D) : Prop where
  name : r.name = symbol
  binding : h.binding symbol = some r.wasmSym
  latency : ∀ b, r.latency b = LatencyRing.pushAll t (h.latencies symbol b)

theorem pushAll_append_singleton (pushes : List D) (ms : D) :
    LatencyRing.pushAll t (pushes ++ [ms]) = (LatencyRing.pushAll t pushes).push ms :=
  List.foldl_append

theorem Recalls.lookedUp (recalls : Recalls h symbol r) (name : String) (wasmSym : TPointer t) :
    Recalls (h ++ [.lookedUp name wasmSym]) symbol r where
  name := recalls.name
  binding := by rw [SymbolHistory.binding_append, recalls.binding, Option.some_or]
  latency b := by
    have quiet : SymbolHistory.latencies [SymbolEvent.lookedUp (D := D) name wasmSym] symbol b = [] := rfl
    rw [SymbolHistory.latencies_append, quiet, List.append_nil]
    exact recalls.latency b

/-- The first lookup of a symbol makes a record of the history so far. -/
theorem recalls_fresh (processSym wasmSym : TPointer t) (unbound : h.binding symbol = none)
    (unmeasured : ∀ b, h.latencies symbol b = []) :
    Recalls (h ++ [.lookedUp symbol wasmSym]) symbol (.fresh symbol processSym wasmSym) where
  name := rfl
  binding := by
    rw [SymbolHistory.binding_append, unbound, Option.none_or]
    simp [SymbolHistory.binding, SymbolEvent.binds, MetaSymbolRecord.fresh]
  latency b := by
    have quiet : SymbolHistory.latencies [SymbolEvent.lookedUp (D := D) symbol wasmSym] symbol b = [] := rfl
    rw [SymbolHistory.latencies_append, quiet, unmeasured b]
    cases b <;> rfl

theorem Recalls.measured (recalls : Recalls h symbol r) (which : MetaBackend) (n : BitVec 32)
    (elapsed : D) :
    Recalls (h ++ [.measured symbol which elapsed]) symbol (r.pushSample which n elapsed) := by
  obtain ⟨name, wasmSym, rings⟩ := r.pushSample_keeps which n elapsed
  refine ⟨name.trans recalls.name, ?_, fun b => ?_⟩
  · rw [SymbolHistory.binding_append, recalls.binding, Option.some_or, wasmSym]
  · rw [rings b, SymbolHistory.latencies_append, recalls.latency b]
    by_cases own : which = b
    · have here : SymbolHistory.latencies [SymbolEvent.measured (t := t) symbol which elapsed] symbol b =
          [elapsed] := by simp [SymbolHistory.latencies, SymbolEvent.measures, own]
      rw [if_pos own, here, pushAll_append_singleton]
    · have elsewhere : SymbolHistory.latencies [SymbolEvent.measured (t := t) symbol which elapsed]
          symbol b = [] := by simp [SymbolHistory.latencies, SymbolEvent.measures, own]
      rw [if_neg own, elsewhere, List.append_nil]

/-- An event of another symbol changes nothing. -/
theorem Recalls.other (recalls : Recalls h symbol r) {name : String} (apart : name ≠ symbol)
    (which : MetaBackend) (elapsed : D) :
    Recalls (h ++ [.measured name which elapsed]) symbol r where
  name := recalls.name
  binding := by rw [SymbolHistory.binding_append, recalls.binding, Option.some_or]
  latency b := by
    have quiet : SymbolHistory.latencies [SymbolEvent.measured (t := t) name which elapsed] symbol b =
        [] := by simp [SymbolHistory.latencies, SymbolEvent.measures, apart]
    rw [SymbolHistory.latencies_append, quiet, List.append_nil]
    exact recalls.latency b

/-- The record after an operation holds what the history says after it. -/
theorem Recalls.after (recalls : Recalls h symbol r) (w : MetaWorld t D π) (op : MetaOp t D) :
    Recalls (h ++ w.events op) symbol (w.recordAfter symbol op r) := by
  cases op with
  | lookupSymbol processSym wasmSym funcName => exact recalls.lookedUp funcName wasmSym
  | leave index answer elapsed =>
    cases inFlight : w.frames[index]? with
    | none => simpa [MetaWorld.recordAfter, MetaWorld.events, MetaWorld.completes, inFlight] using recalls
    | some frame =>
      simp only [MetaWorld.recordAfter, MetaWorld.events, MetaWorld.completes, inFlight, Option.map_some]
      by_cases own : frame.symbol = symbol
      · subst own
        rw [if_pos rfl]
        exact recalls.measured frame.which frame.pinThreshold elapsed
      · rw [if_neg own]
        exact recalls.other own frame.which elapsed
  | _ => simpa [MetaWorld.recordAfter, MetaWorld.events, MetaWorld.completes] using recalls

end Recalls

section Runs
variable [Millis D] {policy : MetaPolicyFn t D π} {h : SymbolHistory t D} {w w' : MetaWorld t D π}
  {op : MetaOp t D} {calls : List (BackendCall t)} {returned : Option (TPointer t)} {symbol : String}

/-- The records hold the history, symbols without one have none, and invokes in
flight are of symbols with a record. -/
structure Remembers (h : SymbolHistory t D) (w : MetaWorld t D π) : Prop where
  records : ∀ symbol r, w.record symbol = some r → Recalls h symbol r
  unbound : ∀ symbol, w.record symbol = none → h.binding symbol = none
  unmeasured : ∀ symbol, w.record symbol = none → ∀ b, h.latencies symbol b = []
  entered : ∀ frame ∈ w.frames, ∃ r, w.record frame.symbol = some r

/-- A symbol without a record gets one by its lookup only. -/
theorem step_noRecord (remembers : Remembers h w) (new : w.record symbol = none)
    (ran : w.exec policy op = some ⟨calls, returned, w'⟩) :
    (∃ processSym wasmSym, op = .lookupSymbol processSym wasmSym symbol) ∨
      w'.record symbol = none ∧ (w.events op).binding symbol = none ∧
        ∀ b, (w.events op).latencies symbol b = [] := by
  have quiet : SymbolHistory.binding (t := t) (D := D) [] symbol = none ∧
    ∀ b, SymbolHistory.latencies (t := t) (D := D) [] symbol b = [] := ⟨rfl, fun _ => rfl⟩
  cases op with
  | lookupSymbol processSym wasmSym funcName =>
    by_cases own : funcName = symbol
    · exact .inl ⟨processSym, wasmSym, by rw [own]⟩
    · have after : w'.sandbox = w.sandbox.implLookupSymbol processSym wasmSym funcName := by
        cases ran; rfl
      refine .inr ⟨?_, by simp [MetaWorld.events, SymbolHistory.binding, SymbolEvent.binds, own],
        fun _ => rfl⟩
      rw [MetaWorld.record, after]
      unfold MetaSandbox.implLookupSymbol
      split
      · exact new
      · exact (AList.lookup_insert_ne (Ne.symm own)).trans new
  | registerStructType => cases ran; exact .inr ⟨new, quiet⟩
  | registerCallback procPtr wasmSlot key =>
    have after : w'.sandbox = (w.sandbox.implRegisterCallback procPtr wasmSlot key).2 := by
      cases ran; rfl
    refine .inr ⟨?_, quiet⟩
    rw [MetaWorld.record, after]
    unfold MetaSandbox.implRegisterCallback
    split <;> exact new
  | unregisterCallback key =>
    have after : w'.sandbox = w.sandbox.implUnregisterCallback key := by cases ran; rfl
    refine .inr ⟨?_, quiet⟩
    rw [MetaWorld.record, after]
    unfold MetaSandbox.implUnregisterCallback
    split <;> exact new
  | setPinThreshold => cases ran; exact .inr ⟨new, quiet⟩
  | malloc size answers =>
    have same := (execMalloc_ok ran).2.symbols
    refine .inr ⟨?_, quiet⟩
    rw [MetaWorld.record, same]
    exact new
  | free p =>
    have after : w'.sandbox = (w.sandbox.implFreeInSandbox p).2 := by cases ran; rfl
    refine .inr ⟨?_, quiet⟩
    rw [MetaWorld.record, after]
    unfold MetaSandbox.implFreeInSandbox
    split <;> exact new
  | enter entered ret args =>
    obtain ⟨-, b, went⟩ := execEnter_ok ran
    cases went <;> exact .inr ⟨new, quiet⟩
  | leave index answer elapsed =>
    obtain ⟨frame, inFlight, -, after⟩ := execLeave_sandbox ran
    obtain ⟨own, found⟩ := remembers.entered frame (List.mem_of_getElem? inFlight)
    -- its symbol has a record, so it is another one
    have apart : frame.symbol ≠ symbol := by
      rintro same
      rw [same, new] at found
      cases found
    refine .inr ⟨?_, by simp [MetaWorld.events, MetaWorld.completes, inFlight, SymbolHistory.binding,
      SymbolEvent.binds], fun b => by simp [MetaWorld.events, MetaWorld.completes, inFlight,
      SymbolHistory.latencies, SymbolEvent.measures, apart]⟩
    have kept : w'.sandbox.symbolCache.lookup symbol = w.sandbox.symbolCache.lookup symbol := by
      rw [after]
      unfold MetaSandbox.returnInvoke
      dsimp only
      rw [returnValue_symbolCache, show w.sandbox.symbolCache.lookup frame.symbol = some own from found]
      exact AList.lookup_insert_ne (Ne.symm apart)
    exact kept.trans new

/-- The invokes in flight after an operation: those before it, less the one
that returned, and the one it entered. -/
theorem step_frames (ran : w.exec policy op = some ⟨calls, returned, w'⟩) :
    ∀ frame ∈ w'.frames, frame ∈ w.frames ∨
      ∃ symbol r, w.record symbol = some r ∧ frame.symbol = r.name := by
  intro frame inside
  cases op with
  | enter symbol ret args =>
    obtain ⟨-, b, went⟩ := execEnter_ok ran
    cases went with
    | process found | wasm found =>
      rcases List.mem_append.mp inside with old | new
      · exact .inl old
      · cases List.mem_singleton.mp new
        exact .inr ⟨symbol, _, found, rfl⟩
  | leave index answer elapsed =>
    obtain ⟨_, -, frames, -⟩ := execLeave_sandbox ran
    rw [frames] at inside
    exact .inl (List.mem_of_mem_eraseIdx inside)
  | malloc size answers =>
    rw [(execMalloc_threshold ran).2] at inside
    exact .inl inside
  | _ => cases ran; exact .inl inside

/-- One operation keeps the records and the history together. -/
theorem step_remembers (remembers : Remembers h w)
    (ran : w.exec policy op = some ⟨calls, returned, w'⟩) : Remembers (h ++ w.events op) w' := by
  have known : ∀ symbol r, w.record symbol = some r → Recalls h symbol r := remembers.records
  refine ⟨fun symbol r' found => ?_, fun symbol missing => ?_, fun symbol missing b => ?_,
    fun frame inside => ?_⟩
  · cases before : w.record symbol with
    | some r =>
      cases found.symm.trans (step_record before ran)
      exact (known symbol r before).after w op
    | none =>
      rcases step_noRecord remembers before ran with ⟨processSym, wasmSym, rfl⟩ | ⟨still, -⟩
      · cases found.symm.trans (lookupSymbol_record before ran)
        exact recalls_fresh processSym wasmSym (remembers.unbound symbol before)
          (remembers.unmeasured symbol before)
      · cases found.symm.trans still
  · cases before : w.record symbol with
    | some r => cases missing.symm.trans (step_record before ran)
    | none =>
      rcases step_noRecord remembers before ran with ⟨processSym, wasmSym, rfl⟩ | ⟨-, quiet, -⟩
      · cases missing.symm.trans (lookupSymbol_record before ran)
      · rw [SymbolHistory.binding_append, remembers.unbound symbol before, quiet]
        rfl
  · cases before : w.record symbol with
    | some r => cases missing.symm.trans (step_record before ran)
    | none =>
      rcases step_noRecord remembers before ran with ⟨processSym, wasmSym, rfl⟩ | ⟨-, -, quiet⟩
      · cases missing.symm.trans (lookupSymbol_record before ran)
      · rw [SymbolHistory.latencies_append, remembers.unmeasured symbol before, quiet b]
        rfl
  · have kept : ∀ symbol r, w.record symbol = some r → ∃ r', w'.record symbol = some r' :=
      fun symbol r found => ⟨_, step_record found ran⟩
    rcases step_frames ran frame inside with old | ⟨symbol, r, found, name⟩
    · obtain ⟨r, found⟩ := remembers.entered frame old
      exact kept _ r found
    · rw [name, (known symbol r found).name]
      exact kept symbol r found

theorem remembers_initial (start : π) :
    Remembers (D := D) (t := t) [] (MetaWorld.initial start) where
  records _ _ found := by cases found
  unbound _ _ := rfl
  unmeasured _ _ _ := rfl
  entered _ inside := by cases inside

end Runs
end RlboxDynamic
