import RlboxDynamic.KeyMap
import RlboxDynamic.PointerTag

/-! What a dispatch policy sees and what the adaptive policy does with it:
latency rings, symbol records, the per-call context, and the policy's own
hidden state. Milliseconds are a `double` in the source and stay abstract
here, so nothing depends on how two of them compare. -/
namespace RlboxDynamic

/-- The arithmetic the sources do on a `double` of milliseconds. No law is
asked for, so an IEEE type with a NaN is an instance. -/
class Millis (D : Type) extends Zero D, Add D where
  eq : D → D → Bool
  lt : D → D → Bool

instance : Millis Float where
  eq a b := a == b
  lt a b := decide (a < b)

instance : Millis Int where
  eq a b := a == b
  lt a b := decide (a < b)

/-- `latency_ring::N`. -/
def LatencyRing.N : Nat := 8

/-- `latency_ring`: recent latencies in milliseconds. `writes` is a `size_t`
counting the pushes over the ring's lifetime. -/
structure LatencyRing (t : Target) (D : Type) where
  samples : Vector D LatencyRing.N
  writes : SizeT t

namespace LatencyRing
variable {t : Target} {D : Type} [Millis D]

def empty : LatencyRing t D where
  samples := Vector.replicate N 0
  writes := 0#t.ptrBits

def push (ring : LatencyRing t D) (ms : D) : LatencyRing t D where
  samples := ring.samples.set (ring.writes.toNat % N) ms (Nat.mod_lt _ (by decide))
  writes := ring.writes + 1

def size (ring : LatencyRing t D) : Nat :=
  if ring.writes.toNat < N then ring.writes.toNat else N

/-- Sorts the used part of a copy and reads the lower middle of it. -/
def median (ring : LatencyRing t D) : D :=
  let n := ring.size
  if n = 0 then 0
  else
    let copy := (ring.samples.toList.take n).mergeSort (fun a b => !Millis.lt b a) ++
      ring.samples.toList.drop n
    copy.getD (if n / 2 = 0 then 0 else (n - 1) / 2) 0

end LatencyRing

/-- `meta_symbol_record`: one for each looked-up symbol. `pinned` is 0 for
none, 1 for process and 2 for wasm. -/
structure MetaSymbolRecord (t : Target) (D : Type) where
  name : String
  processSym : TPointer t
  wasmSym : TPointer t
  processLatency : LatencyRing t D
  wasmLatency : LatencyRing t D
  pinned : BitVec 8
  consecutiveSamePicks : BitVec 32
  lastPick : MetaBackend

/-- `meta_policy_context`, with the source's defaults. `funcName` is none on
the allocation path. -/
structure MetaPolicyContext (t : Target) (D : Type) [Millis D] where
  funcName : Option String
  hasWasm : Bool := false
  procSamples : Nat := 0
  wasmSamples : Nat := 0
  procMedianMs : D := 0
  wasmMedianMs : D := 0
  allocSize : SizeT t := 0#t.ptrBits
  procMedianSum : D := 0
  wasmMedianSum : D := 0

/-- `meta_policy_fn`. A `std::function` may close over state, which is
threaded here. -/
abbrev MetaPolicyFn (t : Target) (D : Type) [Millis D] (π : Type) :=
  π → MetaPolicyContext t D → MetaBackend × π

/-- `adaptive_state`. The generator is the list of outcomes `dist(rng) == 0`
still to be drawn. -/
structure AdaptiveState (t : Target) where
  currentBest : MetaBackend := .process
  namedInvokeCount : SizeT t := 0#t.ptrBits
  rng : Nat → Bool

namespace AdaptiveState
variable {t : Target}

/-- `random_backend`: one draw. -/
def randomBackend (state : AdaptiveState t) : MetaBackend × AdaptiveState t :=
  (if state.rng 0 then .process else .wasm, { state with rng := fun i => state.rng (i + 1) })

end AdaptiveState

section Adaptive
variable {t : Target} {D : Type} [Millis D]

/-- The policy `make_adaptive_policy(alloc_warmup, reexplore_period)` returns.
An allocation follows `current_best`; a named invoke also follows it, and
stores the choice that comes after it. -/
def makeAdaptivePolicy (allocWarmup reexplorePeriod : SizeT t) :
    MetaPolicyFn t D (AdaptiveState t) := fun state ctx =>
  match ctx.funcName with
  | none => (state.currentBest, state)
  | some _ =>
    -- For this one call only; the update below still uses the normal winner.
    let result :=
      if state.currentBest = .wasm ∧ ctx.hasWasm = false then .process else state.currentBest
    let n := state.namedInvokeCount
    let state := { state with namedInvokeCount := n + 1 }
    let (next, state) :=
      if n < allocWarmup then state.randomBackend
      else if reexplorePeriod ≠ 0#t.ptrBits ∧ (n - allocWarmup) % reexplorePeriod = 0#t.ptrBits then
        state.randomBackend
      else if Millis.eq ctx.procMedianSum ctx.wasmMedianSum then state.randomBackend
      else if Millis.lt ctx.procMedianSum ctx.wasmMedianSum then (.process, state)
      else (.wasm, state)
    (result, { state with currentBest := next })

variable {w r : SizeT t} {state : AdaptiveState t} {ctx : MetaPolicyContext t D}

/-- An allocation query reads the choice and changes nothing. -/
theorem adaptive_alloc (alloc : ctx.funcName = none) :
    makeAdaptivePolicy w r state ctx = (state.currentBest, state) := by
  simp [makeAdaptivePolicy, alloc]

/-- A named invoke of a symbol both backends have follows the stored choice,
whatever it stores next. -/
theorem adaptive_invoke {name : String} (named : ctx.funcName = some name)
    (bound : ctx.hasWasm = true) :
    (makeAdaptivePolicy w r state ctx).1 = state.currentBest := by
  simp [makeAdaptivePolicy, named, bound]

end Adaptive
end RlboxDynamic
