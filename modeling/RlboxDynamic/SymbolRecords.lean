import RlboxDynamic.MetaSteps
import RlboxDynamic.PinTrigger

/-! What happens to a looked-up symbol's record over a run. No operation takes
a record away, and only the return of one of its own invokes changes it: by one
sample, pushed with the threshold that invoke entered with. -/
namespace RlboxDynamic
open Transition

variable {t : Target} {D π : Type} {w w' : MetaWorld t D π} {op : MetaOp t D}
  {ops : List (MetaOp t D)} {calls : List (BackendCall t)} {returned : Option (TPointer t)}
  {symbol : String} {r : MetaSymbolRecord t D}

namespace MetaWorld

/-- The record `impl_lookup_symbol` keeps for a name. -/
def record (w : MetaWorld t D π) (symbol : String) : Option (MetaSymbolRecord t D) :=
  w.sandbox.symbolCache.lookup symbol

/-- The invoke that an operation completes, and its latency. -/
def completes (w : MetaWorld t D π) : MetaOp t D → Option (InvokeFrame t × D)
  | .leave index _ elapsed => w.frames[index]?.map (·, elapsed)
  | _ => none

/-- The sample an operation pushes on a symbol's record. -/
def recordAfter (w : MetaWorld t D π) (symbol : String) (op : MetaOp t D)
    (r : MetaSymbolRecord t D) : MetaSymbolRecord t D :=
  match w.completes op with
  | some (frame, elapsed) =>
    if frame.symbol = symbol then r.pushSample frame.which frame.pinThreshold elapsed else r
  | none => r

end MetaWorld

theorem registerReturn_symbolCache {s : MetaSandbox t D π} {which : MetaBackend}
    {answer : InvokeAnswer t} : (s.registerReturn which answer).2.symbolCache = s.symbolCache := by
  unfold MetaSandbox.registerReturn
  cases which <;> dsimp only <;> split <;> rfl

theorem returnValue_symbolCache {s : MetaSandbox t D π} {answer : InvokeAnswer t}
    {frame : InvokeFrame t} : (s.returnValue answer frame).2.symbolCache = s.symbolCache := by
  unfold MetaSandbox.returnValue
  split
  · rfl
  · exact registerReturn_symbolCache
  · rfl

theorem returnInvoke_record {s : MetaSandbox t D π} {answer : InvokeAnswer t} {elapsed : D}
    {frame : InvokeFrame t} (known : s.symbolCache.lookup symbol = some r) :
    (s.returnInvoke answer elapsed frame).2.2.symbolCache.lookup symbol =
      some (if frame.symbol = symbol then r.pushSample frame.which frame.pinThreshold elapsed
        else r) := by
  unfold MetaSandbox.returnInvoke
  dsimp only
  rw [returnValue_symbolCache]
  split
  · rename_i missing
    have other : frame.symbol ≠ symbol := by
      rintro rfl
      rw [known] at missing
      cases missing
    rw [if_neg other]
    exact known
  · rename_i own found
    rw [KeyMap.lookup_insert]
    by_cases same : frame.symbol = symbol
    · subst same
      cases known.symm.trans found
      simp
    · rw [if_neg (Ne.symm same), if_neg same]
      exact known

theorem execLeave_sandbox {index : Nat} {answer : InvokeAnswer t} {elapsed : D}
    (ran : w.execLeave index answer elapsed = some ⟨calls, returned, w'⟩) :
    ∃ frame, w.frames[index]? = some frame ∧ w'.frames = w.frames.eraseIdx index ∧
      w'.sandbox = (w.sandbox.returnInvoke answer elapsed frame).2.2 := by
  unfold MetaWorld.execLeave at ran
  split at ran
  · cases ran
  · rename_i frame inFlight
    refine ⟨frame, inFlight, ?_⟩
    dsimp only at ran
    split at ran
    · split at ran <;> cases ran <;> exact ⟨rfl, rfl⟩
    · cases ran; exact ⟨rfl, rfl⟩

variable [Millis D] {policy : MetaPolicyFn t D π}

/-- One operation leaves a record as it is or pushes one sample on it. -/
theorem step_record (known : w.record symbol = some r)
    (ran : w.exec policy op = some ⟨calls, returned, w'⟩) :
    w'.record symbol = some (w.recordAfter symbol op r) := by
  cases op with
  | lookupSymbol processSym wasmSym funcName =>
    have after : w'.sandbox = w.sandbox.implLookupSymbol processSym wasmSym funcName := by
      cases ran; rfl
    rw [MetaWorld.record, after]
    unfold MetaSandbox.implLookupSymbol
    split
    · exact known
    · rename_i missing
      have other : symbol ≠ funcName := by
        rintro rfl
        exact missing (AList.lookup_isSome.mp (Option.isSome_iff_exists.mpr ⟨r, known⟩))
      exact (AList.lookup_insert_ne other).trans known
  | registerStructType => cases ran; exact known
  | registerCallback procPtr wasmSlot key =>
    have after : w'.sandbox = (w.sandbox.implRegisterCallback procPtr wasmSlot key).2 := by
      cases ran; rfl
    rw [MetaWorld.record, after]
    unfold MetaSandbox.implRegisterCallback
    split <;> exact known
  | unregisterCallback key =>
    have after : w'.sandbox = w.sandbox.implUnregisterCallback key := by cases ran; rfl
    rw [MetaWorld.record, after]
    unfold MetaSandbox.implUnregisterCallback
    split <;> exact known
  | setPinThreshold => cases ran; exact known
  | malloc size answers =>
    have same := (execMalloc_ok ran).2.symbols
    rw [MetaWorld.record, same]
    exact known
  | free p =>
    have after : w'.sandbox = (w.sandbox.implFreeInSandbox p).2 := by cases ran; rfl
    rw [MetaWorld.record, after]
    unfold MetaSandbox.implFreeInSandbox
    split <;> exact known
  | enter entered ret args =>
    obtain ⟨-, b, went⟩ := execEnter_ok ran
    cases went <;> exact known
  | leave index answer elapsed =>
    obtain ⟨frame, inFlight, -, after⟩ := execLeave_sandbox ran
    rw [MetaWorld.record, after, returnInvoke_record known]
    simp [MetaWorld.recordAfter, MetaWorld.completes, inFlight]

/-! The fixed-threshold runs, in which a record is what the samples of its
completed dispatches make of it. -/

section History
variable {n : BitVec 32} {done : List (MetaSymbolRecord.Completed D)}

/-- The dispatch of a symbol that an operation completes, if any. -/
def MetaWorld.completed (w : MetaWorld t D π) (symbol : String) (op : MetaOp t D) :
    List (MetaSymbolRecord.Completed D) :=
  match w.completes op with
  | some (frame, elapsed) => if frame.symbol = symbol then [⟨frame.which, elapsed⟩] else []
  | none => []

/-- The world with the completed dispatches of one symbol so far. -/
def HistoryStep (policy : MetaPolicyFn t D π) (symbol : String)
    (s : MetaWorld t D π × List (MetaSymbolRecord.Completed D)) (op : MetaOp t D)
    (s' : MetaWorld t D π × List (MetaSymbolRecord.Completed D)) : Prop :=
  MetaWorld.Step policy s.1 op s'.1 ∧ s'.2 = s.2 ++ s.1.completed symbol op

theorem historyStep (ran : w.exec policy op = some ⟨calls, returned, w'⟩) :
    HistoryStep policy symbol (w, done) op (w', done ++ w.completed symbol op) :=
  ⟨⟨calls, returned, ran⟩, rfl⟩

/-- The threshold has been `n` ever since the invokes in flight entered. -/
structure FixedThreshold (n : BitVec 32) (w : MetaWorld t D π) : Prop where
  current : w.sandbox.pinThreshold = n
  entered : ∀ frame ∈ w.frames, frame.pinThreshold = n

def KeepsThreshold (n : BitVec 32) (op : MetaOp t D) : Prop := ∀ m, op = .setPinThreshold m → m = n

omit [Millis D] in
theorem returnInvoke_pinThreshold {s : MetaSandbox t D π} {answer : InvokeAnswer t} {elapsed : D}
    {frame : InvokeFrame t} :
    (s.returnInvoke answer elapsed frame).2.2.pinThreshold = s.pinThreshold := by
  unfold MetaSandbox.returnInvoke MetaSandbox.returnValue MetaSandbox.registerReturn
  dsimp only
  split <;> (try split) <;> (try split) <;> rfl

omit [Millis D] in
theorem publishAllocation_pinThreshold {s s' : MetaSandbox t D π} {answers : MallocAnswers t}
    {size : SizeT t} {p q : TPointer t} {choice : MetaBackend}
    (ran : (s.publishAllocation answers size p choice).result = .ok (q, s')) :
    s'.pinThreshold = s.pinThreshold := by
  unfold MetaSandbox.publishAllocation at ran
  dsimp only at ran
  split at ran
  · cases ran; rfl
  · split at ran
    · cases ran; rfl
    · split at ran <;> cases ran <;> rfl
  · cases ran

omit [Millis D] in
theorem mallocOn_pinThreshold {s s' : MetaSandbox t D π} {answers : MallocAnswers t}
    {size : SizeT t} {p : TPointer t} {choice : MetaBackend}
    (ran : s.mallocOn choice answers size = ⟨calls, .ok (p, s')⟩) :
    s'.pinThreshold = s.pinThreshold := by
  cases choice with
  | wasm =>
    simp only [MetaSandbox.mallocOn] at ran
    split at ran
    · cases ran; rfl
    · injection ran with _ result
      exact (publishAllocation_pinThreshold result).trans rfl
  | process =>
    simp only [MetaSandbox.mallocOn] at ran
    split at ran
    · cases ran; rfl
    · split at ran
      · cases ran
      · injection ran with _ result
        exact (publishAllocation_pinThreshold result).trans rfl

theorem execMalloc_threshold {size : SizeT t} {answers : MallocAnswers t}
    (ran : w.execMalloc policy size answers = some ⟨calls, returned, w'⟩) :
    w'.sandbox.pinThreshold = w.sandbox.pinThreshold ∧ w'.frames = w.frames := by
  unfold MetaWorld.execMalloc at ran
  split at ran
  · cases ran
  · rename_i made p sandbox malloced
    have same : sandbox.pinThreshold = w.sandbox.pinThreshold :=
      (mallocOn_pinThreshold (s := (w.sandbox.mallocChoice policy size).2) malloced).trans rfl
    dsimp only at ran
    split at ran <;> cases ran <;> exact ⟨same, rfl⟩

theorem step_fixedThreshold (fixed : FixedThreshold n w) (keeps : KeepsThreshold n op)
    (ran : w.exec policy op = some ⟨calls, returned, w'⟩) : FixedThreshold n w' := by
  cases op with
  | lookupSymbol processSym wasmSym funcName =>
    have after : w' = { w with sandbox := w.sandbox.implLookupSymbol processSym wasmSym funcName } := by
      cases ran; rfl
    subst after
    refine ⟨?_, fixed.entered⟩
    dsimp only
    unfold MetaSandbox.implLookupSymbol
    split <;> exact fixed.current
  | registerStructType => cases ran; exact ⟨fixed.current, fixed.entered⟩
  | registerCallback procPtr wasmSlot key =>
    have after : w' =
        { w with sandbox := (w.sandbox.implRegisterCallback procPtr wasmSlot key).2 } := by
      cases ran; rfl
    subst after
    refine ⟨?_, fixed.entered⟩
    dsimp only
    unfold MetaSandbox.implRegisterCallback
    split <;> exact fixed.current
  | unregisterCallback key =>
    have after : w' = { w with sandbox := w.sandbox.implUnregisterCallback key } := by
      cases ran; rfl
    subst after
    refine ⟨?_, fixed.entered⟩
    dsimp only
    unfold MetaSandbox.implUnregisterCallback
    split <;> exact fixed.current
  | setPinThreshold m =>
    cases ran
    exact ⟨keeps m rfl, fixed.entered⟩
  | malloc size answers =>
    obtain ⟨same, frames⟩ := execMalloc_threshold ran
    exact ⟨same.trans fixed.current, by rw [frames]; exact fixed.entered⟩
  | free p =>
    have after : w'.sandbox = (w.sandbox.implFreeInSandbox p).2 ∧ w'.frames = w.frames := by
      cases ran; exact ⟨rfl, rfl⟩
    refine ⟨?_, by rw [after.2]; exact fixed.entered⟩
    rw [after.1]
    unfold MetaSandbox.implFreeInSandbox
    split <;> exact fixed.current
  | enter symbol ret args =>
    obtain ⟨-, b, went⟩ := execEnter_ok ran
    cases went <;> refine ⟨fixed.current, fun frame inside => ?_⟩ <;>
      rcases List.mem_append.mp inside with old | new
    · exact fixed.entered frame old
    · cases List.mem_singleton.mp new
      exact fixed.current
    · exact fixed.entered frame old
    · cases List.mem_singleton.mp new
      exact fixed.current
  | leave index answer elapsed =>
    obtain ⟨frame, inFlight, frames, after⟩ := execLeave_sandbox ran
    refine ⟨?_, fun frame inside => fixed.entered frame ?_⟩
    · rw [after, returnInvoke_pinThreshold]
      exact fixed.current
    · rw [frames] at inside
      exact List.mem_of_mem_eraseIdx inside

omit [Millis D] in
/-- Under a fixed threshold an operation pushes the dispatch it completes. -/
theorem recordAfter_fixed (fixed : FixedThreshold n w) :
    w.recordAfter symbol op r = r.pushSamples n (w.completed symbol op) := by
  unfold MetaWorld.recordAfter MetaWorld.completed
  cases op with
  | leave index answer elapsed =>
    cases inFlight : w.frames[index]? with
    | none => simp [MetaWorld.completes, inFlight, MetaSymbolRecord.pushSamples]
    | some frame =>
      have entered := fixed.entered frame (List.mem_of_getElem? inFlight)
      by_cases own : frame.symbol = symbol <;>
        simp [MetaWorld.completes, inFlight, own, entered, MetaSymbolRecord.pushSamples]
  | _ => rfl

/-- The symbol's record is what the completed dispatches made of an earlier
one, all of them under the one threshold. -/
structure Tracks (n : BitVec 32) (symbol : String) (r : MetaSymbolRecord t D)
    (s : MetaWorld t D π × List (MetaSymbolRecord.Completed D)) : Prop where
  fixed : FixedThreshold n s.1
  record : s.1.record symbol = some (r.pushSamples n s.2)

theorem step_tracks {s s' : MetaWorld t D π × List (MetaSymbolRecord.Completed D)}
    (tracks : Tracks n symbol r s)
    (step : Guarded (fun _ op => KeepsThreshold n op) (HistoryStep policy symbol) s op s') :
    Tracks n symbol r s' := by
  obtain ⟨keeps, ⟨calls, returned, ran⟩, grown⟩ := step
  refine ⟨step_fixedThreshold tracks.fixed keeps ran, ?_⟩
  have pushed := step_record tracks.record ran
  rw [recordAfter_fixed tracks.fixed] at pushed
  rw [pushed, grown]
  simp [MetaSymbolRecord.pushSamples]

/-- Over a run under a fixed threshold, a symbol's record is the one it started
with after the samples of the dispatches completed since, in order. -/
theorem run_record (known : w.record symbol = some r) (fixed : FixedThreshold n w)
    (run : Run (Guarded (fun _ op => KeepsThreshold n op) (HistoryStep policy symbol))
      (w, []) ops (w', done)) : w'.record symbol = some (r.pushSamples n done) := by
  have start : Tracks n symbol r (w, []) := ⟨fixed, known⟩
  exact (run.invariant start fun _ _ _ tracks step => step_tracks tracks step).record

/-- A symbol looked up for the first time gets a fresh record. -/
theorem lookupSymbol_record {processSym wasmSym : TPointer t} (new : w.record symbol = none)
    (ran : w.exec policy (.lookupSymbol processSym wasmSym symbol) = some ⟨calls, returned, w'⟩) :
    w'.record symbol = some (.fresh symbol processSym wasmSym) := by
  have after : w'.sandbox = w.sandbox.implLookupSymbol processSym wasmSym symbol := by
    cases ran; rfl
  rw [MetaWorld.record, after]
  unfold MetaSandbox.implLookupSymbol
  rw [if_neg (AList.lookup_eq_none.mp new)]
  exact AList.lookup_insert _

/-- A symbol is pinned once its completed dispatches hold a streak of the
threshold, if the first of them is compared. -/
theorem run_pinned_iff_streak {processSym wasmSym : TPointer t} (positive : n ≠ 0#32)
    (known : w.record symbol = some (.fresh symbol processSym wasmSym)) (fixed : FixedThreshold n w)
    (run : Run (Guarded (fun _ op => KeepsThreshold n op) (HistoryStep policy symbol))
      (w, []) ops (w', done)) (starts : MetaSymbolRecord.StartsCompared n done) :
    ∃ r, w'.record symbol = some r ∧
      (r.pinned ≠ 0#8 ↔ ∃ b, HoldsStreak n.toNat b (MetaSymbolRecord.picks done)) :=
  ⟨_, run_record known fixed run,
    (MetaSymbolRecord.counts_upTo positive starts (List.prefix_refl done)).triggered⟩

end History

/-- Looked up under a threshold of two. -/
def areaFresh : MetaWorld .x86_64 Int Unit :=
  { (MetaWorld.initial () : MetaWorld .x86_64 Int Unit) with
    sandbox := { (MetaWorld.initial ()).sandbox.implLookupSymbol 0x401000#64 1#64 "area" with
      pinThreshold := 2#32 } }

/-- Two calls, one made during the other. -/
def nestedCalls : List (MetaOp .x86_64 Int) :=
  [.enter "area" none [], .enter "area" none [], .leave 1 ⟨0#32, 0#64, 0#64⟩ 3,
    .leave 0 ⟨0#32, 0#64, 0#64⟩ 9]

theorem run_pinned_iff_streak_nested : ∃ w' r,
    Run (Guarded (fun _ op => KeepsThreshold 2#32 op) (HistoryStep (fun _ _ => (.wasm, ())) "area"))
      (areaFresh, []) nestedCalls (w', [⟨.wasm, 3⟩, ⟨.wasm, 9⟩]) ∧
      w'.record "area" = some r ∧
      (r.pinned ≠ 0#8 ↔ ∃ b, HoldsStreak 2 b [MetaBackend.wasm, .wasm]) := by
  have fixed : FixedThreshold 2#32 areaFresh := ⟨rfl, fun _ inside => by cases inside⟩
  have keeps : ∀ op ∈ nestedCalls, KeepsThreshold 2#32 op := by
    simp [nestedCalls, KeepsThreshold]
  simp only [nestedCalls, List.forall_mem_cons] at keeps
  obtain ⟨⟨w', done⟩, run, rfl⟩ : ∃ s, Run (Guarded (fun _ op => KeepsThreshold 2#32 op)
      (HistoryStep (fun _ _ => (.wasm, ())) "area")) (areaFresh, []) nestedCalls s ∧
        s.2 = [⟨.wasm, 3⟩, ⟨.wasm, 9⟩] :=
    ⟨_, .cons ⟨keeps.1, historyStep rfl⟩ (.cons ⟨keeps.2.1, historyStep rfl⟩
      (.cons ⟨keeps.2.2.1, historyStep rfl⟩ (.cons ⟨keeps.2.2.2.1, historyStep rfl⟩ .nil))), rfl⟩
  obtain ⟨r, known, pinned⟩ :=
    run_pinned_iff_streak (by decide) rfl fixed run (.inl (by decide))
  exact ⟨w', r, run, known, pinned⟩

end RlboxDynamic
