import RlboxDynamic.SymbolRecords

/-! What being pinned is worth. The dispatch of an invoke never reads `pinned`:
it asks the policy and pushes a sample whether the symbol is pinned or not, and
a sample may pin it to the other backend. -/
namespace RlboxDynamic
open Transition

variable {t : Target} {D π : Type}

/-- A policy with a count of its calls, which it does not look at. -/
def counted [Millis D] (policy : MetaPolicyFn t D π) : MetaPolicyFn t D (π × Nat) :=
  fun state ctx =>
    let (choice, next) := policy state.1 ctx
    (choice, next, state.2 + 1)

/-- The calls a counted policy has had. -/
def MetaWorld.consultations (w : MetaWorld t D (π × Nat)) : Nat := w.sandbox.policyState.2

/-- `pinned_backend_for`. -/
def MetaWorld.pinnedBackendFor (w : MetaWorld t D π) (symbol : String) : Option MetaBackend :=
  match w.record symbol with
  | none => none
  | some r => if r.pinned = 0#8 then none else some (if r.pinned = 1#8 then .process else .wasm)

/-- Returning from the invoke pushes no sample, whatever the sandbox does in
between. -/
def InvokeFrame.PushesNoSample (frame : InvokeFrame t) (D π : Type) : Prop :=
  ∀ (s : MetaSandbox t D (π × Nat)) answer elapsed r, s.symbolCache.lookup frame.symbol = some r →
    ∃ r', (s.returnInvoke answer elapsed frame).2.2.symbolCache.lookup frame.symbol = some r' ∧
      r'.processLatency = r.processLatency ∧ r'.wasmLatency = r.wasmLatency

/-- The sample of a returning invoke pins its symbol to the other backend. -/
def MetaSymbolRecord.Repins (r : MetaSymbolRecord t D) (b : MetaBackend) (frame : InvokeFrame t) :
    Prop :=
  frame.which ≠ b ∧ frame.pinThreshold ≠ 0#32 ∧ r.lastPick = frame.which ∧
    frame.pinThreshold ≤ r.consecutiveSamePicks + 1

section Pinned
variable {w w' : MetaWorld t D π} {symbol : String} {b : MetaBackend} {r : MetaSymbolRecord t D}
  {frame : InvokeFrame t} {elapsed : D}

theorem pinnedBackendFor_known (pinned : w.pinnedBackendFor symbol = some b) :
    ∃ r, w.record symbol = some r := by
  unfold MetaWorld.pinnedBackendFor at pinned
  split at pinned
  · cases pinned
  · rename_i r known
    exact ⟨r, known⟩

/-- The flag is read as the backend it was set for. -/
theorem pinnedBackendFor_of_pinCode (known : w.record symbol = some r)
    (flag : r.pinned = MetaSymbolRecord.pinCode b) : w.pinnedBackendFor symbol = some b := by
  simp only [MetaWorld.pinnedBackendFor, known, flag]
  cases b <;> rfl

theorem pinnedBackendFor_congr {r' : MetaSymbolRecord t D} (known : w.record symbol = some r)
    (after : w'.record symbol = some r') (same : r'.pinned = r.pinned) :
    w'.pinnedBackendFor symbol = w.pinnedBackendFor symbol := by
  simp only [MetaWorld.pinnedBackendFor, known, after, same]

end Pinned

section Counted
variable [Millis D] {policy : MetaPolicyFn t D π} {w w' : MetaWorld t D (π × Nat)}
  {op : MetaOp t D} {ops before : List (MetaOp t D)} {symbol : String} {b : MetaBackend}
  {calls : List (BackendCall t)} {returned : Option (TPointer t)}

/-- What a pinned symbol is promised of one operation: an invoke of it goes to
its backend unasked and unsampled, and it stays pinned there. -/
structure PinHonoured (policy : MetaPolicyFn t D π) (symbol : String) (b : MetaBackend)
    (w : MetaWorld t D (π × Nat)) (op : MetaOp t D) : Prop where
  invoked : ∀ ret args, op = .enter symbol ret args → ∃ frame calls returned w',
    w.exec (counted policy) op = some ⟨calls, returned, w'⟩ ∧ w'.frames = w.frames ++ [frame] ∧
      frame.which = b ∧ w'.consultations = w.consultations ∧ frame.PushesNoSample D π
  kept : ∀ calls returned w', w.exec (counted policy) op = some ⟨calls, returned, w'⟩ →
    w'.pinnedBackendFor symbol = some b

/-- The operation is no invoke of the symbol, and completes none that pins it
to the other backend. -/
structure LeavesPin (symbol : String) (b : MetaBackend) (w : MetaWorld t D (π × Nat))
    (op : MetaOp t D) : Prop where
  noInvoke : ∀ ret args, op ≠ .enter symbol ret args
  noRepin : ∀ frame elapsed r, w.completes op = some (frame, elapsed) → frame.symbol = symbol →
    w.record symbol = some r → ¬ r.Repins b frame

/-- Entering an invoke always asks the policy once. -/
theorem enter_consults {ret : Option CType} {args : List (Arg t)}
    (ran : w.exec (counted policy) (.enter symbol ret args) = some ⟨calls, returned, w'⟩) :
    w'.consultations = w.consultations + 1 := by
  obtain ⟨-, side, entered⟩ := execEnter_ok ran
  cases entered <;> rfl

omit [Millis D] in
/-- What the flag says after a sample. -/
theorem pushSample_pinned {r : MetaSymbolRecord t D} {which : MetaBackend} {n : BitVec 32}
    {elapsed : D} : (r.pushSample which n elapsed).pinned =
      if n ≠ 0#32 ∧ r.lastPick = which ∧ n ≤ r.consecutiveSamePicks + 1
      then MetaSymbolRecord.pinCode which else r.pinned := by
  by_cases counting : n = 0#32
  · subst counting
    simp [MetaSymbolRecord.pushSample_uncounted]
  · by_cases same : r.lastPick = which
    · rw [(MetaSymbolRecord.pushSample_same _ counting same).2.2]
      simp [counting, same]
    · rw [(MetaSymbolRecord.pushSample_switch _ counting same).2.2]
      simp [same]

/-- The symbol stays pinned over an operation exactly when that completes no
invoke that pins it to the other backend. -/
theorem pin_kept_iff (pinned : w.pinnedBackendFor symbol = some b)
    (ran : w.exec (counted policy) op = some ⟨calls, returned, w'⟩) :
    w'.pinnedBackendFor symbol = some b ↔
      ∀ frame elapsed r, w.completes op = some (frame, elapsed) → frame.symbol = symbol →
        w.record symbol = some r → ¬ r.Repins b frame := by
  obtain ⟨r, known⟩ := pinnedBackendFor_known pinned
  have after := step_record known ran
  unfold MetaWorld.recordAfter at after
  cases completed : w.completes op with
  | none =>
    rw [completed] at after
    rw [pinnedBackendFor_congr known after rfl]
    exact iff_of_true pinned (by simp)
  | some done =>
    obtain ⟨frame, elapsed⟩ := done
    rw [completed] at after
    by_cases own : frame.symbol = symbol
    · simp only [own, if_true] at after
      have flag : (r.pushSample frame.which frame.pinThreshold elapsed).pinned = _ := pushSample_pinned
      constructor
      · rintro still _ _ _ ⟨⟩ - known' ⟨other, counting, same, reached⟩
        cases known.symm.trans known'
        rw [if_pos ⟨counting, same, reached⟩] at flag
        exact other (Option.some.inj ((pinnedBackendFor_of_pinCode after flag).symm.trans still))
      · intro leaves
        by_cases sets : frame.pinThreshold ≠ 0#32 ∧ r.lastPick = frame.which ∧
            frame.pinThreshold ≤ r.consecutiveSamePicks + 1
        · have here : frame.which = b := Classical.byContradiction fun other =>
            leaves frame elapsed r rfl own known ⟨other, sets⟩
          rw [if_pos sets] at flag
          exact here ▸ pinnedBackendFor_of_pinCode after flag
        · rw [if_neg sets] at flag
          rw [pinnedBackendFor_congr known after flag]
          exact pinned
    · simp only [own, if_false] at after
      rw [pinnedBackendFor_congr known after rfl]
      refine iff_of_true pinned ?_
      rintro _ _ _ ⟨⟩ same
      exact absurd same own

theorem completes_runs (policy : MetaPolicyFn t D π) {done : InvokeFrame t × D}
    (completed : w.completes op = some done) :
    ∃ calls returned w', w.exec (counted policy) op = some ⟨calls, returned, w'⟩ := by
  cases op with
  | leave index answer elapsed =>
    obtain ⟨frame, inFlight, -⟩ := Option.map_eq_some_iff.mp completed
    change ∃ calls returned w', w.execLeave index answer elapsed = some ⟨calls, returned, w'⟩
    unfold MetaWorld.execLeave
    rw [inFlight]
    dsimp only
    split
    · split <;> exact ⟨_, _, _, rfl⟩
    · exact ⟨_, _, _, rfl⟩
  | _ => cases completed

/-- One operation honours the pin exactly when it leaves it alone. -/
theorem pinHonoured_iff (pinned : w.pinnedBackendFor symbol = some b) :
    PinHonoured policy symbol b w op ↔ LeavesPin symbol b w op := by
  constructor
  · intro honoured
    refine ⟨?_, ?_⟩
    · rintro ret args rfl
      obtain ⟨frame, calls, returned, w', ran, -, -, unasked, -⟩ := honoured.invoked ret args rfl
      have asked := enter_consults ran
      omega
    · intro frame elapsed r completed
      obtain ⟨calls, returned, w', ran⟩ := completes_runs policy completed
      exact (pin_kept_iff pinned ran).mp (honoured.kept calls returned w' ran) frame elapsed r completed
  · intro leaves
    refine ⟨fun ret args invoke => absurd invoke (leaves.noInvoke ret args), ?_⟩
    intro calls returned w' ran
    exact (pin_kept_iff pinned ran).mpr leaves.noRepin

/-- The condition holds of each operation where it comes in the continuation. -/
def Throughout (policy : MetaPolicyFn t D π) (w : MetaWorld t D (π × Nat)) (ops : List (MetaOp t D))
    (holds : MetaWorld t D (π × Nat) → MetaOp t D → Prop) : Prop :=
  ∀ before op after u, ops = before ++ op :: after →
    Run (MetaWorld.Step (counted policy)) w before u → holds u op

/-- From any state in which a symbol is pinned, a continuation honours the pin
exactly when it makes no invoke of that symbol and completes none that was in
flight and pins it to the other backend. -/
theorem pin_honoured_iff_left_alone (policy : MetaPolicyFn t D π)
    (pinned : w.pinnedBackendFor symbol = some b) (ops : List (MetaOp t D)) :
    Throughout policy w ops (PinHonoured policy symbol b) ↔
      Throughout policy w ops (LeavesPin symbol b) := by
  constructor
  · intro honoured
    have stays : ∀ before after u, ops = before ++ after →
        Run (MetaWorld.Step (counted policy)) w before u → u.pinnedBackendFor symbol = some b := by
      refine throughout pinned ?_
      rintro before op after u v split run - ⟨calls, returned, ran⟩
      exact (honoured before op after u split run).kept calls returned v ran
    intro before op after u split run
    exact (pinHonoured_iff (stays before (op :: after) u split run)).mp
      (honoured before op after u split run)
  · intro leaves
    have stays : ∀ before after u, ops = before ++ after →
        Run (MetaWorld.Step (counted policy)) w before u → u.pinnedBackendFor symbol = some b := by
      refine throughout pinned ?_
      rintro before op after u v split run pinned ⟨calls, returned, ran⟩
      exact (pin_kept_iff pinned ran).mpr (leaves before op after u split run).noRepin
    intro before op after u split run
    exact (pinHonoured_iff (stays before (op :: after) u split run)).mpr
      (leaves before op after u split run)

end Counted

/-- A policy that takes process once and wasm from then on. -/
def processOnce : MetaPolicyFn .x86_64 Int Bool := fun asked _ =>
  (if asked then .wasm else .process, true)

/-- A symbol pinned by its first invoke. -/
def pinOps : List (MetaOp .x86_64 Int) :=
  [.setPinThreshold 1#32, .lookupSymbol 0x401000#64 1#64 "area", .enter "area" none [],
    .leave 0 ⟨0#32, 0#64, 0#64⟩ 3]

theorem pin_honoured_before_invoke : ∃ w,
    Run (MetaWorld.Step (counted processOnce)) (.initial (false, 0)) pinOps w ∧
      w.sandbox.pinThreshold ≠ 0#32 ∧ w.pinnedBackendFor "area" = some .process ∧
      Throughout processOnce w [.malloc 8#64 ⟨0x10#32, 0x40001000#64, 0#32⟩]
        (PinHonoured processOnce "area" .process) := by
  obtain ⟨w, run, enabled, pinned⟩ : ∃ w,
      Run (MetaWorld.Step (counted processOnce)) (.initial (false, 0)) pinOps w ∧
        w.sandbox.pinThreshold ≠ 0#32 ∧ w.pinnedBackendFor "area" = some .process :=
    ⟨_, .cons ⟨_, _, rfl⟩ (.cons ⟨_, _, rfl⟩ (.cons ⟨_, _, rfl⟩ (.cons ⟨_, _, rfl⟩ .nil))),
      by decide, rfl⟩
  refine ⟨w, run, enabled, pinned, (pin_honoured_iff_left_alone processOnce pinned _).mpr ?_⟩
  intro before op after u split _
  obtain ⟨rfl, same⟩ : before = [] ∧ [op] ++ after = [_] := by
    cases before with
    | nil => exact ⟨rfl, split.symm⟩
    | cons => simp at split
  cases same
  exact ⟨by simp, by simp [MetaWorld.completes]⟩

/-- The next invoke of the pinned symbol asks the policy and goes to wasm. -/
theorem pinned_symbol_invoked_on_wasm : ∃ w,
    Run (MetaWorld.Step (counted processOnce)) (.initial (false, 0)) pinOps w ∧
      w.sandbox.pinThreshold ≠ 0#32 ∧ w.pinnedBackendFor "area" = some .process ∧
      ¬ Throughout processOnce w [.enter "area" none []]
        (PinHonoured processOnce "area" .process) := by
  refine ⟨_, .cons ⟨_, _, rfl⟩ (.cons ⟨_, _, rfl⟩ (.cons ⟨_, _, rfl⟩ (.cons ⟨_, _, rfl⟩ .nil))),
    by decide, rfl, fun honoured => ?_⟩
  obtain ⟨frame, calls, returned, w', ran, frames, which, -⟩ :=
    (honoured [] _ [] _ rfl .nil).invoked none [] rfl
  cases ran
  cases frames
  cases which

end RlboxDynamic
