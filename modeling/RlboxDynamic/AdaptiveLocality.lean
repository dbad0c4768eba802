import RlboxDynamic.Dispatch

/-! Adaptive locality. Between two named invokes the adaptive policy's stored
choice does not move, so every allocation made there goes to one backend; and
the next invoke asks for the choice stored before it is replaced. -/
namespace RlboxDynamic
open Transition

variable {t : Target} {D : Type} [Millis D] {allocWarmup reexplorePeriod : SizeT t}
  {w w' : MetaWorld t D (AdaptiveState t)} {op : MetaOp t D} {ops : List (MetaOp t D)}
  {calls : List (BackendCall t)} {returned : Option (TPointer t)} {b : MetaBackend}

/-- The operation is a named invoke. -/
def MetaOp.IsInvoke : MetaOp t D → Prop
  | .enter _ _ _ => True
  | _ => False

/-- A step between two named invokes under the adaptive policy. -/
def BetweenInvokes (allocWarmup reexplorePeriod : SizeT t) :=
  Guarded (fun (_ : MetaWorld t D (AdaptiveState t)) op => ¬ op.IsInvoke)
    (MetaWorld.Step (makeAdaptivePolicy allocWarmup reexplorePeriod))

section PolicyState
variable {π : Type} {policy : MetaPolicyFn t D π} {s : MetaSandbox t D π}

omit [Millis D] in
theorem registerReturn_policyState {which : MetaBackend} {answer : InvokeAnswer t} :
    (s.registerReturn which answer).2.policyState = s.policyState := by
  unfold MetaSandbox.registerReturn
  cases which <;> dsimp only <;> split <;> rfl

omit [Millis D] in
theorem returnInvoke_policyState (answer : InvokeAnswer t) (elapsed : D) (frame : InvokeFrame t) :
    (s.returnInvoke answer elapsed frame).2.2.policyState = s.policyState := by
  have returned : (s.returnValue answer frame).2.policyState = s.policyState := by
    unfold MetaSandbox.returnValue
    split
    · rfl
    · exact registerReturn_policyState
    · rfl
  exact returned

/-- Only a policy query moves the policy's state. -/
theorem step_policyState {w w' : MetaWorld t D π} (quiet : ¬ op.IsInvoke)
    (other : ∀ size answers, op ≠ .malloc size answers)
    (ran : w.exec policy op = some ⟨calls, returned, w'⟩) :
    w'.sandbox.policyState = w.sandbox.policyState := by
  cases op with
  | enter => exact absurd trivial quiet
  | malloc size answers => exact absurd rfl (other size answers)
  | lookupSymbol processSym wasmSym funcName =>
    have after : w'.sandbox = w.sandbox.implLookupSymbol processSym wasmSym funcName := by
      cases ran; rfl
    rw [after]
    unfold MetaSandbox.implLookupSymbol
    split <;> rfl
  | registerStructType => cases ran; rfl
  | registerCallback procPtr wasmSlot key =>
    have after : w'.sandbox = (w.sandbox.implRegisterCallback procPtr wasmSlot key).2 := by
      cases ran; rfl
    rw [after]
    unfold MetaSandbox.implRegisterCallback
    split <;> rfl
  | unregisterCallback key =>
    have after : w'.sandbox = w.sandbox.implUnregisterCallback key := by cases ran; rfl
    rw [after]
    unfold MetaSandbox.implUnregisterCallback
    split <;> rfl
  | setPinThreshold => cases ran; rfl
  | free p =>
    have after : w'.sandbox = (w.sandbox.implFreeInSandbox p).2 := by cases ran; rfl
    rw [after]
    unfold MetaSandbox.implFreeInSandbox
    split <;> rfl
  | leave index answer elapsed =>
    change w.execLeave index answer elapsed = _ at ran
    unfold MetaWorld.execLeave at ran
    split at ran
    · cases ran
    · rename_i frame inFlight
      have same := returnInvoke_policyState (s := w.sandbox) answer elapsed frame
      dsimp only at ran
      split at ran
      · split at ran <;> cases ran <;> exact same
      · cases ran; exact same

end PolicyState

/-- The entry `owner_of` finds for a pointer, by its key. -/
def MetaSandbox.foundKey {π : Type} (s : MetaSandbox t D π) (p : TPointer t) : Option (TPointer t) :=
  if p ∈ s.allocOwner then some p
  else if ¬ Tagged p ∧ tagWasm p ∈ s.allocOwner then some (tagWasm p)
  else none

omit [Millis D] in
theorem MetaSandbox.ownerOf_foundKey {π : Type} {s : MetaSandbox t D π} {p : TPointer t}
    {owner : MetaBackend} (found : s.ownerOf p = some owner) :
    ∃ q, s.foundKey p = some q ∧ s.allocOwner.lookup q = some owner := by
  unfold ownerOf at found
  unfold foundKey
  split at found
  · rename_i own
    rw [if_pos (AList.lookup_isSome.mp (by rw [own]; rfl))]
    exact ⟨p, rfl, own.trans found⟩
  · rename_i missing
    rw [if_neg (AList.lookup_eq_none.mp missing)]
    split at found
    · cases found
    · rename_i untagged
      have inside : tagWasm p ∈ s.allocOwner := AList.lookup_isSome.mp (by rw [found]; rfl)
      rw [if_pos ⟨untagged, inside⟩]
      exact ⟨tagWasm p, rfl, found⟩

/-- A malloc among the operations returned the pointer, and it was not freed
since. -/
def AllocatedIn {π : Type} (policy : MetaPolicyFn t D π) (w : MetaWorld t D π)
    (interval : List (MetaOp t D)) (w' : MetaWorld t D π) (q : TPointer t) : Prop :=
  q ∈ w'.live ∧ ∃ before size answers after u calls v,
    interval = before ++ .malloc size answers :: after ∧ Run (MetaWorld.Step policy) w before u ∧
    u.exec policy (.malloc size answers) = some ⟨calls, some q, v⟩ ∧
    Run (MetaWorld.Step policy) v after w'

theorem mallocChoice_adaptive {s : MetaSandbox t D (AdaptiveState t)} {size : SizeT t} :
    (s.mallocChoice (makeAdaptivePolicy allocWarmup reexplorePeriod) size).1 =
        s.policyState.currentBest ∧
      (s.mallocChoice (makeAdaptivePolicy allocWarmup reexplorePeriod) size).2.policyState =
        s.policyState := by
  unfold MetaSandbox.mallocChoice
  dsimp only
  rw [adaptive_alloc rfl]
  exact ⟨rfl, rfl⟩

/-- Between named invokes the adaptive policy's state stands still. -/
theorem step_steady (step : BetweenInvokes allocWarmup reexplorePeriod w op w') :
    w'.sandbox.policyState = w.sandbox.policyState := by
  obtain ⟨quiet, calls, returned, ran⟩ := step
  cases op with
  | malloc size answers =>
    have routed := (execMalloc_ok ran).2.policyState
    rw [routed]
    exact mallocChoice_adaptive.2
  | _ => exact step_policyState quiet (fun _ _ => nofun) ran

theorem run_steady (run : Run (BetweenInvokes allocWarmup reexplorePeriod) w ops w') :
    w'.sandbox.policyState = w.sandbox.policyState := by
  induction run with
  | nil => rfl
  | cons first _ ih => exact ih.trans (step_steady first)

/-- What a pointer names, if anything, is an allocation of the stored choice. -/
def HeldBy (b : MetaBackend) (q : TPointer t) (w : MetaWorld t D (AdaptiveState t)) : Prop :=
  w.sandbox.policyState.currentBest = b ∧ ∀ a, w.live.lookup q = some a → a.owner = b

theorem malloc_owner {size : SizeT t} {answers : MallocAnswers t} {a : LiveAlloc t}
    (ran : w.exec (makeAdaptivePolicy allocWarmup reexplorePeriod) (.malloc size answers) =
      some ⟨calls, some a.key, w'⟩) (after : w'.ledger = w.ledger.allocate a) :
    a.owner = w.sandbox.policyState.currentBest := by
  have recorded := (execMalloc_ok ran).2.owner a.key rfl
  have owners : w'.sandbox.allocOwner = w.sandbox.allocOwner.insert a.key a.owner :=
    congrArg Ledger.owners after
  rw [mallocChoice_adaptive.1, owners] at recorded
  exact Option.some.inj ((AList.lookup_insert _).symm.trans recorded)

/-- A pointer a malloc just returned names an allocation of the stored choice. -/
theorem malloc_heldBy {size : SizeT t} {answers : MallocAnswers t} {q : TPointer t}
    (ran : w.exec (makeAdaptivePolicy allocWarmup reexplorePeriod) (.malloc size answers) =
      some ⟨calls, some q, w'⟩) : HeldBy w.sandbox.policyState.currentBest q w' := by
  have taken := step_ledger ran
  generalize after : w'.ledger = next at taken
  cases taken with
  | allocate a =>
    refine ⟨congrArg _ (step_steady ⟨id, _, _, ran⟩), fun c found => ?_⟩
    have live : w'.live = w.live.insert a.key a := congrArg Ledger.live after
    rw [live, AList.lookup_insert] at found
    cases found
    exact malloc_owner ran after

theorem step_heldBy {q : TPointer t} (held : HeldBy b q w)
    (step : BetweenInvokes allocWarmup reexplorePeriod w op w') : HeldBy b q w' := by
  refine ⟨by rw [step_steady step]; exact held.1, ?_⟩
  obtain ⟨-, calls, returned, ran⟩ := step
  have taken := step_ledger ran
  have live : w'.live = w'.ledger.live := rfl
  rw [live]
  generalize after : w'.ledger = next at taken
  cases taken with
  | quiet => exact held.2
  | allocate a =>
    intro c found
    rcases Ledger.lookup_allocate found with ⟨-, rfl⟩ | ⟨-, old⟩
    · rw [malloc_owner ran after]
      exact held.1
    · exact held.2 c old
  | free =>
    intro c found
    change (w.live.erase _).lookup q = some c at found
    rw [KeyMap.lookup_erase] at found
    split at found
    · cases found
    · exact held.2 c found
  | handOut => exact held.2

/-- For every state a named invoke may leave, and every interval up to the next
one: all the mallocs in between go to the backend stored at its start, and the
next invoke asks for that backend and enters it, if its symbol is bound and the
arguments with an owner were allocated in the interval. -/
theorem adaptive_locality {start : AdaptiveState t} {interval : List (MetaOp t D)}
    (reached : Run (MetaWorld.Step (makeAdaptivePolicy allocWarmup reexplorePeriod))
      (.initial start) ops w)
    (between : Run (BetweenInvokes allocWarmup reexplorePeriod) w interval w') :
    ∃ b, (∀ before size answers after u calls returned v,
        interval = before ++ .malloc size answers :: after →
        Run (MetaWorld.Step (makeAdaptivePolicy allocWarmup reexplorePeriod)) w before u →
        u.exec (makeAdaptivePolicy allocWarmup reexplorePeriod) (.malloc size answers) =
          some ⟨calls, returned, v⟩ →
        calls.head?.bind BackendCall.side = some b ∧
          ∀ p, returned = some p → v.sandbox.allocOwner.lookup p = some b) ∧
      ∀ symbol record args, w'.sandbox.symbolCache.lookup symbol = some record →
        record.wasmSym ≠ 0#t.ptrBits →
        (∀ arg ∈ args, ∀ p q, arg.asTPointer = some p → p ≠ 0#t.ptrBits →
          w'.sandbox.foundKey p = some q →
          AllocatedIn (makeAdaptivePolicy allocWarmup reexplorePeriod) w interval w' q) →
        (makeAdaptivePolicy allocWarmup reexplorePeriod w'.sandbox.policyState
            (w'.sandbox.invokeContext record)).1 = b ∧
          (w'.sandbox.dispatch (makeAdaptivePolicy allocWarmup reexplorePeriod) record args).1 =
            .ok b := by
  have quiet := between.labels
  have steady := run_steady between
  refine ⟨w.sandbox.policyState.currentBest, ?_, ?_⟩
  · intro before size answers after u calls returned v split upTo ran
    have within : Run (BetweenInvokes allocWarmup reexplorePeriod) w before u :=
      upTo.guard_labels fun op inside => quiet op (by rw [split]; exact List.mem_append_left _ inside)
    have routed := (execMalloc_ok ran).2
    rw [← run_steady within, ← mallocChoice_adaptive.1]
    exact ⟨routed.first, routed.owner⟩
  · intro symbol record args known bound fromInterval
    have pick : (makeAdaptivePolicy allocWarmup reexplorePeriod w'.sandbox.policyState
        (w'.sandbox.invokeContext record)).1 = w.sandbox.policyState.currentBest := by
      rw [← steady]
      exact adaptive_invoke rfl (decide_eq_true bound)
    refine ⟨pick, MetaSandbox.dispatch_pick pick (fun _ => bound) ?_⟩
    rintro arg argument owner ⟨p, pointer, nonNull, found⟩
    obtain ⟨q, key, recorded⟩ := MetaSandbox.ownerOf_foundKey found
    obtain ⟨live, before, size, answers, after, u, calls, v, split, upTo, ran, rest⟩ :=
      fromInterval arg argument p q pointer nonNull key
    obtain ⟨a, held⟩ := Option.isSome_iff_exists.mp (AList.lookup_isSome.mpr live)
    have within : Run (BetweenInvokes allocWarmup reexplorePeriod) w before u :=
      upTo.guard_labels fun op inside => quiet op (by rw [split]; exact List.mem_append_left _ inside)
    have onward : Run (BetweenInvokes allocWarmup reexplorePeriod) v after w' :=
      rest.guard_labels fun op inside => quiet op (by
        rw [split]; exact List.mem_append_right _ (List.mem_cons_of_mem _ inside))
    have fresh : HeldBy w.sandbox.policyState.currentBest q v := by
      rw [← run_steady within]
      exact malloc_heldBy ran
    have kept := onward.invariant fresh fun _ _ _ held step => step_heldBy held step
    have owned : w'.ledger.Owned :=
      run_owned (reached.append (between.mono fun _ _ _ step => step.2))
    have owner' : w'.sandbox.allocOwner.lookup q = some a.owner := owned.owners held
    rw [recorded] at owner'
    rw [Option.some.inj owner']
    exact kept.2 a held

/-- A first invoke, whose random draw may store the other backend. -/
def drawOps : List (MetaOp .x86_64 Int) :=
  [.lookupSymbol 0x401000#64 1#64 "area", .enter "area" none []]

/-- The one allocation between it and the next. -/
def intervalOp : MetaOp .x86_64 Int := .malloc 8#64 ⟨0x10#32, 0x40001000#64, 0#32⟩

theorem adaptive_locality_after_draw : ∃ (w w' : MetaWorld .x86_64 Int (AdaptiveState .x86_64))
    (record : MetaSymbolRecord .x86_64 Int) (b : MetaBackend),
    Run (MetaWorld.Step (makeAdaptivePolicy 1#64 0#64)) (.initial { rng := fun _ => false }) drawOps w ∧
    Run (BetweenInvokes 1#64 0#64) w [intervalOp] w' ∧
    w'.sandbox.symbolCache.lookup "area" = some record ∧
    w'.sandbox.allocOwner.lookup 0x8000000000000010#64 = some b ∧
    (w'.sandbox.dispatch (makeAdaptivePolicy 1#64 0#64) record
      [Arg.pointer 0x8000000000000010#64]).1 = .ok b := by
  obtain ⟨w, w', record, calls, reached, between, known, bound, key, live, ran⟩ :
      ∃ (w w' : MetaWorld .x86_64 Int (AdaptiveState .x86_64)) (record : MetaSymbolRecord .x86_64 Int)
        (calls : List (BackendCall .x86_64)),
      Run (MetaWorld.Step (makeAdaptivePolicy 1#64 0#64)) (.initial { rng := fun _ => false }) drawOps w ∧
      Run (BetweenInvokes 1#64 0#64) w [intervalOp] w' ∧
      w'.sandbox.symbolCache.lookup "area" = some record ∧ record.wasmSym ≠ 0#64 ∧
      w'.sandbox.foundKey 0x8000000000000010#64 = some 0x8000000000000010#64 ∧
      0x8000000000000010#64 ∈ w'.live ∧
      w.exec (makeAdaptivePolicy 1#64 0#64) intervalOp =
        some ⟨calls, some 0x8000000000000010#64, w'⟩ :=
    ⟨_, _, _, _, .cons ⟨_, _, rfl⟩ (.cons ⟨_, _, rfl⟩ .nil), .cons ⟨id, _, _, rfl⟩ .nil, rfl,
      by simp, rfl, by decide, rfl⟩
  obtain ⟨b, mallocs, later⟩ := adaptive_locality reached between
  have owner := (mallocs [] _ _ [] w calls _ w' rfl .nil ran).2 _ rfl
  refine ⟨w, w', record, b, reached, between, known, owner, ?_⟩
  refine (later "area" record [Arg.pointer 0x8000000000000010#64] known bound ?_).2
  intro arg argument p q pointer nonNull found
  cases List.mem_singleton.mp argument
  cases pointer
  cases key.symm.trans found
  exact ⟨live, [], _, _, [], w, calls, w', rfl, .nil, ran, .nil⟩

end RlboxDynamic
