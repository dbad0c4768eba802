import RlboxDynamic.CallbackDispatch
import RlboxDynamic.MetaSandbox
import RlboxDynamic.ShimHandlers
import RlboxDynamic.Transition

/-! The tables a callback's key is in: the host's dispatchers, the shim's slots,
the wasm backend's slots and the meta sandbox's registry. One host thread
registers and unregisters; its messages reach the shim in order, an unregister
perhaps long after the host has gone on. Trampolines fire and messages are
handled at any moment, which is more than the shim's one request thread does.
That thread starts before the shim's static initialisers have run. -/
namespace RlboxDynamic.CallbackTables
open Transition

/-- The callback slots of `rlbox_wasm2c_sandbox`, which is other code. None
where it aborts, with no slot left or none that has the key. -/
structure WasmCallbacks (t : Target) where
  State : Type
  register : TPointer t → State → Option (WasmPointer × State)
  unregister : TPointer t → State → Option State
  keyAt : State → WasmPointer → Option (TPointer t)

/-- A key is given a free slot, and taken out of a slot that has it. -/
structure WasmCallbacks.Lawful {t : Target} (W : WasmCallbacks t) : Prop where
  registers : ∀ {key s slot s'}, W.register key s = some (slot, s') →
    W.keyAt s slot = none ∧
      ∀ other, W.keyAt s' other = if other = slot then some key else W.keyAt s other
  unregisters : ∀ {key s s'}, W.unregister key s = some s' →
    ∃ slot, W.keyAt s slot = some key ∧
      ∀ other, W.keyAt s' other = if other = slot then none else W.keyAt s other

/-- Distinct functions have distinct addresses, and none is null. -/
structure Trampolines {t : Target} (env : ServerEnv t) (slots : Nat) : Prop where
  distinct : ∀ i j, i < slots → j < slots → env.trampoline i = env.trampoline j → i = j
  nonNull : ∀ i, i < slots → env.trampoline i ≠ 0

inductive Message (t : Target) where
  | register (key : TPointer t)
  | unregister (key : TPointer t)
  deriving DecidableEq

/-- Where the host thread is. `answered` has the trampoline the shim replied
with; from `sent` on only the wasm slot is left to free. -/
inductive HostOp (t : Target) where
  | idle
  | registering (key : TPointer t)
  | answered (key procPtr : TPointer t)
  | wasmRegistered (key procPtr : TPointer t) (wasmSlot : WasmPointer)
  | unregistering (key : TPointer t)
  | erased (key : TPointer t)
  | sent (key : TPointer t)
  deriving DecidableEq

/-- The key of an unregistration the shim has not been told of. -/
@[simp] def HostOp.ending {t : Target} : HostOp t → Option (TPointer t)
  | .unregistering key | .erased key => some key
  | .idle | .registering _ | .answered _ _ | .wasmRegistered _ _ _ | .sent _ => none

/-- A trampoline that has loaded its key and waits for the host. `ended` is set
once the key's unregistration has begun. -/
structure Firing where
  slot : Nat
  request : CallbackRequest
  ended : Bool
  deriving DecidableEq

/-- What handling a message leaves of the slots, a registration apart. -/
def Message.settle {t : Target} (slots : List (TPointer t)) : Message t → List (TPointer t)
  | .register _ => slots
  | .unregister key => releaseSlot key slots

/-- What the unregistration of a key makes of a firing. -/
def Firing.unregistered {t : Target} (key : TPointer t) (f : Firing) : Firing :=
  if f.request.key = key.setWidth 64 then { f with ended := true } else f

@[simp] theorem Firing.request_unregistered {t : Target} {key : TPointer t} {f : Firing} :
    (f.unregistered key).request = f.request := by
  unfold unregistered
  split <;> rfl

/-- All the tables. `trampolineTable` is `g_trampoline_table` as far as its
initialiser has filled it. `live` has the trampoline of every key that is
registered and not being unregistered. `registered` has each key's function, from
when its registration enters `callback_map` until it is refused, or the
unregistration erases the entry. -/
structure Tables {t : Target} (W : WasmCallbacks t) (D π : Type) where
  sandbox : MetaSandbox t D π
  callbackMap : CallbackMap t
  host : HostOp t
  inFlight : List (Message t)
  callbackKeys : List (TPointer t)
  trampolineTable : List (TPointer t)
  wasm : W.State
  firings : List Firing
  live : KeyMap (TPointer t) (TPointer t)
  registered : CallbackMap t

/-- `initialise` is the static initialiser storing one entry of the table. -/
inductive Action (t : Target) where
  | initialise (slot : Nat)
  | register (key : TPointer t) (callback : HostCallback t)
  | unregister (key : TPointer t)
  | host
  | deliver
  | fire (slot : Nat) (params : List (BitVec 64))
  | dispatch (index : Nat)

namespace Tables
variable {t : Target} {W : WasmCallbacks t} {D π : Type}

/-- Before any registration, with all slots free and no entry of the table. -/
def start (slots : Nat) (policyState : π) (wasm : W.State) : Tables W D π :=
  { sandbox := .initial policyState, callbackMap := ∅, host := .idle, inFlight := []
    callbackKeys := List.replicate slots 0, trampolineTable := List.replicate slots 0, wasm
    firings := [], live := ∅, registered := ∅ }

/-- The host has begun to unregister the key, and the shim has not heard. -/
def Ending (s : Tables W D π) (key : TPointer t) : Prop :=
  s.host.ending = some key ∨ .unregister key ∈ s.inFlight

instance (s : Tables W D π) (key : TPointer t) : Decidable (s.Ending key) :=
  inferInstanceAs (Decidable (_ ∨ _))

/-- `g_trampoline_table[i]`. -/
def entry (s : Tables W D π) (i : Nat) : TPointer t := s.trampolineTable[i]?.getD 0

/-- The slots once the unregistrations on their way have been handled. -/
def settled (s : Tables W D π) : List (TPointer t) := s.inFlight.foldl Message.settle s.callbackKeys

/-- A firing waits that loaded this key. -/
def Waits (s : Tables W D π) (key : TPointer t) : Prop :=
  ∃ f ∈ s.firings, f.request.key = key.setWidth 64

instance (s : Tables W D π) (key : TPointer t) : Decidable (s.Waits key) :=
  inferInstanceAs (Decidable (∃ f ∈ s.firings, _))

/-- The host thread's next step inside an operation. -/
def hostExec (s : Tables W D π) : Option (Tables W D π) :=
  match s.host with
  | .idle | .registering _ => none
  | .answered key procPtr =>
    if procPtr = 0 then some { s with host := .idle }
    else
      match W.register key s.wasm with
      | none => none
      | some (wasmSlot, wasm) => some { s with wasm, host := .wasmRegistered key procPtr wasmSlot }
  | .wasmRegistered key procPtr wasmSlot =>
    some { s with
      sandbox := (s.sandbox.implRegisterCallback procPtr wasmSlot key).2
      live := s.live.insert key procPtr, host := .idle }
  | .unregistering key =>
    some { s with
      callbackMap := s.callbackMap.erase key, registered := s.registered.erase key
      host := .erased key }
  | .erased key => some { s with inFlight := s.inFlight ++ [.unregister key], host := .sent key }
  | .sent key => (W.unregister key s.wasm).map fun wasm => { s with wasm, host := .idle }

/-- One step. RLBox registers no null key and none that is live. -/
def exec (env : ServerEnv t) (s : Tables W D π) : Action t → Option (Tables W D π)
  | .initialise slot =>
    some { s with trampolineTable := s.trampolineTable.set slot (env.trampoline slot) }
  | .register key callback =>
    if s.host = .idle ∧ key ≠ 0 ∧ s.live.lookup key = none then
      some { s with
        callbackMap := s.callbackMap.insert key callback
        registered := s.registered.insert key callback
        host := .registering key, inFlight := s.inFlight ++ [.register key] }
    else none
  | .unregister key =>
    if s.host = .idle ∧ key ≠ 0 then
      some { s with
        sandbox := s.sandbox.implUnregisterCallback key, live := s.live.erase key
        host := .unregistering key, firings := s.firings.map (·.unregistered key) }
    else none
  | .host => s.hostExec
  | .deliver =>
    match s.inFlight with
    | [] => none
    | .register key :: rest =>
      let answer := handleRegisterCallback { env with trampoline := s.entry } key
        (some s.callbackKeys)
      some { s with
        inFlight := rest, callbackKeys := answer.2.getD [], host := .answered key answer.1
        registered := if answer.1 = 0 then s.registered.erase key else s.registered }
    | .unregister key :: rest =>
      some { s with
        inFlight := rest
        callbackKeys := (handleUnregisterCallback key (some s.callbackKeys)).getD [] }
  | .fire slot params =>
    (trampolineImpl (some s.callbackKeys) true slot params).map fun request =>
      let ended := decide (s.Ending (request.key.setWidth t.ptrBits))
      { s with firings := s.firings ++ [⟨slot, request, ended⟩] }
  | .dispatch index =>
    if index < s.firings.length then some { s with firings := s.firings.eraseIdx index } else none

abbrev Step (env : ServerEnv t) : Tables W D π → Action t → Tables W D π → Prop :=
  ofPartial (exec env)

/-- A key that waits in a firing is registered again only where a slot will be
free for it, and a slot is taken only once the table has its trampoline. -/
def Ready (s : Tables W D π) : Action t → Prop
  | .register key _ => s.Waits key → 0 ∈ s.settled
  | .deliver => ∀ key rest i keys, s.inFlight = .register key :: rest →
      claimSlot key s.callbackKeys = some (i, keys) → s.entry i ≠ 0
  | .initialise _ | .unregister _ | .host | .fire _ _ | .dispatch _ => True

/-- All that one step can do, with what it found. -/
inductive Does (env : ServerEnv t) (s : Tables W D π) : Action t → Tables W D π → Prop where
  | initialises : Does env s (.initialise slot)
      { s with trampolineTable := s.trampolineTable.set slot (env.trampoline slot) }
  | registers (idle : s.host = .idle) (nonNull : key ≠ 0) (fresh : s.live.lookup key = none) :
      Does env s (.register key callback)
        { s with
          callbackMap := s.callbackMap.insert key callback
          registered := s.registered.insert key callback
          host := .registering key, inFlight := s.inFlight ++ [.register key] }
  | unregisters (idle : s.host = .idle) (nonNull : key ≠ 0) :
      Does env s (.unregister key)
        { s with
          sandbox := s.sandbox.implUnregisterCallback key, live := s.live.erase key
          host := .unregistering key, firings := s.firings.map (·.unregistered key) }
  | refused (answered : s.host = .answered key 0) : Does env s .host { s with host := .idle }
  | inWasm (answered : s.host = .answered key procPtr) (nonNull : procPtr ≠ 0)
      (took : W.register key s.wasm = some (wasmSlot, after)) :
      Does env s .host { s with wasm := after, host := .wasmRegistered key procPtr wasmSlot }
  | publishes (ready : s.host = .wasmRegistered key procPtr wasmSlot) :
      Does env s .host
        { s with
          sandbox := (s.sandbox.implRegisterCallback procPtr wasmSlot key).2
          live := s.live.insert key procPtr, host := .idle }
  | erases (unregistering : s.host = .unregistering key) :
      Does env s .host
        { s with
          callbackMap := s.callbackMap.erase key, registered := s.registered.erase key
          host := .erased key }
  | sends (erased : s.host = .erased key) :
      Does env s .host { s with inFlight := s.inFlight ++ [.unregister key], host := .sent key }
  | outOfWasm (sent : s.host = .sent key) (freed : W.unregister key s.wasm = some after) :
      Does env s .host { s with wasm := after, host := .idle }
  | full (next : s.inFlight = .register key :: rest)
      (taken : claimSlot key s.callbackKeys = none) :
      Does env s .deliver
        { s with
          inFlight := rest, host := .answered key 0, registered := s.registered.erase key }
  | claims (next : s.inFlight = .register key :: rest)
      (claimed : claimSlot key s.callbackKeys = some (i, keys)) (filled : s.entry i ≠ 0) :
      Does env s .deliver
        { s with inFlight := rest, callbackKeys := keys, host := .answered key (s.entry i) }
  | claimsEarly (next : s.inFlight = .register key :: rest)
      (claimed : claimSlot key s.callbackKeys = some (i, keys)) (empty : s.entry i = 0) :
      Does env s .deliver
        { s with
          inFlight := rest, callbackKeys := keys, host := .answered key 0
          registered := s.registered.erase key }
  | frees (next : s.inFlight = .unregister key :: rest) :
      Does env s .deliver
        { s with inFlight := rest, callbackKeys := releaseSlot key s.callbackKeys }
  | fires (nonNull : key ≠ 0) (loads : s.callbackKeys[slot]? = some key) :
      Does env s (.fire slot params)
        { s with firings :=
            s.firings ++ [⟨slot, ⟨key.setWidth 64, params⟩, decide (s.Ending key)⟩] }
  | dispatches : Does env s (.dispatch index) { s with firings := s.firings.eraseIdx index }

theorem does_of_hostExec {env : ServerEnv t} {s s' : Tables W D π} (done : s.hostExec = some s') :
    Does env s .host s' := by
  unfold hostExec at done
  split at done
  next => cases done
  next => cases done
  next key procPtr answered =>
    split at done
    next refused => subst refused; cases done; exact .refused answered
    next nonNull =>
      split at done
      next => cases done
      next took => cases done; exact .inWasm answered nonNull took
  next ready => cases done; exact .publishes ready
  next unregistering => cases done; exact .erases unregistering
  next erased => cases done; exact .sends erased
  next sent =>
    obtain ⟨wasm, freed, rfl⟩ := Option.map_eq_some_iff.mp done
    exact .outOfWasm sent freed

theorem does_of_step {env : ServerEnv t} {s s' : Tables W D π} {a : Action t}
    (done : Step env s a s') : Does env s a s' := by
  change exec env s a = some s' at done
  cases a with
  | initialise slot => cases done; exact .initialises
  | register key callback =>
    simp only [exec] at done
    split at done
    next ready => cases done; exact .registers ready.1 ready.2.1 ready.2.2
    next => cases done
  | unregister key =>
    simp only [exec] at done
    split at done
    next ready => cases done; exact .unregisters ready.1 ready.2
    next => cases done
  | host => exact does_of_hostExec done
  | deliver =>
    simp only [exec] at done
    split at done
    next => cases done
    next key rest next_message =>
      cases claimed : claimSlot key s.callbackKeys with
      | none =>
        simp only [handleRegisterCallback, claimed, Option.getD_some, ↓reduceIte] at done
        cases done
        exact .full next_message claimed
      | some slot =>
        simp only [handleRegisterCallback, claimed, Option.getD_some] at done
        cases done
        by_cases empty : s.entry slot.1 = 0
        · rw [if_pos empty, empty]
          exact .claimsEarly next_message claimed empty
        · rw [if_neg empty]
          exact .claims next_message claimed empty
    next key rest next_message =>
      simp only [handleUnregisterCallback, Option.map_some, Option.getD_some] at done
      cases done
      exact .frees next_message
  | fire slot params =>
    simp only [exec] at done
    obtain ⟨request, asks, rfl⟩ := Option.map_eq_some_iff.mp done
    obtain ⟨key, nonNull, loads, rfl⟩ := request_of_trampolineImpl asks
    simp only [setWidth_wire]
    exact .fires nonNull loads
  | dispatch index =>
    simp only [exec] at done
    split at done
    next => cases done; exact .dispatches
    next => cases done

end Tables
end RlboxDynamic.CallbackTables
