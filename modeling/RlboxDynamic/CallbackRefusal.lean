import RlboxDynamic.CallbackRegistry

/-! Refused callback registrations. The host publishes the dispatcher before it
asks the shim for a slot, and takes it back on no way out; the meta sandbox
publishes only what the process sandbox did not refuse. -/
namespace RlboxDynamic.CallbackTables

variable {t : Target} {D π : Type}

/-- What becomes of the `registerCallback` request, on either transport: there
is no connection, the call fails before the shim handles it or after, or the
shim's answer arrives. -/
inductive CallOutcome where
  | noTransport
  | lostRequest
  | lostReply
  | answered
  deriving DecidableEq

/-- The dispatchers of a process sandbox and the slots of its shim. -/
structure ProcessTables (t : Target) where
  callbackMap : CallbackMap t
  callbackKeys : Option (List (TPointer t))

namespace ProcessTables

/-- `impl_register_callback` of the process sandbox. -/
def implRegisterCallback (env : ServerEnv t) (outcome : CallOutcome) (key : TPointer t)
    (callback : HostCallback t) (s : ProcessTables t) : TPointer t × ProcessTables t :=
  let s := { s with callbackMap := s.callbackMap.insert key callback }
  let (trampoline, callbackKeys) := handleRegisterCallback env key s.callbackKeys
  match outcome with
  | .noTransport | .lostRequest => (0, s)
  | .lostReply => (0, { s with callbackKeys })
  | .answered => (trampoline, { s with callbackKeys })

/-- The tables hold the same, and so does what they do with any request. -/
structure Same (s s' : ProcessTables t) : Prop where
  dispatchers : ∀ key, s'.callbackMap.lookup key = s.callbackMap.lookup key
  slots : s'.callbackKeys = s.callbackKeys
  requests : ∀ request, dispatchCallback s'.callbackMap request = dispatchCallback s.callbackMap request

end ProcessTables

/-- The process sandbox, with the meta sandbox's registry and wasm's slots. -/
structure DualTables (W : WasmCallbacks t) (D π : Type) where
  process : ProcessTables t
  wasm : W.State
  sandbox : MetaSandbox t D π

/-- `impl_register_callback` of the meta sandbox. None where wasm aborts. -/
def DualTables.implRegisterCallback {W : WasmCallbacks t} (env : ServerEnv t)
    (outcome : CallOutcome) (key : TPointer t) (callback : HostCallback t) (s : DualTables W D π) :
    Option (TPointer t × DualTables W D π) :=
  let (procPtr, process) := s.process.implRegisterCallback env outcome key callback
  if procPtr = 0 then some (0, { s with process })
  else
    (W.register key s.wasm).map fun (wasmSlot, wasm) =>
      let (p, sandbox) := s.sandbox.implRegisterCallback procPtr wasmSlot key
      (p, { process, wasm, sandbox })

section
variable {env : ServerEnv t} {outcome : CallOutcome} {key : TPointer t} {callback : HostCallback t}

/-- A refused registration leaves the process sandbox's tables alone. -/
def RefusalHarmless (env : ServerEnv t) (outcome : CallOutcome) (key : TPointer t)
    (callback : HostCallback t) (s : ProcessTables t) : Prop :=
  (s.implRegisterCallback env outcome key callback).1 = 0 →
    s.Same (s.implRegisterCallback env outcome key callback).2

/-- One the meta sandbox reports leaves its registry and wasm's slots alone. -/
def MetaRefusalHarmless {W : WasmCallbacks t} (env : ServerEnv t) (outcome : CallOutcome)
    (key : TPointer t) (callback : HostCallback t) (s : DualTables W D π) : Prop :=
  ∀ s', s.implRegisterCallback env outcome key callback = some (0, s') →
    s'.sandbox.callbackRegistry = s.sandbox.callbackRegistry ∧ s'.wasm = s.wasm

/-- The shim has no slot to give. -/
def NoFreeSlot (callbackKeys : Option (List (TPointer t))) : Prop :=
  ∀ slots, callbackKeys = some slots → ∀ slot ∈ slots, slot ≠ 0

/-- The slot the shim would give has a null entry in `g_trampoline_table`, as all
have until its initialiser has run. -/
def NoEntry (env : ServerEnv t) (key : TPointer t) (callbackKeys : Option (List (TPointer t))) :
    Prop :=
  ∃ slots i slots', callbackKeys = some slots ∧ claimSlot key slots = some (i, slots') ∧
    env.trampoline i = 0

/-- The shim was not reached, did not get its answer through, or had no slot or
no trampoline. -/
def Refused (env : ServerEnv t) (outcome : CallOutcome) (key : TPointer t) (s : ProcessTables t) :
    Prop :=
  outcome ≠ .answered ∨ NoFreeSlot s.callbackKeys ∨ NoEntry env key s.callbackKeys

/-- The registration repeats what the tables have: the same function under the
same key, and no slot that the shim, where it handles the request, would fill. -/
def Repeats (outcome : CallOutcome) (key : TPointer t) (callback : HostCallback t)
    (s : ProcessTables t) : Prop :=
  s.callbackMap.lookup key = some callback ∧
    (outcome = .lostReply ∨ outcome = .answered → key = 0 ∨ NoFreeSlot s.callbackKeys)

/-- All that the handler can do: refuse, or fill the first free slot with the key. -/
inductive Handles (env : ServerEnv t) (key : TPointer t) (callbackKeys : Option (List (TPointer t))) :
    TPointer t × Option (List (TPointer t)) → Prop where
  | refuses (full : NoFreeSlot callbackKeys) : Handles env key callbackKeys (0, callbackKeys)
  | fills (kept : callbackKeys = some slots)
      (claimed : claimSlot key slots = some (i, slots.set i key)) (free : slots[i]? = some 0) :
      Handles env key callbackKeys (env.trampoline i, some (slots.set i key))

theorem handles (env : ServerEnv t) (key : TPointer t) (callbackKeys : Option (List (TPointer t))) :
    Handles env key callbackKeys (handleRegisterCallback env key callbackKeys) := by
  unfold handleRegisterCallback
  split
  · exact .refuses fun slots none => by cases none
  · rename_i slots
    split
    · rename_i full
      refine .refuses fun slots' kept => ?_
      cases kept
      exact claimSlot_eq_none.mp full
    · rename_i i slots' claimed
      obtain ⟨free, rfl⟩ := claimSlot_eq_some claimed
      exact .fills rfl claimed free

theorem not_noFreeSlot {slots : List (TPointer t)} {i : Nat} (free : slots[i]? = some 0) :
    ¬ NoFreeSlot (some slots) := fun full => full slots rfl 0 (List.mem_of_getElem? free) rfl

/-- The handler leaves the slots alone when none is free, and also when it fills
one with the value of a free one. -/
theorem handleRegisterCallback_slots {callbackKeys : Option (List (TPointer t))} :
    (handleRegisterCallback env key callbackKeys).2 = callbackKeys ↔
      key = 0 ∨ NoFreeSlot callbackKeys := by
  have cases := handles env key callbackKeys
  generalize handleRegisterCallback env key callbackKeys = answer at cases ⊢
  cases cases with
  | refuses full => exact iff_of_true rfl (.inr full)
  | @fills slots i kept claimed free =>
    subst kept
    rw [or_iff_left (not_noFreeSlot free), Option.some.injEq]
    obtain ⟨inside, value⟩ := List.getElem?_eq_some_iff.mp free
    constructor
    · intro same
      have now : (slots.set i key)[i]? = some key := List.getElem?_set_self inside
      rw [same, free] at now
      exact (Option.some.inj now).symm
    · rintro rfl
      rw [← value]
      exact List.set_getElem_self inside

theorem handleRegisterCallback_null {callbackKeys : Option (List (TPointer t))} :
    (handleRegisterCallback env key callbackKeys).1 = 0 ↔
      NoFreeSlot callbackKeys ∨ NoEntry env key callbackKeys := by
  have cases := handles env key callbackKeys
  generalize handleRegisterCallback env key callbackKeys = answer at cases ⊢
  cases cases with
  | refuses full => exact iff_of_true rfl (.inl full)
  | @fills slots i kept claimed free =>
    subst kept
    rw [or_iff_right (not_noFreeSlot free)]
    refine ⟨fun null => ⟨slots, i, _, rfl, claimed, null⟩, ?_⟩
    rintro ⟨slots', j, _, same, found, null⟩
    cases same
    cases claimed.symm.trans found
    exact null

theorem lookup_insert_same_iff {table : CallbackMap t} :
    (∀ k, (table.insert key callback).lookup k = table.lookup k) ↔
      table.lookup key = some callback := by
  constructor
  · intro same
    rw [← same key]
    exact AList.lookup_insert table
  · intro held k
    rw [KeyMap.lookup_insert]
    split
    · subst k; exact held.symm
    · rfl

theorem ProcessTables.Same.of_lookup {s s' : ProcessTables t}
    (dispatchers : ∀ key, s'.callbackMap.lookup key = s.callbackMap.lookup key)
    (slots : s'.callbackKeys = s.callbackKeys) : s.Same s' where
  dispatchers := dispatchers
  slots := slots
  requests request := by unfold dispatchCallback; rw [dispatchers]

/-- The result is 0 exactly where the registration is refused. -/
theorem implRegisterCallback_refused {s : ProcessTables t} :
    (s.implRegisterCallback env outcome key callback).1 = 0 ↔ Refused env outcome key s := by
  unfold Refused
  cases outcome with
  | answered =>
    rw [or_iff_right (by simp)]
    exact handleRegisterCallback_null
  | _ => exact iff_of_true rfl (.inl (by simp))

/-- The dispatcher is published on every way out. -/
theorem implRegisterCallback_callbackMap (env : ServerEnv t) (outcome : CallOutcome)
    (s : ProcessTables t) :
    (s.implRegisterCallback env outcome key callback).2.callbackMap =
      s.callbackMap.insert key callback := by
  cases outcome <;> rfl

/-- What a registration leaves as it was. -/
theorem implRegisterCallback_same {s : ProcessTables t} :
    s.Same (s.implRegisterCallback env outcome key callback).2 ↔
      Repeats outcome key callback s := by
  have both : s.Same (s.implRegisterCallback env outcome key callback).2 ↔
      (∀ k, (s.callbackMap.insert key callback).lookup k = s.callbackMap.lookup k) ∧
        (s.implRegisterCallback env outcome key callback).2.callbackKeys = s.callbackKeys := by
    rw [← implRegisterCallback_callbackMap env outcome]
    exact ⟨fun same => ⟨same.dispatchers, same.slots⟩,
      fun both => .of_lookup both.1 both.2⟩
  rw [both, lookup_insert_same_iff, Repeats]
  refine and_congr_right fun _ => ?_
  cases outcome with
  | noTransport => simp [ProcessTables.implRegisterCallback]
  | lostRequest => simp [ProcessTables.implRegisterCallback]
  | lostReply => simpa [ProcessTables.implRegisterCallback] using handleRegisterCallback_slots
  | answered => simpa [ProcessTables.implRegisterCallback] using handleRegisterCallback_slots

/-- The meta sandbox gives back the trampoline it was given. -/
theorem registered_pointer {sandbox : MetaSandbox t D π} {procPtr : TPointer t}
    {wasmSlot : WasmPointer} : (sandbox.implRegisterCallback procPtr wasmSlot key).1 = procPtr := by
  unfold MetaSandbox.implRegisterCallback
  split
  · rename_i null
    exact null.symm
  · rfl

/-- Whatever the process sandbox does, the meta sandbox publishes nothing that
was refused. -/
theorem meta_refusal_harmless {W : WasmCallbacks t} (s : DualTables W D π) :
    MetaRefusalHarmless env outcome key callback s := by
  intro s' done
  unfold DualTables.implRegisterCallback at done
  dsimp only at done
  split at done
  · cases done
    exact ⟨rfl, rfl⟩
  · rename_i granted
    obtain ⟨⟨wasmSlot, wasm⟩, -, result⟩ := Option.map_eq_some_iff.mp done
    have trampoline := congrArg Prod.fst result
    exact absurd (registered_pointer.symm.trans trampoline) granted

/-- For every state and key: refusals leave both sandboxes' tables alone exactly
where the registration is not refused, or repeats what the tables have. -/
theorem refusal_harmless_iff {W : WasmCallbacks t} (s : DualTables W D π) :
    (RefusalHarmless env outcome key callback s.process ∧
        MetaRefusalHarmless env outcome key callback s) ↔
      ¬ Refused env outcome key s.process ∨ Repeats outcome key callback s.process := by
  rw [and_iff_left (meta_refusal_harmless s)]
  unfold RefusalHarmless
  rw [implRegisterCallback_refused, implRegisterCallback_same]
  exact imp_iff_not_or

end

/-- A host function of one argument that answers 1. -/
def answersOne : HostCallback .i386 := ⟨[.int], fun _ => some ⟨.int, 1, by simp⟩⟩

/-- Nothing registered on the host, and a shim with these slots given. -/
def takenSlots (keys : List (TPointer .i386)) : DualTables wasmSlots Nat Unit where
  process := { callbackMap := ∅, callbackKeys := some keys }
  wasm := (∅ : KeyMap WasmPointer (TPointer .i386))
  sandbox := .initial ()

/-- The keys of a full pool of 64 slots. -/
def fullPool : List (TPointer .i386) := (List.range 64).map fun i => BitVec.ofNat 32 (0x1000 + i)

theorem fullPool_full : NoFreeSlot (some fullPool) := by
  intro slots kept slot inside
  cases kept
  obtain ⟨i, bound, rfl⟩ := List.mem_map.mp inside
  have small := List.mem_range.mp bound
  intro same
  have value : (0x1000 + i) % 2 ^ 32 = 0 := congrArg BitVec.toNat same
  omega

/-- With all 64 slots taken, the refused function answers a request with its
key. -/
theorem refused_callback_runs :
    ¬ (RefusalHarmless shim .answered 0x5000 answersOne (takenSlots fullPool).process ∧
        MetaRefusalHarmless shim .answered 0x5000 answersOne (takenSlots fullPool)) := by
  rintro ⟨harmless, -⟩
  have refused : Refused shim .answered 0x5000 (takenSlots fullPool).process :=
    .inr (.inl fullPool_full)
  have same := (harmless (implRegisterCallback_refused.mpr refused)).requests ⟨0x5000, [7]⟩
  rw [implRegisterCallback_callbackMap] at same
  exact absurd (Except.ok.inj same) (by decide)

end RlboxDynamic.CallbackTables
