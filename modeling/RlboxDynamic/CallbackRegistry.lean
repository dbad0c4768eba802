import RlboxDynamic.CallbackSlots

/-! The other callback tables, and all of them together: the meta sandbox's
registry, the wasm backend's slots and the host's dispatchers, against the keys
that are registered. -/
namespace RlboxDynamic.CallbackTables
open Transition

section
variable {t : Target} {D π : Type} {s : MetaSandbox t D π} {key : TPointer t}

/-- The record of a key leaves the registry, where no other has that key. -/
theorem lookup_implUnregisterCallback
    (unique : ∀ p q r r', s.callbackRegistry.lookup p = some r →
      s.callbackRegistry.lookup q = some r' → r.key = r'.key → p = q)
    (p : TPointer t) (record : MetaCallbackRecord t) :
    (s.implUnregisterCallback key).callbackRegistry.lookup p = some record ↔
      s.callbackRegistry.lookup p = some record ∧ record.key ≠ key := by
  unfold MetaSandbox.implUnregisterCallback
  cases found : s.callbackRegistry.entries.find? (·.2.key = key) with
  | none =>
    refine ⟨fun here => ⟨here, ?_⟩, And.left⟩
    have listed := AList.mem_lookup_iff.mp here
    simpa using List.find?_eq_none.mp found _ listed
  | some entry =>
    obtain ⟨q, old⟩ := entry
    have holds : old.key = key := by simpa using List.find?_some found
    have there : s.callbackRegistry.lookup q = some old :=
      AList.mem_lookup_iff.mpr (List.mem_of_find?_eq_some found)
    simp only [KeyMap.lookup_erase]
    by_cases same : p = q
    · subst same
      simp only [↓reduceIte, reduceCtorEq, false_iff, not_and, not_not]
      intro here
      rw [there] at here
      cases here
      exact holds
    · rw [if_neg same]
      refine ⟨fun here => ⟨here, fun equal => same ?_⟩, And.left⟩
      exact unique p q record old here there (equal.trans holds.symm)

end

namespace HostOp
variable {t : Target}

/-- A key in the wasm backend that the registry does not have yet. -/
@[simp] def reserved : HostOp t → Option (TPointer t × WasmPointer)
  | .wasmRegistered key _ wasmSlot => some (key, wasmSlot)
  | .idle | .registering _ | .answered _ _ | .unregistering _ | .erased _ | .sent _ => none

end HostOp

namespace Tables
variable {t : Target} {W : WasmCallbacks t} {D π : Type} {env : ServerEnv t} {n : Nat}
  {s s' : Tables W D π} {a : Action t}

/-- Two keys never have one trampoline. -/
theorem SlotsHold.holds_inj (tramps : Trampolines env n) (kept : s.SlotsHold env n)
    (left : s.Holds key procPtr) (right : s.Holds key' procPtr) : key = key' := by
  obtain ⟨-, i, here, rfl⟩ := kept.placed key procPtr left
  obtain ⟨-, j, there, same⟩ := kept.placed key' _ right
  have bound {k : Nat} {held} (at_k : s.callbackKeys[k]? = some held) : k < n :=
    kept.size ▸ (List.getElem?_eq_some_iff.mp at_k).1
  obtain rfl := tramps.distinct i j (bound here) (bound there) same
  exact Option.some.inj (here.symm.trans there)

/-- The registry has the live trampolines, each with its key and the key's one
wasm slot, and the wasm backend has no key but those and the one on its way. -/
structure RegistryHolds (s : Tables W D π) : Prop where
  recorded : ∀ key procPtr, s.live.lookup key = some procPtr →
    ∃ wasmSlot, s.sandbox.callbackRegistry.lookup procPtr = some ⟨wasmSlot, key⟩
  nothingElse : ∀ procPtr record, s.sandbox.callbackRegistry.lookup procPtr = some record →
    s.live.lookup record.key = some procPtr ∧ W.keyAt s.wasm record.wasmSlot = some record.key
  reserved : ∀ key wasmSlot, s.host.reserved = some (key, wasmSlot) →
    W.keyAt s.wasm wasmSlot = some key
  wasmOwned : ∀ wasmSlot key, W.keyAt s.wasm wasmSlot = some key →
    key ∈ s.live ∨ s.host.leaving = some key ∨ s.host.reserved = some (key, wasmSlot)
  wasmUnique : ∀ slot slot' key, W.keyAt s.wasm slot = some key → W.keyAt s.wasm slot' = some key →
    slot = slot'

theorem start_registryHolds (empty : ∀ slot, W.keyAt w slot = none) :
    (start n policyState w : Tables W D π).RegistryHolds where
  recorded := by simp [start]
  nothingElse := by simp [start, MetaSandbox.initial]
  reserved := by simp [start]
  wasmOwned slot key here := by simp [start, empty] at here
  wasmUnique slot slot' key here := by simp [start, empty] at here

/-- Whatever is neither registered, in the registry, in the wasm backend nor on
its way there or out does not matter. -/
theorem RegistryHolds.frame (kept : s.RegistryHolds) (sandbox : s'.sandbox = s.sandbox)
    (live : s'.live = s.live) (wasm : s'.wasm = s.wasm) (leaving : s'.host.leaving = s.host.leaving)
    (reserved : s'.host.reserved = s.host.reserved) : s'.RegistryHolds where
  recorded := by rw [sandbox, live]; exact kept.recorded
  nothingElse := by rw [sandbox, live, wasm]; exact kept.nothingElse
  reserved := by rw [reserved, wasm]; exact kept.reserved
  wasmOwned := by rw [live, leaving, reserved, wasm]; exact kept.wasmOwned
  wasmUnique := by rw [wasm]; exact kept.wasmUnique

/-- No two records of the registry have one key. -/
theorem RegistryHolds.unique (kept : s.RegistryHolds) (p q : TPointer t) (r r' : MetaCallbackRecord t)
    (here : s.sandbox.callbackRegistry.lookup p = some r)
    (there : s.sandbox.callbackRegistry.lookup q = some r') (same : r.key = r'.key) : p = q := by
  have left := (kept.nothingElse p r here).1
  have right := (kept.nothingElse q r' there).1
  rw [same] at left
  exact Option.some.inj (left.symm.trans right)

theorem RegistryHolds.unregisters (kept : s.RegistryHolds) (idle : s.host = .idle) :
    ({ s with
        sandbox := s.sandbox.implUnregisterCallback key, live := s.live.erase key
        host := .unregistering key, firings := s.firings.map (·.unregistered key) } :
      Tables W D π).RegistryHolds where
  recorded k procPtr live := by
    rw [KeyMap.lookup_erase] at live
    split at live
    next => cases live
    next other =>
      obtain ⟨wasmSlot, here⟩ := kept.recorded k procPtr live
      exact ⟨wasmSlot, (lookup_implUnregisterCallback kept.unique _ _).mpr ⟨here, other⟩⟩
  nothingElse procPtr record here := by
    obtain ⟨before, other⟩ := (lookup_implUnregisterCallback kept.unique _ _).mp here
    rw [KeyMap.lookup_erase, if_neg other]
    exact kept.nothingElse procPtr record before
  reserved := by simp
  wasmOwned wasmSlot k here := by
    by_cases same : k = key
    · exact .inr (.inl (by simp [same]))
    · refine .inl (AList.mem_erase.mpr ⟨same, ?_⟩)
      simpa [idle] using kept.wasmOwned wasmSlot k here
  wasmUnique := kept.wasmUnique

theorem RegistryHolds.inWasm (lawful : W.Lawful) (slots : s.SlotsHold env n) (kept : s.RegistryHolds)
    (answered : s.host = .answered key procPtr)
    (took : W.register key s.wasm = some (wasmSlot, after)) :
    ({ s with wasm := after, host := .wasmRegistered key procPtr wasmSlot } :
      Tables W D π).RegistryHolds := by
  obtain ⟨free, reads⟩ := lawful.registers took
  have fresh : s.live.lookup key = none := (slots.fresh key (by simp [answered])).2
  have absent : ∀ slot, W.keyAt s.wasm slot ≠ some key := by
    intro slot here
    have owner := kept.wasmOwned slot key here
    simp only [answered, HostOp.leaving, HostOp.reserved, reduceCtorEq, or_false] at owner
    simp [AList.lookup_eq_none.mp fresh] at owner
  constructor
  case recorded => exact kept.recorded
  case nothingElse =>
    intro p record here
    obtain ⟨live, there⟩ := kept.nothingElse p record here
    refine ⟨live, ?_⟩
    rw [reads, if_neg, there]
    intro same
    rw [same, free] at there
    cases there
  case reserved =>
    intro k slot reserved
    obtain ⟨rfl, rfl⟩ : key = k ∧ wasmSlot = slot := by simpa using reserved
    rw [reads, if_pos rfl]
  case wasmOwned =>
    intro slot k here
    rw [reads] at here
    split at here
    next same => exact .inr (.inr (by simp [same, Option.some.inj here]))
    next => exact .inl (by simpa [answered] using kept.wasmOwned slot k here)
  case wasmUnique =>
    intro slot slot' k here there
    rw [reads] at here there
    split at here <;> split at there
    next same same' => rw [same, same']
    next => exact absurd (Option.some.inj here ▸ there) (absent _)
    next => exact absurd (Option.some.inj there ▸ here) (absent _)
    next => exact kept.wasmUnique slot slot' k here there

/-- The trampoline that is published has no record yet. -/
theorem RegistryHolds.publishes (tramps : Trampolines env n) (slots : s.SlotsHold env n)
    (kept : s.RegistryHolds) (ready : s.host = .wasmRegistered key procPtr wasmSlot) :
    ({ s with
        sandbox := (s.sandbox.implRegisterCallback procPtr wasmSlot key).2
        live := s.live.insert key procPtr, host := .idle } : Tables W D π).RegistryHolds := by
  have claimed : s.Holds key procPtr := .inr (by simp [ready])
  have fresh : s.live.lookup key = none := (slots.fresh key (by simp [ready])).2
  obtain ⟨-, i, here, atSlot⟩ := slots.placed key procPtr claimed
  have nonNull : procPtr ≠ 0#t.ptrBits := by
    rw [atSlot]
    exact tramps.nonNull i (slots.size ▸ (List.getElem?_eq_some_iff.mp here).1)
  have unrecorded : s.sandbox.callbackRegistry.lookup procPtr = none := by
    refine Option.eq_none_iff_forall_ne_some.mpr fun record there => ?_
    have live := (kept.nothingElse procPtr record there).1
    rw [slots.holds_inj tramps claimed (.inl live), live] at fresh
    cases fresh
  have reads : ∀ p, (s.sandbox.implRegisterCallback procPtr wasmSlot key).2.callbackRegistry.lookup p =
      if p = procPtr then some ⟨wasmSlot, key⟩ else s.sandbox.callbackRegistry.lookup p := by
    intro p
    rw [MetaSandbox.implRegisterCallback, if_neg nonNull]
    simp only [KeyMap.lookup_emplace, unrecorded, Option.getD_none]
  constructor
  case recorded =>
    intro k p live
    rw [KeyMap.lookup_insert] at live
    split at live
    next same => exact ⟨wasmSlot, by rw [reads, if_pos (Option.some.inj live).symm, same]⟩
    next =>
      obtain ⟨slot, record⟩ := kept.recorded k p live
      refine ⟨slot, ?_⟩
      rw [reads, if_neg, record]
      rintro rfl
      rw [unrecorded] at record
      cases record
  case nothingElse =>
    intro p record there
    rw [reads] at there
    rw [KeyMap.lookup_insert]
    split at there
    next same =>
      cases there
      exact ⟨by simp [same], kept.reserved key wasmSlot (by simp [ready])⟩
    next =>
      obtain ⟨live, wasm⟩ := kept.nothingElse p record there
      refine ⟨?_, wasm⟩
      rw [if_neg, live]
      intro same
      rw [same, fresh] at live
      cases live
  case reserved => simp
  case wasmOwned =>
    intro slot k there
    refine .inl ((AList.mem_insert _).mpr ?_)
    have owner := kept.wasmOwned slot k there
    simp only [ready, HostOp.leaving, HostOp.reserved, reduceCtorEq, false_or, Option.some.injEq,
      Prod.mk.injEq] at owner
    exact owner.symm.imp_left fun same => same.1.symm
  case wasmUnique => exact kept.wasmUnique

theorem RegistryHolds.outOfWasm (lawful : W.Lawful) (slots : s.SlotsHold env n)
    (kept : s.RegistryHolds) (sent : s.host = .sent key)
    (freed : W.unregister key s.wasm = some after) :
    ({ s with wasm := after, host := .idle } : Tables W D π).RegistryHolds := by
  obtain ⟨slot, here, reads⟩ := lawful.unregisters freed
  have dead : s.live.lookup key = none := slots.leaving key (by simp [sent])
  constructor
  case recorded => exact kept.recorded
  case nothingElse =>
    intro p record there
    obtain ⟨live, wasm⟩ := kept.nothingElse p record there
    refine ⟨live, ?_⟩
    rw [reads, if_neg, wasm]
    intro same
    rw [same, here] at wasm
    rw [← Option.some.inj wasm, dead] at live
    cases live
  case reserved => simp
  case wasmOwned =>
    intro slot' k there
    rw [reads] at there
    split at there
    next => cases there
    next other =>
      refine .inl ?_
      have owner := kept.wasmOwned slot' k there
      simp only [sent, HostOp.leaving, HostOp.reserved, reduceCtorEq, or_false, Option.some.injEq] at owner
      rcases owner with live | rfl
      · exact live
      · exact absurd (kept.wasmUnique slot' slot key there here) other
  case wasmUnique =>
    intro slot₁ slot₂ k first second
    rw [reads] at first second
    split at first
    next => cases first
    next =>
      split at second
      next => cases second
      next => exact kept.wasmUnique slot₁ slot₂ k first second

theorem step_registryHolds (lawful : W.Lawful) (tramps : Trampolines env n) (slots : s.SlotsHold env n)
    (kept : s.RegistryHolds) (done : Step env s a s') : s'.RegistryHolds := by
  cases does_of_step done with
  | initialises => exact kept.frame rfl rfl rfl rfl rfl
  | registers idle => exact kept.frame rfl rfl rfl (by simp [idle]) (by simp [idle])
  | unregisters idle => exact kept.unregisters idle
  | refused answered => exact kept.frame rfl rfl rfl (by simp [answered]) (by simp [answered])
  | inWasm answered nonNull took => exact kept.inWasm lawful slots answered took
  | publishes ready => exact kept.publishes tramps slots ready
  | erases going => exact kept.frame rfl rfl rfl (by simp [going]) (by simp [going])
  | sends erased => exact kept.frame rfl rfl rfl (by simp [erased]) (by simp [erased])
  | outOfWasm sent freed => exact kept.outOfWasm lawful slots sent freed
  | full next =>
    have waiting := (slots.waiting next).1
    exact kept.frame rfl rfl rfl (by simp [waiting]) (by simp [waiting])
  | claims next =>
    have waiting := (slots.waiting next).1
    exact kept.frame rfl rfl rfl (by simp [waiting]) (by simp [waiting])
  | claimsEarly next =>
    have waiting := (slots.waiting next).1
    exact kept.frame rfl rfl rfl (by simp [waiting]) (by simp [waiting])
  | frees => exact kept.frame rfl rfl rfl rfl rfl
  | fires => exact kept.frame rfl rfl rfl rfl rfl
  | dispatches => exact kept.frame rfl rfl rfl rfl rfl

/-- A dispatcher that a refused registration left, with no slot and no firing to
reach it. -/
structure Leftover (s : Tables W D π) (key : TPointer t) : Prop where
  nonNull : key ≠ 0
  refused : s.registered.lookup key = none
  slotless : ∀ i : Nat, s.callbackKeys[i]? ≠ some key
  unasked : ¬ s.Waits key

/-- Every key that is registered, or is about to be, has a dispatcher, and each
dispatcher that can be reached runs the function registered for its key. -/
structure MapHolds (s : Tables W D π) : Prop where
  mapped : ∀ key, key ∈ s.live ∨ s.host.registersKey = some key → key ∈ s.callbackMap
  current : ∀ key callback, s.callbackMap.lookup key = some callback →
    s.registered.lookup key = some callback ∨ s.Leftover key
  entered : ∀ key, s.host = .registering key → key ∈ s.registered
  room : ∀ key, s.host = .registering key → s.Waits key → 0 ∈ s.settled

theorem start_mapHolds : (start n policyState w : Tables W D π).MapHolds where
  mapped := by simp [start]
  current := by simp [start]
  entered := by simp [start]
  room := by simp [start]

/-- A host that goes on with no new key leaves the dispatchers as they are, and
what they can be reached through does not grow. -/
theorem MapHolds.frame (kept : s.MapHolds) (callbackMap : s'.callbackMap = s.callbackMap)
    (registered : s'.registered = s.registered)
    (keys : ∀ key, key ∈ s'.live ∨ s'.host.registersKey = some key →
      key ∈ s.live ∨ s.host.registersKey = some key)
    (slots : ∀ (i : Nat) key, key ≠ 0 → s'.callbackKeys[i]? = some key →
      s.callbackKeys[i]? = some key)
    (waits : ∀ key, s'.Waits key → s.Waits key)
    (registering : ∀ key, s'.host = .registering key →
      s.host = .registering key ∧ s'.settled = s.settled) : s'.MapHolds where
  mapped key wanted := callbackMap ▸ kept.mapped key (keys key wanted)
  current key callback here := by
    rw [callbackMap] at here
    rw [registered]
    refine (kept.current key callback here).imp_right fun leftover => ?_
    exact ⟨leftover.nonNull, registered ▸ leftover.refused,
      fun i there => leftover.slotless i (slots i key leftover.nonNull there),
      fun later => leftover.unasked (waits key later)⟩
  entered key going := registered ▸ kept.entered key (registering key going).1
  room key going waiting := by
    rw [(registering key going).2]
    exact kept.room key (registering key going).1 (waits key waiting)

theorem MapHolds.registers (kept : s.MapHolds) (ready : s.Waits key → 0 ∈ s.settled) :
    ({ s with
        callbackMap := s.callbackMap.insert key callback
        registered := s.registered.insert key callback
        host := .registering key, inFlight := s.inFlight ++ [.register key] } :
      Tables W D π).MapHolds where
  mapped k wanted := by
    refine (AList.mem_insert _).mpr ?_
    rcases wanted with live | registering
    · exact .inr (kept.mapped k (.inl live))
    · exact .inl (by simpa using registering.symm)
  current k callback here := by
    rw [KeyMap.lookup_insert] at here ⊢
    split at here
    next same => rw [if_pos same]; exact .inl here
    next other =>
      rw [if_neg other]
      refine (kept.current k callback here).imp_right fun leftover => ?_
      exact ⟨leftover.nonNull, by rw [KeyMap.lookup_insert, if_neg other]; exact leftover.refused,
        leftover.slotless, leftover.unasked⟩
  entered k going := by
    obtain rfl : key = k := by simpa using going
    exact (AList.mem_insert _).mpr (.inl rfl)
  room k going waiting := by
    obtain rfl : key = k := by simpa using going
    simpa [settled, Message.settle] using ready waiting

theorem MapHolds.erases (slots : s.SlotsHold env n) (kept : s.MapHolds)
    (going : s.host = .unregistering key) :
    ({ s with
        callbackMap := s.callbackMap.erase key, registered := s.registered.erase key
        host := .erased key } : Tables W D π).MapHolds where
  mapped k wanted := by
    simp only [HostOp.registersKey, reduceCtorEq, or_false] at wanted
    refine AList.mem_erase.mpr ⟨?_, kept.mapped k (.inl wanted)⟩
    rintro rfl
    exact AList.lookup_eq_none.mp (slots.leaving k (by simp [going])) wanted
  current k callback here := by
    rw [KeyMap.lookup_erase] at here ⊢
    split at here
    next => cases here
    next other =>
      rw [if_neg other]
      refine (kept.current k callback here).imp_right fun leftover => ?_
      exact ⟨leftover.nonNull, by rw [KeyMap.lookup_erase, if_neg other]; exact leftover.refused,
        leftover.slotless, leftover.unasked⟩
  entered := by simp
  room := by simp

/-- A refused key keeps its dispatcher. It is in no slot, and no firing has it:
one that had would have had a slot freed for the key. -/
theorem MapHolds.full (slots : s.SlotsHold env n) (kept : s.MapHolds)
    (next : s.inFlight = .register key :: rest) (taken : claimSlot key s.callbackKeys = none) :
    ({ s with inFlight := rest, host := .answered key 0, registered := s.registered.erase key } :
      Tables W D π).MapHolds := by
  obtain ⟨host, rfl⟩ := slots.waiting next
  have unasked : ¬ s.Waits key := by
    intro waiting
    have free : 0 ∈ s.callbackKeys := by
      simpa [settled, next, Message.settle] using kept.room key host waiting
    exact claimSlot_eq_none.mp taken 0 free rfl
  constructor
  case mapped =>
    refine fun k wanted => kept.mapped k ?_
    simpa [host] using wanted
  case current =>
    intro k callback here
    rw [KeyMap.lookup_erase]
    by_cases same : k = key
    · subst same
      exact .inr ⟨(slots.fresh k (by simp [host])).1, AList.lookup_erase k s.registered,
        slots.unplaced next, unasked⟩
    · rw [if_neg same]
      refine (kept.current k callback here).imp_right fun leftover => ?_
      exact ⟨leftover.nonNull, by rw [KeyMap.lookup_erase, if_neg same]; exact leftover.refused,
        leftover.slotless, leftover.unasked⟩
  case entered => simp
  case room => simp

/-- The key that takes a slot is registered, so its dispatcher is no leftover. -/
theorem MapHolds.claims (slots : s.SlotsHold env n) (kept : s.MapHolds)
    (next : s.inFlight = .register key :: rest)
    (claimed : claimSlot key s.callbackKeys = some (i, keys)) :
    ({ s with inFlight := rest, callbackKeys := keys, host := .answered key answer } :
      Tables W D π).MapHolds := by
  obtain ⟨host, rfl⟩ := slots.waiting next
  obtain ⟨-, rfl⟩ := claimSlot_eq_some claimed
  constructor
  case mapped =>
    refine fun k wanted => kept.mapped k ?_
    simpa [host] using wanted
  case current =>
    intro k callback here
    refine (kept.current k callback here).imp_right fun leftover => ?_
    refine ⟨leftover.nonNull, leftover.refused, fun j there => ?_, leftover.unasked⟩
    rw [List.getElem?_set] at there
    split at there
    next =>
      obtain ⟨-, rfl⟩ : i < s.callbackKeys.length ∧ key = k := by simpa using there
      exact AList.lookup_eq_none.mp leftover.refused (kept.entered key host)
    next => exact leftover.slotless j there
  case entered => simp
  case room => simp

/-- A free slot stays free while messages are handled. -/
theorem free_settled {messages : List (Message t)} {slots : List (TPointer t)}
    (free : 0 ∈ slots) : 0 ∈ messages.foldl Message.settle slots := by
  induction messages generalizing slots with
  | nil => exact free
  | cons message rest ih =>
    refine ih ?_
    cases message with
    | register key => exact free
    | unregister key =>
      by_cases same : (0 : TPointer t) = key
      · exact zero_mem_releaseSlot (same ▸ free)
      · exact mem_releaseSlot free same

/-- Handling the unregistration of a key that is in a slot frees one. -/
theorem told_settled {messages : List (Message t)} {slots : List (TPointer t)}
    (held : key ∈ slots) (told : .unregister key ∈ messages) :
    0 ∈ messages.foldl Message.settle slots := by
  induction messages generalizing slots with
  | nil => cases told
  | cons message rest ih =>
    rw [List.foldl_cons]
    cases message with
    | register other => exact ih held (by simpa using told)
    | unregister other =>
      by_cases same : other = key
      · subst same
        exact free_settled (zero_mem_releaseSlot held)
      · exact ih (mem_releaseSlot held (Ne.symm same)) (by simpa [Ne.symm same] using told)

/-- A key that fires while it is being registered again was not released yet, so
its own slot is the free one. -/
theorem MapHolds.fires (slots : s.SlotsHold env n) (kept : s.MapHolds) (nonNull : key ≠ 0)
    (loads : s.callbackKeys[slot]? = some key) {ended : Bool} :
    ({ s with firings := s.firings ++ [⟨slot, ⟨key.setWidth 64, params⟩, ended⟩] } :
      Tables W D π).MapHolds := by
  have asks : ∀ {k}, ({ s with firings := s.firings ++ [⟨slot, ⟨key.setWidth 64, params⟩, ended⟩] } :
      Tables W D π).Waits k → s.Waits k ∨ k = key := by
    rintro k ⟨f, inside, same⟩
    rcases List.mem_append.mp inside with earlier | new
    · exact .inl ⟨f, earlier, same⟩
    · obtain rfl := List.mem_singleton.mp new
      exact .inr (by simpa using (congrArg (BitVec.setWidth t.ptrBits) same).symm)
  constructor
  case mapped => exact kept.mapped
  case current =>
    intro k callback here
    refine (kept.current k callback here).imp_right fun leftover => ?_
    refine ⟨leftover.nonNull, leftover.refused, leftover.slotless, fun later => ?_⟩
    rcases asks later with earlier | rfl
    · exact leftover.unasked earlier
    · exact leftover.slotless slot loads
  case entered => exact kept.entered
  case room =>
    intro k registering waiting
    rcases asks waiting with earlier | rfl
    · exact kept.room k registering earlier
    · have host : s.host = .registering k := registering
      have fresh := (slots.fresh k (by rw [host]; rfl)).2
      have told : .unregister k ∈ s.inFlight := by
        simpa [Holds, Ending, fresh, host] using slots.owned slot k nonNull loads
      exact told_settled (List.mem_of_getElem? loads) told

theorem step_mapHolds (slots : s.SlotsHold env n) (kept : s.MapHolds)
    (done : Guarded Ready (Step env) s a s') : s'.MapHolds := by
  cases does_of_step done.2 with
  | initialises =>
    exact kept.frame rfl rfl (fun _ => id) (fun _ _ _ => id) (fun _ => id)
      fun _ going => ⟨going, rfl⟩
  | registers => exact kept.registers done.1
  | @unregisters key idle =>
    refine kept.frame rfl rfl (fun k wanted => .inl ?_) (fun _ _ _ => id) ?_ (by simp)
    · simp only [HostOp.registersKey, reduceCtorEq, or_false] at wanted
      exact (AList.mem_erase.mp wanted).2
    · rintro k ⟨f, inside, same⟩
      obtain ⟨earlier, before, rfl⟩ := List.mem_map.mp inside
      exact ⟨earlier, before, by simpa using same⟩
  | refused answered =>
    exact kept.frame rfl rfl (fun k wanted => .inl (by simpa using wanted)) (fun _ _ _ => id)
      (fun _ => id) (by simp)
  | inWasm answered =>
    exact kept.frame rfl rfl (fun k wanted => by simpa [answered] using wanted) (fun _ _ _ => id)
      (fun _ => id) (by simp)
  | publishes ready =>
    refine kept.frame rfl rfl (fun k wanted => ?_) (fun _ _ _ => id) (fun _ => id) (by simp)
    simp only [HostOp.registersKey, reduceCtorEq, or_false, AList.mem_insert] at wanted
    exact wanted.symm.imp_right fun same => by simp [ready, same]
  | erases going => exact kept.erases slots going
  | sends =>
    exact kept.frame rfl rfl (fun k wanted => .inl (by simpa using wanted)) (fun _ _ _ => id)
      (fun _ => id) (by simp)
  | outOfWasm =>
    exact kept.frame rfl rfl (fun k wanted => .inl (by simpa using wanted)) (fun _ _ _ => id)
      (fun _ => id) (by simp)
  | full next taken => exact kept.full slots next taken
  | claims next claimed => exact kept.claims slots next claimed
  | claimsEarly next claimed empty => exact absurd empty (done.1 _ _ _ _ next claimed)
  | @frees rest key next =>
    refine kept.frame rfl rfl (fun _ => id) (fun i k nonNull there => ?_) (fun _ => id)
      fun k going => ⟨going, by simp [settled, next, Message.settle]⟩
    have told := slots.gone key (.inr (by simp [next]))
    rw [getElem?_releaseSlot (slots.distinct · · key told.1)] at there
    split at there
    next => exact absurd (Option.some.inj there).symm nonNull
    next => exact there
  | fires nonNull loads => exact kept.fires slots nonNull loads
  | dispatches =>
    refine kept.frame rfl rfl (fun _ => id) (fun _ _ _ => id) ?_ fun _ going => ⟨going, rfl⟩
    rintro k ⟨f, inside, same⟩
    exact ⟨f, List.mem_of_mem_eraseIdx inside, same⟩

/-- All the tables at once. -/
structure Consistent (env : ServerEnv t) (n : Nat) (s : Tables W D π) : Prop where
  table : s.TableHolds env
  slots : s.SlotsHold env n
  registry : s.RegistryHolds
  map : s.MapHolds

theorem reachable_consistent (lawful : W.Lawful) (tramps : Trampolines env n)
    (empty : ∀ slot, W.keyAt w slot = none)
    (reached : Reachable (Guarded Ready (Step env)) (start n policyState w) s) :
    s.Consistent env n := by
  refine reached.invariant ?_ ?_
  · exact ⟨start_tableHolds, start_slotsHold, start_registryHolds empty, start_mapHolds⟩
  · exact fun s a s' kept done => ⟨step_tableHolds kept.table done.2,
      step_slotsHold tramps kept.table kept.slots done,
      step_registryHolds lawful tramps kept.slots kept.registry done.2,
      step_mapHolds kept.slots kept.map done⟩

/-- The answer to a request is that of the function registered for its key. -/
def RunsRegistered (s : Tables W D π) (key : TPointer t) (request : CallbackRequest) : Prop :=
  ∃ callback, s.registered.lookup key = some callback ∧
    dispatchCallback s.callbackMap request = invokeCallbackUnpacked callback request.args

/-- The tables are in bijection: every registered key has one slot, its
trampoline, and one record and wasm slot; nothing else is recorded; a register
message is refused exactly where no slot is free; and a firing that loaded a key
runs the key's function or, once its unregistration has begun, returns 0. -/
structure InBijection (step : Tables W D π → Action t → Tables W D π → Prop) (env : ServerEnv t)
    (n : Nat) (s : Tables W D π) : Prop where
  size : s.callbackKeys.length = n
  slots : ∀ key procPtr, s.live.lookup key = some procPtr →
    ∃ i, procPtr = env.trampoline i ∧ ∀ j : Nat, s.callbackKeys[j]? = some key ↔ j = i
  trampolines : ∀ key key' procPtr, s.live.lookup key = some procPtr →
    s.live.lookup key' = some procPtr → key = key'
  registry : ∀ key procPtr, s.live.lookup key = some procPtr →
    ∃ wasmSlot, s.sandbox.callbackRegistry.lookup procPtr = some ⟨wasmSlot, key⟩ ∧
      ∀ slot, W.keyAt s.wasm slot = some key ↔ slot = wasmSlot
  nothingElse : ∀ procPtr record, s.sandbox.callbackRegistry.lookup procPtr = some record →
    s.live.lookup record.key = some procPtr
  refusal : ∀ key rest s', s.inFlight = .register key :: rest → step s .deliver s' →
    (s'.host = .answered key 0 ↔ ∀ slot ∈ s.callbackKeys, slot ≠ 0)
  firings : ∀ f ∈ s.firings, ∃ key : TPointer t, f.request.key = key.setWidth 64 ∧
    (f.ended = false → s.callbackKeys[f.slot]? = some key ∧ s.RunsRegistered key f.request) ∧
    (f.ended = true → s.RunsRegistered key f.request ∨
      dispatchCallback s.callbackMap f.request = .ok 0)

/-- An answer that meets the condition is null exactly where no slot is free. -/
theorem refuses_iff (next : s.inFlight = .register key :: rest)
    (done : Guarded Ready (Step env) s .deliver s') :
    s'.host = .answered key 0 ↔ ∀ slot ∈ s.callbackKeys, slot ≠ 0 := by
  have taken_iff : claimSlot key s.callbackKeys = none ↔ ∀ slot ∈ s.callbackKeys, slot ≠ 0 :=
    claimSlot_eq_none
  rw [← taken_iff]
  cases does_of_step done.2 with
  | full here taken =>
    rw [next] at here
    cases here
    simpa using taken
  | claims here claimed filled =>
    rw [next] at here
    cases here
    refine iff_of_false (fun same => filled (HostOp.answered.inj same).2) ?_
    simp [claimed]
  | claimsEarly here claimed empty => exact absurd empty (done.1 _ _ _ _ here claimed)
  | frees here =>
    rw [next] at here
    cases here

/-- A request that can reach a dispatcher is answered by the function registered
for its key; one that finds none, with 0. -/
theorem MapHolds.dispatch (kept : s.MapHolds) (asks : request.key = key.setWidth 64)
    (reaches : ¬ s.Leftover key) :
    s.RunsRegistered key request ∨
      (key ∉ s.callbackMap ∧ dispatchCallback s.callbackMap request = .ok 0) := by
  unfold RunsRegistered dispatchCallback
  rw [asks, setWidth_wire]
  cases found : s.callbackMap.lookup key with
  | none => exact .inr ⟨AList.lookup_eq_none.mp found, rfl⟩
  | some callback =>
    exact .inl ⟨callback, (kept.current key callback found).resolve_right reaches, rfl⟩

theorem Consistent.inBijection (tramps : Trampolines env n) (kept : s.Consistent env n) :
    s.InBijection (Guarded Ready (Step env)) env n where
  size := kept.slots.size
  slots key procPtr live := by
    obtain ⟨nonNull, i, here, atSlot⟩ := kept.slots.placed key procPtr (.inl live)
    refine ⟨i, atSlot, fun j => ⟨fun there => kept.slots.distinct j i key nonNull there here, ?_⟩⟩
    rintro rfl
    exact here
  trampolines key key' procPtr left right := kept.slots.holds_inj tramps (.inl left) (.inl right)
  registry key procPtr live := by
    obtain ⟨wasmSlot, recorded⟩ := kept.registry.recorded key procPtr live
    have here := (kept.registry.nothingElse procPtr _ recorded).2
    refine ⟨wasmSlot, recorded, fun slot => ⟨fun there => ?_, ?_⟩⟩
    · exact kept.registry.wasmUnique slot wasmSlot key there here
    · rintro rfl
      exact here
  nothingElse procPtr record here := (kept.registry.nothingElse procPtr record here).1
  refusal key rest s' next done := refuses_iff next done
  firings f inside := by
    obtain ⟨key, nonNull, asks, going⟩ := kept.slots.firing f inside
    have answer := kept.map.dispatch asks fun leftover => leftover.unasked ⟨f, inside, asks⟩
    refine ⟨key, asks, fun notEnded => ?_, fun _ => answer.imp_right And.right⟩
    obtain ⟨here, staying⟩ := going notEnded
    refine ⟨here, answer.resolve_right fun missing => missing.1 (kept.map.mapped key ?_)⟩
    rcases (kept.slots.owned f.slot key nonNull here).resolve_right staying with live | claimed
    · exact .inl (AList.lookup_isSome.mp (by simp [live]))
    · refine .inr ?_
      cases host : s.host with
      | answered other procPtr =>
        simp only [host, HostOp.claimed] at claimed
        split at claimed
        next => cases claimed
        next => simpa using congrArg (Option.map Prod.fst) claimed
      | wasmRegistered other procPtr wasmSlot =>
        simpa [host] using congrArg (Option.map Prod.fst) claimed
      | _ => simp [host] at claimed

end Tables
end RlboxDynamic.CallbackTables

namespace RlboxDynamic
open Transition CallbackTables

/-- The callback tables stay in bijection through every order of registrations,
unregistrations, messages and firings in which no slot is taken before the table
has its trampoline, and no key that waits in a firing is registered again with
all slots taken. -/
theorem callback_tables_in_bijection {t : Target} {W : WasmCallbacks t} {D π : Type}
    (lawful : W.Lawful) {env : ServerEnv t} {slots : Nat} (tramps : Trampolines env slots)
    {wasm : W.State} (empty : ∀ slot, W.keyAt wasm slot = none) (policyState : π)
    {s : Tables W D π}
    (reached : Reachable (Guarded Tables.Ready (Tables.Step env)) (.start slots policyState wasm) s) :
    s.InBijection (Guarded Tables.Ready (Tables.Step env)) env slots :=
  (Tables.reachable_consistent lawful tramps empty reached).inBijection tramps

/-- A wasm backend of 128 slots, which takes the first free one. -/
def wasmSlots : WasmCallbacks .i386 where
  State := KeyMap WasmPointer (TPointer .i386)
  register key held :=
    (((List.range 128).map (BitVec.ofNat 32 ·.succ)).find? (AList.lookup · held = none)).map
      fun slot => (slot, AList.insert slot key held)
  unregister key held :=
    (held.entries.find? (·.2 = key)).map fun entry => AList.erase entry.1 held
  keyAt held slot := AList.lookup slot held

theorem wasmSlots_lawful : wasmSlots.Lawful where
  registers {key held slot after} took := by
    obtain ⟨_, found, same⟩ := Option.map_eq_some_iff.mp took
    cases same
    have free : AList.lookup slot held = none := by simpa using List.find?_some found
    exact ⟨free, fun other => KeyMap.lookup_insert slot other key held⟩
  unregisters {key held after} freed := by
    obtain ⟨⟨slot, was⟩, found, rfl⟩ := Option.map_eq_some_iff.mp freed
    obtain rfl : was = key := by simpa using List.find?_some found
    exact ⟨slot, AList.mem_lookup_iff.mpr (List.mem_of_find?_eq_some found),
      fun other => KeyMap.lookup_erase slot other held⟩

/-- Trampolines 16 bytes apart. -/
def shim : ServerEnv .i386 where
  shmBase := 0x80000000
  shmSize := 0x100000
  dlsym _ := 0
  trampoline i := BitVec.ofNat 32 (0x8000 + 16 * i)
  builderBytes := 1024
  readerBytes _ := []

theorem shim_trampolines (few : slots ≤ 64) : Trampolines shim slots where
  distinct := by
    intro i j first second same
    have value : (0x8000 + 16 * i) % 2 ^ 32 = (0x8000 + 16 * j) % 2 ^ 32 := congrArg BitVec.toNat same
    omega
  nonNull := by
    intro i bound same
    have value : (0x8000 + 16 * i) % 2 ^ 32 = 0 := congrArg BitVec.toNat same
    omega

/-- A child as it starts, with this many slots. -/
def noCallbacks (slots : Nat) : Tables wasmSlots Nat Unit :=
  .start slots () (∅ : KeyMap WasmPointer (TPointer .i386))

/-- One key registered on both sides once its trampoline is in the table, and
its trampoline fired. -/
theorem registered_key_fires :
    ∃ s, Reachable (Guarded Tables.Ready (Tables.Step shim)) (noCallbacks 64) s ∧
      s.live.lookup 0x1000 = some 0x8000 ∧ s.firings ≠ [] ∧
        s.InBijection (Guarded Tables.Ready (Tables.Step shim)) shim 64 := by
  obtain ⟨s, run, live, fired⟩ : ∃ s, Run (Guarded Tables.Ready (Tables.Step shim)) (noCallbacks 64)
      [.initialise 0, .register 0x1000 ⟨[.int], fun _ => none⟩, .deliver, .host, .host,
        .fire 0 [7, 0, 0, 0]] s ∧ s.live.lookup 0x1000 = some 0x8000 ∧ s.firings ≠ [] := by
    refine ⟨_, .cons ⟨trivial, rfl⟩ (.cons ⟨?_, rfl⟩ (.cons ⟨?_, rfl⟩ (.cons ⟨trivial, rfl⟩
      (.cons ⟨trivial, rfl⟩ (.cons ⟨trivial, rfl⟩ .nil))))), rfl, List.cons_ne_nil _ _⟩
    · rintro ⟨f, inside, -⟩
      cases inside
    · rintro _ _ _ _ ⟨⟩ ⟨⟩
      decide
  exact ⟨s, ⟨_, run⟩, live, fired, callback_tables_in_bijection wasmSlots_lawful
    (shim_trampolines (Nat.le_refl 64)) (fun _ => rfl) () ⟨_, run⟩⟩

/-- A key whose trampoline waits in a firing, unregistered and registered again
after another key took the one slot. -/
def refusedAgain : List (Action .i386) :=
  [.initialise 0, .register 0x1000 ⟨[], fun _ => none⟩, .deliver, .host, .host,
    .fire 0 [7, 0, 0, 0], .unregister 0x1000, .host, .host, .host, .deliver,
    .register 0x2000 ⟨[], fun _ => none⟩, .deliver, .host, .host,
    .register 0x1000 ⟨[], fun _ => some ⟨.int, 5, by simp⟩⟩, .deliver]

/-- A registration handled before the table is filled is refused with all 64
slots free. And in a shim of one slot, the function of a refused registration
answers the firing of an earlier one. -/
theorem refusals_out_of_bijection :
    (¬ ∀ s, Reachable (Tables.Step shim) (noCallbacks 64) s →
      s.InBijection (Tables.Step shim) shim 64) ∧
    ¬ ∀ s, Reachable (Tables.Step shim) (noCallbacks 1) s →
      s.InBijection (Tables.Step shim) shim 1 := by
  constructor
  · intro always
    have kept := always _ ⟨[.register 0x1000 ⟨[.int], fun _ => none⟩], .cons rfl .nil⟩
    have full := (kept.refusal 0x1000 [] _ rfl rfl).mp rfl
    exact full 0 (by decide) rfl
  · intro always
    have ran : (execAll (Tables.exec shim) (noCallbacks 1) refusedAgain).map (fun s =>
        (s.firings, s.registered.lookup 0x1000,
          dispatchCallback s.callbackMap ⟨0x1000, [7, 0, 0, 0]⟩)) =
        some ([⟨0, ⟨0x1000, [7, 0, 0, 0]⟩, true⟩], none, .ok 5) := rfl
    obtain ⟨s, run, same⟩ := exists_run ran
    simp only [Prod.mk.injEq] at same
    obtain ⟨firings, refused, answer⟩ := same
    have waits : ⟨0, ⟨0x1000, [7, 0, 0, 0]⟩, true⟩ ∈ s.firings := by simp [firings]
    obtain ⟨key, asks, -, ended⟩ := (always s ⟨_, run⟩).firings _ waits
    obtain rfl : key = 0x1000 := by simpa using (congrArg (BitVec.setWidth 32) asks).symm
    rcases ended rfl with ⟨callback, current, -⟩ | nothing
    · rw [refused] at current
      cases current
    · rw [answer] at nothing
      cases nothing

end RlboxDynamic
