import RlboxDynamic.CallbackTables

/-! The shim's callback slots in every reachable state. A slot has a key that is
registered, is being registered, or whose unregistration has begun, and every
registered key has one slot. -/
namespace RlboxDynamic.CallbackTables
open Transition

namespace HostOp
variable {t : Target}

/-- The key of a registration under way. -/
@[simp] def registersKey : HostOp t → Option (TPointer t)
  | .registering key | .answered key _ | .wasmRegistered key _ _ => some key
  | .idle | .unregistering _ | .erased _ | .sent _ => none

/-- A key and the trampoline the shim gave it, before it is published. -/
@[simp] def claimed : HostOp t → Option (TPointer t × TPointer t)
  | .answered key procPtr => if procPtr = 0 then none else some (key, procPtr)
  | .wasmRegistered key procPtr _ => some (key, procPtr)
  | .idle | .registering _ | .unregistering _ | .erased _ | .sent _ => none

/-- The key of an unregistration under way. -/
@[simp] def leaving : HostOp t → Option (TPointer t)
  | .unregistering key | .erased key | .sent key => some key
  | .idle | .registering _ | .answered _ _ | .wasmRegistered _ _ _ => none

/-- The message a registration waits behind. -/
@[simp] def message : HostOp t → List (Message t)
  | .registering key => [.register key]
  | .idle | .answered _ _ | .wasmRegistered _ _ _ | .unregistering _ | .erased _ | .sent _ => []

end HostOp

namespace Tables
variable {t : Target} {W : WasmCallbacks t} {D π : Type} {env : ServerEnv t} {n : Nat}
  {s s' : Tables W D π} {a : Action t}

/-- The key's slot is the one of this trampoline. -/
def Holds (s : Tables W D π) (key procPtr : TPointer t) : Prop :=
  s.live.lookup key = some procPtr ∨ s.host.claimed = some (key, procPtr)

/-- A firing loaded some key, which its slot keeps while the host keeps it. -/
def Loaded (s : Tables W D π) (f : Firing) : Prop :=
  ∃ key : TPointer t, key ≠ 0 ∧ f.request.key = key.setWidth 64 ∧
    (f.ended = false → s.callbackKeys[f.slot]? = some key ∧ ¬ s.Ending key)

/-- The shim's slots against what the host has asked for. -/
structure SlotsHold (env : ServerEnv t) (n : Nat) (s : Tables W D π) : Prop where
  size : s.callbackKeys.length = n
  distinct : ∀ (i j : Nat) key, key ≠ 0 → s.callbackKeys[i]? = some key →
    s.callbackKeys[j]? = some key → i = j
  owned : ∀ (i : Nat) key, key ≠ 0 → s.callbackKeys[i]? = some key →
    s.Holds key (env.trampoline i) ∨ s.Ending key
  placed : ∀ key procPtr, s.Holds key procPtr →
    key ≠ 0 ∧ ∃ i, s.callbackKeys[i]? = some key ∧ procPtr = env.trampoline i
  fresh : ∀ key, s.host.registersKey = some key → key ≠ 0 ∧ s.live.lookup key = none
  queue : ∃ ended : List (TPointer t), s.inFlight = ended.map .unregister ++ s.host.message
  flushed : ∀ claim, s.host.claimed = some claim → s.inFlight = []
  gone : ∀ key, s.Ending key → key ≠ 0 ∧ s.live.lookup key = none
  leaving : ∀ key, s.host.leaving = some key → s.live.lookup key = none
  firing : ∀ f ∈ s.firings, s.Loaded f

/-- A register message is the last one, and the host waits for its answer. -/
theorem SlotsHold.waiting (kept : s.SlotsHold env n) (next : s.inFlight = .register key :: rest) :
    s.host = .registering key ∧ rest = [] := by
  obtain ⟨ended, order⟩ := kept.queue
  rw [next] at order
  cases ended with
  | cons first others => simp at order
  | nil =>
    cases host : s.host with
    | registering other =>
      simp only [host, HostOp.message, List.map_nil, List.nil_append, List.cons.injEq,
        Message.register.injEq] at order
      simp [order]
    | _ => simp [host] at order

/-- The key of a register message is in no slot. -/
theorem SlotsHold.unplaced (kept : s.SlotsHold env n) (next : s.inFlight = .register key :: rest)
    (i : Nat) : s.callbackKeys[i]? ≠ some key := by
  intro found
  obtain ⟨host, rfl⟩ := kept.waiting next
  obtain ⟨nonNull, fresh⟩ := kept.fresh key (by rw [host]; rfl)
  rcases kept.owned i key nonNull found with (live | claimed) | (ending | told)
  · simp [fresh] at live
  · simp [host] at claimed
  · simp [host] at ending
  · simp [next] at told

theorem start_slotsHold : (start n policyState w : Tables W D π).SlotsHold env n where
  size := by simp [start]
  distinct := by
    intro i j key nonNull here
    simp only [start, List.getElem?_replicate] at here
    split at here
    · exact absurd (Option.some.inj here).symm nonNull
    · cases here
  owned := by
    intro i key nonNull here
    simp only [start, List.getElem?_replicate] at here
    split at here
    · exact absurd (Option.some.inj here).symm nonNull
    · cases here
  placed := by
    rintro key procPtr (live | claimed)
    · simp [start] at live
    · simp [start] at claimed
  fresh := by simp [start]
  queue := ⟨[], rfl⟩
  flushed := by simp [start]
  gone := by simp [start, Ending]
  leaving := by simp [start]
  firing := by simp [start]

/-- Whatever is neither slots, messages, registered keys nor the host's place
does not matter to the slots. -/
theorem SlotsHold.frame (kept : s.SlotsHold env n) (keys : s'.callbackKeys = s.callbackKeys)
    (messages : s'.inFlight = s.inFlight) (live : s'.live = s.live) (host : s'.host = s.host)
    (firing : ∀ f ∈ s'.firings, s.Loaded f) : s'.SlotsHold env n := by
  have holds : ∀ key procPtr, s'.Holds key procPtr ↔ s.Holds key procPtr := by simp [Holds, live, host]
  have ending : ∀ key, s'.Ending key ↔ s.Ending key := by simp [Ending, messages, host]
  constructor
  case size => rw [keys]; exact kept.size
  case distinct => rw [keys]; exact kept.distinct
  case owned => simp only [keys, holds, ending]; exact kept.owned
  case placed => simp only [keys, holds]; exact kept.placed
  case fresh => rw [host, live]; exact kept.fresh
  case queue => rw [host, messages]; exact kept.queue
  case flushed => rw [host, messages]; exact kept.flushed
  case gone => simp only [ending, live]; exact kept.gone
  case leaving => rw [host, live]; exact kept.leaving
  case firing => simp only [Loaded, keys, ending]; exact firing

/-- The host goes on to a place that holds, ends and awaits the same keys. -/
theorem SlotsHold.hostMoves (kept : s.SlotsHold env n) {host : HostOp t} {after : W.State}
    (claim : host.claimed = s.host.claimed) (ending : host.ending = s.host.ending)
    (message : host.message = s.host.message)
    (registers : ∀ key, host.registersKey = some key → s.host.registersKey = some key)
    (leaves : ∀ key, host.leaving = some key → s.host.leaving = some key) :
    ({ s with host, wasm := after } : Tables W D π).SlotsHold env n where
  size := kept.size
  distinct := kept.distinct
  owned := by simp only [Holds, Ending, claim, ending]; exact kept.owned
  placed := by simp only [Holds, claim]; exact kept.placed
  fresh key registering := kept.fresh key (registers key registering)
  queue := by simp only [message]; exact kept.queue
  flushed := by simp only [claim]; exact kept.flushed
  gone := by simp only [Ending, ending]; exact kept.gone
  leaving key leaving := kept.leaving key (leaves key leaving)
  firing := by simp only [Loaded, Ending, ending]; exact kept.firing

theorem SlotsHold.registers (kept : s.SlotsHold env n) (idle : s.host = .idle) (nonNull : key ≠ 0)
    (fresh : s.live.lookup key = none) :
    ({ s with
        callbackMap := s.callbackMap.insert key callback
        registered := s.registered.insert key callback
        host := .registering key, inFlight := s.inFlight ++ [.register key] } :
      Tables W D π).SlotsHold env n where
  size := kept.size
  distinct := kept.distinct
  owned i k nonzero here := by simpa [Holds, Ending, idle] using kept.owned i k nonzero here
  placed k procPtr holds := kept.placed k procPtr (by simpa [Holds, idle] using holds)
  fresh k registering := by
    obtain rfl : key = k := by simpa using registering
    exact ⟨nonNull, fresh⟩
  queue := by
    obtain ⟨ended, order⟩ := kept.queue
    exact ⟨ended, by simpa [idle] using order⟩
  flushed := by simp
  gone k ending := kept.gone k (by simpa [Ending, idle] using ending)
  leaving := by simp
  firing f inside := by simpa [Loaded, Ending, idle] using kept.firing f inside

theorem SlotsHold.unregisters (kept : s.SlotsHold env n) (idle : s.host = .idle) (nonNull : key ≠ 0) :
    ({ s with
        sandbox := s.sandbox.implUnregisterCallback key, live := s.live.erase key
        host := .unregistering key, firings := s.firings.map (·.unregistered key) } :
      Tables W D π).SlotsHold env n where
  size := kept.size
  distinct := kept.distinct
  owned i k nonzero here := by
    have before := kept.owned i k nonzero here
    by_cases same : k = key
    · exact .inr (.inl (by simp [same]))
    · simpa [Holds, Ending, idle, KeyMap.lookup_erase, same, Ne.symm same] using before
  placed k procPtr holds := by
    refine kept.placed k procPtr (.inl ?_)
    simp only [Holds, KeyMap.lookup_erase, HostOp.claimed, reduceCtorEq, or_false] at holds
    split at holds
    · cases holds
    · exact holds
  fresh := by simp
  queue := by
    obtain ⟨ended, order⟩ := kept.queue
    exact ⟨ended, by simpa [idle] using order⟩
  flushed := by simp
  gone k ending := by
    rw [KeyMap.lookup_erase]
    by_cases same : k = key
    · exact ⟨same ▸ nonNull, if_pos same⟩
    · rw [if_neg same]
      exact kept.gone k (by simpa [Ending, idle, Ne.symm same] using ending)
  leaving k leaving := by
    obtain rfl : key = k := by simpa using leaving
    exact AList.lookup_erase key s.live
  firing := by
    intro f inside
    obtain ⟨earlier, before, rfl⟩ := List.mem_map.mp inside
    obtain ⟨k, nonzero, asks, holds⟩ := kept.firing earlier before
    by_cases same : k = key
    · subst same
      exact ⟨k, nonzero, by simp [Firing.unregistered, asks], by simp [Firing.unregistered, asks]⟩
    · have other : earlier.request.key ≠ key.setWidth 64 := fun equal =>
        same (by simpa using congrArg (BitVec.setWidth t.ptrBits) (asks.symm.trans equal))
      rw [Firing.unregistered, if_neg other]
      refine ⟨k, nonzero, asks, fun going => ⟨(holds going).1, ?_⟩⟩
      simpa [Ending, idle, Ne.symm same] using (holds going).2

/-- Publishing a claimed key moves it from the host's hands to the live ones. -/
theorem SlotsHold.publishes (kept : s.SlotsHold env n)
    (ready : s.host = .wasmRegistered key procPtr wasmSlot) :
    ({ s with
        sandbox := (s.sandbox.implRegisterCallback procPtr wasmSlot key).2
        live := s.live.insert key procPtr, host := .idle } : Tables W D π).SlotsHold env n := by
  have empty : s.inFlight = [] := kept.flushed (key, procPtr) (by simp [ready])
  have fresh : s.live.lookup key = none := (kept.fresh key (by simp [ready])).2
  have holds : ∀ k q, (s.live.insert key procPtr).lookup k = some q ↔ s.Holds k q := by
    intro k q
    rw [KeyMap.lookup_insert]
    by_cases same : k = key
    · subst same
      simp [Holds, fresh, ready]
    · simp [Holds, ready, same, Ne.symm same]
  constructor
  case size => exact kept.size
  case distinct => exact kept.distinct
  case owned =>
    intro i k nonzero here
    refine .inl (.inl ((holds _ _).mpr ?_))
    simpa [Ending, ready, empty] using kept.owned i k nonzero here
  case placed =>
    rintro k q (live | claimed)
    · exact kept.placed k q ((holds k q).mp live)
    · simp at claimed
  case fresh => simp
  case queue => exact ⟨[], by simpa using empty⟩
  case flushed => simp
  case gone => simp [Ending, empty]
  case leaving => simp
  case firing => exact fun f inside => by simpa [Loaded, Ending, ready] using kept.firing f inside

theorem SlotsHold.sends (kept : s.SlotsHold env n) (erased : s.host = .erased key) :
    ({ s with inFlight := s.inFlight ++ [.unregister key], host := .sent key } :
      Tables W D π).SlotsHold env n := by
  have ending : ∀ k, ({ s with
      inFlight := s.inFlight ++ [.unregister key], host := .sent key } : Tables W D π).Ending k ↔
        s.Ending k := by
    intro k
    simp only [Ending, erased, HostOp.ending, reduceCtorEq, List.mem_append, List.mem_singleton,
      Message.unregister.injEq, false_or, Option.some.injEq]
    exact ⟨fun told => told.symm.imp_left Eq.symm, fun told => (told.imp_left Eq.symm).symm⟩
  constructor
  case size => exact kept.size
  case distinct => exact kept.distinct
  case owned =>
    intro i k nonzero here
    rw [ending]
    simpa [Holds, erased] using kept.owned i k nonzero here
  case placed => exact fun k procPtr holds => kept.placed k procPtr (by simpa [Holds, erased] using holds)
  case fresh => simp
  case queue =>
    obtain ⟨ended, order⟩ := kept.queue
    exact ⟨ended ++ [key], by simp [order, erased]⟩
  case flushed => simp
  case gone => exact fun k told => kept.gone k ((ending k).mp told)
  case leaving => exact fun k leaving => kept.leaving k (by simpa [erased] using leaving)
  case firing => simp only [Loaded, ending]; exact kept.firing

/-- No slot is free: the reply is null, and the slots stay as they are. -/
theorem SlotsHold.full (kept : s.SlotsHold env n) (next : s.inFlight = .register key :: rest) :
    ({ s with inFlight := rest, host := .answered key 0, registered := s.registered.erase key } :
      Tables W D π).SlotsHold env n := by
  obtain ⟨host, rfl⟩ := kept.waiting next
  constructor
  case size => exact kept.size
  case distinct => exact kept.distinct
  case owned =>
    intro i k nonzero here
    simpa [Holds, Ending, host, next] using kept.owned i k nonzero here
  case placed => exact fun k procPtr holds => kept.placed k procPtr (by simpa [Holds, host] using holds)
  case fresh => exact fun k registers => kept.fresh k (by simpa [host] using registers)
  case queue => exact ⟨[], rfl⟩
  case flushed => simp
  case gone => simp [Ending]
  case leaving => simp
  case firing => exact fun f inside => by simpa [Loaded, Ending, host, next] using kept.firing f inside

/-- A free slot is taken for the key, and its trampoline is the reply. -/
theorem SlotsHold.claims (tramps : Trampolines env n) (kept : s.SlotsHold env n)
    (next : s.inFlight = .register key :: rest)
    (claimed : claimSlot key s.callbackKeys = some (i, keys)) :
    ({ s with inFlight := rest, callbackKeys := keys, host := .answered key (env.trampoline i) } :
      Tables W D π).SlotsHold env n := by
  obtain ⟨host, rfl⟩ := kept.waiting next
  obtain ⟨free, rfl⟩ := claimSlot_eq_some claimed
  obtain ⟨bound, -⟩ := List.getElem?_eq_some_iff.mp free
  have nonNull : env.trampoline i ≠ 0 := tramps.nonNull i (kept.size ▸ bound)
  -- The slot of another key is another slot, since this one was free.
  have apart : ∀ {j : Nat} {k}, k ≠ 0 → s.callbackKeys[j]? = some k → i ≠ j := by
    rintro j k nonzero here rfl
    rw [free] at here
    exact nonzero (Option.some.inj here).symm
  have reads : ∀ (j : Nat) k, (s.callbackKeys.set i key)[j]? = some k →
      (i = j ∧ key = k) ∨ s.callbackKeys[j]? = some k := by
    intro j k here
    rw [List.getElem?_set] at here
    split at here
    next same => exact .inl ⟨same, by simpa [bound] using here⟩
    next => exact .inr here
  have unplaced := kept.unplaced next
  constructor
  case size => simpa using kept.size
  case distinct =>
    intro j₁ j₂ k nonzero first second
    rcases reads _ _ first, reads _ _ second with ⟨⟨rfl, rfl⟩ | old₁, ⟨rfl, same⟩ | old₂⟩
    · rfl
    · exact absurd old₂ (unplaced _)
    · exact absurd (same ▸ old₁) (unplaced _)
    · exact kept.distinct _ _ _ nonzero old₁ old₂
  case owned =>
    intro j k nonzero here
    rcases reads j k here with ⟨rfl, rfl⟩ | before
    · exact .inl (.inr (if_neg nonNull))
    · have owner := kept.owned j k nonzero before
      simp only [Holds, Ending, host, next, HostOp.claimed, HostOp.ending, reduceCtorEq, or_false,
        List.mem_singleton] at owner
      exact .inl (.inl owner)
  case placed =>
    rintro k procPtr (live | claim)
    · obtain ⟨nonzero, j, here, same⟩ := kept.placed k procPtr (.inl live)
      exact ⟨nonzero, j, by rwa [List.getElem?_set_ne (apart nonzero here)], same⟩
    · obtain ⟨rfl, rfl⟩ : key = k ∧ env.trampoline i = procPtr := by
        simp only [HostOp.claimed, if_neg nonNull, Option.some.injEq, Prod.mk.injEq] at claim
        exact claim
      exact ⟨(kept.fresh key (by simp [host])).1, i, by simp [bound], rfl⟩
  case fresh => exact fun k registers => kept.fresh k (by simpa [host] using registers)
  case queue => exact ⟨[], rfl⟩
  case flushed => simp
  case gone => simp [Ending]
  case leaving => simp
  case firing =>
    intro f inside
    obtain ⟨k, nonzero, asks, holds⟩ := kept.firing f inside
    refine ⟨k, nonzero, asks, fun going => ⟨?_, by simp [Ending]⟩⟩
    rw [List.getElem?_set_ne (apart nonzero (holds going).1)]
    exact (holds going).1

/-- Freeing the slot of a key whose unregistration has begun. -/
theorem SlotsHold.frees (kept : s.SlotsHold env n) (next : s.inFlight = .unregister key :: rest) :
    ({ s with inFlight := rest, callbackKeys := releaseSlot key s.callbackKeys } :
      Tables W D π).SlotsHold env n := by
  have told : s.Ending key := .inr (by simp [next])
  obtain ⟨nonNull, dead⟩ := kept.gone key told
  have released (j : Nat) := getElem?_releaseSlot (i := j) (kept.distinct · · key nonNull)
  have still : ∀ {j : Nat} {k}, k ≠ key → s.callbackKeys[j]? = some k →
      (releaseSlot key s.callbackKeys)[j]? = some k := by
    intro j k other here
    rw [released, here, if_neg fun same => other (Option.some.inj same)]
  have before : ∀ {j : Nat} {k}, k ≠ 0 → (releaseSlot key s.callbackKeys)[j]? = some k →
      k ≠ key ∧ s.callbackKeys[j]? = some k := by
    intro j k nonzero here
    rw [released] at here
    split at here
    next => exact absurd (Option.some.inj here).symm nonzero
    next other => exact ⟨fun same => other (same ▸ here), here⟩
  have ending : ∀ {k}, s.host.ending = some k ∨ .unregister k ∈ rest → s.Ending k := by
    rintro k (host | later)
    · exact .inl host
    · exact .inr (by simp [next, later])
  constructor
  case size => exact length_releaseSlot.trans kept.size
  case distinct =>
    exact fun i j k nonzero first second =>
      kept.distinct i j k nonzero (before nonzero first).2 (before nonzero second).2
  case owned =>
    intro j k nonzero here
    obtain ⟨other, here⟩ := before nonzero here
    simpa [Holds, Ending, next, other] using kept.owned j k nonzero here
  case placed =>
    intro k procPtr holds
    obtain ⟨nonzero, j, here, same⟩ := kept.placed k procPtr holds
    refine ⟨nonzero, j, still ?_ here, same⟩
    rintro rfl
    rcases holds with live | claimed
    · simp [dead] at live
    · simp [kept.flushed _ claimed] at next
  case fresh => exact kept.fresh
  case queue =>
    obtain ⟨ended, order⟩ := kept.queue
    rw [next] at order
    cases ended with
    | nil => cases host : s.host <;> simp [host] at order
    | cons first others => exact ⟨others, (List.cons.inj order).2⟩
  case flushed =>
    intro claim claimed
    simp [kept.flushed claim claimed] at next
  case gone => exact fun k told => kept.gone k (ending told)
  case leaving => exact kept.leaving
  case firing =>
    intro f inside
    obtain ⟨k, nonzero, asks, holds⟩ := kept.firing f inside
    refine ⟨k, nonzero, asks, fun going => ?_⟩
    obtain ⟨here, stays⟩ := holds going
    exact ⟨still (fun same => stays (same ▸ told)) here, fun later => stays (ending later)⟩

/-- An entry of the trampoline table is its slot's trampoline, or not filled yet. -/
def TableHolds (env : ServerEnv t) (s : Tables W D π) : Prop :=
  ∀ i, s.entry i ≠ 0 → s.entry i = env.trampoline i

theorem start_tableHolds : (start n policyState w : Tables W D π).TableHolds env := by
  intro i filled
  simp only [entry, start, List.getElem?_replicate] at filled
  split at filled <;> exact absurd rfl filled

theorem step_tableHolds (kept : s.TableHolds env) (done : Step env s a s') : s'.TableHolds env := by
  cases does_of_step done with
  | @initialises slot =>
    intro i
    by_cases same : slot = i
    · subst same
      by_cases inside : slot < s.trampolineTable.length
      · simp [entry, inside]
      · simp [entry, Nat.le_of_not_lt inside]
    · simpa [entry, List.getElem?_set_ne same] using kept i
  | _ => exact kept

/-- A step that meets the condition takes a slot only for its trampoline. -/
theorem step_slotsHold (tramps : Trampolines env n) (table : s.TableHolds env)
    (kept : s.SlotsHold env n) (done : Guarded Ready (Step env) s a s') : s'.SlotsHold env n := by
  cases does_of_step done.2 with
  | initialises => exact kept.frame rfl rfl rfl rfl kept.firing
  | registers idle nonNull fresh => exact kept.registers idle nonNull fresh
  | unregisters idle nonNull => exact kept.unregisters idle nonNull
  | refused answered => refine kept.hostMoves ?_ ?_ ?_ ?_ ?_ <;> simp [answered]
  | inWasm answered nonNull =>
    refine kept.hostMoves ?_ ?_ ?_ ?_ ?_
    · rw [answered]
      exact (if_neg nonNull).symm
    all_goals simp [answered]
  | publishes ready => exact kept.publishes ready
  | @erases key unregistering =>
    have moved : ({ s with host := .erased key, wasm := s.wasm } : Tables W D π).SlotsHold env n := by
      refine kept.hostMoves ?_ ?_ ?_ ?_ ?_ <;> simp [unregistering]
    exact moved.frame rfl rfl rfl rfl moved.firing
  | sends erased => exact kept.sends erased
  | outOfWasm sent => refine kept.hostMoves ?_ ?_ ?_ ?_ ?_ <;> simp [sent]
  | full next taken => exact kept.full next
  | claims next claimed filled =>
    rw [table _ filled]
    exact kept.claims tramps next claimed
  | claimsEarly next claimed empty => exact absurd empty (done.1 _ _ _ _ next claimed)
  | frees next => exact kept.frees next
  | @fires key slot params nonNull loads =>
    refine kept.frame rfl rfl rfl rfl fun f inside => ?_
    rcases List.mem_append.mp inside with earlier | new
    · exact kept.firing f earlier
    · obtain rfl := List.mem_singleton.mp new
      exact ⟨key, nonNull, rfl, fun going => ⟨loads, by simpa using going⟩⟩
  | dispatches =>
    exact kept.frame rfl rfl rfl rfl fun f inside => kept.firing f (List.mem_of_mem_eraseIdx inside)

end Tables
end RlboxDynamic.CallbackTables
