import RlboxDynamic.KeyMap
import RlboxDynamic.WireSlots

/-! The two ends of a callback: the trampoline that asks for it and the host's
dispatcher table. How many slots the host reads is fixed by the registered
signature; how many there are, by the message. -/
namespace RlboxDynamic

/-- `CallbackRequest` of the wire schema, as the child sent it. -/
structure CallbackRequest where
  key : BitVec 64
  args : List (BitVec 64)
  deriving DecidableEq

/-- `trampoline_impl`, up to the request it sends. It returns 0 without one
where the keys or the callback channel are missing and where its slot is free. -/
def trampolineImpl {t : Target} (callbackKeys : Option (List (TPointer t))) (connected : Bool)
    (slot : Nat) (params : List (BitVec 64)) : Option CallbackRequest :=
  match callbackKeys with
  | none => none
  | some keys =>
    if connected = false then none
    else
      match keys[slot]? with
      | none => none
      | some key => if key = 0 then none else some ⟨key.setWidth 64, params⟩

/-- A trampoline that asks for a callback has loaded its slot's key. -/
theorem request_of_trampolineImpl {t : Target} {keys : List (TPointer t)}
    (asks : trampolineImpl (some keys) true slot params = some request) :
    ∃ key, key ≠ 0 ∧ keys[slot]? = some key ∧ request = ⟨key.setWidth 64, params⟩ := by
  simp only [trampolineImpl, Bool.true_eq_false, ↓reduceIte] at asks
  split at asks
  next => cases asks
  next key loads =>
    split at asks
    next => cases asks
    next nonNull => cases asks; exact ⟨key, nonNull, loads, rfl⟩

/-- A read of `args[index]` in a vector of `size` elements, `size ≤ index`. -/
structure PastEnd where
  index : Nat
  size : Nat
  deriving DecidableEq, Repr

/-- A host function with the `T_Args` it was registered with. It returns none
where `T_Ret` is `void`. -/
structure HostCallback (t : Target) where
  params : List CType
  run : List (CValue t) → Option (CValue t)

/-- `callback_map`: dispatchers by host-side key. -/
abbrev CallbackMap (t : Target) := KeyMap (TPointer t) (HostCallback t)

/-- `args[I]`. The vector checks nothing. -/
def readArg (args : List (BitVec 64)) (index : Nat) : Except PastEnd (BitVec 64) :=
  match args[index]? with
  | some raw => .ok raw
  | none => .error ⟨index, args.length⟩

section
variable {t : Target}

/-- `unpack_slot<T_Args>(args[I])...`, from an index on. -/
def unpackArgs (args : List (BitVec 64)) : Nat → List CType → Except PastEnd (List (CValue t))
  | _, [] => .ok []
  | index, type :: types =>
    match readArg args index with
    | .error past => .error past
    | .ok raw => (unpackArgs args (index + 1) types).map (unpackSlot type raw :: ·)

/-- `invoke_callback_unpacked`. -/
def invokeCallbackUnpacked (callback : HostCallback t) (args : List (BitVec 64)) :
    Except PastEnd (BitVec 64) :=
  (unpackArgs args 0 callback.params).map fun values =>
    match callback.run values with
    | none => 0
    | some value => packSlot value

/-- What `start_callback_loop` does with one request, up to its response. -/
def dispatchCallback (table : CallbackMap t) (request : CallbackRequest) :
    Except PastEnd (BitVec 64) :=
  match table.lookup (request.key.setWidth t.ptrBits) with
  | none => .ok 0
  | some dispatcher => invokeCallbackUnpacked dispatcher request.args

variable {args : List (BitVec 64)} {index : Nat} {types : List CType}

/-- With enough slots, each parameter is cast from its own. -/
theorem unpackArgs_eq (enough : index + types.length ≤ args.length) :
    (unpackArgs args index types : Except PastEnd (List (CValue t))) =
      .ok (List.zipWith unpackSlot types (args.drop index)) := by
  induction types generalizing index with
  | nil => simp [unpackArgs]
  | cons type types ih =>
    simp only [List.length_cons] at enough
    have inside : index < args.length := by omega
    rw [unpackArgs, readArg, List.getElem?_eq_getElem inside, ih (by omega),
      List.drop_eq_getElem_cons inside]
    rfl

/-- With too few, the first read past the end is at the vector's size. -/
theorem unpackArgs_past (here : index ≤ args.length)
    (short : args.length < index + types.length) :
    (unpackArgs args index types : Except PastEnd (List (CValue t))) =
      .error ⟨args.length, args.length⟩ := by
  induction types generalizing index with
  | nil => simp only [List.length_nil] at short; omega
  | cons type types ih =>
    simp only [List.length_cons] at short
    by_cases inside : index < args.length
    · rw [unpackArgs, readArg, List.getElem?_eq_getElem inside, ih (by omega) (by omega)]
      rfl
    · obtain rfl : index = args.length := by omega
      rw [unpackArgs, readArg, List.getElem?_eq_none (Nat.le_refl _)]

/-- A dispatcher stays inside the received vector exactly where it has no more
parameters than the vector has slots. -/
theorem invokeCallbackUnpacked_ok_iff (callback : HostCallback t) :
    (∃ result, invokeCallbackUnpacked callback args = .ok result) ↔
      callback.params.length ≤ args.length := by
  unfold invokeCallbackUnpacked
  by_cases enough : callback.params.length ≤ args.length
  · rw [unpackArgs_eq (by omega)]
    exact ⟨fun _ => enough, fun _ => ⟨_, rfl⟩⟩
  · rw [unpackArgs_past (Nat.zero_le _) (by omega)]
    refine iff_of_false ?_ enough
    rintro ⟨result, same⟩
    cases same

/-- A request is dispatched without a read past the end of its list exactly
where its key is not registered, or with at most as many parameters as the list
has elements. -/
theorem dispatch_in_bounds_iff (table : CallbackMap t) (request : CallbackRequest) :
    (∀ past, dispatchCallback table request ≠ .error past) ↔
      ∀ dispatcher, table.lookup (request.key.setWidth t.ptrBits) = some dispatcher →
        dispatcher.params.length ≤ request.args.length := by
  unfold dispatchCallback
  cases found : table.lookup (request.key.setWidth t.ptrBits) with
  | none => simp
  | some dispatcher =>
    simp only [Option.some.injEq, forall_eq', ← invokeCallbackUnpacked_ok_iff]
    cases invokeCallbackUnpacked dispatcher request.args <;> simp

end

/-- Five `int` parameters, under key 0x1000. -/
def fiveInts : CallbackMap .i386 :=
  AList.insert 0x1000 ⟨List.replicate 5 .int, fun _ => none⟩ ∅

/-- The list of four that the trampolines send is one short. -/
theorem fifth_parameter_past_end :
    dispatchCallback fiveInts ⟨0x1000, [1, 2, 3, 4]⟩ = .error ⟨4, 4⟩ := rfl

end RlboxDynamic
