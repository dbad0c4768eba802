import RlboxDynamic.Ownership

/-! How the ownership override decides an invoke: which owners the arguments
show, what the policy still decides, and when the process aborts instead. -/
namespace RlboxDynamic
open Transition

variable {t : Target} {D π : Type} [Millis D] {policy : MetaPolicyFn t D π}
  {s : MetaSandbox t D π} {record : MetaSymbolRecord t D} {args : List (Arg t)} {b : MetaBackend}

/-- `saw_process_ptr` or `saw_wasm_ptr`. -/
def SawPointers.of (saw : SawPointers) : MetaBackend → Bool
  | .process => saw.process
  | .wasm => saw.wasm

namespace MetaSandbox

/-- `inspect` finds an owner for the argument. -/
def Finds (s : MetaSandbox t D π) (a : Arg t) (b : MetaBackend) : Prop :=
  ∃ p, a.asTPointer = some p ∧ p ≠ 0#t.ptrBits ∧ s.ownerOf p = some b

omit [Millis D] in
theorem inspect_of {saw : SawPointers} {a : Arg t} :
    (s.inspect saw a).of b = true ↔ saw.of b = true ∨ s.Finds a b := by
  unfold inspect Finds
  cases kind : a.asTPointer with
  | none => simp
  | some p =>
    by_cases null : p = 0#t.ptrBits
    · simp [null]
    · cases found : s.ownerOf p with
      | none => simp [null, found]
      | some owner => cases owner <;> cases b <;> simp [null, found, SawPointers.of]

omit [Millis D] in
/-- The flags after all the arguments: an owner was seen exactly when some
argument has it. -/
theorem inspect_all {saw : SawPointers} : (args.foldl s.inspect saw).of b = true ↔
    saw.of b = true ∨ ∃ a ∈ args, s.Finds a b := by
  induction args generalizing saw with
  | nil => simp
  | cons a rest ih =>
    rw [List.foldl_cons, ih, inspect_of]
    simp [or_assoc]

omit [Millis D] in
theorem saw_iff : (args.foldl s.inspect {}).of b = true ↔ ∃ a ∈ args, s.Finds a b := by
  rw [inspect_all]
  cases b <;> simp [SawPointers.of]

theorem dispatch_fst : (s.dispatch policy record args).1 =
    match overrideChoice (args.foldl s.inspect {})
        (policy s.policyState (s.invokeContext record)).1 with
    | .error abort => .error abort
    | .ok .process => .ok .process
    | .ok .wasm => if record.wasmSym = 0#t.ptrBits then .error .noWasmBinding else .ok .wasm := by
  unfold dispatch
  dsimp only
  split
  · rename_i overridden
    rw [show overrideChoice (args.foldl s.inspect {}) _ = _ from overridden]
  · rename_i overridden
    rw [show overrideChoice (args.foldl s.inspect {}) _ = _ from overridden]
  · rename_i overridden
    rw [show overrideChoice (args.foldl s.inspect {}) _ = _ from overridden]
    dsimp only
    split <;> rfl

omit [Millis D] in
theorem overrideChoice_agreed {saw : SawPointers} (agree : ∀ owner, saw.of owner = true → owner = b) :
    overrideChoice saw b = .ok b := by
  have process : saw.process = true → MetaBackend.process = b := agree .process
  have wasm : saw.wasm = true → MetaBackend.wasm = b := agree .wasm
  unfold overrideChoice
  cases left : saw.process with
  | true =>
    have chosen := process left
    cases right : saw.wasm with
    | true =>
      rw [← wasm right] at chosen
      cases chosen
    | false => rw [← chosen]; rfl
  | false =>
    cases right : saw.wasm with
    | true => rw [← wasm right]; rfl
    | false => rfl

/-- Whoever owns an argument is where the invoke goes. -/
theorem dispatch_owner (chosen : (s.dispatch policy record args).1 = .ok b) {a : Arg t}
    (inside : a ∈ args) {owner : MetaBackend} (found : s.Finds a owner) : owner = b := by
  have saw := saw_iff.mpr ⟨a, inside, found⟩
  rw [dispatch_fst] at chosen
  unfold overrideChoice at chosen
  cases owner with
  | process =>
    cases other : (args.foldl s.inspect {}).wasm <;> simp_all [SawPointers.of]
  | wasm =>
    cases other : (args.foldl s.inspect {}).process with
    | true => simp_all [SawPointers.of]
    | false =>
      simp only [SawPointers.of] at saw
      simp only [other, saw, Bool.false_and, Bool.false_eq_true, ↓reduceIte] at chosen
      split at chosen <;> cases chosen
      rfl

/-- Owners on both sides end the process, whatever the policy said. -/
theorem dispatch_mixed {a c : Arg t} (inside : a ∈ args) (insideToo : c ∈ args)
    (process : s.Finds a .process) (wasm : s.Finds c .wasm) :
    (s.dispatch policy record args).1 = .error .mixedOwnership := by
  have sawProcess := saw_iff.mpr ⟨a, inside, process⟩
  have sawWasm := saw_iff.mpr ⟨c, insideToo, wasm⟩
  simp only [SawPointers.of] at sawProcess sawWasm
  rw [dispatch_fst, overrideChoice, sawProcess, sawWasm]
  rfl

/-- When every owner found is the policy's pick, the pick stands. -/
theorem dispatch_pick (pick : (policy s.policyState (s.invokeContext record)).1 = b)
    (bound : b = .wasm → record.wasmSym ≠ 0#t.ptrBits)
    (agree : ∀ a ∈ args, ∀ owner, s.Finds a owner → owner = b) :
    (s.dispatch policy record args).1 = .ok b := by
  have chosen : overrideChoice (args.foldl s.inspect {}) b = .ok b := by
    refine overrideChoice_agreed fun other saw => ?_
    obtain ⟨a, inside, found⟩ := saw_iff.mp saw
    exact agree a inside other found
  rw [dispatch_fst, pick, chosen]
  cases b with
  | process => rfl
  | wasm => exact if_neg (bound rfl)

end MetaSandbox

/-- The argument is the base of a live allocation, in either spelling. -/
def MetaWorld.Denotes (w : MetaWorld t D π) (a : Arg t) (k : TPointer t) (l : LiveAlloc t) : Prop :=
  w.live.lookup k = some l ∧ ∃ p, a.asTPointer = some p ∧ p ≠ 0#t.ptrBits ∧ Spells p k

omit [Millis D] in
/-- Such an argument shows its allocation's owner. -/
theorem Ledger.Owned.finds_live {total : Nat} {w : MetaWorld t D π} (owned : w.ledger.Owned)
    (placed : w.ledger.Placed total) {k : TPointer t} {l : LiveAlloc t} {a : Arg t}
    (denotes : w.Denotes a k l) : w.sandbox.Finds a l.owner := by
  obtain ⟨held, p, pointer, nonNull, spells⟩ := denotes
  have recorded : w.sandbox.allocOwner.lookup k = some l.owner := owned.owners held
  refine ⟨p, pointer, nonNull, ?_⟩
  unfold MetaSandbox.ownerOf
  rcases spells with rfl | rfl
  · rw [recorded]
  · by_cases tagged : Tagged k
    · have missing : w.sandbox.allocOwner.lookup (tagStrip k) = none :=
        owned.lookup_untagged placed held tagged
      rw [missing, tagWasm_strip_of_tagged tagged]
      simp only [not_tagged_tagStrip, ↓reduceIte, recorded]
    · rw [tagStrip_eq_self.mpr tagged, recorded]

end RlboxDynamic
