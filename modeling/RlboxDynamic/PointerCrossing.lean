import RlboxDynamic.AllocationRouting
import RlboxDynamic.Dispatch

/-! No invoke enters a backend with a pointer into an allocation that is live
in the other one, where `owner_of` knows the pointer. It knows the base of every
allocation and every pointer an invoke handed out, base or interior. An interior
pointer that it never saw goes wherever the policy or the other arguments say. -/
namespace RlboxDynamic
open Transition

variable {t : Target} {D π : Type} [Millis D] {policy : MetaPolicyFn t D π} {start : π} {total : Nat}
  {w : MetaWorld t D π} {ops : List (MetaOp t D)}

/-- The backend calls of an invoke all go to the backend it was dispatched to. -/
theorem Entered.side {symbol : String} {ret : Option CType} {args : List (Arg t)} {b : MetaBackend}
    {calls : List (BackendCall t)} {w' : MetaWorld t D π}
    (entered : Entered policy symbol ret args w b calls w') {c : BackendCall t} (inside : c ∈ calls)
    {side : MetaBackend} (goes : c.side = some side) : side = b := by
  cases entered with
  | process =>
    cases List.mem_singleton.mp inside
    cases goes
    rfl
  | wasm found chosen translated =>
    rcases List.mem_append.mp inside with copy | invoke
    · obtain ⟨translator, val, offset, rfl⟩ := MetaSandbox.translateAll_calls translated c copy
      cases goes
    · cases List.mem_singleton.mp invoke
      cases goes
      rfl

/-- The pointer value addresses a byte of the block: a wasm offset in either
spelling, a process address as it is. -/
def LiveAlloc.Covers (a : LiveAlloc t) (p : TPointer t) : Prop :=
  match a.owner with
  | .wasm => a.base.toNat ≤ (tagStrip p).toNat ∧ (tagStrip p).toNat < a.base.toNat + max a.size.toNat 1
  | .process => a.base.toNat ≤ p.toNat ∧ p.toNat < a.base.toNat + max a.size.toNat 1

instance (a : LiveAlloc t) (p : TPointer t) : Decidable (a.Covers p) := by
  unfold LiveAlloc.Covers
  cases a.owner <;> infer_instance

/-- Every byte the backends answer with lies on their own side of wasm's total
memory, a process byte also when its tag bit is off. -/
def BytesApart (total : Nat) : MetaOp t D → Prop
  | .malloc size answers =>
    (answers.wasm ≠ 0#32 → answers.wasm.toNat + max size.toNat 1 ≤ total) ∧
      (answers.process ≠ 0#t.ptrBits → ∀ p : TPointer t, answers.process.toNat ≤ p.toNat →
        p.toNat < answers.process.toNat + max size.toNat 1 → total ≤ (tagStrip p).toNat)
  | .leave _ answer _ =>
    (answer.wasm ≠ 0#32 → answer.wasm.toNat < total) ∧
      (answer.process ≠ 0#t.ptrBits → total ≤ (tagStrip answer.process).toNat)
  | _ => True

/-- The side of wasm's total memory that a backend's addresses lie on. -/
def MetaBackend.Side (b : MetaBackend) (total : Nat) (p : TPointer t) : Prop :=
  match b with
  | .wasm => (tagStrip p).toNat < total
  | .process => total ≤ (tagStrip p).toNat

theorem MetaBackend.Side.unique {b c : MetaBackend} {p : TPointer t} (left : b.Side total p)
    (right : c.Side total p) : b = c := by
  cases b <;> cases c <;> simp only [MetaBackend.Side] at left right <;> first | rfl | omega

/-- Registered pointers and the bytes of live blocks lie on their owner's side. -/
structure Ledger.Sided (total : Nat) (l : Ledger t) : Prop where
  keys : ∀ {k b}, l.owners.lookup k = some b → b.Side total k
  bytes : ∀ {k a}, l.live.lookup k = some a → ∀ p, a.Covers p → a.owner.Side total p

namespace Ledger
variable {l : Ledger t} {a : LiveAlloc t} {p key : TPointer t} {owner : MetaBackend}

theorem Sided.allocate (sided : l.Sided total) (keySide : a.owner.Side total a.key)
    (byteSide : ∀ p, a.Covers p → a.owner.Side total p) : (l.allocate a).Sided total where
  keys := by
    intro k b found
    rw [lookup_owners_allocate] at found
    split at found
    next same =>
      cases found
      rw [same]
      exact keySide
    next => exact sided.keys found
  bytes := by
    intro k b held
    rcases lookup_allocate held with ⟨-, rfl⟩ | ⟨-, held⟩
    · exact byteSide
    · exact sided.bytes held

theorem Sided.handOut (sided : l.Sided total) (wasm : owner = .wasm → owner.Side total p)
    (process : owner = .process → owner.Side total p) : (l.handOut p owner).Sided total where
  keys := by
    intro k b found
    rw [lookup_owners_handOut] at found
    split at found
    next same =>
      subst same
      cases before : l.owners.lookup k with
      | none =>
        rw [before] at found
        cases found
        cases owner with
        | process => exact process rfl
        | wasm => exact wasm rfl
      | some u =>
        rw [before] at found
        cases found
        exact sided.keys before
    next => exact sided.keys found
  bytes := sided.bytes

theorem Sided.free (sided : l.Sided total) : (l.free p key owner).Sided total where
  keys := by
    intro k b found
    rw [lookup_owners_free] at found
    split at found
    next => cases found
    next => exact sided.keys found
  bytes := by
    intro k a held
    rw [lookup_live_free] at held
    split at held
    next => cases held
    next => exact sided.bytes held

end Ledger

omit [Millis D] in
/-- What the address layout says of a new allocation. -/
theorem BytesApart.allocation {size : SizeT t} {answers : MallocAnswers t} {a : LiveAlloc t}
    (own : BytesApart total (.malloc size answers : MetaOp t D)) (checked : a.Checked)
    (sized : a.size = size)
    (answered : a.base = match a.owner with
      | .wasm => widen t answers.wasm
      | .process => answers.process) :
    a.owner.Side total a.key ∧ ∀ p, a.Covers p → a.owner.Side total p := by
  obtain ⟨wasm, process⟩ := own
  have nonNull := checked.nonNull
  unfold LiveAlloc.key LiveAlloc.Covers MetaBackend.Side
  cases side : a.owner with
  | wasm =>
    rw [side] at answered
    rw [answered] at nonNull
    have inside := wasm fun null => nonNull (widen_eq_zero.mpr null)
    have base : a.base.toNat = answers.wasm.toNat := by rw [answered, widen_toNat]
    rw [← sized] at inside
    refine ⟨?_, fun p covers => ?_⟩
    · have low : (tagStrip a.base).toNat ≤ a.base.toNat := tagStrip_le
      rw [tagStrip_tagWasm]
      omega
    · have above := covers.2
      show (tagStrip p).toNat < total
      omega
  | process =>
    rw [side] at answered
    replace answered : a.base = answers.process := answered
    rw [answered] at nonNull
    have above := process nonNull
    rw [← answered, ← sized] at above
    exact ⟨above a.base (Nat.le_refl _) (by omega), fun p covers => above p covers.1 covers.2⟩

omit [Millis D] in
/-- What it says of a pointer an invoke hands out. -/
theorem BytesApart.returned {index : Nat} {answer : InvokeAnswer t} {elapsed : D}
    (own : BytesApart total (.leave index answer elapsed)) :
    (answer.wasm ≠ 0#32 → MetaBackend.wasm.Side total (tagWasm (widen t answer.wasm))) ∧
      (answer.process ≠ 0#t.ptrBits → MetaBackend.process.Side total answer.process) := by
  refine ⟨fun nonzero => ?_, own.2⟩
  have inMemory := own.1 nonzero
  have low : (tagStrip (widen t answer.wasm)).toNat ≤ (widen t answer.wasm).toNat := tagStrip_le
  rw [widen_toNat] at low
  show (tagStrip (tagWasm (widen t answer.wasm))).toNat < total
  rw [tagStrip_tagWasm]
  omega

omit [Millis D] in
theorem sided_initial : (MetaWorld.initial start : MetaWorld t D π).ledger.Sided total where
  keys found := by cases found
  bytes held := by cases held

theorem step_sided {w' : MetaWorld t D π} {op : MetaOp t D} {calls : List (BackendCall t)}
    {returned : Option (TPointer t)} (sided : w.ledger.Sided total)
    (ran : w.exec policy op = some ⟨calls, returned, w'⟩) (apart : BytesApart total op) :
    w'.ledger.Sided total := by
  have taken := step_ledger ran
  generalize w'.ledger = next at taken
  cases taken with
  | quiet => exact sided
  | allocate a checked answered =>
    obtain ⟨keySide, byteSide⟩ := apart.allocation checked rfl answered
    exact sided.allocate keySide byteSide
  | free => exact sided.free
  | handOut nonNull still wasmTagged answered wasmAnswered =>
    refine sided.handOut (fun side => ?_) fun side => ?_
    · obtain ⟨nonzero, same⟩ := wasmAnswered side
      rw [side, same]
      exact apart.returned.1 nonzero
    · have address := answered side
      rw [side, address]
      exact apart.returned.2 fun null => nonNull (address.trans null)

theorem run_sided (run : Run (MetaWorld.Step policy) (.initial start) ops w)
    (apart : ∀ op ∈ ops, BytesApart total op) : w.ledger.Sided total :=
  (run.guard_labels apart).invariant sided_initial fun _ _ _ sided ⟨own, _, _, ran⟩ =>
    step_sided sided ran own

/-- The argument points into a live allocation, at its base or at a byte whose
address `owner_of` knows. -/
def MetaWorld.KnownInto (w : MetaWorld t D π) (arg : Arg t) (k : TPointer t) (a : LiveAlloc t) : Prop :=
  w.Denotes arg k a ∨
    w.live.lookup k = some a ∧ ∃ p, arg.asTPointer = some p ∧ p ≠ 0#t.ptrBits ∧ a.Covers p ∧
      w.sandbox.ownerOf p ≠ none

omit [Millis D] in
/-- What `owner_of` answers for a pointer into a live block is the block's owner. -/
theorem Ledger.Sided.finds_known (sided : w.ledger.Sided total) {arg : Arg t} {k : TPointer t}
    {a : LiveAlloc t} (held : w.live.lookup k = some a) {p : TPointer t}
    (pointer : arg.asTPointer = some p) (nonNull : p ≠ 0#t.ptrBits) (covers : a.Covers p)
    (known : w.sandbox.ownerOf p ≠ none) : w.sandbox.Finds arg a.owner := by
  obtain ⟨owner, found⟩ := Option.ne_none_iff_exists'.mp known
  have byte : a.owner.Side total p := sided.bytes held p covers
  have side : owner.Side total p := by
    unfold MetaSandbox.ownerOf at found
    split at found
    · rename_i own
      cases found
      exact sided.keys own
    · split at found
      · cases found
      · have tagged : owner.Side total (tagWasm p) := sided.keys found
        unfold MetaBackend.Side at tagged ⊢
        rwa [tagStrip_tagWasm] at tagged
  rw [byte.unique side]
  exact ⟨p, pointer, nonNull, found⟩

/-- No invoke of the state crosses with an argument that `Into` places in a
live allocation: where it enters, the allocation belongs, and arguments in both
backends end the process before either is entered. -/
def MetaWorld.Uncrossed (policy : MetaPolicyFn t D π) (w : MetaWorld t D π)
    (Into : Arg t → TPointer t → LiveAlloc t → Prop) : Prop :=
  (∀ symbol ret args calls returned w',
    w.exec policy (.enter symbol ret args) = some ⟨calls, returned, w'⟩ →
    ∀ c ∈ calls, ∀ b, c.side = some b →
    ∀ arg ∈ args, ∀ k a, Into arg k a → a.owner = b) ∧
  (∀ symbol record ret args, w.sandbox.symbolCache.lookup symbol = some record →
    ∀ arg ∈ args, ∀ k a, Into arg k a → a.owner = .process →
    ∀ other ∈ args, ∀ j b, Into other j b → b.owner = .wasm →
    w.sandbox.enterInvoke policy record ret args = ⟨[], .error .mixedOwnership⟩)

/-- It is enough that `owner_of` answers with the allocation's owner. -/
theorem MetaWorld.uncrossed_of_finds {Into : Arg t → TPointer t → LiveAlloc t → Prop}
    (finds : ∀ arg k a, Into arg k a → w.sandbox.Finds arg a.owner) : w.Uncrossed policy Into := by
  constructor
  · intro symbol ret args calls returned w' ran c inside b goes arg argument k a into
    obtain ⟨-, entered, dispatched⟩ := execEnter_ok ran
    have side := dispatched.side inside goes
    have found := finds arg k a into
    subst side
    cases dispatched with
    | process _ chosen => exact MetaSandbox.dispatch_owner chosen argument found
    | wasm _ chosen => exact MetaSandbox.dispatch_owner chosen argument found
  · intro symbol record ret args known arg argument k a into process other argumentToo j b intoToo wasm
    have left := finds arg k a into
    have right := finds other j b intoToo
    rw [process] at left
    rw [wasm] at right
    have mixed : (w.sandbox.dispatch policy record args).1 = .error .mixedOwnership :=
      MetaSandbox.dispatch_mixed argument argumentToo left right
    unfold MetaSandbox.enterInvoke
    split
    · rename_i aborted
      rw [aborted] at mixed
      cases mixed
      rfl
    · rename_i entered
      rw [entered] at mixed
      cases mixed
    · rename_i entered
      rw [entered] at mixed
      cases mixed

/-- No invoke crosses with the base of a live allocation; nor, where every byte
lies on its own side of wasm's total memory, with any pointer into one that
`owner_of` knows. -/
theorem known_pointer_never_crosses (run : Run (PlacedStep total policy) (.initial start) ops w) :
    w.Uncrossed policy w.Denotes ∧
      ((∀ op ∈ ops, BytesApart total op) → w.Uncrossed policy w.KnownInto) := by
  obtain ⟨owned, placed⟩ := run_placed run
  refine ⟨MetaWorld.uncrossed_of_finds fun arg k a denotes => owned.finds_live placed denotes,
    fun apart => MetaWorld.uncrossed_of_finds fun arg k a into => ?_⟩
  have sided := run_sided (run.mono fun _ _ _ step => step.2) apart
  rcases into with base | ⟨held, p, pointer, nonNull, covers, known⟩
  · exact owned.finds_live placed base
  · exact sided.finds_known held pointer nonNull covers known

/-- Allocations on process, and invokes on wasm unless an argument's owner says
otherwise. -/
def splitPolicy : MetaPolicyFn t D Unit := fun _ ctx => (if ctx.funcName = none then .process else .wasm, ())

/-- A symbol both backends have, and a 64-byte block on process. -/
def splitOps : List (MetaOp .x86_64 Int) :=
  [.lookupSymbol 0x401000#64 1#64 "sum", .malloc 64#64 ⟨0#32, 0x40001000#64, 0#32⟩]

/-- The block of `splitOps` and a pointer into it that an invoke on process
handed out. -/
def handedOps : List (MetaOp .x86_64 Int) :=
  splitOps ++ [.enter "sum" (some .pointer) [Arg.pointer 0x40001000#64],
    .leave 0 ⟨0#32, 0x40001008#64, 0#64⟩ 1]

theorem known_pointer_never_crosses_handed : ∃ (w w' : MetaWorld .x86_64 Int Unit)
    (calls : List (BackendCall .x86_64)),
    Run (PlacedStep 0x10000 splitPolicy) (.initial ()) handedOps w ∧
    w.exec splitPolicy (.enter "sum" none [Arg.pointer 0x40001008#64]) = some ⟨calls, none, w'⟩ ∧
    calls = [.processInvoke "sum" [0x40001008#64]] ∧
    ∀ c ∈ calls, ∀ b, c.side = some b → MetaBackend.process = b := by
  have run : Run (PlacedStep 0x10000 splitPolicy) (.initial ()) handedOps _ :=
    .cons ⟨trivial, _, _, rfl⟩ (.cons ⟨by decide, _, _, rfl⟩
      (.cons ⟨trivial, _, _, rfl⟩ (.cons ⟨by decide, _, _, rfl⟩ .nil)))
  have apart : ∀ op ∈ handedOps, BytesApart 0x10000 op := by
    intro op inside
    simp only [handedOps, splitOps, List.cons_append, List.nil_append, List.mem_cons,
      List.not_mem_nil, or_false] at inside
    rcases inside with rfl | rfl | rfl | rfl
    · trivial
    · refine ⟨by decide, fun _ p low high => ?_⟩
      replace low : 0x40001000 ≤ p.toNat := low
      replace high : p.toNat < 0x40001000 + 64 := high
      have clear : ¬ Tagged p := not_tagged_of_lt (by simp only [Target.ptrBits]; omega)
      rw [tagStrip_eq_self.mpr clear]
      omega
    · trivial
    · exact ⟨by decide, by decide⟩
  obtain ⟨-, stays⟩ := known_pointer_never_crosses run
  refine ⟨_, _, _, run, rfl, rfl, fun c inside b goes => ?_⟩
  exact (stays apart).1 "sum" none [Arg.pointer 0x40001008#64] _ _ _ rfl c inside b goes _
    List.mem_cons_self 0x40001000#64 ⟨.process, 0x40001000#64, 64#64, none, 0#32⟩
    (.inr ⟨by decide, 0x40001008#64, rfl, by decide, by decide, by decide⟩)

/-- A pointer to a byte of a live allocation enters the other backend, although
every step kept the allocators' contract, the address layout and the client's
discipline. -/
def Crosses (policy : MetaPolicyFn t Int Unit) (ops : List (MetaOp t Int)) (p : TPointer t)
    (call : BackendCall t) : Prop :=
  ∃ (w w' : MetaWorld t Int Unit) (k : TPointer t) (a : LiveAlloc t) (b : MetaBackend),
    Run (RoutedStep 0x10000 policy) (.initial ()) ops w ∧ w.live.lookup k = some a ∧ a.Covers p ∧
      w.exec policy (.enter "sum" none [Arg.pointer p]) = some ⟨[call], none, w'⟩ ∧
      call.side = some b ∧ a.owner ≠ b

/-- An interior pointer of a live process block, which `owner_of` does not know. -/
theorem interior_pointer_crosses :
    Crosses splitPolicy splitOps 0x40001008#64 (.wasmInvoke "sum" [0x40001008#64]) :=
  ⟨_, _, 0x40001000#64, ⟨.process, 0x40001000#64, 64#64, none, 0#32⟩, .wasm,
    .cons ⟨_, _, rfl, by decide, trivial, trivial⟩
      (.cons ⟨_, _, rfl, by decide, by decide, trivial⟩ .nil),
    by decide, by decide, rfl, rfl, by decide⟩

/-- Allocations on the one backend and invokes on the other. -/
def acrossPolicy (home : MetaBackend) : MetaPolicyFn t Int Unit := fun _ ctx =>
  (if (ctx.funcName = none ↔ home = .process) then .process else .wasm, ())

/-- A block on one backend, and an invoke on the other that hands out a pointer. -/
def acrossOps (answers : MallocAnswers t) (answer : InvokeAnswer t) : List (MetaOp t Int) :=
  [.lookupSymbol 1#t.ptrBits 1#t.ptrBits "sum", .malloc 16#t.ptrBits answers,
    .enter "sum" (some .pointer) [], .leave 0 answer 1]

/-- An address that process handed out with the tag bit set, which reads as an
offset into a live wasm block; the untagged address is inside wasm's memory. -/
theorem tagged_address_crosses :
    Crosses (t := .i386) (acrossPolicy .wasm) (acrossOps ⟨0x40#32, 0#32, 0#32⟩ ⟨0#32, 0x80000048#32, 0#64⟩)
      0x80000048#32 (.processInvoke "sum" [0x80000048#64]) :=
  ⟨_, _, 0x80000040#32, ⟨.wasm, 0x40#32, 16#32, none, 0#32⟩, .process,
    .cons ⟨_, _, rfl, by decide, trivial, trivial⟩
      (.cons ⟨_, _, rfl, by decide, by decide, trivial⟩
        (.cons ⟨_, _, rfl, by decide, trivial, trivial⟩
          (.cons ⟨_, _, rfl, by decide, by decide, trivial⟩ .nil))),
    by decide, by decide, rfl, rfl, by decide⟩

/-- An offset beyond wasm's memory that wasm handed out, which untagged is an
address in a live process block. -/
theorem far_offset_crosses :
    Crosses (t := .x86_64) (acrossPolicy .process) (acrossOps ⟨0#32, 0x40001000#64, 0#32⟩ ⟨0x40001008#32, 0#64, 0#64⟩)
      0x40001008#64 (.wasmInvoke "sum" [0x40001008#64]) :=
  ⟨_, _, 0x40001000#64, ⟨.process, 0x40001000#64, 16#64, none, 0#32⟩, .wasm,
    .cons ⟨_, _, rfl, by decide, trivial, trivial⟩
      (.cons ⟨_, _, rfl, by decide, by decide, trivial⟩
        (.cons ⟨_, _, rfl, by decide, trivial, trivial⟩
          (.cons ⟨_, _, rfl, by decide, by decide, trivial⟩ .nil))),
    by decide, by decide, rfl, rfl, by decide⟩

/-- A pointer crosses when `owner_of` does not know it; and one it knows, when a
backend handed out an address of the other's range. -/
theorem live_pointer_crosses :
    Crosses splitPolicy splitOps 0x40001008#64 (.wasmInvoke "sum" [0x40001008#64]) ∧
    Crosses (t := .i386) (acrossPolicy .wasm) (acrossOps ⟨0x40#32, 0#32, 0#32⟩ ⟨0#32, 0x80000048#32, 0#64⟩)
      0x80000048#32 (.processInvoke "sum" [0x80000048#64]) ∧
    Crosses (t := .x86_64) (acrossPolicy .process) (acrossOps ⟨0#32, 0x40001000#64, 0#32⟩ ⟨0x40001008#32, 0#64, 0#64⟩)
      0x40001008#64 (.wasmInvoke "sum" [0x40001008#64]) :=
  ⟨interior_pointer_crosses, tagged_address_crosses, far_offset_crosses⟩

end RlboxDynamic
