import RlboxDynamic.Ownership

/-! The tag bit and the ownership registry. Allocations are checked for the tag
before they are handed out; a pointer an invoke on process returns is not. So
the two agree exactly along the runs in which the process backend answers with
addresses the tag and wasm's memory leave alone. -/
namespace RlboxDynamic
open Transition

variable {t : Target} {D π : Type} [Millis D] {policy : MetaPolicyFn t D π} {start : π} {total : Nat}
  {w w' : MetaWorld t D π} {op : MetaOp t D} {ops : List (MetaOp t D)}

/-- The resolver takes the pointer to the backend that produced it, and the tag
says the same. -/
def ResolvesTo (total : Nat) (p : TPointer t) (owner : MetaBackend) : Prop :=
  tagOwner p = owner ∧ (implGetUnsandboxedPointer total p).backend = some owner

/-- Tag and ownership agree: on every key of the registry, and on every pointer
handed to RLBox. -/
structure TagsAgree (total : Nat) (w : MetaWorld t D π) : Prop where
  registry : ∀ k o, w.sandbox.allocOwner.lookup k = some o → tagOwner k = o
  handed : ∀ p o, (p, o) ∈ w.handed → ResolvesTo total p o

/-- A process address is free of the tag and of wasm's memory. -/
def Clear (total : Nat) (p : TPointer t) : Prop := ¬ Tagged p ∧ total ≤ p.toNat

/-- An operation that hands out a process pointer hands out a clear one. -/
def ProcessClear (policy : MetaPolicyFn t D π) (total : Nat) (w : MetaWorld t D π) :
    MetaOp t D → Prop
  | .malloc size answers => (w.sandbox.mallocChoice policy size).1 = .process →
      answers.process ≠ 0#t.ptrBits → Clear total answers.process
  | .leave index answer _ => ∀ frame, w.frames[index]? = some frame → frame.which = .process →
      frame.ret = some .pointer → answer.process ≠ 0#t.ptrBits → Clear total answer.process
  | _ => True

theorem resolvesTo_wasm {p : TPointer t} (tagged : Tagged p) : ResolvesTo total p .wasm :=
  ⟨if_pos tagged, tagged_resolves_in_wasm total tagged⟩

theorem resolvesTo_process {p : TPointer t} (nonNull : p ≠ 0#t.ptrBits) :
    ResolvesTo total p .process ↔ Clear total p := by
  unfold ResolvesTo Clear
  rw [tagOwner_eq_process, resolves_in_process_iff total nonNull]
  exact and_iff_right_of_imp And.left

theorem LiveAlloc.Checked.resolvesTo {a : LiveAlloc t} (checked : a.Checked) :
    ResolvesTo total a.key a.owner ↔ (a.owner = .process → Clear total a.base) := by
  unfold LiveAlloc.key
  cases side : a.owner with
  | wasm => simp [resolvesTo_wasm tagged_tagWasm]
  | process => simp [resolvesTo_process checked.nonNull]

/-- What a step hands out, and when its process pointers are clear: exactly
when the pointer handed out resolves to the backend that produced it. -/
inductive Hands (policy : MetaPolicyFn t D π) (w : MetaWorld t D π) (op : MetaOp t D)
    (w' : MetaWorld t D π) : Prop where
  | nothing (same : w'.handed = w.handed)
      (kept : ∀ k o, w'.sandbox.allocOwner.lookup k = some o → w.sandbox.allocOwner.lookup k = some o)
      (clear : ∀ total, ProcessClear policy total w op) : Hands policy w op w'
  | pointer (p : TPointer t) (o : MetaBackend) (added : w'.handed = w.handed ++ [(p, o)])
      (kept : ∀ k u, w'.sandbox.allocOwner.lookup k = some u →
        w.sandbox.allocOwner.lookup k = some u ∨ (k = p ∧ u = o))
      (clear : ∀ total, ProcessClear policy total w op ↔ ResolvesTo total p o) : Hands policy w op w'

/-- A step that leaves the ledger's registry and handed pointers alone. -/
private theorem hands_nothing (same : w'.ledger = w.ledger)
    (clear : ∀ total, ProcessClear policy total w op) : Hands policy w op w' := by
  have owners : w'.sandbox.allocOwner = w.sandbox.allocOwner := congrArg Ledger.owners same
  exact .nothing (congrArg Ledger.handed same) (fun k o found => by rwa [owners] at found) clear

theorem malloc_hands {size : SizeT t} {answers : MallocAnswers t} {calls : List (BackendCall t)}
    {returned : Option (TPointer t)}
    (ran : w.exec policy (.malloc size answers) = some ⟨calls, returned, w'⟩) :
    Hands policy w (.malloc size answers) w' := by
  obtain ⟨taken, routed⟩ := execMalloc_ok ran
  generalize after : w'.ledger = next at taken
  cases taken with
  | quiet => exact hands_nothing after fun total chosen granted => absurd (routed.refused rfl chosen) granted
  | allocate a checked answered =>
    have owners : w'.sandbox.allocOwner = w.sandbox.allocOwner.insert a.key a.owner :=
      congrArg Ledger.owners after
    have chosen : a.owner = (w.sandbox.mallocChoice policy a.size).1 := by
      have recorded := routed.owner a.key rfl
      rw [owners] at recorded
      exact Option.some.inj ((AList.lookup_insert _).symm.trans recorded)
    refine .pointer a.key a.owner (congrArg Ledger.handed after) (fun k u found => ?_) fun total => ?_
    · rw [owners, KeyMap.lookup_insert] at found
      split at found
      · rename_i same
        exact .inr ⟨same, (Option.some.inj found).symm⟩
      · exact .inl found
    · rw [checked.resolvesTo]
      show ((w.sandbox.mallocChoice policy a.size).1 = .process →
        answers.process ≠ 0#t.ptrBits → Clear total answers.process) ↔ _
      rw [← chosen]
      have nonNull := checked.nonNull
      cases side : a.owner with
      | wasm => simp
      | process =>
        rw [side] at answered
        simp only [answered] at nonNull ⊢
        simp [nonNull]

theorem leave_hands {index : Nat} {answer : InvokeAnswer t} {elapsed : D}
    {calls : List (BackendCall t)} {returned : Option (TPointer t)}
    (ran : w.exec policy (.leave index answer elapsed) = some ⟨calls, returned, w'⟩) :
    Hands policy w (.leave index answer elapsed) w' := by
  obtain ⟨frame, inFlight, -, -, after⟩ := execLeave_ok ran
  cases handed : frame.handsOut answer with
  | none =>
    rw [handed] at after
    refine hands_nothing after fun total other found process pointer granted => ?_
    rw [inFlight] at found
    cases found
    simp [InvokeFrame.handsOut, process, pointer, granted] at handed
  | some p =>
    rw [handed] at after
    obtain ⟨nonNull, wasmTagged, answered, -⟩ := frame.handsOut_some handed
    have owners : w'.sandbox.allocOwner = KeyMap.emplace p frame.which w.sandbox.allocOwner :=
      congrArg Ledger.owners after
    refine .pointer p frame.which (congrArg Ledger.handed after) (fun k u found => ?_) fun total => ?_
    · rw [owners, KeyMap.lookup_emplace] at found
      split at found
      · rename_i same
        subst same
        cases before : w.sandbox.allocOwner.lookup k with
        | none =>
          rw [before] at found
          exact .inr ⟨rfl, (Option.some.inj found).symm⟩
        | some v =>
          rw [before] at found
          exact .inl found
      · exact .inl found
    · have pointer : frame.ret = some .pointer := by
        unfold InvokeFrame.handsOut at handed
        split at handed
        · assumption
        · assumption
        · cases handed
      cases side : frame.which with
      | wasm =>
        refine iff_of_true (fun other found process => ?_) (resolvesTo_wasm (wasmTagged side))
        rw [inFlight] at found
        cases found
        rw [side] at process
        cases process
      | process =>
        rw [resolvesTo_process nonNull]
        have same := answered side
        rw [same] at nonNull ⊢
        constructor
        · exact fun clear => clear frame inFlight side pointer nonNull
        · exact fun clear _ _ _ _ _ => clear

theorem step_hands (step : w.Step policy op w') : Hands policy w op w' := by
  obtain ⟨calls, returned, ran⟩ := step
  have taken := step_ledger ran
  cases op with
  | malloc size answers => exact malloc_hands ran
  | leave index answer elapsed => exact leave_hands ran
  | free p =>
    generalize after : w'.ledger = next at taken
    cases taken with
    | quiet => exact hands_nothing after fun _ => trivial
    | free nonNull freed =>
      have owners : w'.sandbox.allocOwner = w.sandbox.allocOwner.erase _ := congrArg Ledger.owners after
      refine .nothing (congrArg Ledger.handed after) (fun k o found => ?_) fun _ => trivial
      rw [owners, KeyMap.lookup_erase] at found
      split at found
      · cases found
      · exact found
  | _ =>
    generalize after : w'.ledger = next at taken
    cases taken
    exact hands_nothing after fun _ => trivial

/-- One step keeps tag and ownership agreed exactly when its process pointers
are clear. -/
theorem step_agrees (agree : TagsAgree total w) (step : w.Step policy op w') :
    TagsAgree total w' ↔ ProcessClear policy total w op := by
  cases step_hands step with
  | nothing same kept clear =>
    refine iff_of_true ⟨fun k o found => agree.registry k o (kept k o found), ?_⟩ (clear total)
    rw [same]
    exact agree.handed
  | pointer p o added kept clear =>
    rw [clear total]
    constructor
    · intro after
      refine after.handed p o ?_
      rw [added]
      exact List.mem_append_right _ List.mem_cons_self
    · intro resolves
      refine ⟨fun k u found => ?_, fun q u inside => ?_⟩
      · rcases kept k u found with old | ⟨rfl, rfl⟩
        · exact agree.registry k u old
        · exact resolves.1
      · rw [added] at inside
        rcases List.mem_append.mp inside with old | new
        · exact agree.handed q u old
        · cases List.mem_singleton.mp new
          exact resolves

/-- A pointer once handed out stays on the record. -/
theorem run_handed (run : Run (MetaWorld.Step policy) w ops w') : w.handed ⊆ w'.handed := by
  induction run with
  | nil => exact List.Subset.refl _
  | cons first _ ih =>
    refine List.Subset.trans ?_ ih
    cases step_hands first with
    | nothing same => rw [same]; exact List.Subset.refl _
    | pointer p o added => rw [added]; exact List.subset_append_left _ _

/-- If every pointer on the record resolves at the end, every process pointer
was clear when it was handed out. -/
theorem run_clear (run : Run (MetaWorld.Step policy) w ops w')
    (resolve : ∀ p o, (p, o) ∈ w'.handed → ResolvesTo total p o) :
    Run (Guarded (ProcessClear policy total) (MetaWorld.Step policy)) w ops w' := by
  induction run with
  | nil => exact .nil
  | cons first rest ih =>
    refine .cons ⟨?_, first⟩ (ih resolve)
    cases step_hands first with
    | nothing same kept clear => exact clear total
    | pointer p o added kept clear =>
      refine (clear total).mpr (resolve p o (run_handed rest ?_))
      rw [added]
      exact List.mem_append_right _ List.mem_cons_self

/-- At the end of a run tag and ownership agree exactly when every process
pointer the run handed out was clear of the tag bit and of wasm's memory. As
the record of handed pointers only grows, they then agreed after each step. -/
theorem tags_agree_iff_clear (run : Run (MetaWorld.Step policy) (.initial start) ops w) :
    TagsAgree total w ↔
      Run (Guarded (ProcessClear policy total) (MetaWorld.Step policy)) (.initial start) ops w := by
  constructor
  · exact fun agree => run_clear run agree.handed
  · intro cleared
    have first : TagsAgree total (MetaWorld.initial start : MetaWorld t D π) :=
      ⟨fun k o found => (by cases found), fun p o inside => (by cases inside)⟩
    exact cleared.invariant first fun _ _ _ agree step => (step_agrees agree step.2).mpr step.1

/-- An invoke on process that returns a pointer. -/
def findOps (found : TPointer .i386) : List (MetaOp .i386 Int) :=
  [.lookupSymbol 0x8049000#32 0#32 "find", .enter "find" (some .pointer) [],
    .leave 0 ⟨0#32, found, 0#64⟩ 1]

theorem tags_agree_iff_clear_low : ∃ w : MetaWorld .i386 Int Unit,
    Run (MetaWorld.Step fun _ _ => (.process, ())) (.initial ()) (findOps 0x9000000#32) w ∧
    TagsAgree 0x10000 w := by
  have run : Run (Guarded (ProcessClear (fun _ _ => (.process, ())) 0x10000)
      (MetaWorld.Step fun _ _ => (.process, ()))) (.initial ()) (findOps 0x9000000#32) _ :=
    .cons ⟨trivial, _, _, rfl⟩ (.cons ⟨trivial, _, _, rfl⟩ (.cons ⟨fun _ _ _ _ _ => ⟨by decide, by decide⟩, _, _, rfl⟩ .nil))
  have steps := run.mono fun _ _ _ step => step.2
  exact ⟨_, steps, (tags_agree_iff_clear steps).mpr run⟩

/-- A high 32-bit address the process backend returns is registered as its own,
carries wasm's tag, and is resolved in wasm's memory. -/
theorem returned_high_address_disagrees : ∃ w : MetaWorld .i386 Int Unit,
    Run (MetaWorld.Step fun _ _ => (.process, ())) (.initial ()) (findOps 0x80000010#32) w ∧
    w.sandbox.allocOwner.lookup 0x80000010#32 = some .process ∧
    tagOwner (t := .i386) 0x80000010#32 = .wasm ∧
    implGetUnsandboxedPointer (t := .i386) 0x10000 0x80000010#32 = .wasm 0x10#32 :=
  ⟨_, .cons ⟨_, _, rfl⟩ (.cons ⟨_, _, rfl⟩ (.cons ⟨_, _, rfl⟩ .nil)), by decide, by decide, by decide⟩

end RlboxDynamic
