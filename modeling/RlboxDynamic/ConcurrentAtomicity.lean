import RlboxDynamic.ConcurrentEffects

/-! Allocations and frees are atomic: what any number of threads do between the locks
is what their operations do one after the other, in the order they took effect. -/
namespace RlboxDynamic

variable {t : Target} {D π ι : Type}

namespace ConcurrentAllocation
open Transition Interleaving

section
variable {total : Nat} {s s' : Commons t D π ι} {w : AtomicWorld t D π} {i : ι} {k : TPointer t}
  {c : Custody t ι} {a : LiveAlloc t}

/-! ## Each step of a thread -/

/-- What took effect in a step takes effect in the world of whole operations. -/
def Simulated (s s' : Commons t D π ι) (w : AtomicWorld t D π) : Prop :=
  ∃ effects w', s'.history = s.history ++ effects ∧ Run AtomicStep w effects w' ∧ Follows s' w'

theorem Simulated.none (history : s'.history = s.history) (follows : Follows s' w) :
    Simulated s s' w := ⟨[], w, by rw [history, List.append_nil], .nil, follows⟩

theorem Simulated.one {e : Effected t} (history : s'.history = s.history ++ [e])
    (step : ∃ w', AtomicStep w e w' ∧ Follows s' w') : Simulated s s' w :=
  let ⟨w', taken, follows⟩ := step; ⟨[e], w', history, .single taken, follows⟩

/-- An effect that leaves custody, heaps and registries alone. -/
theorem Follows.same (follows : Follows s w) (custody : s'.custody = s.custody)
    (sandbox : s'.sandbox = s.sandbox) : Follows s' w := by
  have live : s'.liveAt = s.liveAt := by funext k; rw [Commons.liveAt, Commons.liveAt, custody]
  constructor
  case types => rw [sandbox, follows.types]
  case owners => rw [custody, sandbox]; exact follows.owners
  case structs => rw [live]; exact follows.structs
  case blocks => rw [live]; exact follows.blocks
  case typed => rw [custody, sandbox]; exact follows.typed

theorem simulated_malloc {size : SizeT t} {answer : BlockAddress t} {next : Place t}
    (kept : s.Kept total) (free : TagFree t total) (follows : Follows s w)
    (allowed : s.heaps.Allows (Place.idle.call (Act.malloc size answer)).toList)
    (answers : (Act.malloc size answer).AnswersFrom total)
    (done : own i s .idle (.malloc size answer) = some (s', next)) : Simulated s s' w := by
  rcases Commons.malloc_cases allowed answers done with ⟨rfl, rfl⟩ | ⟨a, rfl, rfl, bare, fresh⟩
  · refine .one rfl ⟨w, ?_, follows.same rfl rfl⟩
    have ran : w.sandbox.mallocOn .wasm ⟨0#32, 0#t.ptrBits, 0#32⟩ size =
        ⟨[.wasmMalloc size 0#32], .ok (0#t.ptrBits, w.sandbox)⟩ := rfl
    exact .malloc (w := w) ran ⟨fun nonzero => absurd rfl nonzero, trivial⟩
  · have new := kept.key_fresh free bare fresh
    have change : AtKey s (s.grant i a) a.key (some { alloc := a, holder := some i }) :=
      fun j => KeyMap.lookup_insert _ _ _ _
    refine .none rfl (follows.quiet change ?_ rfl (fun _ _ => rfl) ?_ ?_)
    · rw [change.liveAt, if_pos rfl, Commons.liveAt, new]
      rfl
    · exact fun done => absurd rfl (done _ rfl)
    · rintro c info same - type
      cases same
      rw [bare.untyped] at type
      cases type

theorem simulated_own {size : SizeT t} {p : TPointer t} {choice : MetaBackend} {next : Place t}
    (follows : Follows s w) (holds : s.Local i (.granted size p choice))
    (done : own i s (.granted size p choice) .own = some (s', next)) : Simulated s s' w := by
  obtain ⟨a, sole, -, -, untyped, -⟩ := holds
  have owners : s'.sandbox.allocOwner = s.sandbox.allocOwner.insert p choice := by cases done; rfl
  have change : AtKey s s' p (some ⟨a, true, false, .obtaining, some i⟩) :=
    .of_amend (f := fun c => { c with owned := true }) sole.found (by cases done; rfl)
  refine .none (by cases done; rfl) (follows.quiet change ?_ (by cases done; rfl) ?_ ?_ ?_)
  · rw [change.liveAt, if_pos rfl, Commons.liveAt, sole.found]
    rfl
  · intro j other
    rw [owners]
    exact AList.lookup_insert_ne other
  · exact fun settled => absurd rfl (settled _ rfl)
  · rintro c info same - type
    cases same
    rw [untyped] at type
    cases type

/-- The malloc ends here, without a scratch. -/
theorem simulated_handOver (kept : (s.handOver a.size k).Kept total)
    (separated : (s.handOver a.size k).heaps.Separated) (follows : Follows s w)
    (found : s.custody.lookup k = some ⟨a, true, false, .obtaining, some i⟩)
    (typed : TypedBy a (s.sandbox.structMatches a.size)) : Simulated s (s.handOver a.size k) w :=
  .one rfl (follows.malloc false kept separated found rfl
    (.of_amend (f := fun c => { c with stage := .live, holder := none }) found rfl) rfl rfl typed)

theorem simulated_matchType {size : SizeT t} {p : TPointer t} {next : Place t}
    (kept : s'.Kept total) (separated : s'.heaps.Separated) (follows : Follows s w)
    (holds : s.Local i (.owned size p))
    (done : own i s (.owned size p) .matchType = some (s', next)) : Simulated s s' w := by
  obtain ⟨a, sole, rfl, untyped, bare⟩ := holds
  simp only [own] at done
  split at done
  · rename_i nothing
    cases done
    refine simulated_handOver kept separated follows sole.found ?_
    rw [nothing]
    exact ⟨untyped, bare⟩
  · rename_i info one
    split at done
    · -- a struct type without a wasm layout: there is no scratch to wait for
      rename_i noLayout
      cases done
      refine .one rfl (follows.malloc (a := { a with structType := some info }) false kept
        separated sole.found rfl (fun j => ?_) rfl rfl ?_)
      · show (KeyMap.amend p _ (KeyMap.amend p _ s.custody)).lookup j = _
        rw [KeyMap.lookup_amend, KeyMap.lookup_amend, KeyMap.lookup_amend, sole.found, if_pos rfl]
        split <;> rfl
      · show TypedBy _ (s.sandbox.structMatches a.size)
        rw [one]
        exact ⟨rfl, fun _ => bare⟩
    · rename_i layout
      cases done
      have change : AtKey s
          (s.amend p fun c => { c with alloc := { c.alloc with structType := some info } }) p _ :=
        .of_amend sole.found rfl
      refine .none rfl (follows.quiet change ?_ rfl (fun _ _ => rfl) ?_ ?_)
      · rw [change.liveAt, if_pos rfl, Commons.liveAt, sole.found]
        rfl
      · exact fun settled => absurd rfl (settled _ rfl)
      · rintro c info' same - type
        cases same
        cases type
        exact ⟨one, layout⟩
  · cases done

theorem simulated_scratch {size wasmSize : SizeT t} {p : TPointer t}
    {translator : Option StructTranslator} {raw : WasmPointer} {next : Place t}
    (kept : s'.Kept total) (separated : s'.heaps.Separated) (follows : Follows s w)
    (holds : s.Local i (.matched size p wasmSize translator))
    (done : own i s (.matched size p wasmSize translator) (.scratch raw) = some (s', next)) :
    Simulated s s' w := by
  obtain ⟨a, info, sole, rfl, typed, rfl, rfl, bare⟩ := holds
  obtain ⟨one, layout⟩ := follows.typed p _ info sole.found rfl typed
  simp only [own] at done
  split at done
  · cases done
    refine simulated_handOver kept separated follows sole.found ?_
    rw [one]
    exact ⟨typed, fun _ => bare⟩
  · have change : AtKey s s' p (some ⟨{ a with scratch := raw }, true, false, .obtaining, some i⟩) :=
      .of_amend (f := fun c => { c with alloc := { c.alloc with scratch := raw } }) sole.found
        (by cases done; rfl)
    refine .none (by cases done; rfl) (follows.quiet change ?_ (by cases done; rfl)
      (fun j other => by cases done; rfl) ?_ ?_)
    · rw [change.liveAt, if_pos rfl, Commons.liveAt, sole.found]
      rfl
    · exact fun settled => absurd rfl (settled _ rfl)
    · rintro c info' same - type
      cases same
      obtain rfl : info = info' := Option.some.inj (typed.symm.trans type)
      exact ⟨one, layout⟩

theorem simulated_link {size : SizeT t} {p : TPointer t} {raw : WasmPointer}
    {translator : Option StructTranslator} {next : Place t} (before : s.Kept total)
    (kept : s'.Kept total) (separated : s'.heaps.Separated) (follows : Follows s w)
    (holds : s.Local i (.scratched size p raw translator))
    (done : own i s (.scratched size p raw translator) .link = some (s', next)) : Simulated s s' w := by
  obtain ⟨a, sole, rfl, rfl, nonzero, rfl⟩ := holds
  obtain ⟨info, typed⟩ : ∃ info, a.structType = some info :=
    Option.ne_none_iff_exists'.mp ((before.entries sole.found).checked.scratchTyped nonzero)
  obtain ⟨one, layout⟩ := follows.typed p _ info sole.found rfl typed
  refine .one (by cases done; rfl) (follows.malloc (a := a) true kept separated sole.found rfl
    (fun j => ?_) (by cases done; rfl) (by cases done; rfl) ?_)
  · cases done
    show (KeyMap.amend p _ (KeyMap.amend p _ s.custody)).lookup j = _
    rw [KeyMap.lookup_amend, KeyMap.lookup_amend, KeyMap.lookup_amend, sole.found, if_pos rfl]
    split <;> rfl
  · rw [one]
    exact ⟨typed, fun noLayout => absurd noLayout layout⟩

theorem simulated_free {p : TPointer t} {next : Place t} (kept : s.Kept total) (free : TagFree t total)
    (follows : Follows s w) (client : (Act.free p).FreesLive s)
    (done : own i s .idle (.free p) = some (s', next)) : Simulated s s' w := by
  simp only [own] at done
  split at done
  · rename_i null
    cases done
    have ran : w.sandbox.implFreeInSandbox p = ([], w.sandbox) := if_pos null
    exact .one rfl ⟨w, .free (w := w) ran, follows.same rfl rfl⟩
  · rename_i nonNull
    obtain ⟨k, c, found, holder, spells⟩ := client nonNull
    have live := ((kept.entries found).client holder).2.1
    rw [kept.denotedKey_eq free found spells] at done
    cases done
    have change : AtKey s (s.amend k fun c => { c with holder := some i }) k _ :=
      .of_amend found rfl
    refine .none rfl (follows.quiet change ?_ rfl (fun _ _ => rfl) (fun _ => ⟨?_, rfl⟩) ?_)
    · rw [change.liveAt, if_pos rfl, Commons.liveAt, found]
      rfl
    · intro d held
      rw [found] at held
      cases held
      simp [live]
    · rintro d info same obtaining
      cases same
      simp [live] at obtaining

theorem simulated_disown {p : TPointer t} {next : Place t} (kept : s.Kept total)
    (free : TagFree t total) (follows : Follows s w) (holds : s.Local i (.freeing p))
    (done : own i s (.freeing p) .disown = some (s', next)) : Simulated s s' w := by
  obtain ⟨k, a, sole, spells⟩ := holds
  simp only [own, kept.registryEntry_eq free sole.found rfl spells] at done
  refine .one (by cases done; rfl) (follows.free kept free sole.found spells
    (.of_amend (f := fun c => { c with owned := false, stage := .releasing }) sole.found
      (by cases done; rfl)) (by cases done; rfl) (by cases done; rfl))

/-- What a free still has to do changes nothing that a client has. -/
theorem Follows.releasing {d : Option (Custody t ι)} (follows : Follows s w)
    (found : s.custody.lookup k = some c) (releasing : c.stage = .releasing) (change : AtKey s s' k d)
    (still : ∀ c, d = some c → c.stage = .releasing)
    (owners : s'.sandbox.allocOwner = s.sandbox.allocOwner)
    (types : s'.sandbox.structTypes = s.sandbox.structTypes) : Follows s' w := by
  refine follows.quiet change ?_ types (fun j _ => by rw [owners]) (fun _ => ⟨?_, by rw [owners]⟩) ?_
  · rw [change.liveAt, if_pos rfl, Commons.liveAt, found]
    cases d with
    | none => simp [releasing]
    | some c' => simp [releasing, still c' rfl]
  · intro e held
    rw [found] at held
    cases held
    simp [releasing]
  · intro e info same obtaining
    rw [still e same] at obtaining
    cases obtaining

theorem simulated_unlink {owner : MetaBackend} {next : Place t} (follows : Follows s w)
    (holds : s.Local i (.disowned k owner))
    (done : own i s (.disowned k owner) .unlink = some (s', next)) : Simulated s s' w := by
  obtain ⟨a, sole, rfl⟩ := holds
  refine .none (by cases done; rfl) (follows.releasing sole.found rfl
    (.of_amend (f := fun c => { c with linked := false }) sole.found (by cases done; rfl)) ?_
    (by cases done; rfl) (by cases done; rfl))
  rintro c same
  cases same
  rfl

theorem simulated_release {calls : List (BackendCall t)} {next : Place t} (follows : Follows s w)
    (holds : s.Local i (.releasing k calls))
    (done : own i s (.releasing k calls) .release = some (s', next)) : Simulated s s' w := by
  obtain ⟨a, sole, -⟩ := holds
  simp only [own] at done
  split at done
  · cases done
  · refine .none (by cases done; rfl) (follows.releasing (d := none) sole.found rfl (fun j => ?_)
      (fun c same => by cases same) (by cases done; rfl) (by cases done; rfl))
    cases done
    exact KeyMap.lookup_erase _ _ _
  · refine .none (by cases done; rfl) (follows.releasing sole.found rfl
      (.of_amend (f := fun c => { c with alloc := { c.alloc with scratch := 0#32 } }) sole.found
        (by cases done; rfl)) ?_ (by cases done; rfl) (by cases done; rfl))
    rintro c same
    cases same
    rfl

theorem simulated_registerStructType {info : MetaStructTypeInfo t} {next : Place t}
    (follows : Follows s w)
    (outside : ∀ k c, s.custody.lookup k = some c → c.stage = .obtaining → c.alloc.structType = none)
    (done : own i s .idle (.registerStructType info) = some (s', next)) : Simulated s s' w := by
  cases done
  refine .one rfl ⟨_, .registerStructType, ?_⟩
  constructor
  case types =>
    show MetaSandbox.replaceStructType info w.sandbox.structTypes = _
    rw [follows.types]
    rfl
  case owners => exact follows.owners
  case structs => exact follows.structs
  case blocks => exact follows.blocks
  case typed =>
    intro k c info found obtaining type
    rw [outside k c found obtaining] at type
    cases type

theorem simulated_registerReturn {which : MetaBackend} {answer : InvokeAnswer t} {next : Place t}
    (follows : Follows s w)
    (done : own i s .idle (.registerReturn which answer) = some (s', next)) : Simulated s s' w := by
  cases done
  refine .one rfl ⟨_, .registerReturn, ?_⟩
  have emplaced : ∀ (p k : TPointer t) (o : MetaBackend),
      (∀ c, s.custody.lookup k = some c → c.stage ≠ .obtaining) →
        (KeyMap.emplace p o w.sandbox.allocOwner).lookup k =
          (KeyMap.emplace p o s.sandbox.allocOwner).lookup k := by
    intro p k o settled
    rw [KeyMap.lookup_emplace, KeyMap.lookup_emplace]
    split
    · rename_i at_p
      rw [← at_p, follows.owners k settled]
    · exact follows.owners k settled
  cases which with
  | wasm =>
    by_cases null : answer.wasm = 0#32
    · simp only [MetaSandbox.registerReturn, if_pos null]
      exact follows.same rfl rfl
    · simp only [MetaSandbox.registerReturn, if_neg null]
      exact ⟨follows.types, fun k settled => emplaced _ k _ settled, follows.structs, follows.blocks,
        follows.typed⟩
  | process =>
    by_cases null : answer.process = 0#t.ptrBits
    · simp only [MetaSandbox.registerReturn, if_pos null]
      exact follows.same rfl rfl
    · simp only [MetaSandbox.registerReturn, if_neg null]
      exact ⟨follows.types, fun k settled => emplaced _ k _ settled, follows.structs, follows.blocks,
        follows.typed⟩

/-- A step does to the heaps what its backend call does. -/
theorem heaps_of_own {place next : Place t} {act : Act t}
    (done : own i s place act = some (s', next)) :
    s'.heaps = s.heaps.applyAll (place.call act).toList := by
  cases act with
  | malloc size answer =>
    cases place with
    | idle =>
      cases answer with
      | wasm raw =>
        simp only [own] at done
        split at done <;> cases done <;> rename_i null
        · simp [Place.call, Heaps.applyAll, Heaps.apply, null, Commons.took]
        · simp [Place.call, Heaps.applyAll, Commons.grant, LiveAlloc.obtainBlock]
      | process p =>
        simp only [own] at done
        split at done
        · rename_i null
          cases done
          simp [Place.call, Heaps.applyAll, Heaps.apply, null, Commons.took]
        · split at done
          · cases done
          · cases done
            rfl
    | _ => cases done
  | scratch raw =>
    cases place with
    | matched size p wasmSize translator =>
      simp only [own] at done
      split at done <;> cases done <;> rename_i null
      · simp [Place.call, Heaps.applyAll, Heaps.apply, null, Commons.handOver, Commons.took,
          Commons.amend]
      · rfl
    | _ => cases done
  | matchType =>
    cases place with
    | owned size p =>
      simp only [own] at done
      split at done
      · cases done; rfl
      · split at done <;> cases done <;> rfl
      · cases done
    | _ => cases done
  | free p =>
    cases place with
    | idle =>
      simp only [own] at done
      split at done <;> cases done <;> rfl
    | _ => cases done
  | release =>
    cases place with
    | releasing key calls =>
      simp only [own] at done
      split at done <;> cases done <;> rfl
    | _ => cases done
  | own | link | disown | unlink | registerStructType | registerReturn =>
    cases place <;> first | (cases done; rfl) | cases done

theorem simulated {place next : Place t} {act : Act t} (kept : s.Kept total) (free : TagFree t total)
    (holds : s.Local i place) (kept' : s'.Kept total) (separated : s'.heaps.Separated)
    (follows : Follows s w) (allowed : s.heaps.Allows (place.call act).toList)
    (answers : act.AnswersFrom total) (client : act.FreesLive s)
    (outside : ∀ info, act = .registerStructType info → ∀ k c, s.custody.lookup k = some c →
      c.stage = .obtaining → c.alloc.structType = none)
    (done : own i s place act = some (s', next)) : Simulated s s' w := by
  cases act with
  | malloc size answer =>
    cases place <;> first | exact simulated_malloc kept free follows allowed answers done | cases done
  | own => cases place <;> first | exact simulated_own follows holds done | cases done
  | matchType =>
    cases place <;> first | exact simulated_matchType kept' separated follows holds done | cases done
  | scratch raw =>
    cases place <;> first | exact simulated_scratch kept' separated follows holds done | cases done
  | link =>
    cases place <;> first | exact simulated_link kept kept' separated follows holds done | cases done
  | free p => cases place <;> first | exact simulated_free kept free follows client done | cases done
  | disown => cases place <;> first | exact simulated_disown kept free follows holds done | cases done
  | unlink => cases place <;> first | exact simulated_unlink follows holds done | cases done
  | release => cases place <;> first | exact simulated_release follows holds done | cases done
  | registerStructType info =>
    cases place <;> first
      | exact simulated_registerStructType follows (outside info rfl) done
      | cases done
  | registerReturn which answer =>
    cases place <;> first | exact simulated_registerReturn follows done | cases done

end

/-! ## Every run -/

/-- The malloc knows its struct type, and has yet to publish the scratch. -/
def Place.pastMatch : Place t → Bool
  | .matched _ _ _ _ | .scratched _ _ _ _ => true
  | _ => false

section
variable [DecidableEq ι] {total : Nat} {s s' : System t D π ι} {l : ι × Act t} {policyState : π}

/-- No struct type is registered while a malloc is between the match and its end. -/
def RegistersApart (s : System t D π ι) (l : ι × Act t) : Prop :=
  match l.2 with
  | .registerStructType _ => ∀ i, (s.place i).pastMatch = false
  | _ => True

abbrev ApartStep (total : Nat) : System t D π ι → ι × Act t → System t D π ι → Prop :=
  Guarded RegistersApart (Step total)

omit [DecidableEq ι] in
theorem untyped_of_apart (holding : Holding (Commons.Kept total) Commons.Local s)
    (apart : ∀ i, (s.place i).pastMatch = false) {k : TPointer t} {c : Custody t ι}
    (found : s.shared.custody.lookup k = some c) (obtaining : c.stage = .obtaining) :
    c.alloc.structType = none := by
  cases holder : c.holder with
  | none =>
    have live := ((holding.shared.entries found).client holder).2.1
    rw [obtaining] at live
    cases live
  | some i =>
    have here := holding.each i
    have outside := apart i
    -- the thread's one allocation is this one
    have same : ∀ {p d}, s.shared.Sole i p d → d = c := by
      intro p d sole
      have at_p := sole.only found holder
      rw [at_p, sole.found] at found
      exact Option.some.inj found
    cases place : s.place i with
    | idle =>
      rw [place] at here
      exact absurd holder (here k c found)
    | granted =>
      rw [place] at here
      obtain ⟨a, sole, -, -, untyped, -⟩ := here
      rw [← same sole]
      exact untyped
    | owned =>
      rw [place] at here
      obtain ⟨a, sole, -, untyped, -⟩ := here
      rw [← same sole]
      exact untyped
    | matched | scratched =>
      rw [place] at outside
      cases outside
    | freeing =>
      rw [place] at here
      obtain ⟨j, a, sole, -⟩ := here
      rw [← same sole] at obtaining
      cases obtaining
    | disowned | releasing =>
      rw [place] at here
      obtain ⟨a, sole, -⟩ := here
      rw [← same sole] at obtaining
      cases obtaining

def AtomicWorld.start (policyState : π) : AtomicWorld t D π := ⟨.initial policyState, ⟨∅, ∅⟩⟩

/-- The threads so far, and the same as whole operations. -/
structure InStep (total : Nat) (policyState : π) (s : System t D π ι) : Prop where
  holding : Holding (Commons.Kept total) Commons.Local s
  separated : s.shared.heaps.Separated
  follows : ∃ w, Run AtomicStep (.start policyState) s.shared.history w ∧ Follows s.shared w

theorem inStep_step (free : TagFree t total) (inStep : InStep total policyState s)
    (step : ApartStep total s l s') : InStep total policyState s' := by
  obtain ⟨apart, step⟩ := step
  have holding := holding_step free inStep.holding step
  obtain ⟨⟨allowed, answers, client⟩, done⟩ := step
  obtain ⟨i, act⟩ := l
  obtain ⟨shared, next, ran, rfl⟩ := exec_some done
  have separated : shared.heaps.Separated := by
    rw [heaps_of_own ran]
    cases call : (s.place i).call act with
    | none => exact inStep.separated
    | some c =>
      rw [call] at allowed
      exact inStep.separated.apply allowed
  obtain ⟨w, run, follows⟩ := inStep.follows
  have outside : ∀ info, act = .registerStructType info → ∀ k c,
      s.shared.custody.lookup k = some c → c.stage = .obtaining → c.alloc.structType = none := by
    rintro info rfl k c found obtaining
    exact untyped_of_apart inStep.holding apart found obtaining
  obtain ⟨effects, w', history, more, follows'⟩ := simulated inStep.holding.shared free
    (inStep.holding.each i) holding.shared separated follows allowed answers client outside ran
  refine ⟨holding, separated, w', ?_, follows'⟩
  show Run AtomicStep _ shared.history w'
  rw [history]
  exact run.append more

omit [DecidableEq ι] in
theorem inStep_start : InStep total policyState (start policyState : System t D π ι) where
  holding := holding_start policyState
  separated x y n m _ found := by cases x <;> cases found
  follows := by
    refine ⟨_, .nil, rfl, fun _ _ => rfl, fun _ => rfl, fun x n => ?_, fun _ _ _ found => by cases found⟩
    constructor
    · intro found
      cases x <;> cases found
    · rintro ⟨k, a, live, -⟩
      cases live

/-- The threads between operations: nothing tells the two apart. -/
structure SameWorld (s : Commons t D π ι) (w : AtomicWorld t D π) : Prop where
  owners : ∀ k, w.sandbox.allocOwner.lookup k = s.sandbox.allocOwner.lookup k
  structs : ∀ k, w.sandbox.structAllocs.lookup k = s.sandbox.structAllocs.lookup k
  types : w.sandbox.structTypes = s.sandbox.structTypes
  blocks : ∀ x, w.heaps.blockAt x = s.heaps.blockAt x

omit [DecidableEq ι] in
theorem sameWorld_of_idle {w : AtomicWorld t D π}
    (holding : Holding (Commons.Kept total) Commons.Local s) (follows : Follows s.shared w)
    (idle : ∀ i, s.place i = .idle) : SameWorld s.shared w := by
  have accounted := accounted holding
  have client : ∀ {k c}, s.shared.custody.lookup k = some c → c.holder = none ∧ c.stage = .live := by
    intro k c found
    have free : c.holder = none := by
      cases holder : c.holder with
      | none => rfl
      | some i =>
        have here := holding.each i
        rw [idle i] at here
        exact absurd holder (here k c found)
    exact ⟨free, ((holding.shared.entries found).client free).2.1⟩
  have live : ∀ k, s.shared.liveAt k = (s.shared.custody.lookup k).map (·.alloc) := by
    intro k
    unfold Commons.liveAt
    cases found : s.shared.custody.lookup k with
    | none => rfl
    | some c => simp [(client found).2]
  obtain ⟨blocks, structs⟩ := accounted.idle idle
  constructor
  case owners =>
    intro k
    refine follows.owners k fun c found obtaining => ?_
    rw [(client found).2] at obtaining
    cases obtaining
  case structs =>
    intro k
    rw [follows.structs, structs, live]
    cases s.shared.custody.lookup k <;> rfl
  case types => exact follows.types
  case blocks =>
    intro x
    refine Option.ext fun n => ?_
    rw [follows.blocks, blocks]
    constructor
    · rintro ⟨k, a, held, inside⟩
      rw [live] at held
      obtain ⟨c, found, rfl⟩ := Option.map_eq_some_iff.mp held
      exact ⟨k, c, found, (client found).1, inside⟩
    · rintro ⟨k, c, found, -, inside⟩
      exact ⟨k, c.alloc, by rw [live, found]; rfl, inside⟩

end
end ConcurrentAllocation

open Transition ConcurrentAllocation

/-- Every run of any number of threads does what its mallocs, frees, registrations
and returned pointers do as whole operations, one after the other in the order in
which they took effect: the same results, and while no thread is inside one the
same registries and the same heaps. What a client has is in both worlds at any
time. -/
theorem concurrent_allocations_atomic [DecidableEq ι] {total : Nat} (free : TagFree t total)
    (policyState : π) {steps : List (ι × Act t)} {s : System t D π ι}
    (run : Run (ApartStep total) (start policyState) steps s) :
    ∃ w, Run AtomicStep (.start policyState) s.shared.history w ∧
      ((∀ i, s.place i = .idle) → SameWorld s.shared w) ∧
      ∀ k c, s.shared.custody.lookup k = some c → c.holder = none →
        w.sandbox.allocOwner.lookup k = some c.alloc.owner ∧
          w.sandbox.structAllocs.lookup k = c.alloc.structInfo ∧
            ∀ x n, (x, n) ∈ c.alloc.blocks → w.heaps.blockAt x = some n := by
  have first : InStep total policyState (start policyState : System t D π ι) := inStep_start
  have inStep := run.invariant first fun _ _ _ inStep step => inStep_step free inStep step
  obtain ⟨w, taken, follows⟩ := inStep.follows
  refine ⟨w, taken, sameWorld_of_idle inStep.holding follows, fun k c found client => ?_⟩
  obtain ⟨owned, live, -⟩ := (inStep.holding.shared.entries found).client client
  have at_k : s.shared.liveAt k = some c.alloc := by simp [Commons.liveAt, found, live]
  refine ⟨?_, ?_, fun x n inside => (follows.blocks x n).mpr ⟨k, _, at_k, inside⟩⟩
  · rw [follows.owners k fun d held => by rw [found] at held; cases held; simp [live]]
    exact (inStep.holding.shared.entries found).owned owned
  · rw [follows.structs, at_k, Option.bind_some]

/-- A free by the untagged offset takes effect inside another thread's malloc. -/
theorem concurrent_allocations_atomic_overlapping :
    ∃ (steps : List (Bool × Act .i386)) (s : System .i386 Int Unit Bool) (w : AtomicWorld .i386 Int Unit),
      Run (ApartStep 0x10000) (start ()) steps s ∧
        s.shared.history = [.malloc 8#32 0x80000010#32, .free 0x10#32, .malloc 8#32 0x80000030#32] ∧
        Run AtomicStep (.start ()) s.shared.history w ∧ w.heaps.blockAt (.wasm 0x30#32) = some 8#32 := by
  have run : Run (ApartStep 0x10000) (start () : System .i386 Int Unit Bool)
      [(true, .malloc 8#32 (.wasm 0x10#32)), (true, .own), (true, .matchType),
        (false, .malloc 8#32 (.wasm 0x30#32)), (true, .free 0x10#32), (false, .own), (true, .disown),
        (true, .unlink), (false, .matchType), (true, .release)] _ :=
    .cons ⟨trivial, ⟨by decide, by decide, trivial⟩, rfl⟩ <|
    .cons ⟨trivial, ⟨trivial, trivial, trivial⟩, rfl⟩ <|
    .cons ⟨trivial, ⟨trivial, trivial, trivial⟩, rfl⟩ <|
    .cons ⟨trivial, ⟨by decide, by decide, trivial⟩, rfl⟩ <|
    .cons ⟨trivial, ⟨trivial, trivial, fun _ => ⟨0x80000010#32, _, rfl, rfl, .inr (by decide)⟩⟩, rfl⟩ <|
    .cons ⟨trivial, ⟨trivial, trivial, trivial⟩, rfl⟩ <|
    .cons ⟨trivial, ⟨trivial, trivial, trivial⟩, rfl⟩ <|
    .cons ⟨trivial, ⟨trivial, trivial, trivial⟩, rfl⟩ <|
    .cons ⟨trivial, ⟨trivial, trivial, trivial⟩, rfl⟩ <|
    .cons ⟨trivial, ⟨⟨trivial, trivial⟩, trivial, trivial⟩, rfl⟩ .nil
  obtain ⟨w, taken, -, clients⟩ :=
    concurrent_allocations_atomic ⟨0x10000#32, by decide, by decide⟩ () run
  obtain ⟨-, -, blocks⟩ := clients 0x80000030#32 _ rfl rfl
  exact ⟨_, _, w, run, rfl, taken, blocks _ 8#32 (by decide)⟩

end RlboxDynamic
