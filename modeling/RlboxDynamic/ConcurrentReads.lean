import RlboxDynamic.ConcurrentRouting

/-! What the registries say of a pointer while other threads allocate and free:
as long as nobody frees what it denotes, an invoke reads the same of it at every
moment. -/
namespace RlboxDynamic.ConcurrentAllocation
open Transition Interleaving

variable {t : Target} {D π ι : Type}

/-- The keys that a pointer is looked up under. -/
def LooksUp (p key : TPointer t) : Prop := key = p ∨ key = tagWasm p

/-- The key a step brings in: a block's where it is granted, a returned pointer's
where it is registered. -/
def Act.introduces : Act t → Option (TPointer t)
  | .malloc _ (.wasm raw) => if raw = 0#32 then none else some (tagWasm (widen t raw))
  | .malloc _ (.process p) => if p = 0#t.ptrBits then none else some p
  | .registerReturn .wasm answer =>
    if answer.wasm = 0#32 then none else some (tagWasm (widen t answer.wasm))
  | .registerReturn .process answer =>
    if answer.process = 0#t.ptrBits then none else some answer.process
  | _ => none

namespace Commons

/-- No allocation has a key of the pointer, and neither has a returned pointer. -/
structure Foreign (s : Commons t D π ι) (p : TPointer t) : Prop where
  custody : ∀ key, LooksUp p key → s.custody.lookup key = none
  owners : ∀ key, LooksUp p key → s.sandbox.allocOwner.lookup key = none

/-- The pointer denotes an allocation of the client's, or nothing of the sandbox. -/
inductive Steady (s : Commons t D π ι) (p : TPointer t) : Prop where
  | held (found : s.custody.lookup k = some c) (client : c.holder = none) (spells : Spells p k)
  | foreign (unknown : s.Foreign p)

/-- A thread's step is about the custody of what the thread works on, of a new
block, and of what a client gives back. -/
inductive Concerns (s : Commons t D π ι) (i : ι) (act : Act t) (j : TPointer t) : Prop where
  | works (found : s.custody.lookup j = some c) (mine : c.holder = some i)
  | grants (new : s.custody.lookup j = none) (introduces : act.introduces = some j)
  | frees (found : s.custody.lookup j = some c) (freed : act = .free q) (spells : Spells q j)

end Commons

/-- What a step does to the sandbox. -/
inductive SandboxStep (s : MetaSandbox t D π) : Place t → Act t → MetaSandbox t D π → Prop where
  | same : SandboxStep s place act s
  | own : SandboxStep s (.granted size p choice) .own
      { s with allocOwner := s.allocOwner.insert p choice }
  | link : SandboxStep s (.scratched size p raw translator) .link
      { s with structAllocs := s.structAllocs.insert p ⟨raw, translator⟩ }
  | disown : SandboxStep s (.freeing p) .disown
      { s with allocOwner := s.allocOwner.erase (s.registryEntry p).1 }
  | unlink : SandboxStep s (.disowned registryKey owner) .unlink
      { s with structAllocs := s.structAllocs.erase registryKey }
  | registerStructType : SandboxStep s .idle (.registerStructType info) (s.registerStructType info)
  | registerReturn : SandboxStep s .idle (.registerReturn which answer) (s.registerReturn which answer).2

/-- The step frees nothing that the pointer denotes, and brings in no key of a
pointer that denotes nothing. -/
structure Act.Spares (s : Commons t D π ι) (p : TPointer t) (act : Act t) : Prop where
  frees : ∀ q k, act = .free q → Spells p k → ¬ Spells q k
  introduces : s.Foreign p → ∀ k, act.introduces = some k → ¬ LooksUp p k

/-- An invoke reads the same of the pointer in both sandboxes. -/
structure SameReads (s s' : MetaSandbox t D π) (p : TPointer t) : Prop where
  owner : s'.ownerOf p = s.ownerOf p
  structs : s'.structAllocs.lookup p = s.structAllocs.lookup p
  callbacks : s'.callbackRegistry = s.callbackRegistry

theorem SameReads.trans {s m s' : MetaSandbox t D π} {p : TPointer t} (first : SameReads s m p)
    (second : SameReads m s' p) : SameReads s s' p :=
  ⟨second.owner.trans first.owner, second.structs.trans first.structs,
    second.callbacks.trans first.callbacks⟩

namespace Commons
variable {total : Nat} {s s' : Commons t D π ι} {i : ι} {k j p : TPointer t} {c : Custody t ι}
  {a : LiveAlloc t} {place next : Place t} {act : Act t}

/-! ## What is read -/

/-- Of an allocation of the client's, under either spelling, its owner; and its
struct entry, under its key only. -/
theorem Kept.reads_held (kept : s.Kept total) (free : TagFree t total)
    (found : s.custody.lookup k = some c) (client : c.holder = none) (spells : Spells p k) :
    s.sandbox.ownerOf p = some c.alloc.owner ∧
      s.sandbox.structAllocs.lookup p = if p = k then c.alloc.structInfo else none := by
  have entry := kept.entries found
  obtain ⟨owned, -, linked⟩ := entry.client client
  have recorded := entry.owned owned
  have structs : c.structEntry = c.alloc.structInfo := by
    rw [Custody.structEntry, linked]
    by_cases bare : c.alloc.scratch = 0#32 <;> simp [LiveAlloc.structInfo, bare]
  rcases kept.spelled free found spells with rfl | ⟨missing, outside, untagged, back⟩
  · refine ⟨?_, ?_⟩
    · unfold MetaSandbox.ownerOf
      rw [recorded]
    · rw [if_pos rfl, kept.structs, found]
      exact structs
  · have other : p ≠ k := by
      rintro rfl
      rw [recorded] at missing
      cases missing
    refine ⟨?_, ?_⟩
    · unfold MetaSandbox.ownerOf
      rw [missing]
      dsimp only
      rw [if_neg untagged, back, recorded]
    · rw [if_neg other, kept.structs, AList.lookup_eq_none.mpr outside]
      rfl

theorem Kept.reads_foreign (kept : s.Kept total) (unknown : s.Foreign p) :
    s.sandbox.ownerOf p = none ∧ s.sandbox.structAllocs.lookup p = none := by
  refine ⟨?_, ?_⟩
  · unfold MetaSandbox.ownerOf
    rw [unknown.owners p (.inl rfl)]
    dsimp only
    rw [unknown.owners _ (.inr rfl), ite_self]
  · rw [kept.structs, unknown.custody p (.inl rfl)]
    rfl

/-! ## What a step leaves alone -/

theorem custody_amend {f : Custody t ι → Custody t ι} (other : j ≠ k) :
    (s.amend k f).custody.lookup j = s.custody.lookup j := by
  show (KeyMap.amend k f s.custody).lookup j = _
  rw [KeyMap.lookup_amend, if_neg other]

theorem Sole.ne_of (sole : s.Sole i k c) (apart : ¬ s.Concerns i act j) : j ≠ k := by
  rintro rfl
  exact apart (.works sole.found sole.mine)

/-- The block that a malloc was granted is under the key the step brings in. -/
theorem introduces_of_granted {size size' : SizeT t} {answer : BlockAddress t} {choice : MetaBackend}
    (done : own i s .idle (.malloc size answer) = some (s', .granted size' k choice)) :
    (Act.malloc size answer).introduces = some k := by
  cases answer with
  | wasm raw =>
    simp only [own] at done
    split at done
    · cases (Prod.mk.inj (Option.some.inj done)).2
    · rename_i nonzero
      cases (Prod.mk.inj (Option.some.inj done)).2
      exact if_neg nonzero
  | process p =>
    simp only [own] at done
    split at done
    · cases (Prod.mk.inj (Option.some.inj done)).2
    · rename_i nonNull
      split at done
      · cases done
      · cases (Prod.mk.inj (Option.some.inj done)).2
        exact if_neg nonNull

theorem custody_malloc {size : SizeT t} {answer : BlockAddress t} (kept : s.Kept total)
    (free : TagFree t total)
    (allowed : s.heaps.Allows (Place.idle.call (Act.malloc size answer)).toList)
    (answers : (Act.malloc size answer).AnswersFrom total)
    (done : own i s .idle (.malloc size answer) = some (s', next))
    (apart : ¬ s.Concerns i (.malloc size answer) j) : s'.custody.lookup j = s.custody.lookup j := by
  rcases malloc_cases allowed answers done with ⟨rfl, -⟩ | ⟨a, granted, rfl, bare, fresh⟩
  · rfl
  have other : j ≠ a.key := by
    rintro rfl
    exact apart (.grants (kept.key_fresh free bare fresh) (introduces_of_granted done))
  rw [granted]
  exact AList.lookup_insert_ne other

theorem custody_step (kept : s.Kept total) (free : TagFree t total) (holds : s.Local i place)
    (allowed : s.heaps.Allows (place.call act).toList) (answers : act.AnswersFrom total)
    (client : act.FreesLive s) (done : own i s place act = some (s', next))
    (apart : ¬ s.Concerns i act j) : s'.custody.lookup j = s.custody.lookup j := by
  cases act with
  | malloc size answer =>
    cases place with
    | idle => exact custody_malloc kept free allowed answers done apart
    | _ => cases done
  | own =>
    cases place with
    | granted =>
      obtain ⟨a, sole, -⟩ := holds
      cases done
      exact custody_amend (sole.ne_of apart)
    | _ => cases done
  | matchType =>
    cases place with
    | owned =>
      obtain ⟨a, sole, -⟩ := holds
      have other := sole.ne_of apart
      simp only [own] at done
      split at done
      · cases done
        exact custody_amend other
      · split at done <;> cases done
        · exact (custody_amend other).trans (custody_amend other)
        · exact custody_amend other
      · cases done
    | _ => cases done
  | scratch raw =>
    cases place with
    | matched =>
      obtain ⟨a, info, sole, -⟩ := holds
      have other := sole.ne_of apart
      simp only [own] at done
      split at done <;> cases done
      · exact custody_amend other
      · exact custody_amend other
    | _ => cases done
  | link =>
    cases place with
    | scratched =>
      obtain ⟨a, sole, -⟩ := holds
      have other := sole.ne_of apart
      cases done
      exact (custody_amend other).trans (custody_amend other)
    | _ => cases done
  | free p =>
    cases place with
    | idle =>
      simp only [own] at done
      split at done
      · cases done
        rfl
      · rename_i nonNull
        obtain ⟨k, c, found, -, spells⟩ := client nonNull
        rw [kept.denotedKey_eq free found spells] at done
        have other : j ≠ k := by
          rintro rfl
          exact apart (.frees found rfl spells)
        cases done
        exact custody_amend other
    | _ => cases done
  | disown =>
    cases place with
    | freeing p =>
      obtain ⟨k, a, sole, spells⟩ := holds
      simp only [own, kept.registryEntry_eq free sole.found rfl spells] at done
      cases done
      exact custody_amend (sole.ne_of apart)
    | _ => cases done
  | unlink =>
    cases place with
    | disowned =>
      obtain ⟨a, sole, -⟩ := holds
      cases done
      exact custody_amend (sole.ne_of apart)
    | _ => cases done
  | release =>
    cases place with
    | releasing k calls =>
      obtain ⟨a, sole, -⟩ := holds
      have other := sole.ne_of apart
      simp only [own] at done
      split at done <;> cases done
      · exact AList.lookup_erase_ne other
      · exact custody_amend other
    | _ => cases done
  | registerStructType info =>
    cases place with
    | idle =>
      cases done
      rfl
    | _ => cases done
  | registerReturn which answer =>
    cases place with
    | idle =>
      cases done
      rfl
    | _ => cases done

theorem sandbox_step (done : own i s place act = some (s', next)) :
    SandboxStep s.sandbox place act s'.sandbox := by
  cases act with
  | malloc size answer =>
    cases place with
    | idle =>
      cases answer <;> simp only [own] at done
      · split at done <;> cases done <;> exact .same
      · split at done
        · cases done
          exact .same
        · split at done <;> cases done
          exact .same
    | _ => cases done
  | matchType =>
    cases place with
    | owned =>
      simp only [own] at done
      split at done
      · cases done
        exact .same
      · split at done <;> cases done <;> exact .same
      · cases done
    | _ => cases done
  | scratch raw =>
    cases place with
    | matched =>
      simp only [own] at done
      split at done <;> cases done <;> exact .same
    | _ => cases done
  | free p =>
    cases place with
    | idle =>
      simp only [own] at done
      split at done <;> cases done <;> exact .same
    | _ => cases done
  | release =>
    cases place with
    | releasing =>
      simp only [own] at done
      split at done <;> cases done <;> exact .same
    | _ => cases done
  | own =>
    cases place <;> cases done
    exact .own
  | link =>
    cases place <;> cases done
    exact .link
  | disown =>
    cases place <;> cases done
    exact .disown
  | unlink =>
    cases place <;> cases done
    exact .unlink
  | registerStructType =>
    cases place <;> cases done
    exact .registerStructType
  | registerReturn =>
    cases place <;> cases done
    exact .registerReturn

theorem owners_registerReturn {sandbox : MetaSandbox t D π} {which : MetaBackend}
    {answer : InvokeAnswer t} (old : (Act.registerReturn which answer).introduces ≠ some j) :
    (sandbox.registerReturn which answer).2.allocOwner.lookup j = sandbox.allocOwner.lookup j := by
  cases which with
  | wasm =>
    by_cases null : answer.wasm = 0#32
    · simp only [MetaSandbox.registerReturn, if_pos null]
    · simp only [MetaSandbox.registerReturn, if_neg null]
      refine (KeyMap.lookup_emplace _ _ _ _).trans (if_neg ?_)
      rintro rfl
      exact old (if_neg null)
  | process =>
    by_cases null : answer.process = 0#t.ptrBits
    · simp only [MetaSandbox.registerReturn, if_pos null]
    · simp only [MetaSandbox.registerReturn, if_neg null]
      refine (KeyMap.lookup_emplace _ _ _ _).trans (if_neg ?_)
      rintro rfl
      exact old (if_neg null)

/-- A key's owner changes where its thread works on it, and where it is new. -/
theorem owners_step (kept : s.Kept total) (free : TagFree t total) (holds : s.Local i place)
    (done : own i s place act = some (s', next))
    (unheld : ∀ c, s.custody.lookup j = some c → c.holder ≠ some i) (old : act.introduces ≠ some j) :
    s'.sandbox.allocOwner.lookup j = s.sandbox.allocOwner.lookup j := by
  have other : ∀ {k c}, s.Sole i k c → j ≠ k := by
    rintro k c sole rfl
    exact unheld c sole.found sole.mine
  have changed := sandbox_step done
  generalize s'.sandbox = after at changed
  cases changed with
  | same | link | unlink | registerStructType => rfl
  | own =>
    obtain ⟨a, sole, -⟩ := holds
    exact AList.lookup_insert_ne (other sole)
  | disown =>
    obtain ⟨k, a, sole, spells⟩ := holds
    rw [kept.registryEntry_eq free sole.found rfl spells]
    exact AList.lookup_erase_ne (other sole)
  | registerReturn => exact owners_registerReturn old

theorem callbacks_step (done : own i s place act = some (s', next)) :
    s'.sandbox.callbackRegistry = s.sandbox.callbackRegistry := by
  have changed := sandbox_step done
  generalize s'.sandbox = after at changed
  cases changed with
  | same | own | link | disown | unlink | registerStructType => rfl
  | @registerReturn which answer =>
    unfold MetaSandbox.registerReturn
    cases which <;> dsimp only <;> split <;> rfl

/-! ## Steady pointers -/

theorem Foreign.step (unknown : s.Foreign p) (kept : s.Kept total) (free : TagFree t total)
    (holds : s.Local i place) (allowed : s.heaps.Allows (place.call act).toList)
    (answers : act.AnswersFrom total) (client : act.FreesLive s)
    (done : own i s place act = some (s', next)) (spares : act.Spares s p) : s'.Foreign p where
  custody key looked := by
    have vacant := unknown.custody key looked
    rw [custody_step kept free holds allowed answers client done fun concerns => ?_]
    · exact vacant
    · cases concerns with
      | works found | frees found => cases vacant.symm.trans found
      | grants _ introduces => exact spares.introduces unknown key introduces looked
  owners key looked := by
    rw [owners_step kept free holds done (fun c found => ?_) fun introduces => ?_]
    · exact unknown.owners key looked
    · cases (unknown.custody key looked).symm.trans found
    · exact spares.introduces unknown key introduces looked

/-- A pointer stays steady over a step that spares it, and an invoke reads the
same of it before and after. -/
theorem Steady.step (steady : s.Steady p) (kept : s.Kept total) (kept' : s'.Kept total)
    (free : TagFree t total) (holds : s.Local i place)
    (allowed : s.heaps.Allows (place.call act).toList) (answers : act.AnswersFrom total)
    (client : act.FreesLive s) (done : own i s place act = some (s', next))
    (spares : act.Spares s p) : s'.Steady p ∧ SameReads s.sandbox s'.sandbox p := by
  have callbacks := callbacks_step done
  cases steady with
  | @held k c found idle spells =>
    have stays : s'.custody.lookup k = some c := by
      rw [custody_step kept free holds allowed answers client done fun concerns => ?_]
      · exact found
      · cases concerns with
        | works other mine =>
          cases found.symm.trans other
          cases idle.symm.trans mine
        | grants new => cases new.symm.trans found
        | frees _ freed denotes => exact spares.frees _ _ freed spells denotes
    obtain ⟨owner, structs⟩ := kept.reads_held free found idle spells
    obtain ⟨owner', structs'⟩ := kept'.reads_held free stays idle spells
    exact ⟨.held stays idle spells, owner'.trans owner.symm, structs'.trans structs.symm, callbacks⟩
  | foreign unknown =>
    have stays := unknown.step kept free holds allowed answers client done spares
    obtain ⟨owner, structs⟩ := kept.reads_foreign unknown
    obtain ⟨owner', structs'⟩ := kept'.reads_foreign stays
    exact ⟨.foreign stays, owner'.trans owner.symm, structs'.trans structs.symm, callbacks⟩

end Commons
end RlboxDynamic.ConcurrentAllocation
