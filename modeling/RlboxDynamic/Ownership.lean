import RlboxDynamic.MetaSteps

/-! What the registries know of the allocations a client holds. The first
invariant holds along every run at all, whatever is freed and whatever the
backends answer; the second one needs addresses that lie where the sources
expect them. -/
namespace RlboxDynamic
open Transition

variable {t : Target} {D π : Type}

/-- A wasm offset lies below wasm's total memory. -/
def InWasm (total : Nat) (raw : WasmPointer) : Prop := raw ≠ 0#32 → raw.toNat < total

/-- A process address lies at or above wasm's total memory. -/
def AboveWasm (total : Nat) (p : TPointer t) : Prop := p ≠ 0#t.ptrBits → total ≤ p.toNat

instance (total : Nat) (raw : WasmPointer) : Decidable (InWasm total raw) :=
  inferInstanceAs (Decidable (_ → _))

instance (total : Nat) (p : TPointer t) : Decidable (AboveWasm total p) :=
  inferInstanceAs (Decidable (_ → _))

/-- The backends answer an operation with addresses of their own. -/
def AnswersFrom (total : Nat) : MetaOp t D → Prop
  | .malloc _ answers =>
    InWasm total answers.wasm ∧ InWasm total answers.scratch ∧ AboveWasm total answers.process
  | .leave _ answer _ => AboveWasm total answer.process
  | _ => True

instance (total : Nat) (op : MetaOp t D) : Decidable (AnswersFrom total op) := by
  cases op <;> unfold AnswersFrom <;> infer_instance

/-- Some address at or above wasm's total memory has no tag bit, as a process
address has none. Wasm offsets then leave the bit free as well. -/
def TagFree (t : Target) (total : Nat) : Prop := ∃ address : TPointer t, ¬ Tagged address ∧ total ≤ address.toNat

theorem TagFree.not_tagged {total : Nat} (free : TagFree t total) {p : TPointer t}
    (inMemory : p.toNat < total) : ¬ Tagged p := by
  obtain ⟨address, untagged, above⟩ := free
  have clear := not_tagged_iff.mp untagged
  rw [BitVec.msb_eq_false_iff_two_mul_lt] at clear
  exact not_tagged_of_lt (by omega)

namespace LiveAlloc
variable {a : LiveAlloc t}

theorem Checked.tagged_key (checked : a.Checked) : Tagged a.key ↔ a.owner = .wasm := by
  unfold key
  cases side : a.owner with
  | wasm => simp
  | process => simp [checked.processUntagged side]

theorem Checked.process_of_untagged (checked : a.Checked) (clear : ¬ Tagged a.key) :
    a.owner = .process := by
  cases side : a.owner with
  | process => rfl
  | wasm => exact absurd (checked.tagged_key.mpr side) clear

/-- Where wasm offsets leave the tag bit free, the key's address is the block's. -/
theorem Checked.strip_key {total : Nat} (checked : a.Checked) (free : TagFree t total)
    (inMemory : a.owner = .wasm → a.base.toNat < total) : tagStrip a.key = a.base := by
  unfold key
  cases side : a.owner with
  | wasm =>
    have low := free.not_tagged (inMemory side)
    rw [tagStrip_tagWasm, tagStrip_eq_self]
    exact low
  | process =>
    rw [tagStrip_eq_self]
    exact checked.processUntagged side

end LiveAlloc

/-- Every allocation is registered under its key, with its scratch if it has
one; the struct registry has no key the ownership registry lacks and no null
scratch; only process owns an untagged key. -/
structure Ledger.Owned (l : Ledger t) : Prop where
  keyed : ∀ {k a}, l.live.lookup k = some a → k = a.key
  checked : ∀ {k a}, l.live.lookup k = some a → a.Checked
  owners : ∀ {k a}, l.live.lookup k = some a → l.owners.lookup k = some a.owner
  scratch : ∀ {k a}, l.live.lookup k = some a → a.scratch ≠ 0#32 →
    l.structs.lookup k = some ⟨a.scratch, a.translator⟩
  structKeys : ∀ {k info}, l.structs.lookup k = some info → ∃ o, l.owners.lookup k = some o
  structScratch : ∀ {k info}, l.structs.lookup k = some info → info.wasmScratch ≠ 0#32
  untagged : ∀ {k o}, l.owners.lookup k = some o → ¬ Tagged k → o = .process

/-- Wasm blocks and scratches lie in wasm's memory, and an untagged key of the
ownership registry lies above it. -/
structure Ledger.Placed (total : Nat) (l : Ledger t) : Prop where
  inMemory : ∀ {k a}, l.live.lookup k = some a → a.owner = .wasm → a.base.toNat < total
  scratchInMemory : ∀ {k a}, l.live.lookup k = some a → InWasm total a.scratch
  high : ∀ {k o}, l.owners.lookup k = some o → ¬ Tagged k → total ≤ k.toNat

namespace Ledger
variable {total : Nat} {l l' : Ledger t} {k p key : TPointer t} {a : LiveAlloc t}
  {owner : MetaBackend}

/-- An entry after an insert is the new one, or one of another key. -/
theorem lookup_allocate {b : LiveAlloc t} (held : (l.allocate a).live.lookup k = some b) :
    (k = a.key ∧ b = a) ∨ (k ≠ a.key ∧ l.live.lookup k = some b) := by
  rw [lookup_live_allocate] at held
  by_cases same : k = a.key
  · rw [if_pos same] at held
    exact .inl ⟨same, (Option.some.inj held).symm⟩
  · rw [if_neg same] at held
    exact .inr ⟨same, held⟩

theorem Owned.allocate (owned : l.Owned) (checked : a.Checked) : (l.allocate a).Owned where
  keyed held := by
    rcases lookup_allocate held with ⟨rfl, rfl⟩ | ⟨-, held⟩
    · rfl
    · exact owned.keyed held
  checked held := by
    rcases lookup_allocate held with ⟨-, rfl⟩ | ⟨-, held⟩
    · exact checked
    · exact owned.checked held
  owners := by
    intro k b held
    rw [lookup_owners_allocate]
    rcases lookup_allocate held with ⟨rfl, rfl⟩ | ⟨other, held⟩
    · rw [if_pos rfl]
    · rw [if_neg other]
      exact owned.owners held
  scratch := by
    intro k b held nonzero
    rw [lookup_structs_allocate]
    rcases lookup_allocate held with ⟨rfl, rfl⟩ | ⟨other, held⟩
    · rw [if_pos ⟨rfl, nonzero⟩]
    · rw [if_neg fun new => other new.1]
      exact owned.scratch held nonzero
  structKeys := by
    intro k info found
    rw [lookup_structs_allocate] at found
    rw [lookup_owners_allocate]
    by_cases same : k = a.key
    · rw [if_pos same]
      exact ⟨_, rfl⟩
    · rw [if_neg fun new => same new.1] at found
      rw [if_neg same]
      exact owned.structKeys found
  structScratch := by
    intro k info found
    rw [lookup_structs_allocate] at found
    split at found
    next new =>
      cases found
      exact new.2
    next => exact owned.structScratch found
  untagged := by
    intro k o found clear
    rw [lookup_owners_allocate] at found
    split at found
    next same =>
      cases found
      subst same
      exact checked.process_of_untagged clear
    next => exact owned.untagged found clear

theorem Owned.handOut (owned : l.Owned) (wasmTagged : owner = .wasm → Tagged p) :
    (l.handOut p owner).Owned where
  keyed := owned.keyed
  checked := owned.checked
  owners held := KeyMap.lookup_emplace_of_some (owned.owners held)
  scratch := owned.scratch
  structKeys found := by
    obtain ⟨o, recorded⟩ := owned.structKeys found
    exact ⟨o, KeyMap.lookup_emplace_of_some recorded⟩
  structScratch := owned.structScratch
  untagged := by
    intro k o found clear
    rw [lookup_owners_handOut] at found
    split at found
    · rename_i same
      subst same
      cases before : l.owners.lookup k with
      | none =>
        rw [before] at found
        cases found
        cases owner with
        | process => rfl
        | wasm => exact absurd (wasmTagged rfl) clear
      | some u =>
        rw [before] at found
        cases found
        exact owned.untagged before clear
    · exact owned.untagged found clear

/-- A free never takes an entry from an allocation that stays. -/
theorem Owned.lookup_free (owned : l.Owned) (freed : l.FreedAs p key owner)
    (held : (l.free p key owner).live.lookup k = some a) : k ≠ key ∧ l.live.lookup k = some a := by
  rw [lookup_live_free] at held
  split at held
  · cases held
  rename_i other
  refine ⟨?_, held⟩
  rintro rfl
  have recorded := owned.owners held
  cases freed with
  | own found =>
    refine other (if_pos ?_).symm
    exact AList.lookup_isSome.mp (by rw [held]; rfl)
  | tagged missing =>
    refine other (if_neg fun inside => ?_).symm
    obtain ⟨b, found⟩ := Option.isSome_iff_exists.mp (AList.lookup_isSome.mpr inside)
    rw [owned.owners found] at missing
    cases missing
  | unknown missing =>
    rw [recorded] at missing
    cases missing

theorem Owned.free (owned : l.Owned) (freed : l.FreedAs p key owner) :
    (l.free p key owner).Owned where
  keyed held := owned.keyed (owned.lookup_free freed held).2
  checked held := owned.checked (owned.lookup_free freed held).2
  owners := by
    intro k b held
    obtain ⟨other, held⟩ := owned.lookup_free freed held
    rw [lookup_owners_free, if_neg other]
    exact owned.owners held
  scratch := by
    intro k b held nonzero
    obtain ⟨other, held⟩ := owned.lookup_free freed held
    rw [lookup_structs_free, if_neg other]
    exact owned.scratch held nonzero
  structKeys := by
    intro k info found
    rw [lookup_structs_free] at found
    rw [lookup_owners_free]
    split at found
    · cases found
    · rename_i other
      rw [if_neg other]
      exact owned.structKeys found
  structScratch := by
    intro k info found
    rw [lookup_structs_free] at found
    split at found
    · cases found
    · exact owned.structScratch found
  untagged := by
    intro k o found clear
    rw [lookup_owners_free] at found
    split at found
    · cases found
    · exact owned.untagged found clear

theorem Placed.allocate (placed : l.Placed total) (checked : a.Checked)
    (inMemory : a.owner = .wasm → a.base.toNat < total)
    (above : a.owner = .process → total ≤ a.base.toNat)
    (scratch : InWasm total a.scratch) : (l.allocate a).Placed total where
  inMemory held := by
    rcases lookup_allocate held with ⟨-, rfl⟩ | ⟨-, held⟩
    · exact inMemory
    · exact placed.inMemory held
  scratchInMemory held := by
    rcases lookup_allocate held with ⟨-, rfl⟩ | ⟨-, held⟩
    · exact scratch
    · exact placed.scratchInMemory held
  high := by
    intro k o held untagged
    rw [lookup_owners_allocate] at held
    by_cases same : k = a.key
    · subst same
      have process := checked.process_of_untagged untagged
      have base : a.key = a.base := by simp [LiveAlloc.key, process]
      rw [base]
      exact above process
    · rw [if_neg same] at held
      exact placed.high held untagged

theorem Placed.handOut (placed : l.Placed total) (wasmTagged : owner = .wasm → Tagged p)
    (above : owner = .process → total ≤ p.toNat) : (l.handOut p owner).Placed total where
  inMemory := placed.inMemory
  scratchInMemory := placed.scratchInMemory
  high := by
    intro k o held untagged
    rw [lookup_owners_handOut] at held
    by_cases same : k = p
    · subst same
      cases owner with
      | wasm => exact absurd (wasmTagged rfl) untagged
      | process => exact above rfl
    · rw [if_neg same] at held
      exact placed.high held untagged

theorem Placed.free (placed : l.Placed total) : (l.free p key owner).Placed total := by
  have entry : ∀ {k a}, (l.free p key owner).live.lookup k = some a → l.live.lookup k = some a := by
    intro k a held
    rw [lookup_live_free] at held
    split at held
    · cases held
    · exact held
  refine ⟨fun held => placed.inMemory (entry held), fun held => placed.scratchInMemory (entry held), ?_⟩
  intro k o held untagged
  rw [lookup_owners_free] at held
  split at held
  · cases held
  · exact placed.high held untagged

/-- Under the address layout a live key's address is the block's. -/
theorem Owned.strip_key (owned : l.Owned) (placed : l.Placed total) (free : TagFree t total)
    (held : l.live.lookup k = some a) : tagStrip k = a.base := by
  have same := (owned.checked held).strip_key free (placed.inMemory held)
  rwa [← owned.keyed held] at same

theorem Owned.tagged_iff_wasm (owned : l.Owned) (held : l.live.lookup k = some a) :
    Tagged k ↔ a.owner = .wasm := by
  have tag := (owned.checked held).tagged_key
  rwa [← owned.keyed held] at tag

/-- The untagged spelling of a live wasm key has no entry of its own. -/
theorem Owned.lookup_untagged (owned : l.Owned) (placed : l.Placed total)
    (held : l.live.lookup k = some a) (tagged : Tagged k) : l.owners.lookup (tagStrip k) = none := by
  have wasm := (owned.tagged_iff_wasm held).mp tagged
  have low := placed.inMemory held wasm
  have key : k = tagWasm a.base := by rw [owned.keyed held, LiveAlloc.key, wasm]
  have below : (tagStrip k).toNat ≤ a.base.toNat := by
    rw [key, tagStrip_tagWasm]
    exact tagStrip_le
  cases found : l.owners.lookup (tagStrip k) with
  | none => rfl
  | some o =>
    have above := placed.high found not_tagged_tagStrip
    omega

end Ledger

section Runs
variable [Millis D] {total : Nat} {policy : MetaPolicyFn t D π} {start : π}
  {w w' : MetaWorld t D π} {op : MetaOp t D} {ops : List (MetaOp t D)}
  {calls : List (BackendCall t)} {returned : Option (TPointer t)}

omit [Millis D] in
theorem owned_initial : (MetaWorld.initial start : MetaWorld t D π).ledger.Owned where
  keyed held := by cases held
  checked held := by cases held
  owners held := by cases held
  scratch held := by cases held
  structKeys found := by cases found
  structScratch found := by cases found
  untagged found := by cases found

omit [Millis D] in
theorem placed_initial : (MetaWorld.initial start : MetaWorld t D π).ledger.Placed total where
  inMemory held := by cases held
  scratchInMemory held := by cases held
  high found := by cases found

theorem step_owned (owned : w.ledger.Owned)
    (ran : w.exec policy op = some ⟨calls, returned, w'⟩) : w'.ledger.Owned := by
  have taken := step_ledger ran
  generalize w'.ledger = next at taken
  cases taken with
  | quiet => exact owned
  | allocate a checked => exact owned.allocate checked
  | free nonNull freed => exact owned.free freed
  | handOut nonNull still wasmTagged => exact owned.handOut wasmTagged

omit [Millis D] in
/-- What an allocation's addresses are, where the backends answer with their own. -/
theorem AnswersFrom.allocation {size : SizeT t} {answers : MallocAnswers t} {a : LiveAlloc t}
    (own : AnswersFrom total (.malloc size answers : MetaOp t D)) (checked : a.Checked)
    (answered : a.base = match a.owner with
      | .wasm => widen t answers.wasm
      | .process => answers.process)
    (scratchAnswered : a.scratch ≠ 0#32 → a.scratch = answers.scratch) :
    (a.owner = .wasm → a.base.toNat < total) ∧
      (a.owner = .process → total ≤ a.base.toNat) ∧ InWasm total a.scratch := by
  obtain ⟨wasm, scratch, process⟩ := own
  refine ⟨fun side => ?_, fun side => ?_, fun nonzero => ?_⟩
  · rw [side] at answered
    rw [answered, widen_toNat]
    refine wasm fun null => checked.nonNull ?_
    rw [answered, null]
    exact widen_eq_zero.mpr rfl
  · rw [side] at answered
    have nonNull := checked.nonNull
    rw [answered] at nonNull ⊢
    exact process nonNull
  · have same := scratchAnswered nonzero
    rw [same] at nonzero ⊢
    exact scratch nonzero

theorem step_placed (placed : w.ledger.Placed total)
    (ran : w.exec policy op = some ⟨calls, returned, w'⟩) (answers : AnswersFrom total op) :
    w'.ledger.Placed total := by
  have taken := step_ledger ran
  generalize w'.ledger = next at taken
  cases taken with
  | quiet => exact placed
  | allocate a checked answered scratchAnswered =>
    obtain ⟨inMemory, above, scratch⟩ := answers.allocation checked answered scratchAnswered
    exact placed.allocate checked inMemory above scratch
  | free => exact placed.free
  | handOut nonNull still wasmTagged answered =>
    refine placed.handOut wasmTagged fun side => ?_
    have address := answered side
    subst address
    exact answers nonNull

/-- A step over backends that answer with addresses of their own. -/
def PlacedStep (total : Nat) (policy : MetaPolicyFn t D π) :=
  Guarded (fun _ op => AnswersFrom total op) (MetaWorld.Step policy)

theorem run_owned (run : Run (MetaWorld.Step policy) (.initial start) ops w) : w.ledger.Owned :=
  run.invariant owned_initial fun _ _ _ owned ⟨_, _, ran⟩ => step_owned owned ran

theorem run_placed (run : Run (PlacedStep total policy) (.initial start) ops w) :
    w.ledger.Owned ∧ w.ledger.Placed total := by
  refine ⟨run_owned (run.mono fun _ _ _ step => step.2), ?_⟩
  exact run.invariant placed_initial fun _ _ _ placed ⟨answers, _, _, ran⟩ =>
    step_placed placed ran answers

end Runs
end RlboxDynamic
