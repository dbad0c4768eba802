import RlboxDynamic.Ownership

/-! Allocation routing. While only live allocations are freed, the registries,
the two heaps and the client's allocations stay in step: every block and every
scratch is held by exactly one live allocation, and a free gives back exactly
the two blocks its malloc obtained. -/
namespace RlboxDynamic
open Transition

variable {t : Target} {D π : Type}

/-- A pointer that is freed names a live allocation. Freeing null is a no-op. -/
def FreesLive (live : KeyMap (TPointer t) (LiveAlloc t)) : MetaOp t D → Prop
  | .free p => p ≠ 0#t.ptrBits → ∃ k a, live.lookup k = some a ∧ Spells p k
  | _ => True

/-- A step of a client that frees only what it holds, over allocators that
keep their contract and answer with addresses of their own. -/
def RoutedStep [Millis D] (total : Nat) (policy : MetaPolicyFn t D π)
    (w : MetaWorld t D π) (op : MetaOp t D) (w' : MetaWorld t D π) : Prop :=
  ∃ calls returned, w.exec policy op = some ⟨calls, returned, w'⟩ ∧ w.heaps.Allows calls ∧
    AnswersFrom total op ∧ FreesLive w.live op

/-! ## Blocks of the two heaps -/

/-- An address of either heap. -/
inductive BlockAddress (t : Target) where
  | wasm (raw : WasmPointer)
  | process (p : TPointer t)
  deriving DecidableEq

/-- The block a call gave out. -/
def BackendCall.granted : BackendCall t → Option (BlockAddress t × SizeT t)
  | .wasmMalloc n raw => if raw = 0#32 then none else some (.wasm raw, n)
  | .processMalloc n p => if p = 0#t.ptrBits then none else some (.process p, n)
  | _ => none

theorem BackendCall.granted_cases {c : BackendCall t} {y : BlockAddress t} {n : SizeT t}
    (granted : c.granted = some (y, n)) :
    (∃ raw, c = .wasmMalloc n raw ∧ raw ≠ 0#32 ∧ y = .wasm raw) ∨
      ∃ p, c = .processMalloc n p ∧ p ≠ 0#t.ptrBits ∧ y = .process p := by
  unfold BackendCall.granted at granted
  split at granted
  next size raw =>
    split at granted
    next => cases granted
    next nonzero => cases granted; exact .inl ⟨raw, rfl, nonzero, rfl⟩
  next size p =>
    split at granted
    next => cases granted
    next nonzero => cases granted; exact .inr ⟨p, rfl, nonzero, rfl⟩
  next => cases granted

/-- The address a call gave back. -/
def BackendCall.released : BackendCall t → Option (BlockAddress t)
  | .wasmFree raw => some (.wasm raw)
  | .processFree p => some (.process p)
  | _ => none

namespace Heaps
variable {h : Heaps t} {c : BackendCall t} {calls : List (BackendCall t)} {x y : BlockAddress t}
  {n : SizeT t}

/-- The length of the live block at an address. -/
def blockAt (h : Heaps t) : BlockAddress t → Option (SizeT t)
  | .wasm raw => h.wasm.lookup raw
  | .process p => h.process.lookup p

theorem blockAt_grant (granted : c.granted = some (y, n)) :
    (h.apply c).blockAt x = if x = y then some n else h.blockAt x := by
  obtain ⟨raw, rfl, nonzero, rfl⟩ | ⟨p, rfl, nonzero, rfl⟩ := BackendCall.granted_cases granted
  · cases x <;> simp [apply, nonzero, blockAt, KeyMap.lookup_insert]
  · cases x <;> simp [apply, nonzero, blockAt, KeyMap.lookup_insert]

theorem blockAt_release (released : c.released = some y) :
    (h.apply c).blockAt x = if x = y then none else h.blockAt x := by
  unfold BackendCall.released at released
  split at released <;> cases released <;> cases x <;>
    simp [apply, blockAt, KeyMap.lookup_erase]

/-- The contract at its weakest: what is given out was not live. -/
theorem allows_fresh (allowed : h.Allows (c :: calls)) (granted : c.granted = some (y, n)) :
    h.blockAt y = none := by
  obtain ⟨raw, rfl, nonzero, rfl⟩ | ⟨p, rfl, nonzero, rfl⟩ := BackendCall.granted_cases granted
  · exact (allowed.1 nonzero).lookup_base
  · exact (allowed.1 nonzero).lookup_base

theorem allows_of_append {more : List (BackendCall t)} (allowed : h.Allows (calls ++ more)) :
    h.Allows calls := by
  induction calls generalizing h with
  | nil => trivial
  | cons c rest ih => exact ⟨allowed.1, ih allowed.2⟩

/-- Blocks given out one after the other join the heap, were not in it before,
and are different blocks. -/
theorem blockAt_grants {blocks : List (BlockAddress t × SizeT t)}
    (given : calls.map BackendCall.granted = blocks.map some) (allowed : h.Allows calls) :
    (∀ x n, (h.applyAll calls).blockAt x = some n ↔ (x, n) ∈ blocks ∨ h.blockAt x = some n) ∧
      (∀ x n, (x, n) ∈ blocks → h.blockAt x = none) ∧ (blocks.map Prod.fst).Nodup := by
  induction calls generalizing h blocks with
  | nil =>
    cases blocks with
    | nil => simp [applyAll]
    | cons => cases given
  | cons c rest ih =>
    cases blocks with
    | nil => cases given
    | cons block blocks =>
      obtain ⟨y, m⟩ := block
      simp only [List.map_cons, List.cons.injEq] at given
      have fresh := allows_fresh allowed given.1
      obtain ⟨after, missing, distinct⟩ := ih given.2 allowed.2
      have outside : ∀ x n, (x, n) ∈ blocks → x ≠ y := by
        rintro x n inside rfl
        have vacant := missing _ n inside
        simp [blockAt_grant given.1] at vacant
      refine ⟨fun x n => ?_, fun x n inside => ?_, ?_⟩
      · rw [applyAll, List.foldl_cons, ← applyAll, after x n, blockAt_grant given.1]
        by_cases same : x = y
        · subst same
          have elsewhere : (x, n) ∉ blocks := fun inside => outside x n inside rfl
          simp [fresh, elsewhere, eq_comm]
        · simp [same]
      · rcases List.mem_cons.mp inside with first | later
        · cases first
          exact fresh
        · have vacant := missing x n later
          rwa [blockAt_grant given.1, if_neg (outside x n later)] at vacant
      · rw [List.map_cons, List.nodup_cons]
        refine ⟨fun inside => ?_, distinct⟩
        obtain ⟨⟨x, n⟩, later, rfl⟩ := List.mem_map.mp inside
        exact outside x n later rfl

theorem blockAt_releases {xs : List (BlockAddress t)}
    (given : calls.map BackendCall.released = xs.map some) :
    (h.applyAll calls).blockAt x = if x ∈ xs then none else h.blockAt x := by
  induction calls generalizing h xs with
  | nil =>
    cases xs with
    | nil => simp [applyAll]
    | cons => cases given
  | cons c rest ih =>
    cases xs with
    | nil => cases given
    | cons y ys =>
      simp only [List.map_cons, List.cons.injEq] at given
      rw [applyAll, List.foldl_cons, ← applyAll, ih given.2, blockAt_release given.1]
      by_cases same : x = y
      · simp [same]
      · simp [same]

/-- Different live blocks can be given back one after the other. -/
theorem releasesAll_of_live {xs : List (BlockAddress t)}
    (given : calls.map BackendCall.released = xs.map some) (distinct : xs.Nodup)
    (live : ∀ x ∈ xs, h.blockAt x ≠ none) : h.ReleasesAll calls := by
  induction calls generalizing h xs with
  | nil => trivial
  | cons c rest ih =>
    cases xs with
    | nil => cases given
    | cons y ys =>
      simp only [List.map_cons, List.cons.injEq] at given
      obtain ⟨outside, distinct⟩ := List.nodup_cons.mp distinct
      refine ⟨?_, ih given.2 distinct fun x inside => ?_⟩
      · have held := live y List.mem_cons_self
        cases c <;> cases given.1 <;> exact held
      · have elsewhere : x ≠ y := fun same => outside (same ▸ inside)
        rw [blockAt_release given.1, if_neg elsewhere]
        exact live x (List.mem_cons_of_mem _ inside)

end Heaps

namespace LiveAlloc
variable {a : LiveAlloc t}

/-- What `struct_allocs` holds for the allocation. -/
def structInfo (a : LiveAlloc t) : Option MetaStructAllocInfo :=
  if a.scratch = 0#32 then none else some ⟨a.scratch, a.translator⟩

/-- Its own block, and its scratch where it has one. -/
def blocks (a : LiveAlloc t) : List (BlockAddress t × SizeT t) :=
  (match a.owner with
    | .wasm => (.wasm (narrow a.base), a.size)
    | .process => (.process a.base, a.size)) ::
  (match a.structType with
    | none => []
    | some info => if a.scratch = 0#32 then [] else [(.wasm a.scratch, info.wasmSize)])

/-- The calls that give an allocation back. -/
def giveBack (a : LiveAlloc t) : List (BackendCall t) := a.releaseScratch ++ [a.release]

theorem Checked.narrow_ne_zero (checked : a.Checked) (wasm : a.owner = .wasm) :
    narrow a.base ≠ 0#32 := by
  intro null
  have base := checked.wasmNarrow wasm
  rw [null] at base
  exact checked.nonNull (by rw [← base]; simp)

theorem Checked.obtain_granted (checked : a.Checked) :
    a.obtain.map BackendCall.granted = a.blocks.map some := by
  unfold obtain obtainBlock obtainScratch blocks
  rw [List.map_cons, List.map_cons]
  congr 1
  · cases side : a.owner with
    | wasm => simp [BackendCall.granted, checked.narrow_ne_zero side]
    | process => simp [BackendCall.granted, checked.nonNull]
  · cases a.structType with
    | none => rfl
    | some info => by_cases none : a.scratch = 0#32 <;> simp [none, BackendCall.granted]

theorem Checked.giveBack_released (checked : a.Checked) :
    a.giveBack.map BackendCall.released = (a.blocks.map Prod.fst).reverse.map some := by
  unfold giveBack releaseScratch release blocks
  by_cases none : a.scratch = 0#32
  · cases a.owner <;> cases a.structType <;> simp [none, BackendCall.released]
  · obtain ⟨info, shape⟩ := Option.ne_none_iff_exists'.mp (checked.scratchTyped none)
    cases a.owner <;> simp [none, shape, BackendCall.released]

end LiveAlloc

/-! ## The routing invariant -/

/-- Registries, heaps and live allocations in step. -/
structure Ledger.Routed (total : Nat) (l : Ledger t) : Prop where
  owned : l.Owned
  placed : l.Placed total
  tagFree : TagFree t total
  structs : ∀ k, l.structs.lookup k = (l.live.lookup k).bind LiveAlloc.structInfo
  heap : ∀ x n, l.heaps.blockAt x = some n ↔ ∃ k a, l.live.lookup k = some a ∧ (x, n) ∈ a.blocks
  apart : ∀ {k j a b x n m}, l.live.lookup k = some a → l.live.lookup j = some b →
    (x, n) ∈ a.blocks → (x, m) ∈ b.blocks → k = j
  distinct : ∀ {k a}, l.live.lookup k = some a → (a.blocks.map Prod.fst).Nodup

namespace Ledger
variable {total : Nat} {l l' : Ledger t} {k p key : TPointer t} {a : LiveAlloc t}
  {owner : MetaBackend}

/-- A block that was just given out belongs to no live allocation, so its key
is new. -/
theorem Routed.key_fresh (routed : l.Routed total) (checked : a.Checked)
    (inMemory : a.owner = .wasm → a.base.toNat < total)
    (missing : ∀ x n, (x, n) ∈ a.blocks → l.heaps.blockAt x = none) :
    l.live.lookup a.key = none := by
  cases held : l.live.lookup a.key with
  | none => rfl
  | some b =>
    have base : a.base = b.base := by
      rw [← checked.strip_key routed.tagFree inMemory, routed.owned.strip_key routed.placed routed.tagFree held]
    have owner : a.owner = b.owner := by
      have left := checked.tagged_key
      have right := routed.owned.tagged_iff_wasm held
      rw [left] at right
      cases mine : a.owner <;> cases theirs : b.owner <;> simp_all
    have own : ∃ x, (x, a.size) ∈ a.blocks ∧ (x, b.size) ∈ b.blocks := by
      unfold LiveAlloc.blocks
      rw [owner, base]
      cases b.owner <;> exact ⟨_, List.mem_cons_self, List.mem_cons_self⟩
    obtain ⟨x, mine, theirs⟩ := own
    have occupied := (routed.heap x b.size).mpr ⟨_, b, held, theirs⟩
    rw [missing x _ mine] at occupied
    cases occupied

/-- A new allocation keeps the invariant. -/
theorem Routed.allocate (routed : l.Routed total) (checked : a.Checked)
    (inMemory : a.owner = .wasm → a.base.toNat < total)
    (above : a.owner = .process → total ≤ a.base.toNat)
    (scratch : InWasm total a.scratch) (allowed : l.heaps.Allows a.obtain) :
    (l.allocate a).Routed total := by
  obtain ⟨grown, missing, distinct⟩ := Heaps.blockAt_grants checked.obtain_granted allowed
  have fresh := routed.key_fresh checked inMemory missing
  have old : ∀ {k b x n m}, l.live.lookup k = some b → (x, n) ∈ b.blocks → (x, m) ∉ a.blocks := by
    intro k b x n m held inside mine
    have occupied := (routed.heap x n).mpr ⟨k, b, held, inside⟩
    rw [missing x m mine] at occupied
    cases occupied
  constructor
  case owned => exact routed.owned.allocate checked
  case placed => exact routed.placed.allocate checked inMemory above scratch
  case tagFree => exact routed.tagFree
  case structs =>
    intro k
    rw [lookup_structs_allocate, lookup_live_allocate, routed.structs k]
    by_cases same : k = a.key
    · subst same
      by_cases none : a.scratch = 0#32 <;> simp [fresh, LiveAlloc.structInfo, none]
    · rw [if_neg fun new => same new.1, if_neg same]
  case heap =>
    intro x n
    show (l.heaps.applyAll a.obtain).blockAt x = some n ↔ _
    rw [grown x n, routed.heap x n]
    constructor
    · rintro (mine | ⟨k, b, held, inside⟩)
      · exact ⟨a.key, a, AList.lookup_insert _, mine⟩
      · refine ⟨k, b, ?_, inside⟩
        have other : k ≠ a.key := by
          rintro rfl
          rw [fresh] at held
          cases held
        rw [← held]
        exact AList.lookup_insert_ne other
    · rintro ⟨k, b, held, inside⟩
      rcases lookup_allocate held with ⟨-, rfl⟩ | ⟨-, held⟩
      · exact .inl inside
      · exact .inr ⟨k, b, held, inside⟩
  case apart =>
    intro k j b c x n m heldB heldC inB inC
    rcases lookup_allocate heldB with ⟨newB, rfl⟩ | ⟨-, oldB⟩
    · rcases lookup_allocate heldC with ⟨newC, -⟩ | ⟨-, oldC⟩
      · rw [newB, newC]
      · exact absurd inB (old oldC inC)
    · rcases lookup_allocate heldC with ⟨-, rfl⟩ | ⟨-, oldC⟩
      · exact absurd inC (old oldB inB)
      · exact routed.apart oldB oldC inB inC
  case distinct =>
    intro k b held
    rcases lookup_allocate held with ⟨-, rfl⟩ | ⟨-, held⟩
    · exact distinct
    · exact routed.distinct held

/-- A pointer the invoke hands out is registered, and nothing else changes. -/
theorem Routed.handOut (routed : l.Routed total) (wasmTagged : owner = .wasm → Tagged p)
    (above : owner = .process → total ≤ p.toNat) : (l.handOut p owner).Routed total where
  owned := routed.owned.handOut wasmTagged
  placed := routed.placed.handOut wasmTagged above
  tagFree := routed.tagFree
  structs := routed.structs
  heap := routed.heap
  apart := routed.apart
  distinct := routed.distinct

/-- Either spelling of a live key is freed under that key and its owner. -/
theorem Routed.freedAs_live (routed : l.Routed total) (held : l.live.lookup k = some a)
    (spells : Spells p k) (freed : l.FreedAs p key owner) :
    key = k ∧ owner = a.owner ∧ l.denotedKey p = k := by
  have recorded := routed.owned.owners held
  -- a pointer with an entry of its own is freed as itself
  have direct : p = k → key = k ∧ owner = a.owner ∧ l.denotedKey p = k := by
    rintro rfl
    have denoted : l.denotedKey p = p := if_pos (AList.lookup_isSome.mp (by rw [held]; rfl))
    cases freed with
    | own found => exact ⟨rfl, Option.some.inj (found.symm.trans recorded), denoted⟩
    | tagged missing => rw [recorded] at missing; cases missing
    | unknown missing => rw [recorded] at missing; cases missing
  rcases spells with same | stripped
  · exact direct same
  · by_cases tagged : Tagged k
    · subst stripped
      have missing := routed.owned.lookup_untagged routed.placed held tagged
      have notLive : tagStrip k ∉ l.live := by
        intro inside
        obtain ⟨b, found⟩ := Option.isSome_iff_exists.mp (AList.lookup_isSome.mpr inside)
        rw [routed.owned.owners found] at missing
        cases missing
      have back := tagWasm_strip_of_tagged tagged
      have denoted : l.denotedKey (tagStrip k) = k := by rw [denotedKey, if_neg notLive, back]
      cases freed with
      | own found => rw [missing] at found; cases found
      | tagged _ _ found =>
        rw [back] at found ⊢
        exact ⟨rfl, Option.some.inj (found.symm.trans recorded), denoted⟩
      | unknown _ alsoMissing => rw [back, recorded] at alsoMissing; cases alsoMissing
    · exact direct (stripped.trans (tagStrip_eq_self.mpr tagged))

/-- The calls of a live allocation's free are those that give it back. -/
theorem Routed.freeCalls_live (routed : l.Routed total) (held : l.live.lookup k = some a) :
    l.freeCalls k a.owner = a.giveBack := by
  have scratch : l.scratchAt k = a.scratch := by
    rw [scratchAt, routed.structs k, held]
    by_cases none : a.scratch = 0#32 <;> simp [LiveAlloc.structInfo, none]
  unfold freeCalls
  rw [scratch, routed.owned.strip_key routed.placed routed.tagFree held]
  rfl

/-- Freeing a live allocation keeps the invariant. -/
theorem Routed.free (routed : l.Routed total) (held : l.live.lookup k = some a)
    (spells : Spells p k) (freed : l.FreedAs p key owner) : (l.free p key owner).Routed total := by
  have owned := routed.owned.free freed
  have entry : ∀ {j b}, (l.free p key owner).live.lookup j = some b →
      j ≠ key ∧ l.live.lookup j = some b := fun found => routed.owned.lookup_free freed found
  obtain ⟨rfl, rfl, denoted⟩ := routed.freedAs_live held spells freed
  have shrunk : ∀ x, (l.heaps.applyAll (l.freeCalls key a.owner)).blockAt x =
      if x ∈ a.blocks.map Prod.fst then none else l.heaps.blockAt x := by
    intro x
    rw [routed.freeCalls_live held,
      Heaps.blockAt_releases (routed.owned.checked held).giveBack_released]
    simp only [List.mem_reverse]
  constructor
  case owned => exact owned
  case placed => exact routed.placed.free
  case tagFree => exact routed.tagFree
  case structs =>
    intro j
    rw [lookup_structs_free, lookup_live_free, denoted]
    by_cases same : j = key
    · rw [if_pos same, if_pos same]
      rfl
    · rw [if_neg same, if_neg same, routed.structs j]
  case heap =>
    intro x n
    show (l.heaps.applyAll (l.freeCalls key a.owner)).blockAt x = some n ↔ _
    rw [shrunk x]
    constructor
    · intro found
      split at found
      · cases found
      · rename_i outside
        obtain ⟨j, b, live, inside⟩ := (routed.heap x n).mp found
        refine ⟨j, b, ?_, inside⟩
        have other : j ≠ key := by
          rintro rfl
          rw [held] at live
          cases live
          exact outside (List.mem_map.mpr ⟨_, inside, rfl⟩)
        rw [lookup_live_free, denoted, if_neg other, live]
    · rintro ⟨j, b, live, inside⟩
      obtain ⟨other, live⟩ := entry live
      have outside : x ∉ a.blocks.map Prod.fst := by
        intro mine
        obtain ⟨⟨y, m⟩, own, rfl⟩ := List.mem_map.mp mine
        exact other (routed.apart live held inside own)
      rw [if_neg outside]
      exact (routed.heap x n).mpr ⟨j, b, live, inside⟩
  case apart => exact fun left right => routed.apart (entry left).2 (entry right).2
  case distinct => exact fun found => routed.distinct (entry found).2

end Ledger

section Runs
variable [Millis D] {total : Nat} {policy : MetaPolicyFn t D π} {start : π}
  {w w' : MetaWorld t D π} {op : MetaOp t D} {ops : List (MetaOp t D)}

omit [Millis D] in
theorem routed_initial (free : TagFree t total) : (MetaWorld.initial start : MetaWorld t D π).ledger.Routed total where
  owned := owned_initial
  placed := placed_initial
  tagFree := free
  structs _ := rfl
  heap x n := by
    constructor
    · intro found
      cases x <;> cases found
    · rintro ⟨k, a, held, -⟩
      cases held
  apart held := by cases held
  distinct held := by cases held

theorem step_routed (routed : w.ledger.Routed total) (step : RoutedStep total policy w op w') :
    w'.ledger.Routed total := by
  obtain ⟨calls, returned, ran, allowed, answers, freesLive⟩ := step
  have taken := step_ledger ran
  generalize w'.ledger = next at taken
  cases taken with
  | quiet => exact routed
  | allocate a checked answered scratchAnswered refused =>
    obtain ⟨inMemory, above, scratch⟩ := answers.allocation checked answered scratchAnswered
    exact routed.allocate checked inMemory above scratch (Heaps.allows_of_append allowed)
  | free nonNull freed =>
    obtain ⟨k, a, held, spells⟩ := freesLive nonNull
    exact routed.free held spells freed
  | handOut nonNull still wasmTagged answered =>
    refine routed.handOut wasmTagged fun side => ?_
    have address := answered side
    subst address
    exact answers nonNull

theorem run_routed (free : TagFree t total) (run : Run (RoutedStep total policy) (.initial start) ops w) :
    w.ledger.Routed total :=
  run.invariant (routed_initial free) fun _ _ _ routed step => step_routed routed step

/-- What the free of one live allocation does: it gives back its block and its
scratch, both live, and drops its own registry entries; every other allocation
keeps its owner and its scratch. -/
structure FreedExactly (w : MetaWorld t D π) (k : TPointer t) (a : LiveAlloc t)
    (w' : MetaWorld t D π) : Prop where
  releases : w.heaps.ReleasesAll a.giveBack
  gone : ∀ x n, (x, n) ∈ a.blocks → w'.heaps.blockAt x = none
  owners : w'.sandbox.allocOwner = w.sandbox.allocOwner.erase k
  structs : w'.sandbox.structAllocs = w.sandbox.structAllocs.erase k
  live : w'.live = w.live.erase k
  others : ∀ j b, j ≠ k → w.live.lookup j = some b →
    w'.live.lookup j = some b ∧ w'.sandbox.allocOwner.lookup j = some b.owner ∧
      w'.sandbox.getStructScratch j = b.scratch

omit [Millis D] in
theorem recorded_of_routed (routed : w.ledger.Routed total) {k : TPointer t} {a : LiveAlloc t}
    (held : w.live.lookup k = some a) :
    w.sandbox.allocOwner.lookup k = some a.owner ∧ w.sandbox.getStructScratch k = a.scratch := by
  refine ⟨routed.owned.owners held, ?_⟩
  have recorded : w.sandbox.structAllocs.lookup k = a.structInfo := by
    rw [← Option.bind_some (f := LiveAlloc.structInfo) (a := a), ← held]
    exact routed.structs k
  unfold MetaSandbox.getStructScratch
  rw [recorded]
  by_cases none : a.scratch = 0#32 <;> simp [LiveAlloc.structInfo, none]

theorem free_exactly (routed : w.ledger.Routed total) {k p : TPointer t} {a : LiveAlloc t}
    (held : w.live.lookup k = some a) (spells : Spells p k) :
    ∃ w', w.exec policy (.free p) = some ⟨a.giveBack, none, w'⟩ ∧ FreedExactly w k a w' := by
  have checked := routed.owned.checked held
  have nonNull : p ≠ 0#t.ptrBits := by
    rcases spells with rfl | rfl
    · rw [routed.owned.keyed held]
      exact checked.key_ne_zero
    · rw [routed.owned.strip_key routed.placed routed.tagFree held]
      exact checked.nonNull
  cases effect : w.execFree p with
  | mk calls returned w' =>
    obtain ⟨rfl, ⟨null, -⟩ | ⟨-, key, owner, freed, made, after⟩⟩ := execFree_ok effect
    · exact absurd null nonNull
    have kept := routed.free held spells freed
    obtain ⟨rfl, rfl, denoted⟩ := routed.freedAs_live held spells freed
    rw [routed.freeCalls_live held] at made
    subst made
    refine ⟨w', congrArg some effect, ?_⟩
    rw [← after] at kept
    have live : w'.live = w.live.erase key := by
      have erased : w'.ledger.live = w.ledger.live.erase (w.ledger.denotedKey p) := by rw [after]; rfl
      rwa [denoted] at erased
    have heaps : w'.heaps = w.heaps.applyAll a.giveBack := by
      have applied : w'.ledger.heaps = w.ledger.heaps.applyAll (w.ledger.freeCalls key a.owner) := by
        rw [after]; rfl
      rwa [routed.freeCalls_live held] at applied
    constructor
    case releases =>
      refine Heaps.releasesAll_of_live checked.giveBack_released
        (List.nodup_reverse.mpr (routed.distinct held)) fun x inside => ?_
      obtain ⟨⟨y, n⟩, own, rfl⟩ := List.mem_map.mp (List.mem_reverse.mp inside)
      have occupied := (routed.heap y n).mpr ⟨key, a, held, own⟩
      intro vacant
      rw [MetaWorld.ledger, vacant] at occupied
      cases occupied
    case gone =>
      intro x n own
      rw [heaps, Heaps.blockAt_releases checked.giveBack_released, if_pos]
      exact List.mem_reverse.mpr (List.mem_map.mpr ⟨_, own, rfl⟩)
    case owners => exact congrArg Ledger.owners after
    case structs => exact congrArg Ledger.structs after
    case live => exact live
    case others =>
      intro j b other found
      have still : w'.live.lookup j = some b := by
        rw [live, ← found]
        exact AList.lookup_erase_ne other
      exact ⟨still, recorded_of_routed kept still⟩

/-- Along every such run the heaps hold exactly the blocks of the live
allocations, the registries know each one's owner and scratch, and a free,
whichever way its pointer is spelled, gives back exactly what the malloc
obtained. -/
theorem allocation_routing (free : TagFree t total) (run : Run (RoutedStep total policy) (.initial start) ops w) :
    (∀ x n, w.heaps.blockAt x = some n ↔
        ∃ k a, w.live.lookup k = some a ∧ (x, n) ∈ a.blocks) ∧
      (∀ k a, w.live.lookup k = some a →
        w.sandbox.allocOwner.lookup k = some a.owner ∧ w.sandbox.getStructScratch k = a.scratch) ∧
      (∀ size answers calls p w', w.exec policy (.malloc size answers) = some ⟨calls, some p, w'⟩ →
        ∃ a, w'.live.lookup p = some a ∧ calls.filterMap BackendCall.granted = a.blocks) ∧
      ∀ k a p, w.live.lookup k = some a → Spells p k →
        ∃ w', w.exec policy (.free p) = some ⟨a.giveBack, none, w'⟩ ∧ FreedExactly w k a w' := by
  have routed := run_routed free run
  refine ⟨routed.heap, fun k a held => recorded_of_routed routed held, ?_,
    fun k a p held spells => free_exactly routed held spells⟩
  intro size answers calls p w' ran
  have taken := (execMalloc_ok ran).1
  generalize after : w'.ledger = next at taken
  cases taken with
  | allocate a checked answered scratchAnswered refused =>
    refine ⟨a, ?_, ?_⟩
    · have live : w'.live = w.live.insert a.key a := congrArg Ledger.live after
      rw [live]
      exact AList.lookup_insert _
    · have own : a.obtain.filterMap BackendCall.granted = a.blocks := by
        have mapped : a.obtain.filterMap BackendCall.granted =
            (a.obtain.map BackendCall.granted).filterMap id := by rw [List.filterMap_map]; rfl
        rw [mapped, checked.obtain_granted, List.filterMap_map]
        exact List.filterMap_some
      rcases refused with rfl | ⟨n, rfl⟩
      · rw [List.append_nil, own]
      · rw [List.filterMap_append, own]
        simp [BackendCall.granted]

end Runs

/-- One struct allocation on wasm, freed by the untagged offset. -/
theorem allocation_routing_untagged :
    ∃ w w' : MetaWorld .i386 Int Unit, (w.live.lookup 0x80000010#32).isSome ∧
      w.exec (fun _ _ => (.wasm, ())) (.free 0x10#32) =
        some ⟨[.wasmFree 0x20#32, .wasmFree 0x10#32], none, w'⟩ ∧ w'.heaps.blockAt (.wasm 0x20#32) = none := by
  let policy : MetaPolicyFn .i386 Int Unit := fun _ _ => (.wasm, ())
  let info : MetaStructTypeInfo .i386 := ⟨"lib:pair", 8#32, 4#32, some ⟨"lib", "pair"⟩⟩
  let answers : MallocAnswers .i386 := ⟨0x10#32, 0#32, 0x20#32⟩
  let a : LiveAlloc .i386 := ⟨.wasm, 0x10#32, 8#32, some info, 0x20#32⟩
  have run : Run (RoutedStep 0x10000 policy) (.initial ()) [.registerStructType info, .malloc 8#32 answers] _ :=
    .cons ⟨_, _, rfl, trivial, trivial, trivial⟩
      (.cons ⟨_, _, rfl, by decide, by decide, trivial⟩ .nil)
  obtain ⟨-, -, -, frees⟩ := allocation_routing ⟨0x10000#32, by decide, by decide⟩ run
  obtain ⟨w', ran, exactly⟩ := frees 0x80000010#32 a 0x10#32 (by decide) (.inr (by decide))
  exact ⟨_, w', by decide, ran, exactly.gone _ 4#32 (by decide)⟩

end RlboxDynamic
