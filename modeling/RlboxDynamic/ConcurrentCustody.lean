import RlboxDynamic.ConcurrentAllocation
import RlboxDynamic.HeapShares

/-! What every interleaving of allocations and frees keeps. A block has one
holder from the allocator's answer to the allocator's call, and only its holder
changes what the registries have of it; so a thread finds them as it left them. -/
namespace RlboxDynamic

namespace LiveAlloc
variable {t : Target} {a b : LiveAlloc t}

/-- Where its own block lies. -/
def address (a : LiveAlloc t) : BlockAddress t :=
  match a.owner with
  | .wasm => .wasm (narrow a.base)
  | .process => .process a.base

def scratchBlock (a : LiveAlloc t) : List (BlockAddress t × SizeT t) :=
  match a.structType with
  | none => []
  | some info => if a.scratch = 0#32 then [] else [(.wasm a.scratch, info.wasmSize)]

theorem blocks_eq : a.blocks = (a.address, a.size) :: a.scratchBlock := by
  unfold blocks address
  cases a.owner <;> rfl

theorem scratchBlock_of_none (bare : a.scratch = 0#32) : a.scratchBlock = [] := by
  unfold scratchBlock
  cases a.structType with
  | none => rfl
  | some info => exact if_pos bare

theorem release_released : a.release.released = some a.address := by
  unfold release address
  cases a.owner <;> rfl

/-- A key stands for one address. -/
theorem Checked.address_of_key {total : Nat} (free : TagFree t total) (left : a.Checked)
    (right : b.Checked) (inMemory : a.owner = .wasm → a.base.toNat < total)
    (inMemory' : b.owner = .wasm → b.base.toNat < total) (same : a.key = b.key) :
    a.address = b.address := by
  have base : a.base = b.base := by
    rw [← left.strip_key free inMemory, same, right.strip_key free inMemory']
  have owner : a.owner = b.owner := by
    have tags := left.tagged_key
    rw [same, right.tagged_key] at tags
    cases mine : a.owner <;> cases theirs : b.owner <;> simp_all
  unfold address
  rw [owner, base]

end LiveAlloc

namespace ConcurrentAllocation
open Transition Interleaving

variable {t : Target} {D π ι : Type}

/-- What `struct_allocs` has of an allocation in custody. -/
def Custody.structEntry (c : Custody t ι) : Option MetaStructAllocInfo :=
  if c.linked then c.alloc.structInfo else none

/-- An allocation in custody: its addresses, its entry in `alloc_owner`, and that
a client's is in both registries. -/
structure Entry (total : Nat) (owners : KeyMap (TPointer t) MetaBackend) (k : TPointer t)
    (c : Custody t ι) : Prop where
  keyed : k = c.alloc.key
  checked : c.alloc.Checked
  inMemory : c.alloc.owner = .wasm → c.alloc.base.toNat < total
  above : c.alloc.owner = .process → total ≤ c.alloc.base.toNat
  scratch : InWasm total c.alloc.scratch
  owned : c.owned = true → owners.lookup k = some c.alloc.owner
  client : c.holder = none →
    c.owned = true ∧ c.stage = .live ∧ c.linked = decide (c.alloc.scratch ≠ 0#32)

/-- An untagged key is a process address. -/
theorem Entry.high {total : Nat} {owners : KeyMap (TPointer t) MetaBackend} {k : TPointer t}
    {c : Custody t ι} (entry : Entry total owners k c) (untagged : ¬ Tagged k) : total ≤ k.toNat := by
  have keyed := entry.keyed
  subst keyed
  have process := entry.checked.process_of_untagged untagged
  have base : c.alloc.key = c.alloc.base := by rw [LiveAlloc.key, process]
  rw [base]
  exact entry.above process

namespace Commons

/-- The blocks a key is in custody with. -/
def share (s : Commons t D π ι) (k : TPointer t) : List (BlockAddress t × SizeT t) :=
  match s.custody.lookup k with
  | none => []
  | some c => c.alloc.blocks

/-- The registries and the heaps are as the custody says. -/
structure Kept (total : Nat) (s : Commons t D π ι) : Prop where
  entries : ∀ {k c}, s.custody.lookup k = some c → Entry total s.sandbox.allocOwner k c
  structs : ∀ k, s.sandbox.structAllocs.lookup k = (s.custody.lookup k).bind Custody.structEntry
  high : ∀ {k o}, s.sandbox.allocOwner.lookup k = some o → ¬ Tagged k → total ≤ k.toNat
  heap : Apportioned s.heaps.blockAt s.share

/-- The one allocation in the custody of a thread. -/
structure Sole (s : Commons t D π ι) (i : ι) (k : TPointer t) (c : Custody t ι) : Prop where
  found : s.custody.lookup k = some c
  mine : c.holder = some i
  only : ∀ {j d}, s.custody.lookup j = some d → d.holder = some i → j = k

/-- What a thread may rely on where it is. -/
def Local (s : Commons t D π ι) (i : ι) : Place t → Prop
  | .idle => ∀ k c, s.custody.lookup k = some c → c.holder ≠ some i
  | .granted size p choice => ∃ a, s.Sole i p ⟨a, false, false, .obtaining, some i⟩ ∧
      a.size = size ∧ a.owner = choice ∧ a.structType = none ∧ a.scratch = 0#32
  | .owned size p => ∃ a, s.Sole i p ⟨a, true, false, .obtaining, some i⟩ ∧
      a.size = size ∧ a.structType = none ∧ a.scratch = 0#32
  | .matched size p wasmSize translator => ∃ a info,
      s.Sole i p ⟨a, true, false, .obtaining, some i⟩ ∧ a.size = size ∧ a.structType = some info ∧
        info.wasmSize = wasmSize ∧ info.translator = translator ∧ a.scratch = 0#32
  | .scratched size p raw translator => ∃ a, s.Sole i p ⟨a, true, false, .obtaining, some i⟩ ∧
      a.size = size ∧ a.scratch = raw ∧ raw ≠ 0#32 ∧ a.translator = translator
  | .freeing p => ∃ k a,
      s.Sole i k ⟨a, true, decide (a.scratch ≠ 0#32), .live, some i⟩ ∧ Spells p k
  | .disowned k owner => ∃ a,
      s.Sole i k ⟨a, false, decide (a.scratch ≠ 0#32), .releasing, some i⟩ ∧ a.owner = owner
  | .releasing k calls => ∃ a,
      s.Sole i k ⟨a, false, false, .releasing, some i⟩ ∧ calls = a.giveBack

section
variable {total : Nat} {s s' : Commons t D π ι} {i j : ι} {k : TPointer t} {c d : Custody t ι}
  {a : LiveAlloc t}

/-- One entry of the custody is another now, or gone; before and after it is the
client's or the thread's. -/
structure Change (s s' : Commons t D π ι) (i : ι) (k : TPointer t) (after : Option (Custody t ι)) :
    Prop where
  at_key : ∀ j, s'.custody.lookup j = if j = k then after else s.custody.lookup j
  before : ∀ c, s.custody.lookup k = some c → c.holder = none ∨ c.holder = some i
  mine : ∀ c, after = some c → c.holder = none ∨ c.holder = some i

theorem Change.at_other {after : Option (Custody t ι)} (change : Change s s' i k after) {j : ι}
    (other : j ≠ i) {k' : TPointer t} : (s'.custody.lookup k' = some d ∧ d.holder = some j) ↔
      s.custody.lookup k' = some d ∧ d.holder = some j := by
  rw [change.at_key]
  by_cases same : k' = k
  · subst same
    rw [if_pos rfl]
    constructor
    · rintro ⟨found, held⟩
      rcases change.mine d found with free | own
      · simp [free] at held
      · rw [own] at held
        exact absurd (Option.some.inj held).symm other
    · rintro ⟨found, held⟩
      rcases change.before d found with free | own
      · simp [free] at held
      · rw [own] at held
        exact absurd (Option.some.inj held).symm other
  · rw [if_neg same]

theorem Sole.of_other (sole : s.Sole j k c)
    (same : ∀ k' d, (s'.custody.lookup k' = some d ∧ d.holder = some j) ↔
      s.custody.lookup k' = some d ∧ d.holder = some j) : s'.Sole j k c where
  found := ((same k c).mpr ⟨sole.found, sole.mine⟩).1
  mine := sole.mine
  only found held := by
    obtain ⟨before, -⟩ := (same _ _).mp ⟨found, held⟩
    exact sole.only before held

/-- A thread's assertion is about the allocation it holds, and nothing else. -/
theorem Local.of_same {place : Place t} (holds : s.Local j place)
    (same : ∀ k d, (s'.custody.lookup k = some d ∧ d.holder = some j) ↔
      s.custody.lookup k = some d ∧ d.holder = some j) : s'.Local j place := by
  cases place with
  | idle =>
    intro k c found held
    exact holds k c ((same k c).mp ⟨found, held⟩).1 held
  | granted | owned | scratched | disowned | releasing =>
    obtain ⟨a, sole, rest⟩ := holds
    exact ⟨a, sole.of_other same, rest⟩
  | matched | freeing =>
    obtain ⟨a, info, sole, rest⟩ := holds
    exact ⟨a, info, sole.of_other same, rest⟩

/-- After a change the thread's one allocation is the changed one, if it is still
its own. -/
theorem Change.sole (change : Change s s' i k (some c)) (mine : c.holder = some i)
    (only : ∀ {j d}, s.custody.lookup j = some d → d.holder = some i → j = k) : s'.Sole i k c where
  found := by rw [change.at_key, if_pos rfl]
  mine := mine
  only := by
    intro j d found held
    rw [change.at_key] at found
    by_cases same : j = k
    · exact same
    · rw [if_neg same] at found
      exact only found held

theorem Change.idle {after : Option (Custody t ι)} (change : Change s s' i k after)
    (given : ∀ c, after = some c → c.holder = none)
    (only : ∀ {j d}, s.custody.lookup j = some d → d.holder = some i → j = k) :
    s'.Local i .idle := by
  intro j d found held
  rw [change.at_key] at found
  by_cases same : j = k
  · rw [if_pos same] at found
    rw [given d found] at held
    cases held
  · rw [if_neg same] at found
    exact same (only found held)

/-- The invariant after one entry changed, and the registries at its key. -/
theorem Kept.change {after : Option (Custody t ι)} (kept : s.Kept total)
    (change : Change s s' i k after)
    (entry : ∀ c, after = some c → Entry total s'.sandbox.allocOwner k c)
    (owners : ∀ j, j ≠ k → s'.sandbox.allocOwner.lookup j = s.sandbox.allocOwner.lookup j)
    (high : ∀ o, s'.sandbox.allocOwner.lookup k = some o → ¬ Tagged k → total ≤ k.toNat)
    (structs : ∀ j, s'.sandbox.structAllocs.lookup j =
      if j = k then after.bind Custody.structEntry else s.sandbox.structAllocs.lookup j)
    (heap : Apportioned s'.heaps.blockAt s'.share) : s'.Kept total where
  entries := by
    intro j d found
    rw [change.at_key] at found
    by_cases same : j = k
    · subst same
      exact entry d (by simpa using found)
    · rw [if_neg same] at found
      have before := kept.entries found
      exact { before with owned := fun owned => (owners j same).trans (before.owned owned) }
  structs j := by
    rw [structs, change.at_key]
    by_cases same : j = k
    · rw [if_pos same, if_pos same]
    · rw [if_neg same, if_neg same, kept.structs j]
  high := by
    intro j o found untagged
    by_cases same : j = k
    · subst same
      exact high o found untagged
    · rw [owners j same] at found
      exact kept.high found untagged
  heap := heap

theorem Change.share {after : Option (Custody t ι)} (change : Change s s' i k after) (j : TPointer t)
    (other : j ≠ k) : s'.share j = s.share j := by
  unfold Commons.share
  rw [change.at_key, if_neg other]

theorem share_of_found (found : s.custody.lookup k = some c) : s.share k = c.alloc.blocks := by
  rw [share, found]

/-- An entry that changes with its blocks left alone leaves the shares alone. -/
theorem Change.share_eq (change : Change s s' i k (some c)) (found : s.custody.lookup k = some d)
    (blocks : c.alloc.blocks = d.alloc.blocks) : s'.share = s.share := by
  funext j
  by_cases same : j = k
  · subst same
    have after : s'.custody.lookup j = some c := by rw [change.at_key, if_pos rfl]
    rw [share_of_found after, share_of_found found, blocks]
  · exact change.share j same

/-- What a step of thread `i` has to prove. -/
structure Moved (total : Nat) (i : ι) (s s' : Commons t D π ι) (next : Place t) : Prop where
  kept : s'.Kept total
  here : s'.Local i next
  others : ∀ j, j ≠ i → ∀ place, s.Local j place → s'.Local j place

theorem Moved.trans {m : Commons t D π ι} {middle next : Place t} (first : Moved total i s m middle)
    (second : Moved total i m s' next) : Moved total i s s' next where
  kept := second.kept
  here := second.here
  others j other place holds := second.others j other place (first.others j other place holds)

theorem Change.moved {after : Option (Custody t ι)} {next : Place t} (change : Change s s' i k after)
    (kept : s'.Kept total) (here : s'.Local i next) : Moved total i s s' next where
  kept := kept
  here := here
  others _ other _ holds := holds.of_same fun _ _ => change.at_other other

/-- A step that leaves the custody alone. -/
theorem Kept.quiet {next : Place t} (kept : s.Kept total) (here : s.Local i next)
    (custody : s'.custody = s.custody) (heaps : s'.heaps = s.heaps)
    (structs : s'.sandbox.structAllocs = s.sandbox.structAllocs)
    (owners : ∀ {k o}, s.sandbox.allocOwner.lookup k = some o → s'.sandbox.allocOwner.lookup k = some o)
    (high : ∀ {k o}, s'.sandbox.allocOwner.lookup k = some o → ¬ Tagged k → total ≤ k.toNat) :
    Moved total i s s' next where
  kept := {
    entries := fun found => by
      rw [custody] at found
      have before := kept.entries found
      exact { before with owned := fun owned => owners (before.owned owned) }
    structs := fun k => by rw [structs, custody, kept.structs k]
    high := high
    heap := by
      have shares : s'.share = s.share := by funext k; rw [share, share, custody]
      rw [heaps, shares]
      exact kept.heap }
  here := by
    refine here.of_same fun k d => ?_
    rw [custody]
  others j other place holds := by
    refine holds.of_same fun k d => ?_
    rw [custody]

/-- Amending an entry that is the client's or the thread's own. -/
theorem change_of_amend {f : Custody t ι → Custody t ι} (found : s.custody.lookup k = some c)
    (before : c.holder = none ∨ c.holder = some i) (mine : (f c).holder = none ∨ (f c).holder = some i)
    (custody : s'.custody = KeyMap.amend k f s.custody) : Change s s' i k (some (f c)) where
  at_key j := by rw [custody, KeyMap.lookup_amend, found, Option.map_some]
  before d same := by
    rw [found] at same
    cases same
    exact before
  mine d same := by
    cases same
    exact mine

theorem structs_unchanged (kept : s.Kept total) (found : s.custody.lookup k = some c)
    (structs : s'.sandbox.structAllocs = s.sandbox.structAllocs) (same : d.structEntry = c.structEntry)
    (j : TPointer t) : s'.sandbox.structAllocs.lookup j =
      if j = k then (some d).bind Custody.structEntry else s.sandbox.structAllocs.lookup j := by
  rw [structs]
  split
  · rename_i at_k
    rw [at_k, kept.structs, found]
    exact same.symm
  · rfl

/-- An entry changes, and neither the registries nor the heaps do. -/
theorem Kept.relabel (kept : s.Kept total) (change : Change s s' i k (some d))
    (found : s.custody.lookup k = some c) (owners : s'.sandbox.allocOwner = s.sandbox.allocOwner)
    (structs : s'.sandbox.structAllocs = s.sandbox.structAllocs) (heaps : s'.heaps = s.heaps)
    (blocks : d.alloc.blocks = c.alloc.blocks) (same : d.structEntry = c.structEntry)
    (entry : Entry total s.sandbox.allocOwner k d) : s'.Kept total := by
  refine kept.change change ?_ (fun j _ => by rw [owners]) ?_
    (structs_unchanged kept found structs same) ?_
  · rintro e same
    cases same
    rw [owners]
    exact entry
  · intro o held
    rw [owners] at held
    exact kept.high held
  · rw [heaps, change.share_eq found blocks]
    exact kept.heap

end
end Commons
end ConcurrentAllocation
end RlboxDynamic
