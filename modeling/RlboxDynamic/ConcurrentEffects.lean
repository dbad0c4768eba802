import RlboxDynamic.ConcurrentRouting
import RlboxDynamic.SeparatedHeaps

/-! The world of whole operations that a run of threads stands for: a malloc happens
where it returns, a free where it looks into the registry. In between the threads are
ahead in `alloc_owner`, and behind in `struct_allocs` and in the heaps. -/
namespace RlboxDynamic.ConcurrentAllocation
open Transition Interleaving

variable {t : Target} {D π ι : Type}

/-! ## Whole operations -/

/-- The sandbox and the heaps. -/
structure AtomicWorld (t : Target) (D π : Type) where
  sandbox : MetaSandbox t D π
  heaps : Heaps t

/-- An operation runs from its start to its end before the next one starts, over
allocators that keep their contract. -/
inductive AtomicStep : AtomicWorld t D π → Effected t → AtomicWorld t D π → Prop where
  | malloc (ran : w.sandbox.mallocOn choice answers size = ⟨calls, .ok (p, sandbox)⟩)
      (allowed : w.heaps.Allows calls) :
      AtomicStep w (.malloc size p) ⟨sandbox, w.heaps.applyAll calls⟩
  | free (ran : w.sandbox.implFreeInSandbox p = (calls, sandbox)) :
      AtomicStep w (.free p) ⟨sandbox, w.heaps.applyAll calls⟩
  | registerStructType :
      AtomicStep w (.registerStructType info) { w with sandbox := w.sandbox.registerStructType info }
  | registerReturn :
      AtomicStep w (.registerReturn which answer)
        { w with sandbox := (w.sandbox.registerReturn which answer).2 }

/-- An allocation has the struct type and the scratch that its size asks for. -/
def TypedBy (a : LiveAlloc t) : List (MetaStructTypeInfo t) → Prop
  | [] => a.structType = none ∧ a.scratch = 0#32
  | [info] => a.structType = some info ∧ (info.wasmSize = 0#t.ptrBits → a.scratch = 0#32)
  | _ => False

/-- The part of a malloc after the block, for an allocation that is known. -/
theorem publishAllocation_of_typed {w : MetaSandbox t D π} {a : LiveAlloc t}
    (answers : MallocAnswers t) (typed : TypedBy a (w.structMatches a.size))
    (scratch : answers.scratch = a.scratch) :
    ∃ extra sandbox, w.publishAllocation answers a.size a.key a.owner =
        ⟨a.obtainScratch ++ extra, .ok (a.key, sandbox)⟩ ∧ Refused extra ∧
      sandbox.structTypes = w.structTypes ∧ sandbox.allocOwner = w.allocOwner.insert a.key a.owner ∧
      sandbox.structAllocs = if a.scratch = 0#32 then w.structAllocs
        else w.structAllocs.insert a.key ⟨a.scratch, a.translator⟩ := by
  let owned : MetaSandbox t D π := { w with allocOwner := w.allocOwner.insert a.key a.owner }
  have same : owned.structMatches a.size = w.structMatches a.size := rfl
  unfold MetaSandbox.publishAllocation
  simp only [owned] at same
  simp only [same]
  split
  · rename_i none_
    rw [none_] at typed
    refine ⟨[], owned, ?_, .inl rfl, rfl, rfl, ?_⟩
    · simp [LiveAlloc.obtainScratch, typed.1, owned]
    · rw [if_pos typed.2]
  · rename_i info one
    rw [one] at typed
    obtain ⟨type, bare⟩ := typed
    by_cases none_ : info.wasmSize = 0#t.ptrBits
    · rw [if_pos none_]
      refine ⟨[], owned, ?_, .inl rfl, rfl, rfl, ?_⟩
      · simp [LiveAlloc.obtainScratch, type, bare none_, owned]
      · rw [if_pos (bare none_)]
    · rw [if_neg none_]
      by_cases refused : a.scratch = 0#32
      · refine ⟨[.wasmMalloc info.wasmSize a.scratch], owned, ?_, .inr ⟨_, by rw [refused]⟩, rfl, rfl,
          ?_⟩
        · simp [LiveAlloc.obtainScratch, type, refused, scratch, owned]
        · rw [if_pos refused]
      · let linked : MetaSandbox t D π :=
          { owned with structAllocs := w.structAllocs.insert a.key ⟨a.scratch, info.translator⟩ }
        refine ⟨[], linked, ?_, .inl rfl, rfl, rfl, ?_⟩
        · simp [LiveAlloc.obtainScratch, type, refused, scratch, owned, linked]
        · rw [if_neg refused]
          simp [linked, LiveAlloc.translator, type]
  · rename_i many
    simp [many, TypedBy] at typed

theorem mallocOn_of_typed {w : MetaSandbox t D π} {a : LiveAlloc t} (checked : a.Checked)
    (typed : TypedBy a (w.structMatches a.size)) :
    ∃ extra sandbox, w.mallocOn a.owner ⟨narrow a.base, a.base, a.scratch⟩ a.size =
        ⟨a.obtain ++ extra, .ok (a.key, sandbox)⟩ ∧ Refused extra ∧
      sandbox.structTypes = w.structTypes ∧ sandbox.allocOwner = w.allocOwner.insert a.key a.owner ∧
      sandbox.structAllocs = if a.scratch = 0#32 then w.structAllocs
        else w.structAllocs.insert a.key ⟨a.scratch, a.translator⟩ := by
  cases side : a.owner with
  | wasm =>
    have key : tagWasm (widen t (narrow a.base)) = a.key := by
      rw [checked.wasmNarrow side, LiveAlloc.key, side]
    obtain ⟨extra, sandbox, ran, rest⟩ := publishAllocation_of_typed
      (w := { w with mallocsOnWasm := w.mallocsOnWasm + 1 }) ⟨narrow a.base, a.base, a.scratch⟩ typed rfl
    rw [side] at ran rest
    refine ⟨extra, sandbox, ?_, rest⟩
    simp only [MetaSandbox.mallocOn, if_neg (checked.narrow_ne_zero side), key, ran]
    simp [LiveAlloc.obtain, LiveAlloc.obtainBlock, side]
  | process =>
    have key : a.base = a.key := by rw [LiveAlloc.key, side]
    obtain ⟨extra, sandbox, ran, rest⟩ := publishAllocation_of_typed
      (w := { w with mallocsOnProcess := w.mallocsOnProcess + 1 }) ⟨narrow a.base, a.base, a.scratch⟩
      typed rfl
    rw [side] at ran rest
    refine ⟨extra, sandbox, ?_, rest⟩
    simp only [MetaSandbox.mallocOn, if_neg checked.nonNull, if_neg (checked.processUntagged side)]
    rw [← key] at ran ⊢
    simp only [ran]
    simp [LiveAlloc.obtain, LiveAlloc.obtainBlock, side]

/-! ## Following the threads -/

namespace Commons

/-- The allocation that a client has under a key, from its malloc's last step to its
free's first look. -/
def liveAt (s : Commons t D π ι) (k : TPointer t) : Option (LiveAlloc t) :=
  (s.custody.lookup k).bind fun c => if c.stage = .live then some c.alloc else none

end Commons

/-- The world of whole operations is that of the threads but for what they are in the
middle of: an entry of `alloc_owner` made too early, an entry of `struct_allocs` and a
block given back too late. -/
structure Follows (s : Commons t D π ι) (w : AtomicWorld t D π) : Prop where
  types : w.sandbox.structTypes = s.sandbox.structTypes
  owners : ∀ k, (∀ c, s.custody.lookup k = some c → c.stage ≠ .obtaining) →
    w.sandbox.allocOwner.lookup k = s.sandbox.allocOwner.lookup k
  structs : ∀ k, w.sandbox.structAllocs.lookup k = (s.liveAt k).bind LiveAlloc.structInfo
  blocks : ∀ x n, w.heaps.blockAt x = some n ↔ ∃ k a, s.liveAt k = some a ∧ (x, n) ∈ a.blocks
  typed : ∀ k c info, s.custody.lookup k = some c → c.stage = .obtaining →
    c.alloc.structType = some info →
      s.sandbox.structMatches c.alloc.size = [info] ∧ info.wasmSize ≠ 0#t.ptrBits

section
variable {total : Nat} {s s' : Commons t D π ι} {w : AtomicWorld t D π} {i : ι} {k : TPointer t}
  {c : Custody t ι} {a : LiveAlloc t} {after : Option (Custody t ι)}

/-- One entry of the custody changed. -/
def AtKey (s s' : Commons t D π ι) (k : TPointer t) (after : Option (Custody t ι)) : Prop :=
  ∀ j, s'.custody.lookup j = if j = k then after else s.custody.lookup j

theorem AtKey.liveAt (change : AtKey s s' k after) (j : TPointer t) : s'.liveAt j =
    if j = k then after.bind fun c => if c.stage = .live then some c.alloc else none
    else s.liveAt j := by
  unfold Commons.liveAt
  rw [change j]
  split <;> rfl

theorem AtKey.of_amend {f : Custody t ι → Custody t ι} (found : s.custody.lookup k = some c)
    (custody : s'.custody = KeyMap.amend k f s.custody) : AtKey s s' k (some (f c)) := by
  intro j
  rw [custody, KeyMap.lookup_amend, found, Option.map_some]

theorem share_of_liveAt (live : s.liveAt k = some a) : s.share k = a.blocks := by
  unfold Commons.liveAt at live
  unfold Commons.share
  cases found : s.custody.lookup k with
  | none =>
    rw [found] at live
    cases live
  | some c =>
    rw [found, Option.bind_some] at live
    split at live
    · cases live
      rfl
    · cases live

/-- A step in the middle of an operation. -/
theorem Follows.quiet (follows : Follows s w) (change : AtKey s s' k after)
    (live : s'.liveAt k = s.liveAt k) (types : s'.sandbox.structTypes = s.sandbox.structTypes)
    (owners : ∀ j, j ≠ k → s'.sandbox.allocOwner.lookup j = s.sandbox.allocOwner.lookup j)
    (settled : (∀ c, after = some c → c.stage ≠ .obtaining) →
      (∀ c, s.custody.lookup k = some c → c.stage ≠ .obtaining) ∧
        s'.sandbox.allocOwner.lookup k = s.sandbox.allocOwner.lookup k)
    (typed : ∀ c info, after = some c → c.stage = .obtaining → c.alloc.structType = some info →
      s.sandbox.structMatches c.alloc.size = [info] ∧ info.wasmSize ≠ 0#t.ptrBits) :
    Follows s' w := by
  have same : ∀ j, s'.liveAt j = s.liveAt j := by
    intro j
    by_cases at_k : j = k
    · rw [at_k, live]
    · rw [change.liveAt, if_neg at_k]
  constructor
  case types => rw [types, follows.types]
  case owners =>
    intro j done
    by_cases at_k : j = k
    · subst at_k
      obtain ⟨before, kept⟩ := settled fun c found => done c (by rw [change j, if_pos rfl, found])
      rw [kept, follows.owners j before]
    · rw [owners j at_k]
      exact follows.owners j fun c found => done c (by rw [change j, if_neg at_k, found])
  case structs => exact fun j => by rw [same, follows.structs]
  case blocks => exact fun x n => by simp only [same, follows.blocks]
  case typed =>
    intro j d info found obtaining type
    have matches_ : s'.sandbox.structMatches d.alloc.size = s.sandbox.structMatches d.alloc.size := by
      rw [MetaSandbox.structMatches, MetaSandbox.structMatches, types]
    rw [matches_]
    rw [change j] at found
    split at found
    · exact typed d info found obtaining type
    · exact follows.typed j d info found obtaining type

/-- The last step of a malloc is the whole malloc. -/
theorem Follows.malloc (follows : Follows s w) (linked : Bool) (kept : s'.Kept total)
    (separated : s'.heaps.Separated) (found : s.custody.lookup k = some c)
    (obtaining : c.stage = .obtaining) (change : AtKey s s' k (some ⟨a, true, linked, .live, none⟩))
    (owners : s'.sandbox.allocOwner = s.sandbox.allocOwner)
    (types : s'.sandbox.structTypes = s.sandbox.structTypes)
    (typed : TypedBy a (s.sandbox.structMatches a.size)) :
    ∃ w', AtomicStep w (.malloc a.size k) w' ∧ Follows s' w' := by
  have now : s'.custody.lookup k = some ⟨a, true, linked, .live, none⟩ := by rw [change k, if_pos rfl]
  have entry := kept.entries now
  have key : k = a.key := entry.keyed
  have same : w.sandbox.structMatches a.size = s.sandbox.structMatches a.size := by
    rw [MetaSandbox.structMatches, MetaSandbox.structMatches, follows.types]
  rw [← same] at typed
  obtain ⟨extra, sandbox, ran, refused, types', owners', structs'⟩ :=
    mallocOn_of_typed entry.checked typed
  have before : s.liveAt k = none := by simp [Commons.liveAt, found, obtaining]
  have live : ∀ j, s'.liveAt j = if j = k then some a else s.liveAt j := by
    intro j
    rw [change.liveAt]
    split <;> rfl
  have mine : ∀ x n, (x, n) ∈ a.blocks → (x, n) ∈ s'.share k := fun x n inside => by
    rw [Commons.share_of_found now]
    exact inside
  -- the blocks of the others are in the threads' heap too, and are not this one's
  have theirs : ∀ x n, w.heaps.blockAt x = some n → ∃ j, j ≠ k ∧ (x, n) ∈ s'.share j := by
    intro x n occupied
    obtain ⟨j, b, held, inside⟩ := (follows.blocks x n).mp occupied
    have other : j ≠ k := by
      rintro rfl
      rw [before] at held
      cases held
    refine ⟨j, other, ?_⟩
    have kept_ : s'.liveAt j = some b := by rw [live, if_neg other, held]
    rw [share_of_liveAt kept_]
    exact inside
  have fresh : ∀ x n, (x, n) ∈ a.blocks → w.heaps.blockAt x = none := by
    intro x n inside
    cases occupied : w.heaps.blockAt x with
    | none => rfl
    | some m =>
      obtain ⟨j, other, held⟩ := theirs x m occupied
      exact absurd (kept.heap.apart held (mine x n inside)) other
  have once : (a.blocks.map Prod.fst).Nodup := by
    have all := kept.heap.once k
    rwa [Commons.share_of_found now] at all
  have allowed : w.heaps.Allows a.obtain :=
    separated.allows entry.checked.obtain_granted
      (fun x n occupied => (theirs x n occupied).elim fun _ held => kept.heap.occupied held.2)
      (fun x n inside => kept.heap.occupied (mine x n inside)) fresh once
  have grown := (Heaps.blockAt_grants entry.checked.obtain_granted allowed).1
  have heaps : w.heaps.applyAll (a.obtain ++ extra) = w.heaps.applyAll a.obtain := by
    rw [Heaps.applyAll, List.foldl_append]
    exact refused.still _
  rw [← key] at ran owners' structs'
  refine ⟨⟨sandbox, w.heaps.applyAll (a.obtain ++ extra)⟩,
    .malloc ran (Heaps.allows_refused allowed refused), ?_⟩
  constructor
  case types => rw [types', types, follows.types]
  case owners =>
    intro j done
    rw [owners', owners, KeyMap.lookup_insert]
    by_cases at_k : j = k
    · rw [if_pos at_k, at_k, ← owners]
      exact (entry.owned rfl).symm
    · rw [if_neg at_k]
      exact follows.owners j fun d held => done d (by rw [change j, if_neg at_k, held])
  case structs =>
    intro j
    rw [structs', live]
    by_cases at_k : j = k
    · subst at_k
      rw [if_pos rfl, Option.bind_some]
      by_cases bare : a.scratch = 0#32
      · rw [if_pos bare, follows.structs, before, LiveAlloc.structInfo, if_pos bare]
        rfl
      · rw [if_neg bare, LiveAlloc.structInfo, if_neg bare]
        exact AList.lookup_insert _
    · rw [if_neg at_k, ← follows.structs]
      by_cases bare : a.scratch = 0#32
      · rw [if_pos bare]
      · rw [if_neg bare, KeyMap.lookup_insert, if_neg at_k]
  case blocks =>
    intro x n
    show (w.heaps.applyAll (a.obtain ++ extra)).blockAt x = some n ↔ _
    rw [heaps, grown, follows.blocks]
    constructor
    · rintro (inside | ⟨j, b, held, inside⟩)
      · exact ⟨k, a, by rw [live, if_pos rfl], inside⟩
      · refine ⟨j, b, ?_, inside⟩
        have other : j ≠ k := by
          rintro rfl
          rw [before] at held
          cases held
        rw [live, if_neg other, held]
    · rintro ⟨j, b, held, inside⟩
      rw [live] at held
      split at held
      · cases held
        exact .inl inside
      · exact .inr ⟨j, b, held, inside⟩
  case typed =>
    intro j d info held obtaining' type
    rw [change j] at held
    split at held
    · cases held
      cases obtaining'
    · have matches_ : s'.sandbox.structMatches d.alloc.size = s.sandbox.structMatches d.alloc.size := by
        rw [MetaSandbox.structMatches, MetaSandbox.structMatches, types]
      rw [matches_]
      exact follows.typed j d info held obtaining' type

theorem implFree_of_entry {sandbox : MetaSandbox t D π} {p : TPointer t} {owner : MetaBackend}
    (nonNull : p ≠ 0#t.ptrBits) (entry : sandbox.registryEntry p = (k, owner)) :
    sandbox.implFreeInSandbox p = (releaseCalls k owner (sandbox.getStructScratch k),
      { sandbox with
        allocOwner := sandbox.allocOwner.erase k
        structAllocs := sandbox.structAllocs.erase k }) := by
  cases owner <;> simp [MetaSandbox.implFreeInSandbox, releaseCalls, nonNull, entry]

/-- The first look of a free is the whole free. -/
theorem Follows.free {p : TPointer t} (follows : Follows s w) (kept : s.Kept total)
    (free : TagFree t total)
    (found : s.custody.lookup k = some ⟨a, true, linked, .live, holder⟩) (spells : Spells p k)
    (change : AtKey s s' k (some ⟨a, false, linked, .releasing, holder⟩))
    (owners : s'.sandbox.allocOwner = s.sandbox.allocOwner.erase k)
    (types : s'.sandbox.structTypes = s.sandbox.structTypes) :
    ∃ w', AtomicStep w (.free p) w' ∧ Follows s' w' := by
  have entry := kept.entries found
  have recorded : w.sandbox.allocOwner.lookup k = some a.owner := by
    rw [follows.owners k fun c held => by rw [found] at held; cases held; simp]
    exact entry.owned rfl
  have live : s.liveAt k = some a := by simp [Commons.liveAt, found]
  have live' : ∀ j, s'.liveAt j = if j = k then none else s.liveAt j := by
    intro j
    rw [change.liveAt]
    split <;> rfl
  have looked : w.sandbox.registryEntry p = (k, a.owner) := by
    unfold MetaSandbox.registryEntry
    rcases kept.spelled free found spells with rfl | ⟨missing, outside, untagged, back⟩
    · rw [recorded]
    · have missing' : w.sandbox.allocOwner.lookup p = none := by
        rw [follows.owners p fun c held => absurd (AList.lookup_isSome.mp (by rw [held]; rfl)) outside]
        exact missing
      rw [← back] at recorded
      simp only [missing', if_neg untagged, recorded, back]
  have nonNull : p ≠ 0#t.ptrBits := by
    rcases kept.spelled free found spells with rfl | ⟨-, -, -, back⟩
    · rw [entry.keyed]
      exact entry.checked.key_ne_zero
    · rintro rfl
      rcases spells with null | strip
      · rw [entry.keyed] at null
        exact entry.checked.key_ne_zero null.symm
      · rw [entry.keyed, entry.checked.strip_key free entry.inMemory] at strip
        exact entry.checked.nonNull strip.symm
  have structs := follows.structs k
  rw [live, Option.bind_some] at structs
  have ran := implFree_of_entry nonNull looked
  rw [Commons.getStructScratch_of_entry structs, Commons.releaseCalls_eq entry free] at ran
  have shrunk : ∀ x, (w.heaps.applyAll a.giveBack).blockAt x =
      if x ∈ a.blocks.map Prod.fst then none else w.heaps.blockAt x := by
    intro x
    rw [Heaps.blockAt_releases entry.checked.giveBack_released]
    simp only [List.mem_reverse]
  refine ⟨_, .free ran, ?_⟩
  constructor
  case types => exact follows.types.trans types.symm
  case owners =>
    intro j done
    show (w.sandbox.allocOwner.erase k).lookup j = _
    rw [owners, KeyMap.lookup_erase, KeyMap.lookup_erase]
    split
    · rfl
    · rename_i other
      exact follows.owners j fun d held => done d (by rw [change j, if_neg other, held])
  case structs =>
    intro j
    show (w.sandbox.structAllocs.erase k).lookup j = _
    rw [KeyMap.lookup_erase, live', follows.structs]
    split <;> rfl
  case blocks =>
    intro x n
    show (w.heaps.applyAll a.giveBack).blockAt x = some n ↔ _
    rw [shrunk]
    constructor
    · intro occupied
      split at occupied
      · cases occupied
      · rename_i outside
        obtain ⟨j, b, held, inside⟩ := (follows.blocks x n).mp occupied
        refine ⟨j, b, ?_, inside⟩
        have other : j ≠ k := by
          rintro rfl
          rw [live] at held
          cases held
          exact outside (List.mem_map.mpr ⟨_, inside, rfl⟩)
        rw [live', if_neg other, held]
    · rintro ⟨j, b, held, inside⟩
      rw [live'] at held
      split at held
      · cases held
      · rename_i other
        have outside : x ∉ a.blocks.map Prod.fst := by
          intro mine
          obtain ⟨⟨y, m⟩, own, rfl⟩ := List.mem_map.mp mine
          have left := Commons.share_of_found found
          have right := share_of_liveAt held
          exact other (kept.heap.apart (right ▸ inside) (left ▸ own))
        rw [if_neg outside]
        exact (follows.blocks x n).mpr ⟨j, b, held, inside⟩
  case typed =>
    intro j d info held obtaining type
    rw [change j] at held
    split at held
    · cases held
      cases obtaining
    · have matches_ : s'.sandbox.structMatches d.alloc.size = s.sandbox.structMatches d.alloc.size := by
        rw [MetaSandbox.structMatches, MetaSandbox.structMatches, types]
      rw [matches_]
      exact follows.typed j d info held obtaining type

end
end RlboxDynamic.ConcurrentAllocation
