import RlboxDynamic.ConcurrentCustody

/-! Allocations and frees at the grain of `alloc_mutex`: each step of a thread keeps
the custody, so registries and heaps come out right under every interleaving. -/
namespace RlboxDynamic.ConcurrentAllocation
open Transition Interleaving

variable {t : Target} {D π ι : Type}

namespace Commons
variable {total : Nat} {s s' : Commons t D π ι} {i j : ι} {k : TPointer t} {c d : Custody t ι}
  {a : LiveAlloc t}

/-! ## The steps of a malloc -/

/-- An allocation of which only the block is there yet. -/
structure Bare (total : Nat) (a : LiveAlloc t) : Prop where
  checked : a.Checked
  inMemory : a.owner = .wasm → a.base.toNat < total
  above : a.owner = .process → total ≤ a.base.toNat
  untyped : a.structType = none
  noScratch : a.scratch = 0#32

/-- A malloc is refused, or it has a block. -/
theorem malloc_cases {size : SizeT t} {answer : BlockAddress t} {next : Place t}
    (allowed : s.heaps.Allows (Place.idle.call (Act.malloc size answer)).toList)
    (answers : (Act.malloc size answer).AnswersFrom total)
    (done : own i s .idle (.malloc size answer) = some (s', next)) :
    (s' = s.took (.malloc size 0#t.ptrBits) ∧ next = .idle) ∨
      ∃ a, s' = s.grant i a ∧ next = .granted a.size a.key a.owner ∧ Bare total a ∧
        s.heaps.Allows [a.obtainBlock] := by
  cases answer with
  | wasm raw =>
    simp only [own] at done
    split at done
    · cases done
      exact .inl ⟨rfl, rfl⟩
    rename_i nonzero
    cases done
    refine .inr ⟨⟨.wasm, widen t raw, size, none, 0#32⟩, rfl, rfl, ?_, ?_⟩
    · refine ⟨⟨?_, ?_, ?_, ?_⟩, ?_, ?_, rfl, rfl⟩
      · simpa using nonzero
      · exact fun side => by cases side
      · exact fun _ => by rw [narrow_widen]
      · exact fun scratch => absurd rfl scratch
      · exact fun _ => by rw [widen_toNat]; exact answers nonzero
      · exact fun side => by cases side
    · simpa [LiveAlloc.obtainBlock, Place.call] using allowed
  | process p =>
    simp only [own] at done
    split at done
    · cases done
      exact .inl ⟨rfl, rfl⟩
    rename_i nonzero
    split at done
    · cases done
    rename_i untagged
    cases done
    refine .inr ⟨⟨.process, p, size, none, 0#32⟩, rfl, rfl, ⟨⟨nonzero, fun _ => untagged, ?_, ?_⟩, ?_, ?_,
      rfl, rfl⟩, allowed⟩
    · exact fun side => by cases side
    · exact fun scratch => absurd rfl scratch
    · exact fun side => by cases side
    · exact fun _ => answers nonzero

theorem Bare.granted (bare : Bare total a) : a.obtainBlock.granted = some (a.address, a.size) := by
  have all := bare.checked.obtain_granted
  rw [LiveAlloc.obtain, LiveAlloc.blocks_eq, List.map_cons, List.map_cons] at all
  exact (List.cons.inj all).1

/-- The allocators gave out what nobody has, so the key is new. -/
theorem Kept.key_fresh (kept : s.Kept total) (free : TagFree t total) (bare : Bare total a)
    (allowed : s.heaps.Allows [a.obtainBlock]) : s.custody.lookup a.key = none := by
  have fresh := Heaps.allows_fresh allowed bare.granted
  cases found : s.custody.lookup a.key with
  | none => rfl
  | some c =>
    have entry := kept.entries found
    have same := bare.checked.address_of_key free entry.checked bare.inMemory entry.inMemory entry.keyed
    have held : (a.address, c.alloc.size) ∈ s.share a.key := by
      rw [share_of_found found, LiveAlloc.blocks_eq, same]
      exact List.mem_cons_self
    rw [kept.heap.occupied held] at fresh
    cases fresh

theorem Kept.grant (kept : s.Kept total) (free : TagFree t total) (idle : s.Local i .idle)
    (bare : Bare total a) (allowed : s.heaps.Allows [a.obtainBlock]) :
    Moved total i s (s.grant i a) (.granted a.size a.key a.owner) := by
  have granted := bare.granted
  have fresh := Heaps.allows_fresh allowed granted
  have new := kept.key_fresh free bare allowed
  have change : Change s (s.grant i a) i a.key (some { alloc := a, holder := some i }) := by
    refine ⟨fun j => KeyMap.lookup_insert _ _ _ _, fun c found => ?_, fun c same => ?_⟩
    · rw [new] at found
      cases found
    · cases same
      exact .inr rfl
  have only : ∀ {j d}, s.custody.lookup j = some d → d.holder = some i → j = a.key :=
    fun found held => absurd held (idle _ _ found)
  refine change.moved (kept.change change ?_ (fun _ _ => rfl) (fun o found => kept.high found) ?_ ?_)
    ⟨a, change.sole rfl only, rfl, rfl, bare.untyped, bare.noScratch⟩
  · rintro c same
    cases same
    exact ⟨rfl, bare.checked, bare.inMemory, bare.above, fun nonzero => absurd bare.noScratch nonzero,
      fun owned => by simp at owned, fun held => by simp at held⟩
  · intro j
    by_cases same : j = a.key
    · subst same
      rw [if_pos rfl]
      show s.sandbox.structAllocs.lookup a.key = _
      rw [kept.structs, new]
      rfl
    · rw [if_neg same]
      rfl
  · refine kept.heap.grow fresh (fun y => Heaps.blockAt_grant granted) change.share ?_
    have found : (s.grant i a).custody.lookup a.key = some { alloc := a, holder := some i } := by
      rw [change.at_key, if_pos rfl]
    have nothing : s.share a.key = [] := by rw [share, new]
    rw [share_of_found found, nothing, LiveAlloc.blocks_eq,
      LiveAlloc.scratchBlock_of_none bare.noScratch]

theorem moved_own {size : SizeT t} {p : TPointer t} {choice : MetaBackend} {next : Place t}
    (kept : s.Kept total) (holds : s.Local i (.granted size p choice))
    (done : own i s (.granted size p choice) .own = some (s', next)) : Moved total i s s' next := by
  obtain ⟨a, sole, size, rfl, untyped, bare⟩ := holds
  have entry := kept.entries sole.found
  have owners : s'.sandbox.allocOwner = s.sandbox.allocOwner.insert p a.owner := by cases done; rfl
  have heaps : s'.heaps = s.heaps := by cases done; rfl
  have change : Change s s' i p (some ⟨a, true, false, .obtaining, some i⟩) :=
    change_of_amend (f := fun c => { c with owned := true }) sole.found (.inr rfl) (.inr rfl)
      (by cases done; rfl)
  have here : s'.Local i next := by
    have own := change.sole rfl sole.only
    cases done
    exact ⟨a, own, size, untyped, bare⟩
  refine change.moved (kept.change change ?_ ?_ ?_ ?_ ?_) here
  · rintro c same
    cases same
    refine { entry with owned := fun _ => ?_, client := fun held => by simp at held }
    rw [owners]
    exact AList.lookup_insert _
  · intro j other
    rw [owners]
    exact AList.lookup_insert_ne other
  · exact fun o found untagged => entry.high untagged
  · exact structs_unchanged kept sole.found (by cases done; rfl) rfl
  · rw [heaps, change.share_eq sole.found rfl]
    exact kept.heap

/-- A malloc that got no scratch hands its allocation over. -/
theorem Kept.handOver {size : SizeT t} {p : TPointer t} (kept : s.Kept total)
    (sole : s.Sole i p ⟨a, true, false, .obtaining, some i⟩) (bare : a.scratch = 0#32) :
    Moved total i s (s.handOver size p) .idle := by
  have change : Change s (s.handOver size p) i p (some ⟨a, true, false, .live, none⟩) :=
    change_of_amend (f := fun c => { c with stage := .live, holder := none }) sole.found (.inr rfl)
      (.inl rfl) rfl
  have entry := kept.entries sole.found
  refine change.moved (kept.relabel change sole.found rfl rfl rfl rfl rfl ?_)
    (change.idle (fun c same => by cases same; rfl) sole.only)
  exact { entry with client := fun _ => ⟨rfl, rfl, by simp [bare]⟩ }

theorem Kept.typed {p : TPointer t} (info : MetaStructTypeInfo t) (kept : s.Kept total)
    (sole : s.Sole i p ⟨a, true, false, .obtaining, some i⟩) (bare : a.scratch = 0#32) :
    let s' := s.amend p fun c => { c with alloc := { c.alloc with structType := some info } }
    Moved total i s s' (.matched a.size p info.wasmSize info.translator) ∧
      s'.Sole i p ⟨{ a with structType := some info }, true, false, .obtaining, some i⟩ := by
  intro s'
  have change : Change s s' i p
      (some ⟨{ a with structType := some info }, true, false, .obtaining, some i⟩) :=
    change_of_amend (f := fun c => { c with alloc := { c.alloc with structType := some info } })
      sole.found (.inr rfl) (.inr rfl) rfl
  have entry := kept.entries sole.found
  have sole' := change.sole rfl sole.only
  refine ⟨change.moved (kept.relabel change sole.found rfl rfl rfl ?_ rfl ?_) ?_, sole'⟩
  · rw [LiveAlloc.blocks_eq, LiveAlloc.blocks_eq, LiveAlloc.scratchBlock_of_none bare,
      LiveAlloc.scratchBlock_of_none (a := { a with structType := some info }) bare]
    rfl
  · have checked := entry.checked
    exact { entry with
      checked := { checked with scratchTyped := fun scratch => absurd bare scratch }
      client := fun held => by simp at held }
  · exact ⟨_, info, sole', rfl, rfl, rfl, rfl, bare⟩

theorem moved_matchType {size : SizeT t} {p : TPointer t} {next : Place t} (kept : s.Kept total)
    (holds : s.Local i (.owned size p))
    (done : own i s (.owned size p) .matchType = some (s', next)) : Moved total i s s' next := by
  obtain ⟨a, sole, rfl, -, bare⟩ := holds
  simp only [own] at done
  split at done
  · cases done
    exact kept.handOver sole bare
  · rename_i info only
    obtain ⟨moved, sole'⟩ := kept.typed info sole bare
    split at done
    · cases done
      exact moved.trans (moved.kept.handOver sole' bare)
    · cases done
      exact moved
  · cases done

/-- The scratch joins the allocation's blocks. -/
theorem moved_scratch {size wasmSize : SizeT t} {p : TPointer t}
    {translator : Option StructTranslator} {raw : WasmPointer} {next : Place t} (kept : s.Kept total)
    (holds : s.Local i (.matched size p wasmSize translator)) (inMemory : InWasm total raw)
    (allowed : s.heaps.Allows [.wasmMalloc wasmSize raw])
    (done : own i s (.matched size p wasmSize translator) (.scratch raw) = some (s', next)) :
    Moved total i s s' next := by
  obtain ⟨a, info, sole, size, typed, rfl, rfl, bare⟩ := holds
  simp only [own] at done
  split at done
  · cases done
    exact kept.handOver sole bare
  rename_i nonzero
  have entry := kept.entries sole.found
  have granted : (BackendCall.wasmMalloc info.wasmSize raw).granted =
      some (.wasm raw, info.wasmSize) := if_neg nonzero
  have heaps : s'.heaps = s.heaps.apply (.wasmMalloc info.wasmSize raw) := by cases done; rfl
  have owners : s'.sandbox.allocOwner = s.sandbox.allocOwner := by cases done; rfl
  have change : Change s s' i p
      (some ⟨{ a with scratch := raw }, true, false, .obtaining, some i⟩) :=
    change_of_amend (f := fun c => { c with alloc := { c.alloc with scratch := raw } }) sole.found
      (.inr rfl) (.inr rfl) (by cases done; rfl)
  have here : s'.Local i next := by
    have own := change.sole rfl sole.only
    cases done
    exact ⟨_, own, size, rfl, nonzero, by simp [LiveAlloc.translator, typed]⟩
  refine change.moved (kept.change change ?_ (fun j _ => by rw [owners]) ?_ ?_ ?_) here
  · rintro c same
    cases same
    rw [owners]
    have checked := entry.checked
    exact { entry with
      checked := { checked with scratchTyped := fun _ => by simp [typed] }
      scratch := inMemory
      client := fun held => by simp at held }
  · exact fun o found untagged => entry.high untagged
  · exact structs_unchanged kept sole.found (by cases done; rfl) rfl
  · refine kept.heap.grow (n := info.wasmSize) (Heaps.allows_fresh allowed granted) (fun y => ?_)
      change.share ?_
    · rw [heaps]
      exact Heaps.blockAt_grant granted
    · have after : s'.custody.lookup p =
          some ⟨{ a with scratch := raw }, true, false, .obtaining, some i⟩ := by
        rw [change.at_key, if_pos rfl]
      rw [share_of_found after, share_of_found sole.found, LiveAlloc.blocks_eq, LiveAlloc.blocks_eq,
        LiveAlloc.scratchBlock_of_none bare]
      simp only [LiveAlloc.scratchBlock, typed, if_neg nonzero]
      exact List.Perm.swap _ _ _

/-- The pair is published, and the malloc is over. -/
theorem moved_link {size : SizeT t} {p : TPointer t} {raw : WasmPointer}
    {translator : Option StructTranslator} {next : Place t} (kept : s.Kept total)
    (holds : s.Local i (.scratched size p raw translator))
    (done : own i s (.scratched size p raw translator) .link = some (s', next)) :
    Moved total i s s' next := by
  obtain ⟨a, sole, -, rfl, nonzero, rfl⟩ := holds
  have entry := kept.entries sole.found
  have owners : s'.sandbox.allocOwner = s.sandbox.allocOwner := by cases done; rfl
  have heaps : s'.heaps = s.heaps := by cases done; rfl
  have structs : s'.sandbox.structAllocs =
      s.sandbox.structAllocs.insert p ⟨a.scratch, a.translator⟩ := by cases done; rfl
  have at_key : ∀ j, s'.custody.lookup j =
      if j = p then some ⟨a, true, true, .live, none⟩ else s.custody.lookup j := by
    intro j
    cases done
    show (KeyMap.amend p _ (KeyMap.amend p _ s.custody)).lookup j = _
    rw [KeyMap.lookup_amend, KeyMap.lookup_amend, KeyMap.lookup_amend, sole.found, if_pos rfl]
    split <;> rfl
  have change : Change s s' i p (some ⟨a, true, true, .live, none⟩) := by
    refine ⟨at_key, fun c found => ?_, fun c same => by cases same; exact .inl rfl⟩
    rw [sole.found] at found
    cases found
    exact .inr rfl
  have here : s'.Local i next := by
    have idle : s'.Local i .idle := change.idle (fun c same => by cases same; rfl) sole.only
    cases done
    exact idle
  refine change.moved (kept.change change ?_ (fun j _ => by rw [owners]) ?_ ?_ ?_) here
  · rintro c same
    cases same
    rw [owners]
    exact { entry with client := fun _ => ⟨rfl, rfl, by simp [nonzero]⟩ }
  · exact fun o found untagged => entry.high untagged
  · intro j
    rw [structs, KeyMap.lookup_insert]
    by_cases same : j = p
    · rw [if_pos same, if_pos same]
      simp [Custody.structEntry, LiveAlloc.structInfo, nonzero]
    · rw [if_neg same, if_neg same]
  · rw [heaps, change.share_eq sole.found rfl]
    exact kept.heap

/-! ## The steps of a free -/

/-- The untagged spelling of a wasm key is an offset. -/
theorem Kept.strip_low (kept : s.Kept total) (free : TagFree t total)
    (found : s.custody.lookup k = some c) (tagged : Tagged k) : (tagStrip k).toNat < total := by
  have entry := kept.entries found
  have keyed := entry.keyed
  subst keyed
  rw [entry.checked.strip_key free entry.inMemory]
  exact entry.inMemory (entry.checked.tagged_key.mp tagged)

/-- Either spelling of a key is that key, or an offset that no registry knows. -/
theorem Kept.spelled (kept : s.Kept total) (free : TagFree t total)
    (found : s.custody.lookup k = some c) {p : TPointer t} (spells : Spells p k) :
    p = k ∨ (s.sandbox.allocOwner.lookup p = none ∧ p ∉ s.custody ∧ ¬ Tagged p ∧ tagWasm p = k) := by
  rcases spells with same | stripped
  · exact .inl same
  by_cases tagged : Tagged k
  · subst stripped
    have low := kept.strip_low free found tagged
    refine .inr ⟨?_, fun inside => ?_, not_tagged_tagStrip, tagWasm_strip_of_tagged tagged⟩
    · cases owned : s.sandbox.allocOwner.lookup (tagStrip k) with
      | none => rfl
      | some o =>
        have above := kept.high owned not_tagged_tagStrip
        omega
    · obtain ⟨d, held⟩ := Option.isSome_iff_exists.mp (AList.lookup_isSome.mpr inside)
      have above := (kept.entries held).high not_tagged_tagStrip
      omega
  · exact .inl (stripped.trans (tagStrip_eq_self.mpr tagged))

theorem Kept.denotedKey_eq (kept : s.Kept total) (free : TagFree t total)
    (found : s.custody.lookup k = some c) {p : TPointer t} (spells : Spells p k) :
    s.denotedKey p = k := by
  rcases kept.spelled free found spells with rfl | ⟨-, outside, -, back⟩
  · exact if_pos (AList.lookup_isSome.mp (by rw [found]; rfl))
  · exact (if_neg outside).trans back

theorem Kept.registryEntry_eq (kept : s.Kept total) (free : TagFree t total)
    (found : s.custody.lookup k = some c) (owned : c.owned = true) {p : TPointer t}
    (spells : Spells p k) : s.sandbox.registryEntry p = (k, c.alloc.owner) := by
  have recorded := (kept.entries found).owned owned
  unfold MetaSandbox.registryEntry
  rcases kept.spelled free found spells with rfl | ⟨missing, -, untagged, back⟩
  · rw [recorded]
  · rw [← back] at recorded
    simp only [missing, if_neg untagged, recorded, back]

theorem moved_free {p : TPointer t} {next : Place t} (kept : s.Kept total) (free : TagFree t total)
    (holds : s.Local i .idle) (client : (Act.free p).FreesLive s)
    (done : own i s .idle (.free p) = some (s', next)) : Moved total i s s' next := by
  simp only [own] at done
  split at done
  · cases done
    exact kept.quiet holds rfl rfl rfl (fun found => found) kept.high
  rename_i nonNull
  obtain ⟨k, ⟨a, owned, linked, stage, holder⟩, found, rfl, spells⟩ := client nonNull
  have entry := kept.entries found
  obtain ⟨rfl, rfl, both⟩ := entry.client rfl
  obtain rfl : linked = decide (a.scratch ≠ 0#32) := both
  rw [kept.denotedKey_eq free found spells] at done
  cases done
  have change : Change s (s.amend k fun c => { c with holder := some i }) i k _ :=
    change_of_amend (f := fun c => { c with holder := some i }) found (.inl rfl) (.inr rfl) rfl
  have only : ∀ {j d}, s.custody.lookup j = some d → d.holder = some i → j = k :=
    fun found held => absurd held (holds _ _ found)
  refine change.moved (kept.relabel change found rfl rfl rfl rfl rfl ?_)
    ⟨k, a, change.sole rfl only, spells⟩
  exact { entry with client := fun held => by simp at held }

/-- The owner is looked up by the client's spelling, and the entry erased. -/
theorem moved_disown {p : TPointer t} {next : Place t} (kept : s.Kept total) (free : TagFree t total)
    (holds : s.Local i (.freeing p)) (done : own i s (.freeing p) .disown = some (s', next)) :
    Moved total i s s' next := by
  obtain ⟨k, a, sole, spells⟩ := holds
  have entry := kept.entries sole.found
  simp only [own, kept.registryEntry_eq free sole.found rfl spells] at done
  have owners : s'.sandbox.allocOwner = s.sandbox.allocOwner.erase k := by cases done; rfl
  have heaps : s'.heaps = s.heaps := by cases done; rfl
  have change : Change s s' i k (some ⟨a, false, decide (a.scratch ≠ 0#32), .releasing, some i⟩) :=
    change_of_amend (f := fun c => { c with owned := false, stage := .releasing }) sole.found (.inr rfl)
      (.inr rfl) (by cases done; rfl)
  have here : s'.Local i next := by
    have own := change.sole rfl sole.only
    cases done
    exact ⟨a, own, rfl⟩
  refine change.moved (kept.change change ?_ ?_ ?_ ?_ ?_) here
  · rintro c same
    cases same
    exact { entry with
      owned := fun owned => by simp at owned
      client := fun held => by simp at held }
  · intro j other
    rw [owners]
    exact AList.lookup_erase_ne other
  · intro o found
    rw [owners, AList.lookup_erase] at found
    cases found
  · exact structs_unchanged kept sole.found (by cases done; rfl) rfl
  · rw [heaps, change.share_eq sole.found rfl]
    exact kept.heap

/-- The calls that are left give the allocation back. -/
theorem releaseCalls_eq {owners : KeyMap (TPointer t) MetaBackend} (entry : Entry total owners k c)
    (free : TagFree t total) : releaseCalls k c.alloc.owner c.alloc.scratch = c.alloc.giveBack := by
  have strip : tagStrip k = c.alloc.base := by
    rw [entry.keyed]
    exact entry.checked.strip_key free entry.inMemory
  unfold releaseCalls
  rw [strip]
  rfl

theorem getStructScratch_of_entry {sandbox : MetaSandbox t D π}
    (recorded : sandbox.structAllocs.lookup k = a.structInfo) :
    sandbox.getStructScratch k = a.scratch := by
  unfold MetaSandbox.getStructScratch
  rw [recorded]
  by_cases bare : a.scratch = 0#32 <;> simp [bare, LiveAlloc.structInfo]

theorem moved_unlink {owner : MetaBackend} {next : Place t} (kept : s.Kept total)
    (free : TagFree t total) (holds : s.Local i (.disowned k owner))
    (done : own i s (.disowned k owner) .unlink = some (s', next)) : Moved total i s s' next := by
  obtain ⟨a, sole, rfl⟩ := holds
  have entry := kept.entries sole.found
  have recorded : s.sandbox.structAllocs.lookup k = a.structInfo := by
    rw [kept.structs, sole.found, Option.bind_some, Custody.structEntry]
    by_cases bare : a.scratch = 0#32 <;> simp [bare, LiveAlloc.structInfo]
  have calls : releaseCalls k a.owner (s.sandbox.getStructScratch k) = a.giveBack := by
    rw [getStructScratch_of_entry recorded]
    exact releaseCalls_eq entry free
  have owners : s'.sandbox.allocOwner = s.sandbox.allocOwner := by cases done; rfl
  have heaps : s'.heaps = s.heaps := by cases done; rfl
  have structs : s'.sandbox.structAllocs = s.sandbox.structAllocs.erase k := by cases done; rfl
  have change : Change s s' i k (some ⟨a, false, false, .releasing, some i⟩) :=
    change_of_amend (f := fun c => { c with linked := false }) sole.found (.inr rfl) (.inr rfl)
      (by cases done; rfl)
  have here : s'.Local i next := by
    have own := change.sole rfl sole.only
    cases done
    exact ⟨a, own, calls⟩
  refine change.moved (kept.change change ?_ (fun j _ => by rw [owners]) ?_ ?_ ?_) here
  · rintro c same
    cases same
    rw [owners]
    exact { entry with client := fun held => by simp at held }
  · exact fun o found untagged => entry.high untagged
  · intro j
    rw [structs, KeyMap.lookup_erase]
    rfl
  · rw [heaps, change.share_eq sole.found rfl]
    exact kept.heap

/-- A block is given back by the thread that has it. -/
theorem Kept.shrink {after : Option (Custody t ι)} {call : BackendCall t} {n : SizeT t}
    {x : BlockAddress t} (kept : s.Kept total) (blocks : List (BlockAddress t × SizeT t))
    (change : Change s s' i k after) (found : s.custody.lookup k = some c)
    (released : call.released = some x) (heaps : s'.heaps = s.heaps.apply call)
    (split : c.alloc.blocks.Perm ((x, n) :: blocks)) (share : s'.share k = blocks) :
    Apportioned s'.heaps.blockAt s'.share := by
  refine kept.heap.shrink (x := x) (n := n) (k := k) (fun y => ?_) change.share ?_
  · rw [heaps]
    exact Heaps.blockAt_release released
  · rwa [share_of_found found, share]

/-- Each call releases a block that the thread holds, and it holds the rest. -/
theorem moved_release {calls : List (BackendCall t)} {next : Place t} (kept : s.Kept total)
    (holds : s.Local i (.releasing k calls))
    (done : own i s (.releasing k calls) .release = some (s', next)) : Moved total i s s' next := by
  obtain ⟨a, sole, rfl⟩ := holds
  have entry := kept.entries sole.found
  by_cases bare : a.scratch = 0#32
  · -- no scratch, or it is released already: the block itself is the last one
    have one : a.giveBack = [a.release] := by simp [LiveAlloc.giveBack, LiveAlloc.releaseScratch, bare]
    simp only [one, own] at done
    have heaps : s'.heaps = s.heaps.apply a.release := by cases done; rfl
    have owners : s'.sandbox.allocOwner = s.sandbox.allocOwner := by cases done; rfl
    have change : Change s s' i k none := by
      refine ⟨fun j => ?_, fun c found => ?_, fun c same => by cases same⟩
      · cases done
        exact KeyMap.lookup_erase _ _ _
      · rw [sole.found] at found
        cases found
        exact .inr rfl
    have here : s'.Local i next := by
      have idle : s'.Local i .idle := change.idle (fun c same => by cases same) sole.only
      cases done
      exact idle
    refine change.moved (kept.change change (fun c same => by cases same) (fun j _ => by rw [owners])
      (fun o found untagged => entry.high untagged) ?_ ?_) here
    · have structs : s'.sandbox.structAllocs = s.sandbox.structAllocs := by cases done; rfl
      intro j
      rw [structs]
      split
      · rename_i at_k
        rw [at_k, kept.structs, sole.found]
        rfl
      · rfl
    · refine kept.shrink (n := a.size) [] change sole.found a.release_released heaps ?_ ?_
      · rw [LiveAlloc.blocks_eq, LiveAlloc.scratchBlock_of_none bare]
      · rw [share, change.at_key, if_pos rfl]
  · obtain ⟨info, typed⟩ : ∃ info, a.structType = some info :=
      Option.ne_none_iff_exists'.mp (entry.checked.scratchTyped bare)
    have two : a.giveBack = [.wasmFree a.scratch, a.release] := by
      simp [LiveAlloc.giveBack, LiveAlloc.releaseScratch, bare]
    simp only [two, own] at done
    have heaps : s'.heaps = s.heaps.apply (.wasmFree a.scratch) := by cases done; rfl
    have owners : s'.sandbox.allocOwner = s.sandbox.allocOwner := by cases done; rfl
    have change : Change s s' i k
        (some ⟨{ a with scratch := 0#32 }, false, false, .releasing, some i⟩) :=
      change_of_amend (f := fun c => { c with alloc := { c.alloc with scratch := 0#32 } }) sole.found
        (.inr rfl) (.inr rfl) (by cases done; rfl)
    have here : s'.Local i next := by
      have own := change.sole rfl sole.only
      cases done
      exact ⟨_, own, rfl⟩
    refine change.moved (kept.change change ?_ (fun j _ => by rw [owners])
      (fun o found untagged => entry.high untagged)
      (structs_unchanged kept sole.found (by cases done; rfl) rfl) ?_) here
    · rintro c same
      cases same
      rw [owners]
      have checked := entry.checked
      exact { entry with
        checked := { checked with scratchTyped := fun nonzero => absurd rfl nonzero }
        scratch := fun nonzero => absurd rfl nonzero
        client := fun held => by simp at held }
    · have after : s'.custody.lookup k =
          some ⟨{ a with scratch := 0#32 }, false, false, .releasing, some i⟩ := by
        rw [change.at_key, if_pos rfl]
      have block : a.scratchBlock = [(.wasm a.scratch, info.wasmSize)] := by
        simp [LiveAlloc.scratchBlock, typed, bare]
      refine kept.shrink (n := info.wasmSize) ({ a with scratch := 0#32 } : LiveAlloc t).blocks change
        sole.found rfl heaps ?_ (share_of_found after)
      rw [LiveAlloc.blocks_eq, LiveAlloc.blocks_eq, block,
        LiveAlloc.scratchBlock_of_none (a := { a with scratch := 0#32 }) rfl]
      exact List.Perm.swap _ _ _

/-! ## Every step -/

theorem moved_malloc {size : SizeT t} {answer : BlockAddress t} {next : Place t}
    (kept : s.Kept total) (free : TagFree t total) (holds : s.Local i .idle)
    (allowed : s.heaps.Allows (Place.idle.call (Act.malloc size answer)).toList)
    (answers : (Act.malloc size answer).AnswersFrom total)
    (done : own i s .idle (.malloc size answer) = some (s', next)) : Moved total i s s' next := by
  rcases malloc_cases allowed answers done with ⟨rfl, rfl⟩ | ⟨a, rfl, rfl, bare, fresh⟩
  · exact kept.quiet holds rfl rfl rfl (fun found => found) kept.high
  · exact kept.grant free holds bare fresh

/-- A returned pointer gets an entry, if it has none. -/
theorem moved_registerReturn {which : MetaBackend} {answer : InvokeAnswer t} {next : Place t}
    (kept : s.Kept total) (holds : s.Local i .idle) (above : AboveWasm total answer.process)
    (done : own i s .idle (.registerReturn which answer) = some (s', next)) :
    Moved total i s s' next := by
  cases done
  cases which with
  | wasm =>
    by_cases null : answer.wasm = 0#32
    · simp only [MetaSandbox.registerReturn, if_pos null]
      exact kept.quiet holds rfl rfl rfl (fun found => found) kept.high
    · simp only [MetaSandbox.registerReturn, if_neg null]
      refine kept.quiet holds rfl rfl rfl (fun found => KeyMap.lookup_emplace_of_some found) ?_
      intro k o found untagged
      rw [KeyMap.lookup_emplace] at found
      split at found
      · rename_i at_p
        exact absurd (at_p ▸ tagged_tagWasm) untagged
      · exact kept.high found untagged
  | process =>
    by_cases null : answer.process = 0#t.ptrBits
    · simp only [MetaSandbox.registerReturn, if_pos null]
      exact kept.quiet holds rfl rfl rfl (fun found => found) kept.high
    · simp only [MetaSandbox.registerReturn, if_neg null]
      refine kept.quiet holds rfl rfl rfl (fun found => KeyMap.lookup_emplace_of_some found) ?_
      intro k o found untagged
      rw [KeyMap.lookup_emplace] at found
      split at found
      · rename_i at_p
        exact at_p ▸ above null
      · exact kept.high found untagged

theorem moved {place next : Place t} {act : Act t} (kept : s.Kept total) (free : TagFree t total)
    (holds : s.Local i place) (allowed : s.heaps.Allows (place.call act).toList)
    (answers : act.AnswersFrom total) (client : act.FreesLive s)
    (done : own i s place act = some (s', next)) : Moved total i s s' next := by
  cases act with
  | malloc size answer =>
    cases place <;> first | exact moved_malloc kept free holds allowed answers done | cases done
  | own => cases place <;> first | exact moved_own kept holds done | cases done
  | matchType => cases place <;> first | exact moved_matchType kept holds done | cases done
  | scratch raw => cases place <;> first | exact moved_scratch kept holds answers allowed done | cases done
  | link => cases place <;> first | exact moved_link kept holds done | cases done
  | free p => cases place <;> first | exact moved_free kept free holds client done | cases done
  | disown => cases place <;> first | exact moved_disown kept free holds done | cases done
  | unlink => cases place <;> first | exact moved_unlink kept free holds done | cases done
  | release => cases place <;> first | exact moved_release kept holds done | cases done
  | registerStructType info =>
    cases place <;> first
      | (cases done; exact kept.quiet holds rfl rfl rfl (fun found => found) kept.high)
      | cases done
  | registerReturn which answer =>
    cases place <;> first | exact moved_registerReturn kept holds answers done | cases done

end Commons

/-! ## Every run -/

variable [DecidableEq ι] {total : Nat} {s s' : System t D π ι} {l : ι × Act t}

omit [DecidableEq ι] in
theorem holding_start (policyState : π) :
    Holding (Commons.Kept total) Commons.Local (start policyState : System t D π ι) where
  shared := {
    entries := fun found => by cases found
    structs := fun _ => rfl
    high := fun found => by cases found
    heap := by
      have nothing : (start policyState : System t D π ι).shared.heaps.blockAt = fun _ => none := by
        funext x
        cases x <;> rfl
      rw [nothing]
      exact .empty }
  each i k c found := by cases found

theorem holding_step (free : TagFree t total) (holding : Holding (Commons.Kept total) Commons.Local s)
    (step : Step total s l s') : Holding (Commons.Kept total) Commons.Local s' := by
  obtain ⟨⟨allowed, answers, client⟩, done⟩ := step
  obtain ⟨i, act⟩ := l
  have moved : ∀ shared next, own i s.shared (s.place i) act = some (shared, next) →
      Commons.Moved total i s.shared shared next :=
    fun shared next ran => Commons.moved holding.shared free (holding.each i) allowed answers client ran
  refine holding.step done (fun shared next ran => ?_) fun shared next ran j other holds => ?_
  · exact ⟨(moved shared next ran).kept, (moved shared next ran).here⟩
  · exact (moved shared next ran).others j other _ holds

theorem holding_run (free : TagFree t total) {policyState : π} {steps : List (ι × Act t)}
    (run : Run (Step total) (start policyState) steps s) :
    Holding (Commons.Kept total) Commons.Local s :=
  run.invariant (holding_start policyState) fun _ _ _ holding step => holding_step free holding step

/-- What the registries and the heaps are good for, whatever the threads are at. -/
structure Accounted (s : System t D π ι) : Prop where
  registered : ∀ k c, s.shared.custody.lookup k = some c → c.holder = none →
    s.shared.sandbox.allocOwner.lookup k = some c.alloc.owner ∧
      s.shared.sandbox.structAllocs.lookup k = c.alloc.structInfo
  occupied : ∀ k c x n, s.shared.custody.lookup k = some c → (x, n) ∈ c.alloc.blocks →
    s.shared.heaps.blockAt x = some n
  apart : ∀ k j c d x n m, s.shared.custody.lookup k = some c → s.shared.custody.lookup j = some d →
    (x, n) ∈ c.alloc.blocks → (x, m) ∈ d.alloc.blocks → k = j
  releases : ∀ i k call rest, s.place i = .releasing k (call :: rest) →
    s.shared.heaps.Releases call ∧ ∃ c x n, s.shared.custody.lookup k = some c ∧ c.holder = some i ∧
      call.released = some x ∧ (x, n) ∈ c.alloc.blocks
  idle : (∀ i, s.place i = .idle) →
    (∀ x n, s.shared.heaps.blockAt x = some n ↔
      ∃ k c, s.shared.custody.lookup k = some c ∧ c.holder = none ∧ (x, n) ∈ c.alloc.blocks) ∧
    ∀ k, s.shared.sandbox.structAllocs.lookup k =
      (s.shared.custody.lookup k).bind fun c => c.alloc.structInfo

omit [DecidableEq ι] in
/-- The first of the calls that give an allocation back is for one of its blocks. -/
theorem mem_blocks_of_giveBack {a : LiveAlloc t} (checked : a.Checked) {call : BackendCall t}
    {rest : List (BackendCall t)} (calls : call :: rest = a.giveBack) :
    ∃ x n, call.released = some x ∧ (x, n) ∈ a.blocks := by
  have released := checked.giveBack_released
  rw [← calls, List.map_cons] at released
  have inside : call.released ∈ (a.blocks.map Prod.fst).reverse.map some := by
    rw [← released]
    exact List.mem_cons_self
  obtain ⟨x, held, same⟩ := List.mem_map.mp inside
  obtain ⟨⟨y, n⟩, block, rfl⟩ := List.mem_map.mp (List.mem_reverse.mp held)
  exact ⟨y, n, same.symm, block⟩

omit [DecidableEq ι] in
theorem releases_of_blockAt {h : Heaps t} {call : BackendCall t} {x : BlockAddress t} {n : SizeT t}
    (released : call.released = some x) (occupied : h.blockAt x = some n) : h.Releases call := by
  cases call <;> cases released <;>
    exact fun vacant => absurd (occupied.symm.trans vacant) (Option.some_ne_none n)

omit [DecidableEq ι] in
theorem accounted (holding : Holding (Commons.Kept total) Commons.Local s) : Accounted s := by
  have kept := holding.shared
  have held : ∀ {k c x n}, s.shared.custody.lookup k = some c → (x, n) ∈ c.alloc.blocks →
      (x, n) ∈ s.shared.share k := fun found inside => by
    rw [Commons.share_of_found found]
    exact inside
  have structs : ∀ {k c}, s.shared.custody.lookup k = some c → c.holder = none →
      c.structEntry = c.alloc.structInfo := by
    intro k c found client
    obtain ⟨-, -, linked⟩ := (kept.entries found).client client
    rw [Custody.structEntry, linked]
    by_cases bare : c.alloc.scratch = 0#32 <;> simp [LiveAlloc.structInfo, bare]
  constructor
  case registered =>
    intro k c found client
    refine ⟨(kept.entries found).owned ((kept.entries found).client client).1, ?_⟩
    rw [kept.structs, found]
    exact structs found client
  case occupied => exact fun k c x n found inside => kept.heap.occupied (held found inside)
  case apart =>
    exact fun k j c d x n m left right inside inside' =>
      kept.heap.apart (held left inside) (held right inside')
  case releases =>
    intro i k call rest at_i
    have here := holding.each i
    rw [at_i] at here
    obtain ⟨a, sole, calls⟩ := here
    obtain ⟨x, n, released, inside⟩ :=
      mem_blocks_of_giveBack (kept.entries sole.found).checked calls
    have occupied := kept.heap.occupied (held sole.found inside)
    exact ⟨releases_of_blockAt released occupied, _, x, n, sole.found, rfl, released, inside⟩
  case idle =>
    intro idle
    have client : ∀ {k c}, s.shared.custody.lookup k = some c → c.holder = none := by
      intro k c found
      cases holder : c.holder with
      | none => rfl
      | some i =>
        have here := holding.each i
        rw [idle i] at here
        exact absurd holder (here k c found)
    constructor
    · intro x n
      rw [kept.heap.blocks]
      constructor
      · rintro ⟨k, inside⟩
        unfold Commons.share at inside
        cases found : s.shared.custody.lookup k with
        | none =>
          rw [found] at inside
          cases inside
        | some c =>
          rw [found] at inside
          exact ⟨k, c, found, client found, inside⟩
      · rintro ⟨k, c, found, -, inside⟩
        exact ⟨k, held found inside⟩
    · intro k
      rw [kept.structs]
      cases found : s.shared.custody.lookup k with
      | none => rfl
      | some c => exact structs found (client found)

end RlboxDynamic.ConcurrentAllocation

namespace RlboxDynamic
open Transition ConcurrentAllocation

/-- However the steps of any number of threads are interleaved: what a client has
is in both registries with its owner and its scratch, no block belongs to two
allocations, a free releases only what its thread took over, and once no thread is
in a malloc or a free the heaps and the struct registry are the clients' alone. -/
theorem concurrent_allocations {t : Target} {D π ι : Type} [DecidableEq ι] {total : Nat}
    (free : TagFree t total) (policyState : π) {steps : List (ι × Act t)} {s : System t D π ι}
    (run : Run (Step total) (start policyState) steps s) : Accounted s :=
  accounted (holding_run free run)

/-- Two threads, each inside its own operation when the other acts: a free by the
untagged offset while another malloc is between its two backend calls. -/
theorem concurrent_allocations_overlapping :
    ∃ (steps : List (Bool × Act .i386)) (s : System .i386 Int Unit Bool),
      Run (Step 0x10000) (start ()) steps s ∧ Accounted s ∧ s.shared.heaps.wasm.keys = [0x30#32] := by
  have run : Run (Step 0x10000) (start () : System .i386 Int Unit Bool)
      [(true, .malloc 8#32 (.wasm 0x10#32)), (true, .own), (true, .matchType),
        (false, .malloc 8#32 (.wasm 0x30#32)), (true, .free 0x10#32), (false, .own), (true, .disown),
        (true, .unlink), (false, .matchType), (true, .release)] _ :=
    .cons ⟨⟨by decide, by decide, trivial⟩, rfl⟩ <| .cons ⟨⟨trivial, trivial, trivial⟩, rfl⟩ <|
    .cons ⟨⟨trivial, trivial, trivial⟩, rfl⟩ <| .cons ⟨⟨by decide, by decide, trivial⟩, rfl⟩ <|
    .cons ⟨⟨trivial, trivial, fun _ => ⟨0x80000010#32, _, rfl, rfl, .inr (by decide)⟩⟩, rfl⟩ <|
    .cons ⟨⟨trivial, trivial, trivial⟩, rfl⟩ <| .cons ⟨⟨trivial, trivial, trivial⟩, rfl⟩ <|
    .cons ⟨⟨trivial, trivial, trivial⟩, rfl⟩ <| .cons ⟨⟨trivial, trivial, trivial⟩, rfl⟩ <|
    .cons ⟨⟨⟨trivial, trivial⟩, trivial, trivial⟩, rfl⟩ .nil
  exact ⟨_, _, run, concurrent_allocations ⟨0x10000#32, by decide, by decide⟩ () run, by decide⟩

end RlboxDynamic
