import Mathlib.Data.List.Sort
import RlboxDynamic.AddressRange
import RlboxDynamic.ChannelIsolation
import RlboxDynamic.Recreation

/-! Where the memory of the process sandboxes lies, over any number of them and
of their lives, in both builds. A destroy unmaps nothing, so what one life mapped
is mapped for good and no later life gets it again. -/
namespace RlboxDynamic.HostProcess
open Transition

variable {t : Target}

/-! ## Any number of sandboxes -/

/-- The sandbox objects of one host. `created` is RLBox's own mark, set while a
sandbox is created. -/
structure Lives (t : Target) where
  objects : SandboxId → ProcessSandbox t
  host : Host
  created : SandboxId → Bool

namespace Lives

/-- No sandbox constructed has been created. -/
def start (t : Target) (host : Host) : Lives t where
  objects _ := .constructed t
  host
  created _ := false

def life (s : Lives t) (self : SandboxId) : Life t := ⟨s.objects self, s.host⟩

def put (s : Lives t) (self : SandboxId) (l : Life t) (created : Bool) : Lives t where
  objects := Function.update s.objects self l.object
  host := l.host
  created := Function.update s.created self created

/-- One call. RLBox creates no sandbox that is created, and destroys no other. -/
def exec (transport : Transport) (s : Lives t) : SandboxOp → Option (Lives t)
  | .create self os =>
    if s.created self then none
    else
      let (created, l) := (s.life self).implCreateSandbox transport self os
      some (s.put self l created)
  | .destroy self =>
    if s.created self then some (s.put self ((s.life self).implDestroySandbox transport self) false)
    else none

/-- The system answers a create with what is free. -/
def AllowsOp (s : Lives t) : SandboxOp → Prop
  | .create _ os => Allowed os s.host
  | .destroy _ => True

def Step (transport : Transport) (s : Lives t) (op : SandboxOp) (s' : Lives t) : Prop :=
  s.AllowsOp op ∧ s.exec transport op = some s'

/-- The addresses that lie in the memory of a sandbox. -/
def Holds (s : Lives t) (o : SandboxId) (a : Nat) : Prop :=
  s.created o = true ∧ (s.objects o).implIsPointerInSandboxMemory a = true

/-- The loop of `impl_is_in_same_sandbox` over `global_registry`, in the order of
the bases. -/
def sandboxOf (s : Lives t) (a : Nat) : Option SandboxId :=
  ((s.host.globalRegistry.entries.insertionSort fun e f => e.1 ≤ f.1).find? fun e =>
    decide (a ≥ e.1 ∧ a < e.1 + (s.objects e.2).sharedMemorySize)).map (·.2)

/-- `impl_is_in_same_sandbox`. -/
def implIsInSameSandbox (s : Lives t) (addr1 addr2 : Nat) : Bool :=
  decide (s.sandboxOf addr1 = s.sandboxOf addr2)

end Lives

/-! ## The range a call maps -/

/-- The base the reservation answers, whatever is mapped. -/
def reservedAt (t : Target) (os : CreateAnswers) : Option Nat := (reserve t os fun _ => false).1

/-- The memory a call publishes. -/
def SandboxOp.region (t : Target) : SandboxOp → Option AddressRange
  | .create _ os =>
    if os.memfd = none ∨ os.mmapFixed = false then none
    else (reservedAt t os).map fun base => ⟨base, sharedMemoryBytes⟩
  | .destroy _ => none

/-- All the memory that a sequence of calls publishes. -/
def regions (t : Target) (ops : List SandboxOp) : List AddressRange := ops.filterMap (SandboxOp.region t)

section
variable {os : CreateAnswers} {self : SandboxId} {transport : Transport} {mapped : Nat → Bool}

theorem mmapAtHint_fst (length : Nat) (hints : List (Nat × Option Nat)) (left right : Nat → Bool) :
    (mmapAtHint length hints left).1 = (mmapAtHint length hints right).1 := by
  induction hints generalizing left right with
  | nil => rfl
  | cons head rest ih =>
    obtain ⟨hint, answer⟩ := head
    cases answer with
    | none => exact ih left right
    | some res =>
      simp only [mmapAtHint]
      split
      · rfl
      · exact ih _ _

theorem reserve_fst (t : Target) (os : CreateAnswers) (mapped : Nat → Bool) :
    (reserve t os mapped).1 = reservedAt t os := by
  cases t with
  | x86_64 => unfold reserve reservedAt reserve; cases os.mmapPadded <;> rfl
  | i386 => exact mmapAtHint_fst _ _ _ _

/-- On i386 every base is one of the four hints. -/
theorem mmapAtHint_mem {length base : Nat} {hints : List (Nat × Option Nat)}
    (answered : (mmapAtHint length hints mapped).1 = some base) : base ∈ hints.map (·.1) := by
  induction hints generalizing mapped with
  | nil => cases answered
  | cons head rest ih =>
    obtain ⟨hint, answer⟩ := head
    cases answer with
    | none => exact List.mem_cons_of_mem _ (ih answered)
    | some res =>
      simp only [mmapAtHint] at answered
      split at answered
      · rename_i same
        cases answered
        exact same ▸ List.mem_cons_self
      · exact List.mem_cons_of_mem _ (ih answered)

theorem reservedAt_hint {base : Nat} (answered : reservedAt .i386 os = some base) :
    base ∈ kHintAddrs := by
  have inside := mmapAtHint_mem answered
  simpa [List.map_map, Function.comp_def] using inside

/-- On x86_64 every base is a multiple of four gigabytes. -/
theorem reservedAt_aligned {base : Nat} (answered : reservedAt .x86_64 os = some base) :
    0x100000000 ∣ base := by
  unfold reservedAt reserve osMmapAligned at answered
  cases padded : os.mmapPadded with
  | none => rw [padded] at answered; cases answered
  | some start =>
    rw [padded] at answered
    cases answered
    exact Nat.dvd_mul_left _ _

namespace Life
variable {s : Life t}

/-- What a create does to the memory and its registration: nothing, or it maps
one fresh range and registers it. -/
inductive Publishes (self : SandboxId) (os : CreateAnswers) (s : Life t) : Bool × Life t → Prop where
  | nothing (none : (SandboxOp.create self os).region t = none)
      (mapped : after.host.mapped = s.host.mapped)
      (registry : after.host.globalRegistry = s.host.globalRegistry)
      (size : after.object.sharedMemorySize = sharedMemoryBytes) :
      Publishes self os s (false, after)
  | region (base : Nat) (some : (SandboxOp.create self os).region t = some ⟨base, sharedMemoryBytes⟩)
      (fresh : FreshRange s.host.mapped base sharedMemoryBytes)
      (mapped : after.host.mapped = mmap base sharedMemoryBytes s.host.mapped)
      (registry : after.host.globalRegistry = s.host.globalRegistry.insert base self)
      (isBase : after.object.sharedMemoryLocalBase = base)
      (size : after.object.sharedMemorySize = sharedMemoryBytes) :
      Publishes self os s (created, after)

theorem implCreateSandbox_publishes (transport : Transport) (allowed : Allowed os s.host) :
    Publishes self os s (s.implCreateSandbox transport self os) := by
  obtain ⟨took, -⟩ := reserved allowed
  have answer := reserve_fst t os s.host.mapped
  unfold implCreateSandbox
  cases opened : os.memfd with
  | none => exact .nothing (by simp [SandboxOp.region, opened]) rfl rfl rfl
  | some shmFd =>
    dsimp only
    have untouched : ∀ l : Life t, (l.openFile shmFd (.shm self)).host.mapped = l.host.mapped :=
      fun _ => rfl
    rw [untouched]
    generalize reserve t os s.host.mapped = result at took answer ⊢
    cases took with
    | failed =>
      have none : reservedAt t os = none := answer.symm
      exact .nothing (by simp [SandboxOp.region, none]) rfl rfl rfl
    | took base fresh =>
      have placed : reservedAt t os = some base := answer.symm
      dsimp only
      split
      · rename_i unmapped
        refine .nothing (by simp [SandboxOp.region, unmapped]) ?_ rfl rfl
        exact munmap_mmap fresh
      · rename_i mapped
        have some_ : (SandboxOp.create self os).region t = some ⟨base, sharedMemoryBytes⟩ := by
          simp [SandboxOp.region, opened, mapped, placed]
        have keeps : (s.published self shmFd base).KeepsPublished
            ((s.published self shmFd base).createTransport transport self os shmFd).2 :=
          createTransport_keeps
        have published : Publishes self os s
            ((s.published self shmFd base).createTransport transport self os shmFd) :=
          .region base some_ fresh keeps.mapped keeps.registry keeps.base keeps.size
        cases transport <;> exact published

theorem implDestroySandbox_mapped (transport : Transport) (self : SandboxId) (s : Life t) :
    (s.implDestroySandbox transport self).host.mapped = s.host.mapped ∧
      (s.implDestroySandbox transport self).host.globalRegistry =
        s.host.globalRegistry.erase s.object.sharedMemoryLocalBase := by
  have channels : ∀ l : Life t, l.closeChannels.host.mapped = l.host.mapped ∧
      l.closeChannels.host.globalRegistry = l.host.globalRegistry := by
    intro l
    unfold closeChannels
    split <;> dsimp only <;> split <;> exact ⟨rfl, rfl⟩
  unfold implDestroySandbox
  cases transport with
  | rpclib =>
    dsimp only
    split <;> split <;> exact ⟨rfl, rfl⟩
  | capnp =>
    dsimp only
    generalize at_close : Life.mk _ _ = before
    obtain ⟨mapped, registry⟩ := channels before
    subst at_close
    split <;> exact ⟨mapped, registry⟩

end Life
end

/-! ## Over a run -/

/-- The published ranges lie apart, and they and nothing else have been mapped.
Every registered base is that of one of them, and every created sandbox is
registered at its own. -/
structure Lives.Regions (mapped : Nat → Bool) (ranges : List AddressRange) (s : Lives t) : Prop where
  apart : ranges.Pairwise AddressRange.Apart
  sized : ∀ r ∈ ranges, 0 < r.start ∧ r.length = sharedMemoryBytes
  mapped : ∀ a, s.host.mapped a = true ↔ mapped a = true ∨ ∃ r ∈ ranges, a ∈ r.addresses
  registered : ∀ base o, s.host.globalRegistry.lookup base = some o →
    ⟨base, sharedMemoryBytes⟩ ∈ ranges ∧ (s.objects o).sharedMemorySize = sharedMemoryBytes
  created : ∀ o, s.created o = true →
    s.host.globalRegistry.lookup (s.objects o).sharedMemoryLocalBase = some o

namespace Lives
variable {s s' : Lives t} {transport : Transport} {self : SandboxId} {os : CreateAnswers}
  {mapped : Nat → Bool} {ranges : List AddressRange} {ops : List SandboxOp} {a base : Nat}
  {o : SandboxId}

theorem put_objects (l : Life t) (created : Bool) (o : SandboxId) :
    (s.put self l created).objects o = if o = self then l.object else s.objects o :=
  Function.update_apply _ _ _ _

theorem put_created (l : Life t) (created : Bool) (o : SandboxId) :
    (s.put self l created).created o = if o = self then created else s.created o :=
  Function.update_apply _ _ _ _

theorem put_host (l : Life t) (created : Bool) : (s.put self l created).host = l.host := rfl

theorem mem_mmap {start length : Nat} :
    mmap start length mapped a = true ↔
      mapped a = true ∨ a ∈ (⟨start, length⟩ : AddressRange).addresses := by
  simp [mmap, AddressRange.addresses, AddressRange.stop]

theorem create_steps (step : Step transport s (.create self os) s') :
    s.created self = false ∧ Allowed os s.host ∧
      s' = s.put self ((s.life self).implCreateSandbox transport self os).2
        ((s.life self).implCreateSandbox transport self os).1 := by
  obtain ⟨allowed, ran⟩ := step
  simp only [exec] at ran
  split at ran
  · cases ran
  · rename_i down
    exact ⟨by simpa using down, allowed, (Option.some.inj ran).symm⟩

theorem destroy_steps (step : Step transport s (.destroy self) s') :
    s.created self = true ∧ s' = s.put self ((s.life self).implDestroySandbox transport self) false := by
  obtain ⟨-, ran⟩ := step
  simp only [exec] at ran
  split at ran
  · rename_i up
    exact ⟨up, (Option.some.inj ran).symm⟩
  · cases ran

namespace Regions

/-- A fresh range lies apart from every published one. -/
theorem apart_fresh (regions : Regions mapped ranges s)
    (fresh : FreshRange s.host.mapped base sharedMemoryBytes) :
    ∀ r ∈ ranges, r.Apart ⟨base, sharedMemoryBytes⟩ := by
  intro r published
  refine Set.disjoint_left.mpr fun a old new => ?_
  have taken := (regions.mapped a).mpr (.inr ⟨r, published, old⟩)
  rw [fresh.2 a new.1 new.2] at taken
  cases taken

/-- No base that is registered is fresh. -/
theorem ne_fresh (regions : Regions mapped ranges s)
    (fresh : FreshRange s.host.mapped base sharedMemoryBytes)
    (registered : s.host.globalRegistry.lookup a = some o) : a ≠ base := by
  rintro rfl
  have published := (regions.registered a o registered).1
  have here : a ∈ (⟨a, sharedMemoryBytes⟩ : AddressRange).addresses :=
    ⟨Nat.le_refl _, Nat.lt_add_of_pos_right (show 0 < sharedMemoryBytes by decide)⟩
  exact Set.disjoint_left.mp (regions.apart_fresh fresh _ published) here here

theorem create (regions : Regions mapped ranges s) (step : Step transport s (.create self os) s') :
    Regions mapped (ranges ++ ((SandboxOp.create self os).region t).toList) s' := by
  obtain ⟨down, allowed, rfl⟩ := create_steps step
  have outcome : (s.life self).Publishes self os _ :=
    Life.implCreateSandbox_publishes transport allowed
  generalize (s.life self).implCreateSandbox transport self os = result at outcome ⊢
  cases outcome with
  | @nothing after none sameMapped sameRegistry size =>
    rw [none, Option.toList_none, List.append_nil]
    constructor
    · exact regions.apart
    · exact regions.sized
    · intro a
      rw [put_host, sameMapped]
      exact regions.mapped a
    · intro base o found
      rw [put_host, sameRegistry] at found
      rw [put_objects]
      obtain ⟨published, sized⟩ := regions.registered base o found
      refine ⟨published, ?_⟩
      split
      · exact size
      · exact sized
    · intro o created
      rw [put_created] at created
      rw [put_objects, put_host, sameRegistry]
      split at created
      · cases created
      · rename_i other
        rw [if_neg other]
        exact regions.created o created
  | @region after created base some_ fresh newMapped newRegistry isBase size =>
    rw [some_, Option.toList_some]
    constructor
    · refine List.pairwise_append.mpr ⟨regions.apart, List.pairwise_singleton _ _, ?_⟩
      intro r published q new
      rw [List.mem_singleton.mp new]
      exact regions.apart_fresh fresh r published
    · intro r published
      rcases List.mem_append.mp published with old | new
      · exact regions.sized r old
      · rw [List.mem_singleton.mp new]
        exact ⟨fresh.1, rfl⟩
    · intro a
      rw [put_host, newMapped, mem_mmap]
      change (s.host.mapped a = true ∨ _) ↔ _
      rw [regions.mapped a]
      simp only [List.mem_append, List.mem_singleton, or_and_right, exists_or, exists_eq_left,
        or_assoc]
    · intro b o found
      rw [put_host, newRegistry] at found
      rw [put_objects]
      change (AList.insert base self s.host.globalRegistry).lookup b = some o at found
      rw [KeyMap.lookup_insert] at found
      split at found
      · rename_i here
        cases found
        rw [if_pos rfl, here]
        exact ⟨List.mem_append_right _ (List.mem_singleton_self _), size⟩
      · obtain ⟨published, sized⟩ := regions.registered b o found
        refine ⟨List.mem_append_left _ published, ?_⟩
        split
        · exact size
        · exact sized
    · intro o up
      rw [put_created] at up
      rw [put_objects, put_host, newRegistry]
      change (AList.insert base self s.host.globalRegistry).lookup _ = some o
      rw [KeyMap.lookup_insert]
      split at up
      · rename_i here
        rw [if_pos here, isBase, if_pos rfl, here]
      · rename_i other
        have registered := regions.created o up
        rw [if_neg other, if_neg (regions.ne_fresh fresh registered)]
        exact registered

theorem destroy (regions : Regions mapped ranges s) (step : Step transport s (.destroy self) s') :
    Regions mapped ranges s' := by
  obtain ⟨up, rfl⟩ := destroy_steps step
  obtain ⟨sameMapped, erased⟩ :=
    Life.implDestroySandbox_mapped transport self (s.life self)
  have kept : (s.life self).KeepsMembers ((s.life self).implDestroySandbox transport self) :=
    Life.implDestroySandbox_keeps
  have mine := regions.created self up
  constructor
  · exact regions.apart
  · exact regions.sized
  · intro a
    rw [put_host, sameMapped]
    exact regions.mapped a
  · intro base o found
    rw [put_host, erased, KeyMap.lookup_erase] at found
    split at found
    · cases found
    · obtain ⟨published, sized⟩ := regions.registered base o found
      refine ⟨published, ?_⟩
      rw [put_objects]
      split
      · rename_i here
        rw [kept.size, ← sized, here]
        rfl
      · exact sized
  · intro o created
    rw [put_created] at created
    split at created
    · cases created
    · rename_i other
      have registered := regions.created o created
      -- two sandboxes are not registered at one base
      have elsewhere : (s.objects o).sharedMemoryLocalBase ≠
          (s.objects self).sharedMemoryLocalBase := by
        intro same
        rw [same, mine] at registered
        exact other (Option.some.inj registered).symm
      rw [put_objects, if_neg other, put_host, erased, KeyMap.lookup_erase]
      rw [if_neg (show _ ≠ (s.life self).object.sharedMemoryLocalBase from elsewhere)]
      exact registered

end Regions

theorem regions_start (host : Host) (empty : host.globalRegistry = ∅) :
    Regions host.mapped [] (start t host) where
  apart := .nil
  sized _ inside := by cases inside
  mapped a := by simp [start]
  registered base o found := by
    simp [start, empty] at found
  created _ up := by cases up

theorem regions_of_run {host : Host} (empty : host.globalRegistry = ∅)
    (run : Run (Step transport) (start t host) ops s) : Regions host.mapped (regions t ops) s := by
  refine run.recorded (fun past s => Regions host.mapped (regions t past) s) []
    (regions_start host empty) fun past u op v before step => ?_
  have one : regions t (past ++ [op]) = regions t past ++ (op.region t).toList := by
    rw [HostProcess.regions, List.filterMap_append]
    cases found : op.region t <;> simp [found, HostProcess.regions]
  rw [one]
  cases op with
  | create self os => exact before.create step
  | destroy self =>
    rw [SandboxOp.region, Option.toList_none, List.append_nil]
    exact before.destroy step

/-! ## Which sandbox an address is in -/

namespace Regions

theorem holds_iff (regions : Regions mapped ranges s) :
    s.Holds o a ↔ s.created o = true ∧
      a ∈ (⟨(s.objects o).sharedMemoryLocalBase, sharedMemoryBytes⟩ : AddressRange).addresses := by
  refine and_congr_right fun up => ?_
  obtain ⟨published, size⟩ := regions.registered _ o (regions.created o up)
  have positive : 0 < (s.objects o).sharedMemoryLocalBase := (regions.sized _ published).1
  rw [ProcessSandbox.implIsPointerInSandboxMemory, if_neg (Nat.ne_of_gt positive), size]
  simp [AddressRange.addresses, AddressRange.stop]

/-- Published ranges that share an address are one. -/
theorem eq_of_mem (regions : Regions mapped ranges s) {r q : AddressRange} (left : r ∈ ranges)
    (right : q ∈ ranges) (inLeft : a ∈ r.addresses) (inRight : a ∈ q.addresses) : r = q := by
  by_contra different
  have apart := regions.apart.forall left right different
  exact Set.disjoint_left.mp apart inLeft inRight

/-- The first entry whose range the address is in is the only one. -/
theorem sandboxOf_iff (regions : Regions mapped ranges s) :
    s.sandboxOf a = some o ↔ ∃ base, s.host.globalRegistry.lookup base = some o ∧
      a ∈ (⟨base, sharedMemoryBytes⟩ : AddressRange).addresses := by
  have inside : ∀ e ∈ s.host.globalRegistry.entries, s.host.globalRegistry.lookup e.1 = some e.2 :=
    fun e listed => AList.mem_lookup_iff.mpr listed
  unfold sandboxOf
  constructor
  · intro found
    obtain ⟨e, first, rfl⟩ := Option.map_eq_some_iff.mp found
    have listed := inside e ((List.mem_insertionSort _).mp (List.mem_of_find?_eq_some first))
    obtain ⟨-, size⟩ := regions.registered _ _ listed
    have holds := List.find?_some first
    rw [size, decide_eq_true_eq] at holds
    exact ⟨e.1, listed, holds⟩
  · rintro ⟨base, registered, within⟩
    obtain ⟨published, size⟩ := regions.registered _ _ registered
    have listed : (⟨base, o⟩ : Sigma fun _ : Nat => SandboxId) ∈ s.host.globalRegistry.entries :=
      AList.mem_lookup_iff.mp registered
    cases first : (s.host.globalRegistry.entries.insertionSort fun e f => e.1 ≤ f.1).find?
        fun e => decide (a ≥ e.1 ∧ a < e.1 + (s.objects e.2).sharedMemorySize) with
    | none =>
      have missed := List.find?_eq_none.mp first ⟨base, o⟩ ((List.mem_insertionSort _).mpr listed)
      rw [size, decide_eq_true_eq] at missed
      exact absurd within missed
    | some e =>
      have found := inside e ((List.mem_insertionSort _).mp (List.mem_of_find?_eq_some first))
      obtain ⟨published', size'⟩ := regions.registered _ _ found
      have holds := List.find?_some first
      rw [size', decide_eq_true_eq] at holds
      have same := regions.eq_of_mem published' published holds within
      have sameBase : e.1 = base := congrArg AddressRange.start same
      rw [sameBase, registered] at found
      exact found.symm

end Regions

/-! ## One life and the next -/

/-- What a call does to the registry at a base that is published already. -/
theorem Regions.lookup_step (regions : Regions mapped ranges s) {op : SandboxOp}
    (step : Step transport s op s') (published : ⟨base, sharedMemoryBytes⟩ ∈ ranges) :
    s'.host.globalRegistry.lookup base = s.host.globalRegistry.lookup base ∨
      s'.host.globalRegistry.lookup base = none ∧
        ∃ o, op = .destroy o ∧ (s.objects o).sharedMemoryLocalBase = base := by
  cases op with
  | create self os =>
    obtain ⟨-, allowed, rfl⟩ := create_steps step
    have outcome : (s.life self).Publishes self os _ :=
      Life.implCreateSandbox_publishes transport allowed
    generalize (s.life self).implCreateSandbox transport self os = result at outcome ⊢
    cases outcome with
    | nothing _ _ sameRegistry _ =>
      rw [put_host, sameRegistry]
      exact .inl rfl
    | @region after created new _ fresh _ newRegistry _ _ =>
      have here : base ∈ (⟨base, sharedMemoryBytes⟩ : AddressRange).addresses :=
        ⟨Nat.le_refl _, Nat.lt_add_of_pos_right (show 0 < sharedMemoryBytes by decide)⟩
      have different : base ≠ new := by
        rintro rfl
        exact Set.disjoint_left.mp (regions.apart_fresh fresh _ published) here here
      rw [put_host, newRegistry, KeyMap.lookup_insert, if_neg different]
      exact .inl rfl
  | destroy self =>
    obtain ⟨-, rfl⟩ := destroy_steps step
    obtain ⟨-, erased⟩ :=
      Life.implDestroySandbox_mapped transport self (s.life self)
    rw [put_host, erased, KeyMap.lookup_erase]
    split
    · rename_i here
      exact .inr ⟨rfl, self, rfl, here.symm⟩
    · exact .inl rfl

/-- What held an address holds it until it is destroyed, and then nothing does. -/
structure Lasting (base : Nat) (o : SandboxId) (past : List SandboxOp) (s : Lives t) : Prop where
  held : .destroy o ∉ past → s.created o = true ∧ (s.objects o).sharedMemoryLocalBase = base
  gone : .destroy o ∈ past → s.host.globalRegistry.lookup base = none

theorem Lasting.step {past : List SandboxOp} {op : SandboxOp} (lasting : Lasting base o past s)
    (regions : Regions mapped ranges s) (published : ⟨base, sharedMemoryBytes⟩ ∈ ranges)
    (step : Step transport s op s') : Lasting base o (past ++ [op]) s' := by
  have lookup := regions.lookup_step step published
  constructor
  · intro alive
    rw [List.mem_append, List.mem_singleton, not_or] at alive
    obtain ⟨up, placed⟩ := lasting.held alive.1
    cases op with
    | create self os =>
      obtain ⟨down, -, rfl⟩ := create_steps step
      have other : o ≠ self := by
        rintro rfl
        rw [up] at down
        cases down
      rw [put_created, put_objects, if_neg other, if_neg other]
      exact ⟨up, placed⟩
    | destroy self =>
      obtain ⟨-, rfl⟩ := destroy_steps step
      have other : o ≠ self := fun same => alive.2 (same ▸ rfl)
      rw [put_created, put_objects, if_neg other, if_neg other]
      exact ⟨up, placed⟩
  · intro ended
    rcases List.mem_append.mp ended with before | now
    · rcases lookup with same | ⟨none, -⟩
      · exact same.trans (lasting.gone before)
      · exact none
    · obtain rfl := List.mem_singleton.mp now
      by_cases before : .destroy o ∈ past
      · rcases lookup with same | ⟨none, -⟩
        · exact same.trans (lasting.gone before)
        · exact none
      · obtain ⟨-, placed⟩ := lasting.held before
        obtain ⟨-, rfl⟩ := destroy_steps step
        obtain ⟨-, erased⟩ :=
          Life.implDestroySandbox_mapped transport o (s.life o)
        have here : base = (s.life o).object.sharedMemoryLocalBase := placed.symm
        rw [put_host, erased, KeyMap.lookup_erase, if_pos here]

theorem lasting_of_run {host : Host} {before after : List SandboxOp} {u : Lives t}
    (empty : host.globalRegistry = ∅) (first : Run (Step transport) (start t host) before u)
    (rest : Run (Step transport) u after s) (holds : u.Holds o a) :
    Lasting (u.objects o).sharedMemoryLocalBase o after s := by
  have published := ((regions_of_run empty first).registered _ o
    ((regions_of_run empty first).created o holds.1)).1
  refine (rest.recorded (fun past v => Run (Step transport) (start t host) (before ++ past) v ∧
    Lasting (u.objects o).sharedMemoryLocalBase o past v) [] ?_ ?_).2
  · rw [List.append_nil]
    exact ⟨first, fun _ => ⟨holds.1, rfl⟩, fun inside => by cases inside⟩
  · rintro past v op w ⟨upTo, lasting⟩ step
    refine ⟨?_, ?_⟩
    · rw [← List.append_assoc]
      exact upTo.snoc step
    · refine lasting.step (regions_of_run empty upTo) ?_ step
      rw [HostProcess.regions, List.filterMap_append]
      exact List.mem_append_left _ published

/-- The memory of all sandboxes and all their lives. -/
structure NeverReused (transport : Transport) (host : Host) (ops : List SandboxOp) (s : Lives t) :
    Prop where
  apart : (regions t ops).Pairwise AddressRange.Apart
  mapped : ∀ a, s.host.mapped a = true ↔
    host.mapped a = true ∨ ∃ r ∈ regions t ops, a ∈ r.addresses
  masked : t = .x86_64 → ∀ r ∈ regions t ops, ∀ a ∈ r.addresses,
    a / 0x100000000 * 0x100000000 = r.start
  four : t = .i386 → (regions t ops).length ≤ 4
  stale : ∀ before after u, ops = before ++ after → Run (Step transport) (start t host) before u →
    Run (Step transport) u after s → ∀ o o' a, u.Holds o a → s.Holds o' a →
      o' = o ∧ .destroy o ∉ after

/-- Each range is where the target's reservation puts it. -/
theorem placed_of_mem {r : AddressRange} (published : r ∈ regions t ops) :
    r.length = sharedMemoryBytes ∧ ∃ os, reservedAt t os = some r.start := by
  obtain ⟨op, -, region⟩ := List.mem_filterMap.mp published
  cases op with
  | destroy self => cases region
  | create self os =>
    simp only [SandboxOp.region] at region
    split at region
    · cases region
    · obtain ⟨base, answered, rfl⟩ := Option.map_eq_some_iff.mp region
      exact ⟨rfl, os, answered⟩

theorem at_most_four {ops : List SandboxOp} (apart : (regions .i386 ops).Pairwise AddressRange.Apart) :
    (regions .i386 ops).length ≤ 4 := by
  have distinct : ((regions .i386 ops).map (·.start)).Nodup := by
    refine List.pairwise_map.mpr (apart.imp_of_mem ?_)
    intro r q left right apart same
    have positive : 0 < sharedMemoryBytes := by decide
    have length := (placed_of_mem left).1
    have length' := (placed_of_mem right).1
    have inLeft : r.start ∈ r.addresses := ⟨Nat.le_refl _, by rw [AddressRange.stop]; omega⟩
    have inRight : r.start ∈ q.addresses :=
      ⟨Nat.le_of_eq same.symm, by rw [AddressRange.stop, ← same]; omega⟩
    exact Set.disjoint_left.mp apart inLeft inRight
  have hints : (regions .i386 ops).map (·.start) ⊆ kHintAddrs := by
    intro base inside
    obtain ⟨r, published, rfl⟩ := List.mem_map.mp inside
    obtain ⟨-, os, answered⟩ := placed_of_mem published
    exact reservedAt_hint answered
  have short := (List.subperm_of_subset distinct hints).length_le
  rwa [List.length_map] at short

/-- The upper half of an address in a sandbox's memory is its base's. -/
theorem masked_of_mem {ops : List SandboxOp} {r : AddressRange} (published : r ∈ regions .x86_64 ops)
    (inside : a ∈ r.addresses) : a / 0x100000000 * 0x100000000 = r.start := by
  obtain ⟨length, os, answered⟩ := placed_of_mem published
  obtain ⟨n, start⟩ := reservedAt_aligned answered
  have bytes : sharedMemoryBytes = 0x4000000 := rfl
  rw [AddressRange.mem_addresses, AddressRange.stop] at inside
  omega

/-- An address held in one life is held in a later state by the same sandbox
only, and only while it lives. -/
theorem not_stale {host : Host} {before after : List SandboxOp} {u : Lives t} {o' : SandboxId}
    (empty : host.globalRegistry = ∅) (first : Run (Step transport) (start t host) before u)
    (rest : Run (Step transport) u after s) (held : u.Holds o a) (holds : s.Holds o' a) :
    o' = o ∧ .destroy o ∉ after := by
  have earlier := regions_of_run empty first
  have later := regions_of_run empty (first.append rest)
  have within := (earlier.holds_iff.mp held).2
  have within' := (later.holds_iff.mp holds).2
  have published : (⟨(u.objects o).sharedMemoryLocalBase, sharedMemoryBytes⟩ : AddressRange) ∈
      regions t (before ++ after) := by
    rw [HostProcess.regions, List.filterMap_append]
    exact List.mem_append_left _ (earlier.registered _ o (earlier.created o held.1)).1
  have registered := later.created o' holds.1
  have published' := (later.registered _ o' registered).1
  have sameBase : (u.objects o).sharedMemoryLocalBase = (s.objects o').sharedMemoryLocalBase :=
    congrArg AddressRange.start (later.eq_of_mem published published' within within')
  have lasting := lasting_of_run empty first rest held
  rw [← sameBase] at registered
  have alive : .destroy o ∉ after := by
    intro ended
    rw [lasting.gone ended] at registered
    cases registered
  obtain ⟨up, placed⟩ := lasting.held alive
  have mine := later.created o up
  rw [placed, registered] at mine
  exact ⟨Option.some.inj mine, alive⟩

/-! ## `impl_is_in_same_sandbox` -/

end Lives

/-- A create that fails undoes what it did. -/
def SandboxOp.AllOrNothing (t : Target) (transport : Transport) : SandboxOp → Prop
  | .create _ os => EarlyFailure t os ∨ ¬ LateFailure transport os
  | .destroy _ => True

namespace Lives
variable {s s' : Lives t} {transport : Transport} {op : SandboxOp}

/-- What is registered is what is created, at its base. -/
def Registered (s : Lives t) : Prop :=
  ∀ base o, s.host.globalRegistry.lookup base = some o →
    s.created o = true ∧ base = (s.objects o).sharedMemoryLocalBase

theorem Registered.step (registered : Registered s) (whole : op.AllOrNothing t transport) (step : Step transport s op s') : Registered s' := by
  cases op with
  | create self os =>
    obtain ⟨down, allowed, rfl⟩ := create_steps step
    have undone : HostProcess.AllOrNothing transport self os (s.life self) :=
      (allOrNothing_iff allowed).mpr whole
    have outcome : (s.life self).Publishes self os _ :=
      Life.implCreateSandbox_publishes transport allowed
    unfold HostProcess.AllOrNothing at undone
    generalize (s.life self).implCreateSandbox transport self os = result at outcome undone ⊢
    have others : ∀ base o, s.host.globalRegistry.lookup base = some o → o ≠ self := by
      rintro base o found rfl
      rw [(registered base o found).1] at down
      cases down
    intro base o found
    rw [put_created, put_objects]
    cases outcome with
    | nothing _ _ sameRegistry _ =>
      rw [put_host, sameRegistry] at found
      rw [if_neg (others base o found), if_neg (others base o found)]
      exact registered base o found
    | @region after created new _ fresh newMapped newRegistry isBase _ =>
      rw [put_host, newRegistry, KeyMap.lookup_insert] at found
      split at found
      · rename_i here
        cases found
        rw [if_pos rfl, if_pos rfl, isBase, here]
        refine ⟨?_, rfl⟩
        by_contra failed
        have restored := undone (by simpa using failed)
        rw [restored] at newMapped
        exact mmap_ne_self fresh (by decide) newMapped.symm
      · rw [if_neg (others base o found), if_neg (others base o found)]
        exact registered base o found
  | destroy self =>
    obtain ⟨-, rfl⟩ := destroy_steps step
    obtain ⟨-, erased⟩ :=
      Life.implDestroySandbox_mapped transport self (s.life self)
    intro base o found
    rw [put_host, erased, KeyMap.lookup_erase] at found
    split at found
    · cases found
    · rename_i elsewhere
      obtain ⟨up, placed⟩ := registered base o found
      have other : o ≠ self := by
        rintro rfl
        exact elsewhere placed
      rw [put_created, put_objects, if_neg other, if_neg other]
      exact ⟨up, placed⟩

/-- A run in which every create that fails undoes what it did. -/
abbrev WholeRun (transport : Transport) (host : Host) (ops : List SandboxOp) (s : Lives t) : Prop :=
  Run (Guarded (fun _ op => op.AllOrNothing t transport) (Step transport)) (start t host) ops s

theorem registered_of_run {host : Host} {ops : List SandboxOp} (empty : host.globalRegistry = ∅)
    (run : WholeRun transport host ops s) : Registered s := by
  refine run.invariant ?_ fun _ _ _ registered step => registered.step step.1 step.2
  intro base o found
  simp [start, empty] at found

/-- The loop finds the sandbox that holds the address. -/
theorem sandboxOf_eq_some_iff {host : Host} {ops : List SandboxOp} {a : Nat} {o : SandboxId}
    (empty : host.globalRegistry = ∅) (run : WholeRun transport host ops s) :
    s.sandboxOf a = some o ↔ s.Holds o a := by
  have regions := regions_of_run empty (run.mono fun _ _ _ step => step.2)
  rw [regions.sandboxOf_iff, regions.holds_iff]
  constructor
  · rintro ⟨base, found, inside⟩
    obtain ⟨up, rfl⟩ := registered_of_run empty run base o found
    exact ⟨up, inside⟩
  · rintro ⟨up, inside⟩
    exact ⟨_, regions.created o up, inside⟩

end Lives
end RlboxDynamic.HostProcess

namespace RlboxDynamic
open Transition HostProcess HostProcess.Sandboxes

/-- Over any number of sandboxes, creates and destroys, in both builds: all that
was ever published lies apart and stays mapped, an address of one life is never
an address of another, and the i386 build publishes four times at most. -/
theorem sandbox_memory_never_reused {t : Target} {transport : Transport} {host : Host}
    {ops : List SandboxOp} {s : Lives t} (empty : host.globalRegistry = ∅)
    (run : Run (Lives.Step transport) (.start t host) ops s) :
    Lives.NeverReused transport host ops s := by
  have regions := Lives.regions_of_run empty run
  refine ⟨regions.apart, regions.mapped, ?_, ?_, ?_⟩
  · rintro rfl r published a inside
    exact Lives.masked_of_mem published inside
  · rintro rfl
    exact Lives.at_most_four regions.apart
  · rintro before after u - first rest o o' a held holds
    exact Lives.not_stale empty first rest held holds

/-- The sandbox 0 created and destroyed in an empty host. -/
def destroyedOnce : Lives .i386 :=
  let created := (emptyHost .i386).implCreateSandbox .capnp 0 allSucceed
  ((Lives.start .i386 (emptyHost .i386).host).put 0 created.2 true).put 0
    (created.2.implDestroySandbox .capnp 0) false

theorem run_destroyedOnce : Run (Lives.Step .capnp) (.start .i386 (emptyHost .i386).host)
    [.create 0 allSucceed, .destroy 0] destroyedOnce :=
  .cons ⟨allowed_emptyHost (t := .i386) allSucceed rfl rfl (by decide), rfl⟩
    (.cons ⟨trivial, rfl⟩ .nil)

theorem nextSucceeds_allowed : Allowed nextSucceeds destroyedOnce.host where
  padded _ answered := by cases answered
  hinted hint start answered := by
    obtain ⟨-, rfl⟩ : hint = 0x50000000 ∧ start = 0x50000000 := by
      simp only [nextSucceeds, Option.ite_none_right_eq_some, Option.some.injEq] at answered
      omega
    refine ⟨by decide, fun a above below => ?_⟩
    change mmap 0x40000000 sharedMemoryBytes (fun _ => false) a = false
    simp only [mmap, Bool.false_or, decide_eq_false_iff_not]
    have bytes : sharedMemoryBytes = 0x4000000 := rfl
    omega
  fds := ⟨by decide, by decide⟩
  pid pid answered child inside := by cases inside

/-- Created again, it lies at the next hint. -/
theorem recreated_elsewhere : ∃ s : Lives .i386,
    Run (Lives.Step .capnp) (.start .i386 (emptyHost .i386).host)
      [.create 0 allSucceed, .destroy 0, .create 0 nextSucceeds] s ∧
    regions .i386 [.create 0 allSucceed, .destroy 0, .create 0 nextSucceeds] =
      [⟨0x40000000, sharedMemoryBytes⟩, ⟨0x50000000, sharedMemoryBytes⟩] ∧
    Lives.NeverReused .capnp (emptyHost .i386).host
      [.create 0 allSucceed, .destroy 0, .create 0 nextSucceeds] s :=
  ⟨_, run_destroyedOnce.snoc ⟨nextSucceeds_allowed, rfl⟩, by decide,
    sandbox_memory_never_reused rfl (run_destroyedOnce.snoc ⟨nextSucceeds_allowed, rfl⟩)⟩

/-- `impl_is_in_same_sandbox`, over any number of sandboxes, creates and
destroys, in both builds and as long as a create that fails undoes what it did:
the answer is yes exactly where one sandbox that is up holds both addresses, or
none holds either. -/
theorem same_sandbox_exact {t : Target} {transport : Transport} {host : Host}
    {ops : List SandboxOp} {s : Lives t} (empty : host.globalRegistry = ∅)
    (run : Lives.WholeRun transport host ops s) (addr1 addr2 : Nat) :
    s.implIsInSameSandbox addr1 addr2 = true ↔
      (∃ o, s.Holds o addr1 ∧ s.Holds o addr2) ∨ ∀ o, ¬ s.Holds o addr1 ∧ ¬ s.Holds o addr2 := by
  have finds : ∀ a o, s.sandboxOf a = some o ↔ s.Holds o a :=
    fun a o => Lives.sandboxOf_eq_some_iff empty run
  simp only [Lives.implIsInSameSandbox, decide_eq_true_eq, ← finds]
  cases s.sandboxOf addr1 with
  | none => cases s.sandboxOf addr2 <;> simp
  | some o =>
    constructor
    · exact fun same => .inl ⟨o, rfl, same.symm⟩
    · rintro (⟨o', same, same'⟩ | none)
      · exact same.trans same'.symm
      · exact absurd rfl (none o).1

/-- The two ends of one sandbox's memory, and the next address. -/
theorem one_sandbox_exact : ∃ s : Lives .i386,
    Lives.WholeRun .capnp (emptyHost .i386).host [.create 0 allSucceed] s ∧
      s.implIsInSameSandbox 0x40000000 0x43ffffff = true ∧
      ¬ ((∃ o, s.Holds o 0x40000000 ∧ s.Holds o 0x44000000) ∨
        ∀ o, ¬ s.Holds o 0x40000000 ∧ ¬ s.Holds o 0x44000000) := by
  have run : Lives.WholeRun .capnp (emptyHost .i386).host [.create 0 allSucceed]
      ((Lives.start .i386 (emptyHost .i386).host).put 0
        ((emptyHost .i386).implCreateSandbox .capnp 0 allSucceed).2 true) :=
    .single ⟨.inr (by simp [LateFailure, allSucceed]),
      allowed_emptyHost (t := .i386) allSucceed rfl rfl (by decide), rfl⟩
  refine ⟨_, run, by decide, ?_⟩
  rw [← same_sandbox_exact rfl run]
  decide

end RlboxDynamic
