import RlboxDynamic.HostProcess

/-! Creation as a transaction. The exits before the sandbox is published undo
all that was done; those after it only close the descriptor of the shared
memory, and some of them not only that is open. -/
namespace RlboxDynamic.HostProcess

variable {t : Target} {mapped : Nat → Bool} {start length a : Nat} {os : CreateAnswers}

/-! ## Mappings -/

theorem munmap_mmap (fresh : FreshRange mapped start length) :
    munmap start length (mmap start length mapped) = mapped := by
  funext a
  by_cases inside : start ≤ a ∧ a < start + length
  · simp [munmap, inside, fresh.2 a inside.1 inside.2]
  · simp [munmap, mmap, inside]

theorem mmap_ne_self (fresh : FreshRange mapped start length) (positive : 0 < length) :
    mmap start length mapped ≠ mapped := by
  intro same
  have here : mmap start length mapped start = true := by simp [mmap, positive]
  rw [same, fresh.2 start (Nat.le_refl _) (by omega)] at here
  cases here

/-- What is left of a padded mapping after both trims is the aligned part. -/
theorem mmap_trimmed {padded front : Nat} (fresh : FreshRange mapped start padded)
    (fits : front + length ≤ padded) :
    (let m := mmap start padded mapped
      let m := if front > 0 then munmap start front m else m
      if padded - front - length > 0 then
        munmap (start + front + length) (padded - front - length) m else m) =
      mmap (start + front) length mapped := by
  funext a
  have free := fresh.2 a
  by_cases inside : start ≤ a ∧ a < start + padded
  · have untaken := free inside.1 inside.2
    by_cases before : front > 0 <;> by_cases behind : padded - front - length > 0 <;>
      simp only [before, behind, if_true, if_false, mmap, munmap, untaken, Bool.false_or] <;>
      rw [Bool.eq_iff_iff] <;> simp only [Bool.and_eq_true, decide_eq_true_eq] <;> omega
  · have outside : ¬ (start + front ≤ a ∧ a < start + front + length) := by omega
    have kept : ∀ lo n, start ≤ lo → lo + n ≤ start + padded → ¬ (lo ≤ a ∧ a < lo + n) := by
      intro lo n low high
      omega
    have notFront := kept start front (Nat.le_refl _) (by omega)
    have notBack := kept (start + front + length) (padded - front - length) (by omega) (by omega)
    by_cases before : front > 0 <;> by_cases behind : padded - front - length > 0 <;>
      simp [before, behind, mmap, munmap, inside, outside, notFront, notBack]

/-- A reservation either changes no mapping or takes one fresh range. -/
inductive Reserved (mapped : Nat → Bool) (length : Nat) : Option Nat × (Nat → Bool) → Prop where
  | failed : Reserved mapped length (none, mapped)
  | took (base : Nat) (fresh : FreshRange mapped base length) :
      Reserved mapped length (some base, mmap base length mapped)

theorem reserved_osMmapAligned {alignment : Nat} {answer : Option Nat} (positive : 0 < alignment)
    (fresh : ∀ start, answer = some start → FreshRange mapped start (length + alignment)) :
    Reserved mapped length (osMmapAligned length alignment answer mapped) ∧
      ((osMmapAligned length alignment answer mapped).1 = none ↔ answer = none) := by
  cases answer with
  | none => exact ⟨.failed, by simp [osMmapAligned]⟩
  | some start =>
    refine ⟨?_, by simp [osMmapAligned]⟩
    have free := fresh start rfl
    obtain ⟨front, aligned, small⟩ : ∃ front,
        (start + (alignment - 1)) / alignment * alignment = start + front ∧ front < alignment := by
      have division := Nat.div_add_mod (start + (alignment - 1)) alignment
      have remainder := Nat.mod_lt (start + (alignment - 1)) positive
      rw [Nat.mul_comm] at division
      refine ⟨alignment - 1 - (start + (alignment - 1)) % alignment, ?_, ?_⟩ <;> omega
    have trimmed := mmap_trimmed free (show front + length ≤ length + alignment by omega)
    have shape : osMmapAligned length alignment (some start) mapped =
        (some (start + front), mmap (start + front) length mapped) := by
      unfold osMmapAligned
      dsimp only at trimmed ⊢
      rw [aligned, Nat.add_sub_cancel_left, trimmed]
    rw [shape]
    exact .took _ ⟨by have := free.1; omega, fun a low high => free.2 a (by omega) (by omega)⟩

theorem reserved_mmapAtHint {hints : List (Nat × Option Nat)}
    (fresh : ∀ hint start, (hint, some start) ∈ hints → FreshRange mapped start length) :
    Reserved mapped length (mmapAtHint length hints mapped) ∧
      ((mmapAtHint length hints mapped).1 = none ↔ ∀ hint, (hint, some hint) ∉ hints) := by
  induction hints with
  | nil => exact ⟨.failed, by simp [mmapAtHint]⟩
  | cons head rest ih =>
    obtain ⟨hint, answer⟩ := head
    have later := ih fun hint start inside => fresh hint start (List.mem_cons_of_mem _ inside)
    cases answer with
    | none =>
      refine ⟨later.1, ?_⟩
      rw [mmapAtHint, later.2]
      simp
    | some res =>
      have free := fresh hint res List.mem_cons_self
      by_cases same : res = hint
      · subst same
        refine ⟨?_, ?_⟩
        · rw [mmapAtHint, if_pos rfl]
          exact .took res free
        · rw [mmapAtHint, if_pos rfl]
          exact iff_of_false (by simp) fun none => none res List.mem_cons_self
      · rw [mmapAtHint, if_neg same, munmap_mmap free]
        refine ⟨later.1, ?_⟩
        rw [later.2]
        simp only [List.mem_cons, Prod.mk.injEq, Option.some.injEq, not_or]
        exact ⟨fun none hint' => ⟨fun ⟨first, second⟩ => same (second.symm.trans first), none hint'⟩,
          fun none hint' => (none hint').2⟩

/-- The system gives the target a range to map the shared memory at. -/
def Reserves (t : Target) (os : CreateAnswers) : Prop :=
  match t with
  | .x86_64 => os.mmapPadded ≠ none
  | .i386 => ∃ hint ∈ kHintAddrs, os.mmapHint hint = some hint

theorem reserved {host : Host} (allowed : Allowed os host) :
    Reserved host.mapped sharedMemoryBytes (reserve t os host.mapped) ∧
      ((reserve t os host.mapped).1 = none ↔ ¬ Reserves t os) := by
  cases t with
  | x86_64 =>
    obtain ⟨reserved, none⟩ :=
      reserved_osMmapAligned (show 0 < 0x100000000 by decide) allowed.padded
    exact ⟨reserved, none.trans Classical.not_not.symm⟩
  | i386 =>
    have fresh : ∀ hint start,
        (hint, some start) ∈ kHintAddrs.map (fun hint => (hint, os.mmapHint hint)) →
        FreshRange host.mapped start sharedMemoryBytes := by
      intro hint start inside
      obtain ⟨tried, -, same⟩ := List.mem_map.mp inside
      exact allowed.hinted tried start (Prod.mk.inj same).2
    obtain ⟨reserved, none⟩ := reserved_mmapAtHint fresh
    refine ⟨reserved, none.trans ?_⟩
    simp [Reserves]

/-! ## The transport's part -/

/-- A step past publication fails, in the order of the build. -/
def LateFailure (transport : Transport) (os : CreateAnswers) : Prop :=
  match transport with
  | .rpclib => (os.rpcPort = 0 ∨ os.callbackPort = 0 ∨ os.rpcPort = os.callbackPort) ∨
      os.fork = none ∨ os.listening = false ∨ os.connected = false
  | .capnp => os.requestPair = none ∨ os.callbackPair = none ∨ os.fork = none

namespace Life
variable {self : SandboxId} {shmFd : Fd} {s : Life t} {transport : Transport}

/-- The transport's part, whichever it is. -/
def createTransport (transport : Transport) (self : SandboxId) (os : CreateAnswers) (shmFd : Fd)
    (s : Life t) : Bool × Life t :=
  match transport with
  | .rpclib => s.createRpclib self os shmFd
  | .capnp => s.createCapnp self os shmFd

theorem createTransport_fails :
    (s.createTransport transport self os shmFd).1 = false ↔ LateFailure transport os := by
  cases transport with
  | rpclib =>
    unfold createTransport createRpclib LateFailure
    dsimp only
    split
    · rename_i bad
      exact iff_of_true rfl (.inl bad)
    · rename_i good
      rw [or_iff_right good]
      cases os.fork with
      | none => simp
      | some pid =>
        dsimp only
        cases os.listening <;> cases os.connected <;> simp
  | capnp =>
    unfold createTransport createCapnp LateFailure
    cases os.requestPair with
    | none => simp
    | some requestPair =>
      cases os.callbackPair with
      | none => simp
      | some callbackPair => cases os.fork <;> simp

/-- What the transport's part leaves alone. -/
structure KeepsPublished (s s' : Life t) : Prop where
  mapped : s'.host.mapped = s.host.mapped
  registry : s'.host.globalRegistry = s.host.globalRegistry
  thread : s'.host.threadLocalSandbox = s.host.threadLocalSandbox
  base : s'.object.sharedMemoryLocalBase = s.object.sharedMemoryLocalBase
  size : s'.object.sharedMemorySize = s.object.sharedMemorySize

theorem createTransport_keeps :
    s.KeepsPublished (s.createTransport transport self os shmFd).2 := by
  cases transport with
  | rpclib =>
    unfold createTransport createRpclib
    dsimp only
    split
    · exact ⟨rfl, rfl, rfl, rfl, rfl⟩
    · cases os.fork with
      | none => exact ⟨rfl, rfl, rfl, rfl, rfl⟩
      | some pid =>
        dsimp only
        split
        · exact ⟨rfl, rfl, rfl, rfl, rfl⟩
        · split <;> exact ⟨rfl, rfl, rfl, rfl, rfl⟩
  | capnp =>
    unfold createTransport createCapnp
    cases os.requestPair with
    | none => exact ⟨rfl, rfl, rfl, rfl, rfl⟩
    | some requestPair =>
      cases os.callbackPair with
      | none => exact ⟨rfl, rfl, rfl, rfl, rfl⟩
      | some callbackPair => cases os.fork <;> exact ⟨rfl, rfl, rfl, rfl, rfl⟩

/-- A sandbox mapped and published, with the descriptor of its memory open. -/
def published (self : SandboxId) (shmFd : Fd) (base : Nat) (s : Life t) : Life t where
  object := { s.object with
    sharedMemorySize := sharedMemoryBytes, sharedMemoryLocalBase := base }
  host := { s.host with
    files := Function.update s.host.files shmFd (some (.shm self))
    mapped := mmap base sharedMemoryBytes s.host.mapped
    threadLocalSandbox := some self
    globalRegistry := s.host.globalRegistry.insert base self }

end Life

/-- A step before publication fails. -/
def EarlyFailure (t : Target) (os : CreateAnswers) : Prop :=
  os.memfd = none ∨ ¬ Reserves t os ∨ os.mmapFixed = false

/-- What creation does: it fails early and leaves the host as it was, or goes on
with a published sandbox. -/
inductive Creates (transport : Transport) (self : SandboxId) (os : CreateAnswers) (s : Life t) :
    Bool × Life t → Prop where
  | undone (early : EarlyFailure t os) (size : Nat) :
      Creates transport self os s
        (false, { s with object := { s.object with sharedMemorySize := size } })
  | goesOn (reached : ¬ EarlyFailure t os) (opened : os.memfd = some shmFd) (base : Nat)
      (fresh : FreshRange s.host.mapped base sharedMemoryBytes) :
      Creates transport self os s
        ((s.published self shmFd base).createTransport transport self os shmFd)

section
variable {self : SandboxId} {s : Life t} {transport : Transport}

/-- A free descriptor opened and closed again leaves the table as it was. -/
theorem closed_opened {files : FileTable} {fd : Fd} (file : Option OpenFile)
    (free : files fd = none) :
    Function.update (Function.update files fd file) fd none = files := by
  rw [Function.update_idem, ← free, Function.update_eq_self]

theorem creates (allowed : Allowed os s.host) :
    Creates transport self os s (s.implCreateSandbox transport self os) := by
  unfold Life.implCreateSandbox
  cases opened : os.memfd with
  | none => exact .undone (.inl opened) _
  | some shmFd =>
    have free : s.host.files shmFd = none :=
      allowed.fds.2 shmFd (by simp [CreateAnswers.fds, opened])
    obtain ⟨took, failed⟩ := reserved allowed
    dsimp only
    have untouched : ∀ l : Life t, (l.openFile shmFd (.shm self)).host.mapped = l.host.mapped :=
      fun _ => rfl
    rw [untouched]
    generalize reserve t os s.host.mapped = answer at took failed ⊢
    cases took with
    | failed =>
      have restored := closed_opened (some (.shm self)) free
      have early : EarlyFailure t os := .inr (.inl (failed.mp rfl))
      have same : Creates transport self os s _ := .undone early sharedMemoryBytes
      simpa [Life.closeFile, Life.setMapped, Life.openFile, restored] using same
    | took base fresh =>
      have reserves : Reserves t os := Classical.byContradiction fun none => by
        simpa using failed.mpr none
      dsimp only
      split
      · rename_i unmapped
        have restored := closed_opened (some (.shm self)) free
        have early : EarlyFailure t os := .inr (.inr unmapped)
        have same : Creates transport self os s _ := .undone early sharedMemoryBytes
        simpa [Life.closeFile, Life.setMapped, Life.openFile, restored, munmap_mmap fresh] using same
      · rename_i mapped
        have reached : ¬ EarlyFailure t os := by
          rintro (none | none | unmapped)
          · rw [opened] at none
            cases none
          · exact none reserves
          · exact mapped unmapped
        have goes : Creates transport self os s _ := .goesOn reached opened base fresh
        cases transport <;> exact goes

/-! ## All or nothing -/

/-- A false return leaves the host process as it was. -/
def AllOrNothing (transport : Transport) (self : SandboxId) (os : CreateAnswers) (s : Life t) :
    Prop :=
  (s.implCreateSandbox transport self os).1 = false →
    (s.implCreateSandbox transport self os).2.host = s.host

/-- `impl_create_sandbox` of the meta sandbox: whether it succeeds, whether
wasm2c's sandbox is up afterwards, and the process side. `wasm` is what
wasm2c's own creation answers. -/
def metaCreateSandbox (wasm : Bool) (transport : Transport) (self : SandboxId) (os : CreateAnswers)
    (s : Life t) : Bool × Bool × Life t :=
  if wasm = false then (false, false, s)
  else
    match s.implCreateSandbox transport self os with
    | (false, s) => (false, false, s)
    | (true, s) => (true, true, s)

/-- Both backends are up afterwards, or neither and the host is as it was. -/
structure BothOrNeither (wasm : Bool) (transport : Transport) (self : SandboxId)
    (os : CreateAnswers) (s : Life t) : Prop where
  both : (metaCreateSandbox wasm transport self os s).1 = true →
    (metaCreateSandbox wasm transport self os s).2.1 = true ∧
      (s.implCreateSandbox transport self os).1 = true
  neither : (metaCreateSandbox wasm transport self os s).1 = false →
    (metaCreateSandbox wasm transport self os s).2.1 = false ∧
      (metaCreateSandbox wasm transport self os s).2.2.host = s.host

theorem allOrNothing_iff (allowed : Allowed os s.host) :
    AllOrNothing transport self os s ↔ EarlyFailure t os ∨ ¬ LateFailure transport os := by
  have outcome : Creates transport self os s _ := creates allowed
  unfold AllOrNothing
  generalize s.implCreateSandbox transport self os = result at outcome
  cases outcome with
  | undone early => exact iff_of_true (fun _ => rfl) (.inl early)
  | goesOn reached opened base fresh =>
    rw [or_iff_right reached, Life.createTransport_fails]
    constructor
    · intro restores late
      have mapped := congrArg Host.mapped (restores late)
      rw [Life.createTransport_keeps.mapped] at mapped
      exact mmap_ne_self fresh (by decide) mapped
    · exact fun succeeds late => absurd late succeeds

/-- Past an early failure the sandbox stays published, created or not: the
registry names it at a base that is mapped, and so does the thread. -/
theorem stays_published (allowed : Allowed os s.host) (reached : ¬ EarlyFailure t os) :
    ∃ base, FreshRange s.host.mapped base sharedMemoryBytes ∧
      (s.implCreateSandbox transport self os).2.host.mapped =
        mmap base sharedMemoryBytes s.host.mapped ∧
      (s.implCreateSandbox transport self os).2.host.globalRegistry.lookup base = some self ∧
      (s.implCreateSandbox transport self os).2.host.threadLocalSandbox = some self ∧
      (s.implCreateSandbox transport self os).2.object.sharedMemoryLocalBase = base ∧
      (s.implCreateSandbox transport self os).2.object.sharedMemorySize = sharedMemoryBytes := by
  have outcome : Creates transport self os s _ := creates allowed
  generalize s.implCreateSandbox transport self os = result at outcome
  cases outcome with
  | undone early => exact absurd early reached
  | @goesOn shmFd _ _ base fresh =>
    have keeps : (s.published self shmFd base).KeepsPublished
      ((s.published self shmFd base).createTransport transport self os shmFd).2 :=
      Life.createTransport_keeps
    refine ⟨base, fresh, keeps.mapped, ?_, keeps.thread, keeps.base, keeps.size⟩
    rw [keeps.registry]
    exact AList.lookup_insert _

theorem bothOrNeither_of_allOrNothing {wasm : Bool} (process : AllOrNothing transport self os s) :
    BothOrNeither wasm transport self os s := by
  unfold AllOrNothing at process
  cases wasm with
  | false => exact ⟨by simp [metaCreateSandbox], by simp [metaCreateSandbox]⟩
  | true =>
    cases result : s.implCreateSandbox transport self os with
    | mk created after =>
      rw [result] at process
      cases created with
      | false =>
        have restored : after.host = s.host := process rfl
        exact ⟨by simp [metaCreateSandbox, result], by simp [metaCreateSandbox, result, restored]⟩
      | true => exact ⟨by simp [metaCreateSandbox, result], by simp [metaCreateSandbox, result]⟩

/-- For every state and everything the system may answer: creation is all or
nothing, and so is the meta sandbox's, exactly where the step that fails, if
any, is the memfd, the reservation or the mapping. -/
theorem creation_all_or_nothing_iff (wasm : Bool) (allowed : Allowed os s.host) :
    (AllOrNothing transport self os s ∧ BothOrNeither wasm transport self os s) ↔
      EarlyFailure t os ∨ ¬ LateFailure transport os := by
  rw [← allOrNothing_iff allowed]
  exact and_iff_left_of_imp bothOrNeither_of_allOrNothing

end

/-- A host with nothing in it, and a sandbox just constructed. -/
def emptyHost (t : Target) : Life t where
  object := .constructed t
  host :=
    { files := fun _ => none, mapped := fun _ => false, globalRegistry := ∅
      threadLocalSandbox := none, services := [], children := [] }

/-- Everything succeeds, with descriptors 3 to 7 and pid 100. -/
def allSucceed : CreateAnswers where
  memfd := some 3
  mmapPadded := some 0x7f0000000000
  mmapHint hint := if hint = 0 then none else some hint
  mmapFixed := true
  rpcPort := 4000
  callbackPort := 4001
  requestPair := some (4, 5)
  callbackPair := some (6, 7)
  fork := some 100
  listening := true
  connected := true

/-- Whatever else is answered, an empty host has the ranges and descriptors free. -/
theorem allowed_emptyHost (os : CreateAnswers) (padded : os.mmapPadded = allSucceed.mmapPadded)
    (hinted : os.mmapHint = allSucceed.mmapHint) (distinct : os.fds.Nodup) :
    Allowed os (emptyHost t).host where
  padded start answered := by
    rw [padded] at answered
    cases answered
    exact ⟨by decide, fun _ _ _ => rfl⟩
  hinted hint start answered := by
    refine ⟨?_, fun _ _ _ => rfl⟩
    simp only [hinted, allSucceed] at answered
    split at answered
    · cases answered
    · cases answered
      omega
  fds := ⟨distinct, fun _ _ => rfl⟩
  pid _ _ _ inside := by cases inside

/-- The mapping over the reservation fails. -/
def mappingFails : CreateAnswers := { allSucceed with mmapFixed := false }

theorem mapping_failure_restores :
    AllOrNothing .rpclib 0 mappingFails (emptyHost .x86_64) ∧
      BothOrNeither true .rpclib 0 mappingFails (emptyHost .x86_64) :=
  (creation_all_or_nothing_iff true (allowed_emptyHost mappingFails rfl rfl (by decide))).mpr
    (.inl (.inr (.inr rfl)))

/-- `fork` fails. -/
def forkFails : CreateAnswers := { allSucceed with fork := none }

/-- After a failed fork the host is not what it was: the registry names the
sandbox, its memory is mapped and both socket pairs are open. -/
theorem fork_failure_leaves :
    ¬ (AllOrNothing .capnp 0 forkFails (emptyHost .x86_64) ∧
      BothOrNeither true .capnp 0 forkFails (emptyHost .x86_64)) := by
  rintro ⟨restores, -⟩
  rw [allOrNothing_iff (allowed_emptyHost forkFails rfl rfl (by decide))] at restores
  rcases restores with (none | none | unmapped) | succeeds
  · cases none
  · exact none (by simp [Reserves, forkFails, allSucceed])
  · cases unmapped
  · exact succeeds (.inr (.inr rfl))

end RlboxDynamic.HostProcess
