import RlboxDynamic.SandboxCreation
import RlboxDynamic.Transition

/-! Which sandbox's descriptors a child executes with. Every create of the
Cap'n Proto build leaves the host's ends of two socket pairs open while the
sandbox is up, a create whose fork fails leaves all four ends open for good, and
every later child inherits what is open. -/
namespace RlboxDynamic.HostProcess
open Transition

variable {t : Target}

/-- The create gets as far as executing a child. -/
def Executes (t : Target) (os : CreateAnswers) : Prop :=
  ¬ EarlyFailure t os ∧ ¬ LateFailure .capnp os

/-- It opens both socket pairs and then `fork` fails. -/
def FailsAtFork (t : Target) (os : CreateAnswers) : Prop :=
  ¬ EarlyFailure t os ∧ os.requestPair ≠ none ∧ os.callbackPair ≠ none ∧ os.fork = none

/-- Any number of sandboxes in one host. `forkFailed` records whose creation
failed at `fork`. -/
structure Sandboxes (t : Target) where
  objects : SandboxId → ProcessSandbox t
  host : Host
  forkFailed : SandboxId → Prop

inductive SandboxOp where
  | create (self : SandboxId) (os : CreateAnswers)
  | destroy (self : SandboxId)

namespace Sandboxes

def life (s : Sandboxes t) (self : SandboxId) : Life t := ⟨s.objects self, s.host⟩

def put (s : Sandboxes t) (self : SandboxId) (l : Life t) : Sandboxes t :=
  { s with objects := Function.update s.objects self l.object, host := l.host }

/-- The sandbox has been created and not destroyed since. -/
def Up (s : Sandboxes t) (self : SandboxId) : Prop := (s.objects self).requestFd ≠ none

/-- One call. RLBox creates no sandbox that is up. -/
def Step (s : Sandboxes t) (op : SandboxOp) (s' : Sandboxes t) : Prop :=
  match op with
  | .create self os => ¬ s.Up self ∧ Allowed os s.host ∧
      s' = { s.put self ((s.life self).implCreateSandbox .capnp self os).2 with
        forkFailed := fun o => s.forkFailed o ∨ o = self ∧ FailsAtFork t os }
  | .destroy self => s' = s.put self ((s.life self).implDestroySandbox .capnp self)

/-- No sandbox yet, in a host with descriptors of its own only. -/
def start (t : Target) (host : Host) : Sandboxes t where
  objects _ := .constructed t
  host
  forkFailed _ := False

/-- No child holds a descriptor of another sandbox's sockets or memory. -/
def Isolated (s : Sandboxes t) : Prop :=
  ∀ child ∈ s.host.children, ∀ fd file owner, child.files fd = some file →
    file.owner = some owner → owner = child.owner

/-- No other sandbox is up, and the creation of none failed at `fork`. -/
def Alone (s : Sandboxes t) (self : SandboxId) : Prop :=
  ∀ other, other ≠ self → ¬ s.Up other ∧ ¬ s.forkFailed other

end Sandboxes

/-! ## What a create does to the descriptors -/

/-- The descriptors, the children and the object's two channels after a create
of the Cap'n Proto build. -/
inductive CreateFiles (self : SandboxId) (os : CreateAnswers) (s after : Life t) : Prop where
  | unchanged (ran : ¬ Executes t os ∧ ¬ FailsAtFork t os) (files : after.host.files = s.host.files)
      (children : after.host.children = s.host.children)
      (request : after.object.requestFd = s.object.requestFd)
      (callback : after.object.callbackFd = s.object.callbackFd)
  | leaked (failed : FailsAtFork t os) (ran : ¬ Executes t os)
      (old : ∀ fd file, s.host.files fd = some file → after.host.files fd = some file)
      (new : ∀ fd file, after.host.files fd = some file →
        s.host.files fd = some file ∨ file.owner = some self)
      (left : ∃ fd, after.host.files fd = some (.request self .shim))
      (children : after.host.children = s.host.children)
      (request : after.object.requestFd = s.object.requestFd)
      (callback : after.object.callbackFd = s.object.callbackFd)
  | up (req cb : Fd) (child : HostChild) (ran : Executes t os) (failed : ¬ FailsAtFork t os)
      (files : ∀ fd, after.host.files fd =
        if fd = req then some (.request self .host)
        else if fd = cb then some (.callback self .host) else s.host.files fd)
      (fresh : s.host.files req = none ∧ s.host.files cb = none) (distinct : req ≠ cb)
      (children : after.host.children = s.host.children ++ [child]) (owner : child.owner = self)
      (inherited : ∀ fd file, s.host.files fd = some file → child.files fd = some file)
      (own : ∀ fd file, child.files fd = some file →
        s.host.files fd = some file ∨ file.owner = some self)
      (request : after.object.requestFd = some req) (callback : after.object.callbackFd = some cb)

section
variable {self : SandboxId} {os : CreateAnswers} {s : Life t}

theorem createFiles (allowed : Allowed os s.host) :
    CreateFiles self os s (s.implCreateSandbox .capnp self os).2 := by
  have outcome : Creates .capnp self os s _ := creates allowed
  generalize s.implCreateSandbox .capnp self os = result at outcome
  cases outcome with
  | undone early =>
    exact .unchanged ⟨fun ran => ran.1 early, fun failed => failed.1 early⟩ rfl rfl rfl rfl
  | @goesOn shmFd reached opened base fresh =>
    obtain ⟨distinct, free⟩ := allowed.fds
    have shmFree : s.host.files shmFd = none := free shmFd (by simp [CreateAnswers.fds, opened])
    change CreateFiles self os s ((s.published self shmFd base).createCapnp self os shmFd).2
    unfold Life.createCapnp
    cases requests : os.requestPair with
    | none =>
      refine .unchanged ⟨fun ran => ran.2 (.inl requests), fun failed => failed.2.1 requests⟩
        ?_ rfl rfl rfl
      exact closed_opened _ shmFree
    | some pair =>
      obtain ⟨req0, req1⟩ := pair
      cases callbacks : os.callbackPair with
      | none =>
        refine .unchanged ⟨fun ran => ran.2 (.inr (.inl callbacks)),
          fun failed => failed.2.2.1 callbacks⟩ ?_ rfl rfl rfl
        simp only [CreateAnswers.fds, opened, requests, callbacks, Option.toList_some,
          Option.toList_none, List.flatMap_singleton, List.flatMap_nil, List.singleton_append,
          List.append_nil] at distinct free
        funext fd
        simp only [Life.closeFile, Life.openFile, Life.published, Function.update_apply]
        grind
      | some pair =>
        obtain ⟨cb0, cb1⟩ := pair
        simp only [CreateAnswers.fds, opened, requests, callbacks, Option.toList_some,
          List.flatMap_singleton, List.cons_append, List.nil_append] at distinct free
        cases forked : os.fork with
        | none =>
          refine .leaked ⟨reached, by simp [requests], by simp [callbacks], forked⟩
            (fun ran => ran.2 (.inr (.inr forked))) ?_ ?_ ⟨req1, ?_⟩ rfl rfl rfl
          all_goals
            simp only [Life.closeFile, Life.openFile, Life.published, Function.update_apply]
            grind [OpenFile.owner]
        | some pid =>
          have ran : Executes t os := ⟨reached, by simp [LateFailure, requests, callbacks, forked]⟩
          have notFailed : ¬ FailsAtFork t os := fun failed => by simp [FailsAtFork, forked] at failed
          refine .up req0 cb0 _ ran notFailed ?_ ⟨free _ (by simp), free _ (by simp)⟩ (by grind)
            rfl rfl ?_ ?_ rfl rfl
          all_goals
            simp only [Life.closeFile, Life.openFile, Life.published, Life.spawn,
              Life.startCallbackLoop, Function.update_apply]
            grind [OpenFile.owner]

/-- What a destroy does to them: it closes the object's two channels. -/
structure DestroyFiles (s after : Life t) : Prop where
  files : ∀ fd, after.host.files fd =
    if s.object.requestFd = some fd ∨ s.object.callbackFd = some fd then none else s.host.files fd
  request : after.object.requestFd = none
  callback : after.object.callbackFd = none
  children : ∀ child ∈ after.host.children, child ∈ s.host.children

theorem files_closeFile (closed fd : Fd) :
    (s.closeFile closed).host.files fd = if closed = fd then none else s.host.files fd :=
  (Function.update_apply _ _ _ _).trans (if_congr eq_comm rfl rfl)

theorem closeChannels_files : DestroyFiles s s.closeChannels := by
  unfold Life.closeChannels
  cases request : s.object.requestFd with
  | none =>
    cases callback : s.object.callbackFd with
    | none =>
      dsimp only
      rw [callback]
      refine ⟨fun fd => ?_, request, callback, fun _ => id⟩
      rw [request, callback, if_neg (by simp)]
    | some cb =>
      dsimp only
      rw [callback]
      refine ⟨fun fd => ?_, request, rfl, fun _ => id⟩
      simp only [files_closeFile, request, callback, reduceCtorEq, Option.some.injEq, false_or]
  | some req =>
    cases callback : s.object.callbackFd with
    | none =>
      dsimp only
      rw [callback]
      refine ⟨fun fd => ?_, rfl, rfl, fun _ => id⟩
      simp only [files_closeFile, request, callback, reduceCtorEq, Option.some.injEq, or_false]
    | some cb =>
      dsimp only
      rw [callback]
      refine ⟨fun fd => ?_, rfl, rfl, fun _ => id⟩
      simp only [files_closeFile, request, callback, Option.some.injEq]
      by_cases second : cb = fd
      · rw [if_pos second, if_pos (.inr second)]
      · rw [if_neg second]
        simp only [second, or_false]

theorem destroyFiles (self : SandboxId) (s : Life t) :
    DestroyFiles s (s.implDestroySandbox .capnp self) := by
  unfold Life.implDestroySandbox
  dsimp only
  generalize at_close : Life.mk _ _ = before
  have closed := closeChannels_files (s := before)
  subst at_close
  split
  · exact ⟨closed.files, closed.request, closed.callback, closed.children⟩
  · exact ⟨closed.files, closed.request, closed.callback,
      fun child inside => closed.children child (List.mem_of_mem_filter inside)⟩

end

/-! ## Whose descriptors are open -/

namespace Sandboxes
variable {s s' : Sandboxes t} {op : SandboxOp} {self : SandboxId}

/-- Every open descriptor of a sandbox is one of the two an object keeps, or was
left behind by a create whose `fork` failed. -/
structure Channels (s : Sandboxes t) : Prop where
  owned : ∀ fd file owner, s.host.files fd = some file → file.owner = some owner →
    (s.objects owner).requestFd = some fd ∨ (s.objects owner).callbackFd = some fd ∨
      s.forkFailed owner
  request : ∀ o fd, (s.objects o).requestFd = some fd → s.host.files fd = some (.request o .host)
  callback : ∀ o fd, (s.objects o).callbackFd = some fd → s.host.files fd = some (.callback o .host)
  together : ∀ o, (s.objects o).requestFd = none ↔ (s.objects o).callbackFd = none
  left : ∀ o, s.forkFailed o → ∃ fd, s.host.files fd = some (.request o .shim)

/-- A host before its first sandbox. -/
structure Unused (host : Host) : Prop where
  files : ∀ fd file, host.files fd = some file → file.owner = none
  children : host.children = []

theorem channels_start {host : Host} (unused : Unused host) : Channels (start t host) where
  owned fd file owner held owned := by
    rw [unused.files fd file held] at owned
    cases owned
  request _ _ kept := by cases kept
  callback _ _ kept := by cases kept
  together _ := Iff.rfl
  left _ failed := failed.elim

/-! The channel descriptors after a call: the object it was made on changes. -/

theorem put_host (l : Life t) : (s.put self l).host = l.host := rfl

theorem put_requestFd (l : Life t) (o : SandboxId) : ((s.put self l).objects o).requestFd =
    if o = self then l.object.requestFd else (s.objects o).requestFd := by
  simp only [put, Function.update_apply]
  split <;> rfl

theorem put_callbackFd (l : Life t) (o : SandboxId) : ((s.put self l).objects o).callbackFd =
    if o = self then l.object.callbackFd else (s.objects o).callbackFd := by
  simp only [put, Function.update_apply]
  split <;> rfl

/-- A call that leaves every object's channels and closes nothing, where what it
opens stays behind at `fork`. -/
theorem Channels.extend (channels : Channels s)
    (requests : ∀ o, (s'.objects o).requestFd = (s.objects o).requestFd)
    (callbacks : ∀ o, (s'.objects o).callbackFd = (s.objects o).callbackFd)
    (old : ∀ fd file, s.host.files fd = some file → s'.host.files fd = some file)
    (new : ∀ fd file, s'.host.files fd = some file →
      s.host.files fd = some file ∨ ∃ o, file.owner = some o ∧ s'.forkFailed o)
    (keeps : ∀ o, s.forkFailed o → s'.forkFailed o)
    (left : ∀ o, s'.forkFailed o →
      s.forkFailed o ∨ ∃ fd, s'.host.files fd = some (.request o .shim)) : Channels s' where
  owned fd file owner held owned := by
    rw [requests, callbacks]
    rcases new fd file held with was | ⟨o, his, failed⟩
    · rcases channels.owned fd file owner was owned with request | callback | failed
      · exact .inl request
      · exact .inr (.inl callback)
      · exact .inr (.inr (keeps owner failed))
    · obtain rfl := Option.some.inj (his.symm.trans owned)
      exact .inr (.inr failed)
  request o fd kept := old fd _ (channels.request o fd (requests o ▸ kept))
  callback o fd kept := old fd _ (channels.callback o fd (callbacks o ▸ kept))
  together o := by
    rw [requests, callbacks]
    exact channels.together o
  left o failed := by
    rcases left o failed with was | here
    · obtain ⟨fd, held⟩ := channels.left o was
      exact ⟨fd, old fd _ held⟩
    · exact here

theorem put_requestFd_same {l : Life t} (same : l.object.requestFd = (s.objects self).requestFd)
    (o : SandboxId) : ((s.put self l).objects o).requestFd = (s.objects o).requestFd := by
  rw [put_requestFd]
  split
  · rename_i here
    rw [same, here]
  · rfl

theorem put_callbackFd_same {l : Life t} (same : l.object.callbackFd = (s.objects self).callbackFd)
    (o : SandboxId) : ((s.put self l).objects o).callbackFd = (s.objects o).callbackFd := by
  rw [put_callbackFd]
  split
  · rename_i here
    rw [same, here]
  · rfl

theorem create_channels {os : CreateAnswers} (channels : Channels s)
    (step : Step s (.create self os) s') : Channels s' := by
  obtain ⟨down, allowed, rfl⟩ := step
  have down' : (s.objects self).requestFd = none := Classical.not_not.mp down
  have alsoDown := (channels.together self).mp down'
  have files : CreateFiles self os (s.life self) _ := createFiles allowed
  generalize (Life.implCreateSandbox .capnp self os (s.life self)).2 = after at files
  cases files with
  | unchanged ran files children sameRequest sameCallback =>
    have same : after.host.files = s.host.files := files
    refine channels.extend ?_ ?_ ?_ ?_ ?_ ?_
    · exact put_requestFd_same sameRequest
    · exact put_callbackFd_same sameCallback
    · exact fun fd file held => (congrFun same fd).trans held
    · exact fun fd file held => .inl ((congrFun same fd).symm.trans held)
    · exact fun o failed => .inl failed
    · rintro o (failed | ⟨-, failed⟩)
      · exact .inl failed
      · exact absurd failed ran.2
  | leaked failed ran old new left children sameRequest sameCallback =>
    refine channels.extend ?_ ?_ old ?_ ?_ ?_
    · exact put_requestFd_same sameRequest
    · exact put_callbackFd_same sameCallback
    · intro fd file held
      rcases new fd file held with was | opened
      · exact .inl was
      · exact .inr ⟨self, opened, .inr ⟨rfl, failed⟩⟩
    · exact fun o failed => .inl failed
    · rintro o (failed | ⟨rfl, -⟩)
      · exact .inl failed
      · exact .inr left
  | up req cb child ran failed files fresh distinct children owner inherited own kept keptToo =>
    -- what was open is at neither of the new descriptors
    have stays : ∀ fd file, s.host.files fd = some file → after.host.files fd = some file := by
      intro fd file held
      have notReq : fd ≠ req := fun here => Option.some_ne_none _ (held.symm.trans (here ▸ fresh.1))
      have notCb : fd ≠ cb := fun here => Option.some_ne_none _ (held.symm.trans (here ▸ fresh.2))
      rw [files, if_neg notReq, if_neg notCb]
      exact held
    constructor
    · intro fd file owner held owned
      simp only [put_requestFd, put_callbackFd, put_host] at held ⊢
      rw [files] at held
      split at held
      · rename_i here
        cases held
        obtain rfl := Option.some.inj owned
        rw [if_pos rfl, kept, here]
        exact .inl rfl
      split at held
      · rename_i here
        cases held
        obtain rfl := Option.some.inj owned
        rw [if_pos rfl, if_pos rfl, keptToo, here]
        exact .inr (.inl rfl)
      · rcases channels.owned fd file owner held owned with request | callback | failed
        · have other : owner ≠ self := fun same =>
            Option.some_ne_none _ (request.symm.trans (same ▸ down'))
          exact .inl (by rw [if_neg other, request])
        · have other : owner ≠ self := fun same =>
            Option.some_ne_none _ (callback.symm.trans (same ▸ alsoDown))
          exact .inr (.inl (by rw [if_neg other, callback]))
        · exact .inr (.inr (.inl failed))
    · intro o fd held
      simp only [put_requestFd] at held
      split at held
      · rename_i here
        rw [kept] at held
        cases held
        rw [here, put_host, files, if_pos rfl]
      · exact stays fd _ (channels.request o fd held)
    · intro o fd held
      simp only [put_callbackFd] at held
      split at held
      · rename_i here
        rw [keptToo] at held
        cases held
        rw [here, put_host, files, if_neg distinct.symm, if_pos rfl]
      · exact stays fd _ (channels.callback o fd held)
    · intro o
      simp only [put_requestFd, put_callbackFd]
      split
      · simp [kept, keptToo]
      · exact channels.together o
    · rintro o (was | ⟨-, forked⟩)
      · obtain ⟨fd, held⟩ := channels.left o was
        exact ⟨fd, stays fd _ held⟩
      · exact absurd forked failed

theorem destroy_channels (channels : Channels s) (step : Step s (.destroy self) s') :
    Channels s' := by
  cases step
  have files : DestroyFiles (s.life self) _ := destroyFiles self _
  generalize Life.implDestroySandbox .capnp self (s.life self) = after at files
  obtain ⟨files, noRequest, noCallback, children⟩ := files
  -- what is closed are the two ends the object keeps
  have stays : ∀ fd file, s.host.files fd = some file → file ≠ .request self .host →
      file ≠ .callback self .host → after.host.files fd = some file := by
    intro fd file held notRequest notCallback
    rw [files, if_neg]
    · exact held
    · rintro (request | callback)
      · exact notRequest (Option.some.inj (held.symm.trans (channels.request self fd request)))
      · exact notCallback (Option.some.inj (held.symm.trans (channels.callback self fd callback)))
  constructor
  · intro fd file owner held owned
    simp only [put_requestFd, put_callbackFd, put_host] at held ⊢
    rw [files] at held
    split at held
    · cases held
    · rename_i open_
      rcases channels.owned fd file owner held owned with request | callback | failed
      · have other : owner ≠ self := fun same => open_ (.inl (same ▸ request))
        exact .inl (by rw [if_neg other, request])
      · have other : owner ≠ self := fun same => open_ (.inr (same ▸ callback))
        exact .inr (.inl (by rw [if_neg other, callback]))
      · exact .inr (.inr failed)
  · intro o fd held
    rw [put_requestFd] at held
    split at held
    · exact absurd (held.symm.trans noRequest) (Option.some_ne_none _)
    · rename_i other
      apply stays fd _ (channels.request o fd held)
      · exact fun same => other (OpenFile.request.inj same).1
      · exact nofun
  · intro o fd held
    rw [put_callbackFd] at held
    split at held
    · exact absurd (held.symm.trans noCallback) (Option.some_ne_none _)
    · rename_i other
      apply stays fd _ (channels.callback o fd held)
      · exact nofun
      · exact fun same => other (OpenFile.callback.inj same).1
  · intro o
    rw [put_requestFd, put_callbackFd]
    split
    · rw [noRequest, noCallback]
    · exact channels.together o
  · intro o failed
    obtain ⟨fd, held⟩ := channels.left o failed
    exact ⟨fd, stays fd _ held nofun nofun⟩

theorem step_channels (channels : Channels s) (step : Step s op s') : Channels s' := by
  cases op with
  | create self os => exact create_channels channels step
  | destroy self => exact destroy_channels channels step

/-! ## Isolation -/

/-- The create executes a child only while the sandbox is alone. -/
def CreatesAlone (s : Sandboxes t) : SandboxOp → Prop
  | .create self os => Executes t os → s.Alone self
  | .destroy _ => True

/-- A sandbox that is up, or was left at `fork`, has a descriptor open. -/
theorem Channels.holds (channels : Channels s) {o : SandboxId} (either : s.Up o ∨ s.forkFailed o) :
    ∃ fd file, s.host.files fd = some file ∧ file.owner = some o := by
  rcases either with up | failed
  · obtain ⟨fd, kept⟩ := Option.ne_none_iff_exists'.mp up
    exact ⟨fd, _, channels.request o fd kept, rfl⟩
  · obtain ⟨fd, open_⟩ := channels.left o failed
    exact ⟨fd, _, open_, rfl⟩

/-- Only such a sandbox has. -/
theorem Channels.holder (channels : Channels s) {fd : Fd} {file : OpenFile} {o : SandboxId}
    (held : s.host.files fd = some file) (owned : file.owner = some o) : s.Up o ∨ s.forkFailed o := by
  rcases channels.owned fd file o held owned with request | callback | failed
  · exact .inl (by rw [Up, request]; simp)
  · refine .inl fun down => ?_
    rw [(channels.together o).mp down] at callback
    cases callback
  · exact .inr failed

theorem isolated_start {host : Host} (unused : Unused host) : Isolated (start t host) := by
  have noChild : (start t host).host.children = [] := unused.children
  intro child inside
  rw [noChild] at inside
  cases inside

/-- A new child is isolated exactly when its sandbox was alone. -/
theorem child_isolated_iff (channels : Channels s) {child : HostChild} (owner : child.owner = self)
    (inherited : ∀ fd file, s.host.files fd = some file → child.files fd = some file)
    (own : ∀ fd file, child.files fd = some file →
      s.host.files fd = some file ∨ file.owner = some self) :
    (∀ fd file o, child.files fd = some file → file.owner = some o → o = child.owner) ↔
      s.Alone self := by
  rw [owner]
  constructor
  · intro isolated other different
    rw [← not_or]
    intro either
    obtain ⟨fd, file, held, owned⟩ := channels.holds either
    exact different (isolated fd file other (inherited fd file held) owned)
  · intro alone fd file o held owned
    rcases own fd file held with old | new
    · by_contra different
      obtain ⟨down, notFailed⟩ := alone o different
      exact (channels.holder old owned).elim down notFailed
    · rw [new] at owned
      exact (Option.some.inj owned).symm

/-- A call keeps the children isolated exactly when it creates alone. -/
theorem step_isolated_iff (channels : Channels s) (isolated : Isolated s) (step : Step s op s') :
    Isolated s' ↔ s.CreatesAlone op := by
  cases op with
  | destroy self =>
    cases step
    have files : DestroyFiles (s.life self) _ := destroyFiles self _
    exact iff_of_true (fun child inside => isolated child (files.children child inside)) trivial
  | create self os =>
    obtain ⟨-, allowed, rfl⟩ := step
    have files : CreateFiles self os (s.life self) _ := createFiles allowed
    change (∀ child ∈ (Life.implCreateSandbox .capnp self os (s.life self)).2.host.children, _) ↔ _
    generalize (Life.implCreateSandbox .capnp self os (s.life self)).2 = after at files ⊢
    cases files with
    | unchanged ran _ children =>
      rw [children]
      exact iff_of_true isolated fun executes => absurd executes ran.1
    | leaked _ ran _ _ _ children =>
      rw [children]
      exact iff_of_true isolated fun executes => absurd executes ran
    | up req cb child ran _ _ _ _ children owner inherited own =>
      rw [children]
      simp only [List.forall_mem_append, List.forall_mem_singleton, CreatesAlone, ran, true_imp_iff]
      rw [and_iff_right (show ∀ child ∈ (s.life self).host.children, _ from isolated)]
      exact child_isolated_iff channels owner inherited own

/-- Along every sequence of creates and destroys, the children are isolated in
every state exactly when each create that executes a child does so while no
other sandbox is up and none was left behind at `fork`. -/
theorem isolated_iff_created_alone {host : Host} (unused : Unused host) (ops : List SandboxOp) :
    (∀ before after u, ops = before ++ after → Run Step (start t host) before u → Isolated u) ↔
      ∀ before op after u v, ops = before ++ op :: after → Run Step (start t host) before u →
        Step u op v → u.CreatesAlone op :=
  throughout_iff (channels_start unused) (isolated_start unused)
    (fun _ _ _ channels step => step_channels channels step)
    (fun _ _ _ channels isolated step => step_isolated_iff channels isolated step)

theorem unused_emptyHost : Unused (emptyHost t).host where
  files _ _ held := by cases held
  children := rfl

/-- A sandbox created in an empty host. -/
def oneSandbox (t : Target) : Sandboxes t :=
  { (start t (emptyHost t).host).put 0
      ((emptyHost t).implCreateSandbox .capnp 0 allSucceed).2 with
    forkFailed := fun o => False ∨ o = 0 ∧ FailsAtFork t allSucceed }

theorem step_oneSandbox :
    Step (start t (emptyHost t).host) (.create 0 allSucceed) (oneSandbox t) :=
  ⟨fun up => up rfl, allowed_emptyHost (t := t) allSucceed rfl rfl (by decide), rfl⟩

theorem first_sandbox_isolated : ∃ u : Sandboxes .i386,
    Run Step (start .i386 (emptyHost .i386).host) [.create 0 allSucceed] u ∧ Isolated u := by
  refine ⟨_, .single step_oneSandbox,
    (isolated_iff_created_alone unused_emptyHost [.create 0 allSucceed]).mpr ?_ [_] [] _ rfl
      (.single step_oneSandbox)⟩
  intro before op after u v split run step
  cases before with
  | nil =>
    cases run
    cases split
    exact fun _ other _ => ⟨fun up => up rfl, fun failed => failed⟩
  | cons first rest => simp at split

/-- The answers to the second of two creates, at the next hint. -/
def nextSucceeds : CreateAnswers :=
  { allSucceed with
    mmapPadded := none
    mmapHint := fun hint => if hint = 0x50000000 then some hint else none
    requestPair := some (5, 7), callbackPair := some (8, 9), fork := some 101 }

theorem allowed_nextSucceeds : Allowed nextSucceeds (oneSandbox .i386).host where
  padded _ answered := by cases answered
  hinted hint start answered := by
    obtain ⟨-, rfl⟩ : hint = 0x50000000 ∧ start = 0x50000000 := by
      simp only [nextSucceeds, Option.ite_none_right_eq_some, Option.some.injEq] at answered
      omega
    refine ⟨by decide, fun a above below => ?_⟩
    change mmap 0x40000000 sharedMemoryBytes (fun _ => false) a = false
    simp only [mmap, Bool.false_or, decide_eq_false_iff_not]
    have bytes : sharedMemoryBytes = 0x4000000 := rfl
    omega
  fds := ⟨by decide, by decide⟩
  pid pid answered child inside := by
    cases answered
    obtain rfl := List.mem_singleton.mp inside
    decide

/-- The second sandbox's child executes with descriptor 4, the first's channel
to its own child. -/
theorem second_child_holds_first_channel :
    ¬ ∀ before after u,
      [SandboxOp.create 0 allSucceed, .create 1 nextSucceeds] = before ++ after →
        Run Step (start .i386 (emptyHost .i386).host) before u → Isolated u := by
  intro always
  have second : Step (oneSandbox .i386) (.create 1 nextSucceeds) _ :=
    ⟨fun up => up rfl, allowed_nextSucceeds, rfl⟩
  have isolated := always _ [] _ (List.append_nil _).symm (.cons step_oneSandbox (.cons second .nil))
  have child := isolated _ (List.mem_append_right _ (List.mem_singleton_self _)) 4
    (.request 0 .host) 0 rfl rfl
  cases child

end Sandboxes
end RlboxDynamic.HostProcess
