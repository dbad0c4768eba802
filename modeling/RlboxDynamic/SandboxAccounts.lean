import RlboxDynamic.SandboxRegions

/-! What the host process keeps for its sandboxes, in both builds. As long as a
create that fails undoes what it did, every descriptor, child, callback thread
and registration is that of a sandbox that is up, and a host with none up is the
host before the first, with more memory mapped. -/
namespace RlboxDynamic.HostProcess
open Transition

variable {t : Target}

/-- A host before its first sandbox. -/
structure Idle (host : Host) : Prop where
  unused : Sandboxes.Unused host
  registry : host.globalRegistry = ∅
  thread : host.threadLocalSandbox = none
  services : host.services = []

namespace Life
variable {transport : Transport} {self : SandboxId} {os : CreateAnswers} {s : Life t}

/-- A sandbox with its channels, its child and its callback thread. -/
structure GoesUp (transport : Transport) (o : SandboxId) (s after : Life t) (req cb : Option Fd)
    (child : HostChild) : Prop where
  request : after.object.requestFd = req
  callback : after.object.callbackFd = cb
  channels : (req.isSome ↔ transport = .capnp) ∧ (cb.isSome ↔ transport = .capnp)
  files : ∀ fd, after.host.files fd =
    if req = some fd then some (.request o .host)
    else if cb = some fd then some (.callback o .host) else s.host.files fd
  fresh : ∀ fd, req = some fd ∨ cb = some fd → s.host.files fd = none
  distinct : ∀ fd, req = some fd → cb ≠ some fd
  children : after.host.children = s.host.children ++ [child]
  owner : child.owner = o
  handle : after.object.childProcessHandle = some child.pid
  pid : ∀ other ∈ s.host.children, other.pid ≠ child.pid
  services : after.host.services = s.host.services ∨
    ∃ service, service.owner = o ∧ after.host.services = s.host.services ++ [service]
  server : transport = .rpclib → after.object.callbackServer = true
  thread : after.host.threadLocalSandbox = some o

/-- A create that undoes what it did, or brings the sandbox up. -/
inductive CreateOutcome (transport : Transport) (self : SandboxId) (s : Life t) :
    Bool × Life t → Prop where
  | undone (size : Nat) : CreateOutcome transport self s
      (false, { s with object := { s.object with sharedMemorySize := size } })
  | up (req cb : Option Fd) (child : HostChild) (goes : GoesUp transport self s after req cb child) :
      CreateOutcome transport self s (true, after)

theorem createRpclib_goesUp {shmFd : Fd} {base : Nat} (opened : os.memfd = some shmFd)
    (allowed : Allowed os s.host) (down : s.object.requestFd = none ∧ s.object.callbackFd = none)
    (late : ¬ LateFailure .rpclib os) :
    CreateOutcome .rpclib self s ((s.published self shmFd base).createRpclib self os shmFd) := by
  have free : s.host.files shmFd = none :=
    allowed.fds.2 shmFd (by simp [CreateAnswers.fds, opened])
  simp only [LateFailure, not_or] at late
  obtain ⟨ports, forks, listens, connects⟩ := late
  unfold createRpclib
  rw [if_neg (by simpa using ports)]
  cases forked : os.fork with
  | none => exact absurd forked forks
  | some pid =>
    dsimp only
    rw [if_neg listens, if_neg connects]
    refine .up none none _ ⟨down.1, down.2, by simp, fun fd => ?_, by simp, by simp, rfl, rfl, rfl,
      ?_, .inr ⟨.server self os.callbackPort, rfl, rfl⟩, fun _ => rfl, rfl⟩
    · have closed := closed_opened (some (OpenFile.shm self)) free
      simp only [reduceCtorEq, if_false]
      exact congrFun closed fd
    · exact allowed.pid pid forked

theorem createCapnp_goesUp {shmFd : Fd} {base : Nat} (opened : os.memfd = some shmFd)
    (allowed : Allowed os s.host) (late : ¬ LateFailure .capnp os) :
    CreateOutcome .capnp self s ((s.published self shmFd base).createCapnp self os shmFd) := by
  obtain ⟨distinct, free⟩ := allowed.fds
  simp only [LateFailure, not_or] at late
  obtain ⟨requests, callbacks, forks⟩ := late
  unfold createCapnp
  cases request : os.requestPair with
  | none => exact absurd request requests
  | some pair =>
    obtain ⟨req0, req1⟩ := pair
    cases callback : os.callbackPair with
    | none => exact absurd callback callbacks
    | some pair =>
      obtain ⟨cb0, cb1⟩ := pair
      cases forked : os.fork with
      | none => exact absurd forked forks
      | some pid =>
        simp only [CreateAnswers.fds, opened, request, callback, Option.toList_some,
          List.flatMap_singleton, List.cons_append, List.nil_append] at distinct free
        refine .up (some req0) (some cb0) _ ⟨rfl, rfl, by simp, fun fd => ?_, ?_, ?_, rfl, rfl, rfl,
          allowed.pid pid forked, ?_, (fun other => by cases other), rfl⟩
        · simp only [Life.closeFile, Life.openFile, Life.published, Life.spawn,
            Life.startCallbackLoop, Function.update_apply, Option.some.injEq]
          grind
        · rintro fd (here | here)
          · cases here
            exact free _ (by simp)
          · cases here
            exact free _ (by simp)
        · rintro fd here same
          cases here
          cases same
          simp at distinct
        · simp only [startCallbackLoop]
          split
          · exact .inl rfl
          · exact .inr ⟨.loop self cb0, rfl, rfl⟩

theorem implCreateSandbox_outcome (allowed : Allowed os s.host)
    (down : s.object.requestFd = none ∧ s.object.callbackFd = none)
    (whole : EarlyFailure t os ∨ ¬ LateFailure transport os) :
    CreateOutcome transport self s (s.implCreateSandbox transport self os) := by
  have outcome : Creates transport self os s _ := creates allowed
  generalize s.implCreateSandbox transport self os = result at outcome
  cases outcome with
  | undone early size => exact .undone size
  | goesOn reached opened base fresh =>
    have late := whole.resolve_left reached
    cases transport with
    | rpclib => exact createRpclib_goesUp opened allowed down late
    | capnp => exact createCapnp_goesUp opened allowed late

/-- A sandbox without its channels, its child and its callback thread. -/
structure GoesDown (o : SandboxId) (s after : Life t) : Prop where
  files : DestroyFiles s after
  children : after.host.children =
    s.host.children.filter fun child => decide (s.object.childProcessHandle ≠ some child.pid)
  handle : after.object.childProcessHandle = none
  services : after.host.services = s.host.services.filter (·.owner ≠ o)
  thread : after.host.threadLocalSandbox =
    if s.host.threadLocalSandbox = some o then none else s.host.threadLocalSandbox

/-- What the part before the child does. -/
structure EndsService (o : SandboxId) (s after : Life t) : Prop where
  files : DestroyFiles s after
  children : after.host.children = s.host.children
  handle : after.object.childProcessHandle = s.object.childProcessHandle
  services : after.host.services = s.host.services.filter (·.owner ≠ o)
  thread : after.host.threadLocalSandbox =
    if s.host.threadLocalSandbox = some o then none else s.host.threadLocalSandbox

/-- The child, where there is one, is waited for. -/
theorem EndsService.reaps {mid : Life t} (ends : EndsService self s mid) :
    (mid.object.childProcessHandle = none → GoesDown self s mid) ∧
      ∀ pid, mid.object.childProcessHandle = some pid → GoesDown self s
        { object := { mid.object with childProcessHandle := none }
          host := { mid.host with children := mid.host.children.filter (·.pid ≠ pid) } } := by
  obtain ⟨files, children, handle, services, thread⟩ := ends
  constructor
  · intro none
    rw [none] at handle
    refine ⟨files, ?_, none, services, thread⟩
    rw [children, ← handle]
    simp
  · intro pid some_
    rw [some_] at handle
    refine ⟨⟨files.files, files.request, files.callback, fun child inside =>
      files.children child (List.mem_of_mem_filter inside)⟩, ?_, rfl, services, thread⟩
    rw [children, ← handle]
    simp [eq_comm]

theorem closeChannels_others : s.closeChannels.host.children = s.host.children ∧
    s.closeChannels.object.childProcessHandle = s.object.childProcessHandle ∧
    s.closeChannels.host.services = s.host.services ∧
    s.closeChannels.host.threadLocalSandbox = s.host.threadLocalSandbox := by
  unfold closeChannels
  split <;> dsimp only <;> split <;> exact ⟨rfl, rfl, rfl, rfl⟩

theorem implDestroySandbox_goesDown (transport : Transport)
    (served : transport = .rpclib → s.object.requestFd = none ∧ s.object.callbackFd = none ∧
      s.object.callbackServer = true) :
    s.GoesDown self (s.implDestroySandbox transport self) := by
  unfold implDestroySandbox
  cases transport with
  | rpclib =>
    obtain ⟨request, callback, server⟩ := served rfl
    dsimp only
    rw [if_pos server]
    generalize at_join : joinCallbackThread self _ = mid
    have ends : s.EndsService self mid := by
      subst at_join
      refine ⟨⟨fun fd => ?_, request, callback, fun _ => id⟩, rfl, rfl, rfl, rfl⟩
      have notOpen : ¬ (s.object.requestFd = some fd ∨ s.object.callbackFd = some fd) := by
        simp [request, callback]
      rw [if_neg notOpen]
      rfl
    split
    · rename_i none
      exact ends.reaps.1 none
    · rename_i pid some_
      exact ends.reaps.2 pid some_
  | capnp =>
    dsimp only
    generalize at_close : Life.mk _ _ = before
    have files := closeChannels_files (s := before)
    obtain ⟨children, handle, services, thread⟩ := closeChannels_others (s := before)
    have ends : s.EndsService self (before.closeChannels.joinCallbackThread self) := by
      subst at_close
      refine ⟨⟨files.files, files.request, files.callback, files.children⟩, children, handle, ?_,
        thread⟩
      rw [joinCallbackThread, services]
    split
    · rename_i none
      exact ends.reaps.1 none
    · rename_i pid some_
      exact ends.reaps.2 pid some_

end Life

namespace Lives
variable {s s' : Lives t} {transport : Transport} {self : SandboxId} {os : CreateAnswers} {host : Host}

/-- The descriptor is one of the two that an object keeps. -/
def Keeps (s : Lives t) (fd : Fd) (file : OpenFile) : Prop :=
  ∃ o, file = .request o .host ∧ (s.objects o).requestFd = some fd ∨
    file = .callback o .host ∧ (s.objects o).callbackFd = some fd

/-- Every descriptor, child, callback thread and registration beyond the host's
own is that of one sandbox that is up, and what is up has its own. -/
structure Accounted (transport : Transport) (host : Host) (s : Lives t) : Prop where
  files : ∀ fd file, s.host.files fd = some file ↔ host.files fd = some file ∨ s.Keeps fd file
  channels : ∀ o, ((s.objects o).requestFd.isSome ↔ s.created o = true ∧ transport = .capnp) ∧
    ((s.objects o).callbackFd.isSome ↔ s.created o = true ∧ transport = .capnp)
  children : ∀ child ∈ s.host.children,
    s.created child.owner = true ∧ (s.objects child.owner).childProcessHandle = some child.pid
  child : ∀ o, s.created o = true → ∃ child ∈ s.host.children, child.owner = o
  pids : (s.host.children.map (·.pid)).Nodup
  services : ∀ service ∈ s.host.services, s.created service.owner = true
  oneService : (s.host.services.map (·.owner)).Nodup
  server : transport = .rpclib → ∀ o, s.created o = true → (s.objects o).callbackServer = true
  thread : ∀ o, s.host.threadLocalSandbox = some o → s.created o = true

theorem accounted_start (idle : Idle host) : Accounted transport host (start t host) where
  files fd file := by simp [start, Keeps, ProcessSandbox.constructed]
  channels o := by simp [start, ProcessSandbox.constructed]
  children child inside := by
    have inside' : child ∈ host.children := inside
    rw [idle.unused.children] at inside'
    cases inside'
  child o up := by cases up
  pids := by simp [start, idle.unused.children]
  services service inside := by
    have inside' : service ∈ host.services := inside
    rw [idle.services] at inside'
    cases inside'
  oneService := by simp [start, idle.services]
  server _ o up := by cases up
  thread o here := by
    have here' : host.threadLocalSandbox = some o := here
    rw [idle.thread] at here'
    cases here'

namespace Accounted

theorem down (accounted : Accounted transport host s) {o : SandboxId} (down : s.created o = false) :
    (s.objects o).requestFd = none ∧ (s.objects o).callbackFd = none := by
  obtain ⟨request, callback⟩ := accounted.channels o
  rw [down] at request callback
  simpa using And.intro request callback

/-- What is kept after a call: what the object now keeps, and what the others keep. -/
theorem keeps_put {l : Life t} {created : Bool} {fd : Fd} {file : OpenFile} :
    (s.put self l created).Keeps fd file ↔
      (file = .request self .host ∧ l.object.requestFd = some fd ∨
        file = .callback self .host ∧ l.object.callbackFd = some fd) ∨
      ∃ o, o ≠ self ∧ (file = .request o .host ∧ (s.objects o).requestFd = some fd ∨
        file = .callback o .host ∧ (s.objects o).callbackFd = some fd) := by
  unfold Keeps
  constructor
  · rintro ⟨o, kept⟩
    rw [put_objects] at kept
    split at kept
    · rename_i here
      exact .inl (here ▸ kept)
    · rename_i other
      exact .inr ⟨o, other, kept⟩
  · rintro (kept | ⟨o, other, kept⟩)
    · refine ⟨self, ?_⟩
      rwa [put_objects, if_pos rfl]
    · refine ⟨o, ?_⟩
      rwa [put_objects, if_neg other]

/-- A sandbox that is down keeps nothing. -/
theorem keeps_others (request : (s.objects self).requestFd = none)
    (callback : (s.objects self).callbackFd = none) {fd : Fd} {file : OpenFile} :
    (∃ o, o ≠ self ∧ (file = .request o .host ∧ (s.objects o).requestFd = some fd ∨
      file = .callback o .host ∧ (s.objects o).callbackFd = some fd)) ↔ s.Keeps fd file := by
  constructor
  · rintro ⟨o, -, kept⟩
    exact ⟨o, kept⟩
  · rintro ⟨o, kept⟩
    refine ⟨o, ?_, kept⟩
    rintro rfl
    rw [request, callback] at kept
    simp at kept

/-- The members that the accounts are about. -/
def SameHandles (a b : ProcessSandbox t) : Prop :=
  a.requestFd = b.requestFd ∧ a.callbackFd = b.callbackFd ∧
    a.childProcessHandle = b.childProcessHandle ∧ a.callbackServer = b.callbackServer

theorem congr (accounted : Accounted transport host s) (same : s'.host = s.host)
    (created : ∀ o, s'.created o = s.created o)
    (objects : ∀ o, SameHandles (s'.objects o) (s.objects o)) : Accounted transport host s' := by
  have keeps : ∀ fd file, s'.Keeps fd file ↔ s.Keeps fd file := by
    intro fd file
    simp only [Keeps, (objects _).1, (objects _).2.1]
  constructor
  · intro fd file
    rw [same, keeps]
    exact accounted.files fd file
  · intro o
    rw [created, (objects o).1, (objects o).2.1]
    exact accounted.channels o
  · intro child inside
    rw [same] at inside
    rw [created, (objects _).2.2.1]
    exact accounted.children child inside
  · intro o up
    rw [created] at up
    rw [same]
    exact accounted.child o up
  · exact same ▸ accounted.pids
  · intro service inside
    rw [same] at inside
    rw [created]
    exact accounted.services service inside
  · exact same ▸ accounted.oneService
  · intro rpclib o up
    rw [created] at up
    rw [(objects o).2.2.2]
    exact accounted.server rpclib o up
  · intro o here
    rw [same] at here
    rw [created]
    exact accounted.thread o here

theorem create (accounted : Accounted transport host s)
    (whole : (SandboxOp.create self os).AllOrNothing t transport)
    (step : Step transport s (.create self os) s') : Accounted transport host s' := by
  obtain ⟨down, allowed, rfl⟩ := create_steps step
  have outcome : Life.CreateOutcome transport self (s.life self) _ :=
    Life.implCreateSandbox_outcome allowed (accounted.down down) whole
  generalize (s.life self).implCreateSandbox transport self os = result at outcome ⊢
  cases outcome with
  | undone size =>
    refine accounted.congr rfl (fun o => ?_) fun o => ?_
    · rw [put_created]
      split
      · rename_i here
        rw [here, down]
      · rfl
    · rw [put_objects]
      split
      · rename_i here
        rw [here]
        exact ⟨rfl, rfl, rfl, rfl⟩
      · exact ⟨rfl, rfl, rfl, rfl⟩
  | @up after req cb child goes =>
    have noChannels := accounted.down down
    have notSelf : ∀ o, s.created o = true → o ≠ self := by
      rintro o up rfl
      rw [down] at up
      cases up
    have stays : ∀ o, s.created o = true → (s.put self after true).created o = true := by
      intro o up
      rw [put_created, if_neg (notSelf o up)]
      exact up
    constructor
    · intro fd file
      rw [put_host, goes.files, keeps_put, keeps_others noChannels.1 noChannels.2, or_left_comm,
        ← accounted.files, goes.request, goes.callback]
      by_cases isRequest : req = some fd
      · have fresh := goes.fresh fd (.inl isRequest)
        have distinct := goes.distinct fd isRequest
        have free : s.host.files fd = none := fresh
        simp [isRequest, distinct, free, eq_comm]
      · by_cases isCallback : cb = some fd
        · have free : s.host.files fd = none := goes.fresh fd (.inr isCallback)
          simp [isRequest, isCallback, free, eq_comm]
        · simp only [isRequest, isCallback, if_false, and_false, or_false, false_or]
          rfl
    · intro o
      rw [put_objects, put_created]
      split
      · rw [goes.request, goes.callback]
        simpa using goes.channels
      · exact accounted.channels o
    · intro c inside
      rw [put_host, goes.children] at inside
      rcases List.mem_append.mp inside with old | new
      · obtain ⟨up, handle⟩ := accounted.children c old
        rw [put_objects, if_neg (notSelf _ up)]
        exact ⟨stays _ up, handle⟩
      · rw [List.mem_singleton.mp new, put_created, put_objects, if_pos goes.owner,
          if_pos goes.owner]
        exact ⟨rfl, goes.handle⟩
    · intro o up
      rw [put_host, goes.children]
      rw [put_created] at up
      split at up
      · rename_i here
        exact ⟨child, List.mem_append_right _ (List.mem_singleton_self _), here ▸ goes.owner⟩
      · obtain ⟨c, inside, owner⟩ := accounted.child o up
        exact ⟨c, List.mem_append_left _ inside, owner⟩
    · rw [put_host, goes.children, List.map_append, List.map_singleton]
      refine List.nodup_append.mpr ⟨accounted.pids, List.nodup_singleton _, ?_⟩
      intro pid old pid' new same
      obtain ⟨c, inside, rfl⟩ := List.mem_map.mp old
      exact goes.pid c inside (same.trans (List.mem_singleton.mp new))
    · intro service inside
      rw [put_host] at inside
      rcases goes.services with same | ⟨new, owner, more⟩
      · exact stays _ (accounted.services service (same ▸ inside))
      · rw [more] at inside
        rcases List.mem_append.mp inside with old | here
        · exact stays _ (accounted.services service old)
        · rw [List.mem_singleton.mp here, put_created, if_pos owner]
    · rw [put_host]
      rcases goes.services with same | ⟨new, owner, more⟩
      · rw [same]
        exact accounted.oneService
      · rw [more, List.map_append, List.map_singleton]
        refine List.nodup_append.mpr ⟨accounted.oneService, List.nodup_singleton _, ?_⟩
        intro o old o' here same
        obtain ⟨service, inside, rfl⟩ := List.mem_map.mp old
        refine notSelf _ (accounted.services service inside) ?_
        rw [same, List.mem_singleton.mp here, owner]
    · intro rpclib o up
      rw [put_created] at up
      rw [put_objects]
      split
      · exact goes.server rpclib
      · rename_i other
        rw [if_neg other] at up
        exact accounted.server rpclib o up
    · intro o here
      rw [put_host, goes.thread] at here
      rw [put_created, if_pos (Option.some.inj here).symm]

/-- A descriptor that is kept is open. -/
theorem open_of_keeps (accounted : Accounted transport host s) {fd : Fd} {file : OpenFile}
    (kept : s.Keeps fd file) : s.host.files fd = some file :=
  (accounted.files fd file).mpr (.inr kept)

/-- The descriptors a destroy closes are the sandbox's own. -/
theorem files_closed (accounted : Accounted transport host s) (idle : Idle host) {fd : Fd}
    (closed : (s.objects self).requestFd = some fd ∨ (s.objects self).callbackFd = some fd)
    {file : OpenFile} : ¬ (host.files fd = some file ∨ ∃ o, o ≠ self ∧
      (file = .request o .host ∧ (s.objects o).requestFd = some fd ∨
        file = .callback o .host ∧ (s.objects o).callbackFd = some fd)) := by
  obtain ⟨mine, isOpen, owned⟩ : ∃ mine, s.host.files fd = some mine ∧ mine.owner = some self := by
    rcases closed with request | callback
    · exact ⟨_, accounted.open_of_keeps ⟨self, .inl ⟨rfl, request⟩⟩, rfl⟩
    · exact ⟨_, accounted.open_of_keeps ⟨self, .inr ⟨rfl, callback⟩⟩, rfl⟩
  rintro (own | ⟨o, other, kept⟩)
  · have same := (accounted.files fd file).mpr (.inl own)
    rw [isOpen] at same
    have unowned := idle.unused.files fd file own
    rw [← Option.some.inj same, owned] at unowned
    cases unowned
  · have same := accounted.open_of_keeps ⟨o, kept⟩
    rw [isOpen] at same
    have owned' : file.owner = some o := by
      rcases kept with ⟨rfl, -⟩ | ⟨rfl, -⟩ <;> rfl
    rw [← Option.some.inj same, owned] at owned'
    exact other (Option.some.inj owned').symm

/-- Two children have different pids. -/
theorem child_of_pid (accounted : Accounted transport host s) {c d : HostChild}
    (left : c ∈ s.host.children) (right : d ∈ s.host.children) (same : c.pid = d.pid) : c = d :=
  List.inj_on_of_nodup_map accounted.pids left right same

theorem destroy (accounted : Accounted transport host s) (idle : Idle host)
    (step : Step transport s (.destroy self) s') : Accounted transport host s' := by
  obtain ⟨up, rfl⟩ := destroy_steps step
  have goes : Life.GoesDown self (s.life self) _ :=
    Life.implDestroySandbox_goesDown transport fun rpclib => by
      obtain ⟨request, callback⟩ := accounted.channels self
      have server := accounted.server rpclib self up
      have notCapnp : ¬ transport = .capnp := by
        rw [rpclib]
        exact nofun
      simp only [notCapnp, and_false, iff_false, Option.not_isSome_iff_eq_none] at request callback
      exact ⟨request, callback, server⟩
  generalize (s.life self).implDestroySandbox transport self = after at goes ⊢
  have stays : ∀ o, o ≠ self → s.created o = true → (s.put self after false).created o = true := by
    intro o other created
    rw [put_created, if_neg other]
    exact created
  constructor
  · intro fd file
    rw [put_host, goes.files.files, keeps_put, goes.files.request, goes.files.callback]
    simp only [reduceCtorEq, and_false, or_false, false_or]
    split
    · rename_i closed
      exact iff_of_false nofun (accounted.files_closed idle closed)
    · rename_i notClosed
      change s.host.files fd = some file ↔ _
      rw [accounted.files]
      refine or_congr_right ⟨?_, ?_⟩
      · rintro ⟨o, kept⟩
        refine ⟨o, ?_, kept⟩
        rintro rfl
        rcases kept with ⟨-, request⟩ | ⟨-, callback⟩
        · exact notClosed (.inl request)
        · exact notClosed (.inr callback)
      · rintro ⟨o, -, kept⟩
        exact ⟨o, kept⟩
  · intro o
    rw [put_objects, put_created]
    split
    · simp [goes.files.request, goes.files.callback]
    · exact accounted.channels o
  · intro c inside
    rw [put_host, goes.children] at inside
    obtain ⟨old, spared⟩ := List.mem_filter.mp inside
    obtain ⟨created, handle⟩ := accounted.children c old
    have other : c.owner ≠ self := by
      intro mine
      rw [mine] at handle
      have notHandle : (s.objects self).childProcessHandle ≠ some c.pid := of_decide_eq_true spared
      exact notHandle handle
    rw [put_objects, if_neg other]
    exact ⟨stays _ other created, handle⟩
  · intro o created
    rw [put_created] at created
    split at created
    · cases created
    · rename_i other
      obtain ⟨c, inside, owner⟩ := accounted.child o created
      refine ⟨c, ?_, owner⟩
      rw [put_host, goes.children]
      refine List.mem_filter.mpr ⟨inside, decide_eq_true fun handle => ?_⟩
      -- the handle is the pid of the sandbox's own child
      obtain ⟨d, mine, owned⟩ := accounted.child self up
      have isHandle := (accounted.children d mine).2
      rw [owned] at isHandle
      have samePid := Option.some.inj (isHandle.symm.trans handle)
      rw [accounted.child_of_pid mine inside samePid, owner] at owned
      exact other owned
  · rw [put_host, goes.children]
    exact accounted.pids.sublist (List.filter_sublist.map _)
  · intro service inside
    rw [put_host, goes.services] at inside
    obtain ⟨old, spared⟩ := List.mem_filter.mp inside
    exact stays _ (of_decide_eq_true spared) (accounted.services service old)
  · rw [put_host, goes.services]
    exact accounted.oneService.sublist (List.filter_sublist.map _)
  · intro rpclib o created
    rw [put_created] at created
    rw [put_objects]
    split at created
    · cases created
    · rename_i other
      rw [if_neg other]
      exact accounted.server rpclib o created
  · intro o here
    rw [put_host, goes.thread] at here
    split at here
    · cases here
    · rename_i notSelf
      refine stays o ?_ (accounted.thread o here)
      rintro rfl
      exact notSelf here

end Accounted

theorem accounted_of_run {ops : List SandboxOp} (idle : Idle host)
    (run : WholeRun transport host ops s) : Accounted transport host s := by
  refine run.invariant (accounted_start idle) fun u op v accounted step => ?_
  cases op with
  | create self os => exact accounted.create step.1 step.2
  | destroy self => exact accounted.destroy idle step.2

/-- With no sandbox up, only the mappings tell that there ever was one. -/
theorem restored {ops : List SandboxOp} (idle : Idle host) (run : WholeRun transport host ops s)
    (down : ∀ o, s.created o = false) : s.host = { host with mapped := s.host.mapped } := by
  have accounted := accounted_of_run idle run
  have files : s.host.files = host.files := by
    funext fd
    refine Option.ext fun file => ?_
    rw [accounted.files fd file, or_iff_left]
    rintro ⟨o, kept⟩
    obtain ⟨request, callback⟩ := accounted.down (down o)
    simp [request, callback] at kept
  have registry : s.host.globalRegistry = host.globalRegistry := by
    rw [idle.registry]
    refine AList.ext (List.eq_nil_iff_forall_not_mem.mpr fun e listed => ?_)
    have created := (registered_of_run idle.registry run e.1 e.2 (AList.mem_lookup_iff.mpr listed)).1
    rw [down] at created
    cases created
  have thread : s.host.threadLocalSandbox = host.threadLocalSandbox := by
    rw [idle.thread]
    refine Option.eq_none_iff_forall_ne_some.mpr fun o here => ?_
    have created := accounted.thread o here
    rw [down] at created
    cases created
  have services : s.host.services = host.services := by
    rw [idle.services]
    refine List.eq_nil_iff_forall_not_mem.mpr fun service inside => ?_
    have created := accounted.services service inside
    rw [down] at created
    cases created
  have children : s.host.children = host.children := by
    rw [idle.unused.children]
    refine List.eq_nil_iff_forall_not_mem.mpr fun child inside => ?_
    have created := (accounted.children child inside).1
    rw [down] at created
    cases created
  obtain ⟨objects, ⟨f, m, r, th, sv, ch⟩, created⟩ := s
  simp only at files registry thread services children
  simp only [files, registry, thread, services, children]

end Lives
end RlboxDynamic.HostProcess

namespace RlboxDynamic
open Transition HostProcess HostProcess.Sandboxes

end RlboxDynamic
