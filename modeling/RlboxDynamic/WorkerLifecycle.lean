import RlboxDynamic.PoolOwnership

/-! The life of every child the shim forks: who keeps it at each moment, and what
has been done with it. -/
namespace RlboxDynamic.PoolDescriptors
open Transition

/-- What the shim does with a worker, in order. -/
def pooledLife (r : RequestId) : List HandleEvent :=
  [.pushed, .acquired r, .sent, .closedReq, .closedResp, .waited]

/-- What it does with an inline child. -/
def inlineLife (r : RequestId) : List HandleEvent := [.inlineFor r, .closedResp, .waited]

/-- Nothing was done with the child out of order or twice, and it has been
waited for just where that is the last of it. -/
structure Lifecycle {t : Target} (f : Forked t) : Prop where
  prefixes : ∃ r, f.handle <+: pooledLife r ∨ (f.handle ≠ [] ∧ f.handle <+: inlineLife r)
  waited : .waited ∈ f.handle ↔ f.reaped = true

/-- The pid of the child that serves the call. -/
def Call.serverPid {t : Target} : Call t → Option Pid
  | .dispatching w _ => some w.pid
  | .closingWrite _ server | .reading server | .finishing server _ _ => some server.pid
  | .entered _ | .piping _ | .forking _ _ | .abandoning _ | .returned _ => none

namespace Procs
variable {t : Target} {env : ShimEnv t} {s s' : Procs t} {a : Action t}

/-- Whoever is to keep a child does, unless its call has returned. -/
def Keeps (s : Procs t) (f : Forked t) : Option Thread → Prop
  | some .refill => ∃ fds w, s.refill = .closing fds (some w) ∧ f.Named w.pid
  | none => ∃ w ∈ s.pool, f.Named w.pid
  | some (.request r) =>
    (f.reaped = true ∧ ∃ result, s.requests r = some (.returned result)) ∨
      ∃ call pid, s.requests r = some call ∧ call.serverPid = some pid ∧ f.Named pid

/-- Every child is at some point of its life, kept by whoever is to keep it. -/
def Accounted (s : Procs t) : Prop :=
  ∀ (k : Nat) f, s.forked[k]? = some f → Lifecycle f ∧ s.Keeps f (holder f.handle)

theorem start_accounted (mspace : Bool) (target : Nat) : (start mspace target : Procs t).Accounted := by
  simp [Accounted, start]

theorem Lifecycle.of_handles {f : Forked t} (handles : s.Handles k pid handle)
    (here : s.forked[k]? = some f)
    (prefixes : ∃ r, handle <+: pooledLife r ∨ (handle ≠ [] ∧ handle <+: inlineLife r))
    (unwaited : .waited ∉ handle) : Lifecycle f ∧ f.Named pid ∧ f.handle = handle := by
  obtain ⟨g, there, name, rfl⟩ := handles
  rw [here] at there
  cases there
  exact ⟨⟨prefixes, iff_of_false unwaited (by simp [name.2])⟩, name, rfl⟩

/-- The refill thread goes on, with no worker to lose. -/
theorem Accounted.refillMoves (kept : s.Accounted) (none : ∀ fds w, s.refill ≠ .closing fds (some w))
    (descriptors : Descriptors) (pipes : List PipeUse) (q : Spawning) :
    ({ s with descriptors, pipes, refill := q } : Procs t).Accounted := by
  intro k f here
  obtain ⟨life, keeps⟩ := kept k f here
  refine ⟨life, ?_⟩
  cases held : holder f.handle with
  | none => rw [held] at keeps; exact keeps
  | some thread =>
    rw [held] at keeps
    cases thread with
    | refill =>
      obtain ⟨fds, w, closing, -⟩ := keeps
      exact absurd closing (none fds w)
    | request r => exact keeps

/-- A call that has not returned goes on with the same child, if it has one. -/
theorem Keeps.callMoves {f : Forked t} (keeps : s.Keeps f thread) (at_r : s.requests r = old)
    (unreturned : ∀ result, old ≠ some (.returned result))
    (serves : ∀ pid, old.bind Call.serverPid = some pid → q.serverPid = some pid) :
    (s.setCall r q).Keeps f thread := by
  cases thread with
  | none => exact keeps
  | some thread =>
    cases thread with
    | refill => exact keeps
    | request r' =>
      by_cases same : r' = r
      · subst same
        rcases keeps with ⟨-, result, returned⟩ | ⟨call, pid, here, served, name⟩
        · exact absurd (at_r.symm.trans returned) (unreturned result)
        · rw [at_r] at here
          exact .inr ⟨q, pid, by simp [setCall], serves pid (by simp [here, served]), name⟩
      · simpa [Keeps, setCall, Function.update_of_ne same] using keeps

theorem Accounted.callMoves (kept : s.Accounted) (at_r : s.requests r = old)
    (unreturned : ∀ result, old ≠ some (.returned result))
    (serves : ∀ pid, old.bind Call.serverPid = some pid → q.serverPid = some pid) :
    (s.setCall r q).Accounted :=
  fun k f here => ⟨(kept k f here).1, (kept k f here).2.callMoves at_r unreturned serves⟩

/-- A step on one child, with the others' keepers as they were. -/
theorem Accounted.change (kept : s.Accounted) (k : Nat)
    (forked : ∀ j, j ≠ k → s'.forked[j]? = s.forked[j]?)
    (changed : ∀ f, s'.forked[k]? = some f → Lifecycle f ∧ s'.Keeps f (holder f.handle))
    (others : ∀ j f, j ≠ k → s.forked[j]? = some f → s.Keeps f (holder f.handle) →
      s'.Keeps f (holder f.handle)) : s'.Accounted := by
  intro j f here
  by_cases same : j = k
  · subst same
    exact changed f here
  · rw [forked j same] at here
    obtain ⟨life, keeps⟩ := kept j f here
    exact ⟨life, others j f same here keeps⟩

theorem Accounted.of_forked (kept : s.Accounted) (forked : s'.forked = s.forked)
    (keeps : ∀ f thread, s.Keeps f thread → s'.Keeps f thread) : s'.Accounted := by
  intro k f here
  rw [forked] at here
  exact ⟨(kept k f here).1, keeps f _ (kept k f here).2⟩

/-- A step of a child that is nothing to the shim. -/
theorem Accounted.setChild (kept : s.Accounted) (here : s.forked[k]? = some f)
    (pid : f'.pid = f.pid) (reaped : f'.reaped = f.reaped) (handle : f'.handle = f.handle) :
    (s.setChild k f').Accounted := by
  obtain ⟨life, keeps⟩ := kept k f here
  have inside : k < s.forked.length := (List.getElem?_eq_some_iff.mp here).1
  refine kept.change k (fun j other => by simp [Procs.setChild, Ne.symm other]) ?_
    fun _ _ _ _ keeps => keeps
  intro g there
  obtain rfl : f' = g := by simpa [Procs.setChild, inside] using there
  refine ⟨⟨handle ▸ life.prefixes, by rw [handle, reaped]; exact life.waited⟩, ?_⟩
  have named : ∀ pid, f.Named pid → f'.Named pid := fun q name => ⟨pid.trans name.1, reaped.trans name.2⟩
  rw [handle]
  cases held : holder f.handle with
  | none =>
    rw [held] at keeps
    obtain ⟨w, inside, name⟩ := keeps
    exact ⟨w, inside, named _ name⟩
  | some thread =>
    rw [held] at keeps
    cases thread with
    | refill =>
      obtain ⟨fds, w, closing, name⟩ := keeps
      exact ⟨fds, w, closing, named _ name⟩
    | request r =>
      refine keeps.imp (fun done => ⟨reaped.trans done.1, done.2⟩) ?_
      rintro ⟨call, pid, at_r, serves, name⟩
      exact ⟨call, pid, at_r, serves, named _ name⟩

/-- A fork adds a child that its thread keeps. -/
theorem Accounted.append (kept : s.Accounted) (f : Forked t) (forked : s'.forked = s.forked ++ [f])
    (new : Lifecycle f ∧ s'.Keeps f (holder f.handle))
    (keeps : ∀ f thread, s.Keeps f thread → s'.Keeps f thread) : s'.Accounted := by
  intro k g here
  rw [forked, List.getElem?_append] at here
  split at here
  next => exact ⟨(kept k g here).1, keeps g _ (kept k g here).2⟩
  next =>
    rw [List.getElem?_singleton] at here
    split at here
    next => cases here; exact new
    next => cases here

/-! ## The steps that do something with a child -/

theorem Accounted.spawns (kept : s.Accounted) (forking : s.refill = .forking req resp) :
    ({ s.forkWorker pid req resp with
        refill := .closing [req.readFd, resp.writeFd] (some ⟨pid, req.writeFd, resp.readFd⟩) } :
      Procs t).Accounted := by
  refine kept.append _ rfl ⟨⟨⟨0, .inl (List.nil_prefix)⟩, by simp⟩, _, _, rfl, rfl, rfl⟩ ?_
  intro f thread keeps
  match thread, keeps with
  | none, keeps => exact keeps
  | some .refill, ⟨fds, w, closing, _⟩ => simp [forking] at closing
  | some (.request r), keeps => exact keeps

theorem Accounted.forks (kept : s.Accounted) (forking : s.requests r = some (.forking job p)) :
    ((s.forkInline pid r job p).setCall r (.closingWrite p.writeFd (.inline pid p.readFd))).Accounted := by
  refine kept.append _ rfl ⟨⟨⟨r, .inr ⟨by simp, [.closedResp, .waited], rfl⟩⟩, by simp⟩, ?_⟩ ?_
  · exact .inr ⟨_, pid, Function.update_self _ _ _, rfl, rfl, rfl⟩
  · intro f thread keeps
    exact keeps.callMoves forking nofun nofun

theorem Accounted.refillCloses (wired : s.Wired none) (kept : s.Accounted)
    (closing : s.refill = .closing (fd :: fds) w) :
    ({ s.closeFd fd with refill := .closing fds w } : Procs t).Accounted := by
  have forked : (s.closeFd fd).forked = s.forked := by
    have holds := wired.refill nofun
    rw [closing] at holds
    cases holds with
    | abandoning opened =>
      obtain ⟨side, at_fd⟩ := opened.opened fd List.mem_cons_self
      exact forked_closeFd_child at_fd rfl
    | closing _ _ _ ends =>
      exact (ends.ends fd List.mem_cons_self).elim (forked_closeFd_child · rfl) (forked_closeFd_child · rfl)
  refine kept.of_forked forked fun f thread keeps => ?_
  match thread, keeps with
  | none, keeps => simpa [Keeps] using keeps
  | some (.request r), keeps => simpa [Keeps] using keeps
  | some .refill, ⟨fds', w', closing', name⟩ =>
    rw [closing] at closing'
    cases closing'
    exact ⟨fds, w', rfl, name⟩

theorem Accounted.pushes (wired : s.Wired none) (kept : s.Accounted)
    (closed : s.refill = .closing [] (some w)) :
    ({ s.note w.pid .pushed with refill := .waiting, pool := s.pool ++ [w] } : Procs t).Accounted := by
  have holds := wired.refill nofun
  rw [closed] at holds
  cases holds with
  | @closing k w _ handles =>
    refine kept.change k (fun j other => getElem?_note_of_ne wired.onePid handles other) ?_ ?_
    · intro f here
      obtain ⟨life, name, same⟩ := Lifecycle.of_handles handles.note here
        ⟨0, .inl ⟨_, rfl⟩⟩ (by simp)
      exact ⟨life, same ▸ ⟨w, List.mem_append_right _ (List.mem_singleton_self w), name⟩⟩
    · intro j f other here keeps
      match held : holder f.handle, keeps with
      | none, ⟨w', inside, name⟩ => exact ⟨w', List.mem_append_left _ inside, name⟩
      | some .refill, ⟨fds, w', closing, name⟩ =>
        rw [closed] at closing
        cases closing
        exact absurd (wired.onePid.handles handles ⟨f, here, name, rfl⟩).1.symm other
      | some (.request r), keeps => exact keeps

theorem Accounted.finds (wired : s.Wired none) (kept : s.Accounted)
    (entered : s.requests r = some (.entered job)) (front : s.pool = w :: rest) :
    ({ s.note w.pid (.acquired r) with pool := rest }.setCall r (.dispatching w job)).Accounted := by
  obtain ⟨k, handles, -⟩ := wired.pool w (front ▸ List.mem_cons_self)
  refine kept.change k (fun j other => getElem?_note_of_ne wired.onePid handles other) ?_ ?_
  · intro f here
    obtain ⟨life, name, same⟩ := Lifecycle.of_handles handles.note here
      ⟨r, .inl ⟨_, rfl⟩⟩ (by simp)
    exact ⟨life, same ▸ .inr ⟨_, w.pid, Function.update_self _ _ _, rfl, name⟩⟩
  · intro j f other here keeps
    have moved : (s.setCall r (.dispatching w job)).Keeps f (holder f.handle) :=
      keeps.callMoves entered nofun nofun
    match held : holder f.handle, moved with
    | none, ⟨w', inside, name⟩ =>
      refine ⟨w', ?_, name⟩
      change w' ∈ s.pool at inside
      rw [front] at inside
      rcases List.mem_cons.mp inside with rfl | later
      · exact absurd (wired.onePid.handles handles ⟨f, here, name, rfl⟩).1.symm other
      · exact later
    | some .refill, keeps => exact keeps
    | some (.request r'), keeps => exact keeps

/-- A call does the next thing with the child that serves it. -/
theorem Accounted.serves (kept : s.Accounted) (now : s'.Handles k pid handle)
    (held : holder handle = some (.request r))
    (prefixes : ∃ r, handle <+: pooledLife r ∨ (handle ≠ [] ∧ handle <+: inlineLife r))
    (unwaited : .waited ∉ handle)
    (forked : ∀ j, j ≠ k → s'.forked[j]? = s.forked[j]?) (refill : s'.refill = s.refill)
    (pool : s'.pool = s.pool) (requests : s'.requests = Function.update s.requests r (some q))
    (at_r : s.requests r = some old) (unreturned : ∀ result, some old ≠ some (.returned result))
    (before : old.serverPid = some pid) (after : q.serverPid = some pid) : s'.Accounted := by
  have keeps : ∀ f thread, s.Keeps f thread → s'.Keeps f thread := by
    intro f thread keeps
    have moved : (s.setCall r q).Keeps f thread := by
      refine keeps.callMoves at_r unreturned fun pid' serves => ?_
      rw [after, ← before]
      exact serves
    match thread, moved with
    | none, moved => simpa [Keeps, pool, setCall] using moved
    | some .refill, moved => simpa [Keeps, refill, setCall] using moved
    | some (.request r'), moved => simpa [Keeps, requests, setCall] using moved
  refine kept.change k forked ?_ fun j f _ _ kept => keeps f _ kept
  intro f here
  obtain ⟨life, name, same⟩ := Lifecycle.of_handles now here prefixes unwaited
  refine ⟨life, ?_⟩
  rw [same, held]
  exact .inr ⟨q, pid, by simp [requests], after, name⟩

theorem Accounted.dispatched (wired : s.Wired none) (kept : s.Accounted)
    (at_r : s.requests r = some (.dispatching w job)) (after : q.serverPid = some w.pid) :
    ((s.submit w.reqFd job).setCall r q).Accounted := by
  cases wired.calls r _ nofun at_r with
  | dispatching worker =>
    obtain ⟨k, handles, req, -⟩ := worker
    refine kept.serves (handles.submit req job) rfl ⟨r, .inl ⟨_, rfl⟩⟩ (by simp)
      (fun j other => getElem?_submit_of_ne req job other) ?_ ?_ ?_ at_r nofun rfl after
    all_goals rw [submit_eq req]; rfl

theorem Accounted.closes (wired : s.Wired none) (kept : s.Accounted)
    (finishing : s.requests r = some (.finishing server (fd :: fds) result)) :
    ((s.closeFd fd).setCall r (.finishing server fds result)).Accounted := by
  obtain ⟨k, handle, event, side, use, handles, at_fd, closes, held, prefixes, unwaited⟩ :
      ∃ k handle event side use, s.Handles k server.pid handle ∧ s.EndAt fd side use ∧
        use.closed side = some (k, event) ∧ holder (handle ++ [event]) = some (.request r) ∧
        (∃ r, handle ++ [event] <+: pooledLife r ∨
          (handle ++ [event] ≠ [] ∧ handle ++ [event] <+: inlineLife r)) ∧
        .waited ∉ handle ++ [event] := by
    cases wired.calls r _ nofun finishing with
    | finishing serving =>
      cases serving with
      | both handles req =>
        exact ⟨_, _, _, _, _, handles, req, rfl, rfl, ⟨r, .inl ⟨_, rfl⟩⟩, by simp⟩
      | resp handles resp =>
        exact ⟨_, _, _, _, _, handles, resp, rfl, rfl, ⟨r, .inl ⟨_, rfl⟩⟩, by simp⟩
      | inline handles resp =>
        exact ⟨_, _, _, _, _, handles, resp, rfl, rfl, ⟨r, .inr ⟨nofun, _, rfl⟩⟩, by simp⟩
  refine kept.serves (q := .finishing server fds result) (handles.closeFd at_fd closes) held prefixes
    unwaited
    (fun j other => getElem?_closeFd_of_ne at_fd closes other) (refill_closeFd fd) (pool_closeFd fd)
    ?_ finishing nofun rfl rfl
  exact congrArg (Function.update · r _) (requests_closeFd fd)

/-- The last thing that is done with a child. -/
theorem Accounted.waits (wired : s.Wired none) (kept : s.Accounted)
    (finished : s.requests r = some (.finishing server [] result)) :
    ((s.reap server.pid).setCall r (.returned result)).Accounted := by
  obtain ⟨k, handle, handles, held, prefixes⟩ : ∃ k handle, s.Handles k server.pid handle ∧
      holder (handle ++ [.waited]) = some (.request r) ∧
      ∃ r, handle ++ [.waited] <+: pooledLife r ∨
        (handle ++ [.waited] ≠ [] ∧ handle ++ [.waited] <+: inlineLife r) := by
    cases wired.calls r _ (by simp) finished with
    | finishing serving =>
      cases serving with
      | closed handles => exact ⟨_, _, handles, rfl, r, .inl ⟨_, rfl⟩⟩
      | inlineClosed handles => exact ⟨_, _, handles, rfl, r, .inr ⟨by simp, _, rfl⟩⟩
  obtain ⟨f, here, name, rfl⟩ := handles
  refine kept.change k (fun j other => getElem?_reap_of_ne wired.onePid ⟨f, here, name, rfl⟩ other) ?_ ?_
  · intro g there
    obtain rfl : { f with reaped := true, handle := f.handle ++ [.waited] } = g := by
      simpa [reap, setCall, here, Forked.reap, name] using there
    refine ⟨⟨prefixes, by simp⟩, ?_⟩
    change Keeps _ _ (holder (f.handle ++ [.waited]))
    rw [held]
    exact .inl ⟨rfl, result, Function.update_self _ _ _⟩
  · intro j g other there keeps
    generalize holder g.handle = thread at keeps ⊢
    rcases thread with _ | _ | r'
    · exact keeps
    · exact keeps
    · by_cases same : r' = r
      · subst same
        rcases keeps with ⟨-, value, returned⟩ | ⟨call, pid, at_r, serves, named⟩
        · simp [finished] at returned
        · rw [finished] at at_r
          cases at_r
          cases serves
          exact absurd (wired.onePid j k _ g f there here named name) other
      · simpa [Keeps, setCall, reap, Function.update_of_ne same] using keeps

/-- A call that has no child goes on, whatever becomes of descriptors. -/
theorem Accounted.closesOwn (kept : s.Accounted) (at_fd : s.EndAt fd side use)
    (closes : use.closed side = none)
    (at_r : s.requests r = old) (unreturned : ∀ result, old ≠ some (.returned result))
    (serves : ∀ pid, old.bind Call.serverPid = some pid → q.serverPid = some pid) :
    ((s.closeFd fd).setCall r q).Accounted := by
  have closed : (s.closeFd fd).Accounted := by
    refine kept.of_forked (forked_closeFd_child at_fd closes) fun f thread keeps => ?_
    match thread, keeps with
    | none, keeps => simpa [Keeps] using keeps
    | some .refill, keeps => simpa [Keeps] using keeps
    | some (.request r), keeps => simpa [Keeps] using keeps
  exact closed.callMoves ((congrFun (requests_closeFd fd) r).trans at_r) unreturned serves

theorem step_accounted (wired : s.Wired none) (kept : s.Accounted) (done : Step env s a s') :
    s'.Accounted := by
  cases does_of_step done with
  | wakes waiting => exact kept.refillMoves (by simp [waiting]) _ _ _
  | sleeps closed => exact kept.refillMoves (by simp [closed]) _ _ _
  | opensNone spawning => exact kept.refillMoves (by simp [spawning]) _ _ _
  | opensOne opened => exact kept.refillMoves (by simp [opened]) _ _ _
  | opensReq spawning => exact kept.refillMoves (by simp [spawning]) _ _ _
  | opensResp opened => exact kept.refillMoves (by simp [opened]) _ _ _
  | spawnFails forking => exact kept.refillMoves (by simp [forking]) _ _ _
  | spawns forking => exact kept.spawns forking
  | refillCloses closing => exact kept.refillCloses wired closing
  | pushes closed => exact kept.pushes wired closed
  | enters unused => exact kept.callMoves unused nofun nofun
  | misses entered => exact kept.callMoves entered nofun nofun
  | finds entered front => exact kept.finds wired entered front
  | pipeFails piping => exact kept.callMoves piping nofun nofun
  | @opensInline r _ fds piping =>
    have opened : (s.openPipe (.request r) fds).Accounted := kept.of_forked rfl fun _ _ keeps => keeps
    exact opened.callMoves piping nofun nofun
  | forkFails forking => exact kept.callMoves forking nofun nofun
  | forks forking => exact kept.forks forking
  | sends dispatching => exact kept.dispatched wired dispatching rfl
  | sendFails dispatching => exact kept.dispatched wired dispatching rfl
  | reads reading => exact kept.callMoves reading nofun fun _ serves => serves
  | abandons abandoning =>
    cases wired.calls _ _ nofun abandoning with
    | abandoning opened =>
      obtain ⟨side, at_fd⟩ := opened.opened _ List.mem_cons_self
      exact kept.closesOwn at_fd rfl abandoning nofun nofun
  | closesWrite closing =>
    cases wired.calls _ _ nofun closing with
    | closingWrite _ _ write => exact kept.closesOwn write rfl closing nofun fun _ serves => serves
  | closes finishing => exact kept.closes wired finishing
  | gaveUp abandoned => exact kept.callMoves abandoned nofun nofun
  | waits finished => exact kept.waits wired finished
  | childCloses here closed =>
    obtain ⟨pid, reaped, handle⟩ := closeNext_same closed
    exact kept.setChild here pid reaped handle
  | acts here acted =>
    obtain ⟨pid, reaped, handle⟩ := act_same acted
    exact kept.setChild here pid reaped handle

end Procs
end RlboxDynamic.PoolDescriptors
