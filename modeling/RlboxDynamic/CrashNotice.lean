import RlboxDynamic.CallIsolation

/-! Whether a call that reads from a child that has died comes back. It does once
nobody has the write end of the response pipe: the shim's request thread serves
one call at a time, but the refill thread may fork in the middle of it. -/
namespace RlboxDynamic.PoolDescriptors
open Transition

/-- The call has the write end of its pipe: its own child is not forked yet, or
has just been. -/
def Call.hasWriteEnd {t : Target} : Call t → Bool
  | .forking _ _ | .closingWrite _ _ => true
  | _ => false

namespace Procs
variable {t : Target} {env : ShimEnv t} {s s' : Procs t} {a : Action t} {e : PipeEnd} {j k : Nat}

/-- The shim's one request thread takes a call once the last has returned. -/
def InTurn (s : Procs t) : Action t → Prop
  | .invoke _ _ => ∀ r call, s.requests r = some call → ∃ result, call = .returned result
  | _ => True

abbrev OneThread (env : ShimEnv t) : Procs t → Action t → Procs t → Prop :=
  Guarded InTurn (Step env)

/-- No worker is forked while a call has the write end of its pipe. -/
def Quiet (s : Procs t) : Action t → Prop
  | .refillFork (some _) => ∀ r call, s.requests r = some call → call.hasWriteEnd = false
  | _ => True

/-- The child that serves a call, by its pid, is gone. -/
def ServerGone (s : Procs t) (server : Server) : Prop :=
  ∀ f ∈ s.forked, f.Named server.pid → f.child.phase = .gone

/-- A call that reads from a child that is gone reads from a pipe whose write end
nobody has, and goes on by itself until it returns. -/
def Noticed (env : ShimEnv t) (s : Procs t) : Prop :=
  ∀ r server, s.requests r = some (.reading server) → s.ServerGone server →
    (∃ p, s.descriptors.lookup server.respFd = some ⟨p, .read⟩ ∧ s.held ⟨p, .write⟩ = false) ∧
      ∃ as s' result, Run (Step env) s as s' ∧ (∀ a ∈ as, a.request = some r) ∧
        s'.requests r = some (.returned result)

/-- The shim takes its first call. -/
theorem start_inTurn (mspace : Bool) (target : Nat) (r : RequestId) (job : Job t) :
    (start mspace target).InTurn (.invoke r job) := by
  simp [InTurn, start]

/-! ## One call at a time -/

/-- At most one call has not returned. -/
def OneCall (s : Procs t) : Prop :=
  ∀ r r' call call', s.requests r = some call → s.requests r' = some call' →
    (∀ result, call ≠ .returned result) → (∀ result, call' ≠ .returned result) → r = r'

/-- A step goes on with a call that has not returned, or takes a new one. -/
theorem requests_of_step (done : Step env s a s') :
    s'.requests = s.requests ∨ ∃ r q, s'.requests = Function.update s.requests r (some q) ∧
      ((∃ old, s.requests r = some old ∧ ∀ result, old ≠ .returned result) ∨
        ∃ job, a = .invoke r job) := by
  have moves : ∀ {r : RequestId} {old q : Call t}, s.requests r = some old →
      (∀ result, old ≠ .returned result) → s'.requests = Function.update s.requests r (some q) →
      s'.requests = s.requests ∨ ∃ r q, s'.requests = Function.update s.requests r (some q) ∧
        ((∃ old, s.requests r = some old ∧ ∀ result, old ≠ .returned result) ∨
          ∃ job, a = .invoke r job) :=
    fun at_r unreturned same => .inr ⟨_, _, same, .inl ⟨_, at_r, unreturned⟩⟩
  cases does_of_step done with
  | wakes | sleeps | opensNone | opensOne | opensReq | opensResp | spawnFails | spawns | pushes =>
    exact .inl rfl
  | childCloses | acts => exact .inl rfl
  | refillCloses => exact .inl (requests_closeFd _)
  | enters => exact .inr ⟨_, _, rfl, .inr ⟨_, rfl⟩⟩
  | misses at_r => exact moves at_r (by simp) rfl
  | finds at_r => exact moves at_r (by simp) rfl
  | pipeFails at_r => exact moves at_r (by simp) rfl
  | opensInline at_r => exact moves at_r (by simp) rfl
  | forkFails at_r => exact moves at_r (by simp) rfl
  | forks at_r => exact moves at_r (by simp) rfl
  | sends at_r => exact moves at_r (by simp) (by rw [setCall, requests_submit])
  | sendFails at_r => exact moves at_r (by simp) (by rw [setCall, requests_submit])
  | reads at_r => exact moves at_r (by simp) rfl
  | abandons at_r => exact moves at_r (by simp) (by rw [setCall, requests_closeFd])
  | closesWrite at_r => exact moves at_r (by simp) (by rw [setCall, requests_closeFd])
  | closes at_r => exact moves at_r (by simp) (by rw [setCall, requests_closeFd])
  | gaveUp at_r => exact moves at_r (by simp) rfl
  | waits at_r => exact moves at_r (by simp) rfl

theorem step_oneCall (one : s.OneCall) (inTurn : s.InTurn a) (done : Step env s a s') :
    s'.OneCall := by
  rcases requests_of_step done with same | ⟨r, q, same, from_old⟩
  · intro r r' call call' at_r at_r'
    rw [same] at at_r at_r'
    exact one r r' call call' at_r at_r'
  · -- Whoever has not returned is the call that moved.
    have moved : ∀ r' call', s'.requests r' = some call' → (∀ result, call' ≠ .returned result) →
        r' = r := by
      intro r' call' at_r' unreturned
      by_contra other
      rw [same, Function.update_of_ne other] at at_r'
      rcases from_old with ⟨old, at_r, unreturned_old⟩ | ⟨job, rfl⟩
      · exact other (one r' r call' old at_r' at_r unreturned unreturned_old)
      · obtain ⟨result, returned⟩ := inTurn r' call' at_r'
        exact unreturned result returned
    intro r₁ r₂ call₁ call₂ at₁ at₂ unreturned₁ unreturned₂
    rw [moved r₁ call₁ at₁ unreturned₁, moved r₂ call₂ at₂ unreturned₂]

/-! ## Who has the write end of a response pipe -/

theorem EndAt.not_writeEnd (at_fd : s.EndAt fd side use) (different : side ≠ .write ∨ use ≠ .results k) :
    ¬ s.EndAt fd .write (.results k) := by
  intro writeEnd
  obtain ⟨rfl, rfl⟩ := writeEnd.functional at_fd
  simp at different

theorem Opened.not_writeEnd (opened : s.Opened thread fds) (inside : fd ∈ fds) :
    ¬ s.EndAt fd .write (.results k) := by
  obtain ⟨side, at_fd⟩ := opened.opened fd inside
  exact at_fd.not_writeEnd (.inr (by simp))

theorem WorkerAt.not_writeEnd (at_w : s.WorkerAt w handle) (inside : fd ∈ (Server.pooled w).fds) :
    ¬ s.EndAt fd .write (.results k) := by
  obtain ⟨k', -, req, resp⟩ := at_w
  rcases List.mem_pair.mp inside with rfl | rfl
  · exact req.not_writeEnd (.inr (by simp))
  · exact resp.not_writeEnd (.inl (by simp))

theorem Serving.not_writeEnd (serving : s.Serving r server fds) (inside : fd ∈ fds) :
    ¬ s.EndAt fd .write (.results k) := by
  cases serving with
  | both _ req resp =>
    rcases List.mem_pair.mp inside with rfl | rfl
    · exact req.not_writeEnd (.inr (by simp))
    · exact resp.not_writeEnd (.inl (by simp))
  | resp _ resp =>
    obtain rfl := List.mem_singleton.mp inside
    exact resp.not_writeEnd (.inl (by simp))
  | inline _ resp =>
    obtain rfl := List.mem_singleton.mp inside
    exact resp.not_writeEnd (.inl (by simp))
  | closed | inlineClosed => cases inside

/-- The shim itself, until the refill thread or the call closes it. -/
theorem shim_writeEnd (wired : s.Wired none) (allKept : s.AllKept)
    (at_fd : s.EndAt fd .write (.results k)) :
    (∃ fds w, s.refill = .closing fds (some w) ∧ s.Handles k w.pid []) ∨
      ∃ r server, s.requests r = some (.closingWrite fd server) := by
  have ⟨p, here, _⟩ := at_fd
  rcases allKept fd _ here with inside | ⟨w, pooled, inside⟩ | ⟨r, call, at_r, inside⟩
  · have holds := wired.refill (by simp)
    generalize at_q : s.refill = q at holds inside
    cases holds with
    | absent | waiting | spawning => cases inside
    | opened req_at => exact absurd at_fd (req_at.opened.not_writeEnd inside)
    | forking req_at resp_at =>
      rcases List.mem_append.mp inside with inside | inside
      · exact absurd at_fd (req_at.opened.not_writeEnd inside)
      · exact absurd at_fd (resp_at.opened.not_writeEnd inside)
    | abandoning abandoned => exact absurd at_fd (abandoned.not_writeEnd inside)
    | closing handles req resp ends =>
      rcases List.mem_append.mp inside with inside | inside
      · rcases ends.ends fd inside with jobs | results
        · exact absurd at_fd (jobs.not_writeEnd (.inl (by simp)))
        · obtain ⟨-, same⟩ := at_fd.functional results
          cases same
          exact .inl ⟨_, _, rfl, handles⟩
      · exact absurd at_fd (WorkerAt.not_writeEnd ⟨_, handles, req, resp⟩ inside)
  · exact absurd at_fd ((wired.pool w pooled).not_writeEnd inside)
  · cases wired.calls r call (by simp) at_r with
    | entered | piping | returned => cases inside
    | forking at_p => exact absurd at_fd (at_p.opened.not_writeEnd inside)
    | abandoning abandoned => exact absurd at_fd (abandoned.not_writeEnd inside)
    | dispatching at_w => exact absurd at_fd (at_w.not_writeEnd inside)
    | closingWrite _ read write =>
      rcases List.mem_cons.mp inside with rfl | inside
      · exact .inr ⟨r, _, at_r⟩
      · obtain rfl := List.mem_singleton.mp inside
        exact absurd at_fd (read.not_writeEnd (.inl (by simp)))
    | reading serving => exact absurd at_fd (serving.not_writeEnd inside)
    | finishing serving => exact absurd at_fd (serving.not_writeEnd inside)

/-- The pipe is to be the response pipe of a child that is not forked yet. -/
def Pending (s : Procs t) (p : Nat) : Prop :=
  p ∈ s.refill.pending ∨ ∃ r job q, s.requests r = some (.forking job q) ∧ q.id = p

/-- A worker has no write end of another child's response pipe, or of one that
may become such. -/
structure NoStrays (s : Procs t) : Prop where
  pending : ∀ j p, s.PoolWorker j → s.ChildHolds j ⟨p, .write⟩ → ¬ s.Pending p
  results : ∀ j p k, s.PoolWorker j → s.ChildHolds j ⟨p, .write⟩ → s.pipes[p]? = some (.results k) → k = j

theorem start_noStrays (mspace : Bool) (target : Nat) : (start mspace target : Procs t).NoStrays where
  pending j _ _ holds := absurd holds (start_childless mspace target j _)
  results j _ _ _ holds := absurd holds (start_childless mspace target j _)

/-- A pipe that is pending was so before, or is a new one. -/
theorem Pending.of_step (done : Step env s a s') (pending : s'.Pending p) :
    s.Pending p ∨ p = s.pipes.length := by
  rcases pending with refill | ⟨r, job, q, at_r, rfl⟩
  · exact (pending_of_step done refill).imp_left .inl
  · have moves : ∀ {r' call}, s'.requests = Function.update s.requests r' (some call) →
        (∀ job q, call ≠ .forking job q) → s.Pending q.id ∨ q.id = s.pipes.length := by
      intro r' call same other
      rw [same] at at_r
      by_cases equal : r = r'
      · subst equal
        rw [Function.update_self] at at_r
        cases at_r
        exact absurd rfl (other job q)
      · rw [Function.update_of_ne equal] at at_r
        exact .inl (.inr ⟨r, job, q, at_r, rfl⟩)
    have same : s'.requests = s.requests → s.Pending q.id ∨ q.id = s.pipes.length :=
      fun same => .inl (.inr ⟨r, job, q, same ▸ at_r, rfl⟩)
    cases does_of_step done with
    | wakes | sleeps | opensNone | opensOne | opensReq | opensResp | spawnFails | spawns | pushes =>
      exact same rfl
    | childCloses | acts => exact same rfl
    | refillCloses => exact same (requests_closeFd _)
    | opensInline piping =>
      simp only [setCall, Function.update_apply] at at_r
      split at at_r
      next => cases at_r; exact .inr rfl
      next => exact .inl (.inr ⟨r, job, q, at_r, rfl⟩)
    | enters =>
      refine moves rfl fun job q => ?_
      unfold enter
      split_ifs <;> simp
    | misses | finds | pipeFails | forkFails | forks | reads | gaveUp | waits => exact moves rfl (by simp)
    | sends => exact moves (congrArg (Function.update · _ _) (requests_submit _ _)) (by simp)
    | sendFails => exact moves (congrArg (Function.update · _ _) (requests_submit _ _)) (by simp)
    | abandons => exact moves (congrArg (Function.update · _ _) (requests_closeFd _)) (by simp)
    | closesWrite => exact moves (congrArg (Function.update · _ _) (requests_closeFd _)) (by simp)
    | closes => exact moves (congrArg (Function.update · _ _) (requests_closeFd _)) (by simp)

/-- A worker has what it had, or what the shim had when it was forked. -/
theorem worker_of_step (done : Step env s a s') (worker : s'.PoolWorker j) (holds : s'.ChildHolds j e) :
    (s.PoolWorker j ∧ s.ChildHolds j e) ∨
      (j = s.forked.length ∧ (∃ fd, s.descriptors.lookup fd = some e) ∧ ∃ pid, a = .refillFork (some pid)) := by
  rcases childHolds_of_step done holds with held | ⟨at_j, here, pid, rfl | ⟨r, rfl⟩⟩
  · have ⟨_, _, at_j, _⟩ := held
    exact .inl ⟨poolWorker_of_step done worker (List.getElem?_eq_some_iff.mp at_j).1, held⟩
  · exact .inr ⟨at_j, here, pid, rfl⟩
  · exact absurd (at_j ▸ worker) (not_poolWorker_of_fork done)

theorem step_noStrays (wired : s.Wired none) (allKept : s.AllKept) (named : s.HeldNamed)
    (kept : s.NoStrays) (quiet : s.Quiet a) (done : Step env s a s') : s'.NoStrays := by
  constructor
  case pending =>
    intro j p worker holds pending
    have older : s.Pending p := (pending.of_step done).resolve_right
      (Nat.ne_of_lt (named_of_step wired.table named done holds))
    rcases worker_of_step done worker holds with ⟨worker, held⟩ | ⟨-, -, pid, rfl⟩
    · exact kept.pending j p worker held older
    · cases does_of_step done with
      | spawns =>
        rcases pending with inside | ⟨r, job, q, at_r, -⟩
        · cases inside
        · cases quiet r _ at_r
  case results =>
    intro j p k worker holds used
    rcases pipes_of_step done used (named_of_step wired.table named done holds) with
      before | ⟨new, forks⟩
    · rcases worker_of_step done worker holds with ⟨worker, held⟩ | ⟨-, ⟨fd, here⟩, pid, rfl⟩
      · exact kept.results j p k worker held before
      · -- The shim has no such end when it forks a worker.
        cases does_of_step done with
        | spawns forking =>
          rcases shim_writeEnd wired allKept ⟨p, here, before⟩ with ⟨_, _, closing, -⟩ | ⟨r, _, at_r⟩
          · rw [forking] at closing
            cases closing
          · cases quiet r _ at_r
    · obtain rfl : k = s.forked.length := Option.some.inj new
      rcases worker_of_step done worker holds with ⟨worker, held⟩ | ⟨at_j, -⟩
      · refine absurd ?_ (kept.pending j p worker held)
        rcases forks with ⟨pending, -⟩ | ⟨r, -, job, q, -, at_r, same⟩
        · exact .inl pending
        · exact .inr ⟨r, job, q, at_r, same⟩
      · exact at_j.symm

/-! ## The call goes on -/

theorem ServerGone.closeFd (gone : s.ServerGone server) (fd : Fd) :
    (s.closeFd fd).ServerGone server := by
  intro f' inside name
  obtain ⟨k, here⟩ := List.mem_iff_getElem?.mp inside
  obtain ⟨f, before, run⟩ := sameRuns_closeFd fd k f' here
  exact run.phase.trans (gone f (List.mem_of_getElem? before)
    ⟨run.pid.symm.trans name.1, run.reaped.symm.trans name.2⟩)

/-- A call that has its result closes what it keeps and waits for a child that is
gone already. -/
theorem returns_of_finishing (env : ShimEnv t) (at_r : s.requests r = some (.finishing server fds result))
    (gone : s.ServerGone server) :
    ∃ as s', Run (Step env) s as s' ∧ (∀ a ∈ as, a.request = some r) ∧
      s'.requests r = some (.returned result) := by
  induction fds generalizing s with
  | nil =>
    refine ⟨[.wait r], (s.reap server.pid).setCall r (.returned result), .single ?_, by simp [Action.request],
      by simp [setCall]⟩
    simp only [Step, ofPartial, exec, Action.request, at_r, execCall]
    exact if_pos gone
  | cons fd fds ih =>
    have closed : Step env s (.close r) ((s.closeFd fd).setCall r (.finishing server fds result)) := by
      simp only [Step, ofPartial, exec, Action.request, at_r, execCall]
    obtain ⟨as, s', run, mine, returned⟩ :=
      ih (s := (s.closeFd fd).setCall r (.finishing server fds result)) (by simp [setCall]) (gone.closeFd fd)
    exact ⟨.close r :: as, s', .cons closed run, by simpa [Action.request] using mine, returned⟩

/-! ## The whole -/

/-- All that is kept where the request thread serves one call at a time and no
worker is forked while it has a write end. -/
structure Watched (s : Procs t) : Prop where
  wired : s.Wired none
  accounted : s.Accounted
  allKept : s.AllKept
  reapedGone : s.ReapedGone
  goneHoldNothing : s.GoneHoldNothing
  oneCall : s.OneCall
  named : s.HeldNamed
  noStrays : s.NoStrays

theorem run_watched (run : Run (Guarded Quiet (OneThread env)) (start mspace env.poolTarget) as s) :
    s.Watched := by
  refine run.invariant ?_ fun s a s' kept ⟨quiet, inTurn, done⟩ => ?_
  · exact ⟨start_wired mspace _, start_accounted mspace _, start_allKept mspace _,
      fun k f here => by simp [start] at here, fun k f here => by simp [start] at here,
      fun r r' call call' at_r => by simp [start] at at_r,
      fun k e holds => absurd holds (start_childless mspace _ k e), start_noStrays mspace _⟩
  · exact ⟨step_wired kept.wired done, step_accounted kept.wired kept.accounted done,
      step_allKept kept.allKept done, step_reapedGone kept.reapedGone done,
      step_goneHoldNothing kept.goneHoldNothing done, step_oneCall kept.oneCall inTurn done,
      step_heldNamed kept.wired.table kept.named done,
      step_noStrays kept.wired kept.allKept kept.named kept.noStrays quiet done⟩

/-- The child that serves a call, and the response pipe. -/
theorem Serving.resp_at (serving : s.Serving r server server.fds) :
    ∃ k handle, s.Handles k server.pid handle ∧ holder handle = some (.request r) ∧
      s.EndAt server.respFd .read (.results k) := by
  cases server with
  | pooled w =>
    generalize same : (Server.pooled w).fds = fds at serving
    cases serving with
    | both handles _ resp => exact ⟨_, _, handles, rfl, resp⟩
    | resp => simp [Server.fds] at same
    | closed => cases same
  | inline pid fd =>
    cases serving with
    | inline handles resp => exact ⟨_, _, handles, rfl, resp⟩

/-- A child that still runs, and that a call has been given, serves the one call
that reads. -/
theorem Watched.serves_reader (kept : s.Watched) (at_r : s.requests r = some (.reading server))
    (handles : s.Handles k server.pid handle) {f : Forked t} (at_j : s.forked[j]? = some f)
    (given : holder f.handle = some (.request r')) (running : f.child.phase ≠ .gone) : j = k := by
  have keeps := (kept.accounted j f at_j).2
  rw [given] at keeps
  rcases keeps with ⟨reaped, -⟩ | ⟨call, pid, at_r', serves, name⟩
  · exact absurd (kept.reapedGone j f at_j reaped) running
  · have unreturned : ∀ result, call ≠ .returned result := by
      rintro result rfl
      cases serves
    obtain rfl := kept.oneCall r r' _ call at_r at_r' nofun unreturned
    rw [at_r] at at_r'
    cases at_r'
    cases serves
    obtain ⟨g, at_k, name', -⟩ := handles
    exact kept.wired.onePid j k _ f g at_j at_k name name'

/-- Only the child that serves a call has the write end of its response pipe. -/
theorem Watched.writes_alone (kept : s.Watched) (at_r : s.requests r = some (.reading server))
    (handles : s.Handles k server.pid handle) (mine : holder handle = some (.request r))
    (used : s.pipes[p]? = some (.results k)) :
    (∀ fd, s.descriptors.lookup fd ≠ some ⟨p, .write⟩) ∧ ∀ j, s.ChildHolds j ⟨p, .write⟩ → j = k := by
  refine ⟨fun fd here => ?_, fun j holds => ?_⟩
  · rcases shim_writeEnd kept.wired kept.allKept ⟨p, here, used⟩ with ⟨_, w, -, handles'⟩ | ⟨r', server', at_r'⟩
    · obtain ⟨-, rfl⟩ := handles.functional handles'
      cases mine
    · obtain rfl := kept.oneCall r r' _ _ at_r at_r' nofun nofun
      rw [at_r] at at_r'
      cases at_r'
  · have ⟨f, fd, at_j, here⟩ := holds
    have running : f.child.phase ≠ .gone := by
      intro gone
      rw [kept.goneHoldNothing j f at_j gone] at here
      simp at here
    by_cases inline : ∃ r' rest, f.handle = .inlineFor r' :: rest
    · obtain ⟨r', rest, same⟩ := inline
      have given : holder f.handle = some (.request r') := by rw [same]; rfl
      exact kept.serves_reader at_r handles at_j given running
    · have worker : s.PoolWorker j := ⟨f, at_j, fun r' rest same => inline ⟨r', rest, same⟩⟩
      exact (kept.noStrays.results j p k worker holds used).symm

/-- The write end of the response pipe of a call whose child is gone is nobody's. -/
theorem Watched.unheld (kept : s.Watched) (at_r : s.requests r = some (.reading server))
    (gone : s.ServerGone server) (handles : s.Handles k server.pid handle)
    (mine : holder handle = some (.request r)) (used : s.pipes[p]? = some (.results k)) :
    s.held ⟨p, .write⟩ = false := by
  refine Bool.eq_false_iff.mpr fun held => ?_
  obtain ⟨shim, only⟩ := kept.writes_alone at_r handles mine used
  rcases (held_iff _).mp held with ⟨fd, here⟩ | ⟨j, f, fd, at_j, here⟩
  · exact shim fd here
  · obtain rfl := only j ⟨f, fd, at_j, here⟩
    obtain ⟨g, there, name, -⟩ := handles
    rw [at_j] at there
    cases there
    rw [kept.goneHoldNothing j f at_j (gone f (List.mem_of_getElem? at_j) name)] at here
    simp at here

theorem Watched.noticed (env : ShimEnv t) (kept : s.Watched) : s.Noticed env := by
  intro r server at_r gone
  cases kept.wired.calls r _ nofun at_r with
  | reading serving =>
    obtain ⟨k, handle, handles, mine, p, here, used⟩ := serving.resp_at
    have unheld := kept.unheld at_r gone handles mine used
    refine ⟨⟨p, here, unheld⟩, ?_⟩
    obtain ⟨result, got⟩ : ∃ result, s.readResult server.respFd = some result := by
      simp only [readResult, here, unheld]
      split
      next result _ => exact ⟨result, rfl⟩
      next => exact ⟨0, rfl⟩
    have reads : Step env s (.read r) (s.setCall r (.finishing server server.fds result)) := by
      simp only [Step, ofPartial, exec, Action.request, at_r, execCall, got, Option.map_some]
    obtain ⟨as, s', run, own, returned⟩ := returns_of_finishing env
      (s := s.setCall r (.finishing server server.fds result)) (Function.update_self r _ _) gone
    exact ⟨.read r :: as, s', result, .cons reads run, by simpa [Action.request] using own, returned⟩

end Procs
end RlboxDynamic.PoolDescriptors

namespace RlboxDynamic
open Transition PoolDescriptors

/-- In every run of the refill thread and the one request thread in which no
worker is forked while a call has the write end of its pipe, a call whose child
dies comes back. -/
theorem crash_noticed_of_quiet {t : Target} {env : ShimEnv t} {mspace : Bool} {as : List (Action t)}
    {s : Procs t}
    (run : Run (Guarded Procs.Quiet (Procs.OneThread env)) (.start mspace env.poolTarget) as s) :
    s.Noticed env := (Procs.run_watched run).noticed env

/-- An inline child that dies before it has called anything. -/
theorem crash_without_pool_noticed :
    ∃ as s, Run (Guarded Procs.Quiet (Procs.OneThread poolOfOne)) (.start true poolOfOne.poolTarget) as s ∧
      s.requests 0 = some (.reading (.inline 101 7)) ∧ s.forked.map (·.child.phase) = [.gone] ∧
      s.Noticed poolOfOne := by
  have ran : (execAll (Procs.exec poolOfOne) (.start true poolOfOne.poolTarget)
      [.invoke 0 ⟨0x2000, argSint32, [], []⟩, .acquire 0, .pipe 0 (some (7, 8)), .fork 0 (some 101),
        .close 0, .child 0 .die]).map (fun s => (s.requests 0, s.forked.map (·.child.phase))) =
      some (some (.reading (.inline 101 7)), [.gone]) := rfl
  obtain ⟨s, run, same⟩ := exists_run ran
  cases run with
  | cons invoked rest =>
    have inTurn : Run (Procs.OneThread poolOfOne) _ _ s :=
      .cons (l := .invoke 0 _) ⟨Procs.start_inTurn _ _ _ _, invoked⟩
        (rest.guarded (by simp [Procs.InTurn]))
    have watched : Run (Guarded Procs.Quiet (Procs.OneThread poolOfOne)) _ _ s :=
      inTurn.guarded (by simp [Procs.Quiet])
    exact ⟨_, s, watched, (Prod.mk.inj same).1, (Prod.mk.inj same).2, crash_noticed_of_quiet watched⟩

/-- The refill thread forks a worker after the call's `pipe` and before its
close: the worker in the pool keeps the write end, and the call, whose own child
is dead, reads on. -/
theorem crash_unnoticed :
    ∃ as s, Run (Procs.OneThread poolOfOne) (.start true poolOfOne.poolTarget) as s ∧
      ¬ s.Noticed poolOfOne := by
  have ran : (execAll (Procs.exec poolOfOne) (.start true poolOfOne.poolTarget)
      [.invoke 0 ⟨0x2000, argSint32, [], []⟩, .refillWake, .refillPipe (some (3, 4)),
        .refillPipe (some (5, 6)), .acquire 0, .pipe 0 (some (7, 8)), .refillFork (some 100),
        .fork 0 (some 101), .close 0, .refillClose, .refillClose, .refillPush, .childClose 0,
        .childClose 0, .child 1 .die]).map
        (fun s => (s.requests 0, s.descriptors.lookup 7,
          s.forked.map (fun f => (f.pid, f.child.phase)), s.held ⟨2, .write⟩)) =
      some (some (.reading (.inline 101 7)), some ⟨2, .read⟩, [(100, .readingJob), (101, .gone)],
        true) := rfl
  obtain ⟨s, run, same⟩ := exists_run ran
  simp only [Prod.mk.injEq] at same
  obtain ⟨at_0, here, children, held⟩ := same
  have gone : s.ServerGone (.inline 101 7) := by
    intro f inside name
    have listed : (f.pid, f.child.phase) ∈ s.forked.map fun f => (f.pid, f.child.phase) :=
      List.mem_map_of_mem inside
    rw [children] at listed
    simpa [name.1, Server.pid] using listed
  cases run with
  | cons invoked rest =>
    refine ⟨_, s, .cons (l := .invoke 0 _) ⟨Procs.start_inTurn _ _ _ _, invoked⟩
      (rest.guarded (by simp [Procs.InTurn])), fun noticed => ?_⟩
    obtain ⟨⟨p, read, unheld⟩, -⟩ := noticed 0 _ at_0 gone
    rw [Server.respFd, here] at read
    cases read
    rw [held] at unheld
    cases unheld

end RlboxDynamic
