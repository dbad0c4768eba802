import RlboxDynamic.DescriptorKeeping
import RlboxDynamic.PoolInvariant

/-! Which of the shim's own descriptors its children have. A fork copies those of
every worker the shim keeps at that moment, so a call has another worker's job
pipe exactly where its child was forked beside one. -/
namespace RlboxDynamic.PoolDescriptors
open Transition

/-- A worker is in the making, its pipes open. -/
def Spawning.makesWorker : Spawning → Bool
  | .opened _ | .forking _ _ | .closing _ (some _) => true
  | .absent | .waiting | .spawning | .closing _ none => false

/-- The pipes of a worker that is not forked yet. -/
def Spawning.pending : Spawning → List Nat
  | .opened req => [req.id]
  | .forking req resp => [req.id, resp.id]
  | .absent | .waiting | .spawning | .closing _ _ => []

/-- The call has acquired a worker and not closed both its descriptors. -/
def Call.keepsWorker {t : Target} : Call t → Bool
  | .dispatching _ _ | .reading (.pooled _) | .finishing (.pooled _) (_ :: _) _ => true
  | _ => false

namespace Procs
variable {t : Target} {env : ShimEnv t} {s s' : Procs t} {a : Action t} {e : PipeEnd} {j k : Nat}

/-- The j-th child was forked for the pool. -/
def PoolWorker (s : Procs t) (j : Nat) : Prop :=
  ∃ f, s.forked[j]? = some f ∧ ∀ r rest, f.handle ≠ .inlineFor r :: rest

/-- The write end of the child's request pipe, or the read end of its response
pipe. -/
def ParentEnd (s : Procs t) (e : PipeEnd) (j : Nat) : Prop :=
  ∃ use event, s.pipes[e.pipe]? = some use ∧ use.closed e.side = some (j, event)

/-- No child that is in library code has such an end of another worker. -/
def Isolated (s : Procs t) : Prop :=
  ∀ (k : Nat) f retTag, s.forked[k]? = some f → f.child.phase = .inLibrary retTag →
    ∀ fd e, f.descriptors.lookup fd = some e → ∀ j, j ≠ k → s.PoolWorker j → ¬ s.ParentEnd e j

/-- No worker is in the pool or with a call. -/
structure KeepsNoWorker (s : Procs t) : Prop where
  pool : s.pool = []
  calls : ∀ r call, s.requests r = some call → call.keepsWorker = false

/-- A child is forked while the shim keeps no other worker's descriptors. -/
def ForksAlone (s : Procs t) : Action t → Prop
  | .refillFork (some _) => s.KeepsNoWorker
  | .fork _ (some _) => s.KeepsNoWorker ∧ s.refill.makesWorker = false
  | _ => True

theorem EndAt.not_parentEnd (at_fd : s.EndAt fd side use) (here : s.descriptors.lookup fd = some e)
    (closed : use.closed side = none) : ¬ s.ParentEnd e j := by
  rintro ⟨use', event, used, closes⟩
  obtain ⟨rfl, rfl⟩ := at_fd.functional ⟨e.pipe, here, used⟩
  rw [closed] at closes
  cases closes

theorem Opened.not_parentEnd (opened : s.Opened thread fds) (inside : fd ∈ fds)
    (here : s.descriptors.lookup fd = some e) : ¬ s.ParentEnd e j := by
  obtain ⟨side, at_fd⟩ := opened.opened fd inside
  exact at_fd.not_parentEnd here rfl

theorem EndAt.parentEnd_eq (at_fd : s.EndAt fd side use) (here : s.descriptors.lookup fd = some e)
    (closed : use.closed side = some (k, event)) (parent : s.ParentEnd e j) : j = k := by
  obtain ⟨use', event', used, closes⟩ := parent
  obtain ⟨rfl, rfl⟩ := at_fd.functional ⟨e.pipe, here, used⟩
  rw [closed] at closes
  cases closes
  rfl

theorem not_poolWorker (handles : s.Handles k pid (.inlineFor r :: rest)) : ¬ s.PoolWorker k := by
  rintro ⟨f, here, pooled⟩
  obtain ⟨g, there, -, same⟩ := handles
  rw [here] at there
  cases there
  exact pooled r rest same

/-- A call that keeps no worker has no end of one. -/
theorem CallHolds.not_parentEnd (holds : s.CallHolds r call) (none : call.keepsWorker = false)
    (inside : fd ∈ call.fds) (here : s.descriptors.lookup fd = some e) (worker : s.PoolWorker j) :
    ¬ s.ParentEnd e j := by
  have inline : ∀ {k pid rest}, s.Handles k pid (.inlineFor r :: rest) →
      s.EndAt fd .read (.results k) → ¬ s.ParentEnd e j := by
    intro k pid rest handles at_fd parent
    obtain rfl := at_fd.parentEnd_eq here rfl parent
    exact not_poolWorker handles worker
  have served : ∀ {server fds}, s.Serving r server fds → (∀ w, server = .pooled w → fds = []) →
      fd ∈ fds → ¬ s.ParentEnd e j := by
    intro server fds serving empty inside
    cases serving with
    | both => cases empty _ rfl
    | resp => cases empty _ rfl
    | closed => cases inside
    | inline handles resp => exact inline handles (List.mem_singleton.mp inside ▸ resp)
    | inlineClosed => cases inside
  cases holds with
  | entered | piping | returned => cases inside
  | forking at_p => exact at_p.opened.not_parentEnd inside here
  | abandoning opened => exact opened.not_parentEnd inside here
  | dispatching => cases none
  | closingWrite handles read write =>
    rcases List.mem_cons.mp inside with rfl | inside
    · exact write.not_parentEnd here rfl
    · exact inline handles (List.mem_singleton.mp inside ▸ read)
  | @reading server serving =>
    refine served serving (fun w same => ?_) inside
    subst same
    cases none
  | @finishing server fds _ serving =>
    refine served serving (fun w same => ?_) inside
    subst same
    cases fds with
    | nil => rfl
    | cons => cases none

/-- Where the shim keeps no worker, it has no end of one. -/
theorem KeepsNoWorker.not_parentEnd (none : s.KeepsNoWorker) (wired : s.Wired Option.none)
    (kept : s.AllKept) (refill : ∀ fds w, s.refill ≠ .closing fds (some w))
    (here : s.descriptors.lookup fd = some e) (worker : s.PoolWorker j) : ¬ s.ParentEnd e j := by
  rcases kept fd e here with inside | ⟨w, inside, -⟩ | ⟨r, call, at_r, inside⟩
  · have holds := wired.refill nofun
    generalize at_q : s.refill = q at holds inside
    cases holds with
    | absent | waiting | spawning => cases inside
    | opened req_at => exact req_at.opened.not_parentEnd inside here
    | forking req_at resp_at =>
      rcases List.mem_append.mp inside with inside | inside
      · exact req_at.opened.not_parentEnd inside here
      · exact resp_at.opened.not_parentEnd inside here
    | abandoning opened => exact opened.not_parentEnd inside here
    | closing => exact absurd at_q (refill _ _)
  · rw [none.pool] at inside
    cases inside
  · exact (wired.calls r call nofun at_r).not_parentEnd (none.calls r call at_r) inside here worker

/-! ## What a step does to the pipes and the workers -/

/-- A fork gives its child the pipes that were opened for it. -/
theorem pipes_of_step (done : Step env s a s') (here : s'.pipes[p]? = some use)
    (old : p < s.pipes.length) :
    s.pipes[p]? = some use ∨ (use.child = some s.forked.length ∧
      ((p ∈ s.refill.pending ∧ ∃ pid, a = .refillFork (some pid)) ∨
        ∃ r pid job q, a = .fork r (some pid) ∧ s.requests r = some (.forking job q) ∧ q.id = p)) := by
  have opened : ∀ {thread : Thread}, (s.pipes ++ [PipeUse.opened thread])[p]? = some use →
      s.pipes[p]? = some use := by
    intro thread here
    rwa [List.getElem?_append_left old] at here
  cases does_of_step done with
  | opensReq => exact .inl (opened here)
  | opensResp => exact .inl (opened here)
  | opensInline => exact .inl (opened here)
  | refillCloses => exact .inl (by rwa [pipes_closeFd] at here)
  | abandons => exact .inl (by rwa [setCall, pipes_closeFd] at here)
  | closesWrite => exact .inl (by rwa [setCall, pipes_closeFd] at here)
  | closes => exact .inl (by rwa [setCall, pipes_closeFd] at here)
  | sends => exact .inl (by rwa [setCall, pipes_submit] at here)
  | sendFails => exact .inl (by rwa [setCall, pipes_submit] at here)
  | @spawns req resp pid forking =>
    change (s.forkWorker pid req resp).pipes[p]? = some use at here
    rw [pipes_forkWorker] at here
    split at here
    next new =>
      cases here
      exact .inr ⟨rfl, .inl ⟨by simp [forking, Spawning.pending, new.1], pid, rfl⟩⟩
    next =>
      split at here
      next new =>
        cases here
        exact .inr ⟨rfl, .inl ⟨by simp [forking, Spawning.pending, new.1], pid, rfl⟩⟩
      next => exact .inl here
  | @forks r job q pid forking =>
    change (s.forkInline pid r job q).pipes[p]? = some use at here
    rw [pipes_forkInline] at here
    split at here
    next new => cases here; exact .inr ⟨rfl, .inr ⟨r, pid, job, q, rfl, forking, new.1.symm⟩⟩
    next => exact .inl here
  | _ => exact .inl here

theorem length_pipes_of_step (done : Step env s a s') : s.pipes.length ≤ s'.pipes.length := by
  have opened : ∀ {thread : Thread}, s.pipes.length ≤ (s.pipes ++ [PipeUse.opened thread]).length := by simp
  cases does_of_step done with
  | opensReq | opensResp | opensInline => exact opened
  | refillCloses => exact Nat.le_of_eq (by rw [pipes_closeFd])
  | abandons => exact Nat.le_of_eq (by rw [setCall, pipes_closeFd])
  | closesWrite => exact Nat.le_of_eq (by rw [setCall, pipes_closeFd])
  | closes => exact Nat.le_of_eq (by rw [setCall, pipes_closeFd])
  | sends => exact Nat.le_of_eq (by rw [setCall, pipes_submit])
  | sendFails => exact Nat.le_of_eq (by rw [setCall, pipes_submit])
  | spawns => exact Nat.le_of_eq (by simp [forkWorker])
  | forks => exact Nat.le_of_eq (by simp [forkInline, setCall])
  | _ => exact Nat.le_refl _

/-- A worker of before is one after. -/
theorem poolWorker_of_step (done : Step env s a s') (worker : s'.PoolWorker j)
    (old : j < s.forked.length) : s.PoolWorker j := by
  obtain ⟨f', here, pooled⟩ := worker
  rcases forked_of_step done here with ⟨f, before, evolves⟩ | ⟨new, -⟩
  · have grows : f.handle <+: f'.handle := by
      cases evolves with
      | same run => exact run.handle
      | waited _ done => subst done; exact List.prefix_append _ _
      | closes done => exact (closeNext_same done).2.2 ▸ List.prefix_rfl
      | acts _ done => exact (act_same done).2.2 ▸ List.prefix_rfl
    refine ⟨f, before, fun r rest same => ?_⟩
    obtain ⟨more, grown⟩ := grows
    exact pooled r (rest ++ more) (by rw [← grown, same]; rfl)
  · omega

/-- A worker that has just been forked was not forked for a call. -/
theorem not_poolWorker_of_fork (done : Step env s (.fork r (some pid)) s') :
    ¬ s'.PoolWorker s.forked.length := by
  cases does_of_step done with
  | forks =>
    rintro ⟨f, here, pooled⟩
    obtain rfl : _ = f := by simpa [forkInline, setCall] using here
    exact pooled r [] rfl

/-! ## The invariant -/

/-- A child has no end of a pipe that is not there yet. -/
def HeldNamed (s : Procs t) : Prop := ∀ k e, s.ChildHolds k e → e.pipe < s.pipes.length

theorem named_of_step (table : s.Table) (kept : s.HeldNamed) (done : Step env s a s')
    (holds : s'.ChildHolds k e) : e.pipe < s.pipes.length := by
  rcases childHolds_of_step done holds with old | ⟨-, ⟨fd, here⟩, -⟩
  · exact kept k e old
  · exact table.named fd e here

theorem step_heldNamed (table : s.Table) (kept : s.HeldNamed) (done : Step env s a s') :
    s'.HeldNamed := fun _ _ holds =>
  Nat.lt_of_lt_of_le (named_of_step table kept done holds) (length_pipes_of_step done)

/-- No child has an end of another worker, or of one in the making. -/
structure Apart (s : Procs t) : Prop where
  named : s.HeldNamed
  pending : ∀ k e, s.ChildHolds k e → e.pipe ∉ s.refill.pending
  apart : ∀ k e j, s.ChildHolds k e → j ≠ k → s.PoolWorker j → ¬ s.ParentEnd e j

theorem start_childless (mspace : Bool) (target k : Nat) (e : PipeEnd) :
    ¬ (start mspace target : Procs t).ChildHolds k e := by
  rintro ⟨f, fd, here, -⟩
  simp [start] at here

theorem start_apart (mspace : Bool) (target : Nat) : (start mspace target : Procs t).Apart := by
  have none := fun k e => start_childless (t := t) mspace target k e
  exact ⟨fun k e holds => absurd holds (none k e), fun k e holds => absurd holds (none k e),
    fun k e j holds => absurd holds (none k e)⟩

/-- The pipes in the making are those of before, or a new one. -/
theorem pending_of_step (done : Step env s a s') (inside : p ∈ s'.refill.pending) :
    p ∈ s.refill.pending ∨ p = s.pipes.length := by
  cases does_of_step done with
  | opensReq => exact .inr (List.mem_singleton.mp inside)
  | opensResp opened =>
    rw [opened]
    exact (List.mem_pair.mp inside).imp_left List.mem_singleton.mpr
  | abandons | closesWrite | closes =>
    exact .inl (by simpa [setCall] using inside)
  | sends | sendFails => exact .inl (by simpa [setCall] using inside)
  | wakes | sleeps | opensNone | opensOne | spawnFails | spawns | refillCloses | pushes => cases inside
  | _ => exact .inl inside

theorem step_apart (wired : s.Wired none) (allKept : s.AllKept) (kept : s.Apart)
    (alone : s.ForksAlone a) (done : Step env s a s') : s'.Apart := by
  have named : ∀ {k e}, s'.ChildHolds k e → e.pipe < s.pipes.length :=
    named_of_step wired.table kept.named done
  constructor
  case named => exact step_heldNamed wired.table kept.named done
  case pending =>
    intro k e holds inside
    rcases pending_of_step done inside with old | new
    · rcases childHolds_of_step done holds with held | ⟨-, -, pid, rfl | ⟨r, rfl⟩⟩
      · exact kept.pending k e held old
      · cases does_of_step done with
        | spawns => cases inside
      · have making := alone.2
        cases at_q : s.refill <;> simp_all [Spawning.pending, Spawning.makesWorker]
    · exact absurd (named holds) (new ▸ Nat.lt_irrefl _)
  case apart =>
    rintro k e j holds other worker ⟨use, event, used, closes⟩
    have child : use.child = some j := by
      cases use <;> cases side : e.side <;> simp_all [PipeUse.closed, PipeUse.child]
    rcases pipes_of_step done used (named holds) with before | ⟨new, forks⟩
    · -- A worker of before, whose end the child has from before or from the shim.
      have old : j < s.forked.length := wired.uses.forked _ use j before child
      have parent : s.ParentEnd e j := ⟨use, event, before, closes⟩
      have worker := poolWorker_of_step done worker old
      rcases childHolds_of_step done holds with held | ⟨-, ⟨fd, here⟩, pid, rfl | ⟨r, rfl⟩⟩
      · exact kept.apart k e j held other worker parent
      · refine (alone : s.KeepsNoWorker).not_parentEnd wired allKept (fun fds w closing => ?_) here worker parent
        cases does_of_step done with
        | spawns forking => simp [forking] at closing
      · refine alone.1.not_parentEnd wired allKept (fun fds w closing => ?_) here worker parent
        have making := alone.2
        simp [closing, Spawning.makesWorker] at making
    · -- The new worker itself, whose pipes no older child has.
      obtain rfl : j = s.forked.length := Option.some.inj (child.symm.trans new)
      rcases forks with ⟨pending, pid, rfl⟩ | ⟨r, pid, -, -, rfl, -⟩
      · rcases childHolds_of_step done holds with held | ⟨at_k, -⟩
        · exact kept.pending k e held pending
        · exact other at_k.symm
      · exact not_poolWorker_of_fork done worker

/-- All that is kept where each child is forked alone. -/
structure Separate (s : Procs t) : Prop where
  wired : s.Wired none
  allKept : s.AllKept
  apart : s.Apart

theorem run_separate (run : Run (Guarded ForksAlone (Step env)) (start mspace env.poolTarget) as s) :
    s.Separate := by
  refine run.invariant ?_ fun s a s' kept ⟨alone, done⟩ => ?_
  · exact ⟨start_wired mspace _, start_allKept mspace _, start_apart mspace _⟩
  · exact ⟨step_wired kept.wired done, step_allKept kept.allKept done,
      step_apart kept.wired kept.allKept kept.apart alone done⟩

/-! ## A child that is not forked alone -/

/-- Where the shim keeps a worker, it has its response pipe. -/
theorem exists_worker (wired : s.Wired none) (keeps : ¬ s.KeepsNoWorker) :
    ∃ fd k pid handle, s.Handles k pid handle ∧ (∀ r rest, handle ≠ .inlineFor r :: rest) ∧
      s.EndAt fd .read (.results k) := by
  by_cases empty : s.pool = []
  · have : ∃ r call, s.requests r = some call ∧ call.keepsWorker = true := by
      by_contra nobody
      push Not at nobody
      exact keeps ⟨empty, fun r call at_r => by simpa using nobody r call at_r⟩
    obtain ⟨r, call, at_r, worker⟩ := this
    have served : ∀ {w fds}, s.Serving r (.pooled w) fds → fds ≠ [] → ∃ fd k pid handle,
        s.Handles k pid handle ∧ (∀ r rest, handle ≠ .inlineFor r :: rest) ∧
          s.EndAt fd .read (.results k) := by
      intro w fds serving more
      cases serving with
      | both handles _ resp => exact ⟨_, _, _, _, handles, nofun, resp⟩
      | resp handles resp => exact ⟨_, _, _, _, handles, nofun, resp⟩
      | closed => exact absurd rfl more
    cases wired.calls r call nofun at_r with
    | entered | piping | forking | abandoning | closingWrite | returned => cases worker
    | dispatching at_w =>
      obtain ⟨k, handles, -, resp⟩ := at_w
      exact ⟨_, k, _, _, handles, nofun, resp⟩
    | @reading server serving =>
      cases server with
      | pooled w => exact served serving (List.cons_ne_nil _ _)
      | inline => cases worker
    | @finishing server fds _ serving =>
      cases server with
      | pooled w =>
        cases fds with
        | nil => cases worker
        | cons => exact served serving (List.cons_ne_nil _ _)
      | inline => cases worker
  · obtain ⟨w, inside⟩ := List.exists_mem_of_ne_nil _ empty
    obtain ⟨k, handles, -, resp⟩ := wired.pool w inside
    exact ⟨_, k, _, _, handles, nofun, resp⟩

/-- A fork beside a worker gives the child that worker's response pipe. -/
theorem exposes_of_fork (wired : s.Wired none) (keeps : ¬ s.KeepsNoWorker) (done : Step env s a s')
    (forks : ∃ pid, a = .refillFork (some pid) ∨ ∃ r, a = .fork r (some pid)) :
    ∃ e j, s'.ChildHolds s.forked.length e ∧ j ≠ s.forked.length ∧ s'.PoolWorker j ∧
      s'.ParentEnd e j := by
  obtain ⟨fd, j, pid, handle, ⟨f, at_j, -, same⟩, worker, p, here, used⟩ := exists_worker wired keeps
  have inside : j < s.forked.length := (List.getElem?_eq_some_iff.mp at_j).1
  have exposed : ∀ {child : Forked t}, s'.forked = s.forked ++ [child] →
      child.descriptors = s.descriptors → s'.pipes[p]? = some (.results j) →
      ∃ e j, s'.ChildHolds s.forked.length e ∧ j ≠ s.forked.length ∧ s'.PoolWorker j ∧
        s'.ParentEnd e j := by
    intro child forked copied used'
    refine ⟨⟨p, .read⟩, j, ⟨child, fd, by simp [forked], copied ▸ here⟩, inside.ne, ⟨f, ?_, same ▸ worker⟩,
      ⟨_, .closedResp, used', rfl⟩⟩
    rw [forked, List.getElem?_append_left inside, at_j]
  obtain ⟨pid, rfl | ⟨r, rfl⟩⟩ := forks
  · cases does_of_step done with
    | @spawns req resp _ forking =>
      have holds := wired.refill nofun
      rw [forking] at holds
      cases holds with
      | forking req_at resp_at =>
        refine exposed rfl rfl ?_
        change (s.forkWorker pid req resp).pipes[p]? = _
        rw [pipes_forkWorker, if_neg, if_neg, used]
        · rintro ⟨rfl, -⟩
          simp [req_at.used] at used
        · rintro ⟨rfl, -⟩
          simp [resp_at.used] at used
  · cases does_of_step done with
    | @forks _ job q _ forking =>
      cases wired.calls r _ nofun forking with
      | forking at_q =>
        refine exposed rfl rfl ?_
        change (s.forkInline pid r job q).pipes[p]? = _
        rw [pipes_forkInline, if_neg, used]
        rintro ⟨rfl, -⟩
        simp [at_q.used] at used

end Procs
end RlboxDynamic.PoolDescriptors

namespace RlboxDynamic
open Transition PoolDescriptors

/-- In every run that forks each child while the shim keeps no other worker, no
call has an end of another worker's pipes that is the shim's. -/
theorem calls_isolated_of_alone {t : Target} {env : ShimEnv t} {mspace : Bool}
    {as : List (Action t)} {s : Procs t}
    (run : Run (Guarded Procs.ForksAlone (Procs.Step env)) (.start mspace env.poolTarget) as s) :
    s.Isolated :=
  fun k f _ here _ fd e held j other worker =>
    (Procs.run_separate run).apart.apart k e j ⟨f, fd, here, held⟩ other worker

/-- A worker forked alone, in library code. -/
theorem first_worker_isolated :
    ∃ as s, Run (Guarded Procs.ForksAlone (Procs.Step poolOfOne)) (.start true poolOfOne.poolTarget) as s ∧
      s.forked[0]?.map (·.child.phase) = some (.inLibrary argSint32) ∧ s.Isolated := by
  have opened : (execAll (Procs.exec poolOfOne) (.start true poolOfOne.poolTarget)
      [.refillWake, .refillPipe (some (3, 4)), .refillPipe (some (5, 6))]).map
        (fun s => (s.pool, s.requests)) = some ([], fun _ => none) := rfl
  have ran : (execAll (Procs.exec poolOfOne) (.start true poolOfOne.poolTarget)
      ([.refillWake, .refillPipe (some (3, 4)), .refillPipe (some (5, 6))] ++
        [.refillFork (some 100), .refillClose, .refillClose, .refillPush,
          .invoke 0 ⟨0x2000, argSint32, [], []⟩, .acquire 0, .send 0, .childClose 0, .childClose 0,
          .child 0 .receive, .child 0 (.lockDown ⟨true, true⟩), .child 0 .call])).map
        (·.forked[0]?.map (·.child.phase)) = some (some (.inLibrary argSint32)) := rfl
  obtain ⟨s, run, inside⟩ := exists_run ran
  obtain ⟨m, before, after⟩ := run.split
  cases after with
  | cons forked rest =>
    have same := before.computed opened
    obtain ⟨pool, requests⟩ := Prod.mk.inj same
    have first : m.ForksAlone (.refillFork (some 100)) :=
      ⟨pool, fun r call at_r => by simp [requests] at at_r⟩
    have alone : Run (Guarded Procs.ForksAlone (Procs.Step poolOfOne)) _ _ s :=
      (before.guarded (by simp [Procs.ForksAlone])).append
        (.cons ⟨first, forked⟩ (rest.guarded (by simp [Procs.ForksAlone])))
    exact ⟨_, s, alone, inside, calls_isolated_of_alone alone⟩

/-- A call forks its child while the refill thread makes a worker, and so has the
write end of the worker's request pipe. -/
theorem inline_child_has_job_pipe :
    ∃ s, Reachable (Procs.Step poolOfOne) (.start true poolOfOne.poolTarget) s ∧ ¬ s.Isolated := by
  have ran : (execAll (Procs.exec poolOfOne) (.start true poolOfOne.poolTarget)
      [.refillWake, .refillPipe (some (3, 4)), .refillPipe (some (5, 6)),
        .invoke 0 ⟨0x2000, argSint32, [], []⟩, .acquire 0, .pipe 0 (some (7, 8)),
        .refillFork (some 100), .fork 0 (some 101), .childClose 1, .child 1 .call]).map
        (fun s => (s.forked[0]?.map (·.handle),
          s.forked[1]?.map (fun f => (f.child.phase, f.descriptors.lookup 4)), s.pipes[0]?)) =
      some (some [], some (.inLibrary argSint32, some ⟨0, .write⟩), some (.jobs 0)) := rfl
  obtain ⟨s, run, same⟩ := exists_run ran
  simp only [Prod.mk.injEq, Option.map_eq_some_iff] at same
  obtain ⟨⟨worker, at_0, unused⟩, ⟨f, at_1, inside, held⟩, used⟩ := same
  refine ⟨s, ⟨_, run⟩, fun isolated => ?_⟩
  exact isolated 1 f _ at_1 inside 4 _ held 0 (by decide) ⟨worker, at_0, by simp [unused]⟩
    ⟨_, _, used, rfl⟩

end RlboxDynamic
