import RlboxDynamic.CrashNotice
import RlboxDynamic.PoolEqualsInline

/-! When a call has its pipes to itself. The shim's forks decide it: they give
copies of its descriptors to children of other calls. -/
namespace RlboxDynamic.PoolDescriptors
open Transition JobExchange

namespace Forked
variable {t : Target} {env : ShimEnv t} {f f' : Forked t}

def inLibrary (f : Forked t) : Bool :=
  match f.child.phase with
  | .inLibrary _ => true
  | _ => false

theorem inLibrary_iff : f.inLibrary = true ↔ ∃ retTag, f.child.phase = .inLibrary retTag := by
  unfold inLibrary
  split <;> simp_all

/-- The child has got no job. -/
structure Idle (f : Forked t) : Prop where
  inbox : f.child.inbox = none
  phase : f.child.phase = .readingJob ∨ f.child.phase = .gone

/-- The shim has written a job for the child, or forked it with one. -/
def Given (f : Forked t) : Prop := .sent ∈ f.handle ∨ ∃ r rest, f.handle = .inlineFor r :: rest

theorem Given.grows (given : f.Given) (more : f.handle <+: f'.handle) : f'.Given := by
  obtain ⟨rest, grown⟩ := more
  rcases given with sent | ⟨r, before, same⟩
  · exact .inl (grown ▸ List.mem_append_left rest sent)
  · exact .inr ⟨r, before ++ rest, by rw [← grown, same]; rfl⟩

/-- A child without a job can only die. -/
theorem Idle.acts (idle : f.Idle) (done : f.act env action = some f') : f'.Idle := by
  obtain ⟨inbox, phase⟩ := idle
  unfold act at done
  split at done
  next =>
    obtain ⟨child, exec, rfl⟩ := Option.map_eq_some_iff.mp done
    unfold Child.exec at exec
    split at exec
    next => rw [inbox] at exec; cases phase <;> simp_all
    next => cases phase <;> simp_all
    next => cases phase <;> simp_all
    next => cases phase <;> simp_all
    next => cases phase <;> simp_all
    next =>
      split at exec
      next => cases exec
      next => cases exec; exact ⟨inbox, .inr rfl⟩
  next => cases done

theorem idle_or_given_of_evolves (kept : f.Idle ∨ f.Given) (evolves : f.Evolves env f') :
    f'.Idle ∨ f'.Given := by
  cases evolves with
  | same run =>
    rcases kept with idle | given
    · rcases run.inbox with same | sent
      · exact .inl ⟨same.trans idle.inbox, run.phase ▸ idle.phase⟩
      · exact .inr (.inl sent)
    · exact .inr (given.grows run.handle)
  | waited _ done =>
    subst done
    exact kept.imp (fun idle => ⟨idle.inbox, idle.phase⟩) fun given => given.grows (List.prefix_append _ _)
  | closes done =>
    unfold Forked.closeNext at done
    split at done
    next => cases done
    next =>
      split at done
      next => cases done
      next => cases done; exact kept.imp (fun idle => ⟨idle.inbox, idle.phase⟩) id
  | acts action done =>
    have same := (Procs.act_same done).2.2
    exact kept.imp (fun idle => idle.acts done) fun given => given.grows (same ▸ List.prefix_rfl)

end Forked

namespace Procs
variable {t : Target} {env : ShimEnv t} {s s' : Procs t} {a : Action t}

/-- Some child besides the k-th has a descriptor of such a pipe end. -/
def elsewhere (s : Procs t) (k : Nat) (such : Forked t → PipeEnd → Bool) : Bool :=
  (List.range s.forked.length).any fun j =>
    j ≠ k && match s.forked[j]? with
      | some f => f.descriptors.entries.any fun entry => such f entry.2
      | none => false

theorem elsewhere_eq_false {such : Forked t → PipeEnd → Bool}
    (nobody : ∀ j f fd e, j ≠ k → s.forked[j]? = some f → f.descriptors.lookup fd = some e →
      such f e = false) : s.elsewhere k such = false := by
  refine List.any_eq_false.mpr fun j _ found => ?_
  simp only [Bool.and_eq_true, decide_eq_true_eq] at found
  obtain ⟨other, found⟩ := found
  split at found
  next f at_j =>
    obtain ⟨⟨fd, e⟩, inside, same⟩ := List.any_eq_true.mp found
    rw [nobody j f fd e other at_j (AList.mem_lookup_iff.mpr inside)] at same
    cases same
  next => cases found

/-- The ends of the k-th child's pipes that others have. -/
def strays (s : Procs t) (k : Nat) : Strays where
  resultWriter :=
    (s.descriptors.entries.any fun entry =>
      s.pipes[entry.2.pipe]? = some (.results k) ∧ entry.2.side = .write) ||
    s.elsewhere k fun _ e => s.pipes[e.pipe]? = some (.results k) ∧ e.side = .write
  jobWriter :=
    s.elsewhere k fun f e => f.inLibrary ∧ s.pipes[e.pipe]? = some (.jobs k) ∧ e.side = .write
  resultReader :=
    s.elsewhere k fun f e => f.inLibrary ∧ s.pipes[e.pipe]? = some (.results k) ∧ e.side = .read

/-- Every child without a job waits for one. -/
def JobsGiven (s : Procs t) : Prop :=
  ∀ (k : Nat) f, s.forked[k]? = some f → f.Idle ∨ f.Given

theorem step_jobsGiven (kept : s.JobsGiven) (done : Step env s a s') : s'.JobsGiven := by
  intro k f' here
  rcases forked_of_step done here with ⟨f, before, evolves⟩ | ⟨-, new, -⟩
  · exact Forked.idle_or_given_of_evolves (kept k f before) evolves
  · rcases new.idle with ⟨inbox, reading⟩ | ⟨r, same⟩
    · exact .inl ⟨inbox, .inl reading⟩
    · exact .inr (.inr ⟨r, [], same⟩)

theorem run_jobsGiven (run : Run (Step env) (start mspace env.poolTarget) as s) : s.JobsGiven :=
  run.invariant (fun k f here => by simp [start] at here) fun _ _ _ kept done => step_jobsGiven kept done

/-- A child with a job is kept by a call. -/
theorem holder_of_given {f : Forked t} (given : f.Given) (life : Lifecycle f) :
    ∃ r, holder f.handle = some (.request r) := by
  obtain ⟨r, pooled | ⟨some_event, inline⟩⟩ := life.prefixes
  · rcases given with sent | ⟨r', rest, same⟩
    · have acquired : .acquired r ∈ f.handle := by
        generalize f.handle = handle at pooled sent
        obtain ⟨rest, same⟩ := pooled
        match handle, same with
        | [], _ => simp at sent
        | [_], same => cases same; simp at sent
        | _ :: _ :: _, same =>
          simp only [pooledLife, List.cons_append, List.cons.injEq] at same
          simp [same.2.1]
      exact ⟨r, (Lifecycle.of_acquired life acquired).2⟩
    · exact ⟨r', by rw [same]; rfl⟩
  · generalize f.handle = handle at some_event inline
    obtain ⟨event, rest, rfl⟩ := List.exists_cons_of_ne_nil some_event
    obtain ⟨more, same⟩ := inline
    simp only [inlineLife, List.cons_append, List.cons.injEq] at same
    exact ⟨r, by rw [same.1]; rfl⟩

/-- While a call reads, library code runs in its child only. -/
theorem Watched.inLibrary_alone (kept : s.Watched) (given : s.JobsGiven)
    (at_r : s.requests r = some (.reading server)) (handles : s.Handles k server.pid handle)
    {f : Forked t} (at_j : s.forked[j]? = some f) (inside : f.inLibrary = true) : j = k := by
  obtain ⟨retTag, phase⟩ := Forked.inLibrary_iff.mp inside
  have running : f.child.phase ≠ .gone := by simp [phase]
  rcases given j f at_j with idle | has_job
  · rcases idle.phase with reading | gone
    · simp [phase] at reading
    · exact absurd gone running
  · obtain ⟨r', held⟩ := holder_of_given has_job (kept.accounted j f at_j).1
    exact kept.serves_reader at_r handles at_j held running

/-- A call that reads has its pipes to itself. -/
theorem Watched.strays_reading (kept : s.Watched) (given : s.JobsGiven)
    (at_r : s.requests r = some (.reading server)) (handles : s.Handles k server.pid handle) :
    s.strays k = .nobody := by
  obtain ⟨k', handle', handles', mine⟩ : ∃ k' handle', s.Handles k' server.pid handle' ∧
      holder handle' = some (.request r) := by
    cases kept.wired.calls r _ nofun at_r with
    | reading serving =>
      obtain ⟨k', handle', handles', mine, -⟩ := serving.resp_at
      exact ⟨k', handle', handles', mine⟩
  have same : k = k' := by
    obtain ⟨f, at_k, name, -⟩ := handles
    obtain ⟨f', at_k', name', -⟩ := handles'
    exact kept.wired.onePid k k' _ f f' at_k at_k' name name'
  subst same
  have elsewhere : ∀ {such : Forked t → PipeEnd → Prop} [∀ f e, Decidable (such f e)],
      s.elsewhere k (fun f e => f.inLibrary ∧ such f e) = false := by
    intro such _
    refine elsewhere_eq_false fun j f fd e other at_j _ => decide_eq_false fun found => ?_
    exact other (kept.inLibrary_alone given at_r handles at_j found.1)
  have writer : (s.strays k).resultWriter = false := by
    rw [strays, Bool.or_eq_false_iff]
    constructor
    · refine List.any_eq_false.mpr fun ⟨fd, e⟩ inside found => ?_
      obtain ⟨used, side⟩ := of_decide_eq_true found
      obtain ⟨p, _⟩ := e
      cases side
      exact (kept.writes_alone at_r handles' mine used).1 fd (AList.mem_lookup_iff.mpr inside)
    · refine elsewhere_eq_false fun j f fd e other at_j here => decide_eq_false fun found => ?_
      obtain ⟨used, side⟩ := found
      obtain ⟨p, _⟩ := e
      cases side
      exact other ((kept.writes_alone at_r handles' mine used).2 j ⟨f, fd, at_j, here⟩)
  show Strays.mk _ _ _ = _
  rw [Strays.nobody, Strays.mk.injEq]
  exact ⟨writer, elsewhere, elsewhere⟩

/-- A worker that is forked alone, like all others, has its ends to itself before
its call too. -/
theorem Separate.strays_worker (kept : s.Separate) (worker : s.PoolWorker k) :
    (s.strays k).jobWriter = false ∧ (s.strays k).resultReader = false := by
  have apart : ∀ j f fd e, j ≠ k → s.forked[j]? = some f → f.descriptors.lookup fd = some e →
      ¬ s.ParentEnd e k := fun j f fd e other at_j here =>
    kept.apart.apart j e k ⟨f, fd, at_j, here⟩ (Ne.symm other) worker
  have elsewhere : ∀ {such : Forked t → PipeEnd → Bool}, (∀ f e, such f e = true → s.ParentEnd e k) →
      s.elsewhere k such = false := by
    intro such parent
    refine elsewhere_eq_false fun j f fd e other at_j here => Bool.eq_false_iff.mpr fun found => ?_
    exact apart j f fd e other at_j here (parent f e found)
  simp only [strays]
  refine ⟨elsewhere fun f e found => ?_, elsewhere fun f e found => ?_⟩
  · obtain ⟨-, used, side⟩ := of_decide_eq_true found
    exact ⟨.jobs k, .closedReq, used, by rw [side]; rfl⟩
  · obtain ⟨-, used, side⟩ := of_decide_eq_true found
    exact ⟨.results k, .closedResp, used, by rw [side]; rfl⟩

/-- No worker is forked while a call has the write end of its pipe, and every
child is forked while the shim keeps no other worker. -/
def Undisturbed (s : Procs t) (a : Action t) : Prop := s.Quiet a ∧ s.ForksAlone a

/-- In every run that meets both conditions, nobody else has an end of the pipes of
a call that reads, nor a parent's end of a worker's. -/
theorem strays_of_undisturbed
    (run : Run (Guarded Undisturbed (OneThread env)) (start mspace env.poolTarget) as s) :
    (∀ k, s.PoolWorker k → (s.strays k).jobWriter = false ∧ (s.strays k).resultReader = false) ∧
      ∀ r server k handle, s.requests r = some (.reading server) → s.Handles k server.pid handle →
        s.strays k = .nobody := by
  have watched := run_watched (run.mono fun _ _ _ taken => ⟨taken.1.1, taken.2⟩)
  have separate := run_separate (run.mono fun _ _ _ taken => ⟨taken.1.2, taken.2.2⟩)
  have given := run_jobsGiven (run.mono fun _ _ _ taken => taken.2.2)
  exact ⟨fun k worker => separate.strays_worker worker,
    fun r server k handle at_r handles => watched.strays_reading given at_r handles⟩

end Procs
end RlboxDynamic.PoolDescriptors

namespace RlboxDynamic
open Transition PoolDescriptors JobExchange

/-- A call that has its pipes to itself comes to the same over both ways, and it
has them to itself in every run in which no worker is forked while a call has the
write end of its pipe, and no child while the shim keeps another worker. Where
another process has an end, some call does not. -/
theorem pool_path_equals_inline_path {t : Target} :
    (∀ strays, (∀ (env : ShimEnv t) library job, env.compileMode = .off → job.Checked →
      Exchange.PathsAgree env library job strays) ↔ strays = .nobody) ∧
    ∀ (env : ShimEnv t) mspace as s,
      Run (Guarded Procs.Undisturbed (Procs.OneThread env)) (.start mspace env.poolTarget) as s →
      (∀ k, s.PoolWorker k → (s.strays k).jobWriter = false ∧ (s.strays k).resultReader = false) ∧
        ∀ r server k handle, s.requests r = some (.reading server) → s.Handles k server.pid handle →
          s.strays k = .nobody :=
  ⟨Exchange.pathsAgree_iff_nobody, fun _ _ _ _ run => Procs.strays_of_undisturbed run⟩

/-- A job of one argument, in pieces. -/
theorem pooled_call_in_pieces :
    ∃ as s, Run (Exchange.Running poolOfOne fun _ _ => True)
        (.pooled .nobody ⟨0x2000, argSint32, [argSint32], [5]⟩) as s ∧
      s.parent = .returned 9 ∧
      s.Sound poolOfOne (fun _ _ => True) ⟨0x2000, argSint32, [argSint32], [5]⟩ := by
  have ran : (execAll (Exchange.exec poolOfOne) (.pooled .nobody ⟨0x2000, argSint32, [argSint32], [5]⟩)
      [.send 5, .receive 2, .interrupted, .send 11, .receive 14, .send 4, .send 3, .receive 4, .send 5,
        .receive 7, .interrupted, .receive 1, .lockDown ⟨true, true⟩, .call, .libraryReturns 9,
        .write 3, .read 2, .write 5, .read 6, .wait]).map (·.parent) = some (.returned 9) := rfl
  obtain ⟨s, run, returned⟩ := exists_run ran
  have running : Run (Exchange.Running poolOfOne fun _ _ => True) _ _ s :=
    run.guarded fun a _ _ => by cases a <;> simp [Exchange.Answers]
  have agree := (pool_path_equals_inline_path.1 .nobody).mpr rfl poolOfOne (fun _ _ => True)
    ⟨0x2000, argSint32, [argSint32], [5]⟩ rfl ⟨rfl, by decide⟩
  exact ⟨_, s, running, returned, (agree.sound _ List.mem_cons_self _ s running).1⟩

/-- The refill thread forks worker 100 with a copy of the write end of an inline
call's pipe. The call's own child dies, and over such pipes the call does not
come back. -/
theorem inline_call_reads_on :
    ∃ as s, Run (Procs.OneThread poolOfOne) (.start true poolOfOne.poolTarget) as s ∧
      s.requests 0 = some (.reading (.inline 101 7)) ∧ s.forked.map (·.pid) = [100, 101] ∧
      ¬ Exchange.PathsAgree poolOfOne (fun _ _ => True) ⟨0x2000, argSint32, [], []⟩ (s.strays 1) := by
  have ran : (execAll (Procs.exec poolOfOne) (.start true poolOfOne.poolTarget)
      [.invoke 0 ⟨0x2000, argSint32, [], []⟩, .refillWake, .refillPipe (some (3, 4)),
        .refillPipe (some (5, 6)), .acquire 0, .pipe 0 (some (7, 8)), .refillFork (some 100),
        .fork 0 (some 101), .close 0]).map (fun s => (s.requests 0, s.forked.map (·.pid), s.strays 1)) =
      some (some (.reading (.inline 101 7)), [100, 101], ⟨true, false, false⟩) := rfl
  obtain ⟨s, run, same⟩ := exists_run ran
  simp only [Prod.mk.injEq] at same
  obtain ⟨at_0, pids, strays⟩ := same
  cases run with
  | cons invoked rest =>
    refine ⟨_, s, .cons (l := .invoke 0 _) ⟨Procs.start_inTurn _ _ _ _, invoked⟩
      (rest.guarded (by simp [Procs.InTurn])), at_0, pids, fun agree => ?_⟩
    have unheld := agree.no_resultWriter
    rw [strays] at unheld
    cases unheld

end RlboxDynamic
