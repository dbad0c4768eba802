import Mathlib.Data.List.Perm.Lattice
import RlboxDynamic.DescriptorKeeping
import RlboxDynamic.PoolInvariant

/-! What the shim has between calls. Whatever was forked, failed or died before,
its descriptors are those of the pooled workers and its children are the pooled
workers: no descriptor is lost and no child is left a zombie. -/
namespace RlboxDynamic.PoolDescriptors
open Transition

namespace Procs
variable {t : Target} {env : ShimEnv t} {s : Procs t}

/-- The refill thread sleeps, and every call has returned. -/
structure AtRest (s : Procs t) : Prop where
  refill : s.refill = .absent ∨ s.refill = .waiting
  calls : ∀ r call, s.requests r = some call → ∃ result, call = .returned result

/-- The children nobody has waited for. -/
def unreaped (s : Procs t) : List (Forked t) := s.forked.filter fun f => !f.reaped

/-- Open descriptors and unwaited children are the pool's, each once. -/
structure OnlyPool (s : Procs t) : Prop where
  descriptors : s.descriptors.keys.Perm (s.pool.flatMap fun w => (Server.pooled w).fds)
  children : (s.unreaped.map Forked.pid).Perm (s.pool.map Worker.pid)

theorem mem_unreaped {f : Forked t} : f ∈ s.unreaped ↔ f ∈ s.forked ∧ f.reaped = false := by
  simp [unreaped]

/-- A descriptor is of one end of a pipe only. -/
theorem EndAt.not_read {fd : Fd} {use use' : PipeUse} (write : s.EndAt fd .write use) :
    ¬ s.EndAt fd .read use' := fun read => nomatch (write.functional read).1

/-- The two descriptors of a worker are different, and no other worker's. -/
theorem WorkerAt.fds_apart {w w' : Worker} {handle handle' : List HandleEvent} {fd : Fd}
    (at_w : s.WorkerAt w handle) (at_w' : s.WorkerAt w' handle')
    (held : fd ∈ (Server.pooled w).fds) (held' : fd ∈ (Server.pooled w').fds) : w.pid = w'.pid := by
  obtain ⟨k, handles, req, resp⟩ := at_w
  obtain ⟨k', handles', req', resp'⟩ := at_w'
  have same : k = k' := by
    rcases List.mem_pair.mp held with rfl | rfl <;> rcases List.mem_pair.mp held' with other | other
    · exact PipeUse.jobs.inj (req.functional (other ▸ req')).2
    · exact absurd (other ▸ resp') req.not_read
    · exact absurd resp (EndAt.not_read (other ▸ req'))
    · exact PipeUse.results.inj (resp.functional (other ▸ resp')).2
  subst same
  exact (handles.functional handles').1

theorem WorkerAt.fds_nodup {w : Worker} {handle : List HandleEvent} (at_w : s.WorkerAt w handle) :
    (Server.pooled w).fds.Nodup := by
  obtain ⟨k, -, req, resp⟩ := at_w
  have different : w.reqFd ≠ w.respFd := fun same => req.not_read (same ▸ resp)
  simpa [Server.fds] using different

theorem Wired.pool_fds_nodup (wired : s.Wired none) :
    (s.pool.flatMap fun w => (Server.pooled w).fds).Nodup := by
  rw [List.nodup_flatMap]
  refine ⟨fun w inside => (wired.pool w inside).fds_nodup, ?_⟩
  have distinct := List.pairwise_map.mp wired.poolOnce
  refine distinct.imp_of_mem fun {w w'} inside inside' other => ?_
  exact fun fd held held' => other ((wired.pool w inside).fds_apart (wired.pool w' inside') held held')

/-- At rest only the pool keeps descriptors. -/
theorem AtRest.kept (rest : s.AtRest) {fd : Fd} (kept : s.Kept fd) :
    ∃ w ∈ s.pool, fd ∈ (Server.pooled w).fds := by
  rcases kept with held | held | ⟨r, call, at_r, held⟩
  · rcases rest.refill with absent | waiting
    · rw [absent] at held
      cases held
    · rw [waiting] at held
      cases held
  · exact held
  · obtain ⟨result, rfl⟩ := rest.calls r call at_r
    cases held

theorem AtRest.descriptors (rest : s.AtRest) (wired : s.Wired none) (allKept : s.AllKept) :
    s.descriptors.keys.Perm (s.pool.flatMap fun w => (Server.pooled w).fds) := by
  rw [List.perm_ext_iff_of_nodup s.descriptors.keys_nodup wired.pool_fds_nodup]
  intro fd
  rw [← AList.mem_keys, ← AList.lookup_isSome, Option.isSome_iff_exists, List.mem_flatMap]
  constructor
  · rintro ⟨e, here⟩
    exact rest.kept (allKept fd e here)
  · rintro ⟨w, inside, held⟩
    obtain ⟨k, -, ⟨p, req, -⟩, q, resp, -⟩ := wired.pool w inside
    rcases List.mem_pair.mp held with rfl | rfl
    · exact ⟨_, req⟩
    · exact ⟨_, resp⟩

theorem OnePid.unreaped_nodup (one : s.OnePid) : (s.unreaped.map Forked.pid).Nodup := by
  rw [List.Nodup, List.pairwise_map, unreaped, List.pairwise_filter, List.pairwise_iff_getElem]
  intro i j low high before alive alive' same
  have name : s.forked[i].Named s.forked[i].pid := ⟨rfl, by simpa using alive⟩
  have name' : s.forked[j].Named s.forked[i].pid := ⟨same.symm, by simpa using alive'⟩
  exact absurd (one i j _ _ _ (List.getElem?_eq_getElem low) (List.getElem?_eq_getElem high) name name')
    (Nat.ne_of_lt before)

/-- A child that is at rest, and not waited for, is a worker in the pool. -/
theorem AtRest.keeps (rest : s.AtRest) {f : Forked t} (alive : f.reaped = false)
    (keeps : s.Keeps f (holder f.handle)) : ∃ w ∈ s.pool, f.Named w.pid := by
  cases held : holder f.handle with
  | none => rwa [held] at keeps
  | some thread =>
    rw [held] at keeps
    cases thread with
    | refill =>
      obtain ⟨fds, w, closing, -⟩ := keeps
      rcases rest.refill with absent | waiting
      · exact nomatch absent.symm.trans closing
      · exact nomatch waiting.symm.trans closing
    | request r =>
      rcases keeps with ⟨reaped, -⟩ | ⟨call, pid, at_r, serves, -⟩
      · exact nomatch alive.symm.trans reaped
      · obtain ⟨result, rfl⟩ := rest.calls r call at_r
        cases serves

theorem AtRest.children (rest : s.AtRest) (wired : s.Wired none) (accounted : s.Accounted) :
    (s.unreaped.map Forked.pid).Perm (s.pool.map Worker.pid) := by
  rw [List.perm_ext_iff_of_nodup wired.onePid.unreaped_nodup wired.poolOnce]
  intro pid
  simp only [List.mem_map, mem_unreaped]
  constructor
  · rintro ⟨f, ⟨inside, alive⟩, rfl⟩
    obtain ⟨k, here⟩ := List.mem_iff_getElem?.mp inside
    obtain ⟨w, pooled, name⟩ := rest.keeps alive (accounted k f here).2
    exact ⟨w, pooled, name.1.symm⟩
  · rintro ⟨w, inside, rfl⟩
    obtain ⟨k, ⟨f, here, name, -⟩, -⟩ := wired.pool w inside
    exact ⟨f, ⟨List.mem_of_getElem? here, name.2⟩, name.1⟩

theorem reachable_allKept (reached : Reachable (Step env) (start mspace target) s) : s.AllKept :=
  reached.invariant (start_allKept mspace target) fun _ _ _ kept done => step_allKept kept done

end Procs
end RlboxDynamic.PoolDescriptors

namespace RlboxDynamic
open Transition PoolDescriptors

/-- In every order of the refill thread's and the calls' steps, whichever pipes
and forks failed and whichever children died: once no call is in progress and the
refill thread sleeps, the shim has open just the two descriptors of each pooled
worker, and has waited for every child but them. -/
theorem at_rest_only_pool {t : Target} (env : ShimEnv t) (mspace : Bool) {s : Procs t}
    (reached : Reachable (Procs.Step env) (.start mspace env.poolTarget) s) (rest : s.AtRest) :
    s.OnlyPool := by
  have sound := Procs.reachable_sound reached
  exact ⟨rest.descriptors sound.wired (Procs.reachable_allKept reached),
    rest.children sound.wired sound.accounted⟩

/-- A pool of two, without the filter. -/
def poolOfTwo : ShimEnv .i386 := { poolOfOne with poolSize := some 2 }

/-- The refill thread's second `fork` failed, after a worker was pushed. -/
theorem failed_fork_leaves_one_worker :
    ∃ s, Reachable (Procs.Step poolOfTwo) (.start true poolOfTwo.poolTarget) s ∧
      s.pool.length = 1 ∧ s.OnlyPool := by
  have ran : (execAll (Procs.exec poolOfTwo) (.start true poolOfTwo.poolTarget)
      [.refillWake, .refillPipe (some (3, 4)), .refillPipe (some (5, 6)), .refillFork (some 100),
        .refillClose, .refillClose, .refillPush, .refillWake, .refillPipe (some (3, 6)),
        .refillPipe (some (7, 8)), .refillFork none, .refillClose, .refillClose, .refillClose,
        .refillClose, .refillWake]).map (fun s => (s.pool.length, s.refill, s.requests)) =
      some (1, .waiting, fun _ => none) := rfl
  obtain ⟨s, run, same⟩ := exists_run ran
  simp only [Prod.mk.injEq] at same
  obtain ⟨one, waiting, unused⟩ := same
  exact ⟨s, ⟨_, run⟩, one, at_rest_only_pool poolOfTwo true ⟨_, run⟩
    ⟨.inr waiting, fun r call at_r => by simp [unused] at at_r⟩⟩

end RlboxDynamic
