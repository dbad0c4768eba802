import RlboxDynamic.WorkerLifecycle

/-! The worker pool as a whole: its bound, and what is done with each worker. -/
namespace RlboxDynamic.PoolDescriptors
open Transition

/-- Whether the refill thread may still push a worker. -/
def Spawning.inFlight : Spawning → Nat
  | .absent | .waiting => 0
  | .spawning | .opened _ | .forking _ _ | .closing _ _ => 1

/-- The library call of the child is still to come. -/
def BeforeCall {t : Target} : Phase t → Prop
  | .readingJob | .filtering _ | .calling _ => True
  | .inLibrary _ | .writing _ | .gone => False

/-- At most one library call. -/
structure CalledOnce {t : Target} (f : Forked t) : Prop where
  once : f.calls ≤ 1
  before : BeforeCall f.child.phase → f.calls = 0

section
variable {t : Target} {env : ShimEnv t} {f f' : Forked t}

theorem beforeCall_of_exec {c c' : Child t} (done : c.exec env action = some c')
    (before : BeforeCall c'.phase) : BeforeCall c.phase ∧ action ≠ .call := by
  unfold Child.exec at done
  split at done
  next =>
    split at done
    next reading _ => exact ⟨by rw [reading]; trivial, nofun⟩
    next => cases done
  next =>
    split at done
    next filtering => exact ⟨by rw [filtering]; trivial, nofun⟩
    next => cases done
  next =>
    split at done
    next => split at done <;> cases done <;> exact absurd before id
    next => cases done
  next =>
    split at done
    next => cases done; exact absurd before id
    next => cases done
  next =>
    split at done
    next => cases done; exact absurd before id
    next => cases done
  next =>
    split at done
    next => cases done
    next => cases done; exact absurd before id

theorem beforeCall_of_call {c c' : Child t} (done : c.exec env .call = some c') :
    BeforeCall c.phase := by
  simp only [Child.exec] at done
  split at done
  next calling => rw [calling]; trivial
  next => cases done

theorem CalledOnce.evolves (kept : CalledOnce f) (evolves : f.Evolves env f') : CalledOnce f' := by
  cases evolves with
  | same run =>
    exact ⟨run.calls ▸ kept.once, fun before => run.calls ▸ kept.before (run.phase ▸ before)⟩
  | waited _ done => subst done; exact ⟨kept.once, kept.before⟩
  | closes done =>
    unfold Forked.closeNext at done
    split at done
    next => cases done
    next =>
      split at done
      next => cases done
      next => cases done; exact ⟨kept.once, kept.before⟩
  | acts action done =>
    unfold Forked.act at done
    split at done
    next =>
      obtain ⟨child, exec, rfl⟩ := Option.map_eq_some_iff.mp done
      constructor
      case once =>
        dsimp only
        split
        next calls =>
          rw [kept.before (beforeCall_of_call (calls.1 ▸ exec))]
        next => exact kept.once
      case before =>
        intro before
        obtain ⟨early, other⟩ := beforeCall_of_exec exec before
        exact (if_neg fun calls => other calls.1).trans (kept.before early)
    next => cases done

end

namespace Procs
variable {t : Target} {env : ShimEnv t} {s s' : Procs t} {a : Action t}

/-- The pool with the worker in the making. The size is 0 without the thread. -/
structure Bounded (env : ShimEnv t) (size : Nat) (s : Procs t) : Prop where
  bound : s.pool.length + s.refill.inFlight ≤ size
  target : s.refill ≠ .absent → size = env.poolTarget

theorem step_bounded (kept : s.Bounded env size) (done : Step env s a s') : s'.Bounded env size := by
  obtain ⟨bound, target⟩ := kept
  have moves : ∀ {q}, s.refill ≠ .absent → q.inFlight ≤ s.refill.inFlight →
      ∀ {s' : Procs t}, s'.pool = s.pool → s'.refill = q → s'.Bounded env size := by
    intro q present less s' pool refill
    refine ⟨?_, fun _ => target present⟩
    rw [pool, refill]
    omega
  have still : ∀ {s' : Procs t}, s'.pool.length ≤ s.pool.length → s'.refill = s.refill →
      s'.Bounded env size := by
    intro s' pool refill
    refine ⟨?_, fun present => target (refill ▸ present)⟩
    rw [refill]
    omega
  cases does_of_step done with
  | wakes waiting short =>
    have same := target (by simp [waiting])
    refine ⟨?_, fun _ => same⟩
    change s.pool.length + 1 ≤ size
    omega
  | sleeps closed => exact moves (by simp [closed]) (Nat.zero_le _) rfl rfl
  | opensNone at_q => exact moves (by simp [at_q]) (by simp [at_q, Spawning.inFlight]) rfl rfl
  | opensOne at_q => exact moves (by simp [at_q]) (by simp [at_q, Spawning.inFlight]) rfl rfl
  | opensReq at_q => exact moves (by simp [at_q]) (by simp [at_q, Spawning.inFlight]) rfl rfl
  | opensResp at_q => exact moves (by simp [at_q]) (by simp [at_q, Spawning.inFlight]) rfl rfl
  | spawnFails at_q => exact moves (by simp [at_q]) (by simp [at_q, Spawning.inFlight]) rfl rfl
  | spawns at_q => exact moves (by simp [at_q]) (by simp [at_q, Spawning.inFlight]) rfl rfl
  | refillCloses at_q =>
    exact moves (by simp [at_q]) (by simp [at_q, Spawning.inFlight]) (pool_closeFd _) rfl
  | pushes closed =>
    refine ⟨?_, fun _ => target (by simp [closed])⟩
    simpa [closed, Spawning.inFlight] using bound
  | enters | misses | pipeFails | opensInline | forkFails | forks | reads | gaveUp =>
    exact still (Nat.le_refl _) rfl
  | finds _ front => exact still (by simp [front, setCall]) rfl
  | sends => exact still (by simp [setCall]) (by simp [setCall])
  | sendFails => exact still (by simp [setCall]) (by simp [setCall])
  | abandons => exact still (by simp [setCall]) (by simp [setCall])
  | closesWrite => exact still (by simp [setCall]) (by simp [setCall])
  | closes => exact still (by simp [setCall]) (by simp [setCall])
  | waits => exact still (Nat.le_refl _) rfl
  | childCloses => exact still (Nat.le_refl _) rfl
  | acts => exact still (Nat.le_refl _) rfl

theorem start_bounded (env : ShimEnv t) (mspace : Bool) :
    (start mspace env.poolTarget : Procs t).Bounded env (if mspace then env.poolTarget else 0) where
  bound := by
    simp only [start]
    split <;> simp [Spawning.inFlight]
  target := by
    simp only [start]
    split <;> simp_all

/-- All that is kept in every run. -/
structure Sound (env : ShimEnv t) (size : Nat) (s : Procs t) : Prop where
  wired : s.Wired none
  accounted : s.Accounted
  bounded : s.Bounded env size
  calledOnce : ∀ f ∈ s.forked, CalledOnce f

theorem reachable_sound (reached : Reachable (Step env) (start mspace env.poolTarget) s) :
    s.Sound env (if mspace then env.poolTarget else 0) := by
  refine reached.invariant ?_ fun s a s' kept done => ?_
  · exact ⟨start_wired mspace _, start_accounted mspace _, start_bounded env mspace, by simp [start]⟩
  · refine ⟨step_wired kept.wired done, step_accounted kept.wired kept.accounted done,
      step_bounded kept.bounded done, fun f' inside => ?_⟩
    obtain ⟨k, here⟩ := List.mem_iff_getElem?.mp inside
    rcases forked_of_step done here with ⟨f, before, evolves⟩ | ⟨-, new, -⟩
    · exact (kept.calledOnce f (List.mem_of_getElem? before)).evolves evolves
    · exact ⟨by rw [new.uncalled]; omega, fun _ => new.uncalled⟩

/-- The pool within its bound, each worker in it once and untouched but for its
push; with each child the events of its life in order, so no push, job, close or
wait twice, and at most one library call; and all of them done for a worker whose
call has returned. -/
structure PoolKept (size : Nat) (s : Procs t) : Prop where
  bounded : s.pool.length ≤ size
  once : (s.pool.map Worker.pid).Nodup
  pooled : ∀ w ∈ s.pool, ∃ k, s.Handles k w.pid [.pushed]
  inOrder : ∀ f ∈ s.forked,
    ∃ r, f.handle <+: pooledLife r ∨ (f.handle ≠ [] ∧ f.handle <+: inlineLife r)
  calledOnce : ∀ f ∈ s.forked, f.calls ≤ 1
  finished : ∀ r result, s.requests r = some (.returned result) →
    ∀ f ∈ s.forked, .acquired r ∈ f.handle → f.handle = pooledLife r ∧ f.reaped = true

/-- A worker's life, from the call that acquired it. -/
theorem Lifecycle.of_acquired {f : Forked t} (life : Lifecycle f) (acquired : .acquired r ∈ f.handle) :
    f.handle <+: pooledLife r ∧ holder f.handle = some (.request r) := by
  obtain ⟨r', pooled | ⟨-, inline⟩⟩ := life.prefixes
  · obtain rfl : r = r' := by simpa [pooledLife] using pooled.subset acquired
    refine ⟨pooled, ?_⟩
    generalize f.handle = handle at pooled acquired
    obtain ⟨rest, same⟩ := pooled
    match handle, same with
    | [], _ => simp at acquired
    | [_], same => cases same; simp at acquired
    | _ :: _ :: _, same =>
      simp only [pooledLife, List.cons_append, List.cons.injEq] at same
      obtain ⟨rfl, rfl, -⟩ := same
      rfl
  · simpa [inlineLife] using inline.subset acquired

theorem eq_pooledLife {handle : List HandleEvent} (life : handle <+: pooledLife r)
    (waited : .waited ∈ handle) : handle = pooledLife r := by
  obtain ⟨rest, same⟩ := life
  match handle, same with
  | [_, _, _, _, _, _], same => cases same; rfl
  | [_, _, _, _, _], same => cases same; simp at waited
  | [_, _, _, _], same => cases same; simp at waited
  | [_, _, _], same => cases same; simp at waited
  | [_, _], same => cases same; simp at waited
  | [_], same => cases same; simp at waited
  | [], _ => simp at waited

theorem Sound.poolKept (sound : s.Sound env size) : s.PoolKept size where
  bounded := by
    have bound := sound.bounded.bound
    omega
  once := sound.wired.poolOnce
  pooled w inside := by
    obtain ⟨k, handles, -⟩ := sound.wired.pool w inside
    exact ⟨k, handles⟩
  inOrder f inside := by
    obtain ⟨k, here⟩ := List.mem_iff_getElem?.mp inside
    exact (sound.accounted k f here).1.prefixes
  calledOnce f inside := (sound.calledOnce f inside).once
  finished r result returned f inside acquired := by
    obtain ⟨k, here⟩ := List.mem_iff_getElem?.mp inside
    obtain ⟨life, keeps⟩ := sound.accounted k f here
    obtain ⟨pooled, held⟩ := Lifecycle.of_acquired life acquired
    rw [held] at keeps
    rcases keeps with ⟨reaped, -⟩ | ⟨call, pid, at_r, serves, -⟩
    · exact ⟨eq_pooledLife pooled (life.waited.mpr reaped), reaped⟩
    · rw [returned] at at_r
      cases at_r
      cases serves

end Procs
end RlboxDynamic.PoolDescriptors

namespace RlboxDynamic
open Transition PoolDescriptors

/-- In every order of the refill thread's and the calls' steps, and whichever
forks fail, the pool keeps to its target and every worker is pushed, acquired,
sent a job, closed and waited for once. -/
theorem worker_pool_kept {t : Target} (env : ShimEnv t) (mspace : Bool) {s : Procs t}
    (reached : Reachable (Procs.Step env) (.start mspace env.poolTarget) s) :
    s.PoolKept (if mspace then env.poolTarget else 0) := (Procs.reachable_sound reached).poolKept

/-- A pool of one, without the filter. -/
def poolOfOne : ShimEnv .i386 :=
  { compileMode := .off, shmBase := 0x10000, poolSize := some 1, prepCif := fun _ _ => true }

/-- A worker spawned, pushed, acquired, and done with. -/
theorem one_call_served :
    ∃ s, Reachable (Procs.Step poolOfOne) (.start true poolOfOne.poolTarget) s ∧
      s.requests 0 = some (.returned 9) ∧ s.PoolKept 1 := by
  have ran : (execAll (Procs.exec poolOfOne) (.start true poolOfOne.poolTarget)
      [.refillWake, .refillPipe (some (3, 4)), .refillPipe (some (5, 6)), .refillFork (some 100),
        .refillClose, .refillClose, .refillPush, .invoke 0 ⟨0x2000, argSint32, [], []⟩, .acquire 0,
        .send 0, .childClose 0, .childClose 0, .child 0 .receive, .child 0 (.lockDown ⟨true, true⟩),
        .child 0 .call, .child 0 (.libraryReturns 9), .child 0 .write, .read 0, .close 0, .close 0,
        .wait 0]).map (·.requests 0) = some (some (.returned 9)) := rfl
  obtain ⟨s, run, returned⟩ := exists_run ran
  exact ⟨s, ⟨_, run⟩, returned, worker_pool_kept poolOfOne true ⟨_, run⟩⟩

end RlboxDynamic
