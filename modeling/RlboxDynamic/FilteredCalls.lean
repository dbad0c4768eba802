import RlboxDynamic.WorkerPool

/-! Which calls run behind the filter. A worker applies it before its job; the
inline fork that serves a request on an empty pool does not. -/
namespace RlboxDynamic
open Transition

namespace Child
variable {t : Target} {env : ShimEnv t} {c c' : Child t}

/-- Library code runs in the child only after `apply_filter` returned true in
it, so outside mode Off only with the filter in force. -/
def Filtered (env : ShimEnv t) (c : Child t) : Prop :=
  c.called = true →
    c.applied = true ∧ (env.compileMode ≠ .off → c.filter = some env.compileMode.terminal)

/-- A child that can only reach `ffi_call` filtered. -/
structure Screened (env : ShimEnv t) (c : Child t) : Prop where
  inForce : c.applied = true → env.compileMode ≠ .off → c.filter = some env.compileMode.terminal
  beforeCall : ∀ job, c.phase = .calling job →
    c.applied = true ∨ prepareCall env.prepCif env.shmBase job = none
  afterCall : c.called = true → c.applied = true

theorem Screened.filtered (kept : c.Screened env) : c.Filtered env :=
  fun called => ⟨kept.afterCall called, kept.inForce (kept.afterCall called)⟩

theorem worker_screened : (worker : Child t).Screened env where
  inForce := by simp [worker]
  beforeCall := by simp [worker]
  afterCall := by simp [worker]

/-- An inline child is screened only where its call is refused. -/
theorem inline_screened (refused : prepareCall env.prepCif env.shmBase job = none) :
    (inline job).Screened env where
  inForce := by simp [inline, worker]
  beforeCall := by simp [inline, refused]
  afterCall := by simp [inline, worker]

theorem Screened.deliver (kept : c.Screened env) : (c.deliver job).Screened env := by
  unfold Child.deliver
  split
  · exact kept
  · exact ⟨kept.inForce, kept.beforeCall, kept.afterCall⟩

theorem Screened.exec (kept : c.Screened env) (done : c.exec env action = some c') :
    c'.Screened env := by
  cases action with
  | receive =>
    simp only [Child.exec] at done
    split at done
    · split at done <;> cases done <;> exact ⟨kept.inForce, by simp, kept.afterCall⟩
    · cases done
  | lockDown os =>
    simp only [Child.exec] at done
    split at done
    · split at done
      next ok =>
        cases done
        exact ⟨fun _ on => applyFilter_installs on ok, fun _ _ => .inl rfl, fun _ => rfl⟩
      next => cases done; exact ⟨kept.inForce, by simp, kept.afterCall⟩
    · cases done
  | call =>
    simp only [Child.exec] at done
    split at done
    next job calling =>
      split at done
      next => cases done; exact ⟨kept.inForce, by simp, kept.afterCall⟩
      next call prepared =>
        cases done
        have applied : c.applied = true :=
          (kept.beforeCall job calling).resolve_right (by simp [prepared])
        exact ⟨kept.inForce, by simp, fun _ => applied⟩
    next => cases done
  | libraryReturns retBuf =>
    simp only [Child.exec] at done
    split at done
    · cases done; exact ⟨kept.inForce, by simp, kept.afterCall⟩
    · cases done
  | write =>
    simp only [Child.exec] at done
    split at done
    · cases done; exact ⟨kept.inForce, by simp, kept.afterCall⟩
    · cases done
  | die =>
    simp only [Child.exec] at done
    split at done
    · cases done
    · cases done; exact ⟨kept.inForce, by simp, kept.afterCall⟩

end Child

namespace Shim
variable {t : Target} {env : ShimEnv t} {s s' : Shim t} {a : ShimAction t}

/-- A request that comes to the pool finds a worker there, or asks for a call
that `do_ffi_call` refuses. -/
def Supplied (env : ShimEnv t) (s : Shim t) (a : ShimAction t) : Prop :=
  ∀ r job, a = .acquire r → s.requests r = some (.entered job) →
    s.pool ≠ [] ∨ prepareCall env.prepCif env.shmBase job = none

/-- Every child, and every child still to be forked, reaches library code
filtered or not at all. -/
structure Screened (env : ShimEnv t) (s : Shim t) : Prop where
  children : ∀ pid c, s.processes pid = some c → c.Screened env
  inlines : ∀ r job, s.requests r = some (.forking job) →
    prepareCall env.prepCif env.shmBase job = none

theorem start_screened : (start mspace target : Shim t).Screened env where
  children := by simp [start]
  inlines := by simp [start]

theorem Screened.setProcess (kept : s.Screened env) (screened : c.Screened env) :
    (s.setProcess pid c).Screened env where
  children other d held := by
    rw [setProcess_processes, Function.update_apply] at held
    split at held
    · cases held; exact screened
    · exact kept.children other d held
  inlines := kept.inlines

theorem Screened.setRequest (kept : s.Screened env)
    (refused : ∀ job, request = .forking job → prepareCall env.prepCif env.shmBase job = none) :
    (s.setRequest r request).Screened env where
  children := kept.children
  inlines other job forking := by
    rw [setRequest_requests, Function.update_apply] at forking
    split at forking
    · cases forking; exact refused job rfl
    · exact kept.inlines other job forking

theorem enter_ne_forking : enter env job ≠ .forking other := by
  unfold enter
  grind

/-- Each step keeps every child screened, if no request misses the pool. -/
theorem step_screened (kept : s.Screened env) (supplied : Supplied env s a)
    (done : Step env s a s') : s'.Screened env := by
  cases does_of_step done with
  | wakes | spawnFails | pushes => exact ⟨kept.children, kept.inlines⟩
  | spawns => exact Screened.setProcess ⟨kept.children, kept.inlines⟩ Child.worker_screened
  | enters => exact kept.setRequest fun _ same => absurd same enter_ne_forking
  | finds => exact Screened.setRequest ⟨kept.children, kept.inlines⟩ (by simp)
  | @misses r job entered empty =>
    refine kept.setRequest fun _ same => ?_
    cases same
    exact (supplied r job rfl entered).resolve_left (by simp [empty])
  | forkFails => exact kept.setRequest (by simp)
  | @forks r job pid forking =>
    exact (kept.setRequest (by simp)).setProcess (Child.inline_screened (kept.inlines r job forking))
  | @sends r w job c dispatching held =>
    exact (kept.setRequest (by simp)).setProcess (kept.children w.pid c held).deliver
  | collects => exact kept.setRequest (by simp)
  | @acts pid c action c' held acted => exact kept.setProcess ((kept.children pid c held).exec acted)

/-- Only finitely many pids are in use. -/
def Bounded (s : Shim t) : Prop := ∃ bound : Nat, ∀ pid : Nat, bound ≤ pid → s.processes pid = none

theorem Bounded.setProcess (kept : s.Bounded) : (s.setProcess pid c).Bounded := by
  obtain ⟨bound, free⟩ := kept
  refine ⟨max bound (pid + 1), fun other above => ?_⟩
  have different : other ≠ pid := by omega
  rw [setProcess_processes, Function.update_of_ne different]
  exact free other (by omega)

theorem step_bounded (kept : s.Bounded) (done : Step env s a s') : s'.Bounded := by
  cases does_of_step done with
  | wakes | spawnFails | pushes | enters | finds | misses | forkFails | collects => exact kept
  | spawns => exact Bounded.setProcess kept
  | forks => exact Bounded.setProcess kept
  | sends => exact Bounded.setProcess kept
  | acts => exact kept.setProcess

theorem exists_fresh (reached : Reachable (Step env) (start mspace target) s) :
    ∃ pid, s.processes pid = none := by
  have bounded : Bounded s :=
    reached.invariant ⟨0, fun _ _ => rfl⟩ fun _ _ _ kept done => step_bounded kept done
  obtain ⟨bound, free⟩ := bounded
  exact ⟨bound, free bound (Nat.le_refl _)⟩

theorem step_child (held : s.processes pid = some c) (done : c.exec env action = some c') :
    Step env s (.child pid action) (s.setProcess pid c') := by
  simp [Step, ofPartial, exec, held, done]

/-- A request that misses the pool with a call `do_ffi_call` does not refuse can
run library code in a child that never applied the filter. -/
theorem inline_fork_unfiltered (fresh : s.processes pid = none)
    (entered : s.requests r = some (.entered job)) (empty : s.pool = [])
    (prepared : prepareCall env.prepCif env.shmBase job = some call) :
    ∃ s', Run (Step env) s [.acquire r, .inlineFork r (some pid), .child pid .call] s' ∧
      ∃ c, s'.processes pid = some c ∧ ¬ c.Filtered env := by
  have missed : Step env s (.acquire r) (s.setRequest r (.forking job)) := by
    simp [Step, ofPartial, exec, entered, empty]
  have forked : Step env (s.setRequest r (.forking job)) (.inlineFork r (some pid))
      (((s.setRequest r (.forking job)).setRequest r (.reading pid)).setProcess pid
        (.inline job)) := by
    simp [Step, ofPartial, exec, fresh]
  let inLibrary : Child t := { Child.inline job with phase := .inLibrary job.retTag, called := true }
  have called : (Child.inline job).exec env .call = some inLibrary := by
    simp [Child.exec, Child.inline, prepared, inLibrary]
  refine ⟨_, .cons missed (.cons forked (.single (step_child (by simp) called))),
    inLibrary, by simp, ?_⟩
  simp [Child.Filtered, inLibrary, Child.inline, Child.worker]

end Shim

/-- Library code runs only behind the filter in every run whose requests all
find a worker (or are refused by `do_ffi_call`), and any other request can run
it without. -/
theorem library_calls_filtered (env : ShimEnv t) (mspace : Bool) :
    (∀ s, Reachable (Guarded (Shim.Supplied env) (Shim.Step env))
        (Shim.start mspace env.poolTarget) s →
      ∀ pid c, s.processes pid = some c → c.Filtered env) ∧
    ∀ s r, Reachable (Shim.Step env) (Shim.start mspace env.poolTarget) s →
      ¬ Shim.Supplied env s (.acquire r) →
        ∃ pid s', Run (Shim.Step env) s
            [.acquire r, .inlineFork r (some pid), .child pid .call] s' ∧
          ∃ c, s'.processes pid = some c ∧ ¬ c.Filtered env := by
  constructor
  · intro s reached pid c held
    have screened : s.Screened env :=
      reached.invariant Shim.start_screened fun _ _ _ kept done =>
        Shim.step_screened kept done.1 done.2
    exact (screened.children pid c held).filtered
  · intro s r reached missing
    obtain ⟨pid, fresh⟩ := Shim.exists_fresh reached
    simp only [Shim.Supplied, not_forall, not_or, not_not] at missing
    obtain ⟨r', job, same, entered, empty, prepared⟩ := missing
    cases same
    obtain ⟨call, prepared⟩ := Option.ne_none_iff_exists'.mp prepared
    obtain ⟨s', run, unfiltered⟩ := Shim.inline_fork_unfiltered fresh entered empty prepared
    exact ⟨pid, s', run, unfiltered⟩

/-- A build that enforces the filter, with a pool of four. -/
def enforcing : ShimEnv .i386 :=
  { compileMode := .enforce, shmBase := 0x10000, poolSize := none, prepCif := fun _ _ => true }

/-- The first request comes before the refill thread has pushed a worker: its
child is in library code and never applied the filter. -/
theorem first_request_unfiltered :
    ∃ s c, Run (Shim.Step enforcing) (Shim.start true enforcing.poolTarget)
        [.invoke 0 ⟨0x2000, argVoid, [], []⟩, .acquire 0, .inlineFork 0 (some 7),
          .child 7 .call] s ∧
      s.processes 7 = some c ∧ c.called = true ∧ c.applied = false ∧ c.filter = none :=
  ⟨_, _, .cons rfl (.cons rfl (.cons rfl (.cons rfl .nil))), rfl, rfl, rfl, rfl⟩

end RlboxDynamic
