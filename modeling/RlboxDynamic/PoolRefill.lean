import RlboxDynamic.PoolInvariant

/-! How much the refill thread does, and when it has nothing to do. A worker
takes it seven steps, a failed system call sends it back, and only a full pool
puts it to sleep. -/
namespace RlboxDynamic.PoolDescriptors
open Transition

namespace Action
variable {t : Target}

def isRefill : Action t → Bool
  | .refillWake | .refillPipe _ | .refillFork _ | .refillClose | .refillPush => true
  | _ => false

/-- The system refuses the refill thread a pipe or a child. -/
def refused : Action t → Bool
  | .refillPipe none | .refillFork none => true
  | _ => false

end Action

/-- The steps until the pool has so many workers more, if nothing fails. -/
def Spawning.stepsLeft (missing : Nat) : Spawning → Nat
  | .absent | .waiting => 7 * missing
  | .spawning => 7 * (missing - 1) + 6
  | .opened _ => 7 * (missing - 1) + 5
  | .forking _ _ => 7 * (missing - 1) + 4
  | .closing fds (some _) => 7 * (missing - 1) + fds.length + 1
  | .closing fds none => 7 * missing + fds.length + 1

namespace Procs
variable {t : Target} {env : ShimEnv t} {s s' : Procs t} {a : Action t}

/-- The step takes a worker out of the pool. -/
def takes (s : Procs t) : Action t → Bool
  | .acquire _ => !s.pool.isEmpty
  | _ => false

/-- What the refill thread may do for a step: seven steps for a worker taken, nine
for the work that a failed call undoes. -/
def worth (s : Procs t) (a : Action t) : Nat :=
  (if s.takes a then 7 else 0) + if a.refused then 9 else 0

/-- The workers acquired along a run. -/
def acquired (env : ShimEnv t) (s : Procs t) (as : List (Action t)) : Nat :=
  gained (exec env) (fun s a => if s.takes a then 1 else 0) s as

theorem gained_worth (run : Run (Step env) s as s') :
    gained (exec env) worth s as = 7 * acquired env s as + 9 * as.countP Action.refused := by
  induction run with
  | nil => rfl
  | @cons s a m as _ first _ ih =>
    have taken : exec env s a = some m := first
    simp only [acquired, gained, taken, Option.elim_some, List.countP_cons, worth] at ih ⊢
    rw [ih]
    split <;> split <;> omega

def refillLeft (env : ShimEnv t) (s : Procs t) : Nat :=
  s.refill.stepsLeft (env.poolTarget - s.pool.length)

/-- A step of anybody else leaves the refill thread where it was, and takes one
worker at most, by an acquire. -/
theorem refillLeft_of_same (refill : s'.refill = s.refill)
    (taken : s.pool.length ≤ s'.pool.length + if s.takes a then 1 else 0) :
    s'.refillLeft env ≤ s.refillLeft env + s.worth a := by
  have worth : 7 * (if s.takes a then 1 else 0) ≤ s.worth a := by
    unfold Procs.worth
    split <;> omega
  rw [refillLeft, refillLeft, refill]
  cases s.refill with
  | closing fds w => cases w <;> simp only [Spawning.stepsLeft] <;> omega
  | _ => simp only [Spawning.stepsLeft]; omega

theorem refillLeft_of_step (bounded : s.Bounded env size) (done : Step env s a s') :
    (if a.isRefill then 1 else 0) + s'.refillLeft env ≤ s.refillLeft env + s.worth a := by
  have room : s.refill ≠ .absent → s.pool.length + s.refill.inFlight ≤ env.poolTarget :=
    fun present => bounded.target present ▸ bounded.bound
  have others : ∀ {s'' : Procs t}, a.isRefill = false → s''.refill = s.refill → s''.pool = s.pool →
      (if a.isRefill then 1 else 0) + s''.refillLeft env ≤ s.refillLeft env + s.worth a := by
    intro s'' notRefill refill pool
    rw [notRefill]
    simpa using refillLeft_of_same refill (by rw [pool]; exact Nat.le_add_right _ _)
  cases does_of_step done with
  | wakes waiting short =>
    simp only [refillLeft, waiting, Spawning.stepsLeft, Action.isRefill, if_true]
    omega
  | sleeps closed =>
    simp only [refillLeft, closed, Spawning.stepsLeft, Action.isRefill, if_true, List.length_nil]
    omega
  | opensNone spawning =>
    simp only [refillLeft, spawning, Spawning.stepsLeft, Action.isRefill, worth,
      Action.refused, if_true, List.length_nil]
    omega
  | opensOne opened =>
    simp only [refillLeft, opened, Spawning.stepsLeft, Action.isRefill, worth,
      Action.refused, if_true, List.length_cons, List.length_nil]
    omega
  | opensReq spawning =>
    simp only [refillLeft, spawning, Spawning.stepsLeft, Action.isRefill, if_true, openPipe]
    omega
  | opensResp opened =>
    simp only [refillLeft, opened, Spawning.stepsLeft, Action.isRefill, if_true, openPipe]
    omega
  | spawnFails forking =>
    simp only [refillLeft, forking, Spawning.stepsLeft, Action.isRefill, worth,
      Action.refused, if_true, List.length_cons, List.length_nil]
    omega
  | spawns forking =>
    simp only [refillLeft, forking, Spawning.stepsLeft, Action.isRefill, if_true, forkWorker,
      List.length_cons, List.length_nil]
    omega
  | @refillCloses fd fds w closing =>
    simp only [refillLeft, closing, Action.isRefill, if_true, pool_closeFd]
    cases w <;> simp only [Spawning.stepsLeft, List.length_cons] <;> omega
  | pushes closed =>
    have one := room (by simp [closed])
    simp only [closed, Spawning.inFlight] at one
    simp only [refillLeft, closed, Spawning.stepsLeft, Action.isRefill, if_true, List.length_nil,
      List.length_append, List.length_singleton]
    omega
  | finds at_r front =>
    rw [if_neg (by simp [Action.isRefill]), Nat.zero_add]
    apply refillLeft_of_same
    · rfl
    · simp [front, setCall, takes]
  | enters | misses | pipeFails | opensInline | forkFails | forks | reads | gaveUp =>
    exact others rfl rfl rfl
  | sends => exact others rfl (by simp [setCall]) (by simp [setCall])
  | sendFails => exact others rfl (by simp [setCall]) (by simp [setCall])
  | abandons => exact others rfl (by simp [setCall]) (by simp [setCall])
  | closesWrite => exact others rfl (by simp [setCall]) (by simp [setCall])
  | closes => exact others rfl (by simp [setCall]) (by simp [setCall])
  | waits | childCloses | acts => exact others rfl rfl rfl

/-! ## When it sleeps -/

/-- The system always has a free descriptor and a free pid to grant. -/
theorem exists_free (s : Procs t) : ∃ fds, s.Free fds := by
  obtain ⟨a, outside⟩ := Infinite.exists_notMem_finset s.descriptors.keys.toFinset
  obtain ⟨b, outside'⟩ := Infinite.exists_notMem_finset (insert a s.descriptors.keys.toFinset)
  have closed : ∀ fd, fd ∉ s.descriptors.keys → s.descriptors.lookup fd = none := fun fd out =>
    AList.lookup_eq_none.mpr fun inside => out (AList.mem_keys.mp inside)
  rw [List.mem_toFinset] at outside
  rw [Finset.mem_insert, List.mem_toFinset, not_or] at outside'
  exact ⟨(a, b), Ne.symm outside'.1, closed a outside, closed b outside'.2⟩

theorem exists_pidFree (s : Procs t) : ∃ pid, s.PidFree pid := by
  obtain ⟨pid, outside⟩ := Infinite.exists_notMem_finset (s.forked.map Forked.pid).toFinset
  rw [List.mem_toFinset] at outside
  exact ⟨pid, fun f inside name => outside (name.1 ▸ List.mem_map_of_mem inside)⟩

theorem exec_refill (refill : a.isRefill = true) : exec env s a = s.execRefill env a := by
  cases a <;> first | rfl | cases refill

/-- The refill thread can go on, if the system grants what it asks for. -/
def CanRefill (env : ShimEnv t) (s : Procs t) : Prop :=
  ∃ a : Action t, a.isRefill = true ∧ a.refused = false ∧ (exec env s a).isSome

theorem CanRefill.of_some (refill : a.isRefill = true) (granted : a.refused = false)
    (done : s.execRefill env a = some s') : s.CanRefill env :=
  ⟨a, refill, granted, by rw [exec_refill refill, done]; rfl⟩

/-- It can unless it sleeps before a full pool, or is not there. -/
theorem canRefill_of_short (present : s.refill ≠ .absent)
    (short : s.refill = .waiting → s.pool.length < env.poolTarget) : s.CanRefill env := by
  obtain ⟨fds, free⟩ := s.exists_free
  obtain ⟨pid, pidFree⟩ := s.exists_pidFree
  cases at_q : s.refill with
  | absent => exact absurd at_q present
  | waiting =>
    apply CanRefill.of_some (a := .refillWake) rfl rfl
    simp only [execRefill, at_q]
    exact if_pos (short at_q)
  | spawning =>
    apply CanRefill.of_some (a := .refillPipe (some fds)) rfl rfl
    simp only [execRefill, at_q]
    exact if_pos free
  | opened req =>
    apply CanRefill.of_some (a := .refillPipe (some fds)) rfl rfl
    simp only [execRefill, at_q]
    exact if_pos free
  | forking req resp =>
    apply CanRefill.of_some (a := .refillFork (some pid)) rfl rfl
    simp only [execRefill, at_q]
    exact if_pos pidFree
  | closing fds' w =>
    cases fds' with
    | cons fd rest =>
      apply CanRefill.of_some (a := .refillClose) rfl rfl
      simp only [execRefill, at_q]
      rfl
    | nil =>
      cases w with
      | none =>
        apply CanRefill.of_some (a := .refillWake) rfl rfl
        simp only [execRefill, at_q]
        rfl
      | some w =>
        apply CanRefill.of_some (a := .refillPush) rfl rfl
        simp only [execRefill, at_q]
        rfl

theorem full_of_idle (bounded : s.Bounded env size) (present : s.refill ≠ .absent)
    (idle : ¬ s.CanRefill env) : s.refill = .waiting ∧ s.pool.length = env.poolTarget := by
  have bound := bounded.bound
  rw [bounded.target present] at bound
  have full : ¬ s.pool.length < env.poolTarget := fun short =>
    idle (canRefill_of_short present fun _ => short)
  have asleep : s.refill = .waiting := by
    by_contra awake
    exact idle (canRefill_of_short present fun asleep => absurd asleep awake)
  exact ⟨asleep, by omega⟩

/-- What a run has cost the refill thread, and that only a full pool stops it. -/
structure Refilled (env : ShimEnv t) (mspace : Bool) (as : List (Action t)) (s : Procs t) :
    Prop where
  work : as.countP Action.isRefill ≤
    7 * env.poolTarget + 7 * acquired env (.start mspace env.poolTarget) as +
      9 * as.countP Action.refused
  idle : s.refill ≠ .absent → ¬ s.CanRefill env → s.refill = .waiting ∧ s.pool.length = env.poolTarget

end Procs
end RlboxDynamic.PoolDescriptors

namespace RlboxDynamic
open Transition PoolDescriptors

/-- In every run of the shim the refill thread takes seven steps at most for each
worker of the target and each worker acquired, and nine for each call the system
refuses it; and it stops, with the system granting what it asks for, only where
the pool is full. -/
theorem pool_refilled {t : Target} (env : ShimEnv t) (mspace : Bool) {as : List (Action t)}
    {s : Procs t} (run : Run (Procs.Step env) (.start mspace env.poolTarget) as s) :
    Procs.Refilled env mspace as s := by
  have first := Procs.start_bounded env mspace
  have kept : ∀ s a s', Procs.Bounded env (if mspace then env.poolTarget else 0) s →
      Procs.Step env s a s' → Procs.Bounded env (if mspace then env.poolTarget else 0) s' :=
    fun _ _ _ bounded done => Procs.step_bounded bounded done
  constructor
  · have counted := run.amortized Action.isRefill first kept (Procs.refillLeft env)
      Procs.worth fun _ _ _ bounded done => Procs.refillLeft_of_step bounded done
    have begins : (Procs.start mspace env.poolTarget : Procs t).refillLeft env ≤ 7 * env.poolTarget := by
      simp only [Procs.refillLeft, Procs.start]
      split <;> simp [Spawning.stepsLeft]
    rw [Procs.gained_worth run] at counted
    omega
  · exact fun present idle => Procs.full_of_idle (run.invariant first kept) present idle

/-- A pool of one is filled in seven steps. -/
theorem one_worker_refilled :
    ∃ as s, Run (Procs.Step poolOfOne) (.start true poolOfOne.poolTarget) as s ∧
      as.countP Action.isRefill = 7 ∧ s.pool.length = 1 ∧ Procs.Refilled poolOfOne true as s := by
  have ran : (execAll (Procs.exec poolOfOne) (.start true poolOfOne.poolTarget)
      [.refillWake, .refillPipe (some (3, 4)), .refillPipe (some (5, 6)), .refillFork (some 100),
        .refillClose, .refillClose, .refillPush]).map (·.pool.length) = some 1 := rfl
  obtain ⟨s, run, one⟩ := exists_run ran
  exact ⟨_, s, run, rfl, one, pool_refilled poolOfOne true run⟩

end RlboxDynamic
