import RlboxDynamic.PoolOwnership

/-! The shim loses no descriptor: each that is open is kept by the refill thread,
the pool or a call. -/
namespace RlboxDynamic.PoolDescriptors
open Transition

def Pipe.fds (p : Pipe) : List Fd := [p.readFd, p.writeFd]

def Spawning.fds : Spawning → List Fd
  | .absent | .waiting | .spawning => []
  | .opened req => req.fds
  | .forking req resp => req.fds ++ resp.fds
  | .closing fds none => fds
  | .closing fds (some w) => fds ++ (Server.pooled w).fds

def Call.fds {t : Target} : Call t → List Fd
  | .entered _ | .piping _ | .returned _ => []
  | .forking _ p => p.fds
  | .abandoning fds => fds
  | .dispatching w _ => (Server.pooled w).fds
  | .closingWrite fd server => fd :: server.fds
  | .reading server => server.fds
  | .finishing _ fds _ => fds

namespace Procs
variable {t : Target} {env : ShimEnv t} {s s' : Procs t} {a : Action t}

/-- Some thread, or the pool, will close the descriptor. -/
def Kept (s : Procs t) (fd : Fd) : Prop :=
  fd ∈ s.refill.fds ∨ (∃ w ∈ s.pool, fd ∈ (Server.pooled w).fds) ∨
    ∃ r call, s.requests r = some call ∧ fd ∈ call.fds

def AllKept (s : Procs t) : Prop := ∀ fd e, s.descriptors.lookup fd = some e → s.Kept fd

/-- The refill thread goes on with all it keeps. -/
theorem Kept.refillMoves (kept : s.Kept fd) (refill : fd ∈ s.refill.fds → fd ∈ s'.refill.fds)
    (pool : s'.pool = s.pool) (requests : s'.requests = s.requests) : s'.Kept fd := by
  rcases kept with held | held | held
  · exact .inl (refill held)
  · exact .inr (.inl (pool ▸ held))
  · exact .inr (.inr (requests ▸ held))

/-- A call goes on with all it keeps. -/
theorem Kept.callMoves (kept : s.Kept fd) (at_r : s.requests r = old)
    (fds : ∀ call, old = some call → fd ∈ call.fds → fd ∈ q.fds) (refill : s'.refill = s.refill)
    (pool : s'.pool = s.pool) (requests : s'.requests = s.requests) : (s'.setCall r q).Kept fd := by
  rcases kept with held | held | ⟨r', call, at_r', held⟩
  · exact .inl (refill.symm ▸ held)
  · exact .inr (.inl (pool.symm ▸ held))
  · refine .inr (.inr ?_)
    by_cases same : r' = r
    · subst same
      exact ⟨r', q, by simp [setCall], fds call (at_r.symm.trans at_r') held⟩
    · exact ⟨r', call, by simp [setCall, Function.update_of_ne same, requests, at_r'], held⟩

theorem AllKept.refillMoves (kept : s.AllKept) (descriptors : s'.descriptors = s.descriptors)
    (refill : ∀ fd ∈ s.refill.fds, fd ∈ s'.refill.fds) (pool : s'.pool = s.pool)
    (requests : s'.requests = s.requests) : s'.AllKept := fun fd e here =>
  (kept fd e (descriptors ▸ here)).refillMoves (refill fd) pool requests

theorem AllKept.callMoves (kept : s.AllKept) (at_r : s.requests r = some old)
    (fds : ∀ fd ∈ old.fds, fd ∈ q.fds) (descriptors : s'.descriptors = s.descriptors)
    (refill : s'.refill = s.refill) (pool : s'.pool = s.pool) (requests : s'.requests = s.requests) :
    (s'.setCall r q).AllKept := fun fd e here =>
  (kept fd e (descriptors ▸ here)).callMoves at_r
    (fun _ same => Option.some.inj same ▸ fds fd) refill pool requests

/-- A call closes the first of what it keeps. -/
theorem AllKept.callCloses (kept : s.AllKept) (at_r : s.requests r = some old)
    (fds : ∀ fd' ∈ old.fds, fd' = fd ∨ fd' ∈ q.fds) : ((s.closeFd fd).setCall r q).AllKept := by
  intro fd' e here
  change (s.closeFd fd).descriptors.lookup fd' = some e at here
  rw [lookup_closeFd] at here
  split at here
  next => cases here
  next other =>
    refine (kept fd' e here).callMoves at_r (fun call same held => ?_) (refill_closeFd fd)
      (pool_closeFd fd) (requests_closeFd fd)
    cases same
    exact (fds fd' held).resolve_left other

/-- A thread opens a pipe and keeps its two descriptors. -/
theorem lookup_openPipe_cases (thread : Thread)
    (here : (s.openPipe thread fds).descriptors.lookup fd = some e) :
    s.descriptors.lookup fd = some e ∨ fd ∈ (s.newPipe fds).fds := by
  rw [lookup_openPipe] at here
  split at here
  next same => exact .inr (by simp [same, newPipe, Pipe.fds])
  next =>
    split at here
    next same => exact .inr (by simp [same, newPipe, Pipe.fds])
    next => exact .inl here

theorem start_allKept (mspace : Bool) (target : Nat) : (start mspace target : Procs t).AllKept := by
  simp [AllKept, start]

theorem step_allKept (kept : s.AllKept) (done : Step env s a s') : s'.AllKept := by
  cases does_of_step done with
  | wakes at_q => exact kept.refillMoves rfl (by simp [at_q, Spawning.fds]) rfl rfl
  | sleeps at_q => exact kept.refillMoves rfl (by simp [at_q, Spawning.fds]) rfl rfl
  | opensNone at_q => exact kept.refillMoves rfl (by simp [at_q, Spawning.fds]) rfl rfl
  | opensOne at_q => exact kept.refillMoves rfl (by simp [at_q, Spawning.fds, Pipe.fds]) rfl rfl
  | opensReq at_q =>
    intro fd e here
    rcases lookup_openPipe_cases .refill here with old | new
    · exact (kept fd e old).refillMoves (by simp [at_q, Spawning.fds]) rfl rfl
    · exact .inl new
  | opensResp at_q =>
    intro fd e here
    rcases lookup_openPipe_cases .refill here with old | new
    · exact (kept fd e old).refillMoves (by simp +contextual [at_q, Spawning.fds]) rfl rfl
    · exact .inl (List.mem_append_right _ new)
  | spawnFails at_q => exact kept.refillMoves rfl (by simp [at_q, Spawning.fds, Pipe.fds]) rfl rfl
  | spawns at_q =>
    refine kept.refillMoves rfl ?_ rfl rfl
    simp only [at_q, Spawning.fds, Pipe.fds, Server.fds, List.mem_append, List.mem_pair]
    rintro fd ((rfl | rfl) | (rfl | rfl)) <;> simp
  | @refillCloses fd fds w at_q =>
    intro fd' e here
    change (s.closeFd fd).descriptors.lookup fd' = some e at here
    rw [lookup_closeFd] at here
    split at here
    next => cases here
    next other =>
      refine (kept fd' e here).refillMoves ?_ (pool_closeFd fd) (requests_closeFd fd)
      rw [at_q]
      cases w <;> simp [Spawning.fds, other]
  | @pushes w closed =>
    intro fd e here
    rcases kept fd e here with held | ⟨w', inside, held⟩ | held
    · rw [closed] at held
      exact .inr (.inl ⟨w, by simp, held⟩)
    · exact .inr (.inl ⟨w', List.mem_append_left _ inside, held⟩)
    · exact .inr (.inr held)
  | enters unused =>
    exact fun fd e here => (kept fd e here).callMoves unused nofun rfl rfl rfl
  | misses at_r => exact kept.callMoves at_r (by simp [Call.fds]) rfl rfl rfl rfl
  | @finds r job w rest at_r front =>
    intro fd e here
    rcases kept fd e here with held | ⟨w', inside, held⟩ | ⟨r', call, at_r', held⟩
    · exact .inl held
    · rw [front] at inside
      rcases List.mem_cons.mp inside with rfl | later
      · exact .inr (.inr ⟨r, _, Function.update_self _ _ _, held⟩)
      · exact .inr (.inl ⟨w', later, held⟩)
    · refine .inr (.inr ⟨r', call, ?_, held⟩)
      have other : r' ≠ r := by
        rintro rfl
        rw [at_r] at at_r'
        cases at_r'
        cases held
      exact (Function.update_of_ne other _ _).trans at_r'
  | pipeFails at_r => exact kept.callMoves at_r (by simp [Call.fds]) rfl rfl rfl rfl
  | @opensInline r _ _ at_r =>
    intro fd e here
    rcases lookup_openPipe_cases (.request r) here with old | new
    · refine (kept fd e old).callMoves at_r (fun call same held => ?_) rfl rfl rfl
      cases same
      cases held
    · exact .inr (.inr ⟨_, _, Function.update_self _ _ _, new⟩)
  | forkFails at_r => exact kept.callMoves at_r (by simp [Call.fds, Pipe.fds]) rfl rfl rfl rfl
  | forks at_r =>
    exact kept.callMoves at_r (by simp [Call.fds, Pipe.fds, Server.fds]) rfl rfl rfl rfl
  | sends at_r =>
    exact kept.callMoves at_r (fun _ => id) (descriptors_submit _ _) (refill_submit _ _)
      (pool_submit _ _) (requests_submit _ _)
  | sendFails at_r =>
    exact kept.callMoves at_r (fun _ => id) (descriptors_submit _ _) (refill_submit _ _)
      (pool_submit _ _) (requests_submit _ _)
  | reads at_r => exact kept.callMoves at_r (fun _ => id) rfl rfl rfl rfl
  | abandons at_r => exact kept.callCloses at_r (fun _ => List.mem_cons.mp)
  | closesWrite at_r => exact kept.callCloses at_r (fun _ => List.mem_cons.mp)
  | closes at_r => exact kept.callCloses at_r (fun _ => List.mem_cons.mp)
  | gaveUp at_r => exact kept.callMoves at_r (by simp [Call.fds]) rfl rfl rfl rfl
  | waits at_r => exact kept.callMoves at_r (by simp [Call.fds]) rfl rfl rfl rfl
  | childCloses => exact kept.refillMoves rfl (fun _ => id) rfl rfl
  | acts => exact kept.refillMoves rfl (fun _ => id) rfl rfl

end Procs
end RlboxDynamic.PoolDescriptors
