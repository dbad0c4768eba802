import RlboxDynamic.ForkedChildren
import RlboxDynamic.PoolWiring

/-! Which descriptor is whose: in every reachable state, each descriptor that a
thread keeps is of the pipe it was opened for, and each worker is kept in one
place. -/
namespace RlboxDynamic.PoolDescriptors
open Transition

/-- The child a pipe is for. -/
def PipeUse.child : PipeUse → Option Nat
  | .opened _ => none
  | .jobs k | .results k => some k

/-- The pipe of a worker that has this use. -/
def PipeUse.ofWorker (req resp : Nat) : PipeUse → Nat
  | .jobs _ => req
  | _ => resp

namespace Procs
variable {t : Target} {env : ShimEnv t} {s s' : Procs t} {a : Action t} {busy : Option Thread}

/-- Every pipe in use is of a child there is, and no child has two in one use. -/
structure Uses (s : Procs t) : Prop where
  forked : ∀ (p : Nat) use k, s.pipes[p]? = some use → use.child = some k → k < s.forked.length
  once : ∀ (p p' : Nat) use k, s.pipes[p]? = some use → s.pipes[p']? = some use →
    use.child = some k → p = p'

/-- What every thread keeps, but for one in the middle of a step. -/
structure Wired (busy : Option Thread) (s : Procs t) : Prop where
  table : s.Table
  onePid : s.OnePid
  uses : s.Uses
  pool : ∀ w ∈ s.pool, s.WorkerAt w [.pushed]
  poolOnce : (s.pool.map Worker.pid).Nodup
  refill : busy ≠ some .refill → s.RefillHolds s.refill
  calls : ∀ r q, busy ≠ some (.request r) → s.requests r = some q → s.CallHolds r q

theorem Wired.begin (kept : s.Wired none) (thread : Thread) : s.Wired (some thread) where
  table := kept.table
  onePid := kept.onePid
  uses := kept.uses
  pool := kept.pool
  poolOnce := kept.poolOnce
  refill _ := kept.refill (by simp)
  calls r q _ := kept.calls r q (by simp)

theorem Table.of_eq (table : s.Table) (descriptors : s'.descriptors = s.descriptors)
    (pipes : s'.pipes.length = s.pipes.length) : s'.Table where
  named := by rw [descriptors, pipes]; exact table.named
  once := by rw [descriptors]; exact table.once

theorem Uses.of_eq (uses : s.Uses) (pipes : s'.pipes = s.pipes)
    (forked : s'.forked.length = s.forked.length) : s'.Uses where
  forked := by rw [pipes, forked]; exact uses.forked
  once := by rw [pipes]; exact uses.once

/-- A process that changes keeps its pid, or is waited for. -/
theorem OnePid.of_each (one : s.OnePid)
    (each : ∀ (i : Nat) f', s'.forked[i]? = some f' →
      ∃ f : Forked t, s.forked[i]? = some f ∧ ∀ pid, f'.Named pid → f.Named pid) : s'.OnePid := by
  intro i j pid f' g' here there name name'
  obtain ⟨f, before, same⟩ := each i f' here
  obtain ⟨g, before', same'⟩ := each j g' there
  exact one i j pid f g before before' (same pid name) (same' pid name')

/-- A step that leaves the children and opened pipes of the other threads and of
the pool as they are leaves what they keep. -/
theorem Wired.others (kept : s.Wired busy) (table : s'.Table) (onePid : s'.OnePid) (uses : s'.Uses)
    (refill : s'.refill = s.refill) (requests : s'.requests = s.requests) (pool : s'.pool = s.pool)
    (opened : ∀ thread, busy ≠ some thread → s.KeepsOpened s' thread)
    (same : ∀ k pid handle thread, s.Handles k pid handle → holder handle = some thread →
      busy ≠ some thread → s.Untouched s' k)
    (pooled : ∀ w ∈ s.pool, ∀ k, s.Handles k w.pid [.pushed] → s.Untouched s' k) : s'.Wired busy where
  table := table
  onePid := onePid
  uses := uses
  pool w inside := by
    rw [pool] at inside
    exact (kept.pool w inside).keep fun k handles => pooled w inside k handles
  poolOnce := pool ▸ kept.poolOnce
  refill idle := by
    rw [refill]
    exact (kept.refill idle).keep (opened _ idle) fun k pid handles => same k pid _ _ handles rfl idle
  calls r q idle at_r :=
    (kept.calls r q idle (requests ▸ at_r)).keep (opened _ idle)
      fun k pid handle handles held => same k pid handle _ handles held idle

/-- The refill thread comes to rest. -/
theorem Wired.refillRests (kept : s.Wired (some .refill)) (holds : s.RefillHolds q) :
    ({ s with refill := q } : Procs t).Wired none where
  table := kept.table.of_eq rfl rfl
  onePid := kept.onePid
  uses := kept.uses.of_eq rfl rfl
  pool w inside := (kept.pool w inside).keep fun k _ => untouched_refill q k
  poolOnce := kept.poolOnce
  refill _ := holds.keep (keepsOpened_of_eq rfl rfl _) fun k _ _ => untouched_refill q k
  calls r call _ at_r := (kept.calls r call (by simp) at_r).keep (keepsOpened_of_eq rfl rfl _)
    fun k _ _ _ _ => untouched_refill q k

/-- A call comes to rest. -/
theorem Wired.callRests (kept : s.Wired (some (.request r))) (holds : s.CallHolds r q) :
    (s.setCall r q).Wired none where
  table := kept.table.of_eq rfl rfl
  onePid := kept.onePid
  uses := kept.uses.of_eq rfl rfl
  pool w inside := (kept.pool w inside).keep fun k _ => untouched_setCall r q k
  poolOnce := kept.poolOnce
  refill _ := (kept.refill (by simp)).keep (keepsOpened_of_eq rfl rfl _)
    fun k _ _ => untouched_setCall r q k
  calls r' q' _ at_r' := by
    have held : s.CallHolds r' q' := by
      simp only [setCall, Function.update_apply] at at_r'
      split at at_r'
      next same => cases at_r'; exact same ▸ holds
      next other => exact kept.calls r' q' (by simpa using Ne.symm other) at_r'
    exact held.keep (keepsOpened_of_eq rfl rfl _) fun k _ _ _ _ => untouched_setCall r q k

/-! ## The system calls -/

theorem Table.openPipe (table : s.Table) : (s.openPipe thread fds).Table where
  named fd e here := by
    have more : (s.openPipe thread fds).pipes.length = s.pipes.length + 1 := by simp [Procs.openPipe]
    rw [lookup_openPipe] at here
    rw [more]
    split at here
    next => cases here; exact Nat.lt_succ_self _
    next =>
      split at here
      next => cases here; exact Nat.lt_succ_self _
      next => exact Nat.lt_succ_of_lt (table.named fd e here)
  once fd fd' e here there := by
    have old : ∀ fd side, s.descriptors.lookup fd ≠ some ⟨s.pipes.length, side⟩ := fun fd side at_fd =>
      absurd (table.named fd _ at_fd) (Nat.lt_irrefl _)
    rw [lookup_openPipe] at here there
    split at here <;> split at there
    next left right => rw [left, right]
    next => cases here; split at there; · cases there
            · exact absurd there (old _ _)
    next => cases there; split at here; · cases here
            · exact absurd here (old _ _)
    next =>
      split at here <;> split at there
      next left right => rw [left, right]
      next => cases here; exact absurd there (old _ _)
      next => cases there; exact absurd here (old _ _)
      next => exact table.once fd fd' e here there

theorem Table.closeFd (table : s.Table) (fd : Fd) : (s.closeFd fd).Table where
  named fd' e here := by
    rw [lookup_closeFd] at here
    split at here
    next => cases here
    next => rw [pipes_closeFd]; exact table.named fd' e here
  once fd₁ fd₂ e here there := by
    rw [lookup_closeFd] at here there
    split at here
    next => cases here
    next =>
      split at there
      next => cases there
      next => exact table.once fd₁ fd₂ e here there

theorem Uses.openPipe (uses : s.Uses) : (s.openPipe thread fds).Uses := by
  have old : ∀ (p : Nat) use k, (s.openPipe thread fds).pipes[p]? = some use → use.child = some k →
      s.pipes[p]? = some use := by
    intro p use k here of_k
    simp only [Procs.openPipe, List.getElem?_append] at here
    split at here
    next => exact here
    next =>
      rw [List.getElem?_singleton] at here
      split at here
      next => cases here; cases of_k
      next => cases here
  constructor
  case forked => exact fun p use k here of_k => uses.forked p use k (old p use k here of_k) of_k
  case once =>
    exact fun p p' use k here there of_k =>
      uses.once p p' use k (old p use k here of_k) (old p' use k there of_k) of_k

theorem length_closeFd (fd : Fd) : (s.closeFd fd).forked.length = s.forked.length := by
  unfold Procs.closeFd noteClosed
  split
  next => rfl
  next => split <;> simp

theorem OnePid.closeFd (one : s.OnePid) (fd : Fd) : (s.closeFd fd).OnePid := by
  refine one.of_each fun i f' here => ?_
  unfold Procs.closeFd noteClosed at here
  split at here
  next => exact ⟨f', here, fun _ => id⟩
  next =>
    dsimp only at here
    split at here
    next k event _ =>
      rw [List.getElem?_modify] at here
      obtain ⟨f, before, rfl⟩ := Option.map_eq_some_iff.mp here
      refine ⟨f, before, fun pid name => ?_⟩
      split at name <;> exact name
    next => exact ⟨f', here, fun _ => id⟩

theorem Wired.openPipe (kept : s.Wired busy) (free : s.Free fds) :
    (s.openPipe thread fds).Wired busy :=
  kept.others kept.table.openPipe kept.onePid kept.uses.openPipe rfl rfl rfl
    (fun thread' _ => keepsOpened_openPipe free thread')
    (fun k _ _ _ _ _ _ => untouched_openPipe free k) fun _ _ k _ => untouched_openPipe free k

/-- Closing what the thread itself keeps. -/
theorem Wired.closeFd (kept : s.Wired (some thread)) (at_fd : s.EndAt fd side use)
    (mine : use = .opened thread ∨
      ∃ k pid handle, use.child = some k ∧ s.Handles k pid handle ∧ holder handle = some thread) :
    (s.closeFd fd).Wired (some thread) := by
  have apart : ∀ k' pid' handle', s.Handles k' pid' handle' → holder handle' ≠ some thread →
      s.Untouched (s.closeFd fd) k' := by
    intro k' pid' handle' handles' other
    have different : use.child ≠ some k' := by
      rintro of_k'
      rcases mine with rfl | ⟨k, pid, handle, of_k, handles, held⟩
      · cases of_k'
      · obtain rfl : k = k' := Option.some.inj (of_k.symm.trans of_k')
        obtain ⟨-, rfl⟩ := handles.functional handles'
        exact other held
    exact untouched_closeFd at_fd (by rintro rfl; exact different rfl) (by rintro rfl; exact different rfl)
  refine kept.others (kept.table.closeFd fd) (kept.onePid.closeFd fd)
    (kept.uses.of_eq (pipes_closeFd fd) (length_closeFd fd)) (refill_closeFd fd) (requests_closeFd fd)
    (pool_closeFd fd) ?_ ?_ ?_
  · intro thread' other
    refine keepsOpened_closeFd at_fd ?_
    rintro rfl
    rcases mine with same | ⟨k, pid, handle, of_k, -⟩
    · exact other (by rw [PipeUse.opened.inj same])
    · cases of_k
  · intro k pid handle thread' handles held other
    exact apart k pid handle handles (held ▸ Ne.symm other)
  · exact fun w _ k handles => apart k w.pid _ handles nofun

/-- A step on one child, that the thread keeps or is about to. -/
theorem Wired.change (kept : s.Wired (some thread)) (at_k : s.Handles k pid handle)
    (mine : ∀ other, holder handle = some other → other = thread)
    (unpooled : ∀ w ∈ s.pool, w.pid ≠ pid) (onePid : s'.OnePid)
    (descriptors : s'.descriptors = s.descriptors) (pipes : s'.pipes = s.pipes)
    (length : s'.forked.length = s.forked.length)
    (forked : ∀ j, j ≠ k → s'.forked[j]? = s.forked[j]?) (refill : s'.refill = s.refill)
    (requests : s'.requests = s.requests) (pool : s'.pool = s.pool) : s'.Wired (some thread) := by
  refine kept.others (kept.table.of_eq descriptors (by rw [pipes])) onePid (kept.uses.of_eq pipes length)
    refill requests pool (fun thread' _ => keepsOpened_of_eq descriptors pipes thread') ?_ ?_
  · intro k' pid' handle' thread' handles' held other
    refine untouched_of_getElem? descriptors pipes (forked k' ?_)
    rintro rfl
    obtain ⟨-, rfl⟩ := at_k.functional handles'
    exact other (by rw [mine thread' held])
  · intro w inside k' handles'
    refine untouched_of_getElem? descriptors pipes (forked k' ?_)
    rintro rfl
    exact unpooled w inside (handles'.functional at_k).1

theorem OnePid.map (one : s.OnePid) {change : Forked t → Forked t}
    (forked : s'.forked = s.forked.map change) (named : ∀ f pid, (change f).Named pid → f.Named pid) :
    s'.OnePid := by
  refine one.of_each fun i f' here => ?_
  rw [forked, List.getElem?_map] at here
  obtain ⟨f, before, rfl⟩ := Option.map_eq_some_iff.mp here
  exact ⟨f, before, named f⟩

theorem OnePid.note (one : s.OnePid) (pid : Pid) (event : HandleEvent) : (s.note pid event).OnePid := by
  refine one.map rfl fun f pid' name => ?_
  unfold Forked.noteNamed at name
  split at name <;> exact name

theorem OnePid.reap (one : s.OnePid) (pid : Pid) : (s.reap pid).OnePid := by
  refine one.map rfl fun f pid' name => ?_
  unfold Forked.reap at name
  split at name
  · exact absurd name.2 nofun
  · exact name

/-- What a thread keeps is not in the pool. -/
theorem Wired.unpooled (kept : s.Wired busy) (at_k : s.Handles k pid handle)
    (held : holder handle = some thread) : ∀ w ∈ s.pool, w.pid ≠ pid := by
  rintro w inside rfl
  obtain ⟨k', handles', -⟩ := kept.pool w inside
  obtain ⟨-, rfl⟩ := kept.onePid.handles at_k handles'
  cases held

theorem Wired.note (kept : s.Wired (some thread)) (at_k : s.Handles k pid handle)
    (mine : ∀ other, holder handle = some other → other = thread)
    (unpooled : ∀ w ∈ s.pool, w.pid ≠ pid) (event : HandleEvent) :
    (s.note pid event).Wired (some thread) :=
  kept.change at_k mine unpooled (kept.onePid.note pid event) rfl rfl (by simp [Procs.note])
    (fun _ other => getElem?_note_of_ne kept.onePid at_k other) rfl rfl rfl

theorem Wired.reap (kept : s.Wired (some thread)) (at_k : s.Handles k pid handle)
    (mine : holder handle = some thread) : (s.reap pid).Wired (some thread) :=
  kept.change at_k (fun _ held => Option.some.inj (held.symm.trans mine)) (kept.unpooled at_k mine)
    (kept.onePid.reap pid) rfl rfl (by simp [Procs.reap])
    (fun _ other => getElem?_reap_of_ne kept.onePid at_k other) rfl rfl rfl

theorem Wired.submit (kept : s.Wired (some thread)) (at_k : s.Handles k pid handle)
    (mine : holder handle = some thread) (at_fd : s.EndAt fd .write (.jobs k)) (job : Job t) :
    (s.submit fd job).Wired (some thread) := by
  rw [submit_eq at_fd]
  refine kept.change at_k (fun _ held => Option.some.inj (held.symm.trans mine))
    (kept.unpooled at_k mine) ?_ rfl rfl (by simp) ?_ rfl rfl rfl
  · refine kept.onePid.of_each fun i f' here => ?_
    rw [List.getElem?_modify] at here
    obtain ⟨f, before, rfl⟩ := Option.map_eq_some_iff.mp here
    refine ⟨f, before, fun pid name => ?_⟩
    split at name <;> exact name
  · intro j other
    simp [Ne.symm other]

/-- A step of a child is nothing to the shim. -/
theorem Wired.setChild (kept : s.Wired none) (here : s.forked[k]? = some f) (pid : f'.pid = f.pid)
    (reaped : f'.reaped = f.reaped) (handle : f'.handle = f.handle) : (s.setChild k f').Wired none := by
  have inside : k < s.forked.length := (List.getElem?_eq_some_iff.mp here).1
  have named : ∀ pid, f'.Named pid ↔ f.Named pid := by simp [Forked.Named, pid, reaped]
  have child : ∀ j, (s.setChild k f').forked[j]? = if k = j then some f' else s.forked[j]? := by
    intro j
    simp only [Procs.setChild, List.getElem?_set, if_pos inside]
  have untouched : ∀ j, s.Untouched (s.setChild k f') j := by
    intro j
    constructor
    case handles =>
      rintro pid' handle' ⟨g, there, name, same⟩
      by_cases equal : k = j
      · subst equal
        rw [here] at there
        cases there
        exact ⟨f', by rw [child, if_pos rfl], (named _).mpr name, handle.trans same⟩
      · exact ⟨g, by rw [child, if_neg equal, there], name, same⟩
    case jobs => exact id
    case results => exact id
  refine kept.others (kept.table.of_eq rfl rfl) ?_ (kept.uses.of_eq rfl (by simp [Procs.setChild]))
    rfl rfl rfl (fun thread _ => keepsOpened_of_eq rfl rfl thread)
    (fun k _ _ _ _ _ _ => untouched k) fun _ _ k _ => untouched k
  · refine kept.onePid.of_each fun i g' there => ?_
    rw [child] at there
    split at there
    next same =>
      cases there
      exact ⟨f, same ▸ here, fun pid => (named pid).mp⟩
    next => exact ⟨g', there, fun _ => id⟩

/-! Forks. -/

section
variable {pid : Pid} {req resp p : Pipe} {r : RequestId} {job : Job t}

theorem OnePid.append (one : s.OnePid) (free : s.PidFree pid) (f : Forked t) (has : f.pid = pid)
    (forked : s'.forked = s.forked ++ [f]) : s'.OnePid := by
  have cases : ∀ (i : Nat) g, s'.forked[i]? = some g →
      s.forked[i]? = some g ∨ (i = s.forked.length ∧ g = f) := by
    intro i g here
    rw [forked, List.getElem?_append] at here
    split at here
    next => exact .inl here
    next =>
      rw [List.getElem?_singleton] at here
      split at here
      next => cases here; exact .inr ⟨by omega, rfl⟩
      next => cases here
  have fresh : ∀ (i : Nat) g, s.forked[i]? = some g → ∀ pid', g.Named pid' → ¬ f.Named pid' := by
    intro i g here pid' name name'
    refine free g (List.mem_of_getElem? here) ?_
    rw [← has, name'.1]
    exact name
  intro i j pid' g h here there name name'
  rcases cases i g here, cases j h there with ⟨old | ⟨rfl, rfl⟩, old' | ⟨rfl, rfl⟩⟩
  · exact one i j pid' g h old old' name name'
  · exact absurd name' (fresh i g old pid' name)
  · exact absurd name (fresh j h old' pid' name')
  · rfl

/-- The new child has one pipe for each use. -/
theorem Uses.fork (uses : s.Uses) (place : PipeUse → Nat)
    (forked : s'.forked.length = s.forked.length + 1)
    (pipes : ∀ (p : Nat) use, s'.pipes[p]? = some use →
      s.pipes[p]? = some use ∨ (use.child = some s.forked.length ∧ p = place use)) : s'.Uses where
  forked p use k here of_k := by
    rw [forked]
    rcases pipes p use here with old | ⟨new, -⟩
    · exact Nat.lt_succ_of_lt (uses.forked p use k old of_k)
    · rw [of_k] at new
      cases new
      exact Nat.lt_succ_self _
  once p p' use k here there of_k := by
    have absent : ∀ {p : Nat}, s.pipes[p]? = some use → use.child ≠ some s.forked.length :=
      fun old new => absurd (uses.forked _ use _ old new) (Nat.lt_irrefl _)
    rcases pipes p use here, pipes p' use there with ⟨old | ⟨new, at_p⟩, old' | ⟨new', at_p'⟩⟩
    · exact uses.once p p' use k old old' of_k
    · exact absurd new' (absent old)
    · exact absurd new (absent old')
    · rw [at_p, at_p']

/-- A fork, with the pipes the thread has opened for the child. -/
theorem Wired.fork (kept : s.Wired (some thread)) (free : s.PidFree pid) (f : Forked t)
    (has : f.pid = pid) (forked : s'.forked = s.forked ++ [f]) (place : PipeUse → Nat)
    (pipes : ∀ (p : Nat) use, s'.pipes[p]? = some use →
      s.pipes[p]? = some use ∨ (use.child = some s.forked.length ∧ p = place use))
    (apart : ∀ p : Nat, s.pipes[p]? ≠ some (.opened thread) → s'.pipes[p]? = s.pipes[p]?)
    (descriptors : s'.descriptors = s.descriptors) (length : s'.pipes.length = s.pipes.length)
    (refill : s'.refill = s.refill) (requests : s'.requests = s.requests) (pool : s'.pool = s.pool) :
    s'.Wired (some thread) := by
  refine kept.others (kept.table.of_eq descriptors length) (kept.onePid.append free f has forked)
    (kept.uses.fork place (by simp [forked]) pipes) refill requests pool ?_ ?_ ?_
  · intro thread' other fd e here used
    refine ⟨descriptors ▸ here, (apart _ ?_).trans used⟩
    rw [used]
    intro same
    cases same
    exact other rfl
  · exact fun k _ _ _ _ _ _ =>
      untouched_fork descriptors forked (fun p unopened => apart p (unopened _)) k
  · exact fun _ _ k _ => untouched_fork descriptors forked (fun p unopened => apart p (unopened _)) k

theorem Wired.forkWorker (kept : s.Wired (some .refill)) (req_at : s.PipeAt req (.opened .refill))
    (resp_at : s.PipeAt resp (.opened .refill)) (free : s.PidFree pid) :
    (s.forkWorker pid req resp).Wired (some .refill) := by
  refine kept.fork free _ ?_ rfl (PipeUse.ofWorker req.id resp.id) ?_ ?_ rfl
    (by simp [Procs.forkWorker]) rfl rfl rfl
  · rfl
  · intro p use here
    rw [pipes_forkWorker] at here
    split at here
    next new => cases here; exact .inr ⟨rfl, new.1⟩
    next =>
      split at here
      next new => cases here; exact .inr ⟨rfl, new.1⟩
      next => exact .inl here
  · intro p used
    rw [pipes_forkWorker, if_neg, if_neg]
    · rintro ⟨rfl, -⟩; exact used req_at.used
    · rintro ⟨rfl, -⟩; exact used resp_at.used

theorem Wired.forkInline (kept : s.Wired (some (.request r)))
    (at_p : s.PipeAt p (.opened (.request r))) (free : s.PidFree pid) :
    (s.forkInline pid r job p).Wired (some (.request r)) := by
  refine kept.fork free _ ?_ rfl (fun _ => p.id) ?_ ?_ rfl (by simp [Procs.forkInline]) rfl rfl rfl
  · rfl
  · intro p' use here
    rw [pipes_forkInline] at here
    split at here
    next new => cases here; exact .inr ⟨rfl, new.1⟩
    next => exact .inl here
  · intro p' used
    rw [pipes_forkInline, if_neg]
    rintro ⟨rfl, -⟩
    exact used at_p.used

/-- What the refill thread has after the fork. -/
theorem refillHolds_forkWorker (req_at : s.PipeAt req (.opened .refill))
    (resp_at : s.PipeAt resp (.opened .refill)) (distinct : req.id ≠ resp.id) :
    (s.forkWorker pid req resp).RefillHolds
      (.closing [req.readFd, resp.writeFd] (some ⟨pid, req.writeFd, resp.readFd⟩)) := by
  have inside : ∀ {p : Pipe}, s.PipeAt p (.opened .refill) → p.id < s.pipes.length :=
    fun at_p => (List.getElem?_eq_some_iff.mp at_p.used).1
  have req_jobs : (s.forkWorker pid req resp).PipeAt req (.jobs s.forked.length) :=
    ⟨by rw [pipes_forkWorker, if_neg (fun same => distinct same.1), if_pos ⟨rfl, inside req_at⟩],
      req_at.read, req_at.write⟩
  have resp_results : (s.forkWorker pid req resp).PipeAt resp (.results s.forked.length) :=
    ⟨by rw [pipes_forkWorker, if_pos ⟨rfl, inside resp_at⟩], resp_at.read, resp_at.write⟩
  refine .closing ⟨_, List.getElem?_concat_length, ⟨rfl, rfl⟩, rfl⟩ req_jobs.writeEnd
    resp_results.readEnd ⟨?_, ?_⟩
  · have different := req_jobs.readEnd.fd_ne resp_results.writeEnd (.inl nofun)
    simpa using different
  · intro fd inside
    rcases List.mem_pair.mp inside with rfl | rfl
    · exact .inl req_jobs.readEnd
    · exact .inr resp_results.writeEnd

/-- What a call has after the inline fork. -/
theorem callHolds_forkInline (at_p : s.PipeAt p (.opened (.request r))) :
    (s.forkInline pid r job p).CallHolds r (.closingWrite p.writeFd (.inline pid p.readFd)) := by
  have results : (s.forkInline pid r job p).PipeAt p (.results s.forked.length) :=
    ⟨by rw [pipes_forkInline, if_pos ⟨rfl, (List.getElem?_eq_some_iff.mp at_p.used).1⟩],
      at_p.read, at_p.write⟩
  exact .closingWrite ⟨_, List.getElem?_concat_length, ⟨rfl, rfl⟩, rfl⟩ results.readEnd results.writeEnd

end

/-! ## The steps -/

theorem PipeAt.opened (at_p : s.PipeAt p (.opened thread)) : s.Opened thread [p.readFd, p.writeFd] where
  distinct := by
    have different := at_p.readEnd.fd_ne at_p.writeEnd (.inl nofun)
    simpa using different
  opened fd inside := by
    rcases List.mem_pair.mp inside with rfl | rfl
    · exact ⟨_, at_p.readEnd⟩
    · exact ⟨_, at_p.writeEnd⟩

theorem Opened.append (left : s.Opened thread fds) (right : s.Opened thread fds')
    (apart : ∀ fd ∈ fds, fd ∉ fds') : s.Opened thread (fds ++ fds') where
  distinct := left.distinct.append right.distinct fun fd inside inside' => apart fd inside inside'
  opened fd inside := (List.mem_append.mp inside).elim (left.opened fd) (right.opened fd)

/-- The descriptors of two pipes are four. -/
theorem PipeAt.apart (left : s.PipeAt p use) (right : s.PipeAt q use') (distinct : p.id ≠ q.id) :
    ∀ fd ∈ [p.readFd, p.writeFd], fd ∉ [q.readFd, q.writeFd] := by
  have ends : ∀ {fd : Fd} {e e' : PipeEnd}, s.descriptors.lookup fd = some e →
      s.descriptors.lookup fd = some e' → e.pipe = e'.pipe :=
    fun here there => congrArg PipeEnd.pipe (Option.some.inj (here.symm.trans there))
  intro fd inside inside'
  rcases List.mem_pair.mp inside with rfl | rfl <;> rcases List.mem_pair.mp inside' with same | same
  · exact distinct (ends left.read (same ▸ right.read))
  · exact distinct (ends left.read (same ▸ right.write))
  · exact distinct (ends left.write (same ▸ right.read))
  · exact distinct (ends left.write (same ▸ right.write))

theorem Wired.refillMoves (kept : s.Wired none) (holds : s.RefillHolds q) :
    ({ s with refill := q } : Procs t).Wired none := (kept.begin .refill).refillRests holds

theorem Wired.callMoves (kept : s.Wired none) (holds : s.CallHolds r q) : (s.setCall r q).Wired none :=
  (kept.begin (.request r)).callRests holds

theorem callHolds_enter (env : ShimEnv t) (job : Job t) : s.CallHolds r (enter env job) := by
  unfold enter
  split
  · exact .returned
  · split
    · exact .returned
    · split
      · exact .returned
      · exact .entered

/-- The pool is what changes, and each worker of it was where a pooled worker
is. -/
theorem Wired.repool (kept : s.Wired none) {pool : List Worker}
    (workers : ∀ w ∈ pool, s.WorkerAt w [.pushed]) (once : (pool.map (·.pid)).Nodup) :
    ({ s with pool } : Procs t).Wired none := by
  have untouched : ∀ k, s.Untouched { s with pool } k := by
    intro k
    apply untouched_of_eq <;> rfl
  constructor
  case table => exact kept.table.of_eq rfl rfl
  case onePid => exact kept.onePid
  case uses => exact kept.uses.of_eq rfl rfl
  case pool => exact fun w inside => (workers w inside).keep fun k _ => untouched k
  case poolOnce => exact once
  case refill =>
    exact fun _ => (kept.refill nofun).keep (keepsOpened_of_eq rfl rfl _) fun k _ _ => untouched k
  case calls =>
    exact fun r q _ at_r => (kept.calls r q nofun at_r).keep (keepsOpened_of_eq rfl rfl _)
      fun k _ _ _ _ => untouched k

/-- The pool takes a worker that nothing has been done with but this. -/
theorem Wired.push (kept : s.Wired none) (worker : s.WorkerAt w [.pushed])
    (fresh : ∀ w' ∈ s.pool, w'.pid ≠ w.pid) : ({ s with pool := s.pool ++ [w] } : Procs t).Wired none := by
  apply kept.repool
  · intro w' inside
    rcases List.mem_append.mp inside with old | new
    · exact kept.pool w' old
    · obtain rfl := List.mem_singleton.mp new
      exact worker
  · simp only [List.map_append, List.map_cons, List.map_nil]
    refine kept.poolOnce.append (List.nodup_singleton _) ?_
    intro pid inside inside'
    obtain ⟨w', old, rfl⟩ := List.mem_map.mp inside
    exact fresh w' old (List.mem_singleton.mp inside')

theorem Wired.pop (kept : s.Wired none) (front : s.pool = w :: rest) :
    ({ s with pool := rest } : Procs t).Wired none := by
  have once := kept.poolOnce
  rw [front] at once
  apply kept.repool
  · exact fun w' inside => kept.pool w' (front ▸ List.mem_cons_of_mem w inside)
  · exact (List.nodup_cons.mp once).2

theorem Wired.opensResp (kept : s.Wired none) (opened : s.refill = .opened req) (free : s.Free fds) :
    ({ s.openPipe .refill fds with refill := .forking req (s.newPipe fds) } : Procs t).Wired none := by
  have holds := kept.refill nofun
  rw [opened] at holds
  cases holds with
  | opened req_at =>
    refine ((kept.begin .refill).openPipe free).refillRests ?_
    refine .forking (req_at.keep (keepsOpened_openPipe free _)) (newPipe_at free) ?_
    exact Nat.ne_of_lt (List.getElem?_eq_some_iff.mp req_at.used).1

theorem Wired.spawnFails (kept : s.Wired none) (forking : s.refill = .forking req resp) :
    ({ s with refill := .closing [req.readFd, req.writeFd, resp.readFd, resp.writeFd] none } :
      Procs t).Wired none := by
  have holds := kept.refill nofun
  rw [forking] at holds
  cases holds with
  | forking req_at resp_at distinct =>
    exact kept.refillMoves
      (.abandoning (req_at.opened.append resp_at.opened (req_at.apart resp_at distinct)))

theorem Wired.spawns (kept : s.Wired none) (forking : s.refill = .forking req resp)
    (free : s.PidFree pid) :
    ({ s.forkWorker pid req resp with
        refill := .closing [req.readFd, resp.writeFd] (some ⟨pid, req.writeFd, resp.readFd⟩) } :
      Procs t).Wired none := by
  have holds := kept.refill nofun
  rw [forking] at holds
  cases holds with
  | forking req_at resp_at distinct =>
    exact ((kept.begin .refill).forkWorker req_at resp_at free).refillRests
      (refillHolds_forkWorker req_at resp_at distinct)

theorem Wired.refillCloses (kept : s.Wired none) (closing : s.refill = .closing (fd :: fds) w) :
    ({ s.closeFd fd with refill := .closing fds w } : Procs t).Wired none := by
  have holds := kept.refill nofun
  rw [closing] at holds
  cases holds with
  | abandoning opened =>
    obtain ⟨side, at_fd⟩ := opened.opened fd List.mem_cons_self
    exact ((kept.begin .refill).closeFd at_fd (.inl rfl)).refillRests (.abandoning opened.closeFd)
  | @closing k w _ handles req resp ends =>
    obtain ⟨others, distinct⟩ := List.nodup_cons.mp ends.distinct
    obtain ⟨side, use, at_fd, of_k, closes⟩ : ∃ side use, s.EndAt fd side use ∧ use.child = some k ∧
        use.closed side = none :=
      (ends.ends fd List.mem_cons_self).elim (fun at_fd => ⟨_, _, at_fd, rfl, rfl⟩)
        fun at_fd => ⟨_, _, at_fd, rfl, rfl⟩
    -- The two ends that stay are the shim's own.
    have stays : ∀ {fd' side' use'}, s.EndAt fd' side' use' → use'.closed side' ≠ none →
        (s.closeFd fd).EndAt fd' side' use' := by
      intro fd' side' use' ends' own
      refine ends'.closeFd ?_
      rintro rfl
      obtain ⟨rfl, rfl⟩ := at_fd.functional ends'
      exact own closes
    refine ((kept.begin .refill).closeFd at_fd (.inr ⟨k, _, _, of_k, handles, rfl⟩)).refillRests ?_
    refine .closing (handles.closeFd_child at_fd closes) (stays req nofun) (stays resp nofun)
      ⟨distinct, fun fd' inside => ?_⟩
    have different : fd' ≠ fd := by rintro rfl; exact others inside
    exact (ends.ends fd' (List.mem_cons_of_mem _ inside)).imp (·.closeFd different) (·.closeFd different)

theorem Wired.pushes (kept : s.Wired none) (closed : s.refill = .closing [] (some w)) :
    ({ s.note w.pid .pushed with refill := .waiting, pool := s.pool ++ [w] } : Procs t).Wired none := by
  have holds := kept.refill nofun
  rw [closed] at holds
  cases holds with
  | closing handles req resp =>
    have unpooled := kept.unpooled handles rfl
    have noted := (kept.begin .refill).note handles (fun _ held => (Option.some.inj held).symm) unpooled .pushed
    exact (noted.refillRests .waiting).push ⟨_, handles.note, req, resp⟩ unpooled

theorem Wired.finds (kept : s.Wired none) (front : s.pool = w :: rest) :
    ({ s.note w.pid (.acquired r) with pool := rest }.setCall r (.dispatching w job)).Wired none := by
  obtain ⟨k, handles, req, resp⟩ := kept.pool w (front ▸ List.mem_cons_self)
  have once := kept.poolOnce
  rw [front] at once
  have unpooled : ∀ w' ∈ rest, w'.pid ≠ w.pid := by
    intro w' inside same
    exact (List.nodup_cons.mp once).1 (List.mem_map.mpr ⟨w', inside, same⟩)
  have noted := ((kept.pop front).begin (.request r)).note handles nofun unpooled (.acquired r)
  exact noted.callRests (.dispatching ⟨k, handles.note, req, resp⟩)

theorem Wired.dispatched (kept : s.Wired none) (at_r : s.requests r = some (.dispatching w job))
    (next : ∀ {s' : Procs t}, s'.Serving r (.pooled w) (Server.pooled w).fds → s'.CallHolds r q) :
    ((s.submit w.reqFd job).setCall r q).Wired none := by
  have holds := kept.calls r _ nofun at_r
  cases holds with
  | dispatching worker =>
    obtain ⟨k, handles, req, resp⟩ := worker
    refine ((kept.begin _).submit handles rfl req job).callRests (next ?_)
    exact .both (handles.submit req job) (req.submit req job) (resp.submit req job)

theorem Wired.closes (kept : s.Wired none)
    (finishing : s.requests r = some (.finishing server (fd :: fds) result)) :
    ((s.closeFd fd).setCall r (.finishing server fds result)).Wired none := by
  have holds := kept.calls r _ nofun finishing
  cases holds with
  | finishing serving =>
    cases serving with
    | both handles req resp =>
      exact ((kept.begin _).closeFd req (.inr ⟨_, _, _, rfl, handles, rfl⟩)).callRests
        (.finishing (.resp (handles.closeFd req rfl) (resp.closeFd (resp.fd_ne req (.inl nofun)))))
    | resp handles resp =>
      exact ((kept.begin _).closeFd resp (.inr ⟨_, _, _, rfl, handles, rfl⟩)).callRests
        (.finishing (.closed (handles.closeFd resp rfl)))
    | inline handles resp =>
      exact ((kept.begin _).closeFd resp (.inr ⟨_, _, _, rfl, handles, rfl⟩)).callRests
        (.finishing (.inlineClosed (handles.closeFd resp rfl)))

theorem Wired.waits (kept : s.Wired none)
    (finished : s.requests r = some (.finishing server [] result)) :
    ((s.reap server.pid).setCall r (.returned result)).Wired none := by
  have holds := kept.calls r _ nofun finished
  cases holds with
  | finishing serving =>
    cases serving with
    | closed handles => exact ((kept.begin _).reap handles rfl).callRests .returned
    | inlineClosed handles => exact ((kept.begin _).reap handles rfl).callRests .returned

theorem step_wired (kept : s.Wired none) (done : Step env s a s') : s'.Wired none := by
  cases does_of_step done with
  | wakes => exact kept.refillMoves .spawning
  | sleeps => exact kept.refillMoves .waiting
  | opensNone => exact kept.refillMoves (.abandoning ⟨List.nodup_nil, nofun⟩)
  | opensOne opened =>
    have holds := kept.refill nofun
    rw [opened] at holds
    cases holds with
    | opened req_at => exact kept.refillMoves (.abandoning req_at.opened)
  | opensReq _ free => exact ((kept.begin .refill).openPipe free).refillRests (.opened (newPipe_at free))
  | opensResp opened free => exact kept.opensResp opened free
  | spawnFails forking => exact kept.spawnFails forking
  | spawns forking free => exact kept.spawns forking free
  | refillCloses closing => exact kept.refillCloses closing
  | pushes closed => exact kept.pushes closed
  | enters => exact kept.callMoves (callHolds_enter env _)
  | misses => exact kept.callMoves .piping
  | finds _ front => exact kept.finds front
  | pipeFails => exact kept.callMoves .returned
  | opensInline _ free => exact ((kept.begin _).openPipe free).callRests (.forking (newPipe_at free))
  | forkFails forking =>
    cases kept.calls _ _ nofun forking with
    | forking at_p => exact kept.callMoves (.abandoning at_p.opened)
  | forks forking free =>
    cases kept.calls _ _ nofun forking with
    | forking at_p => exact ((kept.begin _).forkInline at_p free).callRests (callHolds_forkInline at_p)
  | sends dispatching => exact kept.dispatched dispatching .reading
  | sendFails dispatching => exact kept.dispatched dispatching .finishing
  | reads reading =>
    cases kept.calls _ _ nofun reading with
    | reading serving => exact kept.callMoves (.finishing serving)
  | abandons abandoning =>
    cases kept.calls _ _ nofun abandoning with
    | abandoning opened =>
      obtain ⟨side, at_fd⟩ := opened.opened _ List.mem_cons_self
      exact ((kept.begin _).closeFd at_fd (.inl rfl)).callRests (.abandoning opened.closeFd)
  | closesWrite closing =>
    cases kept.calls _ _ nofun closing with
    | closingWrite handles read write =>
      exact ((kept.begin _).closeFd write (.inr ⟨_, _, _, rfl, handles, rfl⟩)).callRests
        (.reading (.inline (handles.closeFd_child write rfl)
          (read.closeFd (read.fd_ne write (.inl nofun)))))
  | closes finishing => exact kept.closes finishing
  | gaveUp => exact kept.callMoves .returned
  | waits finished => exact kept.waits finished
  | childCloses here closed =>
    obtain ⟨pid, reaped, handle⟩ := closeNext_same closed
    exact kept.setChild here pid reaped handle
  | acts here acted =>
    obtain ⟨pid, reaped, handle⟩ := act_same acted
    exact kept.setChild here pid reaped handle

theorem start_wired (mspace : Bool) (target : Nat) : (start mspace target : Procs t).Wired none where
  table := ⟨by simp [start], by simp [start]⟩
  onePid := by simp [OnePid, start]
  uses := ⟨by simp [start], by simp [start]⟩
  pool := by simp [start]
  poolOnce := List.nodup_nil
  refill _ := by
    simp only [start]
    split
    · exact .waiting
    · exact .absent
  calls := by simp [start]

end Procs
end RlboxDynamic.PoolDescriptors
