import RlboxDynamic.PoolDescriptors

/-! What the threads of the shim keep of descriptors and children, and what each
system call leaves as it is. -/
namespace RlboxDynamic.PoolDescriptors
open Transition

namespace Procs
variable {t : Target} {env : ShimEnv t} {s s' : Procs t} {a : Action t}

/-- The shim's descriptor is of one end of a pipe in this use. -/
def EndAt (s : Procs t) (fd : Fd) (side : Side) (use : PipeUse) : Prop :=
  ∃ p, s.descriptors.lookup fd = some ⟨p, side⟩ ∧ s.pipes[p]? = some use

/-- The k-th child has the pid, nobody has waited for it, and this is what the
shim has done with it. -/
def Handles (s : Procs t) (k : Nat) (pid : Pid) (handle : List HandleEvent) : Prop :=
  ∃ f, s.forked[k]? = some f ∧ f.Named pid ∧ f.handle = handle

/-- A child and the shim's descriptors for it stay as they are. -/
structure Untouched (s s' : Procs t) (k : Nat) : Prop where
  handles : ∀ {pid handle}, s.Handles k pid handle → s'.Handles k pid handle
  jobs : ∀ {fd side}, s.EndAt fd side (.jobs k) → s'.EndAt fd side (.jobs k)
  results : ∀ {fd side}, s.EndAt fd side (.results k) → s'.EndAt fd side (.results k)

/-- The descriptors of pipes a thread has opened and not yet used stay too. -/
def KeepsOpened (s s' : Procs t) (thread : Thread) : Prop :=
  ∀ fd e, s.descriptors.lookup fd = some e → s.pipes[e.pipe]? = some (.opened thread) →
    s'.descriptors.lookup fd = some e ∧ s'.pipes[e.pipe]? = some (.opened thread)

theorem EndAt.functional (left : s.EndAt fd side use) (right : s.EndAt fd side' use') :
    side = side' ∧ use = use' := by
  obtain ⟨p, at_p, of_p⟩ := left
  obtain ⟨q, at_q, of_q⟩ := right
  rw [at_p] at at_q
  cases at_q
  rw [of_p] at of_q
  cases of_q
  exact ⟨rfl, rfl⟩

/-- The two descriptors of a pipe. -/
structure PipeAt (s : Procs t) (p : Pipe) (use : PipeUse) : Prop where
  used : s.pipes[p.id]? = some use
  read : s.descriptors.lookup p.readFd = some ⟨p.id, .read⟩
  write : s.descriptors.lookup p.writeFd = some ⟨p.id, .write⟩

theorem PipeAt.readEnd (at_p : s.PipeAt p use) : s.EndAt p.readFd .read use := ⟨_, at_p.read, at_p.used⟩

theorem PipeAt.writeEnd (at_p : s.PipeAt p use) : s.EndAt p.writeFd .write use :=
  ⟨_, at_p.write, at_p.used⟩

/-! ## Where the threads keep them -/

/-- A worker with its two descriptors. -/
def WorkerAt (s : Procs t) (w : Worker) (handle : List HandleEvent) : Prop :=
  ∃ k, s.Handles k w.pid handle ∧ s.EndAt w.reqFd .write (.jobs k) ∧
    s.EndAt w.respFd .read (.results k)

/-- Distinct descriptors of pipes that a thread has opened. -/
structure Opened (s : Procs t) (thread : Thread) (fds : List Fd) : Prop where
  distinct : fds.Nodup
  opened : ∀ fd ∈ fds, ∃ side, s.EndAt fd side (.opened thread)

/-- The child's ends of its two pipes, which the refill thread closes. -/
structure ChildEnds (s : Procs t) (k : Nat) (fds : List Fd) : Prop where
  distinct : fds.Nodup
  ends : ∀ fd ∈ fds, s.EndAt fd .read (.jobs k) ∨ s.EndAt fd .write (.results k)

/-- What the refill thread keeps. -/
inductive RefillHolds (s : Procs t) : Spawning → Prop where
  | absent : RefillHolds s .absent
  | waiting : RefillHolds s .waiting
  | spawning : RefillHolds s .spawning
  | opened (req_at : s.PipeAt req (.opened .refill)) : RefillHolds s (.opened req)
  | forking (req_at : s.PipeAt req (.opened .refill)) (resp_at : s.PipeAt resp (.opened .refill))
      (distinct : req.id ≠ resp.id) : RefillHolds s (.forking req resp)
  | abandoning (opened : s.Opened .refill fds) : RefillHolds s (.closing fds none)
  | closing (handles : s.Handles k w.pid []) (req : s.EndAt w.reqFd .write (.jobs k))
      (resp : s.EndAt w.respFd .read (.results k)) (ends : s.ChildEnds k fds) :
      RefillHolds s (.closing fds (some w))

/-- What a call keeps of the child that serves it, with these descriptors left
to close. -/
inductive Serving (s : Procs t) (r : RequestId) : Server → List Fd → Prop where
  | both (handles : s.Handles k w.pid [.pushed, .acquired r, .sent])
      (req : s.EndAt w.reqFd .write (.jobs k)) (resp : s.EndAt w.respFd .read (.results k)) :
      Serving s r (.pooled w) [w.reqFd, w.respFd]
  | resp (handles : s.Handles k w.pid [.pushed, .acquired r, .sent, .closedReq])
      (resp : s.EndAt w.respFd .read (.results k)) : Serving s r (.pooled w) [w.respFd]
  | closed (handles : s.Handles k w.pid [.pushed, .acquired r, .sent, .closedReq, .closedResp]) :
      Serving s r (.pooled w) []
  | inline (handles : s.Handles k pid [.inlineFor r]) (resp : s.EndAt fd .read (.results k)) :
      Serving s r (.inline pid fd) [fd]
  | inlineClosed (handles : s.Handles k pid [.inlineFor r, .closedResp]) :
      Serving s r (.inline pid fd) []

/-- What a call keeps. -/
inductive CallHolds (s : Procs t) (r : RequestId) : Call t → Prop where
  | entered : CallHolds s r (.entered job)
  | piping : CallHolds s r (.piping job)
  | forking (at_p : s.PipeAt p (.opened (.request r))) : CallHolds s r (.forking job p)
  | abandoning (opened : s.Opened (.request r) fds) : CallHolds s r (.abandoning fds)
  | dispatching (worker : s.WorkerAt w [.pushed, .acquired r]) : CallHolds s r (.dispatching w job)
  | closingWrite (handles : s.Handles k pid [.inlineFor r]) (read : s.EndAt respFd .read (.results k))
      (write : s.EndAt fd .write (.results k)) : CallHolds s r (.closingWrite fd (.inline pid respFd))
  | reading (serving : s.Serving r server server.fds) : CallHolds s r (.reading server)
  | finishing (serving : s.Serving r server fds) : CallHolds s r (.finishing server fds result)
  | returned : CallHolds s r (.returned result)

/-- The thread that keeps a child the shim has done this with. The pool keeps
those of no thread. -/
def holder : List HandleEvent → Option Thread
  | [] => some .refill
  | .inlineFor r :: _ | .pushed :: .acquired r :: _ => some (.request r)
  | _ => none

/-! Each of these is kept by a step that leaves its children and its opened
pipes as they are. -/

theorem PipeAt.keep (at_p : s.PipeAt p (.opened thread)) (still : s.KeepsOpened s' thread) :
    s'.PipeAt p (.opened thread) where
  used := (still _ _ at_p.read at_p.used).2
  read := (still _ _ at_p.read at_p.used).1
  write := (still _ _ at_p.write at_p.used).1

theorem Opened.keep (opened : s.Opened thread fds) (still : s.KeepsOpened s' thread) :
    s'.Opened thread fds where
  distinct := opened.distinct
  opened fd inside := by
    obtain ⟨side, p, here, used⟩ := opened.opened fd inside
    obtain ⟨here, used⟩ := still fd _ here used
    exact ⟨side, p, here, used⟩

theorem WorkerAt.keep (worker : s.WorkerAt w handle)
    (same : ∀ k, s.Handles k w.pid handle → s.Untouched s' k) : s'.WorkerAt w handle := by
  obtain ⟨k, handles, req, resp⟩ := worker
  have still := same k handles
  exact ⟨k, still.handles handles, still.jobs req, still.results resp⟩

theorem ChildEnds.keep (ends : s.ChildEnds k fds) (same : s.Untouched s' k) : s'.ChildEnds k fds where
  distinct := ends.distinct
  ends fd inside := (ends.ends fd inside).imp same.jobs same.results

theorem RefillHolds.keep (holds : s.RefillHolds q) (opened : s.KeepsOpened s' .refill)
    (same : ∀ k pid, s.Handles k pid [] → s.Untouched s' k) : s'.RefillHolds q := by
  cases holds with
  | absent => exact .absent
  | waiting => exact .waiting
  | spawning => exact .spawning
  | opened req_at => exact .opened (req_at.keep opened)
  | forking req_at resp_at distinct => exact .forking (req_at.keep opened) (resp_at.keep opened) distinct
  | abandoning fds => exact .abandoning (fds.keep opened)
  | closing handles req resp ends =>
    have still := same _ _ handles
    exact .closing (still.handles handles) (still.jobs req) (still.results resp) (ends.keep still)

theorem Serving.keep (serving : s.Serving r server fds)
    (same : ∀ k pid handle, s.Handles k pid handle → holder handle = some (.request r) →
      s.Untouched s' k) :
    s'.Serving r server fds := by
  cases serving with
  | both handles req resp =>
    have still := same _ _ _ handles rfl
    exact .both (still.handles handles) (still.jobs req) (still.results resp)
  | resp handles resp =>
    have still := same _ _ _ handles rfl
    exact .resp (still.handles handles) (still.results resp)
  | closed handles => exact .closed ((same _ _ _ handles rfl).handles handles)
  | inline handles resp =>
    have still := same _ _ _ handles rfl
    exact .inline (still.handles handles) (still.results resp)
  | inlineClosed handles => exact .inlineClosed ((same _ _ _ handles rfl).handles handles)

theorem CallHolds.keep (holds : s.CallHolds r q) (opened : s.KeepsOpened s' (.request r))
    (same : ∀ k pid handle, s.Handles k pid handle → holder handle = some (.request r) →
      s.Untouched s' k) :
    s'.CallHolds r q := by
  cases holds with
  | entered => exact .entered
  | piping => exact .piping
  | forking at_p => exact .forking (at_p.keep opened)
  | abandoning fds => exact .abandoning (fds.keep opened)
  | dispatching worker =>
    exact .dispatching (worker.keep fun k handles => same k _ _ handles rfl)
  | closingWrite handles read write =>
    have still := same _ _ _ handles rfl
    exact .closingWrite (still.handles handles) (still.results read) (still.results write)
  | reading serving => exact .reading (serving.keep same)
  | finishing serving => exact .finishing (serving.keep same)
  | returned => exact .returned

/-! ## What each system call leaves as it is -/

theorem untouched_of_eq (descriptors : s'.descriptors = s.descriptors) (pipes : s'.pipes = s.pipes)
    (forked : s'.forked = s.forked) (k : Nat) : s.Untouched s' k := by
  constructor <;> simp only [Handles, EndAt, descriptors, pipes, forked, imp_self, implies_true]

theorem keepsOpened_of_eq (descriptors : s'.descriptors = s.descriptors) (pipes : s'.pipes = s.pipes)
    (thread : Thread) : s.KeepsOpened s' thread := by
  intro fd e here used
  rw [descriptors, pipes]
  exact ⟨here, used⟩

theorem untouched_refill (q : Spawning) (k : Nat) : s.Untouched { s with refill := q } k := by
  apply untouched_of_eq <;> rfl

theorem untouched_setCall (r : RequestId) (q : Call t) (k : Nat) : s.Untouched (s.setCall r q) k := by
  apply untouched_of_eq <;> rfl

/-- Every descriptor of the shim is of a pipe there is, and none is a second one
of its pipe end. -/
structure Table (s : Procs t) : Prop where
  named : ∀ fd e, s.descriptors.lookup fd = some e → e.pipe < s.pipes.length
  once : ∀ fd fd' e, s.descriptors.lookup fd = some e → s.descriptors.lookup fd' = some e → fd = fd'

section
variable {fds : Fd × Fd}

theorem lookup_openPipe (fd : Fd) :
    (s.openPipe thread fds).descriptors.lookup fd =
      if fd = fds.2 then some ⟨s.pipes.length, .write⟩
      else if fd = fds.1 then some ⟨s.pipes.length, .read⟩
      else s.descriptors.lookup fd := by
  rw [openPipe, KeyMap.lookup_insert, KeyMap.lookup_insert]

theorem lookup_openPipe_of_some (free : s.Free fds) (here : s.descriptors.lookup fd = some e) :
    (s.openPipe thread fds).descriptors.lookup fd = some e := by
  rw [lookup_openPipe, if_neg, if_neg, here]
  · rintro rfl
    rw [free.2.1] at here
    cases here
  · rintro rfl
    rw [free.2.2] at here
    cases here

theorem pipes_openPipe_of_some {p : Nat} (used : s.pipes[p]? = some use) :
    (s.openPipe thread fds).pipes[p]? = some use :=
  List.getElem?_append_left (List.getElem?_eq_some_iff.mp used).1 ▸ used

theorem untouched_openPipe (free : s.Free fds) (k : Nat) : s.Untouched (s.openPipe thread fds) k := by
  have ends : ∀ {fd side use}, s.EndAt fd side use → (s.openPipe thread fds).EndAt fd side use :=
    fun ⟨p, here, used⟩ => ⟨p, lookup_openPipe_of_some free here, pipes_openPipe_of_some used⟩
  exact ⟨id, ends, ends⟩

theorem keepsOpened_openPipe (free : s.Free fds) (thread' : Thread) :
    s.KeepsOpened (s.openPipe thread fds) thread' :=
  fun _ _ here used => ⟨lookup_openPipe_of_some free here, pipes_openPipe_of_some used⟩

theorem newPipe_at (free : s.Free fds) :
    (s.openPipe thread fds).PipeAt (s.newPipe fds) (.opened thread) where
  used := by simp [openPipe, newPipe]
  read := by rw [lookup_openPipe, newPipe, if_neg free.1, if_pos rfl]
  write := by rw [lookup_openPipe, newPipe, if_pos rfl]

end

theorem handles_append (handles : s.Handles k pid handle) (more : List (Forked t))
    (forked : s'.forked = s.forked ++ more) : s'.Handles k pid handle := by
  obtain ⟨f, here, named, same⟩ := handles
  refine ⟨f, ?_, named, same⟩
  rw [forked, List.getElem?_append_left (List.getElem?_eq_some_iff.mp here).1, here]

/-- A fork gives pipes that were only opened their use. -/
theorem untouched_fork (descriptors : s'.descriptors = s.descriptors)
    (forked : s'.forked = s.forked ++ more)
    (pipes : ∀ p : Nat, (∀ thread, s.pipes[p]? ≠ some (.opened thread)) → s'.pipes[p]? = s.pipes[p]?)
    (k : Nat) : s.Untouched s' k where
  handles handles := handles_append handles more forked
  jobs := by
    rintro fd side ⟨p, here, used⟩
    exact ⟨p, descriptors ▸ here, (pipes p (by simp [used])).trans used⟩
  results := by
    rintro fd side ⟨p, here, used⟩
    exact ⟨p, descriptors ▸ here, (pipes p (by simp [used])).trans used⟩

theorem pipes_forkWorker (p : Nat) :
    (s.forkWorker pid req resp).pipes[p]? =
      if p = resp.id ∧ p < s.pipes.length then some (.results s.forked.length)
      else if p = req.id ∧ p < s.pipes.length then some (.jobs s.forked.length)
      else s.pipes[p]? := by
  simp only [forkWorker, List.getElem?_set, List.length_set]
  grind

theorem pipes_forkInline (p : Nat) :
    (s.forkInline pid r job q).pipes[p]? =
      if p = q.id ∧ p < s.pipes.length then some (.results s.forked.length) else s.pipes[p]? := by
  simp only [forkInline, List.getElem?_set]
  grind

theorem lookup_closeFd (fd fd' : Fd) :
    (s.closeFd fd).descriptors.lookup fd' = if fd' = fd then none else s.descriptors.lookup fd' := by
  unfold closeFd
  cases here : s.descriptors.lookup fd with
  | none =>
    by_cases same : fd' = fd
    · rw [if_pos same, same]
      exact here
    · exact (if_neg same).symm
  | some e => exact KeyMap.lookup_erase fd fd' s.descriptors

@[simp] theorem pipes_closeFd (fd : Fd) : (s.closeFd fd).pipes = s.pipes := by
  unfold closeFd
  split <;> rfl

@[simp] theorem refill_closeFd (fd : Fd) : (s.closeFd fd).refill = s.refill := by
  unfold closeFd
  split <;> rfl

@[simp] theorem requests_closeFd (fd : Fd) : (s.closeFd fd).requests = s.requests := by
  unfold closeFd
  split <;> rfl

@[simp] theorem pool_closeFd (fd : Fd) : (s.closeFd fd).pool = s.pool := by
  unfold closeFd
  split <;> rfl

theorem forked_closeFd (at_fd : s.EndAt fd side use) :
    (s.closeFd fd).forked =
      match use.closed side with
      | some (k, event) => s.forked.modify k (·.note event)
      | none => s.forked := by
  obtain ⟨p, here, used⟩ := at_fd
  have closed : (s.closeFd fd).forked = s.noteClosed ⟨p, side⟩ := by rw [closeFd, here]
  rw [closed, noteClosed, used]
  rfl

theorem EndAt.closeFd (at_fd : s.EndAt fd' side use) (other : fd' ≠ fd) :
    (s.closeFd fd).EndAt fd' side use := by
  obtain ⟨p, here, used⟩ := at_fd
  exact ⟨p, by rw [lookup_closeFd, if_neg other, here], by rw [pipes_closeFd, used]⟩

/-- Two descriptors of different ends are different. -/
theorem EndAt.fd_ne (left : s.EndAt fd side use) (right : s.EndAt fd' side' use')
    (different : side ≠ side' ∨ use ≠ use') : fd ≠ fd' := by
  rintro rfl
  obtain ⟨rfl, rfl⟩ := left.functional right
  simp at different

theorem handles_of_getElem? (handles : s.Handles k pid handle)
    (forked : s'.forked[k]? = s.forked[k]?) : s'.Handles k pid handle := by
  obtain ⟨f, here, rest⟩ := handles
  exact ⟨f, forked.trans here, rest⟩

theorem untouched_of_getElem? (descriptors : s'.descriptors = s.descriptors)
    (pipes : s'.pipes = s.pipes) (forked : s'.forked[k]? = s.forked[k]?) : s.Untouched s' k where
  handles handles := handles_of_getElem? handles forked
  jobs := fun ⟨p, here, used⟩ => ⟨p, descriptors ▸ here, pipes ▸ used⟩
  results := fun ⟨p, here, used⟩ => ⟨p, descriptors ▸ here, pipes ▸ used⟩

theorem handles_modify (handles : s.Handles k pid handle) (change : Forked t → Forked t)
    (forked : s'.forked[k]? = s.forked[k]?.map change)
    (named : ∀ f, f.Named pid → (change f).Named pid)
    (noted : ∀ f, f.Named pid → (change f).handle = f.handle ++ events) :
    s'.Handles k pid (handle ++ events) := by
  obtain ⟨f, here, name, rfl⟩ := handles
  exact ⟨change f, by rw [forked, here, Option.map_some], named f name, noted f name⟩

/-- Closing a descriptor that is not for the child. -/
theorem untouched_closeFd (at_fd : s.EndAt fd side use) (jobs : use ≠ .jobs k)
    (results : use ≠ .results k) : s.Untouched (s.closeFd fd) k where
  handles handles := by
    refine handles_of_getElem? handles ?_
    rw [forked_closeFd at_fd]
    split
    next j event closes =>
      have different : j ≠ k := by
        rintro rfl
        cases use <;> cases side <;> simp_all [PipeUse.closed]
      simp [different]
    next => rfl
  jobs ends := ends.closeFd (ends.fd_ne at_fd (.inr jobs.symm))
  results ends := ends.closeFd (ends.fd_ne at_fd (.inr results.symm))

theorem keepsOpened_closeFd (at_fd : s.EndAt fd side use) (other : use ≠ .opened thread) :
    s.KeepsOpened (s.closeFd fd) thread := by
  intro fd' e here used
  have different : fd' ≠ fd := EndAt.fd_ne ⟨e.pipe, here, used⟩ at_fd (.inr (Ne.symm other))
  exact ⟨by rw [lookup_closeFd, if_neg different, here], by rw [pipes_closeFd, used]⟩

theorem Opened.closeFd (opened : s.Opened thread (fd :: fds)) : (s.closeFd fd).Opened thread fds where
  distinct := (List.nodup_cons.mp opened.distinct).2
  opened fd' inside := by
    obtain ⟨side, ends⟩ := opened.opened fd' (List.mem_cons_of_mem _ inside)
    refine ⟨side, ends.closeFd ?_⟩
    rintro rfl
    exact (List.nodup_cons.mp opened.distinct).1 inside

theorem forked_closeFd_child (at_fd : s.EndAt fd side use) (closes : use.closed side = none) :
    (s.closeFd fd).forked = s.forked := by
  rw [forked_closeFd at_fd, closes]

theorem getElem?_closeFd_of_ne (at_fd : s.EndAt fd side use) (closes : use.closed side = some (k, event))
    (other : j ≠ k) : (s.closeFd fd).forked[j]? = s.forked[j]? := by
  rw [forked_closeFd at_fd, closes]
  simp [Ne.symm other]

theorem Handles.closeFd (handles : s.Handles k pid handle) (at_fd : s.EndAt fd side use)
    (closes : use.closed side = some (k, event)) : (s.closeFd fd).Handles k pid (handle ++ [event]) := by
  refine handles_modify handles (.note event) ?_ (fun f name => name) (fun f name => rfl)
  rw [forked_closeFd at_fd, closes]
  simp

theorem Handles.closeFd_child (handles : s.Handles k pid handle) (at_fd : s.EndAt fd side use)
    (closes : use.closed side = none) : (s.closeFd fd).Handles k pid handle := by
  exact handles_of_getElem? handles (by rw [forked_closeFd_child at_fd closes])

/-- No two processes that can be waited for have one pid. -/
def OnePid (s : Procs t) : Prop :=
  ∀ (i j : Nat) pid f g, s.forked[i]? = some f → s.forked[j]? = some g → f.Named pid → g.Named pid → i = j

theorem OnePid.handles (one : s.OnePid) (left : s.Handles i pid handle)
    (right : s.Handles j pid handle') : i = j ∧ handle = handle' := by
  obtain ⟨f, here, name, rfl⟩ := left
  obtain ⟨g, there, name', rfl⟩ := right
  obtain rfl := one i j pid f g here there name name'
  rw [here] at there
  cases there
  exact ⟨rfl, rfl⟩

theorem Handles.functional (left : s.Handles k pid handle) (right : s.Handles k pid' handle') :
    pid = pid' ∧ handle = handle' := by
  obtain ⟨f, here, name, rfl⟩ := left
  obtain ⟨g, there, name', rfl⟩ := right
  rw [here] at there
  cases there
  exact ⟨name.1.symm.trans name'.1, rfl⟩

theorem getElem?_note_of_ne (one : s.OnePid) (at_k : s.Handles k pid handle) (other : j ≠ k) :
    (s.note pid event).forked[j]? = s.forked[j]? := by
  obtain ⟨f, here, name, -⟩ := at_k
  simp only [note, List.getElem?_map]
  cases there : s.forked[j]? with
  | none => rfl
  | some g =>
    have unnamed : ¬ g.Named pid := fun named => other (one j k pid g f there here named name)
    simp [Forked.noteNamed, unnamed]

theorem Handles.note (at_k : s.Handles k pid handle) :
    (s.note pid event).Handles k pid (handle ++ [event]) := by
  refine handles_modify at_k (.noteNamed pid event) ?_ ?_ ?_
  · exact List.getElem?_map
  · intro f name
    rw [Forked.noteNamed, if_pos name]
    exact name
  · intro f name
    rw [Forked.noteNamed, if_pos name]
    rfl

theorem getElem?_reap_of_ne (one : s.OnePid) (at_k : s.Handles k pid handle) (other : j ≠ k) :
    (s.reap pid).forked[j]? = s.forked[j]? := by
  obtain ⟨f, here, name, -⟩ := at_k
  simp only [reap, List.getElem?_map]
  cases there : s.forked[j]? with
  | none => rfl
  | some g =>
    have unnamed : ¬ g.Named pid := fun named => other (one j k pid g f there here named name)
    simp [Forked.reap, unnamed]

theorem submit_eq (at_fd : s.EndAt fd .write (.jobs k)) (job : Job t) :
    s.submit fd job = { s with forked := s.forked.modify k (·.submit job) } := by
  obtain ⟨p, here, used⟩ := at_fd
  simp only [submit, here, used]

/-- A write is nothing to the shim but for its child. -/
theorem exists_submit_eq (fd : Fd) (job : Job t) : ∃ forked, s.submit fd job = { s with forked } := by
  unfold submit
  split
  next => split <;> exact ⟨_, rfl⟩
  next => exact ⟨_, rfl⟩

@[simp] theorem pool_submit (fd : Fd) (job : Job t) : (s.submit fd job).pool = s.pool := by
  obtain ⟨_, same⟩ := s.exists_submit_eq fd job
  rw [same]

@[simp] theorem refill_submit (fd : Fd) (job : Job t) : (s.submit fd job).refill = s.refill := by
  obtain ⟨_, same⟩ := s.exists_submit_eq fd job
  rw [same]

@[simp] theorem requests_submit (fd : Fd) (job : Job t) : (s.submit fd job).requests = s.requests := by
  obtain ⟨_, same⟩ := s.exists_submit_eq fd job
  rw [same]

@[simp] theorem descriptors_submit (fd : Fd) (job : Job t) :
    (s.submit fd job).descriptors = s.descriptors := by
  obtain ⟨_, same⟩ := s.exists_submit_eq fd job
  rw [same]

@[simp] theorem pipes_submit (fd : Fd) (job : Job t) : (s.submit fd job).pipes = s.pipes := by
  obtain ⟨_, same⟩ := s.exists_submit_eq fd job
  rw [same]

theorem getElem?_submit_of_ne (at_fd : s.EndAt fd .write (.jobs k)) (job : Job t) (other : j ≠ k) :
    (s.submit fd job).forked[j]? = s.forked[j]? := by
  rw [submit_eq at_fd]
  simp [Ne.symm other]

theorem Handles.submit (handles : s.Handles k pid handle) (at_fd : s.EndAt fd .write (.jobs k))
    (job : Job t) : (s.submit fd job).Handles k pid (handle ++ [.sent]) := by
  refine handles_modify handles (.submit job) ?_ (fun f name => name) (fun f name => rfl)
  rw [submit_eq at_fd]
  simp

theorem EndAt.submit (ends : s.EndAt fd side use) (at_fd : s.EndAt fd' .write (.jobs k)) (job : Job t) :
    (s.submit fd' job).EndAt fd side use := by
  rw [submit_eq at_fd]
  exact ends

end Procs
end RlboxDynamic.PoolDescriptors
