import RlboxDynamic.PoolDescriptors

/-! What one step of the system makes of each forked child. -/
namespace RlboxDynamic.PoolDescriptors
open Transition

namespace Forked
variable {t : Target}

/-- The shim does nothing to a child's descriptors, and nothing to where it is. -/
structure SameRun (f f' : Forked t) : Prop where
  pid : f'.pid = f.pid
  descriptors : f'.descriptors = f.descriptors
  closes : f'.closes = f.closes
  calls : f'.calls = f.calls
  phase : f'.child.phase = f.child.phase
  wrote : f'.child.wrote = f.child.wrote
  reaped : f'.reaped = f.reaped
  handle : f.handle <+: f'.handle
  inbox : f'.child.inbox = f.child.inbox ∨ .sent ∈ f'.handle

/-- A child after a step, against the child before. -/
inductive Evolves (env : ShimEnv t) (f f' : Forked t) : Prop where
  | same (run : f.SameRun f')
  | waited (gone : f.child.phase = .gone)
      (done : f' = { f with reaped := true, handle := f.handle ++ [.waited] })
  | closes (done : f.closeNext = some f')
  | acts (action : ChildAction t) (done : f.act env action = some f')

/-- A child that a fork has just made, with a copy of the shim's descriptors. -/
structure JustForked (shim : Descriptors) (f : Forked t) : Prop where
  descriptors : f.descriptors = shim
  unreaped : f.reaped = false
  uncalled : f.calls = 0
  unwritten : f.child.wrote = none
  running : f.child.phase ≠ .gone
  idle : (f.child.inbox = none ∧ f.child.phase = .readingJob) ∨ ∃ r, f.handle = [.inlineFor r]

theorem sameRun_refl (f : Forked t) : f.SameRun f := 
  ⟨rfl, rfl, rfl, rfl, rfl, rfl, rfl, List.prefix_rfl, .inl rfl⟩

theorem sameRun_note (event : HandleEvent) (f : Forked t) : f.SameRun (f.note event) :=
  ⟨rfl, rfl, rfl, rfl, rfl, rfl, rfl, List.prefix_append _ _, .inl rfl⟩

theorem sameRun_noteNamed (pid : Pid) (event : HandleEvent) (f : Forked t) :
    f.SameRun (f.noteNamed pid event) := by
  unfold noteNamed
  split
  · exact f.sameRun_note event
  · exact f.sameRun_refl

theorem sameRun_submit (job : Job t) (f : Forked t) : f.SameRun (f.submit job) := by
  have deliver : (f.child.deliver job).phase = f.child.phase ∧
      (f.child.deliver job).wrote = f.child.wrote := by
    unfold Child.deliver
    split <;> exact ⟨rfl, rfl⟩
  exact ⟨rfl, rfl, rfl, rfl, deliver.1, deliver.2, rfl, List.prefix_append _ _, .inr (by simp [submit])⟩

end Forked

namespace Procs
variable {t : Target} {env : ShimEnv t} {s s' : Procs t} {a : Action t} {f' : Forked t} {k : Nat}

theorem closeNext_same {f f' : Forked t} (done : f.closeNext = some f') :
    f'.pid = f.pid ∧ f'.reaped = f.reaped ∧ f'.handle = f.handle := by
  unfold Forked.closeNext at done
  split at done
  next => cases done
  next =>
    split at done
    next => cases done
    next => cases done; exact ⟨rfl, rfl, rfl⟩

theorem act_same {f f' : Forked t} (done : f.act env action = some f') :
    f'.pid = f.pid ∧ f'.reaped = f.reaped ∧ f'.handle = f.handle := by
  unfold Forked.act at done
  split at done
  next =>
    obtain ⟨child, -, rfl⟩ := Option.map_eq_some_iff.mp done
    exact ⟨rfl, rfl, rfl⟩
  next => cases done

/-- Every child of before, at its place. -/
def SameRuns (s s' : Procs t) : Prop :=
  ∀ (k : Nat) f', s'.forked[k]? = some f' → ∃ f : Forked t, s.forked[k]? = some f ∧ f.SameRun f'

theorem sameRuns_of_eq (forked : s'.forked = s.forked) : s.SameRuns s' := by
  intro k f' here
  rw [forked] at here
  exact ⟨f', here, f'.sameRun_refl⟩

theorem sameRuns_map {change : Forked t → Forked t} (forked : s'.forked = s.forked.map change)
    (same : ∀ f : Forked t, f.SameRun (change f)) : s.SameRuns s' := by
  intro k f' here
  rw [forked, List.getElem?_map] at here
  obtain ⟨f, before, rfl⟩ := Option.map_eq_some_iff.mp here
  exact ⟨f, before, same f⟩

theorem sameRuns_modify {change : Forked t → Forked t} (forked : s'.forked = s.forked.modify j change)
    (same : ∀ f : Forked t, f.SameRun (change f)) : s.SameRuns s' := by
  intro k f' here
  rw [forked, List.getElem?_modify] at here
  obtain ⟨f, before, rfl⟩ := Option.map_eq_some_iff.mp here
  refine ⟨f, before, ?_⟩
  split
  · exact same f
  · exact f.sameRun_refl

theorem sameRuns_closeFd (fd : Fd) : s.SameRuns (s.closeFd fd) := by
  unfold Procs.closeFd noteClosed
  split
  next => exact sameRuns_of_eq rfl
  next =>
    split
    next k event _ => exact sameRuns_modify rfl (Forked.sameRun_note event)
    next => exact sameRuns_of_eq rfl

theorem sameRuns_submit (fd : Fd) (job : Job t) : s.SameRuns (s.submit fd job) := by
  unfold Procs.submit
  split
  next =>
    split
    next => exact sameRuns_modify rfl (Forked.sameRun_submit job)
    next => exact sameRuns_of_eq rfl
  next => exact sameRuns_of_eq rfl

/-- A child after a step is new, with a copy of the shim's descriptors, or one
from before. -/
theorem forked_of_step (done : Step env s a s') (here : s'.forked[k]? = some f') :
    (∃ f, s.forked[k]? = some f ∧ f.Evolves env f') ∨
      (k = s.forked.length ∧ f'.JustForked s.descriptors ∧
        ∃ pid, a = .refillFork (some pid) ∨ ∃ r, a = .fork r (some pid)) := by
  have old : s.SameRuns s' → ∃ f, s.forked[k]? = some f ∧ f.Evolves env f' := fun same =>
    let ⟨f, before, run⟩ := same k f' here; ⟨f, before, .same run⟩
  have set : ∀ {i g g'}, s.forked[i]? = some g → g.Evolves env g' → s'.forked = s.forked.set i g' →
      ∃ f, s.forked[k]? = some f ∧ f.Evolves env f' := by
    intro i g g' before evolves forked
    rw [forked, List.getElem?_set] at here
    split at here
    next same =>
      split at here
      next => cases here; exact ⟨g, same ▸ before, evolves⟩
      next => cases here
    next => exact ⟨f', here, .same f'.sameRun_refl⟩
  have append : ∀ {g : Forked t}, s'.forked = s.forked ++ [g] →
      (∃ f, s.forked[k]? = some f ∧ f.Evolves env f') ∨ (k = s.forked.length ∧ f' = g) := by
    intro g forked
    rw [forked, List.getElem?_append] at here
    split at here
    next => exact .inl ⟨f', here, .same f'.sameRun_refl⟩
    next =>
      rw [List.getElem?_singleton] at here
      split at here
      next => cases here; exact .inr ⟨by omega, rfl⟩
      next => cases here
  cases does_of_step done with
  | wakes | sleeps | opensNone | opensOne | opensReq | opensResp | spawnFails =>
    exact .inl (old (sameRuns_of_eq rfl))
  | enters | misses | pipeFails | opensInline | forkFails | reads | gaveUp =>
    exact .inl (old (sameRuns_of_eq rfl))
  | refillCloses => exact .inl (old (sameRuns_closeFd _))
  | abandons => exact .inl (old (sameRuns_closeFd _))
  | closesWrite => exact .inl (old (sameRuns_closeFd _))
  | closes => exact .inl (old (sameRuns_closeFd _))
  | pushes => exact .inl (old (sameRuns_map rfl (Forked.sameRun_noteNamed _ _)))
  | finds => exact .inl (old (sameRuns_map rfl (Forked.sameRun_noteNamed _ _)))
  | waits _ gone =>
    simp only [setCall, Procs.reap, List.getElem?_map] at here
    obtain ⟨f, before, rfl⟩ := Option.map_eq_some_iff.mp here
    refine .inl ⟨f, before, ?_⟩
    unfold Forked.reap
    split
    next name => exact .waited (gone f (List.mem_of_getElem? before) name) rfl
    next => exact .same f.sameRun_refl
  | sends => exact .inl (old (sameRuns_submit _ _))
  | sendFails => exact .inl (old (sameRuns_submit _ _))
  | spawns =>
    refine (append rfl).imp_right ?_
    rintro ⟨at_k, rfl⟩
    exact ⟨at_k, ⟨rfl, rfl, rfl, rfl, nofun, .inl ⟨rfl, rfl⟩⟩, _, .inl rfl⟩
  | forks =>
    refine (append rfl).imp_right ?_
    rintro ⟨at_k, rfl⟩
    exact ⟨at_k, ⟨rfl, rfl, rfl, rfl, nofun, .inr ⟨_, rfl⟩⟩, _, .inr ⟨_, rfl⟩⟩
  | childCloses before closed => exact .inl (set before (.closes closed) rfl)
  | acts before acted => exact .inl (set before (.acts _ acted) rfl)

/-! ## What the children hold -/

/-- The k-th child has a descriptor of this pipe end. -/
def ChildHolds (s : Procs t) (k : Nat) (e : PipeEnd) : Prop :=
  ∃ f fd, s.forked[k]? = some f ∧ f.descriptors.lookup fd = some e

theorem lookup_of_evolves {f : Forked t} (evolves : f.Evolves env f')
    (here : f'.descriptors.lookup fd = some e) : f.descriptors.lookup fd = some e := by
  cases evolves with
  | same run => exact run.descriptors ▸ here
  | waited _ done => subst done; exact here
  | closes done =>
    unfold Forked.closeNext at done
    split at done
    next => cases done
    next =>
      split at done
      next => cases done
      next =>
        cases done
        rw [KeyMap.lookup_erase] at here
        split at here
        next => cases here
        next => exact here
  | acts action done =>
    unfold Forked.act at done
    split at done
    next =>
      obtain ⟨child, -, rfl⟩ := Option.map_eq_some_iff.mp done
      dsimp only at here
      split at here
      next => simp at here
      next => exact here
    next => cases done

/-- A child gets descriptors only with its fork, from the shim. -/
theorem childHolds_of_step (done : Step env s a s') (holds : s'.ChildHolds k e) :
    s.ChildHolds k e ∨ (k = s.forked.length ∧ (∃ fd, s.descriptors.lookup fd = some e) ∧
      ∃ pid, a = .refillFork (some pid) ∨ ∃ r, a = .fork r (some pid)) := by
  obtain ⟨f', fd, here, held⟩ := holds
  rcases forked_of_step done here with ⟨f, before, evolves⟩ | ⟨at_k, new, forks⟩
  · exact .inl ⟨f, fd, before, lookup_of_evolves evolves held⟩
  · exact .inr ⟨at_k, ⟨fd, new.descriptors ▸ held⟩, forks⟩

/-- A child that is gone holds nothing. -/
def GoneHoldNothing (s : Procs t) : Prop :=
  ∀ (k : Nat) f, s.forked[k]? = some f → f.child.phase = .gone → f.descriptors = ∅

theorem step_goneHoldNothing (kept : s.GoneHoldNothing) (done : Step env s a s') :
    s'.GoneHoldNothing := by
  intro k f' here gone
  rcases forked_of_step done here with ⟨f, before, evolves⟩ | ⟨-, new, -⟩
  · cases evolves with
    | same run => exact run.descriptors.trans (kept k f before (run.phase ▸ gone))
    | waited gone done => subst done; exact kept k f before gone
    | closes done =>
      unfold Forked.closeNext at done
      split at done
      next => cases done
      next =>
        split at done
        next => cases done
        next running => cases done; exact absurd gone running
    | acts action done =>
      unfold Forked.act at done
      split at done
      next =>
        obtain ⟨child, -, rfl⟩ := Option.map_eq_some_iff.mp done
        exact if_pos gone
      next => cases done
  · exact absurd gone new.running

/-- A child that is gone stays so. -/
theorem gone_of_evolves {f : Forked t} (evolves : f.Evolves env f') (gone : f.child.phase = .gone) :
    f'.child.phase = .gone := by
  cases evolves with
  | same run => exact run.phase.trans gone
  | waited _ done => subst done; exact gone
  | closes done =>
    unfold Forked.closeNext at done
    split at done
    next => cases done
    next => rw [if_pos gone] at done; cases done
  | acts action done =>
    unfold Forked.act at done
    split at done
    next =>
      obtain ⟨child, exec, rfl⟩ := Option.map_eq_some_iff.mp done
      cases action <;> simp [Child.exec, gone] at exec
    next => cases done

/-- A child that was waited for is gone. -/
def ReapedGone (s : Procs t) : Prop :=
  ∀ (k : Nat) f, s.forked[k]? = some f → f.reaped = true → f.child.phase = .gone

theorem step_reapedGone (kept : s.ReapedGone) (done : Step env s a s') : s'.ReapedGone := by
  intro k f' here reaped
  rcases forked_of_step done here with ⟨f, before, evolves⟩ | ⟨-, new, -⟩
  · refine gone_of_evolves evolves ?_
    cases evolves with
    | same run => exact kept k f before (run.reaped ▸ reaped)
    | waited gone => exact gone
    | closes closed => exact kept k f before ((closeNext_same closed).2.1 ▸ reaped)
    | acts _ acted => exact kept k f before ((act_same acted).2.1 ▸ reaped)
  · rw [new.unreaped] at reaped
    cases reaped

/-- The system has a process with the pipe end, or has none. -/
theorem held_iff (e : PipeEnd) :
    s.held e = true ↔ (∃ fd, s.descriptors.lookup fd = some e) ∨ ∃ k, s.ChildHolds k e := by
  simp only [held, Bool.or_eq_true, Descriptors.refersTo_iff, List.any_eq_true, ChildHolds]
  constructor
  · rintro (shim | ⟨f, inside, fd, here⟩)
    · exact .inl shim
    · obtain ⟨k, there⟩ := List.mem_iff_getElem?.mp inside
      exact .inr ⟨k, f, fd, there, here⟩
  · rintro (shim | ⟨k, f, fd, there, here⟩)
    · exact .inl shim
    · exact .inr ⟨f, List.mem_of_getElem? there, fd, here⟩

end Procs
end RlboxDynamic.PoolDescriptors
