import RlboxDynamic.RequestReplies

/-! In which order the shim computes what its callers ask. Every request is
computed at one moment between its call and its return, so that all the calls
of any number of threads are those of one of them, made one after the other. -/
namespace RlboxDynamic.RequestChannel
open Transition

/-- One entry of a list comes before another. -/
def Before {α : Type} (xs : List α) (x y : α) : Prop :=
  ∃ i j : Nat, i < j ∧ xs[i]? = some x ∧ xs[j]? = some y

/-- In a list that some measure sorts, the smaller entry comes first. -/
theorem before_of_sorted {α : Type} {f : α → Nat} {xs : List α} {x y : α}
    (sorted : (xs.map f).Pairwise (· < ·)) (first : x ∈ xs) (second : y ∈ xs) (less : f x < f y) :
    Before xs x y := by
  obtain ⟨i, at_x⟩ := List.getElem?_of_mem first
  obtain ⟨j, at_y⟩ := List.getElem?_of_mem second
  refine ⟨i, j, ?_, at_x, at_y⟩
  have measured : ∀ {k z}, xs[k]? = some z → ∃ inside : k < (xs.map f).length,
      (xs.map f).get ⟨k, inside⟩ = f z := by
    intro k z found
    obtain ⟨inside, same⟩ := List.getElem?_eq_some_iff.mp found
    exact ⟨by simpa using inside, by simp [same]⟩
  obtain ⟨inside, same⟩ := measured at_x
  obtain ⟨inside', same'⟩ := measured at_y
  rcases Nat.lt_trichotomy i j with before | rfl | after
  · exact before
  · rw [← same, ← same'] at less
    exact absurd less (Nat.lt_irrefl _)
  · have greater := List.pairwise_iff_get.mp sorted ⟨j, inside'⟩ ⟨i, inside⟩ after
    rw [same, same'] at greater
    omega

/-- The request a thread waits for or has the reply to. -/
def HostThread.written : HostThread → Option Call
  | .awaiting call | .replied call _ => some call
  | .idle | .entering _ | .sending _ | .closed _ => none

namespace Channel
variable {t : Target} {A : Allocator t} {env : ServerEnv t} {s s' : Channel A} {a : Action A}
  {tid : ThreadId} {call : Call}

/-! ## What one step writes and computes -/

/-- A request gets to a thread when that thread writes it, in the next place. -/
theorem step_threads (done : Step env s a s') (held : (s'.threads tid).written = some call) :
    (s.threads tid).written = some call ∨
      a = .write tid ∧ call.place = s.written ∧ s'.written = s.written + 1 := by
  have elsewhere : ∀ {other : ThreadId} {th : HostThread}, th.written = none →
      (Function.update s.threads other th tid).written = some call →
      (s.threads tid).written = some call := by
    intro other th nothing held
    rw [Function.update_apply] at held
    split at held
    · cases nothing.symm.trans held
    · exact held
  cases does_of_step env done with
  | calls | locks | lockFinds | writeFails | readFails => exact .inl (elsewhere rfl held)
  | @writes other request =>
    change (Function.update s.threads other _ tid).written = some call at held
    rw [Function.update_apply] at held
    split at held
    · rename_i own
      subst own
      cases held
      exact .inr ⟨rfl, rfl, rfl⟩
    · exact .inl held
  | @reads other own _ _ _ awaiting =>
    change (Function.update s.threads other _ tid).written = some call at held
    rw [Function.update_apply] at held
    split at held
    · rename_i same
      subst same
      cases held
      exact .inl (by rw [awaiting]; rfl)
    · exact .inl held
  | _ => exact .inl held

theorem step_written (done : Step env s a s') : s.written ≤ s'.written := by
  cases does_of_step env done with
  | writes => exact Nat.le_succ _
  | _ => exact Nat.le_refl _

theorem step_computed (done : Step env s a s') : s.computed <+: s'.computed := by
  cases does_of_step env done with
  | handles => exact List.prefix_append _ _
  | _ => exact List.prefix_rfl

/-! ## The order of the computed requests -/

/-- Requests are computed in the order of their places, and those under way come
after all that are. -/
structure Ordered (s : Channel A) : Prop where
  sorted : (s.computed.map fun p => p.1.place).Pairwise (· < ·)
  ahead : ∀ call ∈ s.loop.unanswered ++ s.toShim, ∀ p ∈ s.computed, p.1.place < call.place

theorem start_ordered (process : ShimProcess A) : (start process).Ordered where
  sorted := by simp [start]
  ahead := by simp [start]

/-- A step that computes nothing keeps the order, if it puts no other request
under way. -/
theorem Ordered.of_fewer (kept : s.Ordered) (computed : s'.computed = s.computed)
    (fewer : ∀ call ∈ s'.loop.unanswered ++ s'.toShim, call ∈ s.loop.unanswered ++ s.toShim) :
    s'.Ordered where
  sorted := by rw [computed]; exact kept.sorted
  ahead call under_way := by rw [computed]; exact kept.ahead call (fewer call under_way)

theorem Ordered.handles (kept : s.Ordered) (wired : s.Wired)
    (handling : s.loop = .handling out reader call) (memory : ShimProcess A) :
    ({ s with
        loop := .replying out reader call result, process := memory
        computed := s.computed ++ [(call, result)] } : Channel A).Ordered := by
  have own := kept.ahead call (by simp [handling, RequestLoop.unanswered])
  -- the request being handled is all that is under way
  have others : s.toShim = [] := by
    have short := wired.short
    simp only [pipeline, RequestLoop.carried, handling, List.length_append, List.length_singleton] at short
    exact List.length_eq_zero_iff.mp (by omega)
  refine ⟨?_, by simp [RequestLoop.unanswered, others]⟩
  rw [List.map_append, List.pairwise_append]
  refine ⟨kept.sorted, List.pairwise_singleton _ _, fun place before other last => ?_⟩
  obtain ⟨p, recorded, rfl⟩ := List.mem_map.mp before
  cases List.mem_singleton.mp last
  exact own p recorded

theorem step_ordered (wired : s.Wired) (recorded : s.Recorded) (kept : s.Ordered)
    (done : Step env s a s') : s'.Ordered := by
  cases does_of_step env done with
  | calls | locks | lockFinds | writeFails | reads | readFails | destroys | moves =>
    exact kept.of_fewer rfl fun _ inside => inside
  | @writes tid request =>
    refine ⟨kept.sorted, fun call under_way p inside => ?_⟩
    rw [← List.append_assoc] at under_way
    rcases List.mem_append.mp under_way with before | new
    · exact kept.ahead call before p inside
    · cases List.mem_singleton.mp new
      exact recorded.placed p inside
  | builds top =>
    refine kept.of_fewer rfl fun call inside => ?_
    rw [top]
    exact inside
  | receives receiving next =>
    refine kept.of_fewer rfl fun call inside => ?_
    rw [receiving, next]
    exact inside
  | handles handling => exact kept.handles wired handling _
  | replies | replyFails | ends | throws | exits =>
    exact kept.of_fewer rfl fun _ inside => List.mem_append_right _ inside

/-! ## Whose requests they are -/

/-- No two threads have the same request. -/
structure Apart (s : Channel A) : Prop where
  behind : ∀ tid call, (s.threads tid).written = some call → call.place < s.written
  distinct : ∀ one other call call', (s.threads one).written = some call →
    (s.threads other).written = some call' → call.place = call'.place → one = other

theorem start_apart (process : ShimProcess A) : (start process).Apart where
  behind _ _ held := by cases held
  distinct _ _ _ _ held := by cases held

theorem step_apart (kept : s.Apart) (done : Step env s a s') : s'.Apart := by
  have more := step_written done
  refine ⟨fun tid call held => ?_, fun one other call call' held held' same => ?_⟩
  · rcases step_threads done held with old | ⟨-, place, next⟩
    · exact Nat.lt_of_lt_of_le (kept.behind tid call old) more
    · omega
  · rcases step_threads done held with old | ⟨wrote, place, -⟩ <;>
      rcases step_threads done held' with old' | ⟨wrote', place', -⟩
    · exact kept.distinct one other call call' old old' same
    · have earlier := kept.behind one call old
      omega
    · have earlier := kept.behind other call' old'
      omega
    · cases wrote.symm.trans wrote'
      rfl

/-- The channel with the order of its requests. -/
structure InOrder (s : Channel A) : Prop extends Sound s, Ordered s, Apart s

theorem start_inOrder (process : ShimProcess A) : (start process).InOrder :=
  ⟨⟨start_wired process, start_recorded process, start_returned process⟩, start_ordered process,
    start_apart process⟩

theorem run_inOrder {ls : List (Action A)} (kept : s.InOrder) (run : Run (Step env) s ls s') :
    s'.InOrder := by
  refine run.invariant kept fun s a s' kept done => ?_
  exact ⟨⟨step_wired kept.toWired done, step_recorded kept.toWired kept.toRecorded done,
    step_returned kept.toWired kept.toRecorded kept.toReturned done⟩,
    step_ordered kept.toWired kept.toRecorded kept.toOrdered done, step_apart kept.toApart done⟩

theorem run_computed {ls : List (Action A)} (run : Run (Step env) s ls s') :
    s.computed <+: s'.computed := by
  induction run with
  | nil => exact List.prefix_rfl
  | cons first _ ih => exact (step_computed first).trans ih

theorem run_written {ls : List (Action A)} (run : Run (Step env) s ls s') :
    s.written ≤ s'.written := by
  induction run with
  | nil => exact Nat.le_refl _
  | cons first _ ih => exact Nat.le_trans (step_written first) ih

/-- What a thread writes from some moment on has the places from there. -/
theorem run_later {ls : List (Action A)} {from_place : Nat} (run : Run (Step env) s ls s')
    (later : from_place ≤ s.written)
    (none : ∀ call, (s.threads tid).written = some call → from_place ≤ call.place) :
    ∀ call, (s'.threads tid).written = some call → from_place ≤ call.place := by
  induction run with
  | nil => exact none
  | cons first _ ih =>
    refine ih (Nat.le_trans later (step_written first)) fun call held => ?_
    rcases step_threads first held with old | ⟨-, place, -⟩
    · exact none call old
    · omega

/-- A place that is taken is not written again. -/
theorem run_aside {ls : List (Action A)} {place : Nat} (run : Run (Step env) s ls s')
    (taken : place < s.written)
    (aside : ∀ call, (s.threads tid).written = some call → call.place ≠ place) :
    ∀ call, (s'.threads tid).written = some call → call.place ≠ place := by
  induction run with
  | nil => exact aside
  | cons first _ ih =>
    refine ih (Nat.lt_of_lt_of_le taken (step_written first)) fun call held => ?_
    rcases step_threads first held with old | ⟨-, own, -⟩
    · exact aside call old
    · omega

/-- A thread that has the reply of a place later has it for the same call. -/
theorem place_of_one_call {other : ThreadId} {between : List (Action A)} {call' : Call}
    {result result' : BitVec 64} (kept : s.Apart) (replied : s.threads tid = .replied call result)
    (run : Run (Step env) s between s') (replied' : s'.threads other = .replied call' result')
    (same : call.place = call'.place) :
    tid = other ∧ ∀ request, .call tid request ∉ between := by
  have held : (s.threads tid).written = some call := by rw [replied]; rfl
  have held' : (s'.threads other).written = some call' := by rw [replied']; rfl
  have taken : call.place < s.written := kept.behind tid call held
  have own : tid = other := by
    by_contra apart
    refine run_aside run taken (fun c wrote together => ?_) call' held' same.symm
    exact apart (kept.distinct tid other call c held wrote together.symm)
  refine ⟨own, fun request again => ?_⟩
  subst own
  obtain ⟨before, after, rfl⟩ := List.append_of_mem again
  obtain ⟨u, pause, rest⟩ := run.split
  cases rest with
  | cons called second =>
    have opened : call.place < _ :=
      Nat.lt_of_lt_of_le taken (Nat.le_trans (run_written pause) (step_written called))
    refine run_aside second opened (fun c wrote => ?_) call' held' same.symm
    cases does_of_step env called with
    | calls => simp [HostThread.written] at wrote

end Channel
end RlboxDynamic.RequestChannel

namespace RlboxDynamic
open Transition RequestChannel Channel

/-- The calls of all threads are in one order: every reply is the result of one
computation of its own request, a place's reply is returned to one call only,
and a call that returned before another was made is computed before it. -/
theorem calls_linearize {A : Allocator t} (env : ServerEnv t) (process : ShimProcess A) :
    (∀ s, Reachable (Step env) (start process) s →
      (s.computed.map fun p => p.1.place).Pairwise (· < ·) ∧
      ∀ one call result, s.threads one = .replied call result → (call, result) ∈ s.computed) ∧
    (∀ before s between v one other call result call' result',
      Run (Step env) (start process) before s → s.threads one = .replied call result →
      Run (Step env) s between v → v.threads other = .replied call' result' →
      call.place = call'.place → one = other ∧ ∀ request, .call one request ∉ between) ∧
    ∀ before s between u request made after v one other call result call' result',
      Run (Step env) (start process) before s → s.threads one = .replied call result →
      Run (Step env) s between u → Step env u (.call other request) made →
      Run (Step env) made after v → v.threads other = .replied call' result' →
      Before v.computed (call, result) (call', result') := by
  refine ⟨?_, ?_, ?_⟩
  · rintro s ⟨ls, run⟩
    have kept := run_inOrder (start_inOrder process) run
    exact ⟨kept.sorted, fun one call result replied => kept.replied one call result replied⟩
  · intro before s between v one other call result call' result' first replied rest replied' same
    exact place_of_one_call (run_inOrder (start_inOrder process) first).toApart replied rest replied'
      same
  · intro before s between u request made after v one other call result call' result'
      first replied pause called second replied'
    have early := run_inOrder (start_inOrder process) first
    have late := run_inOrder (run_inOrder early (pause.append (.single called))) second
    -- the first call is in its place before the second is made
    have placed : call.place < s.written := early.behind one call (by rw [replied]; rfl)
    have opened : s.written ≤ made.written :=
      Nat.le_trans (run_written pause) (step_written called)
    have none_yet : (made.threads other).written = none := by
      cases does_of_step env called with
      | calls => simp [HostThread.written]
    have after_it : made.written ≤ call'.place :=
      run_later second (Nat.le_refl _) (fun own held => by rw [none_yet] at held; cases held) call'
        (by rw [replied']; rfl)
    have grown : s.computed <+: v.computed :=
      (run_computed pause).trans ((step_computed called).trans (run_computed second))
    refine before_of_sorted late.sorted (grown.subset (early.replied one call result replied))
      (late.replied other call' result' replied') ?_
    exact Nat.lt_of_lt_of_le placed (Nat.le_trans opened after_it)

/-- One call of a thread, from the loop's top to its return. -/
def wholeCall (tid : ThreadId) : List (Action firstFit) :=
  [.lock tid, .write tid, .build, .receive, .handle 0, .reply, .read tid]

/-- A thread allocates, and then another. -/
theorem allocations_in_order : ∃ (v : Channel firstFit) (result result' : BitVec 64),
    v.threads 0 = .replied ⟨0, .allocate 8⟩ result ∧ v.threads 1 = .replied ⟨1, .allocate 24⟩ result' ∧
      Before v.computed (⟨0, .allocate 8⟩, result) (⟨1, .allocate 24⟩, result') := by
  have ran : (execAll (exec serverEnv) (start ⟨([] : List (Nat × Nat)), none⟩)
      (.call 0 (.allocate 8) :: wholeCall 0)).isSome := rfl
  obtain ⟨s, first⟩ := Option.isSome_iff_exists.mp ran
  have ran' : ((execAll (exec serverEnv) s [.call 1 (.allocate 24)]).bind
      (execAll (exec serverEnv) · (wholeCall 1))).isSome := by
    cases first
    rfl
  obtain ⟨v, second⟩ := Option.isSome_iff_exists.mp ran'
  obtain ⟨made, called, rest⟩ := Option.bind_eq_some_iff.mp second
  have replied : ∃ result, s.threads 0 = .replied ⟨0, .allocate 8⟩ result ∧
      v.threads 0 = .replied ⟨0, .allocate 8⟩ result := by
    cases first
    cases called
    cases rest
    exact ⟨_, rfl, rfl⟩
  have replied' : ∃ result', v.threads 1 = .replied ⟨1, .allocate 24⟩ result' := by
    cases first
    cases called
    cases rest
    exact ⟨_, rfl⟩
  obtain ⟨result, early, still⟩ := replied
  obtain ⟨result', late⟩ := replied'
  obtain ⟨_, step, rfl⟩ : ∃ next, exec serverEnv s (.call 1 (.allocate 24)) = some next ∧ next = made := by
    simpa [execAll] using called
  refine ⟨v, result, result', still, late, ?_⟩
  exact (calls_linearize serverEnv _).2.2 _ s [] s _ _ _ v 0 1 _ _ _ _ (run_of_execAll first) early .nil
    step (run_of_execAll rest) late

end RlboxDynamic
