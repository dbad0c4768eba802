import RlboxDynamic.RequestChannel

/-! Which reply a `capnp_call` gets, and when it gets none. One request at most
is under way, so the first reply is the caller's own; once an exception has
ended the loop, nothing answers and nothing closes the channel. -/
namespace RlboxDynamic.RequestChannel
open Transition

namespace Channel
variable {t : Target} {A : Allocator t} {env : ServerEnv t} {s s' : Channel A} {a : Action A}

/-- The mutex is held by the one thread inside its call, and what is under way
on the channel is that thread's request. -/
structure Wired (s : Channel A) : Prop where
  locked : ∀ tid, (s.threads tid).inCall = true ↔ s.requestMutex = some tid
  short : s.pipeline.length ≤ 1
  waiting : ∀ tid call, s.threads tid = .awaiting call →
    s.pipeline = [call] ∨ (s.loop = .ended ∧ s.pipeline = [])
  quiet : s.IsOpen → (∀ tid call, s.threads tid ≠ .awaiting call) → s.pipeline = []

theorem start_wired (process : ShimProcess A) : (start process).Wired where
  locked := by simp [start]
  short := by simp [start, pipeline, RequestLoop.carried]
  waiting := by simp [start]
  quiet := by simp [start, pipeline, RequestLoop.carried]

@[simp] theorem setThread_threads (s : Channel A) (tid : ThreadId) (th : HostThread) :
    (s.setThread tid th).threads = Function.update s.threads tid th := rfl

@[simp] theorem setThread_requestMutex (s : Channel A) (tid : ThreadId) (th : HostThread) :
    (s.setThread tid th).requestMutex = s.requestMutex := rfl

/-- Two threads are never in their calls at once. -/
theorem Wired.alone (kept : s.Wired) (one : (s.threads tid).inCall = true)
    (other : (s.threads tid').inCall = true) : tid = tid' :=
  Option.some.inj (((kept.locked tid).mp one).symm.trans ((kept.locked tid').mp other))

/-- Nothing is under way while the thread in its call has written nothing. -/
theorem Wired.drained (kept : s.Wired) (sending : s.threads tid = .sending request)
    (up : s.IsOpen) : s.pipeline = [] := by
  refine kept.quiet up fun tid' call awaiting => ?_
  have same : tid = tid' :=
    kept.alone (by simp [sending]) (by simp [awaiting])
  simp [← same, sending] at awaiting

/-- A step of the shim moves the request along, or ends the loop and drops it. -/
theorem Wired.of_shim (kept : s.Wired) (threads : s'.threads = s.threads)
    (mutex : s'.requestMutex = s.requestMutex) (still : s'.IsOpen → s.IsOpen)
    (moved : s'.pipeline = s.pipeline ∧ (s.loop = .ended → s'.loop = .ended) ∨
      s'.loop = .ended ∧ s'.pipeline.Sublist s.pipeline) : s'.Wired where
  locked tid := by rw [threads, mutex]; exact kept.locked tid
  short := by
    rcases moved with ⟨same, -⟩ | ⟨-, dropped⟩
    · rw [same]; exact kept.short
    · exact dropped.length_le.trans kept.short
  waiting tid call awaiting := by
    rw [threads] at awaiting
    rcases moved with ⟨same, finished⟩ | ⟨finished, dropped⟩
    · rw [same]
      exact (kept.waiting tid call awaiting).imp_right fun ended => ⟨finished ended.1, ended.2⟩
    · rcases kept.waiting tid call awaiting with own | ⟨-, empty⟩
      · rw [own] at dropped
        exact (List.sublist_singleton.mp dropped).symm.imp_right fun empty => ⟨finished, empty⟩
      · rw [empty] at dropped
        exact .inr ⟨finished, List.sublist_nil.mp dropped⟩
  quiet up none_waits := by
    rw [threads] at none_waits
    have empty := kept.quiet (still up) none_waits
    rcases moved with ⟨same, -⟩ | ⟨-, dropped⟩
    · rw [same, empty]
    · rw [empty] at dropped; exact List.sublist_nil.mp dropped

/-- A thread outside its call goes elsewhere outside it. -/
theorem Wired.outside (kept : s.Wired) (before : (s.threads tid).inCall = false)
    (after : th.inCall = false) : (s.setThread tid th).Wired where
  locked other := by
    by_cases same : other = tid
    · subst same
      have free := (kept.locked other).not.mp (by simp [before])
      simpa [after] using free
    · simpa [same] using kept.locked other
  short := kept.short
  waiting other call awaiting := by
    by_cases same : other = tid
    · subst same
      obtain rfl : th = .awaiting call := by simpa using awaiting
      simp at after
    · exact kept.waiting other call (by simpa [same] using awaiting)
  quiet up none_waits := by
    refine kept.quiet up fun other call awaiting => ?_
    by_cases same : other = tid
    · subst same; simp [awaiting] at before
    · exact none_waits other call (by simpa [same] using awaiting)

/-- A thread leaves its call, with nothing of its request left under way or the
channel closed. -/
theorem Wired.leave (kept : s.Wired) (inside : (s.threads tid).inCall = true)
    (after : th.inCall = false) (rest : List (Call × BitVec 64))
    (shorter : (rest.map Prod.fst).Sublist (s.toHost.map Prod.fst))
    (empty : s.IsOpen → rest.map Prod.fst ++ s.loop.carried ++ s.toShim = []) :
    ({ (s.setThread tid th).unlock with toHost := rest } : Channel A).Wired where
  locked other := by
    have only := kept.locked other
    by_cases same : other = tid
    · subst same; simpa [unlock] using after
    · rw [(kept.locked tid).mp inside] at only
      have free : (s.threads other).inCall = false := by
        by_contra held
        exact same (Option.some.inj (only.mp (by simpa using held))).symm
      simpa [unlock, same] using free
  short := by
    refine (List.Sublist.length_le ?_).trans kept.short
    exact (shorter.append_right _).append_right _
  waiting other call awaiting := by
    have different : other ≠ tid := by
      rintro rfl
      obtain rfl : th = .awaiting call := by simpa [unlock] using awaiting
      simp at after
    have held : s.threads other = .awaiting call := by simpa [unlock, different] using awaiting
    exact absurd (kept.alone (by simp [held]) inside) different
  quiet up _ := empty up

/-- Ending the loop drops what it carried. -/
theorem Wired.ended (kept : s.Wired) (memory : ShimProcess A) (shimOpen : Bool)
    (still : shimOpen = true → s.shimOpen = true) :
    ({ s with loop := .ended, process := memory, shimOpen } : Channel A).Wired := by
  refine kept.of_shim rfl rfl (fun up => ⟨up.1, still up.2⟩) (.inr ⟨rfl, ?_⟩)
  exact ((List.Sublist.refl _).append (List.nil_sublist _)).append_right _

theorem Wired.locks (kept : s.Wired) (free : s.requestMutex = none) :
    ({ s.setThread tid (.sending request) with requestMutex := some tid } : Channel A).Wired where
  locked other := by
    have outside : (s.threads other).inCall = false := by
      have none_inside := (kept.locked other).not.mpr (by simp [free])
      simpa using none_inside
    by_cases same : other = tid
    · subst same; simp
    · simpa [same, outside] using fun equal => same equal.symm
  short := kept.short
  waiting other call awaiting := by
    by_cases same : other = tid
    · subst same; simp at awaiting
    · exact kept.waiting other call (by simpa [same] using awaiting)
  quiet up none_waits := by
    refine kept.quiet up fun other call awaiting => ?_
    have inside := (kept.locked other).mp (by simp [awaiting])
    simp [free] at inside

theorem Wired.writes (kept : s.Wired) (sending : s.threads tid = .sending request)
    (up : s.IsOpen) :
    ({ s.setThread tid (.awaiting ⟨s.written, request⟩) with
        toShim := s.toShim ++ [⟨s.written, request⟩], written := s.written + 1 } : Channel A).Wired := by
  have inside : (s.threads tid).inCall = true := by simp [sending]
  have under_way : s.toHost.map Prod.fst ++ s.loop.carried ++
      (s.toShim ++ [⟨s.written, request⟩]) = [⟨s.written, request⟩] := by
    rw [← List.append_assoc]
    exact congrArg (· ++ _) (kept.drained sending up)
  constructor
  · intro other
    by_cases same : other = tid
    · subst same; simpa using (kept.locked other).mp inside
    · simpa [same] using kept.locked other
  · exact (congrArg List.length under_way).le
  · intro other call awaiting
    by_cases same : other = tid
    · subst same
      obtain rfl : ⟨s.written, request⟩ = call := by simpa using awaiting
      exact .inl under_way
    · have held : s.threads other = .awaiting call := by simpa [same] using awaiting
      exact absurd (kept.alone (by simp [held]) inside) same
  · intro _ none_waits
    exact absurd (by simp) (none_waits tid ⟨s.written, request⟩)

theorem step_wired (kept : s.Wired) (done : Step env s a s') : s'.Wired := by
  cases does_of_step env done with
  | calls outside => exact kept.outside outside rfl
  | locks free up => exact kept.locks free
  | lockFinds outside down => exact kept.outside outside rfl
  | writes sending up => exact kept.writes sending up
  | writeFails sending down =>
    exact kept.leave (by simp [sending]) rfl s.toHost (.refl _)
      fun up => absurd up down
  | @reads tid call call' result rest awaiting next =>
    refine kept.leave (by simp [awaiting]) rfl rest (by simp [next]) fun _ => ?_
    -- the reply read was all that was under way
    have short := kept.short
    simp only [pipeline, next, List.map_cons, List.cons_append, List.length_cons] at short
    exact List.length_eq_zero_iff.mp (by omega)
  | readFails awaiting down =>
    exact kept.leave (by simp [awaiting]) rfl s.toHost (.refl _)
      fun up => absurd up down
  | destroys => exact kept.of_shim rfl rfl (by simp [IsOpen]) (.inl ⟨rfl, id⟩)
  | builds top =>
    exact kept.of_shim rfl rfl id (.inl ⟨by simp [pipeline, RequestLoop.carried, top], by simp [top]⟩)
  | receives receiving next =>
    exact kept.of_shim rfl rfl id
      (.inl ⟨by simp [pipeline, RequestLoop.carried, receiving, next], by simp [receiving]⟩)
  | handles handling =>
    exact kept.of_shim rfl rfl id
      (.inl ⟨by simp [pipeline, RequestLoop.carried, handling], by simp [handling]⟩)
  | replies replying up =>
    exact kept.of_shim rfl rfl id
      (.inl ⟨by simp [pipeline, RequestLoop.carried, replying], by simp [replying]⟩)
  | replyFails down => exact kept.ended _ s.shimOpen id
  | ends down => exact kept.ended _ s.shimOpen id
  | throws => exact kept.ended _ s.shimOpen id
  | exits => exact kept.ended s.process false (by simp)
  | moves => exact kept.of_shim rfl rfl id (.inl ⟨rfl, id⟩)

/-- Every result on its way was computed for its request, and no request is
computed twice. -/
structure Recorded (s : Channel A) : Prop where
  known : ∀ p ∈ s.toHost ++ s.loop.answer, p ∈ s.computed
  pending : ∀ call ∈ s.loop.unanswered ++ s.toShim,
    call.place < s.written ∧ ∀ p ∈ s.computed, p.1.place ≠ call.place
  placed : ∀ p ∈ s.computed, p.1.place < s.written
  once : (s.computed.map fun p => p.1.place).Nodup

theorem start_recorded (process : ShimProcess A) : (start process).Recorded where
  known := by simp [start, RequestLoop.answer]
  pending := by simp [start, RequestLoop.unanswered]
  placed := by simp [start]
  once := by simp [start]

theorem Recorded.ended (kept : s.Recorded) (memory : ShimProcess A) (shimOpen : Bool) :
    ({ s with loop := .ended, process := memory, shimOpen } : Channel A).Recorded where
  known p inside := kept.known p (List.mem_append_left _ (by simpa [RequestLoop.answer] using inside))
  pending call inside :=
    kept.pending call (List.mem_append_right _ (by simpa [RequestLoop.unanswered] using inside))
  placed := kept.placed
  once := kept.once

theorem Recorded.writes (kept : s.Recorded) :
    ({ s.setThread tid (.awaiting ⟨s.written, request⟩) with
        toShim := s.toShim ++ [⟨s.written, request⟩], written := s.written + 1 } :
      Channel A).Recorded where
  known := kept.known
  pending call inside := by
    rw [← List.append_assoc, List.mem_append, List.mem_singleton] at inside
    rcases inside with before | rfl
    · exact (kept.pending call before).imp_left Nat.lt_succ_of_lt
    · exact ⟨Nat.lt_succ_self _, fun p recorded => (kept.placed p recorded).ne⟩
  placed p recorded := Nat.lt_succ_of_lt (kept.placed p recorded)
  once := kept.once

theorem Recorded.handles (kept : s.Recorded) (wired : s.Wired)
    (handling : s.loop = .handling out reader call) (memory : ShimProcess A) :
    ({ s with
        loop := .replying out reader call result, process := memory
        computed := s.computed ++ [(call, result)] } : Channel A).Recorded := by
  have own := kept.pending call (by simp [handling, RequestLoop.unanswered])
  -- the request being handled is all that is under way
  have others : s.toShim = [] := by
    have short := wired.short
    simp only [pipeline, RequestLoop.carried, handling, List.length_append, List.length_singleton] at short
    exact List.length_eq_zero_iff.mp (by omega)
  constructor
  · intro p inside
    simp only [RequestLoop.answer, List.mem_append] at inside ⊢
    exact inside.imp_left fun sent => kept.known p (List.mem_append_left _ sent)
  · simp [RequestLoop.unanswered, others]
  · intro p recorded
    rcases List.mem_append.mp recorded with before | new
    · exact kept.placed p before
    · rw [List.mem_singleton.mp new]; exact own.1
  · rw [List.map_append, List.nodup_append]
    refine ⟨kept.once, by simp, fun place before other new => ?_⟩
    obtain ⟨p, recorded, rfl⟩ := List.mem_map.mp before
    obtain rfl : other = call.place := by simpa using new
    exact own.2 p recorded

theorem step_recorded (wired : s.Wired) (kept : s.Recorded) (done : Step env s a s') :
    s'.Recorded := by
  cases does_of_step env done with
  | calls | locks | lockFinds | writeFails | readFails | destroys | moves =>
    exact ⟨kept.known, kept.pending, kept.placed, kept.once⟩
  | writes => exact kept.writes
  | reads awaiting next =>
    refine ⟨fun p inside => kept.known p ?_, kept.pending, kept.placed, kept.once⟩
    rw [next]
    exact List.mem_cons_of_mem _ inside
  | builds top =>
    have known := kept.known
    have pending := kept.pending
    rw [top] at known pending
    exact ⟨known, pending, kept.placed, kept.once⟩
  | receives receiving next =>
    have known := kept.known
    have pending := kept.pending
    rw [receiving] at known pending
    rw [next] at pending
    exact ⟨known, pending, kept.placed, kept.once⟩
  | handles handling => exact kept.handles wired handling _
  | replies replying up =>
    have known := kept.known
    have pending := kept.pending
    rw [replying] at known pending
    exact ⟨by simpa [RequestLoop.answer] using known, pending, kept.placed, kept.once⟩
  | replyFails | ends | throws => exact kept.ended _ s.shimOpen
  | exits => exact kept.ended s.process false

/-- What the calls returned so far: the result computed for their own request,
or nothing from a closed channel. -/
structure Returned (s : Channel A) : Prop where
  replied : ∀ tid call result, s.threads tid = .replied call result → (call, result) ∈ s.computed
  closed : ∀ tid request, s.threads tid = .closed request → ¬ s.IsOpen

theorem start_returned (process : ShimProcess A) : (start process).Returned where
  replied := by simp [start]
  closed := by simp [start]

/-- Steps of the shim only add to what it computed and only close its end. -/
theorem Returned.of_shim (kept : s.Returned) (threads : s'.threads = s.threads)
    (more : s.computed ⊆ s'.computed) (still : s'.IsOpen → s.IsOpen) : s'.Returned where
  replied tid call result found := more (kept.replied tid call result (threads ▸ found))
  closed tid request found up := kept.closed tid request (threads ▸ found) (still up)

theorem Returned.of_thread (kept : s.Returned) (threads : s'.threads = Function.update s.threads tid th)
    (computed : s'.computed = s.computed) (still : s'.IsOpen → s.IsOpen)
    (result : ∀ call result, th = .replied call result → (call, result) ∈ s.computed)
    (none : ∀ request, th = .closed request → ¬ s.IsOpen) : s'.Returned := by
  constructor
  · intro other call res found
    rw [threads, Function.update_apply] at found
    rw [computed]
    split at found
    · exact result call res found
    · exact kept.replied other call res found
  · intro other request found up
    rw [threads, Function.update_apply] at found
    split at found
    · exact none request found (still up)
    · exact kept.closed other request found (still up)

theorem step_returned (wired : s.Wired) (recorded : s.Recorded) (kept : s.Returned)
    (done : Step env s a s') : s'.Returned := by
  cases does_of_step env done with
  | calls => exact kept.of_thread rfl rfl id (by simp) (by simp)
  | locks => exact kept.of_thread rfl rfl id (by simp) (by simp)
  | lockFinds outside down => exact kept.of_thread rfl rfl id (by simp) (by simp [IsOpen, down])
  | writes => exact kept.of_thread rfl rfl id (by simp) (by simp)
  | writeFails sending down => exact kept.of_thread rfl rfl id (by simp) fun _ _ => down
  | @reads tid call call' result rest awaiting next =>
    refine kept.of_thread rfl rfl id (fun own res same => ?_) (by simp)
    cases same
    -- the reply read answers the one request under way, the reader's own
    have answers : call' = call := by
      have under_way := wired.waiting tid call awaiting
      simp [pipeline, next] at under_way
      exact under_way.1
    subst answers
    exact recorded.known _ (by simp [next])
  | readFails awaiting down => exact kept.of_thread rfl rfl id (by simp) fun _ _ => down
  | destroys => exact kept.of_shim rfl (List.Subset.refl _) (by simp [IsOpen])
  | handles => exact kept.of_shim rfl (List.subset_append_left _ _) id
  | builds | receives | replies | replyFails | ends | throws | moves =>
    exact kept.of_shim rfl (List.Subset.refl _) id
  | exits => exact kept.of_shim rfl (List.Subset.refl _) (by simp [IsOpen])

/-! ## Calls that wait for a loop that has ended -/

/-- No exception leaves the loop body while both ends are open. -/
def Uninterrupted (s : Channel A) (a : Action A) : Prop := a = .throws → ¬ s.IsOpen

theorem step_serving (serving : s.IsOpen → s.loop ≠ .ended) (uninterrupted : Uninterrupted s a)
    (done : Step env s a s') : s'.IsOpen → s'.loop ≠ .ended := by
  cases does_of_step env done with
  | calls | locks | lockFinds | writes | writeFails | reads | readFails | moves => exact serving
  | destroys | exits => simp [IsOpen]
  | builds | receives | handles | replies => simp
  | replyFails down | ends down => simp [IsOpen, down]
  | throws => exact fun up => absurd up (uninterrupted rfl)

/-- Of the steps that close neither end, none ends a wait for an ended loop. -/
theorem step_hangs (wired : s.Wired) (hangs : s.Hangs) (done : Step env s a s')
    (closes : a ≠ .destroy ∧ a ≠ .shimExits) : s'.Hangs := by
  obtain ⟨tid, call, awaiting, empty, up, finished⟩ := hangs
  have inside : (s.threads tid).inCall = true := by simp [awaiting]
  cases does_of_step env done with
  | @calls other _ outside =>
    have different : tid ≠ other := by rintro rfl; simp [inside] at outside
    exact ⟨tid, call, by simpa [different] using awaiting, empty, up, finished⟩
  | locks free => simp [(wired.locked tid).mp inside] at free
  | lockFinds _ down => simp [up.1] at down
  | @writes other request sending =>
    have same : tid = other := wired.alone inside (by simp [sending])
    simp [← same, awaiting] at sending
  | writeFails _ down | readFails _ down => exact absurd up down
  | reads _ next => simp [empty] at next
  | destroys => exact absurd rfl closes.1
  | exits => exact absurd rfl closes.2
  | builds found | receives found | handles found | replies found => simp [finished] at found
  | replyFails down | ends down => simp [up.1] at down
  | throws => exact ⟨tid, call, awaiting, empty, up, rfl⟩
  | moves => exact ⟨tid, call, awaiting, empty, up, finished⟩

theorem hangs_of_sending (sending : s.threads tid = .sending request) (empty : s.toHost = [])
    (up : s.IsOpen) (finished : s.loop = .ended) : ∃ s', Reachable (Step env) s s' ∧ s'.Hangs := by
  let written : Channel A := { s.setThread tid (.awaiting ⟨s.written, request⟩) with
    toShim := s.toShim ++ [⟨s.written, request⟩], written := s.written + 1 }
  have writes : Step env s (.write tid) written := by
    simp [Step, ofPartial, exec, sending, up, written]
  exact ⟨written, .tail .refl writes, tid, ⟨s.written, request⟩, by simp [written], empty, up, finished⟩

theorem hangs_of_entering (entering : s.threads tid = .entering request)
    (free : s.requestMutex = none) (empty : s.toHost = []) (up : s.IsOpen)
    (finished : s.loop = .ended) : ∃ s', Reachable (Step env) s s' ∧ s'.Hangs := by
  let locked : Channel A := { s.setThread tid (.sending request) with requestMutex := some tid }
  have locks : Step env s (.lock tid) locked := by
    simp [Step, ofPartial, exec, entering, free, up.1, locked]
  have sending : locked.threads tid = .sending request := by simp [locked]
  obtain ⟨s', run, hangs⟩ := hangs_of_sending sending empty up finished
  exact ⟨s', (Reachable.tail .refl locks).trans run, hangs⟩

/-- The next call of any thread hangs. -/
theorem hangs_of_unlocked (outside : (s.threads tid).inCall = false)
    (free : s.requestMutex = none) (empty : s.toHost = []) (up : s.IsOpen)
    (finished : s.loop = .ended) : ∃ s', Reachable (Step env) s s' ∧ s'.Hangs := by
  by_cases waits : ∃ request, s.threads tid = .entering request
  · obtain ⟨request, entering⟩ := waits
    exact hangs_of_entering entering free empty up finished
  · let called := s.setThread tid (.entering (.release 0))
    have calls : Step env s (.call tid (.release 0)) called := by
      cases found : s.threads tid with
      | idle | replied | closed => simp [Step, ofPartial, exec, found, called]
      | entering request => exact absurd ⟨request, found⟩ waits
      | sending | awaiting => simp [found] at outside
    have entering : called.threads tid = .entering (.release 0) := by simp [called]
    obtain ⟨s', run, hangs⟩ := hangs_of_entering entering free empty up finished
    exact ⟨s', (Reachable.tail .refl calls).trans run, hangs⟩

/-- Where the loop has ended and both ends are open, some call will hang. -/
theorem exists_hangs (wired : s.Wired) (up : s.IsOpen) (finished : s.loop = .ended) :
    ∃ s', Reachable (Step env) s s' ∧ s'.Hangs := by
  cases mutex : s.requestMutex with
  | none =>
    have outside : ∀ tid, (s.threads tid).inCall = false := fun tid => by
      simpa [mutex] using (wired.locked tid).not
    have drained : s.pipeline = [] := wired.quiet up fun tid call awaiting => by
      simpa [awaiting] using outside tid
    have empty : s.toHost = [] := by simp_all [pipeline]
    exact hangs_of_unlocked (outside 0) mutex empty up finished
  | some tid =>
    have inside := (wired.locked tid).mpr mutex
    cases found : s.threads tid with
    | idle | entering | replied | closed => simp [found] at inside
    | sending request =>
      have empty : s.toHost = [] := by simpa [pipeline] using And.left (List.append_eq_nil_iff.mp
        (List.append_eq_nil_iff.mp (wired.drained found up)).1)
      exact hangs_of_sending found empty up finished
    | awaiting call =>
      cases queued : s.toHost with
      | nil => exact ⟨s, .refl, tid, call, found, queued, up, finished⟩
      | cons reply rest =>
        -- the reply that was on its way is still read; the call after it hangs
        let replied : Channel A :=
          { (s.setThread tid (.replied call reply.2)).unlock with toHost := rest }
        have reads : Step env s (.read tid) replied := by
          simp [Step, ofPartial, exec, found, queued, replied]
        have empty : rest = [] := by
          have short := wired.short
          simp only [pipeline, queued, List.map_cons, List.cons_append, List.length_cons,
            List.length_append, List.length_map] at short
          exact List.length_eq_zero_iff.mp (by omega)
        have outside : (replied.threads tid).inCall = false := by
          simp [replied, unlock]
        obtain ⟨s', run, hangs⟩ := hangs_of_unlocked outside rfl empty up finished
        exact ⟨s', (Reachable.tail .refl reads).trans run, hangs⟩

/-- The invariants of the channel together. -/
structure Sound (s : Channel A) : Prop extends Wired s, Recorded s, Returned s

theorem reachable_sound {process : ShimProcess A}
    (reached : Reachable (Step env) (start process) s) : s.Sound := by
  have first : (start process).Sound :=
    ⟨start_wired process, start_recorded process, start_returned process⟩
  refine reached.invariant first fun s a s' kept done => ?_
  exact ⟨step_wired kept.toWired done, step_recorded kept.toWired kept.toRecorded done,
    step_returned kept.toWired kept.toRecorded kept.toReturned done⟩

/-- A run in which nothing throws while the channel is open keeps the loop going
as long as it is. -/
theorem reachable_serving {process : ShimProcess A}
    (reached : Reachable (Guarded Uninterrupted (Step env)) (start process) s) :
    s.IsOpen → s.loop ≠ .ended := by
  have kept : (fun s : Channel A => s.IsOpen → s.loop ≠ .ended) s :=
    reached.invariant (by simp [start]) fun s a s' serving done =>
      step_serving serving done.1 done.2
  exact kept

/-- Every step but those that close an end. -/
def LeavesOpen (_ : Channel A) (a : Action A) : Prop := a ≠ .destroy ∧ a ≠ .shimExits

/-- A call that hangs does so until an end is closed. -/
theorem run_hangs (wired : s.Wired) (hangs : s.Hangs)
    (after : Reachable (Guarded LeavesOpen (Step env)) s s') : s'.Hangs := by
  obtain ⟨ls, run⟩ := after
  induction run with
  | nil => exact hangs
  | cons first _ ih => exact ih (step_wired wired first.2) (step_hangs wired hangs first.2 first.1)

end Channel
end RlboxDynamic.RequestChannel

namespace RlboxDynamic
open Transition RequestChannel Channel

/-- Every call returns the result computed for its own request, and no request
is computed twice, unless the channel is closed. Where no exception leaves the
loop body of an open channel, a waiting call's request or reply is on its way
and no call hangs; any such exception leaves a call to hang until an end is
closed. -/
theorem request_replies {A : Allocator t} (env : ServerEnv t) (process : ShimProcess A) :
    (∀ s, Reachable (Step env) (start process) s →
      (∀ tid call result, s.threads tid = .replied call result → (call, result) ∈ s.computed) ∧
      (s.computed.map fun p => p.1.place).Nodup ∧
      ∀ tid request, s.threads tid = .closed request → ¬ s.IsOpen) ∧
    (∀ s, Reachable (Guarded Uninterrupted (Step env)) (start process) s → ¬ s.Hangs ∧
      ∀ tid call, s.threads tid = .awaiting call → s.IsOpen → s.pipeline = [call]) ∧
    ∀ s s', Reachable (Step env) (start process) s → ¬ Uninterrupted s .throws →
      Step env s .throws s' → ∃ stuck, Reachable (Step env) s' stuck ∧
        ∀ later, Reachable (Guarded LeavesOpen (Step env)) stuck later → later.Hangs := by
  refine ⟨fun s reached => ?_, fun s reached => ?_, fun s s' reached open_ throws => ?_⟩
  · have sound := reachable_sound reached
    exact ⟨sound.replied, sound.once, sound.closed⟩
  · have serving := reachable_serving reached
    have sound : s.Sound := by
      obtain ⟨ls, run⟩ := reached
      exact reachable_sound ⟨ls, run.mono fun _ _ _ done => done.2⟩
    constructor
    · rintro ⟨tid, call, awaiting, empty, up, finished⟩
      exact serving up finished
    · intro tid call awaiting up
      exact (sound.waiting tid call awaiting).resolve_right fun ended => serving up ended.1
  · have up : s.IsOpen := by
      by_contra down
      exact open_ fun _ => down
    have sound := reachable_sound (reached.tail throws)
    have left : s'.IsOpen ∧ s'.loop = .ended := by
      cases does_of_step env throws with
      | throws => exact ⟨up, rfl⟩
    have hang : ∃ stuck, Reachable (Step env) s' stuck ∧ stuck.Hangs :=
      exists_hangs sound.toWired left.1 left.2
    obtain ⟨stuck, run, hangs⟩ := hang
    refine ⟨stuck, run, fun later after => ?_⟩
    exact run_hangs (reachable_sound ((reached.tail throws).trans run)).toWired hangs after

namespace RequestChannel

/-- The lowest gap of a region that holds a block, with the live blocks in
order. -/
def placeBlock (size limit : Nat) : Nat → List (Nat × Nat) → Option (Nat × List (Nat × Nat))
  | cursor, [] => if cursor + size ≤ limit then some (cursor, [(cursor, size)]) else none
  | cursor, (address, held) :: rest =>
    if cursor + size ≤ address then some (cursor, (cursor, size) :: (address, held) :: rest)
    else
      (placeBlock size limit (address + held) rest).map fun (p, blocks) =>
        (p, (address, held) :: blocks)

/-- A first-fit allocator on the region of a 32-bit host, at its first hint. -/
def firstFit : Allocator .i386 where
  Heap := List (Nat × Nat)
  malloc size blocks :=
    (placeBlock size.toNat 0x44000000 0x40000000 blocks).map fun (p, blocks) =>
      (BitVec.ofNat 32 p, blocks)
  free p blocks := blocks.filter fun block => block.1 ≠ p.toNat

/-- The 64 callback keys. -/
def keysBlock : Nat × Nat := (0x40000000, 0x100)

/-- A response builder takes its first segment of 1024 words. A reader takes
the words of the message: the root pointer, the request's three, a name's
characters, and for an invoke its four and the two lists. -/
def serverEnv : ServerEnv .i386 where
  shmBase := 0x40000000
  shmSize := 0x4000000
  dlsym _ := 0
  trampoline _ := 0
  builderBytes := 0x2000
  readerBytes
    | .lookupSymbol name => [BitVec.ofNat 32 (8 * (4 + (name.utf8ByteSize + 8) / 8))]
    | .invoke _ _ argTags argValues =>
      [BitVec.ofNat 32 (8 * (8 + (argTags.length + 1) / 2 + argValues.length))]
    | _ => [32]

/-- An `int` function of one argument. -/
def oneArgument : WireRequest := .invoke 0x2000 argSint32 [argSint32] [5]

end RequestChannel

/-- One `allocate` takes the rest of the heap. The next request, an invoke,
needs a larger reader and leaves the loop only its exception, and its caller
hangs. -/
theorem exhausted_heap_hangs :
    ∃ before after : Channel firstFit,
      Run (Step serverEnv) (start ⟨[keysBlock], some (List.replicate 64 0)⟩)
        [.build, .call 0 (.allocate 0x3ffdee0), .lock 0, .write 0, .receive, .handle 0, .reply,
          .read 0, .build, .call 0 oneArgument, .lock 0, .write 0] before ∧
      before.threads 0 = .awaiting ⟨1, oneArgument⟩ ∧
      exec serverEnv before .receive = none ∧
      Step serverEnv before .throws after ∧ after.Hangs := by
  refine ⟨_, _, .cons rfl (.cons rfl (.cons rfl (.cons rfl (.cons rfl (.cons rfl (.cons rfl
    (.cons rfl (.cons rfl (.cons rfl (.cons rfl (.cons rfl .nil))))))))))), rfl, rfl, rfl, ?_⟩
  exact ⟨0, ⟨1, oneArgument⟩, rfl, rfl, ⟨rfl, rfl⟩, rfl⟩

end RlboxDynamic
