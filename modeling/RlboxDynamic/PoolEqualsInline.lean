import RlboxDynamic.JobDelivery
import RlboxDynamic.PoolInvariant

/-! The two ways `handle_invoke` has a call served come to the same: a worker that
gets the job through a pipe, and a child forked with it. -/
namespace RlboxDynamic.JobExchange
open LittleEndian Transition

/-- What the child does from its call on, or its death. -/
def Action.ofChild {t : Target} : Action t → Bool
  | .call | .libraryReturns _ | .write _ | .die => true
  | _ => false

/-- A step that the request thread or the child takes by itself. -/
def Action.ofCall {t : Target} : Action t → Bool
  | .die | .interrupted | .forge _ | .steal _ => false
  | _ => true

/-- The library code's own step. -/
def Action.ofLibrary {t : Target} : Action t → Bool
  | .libraryReturns _ => true
  | _ => false

/-- What one call comes to: the result, the `do_ffi_call` calls, the bytes that
were written, and what the child did, in order. -/
structure Outcome (t : Target) where
  result : BitVec 64
  calls : List (Job t)
  written : List Byte
  events : List (Action t)

namespace Exchange
variable {t : Target} {env : ShimEnv t} {job : Job t} {s s' : Exchange t} {a : Action t}

/-- The library leaves in `ret_buf` what the function called may. -/
def Answers (library : Job t → BitVec t.ptrBits → Prop) (s : Exchange t) : Action t → Prop
  | .libraryReturns retBuf => ∀ job, s.child = .inLibrary job → library job retBuf
  | _ => True

abbrev Running (env : ShimEnv t) (library : Job t → BitVec t.ptrBits → Prop) :
    Exchange t → Action t → Exchange t → Prop :=
  Guarded (Answers library) (Step env)

/-- All that a call can come to, from its start. -/
def Outcomes (env : ShimEnv t) (library : Job t → BitVec t.ptrBits → Prop) (start : Exchange t) :
    Set (Outcome t) :=
  { o | ∃ as s, Run (Running env library) start as s ∧ s.parent = .returned o.result ∧
      s.calls = o.calls ∧ s.written = o.written ∧ as.filter Action.ofChild = o.events }

theorem run_carries {start : Exchange t} (checked : job.Checked) (first : start.Carries job)
    (run : Run (Running env library) start as s) : s.Carries job :=
  run.invariant first fun _ _ _ kept done => step_carries checked kept done.2

/-! ## The inline fork does what the worker does -/

/-- The parent, as if the job were out of its hands. -/
def asReader : Parent → Parent
  | .sending _ => .reading []
  | parent => parent

/-- The child, as if it had the job from the fork. -/
def asForked (job : Job t) : Server t → Server t
  | .receiving _ _ | .filtering _ => .calling job
  | child => child

/-- The inline call that a call in the pool is. -/
def asInline (job : Job t) (s : Exchange t) : Exchange t :=
  { s with parent := asReader s.parent, jobs := [], child := asForked job s.child }

theorem asInline_pooled (strays : Strays) (job : Job t) :
    (pooled strays job).asInline job = inline strays job := rfl

theorem asReader_sendOn (left : List Byte) (rest : List (List Byte)) :
    asReader (.sendOn left rest) = .reading [] := by
  unfold Parent.sendOn
  split <;> rfl

theorem asReader_readOn (got : List Byte) : asReader (.readOn got) = .readOn got := by
  unfold Parent.readOn
  split <;> rfl

theorem asForked_writeOn (left : List Byte) : asForked job (.writeOn left) = .writeOn left := by
  unfold Server.writeOn
  split <;> rfl

/-- A worker that is still alive after a `read` of the job has not called yet. -/
theorem asForked_receiveOn (alive : Server.receiveOn t part got ≠ .gone) :
    asForked job (Server.receiveOn t part got) = .calling job := by
  rcases receiveOn_cases alive with ⟨part', got', same⟩ | ⟨job', same⟩
  · rw [same]
    rfl
  · rw [same]
    rfl

/-- The inline call stands still, or does the same to the child. -/
theorem step_asInline (checked : job.Checked) (off : env.compileMode = .off) (kept : s.Carries job)
    (done : Running env library s a s') :
    (s'.asInline job = s.asInline job ∧ a.ofChild = false) ∨
      ∃ b, Running env library (s.asInline job) b (s'.asInline job) ∧
        [b].filter Action.ofChild = [a].filter Action.ofChild := by
  have ⟨parent, child, _⟩ := kept
  obtain ⟨answers, done⟩ := done
  cases does_of_step done with
  | sends sending =>
    refine .inl ⟨?_, rfl⟩
    rw [asInline, asReader_sendOn, asInline, sending]
    rfl
  | sendFails sending gone =>
    refine .inr ⟨.readEof, ⟨trivial, ?_⟩, rfl⟩
    rw [sending] at parent
    cases parent with
    | sending _ _ _ empty =>
      simp [Step, ofPartial, exec, asInline, asReader, asForked, sending, gone, empty, kept.alone,
        Strays.nobody]
  | @reads got k reading some_bytes wanted there =>
    refine .inr ⟨.read k, ⟨trivial, ?_⟩, rfl⟩
    rw [asInline, asInline, asReader_readOn, reading]
    exact if_pos ⟨some_bytes, wanted, there⟩
  | ends reading empty gone unheld =>
    refine .inr ⟨.readEof, ⟨trivial, ?_⟩, rfl⟩
    simp [Step, ofPartial, exec, asInline, asReader, asForked, reading, gone, empty, unheld]
  | waits finishing gone =>
    refine .inr ⟨.wait, ⟨trivial, ?_⟩, rfl⟩
    simp [Step, ofPartial, exec, asInline, asReader, asForked, finishing, gone]
  | @receives part got k receiving _ wanted there =>
    refine .inl ⟨?_, rfl⟩
    rw [receiving] at child
    cases child with
    | receiving for_job short bytes fresh =>
      rw [asInline, asForked_receiveOn (serverHolds_receives checked for_job short bytes wanted fresh).2, asInline,
        receiving]
      rfl
  | locksDown filtering =>
    refine .inl ⟨?_, rfl⟩
    rw [filtering] at child
    cases child with
    | filtering => simp [asInline, asForked, filtering, applyFilter, off]
  | refuses calling refused =>
    rw [calling] at child
    cases child with
    | calling =>
      refine .inr ⟨.call, ⟨trivial, ?_⟩, rfl⟩
      simp [Step, ofPartial, exec, asInline, asForked, calling, refused]
  | calls calling prepared =>
    rw [calling] at child
    cases child with
    | calling =>
      refine .inr ⟨.call, ⟨trivial, ?_⟩, rfl⟩
      simp [Step, ofPartial, exec, asInline, asForked, calling, prepared]
  | @returns called retBuf inside =>
    refine .inr ⟨.libraryReturns retBuf, ⟨?_, ?_⟩, rfl⟩
    · intro job' inside'
      rw [asInline, inside] at inside'
      cases inside'
      exact answers called inside
    · simp [Step, ofPartial, exec, asInline, asForked, inside]
  | @writes left k writing some_bytes there =>
    refine .inr ⟨.write k, ⟨trivial, ?_⟩, rfl⟩
    rw [asInline, asInline, asForked_writeOn, writing]
    exact if_pos ⟨some_bytes, there⟩
  | dies running =>
    refine .inr ⟨.die, ⟨trivial, ?_⟩, rfl⟩
    have running' : (s.asInline job).child ≠ .gone := by
      rw [asInline]
      cases at_child : s.child <;> simp_all [asForked]
    exact if_neg running'
  | interrupted => exact .inl ⟨rfl, rfl⟩
  | forges writer => exact absurd writer kept.no_jobWriter
  | steals reader => exact absurd reader kept.no_resultReader

/-! ## The worker gets to where the inline child starts -/

/-- The job is on its way: nothing has come back. -/
def delivering (parent : Parent) (child : Server t) : Exchange t :=
  { strays := .nobody, parent, jobs := [], results := [], child, calls := [], answer := none, written := [] }

/-- One buffer goes through whole. -/
theorem run_buffer (env : ShimEnv t) (library : Job t → BitVec t.ptrBits → Prop) (part : JobPart)
    (buffer : List Byte) (rest : List (List Byte)) (some_bytes : buffer ≠ []) (whole : buffer.length = part.size) :
    Run (Running env library) (delivering (.sending (buffer :: rest)) (.receiving part []))
      [.send buffer.length, .receive buffer.length]
      (delivering (.sendOn [] rest) (.received t buffer part)) := by
  have pos := List.length_pos_iff.mpr some_bytes
  refine .cons (m := { delivering (.sendOn [] rest) (.receiving part []) with jobs := buffer })
    ⟨trivial, ?_⟩ (.single ⟨trivial, ?_⟩)
  · simp [Step, ofPartial, exec, delivering, pos]
  · simp [Step, ofPartial, exec, delivering, ← whole, pos, Server.receiveOn]

/-- The job goes through whole. -/
theorem run_delivery (library : Job t → BitVec t.ptrBits → Prop) (checked : job.Checked)
    (off : env.compileMode = .off) :
    ∃ as, Run (Running env library) (pooled .nobody job) as (inline .nobody job) ∧ as.filter Action.ofChild = [] := by
  have full : job.header.toBytes ≠ [] := List.ne_nil_of_length_pos (by simp)
  have header := fun rest => run_buffer env library .header job.header.toBytes rest full (by simp [JobPart.size])
  have locked : Run (Running env library) (delivering (.reading []) (.filtering job))
      [.lockDown ⟨true, true⟩] (inline .nobody job) := by
    refine .single ⟨trivial, ?_⟩
    simp [Step, ofPartial, exec, delivering, inline, applyFilter, off]
  by_cases none : job.argTags = []
  · have start : pooled .nobody job = delivering (.sending [job.header.toBytes]) (.receiving .header []) := by
      rw [pooled, Job.buffers, if_pos none, delivering]
    have first := header []
    rw [received_header checked, if_pos none] at first
    exact ⟨_, start ▸ first.append locked, rfl⟩
  · have start : pooled .nobody job = delivering
        (.sending [job.header.toBytes, wordsBytes 4 job.argTags, wordsBytes 8 job.argValues])
        (.receiving .header []) := by
      rw [pooled, Job.buffers, if_neg none, delivering]
    have first := header [wordsBytes 4 job.argTags, wordsBytes 8 job.argValues]
    rw [received_header checked, if_neg none] at first
    have args := buffers_full checked
    rw [Job.buffers, if_neg none] at args
    have second := run_buffer env library (.tags job.header) (wordsBytes 4 job.argTags)
      [wordsBytes 8 job.argValues] (args _ (by simp)) (by simp [JobPart.size, checked.nargs])
    rw [received_tags checked] at second
    have third := run_buffer env library (.values job.header job.argTags) (wordsBytes 8 job.argValues) []
      (args _ (by simp)) (by simp [JobPart.size, checked.nargs, checked.same])
    rw [received_values checked] at third
    exact ⟨_, start ▸ ((first.append second).append third).append locked, rfl⟩

/-! ## The two paths -/

/-- Whatever a pooled call comes to, an inline call does, and the other way
round. -/
theorem outcomes_pooled_eq (library : Job t → BitVec t.ptrBits → Prop) (checked : job.Checked)
    (off : env.compileMode = .off) :
    Outcomes env library (pooled .nobody job) = Outcomes env library (inline .nobody job) := by
  apply Set.Subset.antisymm
  · rintro o ⟨as, s, run, returned, calls, written, events⟩
    obtain ⟨ks, u, inlined, ⟨-, rfl⟩, same⟩ : ∃ ks u, Run (Running env library) (inline .nobody job) ks u ∧
        (s.Carries job ∧ u = s.asInline job) ∧
        ks.filter Action.ofChild = as.filter Action.ofChild := by
      refine run.simulate (fun s u => s.Carries job ∧ u = s.asInline job) Action.ofChild
        ⟨pooled_carries checked, (asInline_pooled _ job).symm⟩ ?_
      rintro s a s' u ⟨kept, rfl⟩ done
      have kept' := step_carries checked kept done.2
      rcases step_asInline checked off kept done with ⟨still, silent⟩ | ⟨b, moved, same⟩
      · exact ⟨[], _, .nil, ⟨kept', still.symm⟩, by simp [silent]⟩
      · exact ⟨[b], _, .single moved, ⟨kept', rfl⟩, same⟩
    exact ⟨ks, s.asInline job, inlined, by simp [asInline, returned, asReader], calls, written,
      same.trans events⟩
  · rintro o ⟨as, s, run, returned, calls, written, events⟩
    obtain ⟨before, delivered, silent⟩ := run_delivery library checked off
    exact ⟨before ++ as, s, delivered.append run, returned, calls, written, by
      rw [List.filter_append, silent, List.nil_append, events]⟩

/-! ## The call comes to an end -/

end Exchange

def Parent.weight : Parent → Nat
  | .sending _ => 3
  | .reading _ => 2
  | .finishing _ => 1
  | .returned _ => 0

/-- More for each step the child is before its end. -/
def Server.weight {t : Target} : Server t → Nat
  | .receiving _ _ => 21
  | .filtering _ => 20
  | .calling _ => 19
  | .inLibrary _ => 18
  | .writing left => 2 * left.length + 1
  | .gone => 0

namespace Exchange
variable {t : Target} {env : ShimEnv t} {job : Job t} {s s' : Exchange t} {a : Action t}

/-- How many steps a call has left at most. -/
def weight (s : Exchange t) : Nat :=
  s.parent.weight + 2 * s.parent.unsent.length + s.jobs.length + s.results.length + s.child.weight

theorem weight_sendOn (left : List Byte) (rest : List (List Byte)) :
    (Parent.sendOn left rest).weight ≤ 3 := by
  unfold Parent.sendOn
  split <;> simp [Parent.weight]

theorem weight_readOn (got : List Byte) : (Parent.readOn got).weight ≤ 2 := by
  unfold Parent.readOn
  split <;> simp [Parent.weight]

theorem weight_receiveOn (part : JobPart) (got : List Byte) :
    (Server.receiveOn t part got).weight ≤ 21 := by
  unfold Server.receiveOn
  split
  · cases part with
    | header =>
      rw [Server.received]
      split
      · exact Nat.zero_le _
      · split <;> simp [Server.weight]
    | tags | values => simp [Server.received, Server.weight]
  · simp [Server.weight]

theorem weight_writeOn (left : List Byte) :
    (Server.writeOn left : Server t).weight ≤ 2 * left.length + 1 := by
  unfold Server.writeOn
  split <;> simp [Server.weight]

/-- Every step but an interrupted one brings the end closer. -/
theorem weight_step (kept : s.Carries job) (done : Step env s a s') :
    (if a ≠ .interrupted then 1 else 0) + s'.weight ≤ s.weight := by
  cases does_of_step done with
  | @sends buffer rest k sending some_bytes there =>
    have before : s.parent.weight = 3 := by rw [sending]; rfl
    have unsent : s.parent.unsent = buffer ++ rest.flatten := by simp [sending, Parent.unsent]
    have after := weight_sendOn (buffer.drop k) rest
    simp only [weight, before, unsent, unsent_sendOn, List.length_append, List.length_take,
      List.length_drop, ne_eq, reduceCtorEq, not_false_eq_true, if_true]
    omega
  | sendFails sending => simp [weight, sending, Parent.weight, Parent.unsent]; omega
  | @reads got k reading some_bytes _ there =>
    have before : s.parent.weight = 2 := by rw [reading]; rfl
    have after := weight_readOn (got ++ s.results.take k)
    simp only [weight, before, unsent_readOn, List.length_nil, List.length_drop, ne_eq, reduceCtorEq,
      not_false_eq_true, if_true]
    omega
  | ends reading => simp [weight, reading, Parent.weight, Parent.unsent]; omega
  | waits finishing => simp [weight, finishing, Parent.weight, Parent.unsent]; omega
  | @receives part got k receiving some_bytes _ there =>
    have before : s.child.weight = 21 := by rw [receiving]; rfl
    have after := weight_receiveOn (t := t) part (got ++ s.jobs.take k)
    simp only [weight, before, List.length_drop, ne_eq, reduceCtorEq, not_false_eq_true, if_true]
    omega
  | @locksDown job os filtering =>
    have before : s.child.weight = 20 := by rw [filtering]; rfl
    have after : (if (applyFilter env.compileMode os).1 then Server.calling job else .gone).weight ≤ 19 := by
      split <;> simp [Server.weight]
    simp only [weight, before, ne_eq, reduceCtorEq, not_false_eq_true, if_true]
    omega
  | refuses calling => simp [weight, calling, Server.weight]; omega
  | calls calling => simp [weight, calling, Server.weight]; omega
  | returns inside => simp [weight, inside, Server.weight]; omega
  | @writes left k writing some_bytes there =>
    have before : s.child.weight = 2 * left.length + 1 := by rw [writing]; rfl
    have after := weight_writeOn (t := t) (left.drop k)
    simp only [weight, before, List.length_append, List.length_take, List.length_drop, ne_eq,
      reduceCtorEq, not_false_eq_true, if_true] at after ⊢
    omega
  | dies running =>
    have before : 0 < s.child.weight := by
      cases at_child : s.child <;> simp [Server.weight]
      exact running at_child
    have after : (Server.gone : Server t).weight = 0 := rfl
    simp only [weight, after, ne_eq, reduceCtorEq, not_false_eq_true, if_true]
    omega
  | interrupted => simp
  | forges writer => exact absurd writer kept.no_jobWriter
  | steals reader => exact absurd reader kept.no_resultReader

/-- A call takes no more steps than its weight. -/
theorem run_weight {start : Exchange t} (checked : job.Checked) (carries : start.Carries job)
    (run : Run (Running env library) start as s) :
    as.countP (· ≠ .interrupted) + s.weight ≤ start.weight := by
  induction run with
  | nil => simp
  | @cons s a m as u first _ ih =>
    have now := weight_step carries first.2
    have later := ih (step_carries checked carries first.2)
    rw [List.countP_cons]
    simp only [ne_eq, decide_not, Bool.not_eq_true', decide_eq_false_iff_not] at now later ⊢
    omega

/-- A call that has not returned goes on by itself, unless the child is in library
code. -/
theorem goes_on (library : Job t → BitVec t.ptrBits → Prop) (checked : job.Checked)
    (kept : s.Carries job) :
    (∃ result, s.parent = .returned result) ∨ (∃ job, s.child = .inLibrary job) ∨
      ∃ a s', Running env library s a s' ∧ a.ofCall = true := by
  have works : ∀ {a s'}, Does env s a s' → a.ofCall = true → a.ofLibrary = false →
      ∃ a s', Running env library s a s' ∧ a.ofCall = true := by
    intro a s' does own _
    refine ⟨a, s', ⟨?_, step_of_does does⟩, own⟩
    cases a <;> trivial
  have ⟨parent, child, _⟩ := kept
  generalize at_parent : s.parent = p at parent
  cases parent with
  | @sending left more full =>
    obtain ⟨buffer, rest, rfl⟩ := List.exists_cons_of_ne_nil more
    have pos := List.length_pos_iff.mpr (full buffer List.mem_cons_self)
    exact .inr (.inr (works (.sends at_parent Nat.one_pos pos) rfl rfl))
  | finishing _ gone => exact .inr (.inr (works (.waits at_parent gone) rfl rfl))
  | returned => exact .inl ⟨_, rfl⟩
  | @reading got short bytes =>
    -- The parent reads what there is; else the child has something to do.
    by_cases empty : s.results = []
    · generalize at_child : s.child = c at child
      cases child with
      | @receiving part _ for_job less all =>
        have pos : 0 < s.jobs.length := by
          have enough := length_bytesFrom for_job checked
          rw [← all, at_parent] at enough
          simp only [Parent.unsent, List.append_nil, List.length_append] at enough
          omega
        exact .inr (.inr (works (.receives at_child Nat.one_pos (by omega) pos) rfl rfl))
      | filtering =>
        exact .inr (.inr (works (a := .lockDown ⟨true, true⟩) (.locksDown at_child) rfl rfl))
      | calling =>
        refine .inr (.inr ?_)
        cases prepared : prepareCall env.prepCif env.shmBase job with
        | none => exact works (.refuses at_child prepared) rfl rfl
        | some ffi => exact works (.calls at_child prepared) rfl rfl
      | inLibrary => exact .inr (.inl ⟨_, rfl⟩)
      | writing _ _ _ _ more =>
        exact .inr (.inr (works (.writes at_child Nat.one_pos (List.length_pos_iff.mpr more)) rfl rfl))
      | gone =>
        have unheld : s.strays.resultWriter = false := by rw [kept.alone]; rfl
        exact .inr (.inr (works (.ends at_parent empty at_child unheld) rfl rfl))
    · exact .inr (.inr (works (.reads at_parent Nat.one_pos (by omega) (List.length_pos_iff.mpr empty))
        rfl rfl))

/-- What holds at every point of a call with the job. -/
structure Sound (env : ShimEnv t) (library : Job t → BitVec t.ptrBits → Prop) (job : Job t)
    (s : Exchange t) : Prop where
  calls : s.calls = [] ∨ s.calls = [job]
  result : ∀ result, s.parent = .returned result → s.Settled result
  goesOn : (∃ result, s.parent = .returned result) ∨ (∃ job, s.child = .inLibrary job) ∨
    ∃ a s', Running env library s a s' ∧ a.ofCall = true

theorem Carries.sound (library : Job t → BitVec t.ptrBits → Prop) (checked : job.Checked)
    (kept : s.Carries job) : s.Sound env library job where
  calls := by
    have child := kept.child
    generalize s.child = c at child
    cases child with
    | receiving _ _ _ fresh | filtering _ fresh | calling _ fresh => exact .inl fresh.calls
    | inLibrary _ called | writing _ called => exact .inr called
    | gone called => exact called
  result result returned := by
    have parent := kept.parent
    rw [returned] at parent
    cases parent with
    | returned settled => exact settled
  goesOn := goes_on library checked kept

/-- Whatever the chunks, the interruptions and the moment the child dies: it gets
exactly the job or does not call; the result is all it wrote or 0; the call comes
back once the library does; and what it comes to does not depend on who serves it. -/
structure PathsAgree (env : ShimEnv t) (library : Job t → BitVec t.ptrBits → Prop) (job : Job t)
    (strays : Strays) : Prop where
  sound : ∀ start ∈ [pooled strays job, inline strays job], ∀ as s,
    Run (Running env library) start as s →
      s.Sound env library job ∧ as.countP (· ≠ .interrupted) ≤ start.weight
  outcomes : Outcomes env library (pooled strays job) = Outcomes env library (inline strays job)

theorem pathsAgree_of_nobody (library : Job t → BitVec t.ptrBits → Prop) (checked : job.Checked)
    (off : env.compileMode = .off) : PathsAgree env library job .nobody where
  sound := by
    intro start from_start as s run
    have first := carries_start checked from_start
    have bound := run_weight checked first run
    exact ⟨(run_carries checked first run).sound library checked, by omega⟩
  outcomes := outcomes_pooled_eq library checked off

/-! ## What the others can do -/

variable {library : Job t → BitVec t.ptrBits → Prop} {strays : Strays}

/-- With a second holder of the write end, a call whose child dies reads on for
ever. -/
theorem PathsAgree.no_resultWriter (agree : PathsAgree env library job strays) :
    strays.resultWriter = false := by
  refine Bool.eq_false_iff.mpr fun writer => ?_
  have dies : Step env (inline strays job) .die { inline strays job with child := .gone } := rfl
  have run : Run (Running env library) (inline strays job) [.die] _ := .single ⟨trivial, dies⟩
  have sound := (agree.sound (inline strays job) (by simp) _ _ run).1
  rcases sound.goesOn with ⟨result, returned⟩ | ⟨job', inside⟩ | ⟨a, s', ⟨-, done⟩, own⟩
  · cases returned
  · cases inside
  · -- All that is left to the two of them is the end of file, which does not come.
    cases does_of_step done with
    | ends _ _ _ unheld => exact Bool.false_ne_true (unheld.symm.trans writer)
    | sends stuck | sendFails stuck | waits stuck | receives stuck | locksDown stuck | refuses stuck
    | calls stuck | returns stuck | writes stuck => cases stuck
    | reads _ some_bytes _ there => exact absurd (Nat.lt_of_lt_of_le some_bytes there) (Nat.lt_irrefl 0)
    | dies | interrupted | forges | steals => cases own

/-- A call of the null function, which `do_ffi_call` refuses. -/
def nullJob (t : Target) (retTag : BitVec 32) : Job t := ⟨0, retTag, [], []⟩

theorem nullJob_checked (retTag : BitVec 32) : (nullJob t retTag).Checked := ⟨rfl, Nat.zero_le _⟩

/-- With another writer of jobs, the worker calls what that one asked for. -/
theorem PathsAgree.no_jobWriter (off : env.compileMode = .off)
    (agree : PathsAgree env library (nullJob t argVoid) strays) : strays.jobWriter = false := by
  refine Bool.eq_false_iff.mpr fun writer => ?_
  let start : Exchange t := pooled strays (nullJob t argVoid)
  let forged : Exchange t := { start with jobs := (nullJob t argSint32).header.toBytes }
  let locked : Exchange t := { start with child := .filtering (nullJob t argSint32) }
  let ready : Exchange t := { start with child := .calling (nullJob t argSint32) }
  let called : Exchange t := { start with
    child := .writing (wordBytes 8 (0 : BitVec 64)), calls := [nullJob t argSint32], answer := some 0 }
  have received : Server.receiveOn t .header (nullJob t argSint32).header.toBytes =
      .filtering (nullJob t argSint32) := by
    have whole : (nullJob t argSint32).header.toBytes.length = JobPart.header.size :=
      WireJobHeader.length_toBytes _
    rw [Server.receiveOn, if_pos whole, received_header (nullJob_checked argSint32)]
    exact if_pos rfl
  have all : (nullJob t argSint32).header.toBytes.take 16 = (nullJob t argSint32).header.toBytes :=
    List.take_of_length_le (Nat.le_of_eq (WireJobHeader.length_toBytes _))
  have run : Run (Running env library) start
      [.forge (nullJob t argSint32).header.toBytes, .receive 16, .lockDown ⟨true, true⟩, .call] called := by
    refine .cons (m := forged) ⟨trivial, ?_⟩ (.cons (m := locked) ⟨trivial, ?_⟩
      (.cons (m := ready) ⟨trivial, ?_⟩
        (.single ⟨trivial, ?_⟩)))
    · simp [Step, ofPartial, exec, start, forged, pooled, writer]
    · simp [Step, ofPartial, exec, start, forged, locked, pooled, all, received, JobPart.size]
    · simp [Step, ofPartial, exec, start, locked, ready, applyFilter, off]
    · simp [Step, ofPartial, exec, start, ready, called, pooled, prepareCall, nullJob]
  have sound := (agree.sound start (by simp [start]) _ _ run).1
  rcases sound.calls with none | same
  · cases none
  · have tags : argSint32 = argVoid := congrArg Job.retTag (List.singleton_inj.mp same)
    cases tags

/-- A shim without the filter, where libffi takes every signature. -/
def plainShim (t : Target) : ShimEnv t :=
  { compileMode := .off, shmBase := 1, poolSize := none, prepCif := fun _ _ => true }

/-- With another reader of results, a call whose child wrote 1 gets 0. -/
theorem PathsAgree.no_resultReader (unheld : strays.resultWriter = false)
    (agree : PathsAgree (plainShim t) (fun _ _ => True) ⟨1, argSint32, [], []⟩ strays) :
    strays.resultReader = false := by
  refine Bool.eq_false_iff.mpr fun reader => ?_
  have ran : (execAll (exec (plainShim t)) (inline strays ⟨1, argSint32, [], []⟩)
      [.call, .libraryReturns 1, .write 8, .steal 8, .readEof, .wait]).map
        (fun s => (s.parent, s.answer, s.written.length)) = some (.returned 0, some 1, 8) := by
    obtain ⟨_, jobWriter, _⟩ := strays
    obtain rfl := unheld
    obtain rfl := reader
    cases t <;> cases jobWriter <;> decide
  obtain ⟨s, run, same⟩ := exists_run ran
  simp only [Prod.mk.injEq] at same
  obtain ⟨returned, answered, whole⟩ := same
  have running : Run (Running (plainShim t) fun _ _ => True) _ _ s :=
    run.guarded (by simp [Answers])
  rcases (agree.sound _ (by simp) _ _ running).1.result 0 returned with ⟨zero, -⟩ | ⟨short, -⟩
  · rw [answered] at zero
    cases zero
  · omega

/-- The paths agree for every call exactly if nobody else has an end of its pipes. -/
theorem pathsAgree_iff_nobody (strays : Strays) :
    (∀ (env : ShimEnv t) library job, env.compileMode = .off → job.Checked →
      PathsAgree env library job strays) ↔ strays = .nobody := by
  constructor
  · intro agree
    have unheld := (agree (plainShim t) (fun _ _ => True) ⟨1, argSint32, [], []⟩ rfl ⟨rfl, Nat.zero_le _⟩)
    have writer := unheld.no_resultWriter
    have reader := unheld.no_resultReader writer
    have jobWriter := (agree (plainShim t) (fun _ _ => True) _ rfl (nullJob_checked argVoid)).no_jobWriter rfl
    obtain ⟨_, _, _⟩ := strays
    simp only at writer reader jobWriter
    rw [writer, reader, jobWriter]
    rfl
  · rintro rfl env library job off checked
    exact pathsAgree_of_nobody library checked off

end Exchange
end RlboxDynamic.JobExchange
