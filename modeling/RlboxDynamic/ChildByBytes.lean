import RlboxDynamic.PoolEqualsInline

/-! The child of the pool's model, which gets a job and writes a result in one
step each, is what the bytes make of it. -/
namespace RlboxDynamic.JobExchange
open LittleEndian Transition

/-- Where the pool's model has the child. -/
def Server.phase {t : Target} (answer : Option (BitVec 64)) : Server t → Phase t
  | .receiving _ _ => .readingJob
  | .filtering job => .filtering job
  | .calling job => .calling job
  | .inLibrary job => .inLibrary job.retTag
  | .writing _ => .writing (answer.getD 0)
  | .gone => .gone

namespace Exchange
variable {t : Target} {env : ShimEnv t} {job : Job t} {s s' : Exchange t} {a : Action t} {c : Child t}

/-- The child of the pool's model. It has the job from the start, and has written
its result once all of it is. -/
structure Stands (job : Job t) (s : Exchange t) (c : Child t) : Prop where
  phase : c.phase = s.child.phase s.answer
  inbox : ∀ part got, s.child = .receiving part got → c.inbox = some job
  wrote : c.wrote = if s.written.length = 8 then s.answer else none

theorem pooled_stands (job : Job t) : (pooled .nobody job).Stands job (Child.worker.deliver job) where
  phase := rfl
  inbox _ _ _ := rfl
  wrote := rfl

theorem inline_stands (job : Job t) : (inline .nobody job).Stands job (.inline job) where
  phase := rfl
  inbox := by rintro _ _ ⟨⟩
  wrote := rfl

/-- A step that is nothing to the child. -/
theorem Stands.of_eq (stands : s.Stands job c) (child : s'.child = s.child)
    (answer : s'.answer = s.answer) (written : s'.written = s.written) : s'.Stands job c where
  phase := by rw [child, answer, stands.phase]
  inbox := by rw [child]; exact stands.inbox
  wrote := by rw [written, answer, stands.wrote]

/-- The child of the pool's model stands still, or takes a step of its own. -/
def Follows (env : ShimEnv t) (job : Job t) (s' : Exchange t) (c : Child t) : Prop :=
  ∃ c', s'.Stands job c' ∧ (c' = c ∨ ∃ action, c.exec env action = some c')

theorem Stands.stays (stands : s'.Stands job c) : s'.Follows env job c := ⟨c, stands, .inl rfl⟩

theorem Stands.receives (checked : job.Checked) (holds : s.ServerHolds job s.child)
    (stands : s.Stands job c) (receiving : s.child = .receiving part got)
    (wanted : k ≤ part.size - got.length) :
    ({ s with child := .receiveOn t part (got ++ s.jobs.take k), jobs := s.jobs.drop k } :
      Exchange t).Follows env job c := by
  have few : ¬ job.argTags.length > kMaxArgs := by
    have := checked.few
    omega
  have at_phase := stands.phase
  have inbox := stands.inbox part got receiving
  rw [receiving] at holds at_phase
  cases holds with
  | receiving for_job short bytes fresh =>
    obtain ⟨later, alive⟩ := serverHolds_receives checked for_job short bytes wanted fresh
    rcases receiveOn_cases alive with ⟨part', got', same⟩ | ⟨job', same⟩
    · refine Stands.stays ⟨?_, fun _ _ _ => inbox, stands.wrote⟩
      rw [same]
      exact at_phase
    · rw [same] at later
      obtain rfl : job' = job := by
        cases later
        rfl
      refine ⟨{ c with phase := .filtering job' }, ⟨?_, fun _ _ _ => inbox, stands.wrote⟩,
        .inr ⟨.receive, ?_⟩⟩
      · rw [same]
        rfl
      · simp [Child.exec, at_phase, inbox, few, Server.phase]

theorem Stands.locksDown (stands : s.Stands job c) (filtering : s.child = .filtering job')
    (os : FilterAnswers) :
    ({ s with child := if (applyFilter env.compileMode os).1 then .calling job' else .gone } :
      Exchange t).Follows env job c := by
  have at_phase := stands.phase
  rw [filtering] at at_phase
  cases passed : (applyFilter env.compileMode os).1 with
  | true =>
    refine ⟨{ c with
        phase := .calling job', applied := true, filter := (applyFilter env.compileMode os).2 },
      ⟨?_, ?_, stands.wrote⟩, .inr ⟨.lockDown os, ?_⟩⟩
    · simp [Server.phase]
    · simp
    · simp [Child.exec, at_phase, passed, Server.phase]
  | false =>
    refine ⟨{ c with phase := .gone }, ⟨?_, ?_, stands.wrote⟩, .inr ⟨.lockDown os, ?_⟩⟩
    · simp [Server.phase]
    · simp
    · simp [Child.exec, at_phase, passed, Server.phase]

theorem Stands.writes (holds : s.ServerHolds job s.child) (stands : s.Stands job c)
    (writing : s.child = .writing left) (there : k ≤ left.length) :
    ({ s with
        child := .writeOn (left.drop k), results := s.results ++ left.take k
        written := s.written ++ left.take k } : Exchange t).Follows env job c := by
  have at_phase := stands.phase
  rw [writing] at holds at_phase
  cases holds with
  | @writing result _ _ _ answered bytes more =>
    have total := congrArg List.length bytes
    have before : s.written.length ≠ 8 := by
      have pos := List.length_pos_iff.mpr more
      simp only [List.length_append, length_wordBytes] at total
      omega
    have after : (s.written ++ left.take k).length = 8 ↔ left.drop k = [] := by
      rw [List.drop_eq_nil_iff]
      simp only [List.length_append, List.length_take, length_wordBytes] at total ⊢
      omega
    cases rest : left.drop k with
    | nil =>
      refine ⟨{ c with phase := .gone, wrote := some result }, ⟨rfl, by rintro _ _ ⟨⟩, ?_⟩, .inr ⟨.write, ?_⟩⟩
      · rw [if_pos (after.mpr rest), answered]
      · simp [Child.exec, at_phase, answered, Server.phase]
    | cons byte later =>
      refine Stands.stays ⟨at_phase, by rintro _ _ ⟨⟩, ?_⟩
      rw [stands.wrote, if_neg before, if_neg (by rw [after, rest]; exact List.cons_ne_nil _ _)]

theorem step_stands (checked : job.Checked) (kept : s.Carries job) (stands : s.Stands job c)
    (done : Step env s a s') : s'.Follows env job c := by
  have child := kept.child
  have at_phase := stands.phase
  cases does_of_step done with
  | sends => exact Stands.stays (stands.of_eq rfl rfl rfl)
  | sendFails => exact Stands.stays (stands.of_eq rfl rfl rfl)
  | reads => exact Stands.stays (stands.of_eq rfl rfl rfl)
  | ends => exact Stands.stays (stands.of_eq rfl rfl rfl)
  | waits => exact Stands.stays (stands.of_eq rfl rfl rfl)
  | interrupted => exact stands.stays
  | receives receiving _ wanted => exact stands.receives checked child receiving wanted
  | locksDown filtering => exact stands.locksDown filtering _
  | refuses calling refused =>
    rw [calling] at child at_phase
    cases child with
    | calling _ fresh =>
      refine ⟨{ c with phase := .writing 0 }, ⟨rfl, by rintro _ _ ⟨⟩, ?_⟩, .inr ⟨.call, ?_⟩⟩
      · simp [stands.wrote, fresh.written]
      · simp [Child.exec, at_phase, refused, Server.phase]
  | calls calling prepared =>
    rw [calling] at at_phase
    refine ⟨{ c with phase := .inLibrary _, called := true }, ⟨rfl, by rintro _ _ ⟨⟩, stands.wrote⟩,
      .inr ⟨.call, ?_⟩⟩
    simp [Child.exec, at_phase, prepared, Server.phase]
  | @returns _ retBuf inside =>
    rw [inside] at child at_phase
    cases child with
    | inLibrary _ _ unwritten =>
      refine ⟨{ c with phase := .writing (ffiResult job.retTag retBuf) }, ⟨rfl, by rintro _ _ ⟨⟩, ?_⟩,
        .inr ⟨.libraryReturns retBuf, ?_⟩⟩
      · simp [stands.wrote, unwritten]
      · simp [Child.exec, at_phase, Server.phase]
  | writes writing _ there => exact stands.writes child writing there
  | dies running =>
    have running' : c.phase ≠ .gone := by
      rw [at_phase]
      cases at_child : s.child <;> simp_all [Server.phase]
    exact ⟨{ c with phase := .gone }, ⟨rfl, by rintro _ _ ⟨⟩, stands.wrote⟩, .inr ⟨.die, if_neg running'⟩⟩
  | forges writer => exact absurd writer kept.no_jobWriter
  | steals reader => exact absurd reader kept.no_resultReader

/-- The whole run. -/
theorem run_follows {start : Exchange t} (checked : job.Checked) (carries : start.Carries job)
    (stands : start.Stands job c) (run : Run (Step env) start as s) :
    ∃ actions c', Run (ofPartial (Child.exec env)) c actions c' ∧ s.Carries job ∧ s.Stands job c' := by
  induction run generalizing c with
  | nil => exact ⟨[], c, .nil, carries, stands⟩
  | cons first _ ih =>
    obtain ⟨m, stands', moved⟩ := step_stands checked carries stands first
    obtain ⟨actions, c', later, kept⟩ := ih (step_carries checked carries first) stands'
    rcases moved with rfl | ⟨action, acted⟩
    · exact ⟨actions, c', later, kept⟩
    · exact ⟨action :: actions, c', .cons acted later, kept⟩

/-- What a call that has returned gives is what the pool's model takes from the
child. -/
theorem Stands.gives (kept : s.Carries job) (stands : s.Stands job c)
    (returned : s.parent = .returned result) : c.phase = .gone ∧ result = c.wrote.getD 0 := by
  have parent := kept.parent
  rw [returned] at parent
  cases parent with
  | returned settled gone =>
    refine ⟨by rw [stands.phase, gone]; rfl, ?_⟩
    rcases settled with ⟨answered, whole⟩ | ⟨short, rfl⟩
    · simp [stands.wrote, whole, answered]
    · rw [stands.wrote, if_neg (Nat.ne_of_lt short)]
      rfl

end Exchange
end RlboxDynamic.JobExchange

namespace RlboxDynamic
open Transition JobExchange

/-- A call by its bytes, over pipes nobody else has, is a call of the pool's
model: whatever the pieces, the interruptions and the death, its child takes the
steps of that child, which gets the job and writes the result in one step each,
and a call that has returned gives what that child wrote, or 0. -/
theorem child_by_bytes {t : Target} {env : ShimEnv t} {job : Job t} {as : List (Action t)}
    {s start : Exchange t} {c : Child t} (checked : job.Checked)
    (first : (start, c) ∈ [(.pooled .nobody job, Child.worker.deliver job), (.inline .nobody job, .inline job)])
    (run : Run (Exchange.Step env) start as s) :
    ∃ actions c', Run (ofPartial (Child.exec env)) c actions c' ∧ s.Stands job c' ∧
      ∀ result, s.parent = .returned result → c'.phase = .gone ∧ result = c'.wrote.getD 0 := by
  have begins : start.Carries job ∧ start.Stands job c := by
    rcases List.mem_pair.mp first with same | same
    · cases same
      exact ⟨Exchange.pooled_carries checked, Exchange.pooled_stands job⟩
    · cases same
      exact ⟨Exchange.inline_carries job, Exchange.inline_stands job⟩
  obtain ⟨actions, c', acted, kept, stands⟩ := Exchange.run_follows checked begins.1 begins.2 run
  exact ⟨actions, c', acted, stands, fun _ returned => stands.gives kept returned⟩

/-- The exchange of a job of one argument, in pieces. -/
theorem child_by_bytes_in_pieces : ∃ as s actions c,
    Run (Exchange.Step poolOfOne) (.pooled .nobody ⟨0x2000, argSint32, [argSint32], [5]⟩) as s ∧
      s.parent = .returned 9 ∧
      Run (ofPartial (Child.exec poolOfOne))
        (Child.worker.deliver ⟨0x2000, argSint32, [argSint32], [5]⟩) actions c ∧
      c.phase = .gone ∧ c.wrote.getD 0 = 9 := by
  have ran : (execAll (Exchange.exec poolOfOne) (.pooled .nobody ⟨0x2000, argSint32, [argSint32], [5]⟩)
      [.send 5, .receive 2, .interrupted, .send 11, .receive 14, .send 4, .send 3, .receive 4, .send 5,
        .receive 7, .interrupted, .receive 1, .lockDown ⟨true, true⟩, .call, .libraryReturns 9,
        .write 3, .read 2, .write 5, .read 6, .wait]).map (·.parent) = some (.returned 9) := rfl
  obtain ⟨s, run, returned⟩ := exists_run ran
  obtain ⟨actions, c, acted, -, result⟩ := child_by_bytes ⟨rfl, by decide⟩ List.mem_cons_self run
  obtain ⟨gone, same⟩ := result 9 returned
  exact ⟨_, s, actions, c, run, returned, acted, gone, same.symm⟩

end RlboxDynamic
