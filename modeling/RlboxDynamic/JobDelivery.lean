import RlboxDynamic.JobExchange

/-! What holds of a call however its bytes travel: the child gets the job whole or
does not call, and the result is the child's whole result or 0. -/
namespace RlboxDynamic.JobExchange
open LittleEndian Transition

/-- What the parent has still to write. -/
def Parent.unsent : Parent → List Byte
  | .sending left => left.flatten
  | _ => []

namespace Exchange
variable {t : Target} {env : ShimEnv t} {job : Job t} {s s' : Exchange t} {a : Action t}

/-- The child has not called yet. -/
structure Fresh (s : Exchange t) : Prop where
  calls : s.calls = []
  answer : s.answer = none
  written : s.written = []

/-- The result is what the child wrote, or 0 where it did not write it whole. -/
def Settled (s : Exchange t) (result : BitVec 64) : Prop :=
  (s.answer = some result ∧ s.written = wordBytes 8 result) ∨ (s.written.length < 8 ∧ result = 0)

/-- What the parent has of the result. -/
inductive ParentHolds (s : Exchange t) : Parent → Prop where
  | sending (more : left ≠ []) (full : ∀ buffer ∈ left, buffer ≠ []) (unwritten : s.written = [])
      (empty : s.results = []) : ParentHolds s (.sending left)
  | reading (short : got.length < 8) (bytes : got ++ s.results = s.written) :
      ParentHolds s (.reading got)
  | finishing (settled : s.Settled result) (gone : s.child = .gone) : ParentHolds s (.finishing result)
  | returned (settled : s.Settled result) (gone : s.child = .gone) : ParentHolds s (.returned result)

/-- What the child has of the job, and what it has done. -/
inductive ServerHolds (job : Job t) (s : Exchange t) : Server t → Prop where
  | receiving (for_job : part.Of job) (short : got.length < part.size)
      (bytes : got ++ s.jobs ++ s.parent.unsent = part.bytesFrom job) (fresh : s.Fresh) :
      ServerHolds job s (.receiving part got)
  | filtering (sent : s.parent.unsent = []) (fresh : s.Fresh) : ServerHolds job s (.filtering job)
  | calling (sent : s.parent.unsent = []) (fresh : s.Fresh) : ServerHolds job s (.calling job)
  | inLibrary (sent : s.parent.unsent = []) (called : s.calls = [job]) (unwritten : s.written = []) :
      ServerHolds job s (.inLibrary job)
  | writing (sent : s.parent.unsent = []) (called : s.calls = [job]) (answered : s.answer = some result)
      (bytes : s.written ++ left = wordBytes 8 result) (more : left ≠ []) :
      ServerHolds job s (.writing left)
  | gone (called : s.calls = [] ∨ s.calls = [job])
      (bytes : s.written = [] ∨ ∃ result, s.answer = some result ∧ s.written <+: wordBytes 8 result) :
      ServerHolds job s .gone

/-- A call that carries the job, with its pipes to itself. -/
structure Carries (job : Job t) (s : Exchange t) : Prop where
  parent : s.ParentHolds s.parent
  child : s.ServerHolds job s.child
  alone : s.strays = .nobody

theorem Carries.no_jobWriter (kept : s.Carries job) : s.strays.jobWriter ≠ true := by
  rw [kept.alone]
  exact Bool.false_ne_true

theorem Carries.no_resultReader (kept : s.Carries job) : s.strays.resultReader ≠ true := by
  rw [kept.alone]
  exact Bool.false_ne_true

variable {part : JobPart} {got : List Byte}

theorem buffers_full (checked : job.Checked) : ∀ buffer ∈ job.buffers, buffer ≠ [] := by
  intro buffer inside
  apply List.ne_nil_of_length_pos
  unfold Job.buffers at inside
  split at inside
  next =>
    obtain rfl := List.mem_singleton.mp inside
    simp
  next args =>
    have tags := List.length_pos_iff.mpr args
    have values := checked.same ▸ tags
    rcases List.mem_cons.mp inside with rfl | inside
    · simp
    · rcases List.mem_pair.mp inside with rfl | rfl
      · simpa using tags
      · simpa using values

theorem pooled_carries (checked : job.Checked) : (pooled .nobody job).Carries job where
  parent := by
    refine .sending ?_ (buffers_full checked) rfl rfl
    unfold Job.buffers
    split <;> simp
  child := .receiving .header (by decide) (by simp [pooled, Parent.unsent, JobPart.bytesFrom]) ⟨rfl, rfl, rfl⟩
  alone := rfl

theorem inline_carries (job : Job t) : (inline .nobody job).Carries job where
  parent := .reading (by decide) rfl
  child := .calling rfl ⟨rfl, rfl, rfl⟩
  alone := rfl

theorem carries_start (checked : job.Checked) (first : s ∈ [pooled .nobody job, inline .nobody job]) :
    s.Carries job := by
  rcases List.mem_pair.mp first with rfl | rfl
  · exact pooled_carries checked
  · exact inline_carries job

/-! ## The parent's loops -/

theorem unsent_sendOn (left : List Byte) (rest : List (List Byte)) :
    (Parent.sendOn left rest).unsent = left ++ rest.flatten := by
  unfold Parent.sendOn
  split <;> simp [Parent.unsent]

/-- A parent that writes has no bytes of the result yet. -/
theorem parentHolds_sendOn {u : Exchange t} (left : List Byte) (full : ∀ buffer ∈ rest, buffer ≠ [])
    (unwritten : u.written = []) (empty : u.results = []) : u.ParentHolds (.sendOn left rest) := by
  unfold Parent.sendOn
  split
  next => exact .reading (by decide) (by simp [unwritten, empty])
  next => exact .sending (List.cons_ne_nil _ _) full unwritten empty
  next =>
    refine .sending (List.cons_ne_nil _ _) (fun buffer inside => ?_) unwritten empty
    rcases List.mem_cons.mp inside with rfl | later
    · exact List.cons_ne_nil _ _
    · exact full buffer later

/-- The child is the same to the parent, or has had no effect on it. -/
theorem ServerHolds.send (holds : s.ServerHolds job c)
    (unsent : s'.jobs ++ s'.parent.unsent = s.jobs ++ s.parent.unsent)
    (sent : s.parent.unsent = [] → s'.parent.unsent = [])
    (calls : s'.calls = s.calls) (answer : s'.answer = s.answer) (written : s'.written = s.written) :
    s'.ServerHolds job c := by
  have fresh : s.Fresh → s'.Fresh := fun old =>
    ⟨calls.trans old.calls, answer.trans old.answer, written.trans old.written⟩
  cases holds with
  | receiving for_job short bytes old =>
    refine .receiving for_job short ?_ (fresh old)
    rw [List.append_assoc, unsent, ← List.append_assoc, bytes]
  | filtering done old => exact .filtering (sent done) (fresh old)
  | calling done old => exact .calling (sent done) (fresh old)
  | inLibrary done called unwritten =>
    exact .inLibrary (sent done) (calls.trans called) (written.trans unwritten)
  | writing done called answered bytes more =>
    exact .writing (sent done) (calls.trans called) (answer.trans answered) (written ▸ bytes) more
  | gone called bytes =>
    refine .gone (calls ▸ called) ?_
    rw [answer, written]
    exact bytes

/-- What a `read_full` of the whole result makes of it. -/
theorem settled_of_whole (holds : s.ServerHolds job s.child) (whole : got ++ s.results = s.written)
    (length : (got ++ s.results.take k).length = 8) :
    s.Settled (bytesWord 64 (got ++ s.results.take k)) ∧ s.child = .gone := by
  have eight : 8 ≤ s.written.length := by
    rw [← whole]
    simp only [List.length_append, List.length_take] at length ⊢
    omega
  have finished : ∀ {result}, s.answer = some result → s.written <+: wordBytes 8 result →
      s.Settled (bytesWord 64 (got ++ s.results.take k)) := by
    intro result answered part
    have all : s.written = wordBytes 8 result :=
      part.eq_of_length (Nat.le_antisymm (by simpa using part.length_le) (by simpa using eight))
    have taken : got ++ s.results.take k = s.written := by
      have prefix_ : got ++ s.results.take k <+: s.written := by
        rw [← whole]
        exact (List.prefix_append_right_inj got).mpr (List.take_prefix k s.results)
      refine prefix_.eq_of_length ?_
      rw [length, all, length_wordBytes]
    rw [taken, all, bytesWord_wordBytes (n := 8) result (by omega)]
    exact .inl ⟨answered, all⟩
  generalize at_child : s.child = child at holds
  cases holds with
  | receiving _ _ _ fresh => simp [fresh.written] at eight
  | filtering _ fresh => simp [fresh.written] at eight
  | calling _ fresh => simp [fresh.written] at eight
  | inLibrary _ _ unwritten => simp [unwritten] at eight
  | writing _ _ _ bytes more =>
    have total := congrArg List.length bytes
    have pos := List.length_pos_iff.mpr more
    simp only [List.length_append, length_wordBytes] at total
    omega
  | gone _ bytes =>
    rcases bytes with none | ⟨result, answered, part⟩
    · simp [none] at eight
    · exact ⟨finished answered part, rfl⟩

/-! ## The child's loops -/

theorem length_bytesFrom (for_job : part.Of job) (checked : job.Checked) :
    part.size ≤ (part.bytesFrom job).length := by
  cases for_job with
  | header =>
    rw [JobPart.bytesFrom, Job.buffers]
    split <;> simp [JobPart.size]
  | tags => simp [JobPart.bytesFrom, JobPart.size, checked.nargs]
  | values => simp [JobPart.bytesFrom, JobPart.size, checked.nargs, checked.same]

theorem received_header (checked : job.Checked) :
    Server.received t job.header.toBytes .header =
      if job.argTags = [] then .filtering job else .receiving (.tags job.header) [] := by
  have few := checked.few
  rw [Server.received, WireJobHeader.ofBytes_toBytes, if_neg (by rw [checked.nargs]; omega)]
  by_cases none : job.argTags = []
  · have zero : job.header.nargs = 0 := by rw [Job.header, none]; rfl
    have values : job.argValues = [] := by
      rw [← List.length_eq_zero_iff, ← checked.same, none]
      rfl
    have same := job.job_header
    rw [none, values] at same
    rw [if_pos zero, if_pos none, same]
  · rw [if_neg none, if_neg]
    intro zero
    apply none
    rw [← List.length_eq_zero_iff, ← checked.nargs, zero]
    rfl

theorem received_tags (checked : job.Checked) :
    Server.received t (wordsBytes 4 job.argTags) (.tags job.header) =
      .receiving (.values job.header job.argTags) [] := by
  rw [Server.received, checked.nargs, bytesWords_wordsBytes job.argTags (by omega)]

theorem received_values (checked : job.Checked) :
    Server.received t (wordsBytes 8 job.argValues) (.values job.header job.argTags) = .filtering job := by
  rw [Server.received, checked.nargs, checked.same,
    bytesWords_wordsBytes job.argValues (by omega), Job.job_header]

/-- The worker takes from the bytes of the job what it is to take. -/
theorem serverHolds_received {u : Exchange t} (checked : job.Checked) (for_job : part.Of job)
    (whole : got.length = part.size) (bytes : got ++ u.jobs ++ u.parent.unsent = part.bytesFrom job)
    (fresh : u.Fresh) :
    u.ServerHolds job (.received t got part) ∧ Server.received t got part ≠ .gone := by
  rw [List.append_assoc] at bytes
  cases for_job with
  | header =>
    have more : (JobPart.header.bytesFrom job) =
        job.header.toBytes ++ if job.argTags = [] then [] else (JobPart.tags job.header).bytesFrom job := by
      rw [JobPart.bytesFrom, Job.buffers]
      split <;> simp [JobPart.bytesFrom]
    rw [more] at bytes
    obtain ⟨rfl, rest⟩ := List.append_inj bytes (by rw [whole, WireJobHeader.length_toBytes]; rfl)
    rw [received_header checked]
    split at rest
    next none =>
      rw [if_pos none]
      exact ⟨.filtering (List.append_eq_nil_iff.mp rest).2 fresh, nofun⟩
    next args =>
      have pos := List.length_pos_iff.mpr args
      rw [if_neg args]
      refine ⟨.receiving (.tags args) ?_ rest fresh, nofun⟩
      simp only [JobPart.size, checked.nargs, List.length_nil]
      omega
  | tags args =>
    obtain ⟨rfl, rest⟩ := List.append_inj bytes (by simp [whole, JobPart.size, checked.nargs])
    have pos := List.length_pos_iff.mpr args
    rw [received_tags checked]
    refine ⟨.receiving (.values args) ?_ rest fresh, nofun⟩
    simp only [JobPart.size, checked.nargs, List.length_nil]
    omega
  | values args =>
    rw [JobPart.bytesFrom, ← List.append_nil (wordsBytes 8 _)] at bytes
    obtain ⟨rfl, rest⟩ := List.append_inj bytes
      (by simp [whole, JobPart.size, checked.nargs, checked.same])
    rw [received_values checked]
    exact ⟨.filtering (List.append_eq_nil_iff.mp rest).2 fresh, nofun⟩

/-- A worker that has read and not exited still reads, or has the job. -/
theorem receiveOn_cases (alive : Server.receiveOn t part got ≠ .gone) :
    (∃ part' got', Server.receiveOn t part got = .receiving part' got') ∨
      ∃ job, Server.receiveOn t part got = .filtering job := by
  unfold Server.receiveOn at alive ⊢
  split at alive
  next whole =>
    rw [if_pos whole]
    cases part with
    | header =>
      rw [Server.received] at alive ⊢
      split at alive
      next => exact absurd rfl alive
      next few =>
        rw [if_neg few]
        split
        next => exact .inr ⟨_, rfl⟩
        next => exact .inl ⟨_, _, rfl⟩
    | tags => exact .inl ⟨_, _, rfl⟩
    | values => exact .inr ⟨_, rfl⟩
  next less =>
    rw [if_neg less]
    exact .inl ⟨_, _, rfl⟩

/-- The worker after any `read` of the job. -/
theorem serverHolds_receives (checked : job.Checked) (for_job : part.Of job)
    (short : got.length < part.size) (bytes : got ++ s.jobs ++ s.parent.unsent = part.bytesFrom job)
    (wanted : k ≤ part.size - got.length) (fresh : s.Fresh) :
    ({ s with
        child := .receiveOn t part (got ++ s.jobs.take k), jobs := s.jobs.drop k } :
      Exchange t).ServerHolds job (.receiveOn t part (got ++ s.jobs.take k)) ∧
      Server.receiveOn t part (got ++ s.jobs.take k) ≠ .gone := by
  have within : (got ++ s.jobs.take k).length ≤ part.size := by
    simp only [List.length_append, List.length_take]
    omega
  have more : got ++ s.jobs.take k ++ s.jobs.drop k ++ s.parent.unsent = part.bytesFrom job := by
    rw [List.append_assoc got, List.take_append_drop, bytes]
  have fresh' : ({ s with
      child := .receiveOn t part (got ++ s.jobs.take k), jobs := s.jobs.drop k } : Exchange t).Fresh :=
    ⟨fresh.calls, fresh.answer, fresh.written⟩
  generalize got ++ s.jobs.take k = bytes' at within more fresh' ⊢
  unfold Server.receiveOn at fresh' ⊢
  split
  next whole =>
    rw [if_pos whole] at fresh'
    exact serverHolds_received checked for_job whole more ⟨fresh'.calls, fresh'.answer, fresh'.written⟩
  next less =>
    exact ⟨.receiving for_job (Nat.lt_of_le_of_ne within less) more
      ⟨fresh'.calls, fresh'.answer, fresh'.written⟩, nofun⟩

/-- A step of a child that is not gone, and that writes nothing. -/
theorem ParentHolds.childMoves (holds : s.ParentHolds p) (running : s.child ≠ .gone)
    (results : s'.results = s.results) (written : s'.written = s.written) : s'.ParentHolds p := by
  cases holds with
  | sending more full unwritten empty =>
    exact .sending more full (written.trans unwritten) (results.trans empty)
  | reading short bytes => exact .reading short (by rw [results, written, bytes])
  | finishing _ gone => exact absurd gone running
  | returned _ gone => exact absurd gone running

/-- A child that is not gone and has got all of the job has a parent that reads. -/
theorem ParentHolds.reads (holds : s.ParentHolds p) (sent : p.unsent = [])
    (running : s.child ≠ .gone) : ∃ got, p = .reading got := by
  cases holds with
  | @sending left more full =>
    obtain ⟨buffer, rest, rfl⟩ := List.exists_cons_of_ne_nil more
    have none := (List.append_eq_nil_iff.mp sent).1
    exact absurd none (full buffer List.mem_cons_self)
  | @reading got => exact ⟨got, rfl⟩
  | finishing _ gone => exact absurd gone running
  | returned _ gone => exact absurd gone running

@[simp] theorem unsent_readOn (got : List Byte) : (Parent.readOn got).unsent = [] := by
  unfold Parent.readOn
  split <;> rfl

/-! ## The parent's steps -/

theorem Carries.sends (kept : s.Carries job) (sending : s.parent = .sending (buffer :: rest)) (k : Nat) :
    ({ s with parent := .sendOn (buffer.drop k) rest, jobs := s.jobs ++ buffer.take k } :
      Exchange t).Carries job := by
  obtain ⟨parent, child, alone⟩ := kept
  have unsent : s.parent.unsent = buffer ++ rest.flatten := by simp [sending, Parent.unsent]
  rw [sending] at parent
  cases parent with
  | sending _ full unwritten empty =>
    constructor
    · exact parentHolds_sendOn _ (fun later inside => full later (List.mem_cons_of_mem _ inside))
        unwritten empty
    · refine child.send ?_ ?_ rfl rfl rfl
      · rw [unsent, unsent_sendOn, List.append_assoc, ← List.append_assoc (buffer.take k),
          List.take_append_drop]
      · intro none
        rw [unsent, List.append_eq_nil_iff] at none
        exact absurd none.1 (full buffer List.mem_cons_self)
    · exact alone

theorem Carries.reads (kept : s.Carries job) (reading : s.parent = .reading got)
    (wanted : k ≤ 8 - got.length) :
    ({ s with parent := .readOn (got ++ s.results.take k), results := s.results.drop k } :
      Exchange t).Carries job := by
  obtain ⟨parent, child, alone⟩ := kept
  rw [reading] at parent
  have unsent : s.parent.unsent = [] := by rw [reading]; rfl
  have child' : ServerHolds job { s with
      parent := .readOn (got ++ s.results.take k), results := s.results.drop k } s.child := by
    refine child.send ?_ ?_ rfl rfl rfl
    · simp [unsent]
    · exact fun _ => unsent_readOn _
  refine ⟨?_, child', alone⟩
  cases parent with
  | reading short bytes =>
    unfold Parent.readOn
    split
    next whole =>
      obtain ⟨settled, gone⟩ := settled_of_whole child bytes whole
      exact .finishing settled gone
    next less =>
      refine .reading ?_ (by simp [← bytes])
      simp only [List.length_append, List.length_take] at less ⊢
      omega

/-- The parent goes on without its child. -/
theorem Carries.afterChild (kept : s.Carries job) (gone : s.child = .gone)
    (parent : ({ s with parent := p } : Exchange t).ParentHolds p) :
    ({ s with parent := p } : Exchange t).Carries job := by
  have child := kept.child
  rw [gone] at child
  refine ⟨parent, ?_, kept.alone⟩
  cases child with
  | gone called bytes => exact gone ▸ .gone called bytes

/-! ## The child's steps -/

/-- A step of a child that writes nothing. -/
theorem Carries.childMoves (kept : s.Carries job) (child : s.child = c) (running : c ≠ .gone)
    (strays : s'.strays = s.strays) (parent : s'.parent = s.parent) (results : s'.results = s.results) (written : s'.written = s.written)
    (moves : s.ServerHolds job c → s'.ServerHolds job s'.child) : s'.Carries job := by
  subst child
  exact ⟨parent ▸ kept.parent.childMoves running results written, moves kept.child,
    strays.trans kept.alone⟩

theorem Carries.writes (kept : s.Carries job) (writing : s.child = .writing left) (k : Nat) :
    ({ s with
        child := .writeOn (left.drop k), results := s.results ++ left.take k
        written := s.written ++ left.take k } : Exchange t).Carries job := by
  obtain ⟨parent, child, alone⟩ := kept
  have running : s.child ≠ .gone := by simp [writing]
  rw [writing] at child
  cases child with
  | @writing result _ sent called answered bytes =>
    obtain ⟨got, reading⟩ := parent.reads sent running
    have whole : s.written ++ left.take k ++ left.drop k = wordBytes 8 result := by
      rw [List.append_assoc, List.take_append_drop, bytes]
    constructor
    · dsimp only
      rw [reading] at parent ⊢
      cases parent with
      | reading short same => exact .reading short (by rw [← List.append_assoc, same])
    · dsimp only
      unfold Server.writeOn
      split
      next none =>
        rw [none, List.append_nil] at whole
        exact .gone (.inr called) (.inr ⟨result, answered, whole ▸ List.prefix_rfl⟩)
      next byte rest some_left =>
        exact .writing sent called answered (some_left ▸ whole) (List.cons_ne_nil _ _)
    · exact alone

theorem Carries.dies (kept : s.Carries job) (running : s.child ≠ .gone) :
    ({ s with child := .gone } : Exchange t).Carries job := by
  refine kept.childMoves rfl running rfl rfl rfl rfl fun child => ?_
  dsimp only
  generalize s.child = c at child
  cases child with
  | receiving _ _ _ fresh => exact .gone (.inl fresh.calls) (.inl fresh.written)
  | filtering _ fresh => exact .gone (.inl fresh.calls) (.inl fresh.written)
  | calling _ fresh => exact .gone (.inl fresh.calls) (.inl fresh.written)
  | inLibrary _ called unwritten => exact .gone (.inr called) (.inl unwritten)
  | writing _ called answered bytes _ =>
    exact .gone (.inr called) (.inr ⟨_, answered, bytes ▸ List.prefix_append _ _⟩)
  | gone called bytes => exact .gone called bytes

theorem step_carries (checked : job.Checked) (kept : s.Carries job) (done : Step env s a s') :
    s'.Carries job := by
  cases does_of_step done with
  | sends sending => exact kept.sends sending _
  | sendFails sending gone =>
    have parent := kept.parent
    rw [sending] at parent
    cases parent with
    | sending _ _ unwritten =>
      exact kept.afterChild gone (.finishing (.inr ⟨by simp [unwritten], rfl⟩) gone)
  | reads reading _ wanted => exact kept.reads reading wanted
  | ends reading empty gone =>
    have parent := kept.parent
    rw [reading] at parent
    cases parent with
    | reading short bytes =>
      rw [empty, List.append_nil] at bytes
      exact kept.afterChild gone (.finishing (.inr ⟨bytes ▸ short, rfl⟩) gone)
  | waits finishing gone =>
    have parent := kept.parent
    rw [finishing] at parent
    cases parent with
    | finishing settled => exact kept.afterChild gone (.returned settled gone)
  | receives receiving _ wanted =>
    refine kept.childMoves receiving (by simp) rfl rfl rfl rfl fun child => ?_
    cases child with
    | receiving for_job short bytes fresh =>
      exact (serverHolds_receives checked for_job short bytes wanted fresh).1
  | locksDown filtering =>
    refine kept.childMoves filtering (by simp) rfl rfl rfl rfl fun child => ?_
    cases child with
    | filtering sent fresh =>
      dsimp only
      split
      · exact .calling sent ⟨fresh.calls, fresh.answer, fresh.written⟩
      · exact .gone (.inl fresh.calls) (.inl fresh.written)
  | refuses calling =>
    refine kept.childMoves calling (by simp) rfl rfl rfl rfl fun child => ?_
    cases child with
    | calling sent fresh =>
      exact .writing sent (by simp [fresh.calls]) rfl (by simp [fresh.written])
        (List.ne_nil_of_length_pos (by simp))
  | calls calling =>
    refine kept.childMoves calling (by simp) rfl rfl rfl rfl fun child => ?_
    cases child with
    | calling sent fresh => exact .inLibrary sent (by simp [fresh.calls]) fresh.written
  | returns inside =>
    refine kept.childMoves inside (by simp) rfl rfl rfl rfl fun child => ?_
    cases child with
    | inLibrary sent called unwritten =>
      exact .writing sent called rfl (by simp [unwritten]) (List.ne_nil_of_length_pos (by simp))
  | writes writing => exact kept.writes writing _
  | dies running => exact kept.dies running
  | interrupted => exact kept
  | forges writer => exact absurd writer kept.no_jobWriter
  | steals reader => exact absurd reader kept.no_resultReader

end Exchange
end RlboxDynamic.JobExchange
