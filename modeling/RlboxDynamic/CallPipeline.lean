import RlboxDynamic.Transition

/-! A client that sends some calls without waiting for their answers, to a server
that serves one connection in order and may get stuck in a call. It is compared
with a client of the same server that waits for each, and the server with one
that serves each call alike where it comes to it. Nothing here names a particular
system. -/
namespace RlboxDynamic.CallPipeline
open Transition

/-- The calls `ω` of a client with state `γ` to a server with state `σ`.
`answer` is what the server comes to unless it is stuck in the call; a call that
is not waited for has a known result and is served alike whatever the client
did since. -/
structure Calls (ω γ σ τ : Type) where
  issue : γ → ω → γ
  waits : ω → Bool
  answer : γ → σ → ω → τ × σ
  stuck : γ → σ → ω → Bool
  atOnce : ω → τ
  unwaited : ∀ c s op, waits op = false → (answer c s op).1 = atOnce op ∧ stuck c s op = false
  apart : ∀ c c' s op, waits op = false → (answer c s op).2 = (answer c' s op).2

/-- What a sequence of calls comes to. -/
structure Outcome (γ σ τ : Type) where
  results : List τ
  client : γ
  server : σ

/-- The client, the calls sent and not served, and the results so far. -/
structure Pipe (ω γ σ τ : Type) where
  client : γ
  todo : List ω
  queue : List ω
  waiting : Bool
  server : σ
  results : List τ

inductive Event where
  | send
  | serve
  deriving DecidableEq

variable {ω γ σ τ : Type}

namespace Calls
variable (calls : Calls ω γ σ τ)

/-- One call of a client that waits for each. -/
def next (o : Outcome γ σ τ) (op : ω) : Outcome γ σ τ :=
  let client := calls.issue o.client op
  let (result, server) := calls.answer client o.server op
  ⟨o.results ++ [result], client, server⟩

/-- All of them. -/
def inOrder (ops : List ω) (client : γ) (server : σ) : Outcome γ σ τ :=
  ops.foldl calls.next ⟨[], client, server⟩

/-- The server of these calls. -/
def serve (c : γ) (s : σ) (op : ω) : Option (τ × σ) :=
  if calls.stuck c s op then none else some (calls.answer c s op)

def exec (serve : γ → σ → ω → Option (τ × σ)) (s : Pipe ω γ σ τ) : Event → Option (Pipe ω γ σ τ)
  | .send =>
    match s.waiting, s.todo with
    | false, op :: todo =>
      some { s with
        client := calls.issue s.client op, todo, queue := s.queue ++ [op], waiting := calls.waits op
        results := if calls.waits op then s.results else s.results ++ [calls.atOnce op] }
    | _, _ => none
  | .serve =>
    match s.queue with
    | [] => none
    | op :: queue =>
      (serve s.client s.server op).map fun (result, server) =>
        if calls.waits op then
          { s with queue, server, waiting := false, results := s.results ++ [result] }
        else { s with queue, server }

/-- The pipeline with a server of its own. -/
abbrev StepOf (serve : γ → σ → ω → Option (τ × σ)) :
    Pipe ω γ σ τ → Event → Pipe ω γ σ τ → Prop :=
  ofPartial (calls.exec serve)

abbrev Step : Pipe ω γ σ τ → Event → Pipe ω γ σ τ → Prop := calls.StepOf calls.serve

end Calls

namespace Pipe

def start (ops : List ω) (client : γ) (server : σ) : Pipe ω γ σ τ :=
  { client, todo := ops, queue := [], waiting := false, server, results := [] }

/-- Every call is made and served. -/
structure Final (s : Pipe ω γ σ τ) : Prop where
  todo : s.todo = []
  queue : s.queue = []
  waiting : s.waiting = false

def outcome (s : Pipe ω γ σ τ) : Outcome γ σ τ := ⟨s.results, s.client, s.server⟩

end Pipe

/-! ## The calls in the queue -/

namespace Calls
variable {calls : Calls ω γ σ τ} {c c' : γ} {s : σ} {op : ω} {ops queue : List ω}

theorem inOrder_concat : calls.inOrder (ops ++ [op]) c s = calls.next (calls.inOrder ops c s) op := by
  simp [inOrder]

/-- Serving what is in the queue, with the client as it is. -/
def drain (calls : Calls ω γ σ τ) (c : γ) (s : σ) (queue : List ω) : σ :=
  queue.foldl (fun s op => (calls.answer c s op).2) s

theorem drain_concat :
    calls.drain c s (queue ++ [op]) = (calls.answer c (calls.drain c s queue) op).2 := by
  simp [drain]

theorem drain_apart (unwaited : ∀ op ∈ queue, calls.waits op = false) :
    calls.drain c s queue = calls.drain c' s queue := by
  induction queue generalizing s with
  | nil => rfl
  | cons op queue ih =>
    obtain ⟨head, rest⟩ := List.forall_mem_cons.mp unwaited
    change calls.drain c (calls.answer c s op).2 queue = calls.drain c' (calls.answer c' s op).2 queue
    rw [calls.apart c c' s op head]
    exact ih rest

end Calls

/-- The client is ahead of the server by the calls in the queue. Only the last
of them may be waited for, and then it is the first of those to come. -/
inductive Ahead (calls : Calls ω γ σ τ) (o : Outcome γ σ τ) : List ω → Pipe ω γ σ τ → Prop where
  | free (todo queue : List ω) (server : σ) (unwaited : ∀ op ∈ queue, calls.waits op = false)
      (drained : calls.drain o.client server queue = o.server) :
      Ahead calls o todo ⟨o.client, todo, queue, false, server, o.results⟩
  | waiting (op : ω) (todo queue : List ω) (server : σ) (waited : calls.waits op = true)
      (unwaited : ∀ op ∈ queue, calls.waits op = false)
      (drained : calls.drain o.client server queue = o.server) :
      Ahead calls o (op :: todo)
        ⟨calls.issue o.client op, todo, queue ++ [op], true, server, o.results⟩

/-- The server is stuck in none of the calls, each made after those before it. -/
def NeverStuck (calls : Calls ω γ σ τ) (client : γ) (server : σ) (ops : List ω) : Prop :=
  ∀ before op after, ops = before ++ op :: after →
    calls.stuck (calls.issue (calls.inOrder before client server).client op)
      (calls.inOrder before client server).server op = false

section
open Calls
variable {calls : Calls ω γ σ τ} {client : γ} {server : σ} {ops before rest : List ω} {op : ω}
  {u v : Pipe ω γ σ τ} {e : Event}

theorem NeverStuck.concat (never : NeverStuck calls client server before)
    (here : calls.stuck (calls.issue (calls.inOrder before client server).client op)
      (calls.inOrder before client server).server op = false) :
    NeverStuck calls client server (before ++ [op]) := by
  intro b o a split
  rcases List.eq_nil_or_concat a with rfl | ⟨a, last, rfl⟩
  · obtain ⟨rfl, same⟩ := List.append_inj' split rfl
    cases same
    exact here
  · rw [List.concat_eq_append, ← List.cons_append, ← List.append_assoc] at split
    exact never b o a (List.append_inj' split rfl).1

/-- Where the pipeline is in a sequence of calls: those before have come to what
they come to in order. -/
def Inv (calls : Calls ω γ σ τ) (client : γ) (server : σ) (ops : List ω) (u : Pipe ω γ σ τ) :
    Prop :=
  ∃ before rest, ops = before ++ rest ∧ NeverStuck calls client server before ∧
    Ahead calls (calls.inOrder before client server) rest u

theorem inv_start : Inv calls client server ops (.start ops client server) :=
  ⟨[], ops, rfl, fun b o a split => by simp at split, .free ops [] server (by simp) rfl⟩

theorem serve_free {c : γ} {s : σ} (free : calls.stuck c s op = false) :
    calls.serve c s op = some (calls.answer c s op) := by
  rw [Calls.serve, free]
  rfl

/-- A call not waited for is served at the head of any queue. -/
theorem serve_unwaited {c : γ} {s : σ} (unwaited : calls.waits op = false) :
    calls.serve c s op = some (calls.answer c s op) :=
  serve_free (calls.unwaited c s op unwaited).2

/-- An event leaves the pipeline as far ahead of what came before, or adds the
first of the calls to come to it. -/
theorem Ahead.step {o : Outcome γ σ τ} (ahead : Ahead calls o rest u) (step : calls.Step u e v) :
    Ahead calls o rest v ∨ ∃ op todo, rest = op :: todo ∧
      calls.stuck (calls.issue o.client op) o.server op = false ∧
      Ahead calls (calls.next o op) todo v := by
  cases ahead with
  | free _ queue now unwaited drained =>
    cases e with
    | send =>
      cases rest with
      | nil => cases step
      | cons op todo =>
        cases step
        cases waits : calls.waits op with
        | true => exact .inl (.waiting op todo queue now waits unwaited drained)
        | false =>
          obtain ⟨result, free⟩ :=
            calls.unwaited (calls.issue o.client op) o.server op waits
          have unwaited' : ∀ other ∈ queue ++ [op], calls.waits other = false :=
            List.forall_mem_append.mpr ⟨unwaited, List.forall_mem_singleton.mpr waits⟩
          have drained' : calls.drain (calls.issue o.client op) now (queue ++ [op]) =
              (calls.next o op).server := by
            rw [drain_concat, drain_apart unwaited, drained]
            rfl
          have sent : Ahead calls (calls.next o op) todo _ :=
            .free todo (queue ++ [op]) now unwaited' drained'
          refine .inr ⟨op, todo, rfl, free, ?_⟩
          have results : (calls.next o op).results = o.results ++ [calls.atOnce op] :=
            congrArg (o.results ++ [·]) result
          rw [results] at sent
          exact sent
    | serve =>
      cases queue with
      | nil => cases step
      | cons op queue =>
        obtain ⟨head, later⟩ := List.forall_mem_cons.mp unwaited
        obtain ⟨answered, served, same⟩ := Option.map_eq_some_iff.mp step
        obtain rfl := Option.some.inj ((serve_unwaited head).symm.trans served)
        simp only [head, Bool.false_eq_true, if_false] at same
        subst same
        exact .inl (.free rest queue _ later drained)
  | waiting op todo queue now waited unwaited drained =>
    cases e with
    | send => cases step
    | serve =>
      cases queue with
      | nil =>
        obtain ⟨answered, served, same⟩ := Option.map_eq_some_iff.mp step
        obtain ⟨free, answers⟩ :=
          Option.ite_none_left_eq_some.mp served
        obtain rfl := Option.some.inj answers
        simp only [waited, if_true] at same
        subst same
        obtain rfl : now = o.server := drained
        have further : Ahead calls (calls.next o op) todo _ :=
          .free todo [] _ (fun _ inside => by cases inside) rfl
        exact .inr ⟨op, todo, rfl, by simpa using free, further⟩
      | cons head queue =>
        obtain ⟨first, later⟩ := List.forall_mem_cons.mp unwaited
        obtain ⟨answered, served, same⟩ := Option.map_eq_some_iff.mp step
        obtain rfl := Option.some.inj ((serve_unwaited first).symm.trans served)
        simp only [first, Bool.false_eq_true, if_false] at same
        subst same
        have drained' : calls.drain o.client
            (calls.answer (calls.issue o.client op) now head).2 queue = o.server := by
          rw [calls.apart _ o.client now head first]
          exact drained
        exact .inl (.waiting op todo queue _ waited later drained')

theorem step_inv (inv : Inv calls client server ops u) (step : calls.Step u e v) :
    Inv calls client server ops v := by
  obtain ⟨before, rest, rfl, never, ahead⟩ := inv
  rcases ahead.step step with same | ⟨op, todo, rfl, free, further⟩
  · exact ⟨before, rest, rfl, never, same⟩
  · refine ⟨before ++ [op], todo, by simp, never.concat free, ?_⟩
    rw [inOrder_concat]
    exact further

/-- A pipeline that is done has come to what the calls come to in order, and was
stuck in none. -/
theorem Inv.final (inv : Inv calls client server ops u) (final : u.Final) :
    NeverStuck calls client server ops ∧ u.outcome = calls.inOrder ops client server := by
  obtain ⟨before, rest, rfl, never, ahead⟩ := inv
  obtain ⟨noTodo, noQueue, notWaiting⟩ := final
  cases ahead with
  | free _ queue now unwaited drained =>
    obtain rfl : rest = [] := noTodo
    obtain rfl : queue = [] := noQueue
    obtain rfl : now = (calls.inOrder before client server).server := drained
    rw [List.append_nil]
    exact ⟨never, rfl⟩
  | waiting => cases notWaiting

/-- Each event takes one of the two steps every call still has before it. -/
def stepsLeft (u : Pipe ω γ σ τ) : Nat := 2 * u.todo.length + u.queue.length

theorem step_stepsLeft (step : calls.Step u e v) : stepsLeft v < stepsLeft u := by
  cases e with
  | send =>
    obtain ⟨c, todo, queue, waiting, s, results⟩ := u
    cases waiting <;> cases todo <;> cases step
    simp only [stepsLeft, List.length_cons, List.length_append, List.length_nil]
    omega
  | serve =>
    obtain ⟨c, todo, queue, waiting, s, results⟩ := u
    cases queue with
    | nil => cases step
    | cons op queue =>
      obtain ⟨answered, -, same⟩ := Option.map_eq_some_iff.mp step
      dsimp only at same
      split at same <;> subst same <;> simp [stepsLeft]

/-- A pipeline that is not done moves, unless the server is stuck in the call
that is waited for. -/
theorem Inv.moves (inv : Inv calls client server ops u) (never : NeverStuck calls client server ops)
    (unfinished : ¬ u.Final) : ∃ e v, calls.Step u e v := by
  obtain ⟨before, rest, rfl, -, ahead⟩ := inv
  cases ahead with
  | free _ queue now unwaited drained =>
    cases queue with
    | nil =>
      cases rest with
      | nil => exact absurd ⟨rfl, rfl, rfl⟩ unfinished
      | cons op todo => exact ⟨.send, _, rfl⟩
    | cons op queue =>
      refine ⟨.serve, _, Option.map_eq_some_iff.mpr ⟨_, serve_unwaited ?_, rfl⟩⟩
      exact unwaited op List.mem_cons_self
  | waiting op todo queue now waited unwaited drained =>
    cases queue with
    | nil =>
      obtain rfl : now = (calls.inOrder before client server).server := drained
      have free := never before op todo rfl
      exact ⟨.serve, _, Option.map_eq_some_iff.mpr ⟨_, serve_free free, rfl⟩⟩
    | cons head queue =>
      refine ⟨.serve, _, Option.map_eq_some_iff.mpr ⟨_, serve_unwaited ?_, rfl⟩⟩
      exact unwaited head List.mem_cons_self

theorem Inv.finishes (inv : Inv calls client server ops u)
    (never : NeverStuck calls client server ops) : ∃ more v, Run calls.Step u more v ∧ v.Final := by
  generalize left : stepsLeft u = n
  induction n using Nat.strongRecOn generalizing u with
  | ind n ih =>
    by_cases final : u.Final
    · exact ⟨[], u, .nil, final⟩
    · obtain ⟨e, m, step⟩ := inv.moves never final
      have fewer : stepsLeft m < n := left ▸ step_stepsLeft step
      obtain ⟨more, v, run, final⟩ := ih _ fewer (step_inv inv step) rfl
      exact ⟨e :: more, v, .cons step run, final⟩

/-- The client has issued the calls up to the queue's last, the server served
those up to its first; only the last may be waited for. -/
structure Placed (calls : Calls ω γ σ τ) (client : γ) (server : σ) (ops : List ω)
    (u : Pipe ω γ σ τ) (served : List ω) : Prop where
  order : ops = served ++ u.queue ++ u.todo
  issued : u.client = (calls.inOrder (served ++ u.queue) client server).client
  reached : u.server = (calls.inOrder served client server).server
  unwaited : u.waiting = false → ∀ op ∈ u.queue, calls.waits op = false
  last : ∀ before op rest, u.queue = before ++ op :: rest → calls.waits op = true → rest = []

theorem placed_start : Placed calls client server ops (.start ops client server) [] where
  order := rfl
  issued := rfl
  reached := rfl
  unwaited _ _ inside := by cases inside
  last before op rest same := by simp [Pipe.start] at same

section
variable {served : List ω}

/-- A call that is waited for is served for the client that issued it. -/
theorem Placed.issues (placed : Placed calls client server ops u served)
    (queue : u.queue = op :: rest) (waited : calls.waits op = true) :
    u.client = calls.issue (calls.inOrder served client server).client op := by
  rw [placed.issued, queue, placed.last [] op rest queue waited, inOrder_concat]
  rfl

/-- What the first of the queue makes of the server is what it makes in order. -/
theorem Placed.answer (placed : Placed calls client server ops u served)
    (queue : u.queue = op :: rest) :
    (calls.answer u.client u.server op).2 =
      (calls.inOrder (served ++ [op]) client server).server := by
  rw [inOrder_concat, placed.reached]
  change _ = (calls.answer (calls.issue _ op) _ op).2
  cases waits : calls.waits op with
  | true => rw [placed.issues queue waits]
  | false => exact calls.apart _ _ _ op waits

theorem Placed.sent (placed : Placed calls client server ops u served) (todo : u.todo = op :: rest)
    (free : u.waiting = false) {results : List τ} :
    Placed calls client server ops
      ⟨calls.issue u.client op, rest, u.queue ++ [op], calls.waits op, u.server, results⟩ served where
  order := by rw [placed.order, todo]; simp
  issued := by
    rw [← List.append_assoc, inOrder_concat, placed.issued]
    rfl
  reached := placed.reached
  unwaited waits := List.forall_mem_append.mpr
    ⟨placed.unwaited free, List.forall_mem_singleton.mpr waits⟩
  last before head after split waited := by
    rcases List.eq_nil_or_concat after with rfl | ⟨after, final, rfl⟩
    · rfl
    · rw [List.concat_eq_append, ← List.cons_append, ← List.append_assoc] at split
      have earlier : u.queue = before ++ head :: after := (List.append_inj' split rfl).1
      have unwaited := placed.unwaited free head (by simp [earlier])
      simp [waited] at unwaited

theorem Placed.serves (placed : Placed calls client server ops u served)
    (queue : u.queue = op :: rest) {waiting : Bool} {results : List τ}
    (still : waiting = false → u.waiting = true → rest = []) :
    Placed calls client server ops
      ⟨u.client, u.todo, rest, waiting, (calls.answer u.client u.server op).2, results⟩
      (served ++ [op]) where
  order := by rw [placed.order, queue]; simp
  issued := by rw [placed.issued, queue]; simp
  reached := placed.answer queue
  unwaited free other inside := by
    cases before : u.waiting with
    | true =>
      rw [still free before] at inside
      cases inside
    | false => exact placed.unwaited before other (by simp [queue, inside])
  last before head after split waited :=
    placed.last (op :: before) head after (queue.trans (congrArg (op :: ·) split)) waited

theorem Placed.step (placed : Placed calls client server ops u served) (step : calls.Step u e v) :
    ∃ served', Placed calls client server ops v served' := by
  cases e with
  | send =>
    change calls.exec calls.serve u .send = some v at step
    simp only [exec] at step
    split at step
    next op todo free found =>
      cases step
      exact ⟨served, placed.sent found free⟩
    next => cases step
  | serve =>
    change calls.exec calls.serve u .serve = some v at step
    simp only [exec] at step
    split at step
    next => cases step
    next op queue found =>
      obtain ⟨answered, done, same⟩ := Option.map_eq_some_iff.mp step
      obtain rfl := Option.some.inj (Option.ite_none_left_eq_some.mp done).2
      refine ⟨served ++ [op], ?_⟩
      cases waits : calls.waits op with
      | true =>
        simp only [waits, if_true] at same
        subst same
        exact placed.serves found fun _ _ => placed.last [] op queue found waits
      | false =>
        simp only [waits, Bool.false_eq_true, if_false] at same
        subst same
        exact placed.serves found fun free waiting => by simp [free] at waiting

end

theorem run_placed {events : List Event} (run : Run calls.Step (.start ops client server) events u) :
    ∃ served, Placed calls client server ops u served :=
  run.recorded (fun _ u => ∃ served, Placed calls client server ops u served) []
    ⟨[], placed_start⟩ fun _ _ _ _ ⟨_, placed⟩ step => placed.step step

end
end RlboxDynamic.CallPipeline
