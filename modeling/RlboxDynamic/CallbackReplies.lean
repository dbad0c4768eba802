import RlboxDynamic.CallbackMessages
import RlboxDynamic.CallbackStream

/-! Which response a firing gets. The stream has no request identifiers: a
response is the firing's own as long as every earlier firing that began to write
its request has read all of its response. -/
namespace RlboxDynamic.CallbackStream
open LittleEndian MessageFraming Transition

namespace Channel
variable {requests : Framing CallbackRequest} {responses : Framing (BitVec 64)} {s s' : Channel}
  {a : Action}

/-- Every response that was returned is what the host computed for just that
firing and what it asked for. -/
def Matched (s : Channel) : Prop :=
  ∀ firing result, (firing, some result) ∈ s.returned →
    ∃ request, s.fired[firing]? = some request ∧ ⟨some firing, request, result⟩ ∈ s.computed

/-- The callback thread is gone and none of its bytes are left to read. -/
def Over (s : Channel) : Prop := s.host = .stopped ∧ s.responses = []

/-- No worker dies once it has begun to write a request and before it has all of
the response, as long as there can be one. -/
def Uncut (requests : Framing CallbackRequest) (s : Channel) : Action → Prop
  | .die =>
    match s.firer with
    | .idle => True
    | .writing _ request left => left = requests.encode request ∨ s.Over
    | .reading _ _ => s.Over
  | _ => True

/-- The worker and the host are at the same point of one exchange. -/
inductive InSync (requests : Framing CallbackRequest) (responses : Framing (BitVec 64)) (s : Channel) :
    Firer → Host → Prop where
  | idle (unasked : s.requests = []) (unanswered : s.responses = []) :
      InSync requests responses s .idle (.reading [])
  | idleStopped (unanswered : s.responses = []) : InSync requests responses s .idle .stopped
  | writing (frames : requests.Frames request) (asked : s.fired[firing]? = some request) (sent : requests.encode request = p ++ left)
      (more : left ≠ []) (bytes : got ++ s.requests = tagged firing p) (unanswered : s.responses = []) :
      InSync requests responses s (.writing firing request left) (.reading got)
  | writingStopped (more : left ≠ []) (unanswered : s.responses = []) :
      InSync requests responses s (.writing firing request left) .stopped
  | asked (frames : requests.Frames request) (asked : s.fired[firing]? = some request)
      (bytes : got ++ s.requests = tagged firing (requests.encode request)) (more : s.requests ≠ [])
      (unanswered : s.responses = []) : InSync requests responses s (.reading firing []) (.reading got)
  | dispatching (asked : s.fired[firing]? = some request) (taken : s.requests = [])
      (unanswered : s.responses = []) :
      InSync requests responses s (.reading firing []) (.dispatching (some firing) request)
  | answering (asked : s.fired[firing]? = some request) (taken : s.requests = [])
      (computed : ⟨some firing, request, result⟩ ∈ s.computed)
      (bytes : responses.encode result = got ++ (s.responses ++ left)) (more : left ≠ []) :
      InSync requests responses s (.reading firing got) (.writing left)
  | answered (asked : s.fired[firing]? = some request) (taken : s.requests = [])
      (computed : ⟨some firing, request, result⟩ ∈ s.computed)
      (bytes : responses.encode result = got ++ s.responses) (more : s.responses ≠ []) :
      InSync requests responses s (.reading firing got) (.reading [])
  | answeringStopped (asked : s.fired[firing]? = some request)
      (computed : ⟨some firing, request, result⟩ ∈ s.computed)
      (bytes : responses.encode result = got ++ (s.responses ++ left)) (more : s.responses ++ left ≠ []) :
      InSync requests responses s (.reading firing got) .stopped
  | readingStopped (unanswered : s.responses = []) :
      InSync requests responses s (.reading firing []) .stopped

/-- What was returned is nothing to it. -/
theorem InSync.of_same (inSync : s.InSync requests responses f h)
    (queue : s'.requests = s.requests) (answers : s'.responses = s.responses)
    (fired : s'.fired = s.fired) (computed : s'.computed = s.computed) :
    s'.InSync requests responses f h := by
  obtain ⟨_, _, _, _, _, _, _⟩ := s
  obtain ⟨_, _, _, _, _, _, _⟩ := s'
  dsimp only at queue answers fired computed
  subst queue answers fired computed
  cases inSync with
  | idle unasked unanswered => exact .idle unasked unanswered
  | idleStopped unanswered => exact .idleStopped unanswered
  | writing frames asked sent more bytes unanswered =>
    exact .writing frames asked sent more bytes unanswered
  | writingStopped more unanswered => exact .writingStopped more unanswered
  | asked frames asked bytes more unanswered => exact .asked frames asked bytes more unanswered
  | dispatching asked taken unanswered => exact .dispatching asked taken unanswered
  | answering asked taken computed bytes more => exact .answering asked taken computed bytes more
  | answered asked taken computed bytes more => exact .answered asked taken computed bytes more
  | answeringStopped asked computed bytes more => exact .answeringStopped asked computed bytes more
  | readingStopped unanswered => exact .readingStopped unanswered

/-- All that is kept where no exchange is cut short. -/
structure Orderly (requests : Framing CallbackRequest) (responses : Framing (BitVec 64)) (s : Channel) :
    Prop where
  inSync : s.InSync requests responses s.firer s.host
  matched : s.Matched

theorem Orderly.of (inSync : s.InSync requests responses f h) (firer : s.firer = f) (host : s.host = h)
    (matched : s.Matched) : s.Orderly requests responses := by
  subst firer host
  exact ⟨inSync, matched⟩

theorem start_orderly : start.Orderly requests responses where
  inSync := .idle rfl rfl
  matched _ _ inside := nomatch inside

@[simp] theorem map_fst_tagged (firing : FiringId) (bytes : List Byte) :
    (tagged firing bytes).map Prod.fst = bytes := by
  simp [tagged, Function.comp_def]

theorem soleOwner_tagged (some_bytes : bytes ≠ []) : soleOwner (tagged firing bytes) = some firing := by
  cases bytes with
  | nil => exact absurd rfl some_bytes
  | cons byte rest => simp [tagged, soleOwner]

/-- What the host has of the message is what the worker has put into the stream. -/
theorem got_of_tagged (bytes : got ++ queue = tagged firing p) :
    ∃ q rest, p = q ++ rest ∧ got = tagged firing q ∧ queue = tagged firing rest := by
  obtain ⟨q, rest, rfl, rfl, rfl⟩ := List.map_eq_append_iff.mp bytes.symm
  exact ⟨q, rest, rfl, rfl, rfl⟩

theorem Matched.of_same (matched : s.Matched) (returned : s'.returned = s.returned)
    (fired : ∀ (firing : FiringId) request, s.fired[firing]? = some request →
      s'.fired[firing]? = some request)
    (computed : ∀ c ∈ s.computed, c ∈ s'.computed) : s'.Matched := by
  intro firing result inside
  rw [returned] at inside
  obtain ⟨request, asked, answered⟩ := matched firing result inside
  exact ⟨request, fired firing request asked, computed _ answered⟩

/-- A firing that ends with an exception returns no response. -/
theorem Matched.fails (matched : s.Matched) (firing : FiringId) :
    ({ s with firer := .idle, returned := s.returned ++ [(firing, none)] } : Channel).Matched := by
  intro firing' result inside
  rcases List.mem_append.mp inside with old | new
  · exact matched firing' result old
  · simp at new

/-! ## The worker's steps -/

theorem Orderly.fires (frames : requests.Frames request) (kept : s.Orderly requests responses)
    (idle : s.firer = .idle) :
    ({ s with
        firer := .writing s.fired.length request (requests.encode request)
        fired := s.fired ++ [request] } : Channel).Orderly requests responses := by
  obtain ⟨inSync, matched⟩ := kept
  rw [idle] at inSync
  obtain ⟨h, at_host⟩ : ∃ h, s.host = h := ⟨_, rfl⟩
  rw [at_host] at inSync
  have matched' : ({ s with
      firer := .writing s.fired.length request (requests.encode request), fired := s.fired ++ [request] } :
        Channel).Matched :=
    matched.of_same rfl
      (fun _ _ asked => List.getElem?_append_left (List.getElem?_eq_some_iff.mp asked).1 ▸ asked)
      fun _ => id
  cases inSync with
  | idle unasked unanswered =>
    exact .of (.writing (p := []) frames List.getElem?_concat_length rfl frames.some_bytes
      (by rw [unasked]; rfl) unanswered) rfl at_host matched'
  | idleStopped unanswered =>
    exact .of (.writingStopped frames.some_bytes unanswered) rfl at_host matched'

theorem Orderly.writes (kept : s.Orderly requests responses)
    (writing : s.firer = .writing firing request left) (some_bytes : 0 < k) (there : k ≤ left.length) :
    ({ s with
        firer := if left.drop k = [] then .reading firing [] else .writing firing request (left.drop k)
        requests := s.requests ++ tagged firing (left.take k) } : Channel).Orderly requests responses := by
  obtain ⟨inSync, matched⟩ := kept
  rw [writing] at inSync
  obtain ⟨h, at_host⟩ : ∃ h, s.host = h := ⟨_, rfl⟩
  rw [at_host] at inSync
  have all := List.take_append_drop k left
  have taken : left.take k ≠ [] := List.ne_nil_of_length_pos (by rw [List.length_take]; omega)
  have matched' : ∀ f, ({ s with
      firer := f, requests := s.requests ++ tagged firing (left.take k) } : Channel).Matched :=
    fun _ => matched.of_same rfl (fun _ _ => id) fun _ => id
  cases inSync with
  | @writing _ _ p _ got frames asked sent more bytes unanswered =>
    have bytes' : got ++ (s.requests ++ tagged firing (left.take k)) = tagged firing (p ++ left.take k) := by
      rw [← List.append_assoc, bytes, tagged, tagged, tagged, List.map_append]
    by_cases last : left.drop k = []
    · rw [last, List.append_nil] at all
      refine .of (.asked frames asked (bytes'.trans (by rw [sent, all])) ?_ unanswered) (if_pos last) at_host
        (matched' _)
      intro none
      rw [List.append_eq_nil_iff, tagged, List.map_eq_nil_iff] at none
      exact taken none.2
    · exact .of (.writing frames asked (by rw [sent, List.append_assoc, all]) last bytes' unanswered)
        (if_neg last) at_host (matched' _)
  | writingStopped more unanswered =>
    by_cases last : left.drop k = []
    · exact .of (.readingStopped unanswered) (if_pos last) at_host (matched' _)
    · exact .of (.writingStopped last unanswered) (if_neg last) at_host (matched' _)

/-- The worker takes the next bytes of its own response. -/
theorem Orderly.readOn (matched : s.Matched) (frames : responses.Frames result) (host : s.host = h)
    (asked : s.fired[firing]? = some request) (computed : ⟨some firing, request, result⟩ ∈ s.computed)
    (bytes : responses.encode result = got ++ rest)
    (partly : rest ≠ [] → s.InSync requests responses (.reading firing got) h)
    (wholly : rest = [] → s.InSync requests responses .idle h) :
    (s.readOn responses firing got).Orderly requests responses := by
  unfold Channel.readOn
  rcases frames.scan_cases bytes with ⟨none, scans⟩ | ⟨more, wanted, scans, -⟩
  · simp only [scans]
    refine .of ((wholly none).of_same rfl rfl rfl rfl) rfl host fun firing' result' inside => ?_
    rcases List.mem_append.mp inside with old | new
    · exact matched firing' result' old
    · cases List.mem_singleton.mp new
      exact ⟨request, asked, computed⟩
  · simp only [scans]
    exact .of ((partly more).of_same rfl rfl rfl rfl) rfl host matched

theorem Orderly.reads (frames : ∀ result, responses.Frames result) (kept : s.Orderly requests responses)
    (reading : s.firer = .reading firing got) (some_bytes : 0 < k) (there : k ≤ s.responses.length) :
    (({ s with responses := s.responses.drop k } : Channel).readOn responses firing
      (got ++ s.responses.take k)).Orderly requests responses := by
  obtain ⟨inSync, matched⟩ := kept
  rw [reading] at inSync
  obtain ⟨h, at_host⟩ : ∃ h, s.host = h := ⟨_, rfl⟩
  rw [at_host] at inSync
  have full : s.responses ≠ [] := List.ne_nil_of_length_pos (by omega)
  have matched' : ({ s with responses := s.responses.drop k } : Channel).Matched :=
    matched.of_same rfl (fun _ _ => id) fun _ => id
  have all : ∀ left : List Byte, got ++ (s.responses ++ left) =
      got ++ s.responses.take k ++ (s.responses.drop k ++ left) := by
    intro left
    rw [List.append_assoc got, ← List.append_assoc (s.responses.take k), List.take_append_drop]
  cases inSync with
  | asked _ _ _ _ unanswered => exact absurd unanswered full
  | dispatching _ _ unanswered => exact absurd unanswered full
  | readingStopped unanswered => exact absurd unanswered full
  | @answering _ _ result _ left asked taken computed bytes more =>
    have bytes' := bytes.trans (all left)
    exact .readOn matched' (frames result) at_host asked computed bytes'
      (fun _ => .answering asked taken computed bytes' more)
      fun none => absurd (List.append_eq_nil_iff.mp none).2 more
  | @answered _ _ result _ asked taken computed bytes _ =>
    have bytes' : responses.encode result = got ++ s.responses.take k ++ s.responses.drop k := by
      rw [bytes, List.append_assoc, List.take_append_drop]
    exact .readOn matched' (frames result) at_host asked computed bytes'
      (fun more => .answered asked taken computed bytes' more) fun none => .idle taken none
  | @answeringStopped _ _ result _ left asked computed bytes _ =>
    have bytes' := bytes.trans (all left)
    exact .readOn matched' (frames result) at_host asked computed bytes'
      (fun more => .answeringStopped asked computed bytes' more)
      fun none => .idleStopped (List.append_eq_nil_iff.mp none).1

/-- A firing ends with an exception: the host has closed its end. -/
theorem Orderly.fails (kept : s.Orderly requests responses) (stopped : s.host = .stopped)
    (empty : s.responses = []) (firing : FiringId) :
    ({ s with firer := .idle, returned := s.returned ++ [(firing, none)] } :
      Channel).Orderly requests responses :=
  .of (.idleStopped empty) rfl stopped (kept.matched.fails firing)

theorem Orderly.dies (kept : s.Orderly requests responses) (uncut : s.Uncut requests .die) :
    ({ s with firer := .idle } : Channel).Orderly requests responses := by
  obtain ⟨inSync, matched⟩ := kept
  have matched' : ({ s with firer := .idle } : Channel).Matched :=
    matched.of_same rfl (fun _ _ => id) fun _ => id
  have after_over (done : s.Over) : ({ s with firer := .idle } : Channel).Orderly requests responses :=
    .of (.idleStopped done.2) rfl done.1 matched'
  cases at_firer : s.firer with
  | idle =>
    rw [at_firer] at inSync
    exact .of (inSync.of_same rfl rfl rfl rfl) rfl rfl matched'
  | writing firing request left =>
    obtain ⟨h, at_host⟩ : ∃ h, s.host = h := ⟨_, rfl⟩
    rw [at_firer, at_host] at inSync
    simp only [Uncut, at_firer] at uncut
    rcases uncut with unsent | done
    · cases inSync with
      | @writing _ _ p _ got _ _ sent _ bytes unanswered =>
        -- Nothing of the request is in the stream.
        have none : p = [] := by simpa [unsent] using sent
        rw [none] at bytes
        obtain ⟨unread, unasked⟩ := List.append_eq_nil_iff.mp bytes
        rw [unread] at at_host
        exact .of (.idle unasked unanswered) rfl at_host matched'
      | writingStopped _ unanswered => exact .of (.idleStopped unanswered) rfl at_host matched'
    · exact after_over done
  | reading firing got =>
    simp only [Uncut, at_firer] at uncut
    exact after_over uncut

/-! ## The host's steps -/

theorem Orderly.hostReads (kept : s.Orderly requests responses) (reading : s.host = .reading got)
    (some_bytes : 0 < k) (there : k ≤ s.requests.length) :
    ({ s with
        host := hostReadOn requests (got ++ s.requests.take k), requests := s.requests.drop k } :
      Channel).Orderly requests responses := by
  obtain ⟨inSync, matched⟩ := kept
  rw [reading] at inSync
  obtain ⟨f, at_firer⟩ : ∃ f, s.firer = f := ⟨_, rfl⟩
  rw [at_firer] at inSync
  have full : s.requests ≠ [] := List.ne_nil_of_length_pos (by omega)
  have matched' : ({ s with
      host := hostReadOn requests (got ++ s.requests.take k), requests := s.requests.drop k } :
        Channel).Matched :=
    matched.of_same rfl (fun _ _ => id) fun _ => id
  have all : got ++ s.requests.take k ++ s.requests.drop k = got ++ s.requests := by
    rw [List.append_assoc, List.take_append_drop]
  cases inSync with
  | idle unasked => exact absurd unasked full
  | answered _ taken => exact absurd taken full
  | @writing firing request p left _ frames asked sent more bytes unanswered =>
    have bytes' := all.trans bytes
    obtain ⟨q, rest, rfl, same, -⟩ := got_of_tagged bytes'
    rw [List.append_assoc] at sent
    rcases frames.scan_cases sent with ⟨none, -⟩ | ⟨-, wanted, scans, -⟩
    · exact absurd (List.append_eq_nil_iff.mp none).2 more
    · refine .of (.writing frames asked (by rw [sent, List.append_assoc]) more bytes' unanswered) at_firer ?_
        matched'
      simp only [hostReadOn, same, map_fst_tagged, scans]
  | @asked firing request _ frames asked bytes more unanswered =>
    have bytes' := all.trans bytes
    obtain ⟨q, rest, sent, same, left⟩ := got_of_tagged bytes'
    rcases frames.scan_cases sent with ⟨none, scans⟩ | ⟨more', wanted, scans, -⟩
    · have some_bytes : q ≠ [] := by
        rintro rfl
        exact frames.some_bytes (by rw [sent, none]; rfl)
      refine .of (.dispatching asked (by rw [left, none]; rfl) unanswered) at_firer ?_ matched'
      simp only [hostReadOn, same, map_fst_tagged, scans, soleOwner_tagged some_bytes]
    · refine .of (.asked frames asked bytes' ?_ unanswered) at_firer ?_ matched'
      · rw [left, tagged]
        simpa using more'
      · simp only [hostReadOn, same, map_fst_tagged, scans]

theorem Orderly.dispatches (frames : ∀ result, responses.Frames result) (result : BitVec 64)
    (kept : s.Orderly requests responses) (dispatching : s.host = .dispatching owner request) :
    ({ s with
        host := .writing (responses.encode result)
        computed := s.computed ++ [⟨owner, request, result⟩] } : Channel).Orderly requests responses := by
  obtain ⟨inSync, matched⟩ := kept
  rw [dispatching] at inSync
  obtain ⟨f, at_firer⟩ : ∃ f, s.firer = f := ⟨_, rfl⟩
  rw [at_firer] at inSync
  cases inSync with
  | dispatching asked taken unanswered =>
    refine .of (.answering asked taken (List.mem_append_right _ (List.mem_singleton_self _)) ?_
      (frames result).some_bytes) at_firer rfl (matched.of_same rfl (fun _ _ => id) fun _ => List.mem_append_left _)
    rw [unanswered]
    rfl

theorem Orderly.hostWrites (kept : s.Orderly requests responses) (writing : s.host = .writing left)
    (some_bytes : 0 < k) (there : k ≤ left.length) :
    ({ s with
        host := if left.drop k = [] then .reading [] else .writing (left.drop k)
        responses := s.responses ++ left.take k } : Channel).Orderly requests responses := by
  obtain ⟨inSync, matched⟩ := kept
  rw [writing] at inSync
  obtain ⟨f, at_firer⟩ : ∃ f, s.firer = f := ⟨_, rfl⟩
  rw [at_firer] at inSync
  have all := List.take_append_drop k left
  have taken : left.take k ≠ [] := List.ne_nil_of_length_pos (by rw [List.length_take]; omega)
  have matched' : ∀ h, ({ s with host := h, responses := s.responses ++ left.take k } : Channel).Matched :=
    fun _ => matched.of_same rfl (fun _ _ => id) fun _ => id
  cases inSync with
  | answering asked empty computed bytes more =>
    by_cases last : left.drop k = []
    · rw [last, List.append_nil] at all
      exact .of (.answered asked empty computed (bytes.trans (by rw [all]))
        fun none => taken (List.append_eq_nil_iff.mp none).2) at_firer (if_pos last) (matched' _)
    · exact .of (.answering asked empty computed (bytes.trans (by rw [List.append_assoc, all])) last)
        at_firer (if_neg last) (matched' _)

theorem Orderly.hostStops (kept : s.Orderly requests responses)
    (undispatched : ∀ owner request, s.host ≠ .dispatching owner request) :
    ({ s with host := .stopped } : Channel).Orderly requests responses := by
  obtain ⟨inSync, matched⟩ := kept
  obtain ⟨f, at_firer⟩ : ∃ f, s.firer = f := ⟨_, rfl⟩
  rw [at_firer] at inSync
  obtain ⟨h, at_host⟩ : ∃ h, s.host = h := ⟨_, rfl⟩
  rw [at_host] at inSync
  have matched' : ({ s with host := .stopped } : Channel).Matched :=
    matched.of_same rfl (fun _ _ => id) fun _ => id
  cases inSync with
  | idle _ unanswered | idleStopped unanswered =>
    exact .of (.idleStopped unanswered) at_firer rfl matched'
  | writing _ _ _ more _ unanswered | writingStopped more unanswered =>
    exact .of (.writingStopped more unanswered) at_firer rfl matched'
  | asked _ _ _ _ unanswered | readingStopped unanswered =>
    exact .of (.readingStopped unanswered) at_firer rfl matched'
  | dispatching => exact absurd at_host (undispatched _ _)
  | answering asked _ computed bytes more =>
    exact .of (.answeringStopped asked computed bytes fun none => more (List.append_eq_nil_iff.mp none).2)
      at_firer rfl matched'
  | answered asked _ computed bytes more =>
    exact .of (.answeringStopped asked computed (bytes.trans (by rw [List.append_nil]))
      fun none => more (List.append_eq_nil_iff.mp none).1) at_firer rfl matched'
  | answeringStopped asked computed bytes more =>
    exact .of (.answeringStopped asked computed bytes more) at_firer rfl matched'

theorem step_orderly (asks : ∀ key a b c d, requests.Frames ⟨key, [a, b, c, d]⟩)
    (answers : ∀ result, responses.Frames result) (kept : s.Orderly requests responses)
    (uncut : s.Uncut requests a) (done : Step requests responses s a s') :
    s'.Orderly requests responses := by
  cases does_of_step done with
  | fires idle => exact kept.fires (asks _ _ _ _ _) idle
  | writes writing some_bytes there => exact kept.writes writing some_bytes there
  | reads reading _ some_bytes _ there => exact kept.reads answers reading some_bytes there
  | writeFails writing stopped =>
    have inSync := kept.inSync
    rw [writing, stopped] at inSync
    cases inSync with
    | writingStopped _ unanswered => exact kept.fails stopped unanswered _
  | readFails _ stopped empty => exact kept.fails stopped empty _
  | dies => exact kept.dies uncut
  | hostReads reading _ some_bytes _ there => exact kept.hostReads reading some_bytes there
  | dispatches dispatching => exact kept.dispatches answers _ dispatching
  | hostWrites writing some_bytes there => exact kept.hostWrites writing some_bytes there
  | hostStops undispatched => exact kept.hostStops undispatched

end Channel
end RlboxDynamic.CallbackStream

namespace RlboxDynamic
open MessageFraming Transition CallbackStream

/-- In every run of workers, firings and deaths in which no worker dies in the
middle of an exchange that can still be answered, each response is the one the
host computed for that very firing. -/
theorem callback_replies_match_of_uncut {requests : Framing CallbackRequest}
    {responses : Framing (BitVec 64)} (asks : ∀ key a b c d, requests.Frames ⟨key, [a, b, c, d]⟩)
    (answers : ∀ result, responses.Frames result) {as : List Action} {s : Channel}
    (run : Run (Guarded (Channel.Uncut requests) (Channel.Step requests responses)) .start as s) :
    s.Matched := by
  have orderly : s.Orderly requests responses :=
    run.invariant Channel.start_orderly fun _ _ _ kept done =>
      Channel.step_orderly asks answers kept done.1 done.2
  exact orderly.matched

section
open CallbackMessages

/-- A request is written, the host answers 7, and its response is read. -/
def exchange : List Action :=
  [.write 64, .hostRead 8, .hostRead 56, .dispatch 7, .hostWrite 24, .read 8, .read 16]

/-- One worker fires and gets its response. -/
theorem callback_reply_matched :
    ∃ s, Run (Guarded (Channel.Uncut requests) (Channel.Step requests responses)) .start
      (.fire 9 1 2 3 4 :: exchange) s ∧ s.returned = [(0, some 7)] ∧ s.Matched := by
  obtain ⟨s, run, returned⟩ : ∃ s, Run (Channel.Step requests responses) .start
      (.fire 9 1 2 3 4 :: exchange) s ∧ s.returned = [(0, some 7)] := exists_run (by decide)
  have guarded := run.guarded fun a inside s => show s.Uncut requests a by
    cases a with
    | die => exact absurd inside (by decide)
    | _ => trivial
  exact ⟨s, guarded, returned, callback_replies_match_of_uncut
    (fun key a b c d => requests_frames key (by simp)) responses_frames guarded⟩

/-- A worker dies with its request written. The first firing of the next one
returns what the host computed for the dead. -/
theorem callback_reply_of_the_dead :
    ∃ s, Run (Channel.Step requests responses) .start
      ([.fire 9 1 2 3 4, .write 64, .die, .fire 9 5 6 7 8] ++ exchange) s ∧ ¬ s.Matched := by
  obtain ⟨s, run, same⟩ : ∃ s, Run (Channel.Step requests responses) .start
      ([.fire 9 1 2 3 4, .write 64, .die, .fire 9 5 6 7 8] ++ exchange) s ∧
      (s.returned, s.computed) = ([(1, some 7)], [⟨some 0, ⟨9, [1, 2, 3, 4]⟩, 7⟩]) :=
    exists_run (f := fun s : Channel => (s.returned, s.computed)) (by decide +kernel)
  obtain ⟨returned, computed⟩ := Prod.mk.inj same
  refine ⟨s, run, fun matched => ?_⟩
  obtain ⟨request, -, answered⟩ := matched 1 7 (by rw [returned]; exact List.mem_singleton_self _)
  rw [computed] at answered
  cases List.mem_singleton.mp answered

end
end RlboxDynamic
