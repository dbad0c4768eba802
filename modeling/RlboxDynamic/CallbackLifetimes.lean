import RlboxDynamic.CallbackContext

/-! Callback contexts while meta sandboxes come and go. A create writes the
creating thread's `thread_local_sandbox` and lists the sandbox in
`process_to_meta_map`, a destroy takes both back, and each is several steps
between which other threads run. -/
namespace RlboxDynamic.CallbackContext
open Transition

/-- The meta sandboxes of a host. Each has its process backend inside. -/
structure Objects where
  processSbx : MetaId → ProcessId
  distinct : Function.Injective processSbx

/-- RLBox's status of a sandbox, and how far the create or destroy that a thread
makes on it has come. -/
inductive Status where
  | notCreated
  | wasmCreated (caller : ThreadId)
  | bothCreated (caller : ThreadId)
  | created
  | unlisted (caller : ThreadId)
  | wasmDestroyed (caller : ThreadId)
  deriving DecidableEq

def Status.caller : Status → Option ThreadId
  | .notCreated | .created => none
  | .wasmCreated caller | .bothCreated caller | .unlisted caller | .wasmDestroyed caller => some caller

/-- A backend is up from its create returning true to its destroy. What a failed
create leaves running, a callback server's thread or a child, is not up: no call
comes to it, so no callback fires there. -/
structure MetaSbx where
  status : Status
  wasmUp : Bool
  processUp : Bool

/-- How the process backend's own create ends: false before it has its memory,
false after it wrote `thread_local_sandbox`, or true with its callback loop on a
new thread. -/
inductive ProcessCreate where
  | unmapped
  | abandoned
  | up (loop : ThreadId)

/-- What a thread does. `createWasm`, `createProcess` and `enlist` are the steps
of `impl_create_sandbox`, the last three those of `impl_destroy_sandbox`. -/
inductive Action where
  | thread (ev : Event)
  | createWasm (m : MetaId) (ok : Bool)
  | createProcess (m : MetaId) (ending : ProcessCreate)
  | enlist (m : MetaId)
  | unlist (m : MetaId)
  | destroyWasm (m : MetaId)
  | destroyProcess (m : MetaId)

namespace Thread

/-- A thread that has not run yet. -/
def new : Thread where
  callbackLoopOf := none
  threadLocalSandbox := none
  threadLocalCallbackKey := 0
  tlInvokingMeta := none
  wasmLastKey := 0
  frames := []

def loopOf (p : ProcessId) : Thread := { new with callbackLoopOf := some p }

def publish (p : ProcessId) (th : Thread) : Thread := { th with threadLocalSandbox := some p }

/-- What a destroy does to its own thread. -/
def withdraw (p : ProcessId) (th : Thread) : Thread :=
  if th.threadLocalSandbox = some p then { th with threadLocalSandbox := none } else th

end Thread

/-- The callback loop of a sandbox has ended. -/
def System.joined (p : ProcessId) (s : System) : System :=
  fun tid => if (s tid).callbackLoopOf = some p then .new else s tid

/-- All threads and meta sandboxes of a host, with `process_to_meta_map`. -/
structure Lifetimes where
  threads : System
  metas : MetaId → MetaSbx
  processToMeta : ProcessId → Option MetaId

namespace Lifetimes

def start (threads : System) : Lifetimes where
  threads
  metas _ := ⟨.notCreated, false, false⟩
  processToMeta _ := none

def withThread (s : Lifetimes) (tid : ThreadId) (th : Thread) : Lifetimes :=
  { s with threads := Function.update s.threads tid th }

def withMeta (s : Lifetimes) (m : MetaId) (sbx : MetaSbx) : Lifetimes :=
  { s with metas := Function.update s.metas m sbx }

/-- One step of a thread. A failed process backend takes the wasm one down. -/
def exec (o : Objects) (s : Lifetimes) (tid : ThreadId) : Action → Option Lifetimes
  | .thread ev => ((s.threads tid).exec ev).map (s.withThread tid)
  | .createWasm m ok =>
    if (s.metas m).status = .notCreated then
      some (if ok then s.withMeta m { s.metas m with status := .wasmCreated tid, wasmUp := true } else s)
    else none
  | .createProcess m ending =>
    if (s.metas m).status = .wasmCreated tid then
      let published := s.withThread tid ((s.threads tid).publish (o.processSbx m))
      match ending with
      | .unmapped => some (s.withMeta m { s.metas m with status := .notCreated, wasmUp := false })
      | .abandoned =>
        some (published.withMeta m { s.metas m with status := .notCreated, wasmUp := false })
      | .up loop =>
        some ((published.withThread loop (.loopOf (o.processSbx m))).withMeta m
          { s.metas m with status := .bothCreated tid, processUp := true })
    else none
  | .enlist m =>
    if (s.metas m).status = .bothCreated tid then
      some { s.withMeta m { s.metas m with status := .created } with
        processToMeta := Function.update s.processToMeta (o.processSbx m) (some m) }
    else none
  | .unlist m =>
    if (s.metas m).status = .created then
      some { s.withMeta m { s.metas m with status := .unlisted tid } with
        processToMeta := Function.update s.processToMeta (o.processSbx m) none }
    else none
  | .destroyWasm m =>
    if (s.metas m).status = .unlisted tid then
      some (s.withMeta m { s.metas m with status := .wasmDestroyed tid, wasmUp := false })
    else none
  | .destroyProcess m =>
    if (s.metas m).status = .wasmDestroyed tid then
      let withdrawn := s.withThread tid ((s.threads tid).withdraw (o.processSbx m))
      some { withdrawn.withMeta m { s.metas m with status := .notCreated, processUp := false } with
        threads := withdrawn.threads.joined (o.processSbx m) }
    else none

end Lifetimes

/-- The frame is a call into the sandbox. -/
def Frame.Uses (o : Objects) (m : MetaId) : Frame → Prop
  | .wasmInvoke invoking _ => invoking = m
  | .processInvoke sandbox => sandbox = o.processSbx m
  | .wasmCallback _ | .processCallback _ => False

/-- The thread is in a call into the sandbox, or in a callback of its loop. -/
def Thread.Engages (o : Objects) (m : MetaId) (th : Thread) : Prop :=
  (∃ f ∈ th.frames, f.Uses o m) ∨ th.callbackLoopOf = some (o.processSbx m) ∧ th.frames ≠ []

namespace Lifetimes

def Created (s : Lifetimes) (m : MetaId) : Prop := (s.metas m).status = .created

/-- The thread is not inside a create or a destroy. -/
def Free (s : Lifetimes) (tid : ThreadId) : Prop := ∀ m, (s.metas m).status.caller ≠ some tid

/-- A client invokes only what is created and destroys nothing that a thread is
in. The shim fires a callback only while it runs an invoke. -/
def Allows (o : Objects) (s : Lifetimes) (tid : ThreadId) : Action → Prop
  | .thread ev => s.Free tid ∧
      (∀ m, ev = .invokeWasm m ∨ ev = .invokeProcess (o.processSbx m) → s.Created m) ∧
      ∀ key sandbox, ev = .fireProcess key → (s.threads tid).callbackLoopOf = some sandbox →
        s.threads.Awaits sandbox
  | .createWasm _ _ => s.Free tid ∧ (s.threads tid).RunsHost
  | .createProcess _ (.up loop) => s.threads loop = .new ∧ s.Free loop ∧ loop ≠ tid
  | .unlist m => s.Free tid ∧ (s.threads tid).RunsHost ∧ ∀ other, ¬ (s.threads other).Engages o m
  | _ => True

def Step (o : Objects) (s : Lifetimes) (label : ThreadId × Action) (s' : Lifetimes) : Prop :=
  s.Allows o label.1 label.2 ∧ s.exec o label.1 label.2 = some s'

/-- Sandboxes are created and destroyed outside process callbacks. -/
def Outside (s : Lifetimes) (label : ThreadId × Action) : Prop :=
  (∃ ev, label.2 = .thread ev) ∨ openKeys (s.threads label.1).frames = []

end Lifetimes

/-- Whose callback an event fires, whatever any table says. -/
inductive Fires (o : Objects) (th : Thread) : Event → MetaId → CallbackKey → Prop where
  | wasm {prev : Option MetaId} {rest : List Frame} (top : th.frames = .wasmInvoke m prev :: rest) :
      Fires o th (.fireWasm key) m key
  | process (loop : th.callbackLoopOf = some (o.processSbx m)) : Fires o th (.fireProcess key) m key

/-! ## What a thread keeps -/

namespace Thread
variable {o : Objects} {m : MetaId} {th th' : Thread} {ev : Event} {x : Option ProcessId}

/-- The stack and the other variables agree, whatever sandbox is published. -/
def Framed (th : Thread) : Prop := ∃ x, { th with threadLocalSandbox := x }.Consistent

/-- No event reads the published sandbox. -/
theorem exec_unread (done : th.exec ev = some th') :
    ∃ y, { th with threadLocalSandbox := x }.exec ev = some { th' with threadLocalSandbox := y } := by
  cases ev with
  | invokeWasm | invokeProcess =>
    simp only [exec] at done
    split at done
    · rename_i host
      cases done
      exact ⟨x, if_pos host⟩
    · cases done
  | returnWasm | returnProcess =>
    simp only [exec] at done
    split at done
    · rename_i top
      cases done
      exact ⟨x, by simp only [exec, top]⟩
    · cases done
  | fireWasm =>
    simp only [exec] at done
    split at done
    · rename_i top
      split at done
      · cases done
      · rename_i nonzero
        cases done
        exact ⟨x, by simp only [exec, top, nonzero, ↓reduceIte]⟩
    · cases done
  | fireProcess =>
    simp only [exec] at done
    split at done
    · rename_i sandbox loop empty
      split at done
      · cases done
      · rename_i nonzero
        cases done
        exact ⟨some sandbox, by simp only [exec, loop, empty, nonzero, ↓reduceIte]⟩
    · cases done
  | finish =>
    simp only [exec] at done
    split at done
    · rename_i top
      cases done
      exact ⟨x, by simp only [exec, top]⟩
    · rename_i top
      cases done
      exact ⟨none, by simp only [exec, top]⟩
    · cases done

theorem Framed.exec (framed : th.Framed) (done : th.exec ev = some th') : th'.Framed := by
  obtain ⟨x, kept⟩ := framed
  obtain ⟨y, done⟩ := exec_unread (x := x) done
  exact ⟨y, exec_consistent kept done⟩

/-- An event that takes a thread into a sandbox invokes it or fires on its loop. -/
theorem exec_engages (done : th.exec ev = some th') (engages : th'.Engages o m) :
    th.Engages o m ∨ (ev = .invokeWasm m ∨ ev = .invokeProcess (o.processSbx m)) ∨
      ∃ key, ev = .fireProcess key ∧ th.callbackLoopOf = some (o.processSbx m) := by
  have fewer : ∀ {top rest}, th.frames = top :: rest → th'.frames = rest →
      th'.callbackLoopOf = th.callbackLoopOf → th.Engages o m := by
    intro top rest before after loop
    rcases engages with ⟨f, inside, uses⟩ | ⟨own, -⟩
    · exact .inl ⟨f, before ▸ List.mem_cons_of_mem top (after ▸ inside), uses⟩
    · exact .inr ⟨loop ▸ own, before ▸ List.cons_ne_nil top rest⟩
  have more : ∀ {top}, th'.frames = top :: th.frames → th'.callbackLoopOf = th.callbackLoopOf →
      th.RunsHost ∨ th.frames ≠ [] → th.Engages o m ∨ top.Uses o m := by
    intro top after loop host
    rcases engages with ⟨f, inside, uses⟩ | ⟨own, -⟩
    · rw [after] at inside
      rcases List.mem_cons.mp inside with rfl | old
      · exact .inr uses
      · exact .inl (.inl ⟨f, old, uses⟩)
    · refine .inl (.inr ⟨loop ▸ own, fun none => ?_⟩)
      rcases host with host | some
      · rw [RunsHost, none] at host
        exact absurd (loop ▸ own) (by simp [host])
      · exact some none
  cases ev with
  | invokeWasm | invokeProcess =>
    simp only [exec] at done
    split at done
    · rename_i host
      cases done
      rcases more rfl rfl (.inl host) with old | rfl
      · exact .inl old
      · exact .inr (.inl (by simp))
    · cases done
  | returnWasm | returnProcess =>
    simp only [exec] at done
    split at done
    · rename_i top
      cases done
      exact .inl (fewer top rfl rfl)
    · cases done
  | fireWasm =>
    simp only [exec] at done
    split at done
    · rename_i top
      split at done
      · cases done
      · cases done
        exact .inl ((more rfl rfl (.inr (top ▸ List.cons_ne_nil _ _))).resolve_right id)
    · cases done
  | fireProcess key =>
    simp only [exec] at done
    split at done
    · rename_i loop empty
      split at done
      · cases done
      · cases done
        rcases engages with ⟨f, inside, uses⟩ | ⟨own, -⟩
        · cases List.mem_singleton.mp inside
          cases uses
        · exact .inr (.inr ⟨key, rfl, own⟩)
    · cases done
  | finish =>
    simp only [exec] at done
    split at done
    · rename_i top
      cases done
      exact .inl (fewer top rfl rfl)
    · rename_i top
      cases done
      exact .inl (fewer top rfl rfl)
    · cases done

theorem not_engages_of_empty (empty : th.frames = []) : ¬ th.Engages o m := by
  rintro (⟨f, inside, -⟩ | ⟨-, some⟩)
  · rw [empty] at inside
    cases inside
  · exact some empty

/-- What a create or a destroy does to a thread: the caller publishes a sandbox or
withdraws it, and a loop starts or ends. -/
inductive Quiet (caller : Prop) (th : Thread) : Thread → Prop where
  | still : Quiet caller th th
  | published (own : caller) (x : Option ProcessId) : Quiet caller th { th with threadLocalSandbox := x }
  | new (p : Option ProcessId) : Quiet caller th { new with callbackLoopOf := p }

theorem new_consistent (p : Option ProcessId) : { new with callbackLoopOf := p }.Consistent :=
  Idle.consistent ⟨rfl, rfl, rfl⟩

theorem Quiet.framed {caller : Prop} (quiet : Quiet caller th th') (framed : th.Framed) : th'.Framed := by
  cases quiet with
  | still | published => exact framed
  | new p => exact ⟨none, new_consistent p⟩

theorem Quiet.engages {caller : Prop} (quiet : Quiet caller th th') (engages : th'.Engages o m) :
    th.Engages o m := by
  cases quiet with
  | still | published => exact engages
  | new => exact absurd engages (not_engages_of_empty rfl)

/-- With no process callback open on its stack, a thread may publish anything. -/
theorem Quiet.consistent {caller : Prop} (quiet : Quiet caller th th')
    (outside : caller → openKeys th.frames = []) (kept : th.Consistent) : th'.Consistent := by
  cases quiet with
  | still => exact kept
  | published own x =>
    refine ⟨kept.inScope, kept.openKey, fun nonzero => ?_⟩
    have listed := kept.openKey
    rw [if_neg nonzero, outside own] at listed
    cases listed
  | new p => exact new_consistent p

end Thread

/-- Which backends are up, by the status. -/
def Status.backends : Status → Bool × Bool
  | .notCreated => (false, false)
  | .wasmCreated _ => (true, false)
  | .bothCreated _ | .created | .unlisted _ => (true, true)
  | .wasmDestroyed _ => (false, true)

structure MetaSbx.Backed (sbx : MetaSbx) : Prop where
  wasm : sbx.wasmUp = sbx.status.backends.1
  process : sbx.processUp = sbx.status.backends.2

namespace Lifetimes

/-- The threads' stacks, the map and the backends say the same of every sandbox. -/
structure Sound (o : Objects) (s : Lifetimes) : Prop where
  framed : ∀ tid, (s.threads tid).Framed
  engaged : ∀ tid m, (s.threads tid).Engages o m → s.Created m
  listed : ∀ p m, s.processToMeta p = some m ↔ p = o.processSbx m ∧ s.Created m
  backed : ∀ m, (s.metas m).Backed

section
variable {o : Objects} {s s' : Lifetimes} {tid : ThreadId} {m : MetaId} {sbx : MetaSbx} {threads : System}
  {table : ProcessId → Option MetaId} {act : Action}

theorem start_sound (idle : ∀ tid, (threads tid).Idle) : Sound o (.start threads) where
  framed tid := ⟨(threads tid).threadLocalSandbox, (idle tid).consistent⟩
  engaged tid m engages := absurd engages (Thread.not_engages_of_empty (idle tid).noFrames)
  listed p m := by
    constructor
    · intro found
      cases found
    · rintro ⟨-, created⟩
      cases created
  backed m := ⟨rfl, rfl⟩

/-- A sandbox that is not created has no entry. -/
theorem Sound.unlisted (sound : Sound o s) (absent : ¬ s.Created m) : s.processToMeta (o.processSbx m) = none := by
  cases found : s.processToMeta (o.processSbx m) with
  | none => rfl
  | some other =>
    obtain ⟨same, created⟩ := (sound.listed _ _).mp found
    cases o.distinct same
    exact absurd created absent

theorem created_update {k : MetaId} : Created ⟨threads, Function.update s.metas m sbx, table⟩ k ↔
    if k = m then sbx.status = .created else s.Created k := by
  unfold Created
  dsimp only
  rw [Function.update_apply]
  split <;> rfl

/-- One sandbox changes its record and its entry, and no thread comes into any. -/
theorem Sound.update (sound : Sound o s) (quiet : ∀ i, Thread.Quiet (i = tid) (s.threads i) (threads i))
    (spared : sbx.status ≠ .created → ∀ tid, ¬ (s.threads tid).Engages o m)
    (backed : sbx.Backed)
    (listed : table = Function.update s.processToMeta (o.processSbx m)
      (if sbx.status = .created then some m else none)) :
    Sound o ⟨threads, Function.update s.metas m sbx, table⟩ where
  framed tid := (quiet tid).framed (sound.framed tid)
  engaged tid k engages := by
    have before := (quiet tid).engages engages
    rw [created_update]
    split
    · rename_i same
      subst same
      by_contra absent
      exact spared absent tid before
    · exact sound.engaged tid k before
  listed p k := by
    rw [created_update, listed]
    dsimp only
    rw [Function.update_apply]
    by_cases own : p = o.processSbx m
    · by_cases same : k = m
      · simp [own, same]
      · have apart : o.processSbx m ≠ o.processSbx k := fun eq => same (o.distinct eq).symm
        have other : (if sbx.status = .created then some m else none) ≠ some k := by
          split
          · exact fun eq => same (Option.some.inj eq).symm
          · exact (Option.some_ne_none k).symm
        rw [if_pos own, own]
        exact ⟨fun eq => absurd eq other, fun both => absurd both.1 apart⟩
    · rw [if_neg own, sound.listed]
      refine and_congr_right fun named => ?_
      have apart : k ≠ m := by
        rintro rfl
        exact own named
      rw [if_neg apart]
  backed k := by
    dsimp only
    rw [Function.update_apply]
    split
    · exact backed
    · exact sound.backed k

/-- A sandbox on its way up or down has no entry, and nobody is in it. -/
theorem Sound.onTheWay (sound : Sound o s) (absent : ¬ s.Created m) (still : sbx.status ≠ .created)
    (quiet : ∀ i, Thread.Quiet (i = tid) (s.threads i) (threads i))
    (backed : sbx.Backed) :
    Sound o ⟨threads, Function.update s.metas m sbx, s.processToMeta⟩ := by
  refine sound.update quiet (fun _ tid engages => absent (sound.engaged tid m engages)) backed ?_
  rw [if_neg still, ← sound.unlisted absent, Function.update_eq_self]

theorem exec_thread_sound (sound : Sound o s) {ev : Event} {th : Thread}
    (done : (s.threads tid).exec ev = some th)
    (invokes : ∀ m, ev = .invokeWasm m ∨ ev = .invokeProcess (o.processSbx m) → s.Created m)
    (fires : ∀ key sandbox, ev = .fireProcess key → (s.threads tid).callbackLoopOf = some sandbox →
      s.threads.Awaits sandbox) : Sound o (s.withThread tid th) where
  framed other := by
    unfold withThread
    dsimp only
    rw [Function.update_apply]
    split
    · exact (sound.framed tid).exec done
    · exact sound.framed other
  engaged other m engages := by
    unfold withThread at engages
    dsimp only at engages
    rw [Function.update_apply] at engages
    split at engages
    · rcases Thread.exec_engages done engages with before | invoked | ⟨key, fired, loop⟩
      · exact sound.engaged tid m before
      · exact invokes m invoked
      · obtain ⟨waiting, top⟩ := fires key _ fired loop
        exact sound.engaged waiting m (.inl ⟨_, List.mem_of_mem_head? top, rfl⟩)
    · exact sound.engaged other m engages
  listed := sound.listed
  backed := sound.backed

theorem exec_quiet (done : s.exec o tid act = some s') (call : ∀ ev, act ≠ .thread ev) (i : ThreadId) :
    Thread.Quiet (i = tid) (s.threads i) (s'.threads i) := by
  have published : ∀ p, Thread.Quiet (i = tid) (s.threads i)
      (Function.update s.threads tid ((s.threads tid).publish p) i) := by
    intro p
    rw [Function.update_apply]
    split
    · rename_i here
      subst here
      exact .published rfl _
    · exact .still
  cases act with
  | thread ev => exact absurd rfl (call ev)
  | createWasm m ok =>
    simp only [exec] at done
    split at done
    · cases done
      split <;> exact .still
    · cases done
  | createProcess m ending =>
    simp only [exec] at done
    split at done
    · cases ending with
      | unmapped =>
        cases done
        exact .still
      | abandoned =>
        cases done
        exact published _
      | up loop =>
        cases done
        dsimp only [withMeta, withThread]
        rw [Function.update_apply]
        split
        · exact .new _
        · exact published _
    · cases done
  | enlist | unlist | destroyWasm =>
    simp only [exec] at done
    split at done
    · cases done
      exact .still
    · cases done
  | destroyProcess m =>
    simp only [exec] at done
    split at done
    · cases done
      dsimp only [withMeta, withThread, System.joined]
      split
      · exact .new none
      · rw [Function.update_apply]
        split
        · rename_i here
          subst here
          unfold Thread.withdraw
          split
          · exact .published rfl none
          · exact .still
        · exact .still
    · cases done

theorem step_sound (sound : Sound o s) (step : Step o s (tid, act) s') : Sound o s' := by
  obtain ⟨allowed, done⟩ := step
  dsimp only at allowed done
  have quiet := exec_quiet done
  cases act with
  | thread ev =>
    obtain ⟨-, invokes, fires⟩ := allowed
    obtain ⟨th, ran, rfl⟩ := Option.map_eq_some_iff.mp done
    exact exec_thread_sound sound ran invokes fires
  | createWasm m ok =>
    simp only [exec] at done
    split at done
    · rename_i status
      have absent : ¬ s.Created m := fun created => by cases status.symm.trans created
      obtain ⟨-, process⟩ := sound.backed m
      rw [status] at process
      cases ok with
      | false =>
        cases done
        exact sound
      | true =>
        cases done
        exact sound.onTheWay absent (by simp) (quiet nofun) ⟨rfl, process⟩
    · cases done
  | createProcess m ending =>
    simp only [exec] at done
    split at done
    · rename_i status
      have absent : ¬ s.Created m := fun created => by cases status.symm.trans created
      obtain ⟨wasm, process⟩ := sound.backed m
      rw [status] at wasm process
      cases ending with
      | unmapped | abandoned =>
        cases done
        exact sound.onTheWay absent (by simp) (quiet nofun) ⟨rfl, process⟩
      | up loop =>
        cases done
        exact sound.onTheWay absent (by simp) (quiet nofun) ⟨wasm, rfl⟩
    · cases done
  | enlist m =>
    simp only [exec] at done
    split at done
    · rename_i status
      obtain ⟨wasm, process⟩ := sound.backed m
      rw [status] at wasm process
      cases done
      exact sound.update (quiet nofun) (fun other => absurd rfl other) ⟨wasm, process⟩ rfl
    · cases done
  | unlist m =>
    obtain ⟨-, -, spared⟩ := allowed
    simp only [exec] at done
    split at done
    · rename_i status
      obtain ⟨wasm, process⟩ := sound.backed m
      rw [status] at wasm process
      cases done
      exact sound.update (quiet nofun) (fun _ => spared) ⟨wasm, process⟩ rfl
    · cases done
  | destroyWasm m =>
    simp only [exec] at done
    split at done
    · rename_i status
      have absent : ¬ s.Created m := fun created => by cases status.symm.trans created
      obtain ⟨-, process⟩ := sound.backed m
      rw [status] at process
      cases done
      exact sound.onTheWay absent (by simp) (quiet nofun) ⟨rfl, process⟩
    · cases done
  | destroyProcess m =>
    simp only [exec] at done
    split at done
    · rename_i status
      have absent : ¬ s.Created m := fun created => by cases status.symm.trans created
      obtain ⟨wasm, -⟩ := sound.backed m
      rw [status] at wasm
      cases done
      exact sound.onTheWay absent (by simp) (quiet nofun) ⟨wasm, rfl⟩
    · cases done

/-- Where sandboxes come and go outside process callbacks, an open one stays published. -/
theorem step_consistent (outside : s.Outside (tid, act)) (step : Step o s (tid, act) s')
    (kept : s.threads.Consistent) : s'.threads.Consistent := by
  intro i
  by_cases call : ∃ ev, act = .thread ev
  · obtain ⟨ev, rfl⟩ := call
    obtain ⟨th, ran, rfl⟩ := Option.map_eq_some_iff.mp step.2
    unfold withThread
    dsimp only
    rw [Function.update_apply]
    split
    · exact Thread.exec_consistent (kept tid) ran
    · exact kept i
  · have closed : openKeys (s.threads tid).frames = [] := outside.resolve_left call
    exact (exec_quiet step.2 (fun ev same => call ⟨ev, same⟩) i).consistent (fun own => own ▸ closed) (kept i)

theorem run_sound (idle : ∀ tid, (threads tid).Idle) (run : Run (Step o) (.start threads) ops s) : Sound o s :=
  run.invariant (start_sound idle) fun _ _ _ sound step => step_sound sound step

theorem run_consistent (idle : ∀ tid, (threads tid).Idle)
    (run : Run (Guarded Outside (Step o)) (.start threads) ops s) : s.threads.Consistent := by
  refine run.recorded (fun _ s => s.threads.Consistent) [] (fun tid => (idle tid).consistent) ?_
  exact fun _ _ _ _ kept step => step_consistent step.1 step.2 kept

end
end Lifetimes

/-! ## What the interceptor of a firing callback is told -/

namespace Thread
variable {o : Objects} {m : MetaId} {th th' : Thread} {key : CallbackKey} {table : ProcessId → Option MetaId}

theorem executed_process {p : ProcessId} (loop : th.callbackLoopOf = some p) (listed : table p = some m)
    (done : th.exec (.fireProcess key) = some th') : th'.metaExecuted table = some (m, key) := by
  simp only [exec, loop] at done
  split at done
  · rename_i own empty
    cases own
    split at done
    · cases done
    · rename_i nonzero
      cases done
      simp [metaExecuted, processExecuted, nonzero, listed]
  · cases done

/-- What a wasm callback is told: the published sandbox while a process callback
is open, if that sandbox has an entry, and otherwise the callback itself. -/
def toldWasm (table : ProcessId → Option MetaId) (th : Thread) (m : MetaId) (key : CallbackKey) :
    MetaId × CallbackKey :=
  if th.threadLocalCallbackKey = 0 then (m, key)
  else match th.threadLocalSandbox.bind table with
    | some owner => (owner, th.threadLocalCallbackKey)
    | none => (m, key)

theorem executed_wasm (framed : th.Framed) (top : th.frames = .wasmInvoke m prev :: rest)
    (done : th.exec (.fireWasm key) = some th') (table : ProcessId → Option MetaId) :
    th'.metaExecuted table = some (th.toldWasm table m key) := by
  unfold toldWasm
  obtain ⟨x, kept⟩ := framed
  have scope : th.tlInvokingMeta = some m := by
    have inScope : Scoped th.frames th.tlInvokingMeta := kept.inScope
    rw [top] at inScope
    exact inScope.1
  simp only [exec, top] at done
  split at done
  · cases done
  · cases done
    by_cases closed : th.threadLocalCallbackKey = 0
    · simp [metaExecuted, processExecuted, wasmExecuted, closed, scope]
    · cases th.threadLocalSandbox with
      | none => simp [metaExecuted, processExecuted, wasmExecuted, closed, scope]
      | some p =>
        cases listed : table p <;> simp [metaExecuted, processExecuted, wasmExecuted, closed, scope, listed]

theorem toldWasm_cases (framed : th.Framed) (table : ProcessId → Option MetaId) (m : MetaId) (key : CallbackKey) :
    th.toldWasm table m key = (m, key) ∨ ∃ p owner, table p = some owner ∧
      th.toldWasm table m key = (owner, th.threadLocalCallbackKey) ∧
        .processCallback th.threadLocalCallbackKey ∈ th.frames := by
  unfold toldWasm
  by_cases closed : th.threadLocalCallbackKey = 0
  · exact .inl (if_pos closed)
  · rw [if_neg closed]
    obtain ⟨x, kept⟩ := framed
    have listed : openKeys th.frames = _ := kept.openKey
    rw [if_neg closed] at listed
    cases found : th.threadLocalSandbox.bind table with
    | none => exact .inl rfl
    | some owner =>
      obtain ⟨p, -, entry⟩ := Option.bind_eq_some_iff.mp found
      exact .inr ⟨p, owner, entry, rfl, mem_openKeys.mp (listed ▸ List.mem_singleton_self _)⟩

/-- On a consistent thread an open process callback is the loop's own. -/
theorem toldWasm_iff (kept : th.Consistent) :
    th.toldWasm table m key = (m, key) ↔ Unshadowed table th (.fireWasm key) m key := by
  unfold toldWasm Unshadowed
  by_cases closed : th.threadLocalCallbackKey = 0
  · have none : openKeys th.frames = [] := by rw [kept.openKey, if_pos closed]
    rw [if_pos closed]
    refine ⟨fun _ _ sandbox enclosing owner _ inside => ?_, fun _ => rfl⟩
    have listed := mem_openKeys.mpr inside
    rw [none] at listed
    cases listed
  · obtain ⟨p, loop, published⟩ := kept.published closed
    have only : ∀ enclosing, .processCallback enclosing ∈ th.frames ↔
        enclosing = th.threadLocalCallbackKey := by
      intro enclosing
      rw [← mem_openKeys, kept.openKey, if_neg closed, List.mem_singleton]
    rw [if_neg closed, published, Option.bind_some]
    constructor
    · intro told _ sandbox enclosing owner own inside listed
      cases loop.symm.trans own
      rw [listed] at told
      rw [(only enclosing).mp inside]
      exact Prod.mk.inj told
    · intro unshadowed
      cases listed : table p with
      | none => rfl
      | some owner =>
        obtain ⟨rfl, same⟩ := unshadowed rfl p _ owner loop ((only _).mpr rfl) listed
        exact Prod.ext rfl same

end Thread

end RlboxDynamic.CallbackContext

namespace RlboxDynamic
open Transition CallbackContext Lifetimes

/-- Whatever sandboxes come and go on whatever threads, a firing callback's
sandbox has both backends up and the only entry there is for it, and its
interceptor is told of the callback, or else of an open process callback's key
with a sandbox that is up. Where none comes or goes inside a process callback,
it is told of the callback exactly when no open one shadows it. -/
theorem callback_context_across_lives (o : Objects) {threads : System} {s : Lifetimes}
    {ops : List (ThreadId × Action)} (idle : ∀ tid, (threads tid).Idle)
    (run : Run (Lifetimes.Step o) (.start threads) ops s) :
    (∀ p m, s.processToMeta p = some m ↔ p = o.processSbx m ∧ s.Created m) ∧
    (∀ m, (s.Created m → (s.metas m).wasmUp = true ∧ (s.metas m).processUp = true) ∧
      ((s.metas m).status = .notCreated → (s.metas m).wasmUp = false ∧ (s.metas m).processUp = false)) ∧
    ∀ tid ev s' m key, Lifetimes.Step o s (tid, .thread ev) s' → Fires o (s.threads tid) ev m key →
      s.Created m ∧
      (∃ told shown, (s'.threads tid).metaExecuted s'.processToMeta = some (told, shown) ∧ s.Created told ∧
        (told = m ∧ shown = key ∨ ev = .fireWasm key ∧ .processCallback shown ∈ (s.threads tid).frames)) ∧
      (Run (Guarded Outside (Lifetimes.Step o)) (.start threads) ops s →
        ((s'.threads tid).metaExecuted s'.processToMeta = some (m, key) ↔
          Unshadowed s.processToMeta (s.threads tid) ev m key)) := by
  have sound := run_sound idle run
  refine ⟨sound.listed, fun m => ⟨fun created => ?_, fun down => ?_⟩, ?_⟩
  · obtain ⟨wasm, process⟩ := sound.backed m
    have status : (s.metas m).status = .created := created
    rw [status] at wasm process
    exact ⟨wasm, process⟩
  · obtain ⟨wasm, process⟩ := sound.backed m
    rw [down] at wasm process
    exact ⟨wasm, process⟩
  · intro tid ev s' m key step fires
    obtain ⟨allowed, done⟩ := step
    obtain ⟨-, -, awaited⟩ := allowed
    obtain ⟨th, ran, rfl⟩ := Option.map_eq_some_iff.mp done
    have here : ((s.withThread tid th).threads tid) = th := Function.update_self ..
    rw [here]
    cases fires with
    | process loop =>
      obtain ⟨waiting, top⟩ := awaited key _ rfl loop
      have created : s.Created m := sound.engaged waiting m (.inl ⟨_, List.mem_of_mem_head? top, rfl⟩)
      have own : th.metaExecuted s.processToMeta = some (m, key) :=
        Thread.executed_process loop ((sound.listed _ m).mpr ⟨rfl, created⟩) ran
      refine ⟨created, ⟨m, key, own, created, .inl ⟨rfl, rfl⟩⟩, fun _ => ⟨fun _ => ?_, fun _ => own⟩⟩
      intro wasmFires
      cases wasmFires
    | @wasm _ key prev rest top =>
      have created : s.Created m := by
        refine sound.engaged tid m (.inl ⟨.wasmInvoke m prev, ?_, rfl⟩)
        rw [top]
        exact List.mem_cons_self
      have told := Thread.executed_wasm (sound.framed tid) top ran
      refine ⟨created, ?_, fun outside => ?_⟩
      · rcases Thread.toldWasm_cases (sound.framed tid) s.processToMeta m key with own |
            ⟨p, owner, listed, other, inside⟩
        · exact ⟨m, key, (told s.processToMeta).trans (congrArg some own), created, .inl ⟨rfl, rfl⟩⟩
        · exact ⟨owner, _, (told s.processToMeta).trans (congrArg some other),
            ((sound.listed p owner).mp listed).2, .inr ⟨rfl, inside⟩⟩
      · have kept := run_consistent idle outside tid
        rw [← Thread.toldWasm_iff kept]
        change th.metaExecuted s.processToMeta = some (m, key) ↔ _
        rw [told, Option.some_inj]

namespace CallbackContext

/-- Sandbox 0 is created on thread 0, and calls back on its loop, thread 1, whose
host function creates sandbox 1. -/
def createdInside : List (ThreadId × Action) :=
  [(0, .createWasm 0 true), (0, .createProcess 0 (.up 1)), (0, .enlist 0),
    (0, .thread (.invokeProcess 10)), (1, .thread (.fireProcess 1)),
    (1, .createWasm 1 true), (1, .createProcess 1 (.up 2)), (1, .enlist 1),
    (1, .thread (.invokeWasm 0))]

/-- The process backend of each lies ten above it. -/
def tenAbove : Objects := ⟨fun m => m + 10, fun _ _ same => Nat.add_right_cancel same⟩

theorem Lifetimes.free_of_callers {s : Lifetimes} {tid : ThreadId}
    (first : (s.metas 0).status.caller ≠ some tid) (second : (s.metas 1).status.caller ≠ some tid)
    (rest : ∀ m, s.metas (m + 2) = ⟨.notCreated, false, false⟩) : s.Free tid
  | 0 => first
  | 1 => second
  | m + 2 => by
    rw [rest]
    exact (Option.some_ne_none tid).symm

end CallbackContext

/-- A sandbox created inside a process callback is what a wasm callback nested in
it is told of, though the open callback is its own. -/
theorem callback_context_across_lives_created_inside : ∃ s s' : Lifetimes,
    Run (Lifetimes.Step tenAbove) (.start fun _ => .new) createdInside s ∧
      Lifetimes.Step tenAbove s (1, .thread (.fireWasm 1)) s' ∧ s.Created 0 ∧
      Unshadowed s.processToMeta (s.threads 1) (.fireWasm 1) 0 1 ∧
      (s'.threads 1).metaExecuted s'.processToMeta = some (1, 1) := by
  have run : ∃ s, Run (Lifetimes.Step tenAbove) (.start fun _ => .new) createdInside s ∧
      s.threads 1 = { Thread.loopOf 10 with
        threadLocalSandbox := some 11, threadLocalCallbackKey := 1, tlInvokingMeta := some 0
        frames := [.wasmInvoke 0 none, .processCallback 1] } ∧
      s.processToMeta 10 = some 0 ∧ s.processToMeta 11 = some 1 ∧ s.Free 1 := by
    refine ⟨_, .cons ⟨⟨?_, rfl⟩, rfl⟩ (.cons ⟨⟨rfl, ?_, by decide⟩, rfl⟩ (.cons ⟨trivial, rfl⟩
      (.cons ⟨⟨?_, ?invokes, nofun⟩, rfl⟩ (.cons ⟨⟨?_, nofun, ?fires⟩, rfl⟩ (.cons ⟨⟨?_, trivial⟩, rfl⟩
      (.cons ⟨⟨rfl, ?_, by decide⟩, rfl⟩ (.cons ⟨trivial, rfl⟩ (.cons ⟨⟨?_, ?nested, nofun⟩, rfl⟩ .nil)))))))),
      rfl, rfl, rfl, ?_⟩
    case invokes =>
      rintro m (other | process)
      · cases other
      · obtain rfl : 0 = m := tenAbove.distinct (Event.invokeProcess.inj process)
        rfl
    case fires =>
      intro key sandbox _ own
      cases own
      exact ⟨0, rfl⟩
    case nested =>
      rintro m (wasm | other)
      · cases wasm
        rfl
      · cases other
    all_goals exact free_of_callers (by decide) (by decide) fun _ => rfl
  obtain ⟨s, run, inside, own, new, free⟩ := run
  have fired : Lifetimes.Step tenAbove s (1, .thread (.fireWasm 1)) (s.withThread 1 _) :=
    ⟨⟨free, nofun, nofun⟩, by simp only [exec, inside]; rfl⟩
  have told := (callback_context_across_lives tenAbove (fun _ => ⟨rfl, rfl, rfl⟩) run).2.2 _ _ _ 0 1 fired
    (.wasm (by rw [inside]))
  refine ⟨s, _, run, fired, told.1, fun _ sandbox enclosing owner loop around listed => ?_, ?_⟩
  · rw [inside] at loop around
    cases loop
    cases own.symm.trans listed
    rcases List.mem_cons.mp around with other | open_
    · cases other
    · cases List.mem_singleton.mp open_
      exact ⟨rfl, rfl⟩
  · simp [withThread, Thread.metaExecuted, Thread.processExecuted, new]

end RlboxDynamic
