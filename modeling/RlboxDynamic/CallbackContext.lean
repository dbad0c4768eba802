import RlboxDynamic.Transition
import Mathlib.Logic.Function.Basic
import Mathlib.Data.List.Basic

/-! Which callback `impl_get_executed_callback_sandbox_and_key` believes is
firing. Two channels of thread-local state are consulted in a fixed order: the
process backend's own, then the invoking meta sandbox. A process callback's key
stays published while its host function runs, so a wasm callback fired from
inside it is shadowed. -/
namespace RlboxDynamic.CallbackContext
open Transition

abbrev MetaId := Nat
abbrev ProcessId := Nat
abbrev ThreadId := Nat

/-- A callback's `void*` key, 0 for null. Registered callbacks have one. -/
abbrev CallbackKey := Nat

/-- What is on a thread's stack. `wasmInvoke` keeps `meta_scope::prev`. -/
inductive Frame where
  | wasmInvoke (invoking : MetaId) (prev : Option MetaId)
  | processInvoke (sandbox : ProcessId)
  | wasmCallback (key : CallbackKey)
  | processCallback (key : CallbackKey)
  deriving DecidableEq

/-- A host thread, or the thread of one sandbox's `start_callback_loop`, with
its thread-local variables and its stack, innermost frame first. -/
structure Thread where
  callbackLoopOf : Option ProcessId
  threadLocalSandbox : Option ProcessId
  threadLocalCallbackKey : CallbackKey
  tlInvokingMeta : Option MetaId
  wasmLastKey : CallbackKey
  frames : List Frame

/-- What happens on a thread. -/
inductive Event where
  | invokeWasm (sandbox : MetaId)
  | returnWasm
  | invokeProcess (sandbox : ProcessId)
  | returnProcess
  | fireWasm (key : CallbackKey)
  | fireProcess (key : CallbackKey)
  | finish
  deriving DecidableEq

namespace Thread

/-- Host code has the thread: outside any invoke, unless this is a callback
loop waiting for its next request, or inside a callback. -/
def RunsHost (th : Thread) : Prop :=
  match th.frames with
  | [] => th.callbackLoopOf = none
  | .wasmCallback _ :: _ | .processCallback _ :: _ => True
  | .wasmInvoke _ _ :: _ | .processInvoke _ :: _ => False

instance (th : Thread) : Decidable th.RunsHost := by
  unfold RunsHost
  split <;> infer_instance

/-- One event on the thread. A wasm callback runs on the thread of its invoke;
a process callback runs on the callback loop, which publishes the sandbox and
the key before its dispatcher and clears them after it. -/
def exec (th : Thread) : Event → Option Thread
  | .invokeWasm sandbox =>
    if th.RunsHost then
      some { th with
        tlInvokingMeta := some sandbox
        frames := .wasmInvoke sandbox th.tlInvokingMeta :: th.frames }
    else none
  | .returnWasm =>
    match th.frames with
    | .wasmInvoke _ prev :: rest => some { th with tlInvokingMeta := prev, frames := rest }
    | _ => none
  | .invokeProcess sandbox =>
    if th.RunsHost then some { th with frames := .processInvoke sandbox :: th.frames } else none
  | .returnProcess =>
    match th.frames with
    | .processInvoke _ :: rest => some { th with frames := rest }
    | _ => none
  | .fireWasm key =>
    match th.frames with
    | .wasmInvoke _ _ :: _ =>
      if key = 0 then none
      else some { th with wasmLastKey := key, frames := .wasmCallback key :: th.frames }
    | _ => none
  | .fireProcess key =>
    match th.callbackLoopOf, th.frames with
    | some sandbox, [] =>
      if key = 0 then none
      else
        some { th with
          threadLocalSandbox := some sandbox, threadLocalCallbackKey := key
          frames := [.processCallback key] }
    | _, _ => none
  | .finish =>
    match th.frames with
    | .wasmCallback _ :: rest => some { th with frames := rest }
    | .processCallback _ :: rest =>
      some { th with threadLocalSandbox := none, threadLocalCallbackKey := 0, frames := rest }
    | _ => none

/-- `rlbox_process_sandbox::impl_get_executed_callback_sandbox_and_key`. -/
def processExecuted (th : Thread) : Option ProcessId × CallbackKey :=
  if th.threadLocalCallbackKey = 0 then (none, 0)
  else (th.threadLocalSandbox, th.threadLocalCallbackKey)

/-- The wasm path: the invoking meta sandbox, with the key wasm2c reports. -/
def wasmExecuted (th : Thread) : Option (MetaId × CallbackKey) :=
  th.tlInvokingMeta.map fun invoking => (invoking, th.wasmLastKey)

/-- `rlbox_meta_sandbox::impl_get_executed_callback_sandbox_and_key`, given
`process_to_meta_map`. None where it aborts. -/
def metaExecuted (processToMeta : ProcessId → Option MetaId) (th : Thread) :
    Option (MetaId × CallbackKey) :=
  match th.processExecuted with
  | (some sandbox, key) =>
    match processToMeta sandbox with
    | some found => some (found, key)
    | none => th.wasmExecuted
  | (none, _) => th.wasmExecuted

/-- Whose callback an event fires, where it fires a meta sandbox's. -/
def firer (processToMeta : ProcessId → Option MetaId) (th : Thread) :
    Event → Option (MetaId × CallbackKey)
  | .fireWasm key =>
    match th.frames with
    | .wasmInvoke invoking _ :: _ => some (invoking, key)
    | _ => none
  | .fireProcess key => (th.callbackLoopOf.bind processToMeta).map fun owner => (owner, key)
  | _ => none

/-- A thread on which nothing runs. Creating a sandbox may have left its
pointer behind. -/
structure Idle (th : Thread) : Prop where
  noFrames : th.frames = []
  noCallbackKey : th.threadLocalCallbackKey = 0
  noInvokingMeta : th.tlInvokingMeta = none

end Thread

/-- All threads of the host process. -/
abbrev System := ThreadId → Thread

/-- Some thread waits for an invoke on this sandbox. -/
def System.Awaits (s : System) (sandbox : ProcessId) : Prop :=
  ∃ waiting, (s waiting).frames.head? = some (.processInvoke sandbox)

/-- One event on one thread. The shim fires a callback only while it runs an
invoke. -/
def System.Step (s : System) (label : ThreadId × Event) (s' : System) : Prop :=
  (∀ key sandbox, label.2 = .fireProcess key → (s label.1).callbackLoopOf = some sandbox →
      s.Awaits sandbox) ∧
    ∃ th, (s label.1).exec label.2 = some th ∧ s' = Function.update s label.1 th

theorem System.step_of_exec {s : System} (done : (s tid).exec ev = some th)
    (here : ∀ key, ev ≠ .fireProcess key) : System.Step s (tid, ev) (Function.update s tid th) :=
  ⟨fun key _ fires => absurd fires (here key), th, done, rfl⟩

/-! ## What the thread-local variables say about the stack -/

/-- `tl_invoking_meta` is the innermost wasm invoke's, and each invoke keeps
the value it will restore. -/
def Scoped : List Frame → Option MetaId → Prop
  | [], current => current = none
  | .wasmInvoke invoking prev :: rest, current => current = some invoking ∧ Scoped rest prev
  | .processInvoke _ :: rest, current => Scoped rest current
  | .wasmCallback _ :: rest, current => Scoped rest current
  | .processCallback _ :: rest, current => Scoped rest current

/-- The keys of the process callbacks that are open on a stack. -/
def openKeys (frames : List Frame) : List CallbackKey :=
  frames.filterMap fun
    | .processCallback key => some key
    | _ => none

@[simp] theorem openKeys_nil : openKeys [] = [] := rfl

@[simp] theorem openKeys_wasmInvoke :
    openKeys (.wasmInvoke invoking prev :: rest) = openKeys rest := rfl

@[simp] theorem openKeys_processInvoke :
    openKeys (.processInvoke sandbox :: rest) = openKeys rest := rfl

@[simp] theorem openKeys_wasmCallback : openKeys (.wasmCallback key :: rest) = openKeys rest := rfl

@[simp] theorem openKeys_processCallback :
    openKeys (.processCallback key :: rest) = key :: openKeys rest := rfl

theorem mem_openKeys {frames : List Frame} :
    key ∈ openKeys frames ↔ .processCallback key ∈ frames := by
  induction frames with
  | nil => simp
  | cons frame rest ih => cases frame <;> simp [ih]

/-- A thread's variables describe its stack. At most one process callback is
open, the outermost frame of a callback loop, and its context is published. -/
structure Thread.Consistent (th : Thread) : Prop where
  inScope : Scoped th.frames th.tlInvokingMeta
  openKey : openKeys th.frames =
    if th.threadLocalCallbackKey = 0 then [] else [th.threadLocalCallbackKey]
  published : th.threadLocalCallbackKey ≠ 0 →
    ∃ sandbox, th.callbackLoopOf = some sandbox ∧ th.threadLocalSandbox = some sandbox

namespace Thread
variable {th th' : Thread}

theorem Idle.consistent (idle : th.Idle) : th.Consistent where
  inScope := by simp [idle.noFrames, idle.noInvokingMeta, Scoped]
  openKey := by simp [idle.noFrames, idle.noCallbackKey]
  published := by simp [idle.noCallbackKey]

/-- Each event keeps the variables and the stack in step. -/
theorem exec_consistent (kept : th.Consistent) (done : th.exec ev = some th') :
    th'.Consistent := by
  cases ev with
  | invokeWasm sandbox =>
    simp only [exec] at done
    split at done
    · cases done
      exact ⟨⟨rfl, kept.inScope⟩, kept.openKey, kept.published⟩
    · cases done
  | returnWasm =>
    simp only [exec] at done
    split at done
    next invoking prev rest on_top =>
      cases done
      have in_scope := kept.inScope
      have shown := kept.openKey
      rw [on_top] at in_scope shown
      exact ⟨in_scope.2, shown, kept.published⟩
    next => cases done
  | invokeProcess sandbox =>
    simp only [exec] at done
    split at done
    · cases done
      exact ⟨kept.inScope, kept.openKey, kept.published⟩
    · cases done
  | returnProcess =>
    simp only [exec] at done
    split at done
    next sandbox rest on_top =>
      cases done
      have in_scope := kept.inScope
      have shown := kept.openKey
      rw [on_top] at in_scope shown
      exact ⟨in_scope, shown, kept.published⟩
    next => cases done
  | fireWasm key =>
    simp only [exec] at done
    split at done
    next invoking prev rest on_top =>
      split at done
      · cases done
      · cases done
        exact ⟨kept.inScope, kept.openKey, kept.published⟩
    next => cases done
  | fireProcess key =>
    simp only [exec] at done
    split at done
    next sandbox is_loop waiting =>
      split at done
      · cases done
      next nonzero =>
        cases done
        have in_scope := kept.inScope
        rw [waiting] at in_scope
        exact ⟨in_scope, by simp [nonzero], fun _ => ⟨sandbox, is_loop, rfl⟩⟩
    next => cases done
  | finish =>
    simp only [exec] at done
    split at done
    next key rest on_top =>
      cases done
      have in_scope := kept.inScope
      have shown := kept.openKey
      rw [on_top] at in_scope shown
      exact ⟨in_scope, shown, kept.published⟩
    next key rest on_top =>
      cases done
      have in_scope := kept.inScope
      have shown := kept.openKey
      rw [on_top] at in_scope shown
      -- the callback was the only one open, so none is left
      have closed : openKeys rest = [] := by
        by_cases cleared : th.threadLocalCallbackKey = 0 <;> simp_all
      exact ⟨in_scope, by simp [closed], by simp⟩
    next => cases done

/-- What a firing leaves for the interceptor, told from the state before it. -/
theorem fired_cases (kept : th.Consistent) (done : th.exec ev = some th')
    (fires : th.firer processToMeta ev = some (m, key)) :
    (ev = .fireProcess key ∧ key ≠ 0 ∧ th'.threadLocalCallbackKey = key ∧
      ∃ sandbox, th'.threadLocalSandbox = some sandbox ∧ processToMeta sandbox = some m) ∨
    (ev = .fireWasm key ∧ th'.tlInvokingMeta = some m ∧ th'.wasmLastKey = key ∧
      th'.threadLocalCallbackKey = th.threadLocalCallbackKey ∧
      th'.threadLocalSandbox = th.threadLocalSandbox) := by
  cases ev with
  | fireProcess fired =>
    simp only [exec] at done
    split at done
    next sandbox is_loop waiting =>
      split at done
      · cases done
      next nonzero =>
        cases done
        simp only [firer, is_loop, Option.bind_some, Option.map_eq_some_iff, Prod.mk.injEq] at fires
        obtain ⟨owner, owned, rfl, rfl⟩ := fires
        exact .inl ⟨rfl, nonzero, rfl, sandbox, rfl, owned⟩
    next => cases done
  | fireWasm fired =>
    simp only [exec] at done
    split at done
    next invoking prev rest on_top =>
      split at done
      · cases done
      · cases done
        have in_scope := kept.inScope
        simp only [firer, on_top, Option.some.injEq, Prod.mk.injEq] at fires
        obtain ⟨rfl, rfl⟩ := fires
        rw [on_top] at in_scope
        exact .inr ⟨rfl, in_scope.1, rfl, rfl, rfl⟩
    next => cases done
  | invokeWasm _ | returnWasm | invokeProcess _ | returnProcess | finish => cases fires

end Thread

/-- Every thread's variables describe its stack. -/
def System.Consistent (s : System) : Prop := ∀ tid, (s tid).Consistent

/-- The invariant holds of every thread, whatever the others do. -/
theorem reachable_consistent {start s : System} (idle : ∀ tid, (start tid).Idle)
    (reached : Reachable System.Step start s) : s.Consistent := by
  refine reached.invariant (fun tid => (idle tid).consistent) ?_
  rintro s ⟨acting, ev⟩ s' kept ⟨-, th, done, rfl⟩ tid
  by_cases same : tid = acting
  · subst same
    simpa using Thread.exec_consistent (kept tid) done
  · simpa [same] using kept tid

/-- No process callback of another sandbox or key is open on a callback loop
that is about to fire a wasm callback. -/
def Unshadowed (processToMeta : ProcessId → Option MetaId) (th : Thread) (ev : Event)
    (m : MetaId) (key : CallbackKey) : Prop :=
  ev = .fireWasm key → ∀ sandbox enclosing owner, th.callbackLoopOf = some sandbox →
    .processCallback enclosing ∈ th.frames → processToMeta sandbox = some owner →
      owner = m ∧ enclosing = key

end RlboxDynamic.CallbackContext

namespace RlboxDynamic
open Transition CallbackContext

/-- The interceptor of a firing callback recovers its own sandbox and key
exactly when no open process callback shadows it. -/
theorem executed_callback_iff (processToMeta : ProcessId → Option MetaId) {start s s' : System}
    (idle : ∀ tid, (start tid).Idle) (reached : Reachable System.Step start s)
    (fired : System.Step s (tid, ev) s')
    (fires : (s tid).firer processToMeta ev = some (m, key)) :
    (s' tid).metaExecuted processToMeta = some (m, key) ↔
      Unshadowed processToMeta (s tid) ev m key := by
  have kept := reachable_consistent idle reached tid
  obtain ⟨-, th, done, rfl⟩ := fired
  rw [Function.update_self]
  rcases Thread.fired_cases kept done fires with
    ⟨rfl, nonzero, shown, sandbox, published, owned⟩ |
    ⟨rfl, invoking, last, same_key, same_sandbox⟩
  · have own : th.metaExecuted processToMeta = some (m, key) := by
      simp [Thread.metaExecuted, Thread.processExecuted, shown, nonzero, published, owned]
    exact ⟨fun _ wasm_fires => (nomatch wasm_fires), fun _ => own⟩
  · have wasm : th.wasmExecuted = some (m, key) := by simp [Thread.wasmExecuted, invoking, last]
    by_cases open_ : (s tid).threadLocalCallbackKey = 0
    · -- no process callback is open, and recovery falls through to wasm
      have closed : openKeys (s tid).frames = [] := by rw [kept.openKey, if_pos open_]
      have own : th.metaExecuted processToMeta = some (m, key) := by
        simp [Thread.metaExecuted, Thread.processExecuted, same_key, open_, wasm]
      refine ⟨fun _ _ sandbox enclosing owner _ inside => ?_, fun _ => own⟩
      have listed := mem_openKeys.mpr inside
      simp [closed] at listed
    · -- the open process callback answers, whoever fires
      obtain ⟨sandbox, is_loop, published⟩ := kept.published open_
      have only : ∀ enclosing, .processCallback enclosing ∈ (s tid).frames ↔
          enclosing = (s tid).threadLocalCallbackKey := by
        intro enclosing
        rw [← mem_openKeys, kept.openKey, if_neg open_, List.mem_singleton]
      have answered : th.metaExecuted processToMeta =
          match processToMeta sandbox with
          | some owner => some (owner, (s tid).threadLocalCallbackKey)
          | none => some (m, key) := by
        simp [Thread.metaExecuted, Thread.processExecuted, same_key, open_, same_sandbox,
          published, wasm]
      rw [answered]
      constructor
      · intro recovered _ sandbox' enclosing owner loop inside owned
        obtain rfl : sandbox = sandbox' := Option.some.inj (is_loop.symm.trans loop)
        rw [owned] at recovered
        rw [(only enclosing).mp inside]
        simpa using recovered
      · intro unshadowed
        cases owned : processToMeta sandbox with
        | none => rfl
        | some owner =>
          obtain ⟨rfl, same⟩ :=
            unshadowed rfl sandbox _ owner is_loop ((only _).mpr rfl) owned
          simp [same]

namespace CallbackContext

/-- A thread that loops on the callbacks of process sandbox 7 and host threads,
all idle. -/
def idleThreads : System := fun tid =>
  { callbackLoopOf := if tid = 1 then some 7 else none
    threadLocalSandbox := none, threadLocalCallbackKey := 0
    tlInvokingMeta := none, wasmLastKey := 0, frames := [] }

/-- Meta sandbox 3 owns process sandbox 7. -/
def ownsSeven : ProcessId → Option MetaId := fun sandbox => if sandbox = 7 then some 3 else none

theorem idleThreads_idle (tid : ThreadId) : (idleThreads tid).Idle := ⟨rfl, rfl, rfl⟩

/-- Thread 0 has invoked into the wasm backend of meta sandbox 3. -/
def wasmInvoked : System := Function.update idleThreads 0
  { idleThreads 0 with tlInvokingMeta := some 3, frames := [.wasmInvoke 3 none] }

end CallbackContext

/-- A wasm callback with no process callback around it is recovered. -/
theorem executed_callback_alone :
    ∃ s : System, System.Step wasmInvoked (0, .fireWasm 2) s ∧
      (s 0).metaExecuted ownsSeven = some (3, 2) := by
  have invoked : System.Step idleThreads (0, .invokeWasm 3) wasmInvoked := System.step_of_exec rfl nofun
  have fired : System.Step wasmInvoked (0, .fireWasm 2) _ := System.step_of_exec rfl nofun
  refine ⟨_, fired,
    (executed_callback_iff ownsSeven idleThreads_idle (.tail .refl invoked) fired rfl).mpr ?_⟩
  intro _ sandbox enclosing owner _ inside
  simp [wasmInvoked] at inside

/-- The host function of a process callback with key 1 invokes wasm, and wasm
calls back with key 2: the interceptor recovers key 1. -/
theorem nested_wasm_callback_misread :
    ∃ (s s' : System), Run System.Step idleThreads
        [(0, .invokeProcess 7), (1, .fireProcess 1), (1, .invokeWasm 3)] s ∧
      System.Step s (1, .fireWasm 2) s' ∧
      (s 1).firer ownsSeven (.fireWasm 2) = some (3, 2) ∧
      (s' 1).metaExecuted ownsSeven = some (3, 1) := by
  refine ⟨_, _, .cons (System.step_of_exec rfl nofun) (.cons ⟨?_, _, rfl, rfl⟩
    (.cons (System.step_of_exec rfl nofun) .nil)), System.step_of_exec rfl nofun, rfl, rfl⟩
  rintro key sandbox - looping
  obtain rfl : 7 = sandbox := Option.some.inj looping
  exact ⟨0, rfl⟩

end RlboxDynamic
