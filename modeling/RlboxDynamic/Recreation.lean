import RlboxDynamic.SandboxCreation
import RlboxDynamic.SymbolRecords

/-! The lives of one meta sandbox object. `impl_destroy_sandbox` ends the
channels, the callback thread and the child. Every other member stays as it is,
and the next life starts from it: the bounds of memory that is gone, symbols of
a child that is gone, and a stop flag no create takes back. -/
namespace RlboxDynamic
open Transition HostProcess

variable {t : Target} {D π : Type}

/-- `impl_is_pointer_in_sandbox_memory` of the process sandbox. -/
def HostProcess.ProcessSandbox.implIsPointerInSandboxMemory (p : Nat) (object : ProcessSandbox t) :
    Bool :=
  if object.sharedMemoryLocalBase = 0 then false
  else decide (object.sharedMemoryLocalBase ≤ p ∧
    p < object.sharedMemoryLocalBase + object.sharedMemorySize)

namespace HostProcess.Life

/-- A callback thread of this life reads the channel the child writes to. -/
def servesCallbacks (transport : Transport) (self : SandboxId) (s : Life t) : Bool :=
  match transport with
  | .rpclib => decide (.server self s.object.callbackPort ∈ s.host.services)
  | .capnp =>
    match s.object.callbackFd with
    | none => false
    | some fd => decide (.loop self fd ∈ s.host.services)

/-- What a child's callback request is answered. -/
def answer (transport : Transport) (self : SandboxId) (request : CallbackRequest) (s : Life t) :
    Option (Except PastEnd (BitVec 64)) :=
  if s.servesCallbacks transport self then some (dispatchCallback s.object.callbackMap request)
  else none

/-- What an operation of the client does to `callback_map`. A registration
passes a function. -/
def passCallback (callback : HostCallback t) (s : Life t) : MetaOp t D → Life t
  | .registerCallback _ _ key =>
    { s with object := { s.object with callbackMap := s.object.callbackMap.insert key callback } }
  | .unregisterCallback key =>
    { s with object := { s.object with callbackMap := s.object.callbackMap.erase key } }
  | _ => s

end HostProcess.Life

/-- A meta sandbox and the process around it. `up` is RLBox's own mark, set
while the sandbox is created. -/
structure MetaObject (t : Target) (D π : Type) where
  up : Bool
  world : MetaWorld t D π
  life : Life t

/-- What is done with an object, with the answers of other code: wasm2c's
sandbox, the system and the two backends. -/
inductive ObjectOp (t : Target) (D : Type) where
  | create (wasm : Bool) (os : CreateAnswers)
  | destroy
  | isPointerInSandboxMemory (p : Nat) (wasm : Bool)
  | client (op : MetaOp t D) (callback : HostCallback t)
  | callbackRequest (request : CallbackRequest)

/-- What there is to see of an operation. -/
inductive Observed (t : Target) where
  | created (success : Bool)
  | destroyed
  | inside (answer : Bool)
  | symbol (addresses : Option (TPointer t × TPointer t))
  | did (calls : List (BackendCall t)) (returned : Option (TPointer t))
  | answered (reply : Option (Except PastEnd (BitVec 64)))

/-- The two addresses a looked-up handle stands for. -/
def MetaWorld.addresses (w : MetaWorld t D π) (symbol : String) :
    Option (TPointer t × TPointer t) :=
  (w.record symbol).map fun r => (r.processSym, r.wasmSym)

def MetaEffect.observed (op : MetaOp t D) (effect : MetaEffect t D π) : Observed t :=
  match op with
  | .lookupSymbol _ _ symbol => .symbol (effect.next.addresses symbol)
  | _ => .did effect.calls effect.returned

namespace MetaObject

/-- Constructed, in a host that may have a history. -/
def fresh (policyState : π) (host : Host) : MetaObject t D π where
  up := false
  world := .initial policyState
  life := ⟨.constructed t, host⟩

/-- `impl_is_pointer_in_sandbox_memory` of the meta sandbox. -/
def implIsPointerInSandboxMemory (p : Nat) (wasm : Bool) (s : MetaObject t D π) : Bool :=
  if s.life.object.implIsPointerInSandboxMemory p then true else wasm

section
variable [Millis D] (policy : MetaPolicyFn t D π) (transport : Transport) (self : SandboxId)

/-- One operation. RLBox creates no sandbox that is up, and only a sandbox that
is up is destroyed or used. The backends' heaps go with the backends. -/
def exec (s : MetaObject t D π) : ObjectOp t D → Option (Observed t × MetaObject t D π)
  | .create wasm os =>
    if s.up then none
    else
      let (created, _, life) := metaCreateSandbox wasm transport self os s.life
      some (.created created, { s with up := created, life })
  | .destroy =>
    if s.up then
      some (.destroyed, {
        up := false
        world := { s.world with heaps := ⟨∅, ∅⟩, live := ∅ }
        life := s.life.implDestroySandbox transport self })
    else none
  | .isPointerInSandboxMemory p wasm => some (.inside (s.implIsPointerInSandboxMemory p wasm), s)
  | .client op callback =>
    if s.up then
      (s.world.exec policy op).map fun effect =>
        (effect.observed op,
          { s with world := effect.next, life := s.life.passCallback callback op })
    else none
  | .callbackRequest request => some (.answered (s.life.answer transport self request), s)

/-- The system answers a create with what is free. -/
def AllowsOp (s : MetaObject t D π) : ObjectOp t D → Prop
  | .create _ os => Allowed os s.life.host
  | _ => True

def Step (s : MetaObject t D π) (op : ObjectOp t D) (s' : MetaObject t D π) : Prop :=
  s.AllowsOp op ∧ ∃ seen, s.exec policy transport self op = some (seen, s')

/-- All there is to see of a sequence of operations. -/
def observe (s : MetaObject t D π) : List (ObjectOp t D) → List (Observed t)
  | [] => []
  | op :: ops =>
    match s.exec policy transport self op with
    | none => []
    | some (seen, s) => seen :: observe s ops

/-- Every address is reported as outside, where wasm2c's sandbox reports so. -/
def Outside (s : MetaObject t D π) : Prop := ∀ p, s.implIsPointerInSandboxMemory p false = false

/-- From a next create on, all there is to see is what a freshly constructed
object in the same host would show. -/
def BehavesAsNew (policyState : π) (s : MetaObject t D π) : Prop :=
  ∀ wasm os ops s', Run (Step policy transport self) s (.create wasm os :: ops) s' →
    s.observe policy transport self (.create wasm os :: ops) =
      (fresh policyState s.life.host : MetaObject t D π).observe policy transport self
        (.create wasm os :: ops)

end

end MetaObject

/-! ## What a destroy leaves -/

namespace HostProcess.Life
variable {s s' : Life t} {transport : Transport} {self : SandboxId} {os : CreateAnswers}

/-- The members that say what the sandbox's memory and callbacks are. -/
structure KeepsMembers (s s' : Life t) : Prop where
  base : s'.object.sharedMemoryLocalBase = s.object.sharedMemoryLocalBase
  size : s'.object.sharedMemorySize = s.object.sharedMemorySize
  callbacks : s'.object.callbackMap = s.object.callbackMap

/-- No callback loop of the object runs, and none will. -/
structure Stopped (o : SandboxId) (s : Life t) : Prop where
  stop : s.object.callbackThreadStop = true
  none : ∀ service ∈ s.host.services, service.owner ≠ o

theorem closeChannels_keeps : s.KeepsMembers s.closeChannels ∧
    s.closeChannels.object.callbackThreadStop = s.object.callbackThreadStop := by
  unfold closeChannels
  split <;> dsimp only <;> split <;> exact ⟨⟨rfl, rfl, rfl⟩, rfl⟩

theorem implDestroySandbox_keeps : s.KeepsMembers (s.implDestroySandbox transport self) := by
  unfold implDestroySandbox
  cases transport with
  | rpclib =>
    dsimp only
    split <;> split <;> exact ⟨rfl, rfl, rfl⟩
  | capnp =>
    dsimp only
    generalize at_close : Life.mk _ _ = before
    obtain ⟨kept, -⟩ := closeChannels_keeps (s := before)
    subst at_close
    split <;> exact ⟨kept.base, kept.size, kept.callbacks⟩

theorem implDestroySandbox_stopped : (s.implDestroySandbox .capnp self).Stopped self := by
  have joined : ∀ services : List CallbackService,
      ∀ service ∈ services.filter (·.owner ≠ self), service.owner ≠ self := by
    intro services service inside
    simpa using (List.mem_filter.mp inside).2
  unfold implDestroySandbox
  dsimp only
  generalize at_close : Life.mk _ _ = before
  obtain ⟨-, stop⟩ := closeChannels_keeps (s := before)
  subst at_close
  split <;> exact ⟨stop, joined _⟩

theorem createCapnp_stopped {shmFd : Fd} (stopped : s.Stopped self) :
    (s.createCapnp self os shmFd).2.Stopped self := by
  obtain ⟨stop, none⟩ := stopped
  unfold createCapnp
  cases os.requestPair with
  | none => exact ⟨stop, none⟩
  | some requestPair =>
    cases os.callbackPair with
    | none => exact ⟨stop, none⟩
    | some callbackPair =>
      cases os.fork with
      | none => exact ⟨stop, none⟩
      | some pid =>
        refine ⟨stop, ?_⟩
        simp only [startCallbackLoop, closeFile, openFile, spawn, stop, if_true]
        exact none

theorem implCreateSandbox_stopped (stopped : s.Stopped self) (allowed : Allowed os s.host) :
    (s.implCreateSandbox .capnp self os).2.Stopped self := by
  have outcome : Creates .capnp self os s _ := creates allowed
  generalize s.implCreateSandbox .capnp self os = result at outcome
  cases outcome with
  | undone => exact ⟨stopped.stop, stopped.none⟩
  | goesOn => exact createCapnp_stopped ⟨stopped.stop, stopped.none⟩

/-- An object that is stopped answers no callback request. -/
theorem Stopped.answer (stopped : s.Stopped self) (request : CallbackRequest) :
    s.answer .capnp self request = Option.none := by
  unfold Life.answer servesCallbacks
  cases s.object.callbackFd with
  | none => rfl
  | some fd =>
    have silent : CallbackService.loop self fd ∉ s.host.services :=
      fun inside => stopped.none _ inside rfl
    simp [silent]

/-- A create that succeeds maps memory. -/
theorem implCreateSandbox_placed (allowed : Allowed os s.host)
    (created : (s.implCreateSandbox transport self os).1 = true) :
    0 < (s.implCreateSandbox transport self os).2.object.sharedMemoryLocalBase ∧
      (s.implCreateSandbox transport self os).2.object.sharedMemorySize = sharedMemoryBytes := by
  have reached : ¬ EarlyFailure t os := by
    have outcome : Creates transport self os s _ := creates allowed
    intro early
    generalize s.implCreateSandbox transport self os = result at outcome created
    cases outcome with
    | undone => cases created
    | goesOn reached => exact reached early
  obtain ⟨base, fresh, -, -, -, isBase, isSize⟩ :=
    @stays_published t os self s transport allowed reached
  exact ⟨isBase ▸ fresh.1, isSize⟩

end HostProcess.Life

/-- A sample moves no symbol. -/
theorem MetaSymbolRecord.pushSample_addresses (r : MetaSymbolRecord t D) (which : MetaBackend)
    (n : BitVec 32) (elapsed : D) :
    (r.pushSample which n elapsed).processSym = r.processSym ∧
      (r.pushSample which n elapsed).wasmSym = r.wasmSym := by
  unfold pushSample
  cases which <;> dsimp only <;> split <;> try exact ⟨rfl, rfl⟩
  all_goals split <;> try exact ⟨rfl, rfl⟩
  all_goals split <;> exact ⟨rfl, rfl⟩

namespace MetaObject
variable {s s' : MetaObject t D π} {transport : Transport} {self : SandboxId}

/-- A sandbox that is up has its memory somewhere. -/
def Placed (s : MetaObject t D π) : Prop :=
  s.up = true → 0 < s.life.object.sharedMemoryLocalBase ∧
    s.life.object.sharedMemorySize = sharedMemoryBytes

theorem passCallback_keeps (callback : HostCallback t) (op : MetaOp t D) (s : Life t) :
    (s.passCallback callback op).object.sharedMemoryLocalBase = s.object.sharedMemoryLocalBase ∧
      (s.passCallback callback op).object.sharedMemorySize = s.object.sharedMemorySize ∧
      (s.passCallback callback op).object.callbackThreadStop = s.object.callbackThreadStop ∧
      (s.passCallback callback op).host = s.host := by
  cases op <;> exact ⟨rfl, rfl, rfl, rfl⟩

section
variable [Millis D] {policy : MetaPolicyFn t D π} {op : ObjectOp t D} {ops : List (ObjectOp t D)}

/-- All that one operation can do. -/
inductive Does (policy : MetaPolicyFn t D π) (transport : Transport) (self : SandboxId)
    (s : MetaObject t D π) : ObjectOp t D → MetaObject t D π → Prop where
  | creates (down : s.up = false) (allowed : Allowed os s.life.host) (wasm : Bool) :
      Does policy transport self s (.create wasm os)
        { s with
          up := (metaCreateSandbox wasm transport self os s.life).1
          life := (metaCreateSandbox wasm transport self os s.life).2.2 }
  | destroys (up : s.up = true) :
      Does policy transport self s .destroy
        { up := false
          world := { s.world with heaps := ⟨∅, ∅⟩, live := ∅ }
          life := s.life.implDestroySandbox transport self }
  | looks : Does policy transport self s (.isPointerInSandboxMemory p wasm) s
  | client (up : s.up = true) (ran : s.world.exec policy asked = some effect) :
      Does policy transport self s (.client asked callback)
        { s with world := effect.next, life := s.life.passCallback callback asked }
  | answers : Does policy transport self s (.callbackRequest request) s

theorem does (step : Step policy transport self s op s') : Does policy transport self s op s' := by
  obtain ⟨allows, seen, ran⟩ := step
  cases op with
  | create wasm os =>
    simp only [exec] at ran
    split at ran
    · cases ran
    · rename_i down
      cases ran
      exact .creates (by simpa using down) allows wasm
  | destroy =>
    simp only [exec] at ran
    split at ran
    · rename_i up
      cases ran
      exact .destroys up
    · cases ran
  | isPointerInSandboxMemory p wasm => cases ran; exact .looks
  | client op callback =>
    simp only [exec] at ran
    split at ran
    · rename_i up
      obtain ⟨effect, took, same⟩ := Option.map_eq_some_iff.mp ran
      cases same
      exact .client up took
    · cases ran
  | callbackRequest request => cases ran; exact .answers

/-- A meta create that succeeds is a create of the process sandbox that does. -/
theorem metaCreateSandbox_life (wasm : Bool) (os : CreateAnswers) (s : Life t) :
    (metaCreateSandbox wasm transport self os s).2.2 = s ∧
        (metaCreateSandbox wasm transport self os s).1 = false ∨
      (metaCreateSandbox wasm transport self os s).2.2 = (s.implCreateSandbox transport self os).2 ∧
        (metaCreateSandbox wasm transport self os s).1 = (s.implCreateSandbox transport self os).1 := by
  unfold metaCreateSandbox
  cases wasm with
  | false => exact .inl ⟨rfl, rfl⟩
  | true =>
    cases s.implCreateSandbox transport self os with
    | mk created after => cases created <;> exact .inr ⟨rfl, rfl⟩

theorem step_placed (placed : s.Placed) (step : Step policy transport self s op s') : s'.Placed := by
  cases does step with
  | @creates os down allowed wasm =>
    intro created
    dsimp only at created ⊢
    rcases metaCreateSandbox_life wasm os s.life with ⟨same, failed⟩ | ⟨same, asProcess⟩
    · rw [failed] at created
      cases created
    · rw [asProcess] at created
      rw [same]
      exact Life.implCreateSandbox_placed allowed created
  | destroys up => intro created; cases created
  | looks => exact placed
  | @client asked effect callback up ran =>
    obtain ⟨base, size, -, -⟩ := passCallback_keeps callback asked s.life
    rw [Placed, base, size]
    exact placed
  | answers => exact placed

theorem step_stopped (stopped : s.life.Stopped self) (step : Step policy .capnp self s op s') :
    s'.life.Stopped self := by
  cases does step with
  | @creates os down allowed wasm =>
    dsimp only
    rcases metaCreateSandbox_life wasm os s.life with ⟨same, -⟩ | ⟨same, -⟩
    · rw [same]
      exact stopped
    · rw [same]
      exact Life.implCreateSandbox_stopped stopped allowed
  | destroys up => exact Life.implDestroySandbox_stopped
  | looks => exact stopped
  | @client asked effect callback up ran =>
    obtain ⟨-, -, stop, host⟩ := passCallback_keeps callback asked s.life
    exact ⟨stop.trans stopped.stop, host.symm ▸ stopped.none⟩
  | answers => exact stopped

section
variable {symbol : String} {known : TPointer t × TPointer t}

/-- No operation changes the addresses of a symbol once looked up. -/
theorem exec_addresses {w : MetaWorld t D π} {asked : MetaOp t D} {effect : MetaEffect t D π}
    (cached : w.addresses symbol = some known) (ran : w.exec policy asked = some effect) :
    effect.next.addresses symbol = some known := by
  obtain ⟨r, found, same⟩ := Option.map_eq_some_iff.mp cached
  obtain ⟨calls, returned, next⟩ := effect
  rw [MetaWorld.addresses, step_record found ran, ← same]
  unfold MetaWorld.recordAfter
  split
  · split <;> simp [MetaSymbolRecord.pushSample_addresses]
  · rfl

theorem step_addresses (cached : s.world.addresses symbol = some known)
    (step : Step policy transport self s op s') :
    s'.world.addresses symbol = some known := by
  cases does step with
  | creates down allowed wasm => exact cached
  | destroys up => exact cached
  | looks => exact cached
  | @client asked effect callback up ran =>
    exact exec_addresses cached ran
  | answers => exact cached

end

/-- For every destroy and every run of operations after it, creates and
destroys included: a symbol looked up before the destroy still has its old
addresses where it is looked up in a later life, whatever the later child and
module would resolve it to; and the Cap'n Proto build answers no callback
request. -/
theorem destroyed_life_remains {first : MetaObject t D π}
    (ended : Step policy transport self first .destroy s)
    (run : Run (Step policy transport self) s ops s') :
    (∀ symbol known, first.world.addresses symbol = some known → s'.up = true →
      ∀ processSym wasmSym callback, ∃ next, s'.exec policy transport self
        (.client (.lookupSymbol processSym wasmSym symbol) callback) =
          some (.symbol (some known), next)) ∧
      (transport = .capnp → ∀ request, s'.life.answer transport self request = none) := by
  constructor
  · intro symbol known cached up processSym wasmSym callback
    have still : s'.world.addresses symbol = some known :=
      (Run.cons ended run).invariant cached fun _ _ _ cached step => step_addresses cached step
    have ran : s'.world.exec policy (.lookupSymbol processSym wasmSym symbol) =
      some (s'.world.internal (s'.world.sandbox.implLookupSymbol processSym wasmSym symbol)) := rfl
    have looked := exec_addresses still ran
    exact ⟨_, by
      simp only [exec, up, if_true, ran, Option.map_some, MetaEffect.observed, looked]; rfl⟩
  · rintro rfl request
    have stopped : s.life.Stopped self := by
      cases does ended with
      | destroys up => exact Life.implDestroySandbox_stopped
    have later : s'.life.Stopped self :=
      run.invariant stopped fun _ _ _ stopped step => step_stopped stopped step
    exact later.answer request

def alwaysProcess : MetaPolicyFn .x86_64 Int Unit := fun _ _ => (.process, ())

/-- A later create's answers: its memory lies elsewhere. -/
def againSucceed : CreateAnswers :=
  { allSucceed with mmapPadded := some 0x7e0000000000, mmapHint := fun _ => none }

theorem allowed_againSucceed :
    Allowed againSucceed (((emptyHost .x86_64).implCreateSandbox .capnp 0 allSucceed).2.implDestroySandbox
      .capnp 0).host where
  padded start answered := by
    cases answered
    refine ⟨by decide, fun a above below => ?_⟩
    change munmap (0x7f0000000000 + sharedMemoryBytes) 0x100000000
      (mmap 0x7f0000000000 (sharedMemoryBytes + 0x100000000) fun _ => false) a = false
    have outside : ¬ 0x7f0000000000 ≤ a := by
      have bytes : sharedMemoryBytes = 0x4000000 := rfl
      omega
    simp [munmap, mmap, outside]
  hinted _ _ answered := by cases answered
  fds := ⟨by decide, by decide⟩
  pid pid answered child inside := by cases inside

/-- Created in an empty host, with one symbol looked up. -/
def areaLookedUp : MetaObject .x86_64 Int Unit where
  up := true
  world := { (MetaWorld.initial () : MetaWorld .x86_64 Int Unit) with
    sandbox := (MetaWorld.initial ()).sandbox.implLookupSymbol 0x401000#64 1#64 "area" }
  life := ((emptyHost .x86_64).implCreateSandbox .capnp 0 allSucceed).2

/-- The symbol is looked up again in the second of two lives. -/
theorem area_in_second_life : ∃ first s s' : MetaObject .x86_64 Int Unit,
    Step alwaysProcess .capnp 0 first .destroy s ∧
      Run (Step alwaysProcess .capnp 0) s [.create true againSucceed] s' ∧
      (∃ next, s'.exec alwaysProcess .capnp 0
        (.client (.lookupSymbol 0x502000#64 2#64 "area") ⟨[], fun _ => none⟩) =
          some (.symbol (some (0x401000#64, 1#64)), next)) ∧
      ∀ request, s'.life.answer .capnp 0 request = none := by
  obtain ⟨s, s', destroyed, again, up⟩ : ∃ s s',
      Step alwaysProcess .capnp 0 areaLookedUp .destroy s ∧
        Run (Step alwaysProcess .capnp 0) s [.create true againSucceed] s' ∧ s'.up = true :=
    ⟨_, _, ⟨trivial, _, rfl⟩, .single ⟨allowed_againSucceed, _, rfl⟩, rfl⟩
  obtain ⟨looked, silent⟩ := destroyed_life_remains destroyed again
  exact ⟨_, s, s', destroyed, again, looked "area" _ rfl up _ _ _, silent rfl⟩

/-! ## Neither half of the law -/

/-- A destroyed object still reports the first address of its memory as inside. -/
theorem not_outside (placed : s.Placed) (step : Step policy transport self s .destroy s') :
    s'.life.object.sharedMemoryLocalBase ≠ 0 ∧
      s'.implIsPointerInSandboxMemory s'.life.object.sharedMemoryLocalBase false = true := by
  cases does step with
  | destroys up =>
    obtain ⟨positive, size⟩ := placed up
    have kept : s.life.KeepsMembers (s.life.implDestroySandbox transport self) :=
      Life.implDestroySandbox_keeps
    have bytes : 0 < sharedMemoryBytes := by decide
    have isBase := kept.base
    have isSize := kept.size.trans size
    have nonZero : (s.life.implDestroySandbox transport self).object.sharedMemoryLocalBase ≠ 0 := by
      omega
    refine ⟨nonZero, ?_⟩
    unfold implIsPointerInSandboxMemory ProcessSandbox.implIsPointerInSandboxMemory
    simp only [if_neg nonZero, Nat.le_refl, true_and, Nat.lt_add_right_iff_pos]
    rw [if_pos (decide_eq_true (by omega))]

/-- What the system answers to a create that ends with `memfd_create`. -/
def noMemfd : CreateAnswers where
  memfd := none
  mmapPadded := none
  mmapHint _ := none
  mmapFixed := false
  rpcPort := 0
  callbackPort := 0
  requestPair := none
  callbackPair := none
  fork := none
  listening := false
  connected := false

theorem allowed_noMemfd (host : Host) : Allowed noMemfd host where
  padded _ answered := by cases answered
  hinted _ _ answered := by cases answered
  fds := ⟨.nil, fun _ inside => by cases inside⟩
  pid _ answered := by cases answered

/-- An object that still reports an address as inside shows it after a next
create that fails. -/
theorem not_behavesAsNew {policyState : π} {p : Nat} (down : s.up = false)
    (placed : s.life.object.sharedMemoryLocalBase = p) (positive : p ≠ 0) :
    ¬ s.BehavesAsNew policy transport self policyState := by
  intro asNew
  have seen := asNew true noMemfd [.isPointerInSandboxMemory p false] _
    (.cons ⟨allowed_noMemfd _, _, by simp only [exec, down]; rfl⟩ (.cons ⟨trivial, _, rfl⟩ .nil))
  have inside : p < p + sharedMemoryBytes := by
    have bytes : 0 < sharedMemoryBytes := by decide
    omega
  simp [observe, exec, down, fresh, metaCreateSandbox, Life.implCreateSandbox, noMemfd,
    implIsPointerInSandboxMemory, ProcessSandbox.implIsPointerInSandboxMemory, placed, positive,
    inside, ProcessSandbox.constructed] at seen

/-- For every run on a freshly constructed object that ends in a destroy, in
either build and whatever the policy: some address is still reported as inside,
and the object shows in a later life that it had an earlier one. -/
theorem recreation_never_as_new {policyState : π} {host : Host}
    (run : Run (Step policy transport self) (fresh policyState host) (ops ++ [.destroy]) s) :
    ¬ s.Outside ∧ ¬ s.BehavesAsNew policy transport self policyState := by
  obtain ⟨before, upTo, last⟩ := run.split
  cases last with
  | cons step rest =>
    cases rest
    have placed : before.Placed :=
      upTo.invariant (fun up => by cases up) fun _ _ _ placed step => step_placed placed step
    obtain ⟨positive, inside⟩ := not_outside placed step
    have down : s.up = false := by cases does step; rfl
    refine ⟨fun outside => ?_, not_behavesAsNew down rfl positive⟩
    rw [outside] at inside
    cases inside

end

/-- One idle life. -/
def oneLife : List (ObjectOp .x86_64 Int) := [.create true allSucceed, .destroy]

theorem run_oneLife : ∃ s,
    Run (Step alwaysProcess .capnp 0) (fresh () (emptyHost .x86_64).host) oneLife s :=
  ⟨_, .cons ⟨allowed_emptyHost (t := .x86_64) allSucceed rfl rfl (by decide), _, rfl⟩
    (.cons ⟨trivial, _, rfl⟩ .nil)⟩

theorem idle_life_not_as_new : ∃ s,
    Run (Step alwaysProcess .capnp 0) (fresh () (emptyHost .x86_64).host) oneLife s ∧
      ¬ s.Outside ∧ ¬ s.BehavesAsNew alwaysProcess .capnp 0 () := by
  obtain ⟨s, run⟩ := run_oneLife
  have split : oneLife = [.create true allSucceed] ++ [.destroy] := rfl
  exact ⟨s, run, recreation_never_as_new (split ▸ run)⟩

/-- The memory of the first life is reported as inside after it. -/
theorem old_memory_still_inside :
    ¬ ∀ s, Run (Step alwaysProcess .capnp 0) (fresh () (emptyHost .x86_64).host) oneLife s →
      s.Outside ∧ s.BehavesAsNew alwaysProcess .capnp 0 () := by
  intro always
  have outside := always _ (.cons
    ⟨allowed_emptyHost (t := .x86_64) allSucceed rfl rfl (by decide), _, rfl⟩
    (.cons ⟨trivial, _, rfl⟩ .nil))
  have inside := outside.1 0x7f0000000000
  cases inside

end MetaObject
end RlboxDynamic
