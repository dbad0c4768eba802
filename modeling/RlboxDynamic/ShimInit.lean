import Mathlib.Logic.Function.Basic
import RlboxDynamic.BootstrapHeap
import RlboxDynamic.Transition

/-! The allocator overrides around the initialisation of the shim: the once-guard
on `init_shm`, the two flags each override tests, and any number of threads that
call them, also out of `init_shm` itself. Loads and stores of the flags are
steps of their own. `g_mspace` is a plain global: a build may read it again where
the source names it again, or pass on the value it loaded first. -/
namespace RlboxDynamic.ShimInit
open BootstrapHeap (BootstrapBuf secondPage)
open Transition

variable {t : Target}

/-- A thread of the shim's process. -/
abbrev Thread := Nat

/-- A call of an override. -/
inductive Request (t : Target) where
  | malloc (size : SizeT t)
  | calloc (nmemb size : SizeT t)
  | realloc (ptr : TPointer t) (size : SizeT t)

/-- How `malloc` comes to its last line: it saw an mspace at its first test, it
saw `g_in_init` set, or it saw an mspace after `call_once`. -/
inductive Path where
  | mspaceSeen
  | inInitSeen
  | initialised
  deriving DecidableEq

/-- Where `init_shm` is: before its first line, before the mspace, before the
callback keys, before the last line, at its return. -/
inductive InitStage where
  | setFlag
  | mapShm
  | callbackKeys
  | clearFlag
  | leave
  deriving DecidableEq

/-- A call in progress, by the line it is at. On a last line, `first` is what the
call's test of `g_mspace` loaded. -/
inductive Frame (t : Target) where
  | malloc (size : SizeT t)
  | testInInit (size : SizeT t)
  | callOnce (size : SizeT t)
  | retest (size : SizeT t)
  | load (path : Path) (size : SizeT t) (first : TPointer t)
  | calloc (nmemb size : SizeT t)
  | loadCalloc (nmemb size : SizeT t) (first : TPointer t)
  | realloc (ptr : TPointer t) (size : SizeT t)
  | loadRealloc (ptr : TPointer t) (size : SizeT t) (first : TPointer t)
  | eagerInit
  | init (stage : InitStage)
  deriving DecidableEq

/-- How a request ends: with null, in the bootstrap buffer, or in an mspace
function with the value of `g_mspace` it is given. -/
inductive Outcome (t : Target) where
  | null
  | bootstrap (size : SizeT t)
  | mspaceMalloc (msp : TPointer t)
  | mspaceCalloc (msp : TPointer t)
  | mspaceRealloc (msp : TPointer t)
  deriving DecidableEq

/-- The mspace the request reached. -/
def Outcome.msp : Outcome t → Option (TPointer t)
  | .null | .bootstrap _ => none
  | .mspaceMalloc msp | .mspaceCalloc msp | .mspaceRealloc msp => some msp

/-- `g_init_once`. -/
inductive Once where
  | notStarted
  | running (thread : Thread)
  | done
  deriving DecidableEq

/-- `g_mspace`, `g_in_init`, `g_init_once`, and the calls of each thread, the
innermost first. -/
structure Shim (t : Target) where
  mspace : TPointer t
  inInit : Bool
  once : Once
  stack : Thread → List (Frame t)

/-- A thread calls an override, or `start_rpc_server` reaches its own `call_once`,
or a thread goes on by a line. The answer is what `create_mspace_with_base`
returns, none where `init_shm` does not get to it. -/
inductive Event (t : Target) where
  | call (thread : Thread) (request : Request t)
  | eagerInit (thread : Thread)
  | line (thread : Thread) (answer : Option (TPointer t))

/-- The line a request is at once its arguments are looked at, none where it
has returned null by then. -/
def Request.entry (buf : BootstrapBuf t) : Request t → Option (Frame t)
  | .malloc size => if size = 0 then none else some (.malloc size)
  | .calloc nmemb size =>
    if 0 < nmemb ∧ BitVec.allOnes _ / nmemb < size then none else some (.calloc nmemb size)
  | .realloc ptr size =>
    if ptr = 0 then if size = 0 then none else some (.malloc size)
    else if size = 0 then none
    else if buf.Has ptr then some (.malloc size)
    else some (.realloc ptr size)

namespace Shim

/-- Nothing has been called yet. -/
def start (t : Target) : Shim t where
  mspace := 0
  inInit := false
  once := .notStarted
  stack _ := []

def setStack (s : Shim t) (thread : Thread) (frames : List (Frame t)) : Shim t :=
  { s with stack := Function.update s.stack thread frames }

/-- The thread runs code that may call an override: the library's, or what
`init_shm` calls between its first line and its last. -/
def mayCall (s : Shim t) (thread : Thread) : Bool :=
  match s.stack thread with
  | [] => true
  | .init .mapShm :: _ | .init .callbackKeys :: _ | .init .clearFlag :: _ => true
  | _ => false

/-- `std::call_once`, in the frame of the caller: the first thread runs
`init_shm`, the others wait for it. -/
def callOnce (s : Shim t) (thread : Thread) (frame : Frame t) (rest : List (Frame t))
    (after : List (Frame t)) : Option (Shim t) :=
  match s.once with
  | .notStarted =>
    some { s.setStack thread (.init .setFlag :: frame :: rest) with once := .running thread }
  | .running _ => none
  | .done => some (s.setStack thread (after ++ rest))

/-- The line of `init_shm`, with what it hands to an mspace function. -/
def initLine (s : Shim t) (thread : Thread) (rest : List (Frame t)) (answer : Option (TPointer t)) :
    InitStage → Option (Outcome t) × Shim t
  | .setFlag => (none, { s.setStack thread (.init .mapShm :: rest) with inInit := true })
  | .mapShm =>
    match answer with
    | none => (none, s.setStack thread (.init .clearFlag :: rest))
    | some msp => (none, { s.setStack thread (.init .callbackKeys :: rest) with mspace := msp })
  | .callbackKeys =>
    (if s.mspace = 0 then none else some (.mspaceMalloc s.mspace),
      s.setStack thread (.init .clearFlag :: rest))
  | .clearFlag => (none, { s.setStack thread (.init .leave :: rest) with inInit := false })
  | .leave => (none, { s.setStack thread rest with once := .done })

/-- What a last line passes on. -/
def passed (reads : Bool) (s : Shim t) (first : TPointer t) : TPointer t :=
  if reads then s.mspace else first

/-- One line of the innermost call, with how a request ends on it. `reads` says
that a last line reads `g_mspace` again. -/
def line (reads : Bool) (s : Shim t) (thread : Thread) (rest : List (Frame t)) (answer : Option (TPointer t)) :
    Frame t → Option (Option (Outcome t) × Shim t)
  | .malloc size =>
    if s.mspace = 0 then some (none, s.setStack thread (.testInInit size :: rest))
    else some (none, s.setStack thread (.load .mspaceSeen size s.mspace :: rest))
  | .testInInit size =>
    if s.inInit then some (none, s.setStack thread (.load .inInitSeen size 0 :: rest))
    else some (none, s.setStack thread (.callOnce size :: rest))
  | .callOnce size => (s.callOnce thread (.callOnce size) rest [.retest size]).map fun s => (none, s)
  | .retest size =>
    if s.mspace = 0 then some (some (.bootstrap size), s.setStack thread rest)
    else some (none, s.setStack thread (.load .initialised size s.mspace :: rest))
  | .load _ _ first => some (some (.mspaceMalloc (s.passed reads first)), s.setStack thread rest)
  | .calloc nmemb size =>
    if s.mspace = 0 then
      let total := nmemb * size
      if total = 0 then some (some .null, s.setStack thread rest)
      else some (none, s.setStack thread (.malloc total :: rest))
    else some (none, s.setStack thread (.loadCalloc nmemb size s.mspace :: rest))
  | .loadCalloc _ _ first =>
    some (some (.mspaceCalloc (s.passed reads first)), s.setStack thread rest)
  | .realloc ptr size =>
    if s.mspace = 0 then some (some .null, s.setStack thread rest)
    else some (none, s.setStack thread (.loadRealloc ptr size s.mspace :: rest))
  | .loadRealloc _ _ first =>
    some (some (.mspaceRealloc (s.passed reads first)), s.setStack thread rest)
  | .eagerInit => (s.callOnce thread .eagerInit rest []).map fun s => (none, s)
  | .init stage => some (s.initLine thread rest answer stage)

/-- One event, with how a request ends on it. -/
def exec (buf : BootstrapBuf t) (reads : Bool) (s : Shim t) : Event t → Option (Option (Outcome t) × Shim t)
  | .call thread request =>
    if s.mayCall thread then
      match request.entry buf with
      | none => some (some .null, s)
      | some frame => some (none, s.setStack thread (frame :: s.stack thread))
    else none
  | .eagerInit thread =>
    if s.stack thread = [] then some (none, s.setStack thread [.eagerInit]) else none
  | .line thread answer =>
    match s.stack thread with
    | [] => none
    | frame :: rest => s.line reads thread rest answer frame

end Shim

def Step (buf : BootstrapBuf t) (reads : Bool) (s : Shim t) (e : Event t) (s' : Shim t) : Prop :=
  ∃ outcome, s.exec buf reads e = some (outcome, s')

/-- A request that ends here reaches no null mspace, and while there is no mspace
it ends in the bootstrap buffer or with null. -/
def SoundStep (buf : BootstrapBuf t) (reads : Bool) (s : Shim t) (e : Event t) (s' : Shim t) :
    Prop :=
  ∀ outcome, s.exec buf reads e = some (some outcome, s') →
    outcome.msp ≠ some 0 ∧
      (s.mspace = 0 → outcome = .null ∨ ∃ size, outcome = .bootstrap size)

/-- A `malloc` that went past the initialisation because it saw `g_in_init` set
comes to a last line that reads `g_mspace` again, and the mspace is there. -/
def Meets (reads : Bool) (s : Shim t) (e : Event t) : Prop :=
  ∀ thread answer size first rest, e = .line thread answer →
    s.stack thread = .load .inInitSeen size first :: rest → reads = true ∧ s.mspace ≠ 0

/-! ## What the flags say of the calls in progress -/

namespace Frame

def isInit : Frame t → Bool
  | .init _ => true
  | _ => false

/-- `init_shm` has not made the mspace yet. -/
def BeforeMspace : Frame t → Prop
  | .init .setFlag | .init .mapShm => True
  | _ => False

/-- The call has seen an mspace, and is about to use it. -/
def SeenMspace : Frame t → Prop
  | .load path _ _ => path ≠ .inInitSeen
  | .loadCalloc _ _ _ | .loadRealloc _ _ _ => True
  | _ => False

/-- A call past a set `g_in_init` had loaded null, the others an mspace. -/
def Loaded : Frame t → Prop
  | .load .inInitSeen _ first => first = 0
  | .load .mspaceSeen _ first | .load .initialised _ first => first ≠ 0
  | .loadCalloc _ _ first | .loadRealloc _ _ first => first ≠ 0
  | _ => True

end Frame

/-- `init_shm` runs once, in the thread the guard names; the mspace is made by it
and never taken away. -/
structure Inv (s : Shim t) : Prop where
  single : ∀ thread,
    (s.stack thread).countP Frame.isInit ≤ if s.once = .running thread then 1 else 0
  fresh : s.once = .notStarted → s.mspace = 0
  before : ∀ thread, ∀ frame ∈ s.stack thread, frame.BeforeMspace → s.mspace = 0
  seen : ∀ thread, ∀ frame ∈ s.stack thread, frame.SeenMspace → s.mspace ≠ 0
  loaded : ∀ thread, ∀ frame ∈ s.stack thread, frame.Loaded

variable {buf : BootstrapBuf t} {reads : Bool} {s s' : Shim t} {e : Event t} {thread : Thread}
  {frame : Frame t} {rest frames : List (Frame t)} {outcome : Option (Outcome t)}

@[simp] theorem setStack_once : (s.setStack thread frames).once = s.once := rfl

@[simp] theorem setStack_stack (other : Thread) :
    (s.setStack thread frames).stack other = if other = thread then frames else s.stack other :=
  Function.update_apply _ _ _ _

namespace Inv

theorem start : Inv (Shim.start t) where
  single _ := by simp [Shim.start]
  fresh _ := rfl
  before _ _ inside := nomatch inside
  seen _ _ inside := nomatch inside
  loaded _ _ inside := nomatch inside

/-- A thread's calls go on without a flag changing: no further `init_shm`, and
what a new frame has seen is so. -/
theorem setStack (inv : Inv s)
    (single : frames.countP Frame.isInit ≤ (s.stack thread).countP Frame.isInit)
    (fine : ∀ frame ∈ frames, frame ∈ s.stack thread ∨
      ((frame.BeforeMspace → s.mspace = 0) ∧ (frame.SeenMspace → s.mspace ≠ 0) ∧ frame.Loaded)) :
    Inv (s.setStack thread frames) where
  single other := by
    rw [setStack_stack, setStack_once]
    split
    · rename_i same
      rw [same]
      exact Nat.le_trans single (inv.single thread)
    · exact inv.single other
  fresh := inv.fresh
  before other frame inside early := by
    rw [setStack_stack] at inside
    split at inside
    · rcases fine frame inside with old | ⟨none, -⟩
      · exact inv.before thread frame old early
      · exact none early
    · exact inv.before other frame inside early
  seen other frame inside saw := by
    rw [setStack_stack] at inside
    split at inside
    · rcases fine frame inside with old | ⟨-, exists_, -⟩
      · exact inv.seen thread frame old saw
      · exact exists_ saw
    · exact inv.seen other frame inside saw
  loaded other frame inside := by
    rw [setStack_stack] at inside
    split at inside
    · rcases fine frame inside with old | ⟨-, -, loaded⟩
      · exact inv.loaded thread frame old
      · exact loaded
    · exact inv.loaded other frame inside

theorem setInInit (inv : Inv s) (b : Bool) : Inv { s with inInit := b } :=
  ⟨inv.single, inv.fresh, inv.before, inv.seen, inv.loaded⟩

/-- The innermost call is at another line, or has made another call in its
place. -/
theorem next (inv : Inv s) (new : Frame t) (here : s.stack thread = frame :: rest)
    (kind : new.isInit = true → frame.isInit = true) (none : new.BeforeMspace → s.mspace = 0)
    (saw : new.SeenMspace → s.mspace ≠ 0) (loaded : new.Loaded) :
    Inv (s.setStack thread (new :: rest)) := by
  apply inv.setStack
  · rw [here, List.countP_cons, List.countP_cons]
    by_cases init : new.isInit = true
    · simp [init, kind init]
    · simp [init]
  · intro f inside
    rcases List.mem_cons.mp inside with rfl | below
    · exact .inr ⟨none, saw, loaded⟩
    · exact .inl (here ▸ List.mem_cons_of_mem frame below)

theorem pop (inv : Inv s) (here : s.stack thread = frame :: rest) :
    Inv (s.setStack thread rest) := by
  apply inv.setStack
  · rw [here, List.countP_cons]
    exact Nat.le_add_right _ _
  · exact fun f below => .inl (here ▸ List.mem_cons_of_mem frame below)

/-- In the thread that runs `init_shm` no other call of it is under way, and in
no other thread. -/
theorem running (inv : Inv s) {stage : InitStage} (here : s.stack thread = .init stage :: rest) :
    s.once = .running thread ∧ rest.countP Frame.isInit = 0 ∧
      ∀ other, other ≠ thread → (s.stack other).countP Frame.isInit = 0 := by
  have one := inv.single thread
  rw [here, List.countP_cons_of_pos rfl] at one
  have guard : s.once = .running thread := by
    by_contra other
    rw [if_neg other] at one
    omega
  rw [if_pos guard] at one
  refine ⟨guard, by omega, fun other apart => ?_⟩
  have none := inv.single other
  rw [guard, if_neg (by simpa using Ne.symm apart)] at none
  omega

theorem begin_ (inv : Inv s) (here : s.stack thread = frame :: rest) (first : s.once = .notStarted) :
    Inv { s.setStack thread (.init .setFlag :: frame :: rest) with once := .running thread } where
  single other := by
    have none := inv.single other
    rw [first, if_neg (by simp)] at none
    simp only [setStack_stack, Once.running.injEq]
    by_cases same : other = thread
    · rw [same, here] at none
      rw [if_pos same, if_pos same.symm, List.countP_cons_of_pos rfl]
      omega
    · rw [if_neg same]
      omega
  fresh started := by simp at started
  before _ _ _ _ := inv.fresh first
  seen other f inside saw := by
    simp only [setStack_stack] at inside
    split at inside
    · rcases List.mem_cons.mp inside with rfl | below
      · cases saw
      · exact inv.seen thread f (here ▸ below) saw
    · exact inv.seen other f inside saw
  loaded other f inside := by
    simp only [setStack_stack] at inside
    split at inside
    · rcases List.mem_cons.mp inside with rfl | below
      · trivial
      · exact inv.loaded thread f (here ▸ below)
    · exact inv.loaded other f inside

theorem callOnce (inv : Inv s) (here : s.stack thread = frame :: rest) {after : List (Frame t)}
    (plain : ∀ f ∈ after, f.isInit = false ∧ ¬ f.BeforeMspace ∧ ¬ f.SeenMspace ∧ f.Loaded)
    (taken : s.callOnce thread frame rest after = some s') : Inv s' := by
  rw [Shim.callOnce] at taken
  split at taken
  · rename_i first
    cases taken
    exact inv.begin_ here first
  · cases taken
  · cases taken
    apply inv.setStack
    · have none : after.countP Frame.isInit = 0 :=
        List.countP_eq_zero.mpr fun f inside => by simp [(plain f inside).1]
      rw [List.countP_append, none, here, List.countP_cons]
      omega
    · intro f inside
      rcases List.mem_append.mp inside with new | below
      · obtain ⟨-, late, blind, loaded⟩ := plain f new
        exact .inr ⟨fun early => absurd early late, fun saw => absurd saw blind, loaded⟩
      · exact .inl (here ▸ List.mem_cons_of_mem frame below)

theorem not_before (none : frames.countP Frame.isInit = 0) (inside : frame ∈ frames) :
    ¬ frame.BeforeMspace := by
  have plain := List.countP_eq_zero.mp none frame inside
  intro early
  unfold Frame.BeforeMspace at early
  split at early
  · exact plain rfl
  · exact plain rfl
  · exact early

theorem initLine (inv : Inv s) {stage : InitStage} (here : s.stack thread = .init stage :: rest)
    (answer : Option (TPointer t)) : Inv (s.initLine thread rest answer stage).2 := by
  obtain ⟨guard, below, others⟩ := inv.running here
  have top : .init stage ∈ s.stack thread := here ▸ List.mem_cons_self
  cases stage with
  | setFlag =>
    have none := inv.before thread _ top trivial
    exact (inv.next (.init .mapShm) here (fun _ => rfl) (fun _ => none) nofun trivial).setInInit true
  | mapShm =>
    cases answer with
    | none => exact inv.next _ here (fun _ => rfl) nofun nofun trivial
    | some msp =>
      have none := inv.before thread _ top trivial
      -- nothing has seen an mspace, and nothing else is before it
      constructor
      · intro other
        exact (inv.next (.init .callbackKeys) here (fun _ => rfl) nofun nofun trivial).single other
      · intro started
        have running : s.once = .notStarted := started
        rw [guard] at running
        cases running
      · intro other frame inside early
        simp only [Shim.initLine, setStack_stack] at inside
        split at inside
        · rcases List.mem_cons.mp inside with rfl | deeper
          · cases early
          · exact absurd early (not_before below deeper)
        · rename_i apart
          exact absurd early (not_before (others other apart) inside)
      · intro other frame inside saw
        simp only [Shim.initLine, setStack_stack] at inside
        split at inside
        · rcases List.mem_cons.mp inside with rfl | deeper
          · cases saw
          · exact absurd none (inv.seen thread frame (here ▸ List.mem_cons_of_mem _ deeper) saw)
        · exact absurd none (inv.seen other frame inside saw)
      · intro other frame inside
        exact (inv.next (.init .callbackKeys) here (fun _ => rfl) nofun nofun trivial).loaded
          other frame inside
  | callbackKeys =>
    exact inv.next _ here (fun _ => rfl) nofun nofun trivial
  | clearFlag =>
    exact (inv.next (.init .leave) here (fun _ => rfl) nofun nofun trivial).setInInit false
  | leave =>
    have popped := inv.pop here
    constructor
    · intro other
      simp only [Shim.initLine, setStack_stack]
      by_cases same : other = thread
      · rw [if_pos same, below]
        exact Nat.zero_le _
      · rw [if_neg same, others other same]
        exact Nat.zero_le _
    · exact fun started => nomatch (show Once.done = .notStarted from started)
    · exact popped.before
    · exact popped.seen
    · exact popped.loaded

theorem line (inv : Inv s) (here : s.stack thread = frame :: rest) {answer : Option (TPointer t)}
    (taken : s.line reads thread rest answer frame = some (outcome, s')) : Inv s' := by
  cases frame with
  | malloc size =>
    rw [Shim.line] at taken
    split at taken <;> cases taken
    · exact inv.next _ here nofun nofun nofun trivial
    · rename_i some_
      exact inv.next _ here nofun nofun (fun _ => some_) some_
  | testInInit size =>
    rw [Shim.line] at taken
    split at taken <;> cases taken
    · exact inv.next _ here nofun nofun (fun saw => absurd rfl saw) rfl
    · exact inv.next _ here nofun nofun nofun trivial
  | callOnce size =>
    obtain ⟨after, once, same⟩ := Option.map_eq_some_iff.mp taken
    cases same
    apply inv.callOnce here ?_ once
    intro f inside
    obtain rfl := List.mem_singleton.mp inside
    exact ⟨rfl, nofun, nofun, trivial⟩
  | retest size =>
    rw [Shim.line] at taken
    split at taken <;> cases taken
    · exact inv.pop here
    · rename_i some_
      exact inv.next _ here nofun nofun (fun _ => some_) some_
  | load path size first =>
    cases taken
    exact inv.pop here
  | calloc nmemb size =>
    rw [Shim.line] at taken
    split at taken
    · dsimp only at taken
      split at taken <;> cases taken
      · exact inv.pop here
      · exact inv.next _ here nofun nofun nofun trivial
    · rename_i some_
      cases taken
      exact inv.next _ here nofun nofun (fun _ => some_) some_
  | loadCalloc nmemb size first =>
    cases taken
    exact inv.pop here
  | realloc ptr size =>
    rw [Shim.line] at taken
    split at taken <;> cases taken
    · exact inv.pop here
    · rename_i some_
      exact inv.next _ here nofun nofun (fun _ => some_) some_
  | loadRealloc ptr size first =>
    cases taken
    exact inv.pop here
  | eagerInit =>
    obtain ⟨after, once, same⟩ := Option.map_eq_some_iff.mp taken
    cases same
    exact inv.callOnce here (List.forall_mem_nil _) once
  | init stage =>
    have after : (s.initLine thread rest answer stage).2 = s' :=
      congrArg Prod.snd (Option.some.inj taken)
    exact after ▸ inv.initLine here answer

/-- A request begins at a line that has seen nothing yet. -/
theorem entry_plain {request : Request t} (entered : request.entry buf = some frame) :
    frame.isInit = false ∧ ¬ frame.BeforeMspace ∧ ¬ frame.SeenMspace ∧ frame.Loaded := by
  cases request with
  | malloc size =>
    rw [Request.entry] at entered
    split at entered <;> cases entered
    exact ⟨rfl, nofun, nofun, trivial⟩
  | calloc nmemb size =>
    rw [Request.entry] at entered
    split at entered <;> cases entered
    exact ⟨rfl, nofun, nofun, trivial⟩
  | realloc ptr size =>
    rw [Request.entry] at entered
    split at entered
    · split at entered <;> cases entered
      exact ⟨rfl, nofun, nofun, trivial⟩
    · split at entered
      · cases entered
      -- a pointer into the bootstrap buffer goes to `malloc`
      · split at entered <;> cases entered
        · exact ⟨rfl, nofun, nofun, trivial⟩
        · exact ⟨rfl, nofun, nofun, trivial⟩

theorem exec (inv : Inv s) (taken : s.exec buf reads e = some (outcome, s')) : Inv s' := by
  cases e with
  | call thread request =>
    rw [Shim.exec] at taken
    split at taken
    · split at taken <;> cases taken
      · exact inv
      · rename_i frame entered
        obtain ⟨plain, late, blind, loaded⟩ := entry_plain entered
        apply inv.setStack
        · rw [List.countP_cons_of_neg (by simp [plain])]
        · intro f inside
          rcases List.mem_cons.mp inside with rfl | below
          · exact .inr ⟨fun early => absurd early late, fun saw => absurd saw blind, loaded⟩
          · exact .inl below
    · cases taken
  | eagerInit thread =>
    rw [Shim.exec] at taken
    split at taken
    · cases taken
      apply inv.setStack
      · simp [Frame.isInit]
      · intro f inside
        obtain rfl := List.mem_singleton.mp inside
        exact .inr ⟨nofun, nofun, trivial⟩
    · cases taken
  | line thread answer =>
    rw [Shim.exec] at taken
    split at taken
    · cases taken
    · rename_i frame rest here
      exact inv.line here taken

end Inv

/-! ## How a request ends -/

/-- A call that saw an mspace passes one on. -/
theorem Inv.passed (inv : Inv s) {first : TPointer t} (inside : frame ∈ s.stack thread)
    (saw : frame.SeenMspace) (some_ : first ≠ 0) : s.passed reads first ≠ 0 := by
  unfold Shim.passed
  split
  · exact inv.seen thread frame inside saw
  · exact some_

/-- A request ends in the bootstrap buffer, with null, or with an mspace, and with
this last only once there is one; past a set `g_in_init` it is handed whatever
the last line passes on. -/
theorem outcome_of_line (inv : Inv s) (here : s.stack thread = frame :: rest)
    {answer : Option (TPointer t)} {o : Outcome t}
    (taken : s.line reads thread rest answer frame = some (some o, s')) :
    (o = .null ∨ ∃ size, o = .bootstrap size) ∨
      (s.mspace ≠ 0 ∧ ∃ msp, o.msp = some msp ∧ msp ≠ 0) ∨
      ∃ size first, frame = .load .inInitSeen size first ∧ o.msp = some (s.passed reads first) := by
  have top : frame ∈ s.stack thread := here ▸ List.mem_cons_self
  have loaded := inv.loaded thread frame top
  cases frame with
  | malloc size =>
    rw [Shim.line] at taken
    split at taken <;> cases taken
  | testInInit size =>
    rw [Shim.line] at taken
    split at taken <;> cases taken
  | callOnce size =>
    obtain ⟨after, -, same⟩ := Option.map_eq_some_iff.mp taken
    cases same
  | retest size =>
    rw [Shim.line] at taken
    split at taken <;> cases taken
    exact .inl (.inr ⟨size, rfl⟩)
  | load path size first =>
    cases taken
    cases path with
    | inInitSeen => exact .inr (.inr ⟨size, first, rfl, rfl⟩)
    | mspaceSeen =>
      exact .inr (.inl ⟨inv.seen thread _ top nofun, _, rfl, inv.passed top nofun loaded⟩)
    | initialised =>
      exact .inr (.inl ⟨inv.seen thread _ top nofun, _, rfl, inv.passed top nofun loaded⟩)
  | calloc nmemb size =>
    rw [Shim.line] at taken
    split at taken
    · dsimp only at taken
      split at taken <;> cases taken
      exact .inl (.inl rfl)
    · cases taken
  | loadCalloc nmemb size first =>
    cases taken
    exact .inr (.inl ⟨inv.seen thread _ top trivial, _, rfl, inv.passed top trivial loaded⟩)
  | realloc ptr size =>
    rw [Shim.line] at taken
    split at taken <;> cases taken
    exact .inl (.inl rfl)
  | loadRealloc ptr size first =>
    cases taken
    exact .inr (.inl ⟨inv.seen thread _ top trivial, _, rfl, inv.passed top trivial loaded⟩)
  | eagerInit =>
    obtain ⟨after, -, same⟩ := Option.map_eq_some_iff.mp taken
    cases same
  | init stage =>
    have ended : (s.initLine thread rest answer stage).1 = some o :=
      congrArg Prod.fst (Option.some.inj taken)
    cases stage with
    | mapShm => cases answer <;> cases ended
    | callbackKeys =>
      rw [Shim.initLine] at ended
      dsimp only at ended
      split at ended <;> cases ended
      rename_i some_
      exact .inr (.inl ⟨some_, _, rfl, some_⟩)
    | setFlag => cases ended
    | clearFlag => cases ended
    | leave => cases ended

/-- The only way to a null mspace is past a set `g_in_init`. -/
theorem soundStep_iff (inv : Inv s) (taken : Step buf reads s e s') :
    SoundStep buf reads s e s' ↔ Meets reads s e := by
  constructor
  · rintro sound thread answer size first rest rfl here
    obtain ⟨outcome, done⟩ := taken
    have loads : s.exec buf reads (.line thread answer) =
        some (some (.mspaceMalloc (s.passed reads first)), s.setStack thread rest) := by
      rw [Shim.exec, here]
      rfl
    have same : s' = s.setStack thread rest :=
      congrArg Prod.snd (Option.some.inj (done.symm.trans loads))
    have reached := (sound _ (same ▸ loads)).1
    have top : .load .inInitSeen size first ∈ s.stack thread := here ▸ List.mem_cons_self
    have null : first = 0 := inv.loaded thread _ top
    cases reads with
    | true => exact ⟨rfl, fun none => reached (congrArg some none)⟩
    | false => exact absurd (congrArg some null) reached
  · intro meets o ended
    cases e with
    | call thread request =>
      rw [Shim.exec] at ended
      split at ended
      · split at ended <;> cases ended
        exact ⟨nofun, fun _ => .inl rfl⟩
      · cases ended
    | eagerInit thread =>
      rw [Shim.exec] at ended
      split at ended <;> cases ended
    | line thread answer =>
      rw [Shim.exec] at ended
      split at ended
      · cases ended
      rename_i frame rest here
      rcases outcome_of_line inv here ended with
        served | ⟨some_, msp, reached, there⟩ | ⟨size, first, rfl, reached⟩
      · refine ⟨?_, fun _ => served⟩
        rcases served with rfl | ⟨size, rfl⟩ <;> exact nofun
      · refine ⟨?_, fun null => absurd null some_⟩
        rw [reached]
        exact fun null => there (Option.some.inj null)
      · obtain ⟨rfl, some_⟩ := meets thread answer size first rest rfl here
        refine ⟨?_, fun null => absurd null some_⟩
        rw [reached]
        exact fun null => some_ (Option.some.inj null)

/-- In a run of any threads every request is served soundly if and only if each
`malloc` that skipped the initialisation reads `g_mspace` again, after the mspace
was made. -/
theorem init_sound_iff (buf : BootstrapBuf t) (reads : Bool) (events : List (Event t)) :
    (∀ before e after u v, events = before ++ e :: after →
        Run (Step buf reads) (.start t) before u → Step buf reads u e v →
        SoundStep buf reads u e v) ↔
      ∀ before e after u v, events = before ++ e :: after →
        Run (Step buf reads) (.start t) before u → Step buf reads u e v → Meets reads u e :=
  steps_iff Inv.start (fun _ _ _ inv taken _ => inv.exec taken.choose_spec)
    fun _ _ _ inv taken => soundStep_iff inv taken

/-- A request, the thread's way into `init_shm`, and a request out of it. -/
def reentrantCalls : List (Event .x86_64) :=
  [.call 0 (.malloc 24), .line 0 none, .line 0 none, .line 0 none, .line 0 none,
    .call 0 (.malloc 8), .line 0 none, .line 0 none, .line 0 none]

/-- `malloc` called out of `init_shm` passes a null mspace on, in either build. -/
theorem init_not_sound :
    ¬ ∃ reads, ∀ before e after u v, reentrantCalls = before ++ e :: after →
      Run (Step (secondPage .x86_64) reads) (.start .x86_64) before u →
      Step (secondPage .x86_64) reads u e v → SoundStep (secondPage .x86_64) reads u e v := by
  rintro ⟨reads, sound⟩
  have run : ∃ u v, Run (Step (secondPage .x86_64) reads) (.start .x86_64) (reentrantCalls.take 8) u ∧
      u.exec (secondPage .x86_64) reads (.line 0 none) = some (some (.mspaceMalloc 0), v) := by
    cases reads <;>
      exact ⟨_, _, .cons ⟨_, rfl⟩ (.cons ⟨_, rfl⟩ (.cons ⟨_, rfl⟩ (.cons ⟨_, rfl⟩ (.cons ⟨_, rfl⟩
        (.cons ⟨_, rfl⟩ (.cons ⟨_, rfl⟩ (.cons ⟨_, rfl⟩ .nil))))))), rfl⟩
  obtain ⟨u, v, run, ended⟩ := run
  exact (sound _ _ [] u v rfl run ⟨_, ended⟩ _ ended).1 rfl

end RlboxDynamic.ShimInit
