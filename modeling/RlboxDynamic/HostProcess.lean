import RlboxDynamic.CallbackDispatch
import RlboxDynamic.WorkerPool

/-! The host process around its process sandboxes: the descriptors, mappings,
threads and children that `impl_create_sandbox` and `impl_destroy_sandbox` make
and take away, system call by system call. What the system answers is a
parameter. -/
namespace RlboxDynamic.HostProcess

/-- `RLBOX_TRANSPORT` of the build. -/
inductive Transport where
  | rpclib
  | capnp
  deriving DecidableEq

/-- Which `rlbox_process_sandbox` object. -/
abbrev SandboxId := Nat

/-- The two ends of a socket pair: `pair[0]` stays with the host. -/
inductive SocketSide where
  | host
  | shim
  deriving DecidableEq

/-- What a descriptor refers to. None of them is close-on-exec. -/
inductive OpenFile where
  | shm (owner : SandboxId)
  | request (owner : SandboxId) (side : SocketSide)
  | callback (owner : SandboxId) (side : SocketSide)
  | unrelated
  deriving DecidableEq

/-- The sandbox a descriptor belongs to. -/
def OpenFile.owner : OpenFile → Option SandboxId
  | .shm owner | .request owner _ | .callback owner _ => some owner
  | .unrelated => none

abbrev FileTable := Fd → Option OpenFile

/-- A thread that serves callbacks: the rpclib server's, with its port, or the
Cap'n Proto loop's, with its descriptor. -/
inductive CallbackService where
  | server (owner : SandboxId) (port : Nat)
  | loop (owner : SandboxId) (fd : Fd)
  deriving DecidableEq

def CallbackService.owner : CallbackService → SandboxId
  | .server owner _ | .loop owner _ => owner

/-- A child the host has not waited for, with the descriptors it executed with. -/
structure HostChild where
  pid : Pid
  owner : SandboxId
  files : FileTable

/-- The host process. `thread_local_sandbox` is a variable of each thread; all
creates and destroys here are of one thread, whose variable this is. `mapped` says
which addresses are taken. -/
structure Host where
  files : FileTable
  mapped : Nat → Bool
  globalRegistry : KeyMap Nat SandboxId
  threadLocalSandbox : Option SandboxId
  services : List CallbackService
  children : List HostChild

/-- The data members of `rlbox_process_sandbox`, of both builds. `callbackThread`
is set while the thread object is joinable. -/
structure ProcessSandbox (t : Target) where
  sharedMemoryLocalBase : Nat
  sharedMemorySize : Nat
  childProcessHandle : Option Pid
  rpcPort : Nat
  callbackPort : Nat
  sandboxClient : Bool
  callbackServer : Bool
  callbackThread : Bool
  requestFd : Option Fd
  callbackFd : Option Fd
  callbackThreadStop : Bool
  callbackMap : CallbackMap t

def ProcessSandbox.constructed (t : Target) : ProcessSandbox t where
  sharedMemoryLocalBase := 0
  sharedMemorySize := 0
  childProcessHandle := none
  rpcPort := 0
  callbackPort := 0
  sandboxClient := false
  callbackServer := false
  callbackThread := false
  requestFd := none
  callbackFd := none
  callbackThreadStop := false
  callbackMap := ∅

/-! ## Address space -/

def mmap (start length : Nat) (mapped : Nat → Bool) : Nat → Bool :=
  fun a => mapped a || decide (start ≤ a ∧ a < start + length)

def munmap (start length : Nat) (mapped : Nat → Bool) : Nat → Bool :=
  fun a => mapped a && decide (¬ (start ≤ a ∧ a < start + length))

/-- `os_mmap_aligned`, given what its `mmap` answers. -/
def osMmapAligned (requestedLength alignment : Nat) (answer : Option Nat) (mapped : Nat → Bool) :
    Option Nat × (Nat → Bool) :=
  match answer with
  | none => (none, mapped)
  | some unaligned =>
    let paddedLength := requestedLength + alignment
    let mapped := mmap unaligned paddedLength mapped
    let aligned := (unaligned + (alignment - 1)) / alignment * alignment
    let unusedFront := aligned - unaligned
    let mapped := if unusedFront > 0 then munmap unaligned unusedFront mapped else mapped
    let unusedBack := paddedLength - unusedFront - requestedLength
    let mapped :=
      if unusedBack > 0 then munmap (aligned + requestedLength) unusedBack mapped else mapped
    (some aligned, mapped)

/-- The loop over `k_hint_addrs`, with what `mmap` answers for each. -/
def mmapAtHint (length : Nat) :
    List (Nat × Option Nat) → (Nat → Bool) → Option Nat × (Nat → Bool)
  | [], mapped => (none, mapped)
  | (_, none) :: rest, mapped => mmapAtHint length rest mapped
  | (hint, some res) :: rest, mapped =>
    if res = hint then (some res, mmap res length mapped)
    else mmapAtHint length rest (munmap res length (mmap res length mapped))

/-- `k_hint_addrs`. -/
def kHintAddrs : List Nat := [0x40000000, 0x50000000, 0x60000000, 0x70000000]

/-- The 64 megabytes of every sandbox. -/
def sharedMemoryBytes : Nat := 1024 * 1024 * 64

/-- What the system answers to the calls of one `impl_create_sandbox`. A failed
call answers none, or false. -/
structure CreateAnswers where
  memfd : Option Fd
  mmapPadded : Option Nat
  mmapHint : Nat → Option Nat
  mmapFixed : Bool
  rpcPort : Nat
  callbackPort : Nat
  requestPair : Option (Fd × Fd)
  callbackPair : Option (Fd × Fd)
  fork : Option Pid
  listening : Bool
  connected : Bool

/-- The reservation of the target. -/
def reserve (t : Target) (os : CreateAnswers) (mapped : Nat → Bool) : Option Nat × (Nat → Bool) :=
  match t with
  | .x86_64 => osMmapAligned sharedMemoryBytes 0x100000000 os.mmapPadded mapped
  | .i386 => mmapAtHint sharedMemoryBytes (kHintAddrs.map fun hint => (hint, os.mmapHint hint)) mapped

/-! ## Creation and destruction -/

/-- A sandbox object and the host process. -/
structure Life (t : Target) where
  object : ProcessSandbox t
  host : Host

namespace Life
variable {t : Target}

def openFile (fd : Fd) (file : OpenFile) (s : Life t) : Life t :=
  { s with host := { s.host with files := Function.update s.host.files fd (some file) } }

def closeFile (fd : Fd) (s : Life t) : Life t :=
  { s with host := { s.host with files := Function.update s.host.files fd none } }

def setMapped (mapped : Nat → Bool) (s : Life t) : Life t :=
  { s with host := { s.host with mapped } }

/-- The base, the thread's sandbox and the registry entry, once memory is mapped. -/
def publish (self : SandboxId) (base : Nat) (s : Life t) : Life t where
  object := { s.object with sharedMemoryLocalBase := base }
  host := { s.host with
    threadLocalSandbox := some self
    globalRegistry := s.host.globalRegistry.insert base self }

def startCallbackServer (self : SandboxId) (port : Nat) (s : Life t) : Life t where
  object := { s.object with callbackPort := port, callbackServer := true, callbackThread := true }
  host := { s.host with services := s.host.services ++ [.server self port] }

/-- The loop's thread ends at once where the stop flag is already set. -/
def startCallbackLoop (self : SandboxId) (fd : Fd) (s : Life t) : Life t where
  object := { s.object with callbackThread := true }
  host := { s.host with
    services := if s.object.callbackThreadStop then s.host.services
      else s.host.services ++ [.loop self fd] }

/-- `fork`, and what the child holds when it executes the library. -/
def spawn (self : SandboxId) (pid : Pid) (files : FileTable) (s : Life t) : Life t :=
  { s with host := { s.host with children := s.host.children ++ [⟨pid, self, files⟩] } }

/-- The part of `impl_create_sandbox` from the ports on. The probes for a free
port and for the listener close the socket they open. -/
def createRpclib (self : SandboxId) (os : CreateAnswers) (shmFd : Fd) (s : Life t) : Bool × Life t :=
  if os.rpcPort = 0 ∨ os.callbackPort = 0 ∨ os.rpcPort = os.callbackPort then
    (false, s.closeFile shmFd)
  else
    let s := { s with object := { s.object with rpcPort := os.rpcPort } }
    let s := s.startCallbackServer self os.callbackPort
    match os.fork with
    | none => (false, s.closeFile shmFd)
    | some pid =>
      let s := (s.spawn self pid s.host.files).closeFile shmFd
      let s := { s with object := { s.object with childProcessHandle := some pid } }
      if os.listening = false then (false, s)
      else if os.connected = false then (false, s)
      else (true, { s with object := { s.object with sandboxClient := true } })

/-- The part from the socket pairs on. -/
def createCapnp (self : SandboxId) (os : CreateAnswers) (shmFd : Fd) (s : Life t) : Bool × Life t :=
  match os.requestPair with
  | none => (false, s.closeFile shmFd)
  | some (req0, req1) =>
    let s := (s.openFile req0 (.request self .host)).openFile req1 (.request self .shim)
    match os.callbackPair with
    | none => (false, ((s.closeFile req0).closeFile req1).closeFile shmFd)
    | some (cb0, cb1) =>
      let s := (s.openFile cb0 (.callback self .host)).openFile cb1 (.callback self .shim)
      match os.fork with
      | none => (false, s.closeFile shmFd)
      | some pid =>
        let inChild := Function.update (Function.update s.host.files req0 none) cb0 none
        let s := (s.spawn self pid inChild).closeFile shmFd
        let s := { s with object := { s.object with childProcessHandle := some pid } }
        let s := (s.closeFile req1).closeFile cb1
        let s := { s with object := { s.object with requestFd := some req0, callbackFd := some cb0 } }
        (true, s.startCallbackLoop self cb0)

/-- `impl_create_sandbox`. -/
def implCreateSandbox (transport : Transport) (self : SandboxId) (os : CreateAnswers) (s : Life t) :
    Bool × Life t :=
  let s := { s with object := { s.object with sharedMemorySize := sharedMemoryBytes } }
  match os.memfd with
  | none => (false, s)
  | some shmFd =>
    let s := s.openFile shmFd (.shm self)
    match reserve t os s.host.mapped with
    | (none, mapped) => (false, (s.setMapped mapped).closeFile shmFd)
    | (some base, mapped) =>
      let s := s.setMapped mapped
      if os.mmapFixed = false then
        (false, (s.setMapped (munmap base sharedMemoryBytes mapped)).closeFile shmFd)
      else
        let s := s.publish self base
        match transport with
        | .rpclib => s.createRpclib self os shmFd
        | .capnp => s.createCapnp self os shmFd

/-- Ends the callback threads of the sandbox. -/
def joinCallbackThread (self : SandboxId) (s : Life t) : Life t where
  object := { s.object with callbackThread := false }
  host := { s.host with services := s.host.services.filter (·.owner ≠ self) }

/-- The two descriptors, shut down and closed. -/
def closeChannels (s : Life t) : Life t :=
  let s := match s.object.requestFd with
    | none => s
    | some fd => { s.closeFile fd with object := { s.object with requestFd := none } }
  match s.object.callbackFd with
  | none => s
  | some fd => { s.closeFile fd with object := { s.object with callbackFd := none } }

/-- `impl_destroy_sandbox`. -/
def implDestroySandbox (transport : Transport) (self : SandboxId) (s : Life t) : Life t :=
  let s := { s with host := { s.host with
    threadLocalSandbox :=
      if s.host.threadLocalSandbox = some self then none else s.host.threadLocalSandbox
    globalRegistry := s.host.globalRegistry.erase s.object.sharedMemoryLocalBase } }
  let s := match transport with
    | .rpclib =>
      let s := { s with object := { s.object with sandboxClient := false } }
      if s.object.callbackServer then s.joinCallbackThread self else s
    | .capnp =>
      let s := { s with object := { s.object with callbackThreadStop := true } }
      (closeChannels s).joinCallbackThread self
  match s.object.childProcessHandle with
  | none => s
  | some pid =>
    { object := { s.object with childProcessHandle := none }
      host := { s.host with children := s.host.children.filter (·.pid ≠ pid) } }

end Life

/-! ## What the system promises -/

/-- No address of the range is taken. -/
def FreshRange (mapped : Nat → Bool) (start length : Nat) : Prop :=
  0 < start ∧ ∀ a, start ≤ a → a < start + length → mapped a = false

/-- The descriptors are free, and distinct. -/
def FreshFds (files : FileTable) (fds : List Fd) : Prop := fds.Nodup ∧ ∀ fd ∈ fds, files fd = none

/-- The descriptors an answer names. -/
def CreateAnswers.fds (os : CreateAnswers) : List Fd :=
  os.memfd.toList ++ (os.requestPair.toList.flatMap fun pair => [pair.1, pair.2]) ++
    os.callbackPair.toList.flatMap fun pair => [pair.1, pair.2]

/-- The system answers with what is free: unmapped ranges, closed descriptors,
and the pid of no child. -/
structure Allowed (os : CreateAnswers) (host : Host) : Prop where
  padded : ∀ start, os.mmapPadded = some start →
    FreshRange host.mapped start (sharedMemoryBytes + 0x100000000)
  hinted : ∀ hint start, os.mmapHint hint = some start → FreshRange host.mapped start sharedMemoryBytes
  fds : FreshFds host.files os.fds
  pid : ∀ pid, os.fork = some pid → ∀ child ∈ host.children, child.pid ≠ pid

end RlboxDynamic.HostProcess
