import RlboxDynamic.DecimalText
import RlboxDynamic.SandboxRegions

/-! What a sandbox's child learns of its host: descriptors, addresses and ports,
written as text into the environment between `fork` and `execl` and read back by
the shim. -/
namespace RlboxDynamic.HostProcess
open DecimalText

variable {t : Target}

/-- The environment of a process. -/
abbrev Environment := KeyMap String String

namespace Environment

def getenv (name : String) (env : Environment) : Option String := env.lookup name

/-- `setenv` with `overwrite` set. Its result is ignored; that it fails, out of
memory, is left out. -/
def setenv (name value : String) (env : Environment) : Environment := env.insert name value

theorem getenv_setenv (env : Environment) (name value other : String) :
    (env.setenv name value).getenv other = if other = name then some value else env.getenv other :=
  KeyMap.lookup_insert _ _ _ _

end Environment

/-! ## The host's side -/

/-- `setenv` of a number that a call answered. Where it failed the host does not
get here. -/
def setNumber (name : String) (answer : Option Nat) (env : Environment) : Environment :=
  match answer with
  | none => env
  | some n => env.setenv name (toString n)

/-- The environment the child executes with, after what it inherits. -/
def childEnvironment (transport : Transport) (os : CreateAnswers) (object : ProcessSandbox t)
    (inherited : Environment) : Environment :=
  let env := inherited.setenv "LD_PRELOAD" "./sandbox_shim.so"
  let env := setNumber "RLBOX_SHM_FD" os.memfd env
  let env := env.setenv "RLBOX_SHM_SIZE" (toString object.sharedMemorySize)
  let env := env.setenv "RLBOX_SHM_BASE" (toString object.sharedMemoryLocalBase)
  match transport with
  | .rpclib =>
    let env := env.setenv "RLBOX_RPC_PORT" (toString object.rpcPort)
    env.setenv "RLBOX_CALLBACK_PORT" (toString object.callbackPort)
  | .capnp =>
    let env := setNumber "RLBOX_REQ_FD" (os.requestPair.map (·.2)) env
    setNumber "RLBOX_CB_FD" (os.callbackPair.map (·.2)) env

/-! ## The shim's side -/

/-- `atoi`: `strtol`, and what is left of a `long` in an `int`. -/
def atoi (t : Target) (text : String) : Int := (BitVec.ofInt 32 (strtoSigned t.ptrBits text)).toInt

/-- The `mmap` that `init_shm` asks for. -/
structure ShmRequest (t : Target) where
  wantBase : TPointer t
  size : SizeT t
  fd : Int
  deriving DecidableEq

def shmRequest (t : Target) (env : Environment) : Option (ShmRequest t) :=
  match env.getenv "RLBOX_SHM_FD", env.getenv "RLBOX_SHM_SIZE", env.getenv "RLBOX_SHM_BASE" with
  | some fd, some size, some base => some
    { wantBase := (strtoUnsigned 64 base).setWidth t.ptrBits
      size := BitVec.ofInt t.ptrBits (strtoSigned 64 size)
      fd := atoi t fd }
  | _, _, _ => none

/-- `g_shm_base` after `init_shm`, none where it is null, given what `mmap`
answers. -/
def initShm (mmap : ShmRequest t → Option (TPointer t)) (env : Environment) : Option (TPointer t) :=
  match shmRequest t env with
  | none => none
  | some request =>
    match mmap request with
    | none => none
    | some got => if got ≠ request.wantBase then none else some got

/-- What `start_rpc_server` serves and calls back on: two ports, or two
descriptors. None where it bails. -/
def serverEnds (t : Target) (transport : Transport) (env : Environment) : Option (Int × Int) :=
  match transport with
  | .rpclib =>
    match env.getenv "RLBOX_RPC_PORT", env.getenv "RLBOX_CALLBACK_PORT" with
    | some rpcPort, some cbPort =>
      let port := BitVec.ofInt 16 (atoi t rpcPort)
      let hostCallbackPort := BitVec.ofInt 16 (atoi t cbPort)
      if port = 0 ∨ hostCallbackPort = 0 then none else some (port.toNat, hostCallbackPort.toNat)
    | _, _ => none
  | .capnp =>
    match env.getenv "RLBOX_REQ_FD", env.getenv "RLBOX_CB_FD" with
    | some req, some cb =>
      let reqFd := atoi t req
      let callbackFd := atoi t cb
      if reqFd < 0 ∨ callbackFd < 0 then none else some (reqFd, callbackFd)
    | _, _ => none

/-! ## What comes across -/

/-- The numbers the system answers fit their types: an `int` for a descriptor, 16
bits for a port, the address space for a mapping. -/
structure CreateAnswers.Fits (t : Target) (os : CreateAnswers) : Prop where
  fds : ∀ fd ∈ os.fds, fd < 2 ^ 31
  ports : os.rpcPort < 2 ^ 16 ∧ os.callbackPort < 2 ^ 16
  padded : ∀ start, os.mmapPadded = some start →
    start + (sharedMemoryBytes + 0x100000000) ≤ 2 ^ Target.ptrBits .x86_64

/-- The shim of a child finds the memory, the channels and the ports of its own
sandbox, and maps the memory where the host has it or nowhere. -/
structure HandedOver (transport : Transport) (o : SandboxId) (os : CreateAnswers)
    (env : Environment) (after : Life t) (child : HostChild) : Prop where
  memory : ∃ request, shmRequest t env = some request ∧
    request.wantBase.toNat = after.object.sharedMemoryLocalBase ∧
    request.size.toNat = after.object.sharedMemorySize ∧
    ∃ fd : Fd, request.fd = fd ∧ child.files fd = some (.shm o)
  mapped : ∀ (mmap : ShmRequest t → Option (TPointer t)) base, initShm mmap env = some base →
    base.toNat = after.object.sharedMemoryLocalBase
  channels : transport = .capnp → ∃ req cb : Fd,
    serverEnds t .capnp env = some ((req : Int), (cb : Int)) ∧
    child.files req = some (.request o .shim) ∧ child.files cb = some (.callback o .shim)
  ports : transport = .rpclib →
    serverEnds t .rpclib env =
      some ((after.object.rpcPort : Int), (after.object.callbackPort : Int)) ∧
    .server o after.object.callbackPort ∈ after.host.services

/-! ## The text -/

section
variable {env inherited : Environment} {os : CreateAnswers} {object : ProcessSandbox t}
  {transport : Transport}

theorem atoi_toString {n : Nat} (fits : n < 2 ^ 31) : atoi t (toString n) = n := by
  have long : n < 2 ^ (t.ptrBits - 1) :=
    Nat.lt_of_lt_of_le fits (Nat.pow_le_pow_right (by decide) (by cases t <;> decide))
  rw [atoi, strtoSigned_toString long, BitVec.toInt_ofInt, Int.bmod_eq_of_le] <;> omega

theorem port_toString {n : Nat} (fits : n < 2 ^ 16) :
    (BitVec.ofInt 16 (atoi t (toString n))).toNat = n := by
  rw [atoi_toString (by omega), BitVec.ofInt_natCast, BitVec.toNat_ofNat, Nat.mod_eq_of_lt fits]

theorem shmRequest_childEnvironment {shmFd : Fd} (opened : os.memfd = some shmFd)
    (fd : shmFd < 2 ^ 31) (size : object.sharedMemorySize = sharedMemoryBytes)
    (base : object.sharedMemoryLocalBase < 2 ^ t.ptrBits) :
    shmRequest t (childEnvironment transport os object inherited) = some
      { wantBase := BitVec.ofNat t.ptrBits object.sharedMemoryLocalBase
        size := BitVec.ofNat t.ptrBits sharedMemoryBytes
        fd := shmFd } := by
  have base64 : object.sharedMemoryLocalBase < 2 ^ 64 :=
    Nat.lt_of_lt_of_le base (Nat.pow_le_pow_right (by decide) (by cases t <;> decide))
  have size63 : sharedMemoryBytes < 2 ^ (64 - 1) := by decide
  have narrow : t.ptrBits ≤ 64 := by cases t <;> decide
  have found : (childEnvironment transport os object inherited).getenv "RLBOX_SHM_FD" =
        some (toString shmFd) ∧
      (childEnvironment transport os object inherited).getenv "RLBOX_SHM_SIZE" =
        some (toString object.sharedMemorySize) ∧
      (childEnvironment transport os object inherited).getenv "RLBOX_SHM_BASE" =
        some (toString object.sharedMemoryLocalBase) := by
    cases transport with
    | rpclib => simp [childEnvironment, setNumber, opened, Environment.getenv_setenv]
    | capnp =>
      cases request : os.requestPair <;> cases callback : os.callbackPair <;>
        simp [childEnvironment, setNumber, opened, request, callback, Environment.getenv_setenv]
  obtain ⟨isFd, isSize, isBase⟩ := found
  rw [shmRequest, isFd, isSize, isBase]
  simp only [atoi_toString fd, size, strtoSigned_toString size63, strtoUnsigned_toString base64,
    BitVec.ofInt_natCast, BitVec.setWidth_ofNat_of_le narrow]

theorem serverEnds_rpclib (rpcPort : object.rpcPort < 2 ^ 16)
    (callbackPort : object.callbackPort < 2 ^ 16)
    (served : object.rpcPort ≠ 0 ∧ object.callbackPort ≠ 0) :
    serverEnds t .rpclib (childEnvironment .rpclib os object inherited) =
      some ((object.rpcPort : Int), (object.callbackPort : Int)) := by
  have found : (childEnvironment .rpclib os object inherited).getenv "RLBOX_RPC_PORT" =
        some (toString object.rpcPort) ∧
      (childEnvironment .rpclib os object inherited).getenv "RLBOX_CALLBACK_PORT" =
        some (toString object.callbackPort) := by
    simp [childEnvironment, Environment.getenv_setenv]
  have port := port_toString (t := t) rpcPort
  have hostCallbackPort := port_toString (t := t) callbackPort
  have nonzero : ∀ {p : BitVec 16} {n : Nat}, p.toNat = n → n ≠ 0 → p ≠ 0 := by
    rintro p n same positive rfl
    exact positive same.symm
  rw [serverEnds, found.1, found.2]
  dsimp only
  rw [if_neg (not_or.mpr ⟨nonzero port served.1, nonzero hostCallbackPort served.2⟩), port,
    hostCallbackPort]

theorem serverEnds_capnp {req cb : Fd × Fd} (request : os.requestPair = some req)
    (callback : os.callbackPair = some cb) (small : req.2 < 2 ^ 31 ∧ cb.2 < 2 ^ 31) :
    serverEnds t .capnp (childEnvironment .capnp os object inherited) =
      some ((req.2 : Int), (cb.2 : Int)) := by
  have found : (childEnvironment .capnp os object inherited).getenv "RLBOX_REQ_FD" =
        some (toString req.2) ∧
      (childEnvironment .capnp os object inherited).getenv "RLBOX_CB_FD" = some (toString cb.2) := by
    simp [childEnvironment, setNumber, request, callback, Environment.getenv_setenv]
  rw [serverEnds, found.1, found.2]
  dsimp only
  rw [atoi_toString small.1, atoi_toString small.2, if_neg (by omega)]

/-- The shim maps the memory where it was told, or has none. -/
theorem initShm_base {mmap : ShmRequest t → Option (TPointer t)} {base : TPointer t}
    {request : ShmRequest t} (told : shmRequest t env = some request)
    (mapped : initShm mmap env = some base) : base = request.wantBase := by
  rw [initShm, told] at mapped
  dsimp only at mapped
  split at mapped
  · cases mapped
  · split at mapped
    · cases mapped
    · rename_i got _ same
      cases mapped
      simpa using same

end

/-! ## The child -/

section
variable {transport : Transport} {self : SandboxId} {os : CreateAnswers} {s : Life t}
  {child : HostChild}

/-- What a child executes with, where a create makes one. -/
structure Executed (transport : Transport) (o : SandboxId) (os : CreateAnswers) (after : Life t)
    (child : HostChild) : Prop where
  memory : ∃ shmFd, os.memfd = some shmFd ∧ child.files shmFd = some (.shm o)
  channels : transport = .capnp → ∃ req cb, os.requestPair = some req ∧ os.callbackPair = some cb ∧
    child.files req.2 = some (.request o .shim) ∧ child.files cb.2 = some (.callback o .shim)
  ports : transport = .rpclib → after.object.rpcPort = os.rpcPort ∧
    after.object.callbackPort = os.callbackPort ∧ os.rpcPort ≠ 0 ∧ os.callbackPort ≠ 0 ∧
    .server o os.callbackPort ∈ after.host.services

theorem executed_rpclib {shmFd : Fd} {base : Nat} (opened : os.memfd = some shmFd)
    (forked : ((s.published self shmFd base).createRpclib self os shmFd).2.host.children =
      s.host.children ++ [child]) :
    Executed .rpclib self os ((s.published self shmFd base).createRpclib self os shmFd).2 child := by
  unfold Life.createRpclib at forked ⊢
  by_cases ports : os.rpcPort = 0 ∨ os.callbackPort = 0 ∨ os.rpcPort = os.callbackPort
  · simp [ports, Life.closeFile, Life.published] at forked
  · rw [if_neg ports] at forked ⊢
    simp only [not_or] at ports
    cases fork : os.fork with
    | none => simp [fork, Life.closeFile, Life.published, Life.startCallbackServer] at forked
    | some pid =>
      -- whether the listener is waited for in vain or not, the child is there
      have isChild : child =
          ⟨pid, self, Function.update s.host.files shmFd (some (.shm self))⟩ := by
        rw [fork] at forked
        dsimp only at forked
        have last : ∀ c : HostChild, s.host.children ++ [c] = s.host.children ++ [child] → child = c :=
          fun c same => (List.cons.inj (List.append_cancel_left same)).1.symm
        split at forked
        · exact last _ forked
        · split at forked <;> exact last _ forked
      rw [isChild]
      refine ⟨⟨shmFd, opened, Function.update_self _ _ _⟩, (fun other => by cases other), fun _ => ?_⟩
      dsimp only
      have inside : CallbackService.server self os.callbackPort ∈
          s.host.services ++ [.server self os.callbackPort] := by simp
      split
      · exact ⟨rfl, rfl, ports.1, ports.2.1, inside⟩
      · split <;> exact ⟨rfl, rfl, ports.1, ports.2.1, inside⟩

theorem executed_capnp {shmFd : Fd} {base : Nat} (opened : os.memfd = some shmFd)
    (fresh : FreshFds s.host.files os.fds)
    (forked : ((s.published self shmFd base).createCapnp self os shmFd).2.host.children =
      s.host.children ++ [child]) :
    Executed .capnp self os ((s.published self shmFd base).createCapnp self os shmFd).2 child := by
  obtain ⟨distinct, -⟩ := fresh
  unfold Life.createCapnp at forked ⊢
  cases request : os.requestPair with
  | none => simp [request, Life.closeFile, Life.published] at forked
  | some req =>
    cases callback : os.callbackPair with
    | none => simp [request, callback, Life.closeFile, Life.openFile, Life.published] at forked
    | some cb =>
      cases fork : os.fork with
      | none => simp [request, callback, fork, Life.closeFile, Life.openFile, Life.published] at forked
      | some pid =>
        simp only [CreateAnswers.fds, opened, request, callback, Option.toList_some,
          List.flatMap_singleton, List.cons_append, List.nil_append] at distinct
        rw [request, callback, fork] at forked
        have isChild := (List.cons.inj (List.append_cancel_left forked)).1
        subst isChild
        refine ⟨⟨shmFd, opened, ?_⟩, fun _ => ⟨req, cb, request, callback, ?_, ?_⟩,
          (fun other => by cases other)⟩
        all_goals
          simp only [Life.openFile, Life.published, Function.update_apply]
          grind

/-- The numbers of a create fit the address space. -/
theorem reservedAt_fits {base : Nat} (fits : os.Fits t) (answered : reservedAt t os = some base) :
    base < 2 ^ t.ptrBits := by
  cases t with
  | i386 =>
    have hint := reservedAt_hint answered
    have small : ∀ base ∈ kHintAddrs, base < 2 ^ Target.ptrBits .i386 := by decide
    exact small base hint
  | x86_64 =>
    unfold reservedAt reserve osMmapAligned at answered
    cases padded : os.mmapPadded with
    | none => rw [padded] at answered; cases answered
    | some start =>
      rw [padded] at answered
      cases answered
      have room := fits.padded start padded
      have bytes : 0 < sharedMemoryBytes := by decide
      have rounded := Nat.div_mul_le_self (start + (0x100000000 - 1)) 0x100000000
      omega

/-- The memory of a create that makes a child is published. -/
theorem placed_of_forked (allowed : Allowed os s.host) (fits : os.Fits t)
    (forked : (s.implCreateSandbox transport self os).2.host.children = s.host.children ++ [child]) :
    (s.implCreateSandbox transport self os).2.object.sharedMemoryLocalBase < 2 ^ t.ptrBits ∧
      (s.implCreateSandbox transport self os).2.object.sharedMemorySize = sharedMemoryBytes ∧
      Executed transport self os (s.implCreateSandbox transport self os).2 child := by
  have published : s.Publishes self os _ :=
    Life.implCreateSandbox_publishes transport allowed
  have outcome : Creates transport self os s _ := creates allowed
  generalize s.implCreateSandbox transport self os = result at published outcome forked ⊢
  cases outcome with
  | undone early size =>
    have lengths := congrArg List.length forked
    simp at lengths
  | @goesOn shmFd reached opened base fresh =>
    have executed : Executed transport self os
        ((s.published self shmFd base).createTransport transport self os shmFd).2 child := by
      cases transport with
      | rpclib => exact executed_rpclib opened forked
      | capnp => exact executed_capnp opened allowed.fds forked
    have keeps : (s.published self shmFd base).KeepsPublished
        ((s.published self shmFd base).createTransport transport self os shmFd).2 :=
      Life.createTransport_keeps
    generalize (s.published self shmFd base).createTransport transport self os shmFd = result at *
    cases published with
    | nothing _ mapped _ _ =>
      exact absurd (keeps.mapped.symm.trans mapped) (mmap_ne_self fresh (by decide))
    | region placed region _ _ _ isBase size =>
      refine ⟨?_, size, executed⟩
      rw [isBase]
      simp only [SandboxOp.region] at region
      split at region
      · cases region
      · obtain ⟨answered, found, same⟩ := Option.map_eq_some_iff.mp region
        cases same
        exact reservedAt_fits fits found

end
end RlboxDynamic.HostProcess

namespace RlboxDynamic
open HostProcess

/-- For every create that makes a child, whatever the host process is like, what
the system answers and what environment is inherited: the child's shim reads back
the descriptor, size and base of its own sandbox's memory and the channels or
ports of its own sandbox, and has that memory at the host's base or not at all. -/
theorem environment_handed_over {t : Target} {transport : Transport} {self : SandboxId}
    {os : CreateAnswers} {s : Life t} {child : HostChild} (inherited : Environment)
    (allowed : Allowed os s.host) (fits : os.Fits t)
    (forked : (s.implCreateSandbox transport self os).2.host.children = s.host.children ++ [child]) :
    HandedOver transport self os
      (childEnvironment transport os (s.implCreateSandbox transport self os).2.object inherited)
      (s.implCreateSandbox transport self os).2 child := by
  obtain ⟨base, size, executed⟩ := placed_of_forked allowed fits forked
  generalize (s.implCreateSandbox transport self os).2 = after at base size executed ⊢
  obtain ⟨⟨shmFd, opened, holds⟩, channels, ports⟩ := executed
  have small : ∀ fd, fd ∈ os.fds → fd < 2 ^ 31 := fits.fds
  have shmSmall : shmFd < 2 ^ 31 := small shmFd (by simp [CreateAnswers.fds, opened])
  have told : shmRequest t (childEnvironment transport os after.object inherited) = _ :=
    shmRequest_childEnvironment opened shmSmall size base
  have isBase : (BitVec.ofNat t.ptrBits after.object.sharedMemoryLocalBase).toNat =
      after.object.sharedMemoryLocalBase := by
    rw [BitVec.toNat_ofNat, Nat.mod_eq_of_lt base]
  constructor
  · refine ⟨_, told, isBase, ?_, shmFd, rfl, holds⟩
    rw [BitVec.toNat_ofNat, size]
    cases t <;> rfl
  · intro mmap got mapped
    rw [initShm_base told mapped]
    exact isBase
  · rintro rfl
    obtain ⟨req, cb, request, callback, holdsReq, holdsCb⟩ := channels rfl
    refine ⟨req.2, cb.2, serverEnds_capnp request callback ⟨small _ ?_, small _ ?_⟩, holdsReq, holdsCb⟩
    · simp [CreateAnswers.fds, request]
    · simp [CreateAnswers.fds, callback]
  · rintro rfl
    obtain ⟨rpcPort, callbackPort, rpc, callback, served⟩ := ports rfl
    obtain ⟨rpcFits, callbackFits⟩ := fits.ports
    rw [← rpcPort] at rpc rpcFits
    rw [← callbackPort] at callback callbackFits served
    exact ⟨serverEnds_rpclib rpcFits callbackFits ⟨rpc, callback⟩, served⟩

theorem allSucceed_fits : allSucceed.Fits t where
  fds := by decide
  ports := by decide
  padded start answered := by
    cases answered
    decide

/-- A shim started below another one's sandbox reads its own numbers. -/
theorem nested_environment_handed_over : ∃ child,
    HandedOver .capnp 0 allSucceed
      (childEnvironment .capnp allSucceed
        ((emptyHost .i386).implCreateSandbox .capnp 0 allSucceed).2.object
        (Environment.setenv "RLBOX_REQ_FD" "9" (Environment.setenv "RLBOX_SHM_BASE" "0" ∅)))
      ((emptyHost .i386).implCreateSandbox .capnp 0 allSucceed).2 child :=
  ⟨_, environment_handed_over _
    (allowed_emptyHost (t := .i386) allSucceed rfl rfl (by decide)) allSucceed_fits rfl⟩

end RlboxDynamic
