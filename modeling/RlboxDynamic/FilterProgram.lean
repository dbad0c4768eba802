import RlboxDynamic.ClassicBpf
import RlboxDynamic.PointerTag
import RlboxDynamic.SeccompFilter

/-! The program `install_filter` assembles, and what it decides of a system
call. -/
namespace RlboxDynamic.SeccompFilter
open ClassicBpf

/-- `struct seccomp_data`: what a filter is shown of a system call. -/
structure SeccompData where
  nr : BitVec 32
  arch : BitVec 32
  instructionPointer : BitVec 64
  args : Vector (BitVec 64) 6

namespace SeccompData

def offsetofNr : BitVec 32 := 0
def offsetofArch : BitVec 32 := 4

/-- The record as 32-bit words, the lower half of each 64-bit field first. -/
def words (data : SeccompData) : List (BitVec 32) :=
  data.nr :: data.arch :: (data.instructionPointer :: data.args.toList).flatMap
    fun (field : BitVec 64) => [field.setWidth 32, (field >>> 32).setWidth 32]

/-- A load takes an aligned word of the record. -/
def load (data : SeccompData) (offset : BitVec 32) : Option (BitVec 32) :=
  if offset.toNat % 4 = 0 then data.words[offset.toNat / 4]? else none

end SeccompData

def auditArchX8664 : BitVec 32 := 0xC000003E
def auditArchI386 : BitVec 32 := 0x40000003

def seccompRetKillProcess : BitVec 32 := 0x80000000
def seccompRetLog : BitVec 32 := 0x7ffc0000
def seccompRetAllow : BitVec 32 := 0x7fff0000

/-- The calls `install_filter` passes to `allow_eq`. -/
inductive Syscall where
  | read
  | write
  | writev
  | close
  | mmap
  | mprotect
  | munmap
  | madvise
  | brk
  | futex
  | rtSigaction
  | rtSigprocmask
  | rtSigreturn
  | sigaltstack
  | exit
  | exitGroup
  | getpid
  | gettid
  | clockGettime
  | clockNanosleep
  | nanosleep
  | getrandom
  | restartSyscall
  | schedYield
  deriving DecidableEq, Repr

/-- The `SYS_` numbers of the two targets. -/
def Syscall.number : Target → Syscall → BitVec 32
  | .x86_64, .read => 0
  | .x86_64, .write => 1
  | .x86_64, .writev => 20
  | .x86_64, .close => 3
  | .x86_64, .mmap => 9
  | .x86_64, .mprotect => 10
  | .x86_64, .munmap => 11
  | .x86_64, .madvise => 28
  | .x86_64, .brk => 12
  | .x86_64, .futex => 202
  | .x86_64, .rtSigaction => 13
  | .x86_64, .rtSigprocmask => 14
  | .x86_64, .rtSigreturn => 15
  | .x86_64, .sigaltstack => 131
  | .x86_64, .exit => 60
  | .x86_64, .exitGroup => 231
  | .x86_64, .getpid => 39
  | .x86_64, .gettid => 186
  | .x86_64, .clockGettime => 228
  | .x86_64, .clockNanosleep => 230
  | .x86_64, .nanosleep => 35
  | .x86_64, .getrandom => 318
  | .x86_64, .restartSyscall => 219
  | .x86_64, .schedYield => 24
  | .i386, .read => 3
  | .i386, .write => 4
  | .i386, .writev => 146
  | .i386, .close => 6
  | .i386, .mmap => 90
  | .i386, .mprotect => 125
  | .i386, .munmap => 91
  | .i386, .madvise => 219
  | .i386, .brk => 45
  | .i386, .futex => 240
  | .i386, .rtSigaction => 174
  | .i386, .rtSigprocmask => 175
  | .i386, .rtSigreturn => 173
  | .i386, .sigaltstack => 186
  | .i386, .exit => 1
  | .i386, .exitGroup => 252
  | .i386, .getpid => 20
  | .i386, .gettid => 224
  | .i386, .clockGettime => 265
  | .i386, .clockNanosleep => 267
  | .i386, .nanosleep => 162
  | .i386, .getrandom => 355
  | .i386, .restartSyscall => 0
  | .i386, .schedYield => 158

def allowed : List Syscall :=
  [.read, .write, .writev, .close, .mmap, .mprotect, .munmap, .madvise, .brk, .futex, .rtSigaction,
    .rtSigprocmask, .rtSigreturn, .sigaltstack, .exit, .exitGroup, .getpid, .gettid, .clockGettime,
    .clockNanosleep, .nanosleep, .getrandom, .restartSyscall, .schedYield]

/-- The numbers allowed by the build. -/
def allowlist (t : Target) : List (BitVec 32) := allowed.map (Syscall.number t)

/-! ## The instructions, in the order they are pushed -/

def bpfStmt (code : BitVec 16) (k : BitVec 32) : SockFilter := ⟨code, 0, 0, k⟩

def bpfJump (code : BitVec 16) (k : BitVec 32) (jt jf : BitVec 8) : SockFilter := ⟨code, jt, jf, k⟩

def kExpectedArch : Target → BitVec 32
  | .x86_64 => auditArchX8664
  | .i386 => auditArchI386

/-- Numbers from here on belong to the x32 ABI. -/
def x32Bit : BitVec 32 := 0x40000000

def archGate (t : Target) : List SockFilter :=
  [bpfStmt (bpfLd ||| bpfW ||| bpfAbs) SeccompData.offsetofArch,
    bpfJump (bpfJmp ||| bpfJeq ||| bpfK) (kExpectedArch t) 1 0,
    bpfStmt (bpfRet ||| bpfK) seccompRetKillProcess]

/-- The number, with x32 refused where the target has it. -/
def loadNr : Target → List SockFilter
  | .x86_64 =>
    [bpfStmt (bpfLd ||| bpfW ||| bpfAbs) SeccompData.offsetofNr,
      bpfJump (bpfJmp ||| bpfJge ||| bpfK) x32Bit 0 1,
      bpfStmt (bpfRet ||| bpfK) seccompRetKillProcess]
  | .i386 => [bpfStmt (bpfLd ||| bpfW ||| bpfAbs) SeccompData.offsetofNr]

def allowEq (nr : BitVec 32) : List SockFilter :=
  [bpfJump (bpfJmp ||| bpfJeq ||| bpfK) nr 0 1, bpfStmt (bpfRet ||| bpfK) seccompRetAllow]

/-- What is pushed for an allowlist. -/
def pushed (t : Target) (terminalAction : BitVec 32) (allow : List (BitVec 32)) : List SockFilter :=
  archGate t ++ loadNr t ++ allow.flatMap allowEq ++ [bpfStmt (bpfRet ||| bpfK) terminalAction]

/-- `k_max`. -/
def kMax : Nat := 96

def push (prog : List SockFilter) (f : SockFilter) : List SockFilter :=
  if prog.length < kMax then prog ++ [f] else prog

/-- `struct sock_fprog`, by the instructions its length covers. -/
structure SockFprog where
  len : BitVec 16
  filter : List SockFilter

def SockFprog.instructions (fprog : SockFprog) : List SockFilter := fprog.filter.take fprog.len.toNat

def fprog (t : Target) (terminalAction : BitVec 32) (allow : List (BitVec 32)) : SockFprog :=
  let prog := (pushed t terminalAction allow).foldl push []
  { len := BitVec.ofNat 16 prog.length, filter := prog }

/-- The program the kernel is given. -/
def program (t : Target) (terminalAction : BitVec 32) (allow : List (BitVec 32)) :
    List SockFilter :=
  (fprog t terminalAction allow).instructions

/-- The call is not made through the ABI of the build. -/
def Foreign (t : Target) (data : SeccompData) : Prop :=
  data.arch ≠ kExpectedArch t ∨ (t = .x86_64 ∧ 0x40000000 ≤ data.nr.toNat)

instance (t : Target) (data : SeccompData) : Decidable (Foreign t data) :=
  inferInstanceAs (Decidable (_ ∨ _))

/-- What the filter is for: calls of another ABI kill the process, allowed ones
pass, and every other gets the terminal action. -/
def decision (t : Target) (terminalAction : BitVec 32) (allow : List (BitVec 32))
    (data : SeccompData) : BitVec 32 :=
  if Foreign t data then seccompRetKillProcess
  else if data.nr ∈ allow then seccompRetAllow
  else terminalAction

/-- The program decides exactly that: each instruction pushed is in it, every
jump stays inside, and every run ends in the return decided. -/
structure Exact (t : Target) (terminalAction : BitVec 32) (allow : List (BitVec 32)) : Prop where
  whole : program t terminalAction allow = pushed t terminalAction allow
  jumps : JumpsInside (program t terminalAction allow)
  decides : ∀ data : SeccompData,
    run data.load (program t terminalAction allow) = some (decision t terminalAction allow data)

/-! ## Pushing -/

variable {t : Target} {terminalAction nr acc : BitVec 32} {allow : List (BitVec 32)}
  {data : SeccompData}

theorem foldl_push (prog fs : List SockFilter) (within : prog.length ≤ kMax) :
    fs.foldl push prog = (prog ++ fs).take kMax := by
  induction fs generalizing prog with
  | nil => simp [within]
  | cons f fs ih =>
    rw [List.foldl_cons, push]
    split
    · rename_i room
      rw [ih _ (by simp; omega), List.append_assoc, List.singleton_append]
    · have full : prog.length = kMax := by omega
      rw [ih prog within, List.take_append_of_le_length (by omega),
        List.take_append_of_le_length (by omega)]

/-- The bound keeps the first `k_max` instructions, and `len` counts them all. -/
theorem program_eq_take :
    program t terminalAction allow = (pushed t terminalAction allow).take kMax := by
  have short : ((pushed t terminalAction allow).take kMax).length < 2 ^ 16 := by
    simp [kMax]
  simp only [program, SockFprog.instructions, fprog, foldl_push [] _ (Nat.zero_le _),
    List.nil_append, BitVec.toNat_ofNat, Nat.mod_eq_of_lt short, List.take_length]

theorem program_eq_pushed_iff :
    program t terminalAction allow = pushed t terminalAction allow ↔
      (pushed t terminalAction allow).length ≤ kMax := by
  rw [program_eq_take, List.take_eq_self_iff]

theorem length_pushed :
    (pushed t terminalAction allow).length =
      (match t with | .x86_64 => 7 | .i386 => 5) + 2 * allow.length := by
  cases t <;> simp [pushed, archGate, loadNr, allowEq] <;> omega

/-! ## Deciding -/

@[simp] theorem load_arch : data.load SeccompData.offsetofArch = some data.arch := rfl

@[simp] theorem load_nr : data.load SeccompData.offsetofNr = some data.nr := rfl

@[simp] theorem op_load : (bpfStmt (bpfLd ||| bpfW ||| bpfAbs) k).op = some .load := rfl

@[simp] theorem op_ret : (bpfStmt (bpfRet ||| bpfK) k).op = some .ret := rfl

@[simp] theorem op_jeq : (bpfJump (bpfJmp ||| bpfJeq ||| bpfK) k jt jf).op = some (.jump .jeq) := rfl

@[simp] theorem op_jge : (bpfJump (bpfJmp ||| bpfJge ||| bpfK) k jt jf).op = some (.jump .jge) := rfl

section
variable {load : BitVec 32 → Option (BitVec 32)} {rest : List SockFilter} {v : BitVec 32}

/-- A chain of compare-and-return pairs allows the numbers on its list. -/
theorem decides_allowEq (found : nr ∈ allow → seccompRetAllow = v)
    (onward : nr ∉ allow → Decides load rest nr v) :
    Decides load (allow.flatMap allowEq ++ rest) nr v := by
  induction allow with
  | nil => exact onward (by simp)
  | cons n ns ih =>
    apply decides_pair op_jeq rfl rfl op_ret
    · intro holds
      have same : nr = n := of_decide_eq_true holds
      exact found (by simp [same])
    · intro fails
      have apart : nr ≠ n := of_decide_eq_false fails
      apply ih
      · exact fun later => found (List.mem_cons_of_mem n later)
      · exact fun absent => onward (by simp [apart, absent])

/-- The gate kills a call of another ABI, and goes on with its own. -/
theorem decides_archGate (foreign : data.arch ≠ kExpectedArch t → seccompRetKillProcess = v)
    (onward : data.arch = kExpectedArch t → Decides data.load rest data.arch v) :
    Decides data.load (archGate t ++ rest) acc v := by
  apply decides_load op_load load_arch
  apply decides_jump op_jeq
  by_cases own : data.arch = kExpectedArch t
  · have holds : Compare.jeq.holds data.arch (kExpectedArch t) = true := decide_eq_true own
    simpa [holds, bpfJump] using onward own
  · have fails : Compare.jeq.holds data.arch (kExpectedArch t) = false := decide_eq_false own
    have kill : Decides data.load (bpfStmt (bpfRet ||| bpfK) seccompRetKillProcess :: rest)
      data.arch v := foreign own ▸ decides_ret op_ret
    simpa [fails, bpfJump] using kill

/-- The number is loaded, and an x32 number killed where there is x32. -/
theorem decides_loadNr
    (x32 : t = .x86_64 → 0x40000000 ≤ data.nr.toNat → seccompRetKillProcess = v)
    (onward : ¬ (t = .x86_64 ∧ 0x40000000 ≤ data.nr.toNat) → Decides data.load rest data.nr v) :
    Decides data.load (loadNr t ++ rest) acc v := by
  cases t with
  | i386 => exact decides_load op_load load_nr (onward (by simp))
  | x86_64 =>
    apply decides_load op_load load_nr
    apply decides_pair op_jge rfl rfl op_ret
    · exact fun holds => x32 rfl (of_decide_eq_true holds)
    · exact fun fails => onward fun high => of_decide_eq_false fails high.2

end

theorem decides_pushed (data : SeccompData) :
    Decides data.load (pushed t terminalAction allow) acc
      (decision t terminalAction allow data) := by
  simp only [pushed, List.append_assoc]
  apply decides_archGate
  · intro foreign
    exact (if_pos (.inl foreign)).symm
  intro own
  apply decides_loadNr
  · intro target high
    exact (if_pos (.inr ⟨target, high⟩)).symm
  intro low
  have native : ¬ Foreign t data := not_or.mpr ⟨not_not.mpr own, low⟩
  apply decides_allowEq
  · intro found
    rw [decision, if_neg native, if_pos found]
  · intro absent
    rw [decision, if_neg native, if_neg absent]
    exact decides_ret op_ret

/-! ## Jumping -/

theorem jumpsInside_allowEq (allow : List (BitVec 32)) {rest : List SockFilter}
    (inside : JumpsInside rest) (more : rest ≠ []) :
    JumpsInside (allow.flatMap allowEq ++ rest) := by
  induction allow with
  | nil => exact inside
  | cons n ns ih =>
    apply jumpsInside_cons.mpr
    refine ⟨fun test jumps => ?_, (jumpsInside_cons_of_not_jump (by simp)).mpr ih⟩
    have positive := List.length_pos_iff.mpr more
    simp [bpfJump]
    omega

theorem jumpsInside_loadNr {rest : List SockFilter} (inside : JumpsInside rest)
    (more : rest ≠ []) : JumpsInside (loadNr t ++ rest) := by
  cases t with
  | i386 => exact (jumpsInside_cons_of_not_jump (by simp)).mpr inside
  | x86_64 =>
    apply (jumpsInside_cons_of_not_jump (by simp)).mpr
    apply jumpsInside_cons.mpr
    refine ⟨fun test jumps => ?_, (jumpsInside_cons_of_not_jump (by simp)).mpr inside⟩
    simpa [bpfJump] using List.length_pos_iff.mpr more

theorem jumpsInside_archGate {rest : List SockFilter} (inside : JumpsInside rest)
    (more : rest ≠ []) : JumpsInside (archGate t ++ rest) := by
  apply (jumpsInside_cons_of_not_jump (by simp)).mpr
  apply jumpsInside_cons.mpr
  refine ⟨fun test jumps => ?_, (jumpsInside_cons_of_not_jump (by simp)).mpr inside⟩
  simpa [bpfJump] using List.length_pos_iff.mpr more

theorem jumpsInside_pushed : JumpsInside (pushed t terminalAction allow) := by
  have last : JumpsInside [bpfStmt (bpfRet ||| bpfK) terminalAction] :=
    (jumpsInside_cons_of_not_jump (by simp)).mpr jumpsInside_nil
  have chain := jumpsInside_allowEq allow last (by simp)
  have numbered := jumpsInside_loadNr (t := t) chain (by simp)
  have gated := jumpsInside_archGate (t := t) numbered (by simp)
  simpa only [pushed, List.append_assoc] using gated

theorem getElem?_allowEq (j : Nat) :
    (allow.flatMap allowEq)[2 * j]? =
      allow[j]?.map fun nr => bpfJump (bpfJmp ||| bpfJeq ||| bpfK) nr 0 1 := by
  induction allow generalizing j with
  | nil => simp
  | cons n ns ih =>
    cases j with
    | zero => rfl
    | succ j => exact ih j

/-- In a list that does not fit, the last compare kept jumps past the bound. -/
theorem last_compare (long : kMax < (pushed t terminalAction allow).length) :
    ∃ nr, (pushed t terminalAction allow)[94]? =
      some (bpfJump (bpfJmp ||| bpfJeq ||| bpfK) nr 0 1) := by
  rw [length_pushed, kMax] at long
  obtain ⟨pairs, begins, inside⟩ : ∃ j, (archGate t ++ loadNr t).length + 2 * j = 94 ∧
      j < allow.length := by
    cases t
    · exact ⟨45, rfl, by simp only at long; omega⟩
    · exact ⟨44, rfl, by simp only at long; omega⟩
  refine ⟨allow[pairs], ?_⟩
  rw [pushed, List.append_assoc, List.getElem?_append_right (by omega), ← begins,
    Nat.add_sub_cancel_left, List.getElem?_append_left ?_, getElem?_allowEq,
    List.getElem?_eq_getElem inside]
  · rfl
  · simp [allowEq]
    omega

/-- The bound is met exactly where every jump stays inside the program. -/
theorem jumpsInside_iff_fits :
    JumpsInside (program t terminalAction allow) ↔
      (pushed t terminalAction allow).length ≤ kMax := by
  constructor
  · intro inside
    by_contra long
    obtain ⟨nr, compare⟩ := last_compare (Nat.lt_of_not_le long)
    have kept : (program t terminalAction allow)[94]? =
        some (bpfJump (bpfJmp ||| bpfJeq ||| bpfK) nr 0 1) := by
      rw [program_eq_take, List.getElem?_take_of_lt (by simp [kMax]), compare]
    have short : (program t terminalAction allow).length ≤ kMax := by
      rw [program_eq_take]
      exact List.length_take_le _ _
    have target := (inside 94 _ .jeq kept op_jeq).2
    simp [bpfJump, kMax] at target short
    omega
  · intro fits
    rw [program_eq_pushed_iff.mpr fits]
    exact jumpsInside_pushed

/-! ## The filter -/

/-- An allowlist whose program fits the bound is decided exactly. -/
theorem exact_of_fits (fits : (pushed t terminalAction allow).length ≤ kMax) :
    Exact t terminalAction allow := by
  have whole := program_eq_pushed_iff.mpr fits
  constructor
  · exact whole
  · exact jumpsInside_iff_fits.mpr fits
  · intro data
    rw [whole]
    exact (decides_pushed data).run_eq

theorem allowlist_fits : (pushed t terminalAction (allowlist t)).length ≤ kMax := by
  rw [length_pushed]
  cases t <;> decide

/-- The filter of the build decides exactly, and so does that of any allowlist
whose program fits the bound. -/
theorem filter_decides_exactly :
    (∀ t terminalAction, Exact t terminalAction (allowlist t)) ∧
      ∀ t terminalAction allow, (pushed t terminalAction allow).length ≤ kMax →
        Exact t terminalAction allow :=
  ⟨fun _ _ => exact_of_fits allowlist_fits, fun _ _ _ fits => exact_of_fits fits⟩

theorem filter_decides_exactly_five_calls :
    (pushed .i386 seccompRetLog [3, 4, 6, 1, 252]).length ≤ kMax ∧
      Exact .i386 seccompRetLog [3, 4, 6, 1, 252] :=
  ⟨by decide, filter_decides_exactly.2 _ _ _ (by decide)⟩

end RlboxDynamic.SeccompFilter
