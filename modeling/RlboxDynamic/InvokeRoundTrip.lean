import RlboxDynamic.ShimHandlers
import RlboxDynamic.WireSlots
import RlboxDynamic.WorkerPool

/-! An invoke over the wire and back: the host widens every argument to a slot
and tags it, the shim hands libffi a pointer to each slot and a buffer for the
return, and the host casts the slot that comes back. -/
namespace RlboxDynamic

/-- The `ffi_type` of a C type's tag. -/
def CType.ffiType (t : Target) : CType → FfiType
  | .bool | .char | .schar | .short | .int => .sint32
  | .uchar | .ushort | .uint => .uint32
  | .long => if t.ptrBits = 64 then .sint64 else .sint32
  | .ulong => if t.ptrBits = 64 then .uint64 else .uint32
  | .longLong => .sint64
  | .ulongLong => .uint64
  | .pointer => .pointer

/-- The declared width libffi reads or writes. -/
def FfiType.bits (t : Target) : FfiType → Nat
  | .void => 0
  | .sint32 | .uint32 => 32
  | .sint64 | .uint64 => 64
  | .pointer => t.ptrBits

/-- `tag_of_v` of a return type; none is `void`. -/
def retTagOf (t : Target) : Option CType → BitVec 32
  | none => argVoid
  | some type => type.tagOf t

/-- The message `impl_invoke_with_func_ptr` sends: tags by the original types,
slots by the converted parameters. -/
def invokeRequest {t : Target} (funcAddr : TPointer t) (ret : Option CType) (types : List CType)
    (params : List (CValue t)) : WireRequest :=
  .invoke (funcAddr.setWidth 64) (retTagOf t ret) (types.map (CType.tagOf t)) (params.map packSlot)

/-- What the request loop hands `handle_invoke`. -/
def WireRequest.job (t : Target) : WireRequest → Option (Job t)
  | .invoke funcAddr retTag argTags argValues =>
    some ⟨funcAddr.setWidth t.ptrBits, retTag, argTags, argValues⟩
  | _ => none

section
variable {t : Target}

/-- The callee reads its parameter from the low bytes of what libffi passes at
the declared width. -/
def Reads (v : CValue t) (arg : FfiType × BitVec 64) : Prop :=
  (arg.2.setWidth (arg.1.bits t)).setWidth (v.type.bits t) = v.bits

/-- What a callee that returns the value leaves in its return registers. A type
narrower than them leaves the rest as it likes. -/
def CValue.LeftIn (r : CValue t) (registers : BitVec 64) : Prop :=
  registers.setWidth (r.type.bits t) = r.bits

instance (r : CValue t) (registers : BitVec 64) : Decidable (r.LeftIn registers) :=
  inferInstanceAs (Decidable (_ = _))

/-- What libffi writes for a return, at the declared width with narrow integers
widened. -/
def landReturn (t : Target) (ty : FfiType) (registers : BitVec 64) : BitVec 64 :=
  match ty with
  | .void => 0
  | .sint32 => (registers.setWidth 32).signExtend 64
  | .uint32 => (registers.setWidth 32).setWidth 64
  | .sint64 | .uint64 => registers
  | .pointer => (registers.setWidth t.ptrBits).setWidth 64

/-- `ret_buf` is one `ffi_arg`. -/
def retBuf (t : Target) (ty : FfiType) (registers : BitVec 64) : BitVec t.ptrBits :=
  (landReturn t ty registers).setWidth t.ptrBits

/-- The value survives the one word of `ret_buf`. -/
def CValue.FitsWord (r : CValue t) : Prop :=
  r.type.bits t ≤ t.ptrBits ∨ (r.extend 64).toNat < 2 ^ t.ptrBits

/-- The registers are zero all over where the value is a `bool`'s `false`. -/
def CValue.FalseAllOver (r : CValue t) (registers : BitVec 64) : Prop :=
  r.type = .bool → r.bits = 0 → registers.setWidth 32 = 0

/-- libffi writes past the end of `ret_buf`. -/
def FfiType.Overruns (t : Target) (ty : FfiType) : Prop := t.ptrBits < ty.bits t

/-- The cast of the raw result at the end of `impl_invoke_with_func_ptr`. -/
def castResult (type : CType) (raw : BitVec 64) : CValue t := .ofSlot type raw

/-! Each tag's type. -/

theorem ffiTypeForTag_tagOf (type : CType) :
    ffiTypeForTag (type.tagOf t) = some (type.ffiType t) := by
  cases t <;> cases type <;> rfl

theorem tagOf_ne_void (type : CType) : type.tagOf t ≠ argVoid := by
  cases t <;> cases type <;> decide

theorem tagOf_eq_pointer {type : CType} : type.tagOf t = argPointer ↔ type = .pointer := by
  cases t <;> cases type <;> decide

theorem bits_le_ffiType (type : CType) : type.bits t ≤ (type.ffiType t).bits t := by
  cases t <;> cases type <;> decide

theorem of_ffiType_sint32 {type : CType} (same : type.ffiType t = .sint32) :
    type.bits t ≤ 32 ∧ (type.isSigned = true ∨ type = .bool) := by
  revert same
  cases t <;> cases type <;> decide

theorem ffiType_ne_void (type : CType) : type.ffiType t ≠ .void := by
  cases t <;> cases type <;> decide

/-! Arguments. -/

theorem packSlot_pointer {v : CValue t} (pointer : v.type = .pointer) :
    ((packSlot v).setWidth t.ptrBits).setWidth 64 = packSlot v := by
  obtain ⟨type, bits, bool_le⟩ := v
  obtain rfl : type = .pointer := pointer
  exact congrArg _ (setWidth_wire bits)

theorem prepareArg_packSlot (v : CValue t) :
    prepareArg t (v.type.tagOf t, packSlot v) = some (v.type.ffiType t, packSlot v) := by
  simp only [prepareArg, ffiTypeForTag_tagOf, tagOf_ne_void, ↓reduceIte, tagOf_eq_pointer]
  split
  next pointer => rw [packSlot_pointer pointer]
  next => rfl

theorem mapM_prepareArg (values : List (CValue t)) :
    ((values.map fun v => v.type.tagOf t).zip (values.map packSlot)).mapM (prepareArg t) =
      some (values.map fun v => (v.type.ffiType t, packSlot v)) := by
  induction values with
  | nil => rfl
  | cons v values ih =>
    rw [List.map_cons, List.map_cons, List.zip_cons_cons, List.mapM_cons, prepareArg_packSlot, ih]
    rfl

theorem reads_packSlot (v : CValue t) : Reads v (v.type.ffiType t, packSlot v) := by
  change ((packSlot v).setWidth _).setWidth _ = _
  rw [BitVec.setWidth_setWidth_of_le _ (bits_le_ffiType v.type)]
  exact v.setWidth_extend

/-! The return. -/

theorem ffiResult_tagOf (type : CType) (buf : BitVec t.ptrBits) :
    ffiResult (type.tagOf t) buf =
      match type.ffiType t with
      | .sint32 => (buf.setWidth 32).signExtend 64
      | .uint32 => (buf.setWidth 32).setWidth 64
      | _ => buf.setWidth 64 := by
  cases t <;> cases type <;> rfl

/-- What the shim sends back for what the callee left in its registers. -/
def sentBack (t : Target) (type : CType) (registers : BitVec 64) : BitVec 64 :=
  ffiResult (type.tagOf t) (retBuf t (type.ffiType t) registers)

theorem sentBack_sint32 {type : CType} (ty : type.ffiType t = .sint32) (registers : BitVec 64) :
    sentBack t type registers = (registers.setWidth 32).signExtend 64 := by
  have low : (((registers.setWidth 32).signExtend 64).setWidth t.ptrBits).setWidth 32 =
      registers.setWidth 32 := by
    rw [BitVec.setWidth_setWidth_of_le _ t.le_ptrBits, WordExtension.setWidth_signExtend (by omega),
      BitVec.signExtend_eq]
  rw [sentBack, ffiResult_tagOf, ty]
  simp only [retBuf, landReturn, low]

theorem sentBack_uint32 {type : CType} (ty : type.ffiType t = .uint32) (registers : BitVec 64) :
    sentBack t type registers = (registers.setWidth 32).setWidth 64 := by
  have low : (((registers.setWidth 32).setWidth 64).setWidth t.ptrBits).setWidth 32 =
      registers.setWidth 32 := by
    rw [BitVec.setWidth_setWidth_of_le _ t.le_ptrBits, BitVec.setWidth_setWidth_of_le _ (by omega),
      BitVec.setWidth_eq]
  rw [sentBack, ffiResult_tagOf, ty]
  simp only [retBuf, landReturn, low]

/-- A 64-bit return, of which `ret_buf` holds one word. -/
theorem sentBack_wide {type : CType} (ty : type.ffiType t = .sint64 ∨ type.ffiType t = .uint64)
    (registers : BitVec 64) :
    sentBack t type registers = (registers.setWidth t.ptrBits).setWidth 64 := by
  rw [sentBack, ffiResult_tagOf]
  rcases ty with ty | ty <;> simp only [ty, retBuf, landReturn]

theorem sentBack_pointer {type : CType} (ty : type.ffiType t = .pointer) (registers : BitVec 64) :
    sentBack t type registers = (registers.setWidth t.ptrBits).setWidth 64 := by
  rw [sentBack, ffiResult_tagOf, ty]
  simp only [retBuf, landReturn, setWidth_wire]

/-- The low bits come back, as far as the declared type and `ret_buf` reach. -/
theorem setWidth_sentBack {type : CType} {registers : BitVec 64} {k : Nat}
    (declared : k ≤ (type.ffiType t).bits t) (word : k ≤ t.ptrBits) :
    (sentBack t type registers).setWidth k = registers.setWidth k := by
  cases ty : type.ffiType t with
  | void => exact absurd ty (ffiType_ne_void _)
  | sint32 =>
    rw [ty] at declared
    have low : k ≤ 32 := declared
    rw [sentBack_sint32 ty, WordExtension.setWidth_signExtend (by omega),
      BitVec.signExtend_eq_setWidth_of_le _ low, BitVec.setWidth_setWidth_of_le _ low]
  | uint32 =>
    rw [ty] at declared
    have low : k ≤ 32 := declared
    rw [sentBack_uint32 ty, BitVec.setWidth_setWidth_of_le _ (by omega),
      BitVec.setWidth_setWidth_of_le _ low]
  | sint64 | uint64 =>
    have bound := t.ptrBits_le
    rw [sentBack_wide (by simp [ty]), BitVec.setWidth_setWidth_of_le _ (by omega),
      BitVec.setWidth_setWidth_of_le _ word]
  | pointer =>
    have bound := t.ptrBits_le
    rw [sentBack_pointer ty, BitVec.setWidth_setWidth_of_le _ (by omega),
      BitVec.setWidth_setWidth_of_le _ word]

/-- Whatever is not `bool` and no wider than the word comes back, whatever the
rest of the registers holds. -/
theorem castResult_narrow {r : CValue t} {registers : BitVec 64} (left : r.LeftIn registers)
    (notBool : r.type ≠ .bool) (narrow : r.type.bits t ≤ t.ptrBits) :
    castResult r.type (sentBack t r.type registers) = r :=
  CValue.ofSlot_of_low notBool ((setWidth_sentBack (bits_le_ffiType r.type) narrow).trans left)

/-- A `bool` comes back exactly if its truth is that of the whole 32 bits. -/
theorem castResult_bool {r : CValue t} {registers : BitVec 64} (left : r.LeftIn registers)
    (isBool : r.type = .bool) :
    castResult r.type (sentBack t r.type registers) = r ↔ r.FalseAllOver registers := by
  have ty : r.type.ffiType t = .sint32 := by rw [isBool]; rfl
  have zero : sentBack t r.type registers = 0 ↔ registers.setWidth 32 = 0 := by
    rw [sentBack_sint32 ty]
    constructor
    · intro none
      have low := congrArg (BitVec.setWidth 32) none
      rwa [WordExtension.setWidth_signExtend (by omega), BitVec.signExtend_eq] at low
    · intro none
      rw [none]
      rfl
  rw [castResult, CValue.ofSlot_bool_iff isBool, zero]
  have nothing : registers.setWidth 32 = 0 → r.bits = 0 := by
    intro none
    have narrow : r.type.bits t ≤ 32 := (of_ffiType_sint32 ty).1
    rw [← left, ← BitVec.setWidth_setWidth_of_le _ narrow, none]
    exact BitVec.setWidth_zero _ 32
  exact ⟨fun same _ => same.mpr, fun clear => ⟨nothing, clear isBool⟩⟩

/-- A return wider than the word comes back exactly if it fits one. -/
theorem castResult_wide {r : CValue t} {registers : BitVec 64} (left : r.LeftIn registers)
    (wider : t.ptrBits < r.type.bits t) :
    castResult r.type (sentBack t r.type registers) = r ↔ (r.extend 64).toNat < 2 ^ t.ptrBits := by
  have bound := CType.bits_le t r.type
  have wide : r.type.bits t = 64 := by
    cases t with
    | i386 => exact of_not_not fun narrow => absurd (CType.bits_le_32 narrow) (Nat.not_le.mpr wider)
    | x86_64 => exact absurd wider (Nat.not_lt.mpr bound)
  have notBool : r.type ≠ .bool := by
    intro isBool
    rw [isBool] at wide
    cases wide
  have ty : r.type.ffiType t = .sint64 ∨ r.type.ffiType t = .uint64 := by
    revert wide wider
    cases t <;> cases r.type <;> decide
  have whole : CValue.ofSlot r.type registers = r := CValue.ofSlot_of_low notBool left
  have same : registers = r.extend 64 :=
    CValue.ofSlot_injective wide (whole.trans r.ofSlot_extend.symm)
  rw [castResult, sentBack_wide ty, ← same, ← WordExtension.setWidth_setWidth_eq_self]
  constructor
  · intro back
    exact CValue.ofSlot_injective wide (back.trans whole.symm)
  · intro kept
    rw [kept]
    exact whole

/-- A return comes back unless it is wider than `ret_buf` and does not fit, or
is a `false` under other bits. -/
theorem castResult_iff {r : CValue t} {registers : BitVec 64} (left : r.LeftIn registers) :
    castResult r.type (sentBack t r.type registers) = r ↔
      r.FitsWord ∧ r.FalseAllOver registers := by
  by_cases isBool : r.type = .bool
  · have narrow : r.type.bits t ≤ t.ptrBits := by
      rw [isBool]
      exact Nat.le_trans (by simp [CType.bits]) t.le_ptrBits
    rw [castResult_bool left isBool]
    exact ⟨fun clear => ⟨.inl narrow, clear⟩, And.right⟩
  · have clear : r.FalseAllOver registers := fun same => absurd same isBool
    by_cases narrow : r.type.bits t ≤ t.ptrBits
    · exact iff_of_true (castResult_narrow left isBool narrow) ⟨.inl narrow, clear⟩
    · rw [castResult_wide left (Nat.not_le.mp narrow)]
      exact ⟨fun fits => ⟨.inr fits, clear⟩, fun fits => fits.1.resolve_left narrow⟩

end

/-- Where the shim can make the call at all: it has its shared region, the
function is not null, and libffi takes any argument types but `void`. -/
structure Callable (env : ShimEnv t) (funcAddr : TPointer t) : Prop where
  mapped : env.shmBase ≠ 0
  nonNull : funcAddr ≠ 0
  accepts : ∀ args ret, args.length ≤ kMaxArgs → .void ∉ args → env.prepCif args ret = true

/-- The job reaches `ffi_call`, as this call. -/
def Performs (env : ShimEnv t) (request : WireRequest) (job : Job t) (call : FfiCall t) : Prop :=
  request.job t = some job ∧ Shim.enter env job = .entered job ∧
    prepareCall env.prepCif env.shmBase job = some call

section
variable {t : Target} {env : ShimEnv t} {funcAddr : TPointer t}

theorem job_invokeRequest (a : ArgTypes) (ret : Option CType) (values : List (CValue t)) :
    (invokeRequest funcAddr ret (values.map CValue.type)
      (values.map fun v => v.cast (a.of t v.type))).job t =
      some ⟨funcAddr, retTagOf t ret, values.map fun v => v.type.tagOf t, values.map packSlot⟩ := by
  simp only [invokeRequest, WireRequest.job, setWidth_wire, List.map_map, Function.comp_def, packSlot_cast]

theorem ffiTypeForTag_retTagOf (ret : Option CType) :
    ∃ ty, ffiTypeForTag (retTagOf t ret) = some ty := by
  cases ret with
  | none => exact ⟨.void, rfl⟩
  | some type => exact ⟨_, ffiTypeForTag_tagOf type⟩

/-- Every well-typed invoke reaches its function, with the arguments it was given. -/
theorem exists_performs (callable : Callable env funcAddr) (a : ArgTypes) (ret : Option CType)
    (values : List (CValue t)) (few : values.length ≤ kMaxArgs) :
    ∃ job call,
      Performs env (invokeRequest funcAddr ret (values.map CValue.type)
        (values.map fun v => v.cast (a.of t v.type))) job call ∧
      job.retTag = retTagOf t ret ∧ call.funcAddr = funcAddr ∧
        List.Forall₂ Reads values call.args := by
  obtain ⟨retType, returns⟩ := ffiTypeForTag_retTagOf (t := t) ret
  let args := values.map fun v => (v.type.ffiType t, packSlot v)
  have accepted : env.prepCif (args.map Prod.fst) retType = true := by
    refine callable.accepts _ _ (by simpa [args] using few) ?_
    simp [args, ffiType_ne_void]
  have checks : ¬ (env.shmBase = 0 ∨ funcAddr = 0) := not_or.mpr ⟨callable.mapped, callable.nonNull⟩
  refine ⟨_, ⟨funcAddr, retType, args⟩, ⟨job_invokeRequest a ret values, ?_, ?_⟩, rfl, rfl, ?_⟩
  · rw [Shim.enter, if_neg checks, if_neg (by simp), if_neg (by simpa using few)]
  · rw [prepareCall, if_neg checks, if_neg (by simpa using few), mapM_prepareArg, returns]
    exact if_pos accepted
  · simp only [args, List.forall₂_map_right_iff]
    exact List.forall₂_same.mpr fun v _ => reads_packSlot v

end

theorem overruns_iff {t : Target} (type : CType) :
    (type.ffiType t).Overruns t ↔ t.ptrBits < type.bits t := by
  unfold FfiType.Overruns
  cases t <;> cases type <;> decide

/-- Every argument of an invoke arrives with its value and its own type's width.
The result comes back unless the return type is wider than a word, as `long
long` is on i386, and its value does not fit one, or it is a `false` and the
callee left other bits above its byte; for a type wider than a word libffi also
writes past the buffer. -/
theorem invoke_round_trip {t : Target} {env : ShimEnv t} {funcAddr : TPointer t}
    (callable : Callable env funcAddr) (a : ArgTypes) (ret : Option CType)
    (values : List (CValue t)) (few : values.length ≤ kMaxArgs) :
    ∃ job call,
      Performs env (invokeRequest funcAddr ret (values.map CValue.type)
        (values.map fun v => v.cast (a.of t v.type))) job call ∧
      call.funcAddr = funcAddr ∧ List.Forall₂ Reads values call.args ∧
        ∀ r : CValue t, ret = some r.type →
          (∀ registers, r.LeftIn registers →
            (castResult r.type (ffiResult job.retTag (retBuf t (r.type.ffiType t) registers)) = r ↔
              r.FitsWord ∧ r.FalseAllOver registers)) ∧
          ((r.type.ffiType t).Overruns t ↔ t.ptrBits < r.type.bits t) := by
  obtain ⟨job, call, performs, tag, address, reads⟩ := exists_performs callable a ret values few
  refine ⟨job, call, performs, address, reads, fun r same => ⟨fun registers left => ?_, overruns_iff r.type⟩⟩
  subst same
  rw [tag]
  exact castResult_iff left

/-- A shim with its region mapped and libffi's documented answer. -/
def mappedShim : ShimEnv .i386 :=
  { compileMode := .off, shmBase := 0x10000, poolSize := none
    prepCif := fun args _ => args.length ≤ kMaxArgs ∧ .void ∉ args }

theorem mappedShim_callable : Callable mappedShim 0x2000 where
  mapped := by decide
  nonNull := by decide
  accepts args ret few noVoid := by simp [mappedShim, few, noVoid]

/-- The arguments of `int f(int, long long)` called with 7 and -1. -/
def sevenMinusOne : List (CValue .i386) := [.ofSlot .int 7, .ofSlot .longLong (-1)]

/-- A result of 42. -/
def fortyTwo : CValue .i386 := .ofSlot .int 42

theorem int_result_comes_back :
    ∃ (job : Job .i386) (call : FfiCall .i386),
      Performs mappedShim (invokeRequest (0x2000 : TPointer .i386) (some .int) [.int, .longLong]
        (sevenMinusOne.map fun v => v.cast v.type)) job call ∧
      List.Forall₂ Reads sevenMinusOne call.args ∧
        castResult .int (ffiResult job.retTag (retBuf .i386 .sint32 42)) = fortyTwo := by
  obtain ⟨job, call, performs, -, reads, back⟩ := invoke_round_trip mappedShim_callable .asWritten
    (some .int) sevenMinusOne (by decide)
  exact ⟨job, call, performs, reads,
    ((back fortyTwo rfl).1 42 (by decide)).mpr ⟨.inl (by decide), fun isBool => nomatch isBool⟩⟩

/-- A result of 2^32 + 5 from a `long long` function. -/
def twoWords : CValue .i386 := .ofSlot .longLong 0x100000005

/-- A result of `false`. -/
def falseResult : CValue .i386 := .ofSlot .bool 0

/-- Of 2^32 + 5 the host gets 5, and of a `false` whose register holds 1 in bit
8 it gets `true`. -/
theorem results_changed :
    (twoWords.LeftIn 0x100000005 ∧
      castResult .longLong (ffiResult (retTagOf .i386 (some .longLong))
        (retBuf .i386 (CType.longLong.ffiType .i386) 0x100000005)) =
        (.ofSlot .longLong 5 : CValue .i386) ∧ twoWords ≠ .ofSlot .longLong 5) ∧
    (falseResult.LeftIn 0x100 ∧
      castResult .bool (ffiResult (retTagOf .i386 (some .bool))
        (retBuf .i386 (CType.bool.ffiType .i386) 0x100)) =
        (.ofSlot .bool 1 : CValue .i386) ∧ falseResult ≠ .ofSlot .bool 1) := by
  decide

end RlboxDynamic
