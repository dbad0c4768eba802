import RlboxDynamic.PointerTag

/-! The libffi call a forked child makes: wire tags, the checks before
`ffi_call`, and the cast of what it returns. -/
namespace RlboxDynamic

/-! `arg_type`. -/

def argVoid : BitVec 32 := 0
def argSint32 : BitVec 32 := 1
def argUint32 : BitVec 32 := 2
def argSint64 : BitVec 32 := 3
def argUint64 : BitVec 32 := 4
def argPointer : BitVec 32 := 5

/-- The `ffi_type` objects the shim uses. -/
inductive FfiType where
  | void
  | sint32
  | uint32
  | sint64
  | uint64
  | pointer
  deriving DecidableEq, Repr

/-- `ffi_type_for_tag`. None if unknown. -/
def ffiTypeForTag (tag : BitVec 32) : Option FfiType :=
  if tag = argVoid then some .void
  else if tag = argSint32 then some .sint32
  else if tag = argUint32 then some .uint32
  else if tag = argSint64 then some .sint64
  else if tag = argUint64 then some .uint64
  else if tag = argPointer then some .pointer
  else none

/-- Bounds the stack arrays of `do_ffi_call`. -/
def kMaxArgs : Nat := 32

/-- One call a host asks for: the arguments of `handle_invoke`. -/
structure Job (t : Target) where
  funcAddr : TPointer t
  retTag : BitVec 32
  argTags : List (BitVec 32)
  argValues : List (BitVec 64)
  deriving DecidableEq

/-- What reaches `ffi_call`. -/
structure FfiCall (t : Target) where
  funcAddr : TPointer t
  retType : FfiType
  args : List (FfiType × BitVec 64)
  deriving DecidableEq

/-- One argument's type and slot. A pointer goes through `uintptr_t`. -/
def prepareArg (t : Target) (arg : BitVec 32 × BitVec 64) : Option (FfiType × BitVec 64) :=
  match ffiTypeForTag arg.1 with
  | none => none
  | some ty =>
    if arg.1 = argVoid then none
    else if arg.1 = argPointer then some (ty, (arg.2.setWidth t.ptrBits).setWidth 64)
    else some (ty, arg.2)

/-- `do_ffi_call` up to its `ffi_call`, for what `ffi_prep_cif` accepts. None
where it returns 0 without calling. -/
def prepareCall {t : Target} (prepCif : List FfiType → FfiType → Bool) (shmBase : TPointer t)
    (job : Job t) : Option (FfiCall t) :=
  if shmBase = 0 ∨ job.funcAddr = 0 then none
  else if job.argTags.length > kMaxArgs then none
  else
    match (job.argTags.zip job.argValues).mapM (prepareArg t), ffiTypeForTag job.retTag with
    | some args, some retType =>
      if prepCif (args.map Prod.fst) retType then some ⟨job.funcAddr, retType, args⟩ else none
    | _, _ => none

/-- The cast of `ret_buf`, an `ffi_arg` of the target's word. -/
def ffiResult {t : Target} (retTag : BitVec 32) (retBuf : BitVec t.ptrBits) : BitVec 64 :=
  if retTag = argVoid then 0
  else if retTag = argSint32 then (retBuf.setWidth 32).signExtend 64
  else if retTag = argUint32 then (retBuf.setWidth 32).setWidth 64
  else if retTag = argSint64 then retBuf.setWidth 64
  else if retTag = argUint64 then retBuf.setWidth 64
  else if retTag = argPointer then retBuf.setWidth 64
  else 0

end RlboxDynamic
