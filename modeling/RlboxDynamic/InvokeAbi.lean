import RlboxDynamic.PointerTag

/-! The C types a sandboxed function's signature is written in, the C++ types
RLBox converts them to for the meta sandbox, and the widths of the wasm ABI. -/
namespace RlboxDynamic

/-- The scalar and pointer types a wire tag exists for. -/
inductive CType where
  | bool
  | char
  | schar
  | uchar
  | short
  | ushort
  | int
  | uint
  | long
  | ulong
  | longLong
  | ulongLong
  | pointer
  deriving DecidableEq, Repr

namespace CType

/-- Widths on the native target. -/
def bits (t : Target) : CType → Nat
  | .bool | .char | .schar | .uchar => 8
  | .short | .ushort => 16
  | .int | .uint => 32
  | .long | .ulong => t.ptrBits
  | .longLong | .ulongLong => 64
  | .pointer => t.ptrBits

/-- Widths in the wasm module's ABI, which is LP32. -/
def wasmBits : CType → Nat
  | .bool | .char | .schar | .uchar => 8
  | .short | .ushort => 16
  | .int | .uint => 32
  | .long | .ulong => 32
  | .longLong | .ulongLong => 64
  | .pointer => 32

/-- Which C++ type `int64_t` names. -/
def int64 : Target → CType
  | .i386 => .longLong
  | .x86_64 => .long

/-- Which C++ type `uint64_t` names. -/
def uint64 : Target → CType
  | .i386 => .ulongLong
  | .x86_64 => .ulong

/-- Which C++ type `uintptr_t`, and so `T_PointerType`, names. -/
def uintptr : Target → CType
  | .i386 => .uint
  | .x86_64 => .ulong

/-- The C++ type RLBox passes a parameter as, with `T_ShortType` = `int16_t`,
`T_IntType` = `int32_t`, `T_LongType` = `T_LongLongType` = `int64_t` and
`T_PointerType` = `uintptr_t`. An unsigned type becomes the unsigned form of
its signed counterpart's type. -/
def convert (t : Target) : CType → CType
  | .pointer => uintptr t
  | .long | .longLong => int64 t
  | .ulong | .ulongLong => uint64 t
  | other => other

/-- `std::is_same_v<A, T_PointerType>` for a parameter of this original type. -/
def IsTPointer (t : Target) (type : CType) : Prop := convert t type = uintptr t

instance (t : Target) (type : CType) : Decidable (IsTPointer t type) :=
  inferInstanceAs (Decidable (_ = _))

end CType

/-- One argument of an invoke: its original C type, and the converted value in
the low bits of a 64-bit slot. -/
structure Arg (t : Target) where
  type : CType
  bits : BitVec 64
  deriving DecidableEq

namespace Arg
variable {t : Target}

def pointer (p : TPointer t) : Arg t := ⟨.pointer, p.setWidth 64⟩

/-- The argument's value, when its C++ type is `T_PointerType`. -/
def asTPointer (a : Arg t) : Option (TPointer t) :=
  if CType.IsTPointer t a.type then some (a.bits.setWidth t.ptrBits) else none

/-- The implicit conversion to the wasm callee's parameter type. -/
def wasmParam (type : CType) (bits : BitVec 64) : BitVec 64 :=
  (bits.setWidth type.wasmBits).setWidth 64

end Arg
end RlboxDynamic
