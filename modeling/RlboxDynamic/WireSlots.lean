import RlboxDynamic.FfiCall
import RlboxDynamic.InvokeAbi

/-! Values of C types and the 64-bit wire slots they travel in. Every argument
and every result is widened to a slot; a parallel list of tags tells the shim
how wide each one is. -/
namespace RlboxDynamic

/-! Extensions and truncations of words. -/
namespace WordExtension
variable {w v k : Nat} {x : BitVec w}

/-- What a signed extension gains is lost again by narrowing. -/
theorem setWidth_signExtend (narrow : k ≤ v) : (x.signExtend v).setWidth k = x.signExtend k := by
  apply BitVec.eq_of_getLsbD_eq
  intro i low
  have below : i < v := Nat.lt_of_lt_of_le low narrow
  simp only [BitVec.getLsbD_setWidth, BitVec.getLsbD_signExtend, low, below, decide_true,
    Bool.true_and]

theorem signExtend_signExtend (wide : w ≤ k) (wider : k ≤ v) :
    (x.signExtend k).signExtend v = x.signExtend v := by
  apply BitVec.eq_of_toInt_eq
  rw [BitVec.toInt_signExtend_of_le wider, BitVec.toInt_signExtend_of_le wide,
    BitVec.toInt_signExtend_of_le (Nat.le_trans wide wider)]

/-- What fits in fewer bits is all that survives them. -/
theorem setWidth_setWidth_eq_self : (x.setWidth k).setWidth w = x ↔ x.toNat < 2 ^ k := by
  rw [← BitVec.toNat_inj, BitVec.toNat_setWidth, BitVec.toNat_setWidth]
  constructor
  · intro same
    have cut := Nat.mod_le (x.toNat % 2 ^ k) (2 ^ w)
    have small := Nat.mod_lt x.toNat (Nat.two_pow_pos k)
    omega
  · intro small
    rw [Nat.mod_eq_of_lt small, Nat.mod_eq_of_lt x.isLt]

/-- The two halves of a word put it together again. -/
theorem upper_append_lower (x : BitVec (w + k)) : x.extractLsb' k w ++ x.setWidth k = x := by
  rw [BitVec.setWidth_eq_extractLsb' (Nat.le_add_left k w)]
  exact BitVec.extractLsb'_append_extractLsb'

end WordExtension

namespace CType

/-- Plain `char` is signed on both targets. -/
def isSigned : CType → Bool
  | .char | .schar | .short | .int | .long | .longLong => true
  | .bool | .uchar | .ushort | .uint | .ulong | .ulongLong | .pointer => false

/-- `tag_of`. -/
def tagOf (t : Target) : CType → BitVec 32
  | .bool | .char | .schar | .short | .int => argSint32
  | .uchar | .ushort | .uint => argUint32
  | .long => if t.ptrBits = 64 then argSint64 else argSint32
  | .ulong => if t.ptrBits = 64 then argUint64 else argUint32
  | .longLong => argSint64
  | .ulongLong => argUint64
  | .pointer => argPointer

theorem bits_le (t : Target) (type : CType) : type.bits t ≤ 64 := by
  cases t <;> cases type <;> decide

/-- On i386 what does not take two words takes one. -/
theorem bits_le_32 {type : CType} (narrow : type.bits .i386 ≠ 64) : type.bits .i386 ≤ 32 := by
  cases type <;> simp [bits] at narrow ⊢

/-- RLBox's conversion keeps the sign and never narrows. -/
theorem isSigned_convert (t : Target) (type : CType) :
    (type.convert t).isSigned = type.isSigned := by
  cases t <;> cases type <;> rfl

theorem bits_le_convert (t : Target) (type : CType) : type.bits t ≤ (type.convert t).bits t := by
  cases t <;> cases type <;> decide

theorem convert_eq_bool {t : Target} {type : CType} : type.convert t = .bool ↔ type = .bool := by
  cases t <;> cases type <;> decide

end CType

/-- A value of a C type. A `bool` is 0 or 1. -/
structure CValue (t : Target) where
  type : CType
  bits : BitVec (type.bits t)
  bool_le : type = .bool → bits.toNat ≤ 1
  deriving DecidableEq

namespace CValue
variable {t : Target}

/-- `static_cast` to a wider integer. -/
def extend (v : CValue t) (w : Nat) : BitVec w :=
  if v.type.isSigned then v.bits.signExtend w else v.bits.setWidth w

/-- `static_cast<A>` of an `int64_t`, or through `uintptr_t` for a pointer. -/
def ofSlot (type : CType) (raw : BitVec 64) : CValue t where
  type
  bits := if type = .bool then (if raw = 0 then 0 else 1) else raw.setWidth _
  bool_le isBool := by
    subst isBool
    simp only [↓reduceIte]
    split <;> simp [CType.bits]

/-- `static_cast` from one C type to another. -/
def cast (v : CValue t) (type : CType) : CValue t := ofSlot type (v.extend 64)

@[simp] theorem type_ofSlot (type : CType) (raw : BitVec 64) :
    (ofSlot type raw : CValue t).type = type := rfl

theorem setWidth_extend_of_le {k w : Nat} (v : CValue t) (narrow : k ≤ w) :
    (v.extend w).setWidth k = v.extend k := by
  unfold extend
  split
  · exact WordExtension.setWidth_signExtend narrow
  · exact BitVec.setWidth_setWidth_of_le _ narrow

theorem setWidth_extend (v : CValue t) : (v.extend 64).setWidth (v.type.bits t) = v.bits := by
  rw [v.setWidth_extend_of_le (CType.bits_le t _), extend, BitVec.signExtend_eq, BitVec.setWidth_eq,
    ite_self]

/-! Two extensions are one. -/

theorem signExtend_extend {k w : Nat} {v : CValue t} (signed : v.type.isSigned = true)
    (wide : v.type.bits t ≤ k) (wider : k ≤ w) : (v.extend k).signExtend w = v.extend w := by
  simp only [extend, signed, ↓reduceIte]
  exact WordExtension.signExtend_signExtend wide wider

theorem setWidth_extend_of_ge {k w : Nat} {v : CValue t} (unsigned : v.type.isSigned = false)
    (wide : v.type.bits t ≤ k) : (v.extend k).setWidth w = v.extend w := by
  simp only [extend, unsigned, Bool.false_eq_true, ↓reduceIte]
  apply BitVec.eq_of_toNat_eq
  have small := Nat.lt_of_lt_of_le v.bits.isLt (Nat.pow_le_pow_right (by omega) wide)
  simp [Nat.mod_eq_of_lt small]

/-- Any slot with the right low bits gives the value back, unless it is a `bool`. -/
theorem ofSlot_of_low {v : CValue t} {raw : BitVec 64} (notBool : v.type ≠ .bool)
    (low : raw.setWidth (v.type.bits t) = v.bits) : ofSlot v.type raw = v := by
  obtain ⟨type, bits, bool_le⟩ := v
  simp only [ofSlot, CValue.mk.injEq, heq_eq_eq, true_and]
  rw [if_neg notBool]
  exact low

/-- A `bool` takes the whole slot. -/
theorem ofSlot_of_bool {v : CValue t} {raw : BitVec 64} (isBool : v.type = .bool)
    (same : raw = v.extend 64) : ofSlot v.type raw = v := by
  obtain ⟨type, bits, bool_le⟩ := v
  obtain rfl : type = .bool := isBool
  have one := bool_le rfl
  simp only [ofSlot, CValue.mk.injEq, heq_eq_eq, true_and, ↓reduceIte, same, extend,
    CType.isSigned, Bool.false_eq_true]
  have small : bits.toNat < 2 ^ 64 := Nat.lt_of_le_of_lt one (by omega)
  have zero : bits.setWidth 64 = 0 ↔ bits.toNat = 0 := by
    rw [← BitVec.toNat_inj, BitVec.toNat_setWidth, Nat.mod_eq_of_lt small]
    rfl
  apply BitVec.eq_of_toNat_eq
  split
  next isZero => simp [zero.mp isZero]
  next nonzero =>
    have positive := mt zero.mpr nonzero
    have unit : (1 : BitVec (CType.bits t .bool)).toNat = 1 := rfl
    omega

/-- Casting to `bool` gives the value whose truth is the slot's. -/
theorem ofSlot_bool_iff {v : CValue t} {raw : BitVec 64} (isBool : v.type = .bool) :
    ofSlot v.type raw = v ↔ (raw = 0 ↔ v.bits = 0) := by
  obtain ⟨type, bits, bool_le⟩ := v
  obtain rfl : type = .bool := isBool
  have one := bool_le rfl
  simp only [ofSlot, CValue.mk.injEq, heq_eq_eq, true_and, ↓reduceIte]
  by_cases none : raw = 0
  · rw [if_pos none]
    exact ⟨fun same => ⟨fun _ => same.symm, fun _ => none⟩, fun truth => (truth.mp none).symm⟩
  · rw [if_neg none]
    constructor
    · intro same
      refine ⟨fun zero => absurd zero none, fun zero => ?_⟩
      cases same.trans zero
    · intro truth
      have nonzero : bits ≠ 0 := mt truth.mpr none
      have positive : bits.toNat ≠ 0 := fun zero => nonzero (BitVec.eq_of_toNat_eq zero)
      apply BitVec.eq_of_toNat_eq
      have unit : (1 : BitVec (CType.bits t .bool)).toNat = 1 := rfl
      omega

/-- Widening a value to a slot and casting it back is the identity. -/
theorem ofSlot_extend (v : CValue t) : ofSlot v.type (v.extend 64) = v := by
  by_cases isBool : v.type = .bool
  · exact ofSlot_of_bool isBool rfl
  · exact ofSlot_of_low isBool v.setWidth_extend

/-- Casting to anything but `bool` looks at the low bits alone. -/
theorem ofSlot_congr {type : CType} {raw raw' : BitVec 64} (notBool : type ≠ .bool)
    (low : raw.setWidth (type.bits t) = raw'.setWidth (type.bits t)) :
    (ofSlot type raw : CValue t) = ofSlot type raw' := by
  simp only [ofSlot, notBool, ↓reduceIte, low]

/-- A 64-bit type keeps the whole slot. -/
theorem ofSlot_injective {type : CType} {raw raw' : BitVec 64} (wide : type.bits t = 64)
    (same : (ofSlot type raw : CValue t) = ofSlot type raw') : raw = raw' := by
  have notBool : type ≠ .bool := by
    rintro rfl
    cases wide
  simp only [ofSlot, CValue.mk.injEq, heq_eq_eq, true_and, notBool, ↓reduceIte] at same
  apply BitVec.eq_of_toNat_eq
  have low := congrArg BitVec.toNat same
  rwa [BitVec.toNat_setWidth, BitVec.toNat_setWidth, wide, Nat.mod_eq_of_lt raw.isLt,
    Nat.mod_eq_of_lt raw'.isLt] at low

@[simp] theorem cast_type (v : CValue t) : v.cast v.type = v := v.ofSlot_extend

/-- A cast that keeps the sign and loses no bits leaves the slot as it was. -/
theorem extend_cast {v : CValue t} {type : CType} (sign : type.isSigned = v.type.isSigned)
    (wide : v.type.bits t ≤ type.bits t) (bools : type = .bool ↔ v.type = .bool) :
    (v.cast type).extend 64 = v.extend 64 := by
  by_cases isBool : v.type = .bool
  · rw [bools.mpr isBool, ← isBool, cast_type]
  · have bits : (v.cast type).bits = v.extend (type.bits t) := by
      simp only [cast, ofSlot, mt bools.mp isBool, ↓reduceIte, extend]
      split
      · exact WordExtension.setWidth_signExtend (CType.bits_le t type)
      · exact BitVec.setWidth_setWidth_of_le _ (CType.bits_le t type)
    change (if type.isSigned = true then (v.cast type).bits.signExtend 64
      else (v.cast type).bits.setWidth 64) = _
    rw [bits, sign]
    split
    next signed => exact signExtend_extend signed wide (CType.bits_le t type)
    next unsigned => exact setWidth_extend_of_ge (by simpa using unsigned) wide

end CValue

/-- The types `T_Args` stand for: the C types themselves, or what RLBox converts
them to. -/
inductive ArgTypes where
  | asWritten
  | converted
  deriving DecidableEq, Repr

/-- `T_Args` for a parameter of this C type. -/
def ArgTypes.of (t : Target) : ArgTypes → CType → CType
  | .asWritten, type => type
  | .converted, type => type.convert t

theorem ArgTypes.of_eq_bool {t : Target} {type : CType} (a : ArgTypes) :
    a.of t type = .bool ↔ type = .bool := by
  cases a with
  | asWritten => exact Iff.rfl
  | converted => exact CType.convert_eq_bool

/-- `pack_slot`. -/
def packSlot {t : Target} (v : CValue t) : BitVec 64 := v.extend 64

/-- `unpack_slot<A>`. -/
def unpackSlot {t : Target} (type : CType) (raw : BitVec 64) : CValue t := .ofSlot type raw

/-- A slot holds the value of the C type, converted or not. -/
theorem packSlot_cast {t : Target} (a : ArgTypes) (v : CValue t) :
    packSlot (v.cast (a.of t v.type)) = packSlot v := by
  cases a with
  | asWritten => simp [ArgTypes.of]
  | converted =>
    exact CValue.extend_cast (CType.isSigned_convert t _) (CType.bits_le_convert t _)
      CType.convert_eq_bool

end RlboxDynamic
