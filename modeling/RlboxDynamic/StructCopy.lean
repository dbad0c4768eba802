import RlboxDynamic.FieldLayout
import RlboxDynamic.WireSlots
import Mathlib.Data.List.FinRange
import Mathlib.Logic.Function.Basic

/-! The field copies of a struct translator. Each reflected field is cast to
wasm's type on the way in and back to the host's on the way out, whether the
callee wrote it or not. The i386 build loads and stores floating-point fields
through the x87 registers. -/
namespace RlboxDynamic

/-! Casts to a narrower word and back. -/
namespace WordExtension
variable {w k : Nat} {x : BitVec w}

/-- `static_cast` between integers, by the signedness of the source's type. -/
def convert (signed : Bool) (v : Nat) (x : BitVec w) : BitVec v :=
  if signed then x.signExtend v else x.setWidth v

/-- The word's value is one of the narrower type's. -/
def Fits (signed : Bool) (k : Nat) (x : BitVec w) : Prop :=
  if signed then -2 ^ k ≤ 2 * x.toInt ∧ 2 * x.toInt < 2 ^ k else x.toNat < 2 ^ k

instance (signed : Bool) (k : Nat) (x : BitVec w) : Decidable (Fits signed k x) := by
  unfold Fits; infer_instance

theorem signExtend_signExtend_eq_self (narrow : k ≤ w) :
    (x.signExtend k).signExtend w = x ↔ -2 ^ k ≤ 2 * x.toInt ∧ 2 * x.toInt < 2 ^ k := by
  rw [← BitVec.toInt_inj, BitVec.toInt_signExtend_of_le narrow]
  constructor
  · intro same
    rw [← same]
    exact ⟨BitVec.le_two_mul_toInt, BitVec.two_mul_toInt_lt⟩
  · rintro ⟨low, high⟩
    rw [BitVec.toInt_signExtend_eq_toInt_bmod_of_le x narrow]
    apply Int.bmod_eq_of_le <;> push_cast <;> omega

/-- A word survives a narrower one exactly when its value fits there. -/
theorem convert_convert_eq_self {signed : Bool} (narrow : k ≤ w) :
    convert signed w (convert signed k x) = x ↔ Fits signed k x := by
  cases signed with
  | true => exact signExtend_signExtend_eq_self narrow
  | false => exact setWidth_setWidth_eq_self

/-- A word of its own width is kept, and always fits. -/
theorem convert_self {signed : Bool} : convert signed w x = x := by
  cases signed with
  | true => exact BitVec.signExtend_eq x
  | false => exact BitVec.setWidth_eq x

theorem fits_self {signed : Bool} : Fits signed w x := by
  cases signed with
  | true => exact ⟨BitVec.le_two_mul_toInt, BitVec.two_mul_toInt_lt⟩
  | false => exact x.isLt

end WordExtension

/-! Words in an IEEE 754 binary format, the lowest `m` bits being the fraction. -/
namespace FloatWord
open WordExtension
variable {w m : Nat} {x : BitVec w}

/-- A signalling NaN: every bit of the exponent is set, and of the fraction some
bit, but not the highest. -/
def Signalling (m : Nat) (x : BitVec w) : Prop :=
  x.extractLsb' m (w - 1 - m) = BitVec.allOnes _ ∧ x.getLsbD (m - 1) = false ∧
    x.setWidth (m - 1) ≠ 0

instance (m : Nat) (x : BitVec w) : Decidable (Signalling m x) := by
  unfold Signalling; infer_instance

/-- What a register that loads it as a number gives back: a signalling NaN is
made quiet. -/
def quieted (m : Nat) (x : BitVec w) : BitVec w :=
  if Signalling m x then x ||| BitVec.twoPow w (m - 1) else x

theorem quieted_eq_self (inside : m ≤ w) (some_ : 0 < m) : quieted m x = x ↔ ¬ Signalling m x := by
  refine ⟨fun same signals => ?_, fun quiet => if_neg quiet⟩
  rw [quieted, if_pos signals] at same
  have clear := signals.2.1
  have low : m - 1 < w := by omega
  rw [← same] at clear
  simp [low] at clear

/-- A quiet word stays as it is. -/
theorem quieted_quieted (inside : m ≤ w) (some_ : 0 < m) : quieted m (quieted m x) = quieted m x := by
  refine (quieted_eq_self inside some_).mpr fun signals => ?_
  have clear := signals.2.1
  by_cases before : Signalling m x
  · rw [quieted, if_pos before] at clear
    simp [show m - 1 < w by omega] at clear
  · rw [quieted, if_neg before] at signals
    exact before signals

/-- A copy within one format keeps all but signalling NaNs, -/
theorem convert_quieted {signed : Bool} (inside : m ≤ w) (some_ : 0 < m) :
    convert signed w (quieted m x) = convert signed w x ↔ ¬ Signalling m x := by
  rw [convert_self, convert_self]
  exact quieted_eq_self inside some_

/-- and there and back it keeps the same. -/
theorem convert_quieted_twice {signed : Bool} (inside : m ≤ w) (some_ : 0 < m) :
    convert signed w (quieted m (convert signed w (quieted m x))) = x ↔
      Fits signed w x ∧ ¬ Signalling m x := by
  rw [convert_self, convert_self, quieted_quieted inside some_, quieted_eq_self inside some_,
    and_iff_right fits_self]

end FloatWord

/-! Assignments to all members of a record in turn. -/
section Assign
variable {n : Nat} {Src Dst : Fin n → Type} (f : ∀ i, Src i → Dst i) (src : ∀ i, Src i)

def assignFields (dst : ∀ i, Dst i) (fields : List (Fin n)) : ∀ i, Dst i :=
  fields.foldl (fun dst i => Function.update dst i (f i (src i))) dst

theorem assignFields_apply (dst : ∀ i, Dst i) (fields : List (Fin n)) (i : Fin n) :
    assignFields f src dst fields i = if i ∈ fields then f i (src i) else dst i := by
  induction fields generalizing dst with
  | nil => rfl
  | cons j rest ih =>
    have step : assignFields f src dst (j :: rest) =
      assignFields f src (Function.update dst j (f j (src j))) rest := rfl
    rw [step, ih]
    by_cases later : i ∈ rest
    · simp [later]
    · by_cases here : i = j
      · subst here
        simp [later]
      · simp [later, here]

end Assign

namespace FieldType

/-- Bits of the field in `Sbx_<lib>_<struct><rlbox_process_sandbox>`. -/
def hostBits (t : Target) : FieldType → Nat
  | .scalar type => (type.convert t).bits t
  | .float => 32
  | .double => 64

/-- Bits of the field in `Sbx_<lib>_<struct><rlbox_wasm2c_sandbox>`. -/
def wasmBits : FieldType → Nat
  | .scalar type => type.wasmBits
  | .float => 32
  | .double => 64

/-- Whether a widening copy of the field repeats its sign. A floating-point
field has the same format on both sides. -/
def isSigned : FieldType → Bool
  | .scalar type => type.isSigned
  | .float | .double => false

/-- Bits of the fraction of a floating-point field. -/
def fractionBits : FieldType → Option Nat
  | .scalar _ => none
  | .float => some 23
  | .double => some 52

/-- The field's value in a signalling NaN, and the build copies it through the
x87 registers: i386 has no others for it. -/
def Signals (t : Target) (f : FieldType) (v : BitVec w) : Prop :=
  match t, f.fractionBits with
  | .i386, some m => FloatWord.Signalling m v
  | .i386, none | .x86_64, _ => False

/-- The field's value as the build's load and store leave it. -/
def moved (t : Target) (f : FieldType) (v : BitVec w) : BitVec w :=
  match t, f.fractionBits with
  | .i386, some m => FloatWord.quieted m v
  | .i386, none | .x86_64, _ => v

/-- Wasm's type of a field is never the wider one. -/
theorem wasmBits_le_hostBits (t : Target) (f : FieldType) : f.wasmBits ≤ f.hostBits t := by
  cases f with
  | scalar type => cases t <;> cases type <;> decide
  | float | double => exact Nat.le_refl _

/-- The value as wasm's type has it, in the host's. -/
def toHost (t : Target) (f : FieldType) (v : BitVec f.wasmBits) : BitVec (f.hostBits t) :=
  WordExtension.convert f.isSigned _ v

end FieldType

/-- The contents of a struct's fields in the host's layout. -/
abbrev HostBlock (t : Target) (fs : List FieldType) :=
  (i : Fin fs.length) → BitVec (fs[i].hostBits t)

/-- Their contents in wasm's. -/
abbrev WasmBlock (fs : List FieldType) := (i : Fin fs.length) → BitVec fs[i].wasmBits

section Copies
variable {t : Target} {fs : List FieldType}

/-- `rlbox_meta_copy_field_helper` from the host's field to wasm's. -/
def copyIn (f : FieldType) (v : BitVec (f.hostBits t)) : BitVec f.wasmBits :=
  WordExtension.convert f.isSigned _ (f.moved t v)

/-- The same from wasm's field to the host's. -/
def copyOut (t : Target) (f : FieldType) (v : BitVec f.wasmBits) : BitVec (f.hostBits t) :=
  WordExtension.convert f.isSigned _ (f.moved t v)

/-- The field copy of an emitted translator, into the scratch. -/
def translatorCopy (host : HostBlock t fs) (scratch : WasmBlock fs) : WasmBlock fs :=
  assignFields (fun i => copyIn fs[i]) host scratch (List.finRange fs.length)

/-- The field copy of its cleanup, into the host's block. -/
def cleanupCopy (scratch : WasmBlock fs) (host : HostBlock t fs) : HostBlock t fs :=
  assignFields (fun i => copyOut t fs[i]) scratch host (List.finRange fs.length)

/-- What a wasm callee leaves in the scratch, by the fields it stored to. -/
def calleeWrites (writes : (i : Fin fs.length) → Option (BitVec fs[i].wasmBits))
    (scratch : WasmBlock fs) : WasmBlock fs := fun i => (writes i).getD (scratch i)

/-- The host's block after a wasm call: copy in, the callee, copy out. -/
def translatedCall (host : HostBlock t fs) (scratch : WasmBlock fs)
    (writes : (i : Fin fs.length) → Option (BitVec fs[i].wasmBits)) : HostBlock t fs :=
  cleanupCopy (calleeWrites writes (translatorCopy host scratch)) host

/-- A field the callee did not store to keeps its value, and one it did store to
has the callee's. -/
structure Lossless (host : HostBlock t fs)
    (writes : (i : Fin fs.length) → Option (BitVec fs[i].wasmBits)) (after : HostBlock t fs) :
    Prop where
  untouched : ∀ i, writes i = none → after i = host i
  stored : ∀ i v, writes i = some v → after i = fs[i].toHost t v

/-- The value of a host field is one of wasm's type for the field, and no
signalling NaN on i386. -/
def FieldType.FitsWasm (f : FieldType) (v : BitVec (f.hostBits t)) : Prop :=
  WordExtension.Fits f.isSigned f.wasmBits v ∧ ¬ f.Signals t v

variable {host : HostBlock t fs} {scratch : WasmBlock fs}
  {writes : (i : Fin fs.length) → Option (BitVec fs[i].wasmBits)}

theorem translatorCopy_apply (i : Fin fs.length) :
    translatorCopy host scratch i = copyIn fs[i] (host i) := by
  rw [translatorCopy, assignFields_apply, if_pos (List.mem_finRange i)]

theorem cleanupCopy_apply (i : Fin fs.length) :
    cleanupCopy scratch host i = copyOut t fs[i] (scratch i) := by
  rw [cleanupCopy, assignFields_apply, if_pos (List.mem_finRange i)]

section
open WordExtension FloatWord

/-- A value is stored as it is unless it is a signalling NaN. -/
theorem copyOut_eq_toHost {f : FieldType} {v : BitVec f.wasmBits} :
    copyOut t f v = f.toHost t v ↔ ¬ f.Signals t v := by
  cases t with
  | x86_64 => exact iff_of_true rfl not_false
  | i386 =>
    cases f with
    | scalar type => exact iff_of_true rfl not_false
    | float => exact convert_quieted (w := 32) (by decide) (by decide)
    | double => exact convert_quieted (w := 64) (by decide) (by decide)

theorem copyOut_copyIn {f : FieldType} {v : BitVec (f.hostBits t)} :
    copyOut t f (copyIn f v) = v ↔ f.FitsWasm v := by
  cases t with
  | x86_64 =>
    refine (convert_convert_eq_self (f.wasmBits_le_hostBits .x86_64)).trans ?_
    exact (and_iff_left not_false).symm
  | i386 =>
    cases f with
    | scalar type =>
      refine (convert_convert_eq_self (FieldType.wasmBits_le_hostBits .i386 _)).trans ?_
      exact (and_iff_left not_false).symm
    | float => exact convert_quieted_twice (w := 32) (by decide) (by decide)
    | double => exact convert_quieted_twice (w := 64) (by decide) (by decide)

end

/-- For every struct, every contents of its block and every wasm call: the
translation loses nothing exactly when each field the callee left alone holds a
value of wasm's type for it, and on i386 no floating-point field, left alone or
stored to, a signalling NaN. -/
theorem translation_lossless_iff (host : HostBlock t fs) (scratch : WasmBlock fs)
    (writes : (i : Fin fs.length) → Option (BitVec fs[i].wasmBits)) :
    Lossless host writes (translatedCall host scratch writes) ↔
      (∀ i, writes i = none → fs[i].FitsWasm (host i)) ∧
        ∀ i v, writes i = some v → ¬ fs[i].Signals t v := by
  have after : ∀ i, translatedCall host scratch writes i =
      copyOut t fs[i] ((writes i).getD (copyIn fs[i] (host i))) := by
    intro i
    rw [translatedCall, cleanupCopy_apply, calleeWrites, translatorCopy_apply]
  constructor
  · intro lossless
    refine ⟨fun i alone => ?_, fun i v stored => ?_⟩
    · have kept := lossless.untouched i alone
      rw [after, alone] at kept
      exact copyOut_copyIn.mp kept
    · have kept := lossless.stored i v stored
      rw [after, stored] at kept
      exact copyOut_eq_toHost.mp kept
  · rintro ⟨fits, quiet⟩
    refine ⟨fun i alone => ?_, fun i v stored => ?_⟩
    · rw [after, alone]
      exact copyOut_copyIn.mpr (fits i alone)
    · rw [after, stored]
      exact copyOut_eq_toHost.mpr (quiet i v stored)

end Copies

/-- `avail_in` and `total_in` of a `z_stream`. -/
def streamCounts : List FieldType := [.scalar .uint, .scalar .ulong]

/-- Five bytes over four gigabytes read so far. -/
def longStream : HostBlock .i386 streamCounts
  | ⟨0, _⟩ => 16#32
  | ⟨1, _⟩ => 0x100000005#64

/-- A call that uses up the input and leaves `total_in` alone. -/
def usesInput : (i : Fin streamCounts.length) → Option (BitVec streamCounts[i].wasmBits)
  | ⟨0, _⟩ => some 0#32
  | ⟨1, _⟩ => none

/-- After it, `total_in` is 5. -/
theorem total_in_truncated :
    ¬ Lossless longStream usesInput (translatedCall longStream (fun _ => 0) usesInput) := by
  intro lossless
  exact absurd (lossless.untouched ⟨1, by decide⟩ rfl) (by decide)

end RlboxDynamic
