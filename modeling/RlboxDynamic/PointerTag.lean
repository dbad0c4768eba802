import RlboxDynamic.HighBit

/-! Pointer values of the meta sandbox. One `T_PointerType` value names a byte
of either backend: the high bit says which one, and a wasm offset may also
arrive without it. -/
namespace RlboxDynamic

/-- The two native targets the sources build for. -/
inductive Target where
  | i386
  | x86_64
  deriving DecidableEq, Repr

/-- `sizeof(T_PointerType) * CHAR_BIT`, the width of `uintptr_t` and `size_t`. -/
@[reducible] def Target.ptrBits : Target → Nat
  | .i386 => 32
  | .x86_64 => 64

theorem Target.ptrBits_pos (t : Target) : 0 < t.ptrBits := by cases t <;> simp [ptrBits]

theorem Target.ptrBits_le (t : Target) : t.ptrBits ≤ 64 := by cases t <;> simp [ptrBits]

theorem Target.le_ptrBits (t : Target) : 32 ≤ t.ptrBits := by cases t <;> simp [ptrBits]

/-- `meta_backend`: which underlying backend handles a given invoke. -/
inductive MetaBackend where
  | process
  | wasm
  deriving DecidableEq, Repr

/-- `rlbox_process_sandbox::T_PointerType`, which the meta sandbox shares. -/
abbrev TPointer (t : Target) := BitVec t.ptrBits

/-- A pointer comes back from the 64-bit slot it travels in. -/
@[simp] theorem setWidth_wire {t : Target} (p : TPointer t) :
    (p.setWidth 64).setWidth t.ptrBits = p := by
  rw [BitVec.setWidth_setWidth_of_le _ t.ptrBits_le, BitVec.setWidth_eq]

/-- `size_t` of the build. -/
abbrev SizeT (t : Target) := BitVec t.ptrBits

/-- `rlbox_wasm2c_sandbox::T_PointerType`, a `uint32_t` offset. -/
abbrev WasmPointer := BitVec 32

/-- `META_TAG_WASM`, also the tag mask. -/
def metaTagWasm (t : Target) : TPointer t := highBit t.ptrBits

abbrev metaTagMask (t : Target) : TPointer t := metaTagWasm t

/-- `p & META_TAG_MASK`, read as a condition. -/
def Tagged {t : Target} (p : TPointer t) : Prop := p &&& metaTagMask t ≠ 0#t.ptrBits

instance {t : Target} (p : TPointer t) : Decidable (Tagged p) :=
  inferInstanceAs (Decidable (_ ≠ _))

def tagOwner {t : Target} (p : TPointer t) : MetaBackend := if Tagged p then .wasm else .process

def tagStrip {t : Target} (p : TPointer t) : TPointer t := p &&& ~~~ metaTagMask t

def tagWasm {t : Target} (p : TPointer t) : TPointer t := p ||| metaTagWasm t

/-- `static_cast<T_PointerType>` of a wasm offset. -/
def widen (t : Target) (offset : WasmPointer) : TPointer t := offset.setWidth t.ptrBits

/-- `static_cast<rlbox_wasm2c_sandbox::T_PointerType>` of a meta pointer. -/
def narrow {t : Target} (p : TPointer t) : WasmPointer := p.setWidth 32

variable {t : Target} {p q : TPointer t} {offset : WasmPointer}

theorem tagged_iff : Tagged p ↔ p.msb = true := by
  rw [Tagged, ne_eq, metaTagMask, metaTagWasm, HighBit.and_highBit_eq_zero, Bool.not_eq_false]

theorem not_tagged_iff : ¬ Tagged p ↔ p.msb = false := by
  rw [tagged_iff, Bool.not_eq_true]

@[simp] theorem tagged_tagWasm : Tagged (tagWasm p) :=
  tagged_iff.mpr (HighBit.msb_set t.ptrBits_pos)

@[simp] theorem not_tagged_tagStrip : ¬ Tagged (tagStrip p) := not_tagged_iff.mpr HighBit.msb_clear

@[simp] theorem not_tagged_zero : ¬ Tagged (0#t.ptrBits) := by simp [Tagged]

@[simp] theorem tagStrip_tagWasm : tagStrip (tagWasm p) = tagStrip p := HighBit.clear_set

@[simp] theorem tagWasm_tagStrip : tagWasm (tagStrip p) = tagWasm p := HighBit.set_clear

theorem tagStrip_le : (tagStrip p).toNat ≤ p.toNat := by
  rw [tagStrip, BitVec.toNat_and]
  exact Nat.and_le_left

theorem tagStrip_eq_self : tagStrip p = p ↔ ¬ Tagged p :=
  HighBit.clear_eq_self.trans not_tagged_iff.symm

theorem tagWasm_eq_self (tagged : Tagged p) : tagWasm p = p :=
  HighBit.set_eq_self (tagged_iff.mp tagged)

/-- On a tagged pointer, putting the tag back undoes taking it off. -/
theorem tagWasm_strip_of_tagged (tagged : Tagged p) : tagWasm (tagStrip p) = p := by
  rw [tagWasm_tagStrip, tagWasm_eq_self tagged]

theorem tagged_ne_zero (tagged : Tagged p) : p ≠ 0#t.ptrBits := by
  rintro rfl
  exact not_tagged_zero tagged

@[simp] theorem tagWasm_ne_zero : tagWasm p ≠ 0#t.ptrBits := tagged_ne_zero tagged_tagWasm

theorem tagOwner_eq_process : tagOwner p = .process ↔ ¬ Tagged p := by
  unfold tagOwner; split <;> simp_all

theorem not_tagged_of_lt (bound : 2 * p.toNat < 2 ^ t.ptrBits) : ¬ Tagged p :=
  not_tagged_iff.mpr (HighBit.clear_of_toNat_lt bound)

theorem widen_toNat : (widen t offset).toNat = offset.toNat := by
  have wide := t.le_ptrBits
  rw [widen, BitVec.toNat_setWidth]
  exact Nat.mod_eq_of_lt (Nat.lt_of_lt_of_le offset.isLt (Nat.pow_le_pow_right (by omega) wide))

theorem widen_injective : Function.Injective (widen t) := by
  intro a b same
  apply BitVec.eq_of_toNat_eq
  rw [← widen_toNat (t := t), same, widen_toNat]

@[simp] theorem widen_eq_zero : widen t offset = 0#t.ptrBits ↔ offset = 0#32 := by
  rw [← BitVec.toNat_inj, ← BitVec.toNat_inj, widen_toNat]
  simp

@[simp] theorem narrow_widen : narrow (widen t offset) = offset := by
  apply BitVec.eq_of_toNat_eq
  rw [narrow, BitVec.toNat_setWidth, widen_toNat, Nat.mod_eq_of_lt offset.isLt]

private theorem narrow_tagWasm_bit (i : Nat) (low : i < 32) :
    (narrow (tagWasm (widen t offset))).getLsbD i =
      (offset.getLsbD i || decide (i + 1 = t.ptrBits)) := by
  have inside : i < t.ptrBits := Nat.lt_of_lt_of_le low t.le_ptrBits
  rw [narrow, BitVec.getLsbD_setWidth, tagWasm, metaTagWasm, HighBit.set_getLsbD, widen,
    BitVec.getLsbD_setWidth]
  simp [low, inside]

/-- The narrowing conversion to an offset drops the tag on a 64-bit target, and
keeps it on a 32-bit one. -/
theorem narrow_tagWasm_widen :
    narrow (tagWasm (widen t offset)) = offset ↔ t = .x86_64 ∨ Tagged (widen t offset) := by
  cases t with
  | i386 =>
    have same : widen .i386 offset = offset := BitVec.setWidth_eq offset
    have kept : narrow (tagWasm (widen .i386 offset)) = offset ||| highBit 32 := by
      rw [same]
      exact BitVec.setWidth_eq _
    rw [kept, same, tagged_iff]
    simp only [reduceCtorEq, false_or]
    constructor
    · intro fixed
      rw [← fixed]
      exact HighBit.msb_set (by simp)
    · exact HighBit.set_eq_self
  | x86_64 =>
    simp only [true_or, iff_true]
    apply BitVec.eq_of_getLsbD_eq
    intro i low
    have high : i + 1 ≠ Target.ptrBits .x86_64 := by
      simp only [Target.ptrBits]
      omega
    rw [narrow_tagWasm_bit i low, decide_eq_false high, Bool.or_false]

/-- The resolver `impl_get_unsandboxed_pointer` asks, and with what. -/
inductive Resolved (t : Target) where
  | null
  | wasm (offset : WasmPointer)
  | process (address : TPointer t)
  deriving DecidableEq

/-- The backend whose resolver is asked, where one is. -/
def Resolved.backend : Resolved t → Option MetaBackend
  | .null => none
  | .wasm _ => some .wasm
  | .process _ => some .process

/-- An untagged value below wasm's total memory is taken for an offset that
lost its tag; every other untagged value is a process address. -/
def implGetUnsandboxedPointer (wasmTotalMemory : Nat) (p : TPointer t) : Resolved t :=
  if p = 0#t.ptrBits then .null
  else if Tagged p then .wasm (narrow (tagStrip p))
  else if p.toNat < wasmTotalMemory then .wasm (narrow p)
  else .process p

theorem tagged_resolves_in_wasm (wasmTotalMemory : Nat) (tagged : Tagged p) :
    (implGetUnsandboxedPointer wasmTotalMemory p).backend = some .wasm := by
  simp [implGetUnsandboxedPointer, tagged_ne_zero tagged, tagged, Resolved.backend]

theorem resolves_in_process_iff (wasmTotalMemory : Nat) (nonNull : p ≠ 0#t.ptrBits) :
    (implGetUnsandboxedPointer wasmTotalMemory p).backend = some .process ↔
      ¬ Tagged p ∧ wasmTotalMemory ≤ p.toNat := by
  unfold implGetUnsandboxedPointer
  rw [if_neg nonNull]
  by_cases tagged : Tagged p
  · simp [tagged, Resolved.backend]
  · by_cases low : p.toNat < wasmTotalMemory
    · simp [tagged, low, Resolved.backend]
    · simp [tagged, low, Resolved.backend]
      omega

end RlboxDynamic
