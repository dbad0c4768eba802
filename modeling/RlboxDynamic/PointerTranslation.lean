import RlboxDynamic.PointerTag

/-! Pointer translation in both directions. A host address of either backend
has one sandboxed spelling without the tag; resolving it finds the backend
again by comparing the value with wasm's memory. -/
namespace RlboxDynamic

/-- What the meta sandbox calls of `rlbox_wasm2c_sandbox` to translate. -/
structure Wasm2cPointers (t : Target) where
  totalMemory : SizeT t
  getUnsandboxedPointer : WasmPointer → TPointer t
  getSandboxedPointer : TPointer t → WasmPointer
  isPointerInSandboxMemory : TPointer t → Bool

/-- The linear memory is one mapping at `heapBase`, of at most the bytes an
offset can name. -/
structure Wasm2cPointers.Linear {t : Target} (wasm : Wasm2cPointers t) (heapBase : TPointer t) :
    Prop where
  unsandboxed : ∀ offset : WasmPointer, offset.toNat < wasm.totalMemory.toNat →
    (wasm.getUnsandboxedPointer offset).toNat = heapBase.toNat + offset.toNat
  sandboxed : ∀ (h : TPointer t) (offset : WasmPointer), offset.toNat < wasm.totalMemory.toNat →
    h.toNat = heapBase.toNat + offset.toNat → wasm.getSandboxedPointer h = offset
  membership : ∀ h, wasm.isPointerInSandboxMemory h = true ↔
    heapBase.toNat ≤ h.toNat ∧ h.toNat < heapBase.toNat + wasm.totalMemory.toNat
  mapped : heapBase ≠ 0#t.ptrBits
  offsets : wasm.totalMemory.toNat ≤ 2 ^ 32

namespace Process
variable {t : Target}

/-! The process backend maps its region at the same address on both sides. -/

def implGetUnsandboxedPointer (p : TPointer t) : TPointer t := p

def implGetSandboxedPointer (h : TPointer t) : TPointer t := h

end Process

/-- The region of a process sandbox in the host, `shared_memory_local_base` and
`shared_memory_size`. -/
structure ProcessRegion (t : Target) where
  base : TPointer t
  size : SizeT t

def ProcessRegion.Contains {t : Target} (region : ProcessRegion t) (h : TPointer t) : Prop :=
  region.base.toNat ≤ h.toNat ∧ h.toNat < region.base.toNat + region.size.toNat

/-- Where the region lies: numerically above wasm's offsets, below the tag, and
apart from the other live mapping. -/
structure ProcessRegion.Placed {t : Target} (region : ProcessRegion t) (wasm : Wasm2cPointers t) :
    Prop where
  aboveOffsets : wasm.totalMemory.toNat ≤ region.base.toNat
  belowTag : region.base.toNat + region.size.toNat ≤ (metaTagWasm t).toNat
  apart : ∀ h, region.Contains h → wasm.isPointerInSandboxMemory h = false

section Translation
variable {t : Target} (wasm : Wasm2cPointers t)

/-- The host address `impl_get_unsandboxed_pointer` of the meta sandbox gives. -/
def unsandboxedPointer (p : TPointer t) : TPointer t :=
  match implGetUnsandboxedPointer wasm.totalMemory.toNat p with
  | .null => 0#t.ptrBits
  | .wasm offset => wasm.getUnsandboxedPointer offset
  | .process address => Process.implGetUnsandboxedPointer address

/-- `impl_get_sandboxed_pointer` of the meta sandbox. It puts no tag on. -/
def implGetSandboxedPointer (h : TPointer t) : TPointer t :=
  if wasm.isPointerInSandboxMemory h then widen t (wasm.getSandboxedPointer h)
  else Process.implGetSandboxedPointer h

/-- The pointer values that name a byte: an offset of wasm's memory with the
tag or without it, an address of the process region, and null. -/
inductive Valid (region : ProcessRegion t) : TPointer t → Prop where
  | tagged (tag : Tagged p) (inside : (tagStrip p).toNat < wasm.totalMemory.toNat) : Valid region p
  | offset (noTag : ¬ Tagged p) (inside : p.toNat < wasm.totalMemory.toNat) : Valid region p
  | process (inside : region.Contains p) : Valid region p
  | null : Valid region 0#t.ptrBits

end Translation

theorem two_mul_metaTagWasm {t : Target} : 2 * (metaTagWasm t).toNat = 2 ^ t.ptrBits := by
  cases t <;> rfl

theorem widen_narrow {t : Target} {p : TPointer t} (small : p.toNat < 2 ^ 32) :
    widen t (narrow p) = p := by
  apply BitVec.eq_of_toNat_eq
  rw [widen_toNat, narrow, BitVec.toNat_setWidth, Nat.mod_eq_of_lt small]

theorem narrow_toNat {t : Target} {p : TPointer t} (small : p.toNat < 2 ^ 32) :
    (narrow p).toNat = p.toNat := by
  rw [narrow, BitVec.toNat_setWidth, Nat.mod_eq_of_lt small]

section
variable {t : Target} {wasm : Wasm2cPointers t} {heapBase h p : TPointer t} {region : ProcessRegion t}
  {offset : WasmPointer}

/-- An address of wasm's memory is one offset. -/
theorem Wasm2cPointers.Linear.offset_of_mem (linear : wasm.Linear heapBase)
    (inside : wasm.isPointerInSandboxMemory h = true) :
    ∃ offset : WasmPointer, offset.toNat < wasm.totalMemory.toNat ∧
      h.toNat = heapBase.toNat + offset.toNat := by
  obtain ⟨low, high⟩ := (linear.membership h).mp inside
  have bound := linear.offsets
  refine ⟨BitVec.ofNat 32 (h.toNat - heapBase.toNat), ?_⟩
  rw [BitVec.toNat_ofNat, Nat.mod_eq_of_lt (by omega)]
  omega

theorem Wasm2cPointers.Linear.mem (linear : wasm.Linear heapBase)
    (inside : offset.toNat < wasm.totalMemory.toNat) :
    wasm.isPointerInSandboxMemory (wasm.getUnsandboxedPointer offset) = true := by
  rw [linear.membership, linear.unsandboxed offset inside]
  omega

theorem Wasm2cPointers.Linear.sandboxed_unsandboxed (linear : wasm.Linear heapBase)
    (inside : offset.toNat < wasm.totalMemory.toNat) :
    implGetSandboxedPointer wasm (wasm.getUnsandboxedPointer offset) = widen t offset := by
  rw [implGetSandboxedPointer, if_pos (linear.mem inside),
    linear.sandboxed _ offset inside (linear.unsandboxed offset inside)]

/-- Below a placed region no offset reaches the tag. -/
theorem ProcessRegion.Placed.offset_untagged (placed : region.Placed wasm)
    (inside : offset.toNat < wasm.totalMemory.toNat) : ¬ Tagged (widen t offset) := by
  apply not_tagged_of_lt
  have above := placed.aboveOffsets
  have below := placed.belowTag
  have tag := two_mul_metaTagWasm (t := t)
  rw [widen_toNat]
  omega

theorem ProcessRegion.Placed.address_untagged (placed : region.Placed wasm)
    (inside : region.Contains h) : ¬ Tagged h := by
  apply not_tagged_of_lt
  have below := placed.belowTag
  have tag := two_mul_metaTagWasm (t := t)
  obtain ⟨-, high⟩ := inside
  omega

/-! Which resolver each spelling reaches. -/

theorem unsandboxedPointer_tagged (tag : Tagged p) :
    unsandboxedPointer wasm p = wasm.getUnsandboxedPointer (narrow (tagStrip p)) := by
  simp [unsandboxedPointer, implGetUnsandboxedPointer, tag, tagged_ne_zero tag]

theorem unsandboxedPointer_offset (nonNull : p ≠ 0#t.ptrBits) (noTag : ¬ Tagged p)
    (inside : p.toNat < wasm.totalMemory.toNat) :
    unsandboxedPointer wasm p = wasm.getUnsandboxedPointer (narrow p) := by
  simp [unsandboxedPointer, implGetUnsandboxedPointer, nonNull, noTag, inside]

theorem unsandboxedPointer_process (noTag : ¬ Tagged p)
    (above : wasm.totalMemory.toNat ≤ p.toNat) : unsandboxedPointer wasm p = p := by
  by_cases null : p = 0#t.ptrBits
  · simp [unsandboxedPointer, implGetUnsandboxedPointer, null]
  · simp [unsandboxedPointer, implGetUnsandboxedPointer, null, noTag, Nat.not_lt.mpr above,
      Process.implGetUnsandboxedPointer]

theorem sandboxed_of_process (outside : wasm.isPointerInSandboxMemory h = false) :
    implGetSandboxedPointer wasm h = h := by
  rw [implGetSandboxedPointer, if_neg (by simp [outside])]
  rfl

theorem unsandboxed_sandboxed_wasm (linear : wasm.Linear heapBase) (placed : region.Placed wasm)
    (inside : wasm.isPointerInSandboxMemory h = true) (nonZero : h ≠ heapBase) :
    unsandboxedPointer wasm (implGetSandboxedPointer wasm h) = h := by
  obtain ⟨offset, bound, address⟩ := linear.offset_of_mem inside
  have spelled : implGetSandboxedPointer wasm h = widen t offset := by
    rw [implGetSandboxedPointer, if_pos inside, linear.sandboxed h offset bound address]
  have nonNull : widen t offset ≠ 0#t.ptrBits := by
    rw [ne_eq, widen_eq_zero]
    rintro rfl
    exact nonZero (BitVec.eq_of_toNat_eq address)
  rw [spelled, unsandboxedPointer_offset nonNull (placed.offset_untagged bound)
    (by rw [widen_toNat]; exact bound), narrow_widen]
  apply BitVec.eq_of_toNat_eq
  rw [linear.unsandboxed offset bound, address]

theorem unsandboxed_tag_sandboxed_wasm (linear : wasm.Linear heapBase) (placed : region.Placed wasm)
    (inside : wasm.isPointerInSandboxMemory h = true) :
    unsandboxedPointer wasm (tagWasm (implGetSandboxedPointer wasm h)) = h := by
  obtain ⟨offset, bound, address⟩ := linear.offset_of_mem inside
  have spelled : implGetSandboxedPointer wasm h = widen t offset := by
    rw [implGetSandboxedPointer, if_pos inside, linear.sandboxed h offset bound address]
  rw [spelled, unsandboxedPointer_tagged tagged_tagWasm, tagStrip_tagWasm,
    tagStrip_eq_self.mpr (placed.offset_untagged bound), narrow_widen]
  apply BitVec.eq_of_toNat_eq
  rw [linear.unsandboxed offset bound, address]

theorem unsandboxed_sandboxed_process (placed : region.Placed wasm) (inside : region.Contains h) :
    unsandboxedPointer wasm (implGetSandboxedPointer wasm h) = h := by
  rw [sandboxed_of_process (placed.apart h inside)]
  exact unsandboxedPointer_process (placed.address_untagged inside)
    (Nat.le_trans placed.aboveOffsets inside.1)

theorem sandboxed_null (linear : wasm.Linear heapBase) :
    implGetSandboxedPointer wasm 0#t.ptrBits = 0#t.ptrBits := by
  apply sandboxed_of_process
  rw [Bool.eq_false_iff, ne_eq, linear.membership]
  rintro ⟨low, -⟩
  exact linear.mapped (BitVec.eq_of_toNat_eq (by simpa using low))

/-- Sandboxing what a valid pointer value resolves to gives the value back
without its tag. -/
theorem sandboxed_unsandboxed (linear : wasm.Linear heapBase) (placed : region.Placed wasm)
    (valid : Valid wasm region p) :
    implGetSandboxedPointer wasm (unsandboxedPointer wasm p) = tagStrip p := by
  have offsets := linear.offsets
  cases valid with
  | tagged tag inside =>
    have small : (tagStrip p).toNat < 2 ^ 32 := by omega
    rw [unsandboxedPointer_tagged tag, linear.sandboxed_unsandboxed (by rwa [narrow_toNat small]),
      widen_narrow small]
  | offset noTag inside =>
    have small : p.toNat < 2 ^ 32 := by omega
    rw [tagStrip_eq_self.mpr noTag]
    by_cases null : p = 0#t.ptrBits
    · subst null
      exact sandboxed_null linear
    · rw [unsandboxedPointer_offset null noTag inside,
        linear.sandboxed_unsandboxed (by rwa [narrow_toNat small]), widen_narrow small]
  | process inside =>
    have noTag := placed.address_untagged inside
    rw [unsandboxedPointer_process noTag (Nat.le_trans placed.aboveOffsets inside.1),
      sandboxed_of_process (placed.apart p inside), tagStrip_eq_self.mpr noTag]
  | null =>
    rw [tagStrip_eq_self.mpr not_tagged_zero]
    exact sandboxed_null linear

/-- For every wasm memory and every region placed above its offsets and below
the tag: a host address comes back from its sandboxed spelling, in wasm's
memory also from the tagged one, and a valid pointer value comes back from its
host address without its tag. -/
theorem pointer_translation_round_trip (linear : wasm.Linear heapBase)
    (placed : region.Placed wasm) :
    (∀ h, region.Contains h ∨ wasm.isPointerInSandboxMemory h = true ∧ h ≠ heapBase →
      unsandboxedPointer wasm (implGetSandboxedPointer wasm h) = h) ∧
    (∀ h, wasm.isPointerInSandboxMemory h = true →
      unsandboxedPointer wasm (tagWasm (implGetSandboxedPointer wasm h)) = h) ∧
    ∀ p, Valid wasm region p →
      implGetSandboxedPointer wasm (unsandboxedPointer wasm p) = tagStrip p := by
  refine ⟨fun h inside => ?_, fun h inside => unsandboxed_tag_sandboxed_wasm linear placed inside,
    fun p valid => sandboxed_unsandboxed linear placed valid⟩
  rcases inside with process | ⟨wasmSide, nonZero⟩
  · exact unsandboxed_sandboxed_process placed process
  · exact unsandboxed_sandboxed_wasm linear placed wasmSide nonZero

end

/-- A linear memory of two pages, as wasm2c keeps it. -/
def twoPages : Wasm2cPointers .i386 where
  totalMemory := 0x20000#32
  getUnsandboxedPointer offset := 0x90000000#32 + offset
  getSandboxedPointer h := h - 0x90000000#32
  isPointerInSandboxMemory h := decide (0x90000000#32 ≤ h ∧ h < 0x90020000#32)

theorem twoPages_linear : twoPages.Linear 0x90000000#32 where
  unsandboxed offset inside := by
    change offset.toNat < 0x20000 at inside
    change (0x90000000#32 + offset).toNat = (0x90000000#32).toNat + offset.toNat
    bv_omega
  sandboxed h offset inside address := by
    change BitVec 32 at h
    change offset.toNat < 0x20000 at inside
    change h.toNat = (0x90000000#32).toNat + offset.toNat at address
    change h - 0x90000000#32 = offset
    bv_omega
  membership h := by
    change BitVec 32 at h
    change decide (0x90000000#32 ≤ h ∧ h < 0x90020000#32) = true ↔
      (0x90000000#32).toNat ≤ h.toNat ∧ h.toNat < (0x90000000#32).toNat + 0x20000
    rw [decide_eq_true_iff]
    bv_omega
  mapped := by decide
  offsets := by decide

/-- The region of a process sandbox just above the two pages' offsets. -/
def regionAboveTwoPages : ProcessRegion .i386 := ⟨0x20000#32, 0x1000#32⟩

theorem regionAboveTwoPages_placed : regionAboveTwoPages.Placed twoPages where
  aboveOffsets := by decide
  belowTag := by decide
  apart h inside := by
    obtain ⟨low, high⟩ := inside
    change h.toNat < 0x20000 + 0x1000 at high
    simp only [twoPages, decide_eq_false_iff_not]
    bv_omega

/-- The last byte of the two pages and the first of the region, numerically one
apart. -/
theorem round_trip_at_boundary :
    unsandboxedPointer twoPages (implGetSandboxedPointer twoPages 0x9001FFFF#32) = 0x9001FFFF#32 ∧
      unsandboxedPointer twoPages (implGetSandboxedPointer twoPages 0x20000#32) = 0x20000#32 :=
  have both := (pointer_translation_round_trip twoPages_linear regionAboveTwoPages_placed).1
  ⟨both _ (.inr ⟨by decide, by decide⟩), both _ (.inl ⟨by decide, by decide⟩)⟩

end RlboxDynamic
