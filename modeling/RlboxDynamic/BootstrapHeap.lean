import RlboxDynamic.ByteMemory
import RlboxDynamic.MaskRounding
import RlboxDynamic.PointerTag

/-! The shim's allocator while there is no mspace: blocks are cut off a static
buffer one after another, each behind a word with its size. -/
namespace RlboxDynamic.BootstrapHeap
open ByteMemory MaskRounding StructLayout

variable {t : Target}

/-- `sizeof(size_t)`. -/
def sizeofSizeT : Target → Nat
  | .i386 => 4
  | .x86_64 => 8

/-- `sizeof(g_bootstrap_buf)`. -/
def bufBytes : Nat := 4096

/-- Where `g_bootstrap_buf` is, an object of its size with `alignas(8)`. -/
structure BootstrapBuf (t : Target) where
  base : TPointer t
  aligned : 8 ∣ base.toNat
  positive : 0 < base.toNat
  fits : base.toNat + bufBytes < 2 ^ t.ptrBits

/-- A buffer on the second page. -/
def secondPage (t : Target) : BootstrapBuf t where
  base := 4096
  aligned := by cases t <;> decide
  positive := by cases t <;> decide
  fits := by cases t <;> decide

def BootstrapBuf.range (buf : BootstrapBuf t) : AddressRange := ⟨buf.base.toNat, bufBytes⟩

/-- `ptr >= g_bootstrap_buf && ptr < g_bootstrap_buf + sizeof(g_bootstrap_buf)`. -/
def BootstrapBuf.Has (buf : BootstrapBuf t) (ptr : TPointer t) : Prop :=
  buf.base ≤ ptr ∧ ptr < buf.base + BitVec.ofNat _ bufBytes

instance (buf : BootstrapBuf t) (ptr : TPointer t) : Decidable (buf.Has ptr) :=
  inferInstanceAs (Decidable (_ ∧ _))

/-- A block as `malloc` was asked for it. -/
structure Block (t : Target) where
  addr : TPointer t
  size : SizeT t
  deriving DecidableEq

/-- The bytes its owner may use. -/
def Block.range (b : Block t) : AddressRange := ⟨b.addr.toNat, b.size.toNat⟩

/-- `(size_t*)ptr - 1`. -/
def Block.header (b : Block t) : TPointer t := b.addr - BitVec.ofNat _ (sizeofSizeT t)

def Block.headerRange (b : Block t) : AddressRange := ⟨b.header.toNat, sizeofSizeT t⟩

/-- Memory and `g_bootstrap_offset`. The blocks are those granted so far, in
order; no function reads them. -/
structure Heap (t : Target) where
  memory : Memory t.ptrBits
  offset : SizeT t
  blocks : List (Block t)

/-- Nothing is allocated yet. -/
def Heap.start (memory : Memory t.ptrBits) : Heap t := ⟨memory, 0, []⟩

def totalNeeded (size : SizeT t) : SizeT t :=
  ((size + 7) &&& ~~~7) + BitVec.ofNat _ (sizeofSizeT t)

/-- The block at the offset, and the heap with its header written. -/
def grant (buf : BootstrapBuf t) (size : SizeT t) (h : Heap t) : TPointer t × Heap t :=
  let raw := buf.base + h.offset
  let ptr := raw + BitVec.ofNat _ (sizeofSizeT t)
  (ptr, { memory := storeWord h.memory raw (sizeofSizeT t) size
          offset := h.offset + totalNeeded size
          blocks := h.blocks ++ [⟨ptr, size⟩] })

/-- `malloc`, on its way through the bootstrap buffer. -/
def malloc (buf : BootstrapBuf t) (size : SizeT t) (h : Heap t) : TPointer t × Heap t :=
  if size = 0 then (0, h)
  else if BitVec.ofNat _ bufBytes < h.offset + totalNeeded size then (0, h)
  else grant buf size h

/-- `free`. There is no mspace to give the pointer to either. -/
def free (_ptr : TPointer t) (h : Heap t) : Heap t := h

/-- `calloc`. -/
def calloc (buf : BootstrapBuf t) (nmemb size : SizeT t) (h : Heap t) : TPointer t × Heap t :=
  if 0 < nmemb ∧ BitVec.allOnes _ / nmemb < size then (0, h)
  else
    let total := nmemb * size
    let (ptr, h) := malloc buf total h
    if ptr ≠ 0 then (ptr, { h with memory := memset h.memory ptr 0 total.toNat }) else (ptr, h)

/-- `realloc`. -/
def realloc (buf : BootstrapBuf t) (ptr : TPointer t) (size : SizeT t) (h : Heap t) :
    TPointer t × Heap t :=
  if ptr = 0 then malloc buf size h
  else if size = 0 then (0, free ptr h)
  else if buf.Has ptr then
    let oldSize : SizeT t :=
      loadWord _ h.memory (ptr - BitVec.ofNat _ (sizeofSizeT t)) (sizeofSizeT t)
    let (newPtr, h) := malloc buf size h
    if newPtr ≠ 0 then
      let n := if oldSize < size then oldSize else size
      (newPtr, { h with memory := memcpy h.memory newPtr ptr n.toNat })
    else (newPtr, h)
  else (0, h)

/-! ## The arithmetic of a request -/

/-- Where a request for `n` bytes at offset `o` would end, in numbers. -/
def ending (t : Target) (o n : Nat) : Nat := o + alignUp 8 n + sizeofSizeT t

/-- The buffer has room for the request. -/
def Fits (t : Target) (o n : Nat) : Prop := ending t o n ≤ bufBytes

/-- The sum passes the end of the word, and what is left of it passes the check. -/
def Wraps (t : Target) (o n : Nat) : Prop :=
  2 ^ t.ptrBits ≤ ending t o n ∧ ending t o n - 2 ^ t.ptrBits ≤ bufBytes

variable {buf : BootstrapBuf t} {size : SizeT t} {h : Heap t} {o n : Nat}

theorem toNat_bufBytes : (BitVec.ofNat t.ptrBits bufBytes).toNat = bufBytes := by
  cases t <;> rfl

theorem toNat_sizeofSizeT : (BitVec.ofNat t.ptrBits (sizeofSizeT t)).toNat = sizeofSizeT t := by
  cases t <;> rfl

theorem toNat_totalNeeded :
    (totalNeeded size).toNat = (alignUp 8 size.toNat + sizeofSizeT t) % 2 ^ t.ptrBits := by
  have eight : (8 : SizeT t).toNat = 8 := by cases t <;> rfl
  have seven : (7 : SizeT t) = 8 - 1 := by cases t <;> rfl
  have power : (8 : SizeT t).toNat = 2 ^ 3 := eight
  have small := size.isLt
  rw [totalNeeded, BitVec.toNat_add, seven, toNat_mask_up power, eight, toNat_sizeofSizeT, alignUp]
  cases t <;> simp only [Target.ptrBits] at small ⊢ <;> omega

theorem toNat_offset_add (size : SizeT t) (h : Heap t) :
    (h.offset + totalNeeded size).toNat = ending t h.offset.toNat size.toNat % 2 ^ t.ptrBits := by
  rw [BitVec.toNat_add, toNat_totalNeeded, Nat.add_mod_mod, ← Nat.add_assoc, ending]

/-- The check passes exactly where there is room or the sum wraps to where there
seems to be. -/
theorem passes_iff (size : SizeT t) (bound : h.offset.toNat ≤ bufBytes) :
    ¬ BitVec.ofNat _ bufBytes < h.offset + totalNeeded size ↔
      Fits t h.offset.toNat size.toNat ∨ Wraps t h.offset.toNat size.toNat := by
  have small := size.isLt
  have rounded := alignUp_lt (a := 8) (n := size.toNat) (by decide)
  rw [BitVec.lt_def, toNat_bufBytes, toNat_offset_add, Fits, Wraps]
  simp only [ending]
  cases t <;> simp only [Target.ptrBits, sizeofSizeT, bufBytes] at * <;> omega

theorem malloc_zero : malloc buf 0 h = (0, h) := if_pos rfl

theorem malloc_granted (some_ : size ≠ 0) (bound : h.offset.toNat ≤ bufBytes)
    (passes : Fits t h.offset.toNat size.toNat ∨ Wraps t h.offset.toNat size.toNat) :
    malloc buf size h = grant buf size h := by
  rw [malloc, if_neg some_, if_neg ((passes_iff size bound).mpr passes)]

theorem malloc_refused (bound : h.offset.toNat ≤ bufBytes)
    (noRoom : ¬ Fits t h.offset.toNat size.toNat) (noWrap : ¬ Wraps t h.offset.toNat size.toNat) :
    malloc buf size h = (0, h) := by
  have passes := (passes_iff size bound).not.mpr (not_or.mpr ⟨noRoom, noWrap⟩)
  rw [malloc, if_pos (Classical.not_not.mp passes), ite_self]

/-- The check before the product keeps it from wrapping, and no other. -/
theorem overflows_iff {nmemb : SizeT t} :
    (0 < nmemb ∧ BitVec.allOnes _ / nmemb < size) ↔
      2 ^ t.ptrBits ≤ nmemb.toNat * size.toNat := by
  have small := size.isLt
  have wide := Nat.two_pow_pos t.ptrBits
  rw [BitVec.lt_def, BitVec.lt_def, BitVec.toNat_udiv, BitVec.toNat_allOnes]
  rcases Nat.eq_zero_or_pos nmemb.toNat with none | some_
  · simp [none]
  · rw [Nat.div_lt_iff_lt_mul some_, Nat.mul_comm]
    simp [some_]
    omega

/-! ## The block granted -/

@[simp] theorem grant_memory :
    (grant buf size h).2.memory = storeWord h.memory (buf.base + h.offset) (sizeofSizeT t) size :=
  rfl

@[simp] theorem grant_blocks :
    (grant buf size h).2.blocks = h.blocks ++ [⟨(grant buf size h).1, size⟩] := rfl

theorem header_grant : Block.header ⟨(grant buf size h).1, size⟩ = buf.base + h.offset :=
  BitVec.add_sub_cancel _ _

section
variable (buf) (room : Fits t h.offset.toNat size.toNat)
include room

theorem toNat_raw : (buf.base + h.offset).toNat = buf.base.toNat + h.offset.toNat := by
  have := buf.fits
  rw [Fits, ending] at room
  rw [BitVec.toNat_add, Nat.mod_eq_of_lt (by omega)]

theorem toNat_ptr :
    (grant buf size h).1.toNat = buf.base.toNat + h.offset.toNat + sizeofSizeT t := by
  have := buf.fits
  have raw := toNat_raw buf room
  rw [Fits, ending] at room
  rw [grant, BitVec.toNat_add, raw, toNat_sizeofSizeT, Nat.mod_eq_of_lt (by omega)]

theorem toNat_offset : (grant buf size h).2.offset.toNat = ending t h.offset.toNat size.toNat := by
  have := buf.fits
  have raw := toNat_offset_add size h
  rw [Fits] at room
  rw [grant, raw, Nat.mod_eq_of_lt (by omega)]

end
end RlboxDynamic.BootstrapHeap
