import RlboxDynamic.BootstrapHeap
import RlboxDynamic.Transition

/-! Calls of the bootstrap allocator in a row, with the stores of its callers
between them: what a sound block is, what each call keeps, and which calls are
sound. -/
namespace RlboxDynamic.BootstrapHeap
open AddressRange ByteMemory StructLayout Transition

variable {t : Target}

/-- A call, or a byte stored by the library. -/
inductive Event (t : Target) where
  | malloc (size : SizeT t)
  | calloc (nmemb size : SizeT t)
  | realloc (ptr : TPointer t) (size : SizeT t)
  | free (ptr : TPointer t)
  | store (addr : TPointer t) (byte : LittleEndian.Byte)

namespace Event

/-- What the event returns, null where it returns nothing, and the heap after. -/
def call (buf : BootstrapBuf t) (h : Heap t) : Event t → TPointer t × Heap t
  | .malloc size => BootstrapHeap.malloc buf size h
  | .calloc nmemb size => BootstrapHeap.calloc buf nmemb size h
  | .realloc ptr size => BootstrapHeap.realloc buf ptr size h
  | .free ptr => (0, BootstrapHeap.free ptr h)
  | .store addr byte => (0, { h with memory := write h.memory addr 1 fun _ => byte })

/-- The bytes the caller asks for. -/
def requested : Event t → Nat
  | .malloc size | .realloc _ size => size.toNat
  | .calloc nmemb size => nmemb.toNat * size.toNat
  | .free _ | .store _ _ => 0

/-- The size the event hands to `malloc`, where it gets there. -/
def asked (buf : BootstrapBuf t) : Event t → Option (SizeT t)
  | .malloc size => some size
  | .calloc nmemb size =>
    if 2 ^ t.ptrBits ≤ nmemb.toNat * size.toNat then none else some (nmemb * size)
  | .realloc ptr size =>
    if ptr = 0 then some size
    else if size = 0 then none
    else if buf.Has ptr then some size
    else none
  | .free _ | .store _ _ => none

/-- The library stores in its own blocks, or elsewhere than in the buffer. -/
def Allowed (buf : BootstrapBuf t) (h : Heap t) : Event t → Prop
  | .store addr _ =>
    (∃ b ∈ h.blocks, addr.toNat ∈ b.range.addresses) ∨ addr.toNat ∉ buf.range.addresses
  | _ => True

end Event

def Step (buf : BootstrapBuf t) (h : Heap t) (e : Event t) (h' : Heap t) : Prop :=
  e.Allowed buf h ∧ (e.call buf h).2 = h'

/-- The block is in the buffer, aligned, and apart from the others and from
every header. -/
structure SoundBlock (buf : BootstrapBuf t) (others : List (Block t)) (b : Block t) : Prop where
  inside : b.range.Inside buf.range
  aligned : 8 ∣ b.addr.toNat
  header : b.range.Apart b.headerRange
  blocks : ∀ other ∈ others, b.range.Apart other.range
  headers : ∀ other ∈ others, b.range.Apart other.headerRange ∧ b.headerRange.Apart other.range

/-- The event grants nothing and returns null, or grants the sound block it
returns; the offset does not go back or leave the buffer; `realloc` keeps the
bytes that both blocks have. -/
structure SoundStep (buf : BootstrapBuf t) (h : Heap t) (e : Event t) (h' : Heap t) : Prop where
  block : ((e.call buf h).1 = 0 ∧ h'.blocks = h.blocks) ∨
    ∃ b, b.addr = (e.call buf h).1 ∧ h'.blocks = h.blocks ++ [b] ∧ e.requested ≤ b.size.toNat ∧
      SoundBlock buf h.blocks b
  offset : h.offset.toNat ≤ h'.offset.toNat ∧ h'.offset.toNat ≤ bufBytes
  kept : ∀ ptr size, e = .realloc ptr size → (e.call buf h).1 ≠ 0 →
    ∀ b ∈ h.blocks, b.addr = ptr → ∀ i < min b.size.toNat size.toNat,
      read h'.memory (e.call buf h).1 i = read h.memory ptr i

/-- A request that is not zero has room only on the target whose header keeps the
alignment, and does not wrap. -/
def Meets (buf : BootstrapBuf t) (h : Heap t) (e : Event t) : Prop :=
  ∀ size, e.asked buf = some size → size ≠ 0 →
    (Fits t h.offset.toNat size.toNat → t = .x86_64) ∧ ¬ Wraps t h.offset.toNat size.toNat

/-! ## What holds between sound calls -/

/-- The header and the block, up to where the next header can be. -/
def Block.slot (b : Block t) : AddressRange :=
  ⟨b.header.toNat, sizeofSizeT t + alignUp 8 b.size.toNat⟩

/-- The slots lie end to end from the start of the buffer to the offset, and
each header has its block's size. -/
structure Laid (buf : BootstrapBuf t) (h : Heap t) : Prop where
  tiles : Tiles buf.base.toNat (h.blocks.map Block.slot) (buf.base.toNat + h.offset.toNat)
  whole : 8 ∣ h.offset.toNat
  bound : h.offset.toNat ≤ bufBytes
  headers : ∀ b ∈ h.blocks, loadWord t.ptrBits h.memory b.header (sizeofSizeT t) = b.size

variable {buf : BootstrapBuf t} {h h' : Heap t} {e : Event t} {b c : Block t} {size : SizeT t}

theorem laid_start (memory : Memory t.ptrBits) : Laid buf (.start memory) where
  tiles := by simp [Heap.start, Tiles]
  whole := by simp [Heap.start]
  bound := by simp [Heap.start]
  headers _ inside := nomatch inside

theorem Block.addr_eq : b.addr = b.header + BitVec.ofNat _ (sizeofSizeT t) := by
  rw [header, BitVec.sub_add_cancel]

namespace Laid

theorem slot_bounds (laid : Laid buf h) (inside : b ∈ h.blocks) :
    buf.base.toNat ≤ b.slot.start ∧ b.slot.stop ≤ buf.base.toNat + h.offset.toNat :=
  ⟨laid.tiles.start_le (List.mem_map_of_mem inside), laid.tiles.stop_le (List.mem_map_of_mem inside)⟩

theorem slot_inside (laid : Laid buf h) (inside : b ∈ h.blocks) : b.slot.Inside buf.range := by
  obtain ⟨begins, ends⟩ := laid.slot_bounds inside
  have bound := laid.bound
  exact inside_of_le begins (by simp only [BootstrapBuf.range, stop] at ends ⊢; omega)

/-- A block begins right behind its header. -/
theorem toNat_addr (laid : Laid buf h) (inside : b ∈ h.blocks) :
    b.addr.toNat = b.header.toNat + sizeofSizeT t := by
  obtain ⟨-, ends⟩ := laid.slot_bounds inside
  have bound := laid.bound
  have fits := buf.fits
  simp only [Block.slot, stop] at ends
  rw [Block.addr_eq, toNat_add_ofNat (by omega)]

theorem range_in_slot (laid : Laid buf h) (inside : b ∈ h.blocks) : b.range.Inside b.slot := by
  have place := laid.toNat_addr inside
  have rounded := le_alignUp (a := 8) (n := b.size.toNat) (by decide)
  apply inside_of_le
  · simp only [Block.range, Block.slot]
    omega
  · simp only [Block.range, Block.slot, stop]
    omega

theorem header_in_slot : b.headerRange.Inside b.slot :=
  inside_of_le (Nat.le_refl _) (by simp only [Block.headerRange, Block.slot, stop]; omega)

theorem slots_apart (laid : Laid buf h) (inside : b ∈ h.blocks) (inside' : c ∈ h.blocks)
    (other : b ≠ c) : b.slot.Apart c.slot :=
  have : Std.Symm fun b c : Block t => b.slot.Apart c.slot := ⟨fun _ _ => Apart.symm⟩
  (List.pairwise_map.mp laid.tiles.pairwise_apart).forall inside inside' other

theorem range_apart_header (laid : Laid buf h) (inside : b ∈ h.blocks) (inside' : c ∈ h.blocks) :
    b.range.Apart c.headerRange := by
  by_cases same : b = c
  · subst same
    have place := laid.toNat_addr inside
    exact (apart_of_le (by simp only [Block.headerRange, Block.range, stop]; omega)).symm
  · exact (laid.slots_apart inside inside' same).mono (laid.range_in_slot inside) header_in_slot

/-- What is written outside the headers leaves the layout. -/
theorem write (laid : Laid buf h) {addr : TPointer t} {n : Nat} (fits : addr.toNat + n ≤ 2 ^ t.ptrBits)
    (clear : ∀ b ∈ h.blocks, (stretch addr n).Apart b.headerRange) (byte : Nat → LittleEndian.Byte) :
    Laid buf { h with memory := ByteMemory.write h.memory addr n byte } where
  tiles := laid.tiles
  whole := laid.whole
  bound := laid.bound
  headers b inside := by
    rw [← laid.headers b inside]
    apply loadWord_congr
    intro i low
    have place := laid.toNat_addr inside
    exact read_write_apart fits (by omega) (clear b inside).symm low

/-! A grant with room. -/

section
variable (laid : Laid buf h) (room : Fits t h.offset.toNat size.toNat)

include room in
variable (buf) in
theorem grant_slot :
    (Block.slot ⟨(grant buf size h).1, size⟩).start = buf.base.toNat + h.offset.toNat ∧
      (Block.slot ⟨(grant buf size h).1, size⟩).stop =
        buf.base.toNat + (grant buf size h).2.offset.toNat := by
  have raw := toNat_raw buf room
  refine ⟨?_, ?_⟩
  · rw [Block.slot, header_grant, raw]
  · rw [toNat_offset buf room, Block.slot, header_grant, raw, ending]
    simp only [stop]
    omega

include laid room

theorem grant (native : t = .x86_64) : Laid buf (grant buf size h).2 where
  tiles := by
    obtain ⟨begins, ends⟩ := grant_slot buf room
    rw [← ends, grant_blocks, List.map_append]
    exact laid.tiles.snoc begins
  whole := by
    have eight : sizeofSizeT t = 8 := by rw [native]; rfl
    rw [toNat_offset buf room, ending, eight]
    exact Nat.dvd_add (Nat.dvd_add laid.whole dvd_alignUp) (Nat.dvd_refl 8)
  bound := by rwa [toNat_offset buf room]
  headers b inside := by
    have raw := toNat_raw buf room
    have fits := buf.fits
    have within : h.offset.toNat + sizeofSizeT t ≤ bufBytes := by
      rw [Fits, ending] at room
      omega
    rw [grant_blocks] at inside
    rcases List.mem_append.mp inside with old | new
    · -- the new header is behind the old slots
      obtain ⟨-, ends⟩ := laid.slot_bounds old
      have place := laid.toNat_addr old
      have apart : b.headerRange.Apart (stretch (buf.base + h.offset) (sizeofSizeT t)) := by
        apply apart_of_le
        simp only [Block.slot, Block.headerRange, stretch, stop] at ends ⊢
        omega
      rw [grant_memory, ← laid.headers b old]
      apply loadWord_congr
      intro i low
      exact read_write_apart (by omega) (by omega) apart low
    · obtain rfl := List.mem_singleton.mp new
      have wide : t.ptrBits ≤ 8 * sizeofSizeT t := by cases t <;> decide
      have end_ : (buf.base + h.offset).toNat + sizeofSizeT t ≤ 2 ^ t.ptrBits := by omega
      rw [header_grant, grant_memory, loadWord_storeWord end_ wide]

theorem sound_grant (native : t = .x86_64) :
    SoundBlock buf h.blocks ⟨(BootstrapHeap.grant buf size h).1, size⟩ := by
  have after := laid.grant room native
  have new : ⟨(BootstrapHeap.grant buf size h).1, size⟩ ∈ (BootstrapHeap.grant buf size h).2.blocks := by
    simp
  obtain ⟨begins, -⟩ := grant_slot buf room
  -- the old slots end where the new one begins
  have behind : ∀ other ∈ h.blocks,
      (Block.slot ⟨(BootstrapHeap.grant buf size h).1, size⟩).Apart other.slot := by
    intro other inside
    exact (apart_of_le (begins ▸ (laid.slot_bounds inside).2)).symm
  have within := after.range_in_slot new
  constructor
  · exact within.trans (after.slot_inside new)
  · have eight : sizeofSizeT t = 8 := by rw [native]; rfl
    rw [toNat_ptr buf room, eight]
    exact Nat.dvd_add (Nat.dvd_add buf.aligned laid.whole) (Nat.dvd_refl 8)
  · exact after.range_apart_header new new
  · exact fun other inside => (behind other inside).mono within (laid.range_in_slot inside)
  · exact fun other inside => ⟨(behind other inside).mono within header_in_slot,
      (behind other inside).mono header_in_slot (laid.range_in_slot inside)⟩

end

/-- What is written in the block a grant adds leaves the layout. -/
theorem write_granted (laid : Laid buf h) (room : Fits t h.offset.toNat size.toNat)
    (native : t = .x86_64) {n : Nat} (within : n ≤ size.toNat) (byte : Nat → LittleEndian.Byte) :
    Laid buf { (BootstrapHeap.grant buf size h).2 with
      memory := ByteMemory.write (BootstrapHeap.grant buf size h).2.memory
        (BootstrapHeap.grant buf size h).1 n byte } := by
  have after := laid.grant room native
  have new : ⟨(BootstrapHeap.grant buf size h).1, size⟩ ∈ (BootstrapHeap.grant buf size h).2.blocks := by
    simp
  have part : (stretch (BootstrapHeap.grant buf size h).1 n).Inside
      (Block.range ⟨(BootstrapHeap.grant buf size h).1, size⟩) :=
    inside_of_le (Nat.le_refl _) (by simp only [stretch, Block.range, stop]; omega)
  have fits := buf.fits
  have place := toNat_ptr buf room
  have rounded := le_alignUp (a := 8) (n := size.toNat) (by decide)
  rw [Fits, ending] at room
  apply after.write (by omega)
  exact fun b inside => (after.range_apart_header new inside).mono part fun _ => id

end Laid

/-! ## The calls -/

section
variable {nmemb : SizeT t} {ptr : TPointer t}

theorem grant_ne_zero (room : Fits t h.offset.toNat size.toNat) : (grant buf size h).1 ≠ 0 := by
  intro null
  have place := toNat_ptr buf room
  have positive := buf.positive
  rw [null] at place
  simp at place
  omega

/-- How `malloc` serves a request that meets the condition. -/
theorem malloc_meets (laid : Laid buf h)
    (meets : size ≠ 0 → (Fits t h.offset.toNat size.toNat → t = .x86_64) ∧
      ¬ Wraps t h.offset.toNat size.toNat) :
    malloc buf size h = (0, h) ∨
      (t = .x86_64 ∧ Fits t h.offset.toNat size.toNat ∧ malloc buf size h = grant buf size h) := by
  by_cases some_ : size = 0
  · subst some_
    exact .inl malloc_zero
  obtain ⟨native, noWrap⟩ := meets some_
  by_cases room : Fits t h.offset.toNat size.toNat
  · exact .inr ⟨native room, room, malloc_granted some_ laid.bound (.inl room)⟩
  · exact .inl (malloc_refused laid.bound room noWrap)

theorem calloc_overflow (buf : BootstrapBuf t) (h : Heap t)
    (wraps : 2 ^ t.ptrBits ≤ nmemb.toNat * size.toNat) :
    calloc buf nmemb size h = (0, h) := if_pos (overflows_iff.mpr wraps)

theorem calloc_eq (buf : BootstrapBuf t) (h : Heap t)
    (fine : ¬ 2 ^ t.ptrBits ≤ nmemb.toNat * size.toNat) :
    calloc buf nmemb size h =
      if (malloc buf (nmemb * size) h).1 ≠ 0 then
        ((malloc buf (nmemb * size) h).1, { (malloc buf (nmemb * size) h).2 with
          memory := memset (malloc buf (nmemb * size) h).2.memory (malloc buf (nmemb * size) h).1 0
            (nmemb * size).toNat })
      else malloc buf (nmemb * size) h := if_neg (overflows_iff.not.mpr fine)

/-- `realloc` of a pointer into the buffer. -/
theorem realloc_eq (nonNull : ptr ≠ 0) (some_ : size ≠ 0) (inside : buf.Has ptr) :
    realloc buf ptr size h =
      let oldSize : SizeT t :=
        loadWord _ h.memory (ptr - BitVec.ofNat _ (sizeofSizeT t)) (sizeofSizeT t)
      let n := if oldSize < size then oldSize else size
      if (malloc buf size h).1 ≠ 0 then
        ((malloc buf size h).1, { (malloc buf size h).2 with
          memory := memcpy (malloc buf size h).2.memory (malloc buf size h).1 ptr n.toNat })
      else malloc buf size h := by
  rw [realloc, if_neg nonNull, if_neg some_, if_pos inside]

end

/-! ## One step -/

theorem SoundStep.refused (laid : Laid buf h) (null : (e.call buf h).1 = 0)
    (blocks : h'.blocks = h.blocks) (offset : h'.offset = h.offset) : SoundStep buf h e h' where
  block := .inl ⟨null, blocks⟩
  offset := ⟨Nat.le_of_eq (by rw [offset]), by rw [offset]; exact laid.bound⟩
  kept _ _ _ some_ := absurd null some_

theorem SoundStep.granted (laid : Laid buf h) (native : t = .x86_64)
    (room : Fits t h.offset.toNat size.toNat) (returned : (e.call buf h).1 = (grant buf size h).1)
    (blocks : h'.blocks = (grant buf size h).2.blocks)
    (offset : h'.offset = (grant buf size h).2.offset) (enough : e.requested ≤ size.toNat)
    (kept : ∀ ptr size', e = .realloc ptr size' → ∀ b ∈ h.blocks, b.addr = ptr →
      ∀ i < min b.size.toNat size'.toNat,
        read h'.memory (grant buf size h).1 i = read h.memory ptr i) :
    SoundStep buf h e h' where
  block := .inr ⟨⟨(grant buf size h).1, size⟩, returned.symm, by rw [blocks, grant_blocks], enough,
    laid.sound_grant room native⟩
  offset := by
    rw [offset, toNat_offset buf room]
    exact ⟨by rw [ending]; omega, room⟩
  kept ptr size' is _ b inside at_ i low := returned ▸ kept ptr size' is b inside at_ i low

/-- The header `realloc` reads has the size the block was asked for, and what it
copies is the old block's. -/
theorem realloc_copies (laid : Laid buf h) (room : Fits t h.offset.toNat size.toNat)
    (inside : b ∈ h.blocks) (low : i < min b.size.toNat size.toNat) :
    let oldSize : SizeT t :=
      loadWord _ h.memory (b.addr - BitVec.ofNat _ (sizeofSizeT t)) (sizeofSizeT t)
    read (memcpy (grant buf size h).2.memory (grant buf size h).1 b.addr
      (if oldSize < size then oldSize else size).toNat) (grant buf size h).1 i =
      read h.memory b.addr i := by
  have header := laid.headers b inside
  rw [Block.header] at header
  have place := toNat_ptr buf room
  have raw := toNat_raw buf room
  have rounded := le_alignUp (a := 8) (n := size.toNat) (by decide)
  have fits := buf.fits
  obtain ⟨-, ends⟩ := laid.slot_bounds inside
  have bound := laid.bound
  have old := laid.toNat_addr inside
  have oldRounded := le_alignUp (a := 8) (n := b.size.toNat) (by decide)
  rw [Fits, ending] at room
  simp only [Block.slot, stop] at ends
  have lengths : (if b.size < size then b.size else size).toNat = min b.size.toNat size.toNat := by
    simp only [BitVec.lt_def]
    split <;> omega
  -- the new header is behind the old block
  have apart : b.range.Apart (stretch (buf.base + h.offset) (sizeofSizeT t)) := by
    apply apart_of_le
    simp only [Block.range, stretch, stop]
    omega
  simp only [header]
  rw [memcpy, read_write (by omega) (by omega), grant_memory, storeWord]
  exact read_write_apart (by omega) (by omega) apart (by omega)

/-- A call that is refused is sound, and changes nothing. -/
theorem refused_step (laid : Laid buf h) (refused : e.call buf h = (0, h)) :
    SoundStep buf h e (e.call buf h).2 ∧ Laid buf (e.call buf h).2 := by
  rw [refused]
  exact ⟨.refused laid (congrArg Prod.fst refused) rfl rfl, laid⟩

section
variable {nmemb : SizeT t} {ptr : TPointer t}

theorem malloc_step (laid : Laid buf h) (meets : Meets buf h (.malloc size)) :
    SoundStep buf h (.malloc size) (malloc buf size h).2 ∧ Laid buf (malloc buf size h).2 := by
  rcases malloc_meets laid (meets size rfl) with refused | ⟨native, room, granted⟩
  · exact refused_step laid refused
  · rw [granted]
    exact ⟨.granted laid native room (congrArg Prod.fst granted) rfl rfl (Nat.le_refl _) nofun,
      laid.grant room native⟩

theorem calloc_step (laid : Laid buf h) (meets : Meets buf h (.calloc nmemb size)) :
    SoundStep buf h (.calloc nmemb size) (calloc buf nmemb size h).2 ∧
      Laid buf (calloc buf nmemb size h).2 := by
  by_cases fine : 2 ^ t.ptrBits ≤ nmemb.toNat * size.toNat
  · exact refused_step laid (calloc_overflow buf h fine)
  have product : (nmemb * size).toNat = nmemb.toNat * size.toNat := by
    rw [BitVec.toNat_mul, Nat.mod_eq_of_lt (Nat.lt_of_not_le fine)]
  have shape := calloc_eq buf h fine
  rcases malloc_meets laid (meets (nmemb * size) (if_neg fine)) with
    refused | ⟨native, room, granted⟩
  · rw [refused, if_neg (by simp)] at shape
    exact refused_step laid shape
  · rw [granted, if_pos (grant_ne_zero room)] at shape
    rw [shape]
    exact ⟨.granted laid native room (by rw [Event.call, shape]) rfl rfl
      (Nat.le_of_eq product.symm) nofun, laid.write_granted room native (Nat.le_refl _) _⟩

theorem realloc_step (laid : Laid buf h) (meets : Meets buf h (.realloc ptr size)) :
    SoundStep buf h (.realloc ptr size) (realloc buf ptr size h).2 ∧
      Laid buf (realloc buf ptr size h).2 := by
  by_cases null : ptr = 0
  · -- `malloc` under another name
    have shape : realloc buf ptr size h = malloc buf size h := if_pos null
    rcases malloc_meets laid (meets size (if_pos null)) with refused | ⟨native, room, granted⟩
    · exact refused_step laid (shape.trans refused)
    · rw [granted] at shape
      rw [shape]
      refine ⟨.granted laid native room (congrArg Prod.fst shape) rfl rfl (Nat.le_refl _) ?_,
        laid.grant room native⟩
      rintro ptr' size' ⟨⟩ b inside rfl
      -- no block is at null
      have place := laid.toNat_addr inside
      have begins := (laid.slot_bounds inside).1
      have positive := buf.positive
      simp only [null, Block.slot] at place begins
      simp at place
      omega
  by_cases none : size = 0
  · have shape : realloc buf ptr size h = (0, h) := by rw [realloc, if_neg null, if_pos none, free]
    exact refused_step laid shape
  by_cases has : buf.Has ptr
  · have shape := realloc_eq (h := h) null none has
    have asked : (Event.realloc ptr size).asked buf = some size := by
      rw [Event.asked, if_neg null, if_neg none, if_pos has]
    rcases malloc_meets laid (meets size asked) with refused | ⟨native, room, granted⟩
    · simp only [refused, ne_eq, not_true_eq_false, if_false] at shape
      exact refused_step laid shape
    · simp only [granted, if_pos (grant_ne_zero room)] at shape
      rw [shape]
      refine ⟨.granted laid native room (by rw [Event.call, shape]) rfl rfl (Nat.le_refl _) ?_,
        laid.write_granted room native ?_ _⟩
      · rintro ptr' size' ⟨⟩ b inside rfl i low
        exact realloc_copies laid room inside low
      · simp only [BitVec.lt_def]
        split <;> omega
  · have shape : realloc buf ptr size h = (0, h) := by
      rw [realloc, if_neg null, if_neg none, if_neg has]
    exact refused_step laid shape

end

/-- A store of the library touches no header. -/
theorem store_step (laid : Laid buf h) {addr : TPointer t} {byte : LittleEndian.Byte}
    (allowed : Event.Allowed buf h (.store addr byte)) :
    Laid buf { h with memory := write h.memory addr 1 fun _ => byte } := by
  apply laid.write addr.isLt
  intro b inside
  have one : ∀ r : AddressRange, addr.toNat ∈ r.addresses → (stretch addr 1).Inside r := by
    intro r here x at_
    have same : x = addr.toNat := by
      rw [mem_addresses] at at_
      simp only [stretch, stop] at at_
      omega
    exact same ▸ here
  rcases allowed with ⟨c, granted, here⟩ | outside
  · exact (laid.range_apart_header granted inside).mono (one c.range here) fun _ => id
  · apply Set.disjoint_left.mpr
    intro x at_ header
    have same := one (stretch addr 1) ⟨Nat.le_refl _, Nat.lt_succ_self _⟩
    have held := Laid.header_in_slot.trans (laid.slot_inside inside) header
    rw [mem_addresses] at at_
    simp only [stretch, stop] at at_
    exact outside ((show x = addr.toNat by omega) ▸ held)

/-- An event that meets the condition is sound, and leaves the buffer laid out. -/
theorem step_of_meets (laid : Laid buf h) (taken : Step buf h e h') (meets : Meets buf h e) :
    SoundStep buf h e h' ∧ Laid buf h' := by
  obtain ⟨allowed, rfl⟩ := taken
  cases e with
  | malloc size => exact malloc_step laid meets
  | calloc nmemb size => exact calloc_step laid meets
  | realloc ptr size => exact realloc_step laid meets
  | free ptr => exact ⟨.refused laid rfl rfl rfl, laid⟩
  | store addr byte => exact ⟨.refused laid rfl rfl rfl, store_step laid allowed⟩

/-- Whatever else the event does, its blocks are those of the `malloc` in it. -/
theorem blocks_of_asked (asked : e.asked buf = some size) :
    (e.call buf h).2.blocks = (malloc buf size h).2.blocks := by
  cases e with
  | malloc size' =>
    cases asked
    rfl
  | calloc nmemb size' =>
    rw [Event.asked] at asked
    split at asked
    · cases asked
    · rename_i fine
      cases asked
      rw [Event.call, calloc_eq buf h fine]
      split <;> rfl
  | realloc ptr size' =>
    rw [Event.asked] at asked
    split at asked
    · rename_i null
      cases asked
      rw [Event.call, realloc, if_pos null]
    split at asked
    · cases asked
    rename_i nonNull some_
    split at asked
    · rename_i has
      cases asked
      rw [Event.call, realloc_eq nonNull some_ has]
      dsimp only
      split <;> rfl
    · cases asked
  | free ptr => cases asked
  | store addr byte => cases asked

/-- A sound event meets the condition: a block cut off by a sum that wrapped is
longer than the buffer, and one behind a header of four bytes is misaligned. -/
theorem meets_of_sound (laid : Laid buf h) (sound : SoundStep buf h e (e.call buf h).2) :
    Meets buf h e := by
  intro size asked some_
  have block : Fits t h.offset.toNat size.toNat ∨ Wraps t h.offset.toNat size.toNat →
      SoundBlock buf h.blocks ⟨(grant buf size h).1, size⟩ := by
    intro passes
    have blocks := blocks_of_asked (h := h) asked
    rw [malloc_granted some_ laid.bound passes, grant_blocks] at blocks
    rcases sound.block with ⟨-, same⟩ | ⟨b, -, more, -, good⟩
    · rw [blocks] at same
      simp at same
    · rw [blocks] at more
      obtain rfl := List.singleton_inj.mp (List.append_cancel_left more)
      exact good
  have bound := laid.bound
  constructor
  · intro room
    have aligned := (block (.inl room)).aligned
    rw [toNat_ptr buf room] at aligned
    have base := buf.aligned
    have whole := laid.whole
    cases t
    · simp only [sizeofSizeT] at aligned
      omega
    · rfl
  · intro wraps
    have positive : 0 < size.toNat := Nat.pos_of_ne_zero fun zero => some_ (BitVec.eq_of_toNat_eq zero)
    have within := (block (.inr wraps)).inside.length_le positive
    have rounded := alignUp_lt (a := 8) (n := size.toNat) (by decide)
    obtain ⟨long, -⟩ := wraps
    simp only [Block.range, BootstrapBuf.range, ending] at within long
    cases t <;> simp only [Target.ptrBits, sizeofSizeT, bufBytes] at * <;> omega

/-- In a run of calls and stores every step is sound if and only if every
request meets the condition. -/
theorem bootstrap_sound_iff (buf : BootstrapBuf t) (memory : Memory t.ptrBits)
    (events : List (Event t)) :
    (∀ before e after u v, events = before ++ e :: after →
        Run (Step buf) (.start memory) before u → Step buf u e v → SoundStep buf u e v) ↔
      ∀ before e after u v, events = before ++ e :: after →
        Run (Step buf) (.start memory) before u → Step buf u e v → Meets buf u e := by
  apply steps_iff (laid_start memory)
  · intro u e v laid taken sound
    have meets := meets_of_sound laid (taken.2.symm ▸ sound)
    exact (step_of_meets laid taken meets).2
  · intro u e v laid taken
    constructor
    · exact fun sound => meets_of_sound laid (taken.2.symm ▸ sound)
    · exact fun meets => (step_of_meets laid taken meets).1

/-- The first block of eight bytes is misaligned on i386, and the largest request
is granted a block of none on x86_64. -/
theorem bootstrap_not_sound :
    (¬ ∀ before e after u v, [Event.malloc (8 : SizeT .i386)] = before ++ e :: after →
      Run (Step (secondPage .i386)) (.start fun _ => 0) before u →
      Step (secondPage .i386) u e v → SoundStep (secondPage .i386) u e v) ∧
    ¬ ∀ before e after u v, [Event.malloc (-1 : SizeT .x86_64)] = before ++ e :: after →
      Run (Step (secondPage .x86_64)) (.start fun _ => 0) before u →
      Step (secondPage .x86_64) u e v → SoundStep (secondPage .x86_64) u e v := by
  constructor
  · intro sound
    rcases (sound [] _ [] _ _ rfl .nil ⟨trivial, rfl⟩).block with ⟨null, -⟩ | ⟨b, returned, -, -, good⟩
    · exact absurd null (by decide)
    · have misaligned : ¬ 8 ∣ b.addr.toNat := by rw [returned]; decide
      exact misaligned good.aligned
  · intro sound
    rcases (sound [] _ [] _ _ rfl .nil ⟨trivial, rfl⟩).block with ⟨null, -⟩ | ⟨b, -, -, enough, good⟩
    · exact absurd null (by decide)
    · have long : 2 ^ 64 - 1 ≤ b.size.toNat := enough
      have short := good.inside.length_le (by simp only [Block.range]; omega)
      simp only [Block.range, BootstrapBuf.range, bufBytes] at short
      omega

end RlboxDynamic.BootstrapHeap
