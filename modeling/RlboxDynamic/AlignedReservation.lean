import RlboxDynamic.AddressRange
import RlboxDynamic.HostProcess
import RlboxDynamic.MaskRounding

/-! `os_mmap_aligned` in the words of the machine: the padded mapping, its mask
rounding, and the two pieces it gives back. -/
namespace RlboxDynamic.ProcessMem
open MaskRounding StructLayout

variable {t : Target}

/-- A call of `munmap`. -/
structure Munmap (t : Target) where
  addr : TPointer t
  length : SizeT t
  deriving DecidableEq

def Munmap.range (piece : Munmap t) : AddressRange := ⟨piece.addr.toNat, piece.length.toNat⟩

/-! ## The locals -/

def paddedLength (requestedLength alignment : SizeT t) : SizeT t := requestedLength + alignment

def alignedAddr (unalignedAddr : TPointer t) (alignment : SizeT t) : TPointer t :=
  (unalignedAddr + (alignment - 1)) &&& ~~~(alignment - 1)

def unusedFront (unalignedAddr : TPointer t) (alignment : SizeT t) : SizeT t :=
  alignedAddr unalignedAddr alignment - unalignedAddr

def unusedBack (unalignedAddr : TPointer t) (requestedLength alignment : SizeT t) : SizeT t :=
  paddedLength requestedLength alignment - unusedFront unalignedAddr alignment - requestedLength

/-- `os_mmap_aligned`: the pointer it returns, and what it unmaps again. `mmap`
answers none for `MAP_FAILED`. -/
def osMmapAligned (mmap : SizeT t → Option (TPointer t)) (requestedLength alignment : SizeT t) :
    TPointer t × List (Munmap t) :=
  match mmap (paddedLength requestedLength alignment) with
  | none => (0, [])
  | some unalignedAddr =>
    let front := unusedFront unalignedAddr alignment
    let back := unusedBack unalignedAddr requestedLength alignment
    (alignedAddr unalignedAddr alignment,
      (if 0 < front then [⟨unalignedAddr, front⟩] else []) ++
        if 0 < back then [⟨alignedAddr unalignedAddr alignment + requestedLength, back⟩] else [])

/-- What a caller asks for: whole pages at an alignment of whole pages. -/
structure Request (page : Nat) (requestedLength alignment : SizeT t) : Prop where
  pages : page ∣ requestedLength.toNat
  power : ∃ n, alignment.toNat = 2 ^ n
  aligned : page ∣ alignment.toNat
  fits : requestedLength.toNat + alignment.toNat < 2 ^ t.ptrBits

/-- Where a mapping of so many bytes can be put. -/
structure Placement (page length : Nat) (addr : TPointer t) : Prop where
  aligned : page ∣ addr.toNat
  fits : addr.toNat + length ≤ 2 ^ t.ptrBits

/-- Each subtraction takes away no more than is there. -/
structure NoUnderflow (unalignedAddr : TPointer t) (requestedLength alignment : SizeT t) : Prop where
  mask : 1 ≤ alignment.toNat
  front : unalignedAddr.toNat ≤ (alignedAddr unalignedAddr alignment).toNat
  padding : (unusedFront unalignedAddr alignment).toNat ≤
    (paddedLength requestedLength alignment).toNat
  back : requestedLength.toNat ≤
    (paddedLength requestedLength alignment - unusedFront unalignedAddr alignment).toNat

/-- What is returned of a region, and what is given back of it. -/
structure Carved (page : Nat) (region kept : AddressRange) (alignment : SizeT t)
    (pieces : List (Munmap t)) : Prop where
  aligned : alignment.toNat ∣ kept.start
  inside : kept.Inside region
  whole : ∀ piece ∈ pieces, page ∣ piece.range.start ∧ page ∣ piece.range.length
  partition : AddressRange.Partition (kept :: pieces.map Munmap.range) region

/-! ## In numbers -/

section
variable {page : Nat} {requestedLength alignment : SizeT t} {unalignedAddr : TPointer t}

namespace Request

theorem positive (request : Request page requestedLength alignment) : 0 < alignment.toNat := by
  obtain ⟨n, power⟩ := request.power
  rw [power]
  exact Nat.two_pow_pos n

theorem toNat_paddedLength (request : Request page requestedLength alignment) :
    (paddedLength requestedLength alignment).toNat = requestedLength.toNat + alignment.toNat := by
  rw [paddedLength, BitVec.toNat_add, Nat.mod_eq_of_lt request.fits]

theorem toNat_alignedAddr (request : Request page requestedLength alignment)
    (placed : Placement page (requestedLength.toNat + alignment.toNat) unalignedAddr) :
    (alignedAddr unalignedAddr alignment).toNat = alignUp alignment.toNat unalignedAddr.toNat := by
  obtain ⟨n, power⟩ := request.power
  have positive := request.positive
  have bound := placed.fits
  exact toNat_mask_up_of_lt power (by omega)

theorem toNat_unusedFront (request : Request page requestedLength alignment)
    (placed : Placement page (requestedLength.toNat + alignment.toNat) unalignedAddr) :
    (unusedFront unalignedAddr alignment).toNat =
      alignUp alignment.toNat unalignedAddr.toNat - unalignedAddr.toNat := by
  have rounded := request.toNat_alignedAddr placed
  have above := le_alignUp (n := unalignedAddr.toNat) request.positive
  rw [unusedFront, BitVec.toNat_sub_of_le (BitVec.le_def.mpr (by omega)), rounded]

/-- The front is shorter than the padding. -/
theorem unusedFront_lt (request : Request page requestedLength alignment)
    (placed : Placement page (requestedLength.toNat + alignment.toNat) unalignedAddr) :
    (unusedFront unalignedAddr alignment).toNat < alignment.toNat := by
  have short := alignUp_lt (n := unalignedAddr.toNat) request.positive
  have positive := request.positive
  rw [request.toNat_unusedFront placed]
  omega

theorem noUnderflow (request : Request page requestedLength alignment)
    (placed : Placement page (requestedLength.toNat + alignment.toNat) unalignedAddr) :
    NoUnderflow unalignedAddr requestedLength alignment := by
  have above := le_alignUp (n := unalignedAddr.toNat) request.positive
  have rounded := request.toNat_alignedAddr placed
  have padded := request.toNat_paddedLength
  have short := request.unusedFront_lt placed
  have room : unusedFront unalignedAddr alignment ≤ paddedLength requestedLength alignment :=
    BitVec.le_def.mpr (by omega)
  have left := BitVec.toNat_sub_of_le room
  exact ⟨request.positive, by omega, BitVec.le_def.mp room, by omega⟩

/-- What the front leaves of the padding is given back behind. -/
theorem toNat_unusedBack (request : Request page requestedLength alignment)
    (placed : Placement page (requestedLength.toNat + alignment.toNat) unalignedAddr) :
    (unusedBack unalignedAddr requestedLength alignment).toNat =
      alignment.toNat - (unusedFront unalignedAddr alignment).toNat := by
  have sound := request.noUnderflow placed
  have padded := request.toNat_paddedLength
  have left := BitVec.toNat_sub_of_le (BitVec.le_def.mpr sound.padding)
  rw [unusedBack, BitVec.toNat_sub_of_le (BitVec.le_def.mpr sound.back), left, padded]
  omega

theorem toNat_backAddr (request : Request page requestedLength alignment)
    (placed : Placement page (requestedLength.toNat + alignment.toNat) unalignedAddr) :
    (alignedAddr unalignedAddr alignment + requestedLength).toNat =
      (alignedAddr unalignedAddr alignment).toNat + requestedLength.toNat := by
  have rounded := request.toNat_alignedAddr placed
  have short := alignUp_lt (n := unalignedAddr.toNat) request.positive
  have bound := placed.fits
  rw [BitVec.toNat_add, Nat.mod_eq_of_lt (by omega)]

/-- The front, the part returned and the back lie end to end. -/
theorem tiles (request : Request page requestedLength alignment)
    (placed : Placement page (requestedLength.toNat + alignment.toNat) unalignedAddr) :
    AddressRange.Tiles unalignedAddr.toNat
      [⟨unalignedAddr.toNat, (unusedFront unalignedAddr alignment).toNat⟩,
        ⟨(alignedAddr unalignedAddr alignment).toNat, requestedLength.toNat⟩,
        ⟨(alignedAddr unalignedAddr alignment + requestedLength).toNat,
          (unusedBack unalignedAddr requestedLength alignment).toNat⟩]
      (unalignedAddr.toNat + (paddedLength requestedLength alignment).toNat) := by
  have above := le_alignUp (n := unalignedAddr.toNat) request.positive
  have rounded := request.toNat_alignedAddr placed
  have padded := request.toNat_paddedLength
  have front := request.toNat_unusedFront placed
  have back := request.toNat_unusedBack placed
  have behind := request.toNat_backAddr placed
  have short := request.unusedFront_lt placed
  simp only [AddressRange.Tiles, AddressRange.stop, behind]
  refine ⟨trivial, ?_, trivial, ?_⟩ <;> omega

end Request

/-! ## The call -/

/-- The front is unmapped where there is one, the back always. -/
theorem osMmapAligned_answered {mmap : SizeT t → Option (TPointer t)}
    (request : Request page requestedLength alignment)
    (answered : mmap (paddedLength requestedLength alignment) = some unalignedAddr)
    (placed : Placement page (requestedLength.toNat + alignment.toNat) unalignedAddr) :
    osMmapAligned mmap requestedLength alignment =
      (alignedAddr unalignedAddr alignment,
        (if 0 < unusedFront unalignedAddr alignment
          then [⟨unalignedAddr, unusedFront unalignedAddr alignment⟩] else []) ++
        [⟨alignedAddr unalignedAddr alignment + requestedLength,
          unusedBack unalignedAddr requestedLength alignment⟩]) := by
  have short := request.unusedFront_lt placed
  have back := request.toNat_unusedBack placed
  have some_ : 0 < unusedBack unalignedAddr requestedLength alignment := by
    rw [BitVec.lt_def, back]
    simp only [BitVec.ofNat_eq_ofNat, BitVec.toNat_ofNat, Nat.zero_mod]
    omega
  simp only [osMmapAligned, answered, if_pos some_]

/-- The pieces given back are whole pages. -/
theorem pieces_whole (request : Request page requestedLength alignment)
    (placed : Placement page (requestedLength.toNat + alignment.toNat) unalignedAddr) :
    (page ∣ unalignedAddr.toNat ∧ page ∣ (unusedFront unalignedAddr alignment).toNat) ∧
      page ∣ (alignedAddr unalignedAddr alignment + requestedLength).toNat ∧
        page ∣ (unusedBack unalignedAddr requestedLength alignment).toNat := by
  have paged : page ∣ alignUp alignment.toNat unalignedAddr.toNat :=
    request.aligned.trans dvd_alignUp
  have front : page ∣ (unusedFront unalignedAddr alignment).toNat := by
    rw [request.toNat_unusedFront placed]
    exact Nat.dvd_sub paged placed.aligned
  refine ⟨⟨placed.aligned, front⟩, ?_, ?_⟩
  · rw [request.toNat_backAddr placed, request.toNat_alignedAddr placed]
    exact Nat.dvd_add paged request.pages
  · rw [request.toNat_unusedBack placed]
    exact Nat.dvd_sub request.aligned front

/-- Whatever multiple of the page the system picks, the aligned part of the
padded region is returned and the rest of it, in whole pages, is given back. -/
theorem osMmapAligned_carves (mmap : SizeT t → Option (TPointer t))
    (request : Request page requestedLength alignment)
    (answered : mmap (paddedLength requestedLength alignment) = some unalignedAddr)
    (placed : Placement page (requestedLength.toNat + alignment.toNat) unalignedAddr) :
    Carved page ⟨unalignedAddr.toNat, (paddedLength requestedLength alignment).toNat⟩
        ⟨(osMmapAligned mmap requestedLength alignment).1.toNat, requestedLength.toNat⟩ alignment
        (osMmapAligned mmap requestedLength alignment).2 ∧
      NoUnderflow unalignedAddr requestedLength alignment := by
  refine ⟨?_, request.noUnderflow placed⟩
  rw [osMmapAligned_answered request answered placed]
  have rounded := request.toNat_alignedAddr placed
  have padded := request.toNat_paddedLength
  have above := le_alignUp (n := unalignedAddr.toNat) request.positive
  have short := alignUp_lt (n := unalignedAddr.toNat) request.positive
  have tiles := request.tiles placed
  obtain ⟨frontWhole, backWhole⟩ := pieces_whole request placed
  constructor
  · exact rounded ▸ dvd_alignUp
  · apply AddressRange.inside_of_le
    · simp only
      omega
    · simp only [AddressRange.stop]
      omega
  · intro piece inside
    rcases List.mem_append.mp inside with front | back
    · split at front
      · cases List.mem_singleton.mp front
        exact frontWhole
      · cases front
    · cases List.mem_singleton.mp back
      exact backWhole
  · by_cases front : 0 < unusedFront unalignedAddr alignment
    · simp only [if_pos front]
      -- the part returned is between the two
      exact (tiles.partition (r := ⟨_, _⟩)).perm (.swap _ _ _)
    · simp only [if_neg front]
      have empty : (unusedFront unalignedAddr alignment).toNat = 0 := by
        rw [BitVec.lt_def] at front
        simpa using front
      exact (tiles.of_empty empty).partition (r := ⟨_, _⟩)

theorem osMmapAligned_carves_sandbox :
    Carved (t := .x86_64) 4096 ⟨0x7f1234567000, 0x104000000⟩ ⟨0x7f1300000000, 0x4000000⟩ 0x100000000
        [⟨0x7f1234567000, 0xcba99000⟩, ⟨0x7f1304000000, 0x34567000⟩] ∧
      NoUnderflow (t := .x86_64) 0x7f1234567000 0x4000000 0x100000000 :=
  @osMmapAligned_carves .x86_64 4096 0x4000000 0x100000000 0x7f1234567000
    (fun _ => some 0x7f1234567000) ⟨by decide, ⟨32, by decide⟩, by decide, by decide⟩ rfl
    ⟨by decide, by decide⟩

/-- The process's mappings change as the call over natural numbers says. -/
theorem hostProcess_osMmapAligned {mmap : SizeT t → Option (TPointer t)} (mapped : Nat → Bool)
    (request : Request page requestedLength alignment)
    (answered : mmap (paddedLength requestedLength alignment) = some unalignedAddr)
    (placed : Placement page (requestedLength.toNat + alignment.toNat) unalignedAddr) :
    HostProcess.osMmapAligned requestedLength.toNat alignment.toNat (some unalignedAddr.toNat)
        mapped =
      (some (osMmapAligned mmap requestedLength alignment).1.toNat,
        (osMmapAligned mmap requestedLength alignment).2.foldl
          (fun mapped piece => HostProcess.munmap piece.addr.toNat piece.length.toNat mapped)
          (HostProcess.mmap unalignedAddr.toNat (paddedLength requestedLength alignment).toNat
            mapped)) := by
  have rounded := request.toNat_alignedAddr placed
  have front : (alignedAddr unalignedAddr alignment).toNat - unalignedAddr.toNat =
      (unusedFront unalignedAddr alignment).toNat := by
    rw [rounded, request.toNat_unusedFront placed]
  have back := request.toNat_unusedBack placed
  have short := request.unusedFront_lt placed
  have behind : requestedLength.toNat + alignment.toNat -
      (unusedFront unalignedAddr alignment).toNat - requestedLength.toNat =
        (unusedBack unalignedAddr requestedLength alignment).toNat := by omega
  have some_ : (unusedBack unalignedAddr requestedLength alignment).toNat > 0 := by omega
  have asFront : (unusedFront unalignedAddr alignment).toNat > 0 ↔
      0 < unusedFront unalignedAddr alignment := by simp [BitVec.lt_def]
  rw [osMmapAligned_answered request answered placed]
  rw [alignUp] at rounded
  simp only [HostProcess.osMmapAligned, ← rounded, front, behind, if_pos some_, asFront,
    request.toNat_paddedLength, List.foldl_append, List.foldl_cons, List.foldl_nil,
    request.toNat_backAddr placed]
  by_cases before : 0 < unusedFront unalignedAddr alignment
  · simp only [if_pos before, List.foldl_cons, List.foldl_nil]
  · simp only [if_neg before, List.foldl_nil]

end
end RlboxDynamic.ProcessMem
