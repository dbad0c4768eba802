import RlboxDynamic.InvokeAbi
import RlboxDynamic.StructLayout

/-! Where the host and the child put the fields of a reflected struct: the host
by the widths `rlbox_process_sandbox` declares, the child by its native ABI. -/
namespace RlboxDynamic
open StructLayout

/-- The C type of a reflected field. -/
inductive FieldType where
  | scalar (type : CType)
  | float
  | double
  deriving DecidableEq, Repr

namespace FieldType

/-- Bytes of a field in a native struct. -/
def nativeSize (t : Target) : FieldType → Nat
  | .scalar type => type.bits t / 8
  | .float => 4
  | .double => 8

/-- Bytes of the type RLBox replaces it by: the `T_*Type` of its C type, with
floating point left as it is. -/
def hostSize (t : Target) : FieldType → Nat
  | .scalar type => (type.convert t).bits t / 8
  | .float => 4
  | .double => 8

/-- A `long`, signed or not. -/
def IsLong (f : FieldType) : Prop := f = .scalar .long ∨ f = .scalar .ulong

instance (f : FieldType) : Decidable f.IsLong := inferInstanceAs (Decidable (_ ∨ _))

/-- An 8-byte type that is 8 bytes wide on every target. -/
def IsWide (f : FieldType) : Prop :=
  f = .scalar .longLong ∨ f = .scalar .ulongLong ∨ f = .double

instance (f : FieldType) : Decidable f.IsWide := inferInstanceAs (Decidable (_ ∨ _ ∨ _))

theorem nativeSize_pos (t : Target) (f : FieldType) : 0 < f.nativeSize t := by
  cases f with
  | scalar type => cases type <;> cases t <;> decide
  | float | double => simp [nativeSize]

theorem hostSize_pos (t : Target) (f : FieldType) : 0 < f.hostSize t := by
  cases f with
  | scalar type => cases type <;> cases t <;> decide
  | float | double => simp [hostSize]

end FieldType

/-- The layout RLBox computes: the declared widths, naturally aligned. -/
def hostAbi (t : Target) : Abi FieldType where
  size := FieldType.hostSize t
  align := FieldType.hostSize t
  align_pos := FieldType.hostSize_pos t

/-- The child's own layout. Inside a struct nothing is aligned to more than a
word. -/
def nativeAbi (t : Target) : Abi FieldType where
  size := FieldType.nativeSize t
  align f := min (f.nativeSize t) (t.ptrBits / 8)
  align_pos f := Nat.lt_min.mpr ⟨f.nativeSize_pos t, by cases t <;> decide⟩

/-! The 32-bit target. -/

theorem hostAbi_wider : (hostAbi .i386).Wider (nativeAbi .i386) where
  size f := by
    cases f with
    | scalar type => cases type <;> decide
    | float | double => decide
  align f := by
    cases f with
    | scalar type => cases type <;> decide
    | float | double => decide

theorem nativeAbi_align_dvd_four (f : FieldType) : (nativeAbi .i386).align f ∣ 4 := by
  cases f with
  | scalar type => cases type <;> decide
  | float | double => decide

namespace FieldType
variable {f : FieldType}

/-- `T_LongType` takes a word more than the child's `long`. -/
theorem hostSize_of_isLong (long : f.IsLong) : f.nativeSize .i386 + 4 ≤ f.hostSize .i386 := by
  rcases long with rfl | rfl <;> decide

theorem hostSize_of_not_isLong (short : ¬ f.IsLong) : f.hostSize .i386 = f.nativeSize .i386 := by
  cases f with
  | scalar type => cases type <;> first | rfl | simp [IsLong] at short
  | float | double => rfl

theorem hostSize_of_isWide (wide : f.IsWide) : f.hostSize .i386 = 8 := by
  rcases wide with rfl | rfl | rfl <;> rfl

theorem hostSize_of_narrow (short : ¬ f.IsLong) (narrow : ¬ f.IsWide) :
    f.hostSize .i386 = (nativeAbi .i386).align f := by
  cases f with
  | scalar type => cases type <;> first | rfl | simp [IsLong, IsWide] at short narrow
  | float => rfl
  | double => simp [IsWide] at narrow

end FieldType

variable {fs : List FieldType}

/-- A `long` anywhere leaves the host's struct larger than the child's. -/
theorem structSize_lt_of_isLong (inside : f ∈ fs) (long : f.IsLong) :
    (nativeAbi .i386).structSize fs < (hostAbi .i386).structSize fs := by
  have aligned : ∀ g ∈ fs, (nativeAbi .i386).align g ∣ 4 := fun g _ => nativeAbi_align_dvd_four g
  refine hostAbi_wider.structSize_lt (by decide : 0 < 4) aligned inside ?_
  exact FieldType.hostSize_of_isLong long

/-- The host's fields are the child's exactly where no field is a `long` and
the child's layout happens to keep every 8-byte field, and with one the whole
struct, on multiples of 8. -/
theorem struct_layout_iff (fs : List FieldType) :
    Abi.Agrees (hostAbi .i386) (nativeAbi .i386) fs ↔
      (∀ f ∈ fs, ¬ f.IsLong) ∧
        (∀ f o, (f, o) ∈ fs.zip ((nativeAbi .i386).offsets 0 fs) → f.IsWide → 8 ∣ o) ∧
          ((∃ f ∈ fs, f.IsWide) → 8 ∣ (nativeAbi .i386).structSize fs) := by
  by_cases short : ∀ f ∈ fs, ¬ f.IsLong
  · have same : ∀ f ∈ fs, (hostAbi .i386).size f = (nativeAbi .i386).size f :=
      fun f inside => FieldType.hostSize_of_not_isLong (short f inside)
    -- a narrow field's alignment is the same on both sides, and the child meets it
    have strict : ∀ f ∈ fs, ∀ m, (nativeAbi .i386).align f ∣ m →
        ((hostAbi .i386).align f ∣ m ↔ (f.IsWide → 8 ∣ m)) := by
      intro f inside m met
      change f.hostSize .i386 ∣ m ↔ _
      by_cases wide : f.IsWide
      · simp [FieldType.hostSize_of_isWide wide, wide]
      · simp [FieldType.hostSize_of_narrow (short f inside) wide, wide, met]
    rw [hostAbi_wider.agrees_iff same]
    refine Iff.trans (and_congr ?_ ?_) (and_iff_right short).symm
    · refine forall₂_congr fun f o => forall_congr' fun placed => ?_
      exact strict f (List.of_mem_zip placed).1 o (Abi.align_dvd_offset placed)
    · simp only [exists_imp, and_imp]
      refine forall₂_congr fun f inside => ?_
      exact strict f inside _ (Abi.align_dvd_structSize inside)
  · refine iff_of_false (fun agrees => short fun f inside long => ?_) fun holds => short holds.1
    exact Nat.ne_of_gt (structSize_lt_of_isLong inside long) agrees.2

/-- The reflected fields of `z_stream_s`. -/
def zStreamS : List FieldType :=
  [.scalar .pointer, .scalar .uint, .scalar .ulong, .scalar .pointer, .scalar .uint, .scalar .ulong,
    .scalar .pointer, .scalar .pointer, .scalar .pointer, .scalar .pointer, .scalar .pointer,
    .scalar .int, .scalar .ulong, .scalar .ulong]

/-- `next_out` is at 16 for the host and at 12 for the library. -/
theorem z_stream_layouts_differ :
    ((hostAbi .i386).offsets 0 zStreamS)[3]? = some 16 ∧
      ((nativeAbi .i386).offsets 0 zStreamS)[3]? = some 12 ∧
        ¬ Abi.Agrees (hostAbi .i386) (nativeAbi .i386) zStreamS := by
  refine ⟨by decide, by decide, fun agrees => ?_⟩
  exact absurd agrees.1 (by decide)

end RlboxDynamic
