/-! Laying fields out in memory: each field at the next offset its alignment
allows, and the whole rounded up to the strictest alignment. Two ABIs over the
same fields are compared here; nothing names a particular machine. -/
namespace RlboxDynamic.StructLayout

/-- The least multiple of `a` from `n` on. -/
def alignUp (a n : Nat) : Nat := (n + (a - 1)) / a * a

section
variable {a b n m : Nat}

theorem dvd_alignUp : a ∣ alignUp a n := Nat.dvd_mul_left _ _

theorem le_alignUp (positive : 0 < a) : n ≤ alignUp a n := by
  have whole := Nat.div_add_mod (n + (a - 1)) a
  have rest := Nat.mod_lt (n + (a - 1)) positive
  rw [alignUp, Nat.mul_comm]
  omega

theorem alignUp_lt (positive : 0 < a) : alignUp a n < n + a := by
  have whole := Nat.div_add_mod (n + (a - 1)) a
  rw [alignUp, Nat.mul_comm]
  omega

/-- Nothing smaller will do. -/
theorem alignUp_le (positive : 0 < a) (divides : a ∣ m) (above : n ≤ m) : alignUp a n ≤ m := by
  obtain ⟨k, rfl⟩ := divides
  have short : (n + (a - 1)) / a < k + 1 := by
    rw [Nat.div_lt_iff_lt_mul positive, Nat.add_mul, Nat.mul_comm k a]
    omega
  rw [alignUp, Nat.mul_comm]
  exact Nat.mul_le_mul_left a (Nat.lt_succ_iff.mp short)

/-- A stricter alignment from a later start ends later, by as much if the
distance is itself aligned. -/
theorem alignUp_add_le (positive : 0 < b) (divides : a ∣ b) (whole : a ∣ m) {k : Nat}
    (behind : n + m ≤ k) : alignUp a n + m ≤ alignUp b k := by
  have least : alignUp a n ≤ alignUp b k - m := by
    apply alignUp_le (Nat.pos_of_dvd_of_pos divides positive)
    · exact Nat.dvd_sub (Nat.dvd_trans divides dvd_alignUp) whole
    · have := le_alignUp (n := k) positive
      omega
  have := le_alignUp (n := k) positive
  omega

/-- Rounding first to a weaker alignment changes nothing where the stricter one
already holds. -/
theorem alignUp_eq_alignUp (positive : 0 < b) (divides : a ∣ b) :
    alignUp b n = alignUp a n ↔ b ∣ alignUp a n := by
  constructor
  · exact fun same => same ▸ dvd_alignUp
  · intro strict
    have weak := Nat.pos_of_dvd_of_pos divides positive
    exact Nat.le_antisymm (alignUp_le positive strict (le_alignUp weak))
      (alignUp_le weak (Nat.dvd_trans divides dvd_alignUp) (le_alignUp positive))

end

/-- Sizes and alignments of field types. -/
@[ext]
structure Abi (F : Type u) where
  size : F → Nat
  align : F → Nat
  align_pos : ∀ f, 0 < align f

namespace Abi
variable {F : Type u} (abi : Abi F)

/-- Where each field begins, from a position on. -/
def offsets : Nat → List F → List Nat
  | _, [] => []
  | pos, f :: fs =>
    alignUp (abi.align f) pos :: offsets (alignUp (abi.align f) pos + abi.size f) fs

/-- Where the last field ends. -/
def fieldsEnd : Nat → List F → Nat
  | pos, [] => pos
  | pos, f :: fs => fieldsEnd (alignUp (abi.align f) pos + abi.size f) fs

/-- The alignment of the whole: the least common multiple of the fields', which
for powers of two is the largest. -/
def structAlign : List F → Nat
  | [] => 1
  | f :: fs => Nat.lcm (abi.align f) (structAlign fs)

def structSize (fs : List F) : Nat := alignUp (abi.structAlign fs) (abi.fieldsEnd 0 fs)

/-- Fields begin at the same offsets and the whole takes as many bytes. -/
def Agrees (abi other : Abi F) (fs : List F) : Prop :=
  abi.offsets 0 fs = other.offsets 0 fs ∧ abi.structSize fs = other.structSize fs

theorem structAlign_pos (fs : List F) : 0 < abi.structAlign fs := by
  induction fs with
  | nil => exact Nat.one_pos
  | cons f fs ih => exact Nat.lcm_pos (abi.align_pos f) ih

variable {abi} {host child : Abi F} {fs : List F} {p q gap m : Nat}

theorem structAlign_dvd : abi.structAlign fs ∣ m ↔ ∀ f ∈ fs, abi.align f ∣ m := by
  induction fs with
  | nil => simp [structAlign]
  | cons f fs ih => simp [structAlign, Nat.lcm_dvd_iff, ih]

theorem align_dvd_offset {o : Nat} (placed : (f, o) ∈ fs.zip (abi.offsets p fs)) :
    abi.align f ∣ o := by
  induction fs generalizing p with
  | nil => cases placed
  | cons g fs ih =>
    simp only [offsets, List.zip_cons_cons, List.mem_cons, Prod.mk.injEq] at placed
    rcases placed with ⟨rfl, rfl⟩ | later
    · exact dvd_alignUp
    · exact ih later

theorem align_dvd_structSize (inside : f ∈ fs) : abi.align f ∣ abi.structSize fs :=
  Nat.dvd_trans (structAlign_dvd.mp (Nat.dvd_refl _) f inside) dvd_alignUp

/-- One ABI asks for at least the other's sizes and alignments. -/
structure Wider (host child : Abi F) : Prop where
  size : ∀ f, child.size f ≤ host.size f
  align : ∀ f, child.align f ∣ host.align f

theorem Wider.structAlign (wider : Wider host child) (fs : List F) :
    child.structAlign fs ∣ host.structAlign fs :=
  structAlign_dvd.mpr fun f inside =>
    Nat.dvd_trans (wider.align f) (structAlign_dvd.mp (Nat.dvd_refl _) f inside)

/-- A distance that every alignment of the narrower ABI divides is never made
up by padding. -/
theorem Wider.fieldsEnd (wider : Wider host child) (whole : ∀ f ∈ fs, child.align f ∣ gap)
    (behind : p + gap ≤ q) : child.fieldsEnd p fs + gap ≤ host.fieldsEnd q fs := by
  induction fs generalizing p q with
  | nil => exact behind
  | cons f fs ih =>
    refine ih (fun g inside => whole g (List.mem_cons_of_mem f inside)) ?_
    have start := alignUp_add_le (host.align_pos f) (wider.align f)
      (whole f List.mem_cons_self) behind
    have := wider.size f
    omega

/-- Nor is a field that is larger by such a distance. -/
theorem Wider.fieldsEnd_of_mem (wider : Wider host child) (whole : ∀ f ∈ fs, child.align f ∣ gap)
    (inside : f ∈ fs) (larger : child.size f + gap ≤ host.size f) (behind : p ≤ q) :
    child.fieldsEnd p fs + gap ≤ host.fieldsEnd q fs := by
  induction fs generalizing p q with
  | nil => cases inside
  | cons g fs ih =>
    have rest : ∀ f ∈ fs, child.align f ∣ gap :=
      fun f below => whole f (List.mem_cons_of_mem g below)
    have start : alignUp (child.align g) p + 0 ≤ alignUp (host.align g) q :=
      alignUp_add_le (host.align_pos g) (wider.align g) (Nat.dvd_zero _) behind
    rw [Abi.fieldsEnd, Abi.fieldsEnd]
    rcases List.mem_cons.mp inside with rfl | later
    · exact wider.fieldsEnd rest (by omega)
    · have := wider.size g
      exact ih rest later (by omega)

/-- One larger field leaves the whole larger. -/
theorem Wider.structSize_lt (wider : Wider host child) (positive : 0 < gap)
    (whole : ∀ f ∈ fs, child.align f ∣ gap) (inside : f ∈ fs)
    (larger : child.size f + gap ≤ host.size f) : child.structSize fs < host.structSize fs := by
  have apart := wider.fieldsEnd_of_mem whole inside larger (Nat.le_refl 0)
  have rounded := alignUp_add_le (host.structAlign_pos fs) (wider.structAlign fs)
    (structAlign_dvd.mpr whole) apart
  simp only [structSize]
  omega

/-! Where the sizes are the same, only alignments can part the two. -/

theorem Wider.offsets_eq_iff (wider : Wider host child)
    (same : ∀ f ∈ fs, host.size f = child.size f) :
    host.offsets p fs = child.offsets p fs ↔
      ∀ f o, (f, o) ∈ fs.zip (child.offsets p fs) → host.align f ∣ o := by
  induction fs generalizing p with
  | nil => simp [offsets]
  | cons f fs ih =>
    have rest : ∀ f ∈ fs, host.size f = child.size f :=
      fun g below => same g (List.mem_cons_of_mem f below)
    have head := alignUp_eq_alignUp (n := p) (host.align_pos f) (wider.align f)
    simp only [offsets, List.cons.injEq, List.zip_cons_cons, List.mem_cons, Prod.mk.injEq]
    constructor
    · rintro ⟨here, later⟩ g o (⟨rfl, rfl⟩ | below)
      · exact head.mp here
      · rw [here, same f List.mem_cons_self] at later
        exact (ih rest).mp later g o below
    · intro strict
      have here := head.mpr (strict f _ (.inl ⟨rfl, rfl⟩))
      refine ⟨here, ?_⟩
      rw [here, same f List.mem_cons_self]
      exact (ih rest).mpr fun g o below => strict g o (.inr below)

theorem fieldsEnd_eq (same : ∀ f ∈ fs, host.size f = child.size f)
    (begins : host.offsets p fs = child.offsets p fs) :
    host.fieldsEnd p fs = child.fieldsEnd p fs := by
  induction fs generalizing p with
  | nil => rfl
  | cons f fs ih =>
    simp only [offsets, List.cons.injEq] at begins
    obtain ⟨here, later⟩ := begins
    rw [fieldsEnd, fieldsEnd, here, same f List.mem_cons_self]
    rw [here, same f List.mem_cons_self] at later
    exact ih (fun g below => same g (List.mem_cons_of_mem f below)) later

/-- Two layouts with the same sizes agree exactly where the narrower one meets
the wider one's alignments, each field's and the whole's. -/
theorem Wider.agrees_iff (wider : Wider host child)
    (same : ∀ f ∈ fs, host.size f = child.size f) :
    Agrees host child fs ↔
      (∀ f o, (f, o) ∈ fs.zip (child.offsets 0 fs) → host.align f ∣ o) ∧
        ∀ f ∈ fs, host.align f ∣ child.structSize fs := by
  rw [Agrees, wider.offsets_eq_iff same, ← structAlign_dvd]
  refine and_congr_right fun strict => ?_
  have ends := fieldsEnd_eq same ((wider.offsets_eq_iff same).mpr strict)
  rw [structSize, ends]
  exact alignUp_eq_alignUp (host.structAlign_pos fs) (wider.structAlign fs)

end Abi
end RlboxDynamic.StructLayout
