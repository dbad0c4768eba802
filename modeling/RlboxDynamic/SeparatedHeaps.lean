import RlboxDynamic.AllocationRouting

/-! Heaps whose blocks do not overlap, as two allocators that keep their contract
make them: what was given out in one order could have been given out in another. -/
namespace RlboxDynamic

variable {t : Target}

/-- No byte in common. An allocator keeps at least one byte for each block. -/
def BlockAddress.Apart (x : BlockAddress t) (n : SizeT t) (y : BlockAddress t) (m : SizeT t) : Prop :=
  match x, y with
  | .wasm raw, .wasm other =>
    raw.toNat + max n.toNat 1 ≤ other.toNat ∨ other.toNat + max m.toNat 1 ≤ raw.toNat
  | .process p, .process other =>
    p.toNat + max n.toNat 1 ≤ other.toNat ∨ other.toNat + max m.toNat 1 ≤ p.toNat
  | _, _ => True

theorem BlockAddress.Apart.symm {x y : BlockAddress t} {n m : SizeT t} (apart : x.Apart n y m) :
    y.Apart m x n := by
  cases x <;> cases y <;> simp only [Apart] at * <;> omega

namespace Heaps
variable {h big : Heaps t} {c : BackendCall t} {calls : List (BackendCall t)} {x : BlockAddress t}
  {n : SizeT t}

def Fresh (h : Heaps t) (x : BlockAddress t) (n : SizeT t) : Prop :=
  ∀ y m, h.blockAt y = some m → x.Apart n y m

theorem allows_cons (granted : c.granted = some (x, n)) :
    h.Allows (c :: calls) ↔ h.Fresh x n ∧ (h.apply c).Allows calls := by
  obtain ⟨raw, rfl, nonzero, rfl⟩ | ⟨p, rfl, nonzero, rfl⟩ := BackendCall.granted_cases granted
  · refine and_congr ⟨fun fresh y m found => ?_, fun fresh _ other m found => ?_⟩ Iff.rfl
    · cases y with
      | wasm other => exact fresh nonzero other m found
      | process => trivial
    · exact fresh (.wasm other) m found
  · refine and_congr ⟨fun fresh y m found => ?_, fun fresh _ other m found => ?_⟩ Iff.rfl
    · cases y with
      | wasm => trivial
      | process other => exact fresh nonzero other m found
    · exact fresh (.process other) m found

/-- No two blocks of a heap overlap. -/
def Separated (h : Heaps t) : Prop :=
  ∀ x y n m, x ≠ y → h.blockAt x = some n → h.blockAt y = some m → x.Apart n y m

theorem Separated.grant (separated : h.Separated) (granted : c.granted = some (x, n))
    (fresh : h.Fresh x n) : (h.apply c).Separated := by
  intro y z m k other left right
  rw [blockAt_grant granted] at left right
  by_cases at_x : y = x
  · subst at_x
    rw [if_pos rfl] at left
    rw [if_neg (Ne.symm other)] at right
    cases left
    exact fresh z k right
  · rw [if_neg at_x] at left
    by_cases at_x' : z = x
    · subst at_x'
      rw [if_pos rfl] at right
      cases right
      exact (fresh y m left).symm
    · rw [if_neg at_x'] at right
      exact separated y z m k other left right

theorem Separated.release (separated : h.Separated) (released : c.released = some x) :
    (h.apply c).Separated := by
  intro y z m k other left right
  rw [blockAt_release released] at left right
  split at left
  · cases left
  split at right
  · cases right
  exact separated y z m k other left right

theorem Separated.apply (separated : h.Separated) (allowed : h.Allows [c]) :
    (h.apply c).Separated := by
  cases granted : c.granted with
  | some block => exact separated.grant granted ((allows_cons granted).mp allowed).1
  | none =>
    cases released : c.released with
    | some x => exact separated.release released
    | none =>
      -- a null answer, or a call that is not the allocators'
      have same : h.apply c = h := by
        cases c with
        | wasmMalloc size raw =>
          by_cases null : raw = 0#32
          · simp [Heaps.apply, null]
          · simp [BackendCall.granted, null] at granted
        | processMalloc size p =>
          by_cases null : p = 0#t.ptrBits
          · simp [Heaps.apply, null]
          · simp [BackendCall.granted, null] at granted
        | wasmFree => cases released
        | processFree => cases released
        | translate | cleanup | wasmInvoke | processInvoke => rfl
      rw [same]
      exact separated

/-- Blocks of a heap can be given out one after the other in any part of it that
has none of them. -/
theorem Separated.allows {blocks : List (BlockAddress t × SizeT t)} (separated : big.Separated)
    (given : calls.map BackendCall.granted = blocks.map some)
    (below : ∀ x n, h.blockAt x = some n → big.blockAt x = some n)
    (inside : ∀ x n, (x, n) ∈ blocks → big.blockAt x = some n)
    (outside : ∀ x n, (x, n) ∈ blocks → h.blockAt x = none)
    (distinct : (blocks.map Prod.fst).Nodup) : h.Allows calls := by
  induction calls generalizing h blocks with
  | nil => trivial
  | cons c rest ih =>
    cases blocks with
    | nil => cases given
    | cons block blocks =>
      obtain ⟨x, n⟩ := block
      simp only [List.map_cons, List.cons.injEq] at given
      obtain ⟨once, distinct⟩ := List.nodup_cons.mp distinct
      have mine := inside x n List.mem_cons_self
      rw [allows_cons given.1]
      refine ⟨fun y m found => ?_, ih given.2 (fun y m found => ?_)
        (fun y m held => inside y m (List.mem_cons_of_mem _ held)) (fun y m held => ?_) distinct⟩
      · refine separated x y n m ?_ mine (below y m found)
        rintro rfl
        rw [outside x n List.mem_cons_self] at found
        cases found
      · rw [blockAt_grant given.1] at found
        split at found
        · rename_i at_x
          cases found
          exact at_x ▸ mine
        · exact below y m found
      · have other : y ≠ x := by
          rintro rfl
          exact once (List.mem_map.mpr ⟨_, held, rfl⟩)
        rw [blockAt_grant given.1, if_neg other]
        exact outside y m (List.mem_cons_of_mem _ held)

theorem allows_refused {extra : List (BackendCall t)} (allowed : h.Allows calls)
    (refused : Refused extra) : h.Allows (calls ++ extra) := by
  induction calls generalizing h with
  | nil =>
    rcases refused with rfl | ⟨n, rfl⟩
    · trivial
    · exact ⟨fun nonzero => absurd rfl nonzero, trivial⟩
  | cons c rest ih => exact ⟨allowed.1, ih allowed.2⟩

end Heaps

end RlboxDynamic
