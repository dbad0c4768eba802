import Mathlib.Logic.Function.Basic
import RlboxDynamic.Transition

/-! Threads that take turns on a shared state. What is said of one thread is
proved from the thread's own steps, and from every other thread leaving it true.
Nothing here names a particular system. -/
namespace RlboxDynamic.Interleaving
open Transition

/-- The shared state, and where each thread is with its locals. -/
structure Threads (σ ι ρ : Type) where
  shared : σ
  place : ι → ρ

section
variable {σ ι ρ α : Type} [DecidableEq ι] {own : ι → σ → ρ → α → Option (σ × ρ)}

/-- One thread takes one step of its own. -/
def exec (own : ι → σ → ρ → α → Option (σ × ρ)) (s : Threads σ ι ρ) :
    ι × α → Option (Threads σ ι ρ)
  | (i, a) => (own i s.shared (s.place i) a).map fun (shared, next) =>
    ⟨shared, Function.update s.place i next⟩

abbrev Step (own : ι → σ → ρ → α → Option (σ × ρ)) := ofPartial (exec own)

theorem exec_some {s s' : Threads σ ι ρ} {i : ι} {a : α} (done : Step own s (i, a) s') :
    ∃ shared next, own i s.shared (s.place i) a = some (shared, next) ∧
      s' = ⟨shared, Function.update s.place i next⟩ := by
  obtain ⟨⟨shared, next⟩, ran, rfl⟩ := Option.map_eq_some_iff.mp done
  exact ⟨shared, next, ran, rfl⟩

/-- The shared state keeps its invariant, and every thread its own assertion. -/
structure Holding (Inv : σ → Prop) (Local : σ → ι → ρ → Prop) (s : Threads σ ι ρ) : Prop where
  shared : Inv s.shared
  each : ∀ i, Local s.shared i (s.place i)

/-- A thread's step proves the invariant and its own assertion again, and may
break no other's. -/
theorem Holding.step {Inv : σ → Prop} {Local : σ → ι → ρ → Prop} {s s' : Threads σ ι ρ} {i : ι}
    {a : α} (holding : Holding Inv Local s) (done : Step own s (i, a) s')
    (mine : ∀ shared next, own i s.shared (s.place i) a = some (shared, next) →
      Inv shared ∧ Local shared i next)
    (others : ∀ shared next, own i s.shared (s.place i) a = some (shared, next) →
      ∀ j, j ≠ i → Local s.shared j (s.place j) → Local shared j (s.place j)) :
    Holding Inv Local s' := by
  obtain ⟨shared, next, ran, rfl⟩ := exec_some done
  obtain ⟨kept, here⟩ := mine shared next ran
  refine ⟨kept, fun j => ?_⟩
  by_cases same : j = i
  · subst same
    simpa using here
  · show Local shared j (Function.update s.place i next j)
    rw [Function.update_of_ne same]
    exact others shared next ran j same (holding.each j)

end
end RlboxDynamic.Interleaving
