import Mathlib.Data.List.Perm.Basic
import Mathlib.Order.Lattice

/-! The k-th smallest of a list, said by counting: at most `k` elements are below
it and more than `k` are not above it. Nothing here names a particular
program. -/
namespace RlboxDynamic.OrderStatistics

variable {α : Type u} [LinearOrder α]

/-- Counted from 0. -/
structure IsNth (k : Nat) (xs : List α) (m : α) : Prop where
  below : xs.countP (fun x => decide (x < m)) ≤ k
  upTo : k < xs.countP (fun x => decide (x ≤ m))

/-- Of an even number of elements, the lower of the two in the middle. -/
def IsLowerMedian (xs : List α) (m : α) : Prop := IsNth ((xs.length - 1) / 2) xs m

variable {k : Nat} {xs ys : List α} {m n : α}

theorem IsNth.le (nth : IsNth k xs m) (other : IsNth k xs n) : n ≤ m := by
  by_contra less
  have more : xs.countP (fun x => decide (x ≤ m)) ≤ xs.countP (fun x => decide (x < n)) := by
    apply List.countP_mono_left
    intro x _ upTo
    exact decide_eq_true (lt_of_le_of_lt (of_decide_eq_true upTo) (lt_of_not_ge less))
  have := nth.upTo
  have := other.below
  omega

theorem IsNth.unique (nth : IsNth k xs m) (other : IsNth k xs n) : m = n :=
  le_antisymm (other.le nth) (nth.le other)

theorem IsNth.perm (nth : IsNth k xs m) (same : xs.Perm ys) : IsNth k ys m where
  below := same.countP_eq _ ▸ nth.below
  upTo := same.countP_eq _ ▸ nth.upTo

theorem isNth_between {before after : List α} (early : ∀ x ∈ before, x ≤ m)
    (late : ∀ x ∈ after, m ≤ x) : IsNth before.length (before ++ m :: after) m where
  below := by
    have none : after.countP (fun x => decide (x < m)) = 0 :=
      List.countP_eq_zero.mpr fun x later => by simpa using late x later
    simpa [none] using List.countP_le_length
  upTo := by
    have all : before.countP (fun x => decide (x ≤ m)) = before.length :=
      List.countP_eq_length.mpr fun x earlier => by simpa using early x earlier
    simp [all]

/-- In a sorted list it is in its place. -/
theorem isNth_of_sorted (sorted : xs.Pairwise (· ≤ ·)) (inside : k < xs.length) :
    IsNth k xs xs[k] := by
  have split : xs.take k ++ xs[k] :: xs.drop (k + 1) = xs := by
    rw [List.getElem_cons_drop, List.take_append_drop]
  have place : (xs.take k).length = k := by
    rw [List.length_take]
    omega
  obtain ⟨-, after, across⟩ := List.pairwise_append.mp (split.symm ▸ sorted)
  have nth := isNth_between (fun x early => across x early xs[k] List.mem_cons_self)
    fun x late => List.rel_of_pairwise_cons after late
  rwa [split, place] at nth

end RlboxDynamic.OrderStatistics
