import Mathlib.Data.List.Infix

/-! Runs of one value in a growing list: how long the run at the end is, and
whether the list so far holds one of a given length. Nothing here names a
particular system. -/
namespace RlboxDynamic

variable {α : Type} [DecidableEq α] {a b : α} {xs : List α} {n : Nat}

/-- The list holds `n` consecutive copies of `a`. -/
def HoldsStreak (n : Nat) (a : α) (xs : List α) : Prop := List.replicate n a <:+: xs

instance : Decidable (HoldsStreak n a xs) := inferInstanceAs (Decidable (_ <:+: _))

/-- The length of the run of `a` that ends the list. -/
def trailing (a : α) (xs : List α) : Nat := (xs.reverse.takeWhile (· = a)).length

theorem trailing_nil : trailing a [] = 0 := rfl

theorem trailing_concat_self : trailing a (xs ++ [a]) = trailing a xs + 1 := by
  simp [trailing]

theorem trailing_concat_of_ne (other : b ≠ a) : trailing a (xs ++ [b]) = 0 := by
  simp [trailing, other]

theorem replicate_suffix_iff : List.replicate n a <:+ xs ↔ n ≤ trailing a xs := by
  induction n generalizing xs with
  | zero => simp
  | succ n ih =>
    rcases List.eq_nil_or_concat xs with rfl | ⟨front, last, rfl⟩
    · simp [trailing_nil]
    · rw [List.replicate_succ', List.concat_eq_append, List.suffix_concat_iff]
      by_cases same : last = a
      · subst same
        rw [trailing_concat_self, Nat.succ_le_succ_iff, ← ih]
        simp
      · rw [trailing_concat_of_ne same]
        simp [Ne.symm same]

/-- A list that grows by one holds a streak it did not hold before exactly when
the run at its end has grown to that length. -/
theorem holdsStreak_concat (positive : n ≠ 0) :
    HoldsStreak n a (xs ++ [b]) ↔ HoldsStreak n a xs ∨ b = a ∧ n ≤ trailing a xs + 1 := by
  unfold HoldsStreak
  rw [List.infix_concat_iff, replicate_suffix_iff, or_comm]
  by_cases same : b = a
  · subst same
    rw [trailing_concat_self]
    simp
  · rw [trailing_concat_of_ne same]
    simp [same, positive]

theorem HoldsStreak.of_trailing (long : n ≤ trailing a xs) : HoldsStreak n a xs :=
  (replicate_suffix_iff.mpr long).isInfix

omit [DecidableEq α] in
theorem not_holdsStreak_nil (positive : n ≠ 0) : ¬ HoldsStreak n a [] := by
  simp [HoldsStreak, positive]

omit [DecidableEq α] in
/-- One element is a streak of one. -/
theorem holdsStreak_one (inside : a ∈ xs) : HoldsStreak 1 a xs := by
  obtain ⟨front, back, rfl⟩ := List.append_of_mem inside
  exact ⟨front, back, by simp⟩

end RlboxDynamic
