import Mathlib.Data.List.Perm.Basic

/-! A heap whose blocks are shared out: each key has some of them, no block is
shared by two keys, and none is nobody's. Nothing here names a particular heap. -/
namespace RlboxDynamic

/-- The heap is what the keys' shares hold together, each block once. -/
structure Apportioned {α β κ : Type} (heap : α → Option β) (share : κ → List (α × β)) : Prop where
  blocks : ∀ x n, heap x = some n ↔ ∃ k, (x, n) ∈ share k
  apart : ∀ {k j x n m}, (x, n) ∈ share k → (x, m) ∈ share j → k = j
  once : ∀ k, ((share k).map Prod.fst).Nodup

namespace Apportioned
variable {α β κ : Type} {heap heap' : α → Option β} {share share' : κ → List (α × β)} {k : κ}
  {x : α} {n : β}

theorem empty : Apportioned (fun _ : α => (none : Option β)) fun _ : κ => [] where
  blocks := by simp
  apart held := absurd held List.not_mem_nil
  once _ := List.nodup_nil

/-- A block that was not in the heap joins the share of one key. -/
theorem grow [DecidableEq α] (shared : Apportioned heap share) (fresh : heap x = none)
    (grown : ∀ y, heap' y = if y = x then some n else heap y)
    (others : ∀ j, j ≠ k → share' j = share j) (more : (share' k).Perm ((x, n) :: share k)) :
    Apportioned heap' share' := by
  have unshared : ∀ j m, (x, m) ∉ share j := by
    intro j m held
    have occupied := (shared.blocks x m).mpr ⟨j, held⟩
    rw [fresh] at occupied
    cases occupied
  have entry : ∀ {j y m}, (y, m) ∈ share' j → (y = x ∧ m = n ∧ j = k) ∨ (y ≠ x ∧ (y, m) ∈ share j) := by
    intro j y m held
    by_cases same : j = k
    · subst same
      rcases List.mem_cons.mp (more.mem_iff.mp held) with new | old
      · exact .inl ⟨congrArg Prod.fst new, congrArg Prod.snd new, rfl⟩
      · exact .inr ⟨fun at_x => unshared j m (at_x ▸ old), old⟩
    · rw [others j same] at held
      exact .inr ⟨fun at_x => unshared j m (at_x ▸ held), held⟩
  have kept : ∀ {j y m}, (y, m) ∈ share j → (y, m) ∈ share' j := by
    intro j y m held
    by_cases same : j = k
    · subst same
      exact more.mem_iff.mpr (List.mem_cons_of_mem _ held)
    · rwa [others j same]
  constructor
  case blocks =>
    intro y m
    rw [grown y]
    constructor
    · intro found
      split at found
      · rename_i at_x
        cases found
        exact ⟨k, more.mem_iff.mpr (at_x ▸ List.mem_cons_self)⟩
      · obtain ⟨j, held⟩ := (shared.blocks y m).mp found
        exact ⟨j, kept held⟩
    · rintro ⟨j, held⟩
      rcases entry held with ⟨rfl, rfl, -⟩ | ⟨other, old⟩
      · rw [if_pos rfl]
      · rw [if_neg other]
        exact (shared.blocks y m).mpr ⟨j, old⟩
  case apart =>
    intro i j y m m' left right
    rcases entry left with ⟨rfl, -, rfl⟩ | ⟨other, old⟩ <;>
      rcases entry right with ⟨at_x, -, rfl⟩ | ⟨other', old'⟩
    · rfl
    · exact absurd rfl other'
    · exact absurd at_x other
    · exact shared.apart old old'
  case once =>
    intro j
    by_cases same : j = k
    · subst same
      rw [(more.map Prod.fst).nodup_iff, List.map_cons, List.nodup_cons]
      refine ⟨fun inside => ?_, shared.once j⟩
      obtain ⟨⟨y, m⟩, held, rfl⟩ := List.mem_map.mp inside
      exact unshared j m held
    · rw [others j same]
      exact shared.once j

/-- A block leaves the heap, and the share of its key. -/
theorem shrink [DecidableEq α] (shared : Apportioned heap share)
    (shrunk : ∀ y, heap' y = if y = x then none else heap y)
    (others : ∀ j, j ≠ k → share' j = share j) (less : (share k).Perm ((x, n) :: share' k)) :
    Apportioned heap' share' := by
  have mine : (x, n) ∈ share k := less.mem_iff.mpr List.mem_cons_self
  have split := (less.map Prod.fst).nodup_iff.mp (shared.once k)
  rw [List.map_cons, List.nodup_cons] at split
  obtain ⟨outside, rest⟩ := split
  have entry : ∀ {j y m}, (y, m) ∈ share' j → y ≠ x ∧ (y, m) ∈ share j := by
    intro j y m held
    by_cases same : j = k
    · subst same
      refine ⟨?_, less.mem_iff.mpr (List.mem_cons_of_mem _ held)⟩
      rintro rfl
      exact outside (List.mem_map.mpr ⟨_, held, rfl⟩)
    · rw [others j same] at held
      refine ⟨?_, held⟩
      rintro rfl
      exact same (shared.apart held mine)
  have kept : ∀ {j y m}, y ≠ x → (y, m) ∈ share j → (y, m) ∈ share' j := by
    intro j y m other held
    by_cases same : j = k
    · subst same
      rcases List.mem_cons.mp (less.mem_iff.mp held) with gone | stays
      · exact absurd (congrArg Prod.fst gone) other
      · exact stays
    · rwa [others j same]
  constructor
  case blocks =>
    intro y m
    rw [shrunk y]
    constructor
    · intro found
      split at found
      · cases found
      · rename_i other
        obtain ⟨j, held⟩ := (shared.blocks y m).mp found
        exact ⟨j, kept other held⟩
    · rintro ⟨j, held⟩
      obtain ⟨other, old⟩ := entry held
      rw [if_neg other]
      exact (shared.blocks y m).mpr ⟨j, old⟩
  case apart => exact fun left right => shared.apart (entry left).2 (entry right).2
  case once =>
    intro j
    by_cases same : j = k
    · subst same
      exact rest
    · rw [others j same]
      exact shared.once j

/-- The block of a share is in the heap. -/
theorem occupied (shared : Apportioned heap share) (held : (x, n) ∈ share k) : heap x = some n :=
  (shared.blocks x n).mpr ⟨k, held⟩

end Apportioned
end RlboxDynamic
