import Mathlib.Data.List.AList

/-! Maps with one value for each key, with the three updates of an
`unordered_map` and what each of them leaves at every key. -/
namespace RlboxDynamic

/-- At most one value for each key, in some order of the entries. -/
abbrev KeyMap (K V : Type) := AList fun _ : K => V

namespace KeyMap
variable {K V : Type} [DecidableEq K]

/-- `emplace` keeps the value a key already has. -/
def emplace (k : K) (v : V) (m : KeyMap K V) : KeyMap K V :=
  if k ∈ m then m else m.insert k v

/-- The value a key has, changed. A key without one stays without. -/
def amend (k : K) (f : V → V) (m : KeyMap K V) : KeyMap K V :=
  match m.lookup k with
  | none => m
  | some v => m.insert k (f v)

theorem lookup_insert (k j : K) (v : V) (m : KeyMap K V) :
    (AList.insert k v m).lookup j = if j = k then some v else m.lookup j := by
  split
  · subst j; exact AList.lookup_insert m
  · rename_i different; exact AList.lookup_insert_ne different

theorem lookup_erase (k j : K) (m : KeyMap K V) :
    (AList.erase k m).lookup j = if j = k then none else m.lookup j := by
  split
  · subst j; exact AList.lookup_erase k m
  · rename_i different; exact AList.lookup_erase_ne different

theorem lookup_emplace (k j : K) (v : V) (m : KeyMap K V) :
    (emplace k v m).lookup j = if j = k then some ((m.lookup k).getD v) else m.lookup j := by
  unfold emplace
  by_cases held : k ∈ m
  · obtain ⟨value, found⟩ := Option.isSome_iff_exists.mp (AList.lookup_isSome.mpr held)
    rw [if_pos held]
    split
    · subst j; simp [found]
    · rfl
  · rw [if_neg held, lookup_insert, AList.lookup_eq_none.mpr held, Option.getD_none]

/-- Emplacing never changes a value that is already there. -/
theorem lookup_emplace_of_some {k j : K} {v u : V} {m : KeyMap K V} (found : m.lookup j = some u) :
    (emplace k v m).lookup j = some u := by
  rw [lookup_emplace]
  split
  · subst j; simp [found]
  · exact found

theorem lookup_amend (k j : K) (f : V → V) (m : KeyMap K V) :
    (amend k f m).lookup j = if j = k then (m.lookup k).map f else m.lookup j := by
  unfold amend
  by_cases same : j = k
  · subst same
    cases found : m.lookup j with
    | none => simp [found]
    | some v => simp
  · cases m.lookup k with
    | none => rw [if_neg same]
    | some v => rw [lookup_insert, if_neg same, if_neg same]

end KeyMap
end RlboxDynamic
