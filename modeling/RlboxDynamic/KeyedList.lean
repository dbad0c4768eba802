import Mathlib.Data.List.Nodup

/-! Lists with at most one entry for each key, where a new entry takes the place of
the one that has its key. Such a list is the last entry of each key of everything
put into it. Nothing here names a particular table. -/
namespace RlboxDynamic.KeyedList

variable {α κ : Type} [DecidableEq κ] {key : α → κ} {x y : α} {xs history : List α}

/-- In place of the entry with the same key, or at the end. -/
def put (key : α → κ) (x : α) : List α → List α
  | [] => [x]
  | y :: ys => if key y = key x then x :: ys else y :: put key x ys

theorem keys_put : (put key x xs).map key =
    if key x ∈ xs.map key then xs.map key else xs.map key ++ [key x] := by
  induction xs with
  | nil => simp [put]
  | cons y ys ih =>
    by_cases same : key y = key x
    · simp [put, same]
    · have other : key x ≠ key y := fun back => same back.symm
      simp only [put, if_neg same, List.map_cons, ih, List.mem_cons, other, false_or]
      split <;> rfl

theorem nodup_put (distinct : (xs.map key).Nodup) : ((put key x xs).map key).Nodup := by
  rw [keys_put]
  split
  · exact distinct
  · rename_i new
    exact List.nodup_append.mpr ⟨distinct, List.nodup_singleton _, fun k inside other last => by
      cases List.mem_singleton.mp last
      rintro rfl
      exact new inside⟩

theorem mem_put (distinct : (xs.map key).Nodup) :
    y ∈ put key x xs ↔ y = x ∨ y ∈ xs ∧ key y ≠ key x := by
  induction xs with
  | nil => simp [put]
  | cons z zs ih =>
    obtain ⟨outside, distinct⟩ := List.nodup_cons.mp distinct
    by_cases same : key z = key x
    · have kept : y ∈ zs → key y ≠ key x := fun inside back =>
        outside (same ▸ back ▸ List.mem_map_of_mem inside)
      rw [put, if_pos same, List.mem_cons, List.mem_cons]
      constructor
      · rintro (rfl | inside)
        · exact .inl rfl
        · exact .inr ⟨.inr inside, kept inside⟩
      · rintro (rfl | ⟨rfl | inside, other⟩)
        · exact .inl rfl
        · exact absurd same other
        · exact .inr inside
    · rw [put, if_neg same, List.mem_cons, List.mem_cons, ih distinct]
      constructor
      · rintro (rfl | rfl | ⟨inside, other⟩)
        · exact .inr ⟨.inl rfl, same⟩
        · exact .inl rfl
        · exact .inr ⟨.inr inside, other⟩
      · rintro (rfl | ⟨rfl | inside, other⟩)
        · exact .inr (.inl rfl)
        · exact .inl rfl
        · exact .inr (.inr ⟨inside, other⟩)

/-- Nothing with its key came after it. -/
def Last (key : α → κ) (history : List α) (x : α) : Prop :=
  ∃ before after, history = before ++ x :: after ∧ ∀ y ∈ after, key y ≠ key x

omit [DecidableEq κ] in
theorem last_snoc : Last key (history ++ [x]) y ↔ y = x ∨ Last key history y ∧ key y ≠ key x := by
  constructor
  · rintro ⟨before, after, split, none⟩
    rcases List.eq_nil_or_concat after with rfl | ⟨front, z, rfl⟩
    · obtain ⟨-, same⟩ := List.append_inj' split rfl
      cases same
      exact .inl rfl
    · rw [List.concat_eq_append, ← List.cons_append, ← List.append_assoc] at split
      obtain ⟨rest, same⟩ := List.append_inj' split rfl
      cases same
      refine .inr ⟨⟨before, front, rest, fun z inside => none z ?_⟩, fun back => none x ?_ back.symm⟩
      · exact List.concat_eq_append ▸ List.mem_append_left _ inside
      · exact List.concat_eq_append ▸ List.mem_append_right _ (List.mem_singleton_self x)
  · rintro (rfl | ⟨⟨before, after, rfl, none⟩, other⟩)
    · exact ⟨history, [], rfl, fun z inside => by cases inside⟩
    · refine ⟨before, after ++ [x], by simp, fun z inside => ?_⟩
      rcases List.mem_append.mp inside with old | new
      · exact none z old
      · cases List.mem_singleton.mp new
        exact fun back => other back.symm

/-- The list has the last entry of each key. -/
structure Tracks (key : α → κ) (history xs : List α) : Prop where
  distinct : (xs.map key).Nodup
  mem_iff : ∀ y, y ∈ xs ↔ Last key history y

omit [DecidableEq κ] in
theorem tracks_nil : Tracks key [] [] where
  distinct := List.nodup_nil
  mem_iff y := by
    constructor
    · intro inside
      cases inside
    · rintro ⟨before, after, split, -⟩
      cases before <;> cases split

theorem Tracks.put (tracks : Tracks key history xs) (x : α) :
    Tracks key (history ++ [x]) (put key x xs) where
  distinct := nodup_put tracks.distinct
  mem_iff y := by rw [mem_put tracks.distinct, last_snoc, tracks.mem_iff]

end RlboxDynamic.KeyedList
