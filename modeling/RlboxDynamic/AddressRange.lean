import Mathlib.Data.List.Pairwise
import Mathlib.Order.CompletePartialOrder
import Mathlib.Order.Interval.Set.Disjoint

/-! Ranges of addresses: which lie apart, which lie inside which, and when some
of them make up another with nothing left out and nothing twice. Nothing here
names a particular program. -/
namespace RlboxDynamic

structure AddressRange where
  start : Nat
  length : Nat
  deriving DecidableEq, Repr

namespace AddressRange

def stop (r : AddressRange) : Nat := r.start + r.length

def addresses (r : AddressRange) : Set Nat := Set.Ico r.start r.stop

/-- No address in common. -/
def Apart (r s : AddressRange) : Prop := Disjoint r.addresses s.addresses

def Inside (r s : AddressRange) : Prop := r.addresses ⊆ s.addresses

/-- The parts lie apart, and together are the whole. -/
structure Partition (parts : List AddressRange) (whole : AddressRange) : Prop where
  apart : parts.Pairwise Apart
  cover : ∀ x, x ∈ whole.addresses ↔ ∃ part ∈ parts, x ∈ part.addresses

/-- The ranges lie end to end from one address to another. -/
def Tiles : Nat → List AddressRange → Nat → Prop
  | start, [], stop => start = stop
  | start, r :: rs, stop => r.start = start ∧ Tiles r.stop rs stop

variable {r s : AddressRange} {rs : List AddressRange} {start stop x : Nat}

theorem mem_addresses : x ∈ r.addresses ↔ r.start ≤ x ∧ x < r.stop := Iff.rfl

theorem apart_of_le (before : r.stop ≤ s.start) : Apart r s :=
  Set.disjoint_left.mpr fun _ left right => absurd left.2 (Nat.not_lt.mpr (before.trans right.1))

theorem inside_of_le (begins : s.start ≤ r.start) (ends : r.stop ≤ s.stop) : Inside r s :=
  Set.Ico_subset_Ico begins ends

theorem Apart.mono {r' s' : AddressRange} (apart : Apart r s) (inside : r'.Inside r)
    (inside' : s'.Inside s) : Apart r' s' := Set.disjoint_of_subset inside inside' apart

theorem Inside.trans {whole : AddressRange} (inside : r.Inside s) (within : s.Inside whole) :
    r.Inside whole := Set.Subset.trans inside within

/-- A range inside another that is not empty is no longer. -/
theorem Inside.length_le (inside : r.Inside s) (positive : 0 < r.length) : r.length ≤ s.length := by
  have least : r.start ∈ s.addresses := inside ⟨Nat.le_refl _, Nat.lt_add_of_pos_right positive⟩
  have last : r.start + (r.length - 1) ∈ s.addresses :=
    inside ⟨Nat.le_add_right _ _, by simp only [stop]; omega⟩
  rw [mem_addresses] at least last
  simp only [stop] at least last
  omega

theorem start_le_stop : r.start ≤ r.stop := Nat.le_add_right _ _

theorem Tiles.le (tiles : Tiles start rs stop) : start ≤ stop := by
  induction rs generalizing start with
  | nil => exact Nat.le_of_eq tiles
  | cons r rs ih =>
    obtain ⟨rfl, rest⟩ := tiles
    exact start_le_stop.trans (ih rest)

/-- An empty range tiles nothing. -/
theorem Tiles.of_empty (tiles : Tiles start (r :: rs) stop) (empty : r.length = 0) :
    Tiles start rs stop := by
  obtain ⟨rfl, rest⟩ := tiles
  rwa [AddressRange.stop, empty] at rest

theorem Tiles.start_le (tiles : Tiles start rs stop) (inside : r ∈ rs) : start ≤ r.start := by
  induction rs generalizing start with
  | nil => cases inside
  | cons s rs ih =>
    obtain ⟨rfl, rest⟩ := tiles
    rcases List.mem_cons.mp inside with rfl | later
    · exact Nat.le_refl _
    · exact start_le_stop.trans (ih rest later)

theorem Tiles.pairwise_apart (tiles : Tiles start rs stop) : rs.Pairwise Apart := by
  induction rs generalizing start with
  | nil => exact .nil
  | cons r rs ih =>
    obtain ⟨-, rest⟩ := tiles
    exact .cons (fun s later => apart_of_le (rest.start_le later)) (ih rest)

theorem Tiles.mem_iff (tiles : Tiles start rs stop) :
    start ≤ x ∧ x < stop ↔ ∃ r ∈ rs, x ∈ r.addresses := by
  induction rs generalizing start with
  | nil =>
    have empty : start = stop := tiles
    simp only [List.not_mem_nil, false_and, exists_false, iff_false]
    omega
  | cons r rs ih =>
    obtain ⟨rfl, rest⟩ := tiles
    have further := rest.le
    have begins : r.start ≤ r.stop := start_le_stop
    simp only [List.mem_cons, exists_eq_or_imp]
    rw [← ih rest, mem_addresses]
    omega

theorem Tiles.stop_le (tiles : Tiles start rs stop) (inside : r ∈ rs) : r.stop ≤ stop := by
  induction rs generalizing start with
  | nil => cases inside
  | cons s rs ih =>
    obtain ⟨-, rest⟩ := tiles
    rcases List.mem_cons.mp inside with rfl | later
    · exact rest.le
    · exact ih rest later

/-- One more behind the last. -/
theorem Tiles.snoc (tiles : Tiles start rs stop) (behind : r.start = stop) :
    Tiles start (rs ++ [r]) r.stop := by
  induction rs generalizing start with
  | nil => exact ⟨behind.trans tiles.symm, rfl⟩
  | cons s rs ih =>
    obtain ⟨begins, rest⟩ := tiles
    exact ⟨begins, ih rest⟩

/-- Ranges end to end make up the range from the first to the last. -/
theorem Tiles.partition (tiles : Tiles r.start rs r.stop) : Partition rs r where
  apart := tiles.pairwise_apart
  cover _ := tiles.mem_iff

theorem Apart.symm (apart : Apart r s) : Apart s r := Disjoint.symm apart

instance : Std.Symm Apart := ⟨fun _ _ => Apart.symm⟩

/-- In any order. -/
theorem Partition.perm {parts others : List AddressRange} (partition : Partition parts r)
    (same : parts.Perm others) : Partition others r where
  apart := (same.pairwise_iff Apart.symm).mp partition.apart
  cover x := by simp only [partition.cover x, same.mem_iff]

end AddressRange
end RlboxDynamic
