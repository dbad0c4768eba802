import Mathlib.Data.List.GetD
import Mathlib.Data.List.Rotate
import RlboxDynamic.MetaPolicy
import RlboxDynamic.OrderStatistics

/-! What a latency ring remembers: the last samples pushed, their number, and
the lower median of them. -/
namespace RlboxDynamic.LatencyRing
open OrderStatistics

variable {t : Target} {D : Type}

/-- A fresh ring after the pushes. -/
def pushAll [Millis D] (t : Target) (pushes : List D) : LatencyRing t D := pushes.foldl push empty

/-- The last `n` of the pushes. -/
def recent (n : Nat) (pushes : List D) : List D := pushes.drop (pushes.length - n)

/-- The ring counts the samples it keeps and gives the lower median of them, 0
where there are none. -/
structure Summarizes [Millis D] [LinearOrder D] (ring : LatencyRing t D) (pushes : List D) : Prop where
  size : ring.size = min pushes.length N
  fresh : recent ring.size pushes = [] → ring.median = 0
  median : recent ring.size pushes ≠ [] →
    ∀ m, IsLowerMedian (recent ring.size pushes) m ↔ m = ring.median

/-! ## What the slots hold -/

/-- Each of the last pushes is in its slot. -/
structure Holds (ring : LatencyRing t D) (pushes : List D) : Prop where
  counted : ring.writes.toNat = pushes.length % 2 ^ t.ptrBits
  slot : ∀ j < pushes.length, pushes.length ≤ j + N →
    ring.samples.toList[j % N]? = pushes[j]?

variable {ring : LatencyRing t D} {pushes : List D}

theorem slot_dvd : N ∣ 2 ^ t.ptrBits := by cases t <;> decide

/-- The counter's wrap leaves the slots in turn. -/
theorem Holds.turn (holds : Holds ring pushes) : ring.writes.toNat % N = pushes.length % N := by
  rw [holds.counted, Nat.mod_mod_of_dvd _ slot_dvd]

theorem holds_empty [Millis D] : Holds (empty : LatencyRing t D) [] where
  counted := by simp [empty]
  slot _ inside := nomatch inside

theorem Holds.push (holds : Holds ring pushes) (ms : D) : Holds (ring.push ms) (pushes ++ [ms]) where
  counted := by
    have one : (1 : SizeT t).toNat = 1 := BitVec.toNat_one t.ptrBits_pos
    rw [LatencyRing.push, BitVec.toNat_add, holds.counted, one, List.length_append,
      List.length_singleton, Nat.mod_add_mod]
  slot j inside near := by
    have turn := holds.turn
    have slots : pushes.length % N < ring.samples.toList.length := by
      simpa using Nat.mod_lt pushes.length (show 0 < N by decide)
    rw [List.length_append, List.length_singleton] at inside near
    rw [LatencyRing.push, Vector.toList_set, List.getElem?_set]
    by_cases last : j = pushes.length
    · subst last
      rw [if_pos turn, turn, if_pos slots, List.getElem?_concat_length]
    · -- the slot written is the one of eight pushes ago
      have apart : ring.writes.toNat % N ≠ j % N := by
        rw [turn]
        simp only [N] at near ⊢
        omega
      have earlier : j < pushes.length := by omega
      rw [if_neg apart, List.getElem?_append_left earlier]
      exact holds.slot j earlier (by omega)

theorem holds_pushAll [Millis D] (pushes : List D) : Holds (pushAll t pushes) pushes := by
  induction pushes using List.reverseRecOn with
  | nil => exact holds_empty
  | append_singleton pushes ms ih =>
    rw [pushAll, List.foldl_append]
    exact ih.push ms

theorem size_le : ring.size ≤ N := by
  unfold size
  split <;> omega

theorem Holds.size_le_length (holds : Holds ring pushes) : ring.size ≤ pushes.length := by
  have wrapped := Nat.mod_le pushes.length (2 ^ t.ptrBits)
  have counted := holds.counted
  unfold size
  split <;> omega

theorem length_recent (within : n ≤ pushes.length) : (recent n pushes).length = n := by
  rw [recent, List.length_drop]
  omega

theorem getElem?_recent (n i : Nat) :
    (recent n pushes)[i]? = pushes[pushes.length - n + i]? := List.getElem?_drop

/-- While the counter is below eight, the used slots are the last pushes in
order. -/
theorem Holds.partly_filled (holds : Holds ring pushes) (few : ring.writes.toNat < N) :
    ring.samples.toList.take ring.size = recent ring.size pushes := by
  have within := holds.size_le_length
  have turn := holds.turn
  have used : ring.size = ring.writes.toNat := if_pos few
  have kept : ring.size ≤ N := size_le
  apply List.ext_getElem?
  intro i
  by_cases low : i < ring.size
  · have place : (pushes.length - ring.size + i) % N = i := by
      simp only [N] at turn few ⊢
      omega
    have slot := holds.slot (pushes.length - ring.size + i) (by omega) (by omega)
    rw [List.getElem?_take_of_lt low, getElem?_recent, ← slot, place]
  · rw [List.getElem?_eq_none (by simp; omega),
      List.getElem?_eq_none (by rw [length_recent within]; omega)]

/-- From then on they are the last eight, turned. -/
theorem Holds.wrapped (holds : Holds ring pushes) (many : N ≤ ring.writes.toNat) :
    ring.samples.toList.take ring.size =
      (recent ring.size pushes).rotate (N - pushes.length % N) := by
  have within := holds.size_le_length
  have full : ring.size = N := if_neg (Nat.not_lt.mpr many)
  rw [full] at within ⊢
  have eight := length_recent within
  apply List.ext_getElem?
  intro i
  by_cases low : i < N
  · have turned : (i + (N - pushes.length % N)) % N < N := Nat.mod_lt _ (by decide)
    have place : (pushes.length - N + (i + (N - pushes.length % N)) % N) % N = i := by
      simp only [N] at within low ⊢
      omega
    have slot := holds.slot (pushes.length - N + (i + (N - pushes.length % N)) % N) (by omega)
      (by omega)
    rw [List.getElem?_take_of_lt low, List.getElem?_rotate (by omega), eight, getElem?_recent,
      ← slot, place]
  · rw [List.getElem?_eq_none (by simp; omega),
      List.getElem?_eq_none (by rw [List.length_rotate, eight]; omega)]

theorem Holds.perm (holds : Holds ring pushes) :
    (ring.samples.toList.take ring.size).Perm (recent ring.size pushes) := by
  rcases Nat.lt_or_ge ring.writes.toNat N with few | many
  · rw [holds.partly_filled few]
  · rw [holds.wrapped many]
    exact List.rotate_perm _ _

theorem Holds.recent_eq_nil (holds : Holds ring pushes) :
    recent ring.size pushes = [] ↔ ring.size = 0 := by
  rw [← List.length_eq_zero_iff, length_recent holds.size_le_length]

/-! ## What it tells -/

/-- The counter tells the number of samples until it wraps, and where it has
wrapped to eight or more. -/
theorem Holds.size_eq_min_iff (holds : Holds ring pushes) :
    ring.size = min pushes.length N ↔
      pushes.length < 2 ^ t.ptrBits ∨ N ≤ pushes.length % 2 ^ t.ptrBits := by
  have counted := holds.counted
  have wrapped := Nat.mod_le pushes.length (2 ^ t.ptrBits)
  have wide : N ≤ 2 ^ t.ptrBits := Nat.le_of_dvd (Nat.two_pow_pos _) slot_dvd
  unfold size
  rw [counted]
  constructor
  · intro told
    by_contra neither
    obtain ⟨long, low⟩ := not_or.mp neither
    rw [if_pos (Nat.lt_of_not_le low)] at told
    omega
  · rintro (short | high)
    · rw [Nat.mod_eq_of_lt short]
      split <;> omega
    · rw [if_neg (Nat.not_lt.mpr high)]
      omega

variable [Millis D]

theorem median_of_empty (none : ring.size = 0) : ring.median = 0 := by simp [median, none]

/-- The two index expressions are one. -/
theorem median_eq_getD (some_ : ring.size ≠ 0) :
    ring.median =
      ((ring.samples.toList.take ring.size).mergeSort (fun a b => !Millis.lt b a)).getD
        ((ring.size - 1) / 2) 0 := by
  have index : (if ring.size / 2 = 0 then 0 else (ring.size - 1) / 2) = (ring.size - 1) / 2 := by
    split <;> omega
  have inside : (ring.size - 1) / 2 <
      ((ring.samples.toList.take ring.size).mergeSort (fun a b => !Millis.lt b a)).length := by
    have bound : ring.size ≤ N := size_le
    rw [List.length_mergeSort, List.length_take, Vector.length_toList, Nat.min_eq_left bound]
    omega
  simp only [median, if_neg some_, index]
  rw [List.getD_append _ _ _ _ inside]

section
variable [LinearOrder D]

/-- Whatever the counter, the median is that of the last samples it counts. -/
theorem Holds.median (holds : Holds ring pushes)
    (compares : ∀ a b : D, Millis.lt a b = decide (a < b)) (some_ : ring.size ≠ 0) :
    IsLowerMedian (recent ring.size pushes) ring.median := by
  have order : (fun a b : D => !Millis.lt b a) = fun a b => decide (a ≤ b) := by
    funext a b
    rw [compares, ← decide_not, decide_eq_decide, not_lt]
  have sorted := List.pairwise_mergeSort' (· ≤ ·) (ring.samples.toList.take ring.size)
  have same := (List.mergeSort_perm (ring.samples.toList.take ring.size)
    (fun a b => decide (a ≤ b))).trans holds.perm
  have inside : (ring.size - 1) / 2 <
      ((ring.samples.toList.take ring.size).mergeSort fun a b => decide (a ≤ b)).length := by
    rw [same.length_eq, length_recent holds.size_le_length]
    omega
  rw [median_eq_getD some_, order, List.getD_eq_getElem _ _ inside, IsLowerMedian,
    length_recent holds.size_le_length]
  exact (isNth_of_sorted sorted inside).perm same

theorem summarizes_iff (compares : ∀ a b : D, Millis.lt a b = decide (a < b)) (pushes : List D) :
    Summarizes (pushAll t pushes) pushes ↔
      pushes.length < 2 ^ t.ptrBits ∨ N ≤ pushes.length % 2 ^ t.ptrBits := by
  have holds := holds_pushAll (t := t) pushes
  rw [← holds.size_eq_min_iff]
  constructor
  · exact Summarizes.size
  · intro told
    refine ⟨told, fun none => median_of_empty (holds.recent_eq_nil.mp none), fun some_ m => ?_⟩
    have nth := holds.median compares fun none => some_ (holds.recent_eq_nil.mpr none)
    exact ⟨fun other => other.unique nth, fun same => same ▸ nth⟩

theorem summarizes_iff_three_pushes :
    Summarizes (pushAll .i386 [(7 : Int), 3, 5]) [7, 3, 5] ↔
      3 < 2 ^ 32 ∨ N ≤ 3 % 2 ^ 32 :=
  summarizes_iff (fun _ _ => rfl) [7, 3, 5]

/-- After as many pushes as the counter counts, the ring has no sample. -/
theorem not_summarizes_after_wrap :
    ¬ Summarizes (pushAll .i386 (List.replicate (2 ^ 32) (1 : Int)))
      (List.replicate (2 ^ 32) (1 : Int)) := by
  intro told
  have kept := (holds_pushAll (t := .i386) (List.replicate (2 ^ 32) (1 : Int))).size_eq_min_iff.mp
    told.size
  rw [List.length_replicate] at kept
  revert kept
  decide

end
end RlboxDynamic.LatencyRing
