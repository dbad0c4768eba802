import Mathlib.Data.List.Basic
import Mathlib.Tactic.Common

/-! Words as bytes in memory, the least significant first, and arrays of them.
Nothing here names a particular program. -/
namespace RlboxDynamic.LittleEndian

abbrev Byte := BitVec 8

/-- The first `n` bytes of a word. -/
def wordBytes (n : Nat) (x : BitVec w) : List Byte :=
  (List.range n).map fun i => x.extractLsb' (8 * i) 8

/-- The word with these bytes, cut to its width. -/
def bytesWord (w : Nat) : List Byte → BitVec w
  | [] => 0
  | b :: bs => b.setWidth w ||| bytesWord w bs <<< 8

/-- An array. -/
def wordsBytes (n : Nat) (xs : List (BitVec w)) : List Byte := xs.flatMap (wordBytes n)

/-- The array of `count` words of `n` bytes each. -/
def bytesWords (w n : Nat) : (count : Nat) → List Byte → List (BitVec w)
  | 0, _ => []
  | count + 1, bytes => bytesWord w (bytes.take n) :: bytesWords w n count (bytes.drop n)

@[simp] theorem length_wordBytes (n : Nat) (x : BitVec w) : (wordBytes n x).length = n := by
  simp [wordBytes]

@[simp] theorem length_wordsBytes (n : Nat) (xs : List (BitVec w)) :
    (wordsBytes n xs).length = n * xs.length := by
  induction xs with
  | nil => rfl
  | cons x xs ih =>
    rw [wordsBytes, List.flatMap_cons, List.length_append, length_wordBytes]
    rw [wordsBytes] at ih
    rw [ih, List.length_cons, Nat.mul_succ, Nat.add_comm]

theorem getLsbD_bytesWord (bytes : List Byte) (i : Nat) :
    (bytesWord w bytes).getLsbD i = (decide (i < w) && (bytes.getD (i / 8) 0).getLsbD (i % 8)) := by
  induction bytes generalizing i with
  | nil => simp [bytesWord]
  | cons b bs ih =>
    rw [bytesWord, BitVec.getLsbD_or, BitVec.getLsbD_setWidth, BitVec.getLsbD_shiftLeft, ih]
    by_cases low : i < 8
    · have zero : i / 8 = 0 := Nat.div_eq_of_lt low
      have same : i % 8 = i := Nat.mod_eq_of_lt low
      simp [low, zero, same]
    · obtain ⟨j, rfl⟩ : ∃ j, i = j + 8 := ⟨i - 8, by omega⟩
      have next : (j + 8) / 8 = j / 8 + 1 := by omega
      have same : (j + 8) % 8 = j % 8 := by omega
      have above : b.getLsbD (j + 8) = false := BitVec.getLsbD_of_ge b _ (by omega)
      simp only [above, next, same, List.getD_cons_succ, Nat.add_sub_cancel]
      by_cases inside : j + 8 < w
      · have below : j < w := by omega
        simp [inside, below]
      · simp [inside]

theorem bytesWord_wordBytes (x : BitVec w) (wide : w ≤ 8 * n) : bytesWord w (wordBytes n x) = x := by
  apply BitVec.eq_of_getLsbD_eq
  intro i inside
  have place : i / 8 < n := by omega
  have bit : i % 8 < 8 := Nat.mod_lt i (by omega)
  rw [getLsbD_bytesWord]
  simp only [inside, decide_true, Bool.true_and, wordBytes, List.getD_eq_getElem?_getD,
    List.getElem?_map, List.getElem?_range place, Option.map_some, Option.getD_some,
    BitVec.getLsbD_extractLsb', bit]
  rw [Nat.div_add_mod]

/-- An array is read back from its bytes, whatever is after them. -/
theorem bytesWords_append (xs : List (BitVec w)) (rest : List Byte) (wide : w ≤ 8 * n) :
    bytesWords w n xs.length (wordsBytes n xs ++ rest) = xs := by
  induction xs with
  | nil => rfl
  | cons x xs ih =>
    have split : wordsBytes n (x :: xs) ++ rest = wordBytes n x ++ (wordsBytes n xs ++ rest) := by
      rw [wordsBytes, List.flatMap_cons, List.append_assoc]
      rfl
    rw [List.length_cons, bytesWords, split, List.take_left' (length_wordBytes n x),
      List.drop_left' (length_wordBytes n x), bytesWord_wordBytes x wide, ih]

theorem bytesWords_wordsBytes (xs : List (BitVec w)) (wide : w ≤ 8 * n) :
    bytesWords w n xs.length (wordsBytes n xs) = xs := by
  have read := bytesWords_append xs [] wide
  rwa [List.append_nil] at read

end RlboxDynamic.LittleEndian
