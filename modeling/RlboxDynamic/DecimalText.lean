import Mathlib.Algebra.Order.Ring.Int

/-! Numbers as decimal text, written without leading zeros and read as the C
library reads them: white space, one sign, and the digits up to the first other
character, held to the range of the result. Nothing here names a particular
program. -/
namespace RlboxDynamic.DecimalText

/-- `isspace` in the C locale. -/
def isSpace (c : Char) : Bool := c == ' ' || (9 ≤ c.toNat && c.toNat ≤ 13)

/-- The digits at the front of a text, behind a number read so far. -/
def readDigits (value : Nat) : List Char → Nat
  | [] => value
  | c :: rest => if c.isDigit then readDigits (10 * value + (c.toNat - 48)) rest else value

/-- The number at the front of a text, 0 where there is none. -/
def read (text : String) : Int :=
  match text.toList.dropWhile isSpace with
  | '-' :: rest => -(readDigits 0 rest : Int)
  | rest => if rest.head? = some '+' then readDigits 0 rest.tail else readDigits 0 rest

/-- Held to the numbers of so many bits, with a sign. -/
def saturate (bits : Nat) (n : Int) : Int := max (-(2 ^ (bits - 1))) (min (2 ^ (bits - 1) - 1) n)

/-- `strtol` and `strtoll` to the base 10. -/
def strtoSigned (bits : Nat) (text : String) : Int := saturate bits (read text)

/-- `strtoull` to the base 10. A minus negates within the type. -/
def strtoUnsigned (bits : Nat) (text : String) : BitVec bits :=
  if (read text).natAbs < 2 ^ bits then BitVec.ofInt bits (read text) else BitVec.allOnes bits

/-! ## Round trips -/

theorem digitChar_digit {d : Nat} (small : d < 10) :
    d.digitChar.isDigit = true ∧ d.digitChar.toNat - 48 = d := by
  have each : ∀ d, d < 10 → (Nat.digitChar d).isDigit = true ∧ (Nat.digitChar d).toNat - 48 = d := by
    decide
  exact each d small

theorem readDigits_append {digits : List Char} (all : ∀ c ∈ digits, c.isDigit = true)
    (value : Nat) (rest : List Char) :
    readDigits value (digits ++ rest) = readDigits (readDigits value digits) rest := by
  induction digits generalizing value with
  | nil => rfl
  | cons c digits ih =>
    have first := all c List.mem_cons_self
    simp only [List.cons_append, readDigits, first, if_true]
    exact ih (fun d inside => all d (List.mem_cons_of_mem _ inside)) _

/-- The digits a number is written with are read back. -/
theorem readDigits_toDigits (n : Nat) : readDigits 0 (Nat.toDigits 10 n) = n := by
  induction n using Nat.strongRecOn with
  | ind n ih =>
    rw [Nat.toDigits_eq_if (by decide)]
    split
    · rename_i small
      obtain ⟨digit, value⟩ := digitChar_digit small
      simp [readDigits, digit, value]
    · rename_i large
      obtain ⟨digit, value⟩ := digitChar_digit (Nat.mod_lt n (show 0 < 10 by decide))
      have all : ∀ c ∈ Nat.toDigits 10 (n / 10), c.isDigit = true :=
        fun c inside => Nat.isDigit_of_mem_toDigits (by decide) (by decide) inside
      rw [readDigits_append all, ih (n / 10) (by omega)]
      simp only [readDigits, digit, value, if_true]
      omega

theorem not_isSpace_of_isDigit {c : Char} (digit : c.isDigit = true) : isSpace c = false := by
  simp only [Char.isDigit, Bool.and_eq_true, decide_eq_true_eq] at digit
  have low : 48 ≤ c.toNat := digit.1
  have notBlank : c ≠ ' ' := by
    rintro rfl
    exact absurd low (by decide)
  simp only [isSpace, Bool.or_eq_false_iff, beq_eq_false_iff_ne, Bool.and_eq_false_iff,
    decide_eq_false_iff_not]
  exact ⟨notBlank, .inr (by omega)⟩

theorem read_toString (n : Nat) : read (toString n) = n := by
  have text : (toString n).toList = Nat.toDigits 10 n := by
    rw [Nat.toString_eq_ofList_toDigits, String.toList_ofList]
  have digits : ∀ c ∈ Nat.toDigits 10 n, c.isDigit = true :=
    fun c inside => Nat.isDigit_of_mem_toDigits (by decide) (by decide) inside
  have value := readDigits_toDigits n
  rw [read, text]
  cases shape : Nat.toDigits 10 n with
  | nil => exact absurd shape Nat.toDigits_ne_nil
  | cons c rest =>
    rw [shape] at digits value
    have first := digits c List.mem_cons_self
    rw [List.dropWhile_cons_of_neg (by simp [not_isSpace_of_isDigit first])]
    have notMinus : c ≠ '-' := by rintro rfl; exact absurd first (by decide)
    have notPlus : c ≠ '+' := by rintro rfl; exact absurd first (by decide)
    split
    · rename_i same
      exact absurd (List.cons.inj same).1 notMinus
    · simp [notPlus, value]

theorem strtoSigned_toString {bits n : Nat} (fits : n < 2 ^ (bits - 1)) :
    strtoSigned bits (toString n) = n := by
  have bound : (n : Int) < 2 ^ (bits - 1) := by exact_mod_cast fits
  rw [strtoSigned, read_toString, saturate]
  omega

theorem strtoUnsigned_toString {bits n : Nat} (fits : n < 2 ^ bits) :
    strtoUnsigned bits (toString n) = BitVec.ofNat bits n := by
  rw [strtoUnsigned, read_toString, if_pos (by simpa using fits)]
  exact BitVec.ofInt_natCast _ _

end RlboxDynamic.DecimalText
