import RlboxDynamic.CallbackDispatch

/-! What a host callback receives when library code calls a trampoline through
a C function pointer of the callback's type, on i386: the caller pushes words,
the trampoline reads four 64-bit parameters, the host casts each to its type. -/
namespace RlboxDynamic

/-- The stack words of one argument, in order. -/
def stackWords (v : CValue .i386) : List (BitVec 32) :=
  if v.type.bits .i386 = 64 then [(v.extend 64).setWidth 32, (v.extend 64).extractLsb' 32 32]
  else [v.extend 32]

/-- What a callee finds above its return address: the words pushed for it, then
whatever the caller's frame holds. -/
def onStack : List (BitVec 32) → (Nat → BitVec 32) → Nat → BitVec 32
  | [], beyond, i => beyond i
  | word :: _, _, 0 => word
  | _ :: words, beyond, i + 1 => onStack words beyond i

/-- A 64-bit parameter, read as two words. -/
def slotAt (stack : Nat → BitVec 32) (i : Nat) : BitVec 64 := stack (2 * i + 1) ++ stack (2 * i)

/-- The parameters `a`, `b`, `c` and `d` of `trampoline_impl`. -/
def trampolineParams (stack : Nat → BitVec 32) : List (BitVec 64) := (List.range 4).map (slotAt stack)

/-- Parameter by parameter, what the host casts. -/
def received : List CType → (Nat → BitVec 32) → List (CValue .i386)
  | [], _ => []
  | type :: types, stack =>
    unpackSlot type (slotAt stack 0) :: received types fun i => stack (i + 2)

/-- For every argument values and whatever lies beyond them on the stack, the
host function gets those values, as its own parameter types have them. -/
def ArriveIntact (a : ArgTypes) (types : List CType) : Prop :=
  ∀ (values : List (CValue .i386)) (beyond : Nat → BitVec 32), values.map CValue.type = types →
    unpackArgs (trampolineParams (onStack (values.flatMap stackWords) beyond)) 0
        (types.map (a.of .i386)) =
      .ok (values.map fun v => v.cast (a.of .i386 v.type))

/-- Every parameter but the last takes two words, and the last is one whose slot
may have anything in its upper half. -/
structure LinesUp (a : ArgTypes) (types : List CType) : Prop where
  wide : ∀ type ∈ types.dropLast, type.bits .i386 = 64
  last : ∀ type, types.getLast? = some type →
    type ≠ .bool ∧ (a.of .i386 type).bits .i386 = type.bits .i386

section
variable {a : ArgTypes} {type : CType} {types : List CType} {v : CValue .i386}
  {words : List (BitVec 32)} {beyond stack : Nat → BitVec 32}

theorem unpack_trampolineParams (short : types.length ≤ 4) :
    unpackArgs (trampolineParams stack) 0 types = .ok (received types stack) := by
  have cast : ∀ (n : Nat) (types : List CType) (stack : Nat → BitVec 32), types.length ≤ n →
      List.zipWith unpackSlot types ((List.range n).map (slotAt stack)) = received types stack := by
    intro n
    induction n with
    | zero =>
      intro types stack short
      obtain rfl := List.length_eq_zero_iff.mp (Nat.le_zero.mp short)
      rfl
    | succ n ih =>
      intro types stack short
      cases types with
      | nil => rfl
      | cons type types =>
        simp only [List.length_cons] at short
        rw [List.range_succ_eq_map, List.map_cons, List.zipWith_cons_cons, List.map_map, received,
          ← ih types _ (by omega)]
        rfl
  rw [unpackArgs_eq (by simpa [trampolineParams] using short), List.drop_zero]
  exact congrArg _ (cast 4 types stack short)

theorem arriveIntact_iff (short : types.length ≤ 4) :
    ArriveIntact a types ↔
      ∀ (values : List (CValue .i386)) (beyond : Nat → BitVec 32), values.map CValue.type = types →
        received (types.map (a.of .i386)) (onStack (values.flatMap stackWords) beyond) =
          values.map fun v => v.cast (a.of .i386 v.type) := by
  have four : (types.map (a.of .i386)).length ≤ 4 := by simpa using short
  simp only [ArriveIntact, unpack_trampolineParams four, Except.ok.injEq]

/-! Two-word and one-word arguments. -/

theorem slotAt_wide (wide : v.type.bits .i386 = 64) :
    slotAt (onStack (stackWords v ++ words) beyond) 0 = v.extend 64 ∧
      (fun i => onStack (stackWords v ++ words) beyond (i + 2)) = onStack words beyond := by
  rw [stackWords, if_pos wide]
  refine ⟨?_, rfl⟩
  change (v.extend 64).extractLsb' 32 32 ++ (v.extend 64).setWidth 32 = v.extend 64
  generalize v.extend 64 = slot
  exact WordExtension.upper_append_lower (w := 32) (k := 32) slot

theorem setWidth_slotAt {k : Nat} (narrow : v.type.bits .i386 ≠ 64) (low : k ≤ 32) :
    (slotAt (onStack (stackWords v ++ words) beyond) 0).setWidth k = v.extend k := by
  have lower : ∀ (x y : BitVec 32), (x ++ y : BitVec 64).setWidth k = y.setWidth k := by
    intro x y
    rw [← BitVec.setWidth_setWidth_of_le (x ++ y : BitVec 64) low, BitVec.setWidth_append_eq_right]
  rw [stackWords, if_neg narrow, slotAt, lower]
  exact v.setWidth_extend_of_le low

/-- One argument at the end of the list. -/
theorem unpackSlot_last (notBool : v.type ≠ .bool)
    (same : (a.of .i386 v.type).bits .i386 = v.type.bits .i386) :
    unpackSlot (a.of .i386 v.type) (slotAt (onStack (stackWords v ++ words) beyond) 0) =
      v.cast (a.of .i386 v.type) := by
  by_cases wide : v.type.bits .i386 = 64
  · rw [(slotAt_wide wide).1]
    rfl
  · refine CValue.ofSlot_congr (mt (ArgTypes.of_eq_bool a).mp notBool) ?_
    rw [setWidth_slotAt wide (same ▸ CType.bits_le_32 wide)]
    exact (v.setWidth_extend_of_le (CType.bits_le _ _)).symm

/-- Arguments that line up with the trampoline's parameters arrive. -/
theorem received_of_linesUp (lines : LinesUp a types) (values : List (CValue .i386))
    (beyond : Nat → BitVec 32) (typed : values.map CValue.type = types) :
    received (types.map (a.of .i386)) (onStack (values.flatMap stackWords) beyond) =
      values.map fun v => v.cast (a.of .i386 v.type) := by
  induction values generalizing types with
  | nil => subst typed; rfl
  | cons v values ih =>
    subst typed
    rw [List.map_cons, List.map_cons, received, List.flatMap_cons, List.map_cons]
    cases values with
    | nil =>
      obtain ⟨notBool, same⟩ := lines.last v.type rfl
      rw [unpackSlot_last notBool same]
      rfl
    | cons w values =>
      have wide : v.type.bits .i386 = 64 := lines.wide v.type (by simp)
      have rest : LinesUp a ((w :: values).map CValue.type) :=
        { wide := fun type inside => lines.wide type (List.mem_cons_of_mem _ inside)
          last := fun type ends => lines.last type (by simpa using ends) }
      rw [(slotAt_wide wide).1, (slotAt_wide wide).2, ih rest rfl]
      rfl

/-! Where they do not line up, some argument is lost among zeros. -/

/-- The value 0 or 1 of a type. -/
def unit (type : CType) (one : Bool) : CValue .i386 := .ofSlot type (if one then 1 else 0)

theorem extend_unit (one : Bool) : (unit type one).extend 64 = if one then 1 else 0 := by
  cases one <;> cases type <;> decide

theorem onStack_zeros (zeros : ∀ word ∈ words, word = 0) (i : Nat) :
    onStack words (fun _ => 0) i = 0 := by
  induction words generalizing i with
  | nil => rfl
  | cons word words ih =>
    cases i with
    | zero => exact zeros word List.mem_cons_self
    | succ i => exact ih (fun w inside => zeros w (List.mem_cons_of_mem _ inside)) i

/-- The first word holds the low half; a two-word argument has one more. -/
theorem stackWords_eq (v : CValue .i386) :
    stackWords v = (v.extend 64).setWidth 32 ::
      if v.type.bits .i386 = 64 then [(v.extend 64).extractLsb' 32 32] else [] := by
  unfold stackWords
  split
  · rfl
  · rw [v.setWidth_extend_of_le (by omega)]

theorem stackWords_unit_false : ∀ word ∈ stackWords (unit type false), word = 0 := by
  rw [stackWords_eq, extend_unit]
  simp only [Bool.false_eq_true, ↓reduceIte]
  split <;> simp

theorem stackWords_unit_narrow (narrow : type.bits .i386 ≠ 64) :
    stackWords (unit type false) = [0] := by
  rw [stackWords_eq, if_neg (by exact narrow), extend_unit]
  rfl

theorem stackWords_unit_true (type : CType) :
    ∃ upper, stackWords (unit type true) = 1 :: upper ∧ ∀ word ∈ upper, word = 0 := by
  rw [stackWords_eq, extend_unit]
  refine ⟨_, rfl, ?_⟩
  split <;> simp

theorem ofSlot_zero_ne_one : (CValue.ofSlot type 0 : CValue .i386) ≠ CValue.ofSlot type 1 := by
  cases type <;> decide

/-- After a one-word parameter, the next one is read a word too far. -/
theorem second_lost (next : CType) (types : List CType) (narrow : type.bits .i386 ≠ 64) :
    ∃ values : List (CValue .i386), values.map CValue.type = type :: next :: types ∧
      received ((type :: next :: types).map (a.of .i386))
          (onStack (values.flatMap stackWords) fun _ => 0) ≠
        values.map fun v => v.cast (a.of .i386 v.type) := by
  refine ⟨unit type false :: unit next true :: types.map (unit · false), by simp [unit, Function.comp_def],
    fun same => ?_⟩
  obtain ⟨upper, pushed, zeros⟩ := stackWords_unit_true next
  have rest : ∀ word ∈ upper ++ (types.map (unit · false)).flatMap stackWords, word = 0 := by
    intro word inside
    rcases List.mem_append.mp inside with above | later
    · exact zeros word above
    · obtain ⟨v, among, inWords⟩ := List.mem_flatMap.mp later
      obtain ⟨type, -, rfl⟩ := List.mem_map.mp among
      exact stackWords_unit_false word inWords
  rw [List.flatMap_cons, List.flatMap_cons, stackWords_unit_narrow narrow, pushed] at same
  simp only [List.map_cons, received, List.cons.injEq, List.cons_append, List.nil_append] at same
  have zero : slotAt (fun i => onStack (0 :: 1 ::
      (upper ++ (types.map (unit · false)).flatMap stackWords)) (fun _ => 0) (i + 2)) 0 = 0 := by
    simp only [slotAt, onStack, onStack_zeros rest]
    rfl
  rw [zero] at same
  exact ofSlot_zero_ne_one (same.2.1.trans (congrArg _ (extend_unit true)))

theorem last_of_intact (intact : ∀ beyond, received ([type].map (a.of .i386))
      (onStack ([unit type false].flatMap stackWords) beyond) =
        [unit type false].map fun v => v.cast (a.of .i386 v.type)) :
    type ≠ .bool ∧ (a.of .i386 type).bits .i386 = type.bits .i386 := by
  have got := intact fun _ => 1
  revert got
  cases a <;> cases type <;> decide

theorem linesUp_of_received
    (intact : ∀ (values : List (CValue .i386)) (beyond : Nat → BitVec 32),
      values.map CValue.type = types →
        received (types.map (a.of .i386)) (onStack (values.flatMap stackWords) beyond) =
          values.map fun v => v.cast (a.of .i386 v.type)) : LinesUp a types := by
  induction types with
  | nil => exact ⟨by simp, by simp⟩
  | cons type types ih =>
    cases types with
    | nil =>
      have last := last_of_intact (a := a) fun beyond => intact [unit type false] beyond rfl
      exact ⟨by simp, by simpa using last⟩
    | cons next types =>
      have wide : type.bits .i386 = 64 := by
        by_contra narrow
        obtain ⟨values, typed, lost⟩ := second_lost (a := a) next types narrow
        exact lost (intact values _ typed)
      have rest : LinesUp a (next :: types) := by
        refine ih fun values beyond typed => ?_
        have later := (List.cons.inj (intact (unit type false :: values) beyond (congrArg _ typed))).2
        rwa [List.flatMap_cons, (slotAt_wide (v := unit type false) wide).2] at later
      refine ⟨?_, fun last ends => rest.last last (by simpa using ends)⟩
      simpa using ⟨wide, fun earlier inside => rest.wide earlier (by simpa using inside)⟩

end

/-- The host function gets the values passed, whatever they are, exactly where
each parameter but the last is a 64-bit one and the last is neither `bool` nor,
with RLBox's types, a `long`. -/
theorem callback_arguments_iff (a : ArgTypes) (types : List CType) (short : types.length ≤ 4) :
    ArriveIntact a types ↔ LinesUp a types := by
  rw [arriveIntact_iff short]
  exact ⟨linesUp_of_received, received_of_linesUp⟩

/-- One pointer arrives. -/
theorem pointer_argument_arrives : ArriveIntact .converted [.pointer] :=
  (callback_arguments_iff .converted [.pointer] (by decide)).mpr ⟨by simp, by simp; decide⟩

/-- Two `int` arguments, 5 and 7. -/
def fiveSeven : List (CValue .i386) := [.ofSlot .int 5, .ofSlot .int 7]

/-- The second does not arrive: the host reads 0. -/
theorem second_int_lost :
    unpackArgs (trampolineParams (onStack (fiveSeven.flatMap stackWords) fun _ => 0)) 0
        [.int, .int] = .ok [CValue.ofSlot (t := .i386) .int 5, .ofSlot .int 0] ∧
      ¬ ArriveIntact .converted [.int, .int] := by
  refine ⟨rfl, fun intact => ?_⟩
  have same := Except.ok.inj (intact fiveSeven (fun _ => 0) rfl)
  exact absurd same (by decide)

end RlboxDynamic
