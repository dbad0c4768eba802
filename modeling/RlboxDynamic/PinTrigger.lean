import RlboxDynamic.MetaInvoke
import RlboxDynamic.Streaks

/-! When a symbol gets pinned. The record counts the run of equal picks that
ends the dispatches so far, and compares the count with the threshold where
the run goes on, but not where a new one starts. -/
namespace RlboxDynamic
namespace MetaSymbolRecord

variable {t : Target} {D : Type} {n : BitVec 32} {which b : MetaBackend} {elapsed : D}
  {r : MetaSymbolRecord t D}

/-- The value `pinned` is given for a backend. -/
def pinCode : MetaBackend → BitVec 8
  | .process => 1#8
  | .wasm => 2#8

theorem pinCode_ne_zero : pinCode b ≠ 0#8 := by cases b <;> decide

/-- The record `impl_lookup_symbol` makes. -/
def fresh [Millis D] (name : String) (processSym wasmSym : TPointer t) : MetaSymbolRecord t D where
  name
  processSym
  wasmSym
  processLatency := .empty
  wasmLatency := .empty
  pinned := 0#8
  consecutiveSamePicks := 0#32
  lastPick := .process

/-! What one sample does to the three pin fields. -/

theorem pushSample_same (elapsed : D) (counting : n ≠ 0#32) (same : r.lastPick = which) :
    (r.pushSample which n elapsed).consecutiveSamePicks = r.consecutiveSamePicks + 1 ∧
      (r.pushSample which n elapsed).lastPick = which ∧
      (r.pushSample which n elapsed).pinned =
        if n ≤ r.consecutiveSamePicks + 1 then pinCode which else r.pinned := by
  unfold pushSample
  cases which <;> simp only [counting, same, if_false, if_true] <;> split <;>
    simp_all [pinCode]

theorem pushSample_switch (elapsed : D) (counting : n ≠ 0#32) (other : r.lastPick ≠ which) :
    (r.pushSample which n elapsed).consecutiveSamePicks = 1#32 ∧
      (r.pushSample which n elapsed).lastPick = which ∧
      (r.pushSample which n elapsed).pinned = r.pinned := by
  unfold pushSample
  cases which <;> simp [counting, other]

theorem pushSample_uncounted :
    (r.pushSample which 0#32 elapsed).consecutiveSamePicks = r.consecutiveSamePicks ∧
      (r.pushSample which 0#32 elapsed).lastPick = r.lastPick ∧
      (r.pushSample which 0#32 elapsed).pinned = r.pinned := by
  unfold pushSample
  cases which <;> simp

/-- A completed dispatch: where it went and how long it took. -/
structure Completed (D : Type) where
  which : MetaBackend
  elapsed : D
  deriving DecidableEq

def picks (done : List (Completed D)) : List MetaBackend := done.map Completed.which

/-- The record after the dispatches in order, all under one threshold. -/
def pushSamples (n : BitVec 32) (r : MetaSymbolRecord t D) (done : List (Completed D)) :
    MetaSymbolRecord t D :=
  done.foldl (fun r d => r.pushSample d.which n d.elapsed) r

theorem pushSamples_concat (done : List (Completed D)) (last : Completed D) :
    r.pushSamples n (done ++ [last]) = (r.pushSamples n done).pushSample last.which n last.elapsed := by
  simp [pushSamples]

/-- The pin fields against the picks so far. The count is a `uint32_t` and may
have wrapped. -/
structure Counts (n : BitVec 32) (r : MetaSymbolRecord t D) (xs : List MetaBackend) : Prop where
  current : r.consecutiveSamePicks.toNat = trailing r.lastPick xs % 2 ^ 32
  others : ∀ b, b ≠ r.lastPick → trailing b xs = 0
  triggered : r.pinned ≠ 0#8 ↔ ∃ b, HoldsStreak n.toNat b xs

/-- The next pick does not complete a streak by starting it: only a threshold
of one has such streaks, and a first pick of the backend the record does not
start out with. -/
def Compared (n : BitVec 32) (r : MetaSymbolRecord t D) (xs : List MetaBackend)
    (which : MetaBackend) : Prop :=
  n = 1#32 → r.lastPick ≠ which → xs ≠ []

variable {xs : List MetaBackend}

theorem Counts.fresh [Millis D] {name : String} {processSym wasmSym : TPointer t}
    (positive : n ≠ 0#32) :
    Counts n (fresh name processSym wasmSym : MetaSymbolRecord t D) [] where
  current := rfl
  others _ _ := trailing_nil
  triggered := by
    have none : ∀ b : MetaBackend, ¬ HoldsStreak n.toNat b [] := fun b =>
      not_holdsStreak_nil fun zero => positive (BitVec.eq_of_toNat_eq zero)
    simp [MetaSymbolRecord.fresh, none]

/-- While no streak is complete the count has not wrapped. -/
theorem Counts.reaches (counts : Counts n r xs) :
    n ≤ r.consecutiveSamePicks + 1 ∨ (∃ b, HoldsStreak n.toNat b xs) ↔
      n.toNat ≤ trailing r.lastPick xs + 1 ∨ ∃ b, HoldsStreak n.toNat b xs := by
  have current := counts.current
  have bound := n.isLt
  have one : (1 : BitVec 32).toNat = 1 := rfl
  rw [BitVec.le_def, BitVec.toNat_add, current, one]
  constructor
  · rintro (reached | held)
    · exact .inl (by omega)
    · exact .inr held
  · rintro (long | held)
    · by_cases already : n.toNat ≤ trailing r.lastPick xs
      · exact .inr ⟨_, .of_trailing already⟩
      · exact .inl (by omega)
    · exact .inr held

theorem Counts.push (elapsed : D) (counts : Counts n r xs) (positive : n ≠ 0#32)
    (compared : Compared n r xs which) :
    Counts n (r.pushSample which n elapsed) (xs ++ [which]) := by
  have nonzero : n.toNat ≠ 0 := fun zero => positive (BitVec.eq_of_toNat_eq zero)
  have held : (∃ b, HoldsStreak n.toNat b (xs ++ [which])) ↔
      n.toNat ≤ trailing which xs + 1 ∨ ∃ b, HoldsStreak n.toNat b xs := by
    simp only [holdsStreak_concat nonzero, exists_or, exists_eq_left']
    rw [or_comm]
  by_cases same : r.lastPick = which
  · subst same
    obtain ⟨count, last, pinned⟩ := pushSample_same (r := r) elapsed positive rfl
    refine ⟨?_, ?_, ?_⟩
    · have one : (1 : BitVec 32).toNat = 1 := rfl
      rw [count, last, trailing_concat_self, BitVec.toNat_add, counts.current, one]
      omega
    · intro b other
      rw [last] at other
      exact trailing_concat_of_ne (Ne.symm other)
    · rw [held, ← counts.reaches, ← counts.triggered, pinned]
      split
      · rename_i reached
        exact iff_of_true pinCode_ne_zero (.inl reached)
      · rename_i short
        exact (or_iff_right short).symm
  · obtain ⟨count, last, pinned⟩ := pushSample_switch elapsed positive same
    have started : trailing which xs = 0 := counts.others which (Ne.symm same)
    refine ⟨?_, ?_, ?_⟩
    · rw [count, last, trailing_concat_self, started]
      rfl
    · intro b other
      rw [last] at other
      exact trailing_concat_of_ne (Ne.symm other)
    · rw [held, pinned, counts.triggered, started]
      refine ⟨.inr, fun either => either.elim (fun short => ?_) id⟩
      -- a streak of one was there before, as some dispatch was
      have one : n.toNat = 1 := by omega
      obtain ⟨b, inside⟩ := List.exists_mem_of_ne_nil xs
        (compared (BitVec.eq_of_toNat_eq one) same)
      exact ⟨b, by rw [one]; exact holdsStreak_one inside⟩

/-- The dispatch that completes the first streak pins to its backend. -/
theorem Counts.first (counts : Counts n r xs) (positive : n ≠ 0#32)
    (compared : Compared n r xs which) (none : ∀ c, ¬ HoldsStreak n.toNat c xs)
    (held : HoldsStreak n.toNat b (xs ++ [which])) :
    (r.pushSample which n elapsed).pinned = pinCode b := by
  have nonzero : n.toNat ≠ 0 := fun zero => positive (BitVec.eq_of_toNat_eq zero)
  obtain ⟨rfl, long⟩ := ((holdsStreak_concat nonzero).mp held).resolve_left (none b)
  by_cases same : r.lastPick = which
  · subst same
    have reached := (counts.reaches.mpr (.inl long)).resolve_right fun ⟨c, early⟩ => none c early
    rw [(pushSample_same _ positive rfl).2.2, if_pos reached]
  · have started : trailing which xs = 0 := counts.others which (Ne.symm same)
    have one : n.toNat = 1 := by omega
    obtain ⟨c, inside⟩ := List.exists_mem_of_ne_nil xs
      (compared (BitVec.eq_of_toNat_eq one) same)
    exact absurd (by rw [one]; exact holdsStreak_one inside) (none c)

/-- What pinning promises right after a dispatch: the symbol is pinned once the
dispatches so far hold a streak of the threshold, and at the first such moment
to the backend of that streak. -/
structure PinLaw (n : BitVec 32) (start : MetaSymbolRecord t D) (done : List (Completed D))
    (last : Completed D) : Prop where
  triggered : (start.pushSamples n (done ++ [last])).pinned ≠ 0#8 ↔
    ∃ b, HoldsStreak n.toNat b (picks (done ++ [last]))
  first : (∀ c, ¬ HoldsStreak n.toNat c (picks done)) →
    ∀ b, HoldsStreak n.toNat b (picks (done ++ [last])) →
      (start.pushSamples n (done ++ [last])).pinned = pinCode b

section Exact
variable [Millis D] {name : String} {processSym wasmSym : TPointer t} {ds done : List (Completed D)}

/-- The first pick is compared unless it is a wasm pick under a threshold of
one. -/
def StartsCompared (n : BitVec 32) (ds : List (Completed D)) : Prop :=
  n ≠ 1#32 ∨ ds.head?.map Completed.which ≠ some .wasm

theorem compared_upTo {last : Completed D} (starts : StartsCompared n ds)
    (upTo : done ++ [last] <+: ds) :
    Compared n ((fresh name processSym wasmSym).pushSamples n done : MetaSymbolRecord t D)
      (picks done) last.which := by
  intro one other nothing
  have nil : done = [] := List.map_eq_nil_iff.mp nothing
  subst nil
  obtain ⟨rest, rfl⟩ := upTo
  cases picked : last.which with
  | process => exact other picked.symm
  | wasm => exact starts.elim (· one) (· (congrArg some picked))

theorem counts_upTo (positive : n ≠ 0#32) (starts : StartsCompared n ds) (upTo : done <+: ds) :
    Counts n ((fresh name processSym wasmSym).pushSamples n done : MetaSymbolRecord t D)
      (picks done) := by
  induction done using List.reverseRecOn with
  | nil => exact .fresh positive
  | append_singleton done last ih =>
    have before := ih ((List.prefix_append done [last]).trans upTo)
    have grown := before.push last.elapsed positive (compared_upTo starts upTo)
    rw [pushSamples_concat, picks, List.map_append]
    exact grown

/-- The pin trigger follows its law after every dispatch of a sequence exactly
when the threshold is not one or the sequence does not start on wasm. -/
theorem pin_law_iff_starts_compared (name : String) (processSym wasmSym : TPointer t)
    (positive : n ≠ 0#32) (ds : List (Completed D)) :
    (∀ done last, done ++ [last] <+: ds → PinLaw n (fresh name processSym wasmSym) done last) ↔
      n ≠ 1#32 ∨ ds.head?.map Completed.which ≠ some .wasm := by
  constructor
  · intro law
    refine Classical.or_iff_not_imp_left.mpr fun one starts => ?_
    have n_eq : n = 1#32 := Classical.not_not.mp one
    subst n_eq
    obtain ⟨d, first, wasm⟩ := Option.map_eq_some_iff.mp starts
    obtain ⟨rest, rfl⟩ := List.head?_eq_some_iff.mp first
    have pinned := (law [] d ⟨rest, rfl⟩).triggered.mpr
      ⟨.wasm, holdsStreak_one (by simp [picks, wasm])⟩
    apply pinned
    rw [pushSamples_concat, wasm]
    exact (pushSample_switch _ positive (by simp [pushSamples, fresh])).2.2
  · intro starts done last upTo
    have before : Counts n ((fresh name processSym wasmSym).pushSamples n done) (picks done) :=
      counts_upTo positive starts ((List.prefix_append done [last]).trans upTo)
    have compared : Compared n ((fresh name processSym wasmSym).pushSamples n done) (picks done)
        last.which := compared_upTo starts upTo
    refine ⟨(counts_upTo positive starts upTo).triggered, fun none b held => ?_⟩
    rw [pushSamples_concat]
    rw [picks, List.map_append] at held
    exact before.first positive compared none held

end Exact

theorem pin_law_of_two :
    PinLaw 2#32 (fresh "area" 0x401000#64 1#64 : MetaSymbolRecord .x86_64 Int) [⟨.wasm, 3⟩] ⟨.wasm, 4⟩ :=
  (pin_law_iff_starts_compared (t := .x86_64) (D := Int) (n := 2#32) "area" 0x401000#64 1#64
    (by decide) [⟨.wasm, 3⟩, ⟨.wasm, 4⟩]).mpr (.inl (by decide)) _ _ (List.prefix_refl _)

/-- Under a threshold of one, a first dispatch to wasm is a streak of one and
leaves the symbol unpinned. -/
theorem first_wasm_dispatch_not_pinned :
    ¬ PinLaw 1#32 (fresh "area" 0x401000#64 1#64 : MetaSymbolRecord .x86_64 Int) [] ⟨.wasm, 3⟩ := by
  intro law
  exact law.triggered.mpr ⟨.wasm, by decide⟩ rfl

end MetaSymbolRecord
end RlboxDynamic
