import Mathlib.Logic.Function.Basic
import RlboxDynamic.Transition

/-! A lock word in memory that outlives its users. Each user calls, waits for the
word, holds it for the length of its call and clears it. A user that dies inside
its call clears nothing. Nothing here names a particular system. -/
namespace RlboxDynamic.CrashLock
open Transition

/-- Where a user is: in no call, before its acquisition of the word, past it. -/
inductive Phase where
  | outside
  | waiting
  | inside
  deriving DecidableEq

structure State (α : Type) where
  word : Bool
  phase : α → Phase

inductive Event (α : Type) where
  | call (a : α)
  | acquire (a : α)
  | release (a : α)
  | die (a : α)
  deriving DecidableEq

namespace State
variable {α : Type} {s s' : State α} {e : Event α}

def free (α : Type) : State α := ⟨false, fun _ => .outside⟩

/-- At most one user is inside, and then the word is set. -/
structure Exclusive (s : State α) : Prop where
  held : ∀ a, s.phase a = .inside → s.word = true
  one : ∀ a b, s.phase a = .inside → s.phase b = .inside → a = b

/-- A set word has a holder. -/
def Held (s : State α) : Prop := s.word = true → ∃ a, s.phase a = .inside

/-- The word is set and nobody will clear it. -/
structure Abandoned (s : State α) : Prop where
  set : s.word = true
  nobody : ∀ a, s.phase a ≠ .inside

theorem not_held : ¬ s.Held ↔ s.Abandoned := by
  simp only [Held, Classical.not_imp, not_exists]
  exact ⟨fun ⟨set, nobody⟩ => ⟨set, nobody⟩, fun ⟨set, nobody⟩ => ⟨set, nobody⟩⟩

theorem exclusive_free : (free α).Exclusive :=
  ⟨fun _ inside => (nomatch inside), fun _ _ inside => (nomatch inside)⟩

theorem held_free : (free α).Held := fun set => (nomatch set)

variable [DecidableEq α] {a b : α}

def setPhase (s : State α) (a : α) (p : Phase) : State α :=
  { s with phase := Function.update s.phase a p }

@[simp] theorem setPhase_word (p : Phase) : (s.setPhase a p).word = s.word := rfl

@[simp] theorem setPhase_phase (p : Phase) :
    (s.setPhase a p).phase b = if b = a then p else s.phase b := Function.update_apply _ _ _ _

/-- One event. Nobody acquires a word that is set, and a death leaves the word. -/
def exec (s : State α) : Event α → Option (State α)
  | .call a => if s.phase a = .outside then some (s.setPhase a .waiting) else none
  | .acquire a =>
    if s.phase a = .waiting ∧ s.word = false then some { s.setPhase a .inside with word := true }
    else none
  | .release a =>
    if s.phase a = .inside then some { s.setPhase a .outside with word := false } else none
  | .die a => some (s.setPhase a .outside)

/-- The event is the death of the holder. -/
def DiesInside (s : State α) : Event α → Prop
  | .die a => s.phase a = .inside
  | _ => False

/-- All that one event can do, with where it found its user. -/
inductive Does (s : State α) : Event α → State α → Prop where
  | calls {a : α} (outside : s.phase a = .outside) : Does s (.call a) (s.setPhase a .waiting)
  | acquires {a : α} (waiting : s.phase a = .waiting) (clear : s.word = false) :
      Does s (.acquire a) { s.setPhase a .inside with word := true }
  | releases {a : α} (inside : s.phase a = .inside) :
      Does s (.release a) { s.setPhase a .outside with word := false }
  | dies {a : α} : Does s (.die a) (s.setPhase a .outside)

theorem does (step : s.exec e = some s') : s.Does e s' := by
  cases e with
  | call a =>
    obtain ⟨outside, same⟩ := Option.ite_none_right_eq_some.mp step
    cases same
    exact .calls outside
  | acquire a =>
    obtain ⟨⟨waiting, clear⟩, same⟩ := Option.ite_none_right_eq_some.mp step
    cases same
    exact .acquires waiting clear
  | release a =>
    obtain ⟨inside, same⟩ := Option.ite_none_right_eq_some.mp step
    cases same
    exact .releases inside
  | die a =>
    cases step
    exact .dies

theorem step_exclusive (exclusive : s.Exclusive) (step : s.exec e = some s') : s'.Exclusive := by
  obtain ⟨held, one⟩ := exclusive
  cases does step with
  | calls outside => constructor <;> grind [setPhase_phase, setPhase_word]
  | acquires waiting clear => constructor <;> grind [setPhase_phase]
  | releases inside => constructor <;> grind [setPhase_phase]
  | dies => constructor <;> grind [setPhase_phase, setPhase_word]

/-- A set word loses its holder only by the holder's death. -/
theorem step_held_iff (exclusive : s.Exclusive) (holder : s.Held) (step : s.exec e = some s') :
    s'.Held ↔ ¬ s.DiesInside e := by
  obtain ⟨held, one⟩ := exclusive
  cases does step with
  | @calls a outside =>
    refine iff_of_true (fun set => ?_) id
    obtain ⟨b, inside⟩ := holder set
    exact ⟨b, by grind [setPhase_phase]⟩
  | @acquires a => exact iff_of_true (fun _ => ⟨a, by simp⟩) id
  | releases => exact iff_of_true (fun set => by cases set) id
  | @dies a =>
    constructor
    · intro still inside
      obtain ⟨b, there⟩ := still (held a inside)
      rw [setPhase_phase] at there
      split at there
      · cases there
      · rename_i other
        exact other (one b a there inside)
    · intro elsewhere set
      obtain ⟨b, inside⟩ := holder set
      refine ⟨b, ?_⟩
      rw [setPhase_phase, if_neg]
      · exact inside
      · rintro rfl
        exact elsewhere inside

/-- An abandoned word stays abandoned. -/
theorem step_abandoned (abandoned : s.Abandoned) (step : s.exec e = some s') : s'.Abandoned := by
  obtain ⟨set, nobody⟩ := abandoned
  have nobodyElse : ∀ a p, p ≠ .inside → ∀ b, (s.setPhase a p).phase b ≠ .inside := by
    intro a p elsewhere b
    rw [setPhase_phase]
    split
    · exact elsewhere
    · exact nobody b
  cases does step with
  | calls => exact ⟨set, nobodyElse _ _ (by simp)⟩
  | acquires _ clear =>
    rw [set] at clear
    cases clear
  | @releases a inside => exact absurd inside (nobody a)
  | dies => exact ⟨set, nobodyElse _ _ (by simp)⟩

/-- A user in a call was in it before, or makes it now. -/
theorem busy_before (step : s.exec e = some s') (busy : s'.phase a ≠ .outside) :
    s.phase a ≠ .outside ∨ e = .call a := by
  cases does step with
  | @calls other =>
    by_cases own : a = other
    · exact .inr (own ▸ rfl)
    · exact .inl (by simpa [own] using busy)
  | @acquires other waiting =>
    by_cases own : a = other
    · exact .inl (by simp [own, waiting])
    · exact .inl (by simpa [own] using busy)
  | @releases other inside =>
    by_cases own : a = other
    · exact .inl (by simp [own, inside])
    · exact .inl (by simpa [own] using busy)
  | @dies other =>
    by_cases own : a = other
    · simp [own] at busy
    · exact .inl (by simpa [own] using busy)

/-- Where the word has a holder if it is set, a user who waits is inside at the
latest after the holder's release. -/
theorem acquires (holder : s.Held) (waiting : s.phase a = .waiting) :
    (∃ s', s.exec (.acquire a) = some s' ∧ s'.phase a = .inside) ∨
      ∃ b m s', s.phase b = .inside ∧ s.exec (.release b) = some m ∧
        m.exec (.acquire a) = some s' ∧ s'.phase a = .inside := by
  cases set : s.word with
  | false => exact .inl ⟨_, if_pos ⟨waiting, set⟩, by simp⟩
  | true =>
    obtain ⟨b, inside⟩ := holder set
    have other : a ≠ b := by
      rintro rfl
      rw [waiting] at inside
      cases inside
    refine .inr ⟨b, _, _, inside, if_pos inside, if_pos ⟨?_, rfl⟩, by simp⟩
    change (s.setPhase b .outside).phase a = .waiting
    rw [setPhase_phase, if_neg other]
    exact waiting

end State
end RlboxDynamic.CrashLock
