import Mathlib.Data.List.Induction
import Mathlib.Logic.Relation

/-! Runs of a labelled transition system. A run keeps its labels, so that a
property can speak about what was done as well as about the state reached.
Nothing here names a particular system. -/
namespace RlboxDynamic.Transition

/-- The labels in order lead from the first state to the last. -/
inductive Run (step : σ → ℓ → σ → Prop) : σ → List ℓ → σ → Prop where
  | nil : Run step s [] s
  | cons (first : step s l m) (rest : Run step m ls t) : Run step s (l :: ls) t

namespace Run
variable {step step' : σ → ℓ → σ → Prop} {s m t : σ} {l : ℓ} {ls ks : List ℓ}

theorem single (taken : step s l t) : Run step s [l] t := .cons taken .nil

theorem append (before : Run step s ls m) (after : Run step m ks t) : Run step s (ls ++ ks) t := by
  induction before with
  | nil => exact after
  | cons first _ ih => exact .cons first (ih after)

theorem snoc (before : Run step s ls m) (last : step m l t) : Run step s (ls ++ [l]) t :=
  before.append (single last)

/-- Cutting the labels in two cuts the run in two. -/
theorem split (run : Run step s (ls ++ ks) t) : ∃ m, Run step s ls m ∧ Run step m ks t := by
  induction ls generalizing s with
  | nil => exact ⟨s, .nil, run⟩
  | cons l ls ih =>
    cases run with
    | cons first rest =>
      obtain ⟨m, left, right⟩ := ih rest
      exact ⟨m, .cons first left, right⟩

/-- What holds at the start and survives every step holds at the end. -/
theorem invariant {Inv : σ → Prop} (run : Run step s ls t) (start : Inv s)
    (kept : ∀ s l t, Inv s → step s l t → Inv t) : Inv t := by
  induction run with
  | nil => exact start
  | cons first _ ih => exact ih (kept _ _ _ start first)

/-- What relates the labels so far to the state, along every run. -/
theorem recorded (run : Run step s ls t) (Inv : List ℓ → σ → Prop) (past : List ℓ)
    (start : Inv past s)
    (kept : ∀ past s l t, Inv past s → step s l t → Inv (past ++ [l]) t) : Inv (past ++ ls) t := by
  induction run generalizing past with
  | nil => rwa [List.append_nil]
  | @cons s l _ _ _ first _ ih =>
    rw [← List.singleton_append, ← List.append_assoc]
    exact ih (past ++ [l]) (kept past s l _ start first)

/-- A run of a system is a run of any system that allows its steps. -/
theorem mono (run : Run step s ls t) (allowed : ∀ s l t, step s l t → step' s l t) :
    Run step' s ls t := by
  induction run with
  | nil => exact .nil
  | cons first _ ih => exact .cons (allowed _ _ _ first) ih

/-- Where the states of a run have a property that another system's steps agree
on, it is a run of that system. -/
theorem congr (run : Run step s ls t) (Inv : σ → Prop) (start : Inv s)
    (kept : ∀ s l t, Inv s → step s l t → Inv t)
    (allowed : ∀ s l t, Inv s → step s l t → step' s l t) : Run step' s ls t := by
  induction run with
  | nil => exact .nil
  | cons first _ ih => exact .cons (allowed _ _ _ start first) (ih (kept _ _ _ start first))

/-! A state of one system stands for a state of another, `f` saying for which. -/

theorem map {f : σ → τ} {above : τ → ℓ → τ → Prop} (run : Run step s ls t)
    (simulates : ∀ s l t, step s l t → above (f s) l (f t)) : Run above (f s) ls (f t) := by
  induction run with
  | nil => exact .nil
  | cons first _ ih => exact .cons (simulates _ _ _ first) ih

theorem comap {f : σ → τ} {above : τ → ℓ → τ → Prop} {u : τ} (run : Run above (f s) ls u)
    (reflects : ∀ s l u, above (f s) l u → ∃ t, step s l t ∧ f t = u) :
    ∃ t, Run step s ls t ∧ f t = u := by
  generalize start : f s = first at run
  induction run generalizing s with
  | nil => exact ⟨s, .nil, start⟩
  | cons first _ ih =>
    subst start
    obtain ⟨m, taken, same⟩ := reflects _ _ _ first
    obtain ⟨t, rest, last⟩ := ih same
    exact ⟨t, .cons taken rest, last⟩

/-- A state of one system stands for a state of another in `R`. Each step is
matched by steps with the same visible labels, and so is the run. -/
theorem simulate {above : τ → ℓ → τ → Prop} {u : τ} (run : Run step s ls t) (R : σ → τ → Prop)
    (visible : ℓ → Bool) (start : R s u)
    (matches_ : ∀ s l t u, R s u → step s l t →
      ∃ ks v, Run above u ks v ∧ R t v ∧ ks.filter visible = [l].filter visible) :
    ∃ ks v, Run above u ks v ∧ R t v ∧ ks.filter visible = ls.filter visible := by
  induction run generalizing u with
  | nil => exact ⟨[], u, .nil, start, rfl⟩
  | cons first _ ih =>
    obtain ⟨ks, v, now, related, same⟩ := matches_ _ _ _ u start first
    obtain ⟨ks', w, later, last, same'⟩ := ih related
    refine ⟨ks ++ ks', w, now.append later, last, ?_⟩
    rw [List.filter_append, same, same', ← List.filter_append, List.singleton_append]

end Run

/-- The state is reached by some run. -/
def Reachable (step : σ → ℓ → σ → Prop) (start s : σ) : Prop := ∃ ls, Run step start ls s

namespace Reachable
variable {step : σ → ℓ → σ → Prop} {start s t : σ} {l : ℓ}

theorem refl : Reachable step start start := ⟨[], .nil⟩

theorem tail (before : Reachable step start s) (last : step s l t) : Reachable step start t :=
  let ⟨_, run⟩ := before; ⟨_, run.snoc last⟩

theorem trans (before : Reachable step start s) (after : Reachable step s t) :
    Reachable step start t :=
  let ⟨_, left⟩ := before; let ⟨_, right⟩ := after; ⟨_, left.append right⟩

theorem invariant {Inv : σ → Prop} (reached : Reachable step start s) (first : Inv start)
    (kept : ∀ s l t, Inv s → step s l t → Inv t) : Inv s :=
  let ⟨_, run⟩ := reached; run.invariant first kept

end Reachable

/-- A step relation narrowed to the steps that meet a condition on the state
they leave and the label they take. -/
def Guarded (guard : σ → ℓ → Prop) (step : σ → ℓ → σ → Prop) (s : σ) (l : ℓ) (t : σ) : Prop :=
  guard s l ∧ step s l t

namespace Run
variable {P : ℓ → Prop} {step : σ → ℓ → σ → Prop} {s t : σ} {ls : List ℓ}

/-- Where the condition is on the label alone, every label of a narrowed run
meets it. -/
theorem labels (run : Run (Guarded (fun _ l => P l) step) s ls t) : ∀ l ∈ ls, P l := by
  induction run with
  | nil => exact fun l inside => nomatch inside
  | cons first _ ih =>
    intro l inside
    rcases List.mem_cons.mp inside with rfl | later
    · exact first.1
    · exact ih l later

/-- A run with no label that the condition rules out anywhere. -/
theorem guarded {guard : σ → ℓ → Prop} (run : Run step s ls t) (each : ∀ l ∈ ls, ∀ s, guard s l) :
    Run (Guarded guard step) s ls t := by
  induction run with
  | nil => exact .nil
  | cons first _ ih =>
    exact .cons ⟨each _ List.mem_cons_self _, first⟩
      (ih fun l inside => each l (List.mem_cons_of_mem _ inside))

theorem guard_labels (run : Run step s ls t) (each : ∀ l ∈ ls, P l) :
    Run (Guarded (fun _ l => P l) step) s ls t := run.guarded fun l inside _ => each l inside

end Run

section Throughout
variable {step : σ → ℓ → σ → Prop} {s : σ} {ls : List ℓ} {Inv Good : σ → Prop} {cond : σ → ℓ → Prop}

/-- What holds at the start of a run and survives each step the run takes holds
all along it. -/
theorem throughout (good : Good s)
    (each : ∀ before l after u v, ls = before ++ l :: after → Run step s before u → Good u →
      step u l v → Good v) :
    ∀ before after u, ls = before ++ after → Run step s before u → Good u := by
  intro before
  induction before using List.reverseRecOn with
  | nil =>
    rintro after u - run
    cases run
    exact good
  | append_singleton before l ih =>
    intro after u split run
    obtain ⟨m, upTo, last⟩ := run.split
    cases last with
    | cons taken rest =>
      cases rest
      have split' : ls = before ++ l :: after := by rw [split]; simp
      exact each before l after m _ split' upTo (ih (l :: after) m split' upTo) taken

/-- Where a step keeps a property exactly if it meets a condition, the property
holds all along a run exactly if every step of the run meets the condition. -/
theorem throughout_iff (first : Inv s) (good : Good s) (kept : ∀ s l t, Inv s → step s l t → Inv t)
    (each : ∀ s l t, Inv s → Good s → step s l t → (Good t ↔ cond s l)) :
    (∀ before after u, ls = before ++ after → Run step s before u → Good u) ↔
      ∀ before l after u v, ls = before ++ l :: after → Run step s before u → step u l v →
        cond u l := by
  constructor
  · intro always before l after u v split run taken
    have here := always before (l :: after) u split run
    have next := always (before ++ [l]) after v (by rw [split]; simp) (run.snoc taken)
    exact (each u l v (run.invariant first kept) here taken).mp next
  · intro meets
    refine throughout good fun before l after u v split run here taken => ?_
    exact (each u l v (run.invariant first kept) here taken).mpr
      (meets before l after u v split run taken)

/-- Where an invariant lets each step be judged by a condition, and good steps
keep the invariant, a run's steps are good exactly if they meet the condition. -/
theorem steps_iff {P : σ → ℓ → σ → Prop} (first : Inv s)
    (kept : ∀ s l t, Inv s → step s l t → P s l t → Inv t)
    (each : ∀ s l t, Inv s → step s l t → (P s l t ↔ cond s l)) :
    (∀ before l after u v, ls = before ++ l :: after → Run step s before u → step u l v → P u l v) ↔
      ∀ before l after u v, ls = before ++ l :: after → Run step s before u → step u l v →
        cond u l := by
  constructor
  · intro good before l after u v split run taken
    have inv := throughout first (fun before l after u v split run here taken =>
      kept u l v here taken (good before l after u v split run taken))
    exact (each u l v (inv before (l :: after) u split run) taken).mp
      (good before l after u v split run taken)
  · intro meets before l after u v split run taken
    have inv := throughout first (fun before l after u v split run here taken =>
      kept u l v here taken ((each u l v here taken).mpr
        (meets before l after u v split run taken)))
    exact (each u l v (inv before (l :: after) u split run) taken).mpr
      (meets before l after u v split run taken)

end Throughout

/-- The step relation of a partial executable step. -/
def ofPartial (exec : σ → ℓ → Option σ) (s : σ) (l : ℓ) (t : σ) : Prop := exec s l = some t

/-- Several steps in a row. -/
def execAll (exec : σ → ℓ → Option σ) (s : σ) : List ℓ → Option σ
  | [] => some s
  | l :: ls => (exec s l).bind (execAll exec · ls)

theorem run_of_execAll {exec : σ → ℓ → Option σ} {s t : σ} {ls : List ℓ}
    (done : execAll exec s ls = some t) : Run (ofPartial exec) s ls t := by
  induction ls generalizing s with
  | nil => cases done; exact .nil
  | cons l ls ih =>
    obtain ⟨m, first, rest⟩ := Option.bind_eq_some_iff.mp done
    exact .cons first (ih rest)

theorem execAll_of_run {exec : σ → ℓ → Option σ} {s t : σ} {ls : List ℓ}
    (run : Run (ofPartial exec) s ls t) : execAll exec s ls = some t := by
  induction run with
  | nil => rfl
  | cons first _ ih => exact Option.bind_eq_some_iff.mpr ⟨_, first, ih⟩

/-- What the steps of a run are worth, by the label and the state it is taken in. -/
def gained (exec : σ → ℓ → Option σ) (worth : σ → ℓ → Nat) : σ → List ℓ → Nat
  | _, [] => 0
  | s, l :: ls => worth s l + (exec s l).elim 0 (gained exec worth · ls)

/-- Each counted step comes off a measure of the state, and some steps add to the
measure what they are worth. -/
theorem Run.amortized {exec : σ → ℓ → Option σ} {s t : σ} {ls : List ℓ} {Inv : σ → Prop}
    (run : Run (ofPartial exec) s ls t) (counted : ℓ → Bool) (start : Inv s)
    (kept : ∀ s l t, Inv s → ofPartial exec s l t → Inv t) (measure : σ → Nat) (worth : σ → ℓ → Nat)
    (drops : ∀ s l t, Inv s → ofPartial exec s l t →
      (if counted l then 1 else 0) + measure t ≤ measure s + worth s l) :
    ls.countP counted + measure t ≤ measure s + gained exec worth s ls := by
  induction run with
  | nil => simp
  | @cons s l m ls _ first _ ih =>
    have now := drops _ _ _ start first
    have later := ih (kept _ _ _ start first)
    have taken : exec s l = some m := first
    rw [List.countP_cons, gained, taken, Option.elim_some]
    omega

/-- A run to a state of which something is computed. -/
theorem exists_run {exec : σ → ℓ → Option σ} {s : σ} {ls : List ℓ} {f : σ → α} {x : α}
    (done : (execAll exec s ls).map f = some x) : ∃ t, Run (ofPartial exec) s ls t ∧ f t = x := by
  obtain ⟨t, ran, same⟩ := Option.map_eq_some_iff.mp done
  exact ⟨t, run_of_execAll ran, same⟩

theorem Run.computed {exec : σ → ℓ → Option σ} {s t : σ} {ls : List ℓ} {f : σ → α} {x : α}
    (run : Run (ofPartial exec) s ls t) (done : (execAll exec s ls).map f = some x) : f t = x := by
  rw [execAll_of_run run] at done
  exact Option.some.inj done

/-- No step of the system is left. -/
def Stuck (step : σ → ℓ → σ → Prop) (s : σ) : Prop := ∀ l t, ¬ step s l t

end RlboxDynamic.Transition
