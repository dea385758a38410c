import Mathlib.Logic.Relation

/-!
# Runs of labelled transition systems

A step relation takes a state, a label carrying the arguments and results of
one operation, and the state after it.  A run is a finite sequence of such
steps.  The two induction rules below are the only ones needed later: an
invariant kept by every step holds wherever a run leads, and a forward
simulation of single steps lifts to whole runs with the same labels.
-/

namespace Transition

universe u v w

variable {State : Type u} {Label : Type v} {Abstract : Type w}

/-- A finite run of a labelled step relation. -/
inductive Run (step : State → Label → State → Prop) : State → List Label → State → Prop where
  | nil (state : State) : Run step state [] state
  | cons {first second last : State} {label : Label} {labels : List Label}
      (head : step first label second) (tail : Run step second labels last) :
      Run step first (label :: labels) last

/-- The steps of a system that are taken where a condition on the state before
the step and on its label holds. -/
def Guarded (guard : State → Label → Prop) (step : State → Label → State → Prop)
    (before : State) (label : Label) (after : State) : Prop :=
  guard before label ∧ step before label after

namespace Run

variable {step : State → Label → State → Prop} {first middle last : State}
  {labels moreLabels : List Label}

/-- An invariant preserved by every step holds at the end of every run. -/
theorem invariant {property : State → Prop} (run : Run step first labels last)
    (preserved : ∀ before label after, property before → step before label after →
      property after)
    (start : property first) : property last := by
  induction run with
  | nil state => exact start
  | cons head tail ih => exact ih (preserved _ _ _ start head)

theorem trans (run : Run step first labels middle) (rest : Run step middle moreLabels last) :
    Run step first (labels ++ moreLabels) last := by
  induction run with
  | nil state => exact rest
  | cons head tail ih => exact .cons head (ih rest)

/-- A run of steps that meet a condition is a run of steps that meet a weaker one. -/
theorem weaken {guard weaker : State → Label → Prop}
    (run : Run (Guarded guard step) first labels last)
    (implies : ∀ before label, guard before label → weaker before label) :
    Run (Guarded weaker step) first labels last := by
  induction run with
  | nil state => exact .nil state
  | cons head tail ih => exact .cons ⟨implies _ _ head.1, head.2⟩ ih

/-- A run of steps that meet a condition is a run. -/
theorem unguard {guard : State → Label → Prop} (run : Run (Guarded guard step) first labels last) :
    Run step first labels last := by
  induction run with
  | nil state => exact .nil state
  | cons head tail ih => exact .cons head.2 ih

theorem snoc {label : Label} (run : Run step first labels middle)
    (final : step middle label last) : Run step first (labels ++ [label]) last :=
  run.trans (.cons final (.nil last))

/-- A forward simulation of single steps lifts to runs with the same labels. -/
theorem simulate {abstractStep : Abstract → Label → Abstract → Prop}
    {represents : State → Abstract → Prop} {abstractFirst : Abstract}
    (run : Run step first labels last)
    (simulates : ∀ before label after abstractBefore, represents before abstractBefore →
      step before label after →
        ∃ abstractAfter, abstractStep abstractBefore label abstractAfter ∧
          represents after abstractAfter)
    (start : represents first abstractFirst) :
    ∃ abstractLast, Run abstractStep abstractFirst labels abstractLast ∧
      represents last abstractLast := by
  induction run generalizing abstractFirst with
  | nil state => exact ⟨abstractFirst, .nil abstractFirst, start⟩
  | cons head tail ih =>
      rcases simulates _ _ _ _ start head with ⟨abstractSecond, abstractHead, related⟩
      rcases ih related with ⟨abstractLast, abstractTail, relatedLast⟩
      exact ⟨abstractLast, .cons abstractHead abstractTail, relatedLast⟩

end Run

/-- Follow a list of labels with a function that takes one step. -/
def follow (next : State → Label → Option State) : List Label → State → Option State
  | [], state => some state
  | label :: labels, state => (next state label).bind (follow next labels)

/-- A step that is computed where a condition holds. -/
theorem permitted_of_eq_some {Error : Type} {permitted allowed : Prop}
    [Decidable (permitted ∧ allowed)] {computed : Except Error State} {after : State}
    (steps : (if permitted ∧ allowed then computed.toOption else none) = some after) :
    permitted ∧ allowed ∧ computed = .ok after := by
  split at steps
  · rename_i both
    cases computed with
    | error failure => cases steps
    | ok reached =>
        simp only [Except.toOption, Option.some.injEq] at steps
        exact ⟨both.1, both.2, congrArg Except.ok steps⟩
  · cases steps

/-- Where the labels can be followed there is a run. -/
theorem run_of_follow {next : State → Label → Option State}
    {step : State → Label → State → Prop}
    (sound : ∀ before label after, next before label = some after → step before label after)
    {labels : List Label} {first last : State} (follows : follow next labels first = some last) :
    Run step first labels last := by
  induction labels generalizing first with
  | nil =>
      simp only [follow, Option.some.injEq] at follows
      exact follows ▸ .nil first
  | cons label labels ih =>
      rcases Option.bind_eq_some_iff.mp follows with ⟨second, head, tail⟩
      exact .cons (sound _ _ _ head) (ih tail)

end Transition
