import Mathlib.Data.Nat.Notation

/-!
# Counted loops

A loop whose body is run for the numbers below a bound, in order, and may fail.  An invariant
that speaks about the number of rounds done so far is carried through by one induction.
-/

universe u

variable {State : Type u} {body : ℕ → State → Option State} {start : State}

/-- Run the body for the numbers below the bound. -/
def forRange (body : ℕ → State → Option State) : ℕ → State → Option State
  | 0, state => some state
  | count + 1, state => (forRange body count state).bind (body count)

theorem forRange_spec {invariant : ℕ → State → Prop} {count : ℕ} (initially : invariant 0 start)
    (preserved : ∀ round < count, ∀ state, invariant round state →
      ∃ after, body round state = some after ∧ invariant (round + 1) after) :
    ∃ last, forRange body count start = some last ∧ invariant count last := by
  induction count with
  | zero => exact ⟨start, rfl, initially⟩
  | succ count ih =>
      rcases ih (fun round below => preserved round (by omega)) with ⟨middle, looped, holds⟩
      rcases preserved count (Nat.lt_succ_self count) middle holds with ⟨last, ran, lastHolds⟩
      exact ⟨last, by rw [forRange, looped, Option.bind_some, ran], lastHolds⟩
