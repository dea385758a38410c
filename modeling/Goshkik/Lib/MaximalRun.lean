import Mathlib.Data.Nat.Find

/-!
# Maximal unmarked runs

Some of the places below a length are marked.  A maximal run is a nonempty stretch of unmarked
places that a marked place or the end of the range bounds on either side.
-/

variable {mark : ℕ → Prop} {length start stop start' stop' : ℕ}

/-- The places from `start` on and before `stop` are unmarked, and no place next to them is. -/
structure MaximalRun (mark : ℕ → Prop) (length start stop : ℕ) : Prop where
  nonempty : start < stop
  inside : stop ≤ length
  free : ∀ place, start ≤ place → place < stop → ¬ mark place
  before : start = 0 ∨ mark (start - 1)
  behind : stop = length ∨ mark stop

namespace MaximalRun

/-- Another run does not begin inside of a run. -/
theorem start_le (run : MaximalRun mark length start stop)
    (other : MaximalRun mark length start' stop') :
    start' ≤ start ∨ stop ≤ start' := by
  by_contra neither
  rw [not_or] at neither
  rcases other.before with zero | marked
  · omega
  · exact run.free (start' - 1) (by omega) (by omega) marked

theorem stop_le (run : MaximalRun mark length start stop)
    (other : MaximalRun mark length start' stop')
    (meets : start ≤ stop') : stop ≤ stop' := by
  by_contra further
  rcases other.behind with ended | marked
  · have inside := run.inside
    omega
  · exact run.free stop' meets (by omega) marked

/-- Two runs with a place in common are one. -/
theorem eq_of_meets (run : MaximalRun mark length start stop)
    (other : MaximalRun mark length start' stop')
    (meets : start < stop') (meets' : start' < stop) : start = start' ∧ stop = stop' := by
  have lower : start' ≤ start := (run.start_le other).resolve_right (by omega)
  have upper : start ≤ start' := (other.start_le run).resolve_right (by omega)
  have further : stop ≤ stop' := run.stop_le other (Nat.le_of_lt meets)
  have nearer : stop' ≤ stop := other.stop_le run (Nat.le_of_lt meets')
  exact ⟨Nat.le_antisymm upper lower, Nat.le_antisymm further nearer⟩

/-- Every unmarked place lies in a run. -/
theorem exists_of_unmarked {place : ℕ} (inside : place < length) (unmarked : ¬ mark place) :
    ∃ start stop, start ≤ place ∧ place < stop ∧ MaximalRun mark length start stop := by
  classical
  have ends : ∃ stop, place < stop ∧ (stop = length ∨ mark stop) := ⟨length, inside, .inl rfl⟩
  have begins : ∃ start, start ≤ place ∧ ∀ other, start ≤ other → other ≤ place → ¬ mark other := by
    refine ⟨place, Nat.le_refl _, fun other above below => ?_⟩
    rwa [Nat.le_antisymm below above]
  rcases Nat.find_spec ends with ⟨beyond, behind⟩
  rcases Nat.find_spec begins with ⟨lower, free⟩
  refine ⟨Nat.find begins, Nat.find ends, lower, beyond, Nat.lt_of_le_of_lt lower beyond, ?_, ?_,
    ?_, behind⟩
  · exact Nat.find_min' ends ⟨inside, .inl rfl⟩
  · intro other above below
    rcases Nat.lt_or_ge place other with later | earlier
    · exact fun marked => Nat.find_min ends below ⟨later, .inr marked⟩
    · exact free other above earlier
  · by_contra neither
    rw [not_or] at neither
    have previous : Nat.find begins - 1 < Nat.find begins := by omega
    refine Nat.find_min begins previous ⟨by omega, fun other above below => ?_⟩
    rcases Nat.eq_or_lt_of_le above with rfl | later
    · exact neither.2
    · exact free other (by omega) below

end MaximalRun
