import Mathlib.Logic.Function.Basic
import Mathlib.Data.Nat.Notation

/-!
# Memory seen as cells

A memory maps the address of a cell to the number stored there.  A structure in
memory is read and written field by field, each field being the cell at its own
offset, and a pointer is a cell in which zero stands for null.
-/

/-- Addresses to the numbers stored there. -/
abbrev Cells := ℕ → ℕ

namespace Cells

variable {cells : Cells} {address other word : ℕ} {pointer : Option ℕ}

def store (cells : Cells) (address word : ℕ) : Cells := Function.update cells address word

/-- The pointer stored in a cell. -/
def pointerAt (cells : Cells) (address : ℕ) : Option ℕ :=
  if cells address = 0 then none else some (cells address)

/-- The number that stands for a pointer. -/
def pointerWord : Option ℕ → ℕ
  | none => 0
  | some address => address

@[simp]
theorem store_self : cells.store address word address = word := by
  simp [store]

@[simp]
theorem store_of_ne (different : other ≠ address) :
    cells.store address word other = cells other := by
  simp [store, different]

theorem pointerAt_eq_some_iff :
    cells.pointerAt address = some other ↔ cells address = other ∧ other ≠ 0 := by
  simp only [pointerAt]
  constructor
  · intro same
    split at same
    · simp at same
    · rename_i nonzero
      simp only [Option.some.injEq] at same
      exact ⟨same, same ▸ nonzero⟩
  · rintro ⟨same, nonzero⟩
    simp [same, nonzero]

theorem pointerAt_congr {cells' : Cells} (same : cells' address = cells address) :
    cells'.pointerAt address = cells.pointerAt address := by
  simp only [pointerAt, same]

@[simp]
theorem pointerAt_store_pointerWord (nonzero : pointer ≠ some 0) :
    (cells.store address (pointerWord pointer)).pointerAt address = pointer := by
  cases pointer with
  | none => simp [pointerAt, pointerWord]
  | some target =>
      have : target ≠ 0 := by simpa using nonzero
      simp [pointerAt, pointerWord, this]

@[simp]
theorem pointerWord_pointerAt : pointerWord (cells.pointerAt address) = cells address := by
  simp only [pointerAt]
  split
  · rename_i zero
    simp [pointerWord, zero]
  · rfl

theorem pointerAt_ne_zero : cells.pointerAt address ≠ some 0 := by
  intro same
  exact (pointerAt_eq_some_iff.mp same).2 rfl

end Cells
