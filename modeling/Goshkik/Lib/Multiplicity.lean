import Mathlib.Data.Finmap

/-!
# How often a finite map takes a value

The number of keys that a finite map binds to a given value, and how it changes
when a binding is removed or stored.  Storing a binding is described as removing
the old binding of the key, if there is one, and adding the new one.
-/

namespace Finmap

universe u v

variable {Key : Type u} {Value : Type v} [DecidableEq Key] [DecidableEq Value]
  {table : Finmap (fun _ : Key => Value)} {key : Key} {value stored : Value}

omit [DecidableEq Value] in
/-- What is bound after a binding has been removed was bound before. -/
theorem lookup_of_erase {other : Key} (bound : (table.erase key).lookup other = some value) :
    table.lookup other = some value := by
  by_cases same : other = key
  · subst same
    simp at bound
  · rwa [lookup_erase_ne same] at bound

/-- The number of keys bound to a value. -/
def multiplicity (table : Finmap (fun _ : Key => Value)) (value : Value) : ℕ :=
  (table.keys.filter (fun key => table.lookup key = some value)).card

@[simp]
theorem multiplicity_empty : (∅ : Finmap (fun _ : Key => Value)).multiplicity value = 0 := by
  simp [multiplicity]

theorem multiplicity_erase (table : Finmap (fun _ : Key => Value)) (key : Key) (value : Value) :
    (table.erase key).multiplicity value + (if table.lookup key = some value then 1 else 0) =
      table.multiplicity value := by
  have erased : (table.erase key).keys.filter (fun other => (table.erase key).lookup other =
    some value) =
      (table.keys.filter (fun other => table.lookup other = some value)).erase key := by
    ext other
    by_cases same : other = key
    · simp [same]
    · simp [same, lookup_erase_ne same]
  simp only [multiplicity, erased]
  split
  · rename_i bound
    apply Finset.card_erase_add_one
    simp only [Finset.mem_filter, mem_keys, mem_iff]
    exact ⟨⟨value, bound⟩, bound⟩
  · rename_i unbound
    rw [Finset.erase_eq_of_notMem (by simp [unbound]), Nat.add_zero]

theorem multiplicity_insert (table : Finmap (fun _ : Key => Value)) (key : Key)
    (stored value : Value) :
    (table.insert key stored).multiplicity value =
      (table.erase key).multiplicity value + if stored = value then 1 else 0 := by
  have erased : (table.insert key stored).erase key = table.erase key := by
    apply ext_lookup
    intro other
    by_cases same : other = key
    · subst same
      simp
    · simp [lookup_erase_ne same, lookup_insert_of_ne _ same]
  rw [← multiplicity_erase (table.insert key stored) key value, erased, lookup_insert]
  simp

theorem multiplicity_insert_of_notMem (unbound : key ∉ table) :
    (table.insert key stored).multiplicity value =
      table.multiplicity value + if stored = value then 1 else 0 := by
  have removed := multiplicity_erase table key value
  rw [lookup_eq_none.mpr unbound] at removed
  rw [multiplicity_insert]
  simpa using removed

theorem multiplicity_pos (bound : table.lookup key = some value) :
    0 < table.multiplicity value := by
  have removed := multiplicity_erase table key value
  simp only [bound, if_true] at removed
  omega

end Finmap
