import Goshkik.Memory.HashtableRefinement

/-!
# The hash table as a map

The users of the table are modelled over the functions of the finite map that it
stores.  Their loops run through the buckets, so the order in which the table lists
its keys is an argument of theirs; the last theorem says that the buckets list every
key once.
-/

namespace Goshkik

variable {Value : Type}

namespace Bindings

theorem hashtableSet_stores {bindings : Bindings Value} {value : Value} {key : List UInt8}
    {room : Bool} (stores : key ∈ bindings ∨ room = true) :
    bindings.hashtableSet value key room = (0, bindings.insert key value) := by
  rcases stores with bound | roomy
  · simp [hashtableSet, bound]
  · simp [hashtableSet, roomy]

theorem hashtableSet_refuses {bindings : Bindings Value} {value : Value} {key : List UInt8}
    {room : Bool} (refuses : ¬(key ∈ bindings ∨ room = true)) :
    bindings.hashtableSet value key room = (-1, bindings) := by
  rw [not_or] at refuses
  simp [hashtableSet, refuses.1, refuses.2]

theorem hashtableRemove_snd (bindings : Bindings Value) (key : List UInt8) :
    (bindings.hashtableRemove key).2 = bindings.erase key := by
  simp only [hashtableRemove]
  split
  · rfl
  · rename_i unbound
    apply Finmap.ext_lookup
    intro other
    by_cases same : other = key
    · subst same
      simp [Finmap.lookup_eq_none.mpr unbound]
    · simp [Finmap.lookup_erase_ne same]

/-- A list of the keys in some order. -/
def Listed (bindings : Bindings Value) (order : List (List UInt8)) : Prop :=
  order.Nodup ∧ ∀ key, key ∈ order ↔ key ∈ bindings

instance (bindings : Bindings Value) (order : List (List UInt8)) :
    Decidable (bindings.Listed order) :=
  decidable_of_iff (order.Nodup ∧ order.toFinset = Finmap.keys bindings)
    (and_congr_right (fun _ => by simp only [Finset.ext_iff, List.mem_toFinset, Finmap.mem_keys]))

end Bindings

variable {bindings : Bindings Value} {key : List UInt8}

namespace Hashtable.Represents

variable {table : Hashtable Value} {chains : ℕ → List ℕ}

/-- The keys in the order in which a loop over the buckets meets them. -/
def bucketOrder (table : Hashtable Value) (chains : ℕ → List ℕ) : List (List UInt8) :=
  (List.range table.capacity.toNat).flatMap
    (fun index => (chains index).map (fun entry => (table.heap entry).key))

theorem bucket_of_mem (represents : table.Represents bindings chains) {index : ℕ}
    (inside : index < table.capacity.toNat)
    (mem : key ∈ (chains index).map (fun entry => (table.heap entry).key)) :
    table.tableOffset (fnv1ahash key) = index := by
  rcases List.mem_map.mp mem with ⟨entry, entryMem, rfl⟩
  have bucket := represents.bucket index inside
  rw [← (bucket.hashed entry entryMem).1]
  exact bucket.placed entry entryMem

/-- A loop over the buckets meets every key once. -/
theorem listed_bucketOrder (represents : table.Represents bindings chains) :
    bindings.Listed (bucketOrder table chains) := by
  constructor
  · apply List.nodup_flatMap.mpr
    constructor
    · intro index mem
      exact (represents.bucket index (List.mem_range.mp mem)).distinct
    · apply List.nodup_range.imp_of_mem
      intro first second firstMem secondMem different key inFirst inSecond
      apply different
      rw [← represents.bucket_of_mem (List.mem_range.mp firstMem) inFirst,
        represents.bucket_of_mem (List.mem_range.mp secondMem) inSecond]
  · intro key
    simp only [bucketOrder, List.mem_flatMap, List.mem_range]
    rw [represents.mem_iff]
    constructor
    · rintro ⟨index, inside, mem⟩
      rw [represents.bucket_of_mem inside mem]
      simpa using mem
    · rintro ⟨entry, mem, sameKey⟩
      exact ⟨_, Hashtable.tableOffset_lt represents.nonempty _,
        List.mem_map.mpr ⟨entry, mem, sameKey⟩⟩

end Hashtable.Represents

end Goshkik
