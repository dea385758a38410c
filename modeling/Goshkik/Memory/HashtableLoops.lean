import Goshkik.Memory.HashtableMap

/-!
# Loops over the hash table

Users of the table walk its buckets by following `next` from their heads, and remove entries with a
key that they read from one.  With enough fuel every operation computes what it does to the map, and
a walk over all buckets lists the entries.
-/

namespace Goshkik

variable {Value : Type}

namespace Hashtable

/-- The entries that a loop visits from a place in a bucket. -/
def walk (table : Hashtable Value) : ℕ → Option ℕ → Option (List ℕ)
  | 0, _ => none
  | _ + 1, none => some []
  | fuel + 1, some entry => do
      let behind ← table.walk fuel (table.heap entry).next
      return entry :: behind

/-- The entries of the buckets at some indices. -/
def walkBuckets (table : Hashtable Value) (fuel : ℕ) : List ℕ → Option (List ℕ)
  | [] => some []
  | index :: indices => do
      let head ← table.entries[index]?
      let entries ← table.walk fuel head
      let others ← table.walkBuckets fuel indices
      return entries ++ others

/-- A walk along a chain visits its entries. -/
theorem walk_eq {table : Hashtable Value} {fuel : ℕ} {head : Option ℕ} {nodes : List ℕ}
    (linked : Linked (fun entry => (table.heap entry).next) head nodes)
    (enough : nodes.length < fuel) :
    table.walk fuel head = some nodes := by
  induction fuel generalizing head nodes with
  | zero => omega
  | succ fuel hypothesis =>
      cases nodes with
      | nil => rw [Linked.nil_iff.mp linked, walk]
      | cons entry nodes =>
          rcases Linked.cons_iff.mp linked with ⟨headEq, tail⟩
          rw [List.length_cons] at enough
          rw [headEq, walk, hypothesis tail (by omega)]
          rfl

namespace Represents

variable {table : Hashtable Value} {bindings : Bindings Value} {chains : ℕ → List ℕ}
  {key : List UInt8} {fuel : ℕ}

/-- No bucket has more entries than the table has keys. -/
theorem chain_length_le (represents : table.Represents bindings chains) {index : ℕ}
    (inside : index < table.capacity.toNat) : (chains index).length ≤ bindings.keys.card := by
  have bucket := represents.bucket index inside
  rw [← List.length_map (f := fun entry => (table.heap entry).key),
    ← List.toFinset_card_of_nodup bucket.distinct]
  apply Finset.card_le_card
  intro key mem
  have placed := represents.bucket_of_mem inside (List.mem_toFinset.mp mem)
  rcases List.mem_map.mp (List.mem_toFinset.mp mem) with ⟨entry, entryMem, sameKey⟩
  exact Finmap.mem_keys.mpr (represents.mem_iff.mpr ⟨entry, placed ▸ entryMem, sameKey⟩)

theorem hashtableGet_fuel (represents : table.Represents bindings chains)
    (enough : bindings.keys.card < fuel)
    (old : Value) (key : List UInt8) :
    hashtableGet fuel table old key = some (bindings.hashtableGet old key) := by
  have short := represents.chain_length_le (tableOffset_lt represents.nonempty (fnv1ahash key))
  rcases represents.getEntry_cases key with
    ⟨before, entry, behind, split, sameKey, bound, found⟩ | ⟨unbound, missing⟩
  · rw [split, List.length_append, List.length_cons] at short
    have lookup := (represents.bound key _).mpr ⟨entry, by simp [split], sameKey, rfl⟩
    simp [hashtableGet, found fuel (by omega), Bindings.hashtableGet, lookup]
  · simp [hashtableGet, missing fuel (by omega), Bindings.hashtableGet,
      Finmap.lookup_eq_none.mpr unbound]

theorem hashtableRemove_fuel (represents : table.Represents bindings chains) (key : List UInt8)
    (freed : HashEntry Value) :
    ∃ after chainsAfter, after.Represents (bindings.erase key) chainsAfter ∧
      after.capacity = table.capacity ∧
      ∀ fuel, bindings.keys.card < fuel →
        hashtableRemove fuel table key freed = some ((bindings.hashtableRemove key).1, after) := by
  have inside := tableOffset_lt represents.nonempty (fnv1ahash key)
  have short := represents.chain_length_le inside
  rcases represents.getEntry_cases key with
    ⟨before, entry, behind, split, sameKey, bound, found⟩ | ⟨unbound, missing⟩
  · rw [split, List.length_append, List.length_cons] at short
    rcases represents.unlinkEntry_spec freed split sameKey bound with
      ⟨unlinked, unlinkEq, represented⟩
    rcases @unlinkEntry_eq _ _ _ entry (represents.length ▸ inside) with
      ⟨other, otherEq, _, _, capacity, _, _⟩
    rw [unlinkEq, Option.some.injEq] at otherEq
    refine ⟨_, _, represented, otherEq ▸ capacity, fun fuel enough => ?_⟩
    simp [hashtableRemove, found fuel (by omega), unlinkEq, Bindings.hashtableRemove, bound,
      slabFree, modify]
  · have same : bindings.erase key = bindings := by
      rw [← Bindings.hashtableRemove_snd]
      simp [Bindings.hashtableRemove, unbound]
    refine ⟨table, chains, same.symm ▸ represents, rfl, fun fuel enough => ?_⟩
    simp [hashtableRemove, missing fuel (by omega), Bindings.hashtableRemove, unbound]

/-- A walk over the buckets lists the entries in their order. -/
theorem walkBuckets_eq (represents : table.Represents bindings chains)
    (enough : bindings.keys.card < fuel)
    {indices : List ℕ} (inside : ∀ index ∈ indices, index < table.capacity.toNat) :
    table.walkBuckets fuel indices = some (indices.flatMap chains) := by
  induction indices with
  | nil => rfl
  | cons index indices hypothesis =>
      have here := inside index List.mem_cons_self
      have short := represents.chain_length_le here
      have bucket := represents.bucket index here
      simp only [walkBuckets, bucket.head, Option.bind_eq_bind, Option.bind_some,
        walk_eq bucket.linked (show (chains index).length < fuel by omega),
        hypothesis (fun other member => inside other (List.mem_cons_of_mem _ member))]
      rfl

end Represents

end Hashtable

end Goshkik
