import Goshkik.Lib.Run
import Goshkik.Memory.HashtableBuckets

/-!
# The hash table refines a finite map

Every call of the table is simulated by a step of the finite map that its buckets
store, with the same results.

The array of buckets has `size * 8` bytes computed in 64 bits, and nothing checks
the product.  The refinement therefore holds for exactly the sizes whose product
does not wrap, or wraps to zero and makes the initialisation fail.
-/

namespace Goshkik

open Transition

variable {Value : Type}

namespace Bindings

/-- What `hashtable_set` does to the map; `room` says whether an entry and the copy of
its key can be allocated. -/
def hashtableSet (bindings : Bindings Value) (value : Value) (key : List UInt8) (room : Bool) :
    ℤ × Bindings Value :=
  if key ∈ bindings then (0, bindings.insert key value)
  else if room then (0, bindings.insert key value)
  else (-1, bindings)

def hashtableGet (bindings : Bindings Value) (old : Value) (key : List UInt8) : ℤ × Value :=
  match bindings.lookup key with
  | some value => (0, value)
  | none => (-1, old)

def hashtableRemove (bindings : Bindings Value) (key : List UInt8) : ℤ × Bindings Value :=
  if key ∈ bindings then (0, bindings.erase key) else (-1, bindings)

end Bindings

/-- A call of the table with its arguments and results. -/
inductive HashtableCall (Value : Type) where
  | set (value : Value) (key : List UInt8) (slabAlloc : Option ℕ) (kmalloc : Bool) (result : ℤ)
  | get (old : Value) (key : List UInt8) (result : ℤ) (stored : Value)
  | remove (key : List UInt8) (result : ℤ)

/-- The calls of the map.  A failing `set` changes nothing, and `get` leaves the
caller's variable alone when the key is not bound. -/
inductive BindingsStep : Bindings Value → HashtableCall Value → Bindings Value → Prop where
  | update {bindings : Bindings Value} {value : Value} {key : List UInt8} {slabAlloc : Option ℕ}
      {kmalloc : Bool} (bound : key ∈ bindings) :
      BindingsStep bindings (.set value key slabAlloc kmalloc 0) (bindings.insert key value)
  | insert {bindings : Bindings Value} {value : Value} {key : List UInt8} {entry : ℕ}
      (unbound : key ∉ bindings) :
      BindingsStep bindings (.set value key (some entry) true 0) (bindings.insert key value)
  | refuse {bindings : Bindings Value} {value : Value} {key : List UInt8} {slabAlloc : Option ℕ}
      {kmalloc : Bool} (unbound : key ∉ bindings) (fails : slabAlloc = none ∨ kmalloc = false) :
      BindingsStep bindings (.set value key slabAlloc kmalloc (-1)) bindings
  | hit {bindings : Bindings Value} {old value : Value} {key : List UInt8}
      (bound : bindings.lookup key = some value) :
      BindingsStep bindings (.get old key 0 value) bindings
  | miss {bindings : Bindings Value} {old : Value} {key : List UInt8} (unbound : key ∉ bindings) :
      BindingsStep bindings (.get old key (-1) old) bindings
  | erase {bindings : Bindings Value} {key : List UInt8} (bound : key ∈ bindings) :
      BindingsStep bindings (.remove key 0) (bindings.erase key)
  | absent {bindings : Bindings Value} {key : List UInt8} (unbound : key ∉ bindings) :
      BindingsStep bindings (.remove key (-1)) bindings

section Steps

variable {bindings after : Bindings Value} {key : List UInt8} {result : ℤ}

theorem BindingsStep.set_eq {value : Value} {slabAlloc : Option ℕ} {kmalloc : Bool}
    (step : BindingsStep bindings (.set value key slabAlloc kmalloc result) after) :
    (result, after) = bindings.hashtableSet value key (slabAlloc.isSome && kmalloc) := by
  cases step with
  | update bound => simp [Bindings.hashtableSet, bound]
  | insert unbound => simp [Bindings.hashtableSet, unbound]
  | refuse unbound fails =>
      rcases fails with none | noKey
      · simp [Bindings.hashtableSet, unbound, none]
      · simp [Bindings.hashtableSet, unbound, noKey]

theorem BindingsStep.get_eq {old stored : Value}
    (step : BindingsStep bindings (.get old key result stored) after) :
    (result, stored) = bindings.hashtableGet old key := by
  cases step with
  | hit bound => simp [Bindings.hashtableGet, bound]
  | miss unbound => simp [Bindings.hashtableGet, Finmap.lookup_eq_none.mpr unbound]

theorem BindingsStep.remove_eq
    (step : BindingsStep bindings (.remove key result) after) :
    (result, after) = bindings.hashtableRemove key := by
  cases step with
  | erase bound => simp [Bindings.hashtableRemove, bound]
  | absent unbound => simp [Bindings.hashtableRemove, unbound]

end Steps

/-- Calls with nonempty keys that return, the slab allocator handing out entries
it has not handed out before. -/
inductive HashtableStep : Hashtable Value → HashtableCall Value → Hashtable Value → Prop where
  | set {table after : Hashtable Value} {value : Value} {key : List UInt8} {slabAlloc : Option ℕ}
      {kmalloc : Bool} {freed : HashEntry Value} {result : ℤ} (fuel : ℕ) (nonempty : key ≠ [])
      (fresh : ∀ entry ∈ slabAlloc, entry ∉ table.allocated)
      (returns : hashtableSet fuel table value key slabAlloc kmalloc freed = some (result, after)) :
      HashtableStep table (.set value key slabAlloc kmalloc result) after
  | get {table : Hashtable Value} {old stored : Value} {key : List UInt8} {result : ℤ} (fuel : ℕ)
      (nonempty : key ≠ [])
      (returns : hashtableGet fuel table old key = some (result, stored)) :
      HashtableStep table (.get old key result stored) table
  | remove {table after : Hashtable Value} {key : List UInt8} {freed : HashEntry Value}
      {result : ℤ} (fuel : ℕ) (nonempty : key ≠ [])
      (returns : hashtableRemove fuel table key freed = some (result, after)) :
      HashtableStep table (.remove key result) after

namespace Hashtable

/-- What callers may rely on: every call returns with the result of the map, the
entries are counted and every bucket is well formed. -/
structure Refines (table : Hashtable Value) (bindings : Bindings Value) : Prop where
  getReturns : ∀ old key, key ≠ [] →
    ∃ fuel, hashtableGet fuel table old key = some (bindings.hashtableGet old key)
  setReturns : ∀ value key slabAlloc kmalloc freed, key ≠ [] →
    (∀ entry ∈ slabAlloc, entry ∉ table.allocated) →
      ∃ fuel after, hashtableSet fuel table value key slabAlloc kmalloc freed =
        some ((bindings.hashtableSet value key (slabAlloc.isSome && kmalloc)).1, after)
  removeReturns : ∀ key freed, key ≠ [] →
    ∃ fuel after, hashtableRemove fuel table key freed =
      some ((bindings.hashtableRemove key).1, after)
  entryCount : table.entryCount = bindings.keys.card
  buckets : ∃ chains : ℕ → List ℕ, ∀ index < table.capacity.toNat,
    table.Bucket index (chains index)

namespace Represents

variable {table after : Hashtable Value} {bindings : Bindings Value} {chains : ℕ → List ℕ}
  {key : List UInt8}

/-- Whatever fuel `get_entry` returns with, its answer is the entry of a bound
key or null. -/
theorem getEntry_returns (represents : table.Represents bindings chains) {fuel : ℕ}
    {answer : Option ℕ} (returns : getEntry fuel table key (fnv1ahash key) = some answer) :
    (∃ before entry behind, answer = some entry ∧
      chains (table.tableOffset (fnv1ahash key)) = before ++ entry :: behind ∧
        (table.heap entry).key = key ∧ key ∈ bindings) ∨
    (answer = none ∧ key ∉ bindings) := by
  rcases represents.getEntry_cases key with
    ⟨before, entry, behind, split, sameKey, bound, found⟩ | ⟨unbound, missing⟩
  · have more := getEntry_mono returns (Nat.le_add_right fuel (before.length + 1))
    have same := Option.some.inj (more.symm.trans (found _ (by omega)))
    exact Or.inl ⟨before, entry, behind, same, split, sameKey, bound⟩
  · have more := getEntry_mono returns (Nat.le_add_right fuel
      ((chains (table.tableOffset (fnv1ahash key))).length + 1))
    exact Or.inr ⟨Option.some.inj (more.symm.trans (missing _ (by omega))), unbound⟩

theorem set_simulates (represents : table.Represents bindings chains) {fuel : ℕ} {value : Value}
    {slabAlloc : Option ℕ} {kmalloc : Bool} {freed : HashEntry Value} {result : ℤ}
    (fresh : ∀ entry ∈ slabAlloc, entry ∉ table.allocated)
    (returns : hashtableSet fuel table value key slabAlloc kmalloc freed = some (result, after)) :
    ∃ bindings' chains', BindingsStep bindings (.set value key slabAlloc kmalloc result) bindings' ∧
      after.Represents bindings' chains' := by
  simp only [hashtableSet, Option.bind_eq_bind, Option.bind_eq_some_iff] at returns
  rcases returns with ⟨answer, answerEq, returns⟩
  rcases represents.getEntry_returns answerEq with
    ⟨before, entry, behind, rfl, split, sameKey, bound⟩ | ⟨rfl, unbound⟩
  · simp only [Option.pure_def, Option.some.injEq, Prod.mk.injEq] at returns
    rcases returns with ⟨rfl, rfl⟩
    exact ⟨_, chains, .update bound, represents.overwrite (by simp [split]) sameKey bound⟩
  · cases slabAlloc with
    | none =>
        simp only [Option.pure_def, Option.some.injEq, Prod.mk.injEq] at returns
        rcases returns with ⟨rfl, rfl⟩
        exact ⟨bindings, chains, .refuse unbound (Or.inl rfl), represents⟩
    | some entry =>
        have freshEntry := fresh entry (by simp)
        cases kmalloc with
        | true =>
            rcases represents.insertEntry_spec value freshEntry unbound with
              ⟨inserted, insertEq, represented⟩
            simp only [if_true, insertEq, Option.bind_some, Option.pure_def, Option.some.injEq,
              Prod.mk.injEq] at returns
            rcases returns with ⟨rfl, rfl⟩
            exact ⟨_, _, .insert unbound, represented⟩
        | false =>
            simp only [Bool.false_eq_true, if_false, Option.pure_def, Option.some.injEq,
              Prod.mk.injEq] at returns
            rcases returns with ⟨rfl, rfl⟩
            exact ⟨bindings, chains, .refuse unbound (Or.inr rfl),
              represents.slabFree_fresh freed freshEntry⟩

theorem get_simulates (represents : table.Represents bindings chains) {fuel : ℕ}
    {old stored : Value} {result : ℤ}
    (returns : hashtableGet fuel table old key = some (result, stored)) :
    BindingsStep bindings (.get old key result stored) bindings := by
  simp only [hashtableGet, Option.bind_eq_bind, Option.bind_eq_some_iff] at returns
  rcases returns with ⟨answer, answerEq, returns⟩
  rcases represents.getEntry_returns answerEq with
    ⟨before, entry, behind, rfl, split, sameKey, bound⟩ | ⟨rfl, unbound⟩
  · simp only [Option.pure_def, Option.some.injEq, Prod.mk.injEq] at returns
    rcases returns with ⟨rfl, rfl⟩
    apply BindingsStep.hit
    exact (represents.bound key _).mpr ⟨entry, by simp [split], sameKey, rfl⟩
  · simp only [Option.pure_def, Option.some.injEq, Prod.mk.injEq] at returns
    rcases returns with ⟨rfl, rfl⟩
    exact .miss unbound

theorem remove_simulates (represents : table.Represents bindings chains) {fuel : ℕ}
    {freed : HashEntry Value} {result : ℤ}
    (returns : hashtableRemove fuel table key freed = some (result, after)) :
    ∃ bindings' chains', BindingsStep bindings (.remove key result) bindings' ∧
      after.Represents bindings' chains' := by
  simp only [hashtableRemove, Option.bind_eq_bind, Option.bind_eq_some_iff] at returns
  rcases returns with ⟨answer, answerEq, returns⟩
  rcases represents.getEntry_returns answerEq with
    ⟨before, entry, behind, rfl, split, sameKey, bound⟩ | ⟨rfl, unbound⟩
  · rcases represents.unlinkEntry_spec freed split sameKey bound with
      ⟨unlinked, unlinkEq, represented⟩
    simp only [unlinkEq, Option.bind_some, Option.pure_def, Option.some.injEq,
      Prod.mk.injEq] at returns
    rcases returns with ⟨rfl, rfl⟩
    exact ⟨_, _, .erase bound, represented⟩
  · simp only [Option.pure_def, Option.some.injEq, Prod.mk.injEq] at returns
    rcases returns with ⟨rfl, rfl⟩
    exact ⟨bindings, chains, .absent unbound, represents⟩

theorem step_simulates (represents : table.Represents bindings chains)
    {call : HashtableCall Value} (step : HashtableStep table call after) :
    ∃ bindings', BindingsStep bindings call bindings' ∧
      ∃ chains', after.Represents bindings' chains' := by
  cases step with
  | set fuel nonempty fresh returns =>
      rcases represents.set_simulates fresh returns with ⟨bindings', chains', simulated, related⟩
      exact ⟨bindings', simulated, chains', related⟩
  | get fuel nonempty returns =>
      exact ⟨bindings, represents.get_simulates returns, chains, represents⟩
  | remove fuel nonempty returns =>
      rcases represents.remove_simulates returns with ⟨bindings', chains', simulated, related⟩
      exact ⟨bindings', simulated, chains', related⟩

/-- `get_entry` always returns. -/
theorem getEntry_total (represents : table.Represents bindings chains) (key : List UInt8) :
    ∃ fuel answer, getEntry fuel table key (fnv1ahash key) = some answer := by
  rcases represents.getEntry_cases key with
    ⟨before, entry, behind, _, _, _, found⟩ | ⟨_, missing⟩
  · exact ⟨_, _, found _ (Nat.lt_succ_self _)⟩
  · exact ⟨_, _, missing _ (Nat.lt_succ_self _)⟩

theorem hashtableGet_total (represents : table.Represents bindings chains) (old : Value)
    (key : List UInt8) : ∃ fuel result stored,
      hashtableGet fuel table old key = some (result, stored) := by
  rcases represents.getEntry_total key with ⟨fuel, answer, returns⟩
  refine ⟨fuel, ?_⟩
  simp only [hashtableGet, returns, Option.bind_eq_bind, Option.bind_some]
  cases answer with
  | none => exact ⟨_, _, rfl⟩
  | some entry => exact ⟨_, _, rfl⟩

theorem hashtableSet_total (represents : table.Represents bindings chains) (value : Value)
    (key : List UInt8) {slabAlloc : Option ℕ} (kmalloc : Bool) (freed : HashEntry Value)
    (fresh : ∀ entry ∈ slabAlloc, entry ∉ table.allocated) : ∃ fuel result after,
      hashtableSet fuel table value key slabAlloc kmalloc freed = some (result, after) := by
  rcases represents.getEntry_total key with ⟨fuel, answer, returns⟩
  refine ⟨fuel, ?_⟩
  simp only [hashtableSet, returns, Option.bind_eq_bind, Option.bind_some]
  rcases represents.getEntry_returns returns with
    ⟨before, entry, behind, rfl, split, sameKey, bound⟩ | ⟨rfl, unbound⟩
  · exact ⟨_, _, rfl⟩
  · cases slabAlloc with
    | none => exact ⟨_, _, rfl⟩
    | some entry =>
        cases kmalloc with
        | false => exact ⟨_, _, rfl⟩
        | true =>
            rcases represents.insertEntry_spec value (fresh entry (by simp)) unbound with
              ⟨inserted, insertEq, _⟩
            exact ⟨0, inserted, by simp [insertEq]⟩

theorem hashtableRemove_total (represents : table.Represents bindings chains) (key : List UInt8)
    (freed : HashEntry Value) : ∃ fuel result after,
      hashtableRemove fuel table key freed = some (result, after) := by
  rcases represents.getEntry_total key with ⟨fuel, answer, returns⟩
  refine ⟨fuel, ?_⟩
  simp only [hashtableRemove, returns, Option.bind_eq_bind, Option.bind_some]
  rcases represents.getEntry_returns returns with
    ⟨before, entry, behind, rfl, split, sameKey, bound⟩ | ⟨rfl, unbound⟩
  · rcases represents.unlinkEntry_spec freed split sameKey bound with ⟨unlinked, unlinkEq, _⟩
    simp only [unlinkEq, Option.bind_some]
    exact ⟨0, _, rfl⟩
  · exact ⟨_, _, rfl⟩

/-- A table that stores a map gives its callers what they rely on. -/
theorem refines (represents : table.Represents bindings chains) : table.Refines bindings where
  getReturns := by
    intro old key _
    rcases represents.hashtableGet_total old key with ⟨fuel, result, stored, returns⟩
    have step := represents.get_simulates returns
    exact ⟨fuel, step.get_eq ▸ returns⟩
  setReturns := by
    intro value key slabAlloc kmalloc freed _ fresh
    rcases represents.hashtableSet_total value key kmalloc freed fresh with
      ⟨fuel, result, after, returns⟩
    rcases represents.set_simulates fresh returns with ⟨_, _, step, _⟩
    exact ⟨fuel, after, step.set_eq ▸ returns⟩
  removeReturns := by
    intro key freed _
    rcases represents.hashtableRemove_total key freed with ⟨fuel, result, after, returns⟩
    rcases represents.remove_simulates returns with ⟨_, _, step, _⟩
    exact ⟨fuel, after, step.remove_eq ▸ returns⟩
  entryCount := represents.count
  buckets := ⟨chains, represents.bucket⟩

end Represents

/-- Every run of calls from a successful initialisation with `size` buckets is a
run of a finite map with the same results, and the table keeps its promises
wherever the run leads.  The heap never serves a request for zero bytes. -/
def RefinesMap (Value : Type) (size : UInt64) : Prop :=
  ∀ (stale table : Hashtable Value) (cache slabCacheCreate : Bool) (kmalloc : UInt64 → Bool),
    kmalloc 0 = false →
    hashtableInit stale size cache slabCacheCreate kmalloc = (0, table) →
    ∀ (calls : List (HashtableCall Value)) (last : Hashtable Value),
      Run HashtableStep table calls last →
        ∃ bindings, Run BindingsStep ∅ calls bindings ∧ last.Refines bindings

section Init

variable {stale table : Hashtable Value} {size : UInt64} {cache slabCacheCreate : Bool}
  {kmalloc : UInt64 → Bool}

theorem hashtableInit_returns
    (returns : hashtableInit stale size cache slabCacheCreate kmalloc = (0, table)) :
    table.capacity = size ∧ table.entries = List.replicate ((size * 8).toNat / 8) none ∧
      table.entryCount = 0 ∧ kmalloc (size * 8) = true := by
  simp only [hashtableInit] at returns
  split at returns
  · simp at returns
  · split at returns
    · simp at returns
    · rename_i served
      simp only [Prod.mk.injEq, true_and] at returns
      subst returns
      simpa using served

/-- Without wrapping the array has one slot for every bucket. -/
theorem hashtableInit_represents (positive : 1 ≤ size) (noWrap : size.toNat * 8 < 2 ^ 64)
    (returns : hashtableInit stale size cache slabCacheCreate kmalloc = (0, table)) :
    table.Represents ∅ (fun _ => []) := by
  rcases hashtableInit_returns returns with ⟨capacity, entries, count, _⟩
  have slots : (size * 8).toNat / 8 = size.toNat := by
    simp only [UInt64.toNat_mul, UInt64.reduceToNat]
    omega
  have nonempty : 0 < size.toNat := UInt64.le_iff_toNat_le.mp positive
  simp only [slots] at entries
  refine ⟨by simpa [capacity] using nonempty, by simp [capacity, entries], ?_, ?_, ?_, ?_⟩
  · intro index inside
    have slot : index < size.toNat := by simpa [capacity] using inside
    refine ⟨?_, ?_, trivial, by simp, by simp, by simp⟩
    · simp [entries, slot]
    · simp
  · simp
  · simp
  · simp [count]

/-- Every size whose byte count wraps to something else than zero has a key whose
bucket lies behind the array. -/
theorem exists_key_outside (wraps : 2 ^ 64 ≤ size.toNat * 8) :
    ∃ key, key ≠ [] ∧ (size * 8).toNat / 8 ≤ (fnv1ahash key % size).toNat := by
  have slots : (size * 8).toNat / 8 = size.toNat % 2 ^ 61 := by
    simp only [UInt64.toNat_mul, UInt64.reduceToNat]
    omega
  have bound := size.toNat_lt
  have firstHash : (fnv1ahash [110, 113, 97]).toNat = 2374996901041364179 := by decide +kernel
  have secondHash : (fnv1ahash [111, 97, 114]).toNat = 1890299190114107949 := by decide +kernel
  by_cases large : 2374996901041364179 < size.toNat
  · refine ⟨[110, 113, 97], by simp, ?_⟩
    simp only [slots, UInt64.toNat_mod, firstHash, Nat.mod_eq_of_lt large]
    omega
  · refine ⟨[111, 97, 114], by simp, ?_⟩
    have small : 1890299190114107949 < size.toNat := by omega
    simp only [slots, UInt64.toNat_mod, secondHash, Nat.mod_eq_of_lt small]
    omega

/-- A lookup behind the array faults on the freshly initialised table. -/
theorem not_refinesMap_of_wraps [Inhabited Value] (wraps : 2 ^ 64 ≤ size.toNat * 8)
    (nonzero : ¬ 2 ^ 61 ∣ size.toNat) : ¬ RefinesMap Value size := by
  intro refinesMap
  rcases exists_key_outside wraps with ⟨key, nonempty, outside⟩
  let blank : HashEntry Value := ⟨none, none, 0, 0, [], default⟩
  let stale : Hashtable Value := ⟨0, 0, [], fun _ => blank, ∅⟩
  let kmalloc : UInt64 → Bool := fun bytes => bytes ≠ 0
  have served : kmalloc (size * 8) = true := by
    simp only [kmalloc, ne_eq, decide_not, Bool.not_eq_true', decide_eq_false_iff_not,
      ← UInt64.toNat_inj, UInt64.toNat_mul, UInt64.reduceToNat]
    intro zero
    exact nonzero (by omega)
  have returns : (hashtableInit stale size true true kmalloc).1 = 0 := by
    simp [hashtableInit, served]
  have initEq : hashtableInit stale size true true kmalloc = (0, _) := Prod.ext returns rfl
  rcases refinesMap stale _ true true kmalloc (by simp [kmalloc]) initEq [] _ (.nil _) with
    ⟨bindings, _, refines⟩
  rcases refines.getReturns default key nonempty with ⟨fuel, getEq⟩
  rcases hashtableInit_returns initEq with ⟨capacity, entries, _, _⟩
  have fault : ∀ table : Hashtable Value, table.capacity = size →
      table.entries = List.replicate ((size * 8).toNat / 8) none →
        hashtableGet fuel table default key = none := by
    intro table capacity entries
    have behind : table.entries[table.tableOffset (fnv1ahash key)]? = none := by
      simpa [entries, tableOffset, capacity] using outside
    simp [hashtableGet, getEntry, behind]
  simp only [fault _ capacity entries, reduceCtorEq] at getEq

theorem refinesMap_of_noWrap (positive : 1 ≤ size) (noWrap : size.toNat * 8 < 2 ^ 64) :
    RefinesMap Value size := by
  intro stale table cache slabCacheCreate kmalloc _ returns calls last run
  have start := hashtableInit_represents positive noWrap returns
  have simulated : ∃ bindings, Run BindingsStep ∅ calls bindings ∧
      ∃ chains, last.Represents bindings chains := by
    apply run.simulate
    · rintro before call after bindings ⟨chains, related⟩ step
      exact related.step_simulates step
    · exact ⟨_, start⟩
  rcases simulated with ⟨bindings, abstractRun, chains, related⟩
  exact ⟨bindings, abstractRun, related.refines⟩

/-- When the byte count wraps to zero, the heap refuses the request. -/
theorem refinesMap_of_dvd (divides : 2 ^ 61 ∣ size.toNat) : RefinesMap Value size := by
  intro stale table cache slabCacheCreate kmalloc nothing returns calls last run
  rcases hashtableInit_returns returns with ⟨_, _, _, served⟩
  have zero : size * 8 = 0 := by
    simp only [← UInt64.toNat_inj, UInt64.toNat_mul, UInt64.reduceToNat]
    omega
  simp [zero, nothing] at served

end Init

end Hashtable

/-- The table refines a finite map for exactly the sizes whose array is as long
as its capacity, or for which there is no array at all. -/
theorem hashtable_refinesMap_iff [Inhabited Value] (size : UInt64) (positive : 1 ≤ size) :
    Hashtable.RefinesMap Value size ↔ size.toNat * 8 < 2 ^ 64 ∨ 2 ^ 61 ∣ size.toNat := by
  constructor
  · intro refinesMap
    by_contra wrong
    simp only [not_or, Nat.not_lt] at wrong
    exact Hashtable.not_refinesMap_of_wraps wrong.1 wrong.2 refinesMap
  · rintro (noWrap | divides)
    · exact Hashtable.refinesMap_of_noWrap positive noWrap
    · exact Hashtable.refinesMap_of_dvd divides

theorem hashtable_refinesMap_sixteen : Hashtable.RefinesMap ℕ 16 :=
  (hashtable_refinesMap_iff 16 (by decide)).mpr (Or.inl (by decide))

/-- With `2 ^ 61 + 1` buckets the array has a single slot. -/
theorem hashtable_array_wraps :
    (1 : UInt64) ≤ 2305843009213693953 ∧ ¬ Hashtable.RefinesMap ℕ 2305843009213693953 :=
  ⟨by decide, Hashtable.not_refinesMap_of_wraps (by decide) (by decide)⟩

end Goshkik
