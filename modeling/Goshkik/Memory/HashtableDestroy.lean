import Goshkik.Memory.HashtableLoops
import Goshkik.Memory.HashtableRefinement

/-!
# Destroying a hash table

The entries of all tables come from one cache, and every entry has a copy of its key from the heap.
`hashtable_destroy` gives back both for each entry: it reads `next` and `key` before the slab
allocator may write to the entry.

A table possesses the entries of its buckets, and no others of the cache.  Hence what a run of calls
takes from the allocators, its removals and the destruction at its end give back, each piece once.
-/

namespace Goshkik

open Transition

variable {Value : Type}

namespace Hashtable

/-- The loop of `hashtable_destroy` over one bucket, with the entries given back and the keys that
`kfree` gets.  The slab allocator leaves `freed` in them. -/
def destroyBucket (freed : ℕ → HashEntry Value) :
    ℕ → Option ℕ → Hashtable Value → Option (List (ℕ × List UInt8) × Hashtable Value)
  | 0, _, _ => none
  | _ + 1, none, table => some ([], table)
  | fuel + 1, some entry, table => do
      let next := (table.heap entry).next
      let key := (table.heap entry).key
      let (behind, table) ← destroyBucket freed fuel next (table.slabFree entry (freed entry))
      return ((entry, key) :: behind, table)

def destroyBuckets (freed : ℕ → HashEntry Value) (fuel : ℕ) :
    List ℕ → Hashtable Value → Option (List (ℕ × List UInt8) × Hashtable Value)
  | [], table => some ([], table)
  | index :: indices, table => do
      let head ← table.entries[index]?
      let (first, table) ← destroyBucket freed fuel head table
      let (others, table) ← destroyBuckets freed fuel indices table
      return (first ++ others, table)

end Hashtable

/-- The result is the returned code with what is given back and the table afterwards. -/
def hashtableDestroy (fuel : ℕ) (table : Hashtable Value) (freed : ℕ → HashEntry Value) :
    Option (ℤ × List (ℕ × List UInt8) × Hashtable Value) := do
  let (returned, table) ← Hashtable.destroyBuckets freed fuel
    (List.range table.capacity.toNat) table
  return (0, returned, { table with entries := [], entryCount := 0 })

namespace Hashtable

/-- The slab allocator takes several entries back. -/
def slabFreeAll (table : Hashtable Value) (freed : ℕ → HashEntry Value) (nodes : List ℕ) :
    Hashtable Value :=
  nodes.foldl (fun table entry => table.slabFree entry (freed entry)) table

variable {table after : Hashtable Value} {freed : ℕ → HashEntry Value} {nodes : List ℕ}
  {head : Option ℕ} {fuel entry : ℕ} {key : List UInt8}

theorem heap_slabFree {content : HashEntry Value} {other : ℕ} (different : other ≠ entry) :
    (table.slabFree entry content).heap other = table.heap other :=
  Function.update_of_ne different ..

theorem heap_slabFreeAll {other : ℕ} (notMem : other ∉ nodes) :
    (table.slabFreeAll freed nodes).heap other = table.heap other := by
  induction nodes generalizing table with
  | nil => rfl
  | cons entry nodes hypothesis =>
      rw [List.mem_cons, not_or] at notMem
      exact (hypothesis notMem.2).trans (heap_slabFree notMem.1)

@[simp]
theorem entries_slabFreeAll : (table.slabFreeAll freed nodes).entries = table.entries := by
  induction nodes generalizing table with
  | nil => rfl
  | cons entry nodes hypothesis => exact hypothesis.trans rfl

theorem allocated_slabFreeAll :
    (table.slabFreeAll freed nodes).allocated = table.allocated \ nodes.toFinset := by
  induction nodes generalizing table with
  | nil => rw [List.toFinset_nil, Finset.sdiff_empty]; rfl
  | cons entry nodes hypothesis =>
      refine hypothesis.trans ?_
      change table.allocated.erase entry \ nodes.toFinset = _
      rw [List.toFinset_cons, Finset.erase_sdiff_comm, Finset.sdiff_insert]

theorem slabFreeAll_append (first second : List ℕ) :
    table.slabFreeAll freed (first ++ second) =
      (table.slabFreeAll freed first).slabFreeAll freed second :=
  List.foldl_append ..

/-- What is given back for some entries. -/
def belongings (table : Hashtable Value) (nodes : List ℕ) : List (ℕ × List UInt8) :=
  nodes.map (fun entry => (entry, (table.heap entry).key))

theorem belongings_congr (same : ∀ entry ∈ nodes, after.heap entry = table.heap entry) :
    after.belongings nodes = table.belongings nodes :=
  List.map_congr_left (fun entry mem => by rw [same entry mem])

theorem map_fst_belongings : (table.belongings nodes).map Prod.fst = nodes := by
  simp only [belongings, List.map_map, Function.comp_def, List.map_id']

/-! ## The loops -/

theorem destroyBucket_eq (linked : Linked (fun entry => (table.heap entry).next) head nodes)
    (enough : nodes.length < fuel) :
    destroyBucket freed fuel head table =
      some (table.belongings nodes, table.slabFreeAll freed nodes) := by
  induction nodes generalizing table head fuel with
  | nil =>
      obtain ⟨fuel, rfl⟩ : ∃ rest, fuel = rest + 1 := ⟨fuel - 1, by grind⟩
      rw [Linked.nil_iff.mp linked]
      rfl
  | cons entry nodes hypothesis =>
      obtain ⟨fuel, rfl⟩ : ∃ rest, fuel = rest + 1 := ⟨fuel - 1, by grind⟩
      have apart : entry ∉ nodes := (List.nodup_cons.mp linked.nodup).1
      rcases Linked.cons_iff.mp linked with ⟨rfl, tail⟩
      have same : ∀ other ∈ nodes,
          (table.slabFree entry (freed entry)).heap other = table.heap other := by
        intro other mem
        exact heap_slabFree (fun isEntry => apart (isEntry ▸ mem))
      have rest : Linked (fun other => ((table.slabFree entry (freed entry)).heap other).next)
          (table.heap entry).next nodes := tail.congr (fun other mem => by rw [same other mem])
      rw [destroyBucket, hypothesis rest (by simpa using enough), belongings_congr same]
      rfl

/-- The buckets are destroyed one after the other; they share no entry. -/
theorem destroyBuckets_eq {indices : List ℕ} {chains : ℕ → List ℕ}
    (heads : ∀ index ∈ indices, table.entries[index]? = some (chains index).head?)
    (linked : ∀ index ∈ indices,
      Linked (fun entry => (table.heap entry).next) (chains index).head? (chains index))
    (enough : ∀ index ∈ indices, (chains index).length < fuel)
    (apart : (indices.flatMap chains).Nodup) :
    destroyBuckets freed fuel indices table =
      some (table.belongings (indices.flatMap chains),
        table.slabFreeAll freed (indices.flatMap chains)) := by
  induction indices generalizing table with
  | nil => rfl
  | cons index indices hypothesis =>
      rw [List.flatMap_cons] at apart ⊢
      rcases List.nodup_append.mp apart with ⟨_, restApart, disjoint⟩
      have same : ∀ entry ∈ indices.flatMap chains,
          (table.slabFreeAll freed (chains index)).heap entry = table.heap entry := by
        intro entry mem
        exact heap_slabFreeAll (fun here => disjoint entry here entry mem rfl)
      have rest := @hypothesis (table.slabFreeAll freed (chains index))
        (fun other mem => by
          rw [entries_slabFreeAll]
          exact heads other (List.mem_cons_of_mem _ mem))
        (fun other mem => (linked other (List.mem_cons_of_mem _ mem)).congr (fun entry inChain => by
          rw [same entry (List.mem_flatMap.mpr ⟨other, mem, inChain⟩)]))
        (fun other mem => enough other (List.mem_cons_of_mem _ mem)) restApart
      have here : destroyBucket freed fuel (chains index).head? table =
          some (table.belongings (chains index), table.slabFreeAll freed (chains index)) :=
        destroyBucket_eq (linked index List.mem_cons_self) (enough index List.mem_cons_self)
      simp only [destroyBuckets, heads index List.mem_cons_self, here, rest, Option.bind_eq_bind,
        Option.bind_some, Option.pure_def]
      rw [belongings_congr same, slabFreeAll_append, belongings, belongings, belongings,
        List.map_append]

/-! ## What a table possesses -/

/-- The table stores the map, and apart from the others of the cache the entries handed out are
those of its buckets. -/
structure Possesses (others : Finset ℕ) (table : Hashtable Value) (bindings : Bindings Value)
    (chains : ℕ → List ℕ) : Prop where
  represents : table.Represents bindings chains
  apart : ∀ index, ∀ entry ∈ chains index, entry ∉ others
  kept : others ⊆ table.allocated
  counted : table.allocated.card = others.card + table.entryCount

theorem insertEntry_allocated {value : Value} {hash : UInt64}
    (inserts : insertEntry table value key hash entry = some after) :
    after.allocated = insert entry table.allocated ∧
      after.entryCount = table.entryCount + 1 := by
  simp only [insertEntry, Option.bind_eq_bind, Option.bind_eq_some_iff, writeBucket,
    Option.ite_none_right_eq_some] at inserts
  rcases inserts with ⟨head, _, written, ⟨_, isWritten⟩, isAfter⟩
  cases isWritten
  cases isAfter
  simp only [allocated_modifyIf, entryCount_modifyIf]
  exact ⟨rfl, rfl⟩

namespace Possesses

variable {others : Finset ℕ} {bindings : Bindings Value} {chains : ℕ → List ℕ}

/-- Linking a new entry adds it to what the table possesses. -/
theorem insert (possesses : table.Possesses others bindings chains) (value : Value)
    (fresh : entry ∉ table.allocated) (unbound : key ∉ bindings) :
    ∃ after chainsAfter, insertEntry table value key (fnv1ahash key) entry = some after ∧
      after.Possesses others (bindings.insert key value) chainsAfter := by
  rcases possesses.represents.insertEntry_spec value fresh unbound with
    ⟨after, inserts, represented⟩
  rcases insertEntry_allocated inserts with ⟨allocated, count⟩
  refine ⟨after, _, inserts, represented, ?_, ?_, ?_⟩
  · intro index other mem
    rw [Function.update_apply] at mem
    split at mem
    · rcases List.mem_cons.mp mem with rfl | mem
      · exact fun isOther => fresh (possesses.kept isOther)
      · exact possesses.apart _ other mem
    · exact possesses.apart index other mem
  · rw [allocated]
    exact possesses.kept.trans (Finset.subset_insert entry _)
  · rw [allocated, count, Finset.card_insert_of_notMem fresh, possesses.counted]
    rfl

/-- Removing an entry gives back what the table possesses, never an entry of another one. -/
theorem remove (possesses : table.Possesses others bindings chains) {before behind : List ℕ}
    (freed : HashEntry Value)
    (split : chains (table.tableOffset (fnv1ahash key)) = before ++ entry :: behind)
    (sameKey : (table.heap entry).key = key) (bound : key ∈ bindings) :
    ∃ after chainsAfter,
      unlinkEntry table (table.tableOffset (fnv1ahash key)) entry = some after ∧
      Possesses others { after.slabFree entry freed with entryCount := after.entryCount - 1 }
        (bindings.erase key) chainsAfter := by
  have represents := possesses.represents
  have inside := tableOffset_lt represents.nonempty (fnv1ahash key)
  have mem : entry ∈ chains (table.tableOffset (fnv1ahash key)) := by simp [split]
  rcases represents.unlinkEntry_spec freed split sameKey bound with
    ⟨after, unlinks, represented⟩
  rcases @unlinkEntry_eq _ _ _ entry (represents.length ▸ inside) with
    ⟨_, same, _, _, _, allocated, count⟩
  rw [unlinks, Option.some.injEq] at same
  subst same
  have taken : entry ∈ after.allocated := allocated ▸ represents.allocated _ inside entry mem
  have positive : 0 < table.entryCount := by
    rw [represents.count]
    exact Finset.card_pos.mpr ⟨key, Finmap.mem_keys.mpr bound⟩
  refine ⟨after, _, unlinks, represented, ?_, ?_, ?_⟩
  · intro index other inChain
    rw [Function.update_apply] at inChain
    split at inChain
    · apply possesses.apart (table.tableOffset (fnv1ahash key)) other
      rw [split]
      rcases List.mem_append.mp inChain with front | back
      · exact List.mem_append_left _ front
      · exact List.mem_append_right _ (List.mem_cons_of_mem _ back)
    · exact possesses.apart index other inChain
  · intro other isOther
    refine Finset.mem_erase.mpr ⟨?_, allocated ▸ possesses.kept isOther⟩
    rintro rfl
    exact possesses.apart _ other mem isOther
  · change (after.allocated.erase entry).card = others.card + (after.entryCount - 1)
    rw [Finset.card_erase_of_mem taken, allocated, count, possesses.counted]
    omega

theorem set (possesses : table.Possesses others bindings chains) {value : Value}
    {slabAlloc : Option ℕ} {kmalloc : Bool} {content : HashEntry Value} {result : ℤ}
    (fresh : ∀ entry ∈ slabAlloc, entry ∉ table.allocated)
    (returns : hashtableSet fuel table value key slabAlloc kmalloc content =
      some (result, after)) :
    ∃ bindings' chains', BindingsStep bindings (.set value key slabAlloc kmalloc result) bindings' ∧
      after.Possesses others bindings' chains' := by
  have represents := possesses.represents
  simp only [hashtableSet, Option.bind_eq_bind, Option.bind_eq_some_iff] at returns
  rcases returns with ⟨answer, answerEq, returns⟩
  rcases represents.getEntry_returns answerEq with
    ⟨before, entry, behind, rfl, split, sameKey, bound⟩ | ⟨rfl, unbound⟩
  · cases returns
    exact ⟨_, chains, .update bound,
      ⟨represents.overwrite (by simp [split]) sameKey bound, possesses.apart, possesses.kept,
        possesses.counted⟩⟩
  · cases slabAlloc with
    | none =>
        cases returns
        exact ⟨bindings, chains, .refuse unbound (.inl rfl), possesses⟩
    | some entry =>
        have unused := fresh entry rfl
        cases kmalloc with
        | true =>
            rcases possesses.insert value unused unbound with
              ⟨inserted, chains', inserts, possessed⟩
            simp only [if_true, inserts, Option.bind_some, Option.pure_def] at returns
            cases returns
            exact ⟨_, chains', .insert unbound, possessed⟩
        | false =>
            cases returns
            have same : (table.slabFree entry content).allocated = table.allocated :=
              Finset.erase_eq_of_notMem unused
            exact ⟨bindings, chains, .refuse unbound (.inr rfl),
              ⟨represents.slabFree_fresh content unused, possesses.apart,
                same ▸ possesses.kept, same ▸ possesses.counted⟩⟩

theorem step (possesses : table.Possesses others bindings chains) {call : HashtableCall Value}
    (calls : HashtableStep table call after) :
    ∃ bindings', BindingsStep bindings call bindings' ∧
      ∃ chains', after.Possesses others bindings' chains' := by
  have represents := possesses.represents
  cases calls with
  | set fuel nonempty fresh returns =>
      rcases possesses.set fresh returns with ⟨bindings', chains', sets, possessed⟩
      exact ⟨bindings', sets, chains', possessed⟩
  | get fuel nonempty returns =>
      exact ⟨bindings, represents.get_simulates returns, chains, possesses⟩
  | remove fuel nonempty returns =>
      simp only [hashtableRemove, Option.bind_eq_bind, Option.bind_eq_some_iff] at returns
      rcases returns with ⟨answer, answerEq, returns⟩
      rcases represents.getEntry_returns answerEq with
        ⟨before, entry, behind, rfl, split, sameKey, bound⟩ | ⟨rfl, unbound⟩
      · rcases possesses.remove _ split sameKey bound with
          ⟨unlinked, chains', unlinks, possessed⟩
        simp only [unlinks, Option.bind_some, Option.pure_def, Option.some.injEq,
          Prod.mk.injEq] at returns
        rcases returns with ⟨rfl, isAfter⟩
        exact ⟨_, .erase bound, chains', isAfter ▸ possessed⟩
      · cases returns
        exact ⟨bindings, .absent unbound, chains, possesses⟩

/-! ## Destruction -/

/-- The keys come in the order of the buckets. -/
theorem map_belongings (table : Hashtable Value) (chains : ℕ → List ℕ) :
    (table.belongings ((List.range table.capacity.toNat).flatMap chains)).map Prod.snd =
      Represents.bucketOrder table chains := by
  simp only [belongings, Represents.bucketOrder, List.map_map, List.map_flatMap,
    Function.comp_def]

/-- The entries of the buckets are what the table possesses: they are as many. -/
theorem toFinset_nodes (possesses : table.Possesses others bindings chains)
    (nodup : ((List.range table.capacity.toNat).flatMap chains).Nodup) :
    ((List.range table.capacity.toNat).flatMap chains).toFinset = table.allocated \ others := by
  have represents := possesses.represents
  have inside : ((List.range table.capacity.toNat).flatMap chains).toFinset ⊆
      table.allocated \ others := by
    intro entry mem
    rcases List.mem_flatMap.mp (List.mem_toFinset.mp mem) with ⟨index, inRange, inChain⟩
    exact Finset.mem_sdiff.mpr
      ⟨represents.allocated index (List.mem_range.mp inRange) entry inChain,
        possesses.apart index entry inChain⟩
  refine Finset.eq_of_subset_of_card_le inside ?_
  rcases represents.listed_bucketOrder with ⟨distinct, isKey⟩
  have keys : (Represents.bucketOrder table chains).toFinset = Finmap.keys bindings := by
    ext key
    rw [List.mem_toFinset, isKey, Finmap.mem_keys]
  have length : ((List.range table.capacity.toNat).flatMap chains).length =
      (Represents.bucketOrder table chains).length := by
    rw [← map_belongings, belongings, List.length_map, List.length_map]
  rw [Finset.card_sdiff_of_subset possesses.kept, possesses.counted, represents.count,
    List.toFinset_card_of_nodup nodup, length, ← List.toFinset_card_of_nodup distinct, keys]
  omega

theorem destroy (possesses : table.Possesses others bindings chains)
    (freed : ℕ → HashEntry Value) (enough : table.entryCount < fuel) :
    ∃ returned destroyed, hashtableDestroy fuel table freed = some (0, returned, destroyed) ∧
      (returned.map Prod.fst).Nodup ∧
      (returned.map Prod.fst).toFinset = table.allocated \ others ∧
      bindings.Listed (returned.map Prod.snd) ∧ destroyed.allocated = others ∧
      destroyed.entryCount = 0 := by
  have represents := possesses.represents
  have listed := represents.listed_bucketOrder
  rw [← map_belongings] at listed
  have nodup : ((List.range table.capacity.toNat).flatMap chains).Nodup := by
    have distinct := listed.1
    rw [belongings, List.map_map] at distinct
    exact distinct.of_map
  have loops : destroyBuckets freed fuel (List.range table.capacity.toNat) table = _ :=
    destroyBuckets_eq
      (fun index mem => (represents.bucket index (List.mem_range.mp mem)).head)
      (fun index mem => (represents.bucket index (List.mem_range.mp mem)).linked)
      (fun index mem => by
        have short := represents.chain_length_le (List.mem_range.mp mem)
        rw [← represents.count] at short
        omega) nodup
  refine ⟨_, _, by rw [hashtableDestroy, loops]; rfl, ?_, ?_, listed, ?_, rfl⟩
  · rw [map_fst_belongings]
    exact nodup
  · rw [map_fst_belongings]
    exact possesses.toFinset_nodes nodup
  · change (table.slabFreeAll freed _).allocated = others
    rw [allocated_slabFreeAll, possesses.toFinset_nodes nodup,
      Finset.sdiff_sdiff_eq_self possesses.kept]

end Possesses

end Hashtable

/-- Destroying a table after any run of calls gives back exactly what the run has taken and not yet
given back: each entry once, and the keys of the map that the table stores, each once. -/
theorem hashtable_destroyed {stale table last : Hashtable Value} {size : UInt64}
    {cache slabCacheCreate : Bool} {kmalloc : UInt64 → Bool} {calls : List (HashtableCall Value)}
    {fuel : ℕ} (positive : 1 ≤ size) (noWrap : size.toNat * 8 < 2 ^ 64)
    (returns : hashtableInit stale size cache slabCacheCreate kmalloc = (0, table))
    (run : Run HashtableStep table calls last) (freed : ℕ → HashEntry Value)
    (enough : last.entryCount < fuel) :
    ∃ bindings returned destroyed, Run BindingsStep ∅ calls bindings ∧
      hashtableDestroy fuel last freed = some (0, returned, destroyed) ∧
      (returned.map Prod.fst).Nodup ∧
      (returned.map Prod.fst).toFinset = last.allocated \ table.allocated ∧
      bindings.Listed (returned.map Prod.snd) ∧ destroyed.allocated = table.allocated ∧
      destroyed.entryCount = 0 := by
  have represents := Hashtable.hashtableInit_represents positive noWrap returns
  have start : table.Possesses table.allocated ∅ (fun _ => []) := by
    refine ⟨represents, fun index entry mem => ?_, Finset.Subset.refl _, ?_⟩
    · cases mem
    · rw [(Hashtable.hashtableInit_returns returns).2.2.1]
      rfl
  have simulated : ∃ bindings, Run BindingsStep ∅ calls bindings ∧
      ∃ chains, last.Possesses table.allocated bindings chains := by
    apply run.simulate
    · rintro before call after bindings ⟨chains, possesses⟩ step
      exact possesses.step step
    · exact ⟨_, start⟩
  rcases simulated with ⟨bindings, abstractRun, chains, possesses⟩
  rcases possesses.destroy freed enough with ⟨returned, destroyed, destroys, rest⟩
  exact ⟨bindings, returned, destroyed, abstractRun, destroys, rest⟩

/-- Another table has an entry of the cache already. -/
def oneForeign : Hashtable ℕ where
  entryCount := 0
  capacity := 4
  entries := List.replicate 4 none
  heap := fun _ => ⟨none, none, 0, 0, [], 0⟩
  allocated := {0x7000}

/-- Of two keys one is removed before the table is destroyed. -/
theorem hashtable_destroyed_twoKeys : ∃ last, Run HashtableStep oneForeign
    [.set 7 [0x61] (some 0x1000) true 0, .set 8 [0x62] (some 0x1040) true 0, .remove [0x61] 0]
      last ∧ ∃ destroyed, hashtableDestroy 8 last (fun _ => ⟨none, none, 0, 0, [], 0⟩) =
        some (0, [(0x1040, [0x62])], destroyed) ∧ destroyed.allocated = {0x7000} := by
  let blank : HashEntry ℕ := ⟨none, none, 0, 0, [], 0⟩
  have computes : ((hashtableSet 8 oneForeign 7 [0x61] (some 0x1000) true blank).bind
      (fun first => (hashtableSet 8 first.2 8 [0x62] (some 0x1040) true blank).bind
      (fun second => (hashtableRemove 8 second.2 [0x61] blank).bind
      (fun third => (hashtableDestroy 8 third.2 (fun _ => blank)).map
      (fun fourth => (decide (first.1 = 0 ∧ second.1 = 0 ∧ third.1 = 0 ∧ fourth.1 = 0 ∧
        0x1040 ∉ first.2.allocated ∧ third.2.entryCount < 8), fourth.2.1)))))) =
          some (true, [(0x1040, [0x62])]) := by
    decide +kernel
  rcases Option.bind_eq_some_iff.mp computes with ⟨⟨_, first⟩, sets, computes⟩
  rcases Option.bind_eq_some_iff.mp computes with ⟨⟨_, second⟩, setsOther, computes⟩
  rcases Option.bind_eq_some_iff.mp computes with ⟨⟨_, third⟩, removes, computes⟩
  rcases Option.map_eq_some_iff.mp computes with ⟨⟨code, returned, destroyed⟩, destroys, answer⟩
  simp only [Prod.mk.injEq, decide_eq_true_eq] at answer
  rcases answer with ⟨⟨rfl, rfl, rfl, rfl, fresh, enough⟩, rfl⟩
  have run : Run HashtableStep oneForeign _ third :=
    .cons (.set 8 (by decide) (by decide) sets)
      (.cons (.set 8 (by decide) (fun entry mem => Option.some.inj mem ▸ fresh) setsOther)
        (.cons (.remove 8 (by decide) removes) (.nil third)))
  have starts : hashtableInit oneForeign 4 true true (fun bytes => bytes != 0) =
      (0, oneForeign) := by
    rfl
  rcases hashtable_destroyed (by decide) (by decide) starts run (fun _ => blank) enough with
    ⟨_, _, _, _, same, _, _, _, allocated, _⟩
  rw [destroys] at same
  cases same
  exact ⟨third, run, destroyed, destroys, allocated⟩

end Goshkik
