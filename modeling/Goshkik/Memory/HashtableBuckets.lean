import Mathlib.Data.Finmap
import Goshkik.Memory.Hashtable

/-!
# Buckets of the hash table

A bucket is a doubly linked list of entries with different keys whose hashes
belong to it.  `Hashtable.Represents` ties all buckets to a finite map from byte
strings to values.  The lemmas say what `get_entry` finds in a table that stores
a map, and how overwriting, linking and unlinking an entry changes that map.
-/

namespace Goshkik

variable {Value : Type}

/-- A finite map from byte strings to values. -/
abbrev Bindings (Value : Type) := Finmap (fun _ : List UInt8 => Value)

namespace Hashtable

/-- The bucket at an index is the doubly linked list of the listed entries. -/
structure Bucket (table : Hashtable Value) (index : ℕ) (nodes : List ℕ) : Prop where
  head : table.entries[index]? = some nodes.head?
  linked : Linked (fun entry => (table.heap entry).next) nodes.head? nodes
  backlinked : Backlinked (fun entry => (table.heap entry).prev) none nodes
  hashed : ∀ entry ∈ nodes, (table.heap entry).hash = fnv1ahash (table.heap entry).key ∧
    (table.heap entry).keySize = (table.heap entry).key.length
  placed : ∀ entry ∈ nodes, table.tableOffset (table.heap entry).hash = index
  distinct : (nodes.map (fun entry => (table.heap entry).key)).Nodup

/-- The buckets store the map. -/
structure Represents (table : Hashtable Value) (bindings : Bindings Value)
    (chains : ℕ → List ℕ) : Prop where
  nonempty : 0 < table.capacity.toNat
  length : table.entries.length = table.capacity.toNat
  bucket : ∀ index < table.capacity.toNat, table.Bucket index (chains index)
  allocated : ∀ index < table.capacity.toNat, ∀ entry ∈ chains index, entry ∈ table.allocated
  bound : ∀ key value, bindings.lookup key = some value ↔
    ∃ entry ∈ chains (table.tableOffset (fnv1ahash key)),
      (table.heap entry).key = key ∧ (table.heap entry).value = value
  count : table.entryCount = bindings.keys.card

@[simp]
theorem heap_modify {table : Hashtable Value} {entry : ℕ}
    {update : HashEntry Value → HashEntry Value} : (table.modify entry update).heap =
      Function.update table.heap entry (update (table.heap entry)) := rfl

theorem heap_modifyIf {table : Hashtable Value} {entry : Option ℕ}
    {update : HashEntry Value → HashEntry Value} (other : ℕ) :
    (table.modifyIf entry update).heap other =
      if entry = some other then update (table.heap other) else table.heap other := by
  cases entry with
  | none => simp [modifyIf]
  | some entry =>
      by_cases same : other = entry
      · simp [modifyIf, same]
      · simp [modifyIf, same, Ne.symm same]

@[simp]
theorem entries_modifyIf {table : Hashtable Value} {entry : Option ℕ}
    {update : HashEntry Value → HashEntry Value} :
    (table.modifyIf entry update).entries = table.entries := by
  cases entry <;> rfl

@[simp]
theorem capacity_modifyIf {table : Hashtable Value} {entry : Option ℕ}
    {update : HashEntry Value → HashEntry Value} :
    (table.modifyIf entry update).capacity = table.capacity := by
  cases entry <;> rfl

@[simp]
theorem allocated_modifyIf {table : Hashtable Value} {entry : Option ℕ}
    {update : HashEntry Value → HashEntry Value} :
    (table.modifyIf entry update).allocated = table.allocated := by
  cases entry <;> rfl

@[simp]
theorem entryCount_modifyIf {table : Hashtable Value} {entry : Option ℕ}
    {update : HashEntry Value → HashEntry Value} :
    (table.modifyIf entry update).entryCount = table.entryCount := by
  cases entry <;> rfl

theorem tableOffset_lt {table : Hashtable Value} (nonempty : 0 < table.capacity.toNat)
    (hash : UInt64) : table.tableOffset hash < table.capacity.toNat := by
  simpa [tableOffset] using Nat.mod_lt hash.toNat nonempty

theorem tableOffset_congr {table after : Hashtable Value}
    (capacity : after.capacity = table.capacity) (hash : UInt64) :
    after.tableOffset hash = table.tableOffset hash := by
  simp only [tableOffset, capacity]

namespace Bucket

variable {table after : Hashtable Value} {index : ℕ} {nodes : List ℕ}

/-- A bucket only depends on its head and on its own entries, and not on the
values stored in them. -/
theorem congr (bucket : table.Bucket index nodes) (capacity : after.capacity = table.capacity)
    (head : after.entries[index]? = table.entries[index]?)
    (agree : ∀ entry ∈ nodes, ∃ value, after.heap entry =
      { table.heap entry with value := value }) :
    after.Bucket index nodes := by
  have fields : ∀ entry ∈ nodes, (after.heap entry).next = (table.heap entry).next ∧
      (after.heap entry).prev = (table.heap entry).prev ∧
      (after.heap entry).hash = (table.heap entry).hash ∧
      (after.heap entry).keySize = (table.heap entry).keySize ∧
      (after.heap entry).key = (table.heap entry).key := by
    intro entry mem
    rcases agree entry mem with ⟨value, same⟩
    simp [same]
  have keys : nodes.map (fun entry => (after.heap entry).key) =
      nodes.map (fun entry => (table.heap entry).key) :=
    List.map_congr_left (fun entry mem => (fields entry mem).2.2.2.2)
  refine ⟨head.trans bucket.head, ?_, ?_, ?_, ?_, ?_⟩
  · exact bucket.linked.congr (fun entry mem => (fields entry mem).1)
  · exact bucket.backlinked.congr (fun entry mem => (fields entry mem).2.1)
  · intro entry mem
    simpa only [(fields entry mem).2.2] using bucket.hashed entry mem
  · intro entry mem
    simpa only [(fields entry mem).2.2.1, tableOffset_congr capacity] using bucket.placed entry mem
  · simpa only [keys] using bucket.distinct

/-- An entry of a bucket is determined by its key. -/
theorem key_injective (bucket : table.Bucket index nodes) {first second : ℕ}
    (firstMem : first ∈ nodes) (secondMem : second ∈ nodes)
    (sameKey : (table.heap first).key = (table.heap second).key) : first = second :=
  List.inj_on_of_nodup_map bucket.distinct firstMem secondMem sameKey

/-- The comparison of `get_entry` finds exactly the entry with the wanted key. -/
theorem holds_iff (bucket : table.Bucket index nodes) {entry : ℕ} (mem : entry ∈ nodes)
    (key : List UInt8) : (table.heap entry).holds key (fnv1ahash key) = true ↔
      (table.heap entry).key = key := by
  have stored := bucket.hashed entry mem
  simp only [HashEntry.holds, Bool.and_eq_true, beq_iff_eq, stored]
  constructor
  · rintro ⟨⟨sameLength, _⟩, sameBytes⟩
    simpa [← sameLength] using sameBytes
  · rintro rfl
    simp

end Bucket

/-- The answer of `get_entry` does not depend on the fuel. -/
theorem getEntry_mono {table : Hashtable Value} {fuel more : ℕ} {key : List UInt8} {hash : UInt64}
    {answer : Option ℕ} (returns : getEntry fuel table key hash = some answer)
    (enough : fuel ≤ more) : getEntry more table key hash = some answer := by
  simp only [getEntry, Option.bind_eq_bind, Option.bind_eq_some_iff] at returns ⊢
  rcases returns with ⟨head, headEq, scanned, scanEq, answerEq⟩
  exact ⟨head, headEq, scanned, scan_mono scanEq enough, answerEq⟩

/-- What `hashtable_remove` writes when it unlinks an entry. -/
theorem unlinkEntry_eq {table : Hashtable Value} {offset entry : ℕ}
    (inside : offset < table.entries.length) :
    ∃ after, unlinkEntry table offset entry = some after ∧
      (∀ other, after.heap other = { table.heap other with
        next := if (table.heap entry).prev = some other then (table.heap entry).next
          else (table.heap other).next
        prev := if (table.heap entry).next = some other then (table.heap entry).prev
          else (table.heap other).prev }) ∧
      after.entries = (if (table.heap entry).prev = none then
        table.entries.set offset (table.heap entry).next else table.entries) ∧
      after.capacity = table.capacity ∧ after.allocated = table.allocated ∧
      after.entryCount = table.entryCount := by
  cases back : (table.heap entry).prev with
  | none =>
      simp only [unlinkEntry, back, writeBucket, inside, if_true, Option.bind_eq_bind,
        Option.bind_some]
      refine ⟨_, rfl, ?_, by simp, by simp, by simp, by simp⟩
      intro other
      simp only [heap_modifyIf]
      split <;> simp
  | some prev =>
      simp only [unlinkEntry, back, Option.bind_eq_bind, Option.bind_some]
      refine ⟨_, rfl, ?_, by simp [modify], by simp [modify], by simp [modify], by simp [modify]⟩
      intro other
      simp only [heap_modifyIf]
      by_cases isPrev : other = prev
      · subst isPrev
        split <;> simp
      · have : ¬ prev = other := fun same => isPrev same.symm
        split <;> simp [isPrev, this]

/-- Unlinking an entry from the bucket that holds it. -/
theorem Bucket.unlink {table after : Hashtable Value} {index entry : ℕ} {before behind : List ℕ}
    (bucket : table.Bucket index (before ++ entry :: behind))
    (inside : index < table.entries.length) (capacity : after.capacity = table.capacity)
    (heap : ∀ other ∈ before ++ behind, after.heap other = { table.heap other with
      next := if (table.heap entry).prev = some other then (table.heap entry).next
        else (table.heap other).next
      prev := if (table.heap entry).next = some other then (table.heap entry).prev
        else (table.heap other).prev })
    (entries : after.entries = if (table.heap entry).prev = none then
      table.entries.set index (table.heap entry).next else table.entries) :
    after.Bucket index (before ++ behind) := by
  have prevEq : (table.heap entry).prev = before.getLast? := bucket.backlinked.prev_eq
  have nextEq : (table.heap entry).next = behind.head? := bucket.linked.next_eq
  have unique := bucket.linked.nodup
  have mem_of : ∀ {other}, other ∈ before ++ behind → other ∈ before ++ entry :: behind := by
    intro other mem
    rcases List.mem_append.mp mem with mem | mem <;> simp [mem]
  refine ⟨?_, ?_, ?_, ?_, ?_, ?_⟩
  · simp only [entries, prevEq, nextEq, List.getLast?_eq_none_iff]
    by_cases first : before = []
    · simp [first, inside]
    · have head := bucket.head
      simp only [first, if_false, head]
      cases before with
      | nil => exact absurd rfl first
      | cons node before => simp
  · apply bucket.linked.unlink_at
    · simp only [nextEq]
      by_cases first : before = []
      · simp [first]
      · cases before with
        | nil => exact absurd rfl first
        | cons node before => simp
    · intro last isLast
      have mem := List.mem_of_getLast? isLast
      simp [heap last (by simp [mem]), prevEq, Option.mem_def.mp isLast]
    · intro other mem notLast
      simp [heap other mem, prevEq, notLast]
  · apply bucket.backlinked.unlink
    · intro first isHead
      have mem := List.mem_of_head? isHead
      simp [heap first (by simp [mem]), nextEq, Option.mem_def.mp isHead]
    · intro other mem
      have otherMem : other ∈ before ++ behind := by
        rcases List.mem_append.mp mem with mem | mem
        · simp [mem]
        · simp [List.mem_of_mem_tail mem]
      have notHead : behind.head? ≠ some other := by
        intro isHead
        cases behind with
        | nil => simp at isHead
        | cons first rest =>
            simp only [List.head?_cons, Option.some.injEq] at isHead
            subst isHead
            simp only [List.nodup_append, List.nodup_cons, List.mem_cons] at unique
            rcases List.mem_append.mp mem with mem | mem
            · exact unique.2.2 first mem first (by simp) rfl
            · exact unique.2.1.2.1 mem
      simp [heap other otherMem, nextEq, notHead]
  · intro other mem
    simpa only [heap other mem] using bucket.hashed other (mem_of mem)
  · intro other mem
    simpa only [heap other mem, tableOffset_congr capacity] using bucket.placed other (mem_of mem)
  · have keys : (before ++ behind).map (fun other => (after.heap other).key) =
        (before ++ behind).map (fun other => (table.heap other).key) :=
      List.map_congr_left (fun other mem => by simp only [heap other mem])
    have distinct := bucket.distinct
    simp only [List.map_append, List.map_cons] at distinct
    simp only [keys, List.map_append]
    exact distinct.sublist (List.Sublist.append_left (List.sublist_cons_self _ _) _)

namespace Represents

variable {table after : Hashtable Value} {bindings bindings' : Bindings Value}
  {chains : ℕ → List ℕ} {key : List UInt8}

/-- No entry is in two buckets. -/
theorem index_unique (represents : table.Represents bindings chains) {first second entry : ℕ}
    (firstInside : first < table.capacity.toNat) (secondInside : second < table.capacity.toNat)
    (inFirst : entry ∈ chains first) (inSecond : entry ∈ chains second) : first = second :=
  ((represents.bucket first firstInside).placed entry inFirst).symm.trans
    ((represents.bucket second secondInside).placed entry inSecond)

theorem mem_iff (represents : table.Represents bindings chains) : key ∈ bindings ↔
    ∃ entry ∈ chains (table.tableOffset (fnv1ahash key)), (table.heap entry).key = key := by
  simp only [Finmap.mem_iff, represents.bound]
  constructor
  · rintro ⟨value, entry, mem, sameKey, _⟩
    exact ⟨entry, mem, sameKey⟩
  · rintro ⟨entry, mem, sameKey⟩
    exact ⟨(table.heap entry).value, entry, mem, sameKey, rfl⟩

/-- `get_entry` finds the entry of a bound key and nothing for any other. -/
theorem getEntry_cases (represents : table.Represents bindings chains) (key : List UInt8) :
    (∃ before entry behind,
      chains (table.tableOffset (fnv1ahash key)) = before ++ entry :: behind ∧
        (table.heap entry).key = key ∧ key ∈ bindings ∧
          ∀ fuel, before.length < fuel → getEntry fuel table key (fnv1ahash key) =
            some (some entry)) ∨
    (key ∉ bindings ∧ ∀ fuel, (chains (table.tableOffset (fnv1ahash key))).length < fuel →
      getEntry fuel table key (fnv1ahash key) = some none) := by
  have inside := tableOffset_lt represents.nonempty (fnv1ahash key)
  have bucket := represents.bucket _ inside
  by_cases bound : key ∈ bindings
  · left
    rcases represents.mem_iff.mp bound with ⟨entry, mem, sameKey⟩
    rcases List.append_of_mem mem with ⟨before, behind, split⟩
    refine ⟨before, entry, behind, split, sameKey, bound, ?_⟩
    intro fuel enough
    have skipped : ∀ other ∈ before,
        (table.heap other).holds key (fnv1ahash key) = false := by
      intro other otherMem
      have otherInside : other ∈ chains (table.tableOffset (fnv1ahash key)) := by
        simp [split, otherMem]
      have distinct := bucket.distinct
      simp only [split, List.map_append, List.map_cons, List.nodup_append] at distinct
      have different := distinct.2.2 _ (List.mem_map_of_mem otherMem) _ List.mem_cons_self
      simpa [← Bool.not_eq_true, bucket.holds_iff otherInside, sameKey] using different
    have found := (bucket.holds_iff mem key).mpr sameKey
    have linked := bucket.linked
    have head := bucket.head
    simp only [split] at linked head
    have scanned : scan _ _ fuel none _ = _ := scan_found linked skipped found enough
    simp only [getEntry, head, Option.bind_eq_bind, Option.bind_some, scanned]
    rfl
  · right
    refine ⟨bound, ?_⟩
    intro fuel enough
    have skipped : ∀ other ∈ chains (table.tableOffset (fnv1ahash key)),
        (table.heap other).holds key (fnv1ahash key) = false := by
      intro other mem
      simp only [← Bool.not_eq_true, bucket.holds_iff mem]
      intro sameKey
      exact bound (represents.mem_iff.mpr ⟨other, mem, sameKey⟩)
    have scanned : scan _ _ fuel none _ = _ := scan_missing bucket.linked skipped enough
    simp only [getEntry, bucket.head, Option.bind_eq_bind, Option.bind_some, scanned]
    rfl

/-- Replacing one bucket replaces the bindings of the keys that belong to it. -/
theorem replace (represents : table.Represents bindings chains) {index : ℕ} {nodes : List ℕ}
    (capacity : after.capacity = table.capacity)
    (length : after.entries.length = table.entries.length)
    (bucket : after.Bucket index nodes)
    (entries : ∀ other ≠ index, after.entries[other]? = table.entries[other]?)
    (heap : ∀ other < table.capacity.toNat, other ≠ index → ∀ entry ∈ chains other,
      after.heap entry = table.heap entry)
    (allocatedNodes : ∀ entry ∈ nodes, entry ∈ after.allocated)
    (allocatedOthers : ∀ other < table.capacity.toNat, other ≠ index →
      ∀ entry ∈ chains other, entry ∈ after.allocated)
    (bound : ∀ key value, table.tableOffset (fnv1ahash key) = index →
      (bindings'.lookup key = some value ↔
        ∃ entry ∈ nodes, (after.heap entry).key = key ∧ (after.heap entry).value = value))
    (unchanged : ∀ key, table.tableOffset (fnv1ahash key) ≠ index →
      bindings'.lookup key = bindings.lookup key)
    (count : after.entryCount = bindings'.keys.card) :
    after.Represents bindings' (Function.update chains index nodes) where
  nonempty := capacity ▸ represents.nonempty
  length := length.trans (capacity ▸ represents.length)
  bucket := fun other inside => by
    by_cases same : other = index
    · simpa [same] using bucket
    · have agree := heap other (capacity ▸ inside) same
      simpa [same] using (represents.bucket other (capacity ▸ inside)).congr capacity
        (entries other same) (fun entry mem => ⟨_, agree entry mem⟩)
  allocated := fun other inside => by
    by_cases same : other = index
    · simpa [same] using allocatedNodes
    · simpa [same] using allocatedOthers other (capacity ▸ inside) same
  bound := fun key value => by
    simp only [tableOffset_congr capacity]
    by_cases same : table.tableOffset (fnv1ahash key) = index
    · simpa [same] using bound key value same
    · have inside := tableOffset_lt represents.nonempty (fnv1ahash key)
      simp only [unchanged key same, represents.bound, Function.update_of_ne same]
      constructor
      · rintro ⟨entry, mem, found⟩
        exact ⟨entry, mem, by simpa only [heap _ inside same entry mem] using found⟩
      · rintro ⟨entry, mem, found⟩
        exact ⟨entry, mem, by simpa only [heap _ inside same entry mem] using found⟩
  count := count

/-- Two keys of different buckets are different. -/
theorem key_ne {other : List UInt8} {index : ℕ} (here : table.tableOffset (fnv1ahash key) = index)
    (elsewhere : table.tableOffset (fnv1ahash other) ≠ index) : other ≠ key := by
  rintro rfl
  exact elsewhere here

/-- Setting a bound key overwrites its value. -/
theorem overwrite (represents : table.Represents bindings chains) {entry : ℕ} {value : Value}
    (mem : entry ∈ chains (table.tableOffset (fnv1ahash key)))
    (sameKey : (table.heap entry).key = key) (bound : key ∈ bindings) :
    (table.modify entry (fun old => { old with value := value })).Represents
      (bindings.insert key value) chains := by
  have inside := tableOffset_lt represents.nonempty (fnv1ahash key)
  have bucket := represents.bucket _ inside
  generalize afterEq : table.modify entry (fun old => { old with value := value }) = after
  have heapSelf : after.heap entry = { table.heap entry with value := value } := by
    simp [← afterEq]
  have heapOther : ∀ other ≠ entry, after.heap other = table.heap other := by
    intro other different
    simp [← afterEq, different]
  have agree : ∀ other, ∃ stored, after.heap other = { table.heap other with value := stored } := by
    intro other
    by_cases same : other = entry
    · exact ⟨value, same ▸ heapSelf⟩
    · exact ⟨_, heapOther other same⟩
  have keysEq : (bindings.insert key value).keys = bindings.keys := by
    ext other
    simp only [Finmap.mem_keys, Finmap.mem_insert, or_iff_right_iff_imp]
    rintro rfl
    exact bound
  suffices result : after.Represents (bindings.insert key value)
      (Function.update chains (table.tableOffset (fnv1ahash key))
        (chains (table.tableOffset (fnv1ahash key)))) by
    simpa only [Function.update_eq_self] using result
  refine represents.replace (by simp [← afterEq, modify]) (by simp [← afterEq, modify])
    (bucket.congr (by simp [← afterEq, modify]) (by simp [← afterEq, modify])
      (fun other _ => agree other)) (by simp [← afterEq, modify]) ?heap ?allocatedNodes
    ?allocatedOthers ?bound ?unchanged ?count
  case heap =>
    intro other otherInside different node nodeMem
    apply heapOther
    rintro rfl
    exact different (represents.index_unique otherInside inside nodeMem mem)
  case allocatedNodes =>
    simpa [← afterEq, modify] using represents.allocated _ inside
  case allocatedOthers =>
    intro other otherInside _
    simpa [← afterEq, modify] using represents.allocated other otherInside
  case bound =>
    intro other stored sameOffset
    have fields : ∀ node, (after.heap node).key = (table.heap node).key := by
      intro node
      rcases agree node with ⟨_, same⟩
      simp [same]
    simp only [fields]
    by_cases same : other = key
    · subst same
      simp only [Finmap.lookup_insert, Option.some.injEq]
      constructor
      · rintro rfl
        exact ⟨entry, mem, sameKey, by simp [heapSelf]⟩
      · rintro ⟨node, nodeMem, nodeKey, nodeValue⟩
        have : node = entry := bucket.key_injective nodeMem mem (nodeKey.trans sameKey.symm)
        simpa [this, heapSelf] using nodeValue
    · have unaffected : ∀ node, (table.heap node).key = other →
        after.heap node = table.heap node := by
        intro node nodeKey
        apply heapOther
        rintro rfl
        exact same (nodeKey.symm.trans sameKey)
      simp only [Finmap.lookup_insert_of_ne _ same, represents.bound, sameOffset]
      apply exists_congr
      intro node
      apply and_congr_right
      intro _
      apply and_congr_right
      intro nodeKey
      simp only [unaffected node nodeKey]
  case unchanged =>
    intro other elsewhere
    exact Finmap.lookup_insert_of_ne _ (key_ne rfl elsewhere)
  case count =>
    simpa [← afterEq, modify, keysEq] using represents.count

/-- Taking back an entry that was never linked changes nothing. -/
theorem slabFree_fresh (represents : table.Represents bindings chains) {entry : ℕ}
    (freed : HashEntry Value) (fresh : entry ∉ table.allocated) :
    (table.slabFree entry freed).Represents bindings chains := by
  have heap : ∀ index < table.capacity.toNat, ∀ node ∈ chains index,
      (table.slabFree entry freed).heap node = table.heap node := by
    intro index inside node mem
    have different : node ≠ entry := by
      rintro rfl
      exact fresh (represents.allocated index inside node mem)
    simp [slabFree, different]
  refine ⟨represents.nonempty, represents.length, ?_, ?_, ?_, represents.count⟩
  · intro index inside
    exact (represents.bucket index inside).congr rfl rfl
      (fun node mem => ⟨_, heap index inside node mem⟩)
  · intro index inside node mem
    simpa only [slabFree, Finset.erase_eq_of_notMem fresh] using
      represents.allocated index inside node mem
  · intro key value
    have inside := tableOffset_lt represents.nonempty (fnv1ahash key)
    simp only [represents.bound]
    apply exists_congr
    intro node
    apply and_congr_right
    intro mem
    simp only [heap _ inside node mem]

/-- Setting an unbound key links a new entry in front of its bucket. -/
theorem insertEntry_spec (represents : table.Represents bindings chains) {entry : ℕ}
    (value : Value) (fresh : entry ∉ table.allocated) (unbound : key ∉ bindings) :
    ∃ after, insertEntry table value key (fnv1ahash key) entry = some after ∧
      after.Represents (bindings.insert key value)
        (Function.update chains (table.tableOffset (fnv1ahash key))
          (entry :: chains (table.tableOffset (fnv1ahash key)))) := by
  have inside := tableOffset_lt represents.nonempty (fnv1ahash key)
  have bucket := represents.bucket _ inside
  have bound := represents.bound
  have missing := fun node mem sameKey => unbound (represents.mem_iff.mpr ⟨node, mem, sameKey⟩)
  have allocated := represents.allocated _ inside
  generalize indexEq : table.tableOffset (fnv1ahash key) = index at *
  generalize nodesEq : chains index = nodes at *
  have freshHere : entry ∉ nodes := fun mem => fresh (allocated entry mem)
  let placed := table.modify entry (fun _ => HashEntry.mk nodes.head? none (fnv1ahash key)
    key.length key value)
  let linked := placed.modifyIf nodes.head? (fun next => { next with prev := some entry })
  have written : linked.writeBucket (linked.tableOffset (fnv1ahash key)) (some entry) =
      some { linked with entries := table.entries.set index (some entry) } := by
    have sameIndex : linked.tableOffset (fnv1ahash key) = index := by
      simp [linked, placed, ← indexEq, tableOffset, modify]
    have sameEntries : linked.entries = table.entries := by simp [linked, placed, modify]
    simp [writeBucket, sameIndex, sameEntries, represents.length, inside]
  refine ⟨{ linked with
    entries := table.entries.set index (some entry)
    entryCount := linked.entryCount + 1
    allocated := insert entry linked.allocated }, ?_, ?_⟩
  · simp only [insertEntry, indexEq, bucket.head, Option.bind_eq_bind, Option.bind_some]
    simp only [linked, placed] at written
    simp only [written, Option.bind_some]
    rfl
  have heapSelf : linked.heap entry =
      { next := nodes.head?, prev := none, hash := fnv1ahash key, keySize := key.length,
        key := key, value := value } := by
    have notHead : nodes.head? ≠ some entry := fun same => freshHere (List.mem_of_head? same)
    simp [linked, heap_modifyIf, notHead, placed]
  have heapOther : ∀ other ≠ entry, linked.heap other =
      if nodes.head? = some other then { table.heap other with prev := some entry }
      else table.heap other := by
    intro other different
    simp [linked, heap_modifyIf, placed, different]
  have fields : ∀ other ≠ entry, (linked.heap other).next = (table.heap other).next ∧
      (linked.heap other).hash = (table.heap other).hash ∧
      (linked.heap other).keySize = (table.heap other).keySize ∧
      (linked.heap other).key = (table.heap other).key ∧
      (linked.heap other).value = (table.heap other).value := by
    intro other different
    simp only [heapOther other different]
    split <;> simp
  have ne_of_mem : ∀ {other}, other ∈ nodes → other ≠ entry := by
    rintro other mem rfl
    exact freshHere mem
  have capacityEq : linked.capacity = table.capacity := by simp [linked, placed, modify]
  have allocatedEq : linked.allocated = table.allocated := by simp [linked, placed, modify]
  have countEq : linked.entryCount = table.entryCount := by simp [linked, placed, modify]
  refine represents.replace capacityEq (by simp) ?bucket ?entries ?heap ?allocatedNodes
    ?allocatedOthers ?bound ?unchanged ?count
  case bucket =>
    refine ⟨?_, ?_, ?_, ?_, ?_, ?_⟩
    · simp [represents.length, inside]
    · apply bucket.linked.push
      · simp only [heapSelf]
      · exact fun other mem => (fields other (ne_of_mem mem)).1
    · refine ⟨by simp only [heapSelf], ?_⟩
      apply bucket.backlinked.rehead
      · intro first isHead
        simp [heapOther first (ne_of_mem (List.mem_of_head? isHead)), Option.mem_def.mp isHead]
      · intro other mem
        have notHead : nodes.head? ≠ some other := by
          intro isHead
          have unique := bucket.linked.nodup
          cases nodes with
          | nil => simp at mem
          | cons first rest =>
              simp only [List.head?_cons, Option.some.injEq] at isHead
              exact (List.nodup_cons.mp unique).1 (isHead ▸ mem)
        simp [heapOther other (ne_of_mem (List.mem_of_mem_tail mem)), notHead]
    · intro other mem
      rcases List.mem_cons.mp mem with rfl | mem
      · simp [heapSelf]
      · simpa only [fields other (ne_of_mem mem)] using bucket.hashed other mem
    · intro other mem
      rcases List.mem_cons.mp mem with rfl | mem
      · simpa [heapSelf, tableOffset, capacityEq] using indexEq
      · simpa only [fields other (ne_of_mem mem), tableOffset, capacityEq]
          using bucket.placed other mem
    · have keys : nodes.map (fun other => (linked.heap other).key) =
          nodes.map (fun other => (table.heap other).key) :=
        List.map_congr_left (fun other mem => (fields other (ne_of_mem mem)).2.2.2.1)
      simp only [List.map_cons, keys, heapSelf, List.nodup_cons]
      refine ⟨?_, bucket.distinct⟩
      intro repeated
      rcases List.mem_map.mp repeated with ⟨other, mem, sameKey⟩
      exact missing other mem sameKey
  case entries =>
    intro other different
    simp [List.getElem?_set_ne (Ne.symm different)]
  case heap =>
    intro other otherInside different node mem
    have notEntry : node ≠ entry := by
      rintro rfl
      exact fresh (represents.allocated other otherInside node mem)
    have notHead : nodes.head? ≠ some node := by
      intro isHead
      have here := List.mem_of_head? isHead
      simp only [← nodesEq] at here
      exact different (represents.index_unique otherInside inside mem here)
    simp [heapOther node notEntry, notHead]
  case allocatedNodes =>
    intro other mem
    rcases List.mem_cons.mp mem with rfl | mem
    · simp
    · simp [allocatedEq, allocated other mem]
  case allocatedOthers =>
    intro other otherInside _ node mem
    simp [allocatedEq, represents.allocated other otherInside node mem]
  case bound =>
    intro other stored sameOffset
    by_cases same : other = key
    · subst same
      simp only [Finmap.lookup_insert, Option.some.injEq]
      constructor
      · rintro rfl
        exact ⟨entry, by simp, by simp [heapSelf]⟩
      · rintro ⟨node, mem, nodeKey, nodeValue⟩
        rcases List.mem_cons.mp mem with rfl | mem
        · simpa [heapSelf] using nodeValue
        · simp only [fields node (ne_of_mem mem)] at nodeKey
          exact absurd nodeKey (missing node mem)
    · simp only [Finmap.lookup_insert_of_ne _ same, bound, sameOffset, nodesEq]
      constructor
      · rintro ⟨node, mem, found⟩
        exact ⟨node, by simp [mem], by simpa only [fields node (ne_of_mem mem)] using found⟩
      · rintro ⟨node, mem, found⟩
        rcases List.mem_cons.mp mem with rfl | mem
        · simp only [heapSelf] at found
          exact absurd found.1.symm same
        · exact ⟨node, mem, by simpa only [fields node (ne_of_mem mem)] using found⟩
  case unchanged =>
    intro other elsewhere
    exact Finmap.lookup_insert_of_ne _ (key_ne indexEq elsewhere)
  case count =>
    have keysEq : (bindings.insert key value).keys = insert key bindings.keys := by
      ext other
      simp [Finmap.mem_keys]
    have notKey : key ∉ bindings.keys := by simpa [Finmap.mem_keys] using unbound
    simp [keysEq, Finset.card_insert_of_notMem notKey, countEq, represents.count]

/-- Removing a bound key unlinks and frees its entry. -/
theorem unlinkEntry_spec (represents : table.Represents bindings chains) {entry : ℕ}
    {before behind : List ℕ} (freed : HashEntry Value)
    (split : chains (table.tableOffset (fnv1ahash key)) = before ++ entry :: behind)
    (sameKey : (table.heap entry).key = key) (bound : key ∈ bindings) :
    ∃ after, unlinkEntry table (table.tableOffset (fnv1ahash key)) entry = some after ∧
      Represents { after.slabFree entry freed with entryCount := after.entryCount - 1 }
        (bindings.erase key)
        (Function.update chains (table.tableOffset (fnv1ahash key)) (before ++ behind)) := by
  have inside := tableOffset_lt represents.nonempty (fnv1ahash key)
  have bucket := represents.bucket _ inside
  have allocated := represents.allocated _ inside
  have lookups := represents.bound
  generalize indexEq : table.tableOffset (fnv1ahash key) = index at *
  simp only [split] at bucket allocated
  have insideEntries : index < table.entries.length := represents.length ▸ inside
  rcases @unlinkEntry_eq _ _ _ entry insideEntries with
    ⟨after, unlinked, heap, entries, capacity, allocatedEq, countEq⟩
  refine ⟨after, unlinked, ?_⟩
  have unique := bucket.linked.nodup
  have ne_of_mem : ∀ {other}, other ∈ before ++ behind → other ≠ entry := by
    rintro other mem rfl
    simp only [List.nodup_append, List.nodup_cons, List.mem_cons] at unique
    rcases List.mem_append.mp mem with mem | mem
    · exact unique.2.2 other mem other (by simp) rfl
    · exact unique.2.1.1 mem
  have mem_of : ∀ {other}, other ∈ before ++ behind → other ∈ before ++ entry :: behind := by
    intro other mem
    rcases List.mem_append.mp mem with mem | mem <;> simp [mem]
  have heapFreed : ∀ other ≠ entry,
      (after.slabFree entry freed).heap other = after.heap other := by
    intro other different
    simp [slabFree, different]
  have entryMem : entry ∈ before ++ entry :: behind := by simp
  refine represents.replace capacity ?length
    (bucket.unlink insideEntries capacity ?unlinkHeap entries)
    ?entries ?heap ?allocatedNodes ?allocatedOthers ?bound ?unchanged ?count
  case length =>
    change after.entries.length = table.entries.length
    simp only [entries]
    split <;> simp
  case unlinkHeap =>
    intro other mem
    simpa only [heapFreed other (ne_of_mem mem)] using heap other
  case entries =>
    intro other different
    change after.entries[other]? = table.entries[other]?
    simp only [entries]
    split
    · exact List.getElem?_set_ne (Ne.symm different)
    · rfl
  case heap =>
    intro other otherInside different node mem
    have notHere : ∀ here ∈ before ++ entry :: behind, here ≠ node := by
      rintro here hereMem rfl
      simp only [← split] at hereMem
      exact different (represents.index_unique otherInside inside mem hereMem)
    have notPrev : (table.heap entry).prev ≠ some node := by
      simp only [bucket.backlinked.prev_eq]
      intro isLast
      exact notHere node (by simp [List.mem_of_getLast? isLast]) rfl
    have notNext : (table.heap entry).next ≠ some node := by
      simp only [bucket.linked.next_eq]
      intro isHead
      exact notHere node (by simp [List.mem_of_head? isHead]) rfl
    have notEntry : node ≠ entry := fun same => notHere entry entryMem same.symm
    simp only [heapFreed node notEntry, heap, notPrev, notNext, if_false]
  case allocatedNodes =>
    intro other mem
    change other ∈ after.allocated.erase entry
    simp only [allocatedEq, Finset.mem_erase]
    exact ⟨ne_of_mem mem, allocated other (mem_of mem)⟩
  case allocatedOthers =>
    intro other otherInside different node mem
    change node ∈ after.allocated.erase entry
    simp only [allocatedEq, Finset.mem_erase]
    refine ⟨?_, represents.allocated other otherInside node mem⟩
    rintro rfl
    simp only [← split] at entryMem
    exact different (represents.index_unique otherInside inside mem entryMem)
  case bound =>
    intro other stored sameOffset
    have fields : ∀ node ∈ before ++ behind,
        ((after.slabFree entry freed).heap node).key = (table.heap node).key ∧
          ((after.slabFree entry freed).heap node).value = (table.heap node).value := by
      intro node mem
      simp [heapFreed node (ne_of_mem mem), heap]
    by_cases same : other = key
    · subst same
      simp only [Finmap.lookup_erase, reduceCtorEq, false_iff]
      rintro ⟨node, mem, nodeKey, _⟩
      apply ne_of_mem mem
      apply bucket.key_injective (mem_of mem) entryMem
      simpa only [fields node mem, sameKey] using nodeKey
    · simp only [Finmap.lookup_erase_ne same, lookups, sameOffset, split]
      constructor
      · rintro ⟨node, mem, nodeKey, nodeValue⟩
        have remains : node ∈ before ++ behind := by
          simp only [List.mem_append, List.mem_cons] at mem ⊢
          rcases mem with mem | rfl | mem
          · exact Or.inl mem
          · exact absurd (nodeKey.symm.trans sameKey) same
          · exact Or.inr mem
        exact ⟨node, remains, (fields node remains).1.trans nodeKey,
          (fields node remains).2.trans nodeValue⟩
      · rintro ⟨node, mem, nodeKey, nodeValue⟩
        exact ⟨node, mem_of mem, (fields node mem).1.symm.trans nodeKey,
          (fields node mem).2.symm.trans nodeValue⟩
  case unchanged =>
    intro other elsewhere
    exact Finmap.lookup_erase_ne (key_ne indexEq elsewhere)
  case count =>
    have isKey : key ∈ bindings.keys := by simpa [Finmap.mem_keys] using bound
    simp only [Finmap.keys_erase, Finset.card_erase_of_mem isKey, countEq, represents.count]

end Represents

end Hashtable

end Goshkik
