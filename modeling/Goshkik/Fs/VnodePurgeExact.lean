import Goshkik.Fs.VnodeBacking
import Goshkik.Memory.HashtableLoops

/-!
# What a purge removes

`vfs_purge_vnodes` over the buckets themselves, when no other thread comes between its passes: it
counts the entries of the filesystem, writes down their node numbers, and removes them one after the
other.  Whatever the slab allocator leaves in an entry it takes back is an argument.
-/

namespace Goshkik

open VnodeCache

/-- The vnodes, and a table of pointers to them. -/
structure LinkedTable where
  vnodes : VnodeCache
  table : Hashtable (Option Address)

/-- An operation on the table that does not return. -/
def fromFuel {Result : Type} : Option Result → Except Trap Result
  | none => .error .fuel
  | some result => .ok result

namespace LinkedTable

/-- The body of the last loop of `vfs_purge_vnodes`. -/
def purgeEntry (inactive : VnInactive) (fuel : ℕ) (freed : List UInt8 → HashEntry (Option Address))
    (state : LinkedTable) (key : List UInt8) : Except Trap LinkedTable := do
  let (get, vp) ← fromFuel (hashtableGet fuel state.table none key)
  match (if get = 0 then vp else none) with
  | some vp => do
      let (rem, table) ← fromFuel (hashtableRemove fuel state.table key (freed key))
      if rem = 0 then
        let vnodes ← vnodeUnref inactive state.vnodes vp
        return ⟨vnodes, table⟩
      else return ⟨state.vnodes, table⟩
  | none => do
      let (_, table) ← fromFuel (hashtableRemove fuel state.table key (freed key))
      return ⟨state.vnodes, table⟩

def purgeEntries (inactive : VnInactive) (fuel : ℕ)
    (freed : List UInt8 → HashEntry (Option Address)) :
    List (List UInt8) → LinkedTable → Except Trap LinkedTable
  | [], state => return state
  | key :: keys, state => do
      let state ← purgeEntry inactive fuel freed state key
      purgeEntries inactive fuel freed keys state

/-- The keys of a pass through the buckets whose first word is the filesystem. -/
def passKeys (fuel : ℕ) (state : LinkedTable) (vfsp : Address) :
    Except Trap (List (List UInt8)) := do
  let entries ← fromFuel (state.table.walkBuckets fuel (List.range state.table.capacity.toNat))
  return (entries.map (fun entry => (state.table.heap entry).key)).filter
    (fun key => key.take 8 = wordBytes vfsp)

def vfsPurgeVnodes (inactive : VnInactive) (fuel : ℕ)
    (freed : List UInt8 → HashEntry (Option Address))
    (state : LinkedTable) (vfsp : Option Address) (kmalloc : Bool) : Except Trap LinkedTable :=
  match vfsp with
  | none => return state
  | some vfsp => do
      let counted ← passKeys fuel state vfsp
      if counted.length = 0 then return state
      else if !kmalloc then return state
      else
        let collected ← passKeys fuel state vfsp
        let nodeids := collected.map (fun key => key.drop 8)
        purgeEntries inactive fuel freed (nodeids.map (fun nodeid => wordBytes vfsp ++ nodeid))
          state

end LinkedTable

/-- The vnode that the table has under a key. -/
def storedVnode (bindings : Bindings (Option Address)) (key : List UInt8) : List Address :=
  (bindings.lookup key).join.toList

variable {table : Hashtable (Option Address)} {bindings : Bindings (Option Address)}
  {chains : ℕ → List ℕ}
  {inactive : VnInactive} {fuel : ℕ} {freed : List UInt8 → HashEntry (Option Address)}

namespace LinkedTable

/-- An entry is removed, and the reference of the vnode in it is dropped. -/
theorem purgeEntry_eq (represents : table.Represents bindings chains) (inactive : VnInactive)
    (freed : List UInt8 → HashEntry (Option Address)) (key : List UInt8) :
    ∃ after chainsAfter, after.Represents (bindings.erase key) chainsAfter ∧
      ∀ fuel, bindings.keys.card < fuel →
        ∀ vnodes, purgeEntry inactive fuel freed ⟨vnodes, table⟩ key =
        (unrefAll inactive (storedVnode bindings key) vnodes).map (fun vnodes =>
          ⟨vnodes, after⟩) := by
  rcases represents.hashtableRemove_fuel key (freed key) with
    ⟨after, chainsAfter, represented, -, removes⟩
  refine ⟨after, chainsAfter, represented, fun fuel enough vnodes => ?_⟩
  have gets := represents.hashtableGet_fuel enough none key
  have removes := removes fuel enough
  cases lookup : bindings.lookup key with
  | none =>
      simp [purgeEntry, gets, removes, fromFuel, Bindings.hashtableGet, lookup, storedVnode,
        unrefAll, bind, Except.bind, pure, Except.pure, Except.map]
  | some value =>
      have bound : key ∈ bindings := Finmap.mem_iff.mpr ⟨value, lookup⟩
      cases value with
      | none =>
          simp [purgeEntry, gets, removes, fromFuel, Bindings.hashtableGet, lookup, storedVnode,
            unrefAll, bind, Except.bind, pure, Except.pure, Except.map]
      | some vp =>
          cases call : vnodeUnref inactive vnodes vp <;>
            simp [purgeEntry, gets, removes, fromFuel, Bindings.hashtableGet, lookup, storedVnode,
              unrefAll, bind, Except.bind, pure, Except.pure, Except.map, Bindings.hashtableRemove,
              bound, call]

/-- The entries are removed, and the references of the vnodes in them are dropped in turn. -/
theorem purgeEntries_eq (represents : table.Represents bindings chains) (inactive : VnInactive)
    (freed : List UInt8 → HashEntry (Option Address)) {keys : List (List UInt8)}
    (nodup : keys.Nodup) :
    ∃ after bindingsAfter chainsAfter, after.Represents bindingsAfter chainsAfter ∧
      (∀ key, bindingsAfter.lookup key = if key ∈ keys then none else bindings.lookup key) ∧
      ∀ fuel, bindings.keys.card < fuel →
        ∀ vnodes, purgeEntries inactive fuel freed keys ⟨vnodes, table⟩ =
        (unrefAll inactive (keys.flatMap (storedVnode bindings)) vnodes).map (fun vnodes =>
          ⟨vnodes, after⟩) := by
  induction keys generalizing table bindings chains with
  | nil => exact ⟨table, bindings, chains, represents, by simp, fun _ _ _ => rfl⟩
  | cons key keys hypothesis =>
      rcases List.nodup_cons.mp nodup with ⟨fresh, rest⟩
      rcases purgeEntry_eq represents inactive freed key with
        ⟨middle, chainsMiddle, represented, first⟩
      rcases hypothesis represented rest with
        ⟨after, bindingsAfter, chainsAfter, final, lookups, others⟩
      have sameStored : keys.flatMap (storedVnode (bindings.erase key)) =
          keys.flatMap (storedVnode bindings) := by
        refine List.flatMap_congr fun other member => ?_
        rw [storedVnode, Finmap.lookup_erase_ne (ne_of_mem_of_not_mem member fresh), storedVnode]
      refine ⟨after, bindingsAfter, chainsAfter, final, fun other => ?_,
        fun fuel enough vnodes => ?_⟩
      · rw [lookups]
        by_cases same : other = key
        · subst same
          simp [fresh]
        · simp [same, Finmap.lookup_erase_ne same]
      · have enoughLater : (bindings.erase key).keys.card < fuel := by
          rw [Finmap.keys_erase]
          exact lt_of_le_of_lt (Finset.card_erase_le) enough
        rw [List.flatMap_cons, unrefAll_append, purgeEntries, first fuel enough]
        simp only [bind, Except.bind]
        cases unrefAll inactive (storedVnode bindings key) vnodes with
        | error trap => rfl
        | ok vnodes => exact sameStored ▸ others fuel enoughLater vnodes

/-- A pass lists the keys of the filesystem in the order of the buckets. -/
theorem passKeys_eq (represents : table.Represents bindings chains)
    (enough : bindings.keys.card < fuel)
    (vnodes : VnodeCache) (vfsp : Address) :
    passKeys fuel ⟨vnodes, table⟩ vfsp =
      .ok ((Hashtable.Represents.bucketOrder table chains).filter (fun key =>
        key.take 8 = wordBytes vfsp)) := by
  have walked : table.walkBuckets fuel (List.range table.capacity.toNat) = some _ :=
    represents.walkBuckets_eq enough fun index member => List.mem_range.mp member
  simp only [passKeys, walked, fromFuel, bind, Except.bind, pure, Except.pure, List.map_flatMap,
    Hashtable.Represents.bucketOrder]

/-- The purge is the loop over the keys of the filesystem. -/
theorem vfsPurgeVnodes_eq (represents : table.Represents bindings chains)
    (enough : bindings.keys.card < fuel)
    (vnodes : VnodeCache) (vfsp : Address) :
    vfsPurgeVnodes inactive fuel freed ⟨vnodes, table⟩ (some vfsp) true =
      purgeEntries inactive fuel freed ((Hashtable.Represents.bucketOrder table chains).filter
        (fun key => key.take 8 = wordBytes vfsp)) ⟨vnodes, table⟩ := by
  have again := keysOf_eq vfsp (Hashtable.Represents.bucketOrder table chains)
  simp only [keysOf] at again
  simp only [vfsPurgeVnodes, passKeys_eq represents enough, bind, Except.bind, List.map_map,
    Function.comp_def, again]
  by_cases empty : (Hashtable.Represents.bucketOrder table chains).filter (fun key =>
    key.take 8 = wordBytes vfsp) = []
  · simp [empty, purgeEntries]
  · simp [empty]

end LinkedTable

/-! ## The references that a purge drops -/

/-- No vnode has its reference dropped for more entries than there are. -/
theorem count_storedVnode_le {keys : List (List UInt8)} (nodup : keys.Nodup) (vp : Address) :
    (keys.flatMap (storedVnode bindings)).count vp ≤ bindings.multiplicity (some vp) := by
  have counts : (keys.flatMap (storedVnode bindings)).count vp =
      (keys.filter (fun key => bindings.lookup key = some (some vp))).length := by
    induction keys with
    | nil => rfl
    | cons key keys hypothesis =>
        rw [List.flatMap_cons, List.count_append, hypothesis (List.nodup_cons.mp nodup).2,
          List.filter_cons, storedVnode]
        rcases lookup : bindings.lookup key with _ | _ | other
        · simp
        · simp
        · by_cases same : other = vp
          · simp [same, Nat.add_comm]
          · simp [same]
  rw [counts, ← List.toFinset_card_of_nodup (nodup.filter _), Finmap.multiplicity]
  refine Finset.card_le_card fun key member => ?_
  have lookup : bindings.lookup key =
    some (some vp) := by simpa using (List.mem_filter.mp (List.mem_toFinset.mp member)).2
  exact Finset.mem_filter.mpr ⟨Finmap.mem_keys.mpr (Finmap.mem_iff.mpr ⟨_, lookup⟩), lookup⟩

/-- Where every vnode of the table counts its entries and its children, a purge removes the entries
of its filesystem and no others, whatever the other vnodes count.  It drops one reference for each
vnode that it removes, and none of a vnode that has been freed.  It returns when the parents outside
of the table count their children too. -/
theorem vfs_purge_vnodes_exact (represents : table.Represents bindings chains)
    (inactive : VnInactive)
    (freed : List UInt8 → HashEntry (Option Address)) (vnodes : VnodeCache) (vfsp : Address)
    (counted : ∀ vp, 0 < bindings.multiplicity (some vp) →
      bindings.multiplicity (some vp) + (vnodes.childrenOf ∅ vp).card ≤ vnodes.countOf vp) :
    ∃ (keys : List (List UInt8)) (after : Hashtable (Option Address))
      (bindingsAfter : Bindings (Option Address))
        (chainsAfter : ℕ → List ℕ) (bound : ℕ),
      keys.Nodup ∧ (∀ key, key ∈ keys ↔ key ∈ bindings ∧ key.take 8 = wordBytes vfsp) ∧
      after.Represents bindingsAfter chainsAfter ∧
      (∀ key, bindingsAfter.lookup key = if key ∈ keys then none else bindings.lookup key) ∧
      (∀ fuel ≥ bound, LinkedTable.vfsPurgeVnodes inactive fuel freed ⟨vnodes, table⟩ (some vfsp)
        true =
        (unrefAll inactive (keys.flatMap (storedVnode bindings)) vnodes).map (fun vnodes =>
          ⟨vnodes, after⟩)) ∧
      (∀ earlier vp later reached, keys.flatMap (storedVnode bindings) = earlier ++ vp :: later →
        unrefAll inactive earlier vnodes = .ok reached → 0 < reached.countOf vp) ∧
      ((∀ vp, bindings.multiplicity (some vp) = 0 →
        (vnodes.childrenOf ∅ vp).card ≤ vnodes.countOf vp) →
        ∃ reached, unrefAll inactive (keys.flatMap (storedVnode bindings)) vnodes =
          .ok reached) := by
  have listed := represents.listed_bucketOrder
  have nodup : ((Hashtable.Represents.bucketOrder table chains).filter
      (fun key => key.take 8 = wordBytes vfsp)).Nodup := listed.1.filter _
  rcases LinkedTable.purgeEntries_eq represents inactive freed nodup with
    ⟨after, bindingsAfter, chainsAfter, represented, lookups, purges⟩
  have due := fun vp => @count_storedVnode_le bindings _ nodup vp
  refine ⟨_, after, bindingsAfter, chainsAfter, bindings.keys.card + 1, nodup, fun key =>
    ?_, represented, lookups,
    fun fuel enough => ?_, fun earlier vp later reached split returns => ?_, fun others => ?_⟩
  · simp [listed.2 key]
  · rw [LinkedTable.vfsPurgeVnodes_eq represents enough]
    exact purges fuel enough vnodes
  · have isCovered : 0 < bindings.multiplicity (some vp) := by
      refine lt_of_lt_of_le ?_ (due vp)
      rw [split]
      simp
    have backs : vnodes.Backs { vp | 0 < bindings.multiplicity (some vp) } ∅
        (dueTo (earlier ++ vp :: later)) := by
      refine ⟨fun target isCovered => ?_, fun target isDying =>
        absurd isDying (Finset.notMem_empty target)⟩
      exact (Nat.add_le_add_right (split ▸ due target) _).trans (counted target isCovered)
    exact countOf_pos_of_backs backs isCovered returns
  · refine unrefAll_returns inactive ⟨fun target _ => ?_, fun target isDying =>
      absurd isDying (Finset.notMem_empty target)⟩
    refine (Nat.add_le_add_right (due target) _).trans ?_
    rcases Nat.eq_zero_or_pos (bindings.multiplicity (some target)) with none | some
    · rw [none, Nat.zero_add]
      exact others target none
    · exact counted target some

/-! ## A table of one entry -/

/-- A table of one bucket with a single entry. -/
def singleEntry (key : List UInt8) (vp : Address) : Hashtable (Option Address) where
  entryCount := 1
  capacity := 1
  entries := [some 0]
  heap _ := ⟨none, none, fnv1ahash key, key.length, key, some vp⟩
  allocated := {0}

def singleBinding (key : List UInt8) (vp : Address) : Bindings (Option Address) :=
  (∅ : Bindings (Option Address)).insert key (some vp)

theorem singleBinding_multiplicity (key : List UInt8) (vp target : Address) :
    (singleBinding key vp).multiplicity (some target) = if target = vp then 1 else 0 := by
  rw [singleBinding, Finmap.multiplicity_insert_of_notMem Finmap.notMem_empty,
    Finmap.multiplicity_empty]
  simp [eq_comm]

theorem singleEntry_represents (key : List UInt8) (vp : Address) :
    (singleEntry key vp).Represents (singleBinding key vp) (fun _ => [0]) := by
  have first : ∀ index < (singleEntry key vp).capacity.toNat, index = 0 := fun index inside =>
    Nat.lt_one_iff.mp inside
  constructor
  · exact Nat.one_pos
  · rfl
  · intro index inside
    rw [first index inside]
    refine ⟨rfl, ⟨rfl, rfl⟩, ⟨rfl, trivial⟩, ?_, ?_, ?_⟩
    · simp [singleEntry]
    · simp [singleEntry, Hashtable.tableOffset]
    · simp
  · simp [singleEntry]
  · intro other value
    by_cases same : other = key
    · subst same
      rw [singleBinding, Finmap.lookup_insert]
      simp [singleEntry]
    · simp [singleEntry, singleBinding, Finmap.lookup_insert_of_ne _ same, Ne.symm same]
  · have keys : (singleBinding key vp).keys = {key} := by
      ext other
      simp [singleBinding, Finmap.mem_keys, Finmap.mem_insert, Finmap.notMem_empty]
    simp [keys, singleEntry]

/-- A directory whose parent is another one. -/
def childVnodes : VnodeCache where
  vnodes := ((∅ : Finmap fun _ : Address =>
    Vnode).insert 0x20 ⟨0, 1, some 0x30, [], none, .vdir, none⟩).insert 0x30
    ⟨0, 1, none, [], none, .vdir, none⟩
  freed := []

theorem childVnodes_counted (vp : Address) :
    (if vp = 0x20 then 1 else 0) + (childVnodes.childrenOf ∅ vp).card ≤ childVnodes.countOf vp := by
  by_cases present : vp ∈ childVnodes.vnodes.keys
  · have counted : ∀ vp ∈ childVnodes.vnodes.keys,
        (if vp = 0x20 then 1 else 0) + (childVnodes.childrenOf ∅ vp).card ≤
          childVnodes.countOf vp := by decide
    exact counted vp present
  · have closed : ∀ child ∈ childVnodes.vnodes.keys, ∀ parent ∈ childVnodes.parentOf child,
        parent ∈ childVnodes.vnodes.keys := by decide
    have childless : childVnodes.childrenOf ∅ vp = ∅ := by
      refine Finset.eq_empty_of_forall_notMem fun child member => ?_
      rcases mem_childrenOf.mp member with ⟨live, -, isChild⟩
      exact present (closed child (Finmap.mem_keys.mpr live) vp isChild)
    have other : vp ≠ 0x20 := by
      rintro rfl
      exact present (by decide)
    simp [childless, other]

/-- The vnode in the table is purged, and its parent goes with it. -/
theorem vfs_purge_vnodes_exact_child :
    ∃ (keys : List (List UInt8)) (after : Hashtable (Option Address))
    (reached : VnodeCache) (bound : ℕ), wordBytes 0x1000 ++ wordBytes 7 ∈ keys ∧
      ∀ fuel ≥ bound, LinkedTable.vfsPurgeVnodes .absent fuel (fun _ =>
        ⟨none, none, 0, 0, [], none⟩)
        ⟨childVnodes, singleEntry (wordBytes 0x1000 ++ wordBytes 7) 0x20⟩ (some 0x1000) true =
          .ok ⟨reached, after⟩ := by
  have counted := fun vp => singleBinding_multiplicity (wordBytes 0x1000 ++ wordBytes 7) 0x20 vp ▸
    childVnodes_counted vp
  rcases vfs_purge_vnodes_exact (singleEntry_represents (wordBytes 0x1000 ++ wordBytes 7) 0x20)
    .absent
      (fun _ => ⟨none, none, 0, 0, [], none⟩) childVnodes 0x1000 (fun vp _ => counted vp) with
    ⟨keys, after, bindingsAfter, chainsAfter, bound, nodup, listed, represented, lookups, purges,
      live, returns⟩
  rcases returns (fun vp none => by simpa [none] using counted vp) with ⟨reached, unrefs⟩
  refine ⟨keys, after, reached, bound, (listed _).mpr ⟨Finmap.mem_insert.mpr (.inl rfl), by decide⟩,
    fun fuel enough => ?_⟩
  rw [purges fuel enough, unrefs]
  rfl

end Goshkik
