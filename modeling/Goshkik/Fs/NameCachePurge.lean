import Goshkik.Fs.VnodePurgeExact

/-!
# Purging a vnode from the name cache

`namecache_purge_vnode` over the buckets themselves.  The loop removes the entry on which it stands
by that entry's own key, and starts the bucket again.  Each start leaves one entry less with the
vnode, and the walk up to it passes no more entries than the bucket has.
-/

namespace Goshkik

open VnodeCache

namespace LinkedTable

/-- Drop the reference on a vnode unless the pointer is null. -/
def unrefIf (inactive : VnInactive) (vnodes : VnodeCache) (vp : Option Address) :
    Except Trap VnodeCache :=
  match vp with
  | none => return vnodes
  | some vp => vnodeUnref inactive vnodes vp

/-- `namecache_remove_locked` on the buckets. -/
def removeLocked (inactive : VnInactive) (fuel : ℕ)
    (freed : List UInt8 → HashEntry (Option Address))
    (state : LinkedTable) (key : List UInt8) : Except Trap LinkedTable := do
  let (status, vp) ← fromFuel (hashtableGet fuel state.table none key)
  let vnodes ← unrefIf inactive state.vnodes (if status = 0 then vp else none)
  let (_, table) ← fromFuel (hashtableRemove fuel state.table key (freed key))
  return ⟨vnodes, table⟩

/-- The inner loop of `namecahe_purge_vnode_locked`; `depth` is the fuel of the table's
operations. -/
def purgeBucket (inactive : VnInactive) (depth : ℕ)
    (freed : List UInt8 → HashEntry (Option Address))
    (vp : Address) (index : ℕ) : ℕ → Option ℕ → LinkedTable → Except Trap LinkedTable
  | 0, _, _ => .error .fuel
  | _ + 1, none, state => return state
  | fuel + 1, some entry, state =>
      let here := state.table.heap entry
      if here.value = some vp then do
        let state ← removeLocked inactive depth freed state (here.key.take here.keySize)
        let head ← fromFuel state.table.entries[index]?
        purgeBucket inactive depth freed vp index fuel head state
      else purgeBucket inactive depth freed vp index fuel here.next state

def purgeBuckets (inactive : VnInactive) (fuel : ℕ)
    (freed : List UInt8 → HashEntry (Option Address))
    (vp : Address) : List ℕ → LinkedTable → Except Trap LinkedTable
  | [], state => return state
  | index :: indices, state => do
      let head ← fromFuel state.table.entries[index]?
      let state ← purgeBucket inactive fuel freed vp index fuel head state
      purgeBuckets inactive fuel freed vp indices state

def namecachePurgeVnode (inactive : VnInactive) (fuel : ℕ)
    (freed : List UInt8 → HashEntry (Option Address))
    (state : LinkedTable) (vp : Option Address) : Except Trap LinkedTable :=
  match vp with
  | none => return state
  | some vp => purgeBuckets inactive fuel freed vp (List.range state.table.capacity.toNat) state

variable {table : Hashtable (Option Address)} {bindings : Bindings (Option Address)}
  {chains : ℕ → List ℕ}
  {inactive : VnInactive} {freed : List UInt8 → HashEntry (Option Address)} {vp : Address}
  {key : List UInt8}

theorem removeLocked_eq (represents : table.Represents bindings chains) (inactive : VnInactive)
    (freed : List UInt8 → HashEntry (Option Address))
    (bound : bindings.lookup key = some (some vp)) :
    ∃ after chainsAfter, after.Represents (bindings.erase key) chainsAfter ∧
      after.capacity = table.capacity ∧
      ∀ fuel, bindings.keys.card < fuel →
        ∀ vnodes, removeLocked inactive fuel freed ⟨vnodes, table⟩ key =
        (vnodeUnref inactive vnodes vp).map (fun vnodes => ⟨vnodes, after⟩) := by
  rcases represents.hashtableRemove_fuel key (freed key) with
    ⟨after, chainsAfter, represented, capacity, removes⟩
  refine ⟨after, chainsAfter, represented, capacity, fun fuel enough vnodes => ?_⟩
  have gets := represents.hashtableGet_fuel enough none key
  cases call : vnodeUnref inactive vnodes vp <;>
    simp [removeLocked, unrefIf, gets, removes fuel enough, fromFuel, Bindings.hashtableGet, bound,
      bind, Except.bind, pure, Except.pure, Except.map, call]

/-- The walk passes entries with other vnodes. -/
theorem purgeBucket_skip {depth fuel index : ℕ} {head : Option ℕ} {skipped rest : List ℕ}
    (linked : Linked (fun entry => (table.heap entry).next) head (skipped ++ rest))
    (others : ∀ entry ∈ skipped, (table.heap entry).value ≠ some vp) (vnodes : VnodeCache) :
    purgeBucket inactive depth freed vp index (fuel + skipped.length) head ⟨vnodes, table⟩ =
      purgeBucket inactive depth freed vp index fuel rest.head? ⟨vnodes, table⟩ := by
  induction skipped generalizing head with
  | nil => rw [linked.eq_head?]; rfl
  | cons entry skipped hypothesis =>
      rcases Linked.cons_iff.mp linked with ⟨headEq, tail⟩
      have other := others entry List.mem_cons_self
      rw [headEq, List.length_cons, ← Nat.add_assoc, purgeBucket]
      simp only [other, if_false]
      exact hypothesis tail fun entry member => others entry (List.mem_cons_of_mem _ member)

/-- An entry of a bucket that has the vnode has a key of that bucket. -/
theorem lookup_of_entry (represents : table.Represents bindings chains) {index entry : ℕ}
    (inside : index < table.capacity.toNat) (member : entry ∈ chains index)
    (found : (table.heap entry).value = some vp) :
    table.tableOffset (fnv1ahash (table.heap entry).key) = index ∧
      bindings.lookup (table.heap entry).key = some (some vp) := by
  have placed := represents.bucket_of_mem inside (List.mem_map_of_mem member)
  exact ⟨placed, (represents.bound _ _).mpr ⟨entry, placed ▸ member, rfl, found⟩⟩

theorem card_erase_le (bindings : Bindings (Option Address)) (key : List UInt8) :
    (bindings.erase key).keys.card ≤ bindings.keys.card := by
  rw [Finmap.keys_erase]
  exact Finset.card_erase_le

/-- What the inner loop has done when it comes to the end of its bucket. -/
structure Purged (vp : Address) (table : Hashtable (Option Address))
    (bindings : Bindings (Option Address))
    (purged : ℕ → Prop) (after : Hashtable (Option Address))
    (bindingsAfter : Bindings (Option Address))
    (count : ℕ) : Prop where
  represents : ∃ chains, after.Represents bindingsAfter chains
  capacity : after.capacity = table.capacity
  card : bindingsAfter.keys.card ≤ bindings.keys.card
  entries : bindings.multiplicity (some vp) = count + bindingsAfter.multiplicity (some vp)
  gone : ∀ key, purged (table.tableOffset (fnv1ahash key)) →
    bindingsAfter.lookup key ≠ some (some vp)
  kept : ∀ key, bindingsAfter.lookup key = bindings.lookup key ∨
    bindings.lookup key = some (some vp) ∧ bindingsAfter.lookup key = none ∧
      purged (table.tableOffset (fnv1ahash key))

theorem Purged.trans {middle after : Hashtable (Option Address)}
    {bindingsMiddle bindingsAfter : Bindings (Option Address)}
    {purged purgedLater : ℕ → Prop} {count countLater : ℕ}
    (first : Purged vp table bindings purged middle bindingsMiddle count)
    (second : Purged vp middle bindingsMiddle purgedLater after bindingsAfter countLater) :
    Purged vp table bindings (fun index => purged index ∨ purgedLater index) after bindingsAfter
      (count + countLater) where
  represents := second.represents
  capacity := second.capacity.trans first.capacity
  card := second.card.trans first.card
  entries := by rw [first.entries, second.entries, Nat.add_assoc]
  gone key placed := by
    rcases placed with early | late
    · rcases second.kept key with kept | ⟨bound, -⟩
      · exact kept ▸ first.gone key early
      · exact absurd bound (first.gone key early)
    · exact second.gone key ((Hashtable.tableOffset_congr first.capacity _).symm ▸ late)
  kept key := by
    have sameOffset := Hashtable.tableOffset_congr first.capacity (fnv1ahash key)
    rcases second.kept key with kept | ⟨bound, none, placed⟩
    · rw [kept]
      exact (first.kept key).imp_right fun gone => ⟨gone.1, gone.2.1, .inl gone.2.2⟩
    · rcases first.kept key with same | ⟨-, gone, -⟩
      · exact .inr ⟨same ▸ bound, none, .inr (sameOffset ▸ placed)⟩
      · rw [gone] at bound
        exact nomatch bound

/-- A bucket without an entry of the vnode is left as it is. -/
theorem Purged.untouched (represents : table.Represents bindings chains) {index : ℕ}
    (others : ∀ entry ∈ chains index, (table.heap entry).value ≠ some vp) :
    Purged vp table bindings (· = index) table bindings 0 where
  represents := ⟨chains, represents⟩
  capacity := rfl
  card := le_rfl
  entries := (Nat.zero_add _).symm
  gone key placed bound := by
    rcases (represents.bound key (some vp)).mp bound with ⟨entry, member, -, found⟩
    exact others entry (placed ▸ member) found
  kept _ := .inl rfl

/-- The removal of one entry of the bucket, before the walk starts again. -/
theorem Purged.of_erase {middle after : Hashtable (Option Address)}
    {bindingsAfter : Bindings (Option Address)}
    {index count : ℕ} (bound : bindings.lookup key = some (some vp))
    (placed : table.tableOffset (fnv1ahash key) = index)
    (capacity : middle.capacity = table.capacity)
    (purged : Purged vp middle (bindings.erase key) (· = index) after bindingsAfter count) :
    Purged vp table bindings (· = index) after bindingsAfter (count + 1) where
  represents := purged.represents
  capacity := purged.capacity.trans capacity
  card := purged.card.trans (card_erase_le bindings key)
  entries := by
    have fewer := Finmap.multiplicity_erase bindings key (some vp)
    rw [bound, if_pos rfl] at fewer
    have rest := purged.entries
    omega
  gone other placedOther :=
    purged.gone other ((Hashtable.tableOffset_congr capacity _).trans placedOther)
  kept other := by
    by_cases same : other = key
    · subst same
      have none : bindingsAfter.lookup other = none := by
        rcases purged.kept other with kept | ⟨impossible, -⟩
        · rw [kept, Finmap.lookup_erase]
        · rw [Finmap.lookup_erase] at impossible
          exact nomatch impossible
      exact .inr ⟨bound, none, placed⟩
    · have kept := purged.kept other
      rw [Finmap.lookup_erase_ne same, Hashtable.tableOffset_congr capacity] at kept
      exact kept

theorem purgeBucket_eq (represents : table.Represents bindings chains) (inactive : VnInactive)
    (freed : List UInt8 → HashEntry (Option Address)) (vp : Address) {index : ℕ}
    (inside : index < table.capacity.toNat) :
    ∃ after bindingsAfter count, Purged vp table bindings (· = index) after bindingsAfter count ∧
      ∀ size depth fuel, bindings.keys.card ≤ size → size < depth →
        (bindings.multiplicity (some vp) + 1) * (size + 1) ≤ fuel → ∀ vnodes,
          purgeBucket inactive depth freed vp index fuel (chains index).head? ⟨vnodes, table⟩ =
            (unrefAll inactive (List.replicate count vp) vnodes).map (fun vnodes =>
              ⟨vnodes, after⟩) := by
  induction entries :
    bindings.multiplicity (some vp) using Nat.strong_induction_on generalizing table bindings
    chains with
  | _ number hypothesis =>
  have bucket := represents.bucket index inside
  have short := represents.chain_length_le inside
  cases first : (chains index).find? (fun entry => (table.heap entry).value = some vp) with
  | none =>
      have others : ∀ entry ∈ chains index, (table.heap entry).value ≠ some vp := by
        simpa using List.find?_eq_none.mp first
      refine ⟨table, bindings, 0, .untouched represents others, fun size depth fuel fits deep enough
        vnodes => ?_⟩
      have room : (chains index).length + 1 ≤ fuel := by
        refine le_trans ?_ ((Nat.le_mul_of_pos_left (size + 1) (Nat.succ_pos number)).trans enough)
        omega
      obtain ⟨more, rfl⟩ := Nat.exists_eq_add_of_le' room
      have whole : Linked (fun entry => (table.heap entry).next) (chains index).head?
          (chains index ++ []) := by
        simpa using bucket.linked
      rw [show more + ((chains index).length + 1) = (more + 1) + (chains index).length by omega]
      exact purgeBucket_skip whole others vnodes
  | some entry =>
      rcases List.find?_eq_some_iff_append.mp first with ⟨found, skipped, behind, split, others⟩
      have found : (table.heap entry).value = some vp := by simpa using found
      have others : ∀ entry ∈ skipped, (table.heap entry).value ≠ some vp := by simpa using others
      have member : entry ∈ chains index := by simp [split]
      rcases lookup_of_entry represents inside member found with ⟨placed, bound⟩
      rcases removeLocked_eq represents inactive freed bound with
        ⟨middle, chainsMiddle, represented, capacity, removes⟩
      have fewer := Finmap.multiplicity_erase bindings (table.heap entry).key (some vp)
      rw [bound, if_pos rfl, entries] at fewer
      have insideMiddle : index < middle.capacity.toNat := capacity ▸ inside
      rcases hypothesis _ (by omega) represented insideMiddle rfl with
        ⟨after, bindingsAfter, count, purged, loop⟩
      refine ⟨after, bindingsAfter, count + 1, .of_erase bound placed capacity purged,
        fun size depth fuel fits deep enough vnodes => ?_⟩
      rw [split, List.length_append, List.length_cons] at short
      have room : (bindings.erase (table.heap entry).key).multiplicity (some vp) + 1 + 1 =
        number + 1 := by omega
      rw [← room, Nat.succ_mul] at enough
      obtain ⟨more, rfl⟩ := Nat.exists_eq_add_of_le' (show skipped.length + 1 ≤ fuel by omega)
      have start := bucket.linked
      rw [split] at start
      rw [show more + (skipped.length + 1) = (more + 1) + skipped.length by omega, split,
        purgeBucket_skip start others vnodes]
      have key : (table.heap entry).key.take (table.heap entry).keySize =
          (table.heap entry).key := by
        rw [(bucket.hashed entry member).2, List.take_length]
      have head := (represented.bucket index insideMiddle).head
      simp only [List.head?_cons, purgeBucket, found, if_true, key, removes depth (by omega) vnodes]
      rw [List.replicate_succ, unrefAll]
      simp only [bind, Except.bind]
      cases vnodeUnref inactive vnodes vp with
      | error trap => rfl
      | ok reached =>
          simp only [Except.map, head, fromFuel]
          exact loop size depth more ((card_erase_le _ _).trans fits) deep (by omega) reached

theorem purgeBuckets_eq (represents : table.Represents bindings chains) (inactive : VnInactive)
    (freed : List UInt8 → HashEntry (Option Address)) (vp : Address) {indices : List ℕ}
    (inside : ∀ index ∈ indices, index < table.capacity.toNat) :
    ∃ after bindingsAfter count, Purged vp table bindings (· ∈ indices) after bindingsAfter count ∧
      ∀ size fuel, bindings.keys.card ≤ size → (bindings.multiplicity (some vp) + 1) * (size + 1) ≤
        fuel →
        ∀ vnodes, purgeBuckets inactive fuel freed vp indices ⟨vnodes, table⟩ =
          (unrefAll inactive (List.replicate count vp) vnodes).map (fun vnodes =>
            ⟨vnodes, after⟩) := by
  induction indices generalizing table bindings chains with
  | nil =>
      refine ⟨table, bindings, 0,
        ⟨⟨chains, represents⟩, rfl, le_rfl, (Nat.zero_add _).symm, fun key placed => ?_,
        fun key => .inl rfl⟩, fun _ _ _ _ _ => rfl⟩
      exact absurd placed List.not_mem_nil
  | cons index indices hypothesis =>
      have here := inside index List.mem_cons_self
      rcases purgeBucket_eq represents inactive freed vp here with
        ⟨middle, bindingsMiddle, count, first, loop⟩
      rcases first.represents with ⟨chainsMiddle, represented⟩
      rcases hypothesis represented (fun other member =>
        first.capacity ▸ inside other (List.mem_cons_of_mem _ member))
        with ⟨after, bindingsAfter, countLater, second, loops⟩
      refine ⟨after, bindingsAfter, count + countLater, ?_, fun size fuel fits enough vnodes => ?_⟩
      · simpa only [List.mem_cons] using first.trans second
      · have fewer : bindingsMiddle.multiplicity (some vp) + 1 ≤
          bindings.multiplicity (some vp) + 1 := by
          have entries := first.entries
          omega
        have deep : size < fuel := (Nat.le_mul_of_pos_left (size + 1) (Nat.succ_pos _)).trans enough
        have enoughLater := (Nat.mul_le_mul_right (size + 1) fewer).trans enough
        have head := (represents.bucket index here).head
        rw [List.replicate_add, unrefAll_append, purgeBuckets]
        simp only [head, fromFuel, bind, Except.bind, loop size fuel fuel fits deep enough vnodes]
        cases unrefAll inactive (List.replicate count vp) vnodes with
        | error trap => rfl
        | ok reached => exact loops size fuel (first.card.trans fits) enoughLater reached

end LinkedTable

/-! ## The calls of vnode_unref -/

/-- All calls but the last leave a reference to the vnode. -/
theorem unrefAll_replicate (inactive : VnInactive) {vnodes : VnodeCache} {vp : Address} {count : ℕ}
    (more : count < vnodes.countOf vp) :
    ∃ reached, unrefAll inactive (List.replicate count vp) vnodes = .ok reached ∧
      reached.countOf vp + count = vnodes.countOf vp := by
  induction count generalizing vnodes with
  | zero => exact ⟨vnodes, rfl, rfl⟩
  | succ count hypothesis =>
      rcases exists_lookup (mem_of_countOf (Nat.zero_lt_of_lt more)) with ⟨vnode, stored⟩
      rw [countOf_eq stored] at more ⊢
      have nonzero : vnode.count ≠ 0 := fun zero => by simp [zero] at more
      have several : 1 < vnode.count := by
        rw [UInt32.lt_iff_toNat_lt, UInt32.toNat_one]
        omega
      rcases @unrefWithin_stays vnodes vp vnode inactive vnodes.vnodes.keys.card stored nonzero
        (.inl several)
        with ⟨flag, stays⟩
      have fewer := toNat_sub_one nonzero
      have left : (vnodes.put vp { vnode with count := vnode.count - 1, flag := flag }).countOf vp =
          (vnode.count - 1).toNat := by
        rw [countOf_put, Function.update_self]
      rcases hypothesis (show count < _ by rw [left]; omega) with ⟨reached, rest, countReached⟩
      refine ⟨reached, ?_, by omega⟩
      rw [List.replicate_succ, unrefAll, vnodeUnref, stays]
      exact rest

/-- For every table, `namecache_purge_vnode` comes to an end, unless a call of `vnode_unref` does
not: it removes the entries with the vnode and no others, and calls `vnode_unref` once for each of
them.  Where the vnode counts these, every call meets it with a reference; where all vnodes count
their children besides, every call returns. -/
theorem namecache_purge_vnode_exact {table : Hashtable (Option Address)}
    {bindings : Bindings (Option Address)}
    {chains : ℕ → List ℕ} (represents : table.Represents bindings chains) (inactive : VnInactive)
    (freed : List UInt8 → HashEntry (Option Address)) (vnodes : VnodeCache) (vp : Address)
    (counted : bindings.multiplicity (some vp) ≤ vnodes.countOf vp) :
    ∃ (after : Hashtable (Option Address)) (bindingsAfter : Bindings (Option Address))
      (chainsAfter : ℕ → List ℕ)
        (bound : ℕ),
      after.Represents bindingsAfter chainsAfter ∧
      (∀ key, bindingsAfter.lookup key =
        if bindings.lookup key = some (some vp) then none else bindings.lookup key) ∧
      (∀ fuel ≥ bound, LinkedTable.namecachePurgeVnode inactive fuel freed ⟨vnodes, table⟩
        (some vp) ≠ .error .fuel ∧
        LinkedTable.namecachePurgeVnode inactive fuel freed ⟨vnodes, table⟩ (some vp) =
          (unrefAll inactive (List.replicate (bindings.multiplicity (some vp)) vp) vnodes).map
            (fun vnodes => ⟨vnodes, after⟩)) ∧
      (∀ earlier < bindings.multiplicity (some vp), ∃ reached,
        unrefAll inactive (List.replicate earlier vp) vnodes = .ok reached ∧
          0 < reached.countOf vp) ∧
      ((∀ target, (if target = vp then bindings.multiplicity (some vp) else 0) +
        (vnodes.childrenOf ∅ target).card ≤
          vnodes.countOf target) →
        ∃ reached, unrefAll inactive (List.replicate (bindings.multiplicity (some vp)) vp) vnodes =
          .ok reached) := by
  rcases LinkedTable.purgeBuckets_eq represents inactive freed vp
    (show ∀ index ∈ List.range table.capacity.toNat, index < table.capacity.toNat from fun index =>
      List.mem_range.mp)
    with ⟨after, bindingsAfter, count, purged, purges⟩
  rcases purged.represents with ⟨chainsAfter, represented⟩
  have placed : ∀ key, table.tableOffset (fnv1ahash key) ∈ List.range table.capacity.toNat :=
    fun key =>
    List.mem_range.mpr (Hashtable.tableOffset_lt represents.nonempty _)
  have none : bindingsAfter.multiplicity (some vp) = 0 := by
    rw [Finmap.multiplicity, Finset.card_eq_zero]
    exact Finset.filter_eq_empty_iff.mpr fun key _ => purged.gone key (placed key)
  have all : bindings.multiplicity (some vp) = count := by rw [purged.entries, none, Nat.add_zero]
  have runs : ∀ fuel ≥ (bindings.multiplicity (some vp) + 1) * (bindings.keys.card + 1),
      LinkedTable.namecachePurgeVnode inactive fuel freed ⟨vnodes, table⟩ (some vp) =
        (unrefAll inactive (List.replicate (bindings.multiplicity (some vp)) vp) vnodes).map
          (fun vnodes => ⟨vnodes, after⟩) :=
    fun fuel enough => all ▸ purges _ fuel le_rfl enough vnodes
  refine ⟨after, bindingsAfter, chainsAfter, _, represented, fun key => ?_,
    fun fuel enough => ⟨?_, runs fuel enough⟩, fun earlier fewer => ?_, fun backs => ?_⟩
  · rcases purged.kept key with kept | ⟨bound, gone, -⟩
    · have other := purged.gone key (placed key)
      rw [kept] at other
      rw [kept, if_neg other]
    · rw [gone, if_pos bound]
  · rw [runs fuel enough]
    have ends := unrefAll_ne_fuel inactive (List.replicate (bindings.multiplicity (some vp)) vp)
      vnodes
    cases calls : unrefAll inactive (List.replicate (bindings.multiplicity (some vp)) vp)
      vnodes with
    | error trap => simpa [calls, Except.map] using ends
    | ok reached => simp [Except.map]
  · rcases unrefAll_replicate inactive (lt_of_lt_of_le fewer counted) with ⟨reached, returns, left⟩
    exact ⟨reached, returns, by omega⟩
  · refine unrefAll_returns inactive ⟨fun target _ => ?_, fun target isDying =>
      absurd isDying (Finset.notMem_empty target)⟩
    have due : dueTo (List.replicate (bindings.multiplicity (some vp)) vp) target =
        if target = vp then bindings.multiplicity (some vp) else 0 := by
      by_cases same : target = vp
      · simp [dueTo, same]
      · simp [dueTo, same, List.count_replicate, Ne.symm same]
    exact due ▸ backs target

/-- A vnode with a single entry is purged, and its parent goes with it. -/
theorem namecache_purge_vnode_exact_child :
    ∃ (after : Hashtable (Option Address)) (reached : VnodeCache) (bound : ℕ),
    ∀ fuel ≥ bound, LinkedTable.namecachePurgeVnode .absent fuel (fun _ =>
      ⟨none, none, 0, 0, [], none⟩)
      ⟨childVnodes, singleEntry (wordBytes 0x30) 0x20⟩ (some 0x20) = .ok ⟨reached, after⟩ := by
  have one : (singleBinding (wordBytes 0x30) 0x20).multiplicity (some 0x20) = 1 := by
    simp [singleBinding_multiplicity]
  rcases namecache_purge_vnode_exact (singleEntry_represents (wordBytes 0x30) 0x20) .absent
      (fun _ => ⟨none, none, 0, 0, [], none⟩) childVnodes 0x20 (by rw [one]; decide) with
    ⟨after, bindingsAfter, chainsAfter, bound, represented, lookups, purges, live, returns⟩
  rcases returns (fun target => by simpa [one] using childVnodes_counted target) with
    ⟨reached, unrefs⟩
  refine ⟨after, reached, bound, fun fuel enough => ?_⟩
  rw [(purges fuel enough).2, unrefs]
  rfl

end Goshkik
