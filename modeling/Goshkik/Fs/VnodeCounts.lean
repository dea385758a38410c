import Goshkik.Fs.VnodeCascade

/-!
# Reference counts of vnodes

`Counted` says that every vnode counts the references its holders have and the
vnodes whose parent it is.  Each function of `vnode.c` keeps this with the
references that it takes or gives, and a vnode is freed when the last one goes.
-/

namespace Goshkik

open VnodeCache

/-- One more reference to a vnode. -/
def gain (owed : Address → ℕ) (vp : Address) : Address → ℕ :=
  fun target => owed target + if target = vp then 1 else 0

/-- One reference to a vnode less. -/
def lose (owed : Address → ℕ) (vp : Address) : Address → ℕ :=
  fun target => owed target - if target = vp then 1 else 0

variable {cache after : VnodeCache} {vp target : Address} {vnode : Vnode}
  {refs : RefGraph Address} {inactive : VnInactive} {owed : Address → ℕ}

namespace VnodeCache

/-- The parent of a vnode in use. -/
def parentOf (cache : VnodeCache) (vp : Address) : Option Address :=
  (cache.vnodes.lookup vp).bind Vnode.parent

/-- The references to vnodes, those of the holders being `owed`. -/
def graph (cache : VnodeCache) (owed : Address → ℕ) : RefGraph Address where
  live := cache.vnodes.keys
  parent := cache.parentOf
  owed := owed

structure Counted (cache : VnodeCache) (owed : Address → ℕ) : Prop where
  closed : (cache.graph owed).Closed
  count : ∀ vp vnode, cache.vnodes.lookup vp = some vnode →
    vnode.count.toNat = (cache.graph owed).references vp
  flag : ∀ vp vnode, cache.vnodes.lookup vp = some vnode → vnode.flag &&& vfreeing = 0

@[simp]
theorem mem_live : vp ∈ (cache.graph owed).live ↔ vp ∈ cache.vnodes := Finmap.mem_keys

@[simp]
theorem owed_graph : (cache.graph owed).owed = owed := rfl

@[simp]
theorem parent_graph : (cache.graph owed).parent = cache.parentOf := rfl

theorem parentOf_eq (stored : cache.vnodes.lookup vp = some vnode) :
    cache.parentOf vp = vnode.parent := by
  simp [parentOf, stored]

/-- Between calls, the vnodes are those of a graph without dying or pinned ones. -/
theorem Tracks.graph_congr (tracks : cache.Tracks ∅ ∅ refs) :
    (cache.graph refs.owed).live = refs.live ∧
      ∀ vp ∈ refs.live, (cache.graph refs.owed).parent vp = refs.parent vp := by
  constructor
  · ext vp
    simp [tracks.mem]
  · intro vp mem
    rcases tracks.exists_vnode mem with ⟨vnode, stored⟩
    exact (parentOf_eq stored).trans ((tracks.counts vp mem vnode stored).parent (by simp))

theorem Tracks.counted (tracks : cache.Tracks ∅ ∅ refs) (closed : refs.Closed) :
    cache.Counted refs.owed := by
  rcases tracks.graph_congr with ⟨live, parent⟩
  constructor
  case closed => exact closed.congr live rfl parent
  case count =>
    intro vp vnode stored
    have mem : vp ∈ refs.live := by
      rw [← live, mem_live]
      exact mem_of_lookup stored
    rw [RefGraph.references_congr live rfl parent]
    exact (tracks.counts vp mem vnode stored).count
  case flag =>
    intro vp vnode stored
    have mem : vp ∈ refs.live := by
      rw [← live, mem_live]
      exact mem_of_lookup stored
    exact (tracks.counts vp mem vnode stored).flag

theorem mem_put_iff (stored : cache.vnodes.lookup vp = some vnode) (other : Vnode) :
    target ∈ (cache.put vp other).vnodes ↔ target ∈ cache.vnodes := by
  rw [mem_put]
  constructor
  · rintro (rfl | mem)
    · exact mem_of_lookup stored
    · exact mem
  · exact Or.inr

theorem parentOf_put (other : Vnode) :
    (cache.put vp other).parentOf = Function.update cache.parentOf vp other.parent := by
  funext target
  by_cases same : target = vp
  · subst same
    simp [parentOf]
  · simp [parentOf, same]

theorem parentOf_vnode (found : cache.vnode vp = .ok vnode) :
    cache.parentOf vp = vnode.parent := by
  cases lookup : cache.vnodes.lookup vp with
  | none => simp [VnodeCache.vnode, lookup] at found
  | some stored =>
      rw [vnode_eq lookup, Except.ok.injEq] at found
      exact (parentOf_eq lookup).trans (congrArg Vnode.parent found)

theorem parentOf_modify {update : Vnode → Vnode} (returns : cache.modify vp update = .ok after) :
    ∃ vnode, cache.parentOf vp = vnode.parent ∧ after.parentOf vp = (update vnode).parent := by
  simp only [modify, bind_eq_ok, pure, Except.pure, Except.ok.injEq] at returns
  rcases returns with ⟨vnode, found, rfl⟩
  exact ⟨vnode, parentOf_vnode found, parentOf_eq lookup_put_self⟩

/-- A change of a vnode that keeps its parent keeps the references. -/
theorem graph_put (stored : cache.vnodes.lookup vp = some vnode) {other : Vnode}
    (parent : other.parent = vnode.parent) :
    (cache.put vp other).graph owed = cache.graph owed := by
  simp only [VnodeCache.graph, RefGraph.mk.injEq, and_true]
  constructor
  · ext target
    simp only [Finmap.mem_keys]
    exact mem_put_iff stored other
  · rw [parentOf_put, parent, ← parentOf_eq stored, Function.update_eq_self]

theorem references_gain : (cache.graph (gain owed vp)).references target =
    (cache.graph owed).references target + if target = vp then 1 else 0 := by
  have sameChildren : (cache.graph (gain owed vp)).children target =
      (cache.graph owed).children target := rfl
  simp only [RefGraph.references, sameChildren, owed_graph, gain]
  omega

namespace Counted

/-- Storing a vnode keeps the counts of the others if the references to them stay. -/
theorem store (counted : cache.Counted owed) {owedAfter : Address → ℕ} {other : Vnode}
    (closed : ((cache.put vp other).graph owedAfter).Closed)
    (count : other.count.toNat = ((cache.put vp other).graph owedAfter).references vp)
    (flag : other.flag &&& vfreeing = 0)
    (same : ∀ target, target ≠ vp → ((cache.put vp other).graph owedAfter).references target =
      (cache.graph owed).references target) : (cache.put vp other).Counted owedAfter := by
  refine ⟨closed, ?_, ?_⟩
  · intro target vnode stored
    by_cases isSame : target = vp
    · subst isSame
      rw [lookup_put_self, Option.some.injEq] at stored
      rw [← stored]
      exact count
    · rw [lookup_put_of_ne isSame] at stored
      rw [same target isSame]
      exact counted.count target vnode stored
  · intro target vnode stored
    by_cases isSame : target = vp
    · subst isSame
      rw [lookup_put_self, Option.some.injEq] at stored
      rw [← stored]
      exact flag
    · rw [lookup_put_of_ne isSame] at stored
      exact counted.flag target vnode stored

/-- A change of a vnode outside its count, its parent and its flags. -/
theorem put (counted : cache.Counted owed) (stored : cache.vnodes.lookup vp = some vnode)
    {other : Vnode} (links : other.links = vnode.links) : (cache.put vp other).Counted owed := by
  simp only [Vnode.links, Prod.mk.injEq] at links
  rcases links with ⟨flag, count, parent⟩
  have sameGraph : (cache.put vp other).graph owed = cache.graph owed := graph_put stored parent
  apply counted.store
  · rw [sameGraph]
    exact counted.closed
  · rw [sameGraph, count]
    exact counted.count vp vnode stored
  · rw [flag]
    exact counted.flag vp vnode stored
  · intro target _
    rw [sameGraph]

theorem closed_gain (counted : cache.Counted owed) (mem : vp ∈ cache.vnodes) :
    (cache.graph (gain owed vp)).Closed where
  parentLive := counted.closed.parentLive
  owedLive := by
    intro target positive
    simp only [owed_graph, gain] at positive
    by_cases same : target = vp
    · exact mem_live.mpr (same ▸ mem)
    · simp only [same, if_false, Nat.add_zero] at positive
      exact counted.closed.owedLive target positive
  referenced := by
    intro target targetMem
    have positive := counted.closed.referenced target targetMem
    rw [references_gain]
    omega

theorem tracks (counted : cache.Counted owed) : cache.Tracks ∅ ∅ (cache.graph owed) where
  mem := by simp
  apart := by simp
  counts := by
    intro vp mem vnode stored
    exact ⟨counted.count vp vnode stored, fun _ => (parentOf_eq stored).symm,
      counted.flag vp vnode stored⟩

theorem mem_of_owed (counted : cache.Counted owed) (positive : 0 < owed vp) : vp ∈ cache.vnodes :=
  mem_live.mp (counted.closed.owedLive vp positive)

theorem not_owed (counted : cache.Counted owed) (absent : vp ∉ cache.vnodes) : owed vp = 0 := by
  by_contra positive
  exact absent (counted.mem_of_owed (by omega))

/-- Nothing refers to a vnode that is not in use. -/
theorem references_eq_zero (counted : cache.Counted owed) (absent : vp ∉ cache.vnodes) :
    (cache.graph owed).references vp = 0 := by
  have noChildren : ((cache.graph owed).children vp) = ∅ := by
    apply Finset.eq_empty_of_forall_notMem
    intro child childMem
    rcases RefGraph.mem_children.mp childMem with ⟨childLive, linked⟩
    exact absent (mem_live.mp (counted.closed.parentLive child childLive vp linked))
  simp [RefGraph.references, noChildren, counted.not_owed absent]

theorem references_pos_iff (counted : cache.Counted owed) :
    0 < (cache.graph owed).references vp ↔ vp ∈ cache.vnodes := by
  constructor
  · intro positive
    by_contra absent
    rw [counted.references_eq_zero absent] at positive
    omega
  · intro mem
    exact counted.closed.referenced vp (mem_live.mpr mem)

end Counted

end VnodeCache

/-- A call that drops one reference to `dropped` frees the vnodes of a chain. -/
structure Frees (cache : VnodeCache) (owed : Address → ℕ) (dropped : Option Address)
    (after : VnodeCache) (chain : List Address) : Prop where
  chained : (cache.graph owed).ReleaseChain dropped chain
  nodup : chain.Nodup
  freed : after.freed = cache.freed ++ chain.reverse
  live : ∀ target ∈ chain, target ∈ cache.vnodes
  mem : ∀ target, target ∈ after.vnodes ↔ target ∈ cache.vnodes ∧ target ∉ chain

/-- A call that drops no reference. -/
theorem Frees.none (freed : after.freed = cache.freed)
    (mem : ∀ target, target ∈ after.vnodes ↔ target ∈ cache.vnodes) :
    Frees cache owed none after [] :=
  ⟨.root, by simp, by simp [freed], by simp, by simp [mem]⟩

/-- `vnode_unref` returns, drops one reference and frees the vnodes of a chain. -/
theorem vnodeUnref_returns (inactive : VnInactive) (counted : cache.Counted owed)
    (positive : 0 < owed vp) :
    ∃ after chain, vnodeUnref inactive cache vp = .ok after ∧
      Frees cache owed (some vp) after chain ∧ after.Counted (lose owed vp) := by
  have enough : (cache.graph owed).live.card ≤ cache.vnodes.keys.card + 1 := by
    simp [VnodeCache.graph]
  rcases unrefWithin_returns inactive counted.closed counted.tracks positive enough
    (by simp) with ⟨after, chain, returns, unreffed⟩
  refine ⟨after, chain, returns, ⟨unreffed.chained, unreffed.nodup, unreffed.freed,
    fun target mem => mem_live.mp (unreffed.live target mem), ?_⟩, unreffed.tracks.counted
      unreffed.closed⟩
  intro target
  rw [unreffed.tracks.mem]
  simp [RefGraph.release]

/-- The vnodes that are left keep their parents. -/
theorem vnodeUnref_parentOf (counted : cache.Counted owed) (positive : 0 < owed vp)
    (returns : vnodeUnref inactive cache vp = .ok after) (mem : target ∈ after.vnodes) :
    after.parentOf target = cache.parentOf target := by
  have enough : (cache.graph owed).live.card ≤ cache.vnodes.keys.card + 1 := by
    simp [VnodeCache.graph]
  rcases unrefWithin_returns inactive counted.closed counted.tracks positive enough
    (by simp) with ⟨reached, chain, reaches, unreffed⟩
  have same : reached = after := by
    rw [vnodeUnref, reaches, Except.ok.injEq] at returns
    exact returns
  subst same
  rcases unreffed.tracks.graph_congr with ⟨_, parent⟩
  apply parent
  simpa using (unreffed.tracks.mem target).mp mem

/-- `vnode_ref` returns and takes one reference, as far as these can be counted. -/
theorem vnodeRef_returns (counted : cache.Counted owed) (mem : vp ∈ cache.vnodes) :
    ∃ after, vnodeRef cache vp = .ok after ∧ after.freed = cache.freed ∧
      (∀ target, target ∈ after.vnodes ↔ target ∈ cache.vnodes) ∧
      (∀ other, after.graph other = cache.graph other) ∧
      ((cache.graph owed).references vp + 1 < 2 ^ 32 → after.Counted (gain owed vp)) := by
  rcases exists_lookup mem with ⟨vnode, stored⟩
  have sameGraph : ∀ other, (cache.put vp { vnode with count := vnode.count + 1 }).graph other =
      cache.graph other := fun other => graph_put stored rfl
  refine ⟨_, modify_eq stored _, rfl, fun target => mem_put_iff stored _, sameGraph, ?_⟩
  intro bound
  apply counted.store
  · rw [sameGraph]
    exact counted.closed_gain mem
  · rw [← counted.count vp vnode stored] at bound
    rw [sameGraph, references_gain, ← counted.count vp vnode stored]
    simp only [if_true]
    rw [UInt32.toNat_add, UInt32.toNat_one, Nat.mod_eq_of_lt bound]
  · exact counted.flag vp vnode stored
  · intro target different
    rw [sameGraph, references_gain]
    simp [different]

/-- `vnode_alloc` returns a vnode with one reference. -/
theorem vnodeAlloc_counted (counted : cache.Counted owed) (fresh : vp ∉ cache.vnodes)
    (vfsp : Option Address) (type : Vtype) :
    (vnodeAlloc cache vfsp type (some vp)).2.Counted (gain owed vp) := by
  let created : Vnode :=
    { flag := 0, count := 1, parent := none, name := List.replicate (nameMax + 1) 0,
      vfsp := vfsp, type := type, data := none }
  change (cache.put vp created).Counted (gain owed vp)
  have children : ∀ target, ((cache.put vp created).graph (gain owed vp)).children target =
      (cache.graph owed).children target := by
    intro target
    ext child
    simp only [RefGraph.mem_children, mem_live, parent_graph, mem_put, parentOf_put]
    by_cases same : child = vp
    · simp [same, created, fresh]
    · simp [same]
  have references : ∀ target, ((cache.put vp created).graph (gain owed vp)).references target =
      (cache.graph owed).references target + if target = vp then 1 else 0 := by
    intro target
    simp only [RefGraph.references, children, owed_graph, gain]
    omega
  apply counted.store
  · constructor
    case parentLive =>
      intro child childMem target linked
      have childMem' : child ∈ (cache.graph owed).children target := by
        rw [← children]
        exact RefGraph.mem_children.mpr ⟨childMem, linked⟩
      rcases RefGraph.mem_children.mp childMem' with ⟨childLive, linkedBefore⟩
      have targetLive := counted.closed.parentLive child childLive target linkedBefore
      exact mem_live.mpr (mem_put.mpr (Or.inr (mem_live.mp targetLive)))
    case owedLive =>
      intro target positive
      rw [mem_live, mem_put]
      by_cases same : target = vp
      · exact Or.inl same
      · right
        apply counted.mem_of_owed
        simpa [gain, same] using positive
    case referenced =>
      intro target targetMem
      rw [references]
      rcases mem_put.mp (mem_live.mp targetMem) with same | present
      · simp [same]
      · have positive := counted.references_pos_iff.mpr present
        omega
  · rw [references, counted.references_eq_zero fresh]
    simp [created]
  · simp [created]
  · intro target different
    rw [references]
    simp [different]

/-! ### Changing the parent of a vnode -/

/-- The references that remain to be dropped when the link of a vnode is given up. -/
theorem tracks_unlink (counted : cache.Counted owed) (mem : vp ∈ cache.vnodes) :
    cache.Tracks ∅ {vp} ((cache.graph owed).unlink vp) where
  mem := by simp [RefGraph.unlink]
  apart := by simp
  counts := by
    intro target targetMem vnode stored
    refine ⟨?_, ?_, counted.flag target vnode stored⟩
    · rw [RefGraph.references_unlink (mem_live.mpr mem)]
      exact counted.count target vnode stored
    · intro unpinned
      have different : target ≠ vp := by simpa using unpinned
      simp [RefGraph.unlink, different, parentOf_eq stored]

/-- Overwriting the parent pointer of a pinned vnode. -/
theorem tracks_unpin (tracks : cache.Tracks ∅ {vp} refs) (unlinked : refs.parent vp = none)
    (stored : cache.vnodes.lookup vp = some vnode) :
    (cache.put vp { vnode with parent := none }).Tracks ∅ ∅ refs where
  mem := by
    intro target
    rw [mem_put_iff stored]
    exact tracks.mem target
  apart := by simp
  counts := by
    intro target targetMem vnodeAfter storedAfter
    by_cases same : target = vp
    · subst same
      rw [lookup_put_self, Option.some.injEq] at storedAfter
      have counts := tracks.counts target targetMem vnode stored
      rw [← storedAfter]
      exact ⟨counts.count, fun _ => unlinked.symm, counts.flag⟩
    · rw [lookup_put_of_ne same] at storedAfter
      have counts := tracks.counts target targetMem vnodeAfter storedAfter
      exact ⟨counts.count, fun _ => counts.parent (by simpa using same), counts.flag⟩

theorem dropParent_returns (inactive : VnInactive) (counted : cache.Counted owed)
    (positive : 0 < owed vp) :
    ∃ after chain, dropParent inactive cache vp = .ok after ∧
      Frees cache owed (cache.parentOf vp) after chain ∧ after.Counted owed ∧
        (∀ target, (after.graph owed).references target ≤ (cache.graph owed).references target) ∧
          after.parentOf vp = none := by
  have mem := counted.mem_of_owed positive
  rcases exists_lookup mem with ⟨vnode, stored⟩
  have linked := parentOf_eq stored
  simp only [dropParent, vnode_eq stored, bind, Except.bind]
  cases parentEq : vnode.parent with
  | none =>
      rw [parentEq] at linked
      exact ⟨cache, [], rfl, linked ▸ Frees.none rfl (fun _ => Iff.rfl), counted,
        fun _ => Nat.le_refl _, linked⟩
  | some parent =>
      rw [parentEq] at linked
      have closed := counted.closed.unlink (mem_live.mpr mem)
      have owedParent : 0 < ((cache.graph owed).unlink vp).owed parent := by
        simp [RefGraph.unlink, linked]
      have enough : ((cache.graph owed).unlink vp).live.card ≤ cache.vnodes.keys.card + 1 := by
        simp [RefGraph.unlink, VnodeCache.graph]
      have pins : ∀ target ∈ ({vp} : Finset Address),
          (if target = parent then 1 else 0) < ((cache.graph owed).unlink vp).owed target := by
        intro target isPinned
        rw [Finset.mem_singleton] at isPinned
        subst isPinned
        by_cases same : target = parent
        · simp [RefGraph.unlink, linked, same.symm, positive]
        · simp [RefGraph.unlink, linked, same, Ne.symm same, positive]
      rcases unrefWithin_returns inactive closed (tracks_unlink counted mem) owedParent enough pins
        with ⟨after, chain, returns, unreffed⟩
      have notMem : ∀ target ∈ chain, target ≠ vp := by
        intro target targetMem
        simpa using unreffed.unpinned target targetMem
      have live : vp ∈ (((cache.graph owed).unlink vp).release parent chain).live := by
        simp only [RefGraph.release, RefGraph.unlink, Finset.mem_sdiff, List.mem_toFinset, mem_live]
        exact ⟨mem, fun inChain => notMem vp inChain rfl⟩
      rcases unreffed.tracks.exists_vnode live with ⟨last, storedLast⟩
      have tracks := tracks_unpin unreffed.tracks (by simp [RefGraph.release, RefGraph.unlink])
        storedLast
      have owedAfter : (((cache.graph owed).unlink vp).release parent chain).owed = owed := by
        funext target
        by_cases same : target = parent
        · simp [RefGraph.release, RefGraph.unlink, linked, same]
        · simp [RefGraph.release, RefGraph.unlink, linked, same, Ne.symm same]
      have countedAfter := tracks.counted unreffed.closed
      rw [owedAfter] at countedAfter
      refine ⟨after.put vp { last with parent := none }, chain, ?_, ⟨?_, unreffed.nodup, ?_,
        fun target mem => Finmap.mem_keys.mp (unreffed.live target mem), ?_⟩, countedAfter, ?_, ?_⟩
      · simp only [vnodeUnref, returns, modify_eq storedLast]
      · rw [linked]
        exact unreffed.chained.of_unlink (mem_live.mpr mem) notMem
      · exact unreffed.freed
      · intro target
        rw [tracks.mem]
        simp [RefGraph.release, RefGraph.unlink]
      · intro target
        rcases tracks.graph_congr with ⟨liveAfter, parentAfter⟩
        rw [owedAfter] at liveAfter parentAfter
        rw [RefGraph.references_congr liveAfter owedAfter.symm parentAfter]
        exact (RefGraph.references_release_le target).trans
          (RefGraph.references_unlink (mem_live.mpr mem) target).le
      · simp [parentOf_put]

theorem vnodeClearParent_returns (inactive : VnInactive) (counted : cache.Counted owed)
    (positive : 0 < owed vp) :
    ∃ after chain, vnodeClearParent inactive cache (some vp) = .ok after ∧
      Frees cache owed (cache.parentOf vp) after chain ∧ after.Counted owed ∧
        (∀ target, (after.graph owed).references target ≤ (cache.graph owed).references target) ∧
          after.parentOf vp = none := by
  rcases dropParent_returns inactive counted positive with
    ⟨dropped, chain, returns, frees, countedDropped, fewer, unlinked⟩
  rcases exists_lookup (countedDropped.mem_of_owed positive) with ⟨vnode, stored⟩
  simp only [vnodeClearParent, returns, modify_eq stored, bind, Except.bind]
  refine ⟨_, chain, rfl, ⟨frees.chained, frees.nodup, frees.freed, frees.live, ?_⟩,
    countedDropped.put stored rfl, ?_, ?_⟩
  · intro target
    rw [mem_put_iff stored]
    exact frees.mem target
  · intro target
    have sameGraph : (dropped.put vp { vnode with name := vnode.name.set 0 0 }).graph owed =
        dropped.graph owed := graph_put stored rfl
    rw [sameGraph]
    exact fewer target
  · rw [parentOf_eq stored] at unlinked
    simpa [parentOf_put] using unlinked

/-- The reference that a new parent is given. -/
def gainIf (owed : Address → ℕ) (parent : Option Address) : Address → ℕ :=
  fun target => owed target + if parent = some target then 1 else 0

@[simp]
theorem gainIf_none (owed : Address → ℕ) : gainIf owed none = owed := by
  funext target
  simp [gainIf]

@[simp]
theorem gainIf_some (owed : Address → ℕ) (vp : Address) : gainIf owed (some vp) = gain owed vp := by
  funext target
  simp [gainIf, gain, eq_comm]

/-- The reference taken on a new parent becomes that of its child. -/
theorem unlink_link {parent : Option Address} (stored : cache.vnodes.lookup vp = some vnode)
    (unlinked : vnode.parent = none) :
    ((cache.put vp { vnode with parent := parent }).graph owed).unlink vp =
      cache.graph (gainIf owed parent) := by
  simp only [RefGraph.unlink, VnodeCache.graph, RefGraph.mk.injEq, parentOf_put]
  refine ⟨?_, ?_, ?_⟩
  · ext target
    simp only [Finmap.mem_keys]
    exact mem_put_iff stored _
  · funext target
    by_cases same : target = vp
    · simp [same, parentOf_eq stored, unlinked]
    · simp [same]
  · funext target
    simp [gainIf]

theorem references_link {parent : Option Address} (stored : cache.vnodes.lookup vp = some vnode)
    (unlinked : vnode.parent = none) (target : Address) :
    ((cache.put vp { vnode with parent := parent }).graph owed).references target =
      (cache.graph (gainIf owed parent)).references target := by
  rw [← unlink_link stored unlinked, RefGraph.references_unlink]
  exact mem_live.mpr (mem_of_lookup lookup_put_self)

theorem counted_link {parent : Option Address} (counted : cache.Counted (gainIf owed parent))
    (stored : cache.vnodes.lookup vp = some vnode) (unlinked : vnode.parent = none) :
    (cache.put vp { vnode with parent := parent }).Counted owed := by
  apply counted.store
  · refine @RefGraph.Closed.of_unlink _ _ _ vp ?_ ?_
    · rw [unlink_link stored unlinked]
      exact counted.closed
    · exact mem_live.mpr (mem_of_lookup lookup_put_self)
  · rw [references_link stored unlinked]
    exact counted.count vp vnode stored
  · exact counted.flag vp vnode stored
  · intro target _
    exact references_link stored unlinked target

theorem references_gainIf {parent : Option Address} : (cache.graph (gainIf owed parent)).references
    target = (cache.graph owed).references target + if parent = some target then 1 else 0 := by
  cases parent with
  | none => simp
  | some parent => simp [references_gain, eq_comm]

theorem vnodeRefIf_returns (counted : cache.Counted owed) {parent : Option Address}
    (mem : ∀ vp ∈ parent, vp ∈ cache.vnodes) :
    ∃ after, vnodeRefIf cache parent = .ok after ∧ after.freed = cache.freed ∧
      (∀ target, target ∈ after.vnodes ↔ target ∈ cache.vnodes) ∧
      (∀ other, after.graph other = cache.graph other) ∧
      ((∀ vp ∈ parent, (cache.graph owed).references vp + 1 < 2 ^ 32) →
        after.Counted (gainIf owed parent)) := by
  cases parent with
  | none =>
      rw [gainIf_none]
      exact ⟨cache, rfl, rfl, fun _ => Iff.rfl, fun _ => rfl, fun _ => counted⟩
  | some vp =>
      rw [gainIf_some]
      rcases vnodeRef_returns counted (mem vp rfl) with
        ⟨after, returns, freed, members, graphs, countedAfter⟩
      exact ⟨after, returns, freed, members, graphs, fun bound => countedAfter (bound vp rfl)⟩

/-- `vnode_set_parent` returns, frees the vnodes of a chain and makes the new link. -/
theorem vnodeSetParent_returns (inactive : VnInactive) (counted : cache.Counted owed)
    (positive : 0 < owed vp) {parent : Option Address}
    (parentHeld : ∀ target ∈ parent, 0 < owed target)
    (name : Option CString) :
    ∃ after chain, vnodeSetParent inactive cache (some vp) parent name = .ok after ∧
      Frees cache owed (cache.parentOf vp) after chain ∧
      (∀ target, (after.graph owed).references target ≤
        (cache.graph owed).references target + if parent = some target then 1 else 0) ∧
      ((∀ target ∈ parent, (after.graph owed).references target < 2 ^ 32) →
        after.Counted owed) := by
  rcases vnodeClearParent_returns inactive counted positive with
    ⟨cleared, chain, clears, frees, countedCleared, fewer, unlinked⟩
  rcases vnodeRefIf_returns countedCleared
      (fun target mem => countedCleared.mem_of_owed (parentHeld target mem)) with
    ⟨reffed, refs, freed, members, graphs, countedReffed⟩
  rcases exists_lookup ((members vp).mpr (countedCleared.mem_of_owed positive)) with ⟨vnode, stored⟩
  have noParent : vnode.parent = none := by
    rw [← parentOf_eq stored, ← unlinked]
    exact congrFun (congrArg RefGraph.parent (graphs owed)) vp
  have references : ∀ target, (((reffed.put vp { vnode with parent := parent }).put vp
      { vnode with parent := parent, name := copyName vnode.name name }).graph owed).references
        target = (cleared.graph owed).references target + if parent = some target then 1
          else 0 := by
    intro target
    have sameGraph : ((reffed.put vp { vnode with parent := parent }).put vp
        { vnode with parent := parent, name := copyName vnode.name name }).graph owed =
        (reffed.put vp { vnode with parent := parent }).graph owed :=
      graph_put lookup_put_self rfl
    rw [sameGraph, references_link stored noParent, graphs, references_gainIf]
  simp only [vnodeSetParent, clears, refs, modify_eq stored, modify_eq lookup_put_self, bind,
    Except.bind]
  refine ⟨_, chain, rfl, ⟨frees.chained, frees.nodup, ?_, frees.live, ?_⟩, ?_, ?_⟩
  · rw [freed_put, freed_put, freed]
    exact frees.freed
  · intro target
    rw [mem_put_iff lookup_put_self, mem_put_iff stored, members]
    exact frees.mem target
  · intro target
    rw [references]
    exact Nat.add_le_add_right (fewer target) _
  · intro bound
    have countedLinked : (reffed.put vp { vnode with parent := parent }).Counted owed := by
      apply counted_link (countedReffed _) stored noParent
      intro target isParent
      have limit := bound target isParent
      rw [references, if_pos (Option.mem_def.mp isParent)] at limit
      exact limit
    exact countedLinked.put lookup_put_self rfl

theorem vnodeClearParent_parentOf
    (returns : vnodeClearParent inactive cache (some vp) = .ok after) :
    after.parentOf vp = none := by
  simp only [vnodeClearParent, dropParent, bind_eq_ok] at returns
  rcases returns with ⟨dropped, ⟨vnode, found, drops⟩, names⟩
  have unlinked : dropped.parentOf vp = none := by
    split at drops
    · rename_i noParent
      simp only [pure, Except.pure, Except.ok.injEq] at drops
      exact drops ▸ (parentOf_vnode found).trans noParent
    · simp only [bind_eq_ok] at drops
      rcases drops with ⟨_, _, unlinks⟩
      rcases parentOf_modify unlinks with ⟨_, _, isNone⟩
      exact isNone
  rcases parentOf_modify names with ⟨_, before, kept⟩
  exact kept.trans (before.symm.trans unlinked)

theorem vnodeSetParent_parentOf {parent : Option Address} {name : Option CString}
    (returns : vnodeSetParent inactive cache (some vp) parent name = .ok after) :
    after.parentOf vp = parent := by
  simp only [vnodeSetParent, bind_eq_ok] at returns
  rcases returns with ⟨_, _, _, _, linked, links, names⟩
  rcases parentOf_modify links with ⟨_, _, isParent⟩
  rcases parentOf_modify names with ⟨_, before, kept⟩
  exact kept.trans (before.symm.trans isParent)

end Goshkik
