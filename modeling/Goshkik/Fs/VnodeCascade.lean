import Goshkik.Fs.Vnode
import Goshkik.Lib.RefGraph

/-!
# The cascade of vnode_unref

A call of `vnode_unref` that drops the last reference of a vnode frees it and
drops the reference on its parent.  `Tracks` relates the vnodes to the graph of
their references while such calls are going on: `dying` are the vnodes inside
`vnode_free`, which are still allocated, and `pinned` are vnodes in use whose
parent pointer is about to be overwritten.
-/

namespace Goshkik

variable {cache after : VnodeCache} {vp target : Address} {vnode : Vnode}
  {dying pinned : Finset Address} {graph : RefGraph Address} {inactive : VnInactive} {fuel : ℕ}

namespace VnodeCache

/-- Store a vnode at an address. -/
def put (cache : VnodeCache) (vp : Address) (vnode : Vnode) : VnodeCache :=
  { cache with vnodes := cache.vnodes.insert vp vnode }

@[simp]
theorem freed_put : (cache.put vp vnode).freed = cache.freed := rfl

@[simp]
theorem lookup_put_self : (cache.put vp vnode).vnodes.lookup vp = some vnode :=
  Finmap.lookup_insert _

@[simp]
theorem lookup_put_of_ne (different : target ≠ vp) :
    (cache.put vp vnode).vnodes.lookup target = cache.vnodes.lookup target :=
  Finmap.lookup_insert_of_ne _ different

@[simp]
theorem mem_put : target ∈ (cache.put vp vnode).vnodes ↔ target = vp ∨ target ∈ cache.vnodes :=
  Finmap.mem_insert

@[simp]
theorem lookup_slabFree_of_ne (different : target ≠ vp) :
    (cache.slabFree vp).vnodes.lookup target = cache.vnodes.lookup target :=
  Finmap.lookup_erase_ne different

@[simp]
theorem mem_slabFree : target ∈ (cache.slabFree vp).vnodes ↔ target ≠ vp ∧ target ∈ cache.vnodes :=
  Finmap.mem_erase

theorem vnode_eq (stored : cache.vnodes.lookup vp = some vnode) : cache.vnode vp = .ok vnode := by
  simp [VnodeCache.vnode, stored]

theorem modify_eq (stored : cache.vnodes.lookup vp = some vnode) (update : Vnode → Vnode) :
    cache.modify vp update = .ok (cache.put vp (update vnode)) := by
  simp [modify, vnode_eq stored, put, bind, Except.bind, pure, Except.pure]

theorem exists_lookup (mem : vp ∈ cache.vnodes) : ∃ vnode, cache.vnodes.lookup vp = some vnode :=
  Finmap.mem_iff.mp mem

theorem mem_of_lookup (stored : cache.vnodes.lookup vp = some vnode) : vp ∈ cache.vnodes :=
  Finmap.mem_iff.mpr ⟨vnode, stored⟩

/-- The vnodes agree in what reference counting is about. -/
def SameLinks (cache after : VnodeCache) (target : Address) : Prop :=
  (after.vnodes.lookup target).map Vnode.links = (cache.vnodes.lookup target).map Vnode.links

theorem SameLinks.mem_iff (same : cache.SameLinks after target) :
    target ∈ after.vnodes ↔ target ∈ cache.vnodes := by
  simp only [← Finmap.lookup_isSome]
  rw [← Option.isSome_map (f := Vnode.links), same, Option.isSome_map]

theorem SameLinks.lookup (same : cache.SameLinks after target)
    (stored : after.vnodes.lookup target = some vnode) :
    ∃ before, cache.vnodes.lookup target = some before ∧ before.links = vnode.links := by
  simp only [SameLinks, stored, Option.map_some] at same
  exact Option.map_eq_some_iff.mp same.symm

theorem sameLinks_put (different : target ≠ vp) : cache.SameLinks (cache.put vp vnode) target := by
  simp [SameLinks, different]

theorem sameLinks_slabFree (different : target ≠ vp) :
    cache.SameLinks (cache.slabFree vp) target := by
  simp [SameLinks, different]

theorem SameLinks.trans {last : VnodeCache} (first : cache.SameLinks after target)
    (second : after.SameLinks last target) : cache.SameLinks last target :=
  Eq.trans second first

/-- A vnode in use counts the references of the graph. -/
structure Counts (graph : RefGraph Address) (pinned : Finset Address) (vp : Address)
    (vnode : Vnode) : Prop where
  count : vnode.count.toNat = graph.references vp
  parent : vp ∉ pinned → vnode.parent = graph.parent vp
  flag : vnode.flag &&& vfreeing = 0

structure Tracks (cache : VnodeCache) (dying pinned : Finset Address)
    (graph : RefGraph Address) : Prop where
  mem : ∀ vp, vp ∈ cache.vnodes ↔ vp ∈ graph.live ∨ vp ∈ dying
  apart : ∀ vp ∈ dying, vp ∉ graph.live
  counts : ∀ vp ∈ graph.live, ∀ vnode, cache.vnodes.lookup vp = some vnode →
    Counts graph pinned vp vnode

theorem Counts.of_links {before : Vnode} (counts : Counts graph pinned vp before)
    (links : before.links = vnode.links) : Counts graph pinned vp vnode := by
  simp only [Vnode.links, Prod.mk.injEq] at links
  rcases links with ⟨flag, count, parent⟩
  exact ⟨count ▸ counts.count, fun unpinned => parent ▸ counts.parent unpinned, flag ▸ counts.flag⟩

namespace Tracks

theorem exists_vnode (tracks : cache.Tracks dying pinned graph) (mem : vp ∈ graph.live) :
    ∃ vnode, cache.vnodes.lookup vp = some vnode :=
  exists_lookup ((tracks.mem vp).mpr (Or.inl mem))

/-- Vnodes that are dying may change. -/
theorem congr (tracks : cache.Tracks dying pinned graph)
    (same : ∀ target, target ∉ dying → cache.SameLinks after target)
    (kept : ∀ target ∈ dying, target ∈ after.vnodes) : after.Tracks dying pinned graph := by
  constructor
  case mem =>
    intro vp
    by_cases isDying : vp ∈ dying
    · simp [isDying, kept vp isDying]
    · rw [(same vp isDying).mem_iff]
      exact tracks.mem vp
  case apart => exact tracks.apart
  case counts =>
    intro vp mem vnode stored
    have notDying : vp ∉ dying := fun isDying => tracks.apart vp isDying mem
    rcases (same vp notDying).lookup stored with ⟨before, storedBefore, links⟩
    exact (tracks.counts vp mem before storedBefore).of_links links

/-- A vnode enters `vnode_free`. -/
theorem collect (tracks : cache.Tracks dying pinned graph) (mem : vp ∈ graph.live) :
    cache.Tracks (insert vp dying) pinned (graph.collect vp) := by
  have live : ∀ target, target ∈ (graph.collect vp).live ↔ target ≠ vp ∧ target ∈ graph.live := by
    simp [RefGraph.collect]
  constructor
  case mem =>
    intro target
    rw [live, Finset.mem_insert, tracks.mem]
    by_cases same : target = vp
    · simp [same, mem]
    · simp [same]
  case apart =>
    intro target isDying
    rw [live]
    rcases Finset.mem_insert.mp isDying with same | isDying
    · simp [same]
    · simp [tracks.apart target isDying]
  case counts =>
    intro target targetMem vnode stored
    rcases (live target).mp targetMem with ⟨different, targetLive⟩
    have counts := tracks.counts target targetLive vnode stored
    refine ⟨?_, counts.parent, counts.flag⟩
    rw [RefGraph.references_collect mem different]
    exact counts.count

/-- A vnode leaves `vnode_free`. -/
theorem slabFree (tracks : cache.Tracks (insert vp dying) pinned graph) (notDying : vp ∉ dying) :
    (cache.slabFree vp).Tracks dying pinned graph := by
  have different : ∀ target ∈ graph.live, target ≠ vp := by
    rintro target mem rfl
    exact tracks.apart target (by simp) mem
  constructor
  case mem =>
    intro target
    rw [mem_slabFree, tracks.mem, Finset.mem_insert]
    constructor
    · rintro ⟨distinct, live | same | isDying⟩
      · exact Or.inl live
      · exact absurd same distinct
      · exact Or.inr isDying
    · rintro (live | isDying)
      · exact ⟨different target live, Or.inl live⟩
      · exact ⟨fun same => notDying (same ▸ isDying), Or.inr (Or.inr isDying)⟩
  case apart => exact fun target isDying => tracks.apart target (by simp [isDying])
  case counts =>
    intro target mem vnode stored
    rw [lookup_slabFree_of_ne (different target mem)] at stored
    exact tracks.counts target mem vnode stored

/-- A reference that is not the last one is dropped. -/
theorem drop (tracks : cache.Tracks dying pinned graph) (owed : 0 < graph.owed vp)
    (mem : vp ∈ graph.live) (stored : cache.vnodes.lookup vp = some vnode) :
    (cache.put vp { vnode with count := vnode.count - 1 }).Tracks dying pinned
      (graph.release vp []) := by
  have live : (graph.release vp []).live = graph.live := by
    simp [RefGraph.release]
  constructor
  case mem =>
    intro target
    rw [mem_put, live, tracks.mem]
    constructor
    · rintro (rfl | present)
      · exact Or.inl mem
      · exact present
    · exact Or.inr
  case apart =>
    rw [live]
    exact tracks.apart
  case counts =>
    intro target targetMem other storedAfter
    rw [live] at targetMem
    by_cases same : target = vp
    · subst same
      rw [lookup_put_self, Option.some.injEq] at storedAfter
      subst storedAfter
      have counts := tracks.counts target mem vnode stored
      refine ⟨?_, counts.parent, counts.flag⟩
      have positive : 1 ≤ vnode.count := by
        rw [UInt32.le_iff_toNat_le, counts.count]
        simp only [RefGraph.references, UInt32.toNat_one]
        omega
      rw [RefGraph.references_release_nil owed]
      simp [UInt32.toNat_sub_of_le _ _ positive, counts.count]
    · rw [lookup_put_of_ne same] at storedAfter
      have counts := tracks.counts target targetMem other storedAfter
      refine ⟨?_, counts.parent, counts.flag⟩
      rw [RefGraph.references_release_nil owed]
      simpa [same] using counts.count

end Tracks

/-- The dropping of a reference by `vnode_unref`, with everything it frees. -/
structure Unreffed (cache : VnodeCache) (dying pinned : Finset Address) (graph : RefGraph Address)
    (vp : Address) (after : VnodeCache) (chain : List Address) : Prop where
  chained : graph.ReleaseChain (some vp) chain
  nodup : chain.Nodup
  live : ∀ target ∈ chain, target ∈ graph.live
  unpinned : ∀ target ∈ chain, target ∉ pinned
  freed : after.freed = cache.freed ++ chain.reverse
  tracks : after.Tracks dying pinned (graph.release vp chain)
  closed : (graph.release vp chain).Closed

end VnodeCache

open VnodeCache

theorem freeData_returns (stored : cache.vnodes.lookup vp = some vnode) :
    ∃ after freeing, freeData cache vp = .ok after ∧ after.freed = cache.freed ∧
      after.vnodes.lookup vp = some freeing ∧ freeing.links = vnode.links ∧
        ∀ target, target ≠ vp → cache.SameLinks after target := by
  simp only [freeData, vnode_eq stored, modify_eq stored, bind, Except.bind]
  split
  · exact ⟨_, _, rfl, rfl, lookup_put_self, rfl, fun target => sameLinks_put⟩
  · exact ⟨cache, vnode, rfl, rfl, stored, rfl, fun target _ => rfl⟩

/-- The vnode that is being freed may change while it is. -/
theorem VnodeCache.Tracks.congr_dying (tracks : cache.Tracks (insert vp dying) pinned graph)
    (same : ∀ target, target ≠ vp → cache.SameLinks after target) (mem : vp ∈ after.vnodes) :
    after.Tracks (insert vp dying) pinned graph := by
  apply tracks.congr
  · intro target notIn
    exact same target (fun isSame => notIn (by simp [isSame]))
  · intro target isDying
    by_cases isSame : target = vp
    · exact isSame ▸ mem
    · exact (same target isSame).mem_iff.mpr ((tracks.mem target).mpr (Or.inr isDying))

/-- What is left of `vnode_unref` once the count has reached zero. -/
theorem vnodeFree_returns {unref : VnodeCache → Address → Except Trap VnodeCache}
    (closed : graph.Closed) (owed : 0 < graph.owed vp) (only : graph.references vp = 1)
    (unpinned : vp ∉ pinned) (tracks : cache.Tracks (insert vp dying) pinned (graph.collect vp))
    (stored : cache.vnodes.lookup vp = some vnode) (linked : vnode.parent = graph.parent vp)
    (notDying : vp ∉ dying)
    (returns : ∀ before parent, before.Tracks (insert vp dying) pinned (graph.collect vp) →
      graph.parent vp = some parent → ∃ after chain, unref before parent = .ok after ∧
        before.Unreffed (insert vp dying) pinned (graph.collect vp) parent after chain) :
    ∃ after chain, vnodeFree unref cache vp = .ok after ∧
      cache.Unreffed dying pinned graph vp after chain := by
  have mem := closed.owedLive vp owed
  rcases RefGraph.owed_eq_one owed only with ⟨one, noOther⟩
  rcases freeData_returns stored with
    ⟨ready, freeing, readyEq, readyFreed, readyStored, links, same⟩
  have readyTracks := tracks.congr_dying same (mem_of_lookup readyStored)
  have readyLinked : freeing.parent = graph.parent vp := by
    simp only [Vnode.links, Prod.mk.injEq] at links
    rw [links.2.2, linked]
  simp only [vnodeFree, readyEq, vnode_eq readyStored, readyLinked, bind, Except.bind]
  cases top : graph.parent vp with
  | none =>
      refine ⟨_, [vp], rfl, ?_, by simp, by simpa using mem, by simpa using unpinned, ?_, ?_, ?_⟩
      · exact .freed only (top ▸ .root)
      · simp [VnodeCache.slabFree, readyFreed]
      · rw [RefGraph.release_singleton one top]
        exact readyTracks.slabFree notDying
      · rw [RefGraph.release_singleton one top]
        exact closed.collect owed only
  | some parent =>
      have different : parent ≠ vp := by
        rintro rfl
        exact RefGraph.children_eq_empty noOther mem top
      rcases returns ready parent readyTracks top with ⟨after, chain, afterEq, unreffed⟩
      rcases unreffed.chained.of_collect mem noOther with ⟨chained, notMem⟩
      rcases exists_lookup ((unreffed.tracks.mem vp).mpr (Or.inr (by simp))) with
        ⟨last, storedLast⟩
      simp only [afterEq, modify_eq storedLast]
      refine ⟨_, vp :: chain, rfl, ?_, ?_, ?_, ?_, ?_, ?_, ?_⟩
      · exact .freed only (top ▸ chained)
      · exact List.nodup_cons.mpr ⟨notMem, unreffed.nodup⟩
      · intro target targetMem
        rcases List.mem_cons.mp targetMem with rfl | later
        · exact mem
        · exact Finset.mem_of_mem_erase (unreffed.live target later)
      · intro target targetMem
        rcases List.mem_cons.mp targetMem with rfl | later
        · exact unpinned
        · exact unreffed.unpinned target later
      · simp [VnodeCache.slabFree, unreffed.freed, readyFreed]
      · rw [RefGraph.release_cons one top different]
        apply Tracks.slabFree _ notDying
        exact unreffed.tracks.congr_dying (fun target => sameLinks_put)
          (mem_of_lookup lookup_put_self)
      · rw [RefGraph.release_cons one top different]
        exact unreffed.closed

/-- The vnode as `vnode_free` finds it. -/
theorem vnInactive_links (inactive : VnInactive) (cache : VnodeCache) (vp : Address)
    (vnode : Vnode) :
    ∃ inert,
      (inactive.run ((cache.put vp { vnode with count := vnode.count - 1 }).put vp
        { vnode with count := vnode.count - 1, flag := vnode.flag ||| vfreeing })
        vp).vnodes.lookup vp = some inert ∧
      inert.links = (vnode.flag ||| vfreeing, vnode.count - 1, vnode.parent) ∧
      ∀ target, target ≠ vp → cache.SameLinks
        (inactive.run ((cache.put vp { vnode with count := vnode.count - 1 }).put vp
          { vnode with count := vnode.count - 1, flag := vnode.flag ||| vfreeing }) vp) target := by
  generalize markedEq : (cache.put vp { vnode with count := vnode.count - 1 }).put vp
    { vnode with count := vnode.count - 1, flag := vnode.flag ||| vfreeing } = marked
  have kept := inactive.links_run marked vp vp
  have storedMarked : marked.vnodes.lookup vp = some
      { vnode with count := vnode.count - 1, flag := vnode.flag ||| vfreeing } := by
    rw [← markedEq, lookup_put_self]
  rw [storedMarked, Option.map_some, Option.map_eq_some_iff] at kept
  rcases kept with ⟨inert, inertStored, links⟩
  refine ⟨inert, inertStored, links, ?_⟩
  intro target different
  have unmarked : cache.SameLinks marked target := by
    rw [← markedEq]
    exact (sameLinks_put different).trans (sameLinks_put different)
  exact unmarked.trans (inactive.links_run marked vp target)

/-- Every call of `vnode_unref` on a reference that is owed returns, and frees
exactly the chain of vnodes that lose their last reference. -/
theorem unrefWithin_returns (inactive : VnInactive) (closed : graph.Closed)
    (tracks : cache.Tracks dying pinned graph) (owed : 0 < graph.owed vp)
    (enough : graph.live.card ≤ fuel)
    (pins : ∀ target ∈ pinned, (if target = vp then 1 else 0) < graph.owed target) :
    ∃ after chain, unrefWithin inactive fuel cache vp = .ok after ∧
      cache.Unreffed dying pinned graph vp after chain := by
  induction fuel generalizing cache dying graph vp with
  | zero =>
      have empty := Finset.card_eq_zero.mp (Nat.le_zero.mp enough)
      have mem := closed.owedLive vp owed
      simp [empty] at mem
  | succ fuel ih =>
      have mem := closed.owedLive vp owed
      rcases tracks.exists_vnode mem with ⟨vnode, stored⟩
      have counts := tracks.counts vp mem vnode stored
      have positive := closed.referenced vp mem
      have nonzero : vnode.count ≠ 0 := by
        intro zero
        rw [← counts.count, zero] at positive
        simp at positive
      simp only [unrefWithin, vnode_eq stored, modify_eq stored, nonzero, if_false, bind,
        Except.bind]
      by_cases more : 1 < graph.references vp
      · have larger : 1 < vnode.count := by
          rw [UInt32.lt_iff_toNat_lt, counts.count]
          exact more
        simp only [larger, if_true]
        refine ⟨_, [], rfl, .shared more, by simp, by simp, by simp, by simp, ?_, ?_⟩
        · exact tracks.drop owed mem stored
        · exact closed.release_nil owed more
      · have only : graph.references vp = 1 := by omega
        have last : ¬ 1 < vnode.count := by
          rw [UInt32.lt_iff_toNat_lt, counts.count, only]
          simp
        have unpinned : vp ∉ pinned := by
          intro isPinned
          have twice := pins vp isPinned
          have once := (RefGraph.owed_eq_one owed only).1
          simp [once] at twice
        simp only [last, if_false, modify_eq lookup_put_self, counts.flag, ne_eq, not_true]
        rcases vnInactive_links inactive cache vp vnode with ⟨inert, inertStored, links, same⟩
        have inertTracks := (tracks.collect mem).congr_dying same (mem_of_lookup inertStored)
        have inertParent : inert.parent = vnode.parent := congrArg (fun link => link.2.2) links
        have notDying : vp ∉ dying := fun isDying => tracks.apart vp isDying mem
        have upward : ∀ before parent, before.Tracks (insert vp dying) pinned (graph.collect vp) →
            graph.parent vp = some parent →
              ∃ after chain, unrefWithin inactive fuel before parent = .ok after ∧
                before.Unreffed (insert vp dying) pinned (graph.collect vp) parent after chain := by
          intro before parent beforeTracks linked
          have smaller : (graph.collect vp).live.card ≤ fuel := by
            simp only [RefGraph.collect, Finset.card_erase_of_mem mem]
            omega
          apply ih (closed.collect owed only) beforeTracks (by simp [RefGraph.collect, linked])
            smaller
          intro target isPinned
          have different : target ≠ vp := fun isSame => unpinned (isSame ▸ isPinned)
          have held : 0 < graph.owed target := Nat.zero_lt_of_lt (pins target isPinned)
          by_cases isParent : target = parent
          · simp [RefGraph.collect, different, linked, isParent.symm, held]
          · simp [RefGraph.collect, different, linked, isParent, Ne.symm isParent, held]
        rcases vnodeFree_returns closed owed only unpinned inertTracks inertStored
          (inertParent.trans (counts.parent unpinned)) notDying upward with
          ⟨after, chain, returns, unreffed⟩
        refine ⟨after, chain, returns, { unreffed with freed := ?_ }⟩
        rw [unreffed.freed, inactive.freed_run, freed_put, freed_put]

/-! ### The depth of the calls -/

/-- The vnodes whose count is not zero. -/
def VnodeCache.counting (cache : VnodeCache) : Finset Address :=
  cache.vnodes.keys.filter (fun vp => (cache.vnodes.lookup vp).any (fun vnode => vnode.count ≠ 0))

theorem VnodeCache.mem_counting : vp ∈ cache.counting ↔
    ∃ vnode, cache.vnodes.lookup vp = some vnode ∧ vnode.count ≠ 0 := by
  simp only [counting, Finset.mem_filter, Finmap.mem_keys, Finmap.mem_iff, Option.any_eq_true,
    decide_eq_true_eq]
  constructor
  · rintro ⟨_, nonzero⟩
    exact nonzero
  · rintro ⟨vnode, stored, nonzero⟩
    exact ⟨⟨vnode, stored⟩, vnode, stored, nonzero⟩

theorem VnodeCache.counting_subset (same : ∀ target, target ≠ vp → cache.SameLinks after target)
    {zero : Vnode} (stored : after.vnodes.lookup vp = some zero) (noCount : zero.count = 0) :
    after.counting ⊆ cache.counting.erase vp := by
  intro target mem
  rcases mem_counting.mp mem with ⟨vnode, storedAfter, nonzero⟩
  have different : target ≠ vp := by
    rintro rfl
    rw [stored, Option.some.injEq] at storedAfter
    exact nonzero (storedAfter ▸ noCount)
  rcases (same target different).lookup storedAfter with ⟨before, storedBefore, links⟩
  simp only [Vnode.links, Prod.mk.injEq] at links
  exact Finset.mem_erase.mpr
    ⟨different, mem_counting.mpr ⟨before, storedBefore, links.2.1 ▸ nonzero⟩⟩

/-- `vnode_free` adds one call to those of the `vnode_unref` it makes. -/
theorem vnodeFree_ne_fuel {unref : VnodeCache → Address → Except Trap VnodeCache}
    (stored : cache.vnodes.lookup vp = some vnode) (noCount : vnode.count = 0)
    (deep : ∀ before parent, before.counting.card ≤ (cache.counting.erase vp).card →
      unref before parent ≠ .error .fuel) : vnodeFree unref cache vp ≠ .error .fuel := by
  rcases freeData_returns stored with ⟨ready, freeing, readyEq, _, readyStored, links, same⟩
  simp only [Vnode.links, Prod.mk.injEq] at links
  simp only [vnodeFree, readyEq, vnode_eq readyStored, bind, Except.bind]
  cases freeing.parent with
  | none => simp [pure, Except.pure]
  | some parent =>
      have fewer := Finset.card_le_card (counting_subset same readyStored (links.2.1.trans noCount))
      have shallow := deep ready parent fewer
      cases result : unref ready parent with
      | error trap => simpa [result] using shallow
      | ok after =>
          simp only [result]
          cases lookupEq : after.vnodes.lookup vp with
          | none => simp [VnodeCache.modify, VnodeCache.vnode, lookupEq, bind, Except.bind]
          | some last => simp [modify_eq lookupEq, pure, Except.pure]

/-- The calls of `vnode_unref` go no deeper than there are vnodes with references. -/
theorem unrefWithin_ne_fuel (enough : cache.counting.card < fuel) :
    unrefWithin inactive fuel cache vp ≠ .error .fuel := by
  induction fuel generalizing cache vp with
  | zero => omega
  | succ fuel ih =>
      cases stored : cache.vnodes.lookup vp with
      | none => simp [unrefWithin, VnodeCache.vnode, stored, bind, Except.bind]
      | some vnode =>
          simp only [unrefWithin, vnode_eq stored, modify_eq stored, modify_eq lookup_put_self,
            bind, Except.bind]
          split
          · simp
          · rename_i nonzero
            split
            · simp [pure, Except.pure]
            · rename_i notMore
              have one : vnode.count = 1 := by
                rw [UInt32.lt_iff_toNat_lt] at notMore
                rw [← UInt32.toNat_inj] at nonzero ⊢
                simp only [UInt32.toNat_zero, UInt32.toNat_one] at nonzero notMore ⊢
                omega
              split
              · simp [pure, Except.pure]
              · rcases vnInactive_links inactive cache vp vnode with
                  ⟨inert, inertStored, links, same⟩
                have noCount : inert.count = 0 := by
                  rw [show inert.count = vnode.count - 1 from congrArg (fun link => link.2.1) links,
                    one]
                  rfl
                have fewer := Finset.card_le_card (counting_subset same inertStored noCount)
                have counted : vp ∈ cache.counting := mem_counting.mpr ⟨vnode, stored, nonzero⟩
                rw [Finset.card_erase_of_mem counted] at fewer
                apply vnodeFree_ne_fuel inertStored noCount
                intro before parent smaller
                have shrunk := smaller.trans
                  ((Finset.card_le_card (Finset.erase_subset vp _)).trans fewer)
                have positive := Finset.card_pos.mpr ⟨vp, counted⟩
                exact ih (by omega)

/-- The fuel of `vnodeUnref` is enough for every call. -/
theorem vnodeUnref_ne_fuel : vnodeUnref inactive cache vp ≠ .error .fuel := by
  apply unrefWithin_ne_fuel
  have subset : cache.counting.card ≤ cache.vnodes.keys.card := Finset.card_filter_le _ _
  omega

end Goshkik
