import Goshkik.Fs.VnodeCounts

/-!
# Vnodes without parents

The functions around the vnode table never set a parent, so the count of a vnode
is the number of references that its holders have.  This file restates what
`vnode_ref`, `vnode_unref` and `vnode_alloc` do in terms of the counts alone.
-/

namespace Goshkik

namespace VnodeCache

variable {cache after : VnodeCache} {vp target : Address} {vnode : Vnode} {owed : Address → ℕ}
  {inactive : VnInactive}

/-- What the vnode at an address counts, zero where there is none. -/
def countOf (cache : VnodeCache) (vp : Address) : ℕ :=
  (cache.vnodes.lookup vp).elim 0 (fun vnode => vnode.count.toNat)

theorem countOf_eq_zero (absent : vp ∉ cache.vnodes) : cache.countOf vp = 0 := by
  simp [countOf, Finmap.lookup_eq_none.mpr absent]

/-- No vnode has a parent, and every vnode in use counts a reference. -/
structure Parentless (cache : VnodeCache) : Prop where
  counted : cache.Counted cache.countOf
  unlinked : ∀ vp, cache.parentOf vp = none

theorem references_eq (unlinked : ∀ vp, cache.parentOf vp = none) (vp : Address) :
    (cache.graph owed).references vp = owed vp := by
  have childless : (cache.graph owed).children vp = ∅ := by
    apply Finset.eq_empty_of_forall_notMem
    intro child mem
    have linked := (RefGraph.mem_children.mp mem).2
    rw [parent_graph, unlinked child] at linked
    cases linked
  simp [RefGraph.references, childless]

/-- Without parents the count is what the holders have. -/
theorem Counted.countOf_eq (counted : cache.Counted owed)
    (unlinked : ∀ vp, cache.parentOf vp = none) : cache.countOf = owed := by
  funext vp
  cases stored : cache.vnodes.lookup vp with
  | none => simp [countOf, stored, counted.not_owed (Finmap.lookup_eq_none.mp stored)]
  | some vnode =>
      have counts := counted.count vp vnode stored
      rw [references_eq unlinked] at counts
      simp [countOf, stored, counts]

theorem Counted.parentless (counted : cache.Counted owed)
    (unlinked : ∀ vp, cache.parentOf vp = none) : cache.Parentless ∧ cache.countOf = owed := by
  have same := counted.countOf_eq unlinked
  refine ⟨⟨?_, unlinked⟩, same⟩
  rw [same]
  exact counted

namespace Parentless

theorem mem_iff (parentless : cache.Parentless) : vp ∈ cache.vnodes ↔ 0 < cache.countOf vp := by
  rw [← parentless.counted.references_pos_iff, references_eq parentless.unlinked]

theorem unref (inactive : VnInactive) (parentless : cache.Parentless)
    (positive : 0 < cache.countOf vp) :
    ∃ after, vnodeUnref inactive cache vp = .ok after ∧ after.Parentless ∧
      after.countOf = lose cache.countOf vp := by
  rcases vnodeUnref_returns inactive parentless.counted positive with
    ⟨after, _, returns, _, countedAfter⟩
  refine ⟨after, returns, countedAfter.parentless ?_⟩
  intro target
  by_cases present : target ∈ after.vnodes
  · rw [vnodeUnref_parentOf parentless.counted positive returns present]
    exact parentless.unlinked target
  · simp [parentOf, Finmap.lookup_eq_none.mpr present]

theorem ref (parentless : cache.Parentless) (positive : 0 < cache.countOf vp)
    (fits : cache.countOf vp + 1 < 2 ^ 32) :
    ∃ after, vnodeRef cache vp = .ok after ∧ after.Parentless ∧
      after.countOf = gain cache.countOf vp := by
  rcases vnodeRef_returns parentless.counted (parentless.mem_iff.mpr positive) with
    ⟨after, returns, _, _, sameGraph, countedAfter⟩
  rw [references_eq parentless.unlinked] at countedAfter
  refine ⟨after, returns, (countedAfter fits).parentless ?_⟩
  intro target
  have sameParents : after.parentOf = cache.parentOf :=
    congrArg RefGraph.parent (sameGraph cache.countOf)
  rw [sameParents]
  exact parentless.unlinked target

theorem alloc (parentless : cache.Parentless) (fresh : vp ∉ cache.vnodes) (vfsp : Option Address)
    (type : Vtype) :
    (vnodeAlloc cache vfsp type (some vp)).2.Parentless ∧
      (vnodeAlloc cache vfsp type (some vp)).2.countOf = gain cache.countOf vp := by
  apply (vnodeAlloc_counted parentless.counted fresh vfsp type).parentless
  intro target
  by_cases same : target = vp
  · subst same
    simp [vnodeAlloc, parentOf]
  · have before := parentless.unlinked target
    simp only [parentOf] at before
    simp [vnodeAlloc, parentOf, Finmap.lookup_insert_of_ne _ same, before]

/-- Writing what has nothing to do with references. -/
theorem modify (parentless : cache.Parentless) (positive : 0 < cache.countOf vp)
    (update : Vnode → Vnode) (links : ∀ vnode, (update vnode).links = vnode.links) :
    ∃ after, cache.modify vp update = .ok after ∧ after.Parentless ∧
      after.countOf = cache.countOf := by
  rcases exists_lookup (parentless.mem_iff.mpr positive) with ⟨vnode, stored⟩
  have same := links vnode
  simp only [Vnode.links, Prod.mk.injEq] at same
  refine ⟨_, modify_eq stored update, (parentless.counted.put stored (links vnode)).parentless ?_⟩
  intro target
  rw [parentOf_put, same.2.2, ← parentOf_eq stored, Function.update_eq_self]
  exact parentless.unlinked target

end Parentless

end VnodeCache

end Goshkik
