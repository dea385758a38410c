import Goshkik.Memory.PmmRefinement
import Goshkik.Memory.SlabInvariant

/-!
# Slab pages and the frame allocator

The slab allocator together with the frame allocator that it gets its pages from.  `slab_init`
maps a frame at its own address, while `slab_free` computes the frame of a slab with
`virtual_to_physical`, which belongs to the direct map.  This file follows the frames through
runs of both and says for which offsets of the direct map they come back.
-/

namespace Goshkik

open Transition

/-- The slab allocator with the frame allocator. -/
structure SlabSystem where
  slabs : SlabState
  pmm : Pmm

/-- The calls, with their results; `other` stands for the other users of the frame allocator. -/
inductive SlabSystemCall where
  | alloc (result : Option ℕ)
  | free (object : ℕ) (release : Release)
  | write
  | other

/-- What `slab_free` does with the frame of a slab that it gives up. -/
def reclaimPage (platform : Platform Pmm) (pmm : Pmm) : Release → Pmm
  | .reclaimed slab => pmmFreePage pmm (platform.virtualToPhysical slab)
  | _ => pmm

/-- The calls of the slab allocator.  Without a frame `slab_alloc` returns a block of the heap,
which `slab_free` passes on to `kfree`.  Other users of the frame allocator leave the frames of
slabs alone. -/
inductive SlabSystemStep (platform : Platform Pmm) : SlabSystem → SlabSystemCall → SlabSystem →
    Prop where
  | reuse {system : SlabSystem} {result : Option ℕ} {slabs : SlabState}
      (noNeed : ¬ system.slabs.NeedsPage) (step : SlabStep system.slabs (.alloc result) slabs) :
      SlabSystemStep platform system (.alloc result) ⟨slabs, system.pmm⟩
  | fresh {system : SlabSystem} {kmalloc result : Option ℕ} {cache : SlabCache} {cells : Cells}
      (fuel : ℕ) (need : system.slabs.NeedsPage) (nonnull : (pmmAllocPage system.pmm).1 ≠ 0)
      (returns : slabAlloc fuel system.slabs.cache system.slabs.cells (pmmAllocPage system.pmm).1
        kmalloc = some (result, cache, cells)) :
      SlabSystemStep platform system (.alloc result)
        ⟨⟨cache, cells, insert (pmmAllocPage system.pmm).1 system.slabs.slabs,
          result.elim system.slabs.live (insert · system.slabs.live)⟩, (pmmAllocPage system.pmm).2⟩
  | exhausted {system : SlabSystem} {kmalloc result : Option ℕ} {cache : SlabCache} {cells : Cells}
      (fuel : ℕ) (need : system.slabs.NeedsPage) (null : (pmmAllocPage system.pmm).1 = 0)
      (returns : slabAlloc fuel system.slabs.cache system.slabs.cells 0 kmalloc =
        some (result, cache, cells)) :
      SlabSystemStep platform system (.alloc result)
        ⟨⟨cache, cells, system.slabs.slabs, system.slabs.live⟩, (pmmAllocPage system.pmm).2⟩
  | free {system : SlabSystem} {object : ℕ} {release : Release} {cache : SlabCache} {cells : Cells}
      (fuel : ℕ) (isLive : object ∈ system.slabs.live)
      (returns : slabFree fuel system.slabs.cache system.slabs.cells object =
        some (release, cache, cells)) :
      SlabSystemStep platform system (.free object release)
        ⟨⟨cache, cells, system.slabs.slabsAfterFree release, system.slabs.live.erase object⟩,
          reclaimPage platform system.pmm release⟩
  | freeForeign {system : SlabSystem} {object : ℕ} {release : Release} {cache : SlabCache}
      {cells : Cells} (fuel : ℕ)
      (foreign : object = 0 ∨ system.slabs.cells (slabMagicField (slabFromObject object)) ≠
        slabMagic)
      (returns : slabFree fuel system.slabs.cache system.slabs.cells object =
        some (release, cache, cells)) :
      SlabSystemStep platform system (.free object release)
        ⟨⟨cache, cells, system.slabs.slabs, system.slabs.live⟩,
          reclaimPage platform system.pmm release⟩
  | write {system : SlabSystem} {slabs : SlabState} (step : SlabStep system.slabs .write slabs) :
      SlabSystemStep platform system .write ⟨slabs, system.pmm⟩
  | other {system : SlabSystem} {pmm : Pmm} (sameBase : pmm.managedBase = system.pmm.managedBase)
      (samePages : pmm.totalPages = system.pmm.totalPages)
      (held : ∀ slab ∈ system.slabs.slabs, slab ∉ pmm.freeFrames) :
      SlabSystemStep platform system .other ⟨system.slabs, pmm⟩

/-! ## The frame allocator -/

namespace Pmm

variable {pmm : Pmm} {frame : ℕ}

theorem pmmFreePage_region (physical : ℕ) :
    (pmmFreePage pmm physical).managedBase = pmm.managedBase ∧
      (pmmFreePage pmm physical).totalPages = pmm.totalPages := by
  unfold pmmFreePage
  simp only
  split_ifs
  · exact ⟨rfl, rfl⟩
  · exact ⟨rfl, rfl⟩
  · exact ⟨rfl, rfl⟩

/-- Giving up a frame through its identity-mapped address frees that frame, and no other, exactly
when the direct map starts less than a page below the end of the address space, or at zero. -/
theorem freeFrames_pmmFreePage_iff (platform : Platform Pmm) (managed : pmm.Managed)
    (isManaged : pmm.Manages frame) (isHeld : frame ∉ pmm.freeFrames) :
    (pmmFreePage pmm (platform.virtualToPhysical frame)).freeFrames = insert frame pmm.freeFrames ↔
      (2 ^ 64 - platform.hhdmOffset) % 2 ^ 64 < pageSize := by
  rcases isManaged with ⟨i, inside, rfl⟩
  have noWrap := managed.noWrap
  have aligned := managed.baseAligned
  have physicalEq : platform.virtualToPhysical (pmm.managedBase + i * pageSize) =
      (pmm.managedBase + i * pageSize + (2 ^ 64 - platform.hhdmOffset) % 2 ^ 64) % 2 ^ 64 := by
    rw [Platform.virtualToPhysical]
    omega
  have shiftSmall : (2 ^ 64 - platform.hhdmOffset) % 2 ^ 64 < 2 ^ 64 := Nat.mod_lt _ (by decide)
  generalize (2 ^ 64 - platform.hhdmOffset) % 2 ^ 64 = shift at physicalEq shiftSmall ⊢
  rw [physicalEq]
  generalize physicalIs : (pmm.managedBase + i * pageSize + shift) % 2 ^ 64 = physical
  have changed : ∀ {after : Pmm}, after = pmm →
      after.freeFrames ≠ insert (pmm.managedBase + i * pageSize) pmm.freeFrames := by
    rintro _ rfl same
    exact isHeld (same ▸ Finset.mem_insert_self _ _)
  unfold pmmFreePage
  split
  · rename_i below
    refine iff_of_false (changed rfl) ?_
    simp only [pageSize] at *
    omega
  · rename_i above
    simp only
    split
    · rename_i inRegion
      rw [freeFrames_bitClear inRegion]
      constructor
      · intro same
        have mem : pmm.managedBase + i * pageSize ∈
            insert (pmm.managedBase + (physical - pmm.managedBase) / pageSize * pageSize)
              pmm.freeFrames := by
          rw [same]
          exact Finset.mem_insert_self _ _
        have sameFrame := (Finset.mem_insert.mp mem).resolve_right isHeld
        simp only [pageSize] at *
        omega
      · intro small
        have sameIndex : (physical - pmm.managedBase) / pageSize = i := by
          simp only [pageSize] at *
          omega
        rw [sameIndex]
    · rename_i outside
      refine iff_of_false (changed rfl) ?_
      simp only [pageSize] at *
      omega

end Pmm

/-! ## Releases -/

namespace SlabState

/-- The object is the only live one of its slab. -/
structure LastLive (state : SlabState) (slab object : ℕ) : Prop where
  mem : slab ∈ state.slabs
  inside : object ∈ state.cache.slots slab
  isLive : object ∈ state.live
  alone : ∀ other ∈ state.live, other ∈ state.cache.slots slab → other = object

end SlabState

theorem SlabGeometry.Fits.slots_nodup {geometry : SlabGeometry} (fits : geometry.Fits) (slab : ℕ) :
    (geometry.slots slab).Nodup := by
  apply List.nodup_range.map
  intro i j same
  have positive := fits.sizePositive
  simp only [Nat.add_left_cancel_iff] at same
  exact Nat.eq_of_mul_eq_mul_right positive same

section Returns

variable {fuel : ℕ} {cache after : SlabCache} {cells cells' : Cells} {slab : ℕ} {release : Release}

theorem refillSlab_release (returns : refillSlab fuel cache cells slab =
    some (release, after, cells')) :
    release = .kept := by
  simp only [refillSlab, Option.bind_eq_bind, Option.bind_eq_some_iff] at returns
  rcases returns with ⟨⟨found, head, unlinked⟩, _, answer⟩
  cases found with
  | false => exact (Prod.mk.inj (Option.some.inj answer)).1.symm
  | true => exact (Prod.mk.inj (Option.some.inj answer)).1.symm

theorem reclaimSlab_release (returns : reclaimSlab fuel cache cells slab =
    some (release, after, cells')) :
    release = .reclaimed slab := by
  simp only [reclaimSlab, Option.bind_eq_bind, Option.bind_eq_some_iff] at returns
  rcases returns with ⟨⟨found, head, unlinked⟩, _, answer⟩
  exact (Prod.mk.inj (Option.some.inj answer)).1.symm

end Returns

namespace SlabInvariant

variable {state : SlabState} {partials fulls : List ℕ} {free : ℕ → List ℕ} {slab object fuel : ℕ}
  {release : Release} {cache : SlabCache} {cells : Cells}

/-- What `slab_free` does with the slab of a live object. -/
theorem slabFree_release (invariant : SlabInvariant state partials fulls free)
    (mem : slab ∈ state.slabs) (inside : object ∈ state.cache.slots slab)
    (isLive : object ∈ state.live)
    (returns : slabFree fuel state.cache state.cells object = some (release, cache, cells)) :
    release = if (free slab).length ≠ 0 ∧ (free slab).length + 1 = state.cache.objectsPerSlab then
      .reclaimed slab else .kept := by
  rcases invariant.slabFree_eq mem inside isLive with ⟨pushed, opened, _⟩
  rw [opened] at returns
  by_cases wasFull : (free slab).length = 0
  · rw [if_pos wasFull] at returns
    rw [if_neg (fun both => both.1 wasFull)]
    exact refillSlab_release returns
  · rw [if_neg wasFull] at returns
    by_cases allFree : (free slab).length + 1 = state.cache.objectsPerSlab
    · rw [if_pos allFree] at returns
      rw [if_pos ⟨wasFull, allFree⟩]
      exact reclaimSlab_release returns
    · rw [if_neg allFree, Option.some.injEq, Prod.mk.injEq] at returns
      rw [if_neg (fun both => allFree both.2)]
      exact returns.1.symm

/-- Only slabs in use are given up. -/
theorem reclaimed_mem (invariant : SlabInvariant state partials fulls free)
    (isLive : object ∈ state.live)
    (returns : slabFree fuel state.cache state.cells object =
      some (.reclaimed slab, cache, cells)) :
    slab ∈ state.slabs := by
  rcases invariant.live object isLive with ⟨home, mem, inside⟩
  have released := invariant.slabFree_release mem inside isLive returns
  split at released
  · cases released
    exact mem
  · cases released

theorem slabFree_keeps (invariant : SlabInvariant state partials fulls free)
    (isLive : object ∈ state.live)
    (returns : slabFree fuel state.cache state.cells object = some (release, cache, cells)) :
    ∃ partials' fulls' free', SlabInvariant
      ⟨cache, cells, state.slabsAfterFree release, state.live.erase object⟩ partials' fulls'
        free' :=
  invariant.step (.free fuel isLive returns)

/-- With one live object left, all other slots are free. -/
theorem free_length_of_lastLive (invariant : SlabInvariant state partials fulls free)
    (last : state.LastLive slab object) :
    (free slab).length + 1 = state.cache.objectsPerSlab := by
  have shape := invariant.shape slab last.mem
  have same : (object :: free slab).Perm (state.cache.slots slab) := by
    rw [List.perm_ext_iff_of_nodup]
    · intro slot
      rw [List.mem_cons, shape.slots]
      constructor
      · rintro (rfl | ⟨inside, _⟩)
        · exact last.inside
        · exact inside
      · intro inside
        by_cases isLive : slot ∈ state.live
        · exact .inl (last.alone slot isLive inside)
        · exact .inr ⟨inside, isLive⟩
    · rw [List.nodup_cons]
      exact ⟨fun isFree => ((shape.slots object).mp isFree).2 last.isLive, shape.chain.nodup⟩
    · exact invariant.sound.fits.slots_nodup slab
  have length := same.length_eq
  rw [List.length_cons] at length
  rw [length]
  simp [SlabGeometry.slots]

end SlabInvariant

theorem slabFree_foreign {fuel object : ℕ} {cache : SlabCache} {cells : Cells}
    (foreign : object = 0 ∨ cells (slabMagicField (slabFromObject object)) ≠ slabMagic) :
    ∃ release, slabFree fuel cache cells object = some (release, cache, cells) ∧
      ∀ slab, release ≠ .reclaimed slab := by
  unfold slabFree
  by_cases null : object = 0
  · exact ⟨.ignored, if_pos null, by simp⟩
  · refine ⟨.kfree object, ?_, by simp⟩
    rw [if_neg null]
    exact if_pos (foreign.resolve_left null)

theorem slabAlloc_geometry {fuel physical : ℕ} {cache cache' : SlabCache} {cells cells' : Cells}
    {kmalloc result : Option ℕ}
    (returns : slabAlloc fuel cache cells physical kmalloc = some (result, cache', cells')) :
    cache'.toSlabGeometry = cache.toSlabGeometry := by
  have chosen : ∀ {slab chosenCache chosenCells},
      slabForAlloc cache cells physical = (slab, chosenCache, chosenCells) →
        chosenCache.toSlabGeometry = cache.toSlabGeometry := by
    intro slab chosenCache chosenCells same
    unfold slabForAlloc at same
    split at same
    · cases same
      rfl
    · split at same
      · cases same
        rfl
      · cases same
        rfl
  unfold slabAlloc at returns
  split at returns
  · rename_i same
    cases returns
    exact chosen same
  · rename_i slab chosenCache chosenCells same
    split at returns
    · cases returns
      exact chosen same
    · simp only [Option.bind_eq_bind, Option.bind_eq_some_iff, Option.pure_def, Option.some.injEq,
        Prod.mk.injEq] at returns
      rcases returns with ⟨⟨retired, retiredCells⟩, retires, _, rfl, _⟩
      refine Eq.trans ?_ (chosen same)
      unfold retireSlab at retires
      split at retires
      · simp only [Option.bind_eq_bind, Option.bind_eq_some_iff, Option.pure_def, Option.some.injEq,
          Prod.mk.injEq] at retires
        rcases retires with ⟨_, _, rfl, _⟩
        rfl
      · cases retires
        rfl

theorem slabAlloc_exhausted {fuel : ℕ} {state : SlabState} {kmalloc : Option ℕ}
    (need : state.NeedsPage) :
    slabAlloc fuel state.cache state.cells 0 kmalloc =
      some (kmalloc, state.cache, state.cells) := by
  have chosen : slabForAlloc state.cache state.cells 0 = (none, state.cache, state.cells) := by
    unfold slabForAlloc
    rw [need]
    rfl
  rw [slabAlloc, chosen]

/-! ## Runs -/

/-- The slabs stand on frames that the allocator counts as taken. -/
structure SlabSystem.Sound (system : SlabSystem) : Prop where
  invariant : ∃ partials fulls free, SlabInvariant system.slabs partials fulls free
  managed : system.pmm.Managed
  framed : ∀ slab ∈ system.slabs.slabs, system.pmm.Manages slab ∧ slab ∉ system.pmm.freeFrames

namespace SlabSystem.Sound

variable {platform : Platform Pmm} {before after : SlabSystem} {call : SlabSystemCall}

/-- A frame that is handed out may become a slab. -/
theorem freshPage (sound : before.Sound) (nonnull : (pmmAllocPage before.pmm).1 ≠ 0) :
    before.slabs.FreshPage (pmmAllocPage before.pmm).1 := by
  rcases Pmm.pmmAllocPage_cases sound.managed with ⟨_, none⟩ | ⟨_, _, isFree, _⟩
  · rw [none] at nonnull
    exact absurd rfl nonnull
  · rcases Pmm.mem_freeFrames.mp isFree with ⟨i, inside, _, frameEq⟩
    have noWrap := sound.managed.noWrap
    refine ⟨?_, nonnull, ?_, fun isSlab => (sound.framed _ isSlab).2 isFree⟩
    · rw [frameEq]
      exact Nat.dvd_add sound.managed.baseAligned (Nat.dvd_mul_left _ _)
    · rw [frameEq]
      simp only [pageSize] at noWrap ⊢
      omega

/-- Giving a page back keeps the frames of the other slabs taken. -/
theorem reclaim (sound : before.Sound) (direct : (2 ^ 64 - platform.hhdmOffset) % 2 ^ 64 < pageSize)
    {slab : ℕ} (mem : slab ∈ before.slabs.slabs) :
    (reclaimPage platform before.pmm (.reclaimed slab)).freeFrames =
      insert slab before.pmm.freeFrames ∧
      (reclaimPage platform before.pmm (.reclaimed slab)).managedBase = before.pmm.managedBase ∧
      (reclaimPage platform before.pmm (.reclaimed slab)).totalPages = before.pmm.totalPages := by
  rcases sound.framed slab mem with ⟨isManaged, isHeld⟩
  refine ⟨(Pmm.freeFrames_pmmFreePage_iff platform sound.managed isManaged isHeld).mpr direct, ?_⟩
  exact Pmm.pmmFreePage_region _

/-- Steps keep the slabs on taken frames, and frames only move between the free ones and the
slabs. -/
theorem step (sound : before.Sound)
    (direct : (∃ object slab, call = .free object (.reclaimed slab)) →
      (2 ^ 64 - platform.hhdmOffset) % 2 ^ 64 < pageSize)
    (taken : SlabSystemStep platform before call after) :
    after.Sound ∧ (call ≠ .other → 0 ∉ before.pmm.freeFrames →
      after.pmm.freeFrames ∪ after.slabs.slabs = before.pmm.freeFrames ∪ before.slabs.slabs) := by
  rcases sound.invariant with ⟨partials, fulls, free, invariant⟩
  cases taken with
  | reuse noNeed step =>
      have kept := invariant.step step
      cases step with
      | @alloc physical kmalloc result cache cells fuel fresh returns =>
          have same : before.slabs.slabsAfterAlloc physical = before.slabs.slabs := if_neg noNeed
          rw [same] at kept ⊢
          exact ⟨⟨kept, sound.managed, sound.framed⟩, fun _ _ => rfl⟩
  | fresh fuel need nonnull returns =>
      have page := sound.freshPage nonnull
      have kept := invariant.step (.alloc fuel (fun _ => page) returns)
      have inserted : before.slabs.slabsAfterAlloc (pmmAllocPage before.pmm).1 =
          insert (pmmAllocPage before.pmm).1 before.slabs.slabs := if_pos need
      rw [inserted] at kept
      rcases Pmm.pmmAllocPage_cases sound.managed with
        ⟨_, none⟩ | ⟨pmm, pmmEq, isFree, base, pages, frames⟩
      · rw [none] at nonnull
        exact absurd rfl nonnull
      · generalize (pmmAllocPage before.pmm).1 = frame at *
        rw [pmmEq]
        refine ⟨⟨kept, ?_, ?_⟩, ?_⟩
        · exact ⟨base ▸ sound.managed.baseAligned, base ▸ pages ▸ sound.managed.noWrap⟩
        · intro slab mem
          rw [frames]
          rcases Finset.mem_insert.mp mem with rfl | old
          · rcases Pmm.mem_freeFrames.mp isFree with ⟨i, inside, _, frameEq⟩
            exact ⟨⟨i, pages ▸ inside, base ▸ frameEq⟩, Finset.notMem_erase _ _⟩
          · rcases sound.framed slab old with ⟨⟨i, inside, frameEq⟩, isHeld⟩
            exact ⟨⟨i, pages ▸ inside, base ▸ frameEq⟩,
              fun isFree => isHeld (Finset.mem_of_mem_erase isFree)⟩
        · intro _ _
          rw [frames, Finset.union_insert, ← Finset.insert_union, Finset.insert_erase isFree]
  | @exhausted kmalloc _ _ _ fuel need null returns =>
      rw [slabAlloc_exhausted need, Option.some.injEq, Prod.mk.injEq, Prod.mk.injEq] at returns
      rcases returns with ⟨_, rfl, rfl⟩
      rcases Pmm.pmmAllocPage_cases sound.managed with
        ⟨_, none⟩ | ⟨pmm, pmmEq, isFree, base, pages, frames⟩
      · rw [none]
        exact ⟨⟨sound.invariant, sound.managed, sound.framed⟩, fun _ _ => rfl⟩
      · rw [null] at isFree frames
        rw [pmmEq]
        refine ⟨⟨sound.invariant, ?_, ?_⟩, fun _ nullHeld => absurd isFree nullHeld⟩
        · exact ⟨base ▸ sound.managed.baseAligned, base ▸ pages ▸ sound.managed.noWrap⟩
        · intro slab mem
          rcases sound.framed slab mem with ⟨⟨i, inside, frameEq⟩, isHeld⟩
          rw [frames]
          exact ⟨⟨i, pages ▸ inside, base ▸ frameEq⟩,
            fun isFree => isHeld (Finset.mem_of_mem_erase isFree)⟩
  | @free object release _ _ fuel isLive returns =>
      have kept := invariant.slabFree_keeps isLive returns
      cases release with
      | reclaimed slab =>
          have mem := invariant.reclaimed_mem isLive returns
          rcases sound.reclaim (direct ⟨object, slab, rfl⟩) mem with ⟨frames, base, pages⟩
          refine ⟨⟨kept, ?_, ?_⟩, ?_⟩
          · exact ⟨base ▸ sound.managed.baseAligned, base ▸ pages ▸ sound.managed.noWrap⟩
          · intro other otherMem
            rcases Finset.mem_erase.mp otherMem with ⟨different, old⟩
            rcases sound.framed other old with ⟨⟨i, inside, frameEq⟩, isHeld⟩
            rw [frames]
            exact ⟨⟨i, pages ▸ inside, base ▸ frameEq⟩,
              fun isFree => isHeld (Finset.mem_of_mem_insert_of_ne isFree different)⟩
          · intro _ _
            rw [frames, SlabState.slabsAfterFree, Finset.insert_union, ← Finset.union_insert,
              Finset.insert_erase mem]
      | ignored => exact ⟨⟨kept, sound.managed, sound.framed⟩, fun _ _ => rfl⟩
      | kfree => exact ⟨⟨kept, sound.managed, sound.framed⟩, fun _ _ => rfl⟩
      | kept => exact ⟨⟨kept, sound.managed, sound.framed⟩, fun _ _ => rfl⟩
  | @freeForeign object release _ _ fuel foreign returns =>
      rcases @slabFree_foreign fuel object before.slabs.cache before.slabs.cells foreign with
        ⟨given, returned, notReclaimed⟩
      rw [returned, Option.some.injEq, Prod.mk.injEq, Prod.mk.injEq] at returns
      rcases returns with ⟨rfl, rfl, rfl⟩
      have same : reclaimPage platform before.pmm given = before.pmm := by
        cases given with
        | reclaimed slab => exact absurd rfl (notReclaimed slab)
        | _ => rfl
      rw [same]
      exact ⟨⟨sound.invariant, sound.managed, sound.framed⟩, fun _ _ => rfl⟩
  | write step =>
      have kept := invariant.step step
      cases step with
      | write frame => exact ⟨⟨kept, sound.managed, sound.framed⟩, fun _ _ => rfl⟩
  | other sameBase samePages held =>
      refine ⟨⟨sound.invariant, ?_, ?_⟩, fun isOther => absurd rfl isOther⟩
      · exact ⟨sameBase ▸ sound.managed.baseAligned, sameBase ▸ samePages ▸ sound.managed.noWrap⟩
      · intro slab mem
        rcases (sound.framed slab mem).1 with ⟨i, inside, frameEq⟩
        exact ⟨⟨i, samePages ▸ inside, sameBase ▸ frameEq⟩, held slab mem⟩

/-- A new cache on a managed region. -/
theorem start {cache : SlabCache} {cells : Cells} {pmm : Pmm} (sound : cache.Sound)
    (noPartial : cache.partialList = none) (noFull : cache.fullList = none)
    (noEmpty : cache.emptyList = none) (managed : pmm.Managed) :
    SlabSystem.Sound ⟨⟨cache, cells, ∅, ∅⟩, pmm⟩ where
  invariant := ⟨_, _, _, SlabInvariant.start sound noPartial noFull noEmpty⟩
  managed := managed
  framed := by simp

end SlabSystem.Sound

/-- Freeing the last live object of a slab that was not full gives the slab's frame back and no
other.  While nobody else uses the frame allocator, frames only move between the free ones and the
slabs. -/
structure SlabSystem.ReturnsFrames (platform : Platform Pmm) (start : SlabSystem) : Prop where
  returned : ∀ calls before slab object, Run (SlabSystemStep platform) start calls before →
    before.slabs.LastLive slab object → before.slabs.cells (slabFreeCountField slab) ≠ 0 →
    (∃ after, SlabSystemStep platform before (.free object (.reclaimed slab)) after) ∧
    ∀ release after, SlabSystemStep platform before (.free object release) after →
      release = .reclaimed slab ∧ slab ∉ before.pmm.freeFrames ∧
        after.pmm.freeFrames = insert slab before.pmm.freeFrames
  conserved : ∀ calls last, Run (SlabSystemStep platform) start calls last →
    SlabSystemCall.other ∉ calls →
    last.pmm.freeFrames ∪ last.slabs.slabs = start.pmm.freeFrames ∪ start.slabs.slabs

/-- What the call does when one live object is left in a slab that is not full. -/
theorem SlabInvariant.free_lastLive {platform : Platform Pmm} {system : SlabSystem}
    {partials fulls : List ℕ} {free : ℕ → List ℕ} {slab object : ℕ}
    (invariant : SlabInvariant system.slabs partials fulls free)
    (last : system.slabs.LastLive slab object)
    (notFull : system.slabs.cells (slabFreeCountField slab) ≠ 0) :
    (∃ after, SlabSystemStep platform system (.free object (.reclaimed slab)) after) ∧
    ∀ release after, SlabSystemStep platform system (.free object release) after →
      release = .reclaimed slab ∧
        after.pmm = reclaimPage platform system.pmm (.reclaimed slab) := by
  have shape := invariant.shape slab last.mem
  rw [shape.count] at notFull
  have released : ∀ {fuel release cache cells}, slabFree fuel system.slabs.cache system.slabs.cells
      object = some (release, cache, cells) → release = .reclaimed slab := by
    intro fuel release cache cells returns
    have given := invariant.slabFree_release last.mem last.inside last.isLive returns
    rwa [if_pos ⟨notFull, invariant.free_length_of_lastLive last⟩] at given
  constructor
  · rcases invariant.release last.isLive with ⟨release, cache, cells, _, _, _, frees, _⟩
    have returns := frees _ (Nat.lt_succ_self _)
    rw [released returns] at returns
    exact ⟨_, .free _ last.isLive returns⟩
  · intro release after taken
    cases taken with
    | free fuel isLive returns =>
        rw [released returns]
        exact ⟨rfl, rfl⟩
    | freeForeign fuel foreign returns =>
        rw [released returns]
        exact ⟨rfl, rfl⟩

namespace SlabSystem

variable {platform : Platform Pmm} {system : SlabSystem}

/-- Frames only move between the free ones and the slabs. -/
theorem Sound.conserved (sound : system.Sound)
    (direct : (2 ^ 64 - platform.hhdmOffset) % 2 ^ 64 < pageSize)
    (nullHeld : 0 ∉ system.pmm.freeFrames) {calls : List SlabSystemCall} {last : SlabSystem}
    (run : Run (SlabSystemStep platform) system calls last)
    (noOther : SlabSystemCall.other ∉ calls) :
    last.pmm.freeFrames ∪ last.slabs.slabs = system.pmm.freeFrames ∪ system.slabs.slabs := by
  induction run with
  | nil => rfl
  | @cons first second last call calls taken rest ih =>
      rw [List.mem_cons, not_or] at noOther
      rcases sound.step (fun _ => direct) taken with ⟨secondSound, kept⟩
      have same := kept (Ne.symm noOther.1) nullHeld
      have secondNullHeld : 0 ∉ second.pmm.freeFrames := by
        intro isFree
        have before : 0 ∈ first.pmm.freeFrames ∪ first.slabs.slabs := by
          rw [← same]
          exact Finset.mem_union_left _ isFree
        rcases Finset.mem_union.mp before with isFree | isSlab
        · exact nullHeld isFree
        · rcases sound.invariant with ⟨_, _, _, invariant⟩
          exact (invariant.shape 0 isSlab).nonnull rfl
      exact (ih secondSound secondNullHeld noOther.2).trans same

/-- Where the frame of an identity-mapped page is computed right, frames come back. -/
theorem Sound.returnsFrames (sound : system.Sound)
    (direct : (2 ^ 64 - platform.hhdmOffset) % 2 ^ 64 < pageSize)
    (nullHeld : 0 ∉ system.pmm.freeFrames) : system.ReturnsFrames platform := by
  refine ⟨?_, fun calls last run noOther => sound.conserved direct nullHeld run noOther⟩
  intro calls before slab object run last notFull
  have reached : before.Sound := by
    apply run.invariant
    · exact fun _ _ _ kept taken => (kept.step (fun _ => direct) taken).1
    · exact sound
  rcases reached.invariant with ⟨_, _, _, invariant⟩
  rcases @SlabInvariant.free_lastLive platform _ _ _ _ _ _ invariant last notFull with
    ⟨returns, onlyReclaims⟩
  refine ⟨returns, ?_⟩
  intro release after taken
  rcases onlyReclaims release after taken with ⟨reclaimed, pmmEq⟩
  rw [pmmEq]
  exact ⟨reclaimed, (reached.framed slab last.mem).2, (reached.reclaim direct last.mem).1⟩

/-- An allocation from a new cache with a frame left puts one object on a new slab. -/
theorem Sound.first_alloc (sound : system.Sound) (noSlabs : system.slabs.slabs = ∅)
    (noneLive : system.slabs.live = ∅) (need : system.slabs.NeedsPage)
    (available : system.pmm.freeFrames ≠ ∅) (nullHeld : 0 ∉ system.pmm.freeFrames) :
    ∃ object after slab, SlabSystemStep platform system (.alloc (some object)) after ∧
      after.Sound ∧ after.slabs.LastLive slab object ∧
      after.slabs.cache.objectsPerSlab = system.slabs.cache.objectsPerSlab := by
  have nonnull : (pmmAllocPage system.pmm).1 ≠ 0 := by
    rcases Pmm.pmmAllocPage_cases sound.managed with ⟨empty, _⟩ | ⟨_, _, isFree, _⟩
    · exact absurd empty available
    · intro null
      exact nullHeld (null ▸ isFree)
  rcases sound.invariant with ⟨_, _, _, invariant⟩
  rcases invariant.alloc (fun _ => sound.freshPage nonnull) none with
    ⟨object, cache, cells, _, _, _, _, allocates, kept⟩
  have returns := allocates 1 (by decide)
  have taken := @SlabSystemStep.fresh platform system none _ _ _ 1 need nonnull returns
  have inserted : system.slabs.slabsAfterAlloc (pmmAllocPage system.pmm).1 =
      insert (pmmAllocPage system.pmm).1 system.slabs.slabs := if_pos need
  rw [inserted, noSlabs, noneLive] at kept
  rw [noSlabs, noneLive] at taken
  refine ⟨object, _, (pmmAllocPage system.pmm).1, taken, ?_, ⟨by simp, ?_, by simp, by simp⟩, ?_⟩
  · refine (sound.step ?_ taken).1
    rintro ⟨_, _, isFree⟩
    cases isFree
  · rcases kept.live object (by simp) with ⟨home, homeMem, inside⟩
    rw [Finset.mem_insert, or_iff_left (Finset.notMem_empty _)] at homeMem
    exact homeMem ▸ inside
  · rw [slabAlloc_geometry returns]

end SlabSystem

/-- Frames come back from every run of a new cache exactly when the direct map starts at zero, or
less than a page below the end of the address space. -/
theorem slab_returns_frames_iff (platform : Platform Pmm) (bits : ℕ) {objectSize align : ℕ}
    {ctor dtor : Option (Cells → ℕ → Cells)} {kmalloc : Option ℕ} {cache : SlabCache}
    (created : slabCacheCreate objectSize align ctor dtor kmalloc = some (some cache))
    (power : cache.align = 2 ^ bits) (pageSized : cache.align ≤ pageSizeSlab)
    (ctorInside : StaysInside cache.objectSize ctor)
    (dtorInside : StaysInside cache.objectSize dtor) (several : 2 ≤ cache.objectsPerSlab)
    {pmm : Pmm} (managed : pmm.Managed) (nullHeld : 0 ∉ pmm.freeFrames)
    (available : pmm.freeFrames ≠ ∅) (cells : Cells) :
    SlabSystem.ReturnsFrames platform ⟨⟨cache, cells, ∅, ∅⟩, pmm⟩ ↔
      (2 ^ 64 - platform.hhdmOffset) % 2 ^ 64 < pageSize := by
  have fits := slabCacheCreate_fits bits created power pageSized
  rcases slabCacheCreate_eq created with ⟨address, used, _, _, _, rfl⟩
  have start := @SlabSystem.Sound.start _ cells pmm ⟨fits, ctorInside, dtorInside⟩ rfl rfl rfl
    managed
  constructor
  · intro returnsFrames
    rcases @SlabSystem.Sound.first_alloc platform _ start rfl rfl rfl available nullHeld with
      ⟨object, after, slab, allocated, sound, last, sameObjects⟩
    rcases sound.invariant with ⟨_, _, free, invariant⟩
    have notFull : after.slabs.cells (slabFreeCountField slab) ≠ 0 := by
      have length := invariant.free_length_of_lastLive last
      have atLeast : 2 ≤ (free slab).length + 1 := by
        rw [length, sameObjects]
        exact several
      rw [(invariant.shape slab last.mem).count]
      exact Nat.ne_of_gt (by omega)
    rcases returnsFrames.returned _ after slab object (.cons allocated (.nil _)) last notFull with
      ⟨⟨final, taken⟩, onlyReturns⟩
    rcases onlyReturns _ final taken with ⟨_, isHeld, frames⟩
    rw [((invariant.free_lastLive last notFull).2 _ final taken).2] at frames
    exact (Pmm.freeFrames_pmmFreePage_iff platform sound.managed (sound.framed slab last.mem).1
      isHeld).mp frames
  · exact fun direct => start.returnsFrames direct nullHeld

/-- Sixteen free frames from one megabyte on. -/
def sixteenFrames : Pmm where
  pmmBitmap := 0xFFFF800000100000
  bitmap := fun _ => 0#8
  pmmBitmapSize := 2
  managedBase := 0x100000
  totalPages := 16

/-- A platform whose direct map starts at an offset. -/
def Platform.mappedAt (hhdmOffset : ℕ) : Platform Pmm where
  hhdmOffset := hhdmOffset
  translate := fun _ pointer => some ((pointer + (2 ^ 64 - hhdmOffset)) % 2 ^ 64)
  pmmAllocPage := Goshkik.pmmAllocPage

theorem sixteenFrames_managed : sixteenFrames.Managed ∧ 0 ∉ sixteenFrames.freeFrames ∧
    sixteenFrames.freeFrames ≠ ∅ :=
  ⟨⟨by decide, by decide⟩, by decide, by decide⟩

theorem slab_returns_frames_hashEntryCache :
    SlabSystem.ReturnsFrames (.mappedAt 0) ⟨⟨hashEntryCache, fun _ => 0, ∅, ∅⟩, sixteenFrames⟩ := by
  have noCallback : StaysInside hashEntryCache.objectSize none := fun _ _ _ _ => rfl
  rcases sixteenFrames_managed with ⟨managed, nullHeld, available⟩
  exact (slab_returns_frames_iff _ 3 hashEntryCache_created rfl (by decide) noCallback noCallback
    (by decide) managed nullHeld available _).mpr (by decide)

/-- With the offset of the bootloader the frame of a reclaimed slab stays taken. -/
theorem slab_reclaim_loses_frame : ∃ object before slab after,
    Run (SlabSystemStep (.mappedAt 0xFFFF800000000000))
      ⟨⟨hashEntryCache, fun _ => 0, ∅, ∅⟩, sixteenFrames⟩ [.alloc (some object)] before ∧
    before.slabs.LastLive slab object ∧ before.slabs.cells (slabFreeCountField slab) ≠ 0 ∧
    SlabSystemStep (.mappedAt 0xFFFF800000000000) before (.free object (.reclaimed slab)) after ∧
    after.pmm.freeFrames ≠ insert slab before.pmm.freeFrames := by
  have noCallback : StaysInside hashEntryCache.objectSize none := fun _ _ _ _ => rfl
  rcases sixteenFrames_managed with ⟨managed, nullHeld, available⟩
  have fits := slabCacheCreate_fits 3 hashEntryCache_created rfl (by decide)
  have start := @SlabSystem.Sound.start _ (fun _ => 0) _ ⟨fits, noCallback, noCallback⟩ rfl rfl rfl
    managed
  rcases @SlabSystem.Sound.first_alloc (.mappedAt 0xFFFF800000000000) _ start rfl rfl rfl available
    nullHeld with ⟨object, before, slab, allocated, sound, last, sameObjects⟩
  rcases sound.invariant with ⟨_, _, free, invariant⟩
  have notFull : before.slabs.cells (slabFreeCountField slab) ≠ 0 := by
    have length := invariant.free_length_of_lastLive last
    have atLeast : 2 ≤ (free slab).length + 1 := by
      rw [length, sameObjects]
      decide
    rw [(invariant.shape slab last.mem).count]
    exact Nat.ne_of_gt (by omega)
  rcases @SlabInvariant.free_lastLive (.mappedAt 0xFFFF800000000000) _ _ _ _ _ _ invariant last
    notFull with ⟨⟨after, taken⟩, onlyReclaims⟩
  refine ⟨object, before, slab, after, .cons allocated (.nil _), last, notFull, taken, ?_⟩
  rw [(onlyReclaims _ after taken).2]
  intro frames
  have direct := (Pmm.freeFrames_pmmFreePage_iff (.mappedAt 0xFFFF800000000000) sound.managed
    (sound.framed slab last.mem).1 (sound.framed slab last.mem).2).mp frames
  exact absurd direct (by decide)

end Goshkik
