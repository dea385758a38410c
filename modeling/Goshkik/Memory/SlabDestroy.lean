import Goshkik.Memory.SlabPages

/-!
# Destroying a cache

`slab_destroy` walks over the partial and the empty slabs and unmaps one page after the other,
reading the link of a slab before its page goes.  Reading a page that is gone is a fault.  The
full slabs are not visited, so the function releases the whole cache only when there are none.
-/

namespace Goshkik

open Transition

/-- The pages unmapped so far, and the frame allocator. -/
structure Teardown where
  unmapped : List ℕ
  pmm : Pmm

/-- The loop of `slab_destroy` over one list. -/
def destroySlabs (platform : Platform Pmm) (cells : Cells) :
    ℕ → Option ℕ → Teardown → Option Teardown
  | 0, _, _ => none
  | _ + 1, none, torn => some torn
  | fuel + 1, some slab, torn =>
      if slab ∈ torn.unmapped then none
      else
        destroySlabs platform cells fuel (slabNext cells slab)
          ⟨torn.unmapped ++ [slab], pmmFreePage torn.pmm (platform.virtualToPhysical slab)⟩

/-- The result is what has been torn down, with the argument of the final `kfree`. -/
def slabDestroy (platform : Platform Pmm) (fuel : ℕ) (cache : Option SlabCache) (cells : Cells)
    (pmm : Pmm) : Option (Teardown × Option ℕ) :=
  match cache with
  | none => some (⟨[], pmm⟩, none)
  | some cache => do
      let torn ← destroySlabs platform cells fuel cache.partialList ⟨[], pmm⟩
      let torn ← destroySlabs platform cells fuel cache.emptyList torn
      return (torn, some cache.address)

section Walk

variable {platform : Platform Pmm} {cells : Cells} {head : Option ℕ} {slabs : List ℕ}
  {torn : Teardown}

/-- The walk unmaps the slabs of its list in order. -/
theorem destroySlabs_spec (linked : Linked (slabNext cells) head slabs)
    (mapped : ∀ slab ∈ slabs, slab ∉ torn.unmapped) :
    ∃ pmm, ∀ fuel, slabs.length < fuel →
      destroySlabs platform cells fuel head torn = some ⟨torn.unmapped ++ slabs, pmm⟩ := by
  induction slabs generalizing head torn with
  | nil =>
      rw [Linked.nil_iff] at linked
      subst linked
      refine ⟨torn.pmm, ?_⟩
      intro fuel enough
      obtain ⟨fuel, rfl⟩ : ∃ smaller, fuel = smaller + 1 := ⟨fuel - 1, by simp at enough; omega⟩
      rw [destroySlabs, List.append_nil]
  | cons slab slabs ih =>
      have distinct := List.nodup_cons.mp linked.nodup
      rcases Linked.cons_iff.mp linked with ⟨rfl, rest⟩
      rcases @ih _ ⟨torn.unmapped ++ [slab],
          pmmFreePage torn.pmm (platform.virtualToPhysical slab)⟩ rest (by
        intro other mem gone
        rcases List.mem_append.mp gone with before | same
        · exact mapped other (List.mem_cons_of_mem _ mem) before
        · rw [List.mem_singleton] at same
          exact distinct.1 (same ▸ mem)) with ⟨pmm, walks⟩
      refine ⟨pmm, ?_⟩
      intro fuel enough
      obtain ⟨fuel, rfl⟩ : ∃ smaller, fuel = smaller + 1 := ⟨fuel - 1, by omega⟩
      rw [destroySlabs, if_neg (mapped slab (List.mem_cons_self)),
        walks fuel (by simpa using enough)]
      simp

theorem destroySlabs_mono {fuel more : ℕ} {after : Teardown}
    (returns : destroySlabs platform cells fuel head torn = some after) (enough : fuel ≤ more) :
    destroySlabs platform cells more head torn = some after := by
  induction fuel generalizing head torn more with
  | zero => simp [destroySlabs] at returns
  | succ fuel ih =>
      obtain ⟨more, rfl⟩ : ∃ smaller, more = smaller + 1 := ⟨more - 1, by omega⟩
      cases head with
      | none => exact returns
      | some slab =>
          rw [destroySlabs] at returns ⊢
          split at returns
          · cases returns
          · rename_i here
            rw [if_neg here]
            exact ih returns (by omega)

end Walk

/-- After `slab_destroy` the page of every slab has been unmapped exactly once. -/
def DestroysAll (platform : Platform Pmm) (state : SlabState) (pmm : Pmm) : Prop :=
  (∃ fuel answer, slabDestroy platform fuel (some state.cache) state.cells pmm = some answer) ∧
    ∀ fuel torn freed, slabDestroy platform fuel (some state.cache) state.cells pmm =
      some (torn, freed) → ∀ slab ∈ state.slabs, torn.unmapped.count slab = 1

namespace SlabInvariant

variable {state : SlabState} {partials fulls : List ℕ} {free : ℕ → List ℕ} {platform : Platform Pmm}
  {pmm : Pmm}

/-- `slab_destroy` unmaps the partial slabs. -/
theorem slabDestroy_unmaps (invariant : SlabInvariant state partials fulls free) :
    (∃ fuel answer, slabDestroy platform fuel (some state.cache) state.cells pmm = some answer) ∧
    ∀ fuel torn freed, slabDestroy platform fuel (some state.cache) state.cells pmm =
      some (torn, freed) → torn.unmapped = partials := by
  rcases @destroySlabs_spec platform _ _ _ ⟨[], pmm⟩ invariant.lists.partialLinked (by simp) with
    ⟨after, walks⟩
  have destroys : ∀ fuel, partials.length < fuel →
      slabDestroy platform fuel (some state.cache) state.cells pmm =
        some (⟨partials, after⟩, some state.cache.address) := by
    intro fuel enough
    have walked := walks fuel enough
    obtain ⟨fuel, rfl⟩ : ∃ smaller, fuel = smaller + 1 := ⟨fuel - 1, by omega⟩
    simp only [slabDestroy, walked, invariant.lists.noEmpty, destroySlabs, Option.bind_eq_bind,
      Option.bind_some, List.nil_append, Option.pure_def]
  refine ⟨⟨_, _, destroys _ (Nat.lt_succ_self _)⟩, ?_⟩
  intro fuel torn freed returns
  simp only [slabDestroy, Option.bind_eq_bind, Option.bind_eq_some_iff] at returns
  rcases returns with ⟨first, walked, second, empties, answer⟩
  have more := destroySlabs_mono walked (Nat.le_add_right fuel (partials.length + 1))
  rw [walks _ (by omega), Option.some.injEq] at more
  rw [invariant.lists.noEmpty] at empties
  cases fuel with
  | zero => cases empties
  | succ fuel =>
      rw [destroySlabs, Option.some.injEq] at empties
      rw [← (Prod.mk.inj (Option.some.inj answer)).1, ← empties, ← more, List.nil_append]

theorem destroysAll_iff (invariant : SlabInvariant state partials fulls free) :
    DestroysAll platform state pmm ↔ state.cache.fullList = none := by
  rcases @slabDestroy_unmaps _ _ _ _ platform pmm invariant with ⟨returns, unmaps⟩
  rw [invariant.lists.fullLinked.head_eq_none_iff]
  have once : ∀ slab, partials.count slab = 1 ↔ slab ∈ partials := by
    intro slab
    constructor
    · intro count
      exact List.count_pos_iff.mp (by omega)
    · exact fun mem => List.count_eq_one_of_mem invariant.lists.partialLinked.nodup mem
  constructor
  · rintro ⟨⟨fuel, ⟨torn, freed⟩, destroys⟩, complete⟩
    apply List.eq_nil_iff_forall_not_mem.mpr
    intro slab isFull
    have count := complete fuel torn freed destroys slab (invariant.mem_of_full isFull)
    rw [unmaps fuel torn freed destroys, once] at count
    exact invariant.lists.disjoint slab count isFull
  · rintro rfl
    refine ⟨returns, ?_⟩
    intro fuel torn freed destroys slab mem
    rw [unmaps fuel torn freed destroys, once]
    exact ((invariant.slabs slab).mp mem).resolve_right List.not_mem_nil

end SlabInvariant

/-- The steps of a cache, also when there is no frame left, so that `slab_alloc` returns a block of
the heap, and when `slab_free` gets an object that is in no slab. -/
inductive SlabCacheStep : SlabState → SlabCall → SlabState → Prop where
  | slab {before after : SlabState} {call : SlabCall} (step : SlabStep before call after) :
      SlabCacheStep before call after
  | exhausted {state : SlabState} {kmalloc result : Option ℕ} {cache : SlabCache} {cells : Cells}
      (fuel : ℕ) (need : state.NeedsPage)
      (returns : slabAlloc fuel state.cache state.cells 0 kmalloc = some (result, cache, cells)) :
      SlabCacheStep state (.alloc result) ⟨cache, cells, state.slabs, state.live⟩
  | freeForeign {state : SlabState} {object : ℕ} {release : Release} {cache : SlabCache}
      {cells : Cells} (fuel : ℕ)
      (foreign : object = 0 ∨ state.cells (slabMagicField (slabFromObject object)) ≠ slabMagic)
      (returns : slabFree fuel state.cache state.cells object = some (release, cache, cells)) :
      SlabCacheStep state (.free object) ⟨cache, cells, state.slabs, state.live⟩

theorem SlabInvariant.cacheStep {before after : SlabState} {call : SlabCall}
    (kept : ∃ partials fulls free, SlabInvariant before partials fulls free)
    (taken : SlabCacheStep before call after) :
    ∃ partials fulls free, SlabInvariant after partials fulls free := by
  cases taken with
  | slab step =>
      rcases kept with ⟨_, _, _, invariant⟩
      exact invariant.step step
  | exhausted fuel need returns =>
      rw [slabAlloc_exhausted need, Option.some.injEq, Prod.mk.injEq, Prod.mk.injEq] at returns
      rcases returns with ⟨_, rfl, rfl⟩
      exact kept
  | @freeForeign object _ _ _ fuel foreign returns =>
      rcases @slabFree_foreign fuel object before.cache before.cells foreign with ⟨_, returned, _⟩
      rw [returned, Option.some.injEq, Prod.mk.injEq, Prod.mk.injEq] at returns
      rcases returns with ⟨_, rfl, rfl⟩
      exact kept

/-- In every state that a cache reaches, `slab_destroy` unmaps the page of every slab exactly once
if and only if no slab is full. -/
theorem slab_destroy_unmaps_iff (platform : Platform Pmm) (bits : ℕ) {objectSize align : ℕ}
    {ctor dtor : Option (Cells → ℕ → Cells)} {kmalloc : Option ℕ} {cache : SlabCache}
    (created : slabCacheCreate objectSize align ctor dtor kmalloc = some (some cache))
    (power : cache.align = 2 ^ bits) (pageSized : cache.align ≤ pageSizeSlab)
    (ctorInside : StaysInside cache.objectSize ctor)
    (dtorInside : StaysInside cache.objectSize dtor)
    {cells : Cells} {calls : List SlabCall} {last : SlabState}
    (run : Run SlabCacheStep ⟨cache, cells, ∅, ∅⟩ calls last) (pmm : Pmm) :
    DestroysAll platform last pmm ↔ last.cache.fullList = none := by
  have fits := slabCacheCreate_fits bits created power pageSized
  rcases slabCacheCreate_eq created with ⟨address, used, _, _, _, rfl⟩
  have kept : ∃ partials fulls free, SlabInvariant last partials fulls free := by
    apply run.invariant
    · exact fun _ _ _ kept taken => SlabInvariant.cacheStep kept taken
    · exact ⟨[], [], _, SlabInvariant.start ⟨fits, ctorInside, dtorInside⟩ rfl rfl rfl⟩
  rcases kept with ⟨_, _, _, invariant⟩
  exact invariant.destroysAll_iff

theorem slab_destroy_unmaps_hashEntryCache : ∃ object last,
    Run SlabCacheStep ⟨hashEntryCache, fun _ => 0, ∅, ∅⟩ [.alloc (some object)] last ∧
      last.slabs = {0x5000} ∧ DestroysAll (.mappedAt 0) last sixteenFrames := by
  have noCallback : StaysInside hashEntryCache.objectSize none := fun _ _ _ _ => rfl
  have allocated : (slabAlloc 1 hashEntryCache (fun _ => 0) 0x5000 none).map
      (fun answer => (answer.1, answer.2.1.fullList)) = some (some 0x5FB8, none) := by
    decide +kernel
  rw [Option.map_eq_some_iff] at allocated
  rcases allocated with ⟨⟨object, cache, cells⟩, returns, same⟩
  rcases Prod.mk.inj same with ⟨rfl, noFull⟩
  have fresh : SlabState.FreshPage ⟨hashEntryCache, fun _ => 0, ∅, ∅⟩ 0x5000 :=
    ⟨by decide, by decide, by decide, by simp⟩
  have run : Run SlabCacheStep ⟨hashEntryCache, fun _ => 0, ∅, ∅⟩ [.alloc (some 0x5FB8)] _ :=
    .cons (.slab (.alloc 1 (fun _ => fresh) returns)) (.nil _)
  exact ⟨_, _, run, rfl,
    (slab_destroy_unmaps_iff (.mappedAt 0) 3 hashEntryCache_created rfl (by decide)
    noCallback noCallback run sixteenFrames).mpr noFull⟩

/-- A cache with one object on each slab. -/
def largeObjectCache : SlabCache where
  address := 0xFFFF800010000018
  objectSize := 4000
  align := 8
  objectsPerSlab := 1
  partialList := none
  fullList := none
  emptyList := none
  ctor := none
  dtor := none

/-- The page of a full slab stays mapped. -/
theorem slab_destroy_leaves_full : ∃ object last,
    slabCacheCreate 4000 0 none none (some 0xFFFF800010000018) = some (some largeObjectCache) ∧
    Run SlabCacheStep ⟨largeObjectCache, fun _ => 0, ∅, ∅⟩ [.alloc (some object)] last ∧
      last.slabs = {0x5000} ∧ ¬ DestroysAll (.mappedAt 0) last sixteenFrames := by
  have size : alignUp 4000 8 = 4000 := by decide
  have objects : objectsIn 4000 8 = 1 := by decide
  have created : slabCacheCreate 4000 0 none none (some 0xFFFF800010000018) =
      some (some largeObjectCache) := by
    simp [slabCacheCreate, sizeofPointer, size, objects, largeObjectCache]
  have noCallback : StaysInside largeObjectCache.objectSize none := fun _ _ _ _ => rfl
  have allocated : (slabAlloc 1 largeObjectCache (fun _ => 0) 0x5000 none).map
      (fun answer => (answer.1, answer.2.1.fullList)) = some (some 0x5028, some 0x5000) := by
    decide +kernel
  rw [Option.map_eq_some_iff] at allocated
  rcases allocated with ⟨⟨object, cache, cells⟩, returns, same⟩
  rcases Prod.mk.inj same with ⟨rfl, isFull⟩
  have fresh : SlabState.FreshPage ⟨largeObjectCache, fun _ => 0, ∅, ∅⟩ 0x5000 :=
    ⟨by decide, by decide, by decide, by simp⟩
  have step := @SlabStep.alloc ⟨largeObjectCache, fun _ => 0, ∅, ∅⟩ _ _ _ _ _ 1 (fun _ =>
    fresh) returns
  have start := @SlabInvariant.start _ (fun _ => 0)
    ⟨slabCacheCreate_fits 3 created rfl (by decide), noCallback, noCallback⟩ rfl rfl rfl
  rcases start.step step with ⟨_, _, _, invariant⟩
  refine ⟨_, _, created, .cons (.slab step) (.nil _), rfl, ?_⟩
  rw [invariant.destroysAll_iff]
  simp only at isFull
  simp [isFull]

end Goshkik
