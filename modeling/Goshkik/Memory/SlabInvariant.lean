import Mathlib.Tactic.SplitIfs
import Mathlib.Tactic.Tauto
import Goshkik.Lib.Run
import Goshkik.Memory.SlabShape

/-!
# The representation invariant of the slab allocator

Every call of `slab_alloc` and `slab_free`, and every write of the holders of
live objects, keeps the slabs in shape and on the right list.  A run of such
steps from a new cache therefore ends in a state in which the free slots and the
live objects share out the slots of every slab.
-/

namespace Goshkik

open Transition

/-- The allocator with the slabs that have not been reclaimed and the objects
that callers hold. -/
structure SlabState where
  cache : SlabCache
  cells : Cells
  slabs : Finset ℕ
  live : Finset ℕ

namespace SlabState

/-- The next `slab_alloc` has to set up a new slab. -/
def NeedsPage (state : SlabState) : Prop :=
  state.cache.partialList.or state.cache.emptyList = none

instance (state : SlabState) : Decidable state.NeedsPage :=
  inferInstanceAs (Decidable (_ = none))

/-- A page that the frame allocator may hand out: aligned, not the null page,
inside the address space, and not the page of a slab in use. -/
structure FreshPage (state : SlabState) (physical : ℕ) : Prop where
  aligned : 4096 ∣ physical
  nonnull : physical ≠ 0
  bounded : physical + 4096 ≤ 2 ^ 64
  unused : physical ∉ state.slabs

def slabsAfterAlloc (state : SlabState) (physical : ℕ) : Finset ℕ :=
  if state.NeedsPage then insert physical state.slabs else state.slabs

def slabsAfterFree (state : SlabState) : Release → Finset ℕ
  | .reclaimed slab => state.slabs.erase slab
  | _ => state.slabs

end SlabState

/-- A constructor or destructor that writes only to its object. -/
def StaysInside (size : ℕ) (function : Option (Cells → ℕ → Cells)) : Prop :=
  ∀ cells object address, address < object ∨ object + size ≤ address →
    callback function cells object address = cells address

/-- A cache whose geometry fits and whose callbacks write only to their object. -/
structure SlabCache.Sound (cache : SlabCache) : Prop where
  fits : cache.toSlabGeometry.Fits
  ctorInside : StaysInside cache.objectSize cache.ctor
  dtorInside : StaysInside cache.objectSize cache.dtor

theorem SlabCache.Sound.relist {cache cache' : SlabCache} (sound : cache.Sound)
    (geometry : cache'.toSlabGeometry = cache.toSlabGeometry) (ctor : cache'.ctor = cache.ctor)
    (dtor : cache'.dtor = cache.dtor) : cache'.Sound where
  fits := geometry ▸ sound.fits
  ctorInside := by simpa only [geometry, ctor] using sound.ctorInside
  dtorInside := by simpa only [geometry, dtor] using sound.dtorInside

structure SlabInvariant (state : SlabState) (partials fulls : List ℕ) (free : ℕ → List ℕ) :
    Prop where
  sound : state.cache.Sound
  lists : SlabLists state.cache state.cells partials fulls
  slabs : ∀ slab, slab ∈ state.slabs ↔ slab ∈ partials ∨ slab ∈ fulls
  shape : ∀ slab ∈ state.slabs,
    SlabShape state.cache.toSlabGeometry state.cells state.live slab (free slab)
  partialFree : ∀ slab ∈ partials, free slab ≠ []
  fullFree : ∀ slab ∈ fulls, free slab = []
  live : ∀ object ∈ state.live, ∃ slab ∈ state.slabs, object ∈ state.cache.slots slab

/-! ## Steps of the invariant -/

/-- Changing one slab leaves the shapes of the others alone. -/
theorem shapes_update {geometry : SlabGeometry} {cells cells' : Cells} {live live' : Finset ℕ}
    {slabs : Finset ℕ} {free : ℕ → List ℕ} {slab : ℕ} {newFree : List ℕ} (fits : geometry.Fits)
    (shape : ∀ other ∈ slabs, SlabShape geometry cells live other (free other))
    (updated : SlabShape geometry cells' live' slab newFree)
    (frame : ∀ address, address < slab ∨ slab + 4096 ≤ address → cells' address = cells address)
    (sameLive : ∀ object, object ∉ geometry.slots slab → (object ∈ live' ↔ object ∈ live)) :
    ∀ other ∈ slabs, SlabShape geometry cells' live' other
      (Function.update free slab newFree other) := by
  intro other mem
  by_cases same : other = slab
  · subst same
    simpa using updated
  · simp only [Function.update_of_ne same]
    have old := shape other mem
    apply old.congr_page fits
    · intro address lower upper
      apply frame
      rcases SlabShape.page_disjoint old.aligned updated.aligned same with before | behind <;> omega
    · intro slot slotMem
      apply sameLive
      intro here
      exact same (SlabShape.slot_unique fits old.aligned updated.aligned slotMem here)

/-- Moving slabs between lists leaves their shapes alone. -/
theorem shapes_relink {geometry : SlabGeometry} {cells cells' : Cells} {live : Finset ℕ}
    {slabs : Finset ℕ} {free : ℕ → List ℕ} (fits : geometry.Fits)
    (shape : ∀ other ∈ slabs, SlabShape geometry cells live other (free other))
    (frame : ∀ address, ¬ 4096 ∣ address → cells' address = cells address) :
    ∀ other ∈ slabs, SlabShape geometry cells' live other (free other) := by
  intro other mem
  have old := shape other mem
  apply old.congr_page fits
  · intro address lower upper
    apply frame
    rcases old.aligned with ⟨page, rfl⟩
    omega
  · exact fun _ _ => Iff.rfl

namespace SlabInvariant

variable {state : SlabState} {partials fulls : List ℕ} {free : ℕ → List ℕ}

theorem mem_of_partial (invariant : SlabInvariant state partials fulls free) {slab : ℕ}
    (mem : slab ∈ partials) : slab ∈ state.slabs := (invariant.slabs slab).mpr (Or.inl mem)

theorem mem_of_full (invariant : SlabInvariant state partials fulls free) {slab : ℕ}
    (mem : slab ∈ fulls) : slab ∈ state.slabs := (invariant.slabs slab).mpr (Or.inr mem)

theorem partialNonnull (invariant : SlabInvariant state partials fulls free) :
    state.cache.partialList ≠ some 0 := by
  intro same
  have zero := List.mem_of_head? (invariant.lists.partialLinked.eq_head?.symm.trans same)
  exact (invariant.shape 0 (invariant.mem_of_partial zero)).nonnull rfl

theorem fullNonnull (invariant : SlabInvariant state partials fulls free) :
    state.cache.fullList ≠ some 0 := by
  intro same
  have zero := List.mem_of_head? (invariant.lists.fullLinked.eq_head?.symm.trans same)
  exact (invariant.shape 0 (invariant.mem_of_full zero)).nonnull rfl

/-- Writes to live objects and outside the slabs keep the invariant. -/
theorem write (invariant : SlabInvariant state partials fulls free) {cells' : Cells}
    (frame : ∀ slab ∈ state.slabs, ∀ address, slab ≤ address → address < slab + 4096 →
      (∀ object ∈ state.live, address < object ∨ object + state.cache.objectSize ≤ address) →
        cells' address = state.cells address) :
    SlabInvariant { state with cells := cells' } partials fulls free := by
  have fits := invariant.sound.fits
  have header : ∀ slab ∈ state.slabs, ∀ address, slab ≤ address → address < slab + 40 →
      cells' address = state.cells address := by
    intro slab mem address lower upper
    apply frame slab mem address lower (by omega)
    intro object isLive
    rcases invariant.live object isLive with ⟨home, homeMem, inside⟩
    have bounds := fits.slot_bounds inside
    by_cases same : slab = home
    · omega
    · have := SlabShape.page_disjoint (invariant.shape slab mem).aligned
        (invariant.shape home homeMem).aligned same
      omega
  refine ⟨invariant.sound, ⟨invariant.lists.noEmpty, ?_, ?_, invariant.lists.disjoint⟩,
    invariant.slabs, ?_, invariant.partialFree, invariant.fullFree, invariant.live⟩
  · apply linkedSlabs_congr invariant.lists.partialLinked
    intro slab mem
    exact header slab (invariant.mem_of_partial mem) slab (by omega) (by omega)
  · apply linkedSlabs_congr invariant.lists.fullLinked
    intro slab mem
    exact header slab (invariant.mem_of_full mem) slab (by omega) (by omega)
  · intro slab mem
    have shape := invariant.shape slab mem
    apply shape.congr
    · intro address lower upper
      exact header slab mem address (by omega) upper
    · intro slot slotMem
      have isFree := (shape.slots slot).mp slotMem
      have bounds := fits.slot_bounds isFree.1
      have := fits.sizePositive
      apply frame slab mem slot (by omega) (by omega)
      intro object isLive
      rcases invariant.live object isLive with ⟨home, homeMem, inside⟩
      have objectBounds := fits.slot_bounds inside
      by_cases same : slab = home
      · subst same
        have different : slot ≠ object := by
          rintro rfl
          exact isFree.2 isLive
        have := SlabGeometry.slots_disjoint isFree.1 inside different
        omega
      · have := SlabShape.page_disjoint shape.aligned (invariant.shape home homeMem).aligned same
        omega
    · exact fun _ _ => Iff.rfl

/-- A constructor or destructor run on a live object keeps the invariant. -/
theorem call (invariant : SlabInvariant state partials fulls free)
    {function : Option (Cells → ℕ → Cells)} (inside : StaysInside state.cache.objectSize function)
    {object : ℕ} (isLive : object ∈ state.live) :
    SlabInvariant { state with cells := callback function state.cells object } partials fulls
      free := by
  apply invariant.write
  intro slab mem address lower upper outside
  exact inside state.cells object address (outside object isLive)

/-- The link cell of a slab is no cell of the header that pop and push write. -/
theorem header_ne (invariant : SlabInvariant state partials fulls free) {slab other address : ℕ}
    (mem : slab ∈ state.slabs) (otherMem : other ∈ state.slabs) (inside : slab < address)
    (below : address < slab + 4096) : other ≠ address := by
  rcases (invariant.shape slab mem).aligned with ⟨page, rfl⟩
  rcases (invariant.shape other otherMem).aligned with ⟨otherPage, rfl⟩
  omega

/-- The links between slabs survive writes inside one page. -/
theorem links_congr (invariant : SlabInvariant state partials fulls free) {slab : ℕ}
    (mem : slab ∈ state.slabs) {cells' : Cells}
    (frame : ∀ address, address ≤ slab ∨ slab + 4096 ≤ address →
      cells' address = state.cells address) {other : ℕ} (otherMem : other ∈ state.slabs) :
    cells' other = state.cells other := by
  apply frame
  by_contra inside
  exact invariant.header_ne mem otherMem (by omega) (by omega) rfl

/-- The allocator hands out the first free slot of its first partial slab, and
retires the slab when that was its last one. -/
theorem take {slab object : ℕ} {rest slabFree : List ℕ}
    (invariant : SlabInvariant state (slab :: rest) fulls free)
    (freeEq : free slab = object :: slabFree) :
    ∃ popped cache cells partials' fulls',
      slabPopObject state.cells slab = (some object, popped) ∧
      (∀ fuel, 0 < fuel → retireSlab fuel state.cache popped slab = some (cache, cells)) ∧
      SlabInvariant ⟨cache, cells, state.slabs, insert object state.live⟩ partials' fulls'
        (Function.update free slab slabFree) ∧
      cache.toSlabGeometry = state.cache.toSlabGeometry ∧ cache.ctor = state.cache.ctor := by
  have fits := invariant.sound.fits
  have mem : slab ∈ state.slabs := invariant.mem_of_partial (by simp)
  have shape := invariant.shape slab mem
  simp only [freeEq] at shape
  rcases shape.pop fits with ⟨popped, popEq, poppedShape, poppedFrame⟩
  have inside := ((shape.slots object).mp (by simp)).1
  have frame : ∀ address, address ≤ slab ∨ slab + 4096 ≤ address →
      popped address = state.cells address := by
    intro address outside
    apply poppedFrame <;> simp only [slabFreeListField, slabFreeCountField] <;> omega
  have links : ∀ other ∈ state.slabs, popped other = state.cells other :=
    fun other otherMem => invariant.links_congr mem frame otherMem
  have shapes := shapes_update fits invariant.shape poppedShape
    (fun address outside => frame address (by omega)) (by
      intro other outside
      simp only [Finset.mem_insert, or_iff_right_iff_imp]
      rintro rfl
      exact absurd inside outside)
  have live : ∀ other ∈ insert object state.live,
      ∃ home ∈ state.slabs, other ∈ state.cache.slots home := by
    intro other otherMem
    rcases Finset.mem_insert.mp otherMem with rfl | otherMem
    · exact ⟨slab, mem, inside⟩
    · exact invariant.live other otherMem
  have notFull : slab ∉ fulls := invariant.lists.disjoint slab (by simp)
  have partialLinked := linkedSlabs_congr invariant.lists.partialLinked
    (fun other otherMem => links other (invariant.mem_of_partial otherMem))
  have fullLinked := linkedSlabs_congr invariant.lists.fullLinked
    (fun other otherMem => links other (invariant.mem_of_full otherMem))
  have unique := List.nodup_cons.mp partialLinked.nodup
  have fullFree : ∀ other ∈ fulls, Function.update free slab slabFree other = [] := by
    intro other otherMem
    have different : other ≠ slab := by
      rintro rfl
      exact notFull otherMem
    simpa [different] using invariant.fullFree other otherMem
  have restFree : ∀ other ∈ rest, Function.update free slab slabFree other ≠ [] := by
    intro other otherMem
    have different : other ≠ slab := by
      rintro rfl
      exact unique.1 otherMem
    simpa [different] using invariant.partialFree other (by simp [otherMem])
  cases slabFree with
  | cons next slabFree =>
      refine ⟨popped, state.cache, popped, slab :: rest, fulls, popEq, ?_, ?_, rfl, rfl⟩
      · intro fuel _
        simp [retireSlab, poppedShape.count]
      · refine ⟨invariant.sound, ⟨invariant.lists.noEmpty, partialLinked, fullLinked,
          invariant.lists.disjoint⟩, invariant.slabs, shapes, ?_, fullFree, live⟩
        intro other otherMem
        rcases List.mem_cons.mp otherMem with rfl | otherMem
        · simp
        · exact restFree other otherMem
  | nil =>
      rcases @moveSlab_spec popped _ _ [] rest fulls slab partialLinked fullLinked
          invariant.lists.disjoint invariant.fullNonnull with
        ⟨head, unlinked, found, restLinked, movedLinked, moveFrame⟩
      refine ⟨popped, { state.cache with partialList := head, fullList := some slab },
        unlinked.store (slabNextField slab) (Cells.pointerWord state.cache.fullList),
        rest, slab :: fulls, popEq, ?_, ?_, rfl, rfl⟩
      · intro fuel enough
        simp [retireSlab, poppedShape.count, found fuel enough]
      · refine ⟨invariant.sound.relist rfl rfl rfl,
          ⟨invariant.lists.noEmpty, restLinked, movedLinked,
          ?_⟩, ?_, ?_, restFree, ?_, live⟩
        · intro other otherMem
          simp only [List.mem_cons, not_or]
          refine ⟨?_, invariant.lists.disjoint other (by simp [otherMem])⟩
          rintro rfl
          exact unique.1 otherMem
        · intro other
          simp only [invariant.slabs, List.mem_cons]
          tauto
        · apply shapes_relink fits shapes
          intro address notPage
          apply moveFrame
          rintro here
          simp only [List.nil_append, List.mem_singleton] at here
          exact notPage (here ▸ shape.aligned)
        · intro other otherMem
          rcases List.mem_cons.mp otherMem with rfl | otherMem
          · simp
          · exact fullFree other otherMem

/-- The slab that `slab_alloc` takes an object from is the first partial one. -/
theorem slabForAlloc_spec (invariant : SlabInvariant state partials fulls free) {physical : ℕ}
    (fresh : state.NeedsPage → state.FreshPage physical) :
    ∃ slab cache cells rest free', slabForAlloc state.cache state.cells physical =
        (some slab, cache, cells) ∧
      SlabInvariant ⟨cache, cells, state.slabsAfterAlloc physical, state.live⟩ (slab :: rest) fulls
        free' ∧
      cache.toSlabGeometry = state.cache.toSlabGeometry ∧ cache.ctor = state.cache.ctor := by
  have fits := invariant.sound.fits
  cases partials with
  | cons slab rest =>
      have first : state.cache.partialList = some slab :=
        (Linked.cons_iff.mp invariant.lists.partialLinked).1
      have noNeed : ¬ state.NeedsPage := by simp [SlabState.NeedsPage, first]
      refine ⟨slab, state.cache, state.cells, rest, free, ?_, ?_, rfl, rfl⟩
      · simp [slabForAlloc, first]
      · simpa [SlabState.slabsAfterAlloc, noNeed] using invariant
  | nil =>
      have noPartial : state.cache.partialList = none :=
        Linked.nil_iff.mp invariant.lists.partialLinked
      have need : state.NeedsPage := by
        simp [SlabState.NeedsPage, noPartial, invariant.lists.noEmpty]
      have page := fresh need
      have other : ∀ slab ∈ state.slabs, slab + 4096 ≤ physical ∨ physical + 4096 ≤ slab := by
        intro slab mem
        apply SlabShape.page_disjoint (invariant.shape slab mem).aligned page.aligned
        rintro rfl
        exact page.unused mem
      have dead : ∀ slot ∈ state.cache.slots physical, slot ∉ state.live := by
        intro slot mem isLive
        rcases invariant.live slot isLive with ⟨home, homeMem, inside⟩
        have same := SlabShape.slot_unique fits page.aligned (invariant.shape home homeMem).aligned
          mem inside
        exact page.unused (same ▸ homeMem)
      rcases @slabInit_spec state.cache state.cells physical state.live fits page.aligned
        page.nonnull
        page.bounded dead with ⟨cells, initEq, shape, frame⟩
      have restored : ∀ slab ∈ state.slabs, cells slab = state.cells slab := by
        intro slab mem
        apply frame
        have := other slab mem
        omega
      have linkFrame : ∀ address ≠ physical,
          cells.store (slabNextField physical) (Cells.pointerWord none) address = cells address :=
        fun address different => Cells.store_of_ne different
      have fullLinked := linkedSlabs_congr invariant.lists.fullLinked
        (fun slab mem => restored slab (invariant.mem_of_full mem))
      have slabs : ∀ slab, slab ∈ state.slabsAfterAlloc physical ↔
          slab ∈ [physical] ∨ slab ∈ fulls := by
        intro slab
        simp [SlabState.slabsAfterAlloc, need, invariant.slabs]
      have shapes : ∀ slab ∈ state.slabsAfterAlloc physical, SlabShape state.cache.toSlabGeometry
          cells state.live slab
            (Function.update free physical (state.cache.slots physical).reverse slab) := by
        intro slab mem
        by_cases same : slab = physical
        · subst same
          simpa using shape
        · have old : slab ∈ state.slabs := by
            simpa [SlabState.slabsAfterAlloc, need, same] using mem
          simp only [Function.update_of_ne same]
          apply (invariant.shape slab old).congr_page fits
          · intro address lower upper
            apply frame
            have := other slab old
            omega
          · exact fun _ _ => Iff.rfl
      refine ⟨physical, { state.cache with partialList := some physical },
        cells.store (slabNextField physical) (Cells.pointerWord none), [],
        Function.update free physical (state.cache.slots physical).reverse, ?_, ?_, rfl, rfl⟩
      · simp [slabForAlloc, noPartial, invariant.lists.noEmpty, initEq]
      · refine ⟨invariant.sound.relist rfl rfl rfl, ⟨invariant.lists.noEmpty, ?_, ?_, ?_⟩, slabs,
          ?_,
          ?_, ?_, ?_⟩
        · have empty : Linked (slabNext cells) none [] := by simp
          exact linkedSlabs_push empty (by simp) (by simp)
        · apply linkedSlabs_congr fullLinked
          intro slab mem
          apply linkFrame
          rintro rfl
          exact page.unused (invariant.mem_of_full mem)
        · intro slab mem full
          simp only [List.mem_singleton] at mem
          subst mem
          exact page.unused (invariant.mem_of_full full)
        · apply shapes_relink fits shapes
          intro address notPage
          apply linkFrame
          rintro rfl
          exact notPage page.aligned
        · intro slab mem
          simp only [List.mem_singleton] at mem
          subst mem
          simpa [SlabGeometry.slots] using Nat.pos_iff_ne_zero.mp fits.nonempty
        · intro slab mem
          have different : slab ≠ physical := by
            rintro rfl
            exact page.unused (invariant.mem_of_full mem)
          simpa [different] using invariant.fullFree slab mem
        · intro object isLive
          rcases invariant.live object isLive with ⟨home, homeMem, inside⟩
          exact ⟨home, by simp [SlabState.slabsAfterAlloc, need, homeMem], inside⟩

/-- One call of `slab_alloc` hands out an object that was not live. -/
theorem alloc (invariant : SlabInvariant state partials fulls free) {physical : ℕ}
    (fresh : state.NeedsPage → state.FreshPage physical) (kmalloc : Option ℕ) :
    ∃ object cache cells partials' fulls' free', object ∉ state.live ∧
      (∀ fuel, 0 < fuel → slabAlloc fuel state.cache state.cells physical kmalloc =
        some (some object, cache, cells)) ∧
      SlabInvariant ⟨cache, cells, state.slabsAfterAlloc physical, insert object state.live⟩
        partials' fulls' free' := by
  rcases invariant.slabForAlloc_spec fresh with
    ⟨slab, cache, cells, rest, free', chosen, ready, geometry, ctor⟩
  cases freeEq : free' slab with
  | nil => exact absurd freeEq (ready.partialFree slab (by simp))
  | cons object slabFree =>
      have mem : slab ∈ state.slabsAfterAlloc physical := ready.mem_of_partial (by simp)
      have dead := ((ready.shape slab mem).slots object).mp (by simp [freeEq])
      rcases ready.take freeEq with
        ⟨popped, cache', cells', partials', fulls', popEq, retired, taken, geometry', ctor'⟩
      refine ⟨object, cache', callback cache'.ctor cells' object, partials', fulls', _, dead.2, ?_,
        taken.call taken.sound.ctorInside (by simp)⟩
      intro fuel enough
      simp only [slabAlloc, chosen, popEq, retired fuel enough, Option.bind_eq_bind,
        Option.bind_some]
      rfl

/-- After `slab_push_object` the shapes hold for one live object less, and the
lists are untouched. -/
theorem pushed (invariant : SlabInvariant state partials fulls free) {slab object : ℕ}
    (mem : slab ∈ state.slabs) (inside : object ∈ state.cache.slots slab)
    (isLive : object ∈ state.live) :
    (∀ other ∈ state.slabs, SlabShape state.cache.toSlabGeometry
      (slabPushObject state.cells slab object) (state.live.erase object) other
        (Function.update free slab (object :: free slab) other)) ∧
      SlabLists state.cache (slabPushObject state.cells slab object) partials fulls := by
  have fits := invariant.sound.fits
  have bounds := fits.slot_bounds inside
  have sizePositive := fits.sizePositive
  rcases (invariant.shape slab mem).push fits inside isLive with ⟨shape, pushFrame⟩
  have frame : ∀ address, address ≤ slab ∨ slab + 4096 ≤ address →
      slabPushObject state.cells slab object address = state.cells address := by
    intro address outside
    refine pushFrame address (by omega) ?_ ?_ <;>
      simp only [slabFreeListField, slabFreeCountField] <;> omega
  have links : ∀ other ∈ state.slabs,
      slabPushObject state.cells slab object other = state.cells other :=
    fun other otherMem => invariant.links_congr mem frame otherMem
  refine ⟨?_, invariant.lists.noEmpty, ?_, ?_, invariant.lists.disjoint⟩
  · apply shapes_update fits invariant.shape shape
    · exact fun address outside => frame address (by omega)
    · intro other outside
      simp only [Finset.mem_erase, and_iff_right_iff_imp]
      rintro _ rfl
      exact outside inside
  · exact linkedSlabs_congr invariant.lists.partialLinked
      (fun other otherMem => links other (invariant.mem_of_partial otherMem))
  · exact linkedSlabs_congr invariant.lists.fullLinked
      (fun other otherMem => links other (invariant.mem_of_full otherMem))

/-- A slab whose free list is as long as its number of slots has no live object. -/
theorem none_live {geometry : SlabGeometry} {cells : Cells} {live : Finset ℕ} {slab : ℕ}
    {slabFree : List ℕ} (shape : SlabShape geometry cells live slab slabFree)
    (allFree : slabFree.length = geometry.objectsPerSlab) :
    ∀ slot ∈ geometry.slots slab, slot ∉ live := by
  have sub : slabFree ⊆ geometry.slots slab := fun slot mem => ((shape.slots slot).mp mem).1
  have perm : slabFree.Perm (geometry.slots slab) := by
    apply (shape.chain.nodup.subperm sub).perm_of_length_le
    simp [SlabGeometry.slots, allFree]
  intro slot mem
  exact ((shape.slots slot).mp (perm.mem_iff.mpr mem)).2

section Freed

variable {slab object : ℕ} {pushed : Cells}

/-- A slab that was full goes back to the partial ones. -/
theorem refill (invariant : SlabInvariant state partials fulls free) (isFull : slab ∈ fulls)
    (shapes : ∀ other ∈ state.slabs, SlabShape state.cache.toSlabGeometry pushed
      (state.live.erase object) other (Function.update free slab (object :: free slab) other))
    (lists : SlabLists state.cache pushed partials fulls) :
    ∃ cache cells fulls', (∀ fuel, fulls.length < fuel →
        refillSlab fuel state.cache pushed slab = some (.kept, cache, cells)) ∧
      SlabInvariant ⟨cache, cells, state.slabs, state.live.erase object⟩ (slab :: partials) fulls'
        (Function.update free slab (object :: free slab)) := by
  rcases List.append_of_mem isFull with ⟨before, behind, split⟩
  have linked := lists.fullLinked
  simp only [split] at linked
  have unique := linked.nodup
  have fullsEq : ∀ other, other ∈ fulls ↔ other = slab ∨ other ∈ before ++ behind := by
    intro other
    simp only [split, List.mem_append, List.mem_cons]
    tauto
  have notRest : slab ∉ before ++ behind := by
    simp only [List.nodup_append, List.nodup_cons, List.mem_cons] at unique
    intro here
    rcases List.mem_append.mp here with here | here
    · exact unique.2.2 slab here slab (Or.inl rfl) rfl
    · exact unique.2.1.1 here
  rcases moveSlab_spec linked lists.partialLinked
      (fun node nodeMem nodePartial => lists.disjoint node nodePartial (split ▸ nodeMem))
      invariant.partialNonnull with ⟨head, unlinked, found, restLinked, movedLinked, moveFrame⟩
  refine ⟨{ state.cache with fullList := head, partialList := some slab },
    unlinked.store (slabNextField slab) (Cells.pointerWord state.cache.partialList),
    before ++ behind, ?_, invariant.sound.relist rfl rfl rfl,
    ⟨lists.noEmpty, movedLinked, restLinked, ?_⟩, ?_,
    shapes_relink invariant.sound.fits shapes ?_, ?_, ?_, ?_⟩
  · intro fuel enough
    have found := found fuel (by simp only [split, List.length_append] at enough; omega)
    simp only [refillSlab, found, Option.bind_eq_bind, Option.bind_some]
    rfl
  · intro other otherMem
    rcases List.mem_cons.mp otherMem with rfl | otherMem
    · exact notRest
    · exact fun here => lists.disjoint other otherMem ((fullsEq other).mpr (Or.inr here))
  · intro other
    simp only [invariant.slabs, fullsEq, List.mem_cons]
    tauto
  · intro address notPage
    apply moveFrame
    intro here
    have full : address ∈ fulls := by
      simp only [List.mem_append, List.mem_singleton] at here
      rcases here with here | rfl
      · exact (fullsEq address).mpr (Or.inr (by simp [here]))
      · exact isFull
    exact notPage (invariant.shape address (invariant.mem_of_full full)).aligned
  · intro other otherMem
    by_cases same : other = slab
    · simp [same]
    · simpa [same] using invariant.partialFree other
        ((List.mem_cons.mp otherMem).resolve_left same)
  · intro other otherMem
    have different : other ≠ slab := by
      rintro rfl
      exact notRest otherMem
    simpa [different] using invariant.fullFree other ((fullsEq other).mpr (Or.inr otherMem))
  · exact fun other otherMem => invariant.live other (Finset.mem_erase.mp otherMem).2

/-- A slab without live objects is taken off its list. -/
theorem reclaim (invariant : SlabInvariant state partials fulls free) (isPartial : slab ∈ partials)
    (shapes : ∀ other ∈ state.slabs, SlabShape state.cache.toSlabGeometry pushed
      (state.live.erase object) other (Function.update free slab (object :: free slab) other))
    (lists : SlabLists state.cache pushed partials fulls)
    (allFree : (free slab).length + 1 = state.cache.objectsPerSlab) :
    ∃ cache cells partials', (∀ fuel, partials.length < fuel →
        reclaimSlab fuel state.cache pushed slab = some (.reclaimed slab, cache, cells)) ∧
      SlabInvariant ⟨cache, cells, state.slabs.erase slab, state.live.erase object⟩ partials' fulls
        (Function.update free slab (object :: free slab)) := by
  rcases List.append_of_mem isPartial with ⟨before, behind, split⟩
  have linked := lists.partialLinked
  simp only [split] at linked
  have unique := linked.nodup
  have partialsEq : ∀ other, other ∈ partials ↔ other = slab ∨ other ∈ before ++ behind := by
    intro other
    simp only [split, List.mem_append, List.mem_cons]
    tauto
  have notRest : slab ∉ before ++ behind := by
    simp only [List.nodup_append, List.nodup_cons, List.mem_cons] at unique
    intro here
    rcases List.mem_append.mp here with here | here
    · exact unique.2.2 slab here slab (Or.inl rfl) rfl
    · exact unique.2.1.1 here
  have notFull : slab ∉ fulls := lists.disjoint slab isPartial
  rcases unlinkSlab_spec linked with ⟨head, unlinked, found, restLinked, frame⟩
  have onlyPartials : ∀ address, address ∉ partials → unlinked address = pushed address := by
    intro address outside
    apply frame
    intro here
    exact outside ((partialsEq address).mpr (Or.inr (by simp [here])))
  refine ⟨{ state.cache with partialList := head }, unlinked, before ++ behind, ?_,
    invariant.sound.relist rfl rfl rfl, ⟨lists.noEmpty, restLinked, ?_, ?_⟩, ?_, ?_, ?_, ?_, ?_⟩
  · intro fuel enough
    have found := found fuel (by simp only [split, List.length_append] at enough; omega)
    simp only [reclaimSlab, found, Option.bind_eq_bind, Option.bind_some]
    rfl
  · apply linkedSlabs_congr lists.fullLinked
    intro other otherMem
    apply onlyPartials
    exact fun here => lists.disjoint other here otherMem
  · exact fun other otherMem => lists.disjoint other ((partialsEq other).mpr (Or.inr otherMem))
  · intro other
    simp only [Finset.mem_erase, invariant.slabs, partialsEq]
    constructor
    · rintro ⟨different, here⟩
      tauto
    · rintro (here | here)
      · exact ⟨fun same => notRest (same ▸ here), Or.inl (Or.inr here)⟩
      · exact ⟨fun same => notFull (same ▸ here), Or.inr here⟩
  · intro other otherMem
    apply shapes_relink invariant.sound.fits shapes ?_ other (Finset.mem_erase.mp otherMem).2
    intro address notPage
    apply onlyPartials
    exact fun here => notPage (invariant.shape address (invariant.mem_of_partial here)).aligned
  · intro other otherMem
    have different : other ≠ slab := by
      rintro rfl
      exact notRest otherMem
    simpa [different] using invariant.partialFree other ((partialsEq other).mpr (Or.inr otherMem))
  · intro other otherMem
    have different : other ≠ slab := by
      rintro rfl
      exact notFull otherMem
    simpa [different] using invariant.fullFree other otherMem
  · intro other otherMem
    rcases invariant.live other (Finset.mem_erase.mp otherMem).2 with ⟨home, homeMem, inside⟩
    refine ⟨home, Finset.mem_erase.mpr ⟨?_, homeMem⟩, inside⟩
    rintro rfl
    have shape := shapes home homeMem
    simp only [Function.update_self] at shape
    exact none_live shape (by simpa using allFree) other inside otherMem

end Freed

/-- `slab_free` pushes the object and then looks at the number of free slots there were. -/
theorem slabFree_eq (invariant : SlabInvariant state partials fulls free) {slab object : ℕ}
    (mem : slab ∈ state.slabs) (inside : object ∈ state.cache.slots slab)
    (isLive : object ∈ state.live) :
    ∃ pushed, (∀ fuel, slabFree fuel state.cache state.cells object =
        if (free slab).length = 0 then refillSlab fuel state.cache pushed slab
        else if (free slab).length + 1 = state.cache.objectsPerSlab then
          reclaimSlab fuel state.cache pushed slab
        else some (.kept, state.cache, pushed)) ∧
      (∀ other ∈ state.slabs, SlabShape state.cache.toSlabGeometry pushed (state.live.erase object)
        other (Function.update free slab (object :: free slab) other)) ∧
      SlabLists state.cache pushed partials fulls := by
  have fits := invariant.sound.fits
  have shape := invariant.shape slab mem
  have nonnull : object ≠ 0 := by
    have := fits.slot_bounds inside
    omega
  have home := fits.slabFromObject_slot shape.aligned shape.bounded inside
  have destroyed := invariant.call invariant.sound.dtorInside isLive
  generalize destroyedEq : callback state.cache.dtor state.cells object = cells at destroyed
  have destroyedShape := destroyed.shape slab mem
  rcases destroyed.pushed mem inside isLive with ⟨shapes, lists⟩
  simp only at shapes lists destroyedShape
  have pushedShape := shapes slab mem
  simp only [Function.update_self] at pushedShape
  generalize pushedEq : slabPushObject cells slab object = pushed at *
  refine ⟨pushed, ?_, shapes, lists⟩
  intro fuel
  simp only [slabFree, nonnull, if_false, home, shape.magic, ne_eq, not_true_eq_false, destroyedEq,
    pushedEq, destroyedShape.count, pushedShape.count, pushedShape.total, List.length_cons]

/-- One call of `slab_free` on a live object takes it back. -/
theorem release (invariant : SlabInvariant state partials fulls free) {object : ℕ}
    (isLive : object ∈ state.live) :
    ∃ release cache cells partials' fulls' free',
      (∀ fuel, partials.length + fulls.length < fuel →
        slabFree fuel state.cache state.cells object = some (release, cache, cells)) ∧
      SlabInvariant ⟨cache, cells, state.slabsAfterFree release, state.live.erase object⟩
        partials' fulls' free' := by
  rcases invariant.live object isLive with ⟨slab, mem, inside⟩
  rcases invariant.slabFree_eq mem inside isLive with ⟨pushed, opened, shapes, lists⟩
  have listed := (invariant.slabs slab).mp mem
  by_cases wasFull : free slab = []
  · have isFull : slab ∈ fulls :=
      listed.resolve_left (fun here => invariant.partialFree slab here wasFull)
    rcases invariant.refill isFull shapes lists with ⟨cache, cells, fulls', refilled, kept⟩
    refine ⟨.kept, cache, cells, _, fulls', _, ?_, kept⟩
    intro fuel enough
    simpa [opened, wasFull] using refilled fuel (by omega)
  · have isPartial : slab ∈ partials :=
      listed.resolve_right (fun here => wasFull (invariant.fullFree slab here))
    by_cases allFree : (free slab).length + 1 = state.cache.objectsPerSlab
    · rcases invariant.reclaim isPartial shapes lists allFree with
        ⟨cache, cells, partials', reclaimed, kept⟩
      refine ⟨.reclaimed slab, cache, cells, partials', fulls, _, ?_, kept⟩
      intro fuel enough
      simpa [opened, wasFull, allFree] using reclaimed fuel (by omega)
    · refine ⟨.kept, state.cache, pushed, partials, fulls, _, ?_, invariant.sound, lists,
        invariant.slabs, shapes, ?_, ?_, ?_⟩
      · intro fuel _
        simp [opened, wasFull, allFree]
      · intro other otherMem
        by_cases same : other = slab
        · simp [same]
        · simpa [same] using invariant.partialFree other otherMem
      · intro other otherMem
        have different : other ≠ slab := by
          rintro rfl
          exact invariant.lists.disjoint other isPartial otherMem
        simpa [different] using invariant.fullFree other otherMem
      · exact fun other otherMem => invariant.live other (Finset.mem_erase.mp otherMem).2

end SlabInvariant

/-! ## Runs -/

section Fuel

variable {fuel more : ℕ} {cache : SlabCache} {cells : Cells} {slab : ℕ}

theorem retireSlab_mono {answer : SlabCache × Cells}
    (returns : retireSlab fuel cache cells slab = some answer) (enough : fuel ≤ more) :
    retireSlab more cache cells slab = some answer := by
  simp only [retireSlab] at returns ⊢
  split_ifs at returns ⊢
  · simp only [Option.bind_eq_bind, Option.bind_eq_some_iff] at returns ⊢
    rcases returns with ⟨unlinked, unlinkEq, answerEq⟩
    exact ⟨unlinked, unlinkSlab_mono unlinkEq enough, answerEq⟩
  · exact returns

theorem refillSlab_mono {answer : Release × SlabCache × Cells}
    (returns : refillSlab fuel cache cells slab = some answer) (enough : fuel ≤ more) :
    refillSlab more cache cells slab = some answer := by
  simp only [refillSlab, Option.bind_eq_bind, Option.bind_eq_some_iff] at returns ⊢
  rcases returns with ⟨unlinked, unlinkEq, answerEq⟩
  exact ⟨unlinked, unlinkSlab_mono unlinkEq enough, answerEq⟩

theorem reclaimSlab_mono {answer : Release × SlabCache × Cells}
    (returns : reclaimSlab fuel cache cells slab = some answer) (enough : fuel ≤ more) :
    reclaimSlab more cache cells slab = some answer := by
  simp only [reclaimSlab, Option.bind_eq_bind, Option.bind_eq_some_iff] at returns ⊢
  rcases returns with ⟨unlinked, unlinkEq, answerEq⟩
  exact ⟨unlinked, unlinkSlab_mono unlinkEq enough, answerEq⟩

theorem slabAlloc_mono {physical : ℕ} {kmalloc : Option ℕ} {answer : Option ℕ × SlabCache × Cells}
    (returns : slabAlloc fuel cache cells physical kmalloc = some answer) (enough : fuel ≤ more) :
    slabAlloc more cache cells physical kmalloc = some answer := by
  simp only [slabAlloc] at returns ⊢
  split at returns
  · exact returns
  · split at returns
    · exact returns
    · simp only [Option.bind_eq_bind, Option.bind_eq_some_iff] at returns ⊢
      rcases returns with ⟨retired, retireEq, answerEq⟩
      exact ⟨retired, retireSlab_mono retireEq enough, answerEq⟩

theorem slabFree_mono {object : ℕ} {answer : Release × SlabCache × Cells}
    (returns : slabFree fuel cache cells object = some answer) (enough : fuel ≤ more) :
    slabFree more cache cells object = some answer := by
  simp only [slabFree] at returns ⊢
  split_ifs at returns ⊢
  · exact returns
  · exact returns
  · exact refillSlab_mono returns enough
  · exact reclaimSlab_mono returns enough
  · exact returns

end Fuel

inductive SlabCall where
  | alloc (result : Option ℕ)
  | free (object : ℕ)
  | write

/-- The calls of the allocator by callers that free only live objects, and the
writes of everyone else to live objects and to memory outside the slabs. -/
inductive SlabStep : SlabState → SlabCall → SlabState → Prop where
  | alloc {state : SlabState} {physical : ℕ} {kmalloc result : Option ℕ} {cache : SlabCache}
      {cells : Cells} (fuel : ℕ) (fresh : state.NeedsPage → state.FreshPage physical)
      (returns : slabAlloc fuel state.cache state.cells physical kmalloc =
        some (result, cache, cells)) :
      SlabStep state (.alloc result)
        ⟨cache, cells, state.slabsAfterAlloc physical, result.elim state.live (insert · state.live)⟩
  | free {state : SlabState} {object : ℕ} {release : Release} {cache : SlabCache} {cells : Cells}
      (fuel : ℕ) (isLive : object ∈ state.live)
      (returns : slabFree fuel state.cache state.cells object = some (release, cache, cells)) :
      SlabStep state (.free object)
        ⟨cache, cells, state.slabsAfterFree release, state.live.erase object⟩
  | write {state : SlabState} {cells : Cells}
      (frame : ∀ slab ∈ state.slabs, ∀ address, slab ≤ address → address < slab + 4096 →
        (∀ object ∈ state.live, address < object ∨ object + state.cache.objectSize ≤ address) →
          cells address = state.cells address) :
      SlabStep state .write { state with cells := cells }

/-- What holds of the allocator: each slab is on one of the two lists, and on the
full one exactly when it has no free slot; its free list and its live objects
share out its slots; live objects are apart, aligned, and inside the page behind
the header.  Every further call returns. -/
structure SlabState.Guarantee (state : SlabState) (partials fulls : List ℕ) : Prop where
  noEmpty : state.cache.emptyList = none
  partialLinked : Linked (slabNext state.cells) state.cache.partialList partials
  fullLinked : Linked (slabNext state.cells) state.cache.fullList fulls
  listed : ∀ slab, slab ∈ partials ∨ slab ∈ fulls ↔ slab ∈ state.slabs
  exactlyOne : ∀ slab ∈ state.slabs, slab ∈ partials ↔ slab ∉ fulls
  fullIff : ∀ slab ∈ state.slabs, slab ∈ fulls ↔ state.cells (slabFreeCountField slab) = 0
  freeList : ∀ slab ∈ state.slabs, ∃ free : List ℕ,
    Linked state.cells.pointerAt (slabFreeList state.cells slab) free ∧
      state.cells (slabFreeCountField slab) = free.length ∧
      ∀ slot, slot ∈ free ↔ slot ∈ state.cache.slots slab ∧ slot ∉ state.live
  total : ∀ slab ∈ state.slabs,
    (state.cache.slots slab).length = state.cells (slabTotalObjectsField slab)
  placed : ∀ object ∈ state.live, ∃ slab ∈ state.slabs, object ∈ state.cache.slots slab ∧
    state.cache.align ∣ object ∧ slab + sizeofSlab ≤ object ∧
      object + state.cache.objectSize ≤ slab + pageSizeSlab
  apart : ∀ object ∈ state.live, ∀ other ∈ state.live, object ≠ other →
    object + state.cache.objectSize ≤ other ∨ other + state.cache.objectSize ≤ object
  allocReturns : ∀ physical kmalloc, (state.NeedsPage → state.FreshPage physical) →
    ∃ fuel object cache cells, slabAlloc fuel state.cache state.cells physical kmalloc =
      some (some object, cache, cells)
  freeReturns : ∀ object ∈ state.live, ∃ fuel answer,
    slabFree fuel state.cache state.cells object = some answer

namespace SlabInvariant

variable {state after : SlabState} {partials fulls : List ℕ} {free : ℕ → List ℕ}

theorem step (invariant : SlabInvariant state partials fulls free) {call : SlabCall}
    (taken : SlabStep state call after) :
    ∃ partials' fulls' free', SlabInvariant after partials' fulls' free' := by
  cases taken with
  | @alloc physical kmalloc result cache cells fuel fresh returns =>
      rcases invariant.alloc fresh kmalloc with
        ⟨object, cache', cells', partials', fulls', free', _, allocates, kept⟩
      have more := slabAlloc_mono returns (Nat.le_succ fuel)
      simp only [allocates (fuel + 1) (by omega), Option.some.injEq, Prod.mk.injEq] at more
      rcases more with ⟨rfl, rfl, rfl⟩
      exact ⟨partials', fulls', free', kept⟩
  | @free object release cache cells fuel isLive returns =>
      rcases invariant.release isLive with
        ⟨release', cache', cells', partials', fulls', free', frees, kept⟩
      have more := slabFree_mono returns
        (Nat.le_add_right fuel (partials.length + fulls.length + 1))
      simp only [frees _ (show partials.length + fulls.length <
        fuel + (partials.length + fulls.length + 1) by omega), Option.some.injEq,
        Prod.mk.injEq] at more
      rcases more with ⟨rfl, rfl, rfl⟩
      exact ⟨partials', fulls', free', kept⟩
  | write frame => exact ⟨partials, fulls, free, invariant.write frame⟩

theorem guarantee (invariant : SlabInvariant state partials fulls free) :
    state.Guarantee partials fulls where
  noEmpty := invariant.lists.noEmpty
  partialLinked := invariant.lists.partialLinked
  fullLinked := invariant.lists.fullLinked
  listed := fun slab => (invariant.slabs slab).symm
  exactlyOne := by
    intro slab mem
    constructor
    · exact invariant.lists.disjoint slab
    · exact fun notFull => ((invariant.slabs slab).mp mem).resolve_right notFull
  fullIff := by
    intro slab mem
    simp only [(invariant.shape slab mem).count, List.length_eq_zero_iff]
    constructor
    · exact invariant.fullFree slab
    · intro noneFree
      exact ((invariant.slabs slab).mp mem).resolve_left
        (fun here => invariant.partialFree slab here noneFree)
  freeList := fun slab mem => ⟨free slab, (invariant.shape slab mem).chain,
    (invariant.shape slab mem).count, (invariant.shape slab mem).slots⟩
  total := by
    intro slab mem
    simp [(invariant.shape slab mem).total, SlabGeometry.slots]
  placed := by
    intro object isLive
    rcases invariant.live object isLive with ⟨slab, mem, inside⟩
    have bounds := invariant.sound.fits.slot_bounds inside
    exact ⟨slab, mem, inside, invariant.sound.fits.slot_aligned (invariant.shape slab mem).aligned
      inside, bounds.1, bounds.2⟩
  apart := by
    intro object isLive other otherLive different
    rcases invariant.live object isLive with ⟨slab, mem, inside⟩
    rcases invariant.live other otherLive with ⟨home, homeMem, otherInside⟩
    by_cases same : slab = home
    · subst same
      exact SlabGeometry.slots_disjoint inside otherInside different
    · have bounds := invariant.sound.fits.slot_bounds inside
      have otherBounds := invariant.sound.fits.slot_bounds otherInside
      have := SlabShape.page_disjoint (invariant.shape slab mem).aligned
        (invariant.shape home homeMem).aligned same
      omega
  allocReturns := by
    intro physical kmalloc fresh
    rcases invariant.alloc fresh kmalloc with ⟨object, cache, cells, _, _, _, _, allocates, _⟩
    exact ⟨1, object, cache, cells, allocates 1 (by omega)⟩
  freeReturns := by
    intro object isLive
    rcases invariant.release isLive with ⟨release, cache, cells, _, _, _, frees, _⟩
    exact ⟨_, _, frees _ (Nat.lt_succ_self _)⟩

/-- A new cache has no slabs. -/
theorem start {cache : SlabCache} {cells : Cells} (sound : cache.Sound)
    (noPartial : cache.partialList = none) (noFull : cache.fullList = none)
    (noEmpty : cache.emptyList = none) :
    SlabInvariant ⟨cache, cells, ∅, ∅⟩ [] [] (fun _ => []) where
  sound := sound
  lists := ⟨noEmpty, by simp [noPartial], by simp [noFull], by simp⟩
  slabs := by simp
  shape := by simp
  partialFree := by simp
  fullFree := by simp
  live := by simp

end SlabInvariant

/-- The representation invariant holds after every run of the allocator on a
cache whose geometry fits. -/
theorem slab_representation (bits : ℕ) {objectSize align : ℕ}
    {ctor dtor : Option (Cells → ℕ → Cells)}
    {kmalloc : Option ℕ} {cache : SlabCache}
    (created : slabCacheCreate objectSize align ctor dtor kmalloc = some (some cache))
    (power : cache.align = 2 ^ bits) (pageSized : cache.align ≤ pageSizeSlab)
    (ctorInside : StaysInside cache.objectSize ctor)
    (dtorInside : StaysInside cache.objectSize dtor)
    {cells : Cells} {calls : List SlabCall} {last : SlabState}
    (run : Run SlabStep ⟨cache, cells, ∅, ∅⟩ calls last) :
    ∃ partials fulls, last.Guarantee partials fulls := by
  have fits := slabCacheCreate_fits bits created power pageSized
  rcases slabCacheCreate_eq created with ⟨address, used, _, _, _, rfl⟩
  have kept : ∃ partials fulls free, SlabInvariant last partials fulls free := by
    apply run.invariant
    · rintro before call after ⟨partials, fulls, free, invariant⟩ taken
      exact invariant.step taken
    · exact ⟨[], [], _, SlabInvariant.start ⟨fits, ctorInside, dtorInside⟩ rfl rfl rfl⟩
  rcases kept with ⟨partials, fulls, free, invariant⟩
  exact ⟨partials, fulls, invariant.guarantee⟩

/-- A cache of 48-byte objects, as the hash table uses. -/
def hashEntryCache : SlabCache where
  address := 0xFFFF800010000018
  objectSize := 48
  align := 8
  objectsPerSlab := 84
  partialList := none
  fullList := none
  emptyList := none
  ctor := none
  dtor := none

theorem hashEntryCache_created : slabCacheCreate 48 0 none none (some 0xFFFF800010000018) =
    some (some hashEntryCache) := by
  have size : alignUp 48 8 = 48 := by decide
  have objects : objectsIn 48 8 = 84 := by decide
  simp [slabCacheCreate, sizeofPointer, size, objects, hashEntryCache]

/-- A cache with two objects on each slab. -/
def pairCache : SlabCache where
  address := 0xFFFF800010000018
  objectSize := 2000
  align := 8
  objectsPerSlab := 2
  partialList := none
  fullList := none
  emptyList := none
  ctor := none
  dtor := none

theorem pairCache_created : slabCacheCreate 2000 0 none none (some 0xFFFF800010000018) =
    some (some pairCache) := by
  have size : alignUp 2000 8 = 2000 := by decide
  have objects : objectsIn 2000 8 = 2 := by decide
  simp [slabCacheCreate, sizeofPointer, size, objects, pairCache]

/-- Two objects fill the slab and a third takes a second one; then an object of
the full slab and the only object of the other are freed. -/
theorem slab_representation_pairCache : ∃ last,
    Run SlabStep ⟨pairCache, fun _ => 0, ∅, ∅⟩
      [.alloc (some 0x57F8), .alloc (some 0x5028), .alloc (some 0x67F8), .free 0x57F8,
        .free 0x67F8] last ∧
      last.slabs = {0x5000} ∧ last.live = {0x5028} ∧
      ∃ partials fulls, last.Guarantee partials fulls := by
  have noCallback : StaysInside pairCache.objectSize none := fun _ _ _ _ => rfl
  have calls : ((slabAlloc 2 pairCache (fun _ => 0) 0x5000 none).bind fun first =>
      (slabAlloc 2 first.2.1 first.2.2 0x6000 none).bind fun second =>
      (slabAlloc 2 second.2.1 second.2.2 0x6000 none).bind fun third =>
      (slabFree 2 third.2.1 third.2.2 0x57F8).bind fun fourth =>
      (slabFree 2 fourth.2.1 fourth.2.2 0x67F8).map fun fifth =>
        decide ((first.1 = some 0x57F8 ∧ second.1 = some 0x5028 ∧ third.1 = some 0x67F8) ∧
          (fourth.1 = .kept ∧ fifth.1 = .reclaimed 0x6000) ∧
          first.2.1.partialList = some 0x5000 ∧ second.2.1.partialList = none ∧
          second.2.1.emptyList = none)) = some true := by
    decide +kernel
  simp only [Option.bind_eq_some_iff, Option.map_eq_some_iff, decide_eq_true_eq] at calls
  rcases calls with ⟨⟨_, cache₁, cells₁⟩, first, ⟨_, cache₂, cells₂⟩, second,
    ⟨_, cache₃, cells₃⟩, third, ⟨_, cache₄, cells₄⟩, fourth, ⟨_, cache₅, cells₅⟩, fifth,
    ⟨rfl, rfl, rfl⟩, ⟨rfl, rfl⟩, partialLeft, noPartial, noEmpty⟩
  simp only at second third fourth fifth partialLeft noPartial noEmpty
  have page : SlabState.FreshPage ⟨pairCache, fun _ => 0, ∅, ∅⟩ 0x5000 :=
    ⟨by decide, by decide, by decide, by simp⟩
  have step₁ : SlabStep ⟨pairCache, fun _ => 0, ∅, ∅⟩ (.alloc (some 0x57F8))
      ⟨cache₁, cells₁, {0x5000}, {0x57F8}⟩ :=
    .alloc 2 (fun _ => page) first
  have noneNeeded : ¬ SlabState.NeedsPage ⟨cache₁, cells₁, {0x5000}, {0x57F8}⟩ := by
    simp [SlabState.NeedsPage, partialLeft]
  have step₂ := @SlabStep.alloc ⟨cache₁, cells₁, {0x5000}, {0x57F8}⟩ _ _ _ _ _ 2
    (fun need => absurd need noneNeeded) second
  rw [SlabState.slabsAfterAlloc, if_neg noneNeeded] at step₂
  have needed : SlabState.NeedsPage ⟨cache₂, cells₂, {0x5000}, {0x5028, 0x57F8}⟩ := by
    simp [SlabState.NeedsPage, noPartial, noEmpty]
  have otherPage : SlabState.FreshPage ⟨cache₂, cells₂, {0x5000}, {0x5028, 0x57F8}⟩ 0x6000 :=
    ⟨by decide, by decide, by decide, by simp⟩
  have step₃ := @SlabStep.alloc ⟨cache₂, cells₂, {0x5000}, {0x5028, 0x57F8}⟩ _ _ _ _ _ 2
    (fun _ => otherPage) third
  rw [SlabState.slabsAfterAlloc, if_pos needed] at step₃
  have step₄ := @SlabStep.free ⟨cache₃, cells₃, {0x6000, 0x5000}, {0x67F8, 0x5028, 0x57F8}⟩
    _ _ _ _ 2 (by simp) fourth
  have step₅ := @SlabStep.free ⟨cache₄, cells₄, {0x6000, 0x5000}, {0x67F8, 0x5028}⟩
    _ _ _ _ 2 (by simp) fifth
  have run : Run SlabStep ⟨pairCache, fun _ => 0, ∅, ∅⟩
      [.alloc (some 0x57F8), .alloc (some 0x5028), .alloc (some 0x67F8), .free 0x57F8,
        .free 0x67F8] ⟨cache₅, cells₅, {0x5000}, {0x5028}⟩ :=
    .cons step₁ (.cons step₂ (.cons step₃ (.cons step₄ (.cons step₅ (.nil _)))))
  exact ⟨_, run, rfl, rfl, slab_representation 3 pairCache_created rfl (by decide) noCallback
    noCallback run⟩

end Goshkik
