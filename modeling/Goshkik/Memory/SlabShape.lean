import Mathlib.Data.Finset.Erase
import Mathlib.Data.Finset.Insert
import Goshkik.Memory.SlabGeometry

/-!
# Slabs and lists of slabs

`SlabShape` is about one slab: its counters and its free list, which together
with the live objects make up its slots.  `SlabLists` is about the two lists
that the slabs are linked into.  Popping and pushing an object changes the shape
of one slab and no link between slabs; moving a slab changes links and no shape.
-/

namespace Goshkik

/-- A slab with the listed free slots. -/
structure SlabShape (geometry : SlabGeometry) (cells : Cells) (live : Finset ℕ) (slab : ℕ)
    (free : List ℕ) : Prop where
  aligned : 4096 ∣ slab
  nonnull : slab ≠ 0
  bounded : slab + 4096 ≤ 2 ^ 64
  magic : cells (slabMagicField slab) = slabMagic
  total : cells (slabTotalObjectsField slab) = geometry.objectsPerSlab
  chain : Linked cells.pointerAt (slabFreeList cells slab) free
  count : cells (slabFreeCountField slab) = free.length
  slots : ∀ slot, slot ∈ free ↔ slot ∈ geometry.slots slab ∧ slot ∉ live

/-- The lists of slabs. -/
structure SlabLists (cache : SlabCache) (cells : Cells) (partials fulls : List ℕ) : Prop where
  noEmpty : cache.emptyList = none
  partialLinked : Linked (slabNext cells) cache.partialList partials
  fullLinked : Linked (slabNext cells) cache.fullList fulls
  disjoint : ∀ slab ∈ partials, slab ∉ fulls

/-! ## Shapes -/

namespace SlabShape

variable {geometry : SlabGeometry} {cells cells' : Cells} {live live' : Finset ℕ}
  {slab other object : ℕ} {free : List ℕ}

/-- A shape only depends on the header and on the free slots. -/
theorem congr (shape : SlabShape geometry cells live slab free)
    (header : ∀ address, slab + 16 ≤ address → address < slab + 40 →
      cells' address = cells address)
    (links : ∀ slot ∈ free, cells' slot = cells slot)
    (sameLive : ∀ slot ∈ geometry.slots slab, slot ∈ live' ↔ slot ∈ live) :
    SlabShape geometry cells' live' slab free where
  aligned := shape.aligned
  nonnull := shape.nonnull
  bounded := shape.bounded
  magic := (header _ (by simp [slabMagicField]) (by simp [slabMagicField])).trans shape.magic
  total := (header _ (by simp [slabTotalObjectsField]) (by simp [slabTotalObjectsField])).trans
    shape.total
  chain := by
    have head : slabFreeList cells' slab = slabFreeList cells slab :=
      Cells.pointerAt_congr (header _ (by simp [slabFreeListField]) (by simp [slabFreeListField]))
    simp only [head]
    exact shape.chain.congr (fun slot mem => Cells.pointerAt_congr (links slot mem))
  count := (header _ (by simp [slabFreeCountField]) (by simp [slabFreeCountField])).trans
    shape.count
  slots := by
    intro slot
    simp only [shape.slots]
    apply and_congr_right
    intro mem
    simp only [sameLive slot mem]

/-- A shape does not change when nothing in its page does. -/
theorem congr_page (shape : SlabShape geometry cells live slab free) (fits : geometry.Fits)
    (page : ∀ address, slab < address → address < slab + 4096 → cells' address = cells address)
    (sameLive : ∀ slot ∈ geometry.slots slab, slot ∈ live' ↔ slot ∈ live) :
    SlabShape geometry cells' live' slab free := by
  apply shape.congr
  · intro address lower upper
    exact page address (by omega) (by omega)
  · intro slot mem
    have bounds := fits.slot_bounds ((shape.slots slot).mp mem).1
    have := fits.sizePositive
    exact page slot (by omega) (by omega)
  · exact sameLive

/-- The pages of different slabs do not overlap. -/
theorem page_disjoint (aligned : 4096 ∣ slab) (otherAligned : 4096 ∣ other)
    (different : slab ≠ other) : slab + 4096 ≤ other ∨ other + 4096 ≤ slab := by
  rcases aligned with ⟨first, rfl⟩
  rcases otherAligned with ⟨second, rfl⟩
  omega

/-- A slot belongs to one slab only. -/
theorem slot_unique (fits : geometry.Fits) (aligned : 4096 ∣ slab) (otherAligned : 4096 ∣ other)
    (mem : object ∈ geometry.slots slab) (otherMem : object ∈ geometry.slots other) :
    slab = other := by
  by_contra different
  have bounds := fits.slot_bounds mem
  have otherBounds := fits.slot_bounds otherMem
  have := fits.sizePositive
  rcases page_disjoint aligned otherAligned different with before | behind <;> omega

/-- `slab_pop_object` hands out the first free slot. -/
theorem pop (shape : SlabShape geometry cells live slab (object :: free)) (fits : geometry.Fits) :
    ∃ popped, slabPopObject cells slab = (some object, popped) ∧
      SlabShape geometry popped (insert object live) slab free ∧
      ∀ address, address ≠ slabFreeListField slab → address ≠ slabFreeCountField slab →
        popped address = cells address := by
  have head : slabFreeList cells slab = some object := shape.chain.eq_head?
  generalize poppedEq : (slabPopObject cells slab).2 = popped
  have result : slabPopObject cells slab = (some object, popped) := by
    simp [← poppedEq, slabPopObject, head]
  simp only [slabPopObject, head] at poppedEq
  have frame : ∀ address, address ≠ slabFreeListField slab → address ≠ slabFreeCountField slab →
      popped address = cells address := by
    intro address notList notCount
    simp [← poppedEq, notList, notCount]
  have listField : popped (slabFreeListField slab) = cells object := by
    simp [← poppedEq, slabFreeListField, slabFreeCountField]
  have countField : popped (slabFreeCountField slab) = cells (slabFreeCountField slab) - 1 := by
    simp [← poppedEq, slabFreeListField, slabFreeCountField]
  have unique := List.nodup_cons.mp shape.chain.nodup
  refine ⟨popped, result, ⟨shape.aligned, shape.nonnull, shape.bounded, ?_, ?_, ?_, ?_, ?_⟩, frame⟩
  · exact (frame _ (by simp [slabMagicField, slabFreeListField])
      (by simp [slabMagicField, slabFreeCountField])).trans shape.magic
  · exact (frame _ (by simp [slabTotalObjectsField, slabFreeListField])
      (by simp [slabTotalObjectsField, slabFreeCountField])).trans shape.total
  · have newHead : slabFreeList popped slab = cells.pointerAt object := by
      simp only [slabFreeList, Cells.pointerAt, listField]
    simp only [newHead]
    apply (Linked.cons_iff.mp shape.chain).2.congr
    intro slot mem
    apply Cells.pointerAt_congr
    have bounds := fits.slot_bounds ((shape.slots slot).mp (by simp [mem])).1
    exact frame slot (by simp only [slabFreeListField]; omega)
      (by simp only [slabFreeCountField]; omega)
  · simp [countField, shape.count]
  · intro slot
    have split := shape.slots slot
    simp only [List.mem_cons] at split
    simp only [Finset.mem_insert, not_or]
    constructor
    · intro mem
      have inside := split.mp (Or.inr mem)
      refine ⟨inside.1, ?_, inside.2⟩
      rintro rfl
      exact unique.1 mem
    · rintro ⟨inside, different, dead⟩
      exact (split.mpr ⟨inside, dead⟩).resolve_left different

/-- `slab_push_object` takes a live object back. -/
theorem push (shape : SlabShape geometry cells live slab free) (fits : geometry.Fits)
    (inside : object ∈ geometry.slots slab) (isLive : object ∈ live) :
    SlabShape geometry (slabPushObject cells slab object) (live.erase object) slab
        (object :: free) ∧
      ∀ address, address ≠ object → address ≠ slabFreeListField slab →
        address ≠ slabFreeCountField slab →
          slabPushObject cells slab object address = cells address := by
  have objectBounds := fits.slot_bounds inside
  generalize pushedEq : slabPushObject cells slab object = pushed
  simp only [slabPushObject] at pushedEq
  have notList : object ≠ slabFreeListField slab := by
    simp only [slabFreeListField]
    omega
  have notCount : object ≠ slabFreeCountField slab := by
    simp only [slabFreeCountField]
    omega
  have frame : ∀ address, address ≠ object → address ≠ slabFreeListField slab →
      address ≠ slabFreeCountField slab → pushed address = cells address := by
    intro address notObject notList notCount
    simp [← pushedEq, notObject, notList, notCount]
  have linkField : pushed object = cells (slabFreeListField slab) := by
    simp [← pushedEq, notList, notCount]
  have listField : pushed (slabFreeListField slab) = object := by
    simp [← pushedEq, slabFreeListField, slabFreeCountField]
  have countField : pushed (slabFreeCountField slab) = cells (slabFreeCountField slab) + 1 := by
    have different : slabFreeCountField slab ≠ slabFreeListField slab := by
      simp [slabFreeCountField, slabFreeListField]
    simp [← pushedEq, different, Ne.symm notCount]
  have dead : object ∉ free := fun mem => ((shape.slots object).mp mem).2 isLive
  refine ⟨⟨shape.aligned, shape.nonnull, shape.bounded, ?_, ?_, ?_, ?_, ?_⟩, frame⟩
  · refine (frame _ ?_ ?_ ?_).trans shape.magic <;>
      simp only [slabMagicField, slabFreeListField, slabFreeCountField] <;> omega
  · refine (frame _ ?_ ?_ ?_).trans shape.total <;>
      simp only [slabTotalObjectsField, slabFreeListField, slabFreeCountField] <;> omega
  · have head : slabFreeList pushed slab = some object :=
      Cells.pointerAt_eq_some_iff.mpr ⟨listField, by omega⟩
    simp only [head]
    apply shape.chain.push
    · simp only [Cells.pointerAt, linkField, slabFreeList]
    · intro slot mem
      apply Cells.pointerAt_congr
      have bounds := fits.slot_bounds ((shape.slots slot).mp mem).1
      apply frame slot
      · rintro rfl
        exact dead mem
      · simp only [slabFreeListField]
        omega
      · simp only [slabFreeCountField]
        omega
  · simp [countField, shape.count]
  · intro slot
    simp only [List.mem_cons, shape.slots, Finset.mem_erase, not_and]
    constructor
    · rintro (rfl | ⟨slotInside, slotDead⟩)
      · exact ⟨inside, fun different => absurd rfl different⟩
      · exact ⟨slotInside, fun _ => slotDead⟩
    · rintro ⟨slotInside, onlyObject⟩
      by_cases same : slot = object
      · exact Or.inl same
      · exact Or.inr ⟨slotInside, onlyObject same⟩

end SlabShape

/-! ## New slabs -/

/-- Chaining slots pushes them one after the other in front of a chain. -/
theorem chainSlots_spec {size : ℕ} (positive : 0 < size) (objects : ℕ) :
    ∀ (object : ℕ) (previous : Option ℕ) (cells : Cells) (rest : List ℕ),
      Linked cells.pointerAt previous rest → (∀ node ∈ rest, 0 < node ∧ node < object) →
        0 < object →
      Linked (chainSlots size objects object previous cells).1.pointerAt
          (chainSlots size objects object previous cells).2
          (((List.range objects).map (fun i => object + i * size)).reverse ++ rest) ∧
        ∀ address, address ∉ (List.range objects).map (fun i => object + i * size) →
          (chainSlots size objects object previous cells).1 address = cells address := by
  induction objects with
  | zero =>
      intro object previous cells rest linked _ _
      exact ⟨by simpa [chainSlots] using linked, fun _ _ => rfl⟩
  | succ objects ih =>
      intro object previous cells rest linked below nonnull
      have nonzero : previous ≠ some 0 := by
        intro same
        simp only [same] at linked
        have mem : 0 ∈ rest := List.mem_of_head? linked.eq_head?.symm
        exact absurd (below 0 mem).1 (by omega)
      have pushed : Linked (cells.store object (Cells.pointerWord previous)).pointerAt
          (some object) (object :: rest) := by
        apply linked.push
        · exact Cells.pointerAt_store_pointerWord nonzero
        · intro node mem
          apply Cells.pointerAt_congr
          exact Cells.store_of_ne (by have := (below node mem).2; omega)
      have step := ih (object + size) (some object) _ (object :: rest) pushed (by
        intro node mem
        rcases List.mem_cons.mp mem with rfl | mem
        · omega
        · have := below node mem
          omega) (by omega)
      have range : (List.range (objects + 1)).map (fun i => object + i * size) =
          object :: (List.range objects).map (fun i => object + size + i * size) := by
        simp [List.range_succ_eq_map, Function.comp_def, Nat.succ_mul, Nat.add_assoc,
          Nat.add_comm size]
      simp only [chainSlots, range, List.reverse_cons, List.append_assoc, List.singleton_append]
      refine ⟨step.1, ?_⟩
      intro address outside
      simp only [List.mem_cons, not_or] at outside
      exact (step.2 address outside.2).trans (Cells.store_of_ne outside.1)

/-- `slab_init` turns a fresh page into a slab all of whose slots are free. -/
theorem slabInit_spec {cache : SlabCache} {cells : Cells} {physical : ℕ} {live : Finset ℕ}
    (fits : cache.toSlabGeometry.Fits) (aligned : 4096 ∣ physical) (nonnull : physical ≠ 0)
    (bounded : physical + 4096 ≤ 2 ^ 64) (dead : ∀ slot ∈ cache.slots physical, slot ∉ live) :
    ∃ cells', slabInit cache cells physical = (some physical, cells') ∧
      SlabShape cache.toSlabGeometry cells' live physical (cache.slots physical).reverse ∧
      ∀ address, address < physical ∨ physical + 4096 ≤ address →
        cells' address = cells address := by
  have objects : objectsIn cache.objectSize cache.align = cache.objectsPerSlab := fits.computed.symm
  have someObjects : cache.objectsPerSlab ≠ 0 := Nat.pos_iff_ne_zero.mp fits.nonempty
  have fewObjects : cache.objectsPerSlab % 2 ^ 32 = cache.objectsPerSlab := by
    have room := fits.insidePage
    have := Nat.le_mul_of_pos_right cache.objectsPerSlab fits.sizePositive
    omega
  generalize headerEq : initHeader cache (zeroFrame cells physical) physical cache.objectsPerSlab =
    header
  have initialEq := headerEq
  simp only [initHeader, fewObjects, Cells.store_self] at headerEq
  have headerTotal : header (slabTotalObjectsField physical) = cache.objectsPerSlab := by
    simp [← headerEq, slabTotalObjectsField, slabFreeCountField, slabMagicField]
  have headerCount : header (slabFreeCountField physical) = cache.objectsPerSlab := by
    simp [← headerEq, slabFreeCountField, slabMagicField]
  have headerMagic : header (slabMagicField physical) = slabMagic := by
    simp [← headerEq]
  have headerFrame : ∀ address, address < physical ∨ physical + 4096 ≤ address →
      header address = cells address := by
    intro address outside
    have notMagic : address ≠ slabMagicField physical := by simp only [slabMagicField]; omega
    have notCount : address ≠ slabFreeCountField physical := by
      simp only [slabFreeCountField]; omega
    have notTotal : address ≠ slabTotalObjectsField physical := by
      simp only [slabTotalObjectsField]
      omega
    have notCache : address ≠ slabCacheField physical := by simp only [slabCacheField]; omega
    have notPage : ¬ (physical ≤ address ∧ address < physical + pageSizeVmm) := by
      simp only [pageSizeVmm]
      omega
    simp [← headerEq, notMagic, notCount, notTotal, notCache, zeroFrame, notPage]
  have empty : Linked header.pointerAt none [] := by simp
  have chained := chainSlots_spec fits.sizePositive cache.objectsPerSlab
    (physical + firstObjectOffset cache.align) none header [] empty (by simp) (by omega)
  generalize chainEq : chainSlots cache.objectSize cache.objectsPerSlab
    (physical + firstObjectOffset cache.align) none header = chain at chained
  simp only [List.append_nil] at chained
  change Linked chain.1.pointerAt chain.2 (cache.slots physical).reverse ∧
    ∀ address, address ∉ cache.slots physical → chain.1 address = header address at chained
  have bounds : ∀ slot ∈ cache.slots physical, physical + 40 ≤ slot ∧ slot < physical + 4096 := by
    intro slot mem
    have := fits.slot_bounds mem
    have := fits.sizePositive
    omega
  have headerKept : ∀ address, address < physical + 40 → chain.1 address = header address := by
    intro address low
    apply chained.2
    intro mem
    have := bounds address mem
    omega
  have headNonzero : chain.2 ≠ some 0 := by
    intro same
    have mem := List.mem_of_head? (chained.1.eq_head?.symm.trans same)
    have := bounds 0 (List.mem_reverse.mp mem)
    omega
  refine ⟨chain.1.store (slabFreeListField physical) (Cells.pointerWord chain.2), ?_,
    ⟨aligned, nonnull, bounded, ?_, ?_, ?_, ?_, ?_⟩, ?_⟩
  · have someIn : ¬ objectsIn cache.objectSize cache.align = 0 := by
      rw [objects]
      exact someObjects
    simp only [slabInit, if_neg nonnull, if_neg someIn]
    rw [objects, initialEq, chainEq]
  · have other : slabMagicField physical ≠ slabFreeListField physical := by
      simp [slabMagicField, slabFreeListField]
    simp only [Cells.store_of_ne other,
      headerKept (slabMagicField physical) (by simp [slabMagicField]), headerMagic]
  · have other : slabTotalObjectsField physical ≠ slabFreeListField physical := by
      simp [slabTotalObjectsField, slabFreeListField]
    simp only [Cells.store_of_ne other,
      headerKept (slabTotalObjectsField physical) (by simp [slabTotalObjectsField]), headerTotal]
  · simp only [slabFreeList, Cells.pointerAt_store_pointerWord headNonzero]
    apply chained.1.congr
    intro slot mem
    apply Cells.pointerAt_congr
    have := bounds slot (List.mem_reverse.mp mem)
    exact Cells.store_of_ne (by simp only [slabFreeListField]; omega)
  · have other : slabFreeCountField physical ≠ slabFreeListField physical := by
      simp [slabFreeCountField, slabFreeListField]
    simp only [Cells.store_of_ne other,
      headerKept (slabFreeCountField physical) (by simp [slabFreeCountField]), headerCount]
    simp [SlabGeometry.slots]
  · intro slot
    simp only [List.mem_reverse]
    exact ⟨fun mem => ⟨mem, dead slot mem⟩, fun mem => mem.1⟩
  · intro address outside
    have notList : address ≠ slabFreeListField physical := by simp only [slabFreeListField]; omega
    simp only [Cells.store_of_ne notList]
    refine (chained.2 address ?_).trans (headerFrame address outside)
    intro mem
    have := bounds address mem
    omega

/-! ## Lists of slabs -/

/-- The loop finds a slab that is on the list and takes it off. -/
theorem unlinkSlab_spec {cells : Cells} {head : Option ℕ} {before behind : List ℕ} {slab : ℕ}
    (linked : Linked (slabNext cells) head (before ++ slab :: behind)) :
    ∃ head' cells', (∀ fuel, before.length < fuel →
        unlinkSlab fuel cells head slab = some (true, head', cells')) ∧
      Linked (slabNext cells') head' (before ++ behind) ∧
      ∀ address, address ∉ before → cells' address = cells address := by
  have skipped : ∀ other ∈ before, (other == slab) = false := by
    intro other mem
    have unique := linked.nodup
    simp only [List.nodup_append, List.mem_cons] at unique
    simpa using unique.2.2 other mem slab (Or.inl rfl)
  have scanned : ∀ fuel, before.length < fuel →
      scan (slabNext cells) (fun other => other == slab) fuel none head =
        some (before.getLast?.or none, some slab) :=
    fun fuel enough => scan_found linked skipped (by simp) enough
  cases last : before.getLast? with
  | none =>
      have first : before = [] := List.getLast?_eq_none_iff.mp last
      subst first
      refine ⟨slabNext cells slab, cells, ?_, linked.unlink_head (fun _ _ => rfl), fun _ _ => rfl⟩
      intro fuel enough
      simp [unlinkSlab, scanned fuel enough]
  | some previous =>
      have mem : previous ∈ before := List.mem_of_getLast? last
      have nonempty : before ≠ [] := List.ne_nil_of_mem mem
      refine ⟨head, cells.store (slabNextField previous) (cells (slabNextField slab)), ?_, ?_, ?_⟩
      · intro fuel enough
        simp [unlinkSlab, scanned fuel enough, last]
      · apply linked.unlink_at
        · simp [nonempty]
        · intro node isLast
          simp only [last, Option.mem_def, Option.some.injEq] at isLast
          subst isLast
          simp [slabNext, Cells.pointerAt]
        · intro other _ notLast
          have different : other ≠ previous := by
            rintro rfl
            exact notLast last
          exact Cells.pointerAt_congr (Cells.store_of_ne different)
      · intro address outside
        apply Cells.store_of_ne
        rintro rfl
        exact outside mem

theorem unlinkSlab_mono {fuel more : ℕ} {cells : Cells} {head : Option ℕ} {slab : ℕ}
    {answer : Bool × Option ℕ × Cells} (returns : unlinkSlab fuel cells head slab = some answer)
    (enough : fuel ≤ more) : unlinkSlab more cells head slab = some answer := by
  simp only [unlinkSlab, Option.bind_eq_bind, Option.bind_eq_some_iff] at returns ⊢
  rcases returns with ⟨scanned, scanEq, answerEq⟩
  exact ⟨scanned, scan_mono scanEq enough, answerEq⟩

/-- The links between slabs only depend on the first cell of every slab. -/
theorem linkedSlabs_congr {cells cells' : Cells} {head : Option ℕ} {nodes : List ℕ}
    (linked : Linked (slabNext cells) head nodes)
    (agree : ∀ slab ∈ nodes, cells' slab = cells slab) : Linked (slabNext cells') head nodes :=
  linked.congr (fun slab mem => Cells.pointerAt_congr (agree slab mem))

/-- Linking a slab in front of a list. -/
theorem linkedSlabs_push {cells : Cells} {head : Option ℕ} {nodes : List ℕ} {slab : ℕ}
    (linked : Linked (slabNext cells) head nodes) (new : slab ∉ nodes) (nonnull : head ≠ some 0) :
    Linked (slabNext (cells.store (slabNextField slab) (Cells.pointerWord head))) (some slab)
      (slab :: nodes) := by
  apply linked.push
  · exact Cells.pointerAt_store_pointerWord nonnull
  · intro other mem
    apply Cells.pointerAt_congr
    apply Cells.store_of_ne
    rintro rfl
    exact new mem

/-- Moving a slab from one list to the front of another one. -/
theorem moveSlab_spec {cells : Cells} {head otherHead : Option ℕ} {before behind others : List ℕ}
    {slab : ℕ} (linked : Linked (slabNext cells) head (before ++ slab :: behind))
    (otherLinked : Linked (slabNext cells) otherHead others)
    (disjoint : ∀ node ∈ before ++ slab :: behind, node ∉ others) (nonnull : otherHead ≠ some 0) :
    ∃ head' unlinked, (∀ fuel, before.length < fuel →
        unlinkSlab fuel cells head slab = some (true, head', unlinked)) ∧
      Linked (slabNext (unlinked.store (slabNextField slab) (Cells.pointerWord otherHead))) head'
        (before ++ behind) ∧
      Linked (slabNext (unlinked.store (slabNextField slab) (Cells.pointerWord otherHead)))
        (some slab) (slab :: others) ∧
      ∀ address, address ∉ before ++ [slab] →
        unlinked.store (slabNextField slab) (Cells.pointerWord otherHead) address =
          cells address := by
  rcases unlinkSlab_spec linked with ⟨head', unlinked, found, relinked, frame⟩
  refine ⟨head', unlinked, found, ?_, ?_, ?_⟩
  · apply linkedSlabs_congr relinked
    intro node mem
    apply Cells.store_of_ne
    intro same
    have unique := linked.nodup
    simp only [List.nodup_append, List.nodup_cons, List.mem_cons, slabNextField] at unique same
    rcases List.mem_append.mp mem with mem | mem
    · exact unique.2.2 node mem slab (Or.inl rfl) same
    · exact unique.2.1.1 (same ▸ mem)
  · apply linkedSlabs_push
    · apply linkedSlabs_congr otherLinked
      intro node mem
      apply frame
      intro inBefore
      exact disjoint node (by simp [inBefore]) mem
    · exact disjoint slab (by simp)
    · exact nonnull
  · intro address outside
    simp only [List.mem_append, List.mem_singleton, not_or] at outside
    exact (Cells.store_of_ne outside.2).trans (frame address outside.1)

end Goshkik
