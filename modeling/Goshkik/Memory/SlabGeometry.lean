import Goshkik.Memory.Slab

/-!
# The slots of a slab

A geometry fits when the slots of a page lie behind the header, inside the page
and aligned.  Every cache that `slab_cache_create` returns for a power of two up
to the page size has such a geometry.
-/

namespace Goshkik

theorem alignUp_eq {bits : ℕ} (bitsLt : bits < 64) (value : ℕ) : alignUp value (2 ^ bits) =
    (value + (2 ^ bits + (2 ^ 64 - 1))) % 2 ^ 64 / 2 ^ bits * 2 ^ bits := by
  have positive : 0 < 2 ^ bits := Nat.two_pow_pos bits
  have bound : 2 ^ bits < 2 ^ 64 := Nat.pow_lt_pow_right (by omega) bitsLt
  have mask : (2 ^ 64 - 2 ^ bits) % 2 ^ 64 = 2 ^ 64 - 2 ^ bits := by omega
  simp only [alignUp, mask]
  exact and_highMask (Nat.mod_lt _ (by omega)) (by omega)

theorem slabFromObject_eq {object : ℕ} (small : object < 2 ^ 64) :
    slabFromObject object = object / 4096 * 4096 :=
  @and_highMask object small 12 (by omega)

/-- The slots divide the part of a page behind the header. -/
structure SlabGeometry.Fits (geometry : SlabGeometry) : Prop where
  pointerAligned : 8 ∣ geometry.align
  dividesPage : geometry.align ∣ 4096
  sizeAligned : geometry.align ∣ geometry.objectSize
  sizePositive : 0 < geometry.objectSize
  behindHeader : 40 ≤ firstObjectOffset geometry.align
  firstAligned : geometry.align ∣ firstObjectOffset geometry.align
  insidePage : firstObjectOffset geometry.align +
    geometry.objectsPerSlab * geometry.objectSize ≤ 4096
  computed : geometry.objectsPerSlab = objectsIn geometry.objectSize geometry.align
  nonempty : 0 < geometry.objectsPerSlab

theorem firstObjectOffset_spec {bits : ℕ} (pointerSized : 3 ≤ bits) (pageSized : bits ≤ 12) :
    40 ≤ firstObjectOffset (2 ^ bits) ∧ firstObjectOffset (2 ^ bits) ≤ 4096 ∧
      2 ^ bits ∣ firstObjectOffset (2 ^ bits) := by
  have table : ∀ bits ∈ List.range 13, 3 ≤ bits → 40 ≤ firstObjectOffset (2 ^ bits) ∧
      firstObjectOffset (2 ^ bits) ≤ 4096 ∧ 2 ^ bits ∣ firstObjectOffset (2 ^ bits) := by
    decide
  exact table bits (List.mem_range.mpr (by omega)) pointerSized

/-- What `slab_cache_create` returns. -/
theorem slabCacheCreate_eq {objectSize align : ℕ} {ctor dtor : Option (Cells → ℕ → Cells)}
    {kmalloc : Option ℕ} {cache : SlabCache}
    (created : slabCacheCreate objectSize align ctor dtor kmalloc = some (some cache)) :
    ∃ address used, sizeofPointer ≤ used ∧ alignUp objectSize used ≠ 0 ∧
      objectsIn (alignUp objectSize used) used ≠ 0 ∧
      cache = {
        address := address
        objectSize := alignUp objectSize used
        align := used
        objectsPerSlab := objectsIn (alignUp objectSize used) used
        partialList := none
        fullList := none
        emptyList := none
        ctor := ctor
        dtor := dtor } := by
  simp only [slabCacheCreate] at created
  split at created
  · simp at created
  · have usedLe : sizeofPointer ≤ if align < sizeofPointer then sizeofPointer else align := by
      split <;> omega
    generalize (if align < sizeofPointer then sizeofPointer else align) = used at created usedLe
    cases kmalloc with
    | none => simp at created
    | some address =>
        simp only at created
        split at created
        · simp at created
        · rename_i sizeNonzero
          split at created
          · simp at created
          · rename_i someObjects
            simp only [Option.some.injEq] at created
            exact ⟨address, used, usedLe, sizeNonzero, someObjects, created.symm⟩

/-- The geometry of every cache for a power of two up to the page size fits. -/
theorem slabCacheCreate_fits (bits : ℕ) {objectSize align : ℕ}
    {ctor dtor : Option (Cells → ℕ → Cells)}
    {kmalloc : Option ℕ} {cache : SlabCache}
    (created : slabCacheCreate objectSize align ctor dtor kmalloc = some (some cache))
    (power : cache.align = 2 ^ bits) (pageSized : cache.align ≤ 4096) :
    cache.toSlabGeometry.Fits := by
  rcases slabCacheCreate_eq created with ⟨address, used, usedLe, sizeNonzero, someObjects, rfl⟩
  simp only [sizeofPointer] at usedLe
  simp only at power pageSized
  subst power
  have bitsLe : bits ≤ 12 := by
    by_contra large
    have : 2 ^ 13 ≤ 2 ^ bits := Nat.pow_le_pow_right (by omega) (by omega)
    omega
  have bitsGe : 3 ≤ bits := by
    by_contra small
    have : 2 ^ bits ≤ 2 ^ 2 := Nat.pow_le_pow_right (by omega) (by omega)
    omega
  rcases firstObjectOffset_spec bitsGe bitsLe with ⟨behind, inside, aligned⟩
  refine ⟨?_, ?_, ?_, by simp only; omega, behind, aligned, ?_, rfl, by simp only; omega⟩
  · exact Nat.pow_dvd_pow 2 bitsGe
  · exact Nat.pow_dvd_pow 2 bitsLe
  · simp only [alignUp_eq (show bits < 64 by omega)]
    exact Nat.dvd_mul_left _ _
  · have room : (pageSizeSlab + (2 ^ 64 - firstObjectOffset (2 ^ bits))) % 2 ^ 64 =
        4096 - firstObjectOffset (2 ^ bits) := by
      simp only [pageSizeSlab, pageSizeVmm]
      omega
    simp only [objectsIn, room]
    have := Nat.div_mul_le_self (4096 - firstObjectOffset (2 ^ bits))
      (alignUp objectSize (2 ^ bits))
    omega

namespace SlabGeometry

variable {geometry : SlabGeometry} {slab slot other : ℕ}

/-- The addresses of the slots of a slab. -/
def slots (geometry : SlabGeometry) (slab : ℕ) : List ℕ :=
  (List.range geometry.objectsPerSlab).map
    (fun i => slab + firstObjectOffset geometry.align + i * geometry.objectSize)

theorem mem_slots : slot ∈ geometry.slots slab ↔ ∃ i < geometry.objectsPerSlab,
    slot = slab + firstObjectOffset geometry.align + i * geometry.objectSize := by
  simp only [slots, List.mem_map, List.mem_range, eq_comm]

/-- A slot lies behind the header and inside the page. -/
theorem Fits.slot_bounds (fits : geometry.Fits) (mem : slot ∈ geometry.slots slab) :
    slab + 40 ≤ slot ∧ slot + geometry.objectSize ≤ slab + 4096 := by
  rcases mem_slots.mp mem with ⟨i, inside, rfl⟩
  have behind := fits.behindHeader
  have page := fits.insidePage
  have : (i + 1) * geometry.objectSize ≤ geometry.objectsPerSlab * geometry.objectSize :=
    Nat.mul_le_mul_right _ inside
  simp only [Nat.succ_mul] at this
  omega

theorem Fits.slot_aligned (fits : geometry.Fits) (aligned : 4096 ∣ slab)
    (mem : slot ∈ geometry.slots slab) : geometry.align ∣ slot := by
  rcases mem_slots.mp mem with ⟨i, _, rfl⟩
  apply Nat.dvd_add
  · exact Nat.dvd_add (fits.dividesPage.trans aligned) fits.firstAligned
  · exact fits.sizeAligned.mul_left i

/-- Different slots of one slab do not overlap. -/
theorem slots_disjoint (mem : slot ∈ geometry.slots slab)
    (otherMem : other ∈ geometry.slots slab) (different : slot ≠ other) :
    slot + geometry.objectSize ≤ other ∨ other + geometry.objectSize ≤ slot := by
  rcases mem_slots.mp mem with ⟨i, _, rfl⟩
  rcases mem_slots.mp otherMem with ⟨j, _, rfl⟩
  rcases Nat.lt_trichotomy i j with smaller | same | larger
  · left
    have : (i + 1) * geometry.objectSize ≤ j * geometry.objectSize := Nat.mul_le_mul_right _ smaller
    simp only [Nat.succ_mul] at this
    omega
  · exact absurd (by simp [same]) different
  · right
    have : (j + 1) * geometry.objectSize ≤ i * geometry.objectSize := Nat.mul_le_mul_right _ larger
    simp only [Nat.succ_mul] at this
    omega

/-- The slab of a slot is the page that contains it. -/
theorem Fits.slabFromObject_slot (fits : geometry.Fits) (aligned : 4096 ∣ slab)
    (bounded : slab + 4096 ≤ 2 ^ 64) (mem : slot ∈ geometry.slots slab) :
    slabFromObject slot = slab := by
  have bounds := fits.slot_bounds mem
  have := fits.sizePositive
  rcases aligned with ⟨page, rfl⟩
  simp only [slabFromObject_eq (show slot < 2 ^ 64 by omega)]
  omega

end SlabGeometry

end Goshkik
