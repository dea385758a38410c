import Mathlib.Data.Nat.Prime.Basic
import Goshkik.Memory.SlabShape

/-!
# Alignments that a cache accepts

`slab_cache_create` raises small alignments to the size of a pointer and takes every other
one as it is, while `align_up` only works for powers of two.  This file says for which
alignments the slots that `slab_init` builds are where the caller wants them.
-/

namespace Goshkik

/-- The alignment that a cache works with. -/
def usedAlign (align : ℕ) : ℕ := if align < sizeofPointer then sizeofPointer else align

/-- No sum or difference on the way to the geometry leaves the range of `size_t`. -/
structure GeometryInRange (objectSize align : ℕ) : Prop where
  size : objectSize + (usedAlign align - 1) < 2 ^ 64
  header : sizeofSlab + (usedAlign align - 1) < 2 ^ 64
  firstObject : firstObjectOffset (usedAlign align) ≤ pageSizeSlab

/-- On every page `slab_init` builds all slots of the geometry, apart from each other, behind the
header, inside the page, large enough and aligned as requested.  A request for the alignment
zero asks for nothing. -/
def SlotsSound (cache : SlabCache) (objectSize align : ℕ) : Prop :=
  objectSize ≤ cache.objectSize ∧
    ∀ (cells : Cells) (physical : ℕ), pageSizeSlab ∣ physical → physical ≠ 0 →
      physical + pageSizeSlab ≤ 2 ^ 64 →
      ∃ cells' slots, slabInit cache cells physical = (some physical, cells') ∧
        Linked cells'.pointerAt (slabFreeList cells' physical) slots ∧
        slots.length = cache.objectsPerSlab ∧
        (∀ slot ∈ slots, ∀ other ∈ slots, slot ≠ other →
          slot + cache.objectSize ≤ other ∨ other + cache.objectSize ≤ slot) ∧
        ∀ slot ∈ slots, physical + sizeofSlab ≤ slot ∧
          slot + cache.objectSize ≤ physical + pageSizeSlab ∧ (align = 0 ∨ align ∣ slot)

variable {objectSize align : ℕ} {ctor dtor : Option (Cells → ℕ → Cells)} {kmalloc : Option ℕ}
  {cache : SlabCache}

theorem slabCacheCreate_align
    (created : slabCacheCreate objectSize align ctor dtor kmalloc = some (some cache)) :
    cache.align = usedAlign align ∧ cache.objectSize = alignUp objectSize (usedAlign align) := by
  have used : (if align < sizeofPointer then sizeofPointer else align) = usedAlign align := rfl
  simp only [slabCacheCreate, used] at created
  split at created
  · simp at created
  · cases kmalloc with
    | none => simp at created
    | some address =>
        simp only at created
        split at created
        · simp at created
        · split at created
          · simp at created
          · simp only [Option.some.injEq] at created
            rw [← created]
            exact ⟨rfl, rfl⟩

/-! ## Powers of two -/

theorem usedAlign_two_pow (bits : ℕ) : ∃ used, usedAlign (2 ^ bits) = 2 ^ used ∧
    2 ^ bits ∣ 2 ^ used := by
  unfold usedAlign
  split
  · rename_i small
    refine ⟨3, rfl, Nat.pow_dvd_pow 2 ?_⟩
    by_contra large
    have atLeast : 2 ^ 3 ≤ 2 ^ bits := Nat.pow_le_pow_right (by omega) (by omega)
    simp only [sizeofPointer] at small
    omega
  · exact ⟨bits, rfl, Nat.dvd_refl _⟩

/-- Rounding up gives a multiple that is not smaller. -/
theorem le_alignUp {bits value : ℕ} (bitsLt : bits < 64)
    (inRange : value + (2 ^ bits - 1) < 2 ^ 64) :
    value ≤ alignUp value (2 ^ bits) := by
  have positive : 0 < 2 ^ bits := Nat.two_pow_pos bits
  have sum : (value + (2 ^ bits + (2 ^ 64 - 1))) % 2 ^ 64 = value + (2 ^ bits - 1) := by
    omega
  rw [alignUp_eq bitsLt, sum]
  have remainder := Nat.mod_lt (value + (2 ^ bits - 1)) positive
  have division := Nat.div_add_mod (value + (2 ^ bits - 1)) (2 ^ bits)
  rw [Nat.mul_comm] at division
  omega

/-- A power of two whose first slot lies on the page is at most a page. -/
theorem bits_le_of_firstObject {bits : ℕ} (header : sizeofSlab + (2 ^ bits - 1) < 2 ^ 64)
    (firstObject : firstObjectOffset (2 ^ bits) ≤ pageSizeSlab) : bits ≤ 12 := by
  have bitsLt : bits < 64 := by
    by_contra large
    have atLeast : 2 ^ 64 ≤ 2 ^ bits := Nat.pow_le_pow_right (by omega) (by omega)
    simp only [sizeofSlab] at header
    omega
  by_contra large
  have atLeast : 2 ^ 13 ≤ 2 ^ bits := Nat.pow_le_pow_right (by omega) (by omega)
  have headerSize : alignUp sizeofSlab sizeofPointer = sizeofSlab := by
    decide
  have sum : (sizeofSlab + (2 ^ bits + (2 ^ 64 - 1))) % 2 ^ 64 = sizeofSlab + (2 ^ bits - 1) := by
    omega
  have quotient : 1 ≤ (sizeofSlab + (2 ^ bits - 1)) / 2 ^ bits := by
    rw [Nat.one_le_div_iff (Nat.two_pow_pos bits)]
    simp only [sizeofSlab]
    omega
  have multiple := Nat.mul_le_mul_right (2 ^ bits) quotient
  rw [firstObjectOffset, headerSize, alignUp_eq bitsLt, sum] at firstObject
  simp only [pageSizeSlab, pageSizeVmm] at firstObject
  omega

theorem slotsSound_of_two_pow {bits : ℕ}
    (created : slabCacheCreate objectSize align ctor dtor kmalloc = some (some cache))
    (inRange : GeometryInRange objectSize align) (power : usedAlign align = 2 ^ bits)
    (multiple : align = 0 ∨ align ∣ 2 ^ bits) : SlotsSound cache objectSize align := by
  rcases slabCacheCreate_align created with ⟨alignEq, sizeEq⟩
  have size := inRange.size
  have header := inRange.header
  have firstObject := inRange.firstObject
  rw [power] at alignEq sizeEq size header firstObject
  have bitsLe := bits_le_of_firstObject header firstObject
  have pageSized : cache.align ≤ 4096 := by
    rw [alignEq]
    exact Nat.pow_le_pow_right (by omega) bitsLe
  have fits := slabCacheCreate_fits bits created alignEq pageSized
  refine ⟨sizeEq ▸ le_alignUp (by omega) size, ?_⟩
  intro cells physical aligned nonnull bounded
  rcases @slabInit_spec cache cells physical ∅ fits aligned nonnull bounded (by simp) with
    ⟨cells', initEq, shape, _⟩
  refine ⟨cells', _, initEq, shape.chain, by simp [SlabGeometry.slots], ?_, ?_⟩
  · intro slot mem other otherMem different
    exact SlabGeometry.slots_disjoint (List.mem_reverse.mp mem) (List.mem_reverse.mp otherMem)
      different
  · intro slot mem
    have inSlots := List.mem_reverse.mp mem
    have bounds := fits.slot_bounds inSlots
    refine ⟨bounds.1, bounds.2, ?_⟩
    rcases multiple with zero | divides
    · exact .inl zero
    · have slotAligned := fits.slot_aligned aligned inSlots
      rw [alignEq] at slotAligned
      exact .inr (divides.trans slotAligned)

/-! ## Other alignments -/

theorem chainSlots_last (size objects object : ℕ) (previous : Option ℕ) (cells : Cells) :
    (chainSlots size (objects + 1) object previous cells).2 = some (object + objects * size) := by
  induction objects generalizing object previous cells with
  | zero => simp [chainSlots]
  | succ objects ih =>
      rw [chainSlots, ih, Nat.succ_mul]
      simp only [Option.some.injEq]
      omega

/-- The free list of a new slab starts at the last slot. -/
theorem slabFreeList_slabInit {cells cells' : Cells} {physical slab : ℕ}
    (initialised : slabInit cache cells physical = (some slab, cells')) :
    slabFreeList cells' physical = some (physical + firstObjectOffset cache.align +
      (objectsIn cache.objectSize cache.align - 1) * cache.objectSize) := by
  unfold slabInit at initialised
  split at initialised
  · simp at initialised
  · rename_i nonnull
    simp only at initialised
    split at initialised
    · simp at initialised
    · rename_i someObjects
      obtain ⟨objects, objectsEq⟩ := Nat.exists_eq_succ_of_ne_zero someObjects
      rw [objectsEq, Nat.succ_eq_add_one, chainSlots_last] at initialised
      rw [objectsEq, ← (Prod.mk.inj initialised).2, slabFreeList,
        Cells.pointerAt_store_pointerWord]
      · rfl
      · simp only [ne_eq, Option.some.injEq]
        omega

/-- Slots that are aligned on two neighbouring pages are aligned by a divisor of the page size. -/
theorem align_of_slotsSound (sound : SlotsSound cache objectSize align) :
    align = 0 ∨ ∃ bits, align = 2 ^ bits := by
  have lastAligned : ∀ physical, pageSizeSlab ∣ physical → physical ≠ 0 →
      physical + pageSizeSlab ≤ 2 ^ 64 → align = 0 ∨
        align ∣ physical + firstObjectOffset cache.align +
        (objectsIn cache.objectSize cache.align - 1) * cache.objectSize := by
    intro physical aligned nonnull bounded
    rcases sound.2 (fun _ => 0) physical aligned nonnull bounded with
      ⟨cells', slots, initialised, chain, _, _, placed⟩
    have head := chain.eq_head?
    rw [slabFreeList_slabInit initialised] at head
    exact (placed _ (List.mem_of_head? head.symm)).2.2
  rcases lastAligned pageSizeSlab (by decide) (by decide) (by decide) with zero | first
  · exact .inl zero
  · rcases lastAligned (2 * pageSizeSlab) (by decide) (by decide) (by decide) with zero | second
    · exact .inl zero
    · right
      have dividesPage : align ∣ 2 ^ 12 := by
        have difference := Nat.dvd_sub second first
        have page : 2 * pageSizeSlab + firstObjectOffset cache.align +
            (objectsIn cache.objectSize cache.align - 1) * cache.objectSize -
              (pageSizeSlab + firstObjectOffset cache.align +
                (objectsIn cache.objectSize cache.align - 1) * cache.objectSize) = 2 ^ 12 := by
          simp only [pageSizeSlab, pageSizeVmm]
          omega
        rwa [page] at difference
      rcases (Nat.dvd_prime_pow Nat.prime_two).mp dividesPage with ⟨bits, _, power⟩
      exact ⟨bits, power⟩

/-- The slots of an accepted cache are sound exactly for powers of two. -/
theorem slab_slots_sound_iff
    (created : slabCacheCreate objectSize align ctor dtor kmalloc = some (some cache))
    (inRange : GeometryInRange objectSize align) :
    SlotsSound cache objectSize align ↔ align = 0 ∨ ∃ bits, align = 2 ^ bits := by
  constructor
  · exact align_of_slotsSound
  · rintro (rfl | ⟨bits, rfl⟩)
    · exact @slotsSound_of_two_pow _ _ _ _ _ _ 3 created inRange rfl (.inl rfl)
    · rcases usedAlign_two_pow bits with ⟨used, power, multiple⟩
      exact slotsSound_of_two_pow created inRange power (.inr multiple)

theorem slab_slots_sound_sixteen : ∃ cache,
    slabCacheCreate 48 16 none none (some 0x5000) = some (some cache) ∧ SlotsSound cache 48 16 := by
  have created : (slabCacheCreate 48 16 none none (some 0x5000)).bind
      (fun cache => cache.map (fun _ => ())) = some () := by
    decide
  simp only [Option.bind_eq_some_iff, Option.map_eq_some_iff] at created
  rcases created with ⟨_, created, cache, rfl, _⟩
  exact ⟨cache, created, (slab_slots_sound_iff created ⟨by decide, by decide, by decide⟩).mpr
    (.inr ⟨4, rfl⟩)⟩

/-- A cache for objects of 24 bytes on 24-byte boundaries is accepted, and its slots are not on
such boundaries. -/
theorem slab_slots_unaligned : ∃ cache,
    slabCacheCreate 24 24 none none (some 0x5000) = some (some cache) ∧ GeometryInRange 24 24 ∧
      ¬ SlotsSound cache 24 24 := by
  have created : (slabCacheCreate 24 24 none none (some 0x5000)).bind
      (fun cache => cache.map (fun _ => ())) = some () := by
    decide
  simp only [Option.bind_eq_some_iff, Option.map_eq_some_iff] at created
  rcases created with ⟨_, created, cache, rfl, _⟩
  refine ⟨cache, created, ⟨by decide, by decide, by decide⟩, ?_⟩
  intro sound
  rcases align_of_slotsSound sound with zero | ⟨bits, power⟩
  · simp at zero
  · have divides : (3 : ℕ) ∣ 2 ^ bits := by
      rw [← power]
      decide
    exact absurd (Nat.prime_three.dvd_of_dvd_pow divides) (by decide)

end Goshkik
