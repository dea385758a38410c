import Mathlib.Order.Interval.Finset.Nat
import Goshkik.Memory.Pmm

/-!
# The bitmap allocator refines a set of free frames

`FreeFrames` says what the allocator is for: a set of frames that nobody uses
and a set of frames that callers hold.  Allocation moves the least free frame
to the held ones, freeing moves a held frame back.  `Represents` ties the bitmap
to such a pair of sets, every call of the allocator is simulated by a step of
the sets with the same result, and the guarantees about results are read off the
sets.
-/

namespace Goshkik

open Transition

/-- A call of the allocator, with its result or its argument. -/
inductive PmmCall where
  | allocPage (result : ℕ)
  | freePage (page : ℕ)

/-! ## The abstract allocator -/

/-- Frames that are free and frames that callers hold. -/
structure FreeFrames where
  free : Finset ℕ
  held : Finset ℕ
  disjoint : Disjoint free held

namespace FreeFrames

/-- Hand a frame out. -/
def take (frames : FreeFrames) (frame : ℕ) : FreeFrames where
  free := frames.free.erase frame
  held := insert frame frames.held
  disjoint := by
    rw [Finset.disjoint_insert_right]
    exact ⟨by simp, frames.disjoint.mono_left (Finset.erase_subset _ _)⟩

/-- Take a frame back. -/
def release (frames : FreeFrames) (frame : ℕ) : FreeFrames where
  free := insert frame frames.free
  held := frames.held.erase frame
  disjoint := by
    rw [Finset.disjoint_insert_left]
    exact ⟨by simp, frames.disjoint.mono_right (Finset.erase_subset _ _)⟩

/-- The calls of the abstract allocator. -/
inductive Step : FreeFrames → PmmCall → FreeFrames → Prop where
  | allocPage (frames : FreeFrames) (frame : ℕ) (least : IsLeast (frames.free : Set ℕ) frame) :
      Step frames (.allocPage frame) (frames.take frame)
  | exhausted (frames : FreeFrames) (empty : frames.free = ∅) :
      Step frames (.allocPage 0) frames
  | freePage (frames : FreeFrames) (frame : ℕ) (isHeld : frame ∈ frames.held) :
      Step frames (.freePage frame) (frames.release frame)

/-- No call changes which frames there are. -/
theorem Step.union_eq {before after : FreeFrames} {call : PmmCall}
    (step : Step before call after) : after.free ∪ after.held = before.free ∪ before.held := by
  cases step with
  | allocPage frame least =>
      have isFree : frame ∈ before.free := least.1
      ext other
      by_cases same : other = frame <;> simp [take, same, isFree]
  | exhausted empty => rfl
  | freePage frame isHeld =>
      ext other
      by_cases same : other = frame <;> simp [release, same, isHeld]

end FreeFrames

/-! ## The allocator and its callers -/

/-- The allocator together with the frames its callers hold. -/
structure PmmState where
  pmm : Pmm
  held : Finset ℕ

/-- The calls of the allocator by callers that free only frames they hold. -/
inductive PmmStep : PmmState → PmmCall → PmmState → Prop where
  | allocPage (state : PmmState) :
      PmmStep state (.allocPage (pmmAllocPage state.pmm).1)
        { pmm := (pmmAllocPage state.pmm).2
          held := if (pmmAllocPage state.pmm).1 = 0 then state.held
            else insert (pmmAllocPage state.pmm).1 state.held }
  | freePage (state : PmmState) (page : ℕ) (isHeld : page ∈ state.held) :
      PmmStep state (.freePage page)
        { pmm := pmmFreePage state.pmm page
          held := state.held.erase page }

/-- The frames whose bit is clear. -/
def Pmm.freeFrames (pmm : Pmm) : Finset ℕ :=
  ((Finset.range pmm.totalPages).filter (fun i => bitTest pmm.bitmap i = false)).image
    (fun i => pmm.managedBase + i * pageSize)

namespace MemmapEntry

variable (region : MemmapEntry)

/-- The number of leading frames of the region that store the bitmap. -/
def bitmapPages : ℕ :=
  ((region.length / pageSize + 7) / 8 + pageSize - 1) / pageSize

/-- The frames of the region behind the bitmap. -/
def allocatable : Finset ℕ :=
  (Finset.Ico region.bitmapPages (region.length / pageSize)).image
    (fun i => region.base + i * pageSize)

theorem mem_allocatable {frame : ℕ} : frame ∈ region.allocatable ↔
    ∃ i, region.bitmapPages ≤ i ∧ i < region.length / pageSize ∧
      frame = region.base + i * pageSize := by
  simp only [allocatable, Finset.mem_image, Finset.mem_Ico, and_assoc, eq_comm]

/-- All frames free, as after initialisation. -/
def allFree : FreeFrames where
  free := region.allocatable
  held := ∅
  disjoint := Finset.disjoint_empty_right _

end MemmapEntry

/-- A page-aligned region inside the address space. -/
structure MemmapEntry.Regular (region : MemmapEntry) : Prop where
  baseAligned : pageSize ∣ region.base
  lengthAligned : pageSize ∣ region.length
  noWrap : region.base + region.length ≤ 2 ^ 64

/-- The bitmap stores the free frames of the sets, and the sets share out the region. -/
structure Represents (region : MemmapEntry) (state : PmmState) (frames : FreeFrames) : Prop where
  base : state.pmm.managedBase = region.base
  pages : state.pmm.totalPages = region.length / pageSize
  size : state.pmm.pmmBitmapSize = (region.length / pageSize + 7) / 8
  free : frames.free = state.pmm.freeFrames
  held : frames.held = state.held
  total : frames.free ∪ frames.held = region.allocatable

namespace Pmm

variable {pmm : Pmm} {i frame : ℕ}

theorem mem_freeFrames : frame ∈ pmm.freeFrames ↔
    ∃ i, i < pmm.totalPages ∧ bitTest pmm.bitmap i = false ∧
      frame = pmm.managedBase + i * pageSize := by
  simp only [freeFrames, Finset.mem_image, Finset.mem_filter, Finset.mem_range, and_assoc,
    eq_comm]

theorem frameAddress_mem_freeFrames : pmm.managedBase + i * pageSize ∈ pmm.freeFrames ↔
    i < pmm.totalPages ∧ bitTest pmm.bitmap i = false := by
  rw [mem_freeFrames]
  constructor
  · rintro ⟨j, inside, clear, same⟩
    have : i = j := by simp only [pageSize] at same; omega
    exact this ▸ ⟨inside, clear⟩
  · rintro ⟨inside, clear⟩
    exact ⟨i, inside, clear, rfl⟩

/-- Setting a bit removes one frame from the free ones. -/
theorem freeFrames_bitSet : ({ pmm with bitmap := bitSet pmm.bitmap i } : Pmm).freeFrames =
    pmm.freeFrames.erase (pmm.managedBase + i * pageSize) := by
  ext frame
  rw [Finset.mem_erase, mem_freeFrames, mem_freeFrames]
  constructor
  · rintro ⟨j, inside, clear, rfl⟩
    simp only [bitTest_bitSet, Bool.or_eq_false_iff, decide_eq_false_iff_not] at clear
    refine ⟨?_, j, inside, clear.2, rfl⟩
    simp only [pageSize]
    omega
  · rintro ⟨different, j, inside, clear, rfl⟩
    refine ⟨j, inside, ?_, rfl⟩
    have : j ≠ i := by
      rintro rfl
      exact different rfl
    simp [clear, this]

/-- Clearing a bit of the region adds one frame to the free ones. -/
theorem freeFrames_bitClear (inside : i < pmm.totalPages) :
    ({ pmm with bitmap := bitClear pmm.bitmap i } : Pmm).freeFrames =
      insert (pmm.managedBase + i * pageSize) pmm.freeFrames := by
  ext frame
  rw [Finset.mem_insert, mem_freeFrames, mem_freeFrames]
  constructor
  · rintro ⟨j, jInside, clear, rfl⟩
    by_cases same : j = i
    · exact Or.inl (by rw [same])
    · exact Or.inr ⟨j, jInside, by simpa [same] using clear, rfl⟩
  · rintro (rfl | ⟨j, jInside, clear, rfl⟩)
    · exact ⟨i, inside, by simp, rfl⟩
    · exact ⟨j, jInside, by simp [clear], rfl⟩

/-- A page-aligned region inside the address space. -/
structure Managed (pmm : Pmm) : Prop where
  baseAligned : pageSize ∣ pmm.managedBase
  noWrap : pmm.managedBase + pmm.totalPages * pageSize ≤ 2 ^ 64

/-- A frame of the managed region. -/
def Manages (pmm : Pmm) (frame : ℕ) : Prop :=
  ∃ i < pmm.totalPages, frame = pmm.managedBase + i * pageSize

/-- `pmm_alloc_page` takes a free frame, if there is one. -/
theorem pmmAllocPage_cases (managed : pmm.Managed) :
    (pmm.freeFrames = ∅ ∧ pmmAllocPage pmm = (0, pmm)) ∨
      ∃ taken : Pmm, (pmmAllocPage pmm).2 = taken ∧ (pmmAllocPage pmm).1 ∈ pmm.freeFrames ∧
        taken.managedBase = pmm.managedBase ∧ taken.totalPages = pmm.totalPages ∧
        taken.freeFrames = pmm.freeFrames.erase (pmmAllocPage pmm).1 := by
  cases search : (List.range pmm.totalPages).find? (fun i => !bitTest pmm.bitmap i) with
  | none =>
      left
      refine ⟨?_, by simp only [pmmAllocPage, search]⟩
      rw [Finset.eq_empty_iff_forall_notMem]
      intro frame isFree
      rcases mem_freeFrames.mp isFree with ⟨i, inside, clear, _⟩
      have set := List.find?_eq_none.mp search i (List.mem_range.mpr inside)
      simp [clear] at set
  | some i =>
      right
      rcases List.find?_range_eq_some.mp search with ⟨clear, inside, _⟩
      rw [List.mem_range] at inside
      rw [Bool.not_eq_true'] at clear
      have small : (pmm.managedBase + i * pageSize) % 2 ^ 64 = pmm.managedBase + i * pageSize := by
        apply Nat.mod_eq_of_lt
        have noWrap := managed.noWrap
        simp only [pageSize] at noWrap ⊢
        omega
      have result : pmmAllocPage pmm = (pmm.managedBase + i * pageSize,
          { pmm with bitmap := bitSet pmm.bitmap i }) := by
        simp only [pmmAllocPage, search, small]
      refine ⟨_, rfl, ?_, by rw [result], by rw [result], by rw [result, freeFrames_bitSet]⟩
      rw [result]
      exact frameAddress_mem_freeFrames.mpr ⟨inside, clear⟩

end Pmm

namespace Represents

variable {region : MemmapEntry} {state after : PmmState} {frames : FreeFrames}

/-- A frame of the region is not the null address: frame zero of a region that
starts at address zero stores the bitmap. -/
theorem ne_zero_of_mem (related : Represents region state frames) {frame : ℕ}
    (isFree : frame ∈ frames.free) : frame ≠ 0 := by
  have mem : frame ∈ region.allocatable := by
    rw [← related.total]
    exact Finset.mem_union_left _ isFree
  rcases region.mem_allocatable.mp mem with ⟨i, behind, inside, rfl⟩
  simp only [MemmapEntry.bitmapPages, pageSize] at *
  omega

theorem allocPage_result (related : Represents region state frames) (regular : region.Regular)
    {i : ℕ} (found : (List.range state.pmm.totalPages).find?
      (fun i => !bitTest state.pmm.bitmap i) = some i) :
    IsLeast (frames.free : Set ℕ) (state.pmm.managedBase + i * pageSize) ∧
      (state.pmm.managedBase + i * pageSize) % 2 ^ 64 =
        state.pmm.managedBase + i * pageSize := by
  rw [List.find?_range_eq_some] at found
  rcases found with ⟨clear, inside, below⟩
  rw [List.mem_range] at inside
  rw [Bool.not_eq_true'] at clear
  refine ⟨⟨?_, ?_⟩, ?_⟩
  · rw [Finset.mem_coe, related.free, Pmm.frameAddress_mem_freeFrames]
    exact ⟨inside, clear⟩
  · intro frame mem
    rw [Finset.mem_coe, related.free, Pmm.mem_freeFrames] at mem
    rcases mem with ⟨j, _, jClear, rfl⟩
    have : i ≤ j := by
      by_contra smaller
      have set := below j (by omega)
      simp [jClear] at set
    simp only [pageSize]
    omega
  · apply Nat.mod_eq_of_lt
    have := regular.noWrap
    have := related.base
    have := related.pages
    simp only [pageSize] at *
    omega

/-- Allocation in the bitmap is allocation in the sets. -/
theorem allocPage (related : Represents region state frames) (regular : region.Regular)
    {result : ℕ} (step : PmmStep state (.allocPage result) after) :
    ∃ frames', FreeFrames.Step frames (.allocPage result) frames' ∧
      Represents region after frames' := by
  cases step
  cases search : (List.range state.pmm.totalPages).find?
      (fun i => !bitTest state.pmm.bitmap i) with
  | some i =>
      rcases related.allocPage_result regular search with ⟨least, noWrap⟩
      have nonzero := related.ne_zero_of_mem least.1
      have alloc : pmmAllocPage state.pmm = (state.pmm.managedBase + i * pageSize,
          { state.pmm with bitmap := bitSet state.pmm.bitmap i }) := by
        simp only [pmmAllocPage, search, noWrap]
      rw [alloc]
      simp only [if_neg nonzero]
      refine ⟨frames.take _, .allocPage frames _ least,
        related.base, related.pages, related.size, ?_, ?_, ?_⟩
      · rw [Pmm.freeFrames_bitSet, ← related.free]
        rfl
      · rw [← related.held]
        rfl
      · rw [(FreeFrames.Step.allocPage frames _ least).union_eq, related.total]
  | none =>
      have alloc : pmmAllocPage state.pmm = (0, state.pmm) := by
        simp only [pmmAllocPage, search]
      rw [alloc]
      refine ⟨frames, .exhausted frames ?_, related⟩
      rw [List.find?_range_eq_none] at search
      rw [related.free, Finset.eq_empty_iff_forall_notMem]
      intro frame mem
      rcases Pmm.mem_freeFrames.mp mem with ⟨i, inside, clear, _⟩
      have set := search i inside
      simp [clear] at set

/-- Freeing in the bitmap is freeing in the sets. -/
theorem freePage (related : Represents region state frames) {page : ℕ}
    (step : PmmStep state (.freePage page) after) :
    ∃ frames', FreeFrames.Step frames (.freePage page) frames' ∧
      Represents region after frames' := by
  cases step with
  | freePage _ isHeld =>
      rw [← related.held] at isHeld
      have mem : page ∈ region.allocatable := by
        rw [← related.total]
        exact Finset.mem_union_right _ isHeld
      rcases region.mem_allocatable.mp mem with ⟨i, _, inside, rfl⟩
      have index : (region.base + i * pageSize - region.base) / pageSize = i := by
        simp only [pageSize]
        omega
      have freed : pmmFreePage state.pmm (region.base + i * pageSize) =
          { state.pmm with bitmap := bitClear state.pmm.bitmap i } := by
        simp only [pmmFreePage, related.base, related.pages, index, inside, if_true]
        rw [if_neg (by omega)]
      refine ⟨frames.release _, .freePage frames _ isHeld, ?_, ?_, ?_, ?_, ?_, ?_⟩
      · rw [freed]
        exact related.base
      · rw [freed]
        exact related.pages
      · rw [freed]
        exact related.size
      · rw [freed, Pmm.freeFrames_bitClear (by rw [related.pages]; exact inside),
          ← related.free, related.base]
        rfl
      · rw [← related.held]
        rfl
      · rw [(FreeFrames.Step.freePage frames _ isHeld).union_eq, related.total]

/-- Every call of the allocator is simulated by the sets. -/
theorem step (related : Represents region state frames) (regular : region.Regular)
    {call : PmmCall} (step : PmmStep state call after) :
    ∃ frames', FreeFrames.Step frames call frames' ∧ Represents region after frames' := by
  cases call with
  | allocPage result => exact related.allocPage regular step
  | freePage page => exact related.freePage step

end Represents

/-! ## Initialisation -/

section Init

variable (hhdmOffset : ℕ) (stale : ℕ → BitVec 8) {entries : List MemmapEntry}
  {region : MemmapEntry}

/-- `init_pmm` leaves exactly the frames behind the bitmap free. -/
theorem initPmm_represents (biggest : memmapFindBiggestRegion entries = some region) :
    ∃ pmm, initPmm hhdmOffset entries stale = some pmm ∧
      Represents region ⟨pmm, ∅⟩ region.allFree := by
  simp only [initPmm, biggest, Option.some.injEq, exists_eq_left']
  have free : ∀ pmm : Pmm, pmm.managedBase = region.base →
      pmm.totalPages = region.length / pageSize →
      (∀ i < region.length / pageSize,
        bitTest pmm.bitmap i = false ↔ region.bitmapPages ≤ i) →
      region.allocatable = pmm.freeFrames := by
    intro pmm base pages bits
    ext frame
    rw [region.mem_allocatable, Pmm.mem_freeFrames, base, pages]
    constructor
    · rintro ⟨i, behind, inside, rfl⟩
      exact ⟨i, inside, (bits i inside).mpr behind, rfl⟩
    · rintro ⟨i, inside, clear, rfl⟩
      exact ⟨i, (bits i inside).mp clear, inside, rfl⟩
  refine ⟨rfl, rfl, rfl, free _ rfl rfl ?_, rfl, Finset.union_empty _⟩
  intro i inside
  have byteInside : i / 8 < (region.length / pageSize + 7) / 8 := by omega
  have filled : bitTest ((List.range ((region.length / pageSize + 7) / 8)).foldl
      (fun bitmap i => Function.update bitmap i 0xFF#8) stale) i = true := by
    have small : i % 8 < 8 := Nat.mod_lt _ (by omega)
    rw [bitTest_eq_getLsbD, fill_apply, if_pos byteInside]
    have allSet : ∀ bit < 8, (0xFF#8).getLsbD bit = true := by decide
    exact allSet _ small
  have pages : ((region.length / pageSize + 7) / 8 + pageSize - 1) / pageSize =
      region.bitmapPages := rfl
  rw [bitTest_foldl_bitClear, filled, pages]
  simp only [List.mem_range'_1, Bool.and_true, Bool.not_eq_false', decide_eq_true_eq]
  omega

/-- The number of free and held frames never changes. -/
theorem Represents.card_eq {state : PmmState} {frames : FreeFrames}
    (related : Represents region state frames) :
    state.pmm.freeFrames.card + state.held.card = region.allocatable.card := by
  rw [← related.total, Finset.card_union_of_disjoint frames.disjoint, related.free, related.held]

/-- What a caller may rely on when `pmm_alloc_page` returns. -/
structure AllocGuarantee (region : MemmapEntry) (state : PmmState) (result : ℕ) : Prop where
  aligned : result ≠ 0 → pageSize ∣ result
  inside : result ≠ 0 → region.base ≤ result ∧ result + pageSize ≤ region.base + region.length
  bitmapKept : result ≠ 0 → ∀ byte < state.pmm.pmmBitmapSize,
    (region.base + byte) / pageSize ≠ result / pageSize
  unheld : result ≠ 0 → result ∉ state.held
  lowest : result ≠ 0 → IsLeast (state.pmm.freeFrames : Set ℕ) result
  exhausted : result = 0 ↔ state.pmm.freeFrames = ∅

theorem Represents.allocGuarantee {state after : PmmState} {frames : FreeFrames}
    (related : Represents region state frames) (regular : region.Regular) {result : ℕ}
    (step : PmmStep state (.allocPage result) after) : AllocGuarantee region state result := by
  rcases related.allocPage regular step with ⟨frames', abstractStep, _⟩
  cases abstractStep with
  | allocPage frame least =>
      have isFree : result ∈ frames.free := least.1
      have nonzero := related.ne_zero_of_mem isFree
      have mem : result ∈ region.allocatable := by
        rw [← related.total]
        exact Finset.mem_union_left _ isFree
      have size := related.size
      have nonempty : state.pmm.freeFrames ≠ ∅ := by
        rw [← related.free]
        exact Finset.ne_empty_of_mem isFree
      rcases region.mem_allocatable.mp mem with ⟨i, behind, inside, same⟩
      rcases regular.baseAligned with ⟨base, baseEq⟩
      rcases regular.lengthAligned with ⟨length, lengthEq⟩
      refine ⟨fun _ => ?_, fun _ => ?_, fun _ => ?_, fun _ => ?_, fun _ => ?_, ?_⟩
      · exact ⟨base + i, by rw [same, baseEq]; ring⟩
      · simp only [pageSize] at *
        omega
      · intro byte byteInside
        simp only [MemmapEntry.bitmapPages, pageSize] at *
        omega
      · rw [← related.held]
        exact Finset.disjoint_left.mp frames.disjoint isFree
      · rw [← related.free]
        exact least
      · exact ⟨fun isZero => absurd isZero nonzero, fun empty => absurd empty nonempty⟩
  | exhausted empty =>
      rw [related.free] at empty
      refine ⟨?_, ?_, ?_, ?_, ?_, fun _ => empty, fun _ => rfl⟩ <;> simp

/-- The bitmap allocator refines a set of free frames. -/
theorem pmm_refines_free_frames (biggest : memmapFindBiggestRegion entries = some region)
    (regular : region.Regular) :
    ∃ pmm, initPmm hhdmOffset entries stale = some pmm ∧
      ∀ calls state, Run PmmStep ⟨pmm, ∅⟩ calls state →
        (∃ frames, Run FreeFrames.Step region.allFree calls frames ∧
          Represents region state frames) ∧
        state.pmm.freeFrames.card + state.held.card = region.allocatable.card ∧
        ∀ result after, PmmStep state (.allocPage result) after →
          AllocGuarantee region state result := by
  rcases initPmm_represents hhdmOffset stale biggest with
    ⟨pmm, initialised, start⟩
  refine ⟨pmm, initialised, ?_⟩
  intro calls state run
  rcases run.simulate (fun _ _ _ _ related step => related.step regular step) start with
    ⟨frames, abstractRun, related⟩
  exact ⟨⟨frames, abstractRun, related⟩, related.card_eq,
    fun result after step => related.allocGuarantee regular step⟩

end Init

/-- The refinement for a map with one usable region of sixteen frames. -/
theorem pmm_refines_free_frames_sixteen :
    memmapFindBiggestRegion [⟨0, 0x9000, 1⟩, ⟨0x100000, 0x10000, 0⟩] =
        some ⟨0x100000, 0x10000, 0⟩ ∧
      ∃ pmm, initPmm 0xFFFF800000000000 [⟨0, 0x9000, 1⟩, ⟨0x100000, 0x10000, 0⟩]
          (fun _ => 0#8) = some pmm ∧
        ∀ result after, PmmStep ⟨pmm, ∅⟩ (.allocPage result) after →
          AllocGuarantee ⟨0x100000, 0x10000, 0⟩ ⟨pmm, ∅⟩ result := by
  have biggest : memmapFindBiggestRegion [⟨0, 0x9000, 1⟩, ⟨0x100000, 0x10000, 0⟩] =
      some ⟨0x100000, 0x10000, 0⟩ := by decide
  rcases pmm_refines_free_frames 0xFFFF800000000000 (fun _ => 0#8) biggest
    ⟨by decide, by decide, by decide⟩ with ⟨pmm, initialised, always⟩
  exact ⟨biggest, pmm, initialised, (always [] _ (.nil _)).2.2⟩

end Goshkik
