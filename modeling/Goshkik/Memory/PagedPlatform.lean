import Goshkik.Memory.AddressSpace
import Goshkik.Memory.HardwareWalk
import Goshkik.Memory.PmmRefinement

/-!
# The virtual memory manager behind its own page tables

The direct map is itself a part of the page tables that the virtual memory manager changes.  Here
every access goes through the page tables at some root, whose pages all have 4 KiB, and what keeps
the direct map valid is a predicate of physical memory.
-/

namespace Goshkik

open Platform RadixTree

/-- The physical address behind a virtual one in page tables without large pages. -/
def pageTranslate (root : ℕ) (memory : ℕ → ℕ) (virtual : ℕ) : Option ℕ :=
  (leafEntry memory root (tablePath virtual) (pageIndex virtual)).map
    (fun entry => (entry &&& pageMask) + virtual % pageSizeVmm)

/-- The value of `g_hhdm_offset`. -/
def higherHalf : ℕ := 0xFFFF800000000000

/-- The kernel on a processor whose page tables are at a root. -/
def pagedPlatform (root : ℕ) : Platform Pmm := kernelPlatform higherHalf (pageTranslate root)

@[simp]
theorem pagedPlatform_pmmAllocPage (root : ℕ) : (pagedPlatform root).pmmAllocPage = pmmAllocPage :=
  rfl

/-- The frames of physical memory that the kernel uses.  The direct map has room for 128 TiB. -/
structure PhysicalMemory where
  frames : Set ℕ
  isFrame : ∀ frame ∈ frames, IsFrame frame
  below : ∀ frame ∈ frames, frame < 2 ^ 47

/-- The direct map leads to each frame. -/
def DirectlyMapped (root : ℕ) (physical : PhysicalMemory) (memory : ℕ → ℕ) : Prop :=
  ∀ frame ∈ physical.frames, ∃ entry,
    leafEntry memory root (tablePath (higherHalf + frame)) (pageIndex (higherHalf + frame)) =
      some entry ∧
      entry &&& pageMask = frame

/-! ## The translation -/

section Translate

variable {root virtual : ℕ} {memory : ℕ → ℕ}

theorem entryChild_eq_presentEntry (memory : ℕ → ℕ) (table : ℕ) (index : Fin 512) :
    entryChild (tableRead memory table index) =
      (presentEntry memory table index).map (· &&& pageMask) := by
  unfold entryChild presentEntry tableRead
  split <;> rfl

/-- One level of the walk of the processor where there are no large pages. -/
theorem SmallOnly.hardwareLeaf_eq {level table : ℕ}
    (small : SmallOnly memory virtual (level + 1) table) :
    hardwareLeaf memory virtual (level + 1) table =
      (presentEntry memory table (levelIndex virtual (level + 1))).bind
        (fun entry => hardwareLeaf memory virtual level (entry &&& pageMask)) := by
  cases present : presentEntry memory table (levelIndex virtual (level + 1)) with
  | none => rw [hardwareLeaf_absent present, Option.bind_none]
  | some entry => rw [hardwareLeaf_pointer present (small.pointer present), Option.bind_some]

theorem SmallOnly.hardwareLeaf_next {level table : ℕ} {index : Fin 512}
    (small : SmallOnly memory virtual (level + 1) table)
    (isIndex : index.val = levelIndex virtual (level + 1))
    {rest : List (Fin 512)} {page : Fin 512}
    (below : ∀ next, SmallOnly memory virtual level next → hardwareLeaf memory virtual level next =
      (leafEntry memory next rest page).map (fun entry => (entry, 0))) :
    hardwareLeaf memory virtual (level + 1) table =
      (leafEntry memory table (index :: rest) page).map (fun entry => (entry, 0)) := by
  rw [small.hardwareLeaf_eq, leafEntry, tableAt, descend, entryChild_eq_presentEntry, isIndex]
  cases present : presentEntry memory table (levelIndex virtual (level + 1)) with
  | none => rfl
  | some entry => exact below _ (small.below present)

theorem val_ofNat_levelIndex (virtual level : ℕ) :
    (Fin.ofNat 512 (levelIndex virtual level)).val = levelIndex virtual level :=
  val_ofNat_index (levelIndex_lt virtual level)

/-- Without large pages it is the translation of the processor. -/
theorem hardwareTranslate_eq (small : SmallOnly memory virtual 3 root) :
    hardwareTranslate memory root virtual = pageTranslate root memory virtual := by
  have leaf : hardwareLeaf memory virtual 3 root =
      (leafEntry memory root (tablePath virtual) (pageIndex virtual)).map (fun entry =>
        (entry, 0)) := by
    refine small.hardwareLeaf_next (val_ofNat_levelIndex virtual 3) fun pdpt small => ?_
    refine small.hardwareLeaf_next (val_ofNat_levelIndex virtual 2) fun pd small => ?_
    refine small.hardwareLeaf_next (val_ofNat_levelIndex virtual 1) fun pt _ => ?_
    have arrives : tableAt memory pt [] = some pt := rfl
    rw [hardwareLeaf, leafEntry_of_tableAt arrives]
    have index : (pageIndex virtual).val = levelIndex virtual 0 := val_ofNat_levelIndex virtual 0
    rw [tableRead, index, presentEntry]
  rw [hardwareTranslate, pageTranslate, leaf]
  cases leafEntry memory root (tablePath virtual) (pageIndex virtual) with
  | none => rfl
  | some entry =>
      have aligned : (entry &&& pageMask) / 4096 * 4096 = entry &&& pageMask := by
        rw [and_pageMask]
        omega
      simp [aligned, pageSizeVmm, Nat.mod_one]

/-- The words of a page are translated together. -/
theorem pageTranslate_add {entry offset : ℕ} (aligned : virtual % pageSizeVmm = 0)
    (inside : offset < pageSizeVmm)
    (leaf : leafEntry memory root (tablePath virtual) (pageIndex virtual) = some entry) :
    pageTranslate root memory (virtual + offset) = some ((entry &&& pageMask) + offset) := by
  simp only [pageSizeVmm] at aligned inside
  have samePage : virtualPage (virtual + offset) = virtualPage virtual := by
    simp only [virtualPage]
    omega
  rcases tablePath_pageIndex_eq_iff.mpr samePage with ⟨samePath, sameIndex⟩
  have sameOffset : (virtual + offset) % pageSizeVmm = offset := by
    simp only [pageSizeVmm]
    omega
  rw [pageTranslate, samePath, sameIndex, leaf, sameOffset]
  rfl

end Translate

/-! ## The direct map -/

variable {root : ℕ} {physical : PhysicalMemory} {memory : ℕ → ℕ} {frame : ℕ}

theorem slot_higherHalf (isFrame : frame ∈ physical.frames) (index : Fin 512) :
    (pagedPlatform root).slot frame index = higherHalf + frame + 8 * index.val := by
  have below := physical.below frame isFrame
  have aligned := isFrame_iff.mp (physical.isFrame frame isFrame)
  have small := index.isLt
  simp only [Platform.slot, physicalToVirtual, pagedPlatform, kernelPlatform, higherHalf]
  omega

theorem higherHalf_aligned (isFrame : frame ∈ physical.frames) :
    (higherHalf + frame) % pageSizeVmm = 0 := by
  have aligned := (isFrame_iff.mp (physical.isFrame frame isFrame)).1
  simp only [higherHalf, pageSizeVmm]
  omega

theorem DirectlyMapped.slot (mapped : DirectlyMapped root physical memory)
    (isFrame : frame ∈ physical.frames)
    (index : Fin 512) {platform : ℕ} :
    pageTranslate root memory ((pagedPlatform platform).slot frame index) =
      some (frame + 8 * index.val) := by
  have small := index.isLt
  rcases mapped frame isFrame with ⟨entry, leaf, leads⟩
  rw [slot_higherHalf isFrame, pageTranslate_add (higherHalf_aligned isFrame)
    (by simp only [pageSizeVmm]; omega) leaf, leads]

/-- Frames of the allocator that are physical memory. -/
structure Pmm.Within (pmm : Pmm) (physical : PhysicalMemory) : Prop where
  managed : pmm.Managed
  frames : ∀ frame, pmm.Manages frame → frame ∈ physical.frames

theorem Pmm.Within.of_region {pmm taken : Pmm} (inside : pmm.Within physical)
    (base : taken.managedBase = pmm.managedBase) (pages : taken.totalPages = pmm.totalPages) :
    taken.Within physical := by
  refine ⟨⟨base ▸ inside.managed.baseAligned, ?_⟩, fun frame manages => inside.frames frame ?_⟩
  · rw [base, pages]
    exact inside.managed.noWrap
  · rcases manages with ⟨i, small, rfl⟩
    exact ⟨i, pages ▸ small, by rw [base]⟩

theorem Pmm.Within.free {pmm : Pmm} (inside : pmm.Within physical) (free : frame ∈ pmm.freeFrames) :
    frame ∈ physical.frames := by
  rcases Pmm.mem_freeFrames.mp free with ⟨i, small, _, rfl⟩
  exact inside.frames _ ⟨i, small, rfl⟩

theorem Pmm.Within.allocPage {pmm : Pmm} (inside : pmm.Within physical)
    (nonzero : (pmmAllocPage pmm).1 ≠ 0) :
    (pmmAllocPage pmm).2.Within physical ∧ (pmmAllocPage pmm).1 ∈ pmm.freeFrames ∧
      (pmmAllocPage pmm).2.freeFrames = pmm.freeFrames.erase (pmmAllocPage pmm).1 := by
  rcases Pmm.pmmAllocPage_cases inside.managed with
    ⟨_, exhausted⟩ | ⟨taken, rfl, isFree, base, pages, erased⟩
  · rw [exhausted] at nonzero
    exact absurd rfl nonzero
  · exact ⟨inside.of_region base pages, isFree, erased⟩

/-- Page tables in frames that the direct map leads to. -/
def pagedEnvironment (root : ℕ) (physical : PhysicalMemory) :
    (pagedPlatform root).Environment root where
  frames := physical.frames
  valid pmm := pmm.Within physical
  available pmm := pmm.freeFrames
  good := DirectlyMapped root physical
  isFrame := physical.isFrame
  available_frames _ inside _ free := inside.free free
  alloc pmm inside nonzero := by
    rcases inside.allocPage nonzero with ⟨insideAfter, isFree, erased⟩
    change (pmmAllocPage pmm).2.Within physical ∧ (pmmAllocPage pmm).1 ∈ pmm.freeFrames ∧
      (pmmAllocPage pmm).1 ∉ (pmmAllocPage pmm).2.freeFrames ∧
      ((pmmAllocPage pmm).2.freeFrames : Set ℕ) ⊆ pmm.freeFrames
    rw [erased]
    exact ⟨insideAfter, isFree, Finset.notMem_erase _ _, by simp⟩
  direct _ mapped _ isFrame index := mapped.slot isFrame index
  congr _ _ mapped same frame isFrame := by
    rcases mapped frame isFrame with ⟨entry, leaf, leads⟩
    exact ⟨entry, by rw [same _ _ (tablePath_length _), leaf], leads⟩

/-- A mapping that is not made over the direct map leaves it as it is. -/
theorem DirectlyMapped.map {virtual word : ℕ} {after : ℕ → ℕ}
    (mapped : DirectlyMapped root physical memory)
    (leaves : ∀ path page, path.length = 3 → leafEntry after root path page =
      if path = tablePath virtual ∧ page = pageIndex virtual then some word
      else leafEntry memory root path page)
    (harmless : ∀ frame ∈ physical.frames, virtualPage virtual = virtualPage (higherHalf + frame) →
      word &&& pageMask = frame) : DirectlyMapped root physical after := by
  intro frame isFrame
  rw [leaves _ _ (tablePath_length _)]
  by_cases same : virtualPage (higherHalf + frame) = virtualPage virtual
  · rw [if_pos (tablePath_pageIndex_eq_iff.mpr same)]
    exact ⟨word, rfl, harmless frame isFrame same.symm⟩
  · rw [if_neg (fun here => same (tablePath_pageIndex_eq_iff.mp here))]
    exact mapped frame isFrame

end Goshkik
