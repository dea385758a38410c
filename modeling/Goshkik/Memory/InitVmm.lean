import Goshkik.Memory.PagedPlatform
import Goshkik.Memory.VmmSpares

/-!
# The first page tables of the kernel

`init_vmm` takes over the upper half of the bootloader's page tables, maps usable memory to itself
and maps the bitmap of the frame allocator again.  The processor still has the root of the
bootloader while this happens, and `Boot` is what the bootloader promises about it.
-/

namespace Goshkik

open RadixTree Platform

namespace Platform

variable {Pages : Type} (platform : Platform Pages)

/-- The loop over the pages of a usable entry. -/
def mapIdentity (last : ℕ) : ℕ → ℕ → Vmm Pages → Option (Vmm Pages)
  | 0, _, _ => none
  | fuel + 1, address, vmm =>
      if address < last then do
        let vmm ← platform.vmmMap address address vmmWrite vmm
        mapIdentity last fuel ((address + pageSizeVmm) % 2 ^ 64) vmm
      else some vmm

/-- The loop over the memory map. -/
def mapUsable (fuel : ℕ) : List MemmapEntry → Vmm Pages → Option (Vmm Pages)
  | [], vmm => some vmm
  | entry :: entries, vmm =>
      if entry.type = memmapUsable then do
        let vmm ← platform.mapIdentity ((entry.base + entry.length) % 2 ^ 64) fuel entry.base vmm
        mapUsable fuel entries vmm
      else mapUsable fuel entries vmm

/-- The loop over the pages of the bitmap. -/
def mapBitmap (bitmapPhysical size : ℕ) : ℕ → ℕ → Vmm Pages → Option (Vmm Pages)
  | 0, _, _ => none
  | fuel + 1, i, vmm =>
      if i < size then do
        let vmm ← platform.vmmMap ((bitmapPhysical + platform.hhdmOffset + i) % 2 ^ 64)
          ((bitmapPhysical + i) % 2 ^ 64) vmmWrite vmm
        mapBitmap bitmapPhysical size fuel ((i + pageSizeVmm) % 2 ^ 64) vmm
      else some vmm

end Platform

/-- The bitmap is mapped again if there is one. -/
def mapPmmBitmap (platform : Platform Pmm) (fuel : ℕ) (vmm : Vmm Pmm) : Option (Vmm Pmm) :=
  if vmm.pages.pmmBitmap ≠ 0 ∧ vmm.pages.pmmBitmapSize ≠ 0 then
    platform.mapBitmap (platform.virtualToPhysical vmm.pages.pmmBitmap) vmm.pages.pmmBitmapSize fuel
      0 vmm
  else some vmm

/-- The processor gets the new root at the end; until then it has the one in `cr3`. -/
def initVmm (platform : Platform Pmm) (cr3 : ℕ) (memmap : List MemmapEntry) (fuel : ℕ)
    (vmm : Vmm Pmm) :
    Option (Vmm Pmm) := do
  let (newPml4, vmm) ← platform.allocTable vmm
  let vmm ← platform.copyEntries (cr3 &&& pageMask) newPml4
    (List.range' 256 (entriesPerTable - 256))
    { vmm with currentPml4 := newPml4 }
  let vmm ← platform.mapUsable fuel memmap vmm
  let vmm ← mapPmmBitmap platform fuel vmm
  return { vmm with currentPml4 := vmm.currentPml4 &&& pageMask }

/-- A path that does not start in the lower half. -/
def Upper (path : List (Fin 512)) : Prop := ∀ first ∈ path.head?, 256 ≤ first.val

/-- What the bootloader hands over: a memory map whose usable regions lie below the end of the
direct map, and page tables outside of the biggest one, in whose upper half no table is reached
twice and each frame of physical memory is mapped behind the offset by a page of its own. -/
structure Boot where
  physical : PhysicalMemory
  memmap : List MemmapEntry
  region : MemmapEntry
  memory : ℕ → ℕ
  cr3 : ℕ
  biggest : memmapFindBiggestRegion memmap = some region
  regular : region.Regular
  usable : ∀ entry ∈ memmap, entry.type = memmapUsable → entry.base + entry.length ≤ 2 ^ 47
  managed : ∀ i < region.length / pageSize, region.base + i * pageSize ∈ physical.frames
  tables : ∀ path table, Upper path → path.length ≤ 3 → tableAt memory (cr3 &&& pageMask) path =
    some table →
    table ∈ physical.frames ∧ ∀ i < region.length / pageSize, table ≠ region.base + i * pageSize
  unshared : ∀ left right table, Upper left → Upper right → left.length ≤ 3 → right.length ≤ 3 →
    tableAt memory (cr3 &&& pageMask) left = some table → tableAt memory (cr3 &&& pageMask) right =
      some table →
      left = right
  direct : DirectlyMapped (cr3 &&& pageMask) physical memory

/-! ## Two roots with one upper half -/

/-- Two roots with the same entries in the upper half. -/
def SameUpper (memory : ℕ → ℕ) (old new : ℕ) : Prop :=
  ∀ index : Fin 512, 256 ≤ index.val → tableRead memory old index = tableRead memory new index

section SameUpper

variable {physical : PhysicalMemory} {memory : ℕ → ℕ} {old new table virtual : ℕ}
  {vmm after : Vmm Pmm}
  {above : List (Fin 512)}

theorem tableAt_cons (memory : ℕ → ℕ) (root : ℕ) (first : Fin 512) (rest : List (Fin 512)) :
    tableAt memory root (first :: rest) =
      (entryChild (tableRead memory root first)).bind (fun table => tableAt memory table rest) :=
        rfl

theorem leafEntry_cons (memory : ℕ → ℕ) (root : ℕ) (first : Fin 512) (rest : List (Fin 512))
    (page : Fin 512) :
    leafEntry memory root (first :: rest) page =
      (entryChild (tableRead memory root first)).bind (fun table =>
        leafEntry memory table rest page) := by
  rw [leafEntry, tableAt, descend, Option.bind_assoc]
  rfl

theorem SameUpper.leafEntry (same : SameUpper memory old new) {first : Fin 512}
    (upper : 256 ≤ first.val)
    (rest : List (Fin 512)) (page : Fin 512) :
    leafEntry memory old (first :: rest) page = leafEntry memory new (first :: rest) page := by
  rw [leafEntry_cons, leafEntry_cons, same first upper]

theorem SameUpper.translate (same : SameUpper memory old new) (upper : 256 ≤ pml4Index virtual) :
    pageTranslate old memory virtual = pageTranslate new memory virtual := by
  have first : 256 ≤ (Fin.ofNat 512 (pml4Index virtual)).val := by
    rwa [val_ofNat_index (pml4Index_lt virtual)]
  rw [pageTranslate, pageTranslate, tablePath, same.leafEntry first]

/-- The direct map is in the upper half. -/
theorem pml4Index_higherHalf {frame : ℕ} (isFrame : frame ∈ physical.frames) {offset : ℕ}
    (inside : offset < pageSizeVmm) :
    256 ≤ pml4Index (higherHalf + frame + offset) := by
  have below := physical.below frame isFrame
  have aligned := (isFrame_iff.mp (physical.isFrame frame isFrame)).1
  rw [pml4Index_eq]
  simp only [higherHalf, pageSizeVmm] at *
  omega

theorem pml4Index_slot (isFrame : table ∈ physical.frames) (index : Fin 512) {root : ℕ} :
    256 ≤ pml4Index ((pagedPlatform root).slot table index) := by
  have small := index.isLt
  rw [slot_higherHalf isFrame]
  exact pml4Index_higherHalf isFrame (by simp only [pageSizeVmm]; omega)

theorem SameUpper.load (same : SameUpper vmm.memory old new) (isFrame : table ∈ physical.frames)
    (index : Fin 512) :
    (pagedPlatform old).load vmm ((pagedPlatform new).slot table index) =
      (pagedPlatform new).load vmm ((pagedPlatform new).slot table index) :=
  congrArg (Option.map vmm.memory) (same.translate (pml4Index_slot isFrame index))

theorem SameUpper.store (same : SameUpper vmm.memory old new) (isFrame : table ∈ physical.frames)
    (index : Fin 512)
    (word : ℕ) : (pagedPlatform old).store vmm ((pagedPlatform new).slot table index) word =
      (pagedPlatform new).store vmm ((pagedPlatform new).slot table index) word :=
  congrArg (Option.map _) (same.translate (pml4Index_slot isFrame index))

theorem SameUpper.allocTable (same : SameUpper vmm.memory old new)
    (isFrame : (pmmAllocPage vmm.pages).1 ∈ physical.frames) :
    (pagedPlatform old).allocTable vmm = (pagedPlatform new).allocTable vmm := by
  have upper : 256 ≤
      pml4Index ((pagedPlatform new).physicalToVirtual (pmmAllocPage vmm.pages).1) := by
    have start : (pagedPlatform new).slot (pmmAllocPage vmm.pages).1 (0 : Fin 512).val =
        (pagedPlatform new).physicalToVirtual (pmmAllocPage vmm.pages).1 := by
      simp [slot, physicalToVirtual]
    exact start ▸ pml4Index_slot isFrame 0
  have clears : (pagedPlatform old).memsetPage { vmm with pages := (pmmAllocPage vmm.pages).2 }
        ((pagedPlatform old).physicalToVirtual (pmmAllocPage vmm.pages).1) =
      (pagedPlatform new).memsetPage { vmm with pages := (pmmAllocPage vmm.pages).2 }
        ((pagedPlatform new).physicalToVirtual (pmmAllocPage vmm.pages).1) :=
    congrArg (Option.map _) (same.translate upper)
  simp only [Platform.allocTable, pagedPlatform_pmmAllocPage, clears]
  rfl

/-- The state of `init_vmm` after the upper half has been copied from the old root to the new
one. -/
structure Booting (physical : PhysicalMemory) (old new : ℕ) (vmm : Vmm Pmm) : Prop where
  shape : Shape (pagedEnvironment new physical) vmm
  mapped : DirectlyMapped new physical vmm.memory
  same : SameUpper vmm.memory old new
  isFrame : IsFrame old
  noTable : ¬IsTable vmm.memory new old
  taken : old ∉ vmm.pages.freeFrames

namespace Booting

/-- The entries of the root that a call may fill are in the lower half. -/
def MayFill (memory : ℕ → ℕ) (new : ℕ) (touched : Set (Fin 512)) : Prop :=
  ∀ index ∈ touched, index.val < 256 ∨ entryChild (tableRead memory new index) ≠ none

theorem sameUpper {touched : Set (Fin 512)} (booting : Booting physical old new vmm)
    (fills : MayFill vmm.memory new touched)
    (spares : Spares (pagedEnvironment new physical) touched vmm after) :
    SameUpper after.memory old new := by
  intro index upper
  rw [spares.words old booting.isFrame booting.noTable booting.taken index,
    booting.same index upper]
  refine (spares.entries index ?_).symm
  by_cases inside : index ∈ touched
  · exact .inl ((fills index inside).resolve_left (by omega))
  · exact .inr inside

theorem next {touched : Set (Fin 512)} (booting : Booting physical old new vmm)
    (fills : MayFill vmm.memory new touched)
    (extended : Extends (pagedEnvironment new physical) vmm after)
    (spares : Spares (pagedEnvironment new physical) touched vmm after) :
    Booting physical old new after := by
  rcases spares.outside booting.noTable booting.taken with ⟨noTable, taken⟩
  exact ⟨extended.shape, extended.good, booting.sameUpper fills spares, booting.isFrame, noTable,
    taken⟩

theorem mayFill_next {touched more : Set (Fin 512)} (fills : MayFill vmm.memory new more)
    (spares : Spares (pagedEnvironment new physical) touched vmm after) :
    MayFill after.memory new more := by
  intro index inside
  refine (fills index inside).imp_right fun present => ?_
  rwa [spares.entries index (.inl present)]

theorem sameUpper_zeroFrame (booting : Booting physical old new vmm) {frame : ℕ}
    (free : frame ∈ vmm.pages.freeFrames) :
    SameUpper (zeroFrame vmm.memory frame) old new := by
  have isFrame := physical.isFrame frame (booting.shape.valid.free free)
  have notOld : old ≠ frame := fun same => booting.taken (same ▸ free)
  have notNew : new ≠ frame := fun same =>
    booting.shape.fresh frame free (same ▸ isTable_root _ new)
  have newFrame := booting.shape.isFrame_of_isTable (isTable_root _ new)
  intro index upper
  have same := booting.same index upper
  simp only [tableRead] at same ⊢
  rw [zeroFrame_outside _ _ isFrame booting.isFrame notOld,
    zeroFrame_outside _ _ isFrame newFrame notNew, same]

/-- Under both roots a level of a walk does the same. -/
theorem nextTable_eq {touched : Set (Fin 512)} {index : ℕ} (booting : Booting physical old new vmm)
    (fills : MayFill vmm.memory new touched) (arrives : tableAt vmm.memory new above = some table)
    (short : above.length < 3) (small : index < 512)
    (first : above = [] → Fin.ofNat 512 index ∈ touched) :
    (pagedPlatform old).nextTable true ((pagedPlatform new).slot table index) vmm =
      (pagedPlatform new).nextTable true ((pagedPlatform new).slot table index) vmm := by
  have slotEq : (pagedPlatform new).slot table index =
      (pagedPlatform new).slot table (Fin.ofNat 512 index).val := by
    rw [val_ofNat_index small]
  have shape := booting.shape
  have mem := shape.tables table ⟨above, by omega, arrives⟩
  rw [slotEq]
  generalize Fin.ofNat 512 index = index at first
  have loads := load_slot vmm booting.mapped mem index
  by_cases present : tableRead vmm.memory table index &&& vmmPresent = 0
  · have absent : entryChild (tableRead vmm.memory table index) = none := if_pos present
    by_cases exhausted : (pmmAllocPage vmm.pages).1 = 0
    · have noTable : ∀ root, (pagedPlatform root).allocTable vmm = none := fun root =>
        if_pos exhausted
      simp only [nextTable, booting.same.load mem index, loads, noTable, Option.bind_eq_bind,
        Option.bind_some, Option.bind_none]
    · rcases shape.valid.allocPage exhausted with ⟨_, isFree, _⟩
      have frameMem := shape.valid.free isFree
      have fresh := shape.fresh _ isFree
      have created := nextTable_create_eq shape booting.mapped arrives short absent exhausted
      have extended := (extends_attachNext shape booting.mapped arrives short absent exhausted).1
      have spares := spares_attachNext shape arrives short absent exhausted first
      have attached := booting.next fills extended spares
      let zeroed : Vmm Pmm := { vmm with
        memory := zeroFrame vmm.memory (pmmAllocPage vmm.pages).1, pages :=
          (pmmAllocPage vmm.pages).2 }
      have good : (pagedEnvironment new physical).good vmm.memory := booting.mapped
      have zeroes : (pagedPlatform new).allocTable vmm =
          some ((pmmAllocPage vmm.pages).1, zeroed) :=
        allocTable_frame good exhausted frameMem
      have sameZeroed : SameUpper zeroed.memory old new := booting.sameUpper_zeroFrame isFree
      have mappedZeroed : DirectlyMapped new physical zeroed.memory :=
        (pagedEnvironment new physical).congr _ _ booting.mapped
          (shape.leafEntry_zeroFrame frameMem fresh)
      have stores := store_slot zeroed mappedZeroed mem index (newEntry (pmmAllocPage vmm.pages).1)
      have storesOld :=
        (sameZeroed.store mem index (newEntry (pmmAllocPage vmm.pages).1)).trans stores
      have reloads := attached.same.load mem index
      simp only [nextTable, booting.same.load mem index, loads, booting.same.allocTable frameMem,
        zeroes, Option.bind_eq_bind, Option.bind_some]
      rw [if_neg (not_not.mpr present), if_neg (not_not.mpr present), if_pos trivial,
        if_pos trivial]
      change Option.bind ((pagedPlatform old).store zeroed _ (newEntry _)) _ =
        Option.bind ((pagedPlatform new).store zeroed _ (newEntry _)) _
      rw [storesOld, stores]
      exact congrArg (Option.bind · _) reloads
  · simp [nextTable, booting.same.load mem index, loads, present]

theorem walk_eq (booting : Booting physical old new vmm)
    (fills : MayFill vmm.memory new {rootIndex virtual}) :
    (pagedPlatform old).walk virtual true vmm = (pagedPlatform new).walk virtual true vmm := by
  have start : tableAt vmm.memory new [] = some new := rfl
  have firstEq := booting.nextTable_eq fills start (by simp) (pml4Index_lt virtual)
    (fun _ => ofNat_pml4Index virtual)
  rw [walk, walk, booting.shape.pml4]
  change Option.bind
    ((pagedPlatform old).nextTable true ((pagedPlatform new).slot new (pml4Index virtual)) vmm) _ =
    Option.bind ((pagedPlatform new).nextTable true
      ((pagedPlatform new).slot new (pml4Index virtual)) vmm) _
  rw [firstEq]
  cases firstLevel :
    (pagedPlatform new).nextTable true ((pagedPlatform new).slot new (pml4Index virtual)) vmm with
  | none => rfl
  | some found =>
  rcases found with ⟨next, one⟩
  rcases nextTable_spares {rootIndex virtual} booting.shape booting.mapped start (by simp)
    (pml4Index_lt virtual) (fun _ => ofNat_pml4Index virtual) firstLevel with
    ⟨extendsOne, sparesOne, pdpt, rfl, pdptEq⟩
  have bootingOne := booting.next fills extendsOne sparesOne
  have fillsOne := mayFill_next fills sparesOne
  have secondEq := bootingOne.nextTable_eq fillsOne pdptEq (by simp) (pdptIndex_lt virtual)
    (by simp)
  change Option.bind
    ((pagedPlatform old).nextTable true ((pagedPlatform new).slot pdpt (pdptIndex virtual)) one) _ =
    Option.bind ((pagedPlatform new).nextTable true
      ((pagedPlatform new).slot pdpt (pdptIndex virtual)) one) _
  rw [secondEq]
  cases secondLevel :
    (pagedPlatform new).nextTable true ((pagedPlatform new).slot pdpt (pdptIndex virtual)) one with
  | none => rfl
  | some found =>
  rcases found with ⟨next, two⟩
  rcases nextTable_spares {rootIndex virtual} extendsOne.shape extendsOne.good pdptEq (by simp)
    (pdptIndex_lt virtual) (by simp) secondLevel with ⟨extendsTwo, sparesTwo, pd, rfl, pdEq⟩
  have bootingTwo := bootingOne.next fillsOne extendsTwo sparesTwo
  have thirdEq := bootingTwo.nextTable_eq (mayFill_next fillsOne sparesTwo) pdEq (by simp)
    (pdIndex_lt virtual) (by simp)
  change Option.bind
    ((pagedPlatform old).nextTable true ((pagedPlatform new).slot pd (pdIndex virtual)) two) _ =
    Option.bind ((pagedPlatform new).nextTable true ((pagedPlatform new).slot pd (pdIndex virtual))
      two) _
  rw [thirdEq]
  rfl

/-- While the processor still has the old root, `vmm_map` does what it would do behind the new
one. -/
theorem vmmMap_eq {frame flags : ℕ} (booting : Booting physical old new vmm)
    (fills : MayFill vmm.memory new {rootIndex virtual}) :
    (pagedPlatform old).vmmMap virtual frame flags vmm =
      (pagedPlatform new).vmmMap virtual frame flags vmm := by
  rw [vmmMap, vmmMap, booting.walk_eq fills]
  cases walks : (pagedPlatform new).walk virtual true vmm with
  | none => rfl
  | some found =>
      rcases found with ⟨pte, walked⟩
      rcases walk_spares booting.shape booting.mapped (Set.mem_singleton _) walks with
        ⟨extended, spares, table, rfl, arrives⟩
      have mem := extended.shape.tables table ⟨tablePath virtual, by simp, arrives⟩
      have index : ptIndex virtual = (pageIndex virtual).val :=
        (val_ofNat_index (ptIndex_lt virtual)).symm
      have stores := (booting.next fills extended spares).same.store mem (pageIndex virtual)
        ((frame &&& pageMask) ||| flags ||| vmmPresent)
      simp only [Option.bind_eq_bind, Option.bind_some, index]
      exact stores

/-- What a mapping behind the new root keeps. -/
theorem next_vmmMap {frame flags : ℕ} (booting : Booting physical old new vmm)
    (fills : MayFill vmm.memory new {rootIndex virtual})
    (harmless : ∀ other ∈ physical.frames, virtualPage virtual = virtualPage (higherHalf + other) →
      ((frame &&& pageMask) ||| flags ||| vmmPresent) &&& pageMask = other)
    (maps : (pagedPlatform new).vmmMap virtual frame flags vmm = some after) :
    Booting physical old new after := by
  have isIndex := Set.mem_singleton (rootIndex virtual)
  have spares := vmmMap_spares booting.shape booting.mapped isIndex maps
  rcases vmmMap_spec booting.shape booting.mapped virtual maps with ⟨shape, leaves⟩
  rcases spares.outside booting.noTable booting.taken with ⟨noTable, taken⟩
  exact ⟨shape, booting.mapped.map leaves harmless, booting.sameUpper fills spares, booting.isFrame,
    noTable, taken⟩

/-- What a mapping keeps. -/
theorem vmmMap {frame flags : ℕ} (booting : Booting physical old new vmm)
    (fills : MayFill vmm.memory new {rootIndex virtual})
    (harmless : ∀ other ∈ physical.frames, virtualPage virtual = virtualPage (higherHalf + other) →
      ((frame &&& pageMask) ||| flags ||| vmmPresent) &&& pageMask = other)
    (maps : (pagedPlatform old).vmmMap virtual frame flags vmm = some after) :
    Booting physical old new after := by
  rw [booting.vmmMap_eq fills] at maps
  exact booting.next_vmmMap fills harmless maps

end Booting

end SameUpper

/-! ## A root with a copied upper half -/

/-- Memory that differs in one frame at most. -/
def SameBut (new : ℕ) (before after : ℕ → ℕ) : Prop :=
  ∀ frame, IsFrame frame → frame ≠ new → ∀ index, tableRead after frame index =
    tableRead before frame index

/-- A new root that has the upper half of another one. -/
structure CopiedRoot (before after : ℕ → ℕ) (old new : ℕ) : Prop where
  upper : ∀ index : Fin 512, 256 ≤ index.val → tableRead after new index =
    tableRead before old index
  lower : ∀ index : Fin 512, index.val < 256 → tableRead after new index = 0
  others : SameBut new before after

section Copy

variable {Pages : Type} {platform : Platform Pages} {memory : ℕ → ℕ} {old new : ℕ}
  {vmm after : Vmm Pages}

theorem SameBut.update {before : ℕ → ℕ} (same : SameBut new before memory) (isFrame : IsFrame new)
    (index : Fin 512)
    (word : ℕ) : SameBut new before (Function.update memory (new + 8 * index.val) word) := by
  intro frame frameIsFrame different next
  rw [← same frame frameIsFrame different next]
  apply Function.update_of_ne
  intro equal
  exact different (slot_address_inj frameIsFrame isFrame equal).1

theorem SameBut.zeroFrame (memory : ℕ → ℕ) (isFrame : IsFrame new) :
    SameBut new memory (zeroFrame memory new) :=
  fun _ frameIsFrame different index =>
    zeroFrame_outside memory index isFrame frameIsFrame different

/-- A path that does not pass the frame arrives where it did. -/
theorem SameBut.tableAt {before : ℕ → ℕ} {root : ℕ} {path : List (Fin 512)}
    (same : SameBut new before memory)
    (passes : ∀ front table, front <+: path → tableAt before root front = some table →
      IsFrame table ∧ table ≠ new) :
    tableAt memory root path = Goshkik.tableAt before root path := by
  apply descend_congr
  intro front passed next isPrefix arrives
  rcases passes front passed ((List.prefix_append _ _).trans isPrefix) arrives with
    ⟨isFrame, different⟩
  exact same passed isFrame different next

theorem SameBut.leafEntry {before : ℕ → ℕ} {root : ℕ} {path : List (Fin 512)}
    (same : SameBut new before memory)
    (passes : ∀ front table, front <+: path → Goshkik.tableAt before root front = some table →
      IsFrame table ∧ table ≠ new) (page : Fin 512) :
    leafEntry memory root path page = Goshkik.leafEntry before root path page := by
  rw [Goshkik.leafEntry, Goshkik.leafEntry, same.tableAt passes]
  cases arrives : Goshkik.tableAt before root path with
  | none => rfl
  | some table =>
      rcases passes path table (List.prefix_refl _) arrives with ⟨isFrame, different⟩
      simp only [Option.bind_some, same table isFrame different page]

/-- Words are copied from one table to another. -/
def copyWords (memory : ℕ → ℕ) (old new start count : ℕ) : ℕ → ℕ :=
  fun address =>
    if new + 8 * start ≤ address ∧ address < new + 8 * (start + count) ∧
      (address - new) % 8 = 0 then
      memory (old + (address - new))
    else memory address

/-- The loop copies entry by entry. -/
theorem copyEntries_eq {before : ℕ → ℕ} {start count : ℕ} (oldFrame : IsFrame old)
    (newFrame : IsFrame new)
    (reads : ∀ memory, SameBut new before memory → ∀ index : Fin 512,
      platform.translate memory (platform.slot old index) = some (old + 8 * index.val))
    (writes : ∀ memory, SameBut new before memory → ∀ index : Fin 512,
      platform.translate memory (platform.slot new index) = some (new + 8 * index.val))
    (small : start + count ≤ 512) (same : SameBut new before vmm.memory) :
    platform.copyEntries old new (List.range' start count) vmm =
      some { vmm with memory := copyWords vmm.memory old new start count } := by
  induction count generalizing start vmm with
  | zero =>
      have unchanged : copyWords vmm.memory old new start 0 = vmm.memory := by
        funext address
        refine if_neg ?_
        omega
      rw [unchanged]
      rfl
  | succ count hypothesis =>
      let index : Fin 512 := ⟨start, by omega⟩
      have loads : platform.load vmm (platform.slot old start) =
          some (vmm.memory (old + 8 * start)) :=
        congrArg (Option.map vmm.memory) (reads vmm.memory same index)
      let stored : Vmm Pages :=
        { vmm with
          memory := Function.update vmm.memory (new + 8 * start) (vmm.memory (old + 8 * start)) }
      have stores : platform.store vmm (platform.slot new start) (vmm.memory (old + 8 * start)) =
          some stored :=
        congrArg (Option.map _) (writes vmm.memory same index)
      have sameStored : SameBut new before stored.memory := same.update newFrame index _
      have copied : copyWords stored.memory old new (start + 1) count =
          copyWords vmm.memory old new start (count + 1) := by
        have oldAligned := isFrame_iff.mp oldFrame
        have newAligned := isFrame_iff.mp newFrame
        funext address
        simp only [copyWords, stored]
        by_cases here : address = new + 8 * start
        · subst here
          rw [if_neg (by omega), Function.update_self, if_pos (by omega), Nat.add_sub_cancel_left]
        · by_cases later : new + 8 * (start + 1) ≤ address ∧
            address < new + 8 * (start + 1 + count) ∧ (address - new) % 8 = 0
          · rw [if_pos later, if_pos (by omega), Function.update_of_ne (by omega)]
          · rw [if_neg later, if_neg (by omega), Function.update_of_ne here]
      rw [List.range'_succ]
      simp only [copyEntries, loads, stores, Option.bind_eq_bind, Option.bind_some]
      rw [hypothesis (by omega) sameStored, copied]

/-- A zeroed frame gets the upper half of a root. -/
theorem copiedRoot (before : ℕ → ℕ) (oldFrame : IsFrame old) (newFrame : IsFrame new)
    (different : old ≠ new) :
    CopiedRoot before (copyWords (zeroFrame before new) old new 256 256) old new := by
  have oldAligned := isFrame_iff.mp oldFrame
  have newAligned := isFrame_iff.mp newFrame
  refine ⟨fun index upper => ?_, fun index lower => ?_, fun frame isFrame otherFrame index => ?_⟩
  · have small := index.isLt
    rw [tableRead, copyWords, if_pos (by omega), Nat.add_sub_cancel_left]
    exact zeroFrame_outside before index newFrame oldFrame different
  · rw [tableRead, copyWords, if_neg (by omega)]
    exact zeroFrame_inside before new index
  · have small := index.isLt
    have aligned := isFrame_iff.mp isFrame
    rw [tableRead, copyWords, if_neg (by omega)]
    exact zeroFrame_outside before index newFrame isFrame otherFrame

end Copy

/-! ## From the bootloader to the kernel -/

namespace Boot

variable {boot : Boot} {memory : ℕ → ℕ} {new : ℕ} {path : List (Fin 512)} {page : Fin 512}

/-- The root of the bootloader. -/
def oldPml4 (boot : Boot) : ℕ := boot.cr3 &&& pageMask

/-- A frame of the region that the allocator gets. -/
def Manages (boot : Boot) (frame : ℕ) : Prop :=
  ∃ i < boot.region.length / pageSize, frame = boot.region.base + i * pageSize

theorem upper_nil : Upper [] := by simp [Upper]

theorem upper_cons {first : Fin 512} {rest : List (Fin 512)} : Upper (first :: rest) ↔
    256 ≤ first.val := by
  simp [Upper]

theorem upper_of_front {front : List (Fin 512)} (upper : Upper path) (isPrefix : front <+: path) :
    Upper front := by
  rcases isPrefix with ⟨behind, rfl⟩
  cases front with
  | nil => exact upper_nil
  | cons first front => exact upper_cons.mpr (upper_cons.mp upper)

theorem passes (manages : boot.Manages new) (upper : Upper path) (short : path.length ≤ 3) :
    ∀ front table, front <+: path → tableAt boot.memory boot.oldPml4 front = some table →
      IsFrame table ∧ table ≠ new := by
  intro front table isPrefix arrives
  rcases boot.tables front table (upper_of_front upper isPrefix) (isPrefix.length_le.trans short)
    arrives with
    ⟨isFrame, unmanaged⟩
  refine ⟨boot.physical.isFrame table isFrame, ?_⟩
  rintro rfl
  rcases manages with ⟨i, small, isPage⟩
  exact unmanaged i small isPage

theorem old_isFrame : boot.oldPml4 ∈ boot.physical.frames :=
  (boot.tables [] _ upper_nil (by simp) rfl).1

theorem old_ne (manages : boot.Manages new) : boot.oldPml4 ≠ new :=
  (passes manages upper_nil (by simp) [] _ (List.prefix_refl _) rfl).2

theorem upper_tablePath {frame : ℕ} (isFrame : frame ∈ boot.physical.frames) :
    Upper (tablePath (higherHalf + frame)) := by
  have upper : 256 ≤ pml4Index (higherHalf + frame + 0) :=
    pml4Index_higherHalf isFrame (by simp [pageSizeVmm])
  rw [tablePath, upper_cons, val_ofNat_index (pml4Index_lt _)]
  exact upper

theorem mapped_of_sameBut (manages : boot.Manages new) (same : SameBut new boot.memory memory) :
    DirectlyMapped boot.oldPml4 boot.physical memory := by
  intro frame isFrame
  rw [same.leafEntry (passes manages (upper_tablePath isFrame) (by simp))]
  exact boot.direct frame isFrame

/-- The upper half of the new root is the one of the old root, and its lower half is empty. -/
theorem tableAt_copied (manages : boot.Manages new)
    (copied : CopiedRoot boot.memory memory boot.oldPml4 new)
    {first : Fin 512} {rest : List (Fin 512)} (short : rest.length ≤ 2) :
    tableAt memory new (first :: rest) =
      if 256 ≤ first.val then tableAt boot.memory boot.oldPml4 (first :: rest) else none := by
  rw [tableAt_cons]
  split
  · rename_i upper
    rw [copied.upper first upper,
      ← copied.others.tableAt (passes manages (upper_cons.mpr upper) (Nat.succ_le_succ short)),
      tableAt_cons, copied.others _ (boot.physical.isFrame _ old_isFrame) (old_ne manages)]
  · rename_i lower
    rw [copied.lower first (by omega), entryChild_zero]
    rfl

theorem leafEntry_copied (manages : boot.Manages new)
    (copied : CopiedRoot boot.memory memory boot.oldPml4 new)
    {first : Fin 512} {rest : List (Fin 512)} (upper : 256 ≤ first.val) (short : rest.length ≤ 2) :
    leafEntry memory new (first :: rest) page =
      leafEntry boot.memory boot.oldPml4 (first :: rest) page := by
  rw [← copied.others.leafEntry (passes manages (upper_cons.mpr upper) (Nat.succ_le_succ short)),
    leafEntry_cons, leafEntry_cons, copied.upper first upper,
    copied.others _ (boot.physical.isFrame _ old_isFrame) (old_ne manages)]

theorem table_copied (manages : boot.Manages new)
    (copied : CopiedRoot boot.memory memory boot.oldPml4 new) {table : ℕ}
    (short : path.length ≤ 3) (arrives : tableAt memory new path = some table) :
    (path = [] ∧ table = new) ∨
      (path ≠ [] ∧ Upper path ∧ tableAt boot.memory boot.oldPml4 path = some table) := by
  cases path with
  | nil => exact .inl ⟨rfl, (Option.some.inj arrives).symm⟩
  | cons first rest =>
      rw [tableAt_copied manages copied (Nat.le_of_succ_le_succ short)] at arrives
      split at arrives
      · rename_i upper
        exact .inr ⟨by simp, upper_cons.mpr upper, arrives⟩
      · cases arrives

/-- The state in which the upper half has been copied. -/
theorem booting {pages : Pmm} (manages : boot.Manages new) (within : pages.Within boot.physical)
    (region : ∀ frame, pages.Manages frame → boot.Manages frame) (taken : new ∉ pages.freeFrames)
    (isFrame : new ∈ boot.physical.frames)
    (copied : CopiedRoot boot.memory memory boot.oldPml4 new) :
    Booting boot.physical boot.oldPml4 new ⟨memory, pages, new⟩ := by
  have unmanaged : ∀ frame, boot.Manages frame → ∀ path, Upper path → path.length ≤ 3 →
      tableAt boot.memory boot.oldPml4 path ≠ some frame := by
    rintro frame ⟨i, small, isPage⟩ path upper short arrives
    exact (boot.tables path frame upper short arrives).2 i small isPage
  have free : ∀ frame ∈ pages.freeFrames, boot.Manages frame := by
    intro frame isFree
    rcases Pmm.mem_freeFrames.mp isFree with ⟨i, small, _, isPage⟩
    exact region frame ⟨i, small, isPage⟩
  refine ⟨⟨rfl, ?_, ?_, ?_, within⟩, ?_, ?_, boot.physical.isFrame _ old_isFrame, ?_, ?_⟩
  · intro left right table leftShort rightShort leftArrives rightArrives
    rcases table_copied manages copied leftShort leftArrives with
      ⟨rfl, rfl⟩ | ⟨leftNonempty, leftUpper, leftOld⟩
    · rcases table_copied manages copied rightShort rightArrives with
        ⟨rfl, _⟩ | ⟨_, rightUpper, rightOld⟩
      · rfl
      · exact absurd rightOld (unmanaged _ manages right rightUpper rightShort)
    · rcases table_copied manages copied rightShort rightArrives with
        ⟨rfl, rfl⟩ | ⟨_, rightUpper, rightOld⟩
      · exact absurd leftOld (unmanaged _ manages left leftUpper leftShort)
      · exact boot.unshared left right table leftUpper rightUpper leftShort rightShort leftOld
          rightOld
  · rintro table ⟨path, short, arrives⟩
    rcases table_copied manages copied short arrives with ⟨_, rfl⟩ | ⟨_, upper, old⟩
    · exact isFrame
    · exact (boot.tables path table upper short old).1
  · rintro frame isFree ⟨path, short, arrives⟩
    rcases table_copied manages copied short arrives with ⟨_, rfl⟩ | ⟨_, upper, old⟩
    · exact taken isFree
    · exact unmanaged frame (free frame isFree) path upper short old
  · intro frame isFrame
    have upper := upper_tablePath isFrame
    rcases boot.direct frame isFrame with ⟨entry, leaf, leads⟩
    refine ⟨entry, ?_, leads⟩
    rw [tablePath] at upper leaf ⊢
    rw [leafEntry_copied manages copied (upper_cons.mp upper) (by simp)]
    exact leaf
  · intro index upper
    rw [copied.upper index upper, copied.others _ (boot.physical.isFrame _ old_isFrame)
      (old_ne manages)]
  · rintro ⟨path, short, arrives⟩
    rcases table_copied manages copied short arrives with ⟨_, isNew⟩ | ⟨nonempty, upper, old⟩
    · exact old_ne manages isNew
    · exact nonempty (boot.unshared path [] _ upper upper_nil short (by simp) old rfl)
  · intro isFree
    exact unmanaged _ (free _ isFree) [] upper_nil (by simp) rfl

end Boot

/-! ## The loops -/

section Loops

variable {physical : PhysicalMemory} {old new : ℕ} {vmm after : Vmm Pmm}

theorem virtualPage_higherHalf {frame : ℕ} (isFrame : frame ∈ physical.frames) :
    virtualPage (higherHalf + frame) = 2 ^ 35 + frame / 4096 := by
  have below := physical.below frame isFrame
  simp only [virtualPage, higherHalf]
  omega

/-- Usable memory is mapped to itself in the lower half. -/
theorem Booting.mapIdentity {fuel address last : ℕ} (booting : Booting physical old new vmm)
    (below : last ≤ 2 ^ 47)
    (maps : (pagedPlatform old).mapIdentity last fuel address vmm = some after) :
    Booting physical old new after := by
  induction fuel generalizing vmm address with
  | zero => cases maps
  | succ fuel hypothesis =>
      rw [Platform.mapIdentity] at maps
      split at maps
      · rename_i inside
        simp only [Option.bind_eq_bind, Option.bind_eq_some_iff] at maps
        rcases maps with ⟨mapped, first, rest⟩
        refine hypothesis (booting.vmmMap ?_ ?_ first) rest
        · rintro index rfl
          refine .inl ?_
          change pml4Index address < 256
          rw [pml4Index_eq]
          omega
        · intro frame isFrame samePage
          rw [virtualPage_higherHalf isFrame] at samePage
          simp only [virtualPage] at samePage
          omega
      · exact Option.some.inj maps ▸ booting

theorem Booting.mapUsable {fuel : ℕ} {entries : List MemmapEntry}
    (booting : Booting physical old new vmm)
    (below : ∀ entry ∈ entries, entry.type = memmapUsable → entry.base + entry.length ≤ 2 ^ 47)
    (maps : (pagedPlatform old).mapUsable fuel entries vmm = some after) :
    Booting physical old new after := by
  induction entries generalizing vmm with
  | nil => exact Option.some.inj maps ▸ booting
  | cons entry entries hypothesis =>
      have rest := fun other mem => below other (List.mem_cons_of_mem entry mem)
      rw [Platform.mapUsable] at maps
      split at maps
      · rename_i usable
        simp only [Option.bind_eq_bind, Option.bind_eq_some_iff] at maps
        rcases maps with ⟨mapped, first, behind⟩
        have ends := below entry List.mem_cons_self usable
        exact hypothesis (booting.mapIdentity ((Nat.mod_le _ _).trans ends) first) rest behind
      · exact hypothesis booting rest maps

theorem mapping_frame {frame : ℕ} (isFrame : IsFrame frame) :
    ((frame &&& pageMask) ||| vmmWrite ||| vmmPresent) &&& pageMask = frame := by
  have present : vmmPresent &&& pageMask = 0 := by decide
  have write : vmmWrite &&& pageMask = 0 := by decide
  rw [Nat.and_or_distrib_right, Nat.and_or_distrib_right, and_pageMask_idem, present, write,
    Nat.or_zero, Nat.or_zero, isFrame]

/-- The direct map of a frame leads through an entry of the root. -/
theorem Booting.mayFill_higherHalf {frame : ℕ} (booting : Booting physical old new vmm)
    (isFrame : frame ∈ physical.frames) :
    Booting.MayFill vmm.memory new {rootIndex (higherHalf + frame)} := by
  rintro index rfl
  refine .inr fun absent => ?_
  rcases booting.mapped frame isFrame with ⟨entry, leaf, _⟩
  rw [tablePath, leafEntry_cons, ofNat_pml4Index, absent] at leaf
  cases leaf

/-- The bitmap is mapped where the direct map has it. -/
theorem Booting.mapBitmap {bitmapPhysical size fuel k : ℕ} (booting : Booting physical old new vmm)
    (aligned : 4096 ∣ bitmapPhysical)
    (frames : ∀ k, k * pageSizeVmm < size → bitmapPhysical + k * pageSizeVmm ∈ physical.frames)
    (maps : (pagedPlatform old).mapBitmap bitmapPhysical size fuel (k * pageSizeVmm) vmm =
      some after) :
    Booting physical old new after := by
  induction fuel generalizing vmm k with
  | zero => cases maps
  | succ fuel hypothesis =>
      rw [Platform.mapBitmap] at maps
      split at maps
      · rename_i inside
        have isFrame := frames k inside
        have below := physical.below _ isFrame
        simp only [Option.bind_eq_bind, Option.bind_eq_some_iff] at maps
        rcases maps with ⟨mapped, first, rest⟩
        have virtualEq : (bitmapPhysical + (pagedPlatform old).hhdmOffset + k * pageSizeVmm) % 2 ^
          64 =
            higherHalf + (bitmapPhysical + k * pageSizeVmm) := by
          simp only [pagedPlatform, kernelPlatform, higherHalf, pageSizeVmm] at below ⊢
          omega
        have physicalEq : (bitmapPhysical + k * pageSizeVmm) % 2 ^ 64 =
            bitmapPhysical + k * pageSizeVmm :=
          Nat.mod_eq_of_lt (below.trans (by decide))
        have nextEq : (k * pageSizeVmm + pageSizeVmm) % 2 ^ 64 = (k + 1) * pageSizeVmm := by
          simp only [pageSizeVmm] at below ⊢
          omega
        rw [virtualEq, physicalEq] at first
        rw [nextEq] at rest
        refine hypothesis (booting.vmmMap (booting.mayFill_higherHalf isFrame) ?_ first) rest
        intro other isOther samePage
        rw [virtualPage_higherHalf isFrame, virtualPage_higherHalf isOther] at samePage
        rw [mapping_frame (physical.isFrame _ isFrame)]
        have otherAligned := (isFrame_iff.mp (physical.isFrame _ isOther)).1
        have frameAligned := (isFrame_iff.mp (physical.isFrame _ isFrame)).1
        omega
      · exact Option.some.inj maps ▸ booting

end Loops

/-! ## The frame allocator meanwhile -/

section Region

variable {Pages : Type} {platform : Platform Pages} {vmm after : Vmm Pages}

theorem mapIdentity_takes {last fuel address : ℕ}
    (maps : platform.mapIdentity last fuel address vmm = some after) :
    platform.Takes vmm.pages after.pages := by
  induction fuel generalizing vmm address with
  | zero => cases maps
  | succ fuel hypothesis =>
      rw [Platform.mapIdentity] at maps
      split at maps
      · simp only [Option.bind_eq_bind, Option.bind_eq_some_iff] at maps
        rcases maps with ⟨mapped, first, rest⟩
        exact (vmmMap_takes first).trans (hypothesis rest)
      · exact Option.some.inj maps ▸ .refl _

theorem mapUsable_takes {fuel : ℕ} {entries : List MemmapEntry}
    (maps : platform.mapUsable fuel entries vmm = some after) :
    platform.Takes vmm.pages after.pages := by
  induction entries generalizing vmm with
  | nil => exact Option.some.inj maps ▸ .refl _
  | cons entry entries hypothesis =>
      rw [Platform.mapUsable] at maps
      split at maps
      · simp only [Option.bind_eq_bind, Option.bind_eq_some_iff] at maps
        rcases maps with ⟨mapped, first, behind⟩
        exact (mapIdentity_takes first).trans (hypothesis behind)
      · exact hypothesis maps

theorem mapBitmap_takes {bitmapPhysical size fuel i : ℕ}
    (maps : platform.mapBitmap bitmapPhysical size fuel i vmm = some after) :
    platform.Takes vmm.pages after.pages := by
  induction fuel generalizing vmm i with
  | zero => cases maps
  | succ fuel hypothesis =>
      rw [Platform.mapBitmap] at maps
      split at maps
      · simp only [Option.bind_eq_bind, Option.bind_eq_some_iff] at maps
        rcases maps with ⟨mapped, first, rest⟩
        exact (vmmMap_takes first).trans (hypothesis rest)
      · exact Option.some.inj maps ▸ .refl _

theorem mapPmmBitmap_takes {platform : Platform Pmm} {fuel : ℕ} {vmm after : Vmm Pmm}
    (maps : mapPmmBitmap platform fuel vmm = some after) :
    platform.Takes vmm.pages after.pages := by
  unfold mapPmmBitmap at maps
  split at maps
  · exact mapBitmap_takes maps
  · exact Option.some.inj maps ▸ .refl _

/-- The region and its bitmap stay where they are. -/
structure Pmm.SameRegion (pmm last : Pmm) : Prop where
  managedBase : last.managedBase = pmm.managedBase
  totalPages : last.totalPages = pmm.totalPages
  pmmBitmap : last.pmmBitmap = pmm.pmmBitmap
  pmmBitmapSize : last.pmmBitmapSize = pmm.pmmBitmapSize

theorem Pmm.SameRegion.trans {pmm middle last : Pmm} (first : pmm.SameRegion middle)
    (second : middle.SameRegion last) :
    pmm.SameRegion last :=
  ⟨second.managedBase.trans first.managedBase, second.totalPages.trans first.totalPages,
    second.pmmBitmap.trans first.pmmBitmap, second.pmmBitmapSize.trans first.pmmBitmapSize⟩

theorem sameRegion_of_takes {hhdmOffset : ℕ} {translate : (ℕ → ℕ) → ℕ → Option ℕ} {pmm last : Pmm}
    (takes : (kernelPlatform hhdmOffset translate).Takes pmm last) : pmm.SameRegion last := by
  induction takes with
  | refl pmm => exact ⟨rfl, rfl, rfl, rfl⟩
  | @allocPage pmm last _ hypothesis =>
      have one : pmm.SameRegion (pmmAllocPage pmm).2 := by
        rcases pmmAllocPage_cases pmm with exhausted | ⟨i, _, _, _, takes⟩
        · rw [exhausted]
          exact ⟨rfl, rfl, rfl, rfl⟩
        · rw [takes]
          exact ⟨rfl, rfl, rfl, rfl⟩
      exact one.trans hypothesis

end Region

/-! ## The kernel's page tables -/

namespace Boot

variable {boot : Boot} {stale : ℕ → BitVec 8} {pmm : Pmm} {vmm : Vmm Pmm} {fuel : ℕ}

/-- The frame allocator at boot. -/
structure HasRegion (boot : Boot) (pmm : Pmm) : Prop where
  base : pmm.managedBase = boot.region.base
  pages : pmm.totalPages = boot.region.length / pageSize
  bitmap : pmm.pmmBitmap = (higherHalf + boot.region.base) % 2 ^ 64
  size : pmm.pmmBitmapSize = (boot.region.length / pageSize + 7) / 8

theorem hasRegion (initialised : initPmm higherHalf boot.memmap stale = some pmm) :
    boot.HasRegion pmm := by
  rw [initPmm, boot.biggest] at initialised
  cases initialised
  exact ⟨rfl, rfl, rfl, rfl⟩

theorem HasRegion.next {last : Pmm} (region : boot.HasRegion pmm) (same : pmm.SameRegion last) :
    boot.HasRegion last :=
  ⟨same.managedBase.trans region.base, same.totalPages.trans region.pages, same.pmmBitmap.trans
    region.bitmap,
    same.pmmBitmapSize.trans region.size⟩

theorem HasRegion.manages {frame : ℕ} (region : boot.HasRegion pmm) : pmm.Manages frame ↔
    boot.Manages frame := by
  rw [Pmm.Manages, region.base, region.pages]
  rfl

theorem isFrame_of_manages {frame : ℕ} (manages : boot.Manages frame) :
    frame ∈ boot.physical.frames := by
  rcases manages with ⟨i, small, rfl⟩
  exact boot.managed i small

theorem HasRegion.within (region : boot.HasRegion pmm) : pmm.Within boot.physical := by
  refine ⟨⟨region.base ▸ boot.regular.baseAligned, ?_⟩, fun frame manages =>
    isFrame_of_manages (region.manages.mp manages)⟩
  have noWrap := boot.regular.noWrap
  rw [region.base, region.pages]
  simp only [pageSize]
  omega

/-- The pages of the bitmap are frames of the region. -/
theorem HasRegion.bitmap_frames (region : boot.HasRegion pmm) (k : ℕ)
    (inside : k * pageSizeVmm < pmm.pmmBitmapSize) :
    boot.region.base + k * pageSizeVmm ∈ boot.physical.frames := by
  rw [region.size] at inside
  refine boot.managed k ?_
  simp only [pageSizeVmm] at inside
  omega

theorem mapPmmBitmap (region : boot.HasRegion vmm.pages) {new : ℕ} {after : Vmm Pmm}
    (booting : Booting boot.physical boot.oldPml4 new vmm)
    (maps : Goshkik.mapPmmBitmap (pagedPlatform boot.oldPml4) fuel vmm = some after) :
    Booting boot.physical boot.oldPml4 new after := by
  unfold Goshkik.mapPmmBitmap at maps
  split at maps
  · rename_i stored
    have nonempty : 0 * pageSizeVmm < vmm.pages.pmmBitmapSize := by
      simpa using Nat.pos_of_ne_zero stored.2
    have first := boot.physical.below _ (region.bitmap_frames 0 nonempty)
    have physicalEq : (pagedPlatform boot.oldPml4).virtualToPhysical vmm.pages.pmmBitmap =
        boot.region.base := by
      rw [region.bitmap]
      simp only [virtualToPhysical, pagedPlatform, kernelPlatform, higherHalf] at first ⊢
      omega
    rw [physicalEq, ← Nat.zero_mul pageSizeVmm] at maps
    exact booting.mapBitmap boot.regular.baseAligned region.bitmap_frames maps
  · exact Option.some.inj maps ▸ booting

/-- The frames that the allocator starts with are frames of the region. -/
theorem HasRegion.allocPage (region : boot.HasRegion pmm) (nonzero : (pmmAllocPage pmm).1 ≠ 0) :
    (pmmAllocPage pmm).2.Within boot.physical ∧ boot.HasRegion (pmmAllocPage pmm).2 ∧
      boot.Manages (pmmAllocPage pmm).1 ∧
        (pmmAllocPage pmm).1 ∉ (pmmAllocPage pmm).2.freeFrames := by
  rcases region.within.allocPage nonzero with ⟨within, isFree, erased⟩
  have takes : (pagedPlatform 0).Takes pmm (pmmAllocPage pmm).2 := .one pmm
  rcases Pmm.mem_freeFrames.mp isFree with ⟨i, small, _, isPage⟩
  exact ⟨within, region.next (sameRegion_of_takes takes), region.manages.mp ⟨i, small, isPage⟩,
    erased ▸ Finset.notMem_erase _ _⟩

/-- The new root is a zeroed frame with the upper half of the old one. -/
theorem initVmm_eq (boot : Boot) (region : boot.HasRegion pmm) (nonzero : (pmmAllocPage pmm).1 ≠ 0)
    (fuel : ℕ) :
    initVmm (pagedPlatform boot.oldPml4) boot.cr3 boot.memmap fuel ⟨boot.memory, pmm, 0⟩ =
      ((pagedPlatform boot.oldPml4).mapUsable fuel boot.memmap
        ⟨copyWords (zeroFrame boot.memory (pmmAllocPage pmm).1) boot.oldPml4 (pmmAllocPage pmm).1
          256 256,
          (pmmAllocPage pmm).2, (pmmAllocPage pmm).1⟩).bind (fun vmm =>
        (Goshkik.mapPmmBitmap (pagedPlatform boot.oldPml4) fuel vmm).map (fun vmm =>
          { vmm with currentPml4 := vmm.currentPml4 &&& pageMask })) := by
  rcases region.allocPage nonzero with ⟨_, _, manages, _⟩
  have isFrame := isFrame_of_manages manages
  have good : (pagedEnvironment boot.oldPml4 boot.physical).good
    (Vmm.mk boot.memory pmm 0).memory := boot.direct
  have newFrame := boot.physical.isFrame _ isFrame
  have reads : ∀ memory, SameBut (pmmAllocPage pmm).1 boot.memory memory →
    ∀ frame ∈ boot.physical.frames,
      ∀ index : Fin 512, (pagedPlatform boot.oldPml4).translate memory
        ((pagedPlatform boot.oldPml4).slot frame index) = some (frame + 8 * index.val) :=
    fun memory same frame isFrame index => (mapped_of_sameBut manages same).slot isFrame index
  have zeroed : SameBut (pmmAllocPage pmm).1 boot.memory
    (Vmm.mk (zeroFrame boot.memory (pmmAllocPage pmm).1)
      (pmmAllocPage pmm).2 (pmmAllocPage pmm).1).memory := .zeroFrame boot.memory newFrame
  have copies := copyEntries_eq (boot.physical.isFrame _ boot.old_isFrame) newFrame
    (fun memory same => reads memory same _ boot.old_isFrame) (fun memory same =>
      reads memory same _ isFrame)
    (show 256 + 256 ≤ 512 by decide) zeroed
  rw [initVmm, allocTable_frame good nonzero isFrame]
  simp only [Option.bind_eq_bind, Option.bind_some, Option.map_eq_bind]
  exact congrArg (Option.bind · _) copies

/-- `init_vmm` leaves a tree of page tables through whose direct map all of physical memory is
reached. -/
theorem initVmm_spec (boot : Boot) (initialised : initPmm higherHalf boot.memmap stale = some pmm)
    (inits : initVmm (pagedPlatform boot.oldPml4) boot.cr3 boot.memmap fuel ⟨boot.memory, pmm, 0⟩ =
      some vmm) :
    Shape (pagedEnvironment vmm.currentPml4 boot.physical) vmm ∧
      DirectlyMapped vmm.currentPml4 boot.physical vmm.memory ∧ boot.HasRegion vmm.pages := by
  have region := hasRegion initialised
  have nonzero : (pmmAllocPage pmm).1 ≠ 0 := by
    intro exhausted
    have noTable : (pagedPlatform boot.oldPml4).allocTable ⟨boot.memory, pmm, 0⟩ = none :=
      if_pos exhausted
    rw [initVmm, noTable] at inits
    cases inits
  rw [boot.initVmm_eq region nonzero] at inits
  simp only [Option.bind_eq_some_iff, Option.map_eq_some_iff] at inits
  rcases inits with ⟨usable, mapsUsable, bitmap, mapsBitmap, rfl⟩
  rcases region.allocPage nonzero with ⟨within, regionTaken, manages, taken⟩
  have isFrame := isFrame_of_manages manages
  have copied := copiedRoot boot.memory (boot.physical.isFrame _ boot.old_isFrame)
    (boot.physical.isFrame _ isFrame)
    (old_ne manages)
  have start := booting manages within (fun frame => regionTaken.manages.mp) taken isFrame copied
  have regionUsable := regionTaken.next (sameRegion_of_takes (mapUsable_takes mapsUsable))
  have final := mapPmmBitmap regionUsable (start.mapUsable boot.usable mapsUsable) mapsBitmap
  have root : bitmap.currentPml4 &&& pageMask = bitmap.currentPml4 := by
    rw [final.shape.pml4]
    exact boot.physical.isFrame _ isFrame
  have shape : Shape (pagedEnvironment bitmap.currentPml4 boot.physical) bitmap := by
    rw [final.shape.pml4]
    exact final.shape
  have mapped : DirectlyMapped bitmap.currentPml4 boot.physical bitmap.memory := by
    rw [final.shape.pml4]
    exact final.mapped
  rw [root]
  exact ⟨shape, mapped, regionUsable.next (sameRegion_of_takes (mapPmmBitmap_takes mapsBitmap))⟩

/-! ## The frames that are used -/

/-- A frame of the region of the allocator, or one with a page table that the kernel takes over. -/
def Uses (boot : Boot) (frame : ℕ) : Prop :=
  boot.Manages frame ∨
    ∃ path, Upper path ∧ path.length ≤ 3 ∧ tableAt boot.memory boot.oldPml4 path = some frame

theorem physical_of_uses {frame : ℕ} (uses : boot.Uses frame) : frame ∈ boot.physical.frames := by
  rcases uses with manages | ⟨path, upper, short, arrives⟩
  · exact isFrame_of_manages manages
  · exact (boot.tables path frame upper short arrives).1

def used (boot : Boot) : PhysicalMemory where
  frames := {frame | boot.Uses frame}
  isFrame frame uses := boot.physical.isFrame frame (physical_of_uses uses)
  below frame uses := boot.physical.below frame (physical_of_uses uses)

/-- The same handover, with nothing said about the rest of physical memory. -/
def onlyUsed (boot : Boot) : Boot where
  physical := boot.used
  memmap := boot.memmap
  region := boot.region
  memory := boot.memory
  cr3 := boot.cr3
  biggest := boot.biggest
  regular := boot.regular
  usable := boot.usable
  managed i small := .inl ⟨i, small, rfl⟩
  tables path table upper short arrives :=
    ⟨.inr ⟨path, upper, short, arrives⟩, (boot.tables path table upper short arrives).2⟩
  unshared := boot.unshared
  direct frame uses := boot.direct frame (physical_of_uses uses)

end Boot

end Goshkik
