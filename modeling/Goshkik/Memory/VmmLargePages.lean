import Goshkik.Memory.HardwareWalk

/-!
# Page walks that meet large pages

`walk` does not look at `VMM_HUGE`.  On the path of an address without large
pages it agrees with the processor, in whatever tables the bootloader has left.
Where the path meets a large page, `walk` takes the first frame of that page for
a table: what `vmm_resolve` answers then depends on the data in the page, and
`vmm_map` writes into it.
-/

namespace Goshkik

open Platform

variable {hhdmOffset : ℕ}

/-- Answers of the allocator: distinct frames that are not page tables. -/
def Unused (memory : ℕ → ℕ) (root : ℕ) (pages : List ℕ) : Prop :=
  pages.Nodup ∧ ∀ page ∈ pages, IsFrame page ∧ ∀ level, ¬HardwareTable memory root level page

/-- For an address, `vmm_resolve` answers what the processor translates it to,
and `vmm_map` writes into page tables only. -/
structure Faithful (hhdmOffset : ℕ) (memory : ℕ → ℕ) (root virtual : ℕ) : Prop where
  resolves : ∀ pages, (directPlatform hhdmOffset).vmmResolve virtual ⟨memory, pages, root⟩ =
    some ((hardwareTranslate memory root virtual).getD 0)
  writes : ∀ pages physical flags after, Unused memory root pages →
    (directPlatform hhdmOffset).vmmMap virtual physical flags ⟨memory, pages, root⟩ =
      some after →
    ∀ address, after.memory address ≠ memory address →
      InTable memory root address ∨ InTable after.memory root address

/-! ## Resolving -/

section Resolve

variable {vmm : Vmm (List ℕ)} {root virtual level table entry : ℕ}

/-- Without large pages `walk` arrives at the entry that the processor uses. -/
theorem walkFrom_small (offsetSmall : hhdmOffset < 2 ^ 64) (rootFrame : IsFrame root)
    (isTable : HardwareTable vmm.memory root level table)
    (small : SmallOnly vmm.memory virtual level table) :
    (∃ last, IsFrame last ∧
        (directPlatform hhdmOffset).walkFrom virtual false level table vmm =
          some (some ((directPlatform hhdmOffset).slot last (levelIndex virtual 0)), vmm) ∧
        hardwareLeaf vmm.memory virtual level table =
          (presentEntry vmm.memory last (levelIndex virtual 0)).map (fun entry => (entry, 0))) ∨
      ((directPlatform hhdmOffset).walkFrom virtual false level table vmm = some (none, vmm) ∧
        hardwareLeaf vmm.memory virtual level table = none) := by
  induction level generalizing table with
  | zero => exact Or.inl ⟨table, isTable.isFrame rootFrame, rfl, rfl⟩
  | succ level ih =>
      have isFrame := isTable.isFrame rootFrame
      have indexSmall := levelIndex_lt virtual (level + 1)
      cases present : presentEntry vmm.memory table (levelIndex virtual (level + 1)) with
      | none =>
          refine Or.inr ⟨?_, hardwareLeaf_absent present⟩
          rw [walkFrom, nextTable_direct_absent offsetSmall isFrame indexSmall present]
          rfl
      | some entry =>
          have pointer := small.pointer present
          rw [walkFrom, nextTable_direct_present offsetSmall isFrame indexSmall present,
            hardwareLeaf_pointer present pointer]
          exact ih (.next isTable indexSmall present pointer) (small.below present)

/-- The address that `vmm_resolve` puts together is the one of the processor. -/
theorem pageAddress_eq (entry virtual : ℕ) :
    (entry &&& pageMask) ||| (virtual &&& (pageSizeVmm - 1)) =
      (entry &&& pageMask) / 2 ^ 12 * 2 ^ 12 + virtual % 2 ^ 12 := by
  have aligned : (entry &&& pageMask) / 2 ^ 12 * 2 ^ 12 = entry &&& pageMask := by
    rw [and_pageMask]
    omega
  have offsetSmall : virtual % 2 ^ 12 < 2 ^ 12 := Nat.mod_lt _ (by omega)
  rw [Nat.mul_comm, Nat.two_pow_add_eq_or_of_lt offsetSmall, Nat.mul_comm, aligned,
    and_pageOffset]
  rfl

/-- Without large pages `vmm_resolve` translates like the processor. -/
theorem vmmResolve_small {memory : ℕ → ℕ} (offsetSmall : hhdmOffset < 2 ^ 64)
    (rootFrame : IsFrame root) (small : SmallOnly memory virtual 3 root) (pages : List ℕ) :
    (directPlatform hhdmOffset).vmmResolve virtual ⟨memory, pages, root⟩ =
      some ((hardwareTranslate memory root virtual).getD 0) := by
  let vmm : Vmm (List ℕ) := ⟨memory, pages, root⟩
  have isTable : HardwareTable vmm.memory root 3 root := .root
  have arrives := walkFrom_small offsetSmall rootFrame isTable small
  rw [vmmResolve, walk_eq_walkFrom, hardwareTranslate]
  rcases arrives with ⟨last, isFrame, walked, leaf⟩ | ⟨walked, leaf⟩
  · rw [walked, leaf]
    simp only [Option.bind_eq_bind, Option.bind_some,
      load_direct offsetSmall vmm isFrame (levelIndex_lt virtual 0)]
    cases present : presentEntry memory last (levelIndex virtual 0) with
    | none => simp [vmm, presentEntry_eq_none.mp present]
    | some entry =>
        rcases presentEntry_eq_some present with ⟨rfl, isPresent⟩
        simp [vmm, isPresent, pageAddress_eq, Nat.mod_one]
  · rw [walked, leaf]
    rfl

end Resolve

/-! ## Mapping -/

section Map

variable {before : ℕ → ℕ} {root virtual level table : ℕ} {vmm after : Vmm (List ℕ)}

/-- A creating walk on its way, with everything it has written in page tables.
Once it has hung a frame into the tree, it is in a table without entries. -/
structure Walking (before : ℕ → ℕ) (root virtual level table : ℕ) (vmm : Vmm (List ℕ)) :
    Prop where
  isTable : HardwareTable vmm.memory root level table
  small : SmallOnly vmm.memory virtual level table
  unused : Unused vmm.memory root vmm.pages
  wrote : ∀ address, vmm.memory address ≠ before address → InTable vmm.memory root address
  untouched : vmm.memory = before ∨
    ∀ index < 512, presentEntry vmm.memory table index = none

/-- A write into an absent entry leaves every page table in place. -/
theorem HardwareTable.fill {memory : ℕ → ℕ} {index other upper word : ℕ}
    (rootFrame : IsFrame root) (isFrame : IsFrame table) (small : index < 512)
    (absent : presentEntry memory table index = none)
    (isTable : HardwareTable memory root upper other) :
    HardwareTable (Function.update memory (table + 8 * index) word) root upper other := by
  apply isTable.agree
  intro level' passed next entry passedTable nextSmall present
  have passedFrame := passedTable.isFrame rootFrame
  rw [← present]
  apply presentEntry_congr
  apply Function.update_of_ne
  intro same
  rcases slotAddress_inj passedFrame isFrame nextSmall small same with ⟨rfl, rfl⟩
  rw [absent] at present
  cases present

section Hang

variable {index page : ℕ} {pages : List ℕ}

/-- The words of a frame that has just been hung into a slot are zero. -/
theorem hang_absent (isFrame : IsFrame table) (small : index < 512) (pageFrame : IsFrame page)
    (different : table ≠ page) {next : ℕ} (nextSmall : next < 512) :
    presentEntry (hang vmm table index page pages).memory page next = none := by
  have zero : (hang vmm table index page pages).memory (page + 8 * next) = 0 :=
    @tableRead_attachTable vmm.memory table page ⟨index, small⟩ ⟨next, nextSmall⟩ isFrame
      pageFrame different
  rw [presentEntry_eq_none, zero]
  rfl

theorem hang_slot : (hang vmm table index page pages).memory (table + 8 * index) =
    newEntry page := by
  simp [hang, attachTable]

/-- The entries of other tables stay, and so do the other entries of the table. -/
theorem hang_elsewhere (isFrame : IsFrame table) (small : index < 512) (pageFrame : IsFrame page)
    {other next : ℕ} (otherFrame : IsFrame other) (nextSmall : next < 512) (apart : other ≠ page)
    (elsewhere : ¬(other = table ∧ next = index)) :
    presentEntry (hang vmm table index page pages).memory other next =
      presentEntry vmm.memory other next := by
  apply presentEntry_congr
  simp only [hang, attachTable]
  rw [Function.update_of_ne]
  · exact zeroFrame_outside vmm.memory ⟨next, nextSmall⟩ pageFrame otherFrame apart
  · exact fun same => elsewhere (slotAddress_inj otherFrame isFrame nextSmall small same)

theorem newEntry_pointer (page : ℕ) : newEntry page &&& vmmHuge = 0 := by
  have mask : pageMask &&& vmmHuge = 0 := by decide
  have present : vmmPresent &&& vmmHuge = 0 := by decide
  have write : vmmWrite &&& vmmHuge = 0 := by decide
  rw [newEntry, Nat.and_or_distrib_right, Nat.and_or_distrib_right, Nat.land_assoc, mask, present,
    write, Nat.and_zero, Nat.or_zero, Nat.or_zero]

/-- The page tables after a frame has been hung into an absent entry are those of
before and the frame. -/
theorem HardwareTable.hang (rootFrame : IsFrame root)
    (isTable : HardwareTable vmm.memory root level table)
    (small : index < 512) (absent : presentEntry vmm.memory table index = none)
    (pageFrame : IsFrame page) (unused : ∀ level, ¬HardwareTable vmm.memory root level page)
    {upper other : ℕ} (otherTable : HardwareTable vmm.memory root upper other) :
    HardwareTable (Platform.hang vmm table index page pages).memory root upper other := by
  apply otherTable.agree
  intro upper other next entry otherTable nextSmall present
  rw [hang_elsewhere (isTable.isFrame rootFrame) small pageFrame (otherTable.isFrame rootFrame)
    nextSmall, present]
  · rintro rfl
    exact unused _ otherTable
  · rintro ⟨rfl, rfl⟩
    rw [absent] at present
    cases present

theorem HardwareTable.of_hang (rootFrame : IsFrame root)
    (isTable : HardwareTable vmm.memory root (level + 1) table)
    (small : index < 512) (pageFrame : IsFrame page)
    (unused : ∀ level, ¬HardwareTable vmm.memory root level page) {upper other : ℕ}
    (otherTable : HardwareTable (Platform.hang vmm table index page pages).memory root upper
      other) : other = page ∨ HardwareTable vmm.memory root upper other := by
  have isFrame := isTable.isFrame rootFrame
  have different : table ≠ page := by
    rintro rfl
    exact unused _ isTable
  induction otherTable with
  | root => exact Or.inr .root
  | @next upper passed next entry above nextSmall present pointer ih =>
      rcases ih with rfl | aboveTable
      · rw [hang_absent isFrame small pageFrame different nextSmall] at present
        cases present
      · have passedApart : passed ≠ page := by
          rintro rfl
          exact unused _ aboveTable
        by_cases here : passed = table ∧ next = index
        · rcases here with ⟨rfl, rfl⟩
          have written := (presentEntry_eq_some present).1
          rw [hang_slot] at written
          exact Or.inl (by rw [← written, newEntry_frame pageFrame])
        · rw [hang_elsewhere isFrame small pageFrame (aboveTable.isFrame rootFrame) nextSmall
            passedApart here] at present
          exact Or.inr (.next aboveTable nextSmall present pointer)

end Hang

namespace Walking

theorem initial {memory : ℕ → ℕ} {pages : List ℕ} (unused : Unused memory root pages)
    (small : SmallOnly memory virtual 3 root) :
    Walking memory root virtual 3 root ⟨memory, pages, root⟩ :=
  ⟨.root, small, unused, fun _ changed => absurd rfl changed, Or.inl rfl⟩

/-- Going down through a present entry. -/
theorem descend {entry : ℕ} (walking : Walking before root virtual (level + 1) table vmm)
    (present : presentEntry vmm.memory table (levelIndex virtual (level + 1)) = some entry) :
    Walking before root virtual level (entry &&& pageMask) vmm := by
  have indexSmall := levelIndex_lt virtual (level + 1)
  refine ⟨.next walking.isTable indexSmall present (walking.small.pointer present),
    walking.small.below present, walking.unused, walking.wrote, ?_⟩
  rcases walking.untouched with same | empty
  · exact Or.inl same
  · rw [empty _ indexSmall] at present
    cases present

/-- Going down into a frame that has just been hung into the tree. -/
theorem hang {page : ℕ} {pages : List ℕ} (rootFrame : IsFrame root)
    (walking : Walking before root virtual (level + 1) table vmm)
    (absent : presentEntry vmm.memory table (levelIndex virtual (level + 1)) = none)
    (supplied : vmm.pages = page :: pages) :
    Walking before root virtual level page
      (Platform.hang vmm table (levelIndex virtual (level + 1)) page pages) := by
  have indexSmall := levelIndex_lt virtual (level + 1)
  have isFrame := walking.isTable.isFrame rootFrame
  have unused := walking.unused
  rw [Unused, supplied, List.nodup_cons] at unused
  rcases unused with ⟨⟨pageNew, pagesNodup⟩, unused⟩
  rcases unused page List.mem_cons_self with ⟨pageFrame, pageUnused⟩
  have different : table ≠ page := by
    rintro rfl
    exact pageUnused _ walking.isTable
  let hung := Platform.hang vmm table (levelIndex virtual (level + 1)) page pages
  have kept : ∀ {upper other : ℕ}, HardwareTable vmm.memory root upper other →
      HardwareTable hung.memory root upper other :=
    fun isTable =>
      .hang rootFrame walking.isTable indexSmall absent pageFrame pageUnused isTable
  have empty : ∀ next < 512, presentEntry hung.memory page next = none := fun next nextSmall =>
    hang_absent isFrame indexSmall pageFrame different nextSmall
  have pageTable : HardwareTable hung.memory root level page := by
    have present : presentEntry hung.memory table (levelIndex virtual (level + 1)) =
        some (newEntry page) := by
      rw [presentEntry, hang_slot, if_neg (by rw [newEntry_present]; decide)]
    have child := HardwareTable.next (kept walking.isTable) indexSmall present
      (newEntry_pointer page)
    rwa [newEntry_frame pageFrame] at child
  refine ⟨pageTable, .of_absent (empty _ (levelIndex_lt virtual level)), ⟨pagesNodup, ?_⟩, ?_,
    Or.inr empty⟩
  · intro other mem
    rcases unused other (List.mem_cons_of_mem page mem) with ⟨otherFrame, otherUnused⟩
    refine ⟨otherFrame, fun upper isTable => ?_⟩
    rcases HardwareTable.of_hang rootFrame walking.isTable indexSmall pageFrame pageUnused isTable
      with rfl | old
    · exact pageNew mem
    · exact otherUnused upper old
  · intro address changed
    by_cases here : address = table + 8 * levelIndex virtual (level + 1)
    · rw [here]
      exact (kept walking.isTable).inTable indexSmall
    by_cases inside : page ≤ address ∧ address < page + pageSizeVmm
    · exact ⟨level, page, pageTable, inside⟩
    have same : hung.memory address = vmm.memory address := by
      simp only [hung, Platform.hang, attachTable]
      rw [Function.update_of_ne here, zeroFrame, if_neg inside]
    rw [same] at changed
    rcases walking.wrote address changed with ⟨upper, other, otherTable, within⟩
    exact ⟨upper, other, kept otherTable, within⟩

/-- The whole walk, by induction on the levels that are left. -/
theorem walkFrom {pte : Option ℕ} (offsetSmall : hhdmOffset < 2 ^ 64) (rootFrame : IsFrame root)
    (walking : Walking before root virtual level table vmm)
    (walked : (directPlatform hhdmOffset).walkFrom virtual true level table vmm =
      some (pte, after)) :
    ∃ last, pte = some ((directPlatform hhdmOffset).slot last (levelIndex virtual 0)) ∧
      Walking before root virtual 0 last after := by
  induction level generalizing table vmm with
  | zero =>
      cases walked
      exact ⟨table, rfl, walking⟩
  | succ level ih =>
      have isFrame := walking.isTable.isFrame rootFrame
      have indexSmall := levelIndex_lt virtual (level + 1)
      rw [Platform.walkFrom, Option.bind_eq_bind, Option.bind_eq_some_iff] at walked
      rcases walked with ⟨⟨next, middle⟩, stepped, walked⟩
      rcases nextTable_direct_cases offsetSmall isFrame indexSmall
          (fun page mem => (walking.unused.2 page mem).1) stepped with
        ⟨entry, present, rfl, rfl⟩ | ⟨absent, page, pages, supplied, rfl, rfl⟩
      · exact ih (walking.descend present) walked
      · exact ih (walking.hang rootFrame absent supplied) walked

end Walking

/-- Without large pages `vmm_map` writes into page tables only. -/
theorem vmmMap_small {memory : ℕ → ℕ} {pages : List ℕ} {physical flags address : ℕ}
    (offsetSmall : hhdmOffset < 2 ^ 64) (rootFrame : IsFrame root)
    (small : SmallOnly memory virtual 3 root) (unused : Unused memory root pages)
    (mapped : (directPlatform hhdmOffset).vmmMap virtual physical flags ⟨memory, pages, root⟩ =
      some after) (changed : after.memory address ≠ memory address) :
    InTable memory root address ∨ InTable after.memory root address := by
  rw [vmmMap, walk_eq_walkFrom, Option.bind_eq_bind, Option.bind_eq_some_iff] at mapped
  rcases mapped with ⟨⟨pte, middle⟩, walked, stored⟩
  rcases (Walking.initial unused small).walkFrom offsetSmall rootFrame walked with
    ⟨last, rfl, walking⟩
  have isFrame := walking.isTable.isFrame rootFrame
  have indexSmall := levelIndex_lt virtual 0
  simp only [store_direct offsetSmall middle isFrame indexSmall] at stored
  cases stored
  by_cases here : address = last + 8 * levelIndex virtual 0
  · rw [here]
    rcases walking.untouched with same | empty
    · exact Or.inl (same ▸ walking.isTable.inTable indexSmall)
    · exact Or.inr ((walking.isTable.fill rootFrame isFrame indexSmall
        (empty _ indexSmall)).inTable indexSmall)
  · simp only [Function.update_of_ne here] at changed
    rcases walking.untouched with same | empty
    · rw [same] at changed
      exact absurd rfl changed
    · rcases walking.wrote address changed with ⟨upper, other, otherTable, within⟩
      exact Or.inr ⟨upper, other,
        otherTable.fill rootFrame isFrame indexSmall (empty _ indexSmall), within⟩

end Map

/-! ## The data of a large page -/

section Large

variable {memory : ℕ → ℕ} {root virtual level table entry upper frame : ℕ}

/-- A memory in which every word of a frame is a present entry that points to the
frame itself. -/
def selfPointing (memory : ℕ → ℕ) (frame : ℕ) : ℕ → ℕ :=
  fun address =>
    if frame ≤ address ∧ address < frame + pageSizeVmm then frame ||| vmmPresent
    else memory address

theorem selfPointing_present (memory : ℕ → ℕ) (isFrame : IsFrame frame) {index : ℕ}
    (small : index < 512) :
    presentEntry (selfPointing memory frame) frame index = some (frame ||| vmmPresent) ∧
      (frame ||| vmmPresent) &&& pageMask = frame := by
  have inside : frame ≤ frame + 8 * index ∧ frame + 8 * index < frame + pageSizeVmm := by
    rw [pageSizeVmm]
    omega
  have word : selfPointing memory frame (frame + 8 * index) = frame ||| vmmPresent := if_pos inside
  have present : (frame ||| vmmPresent) &&& vmmPresent ≠ 0 := by
    rw [Nat.and_or_distrib_right, Nat.and_self]
    exact fun isZero => absurd (Nat.or_eq_zero_iff.mp isZero).2 (by decide)
  have mask : vmmPresent &&& pageMask = 0 := by decide
  constructor
  · rw [presentEntry, word, if_neg present]
  · rw [Nat.and_or_distrib_right, isFrame, mask, Nat.or_zero]

/-- Data that is not part of a page table may be anything. -/
theorem sameTables_of_outside {memory' : ℕ → ℕ} (rootFrame : IsFrame root)
    (isFrame : IsFrame frame) (apart : ∀ level, ¬HardwareTable memory root level frame)
    (same : ∀ address, ¬(frame ≤ address ∧ address < frame + pageSizeVmm) →
      memory' address = memory address) : SameTables memory root memory' := by
  intro level table index isTable small
  apply same
  intro inside
  have tableFrame := isTable.isFrame rootFrame
  have here : table = frame := by
    rw [isFrame_iff] at isFrame tableFrame
    rw [pageSizeVmm] at inside
    omega
  exact apart level (here ▸ isTable)

/-- `walk` goes round inside a frame that points to itself. -/
theorem walkFrom_selfPointing (offsetSmall : hhdmOffset < 2 ^ 64) (isFrame : IsFrame frame)
    (virtual level : ℕ) :
    (directPlatform hhdmOffset).walkFrom virtual true level frame
        ⟨selfPointing memory frame, [], root⟩ =
      some (some ((directPlatform hhdmOffset).slot frame (levelIndex virtual 0)),
        ⟨selfPointing memory frame, [], root⟩) := by
  induction level with
  | zero => rfl
  | succ level ih =>
      have small := levelIndex_lt virtual (level + 1)
      rcases selfPointing_present memory isFrame small with ⟨present, child⟩
      rw [walkFrom, nextTable_direct_present offsetSmall isFrame small present, child]
      exact ih

/-- `walk` goes into the first frame of a large page. -/
theorem walkFrom_large (offsetSmall : hhdmOffset < 2 ^ 64) (rootFrame : IsFrame root)
    (same : SameTables memory root (selfPointing memory (entry &&& pageMask)))
    (isTable : HardwareTable memory root level table)
    (large : hardwareLeaf memory virtual level table = some (entry, upper + 1)) :
    (directPlatform hhdmOffset).walkFrom virtual true level table
        ⟨selfPointing memory (entry &&& pageMask), [], root⟩ =
      some (some ((directPlatform hhdmOffset).slot (entry &&& pageMask) (levelIndex virtual 0)),
        ⟨selfPointing memory (entry &&& pageMask), [], root⟩) := by
  induction level generalizing table with
  | zero =>
      rw [hardwareLeaf, Option.map_eq_some_iff] at large
      rcases large with ⟨found, _, impossible⟩
      cases impossible
  | succ level ih =>
      have small := levelIndex_lt virtual (level + 1)
      have isFrame := isTable.isFrame rootFrame
      have sameEntry := presentEntry_congr (same (level + 1) table _ isTable small)
      cases present : presentEntry memory table (levelIndex virtual (level + 1)) with
      | none =>
          rw [hardwareLeaf_absent present] at large
          cases large
      | some found =>
          rw [walkFrom, nextTable_direct_present offsetSmall isFrame small
            (sameEntry.trans present)]
          by_cases pointer : found &&& vmmHuge = 0
          · rw [hardwareLeaf_pointer present pointer] at large
            exact ih (.next isTable small present pointer) large
          · rw [hardwareLeaf_large present pointer] at large
            cases large
            exact walkFrom_selfPointing offsetSmall (isFrame_and_pageMask _) virtual _

/-- With suitable data in a large page, `vmm_map` writes into that data. -/
theorem not_faithful_of_large (offsetSmall : hhdmOffset < 2 ^ 64) (rootFrame : IsFrame root)
    (large : hardwareLeaf memory virtual 3 root = some (entry, upper + 1))
    (apart : ∀ level, ¬HardwareTable memory root level (entry &&& pageMask)) :
    ∃ memory', SameTables memory root memory' ∧ ¬Faithful hhdmOffset memory' root virtual := by
  let frame := entry &&& pageMask
  let data := selfPointing memory frame
  have isFrame : IsFrame frame := isFrame_and_pageMask entry
  have apart : ∀ level, ¬HardwareTable memory root level frame := apart
  have indexSmall := levelIndex_lt virtual 0
  have same : SameTables memory root data :=
    sameTables_of_outside rootFrame isFrame apart (fun address outside => if_neg outside)
  refine ⟨data, same, fun faithful => ?_⟩
  let slot := frame + 8 * levelIndex virtual 0
  let word := (frame &&& pageMask) ||| vmmWrite ||| vmmPresent
  have mapped : (directPlatform hhdmOffset).vmmMap virtual frame vmmWrite ⟨data, [], root⟩ =
      some ⟨Function.update data slot word, [], root⟩ := by
    rw [vmmMap, walk_eq_walkFrom, walkFrom_large offsetSmall rootFrame same .root large]
    exact store_direct offsetSmall _ isFrame indexSmall _
  have changed : Function.update data slot word slot ≠ data slot := by
    have old : data slot = frame ||| vmmPresent :=
      (presentEntry_eq_some (selfPointing_present memory isFrame indexSmall).1).1
    have unset : frame.testBit 1 = false := by
      have mask : pageMask.testBit 1 = false := by decide
      simp [frame, Nat.testBit_and, mask]
    have write : vmmWrite.testBit 1 = true := by decide
    have present : vmmPresent.testBit 1 = false := by decide
    rw [Function.update_self, old]
    intro equal
    have bit := congrArg (fun word => Nat.testBit word 1) equal
    simp [word, Nat.testBit_or, unset, write, present] at bit
  have sameAfter : SameTables memory root (Function.update data slot word) := by
    apply sameTables_of_outside rootFrame isFrame apart
    intro address outside
    rw [Function.update_of_ne]
    · exact if_neg outside
    · rintro rfl
      apply outside
      simp only [slot, pageSizeVmm]
      omega
  have outside : ∀ memory', SameTables memory root memory' → ¬InTable memory' root slot := by
    rintro memory' same ⟨level, table, isTable, within⟩
    have old := same.of_isTable isTable
    have tableFrame := old.isFrame rootFrame
    have here : table = frame := by
      rw [isFrame_iff] at isFrame tableFrame
      simp only [slot, pageSizeVmm] at within
      omega
    exact apart level (here ▸ old)
  rcases faithful.writes [] frame vmmWrite _ ⟨List.nodup_nil, by simp⟩ mapped slot changed with
    before | after
  · exact outside data same before
  · exact outside _ sameAfter after

end Large

/-- Whatever data the memory holds outside the page tables, `vmm_resolve` agrees
with the processor and `vmm_map` writes into page tables only, if and only if the
path of the address meets no large page. -/
theorem page_walks_faithful_iff {memory : ℕ → ℕ} {root : ℕ} (offsetSmall : hhdmOffset < 2 ^ 64)
    (rootFrame : IsFrame root) (virtual : ℕ)
    (apart : ∀ entry upper, hardwareLeaf memory virtual 3 root = some (entry, upper + 1) →
      ∀ level, ¬HardwareTable memory root level (entry &&& pageMask)) :
    (∀ memory', SameTables memory root memory' → Faithful hhdmOffset memory' root virtual) ↔
      ∀ entry upper, hardwareLeaf memory virtual 3 root ≠ some (entry, upper + 1) := by
  constructor
  · intro faithful entry upper large
    rcases not_faithful_of_large offsetSmall rootFrame large (apart entry upper large) with
      ⟨memory', same, unfaithful⟩
    exact unfaithful (faithful memory' same)
  · intro small memory' same
    have small' : SmallOnly memory' virtual 3 root := by
      intro entry upper
      rw [same.hardwareLeaf .root]
      exact small entry upper
    constructor
    · exact vmmResolve_small offsetSmall rootFrame small'
    · intro pages physical flags after unused mapped address changed
      exact vmmMap_small offsetSmall rootFrame small' unused mapped changed

/-- Tables that map the page at `0x400000` to the frame `0x6000`, and the first
1 GiB of the higher half to a large page at `0x40000000`. -/
def inheritedTables : ℕ → ℕ
  | 0x1000 => 0x3003
  | 0x1800 => 0x2003
  | 0x2000 => 0x40000083
  | 0x3000 => 0x4003
  | 0x4010 => 0x5003
  | 0x5000 => 0x6003
  | _ => 0

theorem page_walks_faithful_iff_small :
    hardwareTranslate inheritedTables 0x1000 0x400123 = some 0x6123 ∧
      ∀ memory', SameTables inheritedTables 0x1000 memory' →
        Faithful 0xFFFF800000000000 memory' 0x1000 0x400123 := by
  have leaf : hardwareLeaf inheritedTables 0x400123 3 0x1000 = some (0x6003, 0) := by decide
  have small : ∀ entry upper,
      hardwareLeaf inheritedTables 0x400123 3 0x1000 ≠ some (entry, upper + 1) := by
    intro entry upper
    rw [leaf]
    simp
  refine ⟨by decide, ?_⟩
  exact (page_walks_faithful_iff (by decide) (by unfold IsFrame; decide) 0x400123
    (fun entry upper large => absurd large (small entry upper))).mpr small

/-- In the large page `vmm_resolve` finds nothing, and `vmm_map` makes a table of
the data. -/
theorem large_page_walked :
    hardwareTranslate inheritedTables 0x1000 0xFFFF800000000000 = some 0x40000000 ∧
      (directPlatform 0xFFFF800000000000).vmmResolve 0xFFFF800000000000
        ⟨inheritedTables, [], 0x1000⟩ = some 0 ∧
      ((directPlatform 0xFFFF800000000000).vmmMap 0xFFFF800000000000 0x8000 2
        ⟨inheritedTables, [0x7000], 0x1000⟩).map (fun after => after.memory 0x40000000) =
          some 0x7003 ∧
      ¬Faithful 0xFFFF800000000000 inheritedTables 0x1000 0xFFFF800000000000 := by
  have translated : hardwareTranslate inheritedTables 0x1000 0xFFFF800000000000 =
      some 0x40000000 := by decide
  have resolved : (directPlatform 0xFFFF800000000000).vmmResolve 0xFFFF800000000000
      ⟨inheritedTables, [], 0x1000⟩ = some 0 := by decide
  refine ⟨translated, resolved, by decide, fun faithful => ?_⟩
  have equal := faithful.resolves []
  rw [resolved, translated] at equal
  exact absurd equal (by decide)

end Goshkik
