import Goshkik.Memory.Vmm

/-!
# The page tables as a radix tree

The four-level page table is a radix tree of depth three whose leaf tables hold
the page mappings.  `Shape` is the invariant of the tree: the root and every
table below it are frames on which the direct map can be relied on, no table is
reached twice, and the frames that the allocator may still hand out are not part
of the tree.

The specification lemmas describe each function of `vmm.c` by what it does to
`tableAt`, the table at the end of a path of indices, and to `leafEntry`, the
last-level entry of a page.  They are stated for any `Environment`, that is, for
any platform whose direct map is valid on the frames concerned in the memories
where the walk happens.
-/

namespace Goshkik

open RadixTree

/-- The table that a present entry points to. -/
def entryChild (entry : ℕ) : Option ℕ :=
  if entry &&& vmmPresent = 0 then none else some (entry &&& pageMask)

/-- The entry in a slot of a table. -/
def tableRead (memory : ℕ → ℕ) (table : ℕ) (index : Fin 512) : ℕ := memory (table + 8 * index)

/-- The address of a frame: page aligned and inside the 52-bit physical address space. -/
def IsFrame (address : ℕ) : Prop := address &&& pageMask = address

/-- The table at the end of a path of indices. -/
def tableAt (memory : ℕ → ℕ) (root : ℕ) (path : List (Fin 512)) : Option ℕ :=
  descend entryChild (tableRead memory) root path

/-- A table of the tree. -/
def IsTable (memory : ℕ → ℕ) (root table : ℕ) : Prop :=
  Reached entryChild (tableRead memory) 3 root table

/-- The present last-level entry of the page at the end of a path. -/
def leafEntry (memory : ℕ → ℕ) (root : ℕ) (path : List (Fin 512)) (index : Fin 512) : Option ℕ :=
  (tableAt memory root path).bind (fun table =>
    if tableRead memory table index &&& vmmPresent = 0 then none
    else some (tableRead memory table index))

/-- The path of an address through the upper three levels. -/
def tablePath (address : ℕ) : List (Fin 512) :=
  [Fin.ofNat 512 (pml4Index address), Fin.ofNat 512 (pdptIndex address),
    Fin.ofNat 512 (pdIndex address)]

/-- The last index of an address. -/
def pageIndex (address : ℕ) : Fin 512 := Fin.ofNat 512 (ptIndex address)

/-- The 36-bit number of the virtual page of an address. -/
def virtualPage (address : ℕ) : ℕ := address / 2 ^ 12 % 2 ^ 36

/-! ## Frames, slots and pages -/

theorem isFrame_iff {address : ℕ} : IsFrame address ↔ address % 4096 = 0 ∧ address < 2 ^ 52 := by
  rw [IsFrame, and_pageMask]
  omega

theorem isFrame_and_pageMask (word : ℕ) : IsFrame (word &&& pageMask) := and_pageMask_idem word

theorem slot_address_inj {left right : ℕ} {i j : Fin 512} (leftFrame : IsFrame left)
    (rightFrame : IsFrame right) (same : left + 8 * i.val = right + 8 * j.val) :
    left = right ∧ i = j := by
  rw [isFrame_iff] at leftFrame rightFrame
  have iSmall := i.isLt
  have jSmall := j.isLt
  refine ⟨by omega, Fin.ext (by omega)⟩

theorem zeroFrame_inside (memory : ℕ → ℕ) (frame : ℕ) (i : Fin 512) :
    zeroFrame memory frame (frame + 8 * i.val) = 0 := by
  have small := i.isLt
  rw [zeroFrame, if_pos]
  simp only [pageSizeVmm]
  omega

theorem zeroFrame_outside (memory : ℕ → ℕ) {frame other : ℕ} (i : Fin 512) (isFrame : IsFrame frame)
    (otherFrame : IsFrame other) (different : other ≠ frame) :
    zeroFrame memory frame (other + 8 * i.val) = memory (other + 8 * i.val) := by
  rw [isFrame_iff] at isFrame otherFrame
  have small := i.isLt
  rw [zeroFrame, if_neg]
  simp only [pageSizeVmm]
  omega

/-- The four indices of an address are the digits of its page number. -/
theorem tablePath_pageIndex_eq_iff {left right : ℕ} :
    (tablePath left = tablePath right ∧ pageIndex left = pageIndex right) ↔
      virtualPage left = virtualPage right := by
  simp only [tablePath, pageIndex, List.cons.injEq, and_true, Fin.ext_iff, Fin.val_ofNat,
    pml4Index_eq, pdptIndex_eq, pdIndex_eq, ptIndex_eq, virtualPage]
  omega

@[simp]
theorem tablePath_length (address : ℕ) : (tablePath address).length = 3 := rfl

theorem tableAt_snoc (memory : ℕ → ℕ) (root : ℕ) (path : List (Fin 512)) (index : Fin 512) :
    tableAt memory root (path ++ [index]) =
      (tableAt memory root path).bind (fun table => entryChild (tableRead memory table index)) :=
  descend_snoc

theorem val_ofNat_index {index : ℕ} (small : index < 512) : (Fin.ofNat 512 index).val = index := by
  rw [Fin.val_ofNat, Nat.mod_eq_of_lt small]

theorem index_lt (word : ℕ) : word &&& 0x1FF < 512 := by
  rw [and_indexMask]
  exact Nat.mod_lt _ (by omega)

/-! ## What a walk relies on -/

namespace Platform

variable {Pages : Type} (platform : Platform Pages)

/-- A setting in which page tables can be walked and built: a set of frames on
which the direct map is valid in every `good` memory, and an allocator that
hands out such frames, each at most once. -/
structure Environment (root : ℕ) where
  frames : Set ℕ
  valid : Pages → Prop
  available : Pages → Set ℕ
  good : (ℕ → ℕ) → Prop
  isFrame : ∀ frame ∈ frames, IsFrame frame
  available_frames : ∀ pages, valid pages → available pages ⊆ frames
  alloc : ∀ pages, valid pages → (platform.pmmAllocPage pages).1 ≠ 0 →
    valid (platform.pmmAllocPage pages).2 ∧
      (platform.pmmAllocPage pages).1 ∈ available pages ∧
      (platform.pmmAllocPage pages).1 ∉ available (platform.pmmAllocPage pages).2 ∧
      available (platform.pmmAllocPage pages).2 ⊆ available pages
  direct : ∀ memory, good memory → ∀ frame ∈ frames, ∀ index : Fin 512,
    platform.translate memory (platform.slot frame index) = some (frame + 8 * index)
  congr : ∀ memory memory', good memory →
    (∀ path index, path.length = 3 →
      leafEntry memory' root path index = leafEntry memory root path index) → good memory'

variable {platform} {root : ℕ}

/-- The invariant of the page tables. -/
structure Shape (env : platform.Environment root) (vmm : Vmm Pages) : Prop where
  pml4 : vmm.currentPml4 = root
  unshared : Unshared entryChild (tableRead vmm.memory) 3 root
  tables : ∀ table, IsTable vmm.memory root table → table ∈ env.frames
  fresh : ∀ frame ∈ env.available vmm.pages, ¬IsTable vmm.memory root frame
  valid : env.valid vmm.pages

/-! ## Writing entries -/

/-- The entry that `walk` writes for a new table. -/
def newEntry (frame : ℕ) : ℕ := (frame &&& pageMask) ||| vmmPresent ||| vmmWrite

/-- Physical memory after a zeroed frame has been hung into a slot. -/
def attachTable (memory : ℕ → ℕ) (table index frame : ℕ) : ℕ → ℕ :=
  Function.update (zeroFrame memory frame) (table + 8 * index) (newEntry frame)

theorem newEntry_present (frame : ℕ) : newEntry frame &&& vmmPresent = 1 := by
  have mask : pageMask &&& vmmPresent = 0 := by decide
  rw [newEntry, Nat.and_or_distrib_right, Nat.and_or_distrib_right, Nat.land_assoc, mask,
    Nat.and_zero]
  rfl

theorem newEntry_frame {frame : ℕ} (isFrame : IsFrame frame) :
    newEntry frame &&& pageMask = frame := by
  simp only [newEntry, Nat.and_or_distrib_right, and_pageMask_idem]
  rw [isFrame]
  have present : vmmPresent &&& pageMask = 0 := by decide
  have write : vmmWrite &&& pageMask = 0 := by decide
  rw [present, write, Nat.or_zero, Nat.or_zero]

theorem entryChild_newEntry {frame : ℕ} (isFrame : IsFrame frame) :
    entryChild (newEntry frame) = some frame := by
  rw [entryChild, newEntry_present, newEntry_frame isFrame]
  rfl

@[simp]
theorem entryChild_zero : entryChild 0 = none := rfl

/-- A table that has just been hung into a slot is empty. -/
theorem tableRead_attachTable {memory : ℕ → ℕ} {table frame : ℕ} {index slot : Fin 512}
    (tableFrame : IsFrame table) (isFrame : IsFrame frame) (different : table ≠ frame) :
    tableRead (attachTable memory table index frame) frame slot = 0 := by
  simp only [tableRead, attachTable]
  rw [Function.update_of_ne, zeroFrame_inside]
  intro same
  exact different (slot_address_inj isFrame tableFrame same).1.symm

theorem leafEntry_of_tableAt {memory : ℕ → ℕ} {path : List (Fin 512)} {index : Fin 512}
    {table : ℕ} (arrives : tableAt memory root path = some table) :
    leafEntry memory root path index =
      if tableRead memory table index &&& vmmPresent = 0 then none
      else some (tableRead memory table index) := by
  rw [leafEntry, arrives, Option.bind_some]

namespace Shape

variable {env : platform.Environment root} {vmm : Vmm Pages} {above : List (Fin 512)}
  {table frame : ℕ} {index : Fin 512}

theorem isFrame_of_isTable (shape : Shape env vmm) (isTable : IsTable vmm.memory root table) :
    IsFrame table :=
  env.isFrame table (shape.tables table isTable)

/-- Slots of tables other than the written one keep their entries. -/
theorem read_attachTable (shape : Shape env vmm) (isTable : IsTable vmm.memory root table)
    (mem : frame ∈ env.frames) (fresh : ¬IsTable vmm.memory root frame) (other : ℕ)
    (next : Fin 512) (otherTable : IsTable vmm.memory root other)
    (different : ¬(other = table ∧ next = index)) :
    tableRead (attachTable vmm.memory table index frame) other next =
      tableRead vmm.memory other next := by
  have otherFrame := shape.isFrame_of_isTable otherTable
  have notFresh : other ≠ frame := by
    rintro rfl
    exact fresh otherTable
  simp only [tableRead, attachTable]
  rw [Function.update_of_ne,
    zeroFrame_outside vmm.memory next (env.isFrame frame mem) otherFrame notFresh]
  intro same
  exact different (slot_address_inj otherFrame (shape.isFrame_of_isTable isTable) same)

/-- Hanging a fresh frame into an empty slot adds one table. -/
theorem tableAt_attachTable (shape : Shape env vmm)
    (arrives : tableAt vmm.memory root above = some table) (short : above.length < 3)
    (absent : entryChild (tableRead vmm.memory table index) = none) (mem : frame ∈ env.frames)
    (fresh : ¬IsTable vmm.memory root frame) (path : List (Fin 512)) (pathShort : path.length ≤ 3) :
    tableAt (attachTable vmm.memory table index frame) root path =
      if path = above ++ [index] then some frame else tableAt vmm.memory root path := by
  have isTable : IsTable vmm.memory root table := ⟨above, by omega, arrives⟩
  have isFrame := env.isFrame frame mem
  refine descend_attach shape.unshared arrives short absent
    (shape.read_attachTable isTable mem fresh) ?_ ?_ pathShort
  · simp [tableRead, attachTable, entryChild_newEntry isFrame]
  · intro next
    rw [tableRead_attachTable (shape.isFrame_of_isTable isTable) isFrame, entryChild_zero]
    rintro rfl
    exact fresh isTable

/-- A new table maps no page, so no page mapping changes. -/
theorem leafEntry_attachTable (shape : Shape env vmm)
    (arrives : tableAt vmm.memory root above = some table) (short : above.length < 3)
    (absent : entryChild (tableRead vmm.memory table index) = none) (mem : frame ∈ env.frames)
    (fresh : ¬IsTable vmm.memory root frame) (path : List (Fin 512)) (page : Fin 512)
    (pathLength : path.length = 3) :
    leafEntry (attachTable vmm.memory table index frame) root path page =
      leafEntry vmm.memory root path page := by
  have isTable : IsTable vmm.memory root table := ⟨above, by omega, arrives⟩
  have attached := shape.tableAt_attachTable arrives short absent mem fresh path (by omega)
  by_cases new : path = above ++ [index]
  · have old : tableAt vmm.memory root path = none := by
      rw [new, tableAt_snoc, arrives, Option.bind_some, absent]
    rw [if_pos new] at attached
    rw [leafEntry_of_tableAt attached, leafEntry, old,
      tableRead_attachTable (shape.isFrame_of_isTable isTable) (env.isFrame frame mem)]
    · rfl
    · rintro rfl
      exact fresh isTable
  · rw [if_neg new] at attached
    rw [leafEntry, leafEntry, attached]
    cases arrivesPath : tableAt vmm.memory root path with
    | none => rfl
    | some leaf =>
        have leafTable : IsTable vmm.memory root leaf := ⟨path, by omega, arrivesPath⟩
        simp only [Option.bind_some]
        rw [shape.read_attachTable isTable mem fresh leaf page leafTable]
        rintro ⟨rfl, _⟩
        have samePath := shape.unshared above path leaf (by omega) (by omega) arrives arrivesPath
        rw [samePath] at short
        omega

/-- Zeroing a frame outside the tree changes no page mapping. -/
theorem leafEntry_zeroFrame (shape : Shape env vmm) (mem : frame ∈ env.frames)
    (fresh : ¬IsTable vmm.memory root frame) (path : List (Fin 512)) (page : Fin 512)
    (pathLength : path.length = 3) :
    leafEntry (zeroFrame vmm.memory frame) root path page =
      leafEntry vmm.memory root path page := by
  have same : ∀ other next, IsTable vmm.memory root other →
      tableRead (zeroFrame vmm.memory frame) other next = tableRead vmm.memory other next := by
    intro other next otherTable
    apply zeroFrame_outside vmm.memory next (env.isFrame frame mem)
      (shape.isFrame_of_isTable otherTable)
    rintro rfl
    exact fresh otherTable
  have samePath : tableAt (zeroFrame vmm.memory frame) root path =
      tableAt vmm.memory root path := by
    apply descend_congr
    intro front passed next isPrefix arrives
    have lengthLe := isPrefix.length_le
    rw [List.length_append, List.length_singleton] at lengthLe
    exact same passed next ⟨front, by omega, arrives⟩
  rw [leafEntry, leafEntry, samePath]
  cases arrives : tableAt vmm.memory root path with
  | none => rfl
  | some leaf =>
      simp only [Option.bind_some]
      rw [same leaf page ⟨path, by omega, arrives⟩]

/-- Writing a last-level entry changes no table of the tree. -/
theorem tableAt_update (shape : Shape env vmm)
    (arrives : tableAt vmm.memory root above = some table) (full : above.length = 3)
    (index : Fin 512) (word : ℕ) (path : List (Fin 512)) (pathShort : path.length ≤ 3) :
    tableAt (Function.update vmm.memory (table + 8 * index.val) word) root path =
      tableAt vmm.memory root path := by
  have isTable : IsTable vmm.memory root table := ⟨above, by omega, arrives⟩
  have elsewhere : ¬(above ++ [index]) <+: path := by
    intro isPrefix
    have lengthLe := isPrefix.length_le
    rw [List.length_append, List.length_singleton] at lengthLe
    omega
  refine descend_write shape.unshared arrives (by omega) ?_ (by omega) elsewhere
  intro other next otherTable different
  simp only [tableRead]
  rw [Function.update_of_ne]
  intro same
  exact different (slot_address_inj (shape.isFrame_of_isTable otherTable)
    (shape.isFrame_of_isTable isTable) same)

/-- Writing a last-level entry changes the mapping of one page. -/
theorem leafEntry_update (shape : Shape env vmm)
    (arrives : tableAt vmm.memory root above = some table) (full : above.length = 3) (word : ℕ)
    (path : List (Fin 512)) (page : Fin 512) (pathLength : path.length = 3) :
    leafEntry (Function.update vmm.memory (table + 8 * index.val) word) root path page =
      if path = above ∧ page = index then (if word &&& vmmPresent = 0 then none else some word)
      else leafEntry vmm.memory root path page := by
  have isTable : IsTable vmm.memory root table := ⟨above, by omega, arrives⟩
  have samePath := shape.tableAt_update arrives full index word path (by omega)
  rw [leafEntry, leafEntry, samePath]
  by_cases here : path = above ∧ page = index
  · rcases here with ⟨rfl, rfl⟩
    simp [arrives, tableRead]
  · rw [if_neg here]
    cases arrivesPath : tableAt vmm.memory root path with
    | none => rfl
    | some leaf =>
        have leafTable : IsTable vmm.memory root leaf := ⟨path, by omega, arrivesPath⟩
        have sameWord : tableRead (Function.update vmm.memory (table + 8 * index.val) word) leaf
            page = tableRead vmm.memory leaf page := by
          apply Function.update_of_ne
          intro same
          rcases slot_address_inj (shape.isFrame_of_isTable leafTable)
            (shape.isFrame_of_isTable isTable) same with ⟨rfl, rfl⟩
          exact here
            ⟨shape.unshared path above leaf (by omega) (by omega) arrivesPath arrives, rfl⟩
        simp only [Option.bind_some]
        rw [sameWord]

/-- Writing a last-level entry keeps the invariant of the tree. -/
theorem update (shape : Shape env vmm) (arrives : tableAt vmm.memory root above = some table)
    (full : above.length = 3) (index : Fin 512) (word : ℕ) :
    Shape env
      { vmm with memory := Function.update vmm.memory (table + 8 * index.val) word } := by
  have same := fun path pathShort => shape.tableAt_update arrives full index word path pathShort
  have sameTables : ∀ other, IsTable (Function.update vmm.memory (table + 8 * index.val) word)
      root other → IsTable vmm.memory root other := by
    rintro other ⟨path, pathShort, arrivesOther⟩
    refine ⟨path, pathShort, ?_⟩
    rw [← arrivesOther]
    exact (same path pathShort).symm
  exact ⟨shape.pml4, unshared_congr shape.unshared same,
    fun other otherTable => shape.tables other (sameTables other otherTable),
    fun frame available isTable => shape.fresh frame available (sameTables frame isTable),
    shape.valid⟩

/-- Hanging a frame that the allocator has handed out into an empty slot keeps
the invariant of the tree. -/
theorem attach (shape : Shape env vmm) (arrives : tableAt vmm.memory root above = some table)
    (short : above.length < 3) (absent : entryChild (tableRead vmm.memory table index) = none)
    (allocated : (platform.pmmAllocPage vmm.pages).1 ≠ 0) :
    Shape env
      { vmm with
        memory := attachTable vmm.memory table index (platform.pmmAllocPage vmm.pages).1
        pages := (platform.pmmAllocPage vmm.pages).2 } := by
  rcases env.alloc vmm.pages shape.valid allocated with ⟨valid, isAvailable, used, fewer⟩
  have mem := env.available_frames vmm.pages shape.valid isAvailable
  have fresh := shape.fresh _ isAvailable
  have attached := shape.tableAt_attachTable arrives short absent mem fresh
  have tables : ∀ other, IsTable (attachTable vmm.memory table index
      (platform.pmmAllocPage vmm.pages).1) root other →
      other = (platform.pmmAllocPage vmm.pages).1 ∨ IsTable vmm.memory root other := by
    rintro other ⟨path, pathShort, arrivesOther⟩
    change tableAt _ root path = some other at arrivesOther
    rw [attached path pathShort] at arrivesOther
    split at arrivesOther
    next => exact Or.inl (Option.some.inj arrivesOther).symm
    next => exact Or.inr ⟨path, pathShort, arrivesOther⟩
  refine ⟨shape.pml4, unshared_attach shape.unshared fresh attached, ?_, ?_, valid⟩
  · intro other otherTable
    rcases tables other otherTable with rfl | old
    · exact mem
    · exact shape.tables other old
  · intro frame available isTable
    rcases tables frame isTable with rfl | old
    · exact used available
    · exact shape.fresh frame (fewer available) old

end Shape

/-! ## The functions of the virtual memory manager -/

/-- A state of the virtual memory manager with the same page mappings and
possibly more tables. -/
structure Extends (env : platform.Environment root) (before after : Vmm Pages) : Prop where
  shape : Shape env after
  good : env.good after.memory
  kept : ∀ path table, path.length ≤ 3 → tableAt before.memory root path = some table →
    tableAt after.memory root path = some table
  leaves : ∀ path page, path.length = 3 →
    leafEntry after.memory root path page = leafEntry before.memory root path page

namespace Extends

variable {env : platform.Environment root} {first second third : Vmm Pages}

theorem refl (shape : Shape env first) (good : env.good first.memory) : Extends env first first :=
  ⟨shape, good, fun _ _ _ arrives => arrives, fun _ _ _ => rfl⟩

theorem trans (left : Extends env first second) (right : Extends env second third) :
    Extends env first third := by
  refine ⟨right.shape, right.good, ?_, ?_⟩
  · intro path table short arrives
    exact right.kept path table short (left.kept path table short arrives)
  · intro path page length
    rw [right.leaves path page length, left.leaves path page length]

end Extends

section Walk

variable {env : platform.Environment root} {vmm after : Vmm Pages} {above : List (Fin 512)}
  {table next : ℕ} {index : Fin 512} {create : Bool}

theorem load_slot (vmm : Vmm Pages) (good : env.good vmm.memory) (mem : table ∈ env.frames)
    (index : Fin 512) :
    platform.load vmm (platform.slot table index) = some (tableRead vmm.memory table index) := by
  rw [load, env.direct vmm.memory good table mem index]
  rfl

theorem store_slot (vmm : Vmm Pages) (good : env.good vmm.memory) (mem : table ∈ env.frames)
    (index : Fin 512) (word : ℕ) : platform.store vmm (platform.slot table index) word =
      some { vmm with memory := Function.update vmm.memory (table + 8 * index.val) word } := by
  rw [store, env.direct vmm.memory good table mem index]
  rfl

theorem nextTable_present (good : env.good vmm.memory) (mem : table ∈ env.frames)
    (points : entryChild (tableRead vmm.memory table index) = some next) :
    platform.nextTable create (platform.slot table index) vmm = some (some next, vmm) := by
  rw [entryChild] at points
  split at points
  next => cases points
  next present =>
    cases points
    simp [nextTable, load_slot vmm good mem index, present]

theorem nextTable_absent (good : env.good vmm.memory) (mem : table ∈ env.frames)
    (absent : entryChild (tableRead vmm.memory table index) = none) :
    platform.nextTable false (platform.slot table index) vmm = some (none, vmm) := by
  rw [entryChild] at absent
  split at absent
  next missing => simp [nextTable, load_slot vmm good mem index, missing]
  next => cases absent

theorem memsetPage_frame (vmm : Vmm Pages) (good : env.good vmm.memory) (mem : table ∈ env.frames) :
    platform.memsetPage vmm (platform.physicalToVirtual table) =
      some { vmm with memory := zeroFrame vmm.memory table } := by
  have start : platform.slot table 0 = platform.physicalToVirtual table := by
    simp [slot, physicalToVirtual]
  have direct := env.direct vmm.memory good table mem 0
  rw [Fin.val_zero, start] at direct
  rw [memsetPage, direct]
  rfl

/-- A new table is a zeroed frame. -/
theorem allocTable_frame (good : env.good vmm.memory)
    (allocated : (platform.pmmAllocPage vmm.pages).1 ≠ 0)
    (mem : (platform.pmmAllocPage vmm.pages).1 ∈ env.frames) :
    platform.allocTable vmm = some ((platform.pmmAllocPage vmm.pages).1,
      { vmm with
        memory := zeroFrame vmm.memory (platform.pmmAllocPage vmm.pages).1
        pages := (platform.pmmAllocPage vmm.pages).2 }) := by
  simp only [allocTable, if_neg allocated]
  rw [memsetPage_frame { vmm with pages := (platform.pmmAllocPage vmm.pages).2 } good mem]
  rfl

/-- The state after a frame of the allocator has been hung into a slot. -/
def attachNext (platform : Platform Pages) (vmm : Vmm Pages) (table index : ℕ) : Vmm Pages :=
  { vmm with
    memory := attachTable vmm.memory table index (platform.pmmAllocPage vmm.pages).1
    pages := (platform.pmmAllocPage vmm.pages).2 }

/-- An absent entry is filled with the next frame of the allocator. -/
theorem nextTable_create_eq (shape : Shape env vmm) (good : env.good vmm.memory)
    (arrives : tableAt vmm.memory root above = some table) (short : above.length < 3)
    (absent : entryChild (tableRead vmm.memory table index) = none)
    (allocated : (platform.pmmAllocPage vmm.pages).1 ≠ 0) :
    platform.nextTable true (platform.slot table index) vmm =
      some (some (platform.pmmAllocPage vmm.pages).1, attachNext platform vmm table index) := by
  have tableMem := shape.tables table ⟨above, by omega, arrives⟩
  have missing : tableRead vmm.memory table index &&& vmmPresent = 0 := by
    rw [entryChild] at absent
    split at absent
    next missing => exact missing
    next => cases absent
  rcases env.alloc vmm.pages shape.valid allocated with ⟨_, isAvailable, _⟩
  have mem := env.available_frames vmm.pages shape.valid isAvailable
  have fresh := shape.fresh _ isAvailable
  have goodZero := env.congr _ _ good (shape.leafEntry_zeroFrame mem fresh)
  have goodAttached :=
    env.congr _ _ good (shape.leafEntry_attachTable arrives short absent mem fresh)
  let frame := (platform.pmmAllocPage vmm.pages).1
  let zeroed : Vmm Pages := { vmm with
    memory := zeroFrame vmm.memory frame, pages := (platform.pmmAllocPage vmm.pages).2 }
  have zeroedEq : platform.allocTable vmm = some (frame, zeroed) :=
    allocTable_frame good allocated mem
  have stored : platform.store zeroed (platform.slot table index) (newEntry frame) =
      some (attachNext platform vmm table index) := store_slot zeroed goodZero tableMem index _
  have reloaded : platform.load (attachNext platform vmm table index)
      (platform.slot table index) = some (newEntry frame) := by
    rw [load_slot (attachNext platform vmm table index) goodAttached tableMem index]
    simp [tableRead, attachNext, attachTable, frame]
  rw [nextTable, load_slot vmm good tableMem index]
  simp only [Option.bind_eq_bind, Option.bind_some, missing, ne_eq, not_true_eq_false,
    if_false, if_true, zeroedEq]
  change (platform.store zeroed _ (newEntry frame)).bind _ = _
  rw [stored, Option.bind_some, reloaded, Option.bind_some,
    newEntry_frame (env.isFrame frame mem)]
  rfl

theorem extends_attachNext (shape : Shape env vmm) (good : env.good vmm.memory)
    (arrives : tableAt vmm.memory root above = some table) (short : above.length < 3)
    (absent : entryChild (tableRead vmm.memory table index) = none)
    (allocated : (platform.pmmAllocPage vmm.pages).1 ≠ 0) :
    Extends env vmm (attachNext platform vmm table index) ∧
      tableAt (attachNext platform vmm table index).memory root (above ++ [index]) =
        some (platform.pmmAllocPage vmm.pages).1 := by
  rcases env.alloc vmm.pages shape.valid allocated with ⟨_, isAvailable, _⟩
  have mem := env.available_frames vmm.pages shape.valid isAvailable
  have fresh := shape.fresh _ isAvailable
  have leaves := shape.leafEntry_attachTable arrives short absent mem fresh
  have attached := shape.tableAt_attachTable arrives short absent mem fresh
  refine ⟨⟨shape.attach arrives short absent allocated, env.congr _ _ good leaves, ?_, leaves⟩, ?_⟩
  · intro path other pathShort arrivesOther
    rw [attachNext, attached path pathShort]
    split
    next new =>
      rw [new, tableAt_snoc, arrives, Option.bind_some, absent] at arrivesOther
      cases arrivesOther
    next => exact arrivesOther
  · rw [attachNext, attached _ (by simp; omega), if_pos rfl]

/-- The walk stops for good only when the allocator has no frame left. -/
theorem nextTable_exhausted (good : env.good vmm.memory) (mem : table ∈ env.frames)
    (absent : entryChild (tableRead vmm.memory table index) = none)
    (exhausted : (platform.pmmAllocPage vmm.pages).1 = 0) :
    platform.nextTable true (platform.slot table index) vmm = none := by
  rw [entryChild] at absent
  split at absent
  next missing => simp [nextTable, load_slot vmm good mem index, missing, allocTable, exhausted]
  next => cases absent

/-- One level of a walk that creates missing tables: it uses up at most one frame. -/
theorem nextTable_extends {index : ℕ} (shape : Shape env vmm) (good : env.good vmm.memory)
    (arrives : tableAt vmm.memory root above = some table) (short : above.length < 3)
    (small : index < 512) :
    (platform.nextTable true (platform.slot table index) vmm = none ∧
        (platform.pmmAllocPage vmm.pages).1 = 0) ∨
      ∃ next after, platform.nextTable true (platform.slot table index) vmm =
          some (some next, after) ∧
        Extends env vmm after ∧
        tableAt after.memory root (above ++ [Fin.ofNat 512 index]) = some next ∧
        (after.pages = vmm.pages ∨ after.pages = (platform.pmmAllocPage vmm.pages).2) := by
  have slotEq : platform.slot table index = platform.slot table (Fin.ofNat 512 index).val := by
    rw [val_ofNat_index small]
  have mem := shape.tables table ⟨above, by omega, arrives⟩
  rw [slotEq]
  cases points : entryChild (tableRead vmm.memory table (Fin.ofNat 512 index)) with
  | none =>
      by_cases exhausted : (platform.pmmAllocPage vmm.pages).1 = 0
      · exact Or.inl ⟨nextTable_exhausted good mem points exhausted, exhausted⟩
      · rcases extends_attachNext shape good arrives short points exhausted with
          ⟨extended, attached⟩
        exact Or.inr ⟨_, _, nextTable_create_eq shape good arrives short points exhausted,
          extended, attached, Or.inr rfl⟩
  | some next =>
      refine Or.inr ⟨next, vmm, nextTable_present good mem points, .refl shape good, ?_,
        Or.inl rfl⟩
      rw [tableAt_snoc, arrives, Option.bind_some, points]

/-- One level of a walk that creates nothing. -/
theorem nextTable_lookup {index : ℕ} (shape : Shape env vmm) (good : env.good vmm.memory)
    (arrives : tableAt vmm.memory root above = some table) (short : above.length < 3)
    (small : index < 512) :
    platform.nextTable false (platform.slot table index) vmm =
      some (tableAt vmm.memory root (above ++ [Fin.ofNat 512 index]), vmm) := by
  have mem := shape.tables table ⟨above, by omega, arrives⟩
  rw [tableAt_snoc, arrives, Option.bind_some]
  nth_rewrite 1 [← val_ofNat_index small]
  cases points : entryChild (tableRead vmm.memory table (Fin.ofNat 512 index)) with
  | none => exact nextTable_absent good mem points
  | some next => exact nextTable_present good mem points

theorem pml4Index_lt (virtual : ℕ) : pml4Index virtual < 512 := index_lt _

theorem pdptIndex_lt (virtual : ℕ) : pdptIndex virtual < 512 := index_lt _

theorem pdIndex_lt (virtual : ℕ) : pdIndex virtual < 512 := index_lt _

theorem ptIndex_lt (virtual : ℕ) : ptIndex virtual < 512 := index_lt _

/-- `walk` without creation finds the last-level table of an address and changes nothing. -/
theorem walk_lookup (shape : Shape env vmm) (good : env.good vmm.memory) (virtual : ℕ) :
    platform.walk virtual false vmm =
      some ((tableAt vmm.memory root (tablePath virtual)).map
        (fun table => platform.slot table (ptIndex virtual)), vmm) := by
  have path : tablePath virtual = [] ++ [Fin.ofNat 512 (pml4Index virtual)] ++
      [Fin.ofNat 512 (pdptIndex virtual)] ++ [Fin.ofNat 512 (pdIndex virtual)] := rfl
  have start : tableAt vmm.memory root [] = some root := rfl
  rw [walk, shape.pml4, nextTable_lookup shape good start (by simp) (pml4Index_lt virtual), path]
  cases pdptEq : tableAt vmm.memory root ([] ++ [Fin.ofNat 512 (pml4Index virtual)]) with
  | none =>
      rw [tableAt_snoc, tableAt_snoc, pdptEq]
      rfl
  | some pdpt =>
      simp only [Option.bind_eq_bind, Option.bind_some]
      rw [nextTable_lookup shape good pdptEq (by simp) (pdptIndex_lt virtual)]
      cases pdEq : tableAt vmm.memory root ([] ++ [Fin.ofNat 512 (pml4Index virtual)] ++
          [Fin.ofNat 512 (pdptIndex virtual)]) with
      | none =>
          rw [tableAt_snoc, pdEq]
          rfl
      | some pd =>
          simp only [Option.bind_some]
          rw [nextTable_lookup shape good pdEq (by simp) (pdIndex_lt virtual)]
          cases tableAt vmm.memory root ([] ++ [Fin.ofNat 512 (pml4Index virtual)] ++
            [Fin.ofNat 512 (pdptIndex virtual)] ++ [Fin.ofNat 512 (pdIndex virtual)]) <;> rfl

/-- `walk` with creation arrives at the last-level table of the address and
changes no page mapping, unless the allocator runs out within three frames. -/
theorem walk_create (shape : Shape env vmm) (good : env.good vmm.memory) (virtual : ℕ) :
    (platform.walk virtual true vmm = none ∧ ∃ count < 3,
        (platform.pmmAllocPage ((fun pages => (platform.pmmAllocPage pages).2)^[count]
          vmm.pages)).1 = 0) ∨
      ∃ table after, platform.walk virtual true vmm =
          some (some (platform.slot table (ptIndex virtual)), after) ∧
        Extends env vmm after ∧ tableAt after.memory root (tablePath virtual) = some table := by
  have start : tableAt vmm.memory root [] = some root := rfl
  rw [walk, shape.pml4]
  rcases nextTable_extends shape good start (by simp) (pml4Index_lt virtual) with
    ⟨stopped, exhausted⟩ | ⟨pdpt, one, firstEq, first, pdptEq, usedOne⟩
  · exact Or.inl ⟨by rw [stopped]; rfl, 0, by omega, exhausted⟩
  rw [firstEq]
  simp only [Option.bind_eq_bind, Option.bind_some]
  rcases nextTable_extends first.shape first.good pdptEq (by simp) (pdptIndex_lt virtual) with
    ⟨stopped, exhausted⟩ | ⟨pd, two, secondEq, second, pdEq, usedTwo⟩
  · refine Or.inl ⟨by rw [stopped]; rfl, ?_⟩
    rcases usedOne with used | used <;> rw [used] at exhausted
    · exact ⟨0, by omega, exhausted⟩
    · exact ⟨1, by omega, exhausted⟩
  rw [secondEq]
  simp only [Option.bind_some]
  rcases nextTable_extends second.shape second.good pdEq (by simp) (pdIndex_lt virtual) with
    ⟨stopped, exhausted⟩ | ⟨pt, three, thirdEq, third, ptEq, _⟩
  · refine Or.inl ⟨by rw [stopped]; rfl, ?_⟩
    rcases usedOne with used | used <;> rcases usedTwo with again | again <;>
      rw [again, used] at exhausted
    · exact ⟨0, by omega, exhausted⟩
    · exact ⟨1, by omega, exhausted⟩
    · exact ⟨1, by omega, exhausted⟩
    · exact ⟨2, by omega, exhausted⟩
  rw [thirdEq]
  exact Or.inr ⟨pt, three, rfl, (first.trans second).trans third, ptEq⟩

/-- `vmm_resolve` reads the last-level entry of the page. -/
theorem vmmResolve_eq (shape : Shape env vmm) (good : env.good vmm.memory) (virtual : ℕ) :
    platform.vmmResolve virtual vmm =
      some (match leafEntry vmm.memory root (tablePath virtual) (pageIndex virtual) with
        | none => 0
        | some entry => (entry &&& pageMask) ||| (virtual &&& (pageSizeVmm - 1))) := by
  rw [vmmResolve, walk_lookup shape good virtual]
  cases arrives : tableAt vmm.memory root (tablePath virtual) with
  | none =>
      rw [leafEntry, arrives]
      rfl
  | some table =>
      have mem := shape.tables table ⟨tablePath virtual, by simp, arrives⟩
      have index : (pageIndex virtual).val = ptIndex virtual :=
        val_ofNat_index (ptIndex_lt virtual)
      have loaded := load_slot vmm good mem (pageIndex virtual)
      rw [index] at loaded
      rw [leafEntry_of_tableAt arrives]
      simp only [Option.map_some, Option.bind_eq_bind, Option.bind_some, loaded]
      split <;> rfl

/-- `vmm_map` changes the mapping of one page. -/
theorem vmmMap_spec {physical flags : ℕ} (shape : Shape env vmm) (good : env.good vmm.memory)
    (virtual : ℕ) (mapped : platform.vmmMap virtual physical flags vmm = some after) :
    Shape env after ∧ ∀ path page, path.length = 3 →
      leafEntry after.memory root path page =
        if path = tablePath virtual ∧ page = pageIndex virtual then
          some ((physical &&& pageMask) ||| flags ||| vmmPresent)
        else leafEntry vmm.memory root path page := by
  rw [vmmMap, Option.bind_eq_bind, Option.bind_eq_some_iff] at mapped
  rcases mapped with ⟨⟨result, middle⟩, walked, stored⟩
  rcases walk_create shape good virtual with
    ⟨stopped, _⟩ | ⟨table, final, walkEq, extended, arrives⟩
  · rw [stopped] at walked
    cases walked
  rw [walkEq] at walked
  cases walked
  have mem := extended.shape.tables table ⟨tablePath virtual, by simp, arrives⟩
  have index : ptIndex virtual = (pageIndex virtual).val :=
    (val_ofNat_index (ptIndex_lt virtual)).symm
  simp only [index] at stored
  rw [store_slot middle extended.good mem (pageIndex virtual)] at stored
  cases stored
  refine ⟨extended.shape.update arrives (by simp) _ _, ?_⟩
  intro path page length
  rw [extended.shape.leafEntry_update arrives (by simp) _ path page length,
    extended.leaves path page length]
  have present : ((physical &&& pageMask) ||| flags ||| vmmPresent) &&& vmmPresent ≠ 0 := by
    rw [Nat.and_or_distrib_right, Nat.and_self]
    exact fun isZero => absurd (Nat.or_eq_zero_iff.mp isZero).2 (by decide)
  rw [if_neg present]

/-- `vmm_map` returns when the allocator can supply three frames. -/
theorem vmmMap_returns (shape : Shape env vmm) (good : env.good vmm.memory)
    (virtual physical flags : ℕ)
    (supplied : ∀ count < 3, (platform.pmmAllocPage
      ((fun pages => (platform.pmmAllocPage pages).2)^[count] vmm.pages)).1 ≠ 0) :
    ∃ after, platform.vmmMap virtual physical flags vmm = some after := by
  rcases walk_create shape good virtual with
    ⟨_, count, small, exhausted⟩ | ⟨table, middle, walkEq, extended, arrives⟩
  · exact absurd exhausted (supplied count small)
  have mem := extended.shape.tables table ⟨tablePath virtual, by simp, arrives⟩
  have stored := store_slot middle extended.good mem (pageIndex virtual)
    ((physical &&& pageMask) ||| flags ||| vmmPresent)
  rw [pageIndex, val_ofNat_index (ptIndex_lt virtual)] at stored
  have mapped : platform.vmmMap virtual physical flags vmm =
      platform.store middle (platform.slot table (ptIndex virtual))
        ((physical &&& pageMask) ||| flags ||| vmmPresent) := by
    rw [vmmMap, walkEq]
    rfl
  exact ⟨_, mapped.trans stored⟩

/-- `vmm_unmap` removes the mapping of one page. -/
theorem vmmUnmap_spec (shape : Shape env vmm) (good : env.good vmm.memory) (virtual : ℕ) :
    ∃ after, platform.vmmUnmap virtual vmm = some after ∧ Shape env after ∧
      ∀ path page, path.length = 3 → leafEntry after.memory root path page =
        if path = tablePath virtual ∧ page = pageIndex virtual then none
        else leafEntry vmm.memory root path page := by
  rw [vmmUnmap, walk_lookup shape good virtual]
  cases arrives : tableAt vmm.memory root (tablePath virtual) with
  | none =>
      refine ⟨vmm, rfl, shape, ?_⟩
      intro path page _
      split
      next here =>
        rw [here.1, leafEntry, arrives]
        rfl
      next => rfl
  | some table =>
      have mem := shape.tables table ⟨tablePath virtual, by simp, arrives⟩
      have index : (pageIndex virtual).val = ptIndex virtual :=
        val_ofNat_index (ptIndex_lt virtual)
      have loaded := load_slot vmm good mem (pageIndex virtual)
      have stored := store_slot vmm good mem (pageIndex virtual) 0
      rw [index] at loaded stored
      simp only [Option.map_some, Option.bind_eq_bind, Option.bind_some, loaded, stored]
      by_cases absent : tableRead vmm.memory table (pageIndex virtual) &&& vmmPresent = 0
      · refine ⟨vmm, by simp [absent], shape, ?_⟩
        intro path page _
        split
        next here => rw [here.1, here.2, leafEntry_of_tableAt arrives, if_pos absent]
        next => rfl
      · refine ⟨_, by rw [if_pos absent], ?_, ?_⟩
        · rw [← index]
          exact shape.update arrives (by simp) _ _
        · intro path page length
          rw [← index]
          exact shape.leafEntry_update arrives (by simp) 0 path page length

end Walk

end Platform

end Goshkik
