import Goshkik.Memory.VmmRefinement

/-!
# Page walks level by level

The processor and `walk` of `vmm.c` descend the same four levels, each of which
takes nine bits of the address.  Level 3 is the page map level 4, whose table is
the root, and level 0 is the page table.  Here `walk` is restated as a recursion
over the levels, so that it can be compared with what the processor does.
-/

namespace Goshkik

open Platform

/-- The index of an address into the tables of a level: `PT_INDEX` at level 0 up
to `PML4_INDEX` at level 3. -/
def levelIndex (virtual level : ℕ) : ℕ := (virtual >>> (12 + 9 * level)) &&& 0x1FF

/-- The entry in a slot of a table, when it is present. -/
def presentEntry (memory : ℕ → ℕ) (table index : ℕ) : Option ℕ :=
  if memory (table + 8 * index) &&& vmmPresent = 0 then none
  else some (memory (table + 8 * index))

theorem levelIndex_lt (virtual level : ℕ) : levelIndex virtual level < 512 := index_lt _

theorem presentEntry_eq_some {memory : ℕ → ℕ} {table index entry : ℕ}
    (present : presentEntry memory table index = some entry) :
    memory (table + 8 * index) = entry ∧ entry &&& vmmPresent ≠ 0 := by
  rw [presentEntry] at present
  split at present
  next => cases present
  next isPresent =>
    cases present
    exact ⟨rfl, isPresent⟩

theorem presentEntry_eq_none {memory : ℕ → ℕ} {table index : ℕ} :
    presentEntry memory table index = none ↔ memory (table + 8 * index) &&& vmmPresent = 0 := by
  rw [presentEntry]
  split <;> simp_all

/-- An entry depends on its own word only. -/
theorem presentEntry_congr {memory memory' : ℕ → ℕ} {table index : ℕ}
    (same : memory' (table + 8 * index) = memory (table + 8 * index)) :
    presentEntry memory' table index = presentEntry memory table index := by
  rw [presentEntry, presentEntry, same]

theorem slotAddress_inj {left right leftIndex rightIndex : ℕ} (leftFrame : IsFrame left)
    (rightFrame : IsFrame right) (leftSmall : leftIndex < 512) (rightSmall : rightIndex < 512)
    (same : left + 8 * leftIndex = right + 8 * rightIndex) :
    left = right ∧ leftIndex = rightIndex := by
  rw [isFrame_iff] at leftFrame rightFrame
  omega

namespace Platform

section Walk

variable {Pages : Type} (platform : Platform Pages)

/-- `walk` from a table of some level down to the slot in the last-level table. -/
def walkFrom (virtual : ℕ) (create : Bool) :
    ℕ → ℕ → Vmm Pages → Option (Option ℕ × Vmm Pages)
  | 0, table, vmm => some (some (platform.slot table (levelIndex virtual 0)), vmm)
  | level + 1, table, vmm => do
      match ← platform.nextTable create (platform.slot table (levelIndex virtual (level + 1)))
        vmm with
      | (none, vmm) => return (none, vmm)
      | (some next, vmm) => walkFrom virtual create level next vmm

theorem walk_eq_walkFrom (virtual : ℕ) (create : Bool) (vmm : Vmm Pages) :
    platform.walk virtual create vmm =
      platform.walkFrom virtual create 3 vmm.currentPml4 vmm := rfl

end Walk

/-! ## Walks through plain physical memory -/

section Direct

variable {hhdmOffset : ℕ} {vmm after : Vmm (List ℕ)} {table index entry : ℕ} {create : Bool}

theorem load_direct (offsetSmall : hhdmOffset < 2 ^ 64) (vmm : Vmm (List ℕ))
    (isFrame : IsFrame table) (small : index < 512) :
    (directPlatform hhdmOffset).load vmm ((directPlatform hhdmOffset).slot table index) =
      some (vmm.memory (table + 8 * index)) := by
  have direct := (directEnvironment hhdmOffset table offsetSmall).direct vmm.memory trivial table
    isFrame ⟨index, small⟩
  rw [load, direct]
  rfl

theorem store_direct (offsetSmall : hhdmOffset < 2 ^ 64) (vmm : Vmm (List ℕ))
    (isFrame : IsFrame table) (small : index < 512) (word : ℕ) :
    (directPlatform hhdmOffset).store vmm ((directPlatform hhdmOffset).slot table index) word =
      some { vmm with memory := Function.update vmm.memory (table + 8 * index) word } := by
  have direct := (directEnvironment hhdmOffset table offsetSmall).direct vmm.memory trivial table
    isFrame ⟨index, small⟩
  rw [store, direct]
  rfl

theorem nextTable_direct_present (offsetSmall : hhdmOffset < 2 ^ 64) (isFrame : IsFrame table)
    (small : index < 512) (present : presentEntry vmm.memory table index = some entry) :
    (directPlatform hhdmOffset).nextTable create ((directPlatform hhdmOffset).slot table index)
      vmm = some (some (entry &&& pageMask), vmm) := by
  rcases presentEntry_eq_some present with ⟨rfl, isPresent⟩
  rw [nextTable, load_direct offsetSmall vmm isFrame small]
  simp [isPresent]

theorem nextTable_direct_absent (offsetSmall : hhdmOffset < 2 ^ 64) (isFrame : IsFrame table)
    (small : index < 512) (absent : presentEntry vmm.memory table index = none) :
    (directPlatform hhdmOffset).nextTable false ((directPlatform hhdmOffset).slot table index)
      vmm = some (none, vmm) := by
  rw [nextTable, load_direct offsetSmall vmm isFrame small]
  simp [presentEntry_eq_none.mp absent]

/-- The state after a frame has been hung into a slot. -/
def hang (vmm : Vmm (List ℕ)) (table index page : ℕ) (pages : List ℕ) : Vmm (List ℕ) :=
  { vmm with memory := attachTable vmm.memory table index page, pages := pages }

/-- An absent entry is filled with the next frame of the allocator. -/
theorem nextTable_direct_create (offsetSmall : hhdmOffset < 2 ^ 64) (isFrame : IsFrame table)
    (small : index < 512) (absent : presentEntry vmm.memory table index = none) {page : ℕ}
    {pages : List ℕ} (supplied : vmm.pages = page :: pages) (pageFrame : IsFrame page)
    (allocated : page ≠ 0) :
    (directPlatform hhdmOffset).nextTable true ((directPlatform hhdmOffset).slot table index)
      vmm = some (some page, hang vmm table index page pages) := by
  let zeroed : Vmm (List ℕ) :=
    { vmm with memory := zeroFrame vmm.memory page, pages := pages }
  have allocTableEq : (directPlatform hhdmOffset).allocTable vmm = some (page, zeroed) := by
    have answer : (directPlatform hhdmOffset).pmmAllocPage vmm.pages = (page, pages) := by
      rw [supplied]
      rfl
    have good : (directEnvironment hhdmOffset table offsetSmall).good vmm.memory := trivial
    simp only [allocTable, answer, if_neg allocated]
    rw [memsetPage_frame { vmm with pages := pages } good pageFrame]
    rfl
  have stored : (directPlatform hhdmOffset).store zeroed
      ((directPlatform hhdmOffset).slot table index) (newEntry page) =
        some (hang vmm table index page pages) :=
    store_direct offsetSmall zeroed isFrame small _
  have reloaded : (directPlatform hhdmOffset).load (hang vmm table index page pages)
      ((directPlatform hhdmOffset).slot table index) = some (newEntry page) := by
    rw [load_direct offsetSmall _ isFrame small]
    simp [hang, attachTable]
  rw [nextTable, load_direct offsetSmall vmm isFrame small]
  simp only [Option.bind_eq_bind, Option.bind_some, presentEntry_eq_none.mp absent, ne_eq,
    not_true_eq_false, if_false, if_true, allocTableEq]
  change ((directPlatform hhdmOffset).store zeroed _ (newEntry page)).bind _ = _
  rw [stored, Option.bind_some, reloaded, Option.bind_some, newEntry_frame pageFrame]
  rfl

/-- The two ways in which one level of a creating walk goes on. -/
theorem nextTable_direct_cases (offsetSmall : hhdmOffset < 2 ^ 64) (isFrame : IsFrame table)
    (small : index < 512) (frames : ∀ page ∈ vmm.pages, IsFrame page) {next : Option ℕ}
    (stepped : (directPlatform hhdmOffset).nextTable true
      ((directPlatform hhdmOffset).slot table index) vmm = some (next, after)) :
    (∃ entry, presentEntry vmm.memory table index = some entry ∧
        next = some (entry &&& pageMask) ∧ after = vmm) ∨
      (presentEntry vmm.memory table index = none ∧ ∃ page pages, vmm.pages = page :: pages ∧
        next = some page ∧ after = hang vmm table index page pages) := by
  cases present : presentEntry vmm.memory table index with
  | some entry =>
      rw [nextTable_direct_present offsetSmall isFrame small present] at stepped
      cases stepped
      exact Or.inl ⟨entry, rfl, rfl, rfl⟩
  | none =>
      have stops : (directPlatform hhdmOffset).allocTable vmm ≠ none := by
        intro stopped
        rw [nextTable, load_direct offsetSmall vmm isFrame small] at stepped
        simp [presentEntry_eq_none.mp present, stopped] at stepped
      cases supplied : vmm.pages with
      | nil => exact absurd (by simp [allocTable, directPlatform, supplied]) stops
      | cons page pages =>
          have allocated : page ≠ 0 := by
            rintro rfl
            exact stops (by simp [allocTable, directPlatform, supplied])
          have pageFrame := frames page (by rw [supplied]; exact List.mem_cons_self)
          rw [nextTable_direct_create offsetSmall isFrame small present supplied pageFrame
            allocated] at stepped
          cases stepped
          exact Or.inr ⟨rfl, page, pages, rfl, rfl, rfl⟩

end Direct

end Platform

end Goshkik
