import Goshkik.Memory.Kheap
import Goshkik.Memory.Pmm

/-!
# Address spaces

`create_address_space` takes a frame for a new top-level table, clears it and copies the upper half
of the kernel's table.  The second part of the file says what the virtual memory manager does to the
frame allocator: it takes frames and gives none back.
-/

namespace Goshkik

namespace Platform

variable {Pages : Type} (platform : Platform Pages)

/-- The loop of `create_address_space`. -/
def copyEntries (kernelPml4 newPml4 : ℕ) : List ℕ → Vmm Pages → Option (Vmm Pages)
  | [], vmm => some vmm
  | i :: entries, vmm => do
      let entry ← platform.load vmm (platform.slot kernelPml4 i)
      let vmm ← platform.store vmm (platform.slot newPml4 i) entry
      copyEntries kernelPml4 newPml4 entries vmm

/-- The kernel halts when no frame is left. -/
def createAddressSpace (vmm : Vmm Pages) : Option (ℕ × Vmm Pages) :=
  let (newPml4, pages) := platform.pmmAllocPage vmm.pages
  if newPml4 = 0 then none
  else do
    let vmm ← platform.memsetPage { vmm with pages := pages } (platform.physicalToVirtual newPml4)
    let vmm ← platform.copyEntries vmm.currentPml4 newPml4
      (List.range' 256 (entriesPerTable - 256)) vmm
    return (newPml4, vmm)

/-! ## The frames that are taken -/

/-- What the frame allocator is like after any number of its calls. -/
inductive Takes : Pages → Pages → Prop where
  | refl (pages : Pages) : Takes pages pages
  | allocPage {pages last : Pages} (rest : Takes (platform.pmmAllocPage pages).2 last) :
      Takes pages last

variable {platform} {vmm after : Vmm Pages}

theorem Takes.trans {first middle last : Pages} (start : platform.Takes first middle)
    (rest : platform.Takes middle last) : platform.Takes first last := by
  induction start with
  | refl pages => exact rest
  | allocPage _ hypothesis => exact .allocPage (hypothesis rest)

theorem Takes.one (pages : Pages) : platform.Takes pages (platform.pmmAllocPage pages).2 :=
  .allocPage (.refl _)

theorem store_pages {pointer word : ℕ} (stores : platform.store vmm pointer word = some after) :
    after.pages = vmm.pages := by
  rcases Option.map_eq_some_iff.mp stores with ⟨address, _, rfl⟩
  rfl

theorem memsetPage_pages {pointer : ℕ} (clears : platform.memsetPage vmm pointer = some after) :
    after.pages = vmm.pages := by
  rcases Option.map_eq_some_iff.mp clears with ⟨frame, _, rfl⟩
  rfl

theorem copyEntries_pages {kernelPml4 newPml4 : ℕ} {entries : List ℕ}
    (copies : platform.copyEntries kernelPml4 newPml4 entries vmm = some after) :
    after.pages = vmm.pages := by
  induction entries generalizing vmm with
  | nil => rw [Option.some.inj copies]
  | cons i entries hypothesis =>
      simp only [copyEntries, Option.bind_eq_bind, Option.bind_eq_some_iff] at copies
      rcases copies with ⟨entry, _, middle, stores, rest⟩
      rw [hypothesis rest, store_pages stores]

/-- The frame comes from the frame allocator. -/
theorem createAddressSpace_pages {newPml4 : ℕ}
    (creates : platform.createAddressSpace vmm = some (newPml4, after)) :
    newPml4 ≠ 0 ∧ (newPml4, after.pages) = platform.pmmAllocPage vmm.pages := by
  simp only [createAddressSpace] at creates
  split at creates
  · cases creates
  · rename_i nonzero
    simp only [Option.bind_eq_bind, Option.bind_eq_some_iff, pure, Option.some.injEq,
      Prod.mk.injEq] at creates
    rcases creates with ⟨cleared, clears, copied, copies, rfl, rfl⟩
    exact ⟨nonzero, by rw [copyEntries_pages copies, memsetPage_pages clears]⟩

theorem allocTable_takes {frame : ℕ} (allocates : platform.allocTable vmm = some (frame, after)) :
    platform.Takes vmm.pages after.pages := by
  simp only [allocTable] at allocates
  split at allocates
  · cases allocates
  · simp only [Option.bind_eq_bind, Option.bind_eq_some_iff, pure, Option.some.injEq,
      Prod.mk.injEq] at allocates
    rcases allocates with ⟨cleared, clears, rfl, rfl⟩
    rw [memsetPage_pages clears]
    exact .one _

theorem nextTable_takes {create : Bool} {slot : ℕ} {table : Option ℕ}
    (returns : platform.nextTable create slot vmm = some (table, after)) :
    platform.Takes vmm.pages after.pages := by
  simp only [nextTable, Option.bind_eq_bind, Option.bind_eq_some_iff] at returns
  rcases returns with ⟨entry, _, returns⟩
  split at returns
  · simp only [pure, Option.some.injEq, Prod.mk.injEq] at returns
    exact returns.2 ▸ .refl _
  · split at returns
    · simp only [Option.bind_eq_some_iff, pure, Option.some.injEq, Prod.mk.injEq,
        Prod.exists] at returns
      rcases returns with ⟨new, allocated, allocates, stored, stores, last, _, _, rfl⟩
      rw [store_pages stores]
      exact allocTable_takes allocates
    · simp only [pure, Option.some.injEq, Prod.mk.injEq] at returns
      exact returns.2 ▸ .refl _

theorem walk_takes {virtual : ℕ} {create : Bool} {pte : Option ℕ}
    (returns : platform.walk virtual create vmm = some (pte, after)) :
    platform.Takes vmm.pages after.pages := by
  simp only [walk, Option.bind_eq_bind, Option.bind_eq_some_iff, Prod.exists] at returns
  rcases returns with ⟨pdpt, first, firstStep, returns⟩
  have start := nextTable_takes firstStep
  cases pdpt with
  | none =>
      simp only [pure, Option.some.injEq, Prod.mk.injEq] at returns
      exact returns.2 ▸ start
  | some pdpt =>
      simp only [Option.bind_eq_some_iff, Prod.exists] at returns
      rcases returns with ⟨pd, second, secondStep, returns⟩
      have start := start.trans (nextTable_takes secondStep)
      cases pd with
      | none =>
          simp only [pure, Option.some.injEq, Prod.mk.injEq] at returns
          exact returns.2 ▸ start
      | some pd =>
          simp only [Option.bind_eq_some_iff, Prod.exists] at returns
          rcases returns with ⟨pt, third, thirdStep, returns⟩
          have start := start.trans (nextTable_takes thirdStep)
          cases pt <;> simp only [pure, Option.some.injEq, Prod.mk.injEq] at returns <;>
            exact returns.2 ▸ start

theorem vmmMap_takes {virtual physical flags : ℕ}
    (maps : platform.vmmMap virtual physical flags vmm = some after) :
    platform.Takes vmm.pages after.pages := by
  simp only [vmmMap, Option.bind_eq_bind, Option.bind_eq_some_iff, Prod.exists] at maps
  rcases maps with ⟨pte, walked, walks, maps⟩
  cases pte with
  | none => cases maps
  | some pte =>
      rw [store_pages maps]
      exact walk_takes walks

end Platform

/-- The virtual memory manager of the kernel, which takes its frames from the bitmap. -/
def kernelPlatform (hhdmOffset : ℕ) (translate : (ℕ → ℕ) → ℕ → Option ℕ) : Platform Pmm :=
  ⟨hhdmOffset, translate, pmmAllocPage⟩

/-! ## Taken frames -/

/-- The bit that `pmm_free_page` clears for a frame is clear. -/
def Pmm.IsFree (pmm : Pmm) (frame : ℕ) : Prop :=
  pmm.managedBase ≤ frame ∧ (frame - pmm.managedBase) / pageSize < pmm.totalPages ∧
    bitTest pmm.bitmap ((frame - pmm.managedBase) / pageSize) = false

instance (pmm : Pmm) (frame : ℕ) : Decidable (pmm.IsFree frame) :=
  inferInstanceAs (Decidable (_ ≤ _ ∧ _ < _ ∧ _ = _))

variable {pmm last : Pmm} {frame hhdmOffset i : ℕ} {translate : (ℕ → ℕ) → ℕ → Option ℕ}

/-- `pmm_alloc_page` either finds no clear bit or sets the first one. -/
theorem pmmAllocPage_cases (pmm : Pmm) :
    pmmAllocPage pmm = (0, pmm) ∨ ∃ i, i < pmm.totalPages ∧ bitTest pmm.bitmap i = false ∧
      (∀ j < i, bitTest pmm.bitmap j = true) ∧
      pmmAllocPage pmm =
        ((pmm.managedBase + i * pageSize) % 2 ^ 64,
        { pmm with bitmap := bitSet pmm.bitmap i }) := by
  unfold pmmAllocPage
  split
  · rename_i i found
    rw [List.find?_range_eq_some] at found
    rcases found with ⟨clear, inside, before⟩
    rw [List.mem_range] at inside
    exact .inr ⟨i, inside, by simpa using clear, fun j earlier => by simpa using before j earlier,
      rfl⟩
  · exact .inl rfl

/-- Two states of the frame allocator, in the second of which more frames may be taken. -/
structure Pmm.TakesMore (pmm last : Pmm) : Prop where
  managedBase : last.managedBase = pmm.managedBase
  totalPages : last.totalPages = pmm.totalPages
  taken : ∀ i, bitTest pmm.bitmap i = true → bitTest last.bitmap i = true

theorem Pmm.TakesMore.trans {middle : Pmm} (first : pmm.TakesMore middle)
    (second : middle.TakesMore last) :
    pmm.TakesMore last :=
  ⟨second.managedBase.trans first.managedBase, second.totalPages.trans first.totalPages,
    fun i taken => second.taken i (first.taken i taken)⟩

theorem takesMore_of_takes (takes : (kernelPlatform hhdmOffset translate).Takes pmm last) :
    pmm.TakesMore last := by
  induction takes with
  | refl pmm => exact ⟨rfl, rfl, fun _ taken => taken⟩
  | @allocPage pmm last _ hypothesis =>
      have one : pmm.TakesMore (pmmAllocPage pmm).2 := by
        rcases pmmAllocPage_cases pmm with exhausted | ⟨i, _, _, _, takes⟩
        · rw [exhausted]
          exact ⟨rfl, rfl, fun _ taken => taken⟩
        · rw [takes]
          exact ⟨rfl, rfl, fun j taken => by simp [taken]⟩
      exact one.trans hypothesis

theorem Pmm.TakesMore.isFree (more : pmm.TakesMore last) (free : last.IsFree frame) :
    pmm.IsFree frame := by
  rcases free with ⟨above, inside, clear⟩
  rw [more.managedBase] at above inside clear
  rw [more.totalPages] at inside
  refine ⟨above, inside, ?_⟩
  by_contra set
  rw [Bool.not_eq_false] at set
  rw [more.taken _ set] at clear
  cases clear

/-- A frame that is handed out is not free, and its bit was clear before. -/
theorem pmmAllocPage_taken (nonzero : (pmmAllocPage pmm).1 ≠ 0) :
    ¬(pmmAllocPage pmm).2.IsFree (pmmAllocPage pmm).1 ∧
      ∃ i, bitTest pmm.bitmap i = false ∧ bitTest (pmmAllocPage pmm).2.bitmap i = true := by
  rcases pmmAllocPage_cases pmm with exhausted | ⟨i, _, clear, first, takes⟩
  · rw [exhausted] at nonzero
    exact absurd rfl nonzero
  · rw [takes]
    refine ⟨?_, i, clear, by simp⟩
    rintro ⟨_, _, free⟩
    simp only [bitTest_bitSet, Bool.or_eq_false_iff, decide_eq_false_iff_not] at free
    -- The address may be cut to 64 bits, which leads to a frame further below.
    have below : ((pmm.managedBase + i * pageSize) % 2 ^ 64 - pmm.managedBase) / pageSize ≤ i := by
      have cut := Nat.mod_le (pmm.managedBase + i * pageSize) (2 ^ 64)
      apply Nat.div_le_of_le_mul
      rw [mul_comm pageSize i]
      omega
    rw [first _ (lt_of_le_of_ne below free.1)] at free
    exact absurd free.2 (by simp)

end Goshkik
