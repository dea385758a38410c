import Goshkik.Memory.PageWalk

/-!
# The page walk of the processor

The processor ends its walk early at an entry of level 1 or 2 that has
`VMM_HUGE` set: the entry maps a page of 2 MiB or 1 GiB, and what it points to is
data.  In an entry of the page map level 4 the bit is reserved, as are the
address bits of a large page below its size.

Nothing is assumed about the tables.  They may be shared between paths, and a
path may visit a table twice.
-/

namespace Goshkik

open Platform

/-- `VMM_HUGE`. -/
def vmmHuge : ℕ := 1 <<< 7

/-- The entry at which the walk of the processor ends and its level, from a table
of some level. -/
def hardwareLeaf (memory : ℕ → ℕ) (virtual : ℕ) : ℕ → ℕ → Option (ℕ × ℕ)
  | 0, table => (presentEntry memory table (levelIndex virtual 0)).map (fun entry => (entry, 0))
  | level + 1, table => do
      let entry ← presentEntry memory table (levelIndex virtual (level + 1))
      if entry &&& vmmHuge ≠ 0 then return (entry, level + 1)
      else hardwareLeaf memory virtual level (entry &&& pageMask)

/-- The physical address to which the processor translates an address: the page walk of a
canonical address, which goes by its low 48 bits.  An address that is not canonical never comes
to the walk. -/
def hardwareTranslate (memory : ℕ → ℕ) (root virtual : ℕ) : Option ℕ := do
  let (entry, level) ← hardwareLeaf memory virtual 3 root
  let bits := 12 + 9 * level
  if level = 3 ∨ entry / 2 ^ 13 % 2 ^ (bits - 13) ≠ 0 then none
  else return (entry &&& pageMask) / 2 ^ bits * 2 ^ bits + virtual % 2 ^ bits

/-- The page tables of an address space and their levels. -/
inductive HardwareTable (memory : ℕ → ℕ) (root : ℕ) : ℕ → ℕ → Prop where
  | root : HardwareTable memory root 3 root
  | next {level table index entry : ℕ} (above : HardwareTable memory root (level + 1) table)
      (small : index < 512) (present : presentEntry memory table index = some entry)
      (pointer : entry &&& vmmHuge = 0) :
      HardwareTable memory root level (entry &&& pageMask)

/-- A word of a page table. -/
def InTable (memory : ℕ → ℕ) (root address : ℕ) : Prop :=
  ∃ level table, HardwareTable memory root level table ∧ table ≤ address ∧
    address < table + pageSizeVmm

/-- The walk of the processor ends at the last level, if it finds an entry. -/
def SmallOnly (memory : ℕ → ℕ) (virtual level table : ℕ) : Prop :=
  ∀ entry upper, hardwareLeaf memory virtual level table ≠ some (entry, upper + 1)

/-- Two memories with the same page tables. -/
def SameTables (memory : ℕ → ℕ) (root : ℕ) (memory' : ℕ → ℕ) : Prop :=
  ∀ level table index, HardwareTable memory root level table → index < 512 →
    memory' (table + 8 * index) = memory (table + 8 * index)

section Walk

variable {memory memory' : ℕ → ℕ} {root virtual level table index entry upper : ℕ}

theorem hardwareLeaf_absent
    (absent : presentEntry memory table (levelIndex virtual level) = none) :
    hardwareLeaf memory virtual level table = none := by
  cases level with
  | zero => rw [hardwareLeaf, absent]; rfl
  | succ level => rw [hardwareLeaf, absent]; rfl

theorem hardwareLeaf_large
    (present : presentEntry memory table (levelIndex virtual (level + 1)) = some entry)
    (large : entry &&& vmmHuge ≠ 0) :
    hardwareLeaf memory virtual (level + 1) table = some (entry, level + 1) := by
  rw [hardwareLeaf, present]
  exact if_pos large

theorem hardwareLeaf_pointer
    (present : presentEntry memory table (levelIndex virtual (level + 1)) = some entry)
    (pointer : entry &&& vmmHuge = 0) :
    hardwareLeaf memory virtual (level + 1) table =
      hardwareLeaf memory virtual level (entry &&& pageMask) := by
  rw [hardwareLeaf, present]
  exact if_neg (not_not.mpr pointer)

namespace SmallOnly

theorem of_absent (absent : presentEntry memory table (levelIndex virtual level) = none) :
    SmallOnly memory virtual level table := by
  intro entry upper
  rw [hardwareLeaf_absent absent]
  simp

theorem pointer (small : SmallOnly memory virtual (level + 1) table)
    (present : presentEntry memory table (levelIndex virtual (level + 1)) = some entry) :
    entry &&& vmmHuge = 0 := by
  by_contra large
  exact small entry level (hardwareLeaf_large present large)

theorem below (small : SmallOnly memory virtual (level + 1) table)
    (present : presentEntry memory table (levelIndex virtual (level + 1)) = some entry) :
    SmallOnly memory virtual level (entry &&& pageMask) := by
  intro found upper
  rw [← hardwareLeaf_pointer present (small.pointer present)]
  exact small found upper

end SmallOnly

namespace HardwareTable

theorem isFrame (rootFrame : IsFrame root) (isTable : HardwareTable memory root level table) :
    IsFrame table := by
  cases isTable with
  | root => exact rootFrame
  | next above small present pointer => exact isFrame_and_pageMask _

/-- Tables stay tables when no present entry of a table changes. -/
theorem agree (keeps : ∀ level table index entry, HardwareTable memory root level table →
      index < 512 → presentEntry memory table index = some entry →
        presentEntry memory' table index = some entry)
    (isTable : HardwareTable memory root level table) :
    HardwareTable memory' root level table := by
  induction isTable with
  | root => exact .root
  | next above small present pointer ih =>
      exact .next ih small (keeps _ _ _ _ above small present) pointer

theorem inTable (isTable : HardwareTable memory root level table) (small : index < 512) :
    InTable memory root (table + 8 * index) := by
  refine ⟨level, table, isTable, by omega, ?_⟩
  rw [pageSizeVmm]
  omega

end HardwareTable

namespace SameTables

theorem of_isTable (same : SameTables memory root memory')
    (isTable : HardwareTable memory' root level table) :
    HardwareTable memory root level table := by
  induction isTable with
  | root => exact .root
  | next above small present pointer ih =>
      rw [presentEntry_congr (same _ _ _ ih small)] at present
      exact .next ih small present pointer

/-- The processor reads nothing but page tables. -/
theorem hardwareLeaf (same : SameTables memory root memory')
    (isTable : HardwareTable memory root level table) :
    hardwareLeaf memory' virtual level table = hardwareLeaf memory virtual level table := by
  induction level generalizing table with
  | zero =>
      have sameEntry := presentEntry_congr (same 0 table _ isTable (levelIndex_lt virtual 0))
      rw [Goshkik.hardwareLeaf, Goshkik.hardwareLeaf, sameEntry]
  | succ level ih =>
      have small := levelIndex_lt virtual (level + 1)
      have sameEntry := presentEntry_congr (same (level + 1) table _ isTable small)
      cases present : presentEntry memory table (levelIndex virtual (level + 1)) with
      | none => rw [hardwareLeaf_absent present, hardwareLeaf_absent (sameEntry.trans present)]
      | some entry =>
          by_cases pointer : entry &&& vmmHuge = 0
          · rw [hardwareLeaf_pointer present pointer,
              hardwareLeaf_pointer (sameEntry.trans present) pointer]
            exact ih (.next isTable small present pointer)
          · rw [hardwareLeaf_large present pointer,
              hardwareLeaf_large (sameEntry.trans present) pointer]

end SameTables

end Walk

end Goshkik
