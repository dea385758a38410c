import Mathlib.Data.Nat.Bitwise
import Mathlib.Tactic.Ring
import Goshkik.Lib.RadixTree

/-!
# The virtual memory manager

The four-level page tables of `vmm.c`.  Tables live in physical memory, which is
modelled by its 8-byte words: `Vmm.memory` maps the physical address of a word
to its content.  The code never touches physical memory directly.  It
dereferences addresses of the higher-half direct map, so every load and store
here goes through `Platform.translate`, the translation that the processor
applies to a virtual address.

A `none` result means that the kernel has stopped, either in `hcf` because the
physical memory manager is out of frames or in a page fault.  The translation
cache is not modelled and `invlpg` is a no-op.
-/

namespace Goshkik

/-- `PAGE_SIZE_VMM`. -/
def pageSizeVmm : ℕ := 0x1000

/-- `VMM_PRESENT`. -/
def vmmPresent : ℕ := 1 <<< 0

/-- `VMM_WRITE`. -/
def vmmWrite : ℕ := 1 <<< 1

/-- `ENTRIES_PER_TABLE`. -/
def entriesPerTable : ℕ := 512

/-- `PAGE_MASK`. -/
def pageMask : ℕ := 0x000FFFFFFFFFF000

/-- `PML4_INDEX`. -/
def pml4Index (address : ℕ) : ℕ := (address >>> 39) &&& 0x1FF

/-- `PDPT_INDEX`. -/
def pdptIndex (address : ℕ) : ℕ := (address >>> 30) &&& 0x1FF

/-- `PD_INDEX`. -/
def pdIndex (address : ℕ) : ℕ := (address >>> 21) &&& 0x1FF

/-- `PT_INDEX`. -/
def ptIndex (address : ℕ) : ℕ := (address >>> 12) &&& 0x1FF

/-- What the virtual memory manager runs on: the offset of the direct map, the
address translation of the processor, and the frame allocator. -/
structure Platform (Pages : Type) where
  hhdmOffset : ℕ
  translate : (ℕ → ℕ) → ℕ → Option ℕ
  pmmAllocPage : Pages → ℕ × Pages

/-- The state of the virtual memory manager. -/
structure Vmm (Pages : Type) where
  memory : ℕ → ℕ
  pages : Pages
  currentPml4 : ℕ

/-- Physical memory after zeroing one frame. -/
def zeroFrame (memory : ℕ → ℕ) (frame : ℕ) : ℕ → ℕ :=
  fun address => if frame ≤ address ∧ address < frame + pageSizeVmm then 0 else memory address

namespace Platform

variable {Pages : Type} (platform : Platform Pages)

/-- `physical_to_virtual`. -/
def physicalToVirtual (physical : ℕ) : ℕ := (platform.hhdmOffset + physical) % 2 ^ 64

/-- `virtual_to_physical`. -/
def virtualToPhysical (virtual : ℕ) : ℕ := (virtual + (2 ^ 64 - platform.hhdmOffset)) % 2 ^ 64

/-- The pointer `&table[index]` into a table that is accessed through the direct map. -/
def slot (table index : ℕ) : ℕ := (platform.physicalToVirtual table + 8 * index) % 2 ^ 64

/-- Dereference a pointer. -/
def load (vmm : Vmm Pages) (pointer : ℕ) : Option ℕ :=
  (platform.translate vmm.memory pointer).map vmm.memory

/-- Write through a pointer. -/
def store (vmm : Vmm Pages) (pointer word : ℕ) : Option (Vmm Pages) :=
  (platform.translate vmm.memory pointer).map
    (fun address => { vmm with memory := Function.update vmm.memory address word })

/-- `memset(pointer, 0, PAGE_SIZE_VMM)` on the start of a page. -/
def memsetPage (vmm : Vmm Pages) (pointer : ℕ) : Option (Vmm Pages) :=
  (platform.translate vmm.memory pointer).map
    (fun frame => { vmm with memory := zeroFrame vmm.memory frame })

/-- `alloc_table`. -/
def allocTable (vmm : Vmm Pages) : Option (ℕ × Vmm Pages) :=
  let (physical, pages) := platform.pmmAllocPage vmm.pages
  if physical = 0 then none
  else do
    let vmm ← platform.memsetPage { vmm with pages := pages }
      (platform.physicalToVirtual physical)
    return (physical, vmm)

/-- One level of `walk`: the table that the entry behind `slot` points to.  An
absent entry ends the walk, or is filled with a new table when `create` is set. -/
def nextTable (create : Bool) (slot : ℕ) (vmm : Vmm Pages) : Option (Option ℕ × Vmm Pages) := do
  let entry ← platform.load vmm slot
  if entry &&& vmmPresent ≠ 0 then
    return (some (entry &&& pageMask), vmm)
  else if create then
    let (new, vmm) ← platform.allocTable vmm
    let vmm ← platform.store vmm slot ((new &&& pageMask) ||| vmmPresent ||| vmmWrite)
    let entry ← platform.load vmm slot
    return (some (entry &&& pageMask), vmm)
  else
    return (none, vmm)

/-- `walk`: the pointer to the last-level entry of an address. -/
def walk (virtual : ℕ) (create : Bool) (vmm : Vmm Pages) : Option (Option ℕ × Vmm Pages) := do
  match ← platform.nextTable create (platform.slot vmm.currentPml4 (pml4Index virtual)) vmm with
  | (none, vmm) => return (none, vmm)
  | (some pdpt, vmm) =>
      match ← platform.nextTable create (platform.slot pdpt (pdptIndex virtual)) vmm with
      | (none, vmm) => return (none, vmm)
      | (some pd, vmm) =>
          match ← platform.nextTable create (platform.slot pd (pdIndex virtual)) vmm with
          | (none, vmm) => return (none, vmm)
          | (some pt, vmm) => return (some (platform.slot pt (ptIndex virtual)), vmm)

/-- `vmm_map`. -/
def vmmMap (virtual physical flags : ℕ) (vmm : Vmm Pages) : Option (Vmm Pages) := do
  match ← platform.walk virtual true vmm with
  | (none, _) => none
  | (some pte, vmm) =>
      platform.store vmm pte ((physical &&& pageMask) ||| flags ||| vmmPresent)

/-- `vmm_unmap`. -/
def vmmUnmap (virtual : ℕ) (vmm : Vmm Pages) : Option (Vmm Pages) := do
  match ← platform.walk virtual false vmm with
  | (none, vmm) => return vmm
  | (some pte, vmm) =>
      let entry ← platform.load vmm pte
      if entry &&& vmmPresent ≠ 0 then platform.store vmm pte 0 else return vmm

/-- `vmm_resolve`. -/
def vmmResolve (virtual : ℕ) (vmm : Vmm Pages) : Option ℕ := do
  match ← platform.walk virtual false vmm with
  | (none, _) => return 0
  | (some pte, vmm) =>
      let entry ← platform.load vmm pte
      if entry &&& vmmPresent = 0 then return 0
      else return (entry &&& pageMask) ||| (virtual &&& (pageSizeVmm - 1))

end Platform

/-! ## Bit slicing -/

/-- Clearing the low bits of a 64-bit number. -/
theorem and_highMask {value : ℕ} (small : value < 2 ^ 64) {bits : ℕ} (bitsLe : bits ≤ 64) :
    value &&& (2 ^ 64 - 2 ^ bits) = value / 2 ^ bits * 2 ^ bits := by
  have mask : 2 ^ 64 - 2 ^ bits = (2 ^ (64 - bits) - 1) <<< bits := by
    simp only [Nat.shiftLeft_eq, Nat.sub_mul, Nat.one_mul, ← Nat.pow_add, Nat.sub_add_cancel bitsLe]
  apply Nat.eq_of_testBit_eq
  intro bit
  simp only [mask, Nat.testBit_and, Nat.testBit_shiftLeft, Nat.testBit_two_pow_sub_one,
    Nat.testBit_mul_two_pow, Nat.testBit_div_two_pow]
  by_cases low : bits ≤ bit
  · have shift : bit - bits + bits = bit := by omega
    simp only [low, decide_true, Bool.true_and, shift]
    by_cases high : bit < 64
    · have : bit - bits < 64 - bits := by omega
      simp [this]
    · have : value.testBit bit = false :=
        Nat.testBit_lt_two_pow
          (Nat.lt_of_lt_of_le small (Nat.pow_le_pow_right (by omega) (by omega)))
      simp [this]
  · simp [low]

theorem and_pageMask (word : ℕ) : word &&& pageMask = word / 2 ^ 12 % 2 ^ 40 * 2 ^ 12 := by
  have mask : pageMask = (2 ^ 40 - 1) <<< 12 := by decide
  apply Nat.eq_of_testBit_eq
  intro bit
  rw [mask, Nat.testBit_and, Nat.testBit_shiftLeft, Nat.testBit_two_pow_sub_one,
    Nat.testBit_mul_two_pow, Nat.testBit_mod_two_pow, Nat.testBit_div_two_pow]
  by_cases low : 12 ≤ bit
  · have shift : bit - 12 + 12 = bit := by omega
    simp only [low, decide_true, Bool.true_and, shift]
    rw [Bool.and_comm]
  · simp [low]

theorem and_indexMask (word : ℕ) : word &&& 0x1FF = word % 512 :=
  Nat.and_two_pow_sub_one_eq_mod word 9

theorem and_pageOffset (word : ℕ) : word &&& (pageSizeVmm - 1) = word % 4096 :=
  Nat.and_two_pow_sub_one_eq_mod word 12

theorem pml4Index_eq (address : ℕ) : pml4Index address = address / 2 ^ 39 % 512 := by
  rw [pml4Index, and_indexMask, Nat.shiftRight_eq_div_pow]

theorem pdptIndex_eq (address : ℕ) : pdptIndex address = address / 2 ^ 30 % 512 := by
  rw [pdptIndex, and_indexMask, Nat.shiftRight_eq_div_pow]

theorem pdIndex_eq (address : ℕ) : pdIndex address = address / 2 ^ 21 % 512 := by
  rw [pdIndex, and_indexMask, Nat.shiftRight_eq_div_pow]

theorem ptIndex_eq (address : ℕ) : ptIndex address = address / 2 ^ 12 % 512 := by
  rw [ptIndex, and_indexMask, Nat.shiftRight_eq_div_pow]

@[simp]
theorem and_pageMask_idem (word : ℕ) : (word &&& pageMask) &&& pageMask = word &&& pageMask := by
  rw [Nat.land_assoc, Nat.and_self]

end Goshkik
