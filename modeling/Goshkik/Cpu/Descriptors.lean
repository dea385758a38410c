import Goshkik.Lib.Processor
import Goshkik.Scheduling.Thread

/-!
# The descriptor tables

This file models `arch/x86_64/cpu/idt/idt.c`, `arch/x86_64/cpu/gdt/gdt.c` and the gate that
`init_syscalls` sets, together with how the processor reads the tables.  The address of a handler
and the address of the task state segment are cut into pieces that the processor puts together
again.
-/

namespace Goshkik

open X86

/-! ## Gates -/

def idtEntries : ℕ := 256

def idtTypeInterruptGate : ℕ := 0x8E

structure IdtEntry where
  offsetLow : ℕ := 0
  selector : ℕ := 0
  ist : ℕ := 0
  typeAttr : ℕ := 0
  offsetMid : ℕ := 0
  offsetHigh : ℕ := 0
  reserved : ℕ := 0

/-- The entry that `idt_set_entry` writes. -/
def idtEntry (handler selector flags : ℕ) : IdtEntry where
  offsetLow := handler &&& 0xFFFF
  selector := selector
  ist := 0
  typeAttr := flags
  offsetMid := (handler >>> 16) &&& 0xFFFF
  offsetHigh := (handler >>> 32) &&& 0xFFFFFFFF
  reserved := 0

abbrev Idt := ℕ → IdtEntry

def idtSetEntry (idt : Idt) (index handler selector flags : ℕ) : Idt :=
  Function.update idt index (idtEntry handler selector flags)

/-- A loop of `init_idt`: gates for consecutive vectors. -/
def setGates (stub : ℕ → ℕ) (first count selector flags : ℕ) (idt : Idt) : Idt :=
  (List.range count).foldl (fun idt i =>
    idtSetEntry idt (first + i) (stub i) selector flags) idt

/-- `init_idt`, with the addresses of the stubs. -/
def initIdt (isr irq : ℕ → ℕ) (idt : Idt) : Idt :=
  setGates irq 32 16 kernelCode64 idtTypeInterruptGate
    (setGates isr 0 20 kernelCode64 idtTypeInterruptGate
      (setGates (fun _ => 0) 0 idtEntries 0 0 idt))

/-- The gate that `init_syscalls` sets. -/
def initSyscallGate (syscallEntry : ℕ) (idt : Idt) : Idt :=
  idtSetEntry idt 0x80 syscallEntry kernelCode64 0xEE

/-- How the processor reads an entry: bit 7 of the attributes says that it is present, the four
lowest bits that it is an interrupt gate, and bits 5 and 6 are its privilege level. -/
def IdtEntry.gate (entry : IdtEntry) : Option Gate :=
  if entry.typeAttr.testBit 7 ∧ entry.typeAttr % 16 = 14 then
    some {
      offset := entry.offsetLow + entry.offsetMid * 2 ^ 16 + entry.offsetHigh * 2 ^ 32
      selector := entry.selector
      level := entry.typeAttr / 2 ^ 5 % 4 }
  else none

/-- The gate of a vector. -/
def Idt.gate (idt : Idt) (vector : ℕ) : Option Gate :=
  if vector < idtEntries then (idt vector).gate else none

/-- The processor puts the address of the handler together again. -/
theorem idtEntry_offset {handler : ℕ} (selector flags : ℕ) (fits : handler < 2 ^ 64) :
    (idtEntry handler selector flags).offsetLow +
      (idtEntry handler selector flags).offsetMid * 2 ^ 16 +
        (idtEntry handler selector flags).offsetHigh * 2 ^ 32 = handler := by
  have low : handler &&& 0xFFFF = handler % 2 ^ 16 := Nat.and_two_pow_sub_one_eq_mod handler 16
  have mid : (handler >>> 16) &&& 0xFFFF = handler / 2 ^ 16 % 2 ^ 16 := by
    rw [Nat.shiftRight_eq_div_pow]
    exact Nat.and_two_pow_sub_one_eq_mod _ 16
  have high : (handler >>> 32) &&& 0xFFFFFFFF = handler / 2 ^ 32 % 2 ^ 32 := by
    rw [Nat.shiftRight_eq_div_pow]
    exact Nat.and_two_pow_sub_one_eq_mod _ 32
  simp only [idtEntry, low, mid, high]
  omega

theorem gate_idtEntry {handler flags level : ℕ} (selector : ℕ) (fits : handler < 2 ^ 64)
    (present : flags.testBit 7 ∧ flags % 16 = 14) (isLevel : flags / 2 ^ 5 % 4 = level) :
    (idtEntry handler selector flags).gate = some ⟨handler, selector, level⟩ := by
  have offset := idtEntry_offset selector flags fits
  rw [IdtEntry.gate, offset]
  apply (if_pos present).trans
  rw [← isLevel]
  rfl

theorem gate_interrupt {handler : ℕ} (selector : ℕ) (fits : handler < 2 ^ 64) :
    (idtEntry handler selector idtTypeInterruptGate).gate = some ⟨handler, selector, 0⟩ :=
  gate_idtEntry selector fits (by decide) (by decide)

/-- A loop writes the gates of its range and no other. -/
theorem setGates_apply (stub : ℕ → ℕ) (first count selector flags : ℕ) (idt : Idt)
    (vector : ℕ) : setGates stub first count selector flags idt vector =
      if first ≤ vector ∧ vector < first + count then
        idtEntry (stub (vector - first)) selector flags
      else idt vector := by
  induction count with
  | zero => exact (if_neg (by omega)).symm
  | succ count ih =>
      have last : setGates stub first (count + 1) selector flags idt =
          idtSetEntry (setGates stub first count selector flags idt) (first + count) (stub count)
            selector flags := by
        simp [setGates, List.range_succ]
      rw [last, idtSetEntry]
      by_cases isLast : vector = first + count
      · have inside : first ≤ vector ∧ vector < first + (count + 1) := by omega
        have place : vector - first = count := by omega
        rw [if_pos inside, place, isLast, Function.update_self]
      · rw [Function.update_of_ne isLast, ih]
        exact if_congr (by omega) rfl rfl

/-- After `init_idt` and `init_syscalls` the exceptions with a stub and the interrupts of the
controllers have a gate that software of level 3 may not use, the vector of the system calls one
that it may use, and no other vector has one. -/
theorem gate_kernelIdt {isr irq : ℕ → ℕ} {syscallEntry : ℕ} (idt : Idt)
    (isrFits : ∀ i, isr i < 2 ^ 64) (irqFits : ∀ i, irq i < 2 ^ 64)
    (syscallFits : syscallEntry < 2 ^ 64) (vector : ℕ) :
    (initSyscallGate syscallEntry (initIdt isr irq idt)).gate vector =
      if vector < 20 then some ⟨isr vector, kernelCode64, 0⟩
      else if 32 ≤ vector ∧ vector < 48 then some ⟨irq (vector - 32), kernelCode64, 0⟩
      else if vector = 0x80 then some ⟨syscallEntry, kernelCode64, 3⟩
      else none := by
  have absent : (idtEntry 0 0 0).gate = none := rfl
  rw [Idt.gate, initSyscallGate, idtSetEntry]
  by_cases isSyscall : vector = 0x80
  · subst isSyscall
    exact gate_idtEntry kernelCode64 syscallFits (by decide) (by decide)
  · simp only [Function.update_of_ne isSyscall, initIdt, setGates_apply, if_neg isSyscall]
    by_cases isException : vector < 20
    · have inTable : vector < idtEntries := by
        simp only [idtEntries]
        omega
      have notInterrupt : ¬(32 ≤ vector ∧ vector < 32 + 16) := by omega
      have inside : 0 ≤ vector ∧ vector < 0 + 20 := by omega
      rw [if_pos inTable, if_neg notInterrupt, if_pos inside, if_pos isException]
      exact gate_interrupt kernelCode64 (isrFits _)
    · have notException : ¬(0 ≤ vector ∧ vector < 0 + 20) := by omega
      rw [if_neg isException, if_neg notException]
      by_cases isInterrupt : 32 ≤ vector ∧ vector < 48
      · have inTable : vector < idtEntries := by
          simp only [idtEntries]
          omega
        rw [if_pos inTable, if_pos isInterrupt, if_pos isInterrupt]
        exact gate_interrupt kernelCode64 (irqFits _)
      · rw [if_neg isInterrupt]
        split
        · rename_i inTable
          rw [if_pos ⟨Nat.zero_le vector, by rwa [Nat.zero_add]⟩]
          exact absent
        · rfl

/-! ## Segments -/

structure GdtDesc where
  limit : ℕ := 0
  baseLow : ℕ := 0
  baseMid : ℕ := 0
  access : ℕ := 0
  granularity : ℕ := 0
  baseHigh : ℕ := 0

structure TssDesc where
  length : ℕ := 0
  baseLow : ℕ := 0
  baseMid : ℕ := 0
  flags : ℕ := 0
  flags2 : ℕ := 0
  baseHigh : ℕ := 0
  baseUpper32 : ℕ := 0
  reserved : ℕ := 0

/-- `struct gdtr`: five descriptors and the one of the task state segment. -/
structure Gdt where
  entries : ℕ → GdtDesc
  tss : TssDesc

/-- `sizeof(tss_t)`. -/
def sizeofTss : ℕ := 104

/-- The accesses to a descriptor in `gdt_setup`. -/
def Gdt.setAccess (gdt : Gdt) (index access granularity : ℕ) : Gdt :=
  { gdt with
    entries := Function.update gdt.entries index { gdt.entries index with
      access := access
      granularity := granularity } }

/-- `gdt_setup`, with the address of the task state segment. -/
def gdtSetup (tssBase : ℕ) (gdt : Gdt) : Gdt :=
  let gdt := gdt.setAccess 1 0b10011010 0b00100000
  let gdt := gdt.setAccess 2 0b10010010 0
  let gdt := gdt.setAccess 3 0b11110010 0
  let gdt := gdt.setAccess 4 0b11111010 0b00100000
  { gdt with
    tss := { gdt.tss with
      length := sizeofTss - 1
      flags := 0b10001001
      baseLow := tssBase &&& 0xFFFF
      baseMid := (tssBase >>> 16) &&& 0xFF
      baseHigh := (tssBase >>> 24) &&& 0xFF
      baseUpper32 := (tssBase >>> 32) &&& 0xFFFFFFFF } }

/-- The table before `gdt_setup`. -/
def emptyGdt : Gdt := ⟨fun _ => {}, {}⟩

/-- How the processor reads a descriptor: bit 7 of the access byte says that it is present, bit 4
that it is for code or data, bit 3 for which of them, bit 1 that data may be written, and bits 5
and 6 are its privilege level. -/
def GdtDesc.segment (desc : GdtDesc) : Option Segment :=
  if desc.access.testBit 7 ∧ desc.access.testBit 4 then
    some {
      isCode := desc.access.testBit 3
      writable := desc.access.testBit 1
      level := desc.access / 2 ^ 5 % 4 }
  else none

/-- The segment of a selector.  Bit 2 of a selector stands for a local table, which there is not,
and behind the five descriptors lies the one of the task state segment. -/
def Gdt.segment (gdt : Gdt) (selector : ℕ) : Option Segment :=
  if selector / 4 % 2 = 1 ∨ 5 ≤ selector / 8 then none else (gdt.entries (selector / 8)).segment

theorem segment_of_access {gdt : Gdt} {selector access : ℕ} {segment : Segment}
    (isAccess : (gdt.entries (selector / 8)).access = access)
    (inTable : ¬(selector / 4 % 2 = 1 ∨ 5 ≤ selector / 8))
    (present : access.testBit 7 ∧ access.testBit 4)
    (isSegment : ⟨access.testBit 3, access.testBit 1, access / 2 ^ 5 % 4⟩ = segment) :
    gdt.segment selector = some segment := by
  subst isAccess isSegment
  rw [Gdt.segment, if_neg inTable]
  exact if_pos present

/-- The selectors of the kernel name code and data of level 0.  Those of a user thread name data
and code of level 3, the wrong way round. -/
theorem segments_gdtSetup (tssBase : ℕ) (gdt : Gdt) :
    (gdtSetup tssBase gdt).segment kernelCode64 = some ⟨true, true, 0⟩ ∧
      (gdtSetup tssBase gdt).segment kernelData64 = some ⟨false, true, 0⟩ ∧
      (gdtSetup tssBase gdt).segment userCode64 = some ⟨false, true, 3⟩ ∧
      (gdtSetup tssBase gdt).segment userData64 = some ⟨true, true, 3⟩ := by
  have access : ((gdtSetup tssBase gdt).entries 1).access = 0b10011010 ∧
      ((gdtSetup tssBase gdt).entries 2).access = 0b10010010 ∧
      ((gdtSetup tssBase gdt).entries 3).access = 0b11110010 ∧
      ((gdtSetup tssBase gdt).entries 4).access = 0b11111010 := by
    simp [gdtSetup, Gdt.setAccess]
  rcases access with ⟨kernelCode, kernelData, userData, userCode⟩
  refine ⟨segment_of_access kernelCode (by decide) (by decide) rfl,
    segment_of_access kernelData (by decide) (by decide) rfl,
    segment_of_access userData (by decide) (by decide) rfl,
    segment_of_access userCode (by decide) (by decide) rfl⟩

end Goshkik
