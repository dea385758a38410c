import Mathlib.Data.Finset.Max
import Mathlib.Data.Nat.Bitwise
import Mathlib.Tactic.Ring
import Goshkik.Lib.Run

/-!
# The physical memory manager

The memory map handed over by the bootloader, the search for its biggest usable
region, and the bitmap allocator that hands out the frames of that region.

The bitmap is an array of bytes, one bit for each frame, stored at the start of
the managed region itself.  `Pmm.bitmap` is the content of that array by byte
index.  Addresses and sizes are natural numbers below `2 ^ 64`; the one
addition that could leave this range, in `pmmAllocPage`, is reduced explicitly.
-/

namespace Goshkik

/-- `PAGE_SIZE` of `limits.h`. -/
def pageSize : ℕ := 4096

/-- `LIMINE_MEMMAP_USABLE`. -/
def memmapUsable : ℕ := 0

/-- `struct limine_memmap_entry`. -/
structure MemmapEntry where
  base : ℕ
  length : ℕ
  type : ℕ
  deriving DecidableEq, Repr

/-- One iteration of the search loop: keep the first of the longest usable entries. -/
def biggerRegion (biggest : Option MemmapEntry) (entry : MemmapEntry) : Option MemmapEntry :=
  if entry.type ≠ memmapUsable then biggest
  else
    match biggest with
    | none => some entry
    | some region => if entry.length > region.length then some entry else some region

/-- `memmap_find_biggest_region`. -/
def memmapFindBiggestRegion (entries : List MemmapEntry) : Option MemmapEntry :=
  entries.foldl biggerRegion none

/-- The globals of `pmm.c`. -/
structure Pmm where
  /-- The address of the bitmap in the higher-half direct map. -/
  pmmBitmap : ℕ
  /-- The bytes of the bitmap. -/
  bitmap : ℕ → BitVec 8
  pmmBitmapSize : ℕ
  managedBase : ℕ
  totalPages : ℕ

/-- `BIT_SET`. -/
def bitSet (bitmap : ℕ → BitVec 8) (i : ℕ) : ℕ → BitVec 8 :=
  Function.update bitmap (i / 8) (bitmap (i / 8) ||| (1#8 <<< (i % 8)))

/-- `BIT_CLEAR`. -/
def bitClear (bitmap : ℕ → BitVec 8) (i : ℕ) : ℕ → BitVec 8 :=
  Function.update bitmap (i / 8) (bitmap (i / 8) &&& ~~~(1#8 <<< (i % 8)))

/-- `BIT_TEST`. -/
def bitTest (bitmap : ℕ → BitVec 8) (i : ℕ) : Bool :=
  (bitmap (i / 8) &&& (1#8 <<< (i % 8))) != 0#8

/-- `init_pmm`.  `stale` is what the bytes of the bitmap held before; without a
usable region the kernel halts. -/
def initPmm (hhdmOffset : ℕ) (entries : List MemmapEntry) (stale : ℕ → BitVec 8) : Option Pmm :=
  match memmapFindBiggestRegion entries with
  | none => none
  | some biggest =>
      let totalPages := biggest.length / pageSize
      let pmmBitmapSize := (totalPages + 7) / 8
      let filled := (List.range pmmBitmapSize).foldl (fun bitmap i =>
        Function.update bitmap i 0xFF#8) stale
      let usedPages := (pmmBitmapSize + pageSize - 1) / pageSize
      let cleared := (List.range' usedPages (totalPages - usedPages)).foldl bitClear filled
      some
        { pmmBitmap := (hhdmOffset + biggest.base) % 2 ^ 64
          bitmap := cleared
          pmmBitmapSize := pmmBitmapSize
          managedBase := biggest.base
          totalPages := totalPages }

/-- `pmm_alloc_page`: the frame address, or `0` when every bit is set. -/
def pmmAllocPage (pmm : Pmm) : ℕ × Pmm :=
  match (List.range pmm.totalPages).find? (fun i => !bitTest pmm.bitmap i) with
  | some i =>
      ((pmm.managedBase + i * pageSize) % 2 ^ 64, { pmm with bitmap := bitSet pmm.bitmap i })
  | none => (0, pmm)

/-- `pmm_free_page`. -/
def pmmFreePage (pmm : Pmm) (physicalAddress : ℕ) : Pmm :=
  if physicalAddress < pmm.managedBase then pmm
  else
    let i := (physicalAddress - pmm.managedBase) / pageSize
    if i < pmm.totalPages then { pmm with bitmap := bitClear pmm.bitmap i } else pmm

/-! ## The biggest region -/

theorem biggerRegion_spec {biggest : Option MemmapEntry} {entry region : MemmapEntry}
    (result : biggerRegion biggest entry = some region) :
    (biggest = some region ∨ (region = entry ∧ entry.type = memmapUsable)) ∧
      (entry.type = memmapUsable → entry.length ≤ region.length) ∧
      ∀ previous, biggest = some previous → previous.length ≤ region.length := by
  unfold biggerRegion at result
  split at result
  next unusable =>
    subst result
    refine ⟨Or.inl rfl, fun usable => absurd usable unusable, ?_⟩
    intro previous same
    cases same
    exact le_refl _
  next usable =>
    rw [ne_eq, not_not] at usable
    cases biggest with
    | none =>
        cases result
        exact ⟨Or.inr ⟨rfl, usable⟩, fun _ => le_refl _, by simp⟩
    | some previous =>
        simp only [Option.some.injEq, forall_eq'] at result ⊢
        split at result
        next longer =>
          cases result
          exact ⟨Or.inr ⟨rfl, usable⟩, fun _ => le_refl _, le_of_lt longer⟩
        next shorter =>
          cases result
          exact ⟨Or.inl rfl, fun _ => Nat.le_of_not_lt shorter, le_refl _⟩

theorem foldl_biggerRegion_spec {entries : List MemmapEntry} {start : Option MemmapEntry}
    {region : MemmapEntry} (result : entries.foldl biggerRegion start = some region) :
    (start = some region ∨ (region ∈ entries ∧ region.type = memmapUsable)) ∧
      (∀ entry ∈ entries, entry.type = memmapUsable → entry.length ≤ region.length) ∧
      ∀ previous, start = some previous → previous.length ≤ region.length := by
  induction entries generalizing start with
  | nil =>
      cases result
      exact ⟨Or.inl rfl, by simp, fun previous same => by cases same; exact le_refl _⟩
  | cons entry entries ih =>
      rcases ih result with ⟨origin, longest, previousLe⟩
      cases step : biggerRegion start entry with
      | none =>
          have startNone : start = none := by
            unfold biggerRegion at step
            split at step
            · exact step
            · cases start with
              | none => rfl
              | some previous => simp only at step; split at step <;> cases step
          have unusable : entry.type ≠ memmapUsable := by
            intro usable
            simp [biggerRegion, startNone, usable] at step
          rw [step] at origin
          refine ⟨Or.inr ?_, ?_, by simp [startNone]⟩
          · rcases origin with same | ⟨mem, usable⟩
            · cases same
            · exact ⟨by simp [mem], usable⟩
          · intro other mem usable
            rcases List.mem_cons.mp mem with rfl | mem
            · exact absurd usable unusable
            · exact longest other mem usable
      | some middle =>
          rcases biggerRegion_spec step with ⟨middleOrigin, entryLe, startLe⟩
          have middleLe := previousLe middle step
          refine ⟨?_, ?_, ?_⟩
          · rcases origin with same | ⟨mem, usable⟩
            · rw [step, Option.some.injEq] at same
              subst same
              rcases middleOrigin with same | ⟨rfl, usable⟩
              · exact Or.inl same
              · exact Or.inr ⟨by simp, usable⟩
            · exact Or.inr ⟨by simp [mem], usable⟩
          · intro other mem usable
            rcases List.mem_cons.mp mem with rfl | mem
            · exact (entryLe usable).trans middleLe
            · exact longest other mem usable
          · intro previous same
            exact (startLe previous same).trans middleLe

/-- The search returns a usable entry of the map that no other usable entry exceeds. -/
theorem memmapFindBiggestRegion_spec {entries : List MemmapEntry} {region : MemmapEntry}
    (found : memmapFindBiggestRegion entries = some region) :
    region ∈ entries ∧ region.type = memmapUsable ∧
      ∀ entry ∈ entries, entry.type = memmapUsable → entry.length ≤ region.length := by
  rcases foldl_biggerRegion_spec found with ⟨origin, longest, _⟩
  rcases origin with impossible | ⟨mem, usable⟩
  · cases impossible
  · exact ⟨mem, usable, longest⟩

/-! ## Bits of the bitmap -/

section Bits

variable (bitmap : ℕ → BitVec 8) (i j : ℕ)

theorem bitTest_eq_getLsbD : bitTest bitmap i = (bitmap (i / 8)).getLsbD (i % 8) := by
  have small : i % 8 < 8 := Nat.mod_lt _ (by omega)
  have nonzero : BitVec.twoPow 8 (i % 8) ≠ 0#8 := by
    intro isZero
    have bit := congrArg (fun word => word.getLsbD (i % 8)) isZero
    simp [small] at bit
  rw [bitTest, ← BitVec.twoPow_eq, BitVec.and_twoPow]
  cases (bitmap (i / 8)).getLsbD (i % 8) <;> simp [nonzero]

@[simp]
theorem bitTest_bitSet : bitTest (bitSet bitmap i) j = (decide (j = i) || bitTest bitmap j) := by
  have small : i % 8 < 8 := Nat.mod_lt _ (by omega)
  rw [bitTest_eq_getLsbD, bitTest_eq_getLsbD, bitSet, ← BitVec.twoPow_eq]
  by_cases sameByte : j / 8 = i / 8
  · have sameBit : i % 8 = j % 8 ↔ j = i := by omega
    simp [sameByte, small, sameBit, Bool.or_comm]
  · have different : j ≠ i := by
      rintro rfl
      exact sameByte rfl
    simp [Function.update_of_ne sameByte, different]

@[simp]
theorem bitTest_bitClear :
    bitTest (bitClear bitmap i) j = (!decide (j = i) && bitTest bitmap j) := by
  have small : j % 8 < 8 := Nat.mod_lt _ (by omega)
  rw [bitTest_eq_getLsbD, bitTest_eq_getLsbD, bitClear, ← BitVec.twoPow_eq]
  by_cases sameByte : j / 8 = i / 8
  · have sameBit : j % 8 = i % 8 ↔ j = i := by omega
    simp [sameByte, small, sameBit, Bool.and_comm]
  · have different : j ≠ i := by
      rintro rfl
      exact sameByte rfl
    simp [Function.update_of_ne sameByte, different]

/-- The loop of `init_pmm` that fills the bitmap. -/
theorem fill_apply (stale : ℕ → BitVec 8) (size byte : ℕ) :
    (List.range size).foldl (fun bitmap i => Function.update bitmap i 0xFF#8) stale byte =
      if byte < size then 0xFF#8 else stale byte := by
  induction size with
  | zero => simp
  | succ size ih =>
      rw [List.range_succ, List.foldl_append]
      simp only [List.foldl_cons, List.foldl_nil]
      by_cases last : byte = size
      · simp [last]
      · rw [Function.update_of_ne last, ih]
        have : byte < size + 1 ↔ byte < size := by omega
        simp [this]

/-- The loop of `init_pmm` that marks the frames behind the bitmap as free. -/
theorem bitTest_foldl_bitClear (frames : List ℕ) :
    bitTest (frames.foldl bitClear bitmap) j = (!decide (j ∈ frames) && bitTest bitmap j) := by
  induction frames generalizing bitmap with
  | nil => simp
  | cons frame frames ih =>
      rw [List.foldl_cons, ih, bitTest_bitClear]
      by_cases same : j = frame
      · simp [same]
      · simp [same]

end Bits

end Goshkik
