import Goshkik.Memory.KheapInterruptedFree

/-!
# Interrupted calls of the heap

`scheduler_tick` runs `clean_up` in the timer interrupt, and `clean_up` frees blocks.  The interrupt
may come between any two accesses of a call of `kmalloc` or `kfree`.
-/

namespace Goshkik

open KheapPoint

/-- A call that an interrupt may meet. -/
inductive InterruptedCall where
  | kmalloc (size : ℕ) (frames : List ℕ)
  | kfree (pointer : Option ℕ)

namespace InterruptedCall

/-- Where the call begins. -/
def point : InterruptedCall → KheapPoint
  | kmalloc size frames => kmallocPoint size frames
  | kfree pointer => kfreePoint pointer

/-- The frames for a request are fresh ones of the managed region, and a live block is freed. -/
def Allowed (heap : Kheap) (blocks : List HeapBlock) : InterruptedCall → Prop
  | kmalloc _ frames => heap.FreshFrames frames ∧ ∃ region, heap.SuppliedBy region frames
  | kfree pointer => ∀ address, pointer = some address →
      ∃ bytes, (address, bytes) ∈ usedBlocks heapStart blocks

/-- The bytes that the call asks for. -/
def request : InterruptedCall → ℕ
  | kmalloc size _ => roundedSize size
  | kfree _ => 0

end InterruptedCall

namespace Kheap

variable {heap mid : Kheap} {blocks : List HeapBlock} {call : InterruptedCall} {count : ℕ}
  {point : KheapPoint}
  {pointers : List ℕ}

theorem Survives.congr {live live' : ℕ → ℕ → Prop} {size bound : ℕ} {guard guard' : Prop}
    (survives : Survives mid point pointers live size bound guard)
    (sameLive : ∀ payload bytes, live payload bytes ↔ live' payload bytes)
    (sameGuard : guard ↔ guard') :
    Survives mid point pointers live' size bound guard' := by
  have liveEq : live = live' := funext fun payload => funext fun bytes =>
    propext (sameLive payload bytes)
  have guardEq : guard = guard' := propext sameGuard
  rwa [← liveEq, ← guardEq]

theorem Tiles.chained (tiles : heap.Tiles blocks) :
    heap.Chained (heapStart + span blocks) (blockNodes heapStart blocks) heap.headers :=
  tiles.holds.chained tiles.nonempty

end Kheap

open Kheap

end Goshkik
