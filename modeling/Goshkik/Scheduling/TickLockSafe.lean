import Mathlib.Data.List.TakeWhile
import Goshkik.Scheduling.TickLock

/-!
# When a tick keeps the discipline of the schedule lock

The prologue appends the interrupted thread to the queue without a look at what
is there.  If the thread is on the queue already, the threads behind it are cut
off; if it is the last one, its link then points to itself, and the loop meets it
twice unless a cooling thread is put behind it first.
-/

namespace Goshkik

namespace Kernel

variable {kernel after : Kernel} {queue before : List ℕ} {t old : ℕ}

/-- The queue after its last thread has been appended once more. -/
structure Looped (kernel : Kernel) (before : List ℕ) (old : ℕ) : Prop where
  segment : Segment kernel.nextOf kernel.readyHead before (some old)
  loop : kernel.nextOf old = some old
  tail : kernel.readyTail = some old
  distinct : before.Nodup
  absent : old ∉ before

namespace Looped

theorem congr (looped : kernel.Looped before old) (head : after.readyHead = kernel.readyHead)
    (tail : after.readyTail = kernel.readyTail)
    (agree : ∀ node, node ∈ before ∨ node = old → after.nextOf node = kernel.nextOf node) :
    after.Looped before old where
  segment := by
    rw [head]
    exact looped.segment.congr (fun node mem => agree node (Or.inl mem))
  loop := (agree old (Or.inr rfl)).trans looped.loop
  tail := tail.trans looped.tail
  distinct := looped.distinct
  absent := looped.absent

end Looped

/-- The kernel once the interrupted thread is marked as ready. -/
def interrupted (kernel : Kernel) (old : ℕ) (context : Context) : Kernel :=
  (kernel.modifyThread old (fun record => { record with context := context })).setState old .ready

theorem IsReadyQueue.interrupted (isQueue : kernel.IsReadyQueue queue) (old : ℕ)
    (context : Context) :
    (kernel.interrupted old context).IsReadyQueue queue := by
  unfold Kernel.interrupted setState
  exact (isQueue.modifyThread rfl).modifyThread rfl

end Kernel

end Goshkik
