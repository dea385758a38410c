import Mathlib.Algebra.Group.Int.Defs
import Mathlib.Algebra.Group.Nat.Defs
import Goshkik.Scheduling.Kernel

/-!
# The process table and the threads of a process

This file models the functions of `scheduling/process.c` that look processes up
and attach threads to them.  `thread_create` and `clean_up` call them.
-/

namespace Goshkik

namespace Kernel

variable (kernel : Kernel)

def findFreeSlot : Option ℕ :=
  (List.range maxProcs).find? (fun i => kernel.processTable i = none)

/-- The test of the loop of `process_from_pid` at one slot. -/
def processAt (pid : ℤ) (i : ℕ) : Option ℕ :=
  (kernel.processTable i).filter (fun p => (kernel.processes p).pid = pid)

def processFromPid (pid : ℤ) : Option ℕ :=
  if pid < 0 then none
  else (List.range maxProcs).findSome? (kernel.processAt pid)

def processAddThread (p t : ℕ) : Kernel :=
  let owned := kernel.modifyThread t (fun record =>
    { record with oPid := ((kernel.processes p).pid % 2 ^ 32).toNat, proc := some p })
  owned.modifyProcess p (fun record =>
    { record with mainThread := if record.mainThread = none then some t else record.mainThread })

def processRemoveThread (p t : ℕ) : Kernel :=
  kernel.modifyProcess p (fun record =>
    { record with mainThread := if record.mainThread = some t then none else record.mainThread })

end Kernel

end Goshkik
