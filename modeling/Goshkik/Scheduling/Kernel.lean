import Mathlib.Data.Int.Notation
import Mathlib.Data.Nat.Notation
import Mathlib.Logic.Function.Basic

/-!
# Threads, processes and the kernel record

This file holds the data of `scheduling/thread.h`, `scheduling/process.h` and
the scheduling part of the kernel record.  A pointer is a number, a pointer that
may be `NULL` an `Option`.  The records behind the pointers are two memories,
`threads` and `processes`; the links of every list the scheduler keeps are
fields of these records, as in the source.

`threadBlocks` and `processBlocks` list the records that `kmalloc` has handed out
and `kfree` has not taken back.  The code does not read them; they say which
pointers a later `kmalloc` may return.
-/

namespace Goshkik

def maxThreads : ℕ := 256

def maxProcs : ℕ := 1024

def kstackSize : ℕ := 0x8000

def tstackSize : ℕ := 0x4000

/-- `context_t`: the 22 quadwords of an interrupt frame. -/
structure Context where
  r15 : ℕ := 0
  r14 : ℕ := 0
  r13 : ℕ := 0
  r12 : ℕ := 0
  r11 : ℕ := 0
  r10 : ℕ := 0
  r9 : ℕ := 0
  r8 : ℕ := 0
  rbp : ℕ := 0
  rdi : ℕ := 0
  rsi : ℕ := 0
  rdx : ℕ := 0
  rcx : ℕ := 0
  rbx : ℕ := 0
  rax : ℕ := 0
  intNo : ℕ := 0
  errCode : ℕ := 0
  rip : ℕ := 0
  cs : ℕ := 0
  rflags : ℕ := 0
  rsp : ℕ := 0
  ss : ℕ := 0
  deriving DecidableEq

inductive ThreadState where
  | ready
  | running
  | blocked
  | termed
  deriving DecidableEq

inductive ThreadPrivilege where
  | ring0
  | ring3
  deriving DecidableEq

/-- `thread_priority_t`, with the count of levels as the last value. -/
inductive ThreadPriority where
  | low
  | bg
  | normal
  | high
  | important
  | immediate
  | levels
  deriving DecidableEq

structure Thread where
  tid : ℕ := 0
  oPid : ℕ := 0
  proc : Option ℕ := none
  state : ThreadState := .ready
  privilege : ThreadPrivilege := .ring0
  priority : ThreadPriority := .low
  context : Context := {}
  stackBase : ℕ := 0
  stackSize : ℕ := 0
  kernelStack : ℕ := 0
  cooldown : ℤ := 0
  next : Option ℕ := none
  deriving DecidableEq

inductive ProcessState where
  | ready
  | running
  | blocked
  | zombie
  | exited
  deriving DecidableEq

structure Process where
  pid : ℤ := 0
  ppid : ℤ := 0
  state : ProcessState := .ready
  umask : ℕ := 0
  mainThread : Option ℕ := none
  waitHead : Option ℕ := none
  waitTail : Option ℕ := none
  addressSpace : ℕ := 0
  exitCode : ℤ := 0
  deriving DecidableEq

structure Kernel where
  threads : ℕ → Thread
  processes : ℕ → Process
  threadBlocks : List ℕ
  processBlocks : List ℕ
  readyHead : Option ℕ
  readyTail : Option ℕ
  currentThread : Option ℕ
  threadTable : ℕ → Option ℕ
  threadCount : ℕ
  nextTid : ℕ
  processTable : ℕ → Option ℕ
  nextPid : ℤ

namespace Kernel

variable (kernel : Kernel) (t p : ℕ)

def modifyThread (change : Thread → Thread) : Kernel :=
  { kernel with threads := Function.update kernel.threads t (change (kernel.threads t)) }

def modifyProcess (change : Process → Process) : Kernel :=
  { kernel with processes := Function.update kernel.processes p (change (kernel.processes p)) }

/-- `t->next = link`. -/
def setNext (link : Option ℕ) : Kernel :=
  kernel.modifyThread t (fun record => { record with next := link })

/-- `t->state = state`. -/
def setState (state : ThreadState) : Kernel :=
  kernel.modifyThread t (fun record => { record with state := state })

@[simp]
theorem modifyThread_threads_same (change : Thread → Thread) :
    (kernel.modifyThread t change).threads t = change (kernel.threads t) := by
  simp [modifyThread]

theorem modifyThread_threads_ne (change : Thread → Thread) {other : ℕ} (different : other ≠ t) :
    (kernel.modifyThread t change).threads other = kernel.threads other := by
  simp [modifyThread, different]

end Kernel

end Goshkik
