import Mathlib.Data.Nat.Notation
import Mathlib.Logic.Function.Basic
import Goshkik.Lib.Run

/-!
# Spinlocks, instruction by instruction

`spinlock_acquire` and `spinlock_release` on one processor that takes interrupts between any
two instructions while its interrupt flag is set.  A handler is entered with the flag
cleared, and its return restores the flag and the register of the code it interrupted.

All code consists of sections: an acquire, more sections, and the release of the same lock.
-/

namespace Goshkik

/-- `have_interrupt` reads the flag at its `pushf`; `enableInterruptIf` is the test of the value
that `spinlock_release` has loaded together with the `sti` it may jump over. -/
inductive SpinInstruction (Lock : Type) where
  | haveInterrupt
  | storeHadInterrupt (lock : Lock)
  | disableInterrupt
  | testAndSet (lock : Lock)
  | clear (lock : Lock)
  | loadHadInterrupt (lock : Lock)
  | enableInterruptIf
  | other
  deriving DecidableEq

/-- What an interrupt puts aside. -/
structure Interrupted (Lock : Type) where
  code : List (SpinInstruction Lock)
  flag : Bool
  interrupts : Bool

/-- `interrupts` is the interrupt flag, and `flag` the register between a read of it and a write
of `had_interrupt`, or the other way round. -/
structure SpinCpu (Lock : Type) where
  interrupts : Bool
  flag : Bool
  locked : Lock → Bool
  hadInterrupt : Lock → Bool
  code : List (SpinInstruction Lock)
  suspended : List (Interrupted Lock)

def spinlockAcquire {Lock : Type} (lock : Lock) : List (SpinInstruction Lock) :=
  [.haveInterrupt, .storeHadInterrupt lock, .disableInterrupt, .testAndSet lock]

def spinlockRelease {Lock : Type} (lock : Lock) : List (SpinInstruction Lock) :=
  [.clear lock, .loadHadInterrupt lock, .enableInterruptIf]

/-- Code in which every acquire has its release. -/
inductive Sections {Lock : Type} : List (SpinInstruction Lock) → Prop where
  | nil : Sections []
  | other {rest : List (SpinInstruction Lock)} (sections : Sections rest) :
      Sections (.other :: rest)
  | pair {inner rest : List (SpinInstruction Lock)} (lock : Lock) (inside : Sections inner)
      (behind : Sections rest) :
      Sections (spinlockAcquire lock ++ inner ++ spinlockRelease lock ++ rest)

namespace SpinCpu

variable {Lock : Type} [DecidableEq Lock]

/-- An instruction with the code behind it; the loop on a lock that is set stays where it is. -/
def execute (cpu : SpinCpu Lock) (rest : List (SpinInstruction Lock)) :
    SpinInstruction Lock → SpinCpu Lock
  | .haveInterrupt => { cpu with flag := cpu.interrupts, code := rest }
  | .storeHadInterrupt lock =>
      { cpu with hadInterrupt := Function.update cpu.hadInterrupt lock cpu.flag, code := rest }
  | .disableInterrupt => { cpu with interrupts := false, code := rest }
  | .testAndSet lock =>
      if cpu.locked lock then cpu
      else { cpu with locked := Function.update cpu.locked lock true, code := rest }
  | .clear lock => { cpu with locked := Function.update cpu.locked lock false, code := rest }
  | .loadHadInterrupt lock => { cpu with flag := cpu.hadInterrupt lock, code := rest }
  | .enableInterruptIf => { cpu with interrupts := cpu.interrupts || cpu.flag, code := rest }
  | .other => { cpu with code := rest }

/-- An interrupt is delivered. -/
def interrupt (cpu : SpinCpu Lock) (handler : List (SpinInstruction Lock)) : SpinCpu Lock :=
  { cpu with
    interrupts := false
    code := handler
    suspended := ⟨cpu.code, cpu.flag, cpu.interrupts⟩ :: cpu.suspended }

/-- The handler returns. -/
def resume (cpu : SpinCpu Lock) (interrupted : Interrupted Lock)
    (rest : List (Interrupted Lock)) : SpinCpu Lock :=
  { cpu with
    interrupts := interrupted.interrupts
    flag := interrupted.flag
    code := interrupted.code
    suspended := rest }

end SpinCpu

/-- An interrupt names the code it interrupts and its handler. -/
inductive SpinLabel (Lock : Type) where
  | execute
  | interrupt (interrupted handler : List (SpinInstruction Lock))
  | interruptReturn

inductive SpinStep {Lock : Type} [DecidableEq Lock] :
    SpinCpu Lock → SpinLabel Lock → SpinCpu Lock → Prop where
  | execute {cpu : SpinCpu Lock} {instruction : SpinInstruction Lock}
      {rest : List (SpinInstruction Lock)} (next : cpu.code = instruction :: rest) :
      SpinStep cpu .execute (cpu.execute rest instruction)
  | interrupt {cpu : SpinCpu Lock} {handler : List (SpinInstruction Lock)}
      (enabled : cpu.interrupts = true) (sections : Sections handler) :
      SpinStep cpu (.interrupt cpu.code handler) (cpu.interrupt handler)
  | interruptReturn {cpu : SpinCpu Lock} {interrupted : Interrupted Lock}
      {rest : List (Interrupted Lock)} (finished : cpu.code = [])
      (entered : cpu.suspended = interrupted :: rest) :
      SpinStep cpu .interruptReturn (cpu.resume interrupted rest)

/-! ## What code still uses -/

section Uses

variable {Lock : Type} [DecidableEq Lock] {code rest : List (SpinInstruction Lock)} {lock : Lock}

/-- The value of the register is used before it is written. -/
def usesFlag : List (SpinInstruction Lock) → Bool
  | [] | .haveInterrupt :: _ | .loadHadInterrupt _ :: _ => false
  | .storeHadInterrupt _ :: _ | .enableInterruptIf :: _ => true
  | _ :: rest => usesFlag rest

/-- `had_interrupt` of a lock is read before it is written. -/
def usesHad (lock : Lock) : List (SpinInstruction Lock) → Bool
  | [] => false
  | .storeHadInterrupt other :: rest => if other = lock then false else usesHad lock rest
  | .loadHadInterrupt other :: rest => if other = lock then true else usesHad lock rest
  | _ :: rest => usesHad lock rest

/-- The lock is taken before it is cleared. -/
def takesFirst (lock : Lock) : List (SpinInstruction Lock) → Bool
  | [] => false
  | .testAndSet other :: rest => if other = lock then true else takesFirst lock rest
  | .clear other :: rest => if other = lock then false else takesFirst lock rest
  | _ :: rest => takesFirst lock rest

omit [DecidableEq Lock] in
theorem pair_append (lock : Lock) (inner behind rest : List (SpinInstruction Lock)) :
    spinlockAcquire lock ++ inner ++ spinlockRelease lock ++ behind ++ rest =
      .haveInterrupt :: .storeHadInterrupt lock :: .disableInterrupt :: .testAndSet lock ::
        (inner ++ .clear lock :: .loadHadInterrupt lock :: .enableInterruptIf ::
          (behind ++ rest)) := by
  simp [spinlockAcquire, spinlockRelease]

namespace Sections

omit [DecidableEq Lock] in
/-- Sections write the register before they use it. -/
theorem usesFlag_append (sections : Sections code) (uses : usesFlag (code ++ rest) = true) :
    usesFlag rest = true := by
  induction sections generalizing rest with
  | nil => exact uses
  | other _ ih => exact ih uses
  | pair lock inside behind ihInside ihBehind =>
      rw [pair_append] at uses
      simp [usesFlag] at uses

/-- Sections write `had_interrupt` before they read it. -/
theorem usesHad_append (sections : Sections code) (uses : usesHad lock (code ++ rest) = true) :
    usesHad lock rest = true ∧ .storeHadInterrupt lock ∉ code := by
  induction sections generalizing rest with
  | nil => exact ⟨uses, by simp⟩
  | other _ ih => simpa using ih uses
  | pair other inside behind ihInside ihBehind =>
      rw [pair_append] at uses
      simp only [usesHad] at uses
      split at uses
      · cases uses
      · rename_i different
        rcases ihInside uses with ⟨usesInside, innerKeeps⟩
        simp only [usesHad, different, if_false] at usesInside
        rcases ihBehind usesInside with ⟨usesBehind, behindKeeps⟩
        refine ⟨usesBehind, ?_⟩
        simp [spinlockAcquire, spinlockRelease, innerKeeps, behindKeeps, Ne.symm different]

/-- Sections that use a lock take it before they clear it. -/
theorem takesFirst_append (sections : Sections code) (stores : .storeHadInterrupt lock ∈ code) :
    takesFirst lock (code ++ rest) = true := by
  have skips : ∀ {code rest : List (SpinInstruction Lock)}, Sections code →
      takesFirst lock (code ++ rest) = true ∨
        takesFirst lock (code ++ rest) = takesFirst lock rest := by
    intro code rest sections
    induction sections generalizing rest with
    | nil => exact .inr rfl
    | other _ ih => exact ih
    | pair other inside behind ihInside ihBehind =>
        rw [pair_append]
        simp only [takesFirst]
        split
        · exact .inl rfl
        · rename_i different
          rcases ihInside with taken | same
          · exact .inl taken
          · rw [same]
            simp only [takesFirst, different, if_false]
            exact ihBehind
  induction sections generalizing rest with
  | nil => simp at stores
  | other _ ih => exact ih (by simpa using stores)
  | pair other inside behind ihInside ihBehind =>
      rw [pair_append]
      simp only [takesFirst]
      split
      · rfl
      · rename_i different
        simp only [spinlockAcquire, spinlockRelease, List.cons_append, List.nil_append,
          List.mem_cons, reduceCtorEq, SpinInstruction.storeHadInterrupt.injEq,
          Ne.symm different, false_or, List.mem_append, List.not_mem_nil, or_false] at stores
        rcases stores with inInner | inBehind
        · exact ihInside inInner
        · rcases skips inside with taken | same
          · exact taken
          · rw [same]
            simp only [takesFirst, different, if_false]
            exact ihBehind inBehind

end Sections

end Uses

end Goshkik
