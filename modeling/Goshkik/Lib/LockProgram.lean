import Mathlib.Data.List.Nodup
import Mathlib.Data.Nat.Notation
import Goshkik.Lib.Run

/-!
# Programs that take locks

A program is a tree of lock operations and of sections in between, which read and
write a shared state and choose how to go on.  Several threads run such programs at
once; an `acquire` waits until the lock is free.  `Ordered` says that a program takes
its locks in the order of a rank as long as its sections find the state that they
are allowed to find.  Ordered programs never wait in a circle.
-/

/-- What a thread does with locks.  A section is named by its site; its effect and the rest
of the program depend on the state it finds. -/
inductive LockProgram (State Lock Site : Type) where
  | done
  | halt
  | acquire (lock : Lock) (rest : LockProgram State Lock Site)
  | release (lock : Lock) (rest : LockProgram State Lock Site)
  | run (site : Site) (effect : State → State) (next : State → LockProgram State Lock Site)

/-- Threads that run programs over a shared state. -/
structure LockThreads (State Lock Site : Type) where
  state : State
  owner : Lock → Option ℕ
  program : ℕ → LockProgram State Lock Site

variable {State Lock Site : Type}

namespace LockProgram

/-- The lock that the program asks for next. -/
def wants : LockProgram State Lock Site → Option Lock
  | .acquire lock _ => some lock
  | _ => none

variable [DecidableEq Lock]

/-- With the given locks held, the program takes further ones by increasing rank, provided
that each section finds a state which its site allows. -/
def Ordered (rank : Lock → ℕ) (allowed : Site → State → Prop) :
    List Lock → LockProgram State Lock Site → Prop
  | _, .done => True
  | _, .halt => True
  | held, .acquire lock rest =>
      (∀ other ∈ held, rank other < rank lock) ∧ Ordered rank allowed (lock :: held) rest
  | held, .release lock rest => Ordered rank allowed (held.erase lock) rest
  | held, .run site _ next =>
      ∀ state, allowed site state → Ordered rank allowed held (next state)

omit [DecidableEq Lock] in
/-- Every section of the program that finds a state which its site allows keeps the
invariant of the shared state. -/
def Keeps (allowed : Site → State → Prop) (invariant : State → Prop) :
    LockProgram State Lock Site → Prop
  | .done => True
  | .halt => True
  | .acquire _ rest => rest.Keeps allowed invariant
  | .release _ rest => rest.Keeps allowed invariant
  | .run site effect next => ∀ state, allowed site state → invariant state →
      invariant (effect state) ∧ (next state).Keeps allowed invariant

end LockProgram

namespace LockThreads

inductive Operation (State Lock Site : Type) where
  | start (thread : ℕ) (program : LockProgram State Lock Site)
  | acquire (thread : ℕ)
  | release (thread : ℕ)
  | run (thread : ℕ)

variable [DecidableEq Lock]

def setProgram (threads : LockThreads State Lock Site) (thread : ℕ)
    (program : LockProgram State Lock Site) : LockThreads State Lock Site :=
  { threads with program := Function.update threads.program thread program }

/-- One step of one thread.  A thread starts a program of the given kind when it has
ended the last one and holds no lock; releasing a lock of another thread does nothing. -/
inductive Step (programs : ℕ → LockProgram State Lock Site → Prop) :
    LockThreads State Lock Site → Operation State Lock Site →
      LockThreads State Lock Site → Prop where
  | start {threads : LockThreads State Lock Site} {thread : ℕ}
      {program : LockProgram State Lock Site} (ended : threads.program thread = .done)
      (free : ∀ lock, threads.owner lock ≠ some thread) (isProgram : programs thread program) :
      Step programs threads (.start thread program) (threads.setProgram thread program)
  | acquire {threads : LockThreads State Lock Site} {thread : ℕ} {lock : Lock}
      {rest : LockProgram State Lock Site} (next : threads.program thread = .acquire lock rest)
      (free : threads.owner lock = none) :
      Step programs threads (.acquire thread)
        ({ threads with
          owner := Function.update threads.owner lock (some thread) }.setProgram thread rest)
  | release {threads : LockThreads State Lock Site} {thread : ℕ} {lock : Lock}
      {rest : LockProgram State Lock Site} (next : threads.program thread = .release lock rest) :
      Step programs threads (.release thread)
        ({ threads with
          owner := if threads.owner lock = some thread
            then Function.update threads.owner lock none
            else threads.owner }.setProgram thread rest)
  | run {threads : LockThreads State Lock Site} {thread : ℕ} {site : Site}
      {effect : State → State} {rest : State → LockProgram State Lock Site}
      (next : threads.program thread = .run site effect rest) :
      Step programs threads (.run thread)
        ({ threads with state := effect threads.state }.setProgram thread (rest threads.state))

/-- A section finds a state that its site allows. -/
def Allowed (allowed : Site → State → Prop) (threads : LockThreads State Lock Site) :
    Operation State Lock Site → Prop
  | .run thread => ∀ site effect rest, threads.program thread = .run site effect rest →
      allowed site threads.state
  | _ => True

/-- The next step of a thread, provided that a section finds what the check asks for. -/
def advance (check : Site → State → Bool) (threads : LockThreads State Lock Site) (thread : ℕ) :
    Option (LockThreads State Lock Site) :=
  match threads.program thread with
  | .done => none
  | .halt => none
  | .acquire lock rest =>
      if threads.owner lock = none then
        some ({ threads with
          owner := Function.update threads.owner lock (some thread) }.setProgram thread rest)
      else none
  | .release lock rest =>
      some ({ threads with
        owner := if threads.owner lock = some thread
          then Function.update threads.owner lock none
          else threads.owner }.setProgram thread rest)
  | .run site effect rest =>
      if check site threads.state then
        some ({ threads with state := effect threads.state }.setProgram thread
          (rest threads.state))
      else none

/-- The steps of several threads, in the given order. -/
def advanceAll (check : Site → State → Bool) (threads : LockThreads State Lock Site)
    (order : List ℕ) : Option (LockThreads State Lock Site) :=
  order.foldlM (advance check) threads

theorem step_of_advance {check : Site → State → Bool}
    {programs : ℕ → LockProgram State Lock Site → Prop}
    {threads after : LockThreads State Lock Site} {thread : ℕ}
    (returns : threads.advance check thread = some after) :
    ∃ operation, Transition.Guarded (Allowed (fun site state => check site state = true))
      (Step programs) threads operation after := by
  unfold advance at returns
  split at returns
  · simp at returns
  · simp at returns
  · rename_i lock rest next
    rw [Option.ite_none_right_eq_some, Option.some.injEq] at returns
    rcases returns with ⟨free, rfl⟩
    exact ⟨.acquire thread, trivial, .acquire next free⟩
  · rename_i lock rest next
    rcases Option.some.inj returns
    exact ⟨.release thread, trivial, .release next⟩
  · rename_i site effect rest next
    rw [Option.ite_none_right_eq_some, Option.some.injEq] at returns
    rcases returns with ⟨checked, rfl⟩
    refine ⟨.run thread, ?_, .run next⟩
    intro site' effect' rest' next'
    rw [next, LockProgram.run.injEq] at next'
    rw [← next'.1]
    exact checked

theorem run_of_advanceAll {check : Site → State → Bool}
    {programs : ℕ → LockProgram State Lock Site → Prop}
    {threads last : LockThreads State Lock Site} {order : List ℕ}
    (returns : threads.advanceAll check order = some last) :
    ∃ operations, Transition.Run (Transition.Guarded
      (Allowed (fun site state => check site state = true)) (Step programs))
        threads operations last := by
  induction order generalizing threads with
  | nil =>
      rw [← Option.some.inj returns]
      exact ⟨[], .nil threads⟩
  | cons thread order ih =>
      simp only [advanceAll, List.foldlM_cons] at returns
      rcases Option.bind_eq_some_iff.mp returns with ⟨second, takes, rest⟩
      rcases step_of_advance takes with ⟨operation, step⟩
      rcases ih rest with ⟨operations, run⟩
      exact ⟨operation :: operations, .cons step run⟩

/-- The shared state meets an invariant that every program keeps. -/
structure Kept (allowed : Site → State → Prop) (invariant : State → Prop)
    (threads : LockThreads State Lock Site) : Prop where
  state : invariant threads.state
  keeps : ∀ thread, (threads.program thread).Keeps allowed invariant

namespace Kept

variable {allowed : Site → State → Prop} {invariant : State → Prop}
  {programs : ℕ → LockProgram State Lock Site → Prop} {threads after : LockThreads State Lock Site}

omit [DecidableEq Lock] in
theorem setProgram (kept : threads.Kept allowed invariant) {thread : ℕ}
    {program : LockProgram State Lock Site} (keeps : program.Keeps allowed invariant) :
    (threads.setProgram thread program).Kept allowed invariant where
  state := kept.state
  keeps other := by
    by_cases same : other = thread
    · subst same
      simpa [LockThreads.setProgram] using keeps
    · simpa [LockThreads.setProgram, same] using kept.keeps other

/-- An allowed step of programs that keep the invariant keeps it. -/
theorem step (kept : threads.Kept allowed invariant)
    (programsKeep : ∀ thread program, programs thread program → program.Keeps allowed invariant)
    {operation : Operation State Lock Site} (isAllowed : threads.Allowed allowed operation)
    (takes : Step programs threads operation after) : after.Kept allowed invariant := by
  cases takes with
  | start ended free isProgram => exact kept.setProgram (programsKeep _ _ isProgram)
  | acquire next free =>
      rename_i thread lock rest
      have keeps := kept.keeps thread
      rw [next] at keeps
      have moved : { threads with
          owner := Function.update threads.owner lock (some thread) }.Kept allowed invariant :=
        ⟨kept.state, kept.keeps⟩
      exact moved.setProgram keeps
  | release next =>
      rename_i thread lock rest
      have keeps := kept.keeps thread
      rw [next] at keeps
      have moved : { threads with
          owner := if threads.owner lock = some thread
            then Function.update threads.owner lock none
            else threads.owner }.Kept allowed invariant :=
        ⟨kept.state, kept.keeps⟩
      exact moved.setProgram keeps
  | run next =>
      rename_i thread site effect rest
      have keeps := kept.keeps thread
      rw [next] at keeps
      rcases keeps threads.state (isAllowed site effect rest next) kept.state with ⟨state, keeps⟩
      have moved : { threads with state := effect threads.state }.Kept allowed invariant :=
        ⟨state, kept.keeps⟩
      exact moved.setProgram keeps

end Kept

/-- The first thread waits for a lock that the second one holds. -/
def WaitsFor (threads : LockThreads State Lock Site) (first second : ℕ) : Prop :=
  ∃ lock, (threads.program first).wants = some lock ∧ threads.owner lock = some second

/-- The locks of every thread, and the rest of its program in order. -/
structure Orderly (rank : Lock → ℕ) (allowed : Site → State → Prop)
    (threads : LockThreads State Lock Site) (held : ℕ → List Lock) : Prop where
  owned : ∀ thread lock, threads.owner lock = some thread ↔ lock ∈ held thread
  distinct : ∀ thread, (held thread).Nodup
  ordered : ∀ thread, (threads.program thread).Ordered rank allowed (held thread)

variable {rank : Lock → ℕ} {allowed : Site → State → Prop}
  {programs : ℕ → LockProgram State Lock Site → Prop} {threads after : LockThreads State Lock Site}
  {held : ℕ → List Lock}

namespace Orderly

/-- A thread goes on with its program, and the locks stay as they are. -/
theorem setProgram (orderly : threads.Orderly rank allowed held) {thread : ℕ}
    {program : LockProgram State Lock Site} (ordered : program.Ordered rank allowed (held thread)) :
    (threads.setProgram thread program).Orderly rank allowed held where
  owned := orderly.owned
  distinct := orderly.distinct
  ordered other := by
    by_cases same : other = thread
    · subst same
      simpa [LockThreads.setProgram] using ordered
    · simpa [LockThreads.setProgram, same] using orderly.ordered other

theorem acquire (orderly : threads.Orderly rank allowed held) {thread : ℕ} {lock : Lock}
    {rest : LockProgram State Lock Site} (next : threads.program thread = .acquire lock rest)
    (free : threads.owner lock = none) :
    ({ threads with
      owner := Function.update threads.owner lock (some thread) }.setProgram thread rest).Orderly
        rank allowed (Function.update held thread (lock :: held thread)) := by
  have ordered := orderly.ordered thread
  rw [next] at ordered
  have unowned : ∀ other, lock ∉ held other := by
    intro other mem
    rw [← orderly.owned, free] at mem
    simp at mem
  refine ⟨?_, ?_, ?_⟩
  · intro other lock'
    by_cases sameThread : other = thread <;> by_cases sameLock : lock' = lock
    · simp [LockThreads.setProgram, sameThread, sameLock]
    · simpa [LockThreads.setProgram, sameThread, sameLock] using orderly.owned thread lock'
    · subst sameLock
      simp [LockThreads.setProgram, sameThread, unowned other, Ne.symm sameThread]
    · simpa [LockThreads.setProgram, sameThread, sameLock] using orderly.owned other lock'
  · intro other
    by_cases same : other = thread
    · subst same
      rw [Function.update_self]
      exact List.nodup_cons.mpr ⟨unowned other, orderly.distinct other⟩
    · rw [Function.update_of_ne same]
      exact orderly.distinct other
  · intro other
    by_cases same : other = thread
    · subst same
      simpa [LockThreads.setProgram] using ordered.2
    · simpa [LockThreads.setProgram, same] using orderly.ordered other

theorem release (orderly : threads.Orderly rank allowed held) {thread : ℕ} {lock : Lock}
    {rest : LockProgram State Lock Site} (next : threads.program thread = .release lock rest) :
    ({ threads with
      owner := if threads.owner lock = some thread
        then Function.update threads.owner lock none
        else threads.owner }.setProgram thread rest).Orderly rank allowed
          (Function.update held thread ((held thread).erase lock)) := by
  have ordered := orderly.ordered thread
  rw [next] at ordered
  refine ⟨?_, ?_, ?_⟩
  · intro other lock'
    have before := orderly.owned other lock'
    by_cases isOwner : threads.owner lock = some thread
    · by_cases sameThread : other = thread <;> by_cases sameLock : lock' = lock
      · subst sameThread sameLock
        simp [LockThreads.setProgram, isOwner, (orderly.distinct other).not_mem_erase]
      · subst sameThread
        simpa [LockThreads.setProgram, isOwner, sameLock, List.mem_erase_of_ne sameLock]
          using before
      · subst sameLock
        have notOwner : lock' ∉ held other := by
          rw [← before, isOwner, Option.some.injEq]
          exact Ne.symm sameThread
        simp [LockThreads.setProgram, isOwner, sameThread, notOwner]
      · simpa [LockThreads.setProgram, isOwner, sameThread, sameLock] using before
    · have notHeld : lock ∉ held thread := by
        rw [← orderly.owned]
        exact isOwner
      rw [List.erase_of_not_mem notHeld, Function.update_eq_self]
      simpa [LockThreads.setProgram, isOwner] using before
  · intro other
    by_cases same : other = thread
    · subst same
      rw [Function.update_self]
      exact (orderly.distinct other).erase lock
    · rw [Function.update_of_ne same]
      exact orderly.distinct other
  · intro other
    by_cases same : other = thread
    · subst same
      simpa [LockThreads.setProgram, LockProgram.Ordered] using ordered
    · simpa [LockThreads.setProgram, same] using orderly.ordered other

/-- An allowed step of ordered programs keeps them ordered. -/
theorem step (orderly : threads.Orderly rank allowed held)
    (programsOrdered : ∀ thread program, programs thread program →
      program.Ordered rank allowed [])
    {operation : Operation State Lock Site} (isAllowed : threads.Allowed allowed operation)
    (takes : Step programs threads operation after) :
    ∃ held', after.Orderly rank allowed held' := by
  cases takes with
  | start ended free isProgram =>
      rename_i thread program
      have empty : held thread = [] := by
        apply List.eq_nil_iff_forall_not_mem.mpr
        intro lock mem
        exact free lock ((orderly.owned thread lock).mpr mem)
      refine ⟨held, orderly.setProgram ?_⟩
      rw [empty]
      exact programsOrdered thread program isProgram
  | acquire next free => exact ⟨_, orderly.acquire next free⟩
  | release next => exact ⟨_, orderly.release next⟩
  | run next =>
      rename_i thread site effect rest
      have ordered := orderly.ordered thread
      rw [next] at ordered
      have kept : { threads with state := effect threads.state }.Orderly rank allowed held :=
        ⟨orderly.owned, orderly.distinct, orderly.ordered⟩
      exact ⟨held, kept.setProgram (ordered threads.state (isAllowed site effect rest next))⟩

/-- A thread asks only for locks that come after those it holds. -/
theorem increasing (orderly : threads.Orderly rank allowed held) {thread : ℕ} {lock other : Lock}
    (wants : (threads.program thread).wants = some lock)
    (owns : threads.owner other = some thread) :
    rank other < rank lock := by
  have ordered := orderly.ordered thread
  cases isProgram : threads.program thread with
  | acquire next rest =>
      rw [isProgram] at wants ordered
      rcases Option.some.inj wants
      exact ordered.1 other ((orderly.owned thread other).mp owns)
  | done => simp [isProgram, LockProgram.wants] at wants
  | halt => simp [isProgram, LockProgram.wants] at wants
  | release next rest => simp [isProgram, LockProgram.wants] at wants
  | run site effect rest => simp [isProgram, LockProgram.wants] at wants

/-- Along a chain of waiting threads the locks asked for come later and later. -/
theorem chain (orderly : threads.Orderly rank allowed held) {first last : ℕ}
    (waits : Relation.TransGen threads.WaitsFor first last) :
    ∃ lock owned, (threads.program first).wants = some lock ∧ threads.owner owned = some last ∧
      rank lock ≤ rank owned := by
  induction waits with
  | single waits =>
      rcases waits with ⟨lock, wants, owns⟩
      exact ⟨lock, lock, wants, owns, Nat.le_refl _⟩
  | tail _ waits ih =>
      rcases ih with ⟨lock, owned, wants, owns, below⟩
      rcases waits with ⟨next, wantsNext, ownsNext⟩
      exact ⟨lock, next, wants, ownsNext,
        Nat.le_trans below (Nat.le_of_lt (orderly.increasing wantsNext owns))⟩

end Orderly

end LockThreads
