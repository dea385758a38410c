import Goshkik.Fs.VnodeGet

/-!
# All calls of `vnode_get` for a node return the same vnode

A vnode is counted once for each call that has it: the call that made it and has not
come to the re-check, and the calls that return it.  The first kind is alone with its
vnode, which is not in the table yet; the second kind has the vnode from the table.
-/

namespace Goshkik

open Transition VnodeCache

namespace GetPhase

/-- The vnode that a call has made for itself. -/
def owned : GetPhase → Option Address
  | .checking vp => some vp
  | .dropping vp _ => some vp
  | _ => none

/-- The vnode that a call returns. -/
def given : GetPhase → Option Address
  | .dropping _ existing => some existing
  | .returned code out => if code = 0 then out.join else none
  | _ => none

/-- A call that has returned zero, or has only its own vnode left to drop. -/
def Succeeds : GetPhase → Prop
  | .dropping _ _ => True
  | .returned code _ => code = 0
  | _ => False

instance : DecidablePred Succeeds
  | .looking => inferInstanceAs (Decidable False)
  | .fetching => inferInstanceAs (Decidable False)
  | .checking _ => inferInstanceAs (Decidable False)
  | .dropping _ _ => inferInstanceAs (Decidable True)
  | .returned code _ => inferInstanceAs (Decidable (code = 0))

end GetPhase

namespace GetWorld

variable {inactive : VnInactive} {world after : GetWorld} {step : GetStep} {call : GetCall}
  {guard : GetWorld → GetStep → Bool} {index : ℕ} {vp : Address} {state : VnodeTable}
  {phase : GetPhase}

/-- The calls that have made a vnode for themselves. -/
def owners (world : GetWorld) (vp : Address) : ℕ :=
  world.calls.countP (fun call => call.phase.owned = some vp)

/-- The calls that return a vnode. -/
def holders (world : GetWorld) (vp : Address) : ℕ :=
  world.calls.countP (fun call => call.phase.given = some vp)

structure Coherent (world : GetWorld) : Prop where
  parentless : world.state.vnodes.Parentless
  valued : ∀ key, world.state.table.lookup key ≠ some none
  counts : ∀ vp, world.state.vnodes.countOf vp = world.owners vp + world.holders vp
  single : ∀ vp, world.owners vp ≤ 1
  inserted : ∀ key vp, world.state.table.lookup key = some (some vp) →
    world.owners vp = 0 ∧ 0 < world.holders vp
  apart : ∀ first second vp, world.state.table.lookup first = some (some vp) →
    world.state.table.lookup second = some (some vp) → first = second
  given : ∀ call ∈ world.calls, ∀ vp, call.phase.given = some vp →
    world.state.stored call.vfsp call.nodeid = some vp
  nonnull : ∀ call ∈ world.calls, ∀ out, call.phase = .returned 0 out → ∃ vp, out = some (some vp)

theorem next_step (world : GetWorld) (step : GetStep) (after : GetWorld)
    (steps : next inactive guard world step = some after) :
    Guarded (fun world step => guard world step = true) (Step inactive) world step after :=
  permitted_of_eq_some steps

theorem coherent_initial : initial.Coherent where
  parentless := by
    refine ⟨⟨⟨?_, ?_, ?_⟩, ?_, ?_⟩, ?_⟩
    · simp [initial, VnodeCache.graph]
    · simp [initial, VnodeCache.graph, countOf]
    · simp [initial, VnodeCache.graph]
    · simp [initial]
    · simp [initial]
    · simp [initial, parentOf]
  valued := by simp [initial]
  counts := by simp [initial, countOf, owners, holders]
  single := by simp [initial, owners]
  inserted := by simp [initial]
  apart := by simp [initial]
  given := by simp [initial]
  nonnull := by simp [initial]

/-- Counting calls when one of them proceeds. -/
theorem countP_proceed (found : world.calls[index]? = some call) (state : VnodeTable)
    (phase : GetPhase) (counted : GetCall → Bool) :
    (world.proceed index call state phase).calls.countP counted + (if counted call then 1 else 0) =
      world.calls.countP counted + if counted { call with phase := phase } then 1 else 0 := by
  rcases List.getElem?_eq_some_iff.mp found with ⟨inside, atIndex⟩
  have counts := @List.countP_set _ counted world.calls index { call with phase := phase } inside
  rw [atIndex] at counts
  simp only [proceed, counts]
  by_cases own : counted call
  · have positive : 0 < world.calls.countP counted :=
      List.countP_pos_iff.mpr ⟨call, List.mem_of_getElem? found, own⟩
    simp only [own, if_true]
    omega
  · simp [own]

theorem owners_proceed (found : world.calls[index]? = some call) (state : VnodeTable)
    (phase : GetPhase) (vp : Address) :
    (world.proceed index call state phase).owners vp +
        (if call.phase.owned = some vp then 1 else 0) =
      world.owners vp + if phase.owned = some vp then 1 else 0 := by
  simpa [owners] using countP_proceed found state phase (fun call => call.phase.owned = some vp)

theorem holders_proceed (found : world.calls[index]? = some call) (state : VnodeTable)
    (phase : GetPhase) (vp : Address) :
    (world.proceed index call state phase).holders vp +
        (if call.phase.given = some vp then 1 else 0) =
      world.holders vp + if phase.given = some vp then 1 else 0 := by
  simpa [holders] using countP_proceed found state phase (fun call => call.phase.given = some vp)

theorem mem_proceed {other : GetCall}
    (mem : other ∈ (world.proceed index call state phase).calls) :
    other ∈ world.calls ∨ other = { call with phase := phase } :=
  List.mem_or_eq_of_mem_set mem

namespace Coherent

/-- Nobody has a vnode that is not in use. -/
theorem unused (coherent : world.Coherent) (absent : vp ∉ world.state.vnodes.vnodes) :
    world.owners vp = 0 ∧ world.holders vp = 0 := by
  have counts := coherent.counts vp
  rw [countOf_eq_zero absent] at counts
  omega

theorem unbound (coherent : world.Coherent) {vfsp : Address} {nodeid : UInt64}
    (missing : world.state.stored vfsp nodeid = none) :
    world.state.table.lookup (createVnodeKey vfsp nodeid) = none := by
  cases found : world.state.table.lookup (createVnodeKey vfsp nodeid) with
  | none => rfl
  | some value =>
      cases value with
      | none => exact absurd found (coherent.valued _)
      | some vp => simp [VnodeTable.stored, found] at missing

theorem start (coherent : world.Coherent) (vfsp : Address) (nodeid : UInt64) :
    Coherent { world with
      calls := world.calls ++ [{ vfsp := vfsp, nodeid := nodeid, phase := .looking }] } where
  parentless := coherent.parentless
  valued := coherent.valued
  counts := by
    intro vp
    simpa [owners, holders, GetPhase.owned, GetPhase.given] using coherent.counts vp
  single := by
    intro vp
    simpa [owners, GetPhase.owned] using coherent.single vp
  inserted := by
    intro key vp bound
    simpa [owners, holders, GetPhase.owned, GetPhase.given] using coherent.inserted key vp bound
  apart := coherent.apart
  given := by
    intro call mem vp gives
    rcases List.mem_append.mp mem with before | last
    · exact coherent.given call before vp gives
    · rw [List.mem_singleton] at last
      simp [last, GetPhase.given] at gives
  nonnull := by
    intro call mem out returns
    rcases List.mem_append.mp mem with before | last
    · exact coherent.nonnull call before out returns
    · rw [List.mem_singleton] at last
      simp [last] at returns

/-- A step that leaves the table alone. -/
theorem proceed (coherent : world.Coherent) (found : world.calls[index]? = some call)
    (state : VnodeTable) {phase : GetPhase} (table : state.table = world.state.table)
    (parentless : state.vnodes.Parentless)
    (counts : ∀ vp, state.vnodes.countOf vp + (if call.phase.owned = some vp then 1 else 0) +
        (if call.phase.given = some vp then 1 else 0) =
      world.state.vnodes.countOf vp + (if phase.owned = some vp then 1 else 0) +
        (if phase.given = some vp then 1 else 0))
    (owned : ∀ vp, phase.owned = some vp →
      call.phase.owned = some vp ∨ vp ∉ world.state.vnodes.vnodes)
    (kept : ∀ vp, call.phase.given = some vp → phase.given = some vp)
    (given : ∀ vp, phase.given = some vp → world.state.stored call.vfsp call.nodeid = some vp)
    (nonnull : ∀ out, phase = .returned 0 out → ∃ vp, out = some (some vp)) :
    (world.proceed index call state phase).Coherent := by
  have fewer : ∀ vp, (world.proceed index call state phase).owners vp ≤ world.owners vp ∨
      vp ∉ world.state.vnodes.vnodes := by
    intro vp
    have balance := owners_proceed found state phase vp
    by_cases owns : phase.owned = some vp
    · rcases owned vp owns with before | fresh
      · left
        simp only [owns, before, if_true] at balance
        omega
      · exact Or.inr fresh
    · left
      simp only [owns, if_false] at balance
      omega
  have more : ∀ vp, world.holders vp ≤ (world.proceed index call state phase).holders vp := by
    intro vp
    have balance := holders_proceed found state phase vp
    by_cases gave : call.phase.given = some vp
    · simp only [gave, kept vp gave, if_true] at balance
      omega
    · simp only [gave, if_false] at balance
      omega
  constructor
  case parentless => exact parentless
  case valued =>
    intro key
    simp only [GetWorld.proceed, table]
    exact coherent.valued key
  case counts =>
    intro vp
    have ownersBalance := owners_proceed found state phase vp
    have holdersBalance := holders_proceed found state phase vp
    have before := coherent.counts vp
    have change := counts vp
    change state.vnodes.countOf vp = _
    omega
  case single =>
    intro vp
    rcases fewer vp with less | fresh
    · exact Nat.le_trans less (coherent.single vp)
    · have balance := owners_proceed found state phase vp
      rw [(coherent.unused fresh).1] at balance
      split at balance <;> split at balance <;> omega
  case inserted =>
    intro key vp bound
    simp only [GetWorld.proceed, table] at bound
    have before := coherent.inserted key vp bound
    have holds := more vp
    refine ⟨?_, by omega⟩
    rcases fewer vp with less | fresh
    · omega
    · have gone := (coherent.unused fresh).2
      omega
  case apart =>
    intro first second vp
    simp only [GetWorld.proceed, table]
    exact coherent.apart first second vp
  case given =>
    intro other mem vp gives
    simp only [VnodeTable.stored, GetWorld.proceed, table]
    rcases mem_proceed mem with before | rfl
    · exact coherent.given other before vp gives
    · exact given vp gives
  case nonnull =>
    intro other mem out returns
    rcases mem_proceed mem with before | rfl
    · exact coherent.nonnull other before out returns
    · exact nonnull out returns

/-- The first call for a node that comes to the re-check. -/
theorem insert (coherent : world.Coherent) (found : world.calls[index]? = some call)
    (checks : call.phase = .checking vp)
    (missing : world.state.stored call.vfsp call.nodeid = none) :
    (world.proceed index call
      { world.state with
        table := world.state.table.insert (createVnodeKey call.vfsp call.nodeid) (some vp) }
      (.returned 0 (some (some vp)))).Coherent := by
  have free := coherent.unbound missing
  have mem := List.mem_of_getElem? found
  have owns : 0 < world.owners vp := by
    apply List.countP_pos_iff.mpr
    exact ⟨call, mem, by simp [checks, GetPhase.owned]⟩
  have only := coherent.single vp
  have elsewhere : ∀ key, world.state.table.lookup key ≠ some (some vp) := by
    intro key bound
    have unowned := (coherent.inserted key vp bound).1
    omega
  have owners : ∀ target, (world.proceed index call
      { world.state with
        table := world.state.table.insert (createVnodeKey call.vfsp call.nodeid) (some vp) }
      (.returned 0 (some (some vp)))).owners target + (if vp = target then 1 else 0) =
        world.owners target := by
    intro target
    simpa [checks, GetPhase.owned] using owners_proceed found _ (.returned 0 (some (some vp)))
      target
  have holders : ∀ target, (world.proceed index call
      { world.state with
        table := world.state.table.insert (createVnodeKey call.vfsp call.nodeid) (some vp) }
      (.returned 0 (some (some vp)))).holders target =
        world.holders target + if vp = target then 1 else 0 := by
    intro target
    simpa [checks, GetPhase.given] using holders_proceed found _ (.returned 0 (some (some vp)))
      target
  constructor
  case parentless => exact coherent.parentless
  case valued =>
    intro key
    by_cases same : key = createVnodeKey call.vfsp call.nodeid
    · subst same
      simp [GetWorld.proceed]
    · simpa [GetWorld.proceed, Finmap.lookup_insert_of_ne _ same] using coherent.valued key
  case counts =>
    intro target
    have before := coherent.counts target
    have fewer := owners target
    rw [holders]
    change world.state.vnodes.countOf target = _
    omega
  case single =>
    intro target
    have before := coherent.single target
    have fewer := owners target
    omega
  case inserted =>
    intro key target bound
    have fewer := owners target
    rw [holders]
    by_cases same : key = createVnodeKey call.vfsp call.nodeid
    · subst same
      simp only [GetWorld.proceed, Finmap.lookup_insert, Option.some.injEq] at bound
      subst bound
      simp only [if_true] at fewer ⊢
      omega
    · simp only [GetWorld.proceed, Finmap.lookup_insert_of_ne _ same] at bound
      have before := coherent.inserted key target bound
      omega
  case apart =>
    intro first second target firstBound secondBound
    simp only [GetWorld.proceed] at firstBound secondBound
    by_cases firstSame : first = createVnodeKey call.vfsp call.nodeid
    · subst firstSame
      by_cases secondSame : second = createVnodeKey call.vfsp call.nodeid
      · exact secondSame.symm
      · rw [Finmap.lookup_insert, Option.some.injEq, Option.some.injEq] at firstBound
        rw [Finmap.lookup_insert_of_ne _ secondSame, ← firstBound] at secondBound
        exact absurd secondBound (elsewhere second)
    · by_cases secondSame : second = createVnodeKey call.vfsp call.nodeid
      · subst secondSame
        rw [Finmap.lookup_insert, Option.some.injEq, Option.some.injEq] at secondBound
        rw [Finmap.lookup_insert_of_ne _ firstSame, ← secondBound] at firstBound
        exact absurd firstBound (elsewhere first)
      · rw [Finmap.lookup_insert_of_ne _ firstSame] at firstBound
        rw [Finmap.lookup_insert_of_ne _ secondSame] at secondBound
        exact coherent.apart first second target firstBound secondBound
  case given =>
    intro other otherMem target gives
    simp only [VnodeTable.stored, GetWorld.proceed]
    rcases mem_proceed otherMem with before | rfl
    · have bound := coherent.given other before target gives
      have different : createVnodeKey other.vfsp other.nodeid ≠
          createVnodeKey call.vfsp call.nodeid := by
        intro same
        rw [VnodeTable.stored, same, free] at bound
        cases bound
      rw [Finmap.lookup_insert_of_ne _ different]
      exact bound
    · simpa [GetPhase.given] using gives
  case nonnull =>
    intro other otherMem out returns
    rcases mem_proceed otherMem with before | rfl
    · exact coherent.nonnull other before out returns
    · simp only [GetPhase.returned.injEq, true_and] at returns
      exact ⟨vp, returns.symm⟩

/-- A call that `vfs_vget` sends back with an error. -/
theorem fail (coherent : world.Coherent) (found : world.calls[index]? = some call)
    (fetches : call.phase = .fetching) {code : ℤ} (fails : code ≠ 0) :
    (world.proceed index call world.state (.returned code none)).Coherent := by
  apply coherent.proceed found world.state rfl coherent.parentless
  · simp [fetches, GetPhase.owned, GetPhase.given]
  · simp [GetPhase.owned]
  · simp [fetches, GetPhase.given]
  · simp [GetPhase.given]
  · intro out returns
    simp only [GetPhase.returned.injEq] at returns
    exact absurd returns.1 fails

theorem look (coherent : world.Coherent) (found : world.calls[index]? = some call)
    (looks : call.phase = .looking) (missing : world.state.stored call.vfsp call.nodeid = none)
    (vget : Option Vget) (room : Bool) :
    call.advance inactive world.state vget room = .ok (world.state, .fetching) ∧
      (world.proceed index call world.state .fetching).Coherent := by
  constructor
  · simp [GetCall.advance, looks, vnodeCacheLookup, vnodeCacheLookupLocked, Bindings.hashtableGet,
      coherent.unbound missing, enoent, bind, Except.bind, pure, Except.pure]
  · apply coherent.proceed found world.state rfl coherent.parentless
    · simp [looks, GetPhase.owned, GetPhase.given]
    · simp [GetPhase.owned]
    · simp [looks, GetPhase.given]
    · simp [GetPhase.given]
    · simp

theorem fetch (coherent : world.Coherent) (found : world.calls[index]? = some call)
    (fetches : call.phase = .fetching) {vget : Option Vget} (room : Bool)
    (allowed : ∀ vp ∈ vget.bind Vget.slabAlloc, vp ∉ world.state.vnodes.vnodes) :
    ∃ state phase, call.advance inactive world.state vget room = .ok (state, phase) ∧
      state.table = world.state.table ∧ (world.proceed index call state phase).Coherent := by
  simp only [GetCall.advance, fetches]
  cases vget with
  | none => exact ⟨_, _, rfl, rfl, coherent.fail found fetches (by decide)⟩
  | some vget =>
      by_cases answers : vget.ret = 0
      · cases made : vget.slabAlloc with
        | none =>
            refine ⟨_, _, ?_, rfl, coherent.fail found fetches (show -eio ≠ 0 by decide)⟩
            simp [fetchVnode, answers, made, vnodeAlloc, pure, Except.pure]
        | some vp =>
            have fresh : vp ∉ world.state.vnodes.vnodes := allowed vp made
            rcases coherent.parentless.alloc fresh (some call.vfsp) vget.type with
              ⟨allocated, allocCounts⟩
            have positive : 0 < (vnodeAlloc world.state.vnodes (some call.vfsp) vget.type
                (some vp)).2.countOf vp := by
              simp [allocCounts, gain]
            rcases allocated.modify positive (fun vnode => { vnode with vfsp := some call.vfsp })
              (fun _ => rfl) with ⟨vnodes, modifies, parentless, counts⟩
            refine ⟨{ world.state with vnodes := vnodes }, .checking vp, ?_, rfl, ?_⟩
            · simp only [vnodeAlloc] at modifies
              simp [fetchVnode, answers, made, vnodeAlloc, modifies, bind, Except.bind, pure,
                Except.pure]
            · apply coherent.proceed found { world.state with vnodes := vnodes } rfl parentless
              · intro target
                simp [counts, allocCounts, gain, fetches, GetPhase.owned, GetPhase.given, eq_comm]
              · intro target owns
                simp only [GetPhase.owned, Option.some.injEq] at owns
                exact Or.inr (owns ▸ fresh)
              · simp [fetches, GetPhase.given]
              · simp [GetPhase.given]
              · simp
      · refine ⟨_, _, ?_, rfl, coherent.fail found fetches answers⟩
        simp [fetchVnode, answers, pure, Except.pure]

/-- A call for a node that another call has inserted meanwhile. -/
theorem lose (coherent : world.Coherent) (found : world.calls[index]? = some call)
    (checks : call.phase = .checking vp) {existing : Address}
    (stored : world.state.stored call.vfsp call.nodeid = some existing)
    (fits : world.state.vnodes.countOf existing + 1 < 2 ^ 32) (vget : Option Vget) (room : Bool) :
    ∃ state, call.advance inactive world.state vget room = .ok (state, .dropping vp existing) ∧
      state.table = world.state.table ∧
      (world.proceed index call state (.dropping vp existing)).Coherent := by
  have bound := Option.join_eq_some_iff.mp stored
  have positive : 0 < world.state.vnodes.countOf existing := by
    have holds := (coherent.inserted _ existing bound).2
    have counts := coherent.counts existing
    omega
  rcases coherent.parentless.ref positive fits with ⟨vnodes, refs, parentless, counts⟩
  refine ⟨{ world.state with vnodes := vnodes }, ?_, rfl, ?_⟩
  · simp [GetCall.advance, checks, recheckInsert, vnodeCacheLookupLocked, Bindings.hashtableGet,
      bound, refs, bind, Except.bind, pure, Except.pure]
  · apply coherent.proceed found { world.state with vnodes := vnodes } rfl parentless
    · intro target
      simp only [counts, gain, checks, GetPhase.owned, GetPhase.given, Option.some.injEq,
        eq_comm]
      simp only [reduceCtorEq, if_false]
      omega
    · intro target owns
      left
      simpa [checks, GetPhase.owned] using owns
    · simp [checks, GetPhase.given]
    · intro target gives
      simp only [GetPhase.given, Option.some.injEq] at gives
      rw [← gives]
      exact stored
    · simp

/-- A call that drops the vnode it has made for itself. -/
theorem drop (inactive : VnInactive) (coherent : world.Coherent)
    (found : world.calls[index]? = some call) {existing : Address}
    (drops : call.phase = .dropping vp existing) (vget : Option Vget) (room : Bool) :
    ∃ state, call.advance inactive world.state vget room =
        .ok (state, .returned 0 (some (some existing))) ∧
      state.table = world.state.table ∧
      (world.proceed index call state (.returned 0 (some (some existing)))).Coherent := by
  have mem := List.mem_of_getElem? found
  have positive : 0 < world.state.vnodes.countOf vp := by
    have owns : 0 < world.owners vp := by
      apply List.countP_pos_iff.mpr
      exact ⟨call, mem, by simp [drops, GetPhase.owned]⟩
    have counts := coherent.counts vp
    omega
  rcases coherent.parentless.unref inactive positive with ⟨vnodes, unrefs, parentless, counts⟩
  refine ⟨{ world.state with vnodes := vnodes }, ?_, rfl, ?_⟩
  · simp [GetCall.advance, drops, unrefs, bind, Except.bind, pure, Except.pure]
  · apply coherent.proceed found { world.state with vnodes := vnodes } rfl parentless
    · intro target
      simp only [counts, Goshkik.lose, drops, GetPhase.owned, GetPhase.given, Option.some.injEq,
        if_true, Option.join_some, reduceCtorEq, if_false]
      by_cases same : target = vp
      · subst same
        simp only [if_true]
        omega
      · simp [same, Ne.symm same]
    · simp [GetPhase.owned]
    · simp [drops, GetPhase.given]
    · intro target gives
      apply coherent.given call mem target
      simpa [drops, GetPhase.given] using gives
    · intro out returns
      simp only [GetPhase.returned.injEq, true_and] at returns
      exact ⟨existing, returns.symm⟩

/-- The next step of a call returns and keeps the entries of the table. -/
theorem advance_returns (inactive : VnInactive) (coherent : world.Coherent)
    (found : world.calls[index]? = some call) {vget : Option Vget} {room : Bool}
    (allowed : ∀ vp ∈ vget.bind Vget.slabAlloc, vp ∉ world.state.vnodes.vnodes)
    (smooth : call.Smooth world.state room) :
    ∃ state phase, call.advance inactive world.state vget room = .ok (state, phase) ∧
      (∀ key value, world.state.table.lookup key = some value →
        state.table.lookup key = some value) ∧
      (world.proceed index call state phase).Coherent := by
  simp only [GetCall.Smooth] at smooth
  cases phaseEq : call.phase with
  | looking =>
      simp only [phaseEq] at smooth
      rcases coherent.look found phaseEq smooth vget room with ⟨returns, coherentAfter⟩
      exact ⟨_, _, returns, fun _ _ bound => bound, coherentAfter⟩
  | fetching =>
      rcases coherent.fetch found phaseEq room allowed with
        ⟨state, phase, returns, table, coherentAfter⟩
      exact ⟨state, phase, returns, fun _ _ bound => table ▸ bound, coherentAfter⟩
  | checking vp =>
      simp only [phaseEq] at smooth
      cases stored : world.state.stored call.vfsp call.nodeid with
      | none =>
          simp only [stored] at smooth
          subst smooth
          have free := coherent.unbound stored
          refine ⟨_, _, ?_, ?_, coherent.insert found phaseEq stored⟩
          · simp [GetCall.advance, phaseEq, recheckInsert, vnodeCacheLookupLocked,
              Bindings.hashtableGet, free, vnodeCacheInsertLocked, Bindings.hashtableSet_stores,
              bind, Except.bind, pure, Except.pure]
          · intro key value bound
            have different : key ≠ createVnodeKey call.vfsp call.nodeid := by
              rintro rfl
              rw [free] at bound
              cases bound
            rwa [Finmap.lookup_insert_of_ne _ different]
      | some existing =>
          simp only [stored] at smooth
          rcases coherent.lose found phaseEq stored smooth vget room with
            ⟨state, returns, table, coherentAfter⟩
          exact ⟨state, _, returns, fun _ _ bound => table ▸ bound, coherentAfter⟩
  | dropping vp existing =>
      rcases coherent.drop inactive found phaseEq vget room with
        ⟨state, returns, table, coherentAfter⟩
      exact ⟨state, _, returns, fun _ _ bound => table ▸ bound, coherentAfter⟩
  | returned code out =>
      refine ⟨world.state, .returned code out, ?_, fun _ _ bound => bound, ?_⟩
      · simp [GetCall.advance, phaseEq, pure, Except.pure]
      · have unchanged : { call with phase := .returned code out } = call := by
          rw [← phaseEq]
        have same : world.calls.set index call = world.calls := by
          apply List.ext_getElem?
          intro other
          rw [List.getElem?_set]
          split
          · rename_i sameIndex
            subst sameIndex
            rw [found]
            simp [(List.getElem?_eq_some_iff.mp found).1]
          · rfl
        rw [GetWorld.proceed, unchanged, same]
        exact coherent

end Coherent

theorem exec_returns (inactive : VnInactive) (coherent : world.Coherent)
    (allowed : world.Allowed step) (smooth : world.Smooth step) :
    ∃ after, world.exec inactive step = .ok after ∧
      (∀ key value, world.state.table.lookup key = some value →
        after.state.table.lookup key = some value) ∧ after.Coherent := by
  cases step with
  | start vfsp nodeid => exact ⟨_, rfl, fun _ _ bound => bound, coherent.start vfsp nodeid⟩
  | run index vget room =>
      cases found : world.calls[index]? with
      | none =>
          exact ⟨world, by simp [exec, found, pure, Except.pure], fun _ _ bound =>
            bound, coherent⟩
      | some call =>
          rcases coherent.advance_returns inactive found allowed (smooth call found) with
            ⟨state, phase, returns, keeps, coherentAfter⟩
          refine ⟨_, ?_, keeps, coherentAfter⟩
          simp [exec, found, returns, bind, Except.bind, pure, Except.pure]

theorem Step.coherent (taken : Guarded Smooth (Step inactive) world step after)
    (coherent : world.Coherent) : after.Coherent ∧
      ∀ key value, world.state.table.lookup key = some value →
        after.state.table.lookup key = some value := by
  rcases taken with ⟨smooth, allowed, executes⟩
  rcases exec_returns inactive coherent allowed smooth with ⟨reached, reaches, keeps, coherentAfter⟩
  rw [reaches, Except.ok.injEq] at executes
  subst executes
  exact ⟨coherentAfter, keeps⟩

namespace Coherent

/-- The calls that return the vnode of a node are the successful calls for the node. -/
theorem given_iff (coherent : world.Coherent) (mem : call ∈ world.calls) {vfsp : Address}
    {nodeid : UInt64} (stored : world.state.stored vfsp nodeid = some vp) :
    call.phase.given = some vp ↔
      call.vfsp = vfsp ∧ call.nodeid = nodeid ∧ call.phase.Succeeds := by
  constructor
  · intro gives
    have own := Option.join_eq_some_iff.mp (coherent.given call mem vp gives)
    rcases createVnodeKey_injective (coherent.apart _ _ vp own (Option.join_eq_some_iff.mp stored))
      with ⟨vfsps, nodeids⟩
    refine ⟨vfsps, nodeids, ?_⟩
    cases phaseEq : call.phase with
    | looking => simp [phaseEq, GetPhase.given] at gives
    | fetching => simp [phaseEq, GetPhase.given] at gives
    | checking own => simp [phaseEq, GetPhase.given] at gives
    | dropping own existing => trivial
    | returned code out =>
        by_cases succeeds : code = 0
        · exact succeeds
        · simp [phaseEq, GetPhase.given, succeeds] at gives
  · rintro ⟨rfl, rfl, succeeds⟩
    obtain ⟨given, gives⟩ : ∃ given, call.phase.given = some given := by
      cases phaseEq : call.phase with
      | looking => simp [phaseEq, GetPhase.Succeeds] at succeeds
      | fetching => simp [phaseEq, GetPhase.Succeeds] at succeeds
      | checking own => simp [phaseEq, GetPhase.Succeeds] at succeeds
      | dropping own existing => exact ⟨existing, rfl⟩
      | returned code out =>
          simp only [phaseEq, GetPhase.Succeeds] at succeeds
          subst succeeds
          rcases coherent.nonnull call mem out phaseEq with ⟨given, rfl⟩
          exact ⟨given, rfl⟩
    have own := coherent.given call mem given gives
    rw [own, Option.some.injEq] at stored
    rw [gives, stored]

/-- A vnode in the table counts the successful calls for its node. -/
theorem countOf_eq (coherent : world.Coherent) {vfsp : Address} {nodeid : UInt64}
    (stored : world.state.stored vfsp nodeid = some vp) :
    world.state.vnodes.countOf vp = world.calls.countP (fun call =>
      call.vfsp = vfsp ∧ call.nodeid = nodeid ∧ call.phase.Succeeds) := by
  have unowned := (coherent.inserted _ vp (Option.join_eq_some_iff.mp stored)).1
  have counts := coherent.counts vp
  rw [unowned, Nat.zero_add] at counts
  rw [counts, holders]
  apply List.countP_congr
  intro call mem
  simpa using coherent.given_iff mem stored

end Coherent

theorem coherent_run {steps : List GetStep}
    (run : Run (Guarded Smooth (Step inactive)) initial steps world) : world.Coherent :=
  run.invariant (fun _ _ _ coherent taken => (Step.coherent taken coherent).1) coherent_initial

/-- An entry of the table stays what it is. -/
theorem persists_run (coherent : world.Coherent) {steps : List GetStep}
    (run : Run (Guarded Smooth (Step inactive)) world steps after) {key : List UInt8}
    {value : Option Address} (bound : world.state.table.lookup key = some value) :
    after.state.table.lookup key = some value := by
  have kept : ∀ (before : GetWorld) (step : GetStep) (last : GetWorld),
      before.Coherent ∧ before.state.table.lookup key = some value →
      Guarded Smooth (Step inactive) before step last →
      last.Coherent ∧ last.state.table.lookup key = some value := by
    intro before step last holds taken
    rcases Step.coherent taken holds.1 with ⟨coherentLast, keeps⟩
    exact ⟨coherentLast, keeps key value holds.2⟩
  have both := run.invariant kept ⟨coherent, bound⟩
  exact both.2

end GetWorld

/-- Where no call finds its node in the table at its lookup and no insertion fails, every
call that has returned zero has returned the vnode that the table has for its node, no
entry ever changes, and the vnode counts one reference for each successful call. -/
theorem vnode_get_coherent_guarded_runs (inactive : VnInactive) {steps : List GetStep}
    {world : GetWorld}
    (run : Run (Guarded GetWorld.Smooth (GetWorld.Step inactive)) GetWorld.initial steps world) :
    (∀ call ∈ world.calls, ∀ out, call.phase = .returned 0 out → ∃ vp, out = some (some vp) ∧
      world.state.stored call.vfsp call.nodeid = some vp) ∧
    (∀ more after, Run (Guarded GetWorld.Smooth (GetWorld.Step inactive)) world more after →
      ∀ vfsp nodeid vp, world.state.stored vfsp nodeid = some vp →
        after.state.stored vfsp nodeid = some vp) ∧
    (∀ vfsp nodeid vp, world.state.stored vfsp nodeid = some vp → ∃ vnode,
      world.state.vnodes.vnodes.lookup vp = some vnode ∧
      vnode.count.toNat = world.calls.countP (fun call =>
        call.vfsp = vfsp ∧ call.nodeid = nodeid ∧ call.phase.Succeeds)) := by
  have coherent := GetWorld.coherent_run run
  refine ⟨?_, ?_, ?_⟩
  · intro call mem out returns
    rcases coherent.nonnull call mem out returns with ⟨vp, rfl⟩
    refine ⟨vp, rfl, coherent.given call mem vp ?_⟩
    simp [returns, GetPhase.given]
  · intro more after rest vfsp nodeid vp stored
    have bound := GetWorld.persists_run coherent rest (Option.join_eq_some_iff.mp stored)
    exact Option.join_eq_some_iff.mpr bound
  · intro vfsp nodeid vp stored
    have counts := coherent.countOf_eq stored
    have positive : 0 < world.state.vnodes.countOf vp := by
      have holds := (coherent.inserted _ vp (Option.join_eq_some_iff.mp stored)).2
      have total := coherent.counts vp
      omega
    rcases exists_lookup (coherent.parentless.mem_iff.mpr positive) with ⟨vnode, found⟩
    simp only [countOf, found, Option.elim_some] at counts
    exact ⟨vnode, found, counts⟩

/-- An answer of `vfs_vget` with a new vnode. -/
def madeVnode (vp : Address) : Option Vget :=
  some { ret := 0, type := .vreg, slabAlloc := some vp }

/-- Two calls for a node of which the second comes to the re-check later. -/
theorem vnode_get_coherent_two_calls : ∃ world,
    Run (Guarded GetWorld.Smooth (GetWorld.Step .absent)) GetWorld.initial
      [.start 10 1, .start 10 1, .run 0 none true, .run 1 none true, .run 0 (madeVnode 100) true,
        .run 1 (madeVnode 200) true, .run 0 none true, .run 1 none true, .run 1 none true] world ∧
    world.calls = [⟨10, 1, .returned 0 (some (some 100))⟩, ⟨10, 1, .returned 0 (some (some 100))⟩] ∧
    ∃ vp, some (some 100) = some (some vp) ∧ world.state.stored 10 1 = some vp := by
  have returns : (follow (GetWorld.next .absent (fun world step => world.Smooth step))
      [.start 10 1, .start 10 1, .run 0 none true, .run 1 none true, .run 0 (madeVnode 100) true,
        .run 1 (madeVnode 200) true, .run 0 none true, .run 1 none true, .run 1 none true]
      GetWorld.initial).map GetWorld.calls =
        some [⟨10, 1, .returned 0 (some (some 100))⟩, ⟨10, 1, .returned 0 (some (some 100))⟩] := by
    decide +kernel
  rcases Option.map_eq_some_iff.mp returns with ⟨world, follows, calls⟩
  have run : Run (Guarded GetWorld.Smooth (GetWorld.Step .absent)) _ _ _ :=
    (run_of_follow GetWorld.next_step follows).weaken (fun _ _ => of_decide_eq_true)
  have mem : ⟨10, 1, .returned 0 (some (some 100))⟩ ∈ world.calls := by
    simp [calls]
  exact ⟨world, run, calls, (vnode_get_coherent_guarded_runs .absent run).1 _ mem _ rfl⟩

/-- A call that finds its node in the table returns a null pointer, and after an insertion
that fails two calls return different vnodes. -/
theorem vnode_get_incoherent :
    (∃ steps world, Run (GetWorld.Step .absent) GetWorld.initial steps world ∧
      ⟨10, 1, .returned 0 (some none)⟩ ∈ world.calls) ∧
    (∃ steps world, Run (GetWorld.Step .absent) GetWorld.initial steps world ∧
      ⟨10, 1, .returned 0 (some (some 100))⟩ ∈ world.calls ∧
      ⟨10, 1, .returned 0 (some (some 200))⟩ ∈ world.calls) := by
  constructor
  · have returns : (follow (GetWorld.next .absent (fun _ _ => true))
        [.start 10 1, .run 0 none true, .run 0 (madeVnode 100) true, .run 0 none true, .start 10 1,
          .run 1 none true] GetWorld.initial).map GetWorld.calls =
          some [⟨10, 1, .returned 0 (some (some 100))⟩, ⟨10, 1, .returned 0 (some none)⟩] := by
      decide +kernel
    rcases Option.map_eq_some_iff.mp returns with ⟨world, follows, calls⟩
    exact ⟨_, world, (run_of_follow GetWorld.next_step follows).unguard, by simp [calls]⟩
  · have returns : (follow (GetWorld.next .absent (fun _ _ => true))
        [.start 10 1, .run 0 none true, .run 0 (madeVnode 100) true, .run 0 none false, .start 10 1,
          .run 1 none true, .run 1 (madeVnode 200) true, .run 1 none true] GetWorld.initial).map
        GetWorld.calls =
          some [⟨10, 1, .returned 0 (some (some 100))⟩,
            ⟨10, 1, .returned 0 (some (some 200))⟩] := by
      decide +kernel
    rcases Option.map_eq_some_iff.mp returns with ⟨world, follows, calls⟩
    exact ⟨_, world, (run_of_follow GetWorld.next_step follows).unguard, by simp [calls],
      by simp [calls]⟩

/-- The steps of a call taken one after the other are `vnode_get`. -/
theorem vnodeGet_run {inactive : VnInactive} {state after : VnodeTable} {vfsp : Address}
    {nodeid : UInt64} {vget : Option Vget} {room : Bool} {code : ℤ}
    {out : Option (Option Address)}
    (fresh : ∀ vp ∈ vget.bind Vget.slabAlloc, vp ∉ state.vnodes.vnodes)
    (returns : vnodeGet inactive state (some vfsp) true nodeid vget room =
      .ok (code, out, after)) :
    ∃ steps, Run (GetWorld.Step inactive) { state := state, calls := [] } steps
      { state := after,
        calls := [{ vfsp := vfsp, nodeid := nodeid, phase := .returned code out }] } := by
  have proceeds : ∀ {before last : VnodeTable} {phase phaseAfter : GetPhase}
      (answer : Option Vget), (∀ vp ∈ answer.bind Vget.slabAlloc, vp ∉ before.vnodes.vnodes) →
      GetCall.advance inactive before { vfsp := vfsp, nodeid := nodeid, phase := phase } answer
        room =
        .ok (last, phaseAfter) →
      GetWorld.Step inactive
        { state := before, calls := [{ vfsp := vfsp, nodeid := nodeid, phase := phase }] }
        (.run 0 answer room)
        { state := last, calls := [{ vfsp := vfsp, nodeid := nodeid, phase := phaseAfter }] } := by
    intro before last phase phaseAfter answer unused advances
    refine ⟨unused, ?_⟩
    simp [GetWorld.exec, advances, GetWorld.proceed, bind, Except.bind, pure, Except.pure]
  have started : GetWorld.Step inactive { state := state, calls := [] } (.start vfsp nodeid)
      { state := state, calls := [{ vfsp := vfsp, nodeid := nodeid, phase := .looking }] } :=
    ⟨trivial, rfl⟩
  simp only [vnodeGet, bind_eq_ok, Prod.exists] at returns
  rcases returns with ⟨ret, found, looked, looks, returns⟩
  have looking : GetWorld.Step inactive _ (.run 0 none room) _ :=
    @proceeds state looked .looking (if ret = 0 then .returned ret (some found) else .fetching)
      none (by simp) (by simp [GetCall.advance, looks, bind, Except.bind, pure, Except.pure])
  by_cases hit : ret = 0
  · simp only [hit, if_true, pure, Except.pure, Except.ok.injEq, Prod.mk.injEq] at returns
    rcases returns with ⟨rfl, rfl, rfl⟩
    rw [if_pos hit, hit] at looking
    exact ⟨_, .cons started (.cons looking (.nil _))⟩
  · simp only [hit, if_false] at looking returns
    have same : looked = state := by
      simp only [vnodeCacheLookup] at looks
      split at looks
      · simp only [bind_eq_ok, pure, Except.pure, Except.ok.injEq, Prod.mk.injEq] at looks
        rcases looks with ⟨_, _, zero, _⟩
        exact absurd zero.symm hit
      · simp only [pure, Except.pure, Except.ok.injEq, Prod.mk.injEq] at looks
        exact looks.2.2.symm
    subst same
    have fetching : ∀ last phaseAfter, fetchVnode looked vfsp vget = .ok (last, phaseAfter) →
        GetWorld.Step inactive _ (.run 0 vget room) _ :=
      fun last phaseAfter fetches => @proceeds looked last .fetching phaseAfter vget fresh fetches
    cases vget with
    | none =>
        simp only [pure, Except.pure, Except.ok.injEq, Prod.mk.injEq] at returns
        rcases returns with ⟨rfl, rfl, rfl⟩
        exact ⟨_, .cons started (.cons looking (.cons (fetching _ _ rfl) (.nil _)))⟩
    | some vget =>
        by_cases fails : vget.ret = 0
        · cases made : vget.slabAlloc with
          | none =>
              simp only [fails, ne_eq, not_true, if_false, made, vnodeAlloc, pure, Except.pure,
                Except.ok.injEq, Prod.mk.injEq] at returns
              rcases returns with ⟨rfl, rfl, rfl⟩
              refine ⟨_, .cons started (.cons looking (.cons (fetching _ _ ?_) (.nil _)))⟩
              simp [fetchVnode, fails, made, vnodeAlloc, pure, Except.pure]
          | some vp =>
              simp only [fails, ne_eq, not_true, if_false, made, vnodeAlloc, vnodeGetFresh,
                bind_eq_ok, Prod.exists] at returns
              rcases returns with ⟨vnodes, modifies, existing, rechecked, rechecks, returns⟩
              have fetched := fetching { looked with vnodes := vnodes } (.checking vp) (by
                simp [fetchVnode, fails, made, vnodeAlloc, modifies, bind, Except.bind, pure,
                  Except.pure])
              have checked := @proceeds { looked with vnodes := vnodes } rechecked (.checking vp)
                (existing.elim (.returned 0 (some (some vp))) (.dropping vp)) none (by simp) (by
                  simp [GetCall.advance, rechecks, bind, Except.bind, pure, Except.pure])
              cases existing with
              | none =>
                  simp only [pure, Except.pure, Except.ok.injEq, Prod.mk.injEq] at returns
                  rcases returns with ⟨rfl, rfl, rfl⟩
                  exact ⟨_, .cons started (.cons looking (.cons fetched (.cons checked (.nil _))))⟩
              | some existing =>
                  simp only [bind_eq_ok, pure, Except.pure, Except.ok.injEq,
                    Prod.mk.injEq] at returns
                  rcases returns with ⟨dropped, unrefs, rfl, rfl, rfl⟩
                  have dropping := @proceeds rechecked { rechecked with vnodes := dropped }
                    (.dropping vp existing) (.returned 0 (some (some existing))) none (by simp) (by
                      simp [GetCall.advance, unrefs, bind, Except.bind, pure, Except.pure])
                  exact ⟨_, .cons started (.cons looking (.cons fetched (.cons checked
                    (.cons dropping (.nil _)))))⟩
        · simp only [fails, ne_eq, not_false_eq_true, if_true, pure, Except.pure,
            Except.ok.injEq, Prod.mk.injEq] at returns
          rcases returns with ⟨rfl, rfl, rfl⟩
          refine ⟨_, .cons started (.cons looking (.cons (fetching _ _ ?_) (.nil _)))⟩
          simp [fetchVnode, fails, pure, Except.pure]

end Goshkik
