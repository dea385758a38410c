import Goshkik.Fs.NameCacheRuns

/-!
# The vnodes in the name cache are in use

The cache never drops a reference it does not have, so every vnode it stores is
in use, and every call returns.  Callers are assumed to keep the number of
references to a vnode below what its count can hold, the one that
`namecache_enter` takes before it knows whether there is room included.
-/

namespace Goshkik

open Transition VnodeCache

namespace VnodeWorld

variable {inactive : VnInactive} {world : VnodeWorld} {call : VnodeCall} {extra : Address → ℕ}

/-- The same vnodes with references that others hold as well. -/
def share (world : VnodeWorld) (extra : Address → ℕ) : VnodeWorld where
  cache := world.cache
  held := fun vp => world.held vp + extra vp

theorem Allowed.share (allowed : world.Allowed call) : (world.share extra).Allowed call := by
  cases call with
  | alloc vfsp type slabAlloc => exact allowed
  | ref vp => exact Nat.lt_of_lt_of_le allowed (Nat.le_add_right _ _)
  | unref vp => exact Nat.lt_of_lt_of_le allowed (Nat.le_add_right _ _)
  | setParent child parent name =>
      exact ⟨fun vp mem => Nat.lt_of_lt_of_le (allowed.1 vp mem) (Nat.le_add_right _ _),
        fun vp mem => Nat.lt_of_lt_of_le (allowed.2 vp mem) (Nat.le_add_right _ _)⟩
  | clearParent child =>
      exact fun vp mem => Nat.lt_of_lt_of_le (allowed vp mem) (Nat.le_add_right _ _)

/-- The references of others make no difference to a call. -/
theorem exec_share (allowed : world.Allowed call) :
    (world.share extra).exec inactive call =
      (world.exec inactive call).map (fun after => after.share extra) := by
  cases call with
  | alloc vfsp type slabAlloc =>
      simp only [exec, share, pure, Except.pure, Except.map, Except.ok.injEq, mk.injEq, true_and]
      funext target
      simp only [gainIf]
      omega
  | ref vp =>
      simp only [exec, share, bind, Except.bind]
      cases vnodeRef world.cache vp with
      | error trap => rfl
      | ok cache =>
          simp only [pure, Except.pure, Except.map, Except.ok.injEq, mk.injEq, true_and]
          funext target
          simp only [gain]
          omega
  | unref vp =>
      simp only [exec, share, bind, Except.bind]
      cases vnodeUnref inactive world.cache vp with
      | error trap => rfl
      | ok cache =>
          simp only [pure, Except.pure, Except.map, Except.ok.injEq, mk.injEq, true_and]
          funext target
          have positive : 0 < world.held vp := allowed
          by_cases same : target = vp
          · subst same
            simp only [lose, if_true]
            omega
          · simp [lose, same]
  | setParent child parent name =>
      simp only [exec, share, bind, Except.bind]
      cases vnodeSetParent inactive world.cache child parent name with
      | error trap => rfl
      | ok cache => rfl
  | clearParent child =>
      simp only [exec, share, bind, Except.bind]
      cases vnodeClearParent inactive world.cache child with
      | error trap => rfl
      | ok cache => rfl

end VnodeWorld

namespace NameCache

variable {inactive : VnInactive} {names after : NameCache} {vp target : Address}
  {key : List UInt8} {held : Address → ℕ}

/-- The references to vnodes outside other vnodes. -/
def owed (names : NameCache) (held : Address → ℕ) : Address → ℕ :=
  fun vp => held vp + (names.taken vp - names.dropped vp)

/-- Dropping a reference that the cache has. -/
theorem unref_returns (inactive : VnInactive) (counted : names.vnodes.Counted (names.owed held))
    (has : names.dropped vp < names.taken vp) :
    ∃ after, names.unref inactive vp = .ok after ∧ after.vnodes.Counted (after.owed held) := by
  have positive : 0 < names.owed held vp := by
    simp only [owed]
    omega
  rcases vnodeUnref_returns inactive counted positive with ⟨vnodes, _, returns, _, countedAfter⟩
  refine ⟨{ names with vnodes := vnodes, dropped := gain names.dropped vp }, ?_, ?_⟩
  · simp [unref, returns, bind, Except.bind, pure, Except.pure]
  · have same : owed { names with vnodes := vnodes, dropped := gain names.dropped vp } held =
        lose (names.owed held) vp := by
      funext target
      simp only [owed, lose, gain]
      by_cases isSame : target = vp
      · subst isSame
        simp only [if_true]
        omega
      · simp [isSame]
    rw [same]
    exact countedAfter

/-- Taking a reference to a vnode in use. -/
theorem ref_returns (counted : names.vnodes.Counted (names.owed held))
    (mem : vp ∈ names.vnodes.vnodes) (covered : names.dropped vp ≤ names.taken vp) :
    ∃ after, names.ref vp = .ok after ∧
      (∀ target, target ∈ after.vnodes.vnodes ↔ target ∈ names.vnodes.vnodes) ∧
      ((names.vnodes.graph (names.owed held)).references vp + 1 < 2 ^ 32 →
        after.vnodes.Counted (after.owed held)) := by
  rcases vnodeRef_returns counted mem with ⟨vnodes, returns, _, members, _, countedAfter⟩
  refine ⟨{ names with vnodes := vnodes, taken := gain names.taken vp }, ?_, members, ?_⟩
  · simp [ref, returns, bind, Except.bind, pure, Except.pure]
  · intro bound
    have same : owed { names with vnodes := vnodes, taken := gain names.taken vp } held =
        gain (names.owed held) vp := by
      funext target
      simp only [owed, gain]
      by_cases isSame : target = vp
      · subst isSame
        simp only [if_true]
        omega
      · simp [isSame]
    rw [same]
    exact countedAfter bound

/-- The vnodes count the references of the callers and those of the cache, which
has at least one for each entry. -/
structure Sound (names : NameCache) (held : Address → ℕ) : Prop where
  counted : names.vnodes.Counted (names.owed held)
  covered : ∀ vp, names.dropped vp + names.entries vp ≤ names.taken vp

namespace Sound

theorem has_reference (sound : names.Sound held)
    (stored : names.table.lookup key = some (some vp)) : names.dropped vp < names.taken vp := by
  have covered := sound.covered vp
  have positive : 0 < names.entries vp := Finmap.multiplicity_pos stored
  omega

/-- Every vnode in the table is in use. -/
theorem mem (sound : names.Sound held) (stored : names.table.lookup key = some (some vp)) :
    vp ∈ names.vnodes.vnodes := by
  have has := sound.has_reference stored
  apply sound.counted.mem_of_owed
  simp only [owed]
  omega

theorem removeLocked (inactive : VnInactive) (sound : names.Sound held) (key : List UInt8) :
    ∃ after, namecacheRemoveLocked inactive names key = .ok after ∧ after.Sound held := by
  obtain ⟨dropped, drops, countedAfter⟩ : ∃ dropped,
      names.unrefIf inactive (names.table.lookup key).join = .ok dropped ∧
        dropped.vnodes.Counted (dropped.owed held) := by
    cases fetched : (names.table.lookup key).join with
    | none => exact ⟨names, rfl, sound.counted⟩
    | some vp =>
        exact unref_returns inactive sound.counted
          (sound.has_reference (Option.join_eq_some_iff.mp fetched))
  have returns : namecacheRemoveLocked inactive names key =
      .ok { dropped with table := (dropped.table.hashtableRemove key).2 } := by
    simp [namecacheRemoveLocked, fetched_eq, drops, bind, Except.bind, pure, Except.pure]
  refine ⟨_, returns, countedAfter, ?_⟩
  rcases removeLocked_effect returns with ⟨table, taken, droppedEq⟩
  intro vp
  have before := sound.covered vp
  have removed := Finmap.multiplicity_erase names.table key (some vp)
  simp only [entries] at before
  rw [entries, table, taken, droppedEq]
  omega

theorem purge (inactive : VnInactive) (sound : names.Sound held) (vp : Address)
    (order : List (List UInt8)) :
    ∃ after, namecachePurgeVnodeLocked inactive vp order names = .ok after ∧ after.Sound held := by
  induction order generalizing names with
  | nil => exact ⟨names, rfl, sound⟩
  | cons key order ih =>
      simp only [namecachePurgeVnodeLocked]
      split
      · rcases sound.removeLocked inactive key with ⟨removed, removes, removedSound⟩
        rcases ih removedSound with ⟨after, purges, afterSound⟩
        refine ⟨after, ?_, afterSound⟩
        simp [removes, purges, bind, Except.bind]
      · exact ih sound

/-- A hit of `namecache_lookup`. -/
theorem lookup_hit (sound : names.Sound held) {stack : NameBuffer} {dvp : Address}
    {name : CString}
    (stored : names.table.lookup (makeNamecacheKey stack dvp name) = some (some vp)) :
    ∃ after, namecacheLookup names stack (some dvp) (some name) true = .ok (0, some vp, after) ∧
      ((names.vnodes.graph (names.owed held)).references vp + 1 < 2 ^ 32 →
        after.Sound (gain held vp)) := by
  rcases vnodeRef_returns sound.counted (sound.mem stored) with
    ⟨vnodes, refs, _, _, _, countedAfter⟩
  refine ⟨{ names with vnodes := vnodes }, ?_, ?_⟩
  · simp [namecacheLookup, Bindings.hashtableGet, stored, refs, bind, Except.bind, pure,
      Except.pure]
  · intro bound
    have same : owed { names with vnodes := vnodes } (gain held vp) =
        gain (names.owed held) vp := by
      funext target
      simp only [owed, gain]
      omega
    exact ⟨same ▸ countedAfter bound, sound.covered⟩

/-- A miss of `namecache_lookup`. -/
theorem lookup_miss {stack : NameBuffer} {dvp : Address} {name : CString}
    (missing : (names.table.lookup (makeNamecacheKey stack dvp name)).join = none) :
    namecacheLookup names stack (some dvp) (some name) true = .ok (-enoent, none, names) := by
  cases stored : names.table.lookup (makeNamecacheKey stack dvp name) with
  | none => simp [namecacheLookup, Bindings.hashtableGet, stored, pure, Except.pure]
  | some value =>
      rw [stored, Option.join_some] at missing
      subst missing
      simp [namecacheLookup, Bindings.hashtableGet, stored, pure, Except.pure]

theorem enter (inactive : VnInactive) (sound : names.Sound held) (stack : NameBuffer)
    (dvp : Address) (name : CString) (mem : vp ∈ names.vnodes.vnodes) (room : Bool)
    (bound : (names.vnodes.graph (names.owed held)).references vp + 1 < 2 ^ 32) :
    ∃ status after, namecacheEnter inactive names stack (some dvp) (some name) (some vp) room =
      .ok (status, after) ∧
      (status = 0 ↔ makeNamecacheKey stack dvp name ∈ names.table ∨ room = true) ∧
      after.Sound held := by
  have covered := sound.covered vp
  rcases ref_returns sound.counted mem (by omega) with ⟨reffed, refs, _, countedReffed⟩
  rcases ref_effect refs with ⟨table, taken, dropped⟩
  have counted := countedReffed bound
  by_cases stored : makeNamecacheKey stack dvp name ∈ names.table ∨ room = true
  · have returns : namecacheEnter inactive names stack (some dvp) (some name) (some vp) room =
        .ok (0, { reffed with
          table := names.table.insert (makeNamecacheKey stack dvp name) (some vp) }) := by
      simp [namecacheEnter, refs, table, Bindings.hashtableSet_stores stored, bind, Except.bind,
        pure, Except.pure]
    refine ⟨0, _, returns, by simp [stored], counted, ?_⟩
    intro target
    have before := sound.covered target
    have removed := Finmap.multiplicity_erase names.table (makeNamecacheKey stack dvp name)
      (some target)
    simp only [entries, Finmap.multiplicity_insert, taken, dropped, gain, Option.some.injEq,
      eq_comm] at before removed ⊢
    omega
  · have has : reffed.dropped vp < reffed.taken vp := by
      simp only [taken, dropped, gain, if_true]
      omega
    have restored : { reffed with table := names.table } = reffed := by
      rw [← table]
    rcases unref_returns inactive counted has with ⟨unreffed, unrefs, countedAfter⟩
    have returns : namecacheEnter inactive names stack (some dvp) (some name) (some vp) room =
        .ok (-1, unreffed) := by
      simp [namecacheEnter, refs, table, Bindings.hashtableSet_refuses stored, restored, unrefs,
        bind, Except.bind, pure, Except.pure]
    refine ⟨-1, unreffed, returns, by simp [stored], countedAfter, ?_⟩
    rcases unref_effect unrefs with ⟨tableAfter, takenAfter, droppedAfter⟩
    intro target
    have before := sound.covered target
    simp only [entries, tableAfter, table, takenAfter, droppedAfter, taken, dropped,
      gain] at before ⊢
    omega

end Sound

end NameCache

namespace NameWorld

variable {inactive : VnInactive} {world after : NameWorld} {call : NameCall}

/-- The references to a vnode: those of callers, of the cache and of the vnodes
whose parent it is. -/
def references (world : NameWorld) (vp : Address) : ℕ :=
  (world.names.vnodes.graph (world.names.owed world.held)).references vp

/-- The vnode to which a call adds a reference can count one more. -/
def Fits (world : NameWorld) : NameCall → Prop
  | .vnode call =>
      (world.callers.share (fun vp => world.names.taken vp - world.names.dropped vp)).Fits call
  | .lookup stack (some dvp) (some name) true =>
      ∀ vp ∈ (world.names.table.lookup (makeNamecacheKey stack dvp name)).join,
        world.references vp + 1 < 2 ^ 32
  | .enter _ _ _ vp _ => ∀ target ∈ vp, world.references target + 1 < 2 ^ 32
  | _ => True

instance (world : NameWorld) (call : NameCall) : Decidable (world.Fits call) := by
  unfold Fits
  split <;> infer_instance

def BoundedStep (inactive : VnInactive) (world : NameWorld) (call : NameCall)
    (after : NameWorld) : Prop :=
  world.Fits call ∧ Step inactive world call after

theorem sound_initial : initial.names.Sound initial.held where
  counted := by
    have same : initial.names.owed initial.held = VnodeWorld.initial.held := by
      funext vp
      simp [NameCache.owed, initial]
    rw [same]
    exact VnodeWorld.counted_initial
  covered := by simp [initial, NameCache.entries]

/-- Every call that fits returns and leaves the cache sound. -/
theorem exec_returns (inactive : VnInactive) (sound : world.names.Sound world.held)
    (allowed : world.Allowed call) (fits : world.Fits call) :
    ∃ after, world.exec inactive call = .ok after ∧ after.names.Sound after.held := by
  cases call with
  | vnode call =>
      have total : (world.callers.share (fun vp =>
        world.names.taken vp - world.names.dropped vp)).held =
          world.names.owed world.held := rfl
      rcases VnodeWorld.exec_counted inactive (total ▸ sound.counted)
        (VnodeWorld.Allowed.share allowed)
        fits with ⟨shared, returns, countedAfter⟩
      rw [VnodeWorld.exec_share allowed] at returns
      cases result : world.callers.exec inactive call with
      | error trap => simp [result, Except.map] at returns
      | ok reached =>
          simp only [result, Except.map, Except.ok.injEq] at returns
          refine ⟨{ names := { world.names with vnodes := reached.cache }, held := reached.held },
            ?_, ?_⟩
          · simp [exec, result, bind, Except.bind, pure, Except.pure]
          · subst returns
            exact ⟨countedAfter, sound.covered⟩
  | lookup stack dvp name outVp =>
      by_cases given : ∃ directory key, dvp = some directory ∧ name = some key ∧ outVp = true
      · rcases given with ⟨directory, key, rfl, rfl, rfl⟩
        cases fetched : (world.names.table.lookup (makeNamecacheKey stack directory key)).join with
        | none =>
            refine ⟨world, ?_, sound⟩
            simp [exec, NameCache.Sound.lookup_miss fetched, bind, Except.bind, pure, Except.pure]
        | some vp =>
            rcases sound.lookup_hit (Option.join_eq_some_iff.mp fetched) with
              ⟨names, looks, soundAfter⟩
            refine ⟨{ names := names, held := gain world.held vp }, ?_,
              soundAfter (fits vp fetched)⟩
            simp [exec, looks, bind, Except.bind, pure, Except.pure]
      · refine ⟨world, ?_, sound⟩
        have invalid : namecacheLookup world.names stack dvp name outVp =
            .ok (-einval, none, world.names) := by
          simp only [namecacheLookup]
          split
          · rename_i directory key
            exact absurd ⟨directory, key, rfl, rfl, rfl⟩ given
          · rfl
        simp [exec, invalid, bind, Except.bind, pure, Except.pure]
  | enter stack dvp name vp room =>
      by_cases given : ∃ directory key target, dvp = some directory ∧ name = some key ∧
          vp = some target
      · rcases given with ⟨directory, key, target, rfl, rfl, rfl⟩
        rcases sound.enter inactive stack directory key (allowed target rfl) room
          (fits target rfl) with
          ⟨status, names, enters, _, soundAfter⟩
        refine ⟨{ world with names := names }, ?_, soundAfter⟩
        simp [exec, enters, bind, Except.bind, pure, Except.pure]
      · refine ⟨world, ?_, sound⟩
        simp [exec, NameCache.enter_invalid given, bind, Except.bind, pure, Except.pure]
  | remove stack dvp name =>
      by_cases given : ∃ directory key, dvp = some directory ∧ name = some key
      · rcases given with ⟨directory, key, rfl, rfl⟩
        rcases sound.removeLocked inactive (makeNamecacheKey stack directory key) with
          ⟨names, removes, soundAfter⟩
        refine ⟨{ world with names := names }, ?_, soundAfter⟩
        simp [exec, namecacheRemove, removes, bind, Except.bind, pure, Except.pure]
      · refine ⟨world, ?_, sound⟩
        simp only [exec, namecacheRemove]
        split
        · rename_i directory key
          exact absurd ⟨directory, key, rfl, rfl⟩ given
        · rfl
  | purge vp order =>
      cases vp with
      | none => exact ⟨world, rfl, sound⟩
      | some vp =>
          rcases sound.purge inactive vp order with ⟨names, purges, soundAfter⟩
          refine ⟨{ world with names := names }, ?_, soundAfter⟩
          simp [exec, namecachePurgeVnode, purges, bind, Except.bind, pure, Except.pure]

theorem BoundedStep.sound (step : BoundedStep inactive world call after)
    (sound : world.names.Sound world.held) : after.names.Sound after.held := by
  rcases step with ⟨fits, allowed, returns⟩
  rcases exec_returns inactive sound allowed fits with ⟨reached, reaches, soundAfter⟩
  rw [reaches, Except.ok.injEq] at returns
  exact returns ▸ soundAfter

theorem sound_run {calls : List NameCall} (run : Run (BoundedStep inactive) initial calls world) :
    world.names.Sound world.held :=
  run.invariant (fun _ _ _ sound step => step.sound sound) sound_initial

end NameWorld

end Goshkik
