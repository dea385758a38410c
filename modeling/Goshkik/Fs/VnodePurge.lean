import Goshkik.Fs.VnodeGet

/-!
# A purge beside other calls

`vfs_purge_vnodes` takes the lock of the vnode table once to count the entries of a
filesystem, a second time to write their node numbers to an array made for as many,
and then once for each number in the array.  Between these sections other threads go
through `vnode_get` and insert and remove vnodes.

Both passes run through the buckets, so the order in which they list the keys is an
argument of the step.  `inserted` and `removed` count the keys of the filesystem that
the other threads have added and taken away since the first pass.
-/

namespace Goshkik

open Transition

/-- Where a purge is.  `keys` are made from the node numbers that the array holds, `j` is
the index of the next one. -/
inductive PurgePhase where
  | counting
  | allocating (count : ℕ)
  | collecting (count : ℕ)
  | removing (count : ℕ) (keys : List (List UInt8)) (j : ℕ)
  | dropping (count : ℕ) (keys : List (List UInt8)) (j : ℕ) (vp : Address)
  | returned
  deriving DecidableEq

/-- The array holds no more node numbers than it was allocated for. -/
def PurgePhase.Fits : PurgePhase → Prop
  | .removing count keys _ => keys.length ≤ count
  | .dropping count keys _ _ => keys.length ≤ count
  | _ => True

def PurgePhase.collects : PurgePhase → Bool
  | .collecting _ => true
  | _ => false

def PurgePhase.passes (phase : PurgePhase) : Bool := phase = .counting || phase.collects

/-- The locked part of the loop of `vfs_purge_vnodes`, with the vnode it has left to drop. -/
def takeKey (state : VnodeTable) (key : List UInt8) : Option Address × VnodeTable :=
  match state.table.hashtableGet none key with
  | (0, some vp) =>
      match state.table.hashtableRemove key with
      | (0, table) => (some vp, { state with table := table })
      | (_, table) => (none, { state with table := table })
  | _ => (none, { state with table := (state.table.hashtableRemove key).2 })

/-- The next step of a purge. -/
def PurgePhase.advance (inactive : VnInactive) (vfsp : Address) (state : VnodeTable)
    (order : List (List UInt8)) (kmalloc : Bool) :
    PurgePhase → Except Trap (VnodeTable × PurgePhase)
  | .counting =>
      let count := (keysOf vfsp order).length
      return (state, if count = 0 then .returned else .allocating count)
  | .allocating count => return (state, if kmalloc then .collecting count else .returned)
  | .collecting count => return (state, .removing count (keysOf vfsp order) 0)
  | .removing count keys j =>
      match keys[j]? with
      | none => return (state, .returned)
      | some key =>
          match takeKey state key with
          | (some vp, state) => return (state, .dropping count keys j vp)
          | (none, state) => return (state, .removing count keys (j + 1))
  | .dropping count keys j vp => do
      let vnodes ← vnodeUnref inactive state.vnodes vp
      return ({ state with vnodes := vnodes }, .removing count keys (j + 1))
  | .returned => return (state, .returned)

/-- The keys of a filesystem in the table. -/
def VnodeTable.keysUnder (state : VnodeTable) (vfsp : Address) : Finset (List UInt8) :=
  state.table.keys.filter (fun key => key.take 8 = wordBytes vfsp)

structure PurgeWorld where
  world : GetWorld
  vfsp : Address
  phase : PurgePhase
  inserted : ℕ
  removed : ℕ

inductive PurgeStep where
  | get (step : GetStep)
  | insert (vfsp : Option Address) (nodeid : UInt64) (vp : Option Address) (room : Bool)
  | remove (vfsp : Option Address) (nodeid : UInt64)
  | purge (order : List (List UInt8)) (kmalloc : Bool)

namespace PurgeWorld

def keysUnder (system : PurgeWorld) : Finset (List UInt8) :=
  system.world.state.keysUnder system.vfsp

/-- Another thread has taken a step. -/
def others (system : PurgeWorld) (world : GetWorld) : PurgeWorld where
  world := world
  vfsp := system.vfsp
  phase := system.phase
  inserted := system.inserted + (world.state.keysUnder system.vfsp \ system.keysUnder).card
  removed := system.removed + (system.keysUnder \ world.state.keysUnder system.vfsp).card

/-- The purge has taken a step. -/
def proceed (system : PurgeWorld) (state : VnodeTable) (phase : PurgePhase) : PurgeWorld where
  world := { system.world with state := state }
  vfsp := system.vfsp
  phase := phase
  inserted := if system.phase = .counting then 0 else system.inserted
  removed := if system.phase = .counting then 0 else system.removed

def exec (inactive : VnInactive) (system : PurgeWorld) : PurgeStep → Except Trap PurgeWorld
  | .get step => do
      let world ← system.world.exec inactive step
      return system.others world
  | .insert vfsp nodeid vp room =>
      return system.others { system.world with
        state := (vnodeCacheInsert system.world.state vfsp nodeid vp room).2 }
  | .remove vfsp nodeid =>
      return system.others { system.world with
        state := (vnodeCacheRemove system.world.state vfsp nodeid).2 }
  | .purge order kmalloc => do
      let (state, phase) ←
        system.phase.advance inactive system.vfsp system.world.state order kmalloc
      return system.proceed state phase

/-- In both passes the buckets list every key of the table once. -/
def Allowed (system : PurgeWorld) : PurgeStep → Prop
  | .get step => system.world.Allowed step
  | .purge order _ => system.phase.passes = true → system.world.state.table.Listed order
  | _ => True

instance (system : PurgeWorld) : (step : PurgeStep) → Decidable (system.Allowed step)
  | .get step => inferInstanceAs (Decidable (system.world.Allowed step))
  | .insert _ _ _ _ => inferInstanceAs (Decidable True)
  | .remove _ _ => inferInstanceAs (Decidable True)
  | .purge order _ => inferInstanceAs
      (Decidable (system.phase.passes = true → system.world.state.table.Listed order))

def Step (inactive : VnInactive) (system : PurgeWorld) (step : PurgeStep) (after : PurgeWorld) :
    Prop :=
  system.Allowed step ∧ system.exec inactive step = .ok after

/-- At the second pass the other threads have added no more keys of the filesystem since
the first one than they have taken away. -/
def Balanced (system : PurgeWorld) : PurgeStep → Prop
  | .purge _ _ => system.phase.collects = true → system.inserted ≤ system.removed
  | _ => True

instance (system : PurgeWorld) : (step : PurgeStep) → Decidable (system.Balanced step)
  | .get _ => inferInstanceAs (Decidable True)
  | .insert _ _ _ _ => inferInstanceAs (Decidable True)
  | .remove _ _ => inferInstanceAs (Decidable True)
  | .purge _ _ =>
      inferInstanceAs (Decidable (system.phase.collects = true → system.inserted ≤ system.removed))

/-- One step, taken where it is allowed and `guard` holds. -/
def next (inactive : VnInactive) (guard : PurgeWorld → PurgeStep → Bool) (system : PurgeWorld)
    (step : PurgeStep) : Option PurgeWorld :=
  if guard system step ∧ system.Allowed step then (system.exec inactive step).toOption else none

variable {inactive : VnInactive} {system after : PurgeWorld} {turn : PurgeStep}
  {guard : PurgeWorld → PurgeStep → Bool}

theorem next_step (system : PurgeWorld) (step : PurgeStep) (after : PurgeWorld)
    (steps : next inactive guard system step = some after) :
    Guarded (fun system step => guard system step = true) (Step inactive) system step after :=
  permitted_of_eq_some steps

/-- A pass meets every key of the filesystem once. -/
theorem length_keysOf {state : VnodeTable} {order : List (List UInt8)}
    (listed : state.table.Listed order) (vfsp : Address) :
    (keysOf vfsp order).length = (state.keysUnder vfsp).card := by
  have keys : state.keysUnder vfsp =
      (order.filter (fun key => key.take 8 = wordBytes vfsp)).toFinset := by
    ext key
    simp [VnodeTable.keysUnder, listed.2 key, Finmap.mem_keys]
  rw [keys, List.toFinset_card_of_nodup (listed.1.filter _), keysOf, List.length_map]

/-- Before the second pass the array is right for the keys that were there at the first. -/
def Sound (system : PurgeWorld) : Prop :=
  match system.phase with
  | .allocating count => system.keysUnder.card + system.removed = count + system.inserted
  | .collecting count => system.keysUnder.card + system.removed = count + system.inserted
  | phase => phase.Fits

theorem Sound.fits (sound : system.Sound) : system.phase.Fits := by
  unfold Sound at sound
  split at sound
  · rename_i isPhase
    simp [isPhase, PurgePhase.Fits]
  · rename_i isPhase
    simp [isPhase, PurgePhase.Fits]
  · exact sound

/-- Whatever another thread does is in the two counters. -/
theorem Sound.others (sound : system.Sound) (world : GetWorld) : (system.others world).Sound := by
  have exchange := Finset.card_sdiff_add_card system.keysUnder (world.state.keysUnder system.vfsp)
  have exchangeBack :=
    Finset.card_sdiff_add_card (world.state.keysUnder system.vfsp) system.keysUnder
  rw [Finset.union_comm] at exchangeBack
  unfold Sound at sound ⊢
  have samePhase : (system.others world).phase = system.phase := rfl
  have sameKeys : (system.others world).keysUnder = world.state.keysUnder system.vfsp := rfl
  rw [samePhase, sameKeys]
  split at sound
  · rename_i isPhase
    simp only [isPhase, PurgeWorld.others]
    omega
  · rename_i isPhase
    simp only [isPhase, PurgeWorld.others]
    omega
  · exact sound

theorem Sound.purge {order : List (List UInt8)} {kmalloc : Bool} (sound : system.Sound)
    (step : Step inactive system (.purge order kmalloc) after) :
    (system.Balanced (.purge order kmalloc) → after.Sound) ∧
      (after.phase.Fits → system.Balanced (.purge order kmalloc)) := by
  rcases step with ⟨listed, executes⟩
  have stored : system.phase.passes = true →
      (keysOf system.vfsp order).length = system.keysUnder.card :=
    fun passes => length_keysOf (listed passes) system.vfsp
  simp only [exec, bind_eq_ok, Prod.exists, pure, Except.pure, Except.ok.injEq] at executes
  rcases executes with ⟨state, phase, advances, rfl⟩
  unfold Sound at sound
  cases isPhase : system.phase with
  | counting =>
      simp only [isPhase, PurgePhase.advance, pure, Except.pure, Except.ok.injEq, Prod.mk.injEq]
        at advances
      rcases advances with ⟨rfl, rfl⟩
      refine ⟨fun _ => ?_, fun _ => ?_⟩
      · unfold Sound
        split
        · rename_i isAllocating
          simp only [proceed] at isAllocating
          split at isAllocating
          · cases isAllocating
          · rw [PurgePhase.allocating.injEq] at isAllocating
            simp only [proceed, isPhase, if_true]
            rw [← isAllocating, stored (by simp [isPhase, PurgePhase.passes])]
            rfl
        · rename_i isCollecting
          simp only [proceed] at isCollecting
          split at isCollecting <;> cases isCollecting
        · simp only [proceed]
          split
          · trivial
          · trivial
      · simp [Balanced, PurgePhase.collects, isPhase]
  | allocating count =>
      simp only [isPhase, PurgePhase.advance, pure, Except.pure, Except.ok.injEq, Prod.mk.injEq]
        at advances sound
      rcases advances with ⟨rfl, rfl⟩
      refine ⟨fun _ => ?_, fun _ => ?_⟩
      · cases kmalloc with
        | false => simp [Sound, proceed, PurgePhase.Fits]
        | true =>
            simp only [Sound, proceed, isPhase, if_true, reduceCtorEq, if_false]
            exact sound
      · simp [Balanced, PurgePhase.collects, isPhase]
  | collecting count =>
      simp only [isPhase, PurgePhase.advance, pure, Except.pure, Except.ok.injEq, Prod.mk.injEq]
        at advances sound
      rcases advances with ⟨rfl, rfl⟩
      have fits : (keysOf system.vfsp order).length ≤ count ↔ system.inserted ≤ system.removed := by
        rw [stored (by simp [isPhase, PurgePhase.passes, PurgePhase.collects])]
        omega
      simpa [Sound, proceed, PurgePhase.Fits, Balanced, PurgePhase.collects, isPhase] using
        And.intro fits.mpr fits.mp
  | removing count keys j =>
      refine ⟨fun _ => ?_, fun _ => by simp [Balanced, PurgePhase.collects, isPhase]⟩
      simp only [isPhase, PurgePhase.Fits] at sound
      simp only [isPhase, PurgePhase.advance] at advances
      split at advances
      · simp only [pure, Except.pure, Except.ok.injEq, Prod.mk.injEq] at advances
        rw [← advances.2]
        trivial
      · split at advances
        · simp only [pure, Except.pure, Except.ok.injEq, Prod.mk.injEq] at advances
          rw [← advances.2]
          exact sound
        · simp only [pure, Except.pure, Except.ok.injEq, Prod.mk.injEq] at advances
          rw [← advances.2]
          exact sound
  | dropping count keys j vp =>
      refine ⟨fun _ => ?_, fun _ => by simp [Balanced, PurgePhase.collects, isPhase]⟩
      simp only [isPhase, PurgePhase.Fits] at sound
      simp only [isPhase, PurgePhase.advance, bind_eq_ok, pure, Except.pure, Except.ok.injEq,
        Prod.mk.injEq] at advances
      rcases advances with ⟨_, _, _, isNext⟩
      rw [← isNext]
      exact sound
  | returned =>
      refine ⟨fun _ => ?_, fun _ => by simp [Balanced, PurgePhase.collects, isPhase]⟩
      simp only [isPhase, PurgePhase.advance, pure, Except.pure, Except.ok.injEq, Prod.mk.injEq]
        at advances
      rw [← advances.2]
      trivial

/-- Only the second pass writes to the array. -/
theorem Sound.step (sound : system.Sound) (steps : Step inactive system turn after) :
    (system.Balanced turn → after.Sound) ∧ (after.phase.Fits → system.Balanced turn) := by
  cases turn with
  | get step =>
      rcases steps with ⟨_, executes⟩
      simp only [exec, bind_eq_ok, pure, Except.pure, Except.ok.injEq] at executes
      rcases executes with ⟨world, _, rfl⟩
      exact ⟨fun _ => sound.others world, fun _ => trivial⟩
  | insert vfsp nodeid vp room =>
      rcases steps with ⟨_, executes⟩
      simp only [exec, pure, Except.pure, Except.ok.injEq] at executes
      rw [← executes]
      exact ⟨fun _ => sound.others _, fun _ => trivial⟩
  | remove vfsp nodeid =>
      rcases steps with ⟨_, executes⟩
      simp only [exec, pure, Except.pure, Except.ok.injEq] at executes
      rw [← executes]
      exact ⟨fun _ => sound.others _, fun _ => trivial⟩
  | purge order kmalloc => exact sound.purge steps

/-- The loop body is its locked part and the drop behind it. -/
theorem purgeKey_eq (inactive : VnInactive) (state : VnodeTable) (key : List UInt8) :
    purgeKey inactive state key =
      match takeKey state key with
      | (none, state) => .ok state
      | (some vp, state) => do
          let vnodes ← vnodeUnref inactive state.vnodes vp
          return { state with vnodes := vnodes } := by
  simp only [purgeKey]
  split
  · rename_i got
    simp only [takeKey, got]
    by_cases bound : key ∈ state.table
    · simp only [Bindings.hashtableRemove, bound, if_true]
    · simp only [Bindings.hashtableRemove, bound, if_false]
      rfl
  · rename_i missed
    have notTaken : takeKey state key =
        (none, { state with table := (state.table.hashtableRemove key).2 }) := by
      simp only [takeKey]
    rw [notTaken]
    rfl

/-- The loop, when no other thread is there. -/
theorem purgeKeys_run {vfsp : Address} {count inserted removed : ℕ} {keys : List (List UInt8)}
    {after : VnodeTable} :
    ∀ (rest : List (List UInt8)) (j : ℕ) (state : VnodeTable), keys.drop j = rest →
      purgeKeys inactive rest state = .ok after →
      ∃ steps, Run (Step inactive)
        ⟨⟨state, []⟩, vfsp, .removing count keys j, inserted, removed⟩ steps
        ⟨⟨after, []⟩, vfsp, .returned, inserted, removed⟩ := by
  intro rest
  induction rest with
  | nil =>
      intro j state left runs
      have past : keys[j]? = none := by
        rw [List.getElem?_eq_none_iff]
        exact List.drop_eq_nil_iff.mp left
      simp only [purgeKeys, pure, Except.pure, Except.ok.injEq] at runs
      refine ⟨[.purge [] true], .cons ⟨by simp [Allowed, PurgePhase.passes, PurgePhase.collects],
        ?_⟩
        (.nil _)⟩
      simp [exec, PurgePhase.advance, past, runs, proceed, bind, Except.bind, pure, Except.pure]
  | cons key rest ih =>
      intro j state left runs
      have isKey : keys[j]? = some key := by
        rw [← List.head?_drop, left]
        rfl
      have leftAfter : keys.drop (j + 1) = rest := by
        rw [← List.tail_drop, left]
        rfl
      simp only [purgeKeys, bind_eq_ok] at runs
      rcases runs with ⟨middle, removes, runs⟩
      rcases ih (j + 1) middle leftAfter runs with ⟨steps, run⟩
      rw [purgeKey_eq] at removes
      have takes : ∀ phase stateAfter,
          (PurgePhase.removing count keys j).advance inactive vfsp state [] true =
            .ok (stateAfter, phase) →
          Step inactive ⟨⟨state, []⟩, vfsp, .removing count keys j, inserted, removed⟩
            (.purge [] true) ⟨⟨stateAfter, []⟩, vfsp, phase, inserted, removed⟩ := by
        intro phase stateAfter advances
        refine ⟨by simp [Allowed, PurgePhase.passes, PurgePhase.collects], ?_⟩
        simp [exec, advances, proceed, bind, Except.bind, pure, Except.pure]
      split at removes
      · rename_i unbound
        rw [Except.ok.injEq] at removes
        subst removes
        exact ⟨_, .cons (takes _ _ (by simp [PurgePhase.advance, isKey, unbound, pure,
          Except.pure])) run⟩
      · rename_i vp taken isTaken
        simp only [bind_eq_ok, pure, Except.pure, Except.ok.injEq] at removes
        rcases removes with ⟨vnodes, unrefs, rfl⟩
        have drops : Step inactive
            ⟨⟨taken, []⟩, vfsp, .dropping count keys j vp, inserted, removed⟩ (.purge [] true)
            ⟨⟨{ taken with vnodes := vnodes }, []⟩, vfsp, .removing count keys (j + 1), inserted,
              removed⟩ := by
          refine ⟨by simp [Allowed, PurgePhase.passes, PurgePhase.collects], ?_⟩
          simp [exec, PurgePhase.advance, unrefs, proceed, bind, Except.bind, pure, Except.pure]
        exact ⟨_, .cons (takes _ _ (by simp [PurgePhase.advance, isKey, isTaken, pure,
          Except.pure])) (.cons drops run)⟩

/-- The steps of a purge taken one after the other are `vfs_purge_vnodes`. -/
theorem vfsPurgeVnodes_run {vfsp : Address} {order : List (List UInt8)} {kmalloc : Bool}
    {state after : VnodeTable} (listed : state.table.Listed order)
    (returns : vfsPurgeVnodes inactive state (some vfsp) order kmalloc = .ok after) :
    ∃ steps, Run (Step inactive) ⟨⟨state, []⟩, vfsp, .counting, 0, 0⟩ steps
      ⟨⟨after, []⟩, vfsp, .returned, 0, 0⟩ := by
  have proceeds : ∀ {before last : PurgePhase},
      before.advance inactive vfsp state order kmalloc = .ok (state, last) →
      Step inactive ⟨⟨state, []⟩, vfsp, before, 0, 0⟩ (.purge order kmalloc)
        ⟨⟨state, []⟩, vfsp, last, 0, 0⟩ := by
    intro before last advances
    refine ⟨fun _ => listed, ?_⟩
    simp [exec, advances, proceed, bind, Except.bind, pure, Except.pure]
  have counts := @proceeds .counting _ rfl
  simp only [vfsPurgeVnodes] at returns
  split at returns
  · rename_i none
    simp only [pure, Except.pure, Except.ok.injEq] at returns
    rw [none, List.length_nil, if_pos rfl] at counts
    subst returns
    exact ⟨_, .cons counts (.nil _)⟩
  · rename_i some
    have positive : (keysOf vfsp order).length ≠ 0 := by
      rwa [ne_eq, List.length_eq_zero_iff]
    rw [if_neg positive] at counts
    have allocates := @proceeds (.allocating (keysOf vfsp order).length) _ rfl
    cases kmalloc with
    | false =>
        simp only [Bool.not_false, if_true, pure, Except.pure, Except.ok.injEq] at returns
        subst returns
        exact ⟨_, .cons counts (.cons allocates (.nil _))⟩
    | true =>
        simp only [Bool.not_true, Bool.false_eq_true, if_false] at returns
        have collects := @proceeds (.collecting (keysOf vfsp order).length) _ rfl
        rcases purgeKeys_run (keysOf vfsp order) 0 state rfl returns with ⟨_, run⟩
        exact ⟨_, .cons counts (.cons allocates (.cons collects run))⟩

end PurgeWorld

/-- In every run in which the other threads add no more keys of the filesystem between the
two passes than they take away, the array holds no more node numbers than it was
allocated for; a step at which this condition fails writes behind the end of the array. -/
theorem purge_buffer_guarded_runs (inactive : VnInactive) {start last : PurgeWorld}
    {steps : List PurgeStep} (counting : start.phase = .counting)
    (run : Run (Guarded PurgeWorld.Balanced (PurgeWorld.Step inactive)) start steps last) :
    last.phase.Fits ∧ ∀ step after, PurgeWorld.Step inactive last step after →
      (after.phase.Fits ↔ last.Balanced step) := by
  have started : start.Sound := by
    rw [PurgeWorld.Sound, counting]
    trivial
  have sound : last.Sound :=
    run.invariant (fun _ _ _ before guarded => (before.step guarded.2).1 guarded.1) started
  refine ⟨sound.fits, fun step after steps => ⟨(sound.step steps).2, ?_⟩⟩
  intro balanced
  exact ((sound.step steps).1 balanced).fits

/-- A purge of the filesystem at 10, whose first node is in the table. -/
def purgeStart : PurgeWorld where
  world :=
    { state :=
        { vnodes := { vnodes := ∅, freed := [] }
          table := (∅ : Bindings (Option Address)).insert (createVnodeKey 10 1) (some 100) }
      calls := [] }
  vfsp := 10
  phase := .counting
  inserted := 0
  removed := 0

/-- Another thread inserts a vnode and removes one between the passes. -/
def exchangedBetween : List PurgeStep :=
  [.purge [createVnodeKey 10 1] true, .purge [] true, .insert (some 10) 2 (some 200) true,
    .remove (some 10) 1, .purge [createVnodeKey 10 2] true]

theorem purge_buffer_guarded_runs_exchanged :
    ∃ last : PurgeWorld, last.phase = .removing 1 [createVnodeKey 10 2] 0 ∧ last.phase.Fits ∧
      ∀ step after, PurgeWorld.Step .absent last step after →
        (after.phase.Fits ↔ last.Balanced step) := by
  have returns : (follow (PurgeWorld.next .absent (fun system step => system.Balanced step))
      exchangedBetween purgeStart).map PurgeWorld.phase =
        some (.removing 1 [createVnodeKey 10 2] 0) := by
    decide +kernel
  rcases Option.map_eq_some_iff.mp returns with ⟨last, follows, isPhase⟩
  have run : Run (Guarded PurgeWorld.Balanced (PurgeWorld.Step .absent)) _ _ _ :=
    (run_of_follow PurgeWorld.next_step follows).weaken (fun _ _ => of_decide_eq_true)
  exact ⟨last, isPhase, purge_buffer_guarded_runs .absent rfl run⟩

/-- A call of `vnode_get` for another node of the filesystem inserts its vnode between the
passes. -/
def gottenBetween : List PurgeStep :=
  [.purge [createVnodeKey 10 1] true, .purge [] true, .get (.start 10 2),
    .get (.run 0 none true), .get (.run 0 (some { ret := 0, type := .vreg, slabAlloc := some 200 })
      true), .get (.run 0 none true), .purge [createVnodeKey 10 2, createVnodeKey 10 1] true]

/-- Two node numbers are written to an array that was allocated for one. -/
theorem purge_writes_past_buffer :
    ∃ (start last : PurgeWorld) (steps : List PurgeStep), start.phase = .counting ∧
      Run (PurgeWorld.Step .absent) start steps last ∧ ¬ last.phase.Fits := by
  have returns : (follow (PurgeWorld.next .absent (fun _ _ => true))
      gottenBetween purgeStart).map PurgeWorld.phase =
        some (.removing 1 [createVnodeKey 10 2, createVnodeKey 10 1] 0) := by
    decide +kernel
  rcases Option.map_eq_some_iff.mp returns with ⟨last, follows, isPhase⟩
  refine ⟨purgeStart, last, _, rfl, (run_of_follow PurgeWorld.next_step follows).unguard, ?_⟩
  rw [isPhase]
  simp [PurgePhase.Fits]

end Goshkik
