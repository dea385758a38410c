import Goshkik.Fs.NameCache
import Goshkik.Fs.VnodeRuns

/-!
# Runs of the name cache

The callers of the name cache are those of the vnode functions.  Besides the calls
of these they look names up, enter and remove them, and purge vnodes from the
cache.  `namecache_enter` is called with vnodes in use.

The references that the cache takes and drops balance with its entries as long as
no name is entered that is in the cache already: `hashtable_set` then overwrites
the entry, and nothing drops the reference to the vnode that was its value.
-/

namespace Goshkik

open Transition VnodeCache

structure NameWorld where
  names : NameCache
  held : Address → ℕ

inductive NameCall where
  | vnode (call : VnodeCall)
  | lookup (stack : NameBuffer) (dvp : Option Address) (name : Option CString) (outVp : Bool)
  | enter (stack : NameBuffer) (dvp : Option Address) (name : Option CString)
      (vp : Option Address) (room : Bool)
  | remove (stack : NameBuffer) (dvp : Option Address) (name : Option CString)
  | purge (vp : Option Address) (order : List (List UInt8))

namespace NameWorld

def initial : NameWorld where
  names :=
    { vnodes := VnodeWorld.initial.cache
      table := ∅
      taken := fun _ => 0
      dropped := fun _ => 0 }
  held := VnodeWorld.initial.held

/-- The vnodes with the references of the callers alone. -/
def callers (world : NameWorld) : VnodeWorld where
  cache := world.names.vnodes
  held := world.held

def Allowed (world : NameWorld) : NameCall → Prop
  | .vnode call => world.callers.Allowed call
  | .lookup _ _ _ _ => True
  | .enter _ _ _ vp _ => ∀ target ∈ vp, target ∈ world.names.vnodes.vnodes
  | .remove _ _ _ => True
  | .purge _ order => world.names.table.Listed order

instance (world : NameWorld) : (call : NameCall) → Decidable (world.Allowed call)
  | .vnode call => inferInstanceAs (Decidable (world.callers.Allowed call))
  | .lookup _ _ _ _ => inferInstanceAs (Decidable True)
  | .enter _ _ _ vp _ =>
      inferInstanceAs (Decidable (∀ target ∈ vp, target ∈ world.names.vnodes.vnodes))
  | .remove _ _ _ => inferInstanceAs (Decidable True)
  | .purge _ order => inferInstanceAs (Decidable (world.names.table.Listed order))

def exec (inactive : VnInactive) (world : NameWorld) : NameCall → Except Trap NameWorld
  | .vnode call => do
      let after ← world.callers.exec inactive call
      return { names := { world.names with vnodes := after.cache }, held := after.held }
  | .lookup stack dvp name outVp => do
      let (_, vp, names) ← namecacheLookup world.names stack dvp name outVp
      return { names := names, held := gainIf world.held vp }
  | .enter stack dvp name vp room => do
      let (_, names) ← namecacheEnter inactive world.names stack dvp name vp room
      return { world with names := names }
  | .remove stack dvp name => do
      let names ← namecacheRemove inactive world.names stack dvp name
      return { world with names := names }
  | .purge vp order => do
      let names ← namecachePurgeVnode inactive world.names vp order
      return { world with names := names }

def Step (inactive : VnInactive) (world : NameWorld) (call : NameCall) (after : NameWorld) : Prop :=
  world.Allowed call ∧ world.exec inactive call = .ok after

/-- One step, taken where it is allowed and `guard` holds. -/
def next (inactive : VnInactive) (guard : NameWorld → NameCall → Bool) (world : NameWorld)
    (call : NameCall) : Option NameWorld :=
  if guard world call ∧ world.Allowed call then (world.exec inactive call).toOption else none

/-- A name is entered only where its key is not in the table. -/
def EntersNew (world : NameWorld) : NameCall → Prop
  | .enter stack (some dvp) (some name) (some _) _ =>
      makeNamecacheKey stack dvp name ∉ world.names.table
  | _ => True

instance (world : NameWorld) (call : NameCall) : Decidable (world.EntersNew call) := by
  unfold EntersNew
  split <;> infer_instance

theorem next_step {inactive : VnInactive} {guard : NameWorld → NameCall → Bool}
    (world : NameWorld) (call : NameCall) (after : NameWorld)
    (returns : world.next inactive guard call = some after) :
    Guarded (fun world call => guard world call = true) (Step inactive) world call after :=
  permitted_of_eq_some returns

end NameWorld

namespace NameCache

variable {inactive : VnInactive} {names after : NameCache} {vp target : Address}
  {key : List UInt8}

/-- The cache holds a reference for each of its entries. -/
def Balanced (names : NameCache) : Prop :=
  ∀ vp, names.taken vp = names.dropped vp + names.entries vp

theorem ref_effect (returns : names.ref vp = .ok after) :
    after.table = names.table ∧ after.taken = gain names.taken vp ∧
      after.dropped = names.dropped := by
  simp only [ref, bind_eq_ok, pure, Except.pure, Except.ok.injEq] at returns
  rcases returns with ⟨vnodes, _, rfl⟩
  exact ⟨rfl, rfl, rfl⟩

theorem unref_effect (returns : names.unref inactive vp = .ok after) :
    after.table = names.table ∧ after.taken = names.taken ∧
      after.dropped = gain names.dropped vp := by
  simp only [unref, bind_eq_ok, pure, Except.pure, Except.ok.injEq] at returns
  rcases returns with ⟨vnodes, _, rfl⟩
  exact ⟨rfl, rfl, rfl⟩

theorem unrefIf_effect {pointer : Option Address}
    (returns : names.unrefIf inactive pointer = .ok after) :
    after.table = names.table ∧ after.taken = names.taken ∧
      ∀ vp, after.dropped vp = names.dropped vp + if pointer = some vp then 1 else 0 := by
  cases pointer with
  | none =>
      simp only [unrefIf, pure, Except.pure, Except.ok.injEq] at returns
      subst returns
      simp
  | some vp =>
      rcases unref_effect returns with ⟨table, taken, dropped⟩
      refine ⟨table, taken, ?_⟩
      intro target
      simp [dropped, gain, eq_comm]

/-- The pointer that `namecache_remove_locked` finds. -/
theorem fetched_eq (table : Bindings (Option Address)) (key : List UInt8) :
    (if (table.hashtableGet none key).1 = 0 then (table.hashtableGet none key).2 else none) =
      (table.lookup key).join := by
  cases bound : table.lookup key with
  | none => simp [Bindings.hashtableGet, bound]
  | some value => simp [Bindings.hashtableGet, bound]

/-- What `namecache_remove_locked` drops is what the entry held. -/
theorem removeLocked_effect (returns : namecacheRemoveLocked inactive names key = .ok after) :
    after.table = names.table.erase key ∧ after.taken = names.taken ∧
      ∀ vp, after.dropped vp =
        names.dropped vp + if names.table.lookup key = some (some vp) then 1 else 0 := by
  simp only [namecacheRemoveLocked, fetched_eq, bind_eq_ok, pure, Except.pure,
    Except.ok.injEq] at returns
  rcases returns with ⟨unreffed, unrefs, rfl⟩
  rcases unrefIf_effect unrefs with ⟨table, taken, dropped⟩
  refine ⟨by rw [Bindings.hashtableRemove_snd, table], taken, ?_⟩
  intro vp
  simp [dropped, Option.join_eq_some_iff]

theorem Balanced.removeLocked (balanced : names.Balanced)
    (returns : namecacheRemoveLocked inactive names key = .ok after) : after.Balanced := by
  rcases removeLocked_effect returns with ⟨table, taken, dropped⟩
  intro vp
  have before := balanced vp
  have removed := Finmap.multiplicity_erase names.table key (some vp)
  simp only [entries] at before
  rw [taken, dropped, entries, table]
  omega

theorem Balanced.purge {order : List (List UInt8)} (balanced : names.Balanced)
    (returns : namecachePurgeVnodeLocked inactive vp order names = .ok after) :
    after.Balanced := by
  induction order generalizing names with
  | nil =>
      simp only [namecachePurgeVnodeLocked, pure, Except.pure, Except.ok.injEq] at returns
      exact returns ▸ balanced
  | cons key order ih =>
      simp only [namecachePurgeVnodeLocked] at returns
      split at returns
      · rcases bind_eq_ok.mp returns with ⟨removed, removes, rest⟩
        exact ih (balanced.removeLocked removes) rest
      · exact ih balanced returns

/-- A null argument. -/
theorem enter_invalid {stack : NameBuffer} {dvp vp : Option Address} {name : Option CString}
    {room : Bool}
    (missing : ¬∃ directory key target, dvp = some directory ∧ name = some key ∧
      vp = some target) :
    namecacheEnter inactive names stack dvp name vp room = .ok (-einval, names) := by
  simp only [namecacheEnter]
  split
  · rename_i directory key target
    exact absurd ⟨directory, key, target, rfl, rfl, rfl⟩ missing
  · rfl

/-- What `namecache_enter` does to the table and to the references of the cache. -/
theorem enter_effect {stack : NameBuffer} {dvp : Address} {name : CString} {room : Bool}
    {status : ℤ}
    (returns : namecacheEnter inactive names stack (some dvp) (some name) (some vp) room =
      .ok (status, after)) :
    after.taken = gain names.taken vp ∧
    ((status = 0 ∧ after.dropped = names.dropped ∧
        after.table = names.table.insert (makeNamecacheKey stack dvp name) (some vp)) ∨
      (status ≠ 0 ∧ after.dropped = gain names.dropped vp ∧ after.table = names.table ∧
        makeNamecacheKey stack dvp name ∉ names.table)) := by
  simp only [namecacheEnter, bind_eq_ok] at returns
  rcases returns with ⟨reffed, refs, returns⟩
  rcases ref_effect refs with ⟨table, taken, dropped⟩
  rw [table] at returns
  by_cases stored : makeNamecacheKey stack dvp name ∈ names.table ∨ room = true
  · simp only [Bindings.hashtableSet_stores stored, ne_eq, not_true, if_false, pure, Except.pure,
      Except.ok.injEq, Prod.mk.injEq] at returns
    rcases returns with ⟨rfl, rfl⟩
    exact ⟨taken, Or.inl ⟨rfl, dropped, rfl⟩⟩
  · simp only [Bindings.hashtableSet_refuses stored, ne_eq] at returns
    rw [if_pos (by decide)] at returns
    rcases bind_eq_ok.mp returns with ⟨unreffed, unrefs, rest⟩
    simp only [pure, Except.pure, Except.ok.injEq, Prod.mk.injEq] at rest
    rcases rest with ⟨rfl, rfl⟩
    rcases unref_effect unrefs with ⟨tableAfter, takenAfter, droppedAfter⟩
    refine ⟨takenAfter.trans taken, Or.inr ⟨by decide, ?_, tableAfter, fun bound =>
      stored (Or.inl bound)⟩⟩
    rw [droppedAfter, dropped]

theorem Balanced.enter {stack : NameBuffer} {dvp : Address} {name : CString} {room : Bool}
    {status : ℤ} (balanced : names.Balanced)
    (unbound : makeNamecacheKey stack dvp name ∉ names.table)
    (returns : namecacheEnter inactive names stack (some dvp) (some name) (some vp) room =
      .ok (status, after)) : after.Balanced := by
  rcases enter_effect returns with ⟨taken, ⟨_, dropped, table⟩ | ⟨_, dropped, table, _⟩⟩
  · intro target
    have before := balanced target
    simp only [entries] at before
    rw [taken, dropped, entries, table, Finmap.multiplicity_insert_of_notMem unbound]
    simp only [gain, Option.some.injEq, eq_comm]
    omega
  · intro target
    have before := balanced target
    rw [taken, dropped, entries, table]
    simp only [entries] at before
    simp only [gain]
    omega

/-- A hit of `namecache_lookup` gives its caller a reference; a miss changes nothing. -/
theorem lookup_cases {stack : NameBuffer} {dvp : Option Address} {name : Option CString}
    {outVp : Bool} {status : ℤ} {out : Option Address}
    (returns : namecacheLookup names stack dvp name outVp = .ok (status, out, after)) :
    (∃ directory key vp vnodes, dvp = some directory ∧ name = some key ∧
      names.table.lookup (makeNamecacheKey stack directory key) = some (some vp) ∧ status = 0 ∧
      out = some vp ∧ vnodeRef names.vnodes vp = .ok vnodes ∧
      after = { names with vnodes := vnodes }) ∨
    (status ≠ 0 ∧ out = none ∧ after = names) := by
  simp only [namecacheLookup] at returns
  split at returns
  · rename_i directory key
    split at returns
    · rename_i vp found
      left
      rcases bind_eq_ok.mp returns with ⟨vnodes, refs, rest⟩
      simp only [pure, Except.pure, Except.ok.injEq, Prod.mk.injEq] at rest
      rcases rest with ⟨rfl, rfl, rfl⟩
      refine ⟨directory, key, vp, vnodes, rfl, rfl, ?_, rfl, rfl, refs, rfl⟩
      have fetched := fetched_eq names.table (makeNamecacheKey stack directory key)
      rw [found] at fetched
      exact Option.join_eq_some_iff.mp fetched.symm
    · simp only [pure, Except.pure, Except.ok.injEq, Prod.mk.injEq] at returns
      rcases returns with ⟨rfl, rfl, rfl⟩
      exact Or.inr ⟨by decide, rfl, rfl⟩
  · simp only [pure, Except.pure, Except.ok.injEq, Prod.mk.injEq] at returns
    rcases returns with ⟨rfl, rfl, rfl⟩
    exact Or.inr ⟨by decide, rfl, rfl⟩

end NameCache

namespace NameWorld

variable {inactive : VnInactive} {world after : NameWorld} {call : NameCall}

theorem balanced_initial : initial.names.Balanced := by
  intro vp
  simp [initial, NameCache.entries]

/-- What a step can do to the table and to the references of the cache. -/
theorem Step.cases (step : Step inactive world call after) :
    (after.names.table = world.names.table ∧ after.names.taken = world.names.taken ∧
      after.names.dropped = world.names.dropped) ∨
    (∃ stack dvp name vp room status,
      call = .enter stack (some dvp) (some name) (some vp) room ∧
      namecacheEnter inactive world.names stack (some dvp) (some name) (some vp) room =
        .ok (status, after.names)) ∨
    (∃ stack dvp name, call = .remove stack (some dvp) (some name) ∧
      namecacheRemoveLocked inactive world.names (makeNamecacheKey stack dvp name) =
        .ok after.names) ∨
    ∃ vp order, call = .purge (some vp) order ∧
      namecachePurgeVnodeLocked inactive vp order world.names = .ok after.names := by
  rcases step with ⟨_, returns⟩
  cases call with
  | vnode call =>
      simp only [exec, bind_eq_ok, pure, Except.pure, Except.ok.injEq] at returns
      rcases returns with ⟨vnodes, _, rfl⟩
      exact Or.inl ⟨rfl, rfl, rfl⟩
  | lookup stack dvp name outVp =>
      simp only [exec, bind_eq_ok, pure, Except.pure, Except.ok.injEq] at returns
      rcases returns with ⟨⟨status, out, names⟩, looks, rfl⟩
      rcases NameCache.lookup_cases looks with
        ⟨_, _, _, _, _, _, _, _, _, _, rfl⟩ | ⟨_, _, rfl⟩
      · exact Or.inl ⟨rfl, rfl, rfl⟩
      · exact Or.inl ⟨rfl, rfl, rfl⟩
  | enter stack dvp name vp room =>
      simp only [exec, bind_eq_ok, pure, Except.pure, Except.ok.injEq] at returns
      rcases returns with ⟨⟨status, names⟩, enters, rfl⟩
      by_cases given : ∃ directory key target, dvp = some directory ∧ name = some key ∧
          vp = some target
      · rcases given with ⟨directory, key, target, rfl, rfl, rfl⟩
        exact Or.inr (Or.inl ⟨stack, directory, key, target, room, status, rfl, enters⟩)
      · rw [NameCache.enter_invalid given, Except.ok.injEq, Prod.mk.injEq] at enters
        rcases enters with ⟨_, rfl⟩
        exact Or.inl ⟨rfl, rfl, rfl⟩
  | remove stack dvp name =>
      simp only [exec, bind_eq_ok, pure, Except.pure, Except.ok.injEq] at returns
      rcases returns with ⟨names, removes, rfl⟩
      simp only [namecacheRemove] at removes
      split at removes
      · exact Or.inr (Or.inr (Or.inl ⟨_, _, _, rfl, removes⟩))
      · simp only [pure, Except.pure, Except.ok.injEq] at removes
        subst removes
        exact Or.inl ⟨rfl, rfl, rfl⟩
  | purge vp order =>
      simp only [exec, bind_eq_ok, pure, Except.pure, Except.ok.injEq] at returns
      rcases returns with ⟨names, purges, rfl⟩
      cases vp with
      | none =>
          simp only [namecachePurgeVnode, pure, Except.pure, Except.ok.injEq] at purges
          subst purges
          exact Or.inl ⟨rfl, rfl, rfl⟩
      | some vp => exact Or.inr (Or.inr (Or.inr ⟨vp, order, rfl, purges⟩))

theorem Step.balanced (step : Guarded EntersNew (Step inactive) world call after)
    (balanced : world.names.Balanced) : after.names.Balanced := by
  rcases step with ⟨entersNew, step⟩
  rcases step.cases with ⟨table, taken, dropped⟩ |
    ⟨stack, dvp, name, vp, room, status, rfl, enters⟩ | ⟨stack, dvp, name, rfl, removes⟩ |
    ⟨vp, order, rfl, purges⟩
  · intro vp
    rw [taken, dropped, NameCache.entries, table]
    exact balanced vp
  · exact balanced.enter entersNew enters
  · exact balanced.removeLocked removes
  · exact balanced.purge purges

end NameWorld

/-- In every state of a run that enters only names which are not in the cache, the
cache holds as many references to a vnode as it has entries with that value. -/
theorem namecache_references_guarded_runs (inactive : VnInactive) {calls : List NameCall}
    {world : NameWorld}
    (run : Run (Guarded NameWorld.EntersNew (NameWorld.Step inactive)) NameWorld.initial calls
      world)
    (vp : Address) :
    (world.names.taken vp : ℤ) - world.names.dropped vp = world.names.entries vp := by
  have balanced := run.invariant (fun _ _ _ balanced step => NameWorld.Step.balanced step balanced)
    NameWorld.balanced_initial vp
  omega

def zeroBuffer : NameBuffer := ⟨List.replicate (nameMax + 1) 0, List.length_replicate⟩

/-- The name `a`. -/
def nameA : CString := ⟨[97], by decide⟩

/-- The name `b`. -/
def nameB : CString := ⟨[98], by decide⟩

theorem namecache_references_two_names : ∃ world,
    Run (Guarded NameWorld.EntersNew (NameWorld.Step .absent)) NameWorld.initial
      [.vnode (.alloc none .vdir (some 100)), .vnode (.alloc none .vreg (some 200)),
        .enter zeroBuffer (some 100) (some nameA) (some 200) true,
        .enter zeroBuffer (some 100) (some nameB) (some 200) true] world ∧
    (world.names.taken 200 : ℤ) - world.names.dropped 200 = world.names.entries 200 := by
  have returns : (follow (NameWorld.next .absent (fun world call => world.EntersNew call))
      [.vnode (.alloc none .vdir (some 100)), .vnode (.alloc none .vreg (some 200)),
        .enter zeroBuffer (some 100) (some nameA) (some 200) true,
        .enter zeroBuffer (some 100) (some nameB) (some 200) true] NameWorld.initial).isSome := by
    decide +kernel
  rcases Option.isSome_iff_exists.mp returns with ⟨world, follows⟩
  have run : Run (Guarded NameWorld.EntersNew (NameWorld.Step .absent)) _ _ _ :=
    (run_of_follow NameWorld.next_step follows).weaken (fun _ _ => of_decide_eq_true)
  exact ⟨world, run, namecache_references_guarded_runs .absent run 200⟩

/-- A name that is entered twice. -/
theorem namecache_reference_leaks : ∃ calls world,
    Run (NameWorld.Step .absent) NameWorld.initial calls world ∧
    (world.names.taken 200 : ℤ) - world.names.dropped 200 ≠ world.names.entries 200 := by
  have returns : (follow (NameWorld.next .absent (fun _ _ => true))
      [.vnode (.alloc none .vdir (some 100)), .vnode (.alloc none .vreg (some 200)),
        .enter zeroBuffer (some 100) (some nameA) (some 200) true,
        .enter zeroBuffer (some 100) (some nameA) (some 200) true] NameWorld.initial).map
      (fun world => (world.names.taken 200, world.names.dropped 200, world.names.entries 200)) =
        some (2, 0, 1) := by
    decide +kernel
  rcases Option.map_eq_some_iff.mp returns with ⟨world, follows, observed⟩
  simp only [Prod.mk.injEq] at observed
  refine ⟨_, world, (run_of_follow NameWorld.next_step follows).unguard, ?_⟩
  omega

end Goshkik
