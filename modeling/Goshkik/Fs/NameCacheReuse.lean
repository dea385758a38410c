import Goshkik.Fs.NameCacheKeys
import Goshkik.Lib.Multiplicity

/-!
# The name cache and vnodes that are freed

A key of the name cache holds the address of a directory without a reference to
it.  When the directory is freed its entries stay, and a vnode that is allocated
at the same address inherits them.

`incarnation` counts how often an address has been handed out, so that an address
and its count identify a vnode, and `entered` records what was entered under which
directory.  Buffers are zeroed here and names fit into them.
-/

namespace Goshkik

open Transition VnodeCache

/-- A vnode in the course of time. -/
abbrev Identity := Address × ℕ

structure ReuseWorld where
  world : NameWorld
  incarnation : Address → ℕ
  entered : List (Identity × CString × Identity)

theorem NameCache.lookup_of_purge {inactive : VnInactive} {names after : NameCache}
    {vp target : Address} {order : List (List UInt8)} {key : List UInt8}
    (returns : namecachePurgeVnodeLocked inactive target order names = .ok after)
    (stored : after.table.lookup key = some (some vp)) :
    names.table.lookup key = some (some vp) := by
  induction order generalizing names with
  | nil =>
      simp only [namecachePurgeVnodeLocked, pure, Except.pure, Except.ok.injEq] at returns
      exact returns ▸ stored
  | cons next order ih =>
      simp only [namecachePurgeVnodeLocked] at returns
      split at returns
      · rcases bind_eq_ok.mp returns with ⟨removed, removes, rest⟩
        have kept := ih rest
        rw [(removeLocked_effect removes).1] at kept
        exact Finmap.lookup_of_erase kept
      · exact ih returns

/-- Every entry after a call was there before or has just been entered. -/
theorem NameWorld.lookup_origin {inactive : VnInactive} {world after : NameWorld}
    {call : NameCall} {key : List UInt8} {vp : Address} (step : Step inactive world call after)
    (stored : after.names.table.lookup key = some (some vp)) :
    world.names.table.lookup key = some (some vp) ∨
    ∃ stack dvp name room, call = .enter stack (some dvp) (some name) (some vp) room ∧
      key = makeNamecacheKey stack dvp name ∧
      namecacheEnter inactive world.names stack (some dvp) (some name) (some vp) room =
        .ok (0, after.names) := by
  rcases step.cases with ⟨table, _, _⟩ | ⟨stack, dvp, name, target, room, status, rfl, enters⟩ |
    ⟨stack, dvp, name, rfl, removes⟩ | ⟨target, order, rfl, purges⟩
  · rw [table] at stored
    exact Or.inl stored
  · rcases NameCache.enter_effect enters with ⟨_, ⟨success, _, table⟩ | ⟨_, _, table, _⟩⟩
    · rw [table] at stored
      by_cases sameKey : key = makeNamecacheKey stack dvp name
      · rw [sameKey, Finmap.lookup_insert, Option.some.injEq, Option.some.injEq] at stored
        subst stored success
        exact Or.inr ⟨stack, dvp, name, room, rfl, sameKey, enters⟩
      · rw [Finmap.lookup_insert_of_ne _ sameKey] at stored
        exact Or.inl stored
    · rw [table] at stored
      exact Or.inl stored
  · rw [(NameCache.removeLocked_effect removes).1] at stored
    exact Or.inl (Finmap.lookup_of_erase stored)
  · exact Or.inl (NameCache.lookup_of_purge purges stored)

namespace ReuseWorld

def initial : ReuseWorld where
  world := NameWorld.initial
  incarnation := fun _ => 0
  entered := []

def identity (reuse : ReuseWorld) (vp : Address) : Identity := (vp, reuse.incarnation vp)

/-- Handing out an address makes it that of another vnode. -/
def reborn (incarnation : Address → ℕ) : NameCall → Address → ℕ
  | .vnode (.alloc _ _ slabAlloc) => gainIf incarnation slabAlloc
  | _ => incarnation

/-- What a call enters into the cache. -/
def recorded (inactive : VnInactive) (reuse : ReuseWorld) :
    NameCall → List (Identity × CString × Identity)
  | .enter stack (some dvp) (some name) (some vp) room =>
      match namecacheEnter inactive reuse.world.names stack (some dvp) (some name) (some vp)
        room with
      | .ok (0, _) => [(reuse.identity dvp, name, reuse.identity vp)]
      | _ => []
  | _ => []

def advance (inactive : VnInactive) (reuse : ReuseWorld) (call : NameCall) (after : NameWorld) :
    ReuseWorld where
  world := after
  incarnation := reborn reuse.incarnation call
  entered := reuse.entered ++ reuse.recorded inactive call

/-- Names that fit, in buffers that were zeroed. -/
def Padded : NameCall → Prop
  | .lookup stack _ name _ => stack = zeroBuffer ∧ ∀ key ∈ name, key.val.length ≤ nameMax
  | .enter stack _ name _ _ => stack = zeroBuffer ∧ ∀ key ∈ name, key.val.length ≤ nameMax
  | .remove stack _ name => stack = zeroBuffer ∧ ∀ key ∈ name, key.val.length ≤ nameMax
  | _ => True

instance : (call : NameCall) → Decidable (Padded call)
  | .vnode _ => inferInstanceAs (Decidable True)
  | .lookup stack _ name _ => inferInstanceAs
      (Decidable (stack = zeroBuffer ∧ ∀ key ∈ name, key.val.length ≤ nameMax))
  | .enter stack _ name _ _ => inferInstanceAs
      (Decidable (stack = zeroBuffer ∧ ∀ key ∈ name, key.val.length ≤ nameMax))
  | .remove stack _ name => inferInstanceAs
      (Decidable (stack = zeroBuffer ∧ ∀ key ∈ name, key.val.length ≤ nameMax))
  | .purge _ _ => inferInstanceAs (Decidable True)

def Step (inactive : VnInactive) (reuse : ReuseWorld) (call : NameCall) (after : ReuseWorld) :
    Prop :=
  Padded call ∧ NameWorld.BoundedStep inactive reuse.world call after.world ∧
    after = reuse.advance inactive call after.world

/-- No name is cached under an address that is handed out. -/
def AllocatesUncached (reuse : ReuseWorld) : NameCall → Prop
  | .vnode (.alloc _ _ (some vp)) => ∀ key ∈ reuse.world.names.table.keys, key.take 8 ≠ wordBytes vp
  | _ => True

instance (reuse : ReuseWorld) (call : NameCall) : Decidable (reuse.AllocatesUncached call) := by
  unfold AllocatesUncached
  split <;> infer_instance

/-- One step, taken where it is allowed and `guard` holds. -/
def next (inactive : VnInactive) (guard : ReuseWorld → NameCall → Bool) (reuse : ReuseWorld)
    (call : NameCall) : Option ReuseWorld :=
  if guard reuse call ∧ Padded call ∧ reuse.world.Fits call then
    (reuse.world.next inactive (fun _ _ => true) call).map (reuse.advance inactive call)
  else none

theorem next_step {inactive : VnInactive} {guard : ReuseWorld → NameCall → Bool}
    (reuse : ReuseWorld) (call : NameCall) (after : ReuseWorld)
    (returns : reuse.next inactive guard call = some after) :
    Guarded (fun reuse call => guard reuse call = true) (Step inactive) reuse call after := by
  simp only [next] at returns
  split at returns
  · rename_i allowed
    rcases Option.map_eq_some_iff.mp returns with ⟨world, steps, rfl⟩
    exact ⟨allowed.1, allowed.2.1, ⟨allowed.2.2, (NameWorld.next_step _ _ _ steps).2⟩, rfl⟩
  · simp at returns

/-- Every entry was entered under the directory and for the vnode that are at its
addresses now. -/
structure Current (reuse : ReuseWorld) : Prop where
  sound : reuse.world.names.Sound reuse.world.held
  entered : ∀ key vp, reuse.world.names.table.lookup key = some (some vp) →
    ∃ dvp name, name.val.length ≤ nameMax ∧ key = makeNamecacheKey zeroBuffer dvp name ∧
      (reuse.identity dvp, name, reuse.identity vp) ∈ reuse.entered

variable {inactive : VnInactive} {reuse after : ReuseWorld} {call : NameCall}

/-- Only `vnode_alloc` makes another vnode of an address. -/
theorem reborn_eq (keeps : ¬∃ vfsp type vp, call = .vnode (.alloc vfsp type (some vp)))
    (incarnation : Address → ℕ) : reborn incarnation call = incarnation := by
  cases call with
  | vnode call =>
      cases call with
      | alloc vfsp type slabAlloc =>
          cases slabAlloc with
          | none => exact gainIf_none incarnation
          | some vp => exact absurd ⟨vfsp, type, vp, rfl⟩ keeps
      | ref vp => rfl
      | unref vp => rfl
      | setParent child parent name => rfl
      | clearParent child => rfl
  | lookup stack dvp name outVp => rfl
  | enter stack dvp name vp room => rfl
  | remove stack dvp name => rfl
  | purge vp order => rfl

theorem take_makeNamecacheKey (stack : NameBuffer) (dvp : Address) (name : CString) :
    (makeNamecacheKey stack dvp name).take 8 = wordBytes dvp := by
  rw [makeNamecacheKey, ← length_wordBytes dvp, List.take_left']
  rfl

/-- Handing out an address at which no directory and no vnode of an entry is. -/
theorem Current.alloc {vp : Address} (current : reuse.Current)
    (sound : after.world.names.Sound after.world.held)
    (fresh : vp ∉ reuse.world.names.vnodes.vnodes)
    (uncached : ∀ key ∈ reuse.world.names.table.keys, key.take 8 ≠ wordBytes vp)
    (incarnation : after.incarnation = gain reuse.incarnation vp)
    (recorded : after.entered = reuse.entered)
    (table : after.world.names.table = reuse.world.names.table) : after.Current where
  sound := sound
  entered := by
    intro key target stored
    rw [table] at stored
    rcases current.entered key target stored with ⟨dvp, name, short, keyEq, mem⟩
    have directory : dvp ≠ vp := by
      rintro rfl
      apply uncached key (Finmap.mem_keys.mpr (Finmap.mem_iff.mpr ⟨_, stored⟩))
      rw [keyEq, take_makeNamecacheKey]
    have value : target ≠ vp := by
      rintro rfl
      exact fresh (current.sound.mem stored)
    refine ⟨dvp, name, short, keyEq, ?_⟩
    simpa [recorded, identity, incarnation, gain, directory, value] using mem

theorem Step.current (step : Guarded AllocatesUncached (Step inactive) reuse call after)
    (current : reuse.Current) : after.Current := by
  rcases step with ⟨uncached, padded, bounded, advances⟩
  have sound := bounded.sound current.sound
  have incarnation : after.incarnation = reborn reuse.incarnation call := by
    rw [advances]
    rfl
  have entered : after.entered = reuse.entered ++ reuse.recorded inactive call := by
    rw [advances]
    rfl
  by_cases allocates : ∃ vfsp type vp, call = .vnode (.alloc vfsp type (some vp))
  · rcases allocates with ⟨vfsp, type, vp, rfl⟩
    rcases bounded.2.cases with ⟨table, _, _⟩ | ⟨_, _, _, _, _, _, absurdity, _⟩ |
      ⟨_, _, _, absurdity, _⟩ | ⟨_, _, absurdity, _⟩
    · apply current.alloc sound (bounded.2.1 vp rfl) uncached _ _ table
      · rw [incarnation]
        exact gainIf_some reuse.incarnation vp
      · simp [entered, recorded]
    · cases absurdity
    · cases absurdity
    · cases absurdity
  · rw [reborn_eq allocates] at incarnation
    have same : ∀ vp, after.identity vp = reuse.identity vp := by
      intro vp
      simp [identity, incarnation]
    refine ⟨sound, ?_⟩
    intro key vp stored
    rcases NameWorld.lookup_origin bounded.2 stored with
      before | ⟨stack, dvp, name, room, rfl, keyEq, enters⟩
    · rcases current.entered key vp before with ⟨dvp, name, short, keyEq, mem⟩
      refine ⟨dvp, name, short, keyEq, ?_⟩
      rw [same, same, entered]
      exact List.mem_append_left _ mem
    · rcases padded with ⟨rfl, short⟩
      refine ⟨dvp, name, short name rfl, keyEq, ?_⟩
      rw [same, same, entered]
      apply List.mem_append_right
      simp [recorded, enters]

theorem current_initial : initial.Current where
  sound := NameWorld.sound_initial
  entered := by
    intro key vp stored
    simp [initial, NameWorld.initial] at stored

end ReuseWorld

/-- In every state of a run in which no address is handed out under which names are
cached, what `namecache_lookup` finds was entered for that name under the directory
that is at its address now. -/
theorem namecache_current_guarded_runs (inactive : VnInactive) {calls : List NameCall}
    {reuse : ReuseWorld}
    (run : Run (Guarded ReuseWorld.AllocatesUncached (ReuseWorld.Step inactive)) ReuseWorld.initial
      calls reuse) (dvp : Address) (name : CString) (short : name.val.length ≤ nameMax)
    (vp : Option Address) (names : NameCache)
    (finds : namecacheLookup reuse.world.names zeroBuffer (some dvp) (some name) true =
      .ok (0, vp, names)) :
    ∃ target, vp = some target ∧
      (reuse.identity dvp, name, reuse.identity target) ∈ reuse.entered := by
  have current := run.invariant (fun _ _ _ current step => ReuseWorld.Step.current step current)
    ReuseWorld.current_initial
  rcases NameCache.lookup_cases finds with
    ⟨directory, key, target, _, directoryEq, keyEq, stored, _, rfl, _⟩ | ⟨failed, _⟩
  · cases directoryEq
    cases keyEq
    rcases current.entered _ target stored with ⟨dvp', name', short', sameKey, mem⟩
    rcases (makeNamecacheKey_eq_iff short short').mp sameKey with ⟨rfl, rfl, _⟩
    exact ⟨target, rfl, mem⟩
  · exact absurd rfl failed

/-- The code and the pointer of a lookup of the name `a` under the directory at 100. -/
def ReuseWorld.found (reuse : ReuseWorld) : Option (ℤ × Option Address) :=
  (namecacheLookup reuse.world.names zeroBuffer (some 100) (some nameA) true).toOption.map
    (fun answer => (answer.1, answer.2.1))

theorem ReuseWorld.lookup_of_found {reuse : ReuseWorld} {status : ℤ} {vp : Option Address}
    (found : reuse.found = some (status, vp)) :
    ∃ names, namecacheLookup reuse.world.names zeroBuffer (some 100) (some nameA) true =
      .ok (status, vp, names) := by
  simp only [ReuseWorld.found, Option.map_eq_some_iff, Prod.mk.injEq] at found
  rcases found with ⟨⟨code, out, names⟩, returns, rfl, rfl⟩
  refine ⟨names, ?_⟩
  cases result : namecacheLookup reuse.world.names zeroBuffer (some 100) (some nameA) true with
  | error trap => simp [result, Except.toOption] at returns
  | ok answer =>
      simp only [result, Except.toOption, Option.some.injEq] at returns
      rw [returns]

theorem namecache_current_first_directory : ∃ reuse names,
    Run (Guarded ReuseWorld.AllocatesUncached (ReuseWorld.Step .absent)) ReuseWorld.initial
      [.vnode (.alloc none .vdir (some 100)), .vnode (.alloc none .vreg (some 200)),
        .enter zeroBuffer (some 100) (some nameA) (some 200) true] reuse ∧
    namecacheLookup reuse.world.names zeroBuffer (some 100) (some nameA) true =
      .ok (0, some 200, names) ∧
    ∃ target, some 200 = some target ∧
      (reuse.identity 100, nameA, reuse.identity target) ∈ reuse.entered := by
  have returns : (follow (ReuseWorld.next .absent (fun reuse call => reuse.AllocatesUncached call))
      [.vnode (.alloc none .vdir (some 100)), .vnode (.alloc none .vreg (some 200)),
        .enter zeroBuffer (some 100) (some nameA) (some 200) true] ReuseWorld.initial).map
      ReuseWorld.found = some (some (0, some 200)) := by
    decide +kernel
  rcases Option.map_eq_some_iff.mp returns with ⟨reuse, follows, found⟩
  rcases ReuseWorld.lookup_of_found found with ⟨names, finds⟩
  have run : Run (Guarded ReuseWorld.AllocatesUncached (ReuseWorld.Step .absent)) _ _ _ :=
    (run_of_follow ReuseWorld.next_step follows).weaken (fun _ _ => of_decide_eq_true)
  exact ⟨reuse, names, run, finds,
    namecache_current_guarded_runs .absent run 100 nameA (by decide) (some 200) names finds⟩

/-- A name that was entered under a directory which has been freed since. -/
theorem namecache_finds_stale : ∃ calls reuse names,
    Run (ReuseWorld.Step .absent) ReuseWorld.initial calls reuse ∧
    namecacheLookup reuse.world.names zeroBuffer (some 100) (some nameA) true =
      .ok (0, some 200, names) ∧
    (reuse.identity 100, nameA, reuse.identity 200) ∉ reuse.entered := by
  have returns : (follow (ReuseWorld.next .absent (fun _ _ => true))
      [.vnode (.alloc none .vdir (some 100)), .vnode (.alloc none .vreg (some 200)),
        .enter zeroBuffer (some 100) (some nameA) (some 200) true, .vnode (.unref 100),
        .vnode (.alloc none .vdir (some 100))] ReuseWorld.initial).map
      (fun reuse => (reuse.found,
        decide ((reuse.identity 100, nameA, reuse.identity 200) ∈ reuse.entered))) =
        some (some (0, some 200), false) := by
    decide +kernel
  rcases Option.map_eq_some_iff.mp returns with ⟨reuse, follows, observed⟩
  rw [Prod.mk.injEq] at observed
  rcases ReuseWorld.lookup_of_found observed.1 with ⟨names, finds⟩
  exact ⟨_, reuse, names, (run_of_follow ReuseWorld.next_step follows).unguard, finds,
    of_decide_eq_false observed.2⟩

end Goshkik
