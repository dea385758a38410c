import Goshkik.Fs.VnodeCounts
import Goshkik.Lib.Run

/-!
# Runs of the vnode functions

Callers allocate vnodes, take and drop references to them and change their
parents, in any order.  They pass only vnodes that they hold a reference to and
drop only references that they hold.
-/

namespace Goshkik

open Transition VnodeCache

variable {vp : Address} {inactive : VnInactive}

/-- The vnodes with the references that callers hold. -/
structure VnodeWorld where
  cache : VnodeCache
  held : Address → ℕ

inductive VnodeCall where
  | alloc (vfsp : Option Address) (type : Vtype) (slabAlloc : Option Address)
  | ref (vp : Address)
  | unref (vp : Address)
  | setParent (child parent : Option Address) (name : Option CString)
  | clearParent (child : Option Address)

namespace VnodeWorld

def initial : VnodeWorld where
  cache := { vnodes := ∅, freed := [] }
  held := fun _ => 0

def graph (world : VnodeWorld) : RefGraph Address := world.cache.graph world.held

/-- The references to a vnode: those of callers and those of the vnodes whose
parent it is. -/
def references (world : VnodeWorld) (vp : Address) : ℕ :=
  world.held vp +
    (world.cache.vnodes.keys.filter (fun child => world.cache.parentOf child = some vp)).card

/-- Callers pass vnodes they hold a reference to, and the slab allocator hands out
vnodes that are not in use. -/
def Allowed (world : VnodeWorld) : VnodeCall → Prop
  | .alloc _ _ slabAlloc => ∀ vp ∈ slabAlloc, vp ∉ world.cache.vnodes
  | .ref vp => 0 < world.held vp
  | .unref vp => 0 < world.held vp
  | .setParent child parent _ =>
      (∀ vp ∈ child, 0 < world.held vp) ∧ ∀ vp ∈ parent, 0 < world.held vp
  | .clearParent child => ∀ vp ∈ child, 0 < world.held vp

instance (world : VnodeWorld) : (call : VnodeCall) → Decidable (world.Allowed call)
  | .alloc _ _ slabAlloc =>
      inferInstanceAs (Decidable (∀ vp ∈ slabAlloc, vp ∉ world.cache.vnodes))
  | .ref vp => inferInstanceAs (Decidable (0 < world.held vp))
  | .unref vp => inferInstanceAs (Decidable (0 < world.held vp))
  | .setParent child parent _ => inferInstanceAs (Decidable
      ((∀ vp ∈ child, 0 < world.held vp) ∧ ∀ vp ∈ parent, 0 < world.held vp))
  | .clearParent child => inferInstanceAs (Decidable (∀ vp ∈ child, 0 < world.held vp))

/-- Fewer references are outstanding than a count can hold. -/
def Bounded (world : VnodeWorld) : Prop := ∀ vp, world.references vp < 2 ^ 32

def exec (inactive : VnInactive) (world : VnodeWorld) : VnodeCall → Except Trap VnodeWorld
  | .alloc vfsp type slabAlloc =>
      let (vp, cache) := vnodeAlloc world.cache vfsp type slabAlloc
      return { cache := cache, held := gainIf world.held vp }
  | .ref vp => do
      let cache ← vnodeRef world.cache vp
      return { cache := cache, held := gain world.held vp }
  | .unref vp => do
      let cache ← vnodeUnref inactive world.cache vp
      return { cache := cache, held := lose world.held vp }
  | .setParent child parent name => do
      let cache ← vnodeSetParent inactive world.cache child parent name
      return { world with cache := cache }
  | .clearParent child => do
      let cache ← vnodeClearParent inactive world.cache child
      return { world with cache := cache }

/-- The vnode to which a call drops a reference. -/
def dropped (world : VnodeWorld) : VnodeCall → Option Address
  | .alloc _ _ _ => none
  | .ref _ => none
  | .unref vp => some vp
  | .setParent child _ _ => child.bind world.cache.parentOf
  | .clearParent child => child.bind world.cache.parentOf

/-- The vnode whose parent a call sets, with the parent that it gets. -/
def link : VnodeCall → Option (Address × Option Address)
  | .setParent child parent _ => child.map (·, parent)
  | .clearParent child => child.map (·, none)
  | _ => none

def Step (inactive : VnInactive) (world : VnodeWorld) (call : VnodeCall) (after : VnodeWorld) :
    Prop :=
  world.Allowed call ∧ after.Bounded ∧ world.exec inactive call = .ok after

end VnodeWorld

variable {world worldAfter : VnodeWorld} {call : VnodeCall}

namespace VnodeWorld

/-- Every call returns and frees the chain of vnodes that lose their last reference. -/
theorem exec_returns (inactive : VnInactive) (counted : world.cache.Counted world.held)
    (allowed : world.Allowed call) :
    ∃ after chain, world.exec inactive call = .ok after ∧
      world.graph.ReleaseChain (world.dropped call) chain ∧ chain.Nodup ∧
      after.cache.freed = world.cache.freed ++ chain.reverse ∧
      (∀ vp ∈ chain, vp ∈ world.cache.vnodes) ∧
      (∀ vp ∈ world.cache.vnodes, vp ∈ after.cache.vnodes ↔ vp ∉ chain) ∧
      (after.Bounded → after.cache.Counted after.held) := by
  cases call with
  | alloc vfsp type slabAlloc =>
      cases slabAlloc with
      | none =>
          refine ⟨_, [], rfl, .root, by simp, by simp, by simp, by simp, ?_⟩
          intro _
          exact (gainIf_none world.held).symm ▸ counted
      | some vp =>
          refine ⟨_, [], rfl, .root, by simp, by simp, by simp, ?_, ?_⟩
          · intro target mem
            simp [Finmap.mem_insert, mem]
          · intro _
            change (vnodeAlloc world.cache vfsp type (some vp)).2.Counted
              (gainIf world.held (some vp))
            rw [gainIf_some]
            exact vnodeAlloc_counted counted (allowed vp rfl) vfsp type
  | ref vp =>
      rcases vnodeRef_returns counted (counted.mem_of_owed allowed) with
        ⟨after, returns, freed, members, graphs, countedAfter⟩
      refine ⟨⟨after, gain world.held vp⟩, [], ?_, .root, by simp, by simp [freed], by simp, ?_, ?_⟩
      · simp [exec, returns, bind, Except.bind, pure, Except.pure]
      · intro target mem
        simp [members, mem]
      · intro bounded
        have limit : (after.graph (gain world.held vp)).references vp < 2 ^ 32 := bounded vp
        rw [graphs, references_gain, if_pos rfl] at limit
        exact countedAfter limit
  | unref vp =>
      rcases vnodeUnref_returns inactive counted allowed with
        ⟨after, chain, returns, frees, countedAfter⟩
      refine ⟨⟨after, lose world.held vp⟩, chain, ?_, frees.chained, frees.nodup, frees.freed,
        frees.live, ?_,
        fun _ => countedAfter⟩
      · simp [exec, returns, bind, Except.bind, pure, Except.pure]
      · intro target mem
        simp [frees.mem, mem]
  | setParent child parent name =>
      cases child with
      | none => exact ⟨world, [], rfl, .root, by simp, by simp, by simp, by simp, fun _ => counted⟩
      | some child =>
          rcases vnodeSetParent_returns inactive counted (allowed.1 child rfl) allowed.2 name with
            ⟨after, chain, returns, frees, _, countedAfter⟩
          refine ⟨⟨after, world.held⟩, chain, ?_, frees.chained, frees.nodup, frees.freed,
            frees.live, ?_,
            fun bounded => countedAfter (fun target _ => bounded target)⟩
          · simp [exec, returns, bind, Except.bind, pure, Except.pure]
          · intro target mem
            simp [frees.mem, mem]
  | clearParent child =>
      cases child with
      | none => exact ⟨world, [], rfl, .root, by simp, by simp, by simp, by simp, fun _ => counted⟩
      | some child =>
          rcases vnodeClearParent_returns inactive counted (allowed child rfl) with
            ⟨after, chain, returns, frees, countedAfter, _, _⟩
          refine ⟨⟨after, world.held⟩, chain, ?_, frees.chained, frees.nodup, frees.freed,
            frees.live, ?_,
            fun _ => countedAfter⟩
          · simp [exec, returns, bind, Except.bind, pure, Except.pure]
          · intro target mem
            simp [frees.mem, mem]

/-- A call that returns has set the parent. -/
theorem exec_link {child : Address} {parent : Option Address}
    (returns : world.exec inactive call = .ok worldAfter)
    (linked : link call = some (child, parent)) :
    worldAfter.cache.parentOf child = parent := by
  cases call with
  | setParent vp _ name =>
      simp only [link, Option.map_eq_some_iff, Prod.mk.injEq] at linked
      rcases linked with ⟨_, rfl, rfl, rfl⟩
      simp only [exec, bind_eq_ok, pure, Except.pure, Except.ok.injEq] at returns
      rcases returns with ⟨cache, sets, rfl⟩
      exact vnodeSetParent_parentOf sets
  | clearParent vp =>
      simp only [link, Option.map_eq_some_iff, Prod.mk.injEq] at linked
      rcases linked with ⟨_, rfl, rfl, rfl⟩
      simp only [exec, bind_eq_ok, pure, Except.pure, Except.ok.injEq] at returns
      rcases returns with ⟨cache, clears, rfl⟩
      exact vnodeClearParent_parentOf clears
  | alloc _ _ _ => cases linked
  | ref _ => cases linked
  | unref _ => cases linked

/-- The vnode to which a call adds a reference can count one more. -/
def Fits (world : VnodeWorld) : VnodeCall → Prop
  | .ref vp => world.references vp + 1 < 2 ^ 32
  | .setParent _ parent _ => ∀ vp ∈ parent, world.references vp + 1 < 2 ^ 32
  | _ => True

instance (world : VnodeWorld) : (call : VnodeCall) → Decidable (world.Fits call)
  | .alloc _ _ _ => inferInstanceAs (Decidable True)
  | .ref vp => inferInstanceAs (Decidable (world.references vp + 1 < 2 ^ 32))
  | .unref _ => inferInstanceAs (Decidable True)
  | .setParent _ parent _ =>
      inferInstanceAs (Decidable (∀ vp ∈ parent, world.references vp + 1 < 2 ^ 32))
  | .clearParent _ => inferInstanceAs (Decidable True)

/-- Every call that fits returns and keeps the counts. -/
theorem exec_counted (inactive : VnInactive) (counted : world.cache.Counted world.held)
    (allowed : world.Allowed call) (fits : world.Fits call) :
    ∃ after, world.exec inactive call = .ok after ∧ after.cache.Counted after.held := by
  cases call with
  | alloc vfsp type slabAlloc =>
      cases slabAlloc with
      | none => exact ⟨_, rfl, (gainIf_none world.held).symm ▸ counted⟩
      | some vp =>
          exact ⟨_, rfl, (gainIf_some world.held vp).symm ▸
            vnodeAlloc_counted counted (allowed vp rfl) vfsp type⟩
  | ref vp =>
      rcases vnodeRef_returns counted (counted.mem_of_owed allowed) with
        ⟨after, returns, _, _, _, countedAfter⟩
      refine ⟨⟨after, gain world.held vp⟩, ?_, countedAfter fits⟩
      simp [exec, returns, bind, Except.bind, pure, Except.pure]
  | unref vp =>
      rcases vnodeUnref_returns inactive counted allowed with ⟨after, _, returns, _, countedAfter⟩
      refine ⟨⟨after, lose world.held vp⟩, ?_, countedAfter⟩
      simp [exec, returns, bind, Except.bind, pure, Except.pure]
  | setParent child parent name =>
      cases child with
      | none => exact ⟨world, rfl, counted⟩
      | some child =>
          rcases vnodeSetParent_returns inactive counted (allowed.1 child rfl) allowed.2 name with
            ⟨after, _, returns, _, most, countedAfter⟩
          refine ⟨⟨after, world.held⟩, ?_, countedAfter ?_⟩
          · simp [exec, returns, bind, Except.bind, pure, Except.pure]
          · intro target isParent
            have limit := most target
            rw [if_pos (Option.mem_def.mp isParent)] at limit
            exact Nat.lt_of_le_of_lt limit (fits target isParent)
  | clearParent child =>
      cases child with
      | none => exact ⟨world, rfl, counted⟩
      | some child =>
          rcases vnodeClearParent_returns inactive counted (allowed child rfl) with
            ⟨after, _, returns, _, countedAfter, _⟩
          refine ⟨⟨after, world.held⟩, ?_, countedAfter⟩
          simp [exec, returns, bind, Except.bind, pure, Except.pure]

theorem counted_initial : initial.cache.Counted initial.held where
  closed :=
    { parentLive := by simp [initial, VnodeCache.graph]
      owedLive := by simp [initial]
      referenced := by simp [initial, VnodeCache.graph] }
  count := by simp [initial]
  flag := by simp [initial]

theorem Step.counted (step : Step inactive world call worldAfter)
    (counted : world.cache.Counted world.held) : worldAfter.cache.Counted worldAfter.held := by
  rcases step with ⟨allowed, bounded, returns⟩
  rcases exec_returns inactive counted allowed with
    ⟨after, _, returns', _, _, _, _, _, countedAfter⟩
  rw [returns', Except.ok.injEq] at returns
  subst returns
  exact countedAfter bounded

theorem counted_run {calls : List VnodeCall} (run : Run (Step inactive) initial calls world) :
    world.cache.Counted world.held :=
  run.invariant (fun _ _ _ counted step => step.counted counted) counted_initial

end VnodeWorld

/-- In every state of a run the counts are the references to the vnodes, which are
referenced exactly while they are in use; and every call returns, having set the
parent it was to set and freed exactly the vnodes that the references to run out, each
of them once, which are the vnode it drops a reference to and its ancestors as far as
they lose their only one. -/
theorem vnode_reference_counts (inactive : VnInactive) {calls : List VnodeCall}
    (run : Run (VnodeWorld.Step inactive) VnodeWorld.initial calls world) :
    (∀ vp vnode, world.cache.vnodes.lookup vp = some vnode →
      vnode.count.toNat = world.references vp) ∧
    (∀ vp, vp ∈ world.cache.vnodes ↔ 0 < world.references vp) ∧
    ∀ call, world.Allowed call → ∃ after chain, world.exec inactive call = .ok after ∧
      (∀ child parent, VnodeWorld.link call = some (child, parent) →
        after.cache.parentOf child = parent) ∧
      after.cache.freed = world.cache.freed ++ chain.reverse ∧ chain.Nodup ∧
      world.graph.ReleaseChain (world.dropped call) chain ∧
      (after.Bounded → ∀ vp, vp ∈ chain ↔ vp ∈ world.cache.vnodes ∧ after.references vp = 0) := by
  have counted := VnodeWorld.counted_run run
  refine ⟨counted.count, fun vp => counted.references_pos_iff.symm, ?_⟩
  intro call allowed
  rcases VnodeWorld.exec_returns inactive counted allowed with
    ⟨after, chain, returns, chained, nodup, freed, live, members, countedAfter⟩
  refine ⟨after, chain, returns, fun _ _ => VnodeWorld.exec_link returns, freed, nodup, chained, ?_⟩
  intro bounded vp
  have used : 0 < after.references vp ↔ vp ∈ after.cache.vnodes :=
    (countedAfter bounded).references_pos_iff
  constructor
  · intro mem
    refine ⟨live vp mem, ?_⟩
    have gone := mt (members vp (live vp mem)).mp (not_not.mpr mem)
    rw [← used] at gone
    omega
  · rintro ⟨present, unreferenced⟩
    by_contra kept
    have positive := used.mpr ((members vp present).mpr kept)
    omega

theorem VnodeWorld.bounded_of_held {most : ℕ} (held : ∀ vp, world.held vp ≤ most)
    (few : most + world.cache.vnodes.keys.card ≤ 100) : world.Bounded := by
  intro vp
  have children := Finset.card_filter_le world.cache.vnodes.keys
    (fun child => world.cache.parentOf child = some vp)
  have holders := held vp
  simp only [references]
  omega

/-- A directory and a file in it. -/
theorem VnodeWorld.child_run : ∃ world, Run (Step .absent) initial
    [.alloc none .vdir (some 100), .alloc none .vreg (some 200),
      .setParent (some 200) (some 100) none] world := by
  refine ⟨_, .cons ⟨?_, @bounded_of_held _ 1 ?_ ?_, rfl⟩
    (.cons ⟨?_, @bounded_of_held _ 2 ?_ ?_, rfl⟩
      (.cons ⟨?_, @bounded_of_held _ 2 ?_ ?_, rfl⟩ (.nil _)))⟩
  · decide
  · intro vp
    simp only [gainIf, VnodeWorld.initial]
    split <;> omega
  · decide
  · decide
  · intro vp
    simp only [gainIf, VnodeWorld.initial]
    split <;> split <;> omega
  · decide
  · decide
  · intro vp
    simp only [gainIf, VnodeWorld.initial]
    split <;> split <;> omega
  · decide

theorem vnode_reference_counts_child : ∃ world,
    Run (VnodeWorld.Step .absent) VnodeWorld.initial
      [.alloc none .vdir (some 100), .alloc none .vreg (some 200),
        .setParent (some 200) (some 100) none] world ∧
    ∀ vp vnode, world.cache.vnodes.lookup vp = some vnode →
      vnode.count.toNat = world.references vp := by
  rcases VnodeWorld.child_run with ⟨world, run⟩
  exact ⟨world, run, (vnode_reference_counts .absent run).1⟩

end Goshkik
