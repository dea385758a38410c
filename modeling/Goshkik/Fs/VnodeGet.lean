import Goshkik.Fs.Parentless
import Goshkik.Fs.VnodeTable
import Goshkik.Lib.Run

/-!
# Concurrent calls of `vnode_get`

The body of `vnode_get` takes the lock of the table twice.  A call goes through its
cache lookup, the call of `vfs_vget`, the re-check with the insertion and, where
another call has been faster, dropping its own vnode; each of these is one step, and
the steps of different calls come in any order.

A call that finds its node in the table returns zero and a null pointer, and a call
that fails to insert its vnode returns it all the same.  As long as neither happens
all calls for a node return the vnode that the first of them has inserted.

Calls with a null argument return at once and are left out.
-/

namespace Goshkik

open Transition VnodeCache

/-- Where a call of `vnode_get` is: `dropping` has a vnode of its own left to drop. -/
inductive GetPhase where
  | looking
  | fetching
  | checking (vp : Address)
  | dropping (vp existing : Address)
  | returned (code : ℤ) (out : Option (Option Address))
  deriving DecidableEq

structure GetCall where
  vfsp : Address
  nodeid : UInt64
  phase : GetPhase
  deriving DecidableEq

structure GetWorld where
  state : VnodeTable
  calls : List GetCall

/-- A call starts, or the call at an index does its next step.  `vget` and `room` are
what `vfs_vget` and the allocator answer if the step asks them. -/
inductive GetStep where
  | start (vfsp : Address) (nodeid : UInt64)
  | run (index : ℕ) (vget : Option Vget) (room : Bool)

/-- The part of `vnode_get` between the two critical sections. -/
def fetchVnode (state : VnodeTable) (vfsp : Address) (vget : Option Vget) :
    Except Trap (VnodeTable × GetPhase) :=
  match vget with
  | none => return (state, .returned (-enosys) none)
  | some vget =>
      if vget.ret ≠ 0 then return (state, .returned vget.ret none)
      else
        match vnodeAlloc state.vnodes (some vfsp) vget.type vget.slabAlloc with
        | (none, _) => return (state, .returned (-eio) none)
        | (some vp, vnodes) => do
            let vnodes ← vnodes.modify vp (fun vnode => { vnode with vfsp := some vfsp })
            return ({ state with vnodes := vnodes }, .checking vp)

/-- The next step of a call. -/
def GetCall.advance (inactive : VnInactive) (state : VnodeTable) (call : GetCall)
    (vget : Option Vget) (room : Bool) : Except Trap (VnodeTable × GetPhase) :=
  match call.phase with
  | .looking => do
      let (ret, vp, state) ← vnodeCacheLookup state (some call.vfsp) call.nodeid (some none)
      return (state, if ret = 0 then .returned ret (some vp) else .fetching)
  | .fetching => fetchVnode state call.vfsp vget
  | .checking vp => do
      let (existing, state) ← recheckInsert state call.vfsp call.nodeid vp room
      return (state, existing.elim (.returned 0 (some (some vp))) (.dropping vp))
  | .dropping vp existing => do
      let vnodes ← vnodeUnref inactive state.vnodes vp
      return ({ state with vnodes := vnodes }, .returned 0 (some (some existing)))
  | .returned code out => return (state, .returned code out)

namespace GetWorld

def initial : GetWorld where
  state := { vnodes := { vnodes := ∅, freed := [] }, table := ∅ }
  calls := []

/-- The call at an index has come to another phase. -/
def proceed (world : GetWorld) (index : ℕ) (call : GetCall) (state : VnodeTable)
    (phase : GetPhase) : GetWorld where
  state := state
  calls := world.calls.set index { call with phase := phase }

def exec (inactive : VnInactive) (world : GetWorld) : GetStep → Except Trap GetWorld
  | .start vfsp nodeid =>
      return { world with
        calls := world.calls ++ [{ vfsp := vfsp, nodeid := nodeid, phase := .looking }] }
  | .run index vget room =>
      match world.calls[index]? with
      | none => return world
      | some call => do
          let (state, phase) ← call.advance inactive world.state vget room
          return world.proceed index call state phase

/-- The slab allocator hands out vnodes that are not in use. -/
def Allowed (world : GetWorld) : GetStep → Prop
  | .start _ _ => True
  | .run _ vget _ => ∀ vp ∈ vget.bind Vget.slabAlloc, vp ∉ world.state.vnodes.vnodes

instance (world : GetWorld) : (step : GetStep) → Decidable (world.Allowed step)
  | .start _ _ => inferInstanceAs (Decidable True)
  | .run _ vget _ => inferInstanceAs
      (Decidable (∀ vp ∈ vget.bind Vget.slabAlloc, vp ∉ world.state.vnodes.vnodes))

def Step (inactive : VnInactive) (world : GetWorld) (step : GetStep) (after : GetWorld) : Prop :=
  world.Allowed step ∧ world.exec inactive step = .ok after

end GetWorld

/-- The lookup of a call does not find its node, and the insertion succeeds. -/
def GetCall.Smooth (state : VnodeTable) (call : GetCall) (room : Bool) : Prop :=
  match call.phase with
  | .looking => state.stored call.vfsp call.nodeid = none
  | .checking _ =>
      match state.stored call.vfsp call.nodeid with
      | none => room = true
      | some existing => state.vnodes.countOf existing + 1 < 2 ^ 32
  | _ => True

instance (state : VnodeTable) (call : GetCall) (room : Bool) :
    Decidable (call.Smooth state room) := by
  unfold GetCall.Smooth
  split
  · infer_instance
  · split <;> infer_instance
  · infer_instance

namespace GetWorld

/-- The call that takes the step meets neither of the two. -/
def Smooth (world : GetWorld) : GetStep → Prop
  | .start _ _ => True
  | .run index _ room => ∀ call ∈ world.calls[index]?, call.Smooth world.state room

instance (world : GetWorld) : (step : GetStep) → Decidable (world.Smooth step)
  | .start _ _ => inferInstanceAs (Decidable True)
  | .run index _ room =>
      inferInstanceAs (Decidable (∀ call ∈ world.calls[index]?, call.Smooth world.state room))

/-- One step, taken where it is allowed and `guard` holds. -/
def next (inactive : VnInactive) (guard : GetWorld → GetStep → Bool) (world : GetWorld)
    (step : GetStep) : Option GetWorld :=
  if guard world step ∧ world.Allowed step then (world.exec inactive step).toOption else none

end GetWorld

end Goshkik
