import Goshkik.Errno
import Goshkik.Fs.Vnode
import Goshkik.Memory.HashtableMap

/-!
# The vnode table

This file models the table of vnodes of `fs/vfs/vnode.c`, keyed by a filesystem
and the number of a node in it, and the functions that use it.

What the filesystem's `vfs_vget` answers is an argument of `vnodeGet`: unless it
fails it calls `vnode_alloc`.  `recheckInsert` is the part of `vnode_get` between
taking the lock of the table the second time and releasing it.

`vnode_cache_lookup` has a pointer for its result but never writes through it, so
a caller finds there what it has stored before.  `vfs_purge_vnodes` collects the
node numbers of a filesystem from the buckets, whose order is an argument, and
looks each of them up again.
-/

namespace Goshkik

def createVnodeKey (vfsp : Address) (nodeid : UInt64) : List UInt8 :=
  wordBytes vfsp ++ wordBytes nodeid

theorem createVnodeKey_injective {vfsp otherVfsp : Address} {nodeid otherNodeid : UInt64}
    (same : createVnodeKey vfsp nodeid = createVnodeKey otherVfsp otherNodeid) :
    vfsp = otherVfsp ∧ nodeid = otherNodeid := by
  have lengths : (wordBytes vfsp).length = (wordBytes otherVfsp).length := by
    rw [length_wordBytes, length_wordBytes]
  rcases List.append_inj same lengths with ⟨vfsps, nodeids⟩
  exact ⟨wordBytes_injective vfsps, wordBytes_injective nodeids⟩

structure VnodeTable where
  vnodes : VnodeCache
  table : Bindings (Option Address)

/-- The vnode that the table has for a node. -/
def VnodeTable.stored (state : VnodeTable) (vfsp : Address) (nodeid : UInt64) : Option Address :=
  (state.table.lookup (createVnodeKey vfsp nodeid)).join

def vnodeCacheInsertLocked (state : VnodeTable) (vfsp : Address) (nodeid : UInt64) (vp : Address)
    (room : Bool) : ℤ × VnodeTable :=
  let (ret, table) := state.table.hashtableSet (some vp) (createVnodeKey vfsp nodeid) room
  (ret, { state with table := table })

def vnodeCacheLookupLocked (state : VnodeTable) (vfsp : Address) (nodeid : UInt64)
    (old : Option Address) : ℤ × Option Address :=
  state.table.hashtableGet old (createVnodeKey vfsp nodeid)

def vnodeCacheRemoveLocked (state : VnodeTable) (vfsp : Address) (nodeid : UInt64) :
    ℤ × VnodeTable :=
  let (ret, table) := state.table.hashtableRemove (createVnodeKey vfsp nodeid)
  (ret, { state with table := table })

def vnodeCacheInsert (state : VnodeTable) (vfsp : Option Address) (nodeid : UInt64)
    (vp : Option Address) (room : Bool) : ℤ × VnodeTable :=
  match vfsp, vp with
  | some vfsp, some vp =>
      match vnodeCacheLookupLocked state vfsp nodeid none with
      | (0, some _) => (-eexist, state)
      | _ => vnodeCacheInsertLocked state vfsp nodeid vp room
  | _, _ => (-einval, state)

/-- The result is the returned code with what `*out_vp` holds. -/
def vnodeCacheLookup (state : VnodeTable) (vfsp : Option Address) (nodeid : UInt64)
    (outVp : Option (Option Address)) : Except Trap (ℤ × Option Address × VnodeTable) :=
  match vfsp, outVp with
  | some vfsp, some old =>
      match vnodeCacheLookupLocked state vfsp nodeid none with
      | (0, some vp) => do
          let vnodes ← vnodeRef state.vnodes vp
          return (0, old, { state with vnodes := vnodes })
      | _ => return (-enoent, old, state)
  | _, outVp => return (-einval, outVp.join, state)

def vnodeCacheRemove (state : VnodeTable) (vfsp : Option Address) (nodeid : UInt64) :
    ℤ × VnodeTable :=
  match vfsp with
  | some vfsp => vnodeCacheRemoveLocked state vfsp nodeid
  | none => (-einval, state)

/-- An answer of `vfs_vget`: its code and, where that is zero, a call of `vnode_alloc`. -/
structure Vget where
  ret : ℤ
  type : Vtype
  slabAlloc : Option Address

/-- The result is the vnode that was in the table already. -/
def recheckInsert (state : VnodeTable) (vfsp : Address) (nodeid : UInt64) (vp : Address)
    (room : Bool) : Except Trap (Option Address × VnodeTable) :=
  match vnodeCacheLookupLocked state vfsp nodeid none with
  | (0, some existing) => do
      let vnodes ← vnodeRef state.vnodes existing
      return (some existing, { state with vnodes := vnodes })
  | _ => return (none, (vnodeCacheInsertLocked state vfsp nodeid vp room).2)

/-- The part of `vnode_get` behind a successful call of `vfs_vget`. -/
def vnodeGetFresh (inactive : VnInactive) (state : VnodeTable) (vfsp : Address) (nodeid : UInt64)
    (vp : Address) (room : Bool) : Except Trap (ℤ × Option (Option Address) × VnodeTable) := do
  let vnodes ← state.vnodes.modify vp (fun vnode => { vnode with vfsp := some vfsp })
  let (existing, state) ← recheckInsert { state with vnodes := vnodes } vfsp nodeid vp room
  match existing with
  | some existing =>
      let vnodes ← vnodeUnref inactive state.vnodes vp
      return (0, some (some existing), { state with vnodes := vnodes })
  | none => return (0, some (some vp), state)

/-- The result is the returned code with what is written to `*out`; `vget` is null
where the filesystem has no such function. -/
def vnodeGet (inactive : VnInactive) (state : VnodeTable) (vfsp : Option Address) (out : Bool)
    (nodeid : UInt64) (vget : Option Vget) (room : Bool) :
    Except Trap (ℤ × Option (Option Address) × VnodeTable) :=
  match vfsp, out with
  | some vfsp, true => do
      let (ret, vp, state) ← vnodeCacheLookup state (some vfsp) nodeid (some none)
      if ret = 0 then return (ret, some vp, state)
      else
        match vget with
        | none => return (-enosys, none, state)
        | some vget =>
            if vget.ret ≠ 0 then return (vget.ret, none, state)
            else
              match vnodeAlloc state.vnodes (some vfsp) vget.type vget.slabAlloc with
              | (none, _) => return (-eio, none, state)
              | (some vp, vnodes) =>
                  vnodeGetFresh inactive { state with vnodes := vnodes } vfsp nodeid vp room
  | _, _ => return (-einval, none, state)

def vnodePut (inactive : VnInactive) (state : VnodeTable) (vp : Option Address) :
    Except Trap VnodeTable :=
  match vp with
  | none => return state
  | some vp => do
      let vnodes ← vnodeUnref inactive state.vnodes vp
      return { state with vnodes := vnodes }

/-- The body of the loop of `vfs_purge_vnodes`. -/
def purgeKey (inactive : VnInactive) (state : VnodeTable) (key : List UInt8) :
    Except Trap VnodeTable :=
  match state.table.hashtableGet none key with
  | (0, some vp) =>
      match state.table.hashtableRemove key with
      | (0, table) => do
          let vnodes ← vnodeUnref inactive state.vnodes vp
          return { vnodes := vnodes, table := table }
      | (_, table) => return { state with table := table }
  | _ => return { state with table := (state.table.hashtableRemove key).2 }

def purgeKeys (inactive : VnInactive) : List (List UInt8) → VnodeTable → Except Trap VnodeTable
  | [], state => return state
  | key :: keys, state => do
      let state ← purgeKey inactive state key
      purgeKeys inactive keys state

/-- The keys of a filesystem, made again from the node numbers in `nodeids`. -/
def keysOf (vfsp : Address) (order : List (List UInt8)) : List (List UInt8) :=
  (order.filter (fun key => key.take 8 = wordBytes vfsp)).map
    (fun key => wordBytes vfsp ++ key.drop 8)

/-- The keys made from the node numbers are the keys they were taken from. -/
theorem keysOf_eq (vfsp : Address) (order : List (List UInt8)) :
    keysOf vfsp order = order.filter (fun key => key.take 8 = wordBytes vfsp) := by
  simp only [keysOf]
  refine (List.map_congr_left ?_).trans (List.map_id _)
  intro key mem
  have own : key.take 8 = wordBytes vfsp := by
    simpa using (List.mem_filter.mp mem).2
  rw [← own, id, List.take_append_drop]

def vfsPurgeVnodes (inactive : VnInactive) (state : VnodeTable) (vfsp : Option Address)
    (order : List (List UInt8)) (kmalloc : Bool) : Except Trap VnodeTable :=
  match vfsp with
  | none => return state
  | some vfsp =>
      if keysOf vfsp order = [] then return state
      else if !kmalloc then return state
      else purgeKeys inactive (keysOf vfsp order) state

end Goshkik
