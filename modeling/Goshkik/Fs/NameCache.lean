import Goshkik.Errno
import Goshkik.Fs.VnodeCounts
import Goshkik.Lib.Multiplicity
import Goshkik.Memory.HashtableMap

/-!
# The name cache

This file models the name cache of `fs/vfs/path.c`.  Its key is a structure of the
directory's address and a buffer for the name, hashed and compared as a whole.
`make_namecache_key` fills a structure on the stack that nothing has initialised,
so the bytes that the buffer holds before are an argument of every call.

`taken` and `dropped` count the calls of `vnode_ref` and `vnode_unref` that the
cache makes on its own behalf; the reference that `namecache_lookup` takes belongs
to its caller.  `namecache_purge_vnode` walks the buckets, and the order in which
they list the keys is an argument.  After it has removed an entry it starts the
bucket again, and finds nothing to remove among the entries it has passed before.
-/

namespace Goshkik

open VnodeCache

/-- The buffer for a name, with whatever it holds. -/
abbrev NameBuffer := { bytes : List UInt8 // bytes.length = nameMax + 1 }

def makeNamecacheKey (stack : NameBuffer) (dvp : Address) (name : CString) : List UInt8 :=
  wordBytes dvp ++ strlcpy stack name

structure NameCache where
  vnodes : VnodeCache
  table : Bindings (Option Address)
  taken : Address → ℕ
  dropped : Address → ℕ

namespace NameCache

def ref (names : NameCache) (vp : Address) : Except Trap NameCache := do
  let vnodes ← vnodeRef names.vnodes vp
  return { names with vnodes := vnodes, taken := gain names.taken vp }

def unref (inactive : VnInactive) (names : NameCache) (vp : Address) : Except Trap NameCache := do
  let vnodes ← vnodeUnref inactive names.vnodes vp
  return { names with vnodes := vnodes, dropped := gain names.dropped vp }

/-- Drop a reference of the cache unless the pointer is null. -/
def unrefIf (inactive : VnInactive) (names : NameCache) (vp : Option Address) :
    Except Trap NameCache :=
  match vp with
  | none => return names
  | some vp => names.unref inactive vp

/-- The number of entries whose value is a vnode. -/
def entries (names : NameCache) (vp : Address) : ℕ := names.table.multiplicity (some vp)

end NameCache

/-- The result is the returned code with what is written to `*out_vp`. -/
def namecacheLookup (names : NameCache) (stack : NameBuffer) (dvp : Option Address)
    (name : Option CString) (outVp : Bool) : Except Trap (ℤ × Option Address × NameCache) :=
  match dvp, name, outVp with
  | some dvp, some name, true =>
      match names.table.hashtableGet none (makeNamecacheKey stack dvp name) with
      | (0, some vp) => do
          let vnodes ← vnodeRef names.vnodes vp
          return (0, some vp, { names with vnodes := vnodes })
      | _ => return (-enoent, none, names)
  | _, _, _ => return (-einval, none, names)

def namecacheEnter (inactive : VnInactive) (names : NameCache) (stack : NameBuffer)
    (dvp : Option Address) (name : Option CString) (vp : Option Address) (room : Bool) :
    Except Trap (ℤ × NameCache) :=
  match dvp, name, vp with
  | some dvp, some name, some vp => do
      let names ← names.ref vp
      let (status, table) :=
        names.table.hashtableSet (some vp) (makeNamecacheKey stack dvp name) room
      let names := { names with table := table }
      if status ≠ 0 then
        let names ← names.unref inactive vp
        return (status, names)
      else return (0, names)
  | _, _, _ => return (-einval, names)

def namecacheRemoveLocked (inactive : VnInactive) (names : NameCache) (key : List UInt8) :
    Except Trap NameCache := do
  let (status, vp) := names.table.hashtableGet none key
  let names ← names.unrefIf inactive (if status = 0 then vp else none)
  return { names with table := (names.table.hashtableRemove key).2 }

def namecacheRemove (inactive : VnInactive) (names : NameCache) (stack : NameBuffer)
    (dvp : Option Address) (name : Option CString) : Except Trap NameCache :=
  match dvp, name with
  | some dvp, some name => namecacheRemoveLocked inactive names (makeNamecacheKey stack dvp name)
  | _, _ => return names

def namecachePurgeVnodeLocked (inactive : VnInactive) (vp : Address) :
    List (List UInt8) → NameCache → Except Trap NameCache
  | [], names => return names
  | key :: order, names =>
      if names.table.lookup key = some (some vp) then do
        let names ← namecacheRemoveLocked inactive names key
        namecachePurgeVnodeLocked inactive vp order names
      else namecachePurgeVnodeLocked inactive vp order names

def namecachePurgeVnode (inactive : VnInactive) (names : NameCache) (vp : Option Address)
    (order : List (List UInt8)) : Except Trap NameCache :=
  match vp with
  | none => return names
  | some vp => namecachePurgeVnodeLocked inactive vp order names

end Goshkik
