import Mathlib.Data.Finmap
import Goshkik.Fs.Bytes

/-!
# Vnodes

This file models the vnodes of `fs/vfs/vnode.c`.  A vnode is a record behind an
address, and `vnodes` holds those that the slab allocator has handed out and not
taken back.  `freed` lists the vnodes in the order in which they were given back.

A call that does not return stops with a `Trap`: it reads a vnode that the slab
allocator has taken back, or it runs into `hcf`.  `vnode_unref` and `vnode_free`
call each other along the parents of a vnode; the model runs them on fuel.

The answer of `slab_alloc` is an argument of `vnodeAlloc`.  The callback
`vn_inactive` belongs to the filesystem; what is asked of it is that it leaves
the reference counts and what they count alone.
-/

namespace Goshkik

abbrev Address := UInt64

/-- What holds of a pointer unless it is null is decided by looking at the pointer, not
at every address. -/
instance (priority := 2000) decidableForallPointer {property : Address → Prop}
    [DecidablePred property] (pointer : Option Address) : Decidable (∀ vp ∈ pointer, property vp) :=
  Option.decidableForallMem pointer

instance (priority := 2000) decidableForallAddress {property : Address → Prop}
    [DecidablePred property] (vnodes : Finset Address) : Decidable (∀ vp ∈ vnodes, property vp) :=
  Finset.decidableDforallFinset

def nameMax : ℕ := 255

def vfreeing : UInt32 := 0x08

inductive Vtype where
  | vnon | vreg | vdir | vblk | vchr | vlnk | vsck | vbad
  deriving DecidableEq

structure Vnode where
  flag : UInt32
  count : UInt32
  parent : Option Address
  name : List UInt8
  vfsp : Option Address
  type : Vtype
  data : Option Address
  deriving DecidableEq

/-- The part of a vnode that reference counting is about. -/
def Vnode.links (vnode : Vnode) : UInt32 × UInt32 × Option Address :=
  (vnode.flag, vnode.count, vnode.parent)

inductive Trap where
  | dangling
  | halt
  | fuel
  deriving DecidableEq

/-- A sequence of two calls returns if both do. -/
theorem bind_eq_ok {First Second : Type} {first : Except Trap First}
    {next : First → Except Trap Second} {result : Second} :
    (first >>= next) = .ok result ↔ ∃ middle, first = .ok middle ∧ next middle = .ok result := by
  cases first with
  | error trap => simp [bind, Except.bind]
  | ok middle => simp [bind, Except.bind]

structure VnodeCache where
  vnodes : Finmap (fun _ : Address => Vnode)
  freed : List Address

namespace VnodeCache

def vnode (cache : VnodeCache) (vp : Address) : Except Trap Vnode :=
  match cache.vnodes.lookup vp with
  | none => .error .dangling
  | some vnode => .ok vnode

/-- Update the vnode behind a pointer. -/
def modify (cache : VnodeCache) (vp : Address) (update : Vnode → Vnode) :
    Except Trap VnodeCache := do
  let vnode ← cache.vnode vp
  return { cache with vnodes := cache.vnodes.insert vp (update vnode) }

def slabFree (cache : VnodeCache) (vp : Address) : VnodeCache where
  vnodes := cache.vnodes.erase vp
  freed := cache.freed ++ [vp]

end VnodeCache

/-- The callback `vn_inactive`, which does not touch reference counts. -/
structure VnInactive where
  run : VnodeCache → Address → VnodeCache
  links_run : ∀ cache vp target,
    ((run cache vp).vnodes.lookup target).map Vnode.links =
      (cache.vnodes.lookup target).map Vnode.links
  freed_run : ∀ cache vp, (run cache vp).freed = cache.freed

/-- A filesystem that has no `vn_inactive`. -/
def VnInactive.absent : VnInactive where
  run := fun cache _ => cache
  links_run := fun _ _ _ => rfl
  freed_run := fun _ _ => rfl

def vnodeRef (cache : VnodeCache) (vp : Address) : Except Trap VnodeCache :=
  cache.modify vp (fun vnode => { vnode with count := vnode.count + 1 })

/-- Reference the vnode behind a pointer unless it is null. -/
def vnodeRefIf (cache : VnodeCache) (vp : Option Address) : Except Trap VnodeCache :=
  match vp with
  | none => return cache
  | some vp => vnodeRef cache vp

/-- The part of `vnode_free` that frees the private data. -/
def freeData (cache : VnodeCache) (vp : Address) : Except Trap VnodeCache := do
  let vnode ← cache.vnode vp
  if vnode.data.isSome then cache.modify vp (fun vnode => { vnode with data := none })
  else return cache

/-- `unref` stands for the call of `vnode_unref` on the parent. -/
def vnodeFree (unref : VnodeCache → Address → Except Trap VnodeCache) (cache : VnodeCache)
    (vp : Address) : Except Trap VnodeCache := do
  let cache ← freeData cache vp
  let vnode ← cache.vnode vp
  match vnode.parent with
  | none => return cache.slabFree vp
  | some parent =>
      let cache ← unref cache parent
      let cache ← cache.modify vp (fun vnode => { vnode with parent := none })
      return cache.slabFree vp

/-- The body of `vnode_unref`, whose calls of itself go `fuel` vnodes deep at most. -/
def unrefWithin (inactive : VnInactive) : ℕ → VnodeCache → Address → Except Trap VnodeCache
  | 0, _, _ => .error .fuel
  | fuel + 1, cache, vp => do
      let prev ← cache.vnode vp
      let cache ← cache.modify vp (fun vnode => { vnode with count := vnode.count - 1 })
      if prev.count = 0 then .error .halt
      else if 1 < prev.count then return cache
      else
        let cache ← cache.modify vp (fun vnode => { vnode with flag := vnode.flag ||| vfreeing })
        if prev.flag &&& vfreeing ≠ 0 then return cache
        else vnodeFree (unrefWithin inactive fuel) (inactive.run cache vp) vp

/-- A call that comes back to a vnode it is freeing finds the count at zero, so it
goes no deeper than there are vnodes. -/
def vnodeUnref (inactive : VnInactive) (cache : VnodeCache) (vp : Address) :
    Except Trap VnodeCache :=
  unrefWithin inactive (cache.vnodes.keys.card + 1) cache vp

/-- The part of `vnode_clear_parent` that drops the reference on the parent. -/
def dropParent (inactive : VnInactive) (cache : VnodeCache) (child : Address) :
    Except Trap VnodeCache := do
  let vnode ← cache.vnode child
  match vnode.parent with
  | none => return cache
  | some parent =>
      let cache ← vnodeUnref inactive cache parent
      cache.modify child (fun vnode => { vnode with parent := none })

def vnodeClearParent (inactive : VnInactive) (cache : VnodeCache)
    (child : Option Address) : Except Trap VnodeCache :=
  match child with
  | none => return cache
  | some child => do
      let cache ← dropParent inactive cache child
      cache.modify child (fun vnode => { vnode with name := vnode.name.set 0 0 })

/-- The part of `vnode_set_parent` that writes the name. -/
def copyName (buffer : List UInt8) (name : Option CString) : List UInt8 :=
  match name with
  | none => buffer.set 0 0
  | some name => strlcpy buffer name

def vnodeSetParent (inactive : VnInactive) (cache : VnodeCache)
    (child parent : Option Address) (name : Option CString) : Except Trap VnodeCache :=
  match child with
  | none => return cache
  | some child => do
      let cache ← vnodeClearParent inactive cache (some child)
      let cache ← vnodeRefIf cache parent
      let cache ← cache.modify child (fun vnode => { vnode with parent := parent })
      cache.modify child (fun vnode => { vnode with name := copyName vnode.name name })

/-- The result is the pointer returned with the vnodes afterwards. -/
def vnodeAlloc (cache : VnodeCache) (vfsp : Option Address) (type : Vtype)
    (slabAlloc : Option Address) : Option Address × VnodeCache :=
  match slabAlloc with
  | none => (none, cache)
  | some vp =>
      (some vp, { cache with
        vnodes := cache.vnodes.insert vp
          { flag := 0, count := 1, parent := none, name := List.replicate (nameMax + 1) 0,
            vfsp := vfsp, type := type, data := none } })

end Goshkik
