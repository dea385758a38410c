import Goshkik.Fs.VnodeTable

/-!
# Mounting filesystems

This file models `fs/vfs/vfs.c`.  The table of mounts is keyed by the path that
`vfs_mount_fs` copies into the filesystem, with the null behind it.  `vfss` holds
the filesystems that the slab allocator has handed out.

What the filesystem's own `vfs_mount` and `vfs_unmount` return is an argument, and
so is the order of the buckets that `vfs_find_mounted_on_vnode` goes through.
-/

namespace Goshkik

def vfsMountPathMax : ℕ := 256

/-- The functions that a filesystem has. -/
structure VfsOps where
  mount : Bool
  unmount : Bool

structure Vfs where
  next : Option Address
  op : Option VfsOps
  covered : Option Address
  flag : UInt32
  mountPath : List UInt8

structure VfsManager where
  vnodeTable : VnodeTable
  mountTable : Bindings (Option Address)
  vfss : Finmap (fun _ : Address => Vfs)

/-- The bytes of the string in a buffer, with its null. -/
def stringKey (buffer : List UInt8) : List UInt8 :=
  buffer.take ((buffer.takeWhile (· ≠ 0)).length + 1)

namespace VfsManager

def vfs (manager : VfsManager) (vfsp : Address) : Except Trap Vfs :=
  match manager.vfss.lookup vfsp with
  | none => .error .dangling
  | some vfs => .ok vfs

/-- Update the filesystem behind a pointer. -/
def modify (manager : VfsManager) (vfsp : Address) (update : Vfs → Vfs) :
    Except Trap VfsManager := do
  let vfs ← manager.vfs vfsp
  return { manager with vfss := manager.vfss.insert vfsp (update vfs) }

/-- Reference a vnode unless the pointer is null. -/
def ref (manager : VfsManager) (vp : Option Address) : Except Trap VfsManager := do
  let vnodes ← vnodeRefIf manager.vnodeTable.vnodes vp
  return { manager with vnodeTable := { manager.vnodeTable with vnodes := vnodes } }

/-- Drop a reference to a vnode unless the pointer is null. -/
def unref (inactive : VnInactive) (manager : VfsManager) (vp : Option Address) :
    Except Trap VfsManager := do
  let vnodeTable ← vnodePut inactive manager.vnodeTable vp
  return { manager with vnodeTable := vnodeTable }

def slabFree (manager : VfsManager) (vfsp : Address) : VfsManager :=
  { manager with vfss := manager.vfss.erase vfsp }

end VfsManager

/-- `path` is the string with its null. -/
def vfsFromPath (manager : VfsManager) (path : Option CString) : Option Address :=
  match path with
  | none => none
  | some path => (manager.mountTable.hashtableGet none (path.val ++ [0])).2

/-- The loop of `vfs_find_mounted_on_vnode`. -/
def findMounted (manager : VfsManager) (vp : Address) :
    List (List UInt8) → Except Trap (Option Address)
  | [] => return none
  | key :: order =>
      match (manager.mountTable.lookup key).join with
      | none => findMounted manager vp order
      | some vfsp => do
          let vfs ← manager.vfs vfsp
          if vfs.covered = some vp then return some vfsp else findMounted manager vp order

def vfsFindMountedOnVnode (manager : VfsManager) (vp : Option Address)
    (order : List (List UInt8)) : Except Trap (Option Address) :=
  match vp with
  | none => return none
  | some vp => findMounted manager vp order

/-- The part of `vfs_mount_fs` behind the checks of its arguments; `ret` is what
`vfs_mount` returns. -/
def mountChecked (inactive : VnInactive) (manager : VfsManager) (vfsp : Address)
    (covered : Option Address) (path : CString) (flags : UInt32) (ret : ℤ) (room : Bool) :
    Except Trap (ℤ × VfsManager) := do
  let manager ← manager.modify vfsp (fun vfs =>
    { vfs with covered := covered, flag := flags, next := none })
  let manager ← manager.ref covered
  if ret ≠ 0 then
    let manager ← manager.unref inactive covered
    return (ret, manager)
  else
    let manager ← manager.modify vfsp (fun vfs =>
      { vfs with mountPath := strlcpy vfs.mountPath path })
    let vfs ← manager.vfs vfsp
    return (0, { manager with
      mountTable := (manager.mountTable.hashtableSet (some vfsp) (stringKey vfs.mountPath)
        room).2 })

def vfsMountFs (inactive : VnInactive) (manager : VfsManager) (vfsp : Option Address)
    (covered : Option Address) (path : Option CString) (flags : UInt32) (ret : ℤ) (room : Bool) :
    Except Trap (ℤ × VfsManager) :=
  match vfsp, path with
  | some vfsp, some path => do
      let vfs ← manager.vfs vfsp
      if vfs.op.any (fun op => op.mount) then
        mountChecked inactive manager vfsp covered path flags ret room
      else return (-einval, manager)
  | _, _ => return (-einval, manager)

/-- The part of `vfs_unmount_fs` behind the checks of its arguments; `ret` is what
`vfs_unmount` returns, and `order` and `kmalloc` are for `vfs_purge_vnodes`. -/
def unmountChecked (inactive : VnInactive) (manager : VfsManager) (vfsp : Address) (ret : ℤ)
    (order : List (List UInt8)) (kmalloc : Bool) : Except Trap (ℤ × VfsManager) :=
  if ret ≠ 0 then return (ret, manager)
  else do
    let vfs ← manager.vfs vfsp
    let manager := { manager with
      mountTable := (manager.mountTable.hashtableRemove (stringKey vfs.mountPath)).2 }
    let manager ← manager.unref inactive vfs.covered
    let vnodeTable ← vfsPurgeVnodes inactive manager.vnodeTable (some vfsp) order kmalloc
    let manager := { manager with vnodeTable := vnodeTable }
    return (0, manager.slabFree vfsp)

def vfsUnmountFs (inactive : VnInactive) (manager : VfsManager) (vfsp : Option Address) (ret : ℤ)
    (order : List (List UInt8)) (kmalloc : Bool) : Except Trap (ℤ × VfsManager) :=
  match vfsp with
  | some vfsp => do
      let vfs ← manager.vfs vfsp
      if vfs.op.any (fun op => op.unmount) then
        unmountChecked inactive manager vfsp ret order kmalloc
      else return (-einval, manager)
  | none => return (-einval, manager)

end Goshkik
