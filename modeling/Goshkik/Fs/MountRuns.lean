import Goshkik.Fs.Mount
import Goshkik.Lib.Multiplicity
import Goshkik.Lib.Run

/-!
# Runs of mounting and unmounting

`mounted` lists the filesystems that have been mounted and not unmounted since, the
latest one last.  The table has one entry for a path, so it agrees with this list
as long as nothing is mounted where a filesystem is mounted already; a second one
overwrites the entry of the first, and unmounting either removes it.

Whatever else happens to vnodes between the calls is a step of its own.
-/

namespace Goshkik

open Transition

structure Mounted where
  vfsp : Address
  path : CString
  covered : Option Address
  deriving DecidableEq

structure MountWorld where
  manager : VfsManager
  mounted : List Mounted

inductive MountCall where
  | alloc (vfsp : Address) (vfs : Vfs)
  | vnodes (vnodeTable : VnodeTable)
  | mount (vfsp : Address) (covered : Option Address) (path : CString) (flags : UInt32)
  | unmount (vfsp : Address) (order : List (List UInt8)) (kmalloc : Bool)

namespace MountWorld

def initial : MountWorld where
  manager :=
    { vnodeTable := { vnodes := { vnodes := ∅, freed := [] }, table := ∅ }
      mountTable := ∅
      vfss := ∅ }
  mounted := []

/-- A filesystem is mounted once and unmounted while it is mounted. -/
def Allowed (world : MountWorld) : MountCall → Prop
  | .alloc vfsp vfs => vfsp ∉ world.manager.vfss ∧ vfs.mountPath.length = vfsMountPathMax
  | .vnodes _ => True
  | .mount vfsp _ path _ =>
      vfsp ∉ world.mounted.map Mounted.vfsp ∧ path.val.length < vfsMountPathMax
  | .unmount vfsp order _ =>
      vfsp ∈ world.mounted.map Mounted.vfsp ∧ world.manager.vnodeTable.table.Listed order

instance (world : MountWorld) : (call : MountCall) → Decidable (world.Allowed call)
  | .alloc vfsp vfs => inferInstanceAs
      (Decidable (vfsp ∉ world.manager.vfss ∧ vfs.mountPath.length = vfsMountPathMax))
  | .vnodes _ => inferInstanceAs (Decidable True)
  | .mount vfsp _ path _ => inferInstanceAs
      (Decidable (vfsp ∉ world.mounted.map Mounted.vfsp ∧ path.val.length < vfsMountPathMax))
  | .unmount vfsp order _ => inferInstanceAs
      (Decidable (vfsp ∈ world.mounted.map Mounted.vfsp ∧
        world.manager.vnodeTable.table.Listed order))

/-- The filesystem's own functions succeed and the table has room. -/
def exec (inactive : VnInactive) (world : MountWorld) : MountCall → Except Trap MountWorld
  | .alloc vfsp vfs =>
      return { world with
        manager := { world.manager with vfss := world.manager.vfss.insert vfsp vfs } }
  | .vnodes vnodeTable =>
      return { world with manager := { world.manager with vnodeTable := vnodeTable } }
  | .mount vfsp covered path flags => do
      let (code, manager) ←
        vfsMountFs inactive world.manager (some vfsp) covered (some path) flags 0 true
      return { manager := manager
               mounted :=
                if code = 0 then
                  world.mounted ++ [{ vfsp := vfsp, path := path, covered := covered }]
                else world.mounted }
  | .unmount vfsp order kmalloc => do
      let (code, manager) ← vfsUnmountFs inactive world.manager (some vfsp) 0 order kmalloc
      return { manager := manager
               mounted :=
                if code = 0 then world.mounted.filter (fun mount => mount.vfsp ≠ vfsp)
                else world.mounted }

def Step (inactive : VnInactive) (world : MountWorld) (call : MountCall) (after : MountWorld) :
    Prop :=
  world.Allowed call ∧ world.exec inactive call = .ok after

/-- Nothing is mounted on a path where a filesystem is mounted already. -/
def Unstacked (world : MountWorld) : MountCall → Prop
  | .mount _ _ path _ => path ∉ world.mounted.map Mounted.path
  | _ => True

instance (world : MountWorld) : (call : MountCall) → Decidable (world.Unstacked call)
  | .alloc _ _ => inferInstanceAs (Decidable True)
  | .vnodes _ => inferInstanceAs (Decidable True)
  | .mount _ _ path _ => inferInstanceAs (Decidable (path ∉ world.mounted.map Mounted.path))
  | .unmount _ _ _ => inferInstanceAs (Decidable True)

/-- One step, taken where it is allowed and `guard` holds. -/
def next (inactive : VnInactive) (guard : MountWorld → MountCall → Bool) (world : MountWorld)
    (call : MountCall) : Option MountWorld :=
  if guard world call ∧ world.Allowed call then (world.exec inactive call).toOption else none

/-- The key under which a path is stored. -/
def pathKey (path : CString) : List UInt8 := path.val ++ [0]

/-- The table stores exactly the mounted filesystems, each of which knows its path. -/
structure Consistent (world : MountWorld) : Prop where
  stored : ∀ key value, world.manager.mountTable.lookup key = some value ↔
    ∃ mount ∈ world.mounted, key = pathKey mount.path ∧ value = some mount.vfsp
  known : ∀ mount ∈ world.mounted, ∃ vfs, world.manager.vfss.lookup mount.vfsp = some vfs ∧
    vfs.covered = mount.covered ∧ stringKey vfs.mountPath = pathKey mount.path
  apart : (world.mounted.map Mounted.vfsp).Nodup
  unstacked : (world.mounted.map Mounted.path).Nodup
  buffers : ∀ vfsp vfs, world.manager.vfss.lookup vfsp = some vfs →
    vfs.mountPath.length = vfsMountPathMax

variable {inactive : VnInactive} {world after : MountWorld} {call : MountCall}

theorem pathKey_injective {first second : CString} (same : pathKey first = pathKey second) :
    first = second :=
  Subtype.ext (List.append_cancel_right same)

/-- What `vfs_mount_fs` copies is the path. -/
theorem stringKey_strlcpy {buffer : List UInt8} (path : CString)
    (fits : path.val.length < buffer.length) : stringKey (strlcpy buffer path) = pathKey path := by
  have string : (strlcpy buffer path).takeWhile (· ≠ 0) = path.val := by
    rw [strlcpy_eq fits, List.takeWhile_append_of_pos]
    · simp
    · intro char mem
      have nonzero : char ≠ 0 := fun zero => path.property (zero ▸ mem)
      simpa using nonzero
  rw [stringKey, string, strlcpy_eq fits, pathKey]
  simp [List.take_append]

end MountWorld

namespace VfsManager

variable {inactive : VnInactive} {manager after : VfsManager} {vfsp : Address} {vfs : Vfs}

theorem vfs_eq_ok : manager.vfs vfsp = .ok vfs ↔ manager.vfss.lookup vfsp = some vfs := by
  cases stored : manager.vfss.lookup vfsp with
  | none => simp [VfsManager.vfs, stored]
  | some found => simp [VfsManager.vfs, stored]

theorem modify_effect {update : Vfs → Vfs} (returns : manager.modify vfsp update = .ok after) :
    ∃ vfs, manager.vfss.lookup vfsp = some vfs ∧
      after = { manager with vfss := manager.vfss.insert vfsp (update vfs) } := by
  simp only [modify, bind_eq_ok, pure, Except.pure, Except.ok.injEq] at returns
  rcases returns with ⟨vfs, found, rfl⟩
  exact ⟨vfs, vfs_eq_ok.mp found, rfl⟩

theorem ref_effect {vp : Option Address} (returns : manager.ref vp = .ok after) :
    after.vfss = manager.vfss ∧ after.mountTable = manager.mountTable := by
  simp only [ref, bind_eq_ok, pure, Except.pure, Except.ok.injEq] at returns
  rcases returns with ⟨vnodes, _, rfl⟩
  exact ⟨rfl, rfl⟩

theorem unref_effect {vp : Option Address} (returns : manager.unref inactive vp = .ok after) :
    after.vfss = manager.vfss ∧ after.mountTable = manager.mountTable := by
  simp only [unref, bind_eq_ok, pure, Except.pure, Except.ok.injEq] at returns
  rcases returns with ⟨vnodes, _, rfl⟩
  exact ⟨rfl, rfl⟩

/-- What a successful `vfs_mount_fs` leaves behind. -/
theorem mount_effect {covered : Option Address} {path : CString} {flags : UInt32} {code : ℤ}
    (returns : vfsMountFs inactive manager (some vfsp) covered (some path) flags 0 true =
      .ok (code, after)) :
    (code ≠ 0 ∧ after = manager) ∨
    (code = 0 ∧ ∃ vfs, manager.vfss.lookup vfsp = some vfs ∧
      after.vfss = manager.vfss.insert vfsp { vfs with
        covered := covered, flag := flags, next := none, mountPath := strlcpy vfs.mountPath path } ∧
      after.mountTable =
        manager.mountTable.insert (stringKey (strlcpy vfs.mountPath path)) (some vfsp)) := by
  simp only [vfsMountFs, bind_eq_ok] at returns
  rcases returns with ⟨vfs, found, returns⟩
  split at returns
  · right
    simp only [mountChecked, ne_eq, not_true, if_false, bind_eq_ok, pure, Except.pure,
      Except.ok.injEq, Prod.mk.injEq] at returns
    rcases returns with ⟨prepared, prepares, reffed, refs, named, names, last, storedLast, rfl, rfl⟩
    rcases modify_effect prepares with ⟨vfs, stored, rfl⟩
    rcases ref_effect refs with ⟨vfss, mountTable⟩
    rcases modify_effect names with ⟨middle, storedMiddle, rfl⟩
    rw [vfss, Finmap.lookup_insert, Option.some.injEq] at storedMiddle
    subst storedMiddle
    have storedLast := vfs_eq_ok.mp storedLast
    simp only [Finmap.lookup_insert, Option.some.injEq] at storedLast
    subst storedLast
    refine ⟨rfl, vfs, stored, ?_, ?_⟩
    · simp only [vfss, Finmap.insert_insert]
    · simp only [mountTable]
      rw [Bindings.hashtableSet_stores (Or.inr rfl)]
  · simp only [pure, Except.pure, Except.ok.injEq, Prod.mk.injEq] at returns
    rcases returns with ⟨rfl, rfl⟩
    exact Or.inl ⟨by decide, rfl⟩

/-- What a successful `vfs_unmount_fs` leaves behind. -/
theorem unmount_effect {order : List (List UInt8)} {kmalloc : Bool} {code : ℤ}
    (returns : vfsUnmountFs inactive manager (some vfsp) 0 order kmalloc = .ok (code, after)) :
    (code ≠ 0 ∧ after = manager) ∨
    (code = 0 ∧ ∃ vfs, manager.vfss.lookup vfsp = some vfs ∧
      after.vfss = manager.vfss.erase vfsp ∧
      after.mountTable = manager.mountTable.erase (stringKey vfs.mountPath)) := by
  simp only [vfsUnmountFs, bind_eq_ok] at returns
  rcases returns with ⟨vfs, found, returns⟩
  split at returns
  · right
    simp only [unmountChecked, ne_eq, not_true, if_false, bind_eq_ok, pure, Except.pure,
      Except.ok.injEq, Prod.mk.injEq] at returns
    rcases returns with ⟨last, foundLast, unreffed, unrefs, purged, _, rfl, rfl⟩
    rcases unref_effect unrefs with ⟨vfss, mountTable⟩
    refine ⟨rfl, last, vfs_eq_ok.mp foundLast, ?_, ?_⟩
    · simp only [slabFree, vfss]
    · simp only [slabFree, mountTable, Bindings.hashtableRemove_snd]
  · simp only [pure, Except.pure, Except.ok.injEq, Prod.mk.injEq] at returns
    rcases returns with ⟨rfl, rfl⟩
    exact Or.inl ⟨by decide, rfl⟩

end VfsManager

namespace MountWorld

variable {inactive : VnInactive} {world after : MountWorld} {call : MountCall}
  {guard : MountWorld → MountCall → Bool}

theorem next_step (world : MountWorld) (call : MountCall) (after : MountWorld)
    (steps : next inactive guard world call = some after) :
    Guarded (fun world call => guard world call = true) (Step inactive) world call after :=
  permitted_of_eq_some steps

theorem consistent_initial : initial.Consistent where
  stored := by simp [initial]
  known := by simp [initial]
  apart := by simp [initial]
  unstacked := by simp [initial]
  buffers := by simp [initial]

namespace Consistent

theorem alloc (consistent : world.Consistent) {vfsp : Address} {vfs : Vfs}
    (fresh : vfsp ∉ world.manager.vfss) (sized : vfs.mountPath.length = vfsMountPathMax) :
    Consistent { world with
      manager := { world.manager with vfss := world.manager.vfss.insert vfsp vfs } } where
  stored := consistent.stored
  known := by
    intro mount mem
    rcases consistent.known mount mem with ⟨found, stored, known⟩
    have different : mount.vfsp ≠ vfsp := by
      intro same
      apply fresh
      rw [← same]
      exact Finmap.mem_of_lookup_eq_some stored
    exact ⟨found, by rwa [Finmap.lookup_insert_of_ne _ different], known⟩
  apart := consistent.apart
  unstacked := consistent.unstacked
  buffers := by
    intro other found stored
    by_cases same : other = vfsp
    · subst same
      rw [Finmap.lookup_insert, Option.some.injEq] at stored
      rwa [← stored]
    · rw [Finmap.lookup_insert_of_ne _ same] at stored
      exact consistent.buffers other found stored

theorem mount (consistent : world.Consistent) {vfsp : Address} {path : CString} {vfs : Vfs}
    (covered : Option Address) (flags : UInt32) (vnodeTable : VnodeTable)
    (single : vfsp ∉ world.mounted.map Mounted.vfsp) (short : path.val.length < vfsMountPathMax)
    (free : path ∉ world.mounted.map Mounted.path)
    (found : world.manager.vfss.lookup vfsp = some vfs) :
    Consistent
      { manager :=
          { vnodeTable := vnodeTable
            mountTable := world.manager.mountTable.insert
              (stringKey (strlcpy vfs.mountPath path)) (some vfsp)
            vfss := world.manager.vfss.insert vfsp { vfs with
              covered := covered, flag := flags, next := none,
              mountPath := strlcpy vfs.mountPath path } }
        mounted := world.mounted ++ [{ vfsp := vfsp, path := path, covered := covered }] } := by
  have sized := consistent.buffers vfsp vfs found
  have fits : path.val.length < vfs.mountPath.length := by
    rwa [sized]
  have keyEq := stringKey_strlcpy path fits
  constructor
  case stored =>
    intro key value
    simp only [keyEq, List.mem_append, List.mem_singleton, or_and_right, exists_or,
      exists_eq_left]
    by_cases same : key = pathKey path
    · subst same
      have unused : ∀ mount ∈ world.mounted, pathKey path ≠ pathKey mount.path := by
        intro mount mem sameKey
        apply free
        rw [pathKey_injective sameKey]
        exact List.mem_map_of_mem mem
      rw [Finmap.lookup_insert, Option.some.injEq]
      constructor
      · intro stored
        exact Or.inr ⟨rfl, stored.symm⟩
      · rintro (⟨mount, mem, sameKey, _⟩ | ⟨_, stored⟩)
        · exact absurd sameKey (unused mount mem)
        · exact stored.symm
    · rw [Finmap.lookup_insert_of_ne _ same, consistent.stored key value]
      simp [same]
  case known =>
    intro mount mem
    rcases List.mem_append.mp mem with before | last
    · rcases consistent.known mount before with ⟨other, stored, known⟩
      have different : mount.vfsp ≠ vfsp := by
        intro same
        apply single
        rw [← same]
        exact List.mem_map_of_mem before
      exact ⟨other, by rwa [Finmap.lookup_insert_of_ne _ different], known⟩
    · rw [List.mem_singleton] at last
      subst last
      exact ⟨_, Finmap.lookup_insert _, rfl, keyEq⟩
  case apart =>
    rw [List.map_append]
    exact consistent.apart.append (List.nodup_singleton _) (by simpa using single)
  case unstacked =>
    rw [List.map_append]
    exact consistent.unstacked.append (List.nodup_singleton _) (by simpa using free)
  case buffers =>
    intro other last stored
    by_cases same : other = vfsp
    · subst same
      rw [Finmap.lookup_insert, Option.some.injEq] at stored
      rw [← stored]
      simpa [length_strlcpy] using sized
    · rw [Finmap.lookup_insert_of_ne _ same] at stored
      exact consistent.buffers other last stored

/-- A mounted filesystem is stored under its own path and nowhere else. -/
theorem lookup_iff (consistent : world.Consistent) {mount : Mounted} (mem : mount ∈ world.mounted)
    (key : List UInt8) :
    world.manager.mountTable.lookup key = some (some mount.vfsp) ↔ key = pathKey mount.path := by
  rw [consistent.stored]
  constructor
  · rintro ⟨other, otherMem, rfl, same⟩
    rw [Option.some.injEq] at same
    rw [List.inj_on_of_nodup_map consistent.apart mem otherMem same]
  · intro keyEq
    exact ⟨mount, mem, keyEq, rfl⟩

theorem unmount (consistent : world.Consistent) {mount : Mounted} {vfs : Vfs}
    (vnodeTable : VnodeTable) (mem : mount ∈ world.mounted)
    (found : world.manager.vfss.lookup mount.vfsp = some vfs) :
    Consistent
      { manager :=
          { vnodeTable := vnodeTable
            mountTable := world.manager.mountTable.erase (stringKey vfs.mountPath)
            vfss := world.manager.vfss.erase mount.vfsp }
        mounted := world.mounted.filter (fun other => other.vfsp ≠ mount.vfsp) } := by
  rcases consistent.known mount mem with ⟨known, stored, _, keyEq⟩
  rw [found, Option.some.injEq] at stored
  subst stored
  have remains : ∀ other, other ∈ world.mounted.filter (fun other => other.vfsp ≠ mount.vfsp) ↔
      other ∈ world.mounted ∧ other.vfsp ≠ mount.vfsp := by
    intro other
    simp [List.mem_filter]
  have kept := List.filter_sublist (l := world.mounted) (p := fun other => other.vfsp ≠ mount.vfsp)
  constructor
  case stored =>
    intro key value
    simp only [keyEq, remains]
    by_cases same : key = pathKey mount.path
    · subst same
      simp only [Finmap.lookup_erase, reduceCtorEq, false_iff, not_exists, not_and]
      intro other otherMem sameKey
      exact absurd (congrArg Mounted.vfsp
        (List.inj_on_of_nodup_map consistent.unstacked otherMem.1 mem
        (pathKey_injective sameKey).symm)) otherMem.2
    · rw [Finmap.lookup_erase_ne same, consistent.stored key value]
      constructor
      · rintro ⟨other, otherMem, rfl, valueEq⟩
        refine ⟨other, ⟨otherMem, ?_⟩, rfl, valueEq⟩
        intro sameVfs
        apply same
        rw [List.inj_on_of_nodup_map consistent.apart otherMem mem sameVfs]
      · rintro ⟨other, otherMem, keyEq, valueEq⟩
        exact ⟨other, otherMem.1, keyEq, valueEq⟩
  case known =>
    intro other otherMem
    rw [remains] at otherMem
    rcases consistent.known other otherMem.1 with ⟨last, stored, known⟩
    exact ⟨last, by rwa [Finmap.lookup_erase_ne otherMem.2], known⟩
  case apart => exact consistent.apart.sublist (kept.map _)
  case unstacked => exact consistent.unstacked.sublist (kept.map _)
  case buffers =>
    intro other last stored
    by_cases same : other = mount.vfsp
    · subst same
      simp at stored
    · rw [Finmap.lookup_erase_ne same] at stored
      exact consistent.buffers other last stored

/-- What a mounted filesystem's own path leads to is that filesystem. -/
theorem vfsFromPath_eq (consistent : world.Consistent) (path : CString) :
    vfsFromPath world.manager (some path) =
      (world.mounted.reverse.find? (fun mount => mount.path = path)).map Mounted.vfsp := by
  simp only [vfsFromPath, Bindings.hashtableGet]
  cases latest : world.mounted.reverse.find? (fun mount => mount.path = path) with
  | none =>
      simp only [List.find?_eq_none, List.mem_reverse, decide_eq_true_eq] at latest
      have unbound : world.manager.mountTable.lookup (path.val ++ [0]) = none := by
        rw [Option.eq_none_iff_forall_ne_some]
        intro value stored
        rcases (consistent.stored _ value).mp stored with ⟨mount, mem, keyEq, _⟩
        exact latest mount mem (pathKey_injective keyEq).symm
      rw [unbound]
      rfl
  | some mount =>
      have mem := List.mem_reverse.mp (List.mem_of_find?_eq_some latest)
      have samePath : mount.path = path := by
        simpa using List.find?_some latest
      have bound := (consistent.lookup_iff mem (path.val ++ [0])).mpr (by rw [← samePath, pathKey])
      rw [bound]
      rfl

/-- The loop over the buckets finds a filesystem if one among them covers the vnode. -/
theorem findMounted_returns (consistent : world.Consistent) (vp : Address)
    (order : List (List UInt8)) :
    ∃ found, findMounted world.manager vp order = .ok found ∧
      (found.isSome ↔ ∃ mount ∈ world.mounted, pathKey mount.path ∈ order ∧
        mount.covered = some vp) := by
  induction order with
  | nil => exact ⟨none, rfl, by simp⟩
  | cons key order ih =>
      rcases ih with ⟨found, returns, covers⟩
      cases stored : world.manager.mountTable.lookup key with
      | none =>
          refine ⟨found, by simpa [findMounted, stored] using returns, ?_⟩
          have unused : ∀ mount ∈ world.mounted, pathKey mount.path ≠ key := by
            intro mount mem keyEq
            have bound := (consistent.lookup_iff mem key).mpr keyEq.symm
            rw [stored] at bound
            cases bound
          rw [covers]
          constructor
          · rintro ⟨mount, mem, listed, covered⟩
            exact ⟨mount, mem, List.mem_cons_of_mem key listed, covered⟩
          · rintro ⟨mount, mem, listed, covered⟩
            exact ⟨mount, mem, List.mem_of_ne_of_mem (unused mount mem) listed, covered⟩
      | some value =>
          rcases (consistent.stored key value).mp stored with ⟨mount, mem, rfl, rfl⟩
          rcases consistent.known mount mem with ⟨vfs, known, coveredEq, _⟩
          have reads : world.manager.vfs mount.vfsp = .ok vfs := VfsManager.vfs_eq_ok.mpr known
          by_cases covered : mount.covered = some vp
          · refine ⟨some mount.vfsp, ?_, ?_⟩
            · simp [findMounted, stored, reads, coveredEq, covered, bind, Except.bind, pure,
                Except.pure]
            · simp only [Option.isSome_some, true_iff]
              exact ⟨mount, mem, List.mem_cons_self, covered⟩
          · refine ⟨found, ?_, ?_⟩
            · simpa [findMounted, stored, reads, coveredEq, covered, bind,
                Except.bind] using returns
            · rw [covers]
              constructor
              · rintro ⟨other, otherMem, listed, otherCovered⟩
                exact ⟨other, otherMem, List.mem_cons_of_mem _ listed, otherCovered⟩
              · rintro ⟨other, otherMem, listed, otherCovered⟩
                refine ⟨other, otherMem, ?_, otherCovered⟩
                apply List.mem_of_ne_of_mem _ listed
                intro keyEq
                apply covered
                rw [← List.inj_on_of_nodup_map consistent.unstacked otherMem mem
                  (pathKey_injective keyEq)]
                exact otherCovered

theorem vfsFindMountedOnVnode_returns (consistent : world.Consistent) (vp : Address)
    {order : List (List UInt8)} (listed : world.manager.mountTable.Listed order) :
    ∃ found, vfsFindMountedOnVnode world.manager (some vp) order = .ok found ∧
      (found.isSome ↔ ∃ mount ∈ world.mounted, mount.covered = some vp) := by
  rcases consistent.findMounted_returns vp order with ⟨found, returns, covers⟩
  refine ⟨found, returns, ?_⟩
  rw [covers]
  constructor
  · rintro ⟨mount, mem, _, covered⟩
    exact ⟨mount, mem, covered⟩
  · rintro ⟨mount, mem, covered⟩
    refine ⟨mount, mem, ?_, covered⟩
    rw [listed.2]
    exact Finmap.mem_of_lookup_eq_some ((consistent.lookup_iff mem _).mpr rfl)

/-- Unmounting removes the entry of the filesystem and no other. -/
theorem unmount_lookup (consistent : world.Consistent) {vfsp : Address}
    {order : List (List UInt8)} {kmalloc : Bool} {manager : VfsManager}
    (mounted : vfsp ∈ world.mounted.map Mounted.vfsp)
    (returns : vfsUnmountFs inactive world.manager (some vfsp) 0 order kmalloc = .ok (0, manager))
    (key : List UInt8) :
    manager.mountTable.lookup key =
      if world.manager.mountTable.lookup key = some (some vfsp) then none
      else world.manager.mountTable.lookup key := by
  rcases List.mem_map.mp mounted with ⟨mount, mem, rfl⟩
  rcases VfsManager.unmount_effect returns with ⟨fails, _⟩ | ⟨_, vfs, found, _, mountTable⟩
  · exact absurd rfl fails
  · rcases consistent.known mount mem with ⟨known, stored, _, keyEq⟩
    rw [found, Option.some.injEq] at stored
    subst stored
    rw [mountTable, keyEq]
    by_cases same : key = pathKey mount.path
    · have own := (consistent.lookup_iff mem key).mpr same
      subst same
      rw [Finmap.lookup_erase, if_pos own]
    · have other := (consistent.lookup_iff mem key).not.mpr same
      rw [Finmap.lookup_erase_ne same, if_neg other]

end Consistent

/-- A step that mounts nothing on a path in use keeps the table consistent. -/
theorem Step.consistent (step : Guarded Unstacked (Step inactive) world call after)
    (consistent : world.Consistent) : after.Consistent := by
  rcases step with ⟨unstacked, allowed, executes⟩
  cases call with
  | alloc vfsp vfs =>
      simp only [exec, pure, Except.pure, Except.ok.injEq] at executes
      rw [← executes]
      exact consistent.alloc allowed.1 allowed.2
  | vnodes vnodeTable =>
      simp only [exec, pure, Except.pure, Except.ok.injEq] at executes
      rw [← executes]
      exact ⟨consistent.stored, consistent.known, consistent.apart, consistent.unstacked,
        consistent.buffers⟩
  | mount vfsp covered path flags =>
      simp only [exec, bind_eq_ok, pure, Except.pure, Except.ok.injEq, Prod.exists] at executes
      rcases executes with ⟨code, manager, returns, rfl⟩
      rcases VfsManager.mount_effect returns with
        ⟨fails, rfl⟩ | ⟨rfl, vfs, found, vfss, mountTable⟩
      · simpa [fails] using consistent
      · have last := consistent.mount covered flags manager.vnodeTable allowed.1 allowed.2
          unstacked found
        rw [← vfss, ← mountTable] at last
        exact last
  | unmount vfsp order kmalloc =>
      simp only [exec, bind_eq_ok, pure, Except.pure, Except.ok.injEq, Prod.exists] at executes
      rcases executes with ⟨code, manager, returns, rfl⟩
      rcases VfsManager.unmount_effect returns with
        ⟨fails, rfl⟩ | ⟨rfl, vfs, found, vfss, mountTable⟩
      · simpa [fails] using consistent
      · rcases List.mem_map.mp allowed.1 with ⟨mount, mem, rfl⟩
        have last := consistent.unmount manager.vnodeTable mem found
        rw [← vfss, ← mountTable] at last
        exact last

end MountWorld

/-- In every state of a run in which nothing is mounted where a filesystem is mounted
already, the table of mounts has an entry for each mounted filesystem, unmounting removes
that entry only, and both lookups answer for the filesystems that are mounted. -/
theorem mount_table_guarded_runs (inactive : VnInactive) {calls : List MountCall}
    {world : MountWorld}
    (run : Run (Guarded MountWorld.Unstacked (MountWorld.Step inactive)) MountWorld.initial calls
      world) :
    (∀ mount ∈ world.mounted, ∃ key,
      world.manager.mountTable.lookup key = some (some mount.vfsp)) ∧
    (∀ vfsp order kmalloc manager, vfsp ∈ world.mounted.map Mounted.vfsp →
      vfsUnmountFs inactive world.manager (some vfsp) 0 order kmalloc = .ok (0, manager) →
      ∀ key, manager.mountTable.lookup key =
        if world.manager.mountTable.lookup key = some (some vfsp) then none
        else world.manager.mountTable.lookup key) ∧
    (∀ path, vfsFromPath world.manager (some path) =
      (world.mounted.reverse.find? (fun mount => mount.path = path)).map Mounted.vfsp) ∧
    (∀ vp order, world.manager.mountTable.Listed order →
      ∃ found, vfsFindMountedOnVnode world.manager (some vp) order = .ok found ∧
        (found.isSome ↔ ∃ mount ∈ world.mounted, mount.covered = some vp)) := by
  have consistent :=
    run.invariant (fun _ _ _ consistent step => MountWorld.Step.consistent step consistent)
    MountWorld.consistent_initial
  refine ⟨?_, ?_, consistent.vfsFromPath_eq, ?_⟩
  · intro mount mem
    exact ⟨_, (consistent.lookup_iff mem _).mpr rfl⟩
  · intro vfsp order kmalloc manager mounted returns
    exact consistent.unmount_lookup mounted returns
  · intro vp order listed
    exact consistent.vfsFindMountedOnVnode_returns vp listed

/-- A filesystem as a driver hands it to `vfs_mount_fs`. -/
def MountWorld.driver : Vfs where
  next := none
  op := some { mount := true, unmount := true }
  covered := none
  flag := 0
  mountPath := List.replicate 256 0

def rootPath : CString := ⟨[47], by decide⟩

def devPath : CString := ⟨[47, 100], by decide⟩

/-- Two filesystems on two paths, the second of which is unmounted. -/
theorem mount_table_two_paths : ∃ world,
    Run (Guarded MountWorld.Unstacked (MountWorld.Step .absent)) MountWorld.initial
      [.alloc 10 MountWorld.driver, .alloc 20 MountWorld.driver, .mount 10 none rootPath 0,
        .mount 20 none devPath 0, .unmount 20 [] true] world ∧
    world.mounted = [{ vfsp := 10, path := rootPath, covered := none }] ∧
    vfsFromPath world.manager (some rootPath) =
      (world.mounted.reverse.find? (fun mount => mount.path = rootPath)).map Mounted.vfsp := by
  have returns : (follow (MountWorld.next .absent (fun world call => world.Unstacked call))
      [.alloc 10 MountWorld.driver, .alloc 20 MountWorld.driver, .mount 10 none rootPath 0,
        .mount 20 none devPath 0, .unmount 20 [] true] MountWorld.initial).map
      MountWorld.mounted = some [{ vfsp := 10, path := rootPath, covered := none }] := by
    decide +kernel
  rcases Option.map_eq_some_iff.mp returns with ⟨world, follows, mounted⟩
  have run : Run (Guarded MountWorld.Unstacked (MountWorld.Step .absent)) _ _ _ :=
    (run_of_follow MountWorld.next_step follows).weaken (fun _ _ => of_decide_eq_true)
  exact ⟨world, run, mounted, (mount_table_guarded_runs .absent run).2.2.1 rootPath⟩

/-- Two filesystems on one path: the first is mounted and not in the table. -/
theorem mount_table_loses_mount : ∃ calls world,
    Run (MountWorld.Step .absent) MountWorld.initial calls world ∧
    ∃ mount ∈ world.mounted, ∀ key,
      world.manager.mountTable.lookup key ≠ some (some mount.vfsp) := by
  have returns : (follow (MountWorld.next .absent (fun _ _ => true))
      [.alloc 10 MountWorld.driver, .alloc 20 MountWorld.driver, .mount 10 none rootPath 0,
        .mount 20 none rootPath 0] MountWorld.initial).map
      (fun world => (world.mounted.map Mounted.vfsp,
        world.manager.mountTable.multiplicity (some 10))) = some ([10, 20], 0) := by
    decide +kernel
  rcases Option.map_eq_some_iff.mp returns with ⟨world, follows, observed⟩
  rw [Prod.mk.injEq] at observed
  have mem : 10 ∈ world.mounted.map Mounted.vfsp := by
    simp [observed.1]
  rcases List.mem_map.mp mem with ⟨mount, mountMem, vfsp⟩
  refine ⟨_, world, (run_of_follow MountWorld.next_step follows).unguard, mount, mountMem, ?_⟩
  intro key stored
  rw [vfsp] at stored
  have positive := Finmap.multiplicity_pos stored
  omega

end Goshkik
