import Goshkik.Fs.Mount
import Goshkik.Fs.VnodePurge
import Goshkik.Fs.VnodeRelease

/-!
# What vfs_unmount_fs leaves behind

A successful `vfs_unmount_fs` gives its filesystem back to the slab allocator.  It
removes one entry from the table of mounts, drops the reference to the covered vnode
and has the vnodes of the filesystem purged: the entries that the vnode table has for
it are removed, and one reference is dropped for each.

The counts of the vnodes before the call are any numbers.  What holds a vnode is what
its count has in excess of the references that are dropped.
-/

namespace Goshkik

open VnodeCache

namespace VfsManager

variable {inactive : VnInactive} {manager after : VfsManager} {vfsp : Address} {ret : ℤ}
  {order : List (List UInt8)} {kmalloc : Bool}

/-- Nothing refers to a filesystem: no entry of a table and no vnode in use. -/
structure Detached (manager : VfsManager) (vfsp : Address) : Prop where
  mounts : ∀ key, manager.mountTable.lookup key ≠ some (some vfsp)
  entries : manager.vnodeTable.keysUnder vfsp = ∅
  vnodes : ∀ vp vnode, manager.vnodeTable.vnodes.vnodes.lookup vp = some vnode →
    vnode.vfsp ≠ some vfsp

/-- The vnode that a filesystem covers. -/
def coveredBy (manager : VfsManager) (vfsp : Address) : Option Address :=
  (manager.vfss.lookup vfsp).bind Vfs.covered

/-- The references that `vfs_unmount_fs` drops: one on the covered vnode and one for each
entry of the filesystem. -/
def unmountDrops (manager : VfsManager) (vfsp vp : Address) : ℕ :=
  (if manager.coveredBy vfsp = some vp then 1 else 0) +
    ((manager.vnodeTable.keysUnder vfsp).filter (fun key =>
      manager.vnodeTable.table.lookup key = some (some vp))).card

/-- The table of mounts has the filesystem under its own path only, the array of
`vfs_purge_vnodes` can be allocated unless there is nothing to purge, and no set of vnodes
that keeps itself in use has a vnode of the filesystem. -/
structure Detachable (manager : VfsManager) (vfsp : Address) (kmalloc : Bool) : Prop where
  mounts : ∀ key, manager.mountTable.lookup key = some (some vfsp) →
    ∀ vfs, manager.vfss.lookup vfsp = some vfs → key = stringKey vfs.mountPath
  entries : kmalloc = true ∨ manager.vnodeTable.keysUnder vfsp = ∅
  vnodes : ∀ kept : Finset Address,
    manager.vnodeTable.vnodes.counts.Retained (manager.unmountDrops vfsp) kept →
      ∀ vp ∈ kept, ∀ vnode, manager.vnodeTable.vnodes.vnodes.lookup vp = some vnode →
        vnode.vfsp ≠ some vfsp

/-- The keys of the filesystem in the order of the buckets. -/
theorem among_keysOf {state : VnodeTable} (listed : state.table.Listed order) (vfsp vp : Address) :
    state.among (keysOf vfsp order) vp =
      ((state.keysUnder vfsp).filter (fun key => state.table.lookup key =
        some (some vp))).card := by
  have keys : (state.keysUnder vfsp).filter (fun key => state.table.lookup key = some (some vp)) =
      ((keysOf vfsp order).filter (fun key => state.table.lookup key =
        some (some vp))).toFinset := by
    ext key
    simp [keysOf_eq, VnodeTable.keysUnder, listed.2 key, Finmap.mem_keys, and_assoc, and_left_comm,
      and_comm]
  rw [keys, List.toFinset_card_of_nodup, VnodeTable.among, List.countP_eq_length_filter]
  rw [keysOf_eq]
  exact (listed.1.filter _).filter _

/-- Dropping the reference on the covered vnode. -/
theorem unref_releases (keeps : inactive.KeepsVfsp) {covered : Option Address}
    (returns : manager.unref inactive covered = .ok after) :
    (∃ freed, manager.vnodeTable.vnodes.Releases
        (fun vp => if covered = some vp then 1 else 0) freed after.vnodeTable.vnodes) ∧
      manager.vnodeTable.vnodes.KeepsVfsp after.vnodeTable.vnodes ∧
      after.vnodeTable.table = manager.vnodeTable.table ∧
      after.mountTable = manager.mountTable ∧ after.vfss = manager.vfss := by
  simp only [unref, bind_eq_ok, pure, Except.pure, Except.ok.injEq] at returns
  rcases returns with ⟨table, puts, rfl⟩
  cases covered with
  | none =>
      simp only [vnodePut, pure, Except.pure, Except.ok.injEq] at puts
      subst puts
      refine ⟨⟨[], ?_⟩, .refl _, rfl, rfl, rfl⟩
      simpa using Releases.refl manager.vnodeTable.vnodes
  | some own =>
      simp only [vnodePut, bind_eq_ok, pure, Except.pure, Except.ok.injEq] at puts
      rcases puts with ⟨vnodes, unrefs, rfl⟩
      rcases unrefWithin_releases unrefs with ⟨freed, releases⟩
      have same : single own = fun vp => if some own = some vp then 1 else 0 := by
        funext vp
        simp [single, eq_comm]
      exact ⟨⟨freed, same ▸ releases⟩, unrefWithin_keepsVfsp keeps unrefs, rfl, rfl, rfl⟩

end VfsManager

/-- The purge of a filesystem, unless it gives up for want of memory. -/
theorem vfsPurgeVnodes_releases {inactive : VnInactive} (keeps : inactive.KeepsVfsp)
    {state done : VnodeTable} {vfsp : Address} {order : List (List UInt8)} {kmalloc : Bool}
    (listed : state.table.Listed order) (enough : kmalloc = true ∨ state.keysUnder vfsp = ∅)
    (returns : vfsPurgeVnodes inactive state (some vfsp) order kmalloc = .ok done) :
    (∃ freed, state.vnodes.Releases (state.among (keysOf vfsp order)) freed done.vnodes) ∧
      state.vnodes.KeepsVfsp done.vnodes ∧ done.keysUnder vfsp = ∅ := by
  have counted := PurgeWorld.length_keysOf listed vfsp
  simp only [vfsPurgeVnodes] at returns
  split at returns
  · rename_i noKeys
    simp only [pure, Except.pure, Except.ok.injEq] at returns
    rw [noKeys, List.length_nil, eq_comm, Finset.card_eq_zero] at counted
    rw [← returns, noKeys]
    exact ⟨⟨[], .refl _⟩, .refl _, counted⟩
  · rename_i someKeys
    rcases enough with allocated | noKeys
    · simp only [allocated, Bool.not_true, Bool.false_eq_true, if_false] at returns
      have nodup : (keysOf vfsp order).Nodup := by
        rw [keysOf_eq]
        exact listed.1.filter _
      rcases purgeKeys_releases keeps nodup returns with ⟨releases, kept, lookups⟩
      refine ⟨releases, kept, ?_⟩
      apply Finset.eq_empty_of_forall_notMem
      intro key mem
      rw [VnodeTable.keysUnder, Finset.mem_filter, Finmap.mem_keys, ← Finmap.lookup_isSome,
        lookups] at mem
      split at mem
      · simp at mem
      · rename_i notPurged
        apply notPurged
        rw [keysOf_eq, List.mem_filter, decide_eq_true_eq, listed.2, ← Finmap.lookup_isSome]
        exact mem
    · rw [noKeys, Finset.card_empty, List.length_eq_zero_iff] at counted
      exact absurd counted someKeys

namespace VfsManager

variable {inactive : VnInactive} {manager after : VfsManager} {vfsp : Address} {ret : ℤ}
  {order : List (List UInt8)} {kmalloc : Bool}

/-- A successful call has removed one entry of the table of mounts, dropped a reference to
the covered vnode and purged the vnodes. -/
theorem unmount_cases (returns : vfsUnmountFs inactive manager (some vfsp) ret order kmalloc =
      .ok (0, after)) :
    ∃ vfs middle purged, manager.vfss.lookup vfsp = some vfs ∧
      unref inactive { manager with
        mountTable := manager.mountTable.erase (stringKey vfs.mountPath) } vfs.covered =
          .ok middle ∧
      vfsPurgeVnodes inactive middle.vnodeTable (some vfsp) order kmalloc = .ok purged ∧
      after = { middle with vnodeTable := purged, vfss := middle.vfss.erase vfsp } := by
  simp only [vfsUnmountFs, bind_eq_ok] at returns
  rcases returns with ⟨vfs, isVfs, returns⟩
  have stored : manager.vfss.lookup vfsp = some vfs := by
    cases found : manager.vfss.lookup vfsp with
    | none => simp [VfsManager.vfs, found] at isVfs
    | some other =>
        rw [VfsManager.vfs, found, Except.ok.injEq] at isVfs
        rw [isVfs]
  split at returns
  · simp only [unmountChecked] at returns
    split at returns
    · rename_i fails
      simp only [pure, Except.pure, Except.ok.injEq, Prod.mk.injEq] at returns
      exact absurd returns.1 fails
    · simp only [isVfs, bind_eq_ok, Except.ok.injEq, exists_eq_left', pure, Except.pure,
        Prod.mk.injEq, true_and, Bindings.hashtableRemove_snd] at returns
      rcases returns with ⟨middle, unrefs, purged, purges, rfl⟩
      exact ⟨vfs, middle, purged, stored, unrefs, purges, rfl⟩
  · simp [pure, Except.pure, einval] at returns

/-- What survives the unmount. -/
theorem vnodes_detached_iff {freed : List Address} {before last : VnodeCache}
    {drops : Address → ℕ} (releases : before.Releases drops freed last)
    (kept : before.KeepsVfsp last) (vfsp : Address) :
    (∀ vp vnode, last.vnodes.lookup vp = some vnode → vnode.vfsp ≠ some vfsp) ↔
      ∀ survivors : Finset Address, before.counts.Retained drops survivors →
        ∀ vp ∈ survivors, ∀ vnode, before.vnodes.lookup vp = some vnode →
          vnode.vfsp ≠ some vfsp := by
  constructor
  · intro detached survivors retained vp survives vnode stored isVfsp
    have notFreed : vp ∉ freed :=
      fun isFreed => releases.cascade.not_freed retained vp isFreed survives
    rcases exists_lookup ((releases.mem vp).mpr ⟨mem_of_lookup stored, notFreed⟩) with
      ⟨left, storedLast⟩
    rcases kept vp left storedLast with ⟨own, storedOwn, same⟩
    rw [stored, Option.some.injEq] at storedOwn
    exact detached vp left storedLast (by rw [← same, ← storedOwn, isVfsp])
  · intro released vp vnode stored
    have retained : before.counts.Retained drops last.vnodes.keys := by
      apply releases.cascade.retained
      · intro node isLoose
        rcases mem_loose.mp isLoose with ⟨own, storedOwn, nonzero, _⟩
        rw [ne_eq, ← UInt32.toNat_inj, UInt32.toNat_zero] at nonzero
        simpa [counts, countOf, storedOwn, Nat.pos_iff_ne_zero] using nonzero
      · intro node isLoose
        rw [Finmap.mem_keys, releases.mem]
        exact and_iff_right (loose_subset isLoose)
    rcases kept vp vnode stored with ⟨own, storedOwn, same⟩
    rw [← same]
    exact released _ retained vp (Finmap.mem_keys.mpr (mem_of_lookup stored)) own storedOwn

end VfsManager

/-- After a successful `vfs_unmount_fs` nothing refers to the filesystem if and only if the
table of mounts has it under its own path only, the purge does not fail for want of memory,
and no vnode of the filesystem is kept in use by other references. -/
theorem unmount_detaches_iff {inactive : VnInactive} (keeps : inactive.KeepsVfsp)
    {manager after : VfsManager} {vfsp : Address} {ret : ℤ} {order : List (List UInt8)}
    {kmalloc : Bool} (listed : manager.vnodeTable.table.Listed order)
    (returns : vfsUnmountFs inactive manager (some vfsp) ret order kmalloc = .ok (0, after)) :
    after.Detached vfsp ↔ manager.Detachable vfsp kmalloc := by
  rcases VfsManager.unmount_cases returns with ⟨vfs, middle, purged, stored, unrefs, purges, rfl⟩
  rcases VfsManager.unref_releases keeps unrefs with ⟨⟨first, releases⟩, kept, table, mounts, vfss⟩
  have mountsIff : (∀ key, middle.mountTable.lookup key ≠ some (some vfsp)) ↔
      ∀ key, manager.mountTable.lookup key = some (some vfsp) →
        ∀ vfs, manager.vfss.lookup vfsp = some vfs → key = stringKey vfs.mountPath := by
    rw [mounts]
    constructor
    · intro gone key bound other isOther
      rw [stored, Option.some.injEq] at isOther
      rw [← isOther]
      by_contra different
      exact gone key (by rw [Finmap.lookup_erase_ne different, bound])
    · intro own key bound
      by_cases same : key = stringKey vfs.mountPath
      · subst same
        simp at bound
      · rw [Finmap.lookup_erase_ne same] at bound
        exact same (own key bound vfs stored)
  have sameKeys : middle.vnodeTable.keysUnder vfsp = manager.vnodeTable.keysUnder vfsp := by
    simp only [VnodeTable.keysUnder, table]
  have listedMiddle : middle.vnodeTable.table.Listed order := by
    rw [table]
    exact listed
  by_cases enough : kmalloc = true ∨ manager.vnodeTable.keysUnder vfsp = ∅
  · rw [← sameKeys] at enough
    rcases vfsPurgeVnodes_releases keeps listedMiddle enough purges with
      ⟨⟨rest, releasesRest⟩, keptRest, noKeys⟩
    have drops : (fun vp => (if vfs.covered = some vp then 1 else 0) +
        middle.vnodeTable.among (keysOf vfsp order) vp) = manager.unmountDrops vfsp := by
      funext vp
      rw [VfsManager.among_keysOf listedMiddle, sameKeys, table, VfsManager.unmountDrops,
        VfsManager.coveredBy, stored]
      rfl
    have total := releases.append releasesRest
    rw [drops] at total
    have vnodes := VfsManager.vnodes_detached_iff total (kept.trans keptRest) vfsp
    rw [sameKeys] at enough
    constructor
    · intro detached
      exact ⟨mountsIff.mp detached.mounts, enough, vnodes.mp detached.vnodes⟩
    · intro detachable
      exact ⟨mountsIff.mpr detachable.mounts, noKeys, vnodes.mpr detachable.vnodes⟩
  · rw [not_or] at enough
    have unpurged : purged = middle.vnodeTable := by
      have refused : kmalloc = false := by simpa using enough.1
      simp only [vfsPurgeVnodes, refused, Bool.not_false, if_true, ite_self, pure, Except.pure,
        Except.ok.injEq] at purges
      exact purges.symm
    constructor
    · intro detached
      have noKeys := detached.entries
      simp only [unpurged, sameKeys] at noKeys
      exact absurd noKeys enough.2
    · intro detachable
      rcases detachable.entries with allocated | noKeys
      · exact absurd allocated enough.1
      · exact absurd noKeys enough.2

/-- A vnode of a filesystem with a count. -/
def vnodeOf (vfsp : Address) (count : UInt32) : Vnode where
  flag := 0
  count := count
  parent := none
  name := List.replicate (nameMax + 1) 0
  vfsp := some vfsp
  type := .vreg
  data := none

/-- A filesystem at 10 covers a vnode of another one and has the vnode of its first node in
the table, which counts `count`. -/
def mountedManager (count : UInt32) : VfsManager where
  vnodeTable :=
    { vnodes :=
        { vnodes := ((∅ : Finmap (fun _ : Address => Vnode)).insert 50 (vnodeOf 20 2)).insert 100
            (vnodeOf 10 count)
          freed := [] }
      table := (∅ : Bindings (Option Address)).insert (createVnodeKey 10 1) (some 100) }
  mountTable := (∅ : Bindings (Option Address)).insert [47, 0] (some 10)
  vfss := (∅ : Finmap (fun _ : Address => Vfs)).insert 10
    { next := none, op := some { mount := true, unmount := true }, covered := some 50, flag := 0,
      mountPath := 47 :: List.replicate 255 0 }

/-- A call whose answer is known. -/
theorem eq_ok_of_toOption {Result Observed : Type} {call : Except Trap Result}
    {observe : Result → Observed} {observed : Observed}
    (answers : call.toOption.map observe = some observed) :
    ∃ result, call = .ok result ∧ observe result = observed := by
  cases call with
  | error trap => cases answers
  | ok result => exact ⟨result, rfl, Option.some.inj answers⟩

/-- The only reference to the vnode goes with the purge. -/
theorem unmount_detaches_iff_purged :
    ∃ after, vfsUnmountFs .absent (mountedManager 1) (some 10) 0 [createVnodeKey 10 1] true =
        .ok (0, after) ∧ after.vnodeTable.vnodes.freed = [100] ∧
      (after.Detached 10 ↔ (mountedManager 1).Detachable 10 true) := by
  have returns : (vfsUnmountFs .absent (mountedManager 1) (some 10) 0 [createVnodeKey 10 1]
      true).toOption.map (fun answer => (answer.1, answer.2.vnodeTable.vnodes.freed)) =
        some (0, [100]) := by
    decide +kernel
  have listed : (mountedManager 1).vnodeTable.table.Listed [createVnodeKey 10 1] := by
    decide +kernel
  rcases eq_ok_of_toOption returns with ⟨⟨code, after⟩, unmounts, observed⟩
  simp only [Prod.mk.injEq] at observed
  rcases observed with ⟨rfl, freed⟩
  exact ⟨after, unmounts, freed, unmount_detaches_iff VnInactive.keepsVfsp_absent listed unmounts⟩

/-- A vnode with another reference, that of an open file, stays in use, and without memory
for its array the purge leaves the entry in the table; `vfs_unmount_fs` returns zero. -/
theorem unmount_leaves_references :
    (∃ after, vfsUnmountFs .absent (mountedManager 2) (some 10) 0 [createVnodeKey 10 1] true =
        .ok (0, after) ∧ ¬ after.Detached 10) ∧
      ∃ after, vfsUnmountFs .absent (mountedManager 1) (some 10) 0 [createVnodeKey 10 1] false =
        .ok (0, after) ∧ ¬ after.Detached 10 := by
  constructor
  · have returns : (vfsUnmountFs .absent (mountedManager 2) (some 10) 0 [createVnodeKey 10 1]
        true).toOption.map (fun answer =>
          (answer.1, answer.2.vnodeTable.vnodes.vnodes.lookup 100)) =
            some (0, some (vnodeOf 10 1)) := by
      decide +kernel
    rcases eq_ok_of_toOption returns with ⟨⟨code, after⟩, unmounts, observed⟩
    simp only [Prod.mk.injEq] at observed
    rcases observed with ⟨rfl, stored⟩
    exact ⟨after, unmounts, fun detached => detached.vnodes 100 _ stored rfl⟩
  · have returns : (vfsUnmountFs .absent (mountedManager 1) (some 10) 0 [createVnodeKey 10 1]
        false).toOption.map (fun answer =>
          (answer.1, decide (createVnodeKey 10 1 ∈ answer.2.vnodeTable.keysUnder 10))) =
            some (0, true) := by
      decide +kernel
    rcases eq_ok_of_toOption returns with ⟨⟨code, after⟩, unmounts, observed⟩
    simp only [Prod.mk.injEq, decide_eq_true_eq] at observed
    rcases observed with ⟨rfl, left⟩
    refine ⟨after, unmounts, fun detached => ?_⟩
    rw [detached.entries] at left
    simp at left

end Goshkik
