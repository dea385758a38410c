import Goshkik.Fs.MountRuns
import Goshkik.Fs.Unmount
import Goshkik.Fs.VnodeBacking

/-!
# What vfs_mount_fs leaves behind

The fields of a filesystem are overwritten before its own `vfs_mount` is called, and are left so
when it fails; the reference on the covered vnode is dropped again.  Once it has succeeded, the path
is copied into a buffer of 256 bytes and stored from there, and the answer of the table is not
looked at.
-/

namespace Goshkik

open Transition VnodeCache

/-- The fields that `vfs_mount_fs` sets before it calls `vfs_mount`. -/
def Vfs.prepared (vfs : Vfs) (covered : Option Address) (flags : UInt32) : Vfs :=
  { vfs with covered := covered, flag := flags, next := none }

variable {inactive : VnInactive} {manager after : VfsManager} {vfsp : Address}
  {covered : Option Address}
  {path : CString} {flags : UInt32} {ret code : ℤ} {room : Bool} {vfs : Vfs}

namespace VfsManager

/-- The filesystem has a `vfs_mount` to call. -/
def mounts (vfs : Vfs) : Bool := vfs.op.any (fun op => op.mount)

theorem insert_stored (stored : manager.vfss.lookup vfsp = some vfs) :
    manager.vfss.insert vfsp vfs = manager.vfss := by
  apply Finmap.ext_lookup
  intro other
  by_cases same : other = vfsp
  · rw [same, Finmap.lookup_insert, stored]
  · rw [Finmap.lookup_insert_of_ne _ same]

/-- A call that finds no `vfs_mount` changes nothing. -/
theorem mount_refused (stored : manager.vfss.lookup vfsp = some vfs)
    (noMount : mounts vfs = false) :
    vfsMountFs inactive manager (some vfsp) covered (some path) flags ret room =
      .ok (-einval, manager) := by
  simp only [mounts] at noMount
  simp [vfsMountFs, vfs_eq_ok.mpr stored, noMount, bind, Except.bind, pure, Except.pure]

/-- What `vfs_mount` returns is passed on. -/
theorem mount_code (stored : manager.vfss.lookup vfsp = some vfs) (isMount : mounts vfs = true)
    (returns : vfsMountFs inactive manager (some vfsp) covered (some path) flags ret room =
      .ok (code, after)) :
    code = ret := by
  simp only [mounts] at isMount
  simp only [vfsMountFs, vfs_eq_ok.mpr stored, isMount, if_true, mountChecked, bind_eq_ok,
    Except.ok.injEq, exists_eq_left'] at returns
  rcases returns with ⟨prepared, prepares, reffed, refs, returns⟩
  split at returns <;> simp only [bind_eq_ok, pure, Except.pure, Except.ok.injEq,
    Prod.mk.injEq] at returns
  · rcases returns with ⟨_, _, same, _⟩
    exact same.symm
  · rename_i succeeds
    rcases returns with ⟨_, _, _, _, same, _⟩
    rw [← same, not_not.mp succeeds]

/-- A call whose `vfs_mount` fails has set the fields and dropped its reference again. -/
theorem mount_failed (stored : manager.vfss.lookup vfsp = some vfs) (isMount : mounts vfs = true)
    (fails : ret ≠ 0)
    (returns : vfsMountFs inactive manager (some vfsp) covered (some path) flags ret room =
      .ok (code, after)) :
    ∃ reffed, ref { manager with vfss := manager.vfss.insert vfsp (vfs.prepared covered flags) }
      covered =
      .ok reffed ∧ unref inactive reffed covered = .ok after := by
  simp only [mounts] at isMount
  simp only [vfsMountFs, vfs_eq_ok.mpr stored, isMount, if_true, mountChecked, bind_eq_ok,
    Except.ok.injEq, exists_eq_left', fails, ne_eq, not_false_eq_true, pure, Except.pure,
    Prod.mk.injEq] at returns
  rcases returns with ⟨prepared, prepares, reffed, refs, last, unrefs, -, rfl⟩
  rcases modify_effect prepares with ⟨other, storedOther, rfl⟩
  rw [stored, Option.some.injEq] at storedOther
  subst storedOther
  exact ⟨reffed, refs, unrefs⟩

/-- A call whose `vfs_mount` succeeds. -/
theorem mount_succeeded
    (returns : vfsMountFs inactive manager (some vfsp) covered (some path) flags 0 room =
      .ok (0, after)) :
    ∃ vfs, manager.vfss.lookup vfsp = some vfs ∧
      after.vfss = manager.vfss.insert vfsp { vfs.prepared covered flags with
        mountPath := strlcpy vfs.mountPath path } ∧
      after.mountTable =
        (manager.mountTable.hashtableSet (some vfsp) (stringKey (strlcpy vfs.mountPath path))
          room).2 := by
  simp only [vfsMountFs, bind_eq_ok] at returns
  rcases returns with ⟨vfs, found, returns⟩
  split at returns
  · simp only [mountChecked, ne_eq, not_true, if_false, bind_eq_ok, pure, Except.pure,
      Except.ok.injEq, Prod.mk.injEq, true_and] at returns
    rcases returns with ⟨prepared, prepares, reffed, refs, named, names, last, storedLast, rfl⟩
    rcases modify_effect prepares with ⟨vfs, stored, rfl⟩
    rcases ref_effect refs with ⟨vfss, mountTable⟩
    rcases modify_effect names with ⟨middle, storedMiddle, rfl⟩
    rw [vfss, Finmap.lookup_insert, Option.some.injEq] at storedMiddle
    subst storedMiddle
    have storedLast := vfs_eq_ok.mp storedLast
    simp only [Finmap.lookup_insert, Option.some.injEq] at storedLast
    subst storedLast
    exact ⟨vfs, stored, by simp only [vfss, Finmap.insert_insert, Vfs.prepared],
      by simp only [mountTable]⟩
  · simp [pure, Except.pure, einval] at returns

theorem vfs_of_mount
    (returns : vfsMountFs inactive manager (some vfsp) covered (some path) flags ret room =
      .ok (code, after)) :
    ∃ vfs, manager.vfss.lookup vfsp = some vfs := by
  cases found : manager.vfs vfsp with
  | error trap => simp [vfsMountFs, found, bind, Except.bind] at returns
  | ok vfs => exact ⟨vfs, vfs_eq_ok.mp found⟩

/-- A call that returns 0 has a `vfs_mount` that returns 0. -/
theorem ret_of_mounted
    (returns : vfsMountFs inactive manager (some vfsp) covered (some path) flags ret room =
      .ok (0, after)) :
    ret = 0 := by
  rcases vfs_of_mount returns with ⟨vfs, stored⟩
  cases isMount : mounts vfs with
  | true => exact (mount_code stored isMount returns).symm
  | false =>
      rw [mount_refused stored isMount] at returns
      simp [einval] at returns

/-! ## Failure -/

/-- A reference that is taken on a vnode in use and dropped leaves its count, and the other
counts. -/
theorem unref_ref {reffed : VfsManager} {vfss : Finmap (fun _ : Address => Vfs)}
    (held : ∀ vp ∈ covered, 0 < manager.vnodeTable.vnodes.countOf vp)
    (refs : ref { manager with vfss := vfss } covered = .ok reffed)
    (unrefs : unref inactive reffed covered = .ok after) (vp : Address) :
    after.vnodeTable.vnodes.countOf vp = manager.vnodeTable.vnodes.countOf vp := by
  simp only [ref, unref, bind_eq_ok, pure, Except.pure, Except.ok.injEq] at refs unrefs
  rcases refs with ⟨vnodes, takes, rfl⟩
  rcases unrefs with ⟨table, puts, rfl⟩
  cases covered with
  | none =>
      simp only [vnodeRefIf, vnodePut, pure, Except.pure, Except.ok.injEq] at takes puts
      rw [← puts, ← takes]
  | some own =>
      simp only [vnodePut, bind_eq_ok, pure, Except.pure, Except.ok.injEq] at puts
      rcases puts with ⟨last, drops, rfl⟩
      have positive := held own rfl
      rcases exists_lookup (mem_of_countOf positive) with ⟨vnode, stored⟩
      rw [vnodeRefIf, vnodeRef, modify_eq stored, Except.ok.injEq] at takes
      have storedTaken :
          vnodes.vnodes.lookup own = some { vnode with count := vnode.count + 1 } := by
        rw [← takes, lookup_put_self]
      have counted := countOf_pos_of_returns drops
      rw [countOf_eq storedTaken] at counted
      rw [countOf_eq stored] at positive
      have grown : (vnode.count + 1).toNat = vnode.count.toNat + 1 := by
        have bound := vnode.count.toNat_lt
        rw [UInt32.toNat_add, UInt32.toNat_one] at counted ⊢
        omega
      have nonzero : vnode.count + 1 ≠ 0 := fun zero => by
        rw [zero, UInt32.toNat_zero] at counted
        exact lt_irrefl 0 counted
      have more : 1 < vnode.count + 1 := by
        rw [UInt32.lt_iff_toNat_lt, grown, UInt32.toNat_one]
        omega
      rcases unrefWithin_stays storedTaken nonzero (.inl more) with ⟨flag, stays⟩
      rw [vnodeUnref, stays, Except.ok.injEq] at drops
      rw [← drops, ← takes, countOf_put, countOf_put, Function.update_idem]
      by_cases same : vp = own
      · subst same
        simp [countOf_eq stored]
      · simp [same]

/-- The filesystems, the table of mounts and the counts of the vnodes are the same. -/
structure SameMounts (manager after : VfsManager) : Prop where
  vfss : after.vfss = manager.vfss
  mountTable : after.mountTable = manager.mountTable
  counts : ∀ vp, after.vnodeTable.vnodes.countOf vp = manager.vnodeTable.vnodes.countOf vp

/-- A call of `vfs_mount_fs` that fails has nothing to undo but its reference: it returns before it
sets the fields, or they have these values already. -/
def Undone (manager : VfsManager) (vfsp : Option Address) (covered : Option Address)
    (path : Option CString)
    (flags : UInt32) : Prop :=
  path = none ∨ ∀ vfs, vfsp.bind manager.vfss.lookup = some vfs →
    mounts vfs = false ∨ (vfs.covered = covered ∧ vfs.flag = flags ∧ vfs.next = none)

theorem SameMounts.refl (manager : VfsManager) : manager.SameMounts manager :=
  ⟨rfl, rfl, fun _ => rfl⟩

theorem prepared_eq_iff : vfs.prepared covered flags = vfs ↔
    vfs.covered = covered ∧ vfs.flag = flags ∧ vfs.next = none := by
  cases vfs
  simp only [Vfs.prepared, Vfs.mk.injEq, true_and, and_true]
  tauto

end VfsManager

/-- A failed `vfs_mount_fs` leaves the filesystems, the table of mounts and the counts of the vnodes
as they were if and only if it has no `vfs_mount` to call or is given what the fields of the
filesystem hold. -/
theorem failed_mount_unchanged_iff {vfsp : Option Address} {path : Option CString}
    (held : ∀ vp ∈ covered, 0 < manager.vnodeTable.vnodes.countOf vp)
    (returns : vfsMountFs inactive manager vfsp covered path flags ret room = .ok (code, after))
    (fails : code ≠ 0) :
    manager.SameMounts after ↔ manager.Undone vfsp covered path flags := by
  cases path with
  | none =>
      have unchanged : after = manager := by
        cases vfsp <;> simp_all [vfsMountFs, pure, Except.pure]
      exact unchanged ▸ ⟨fun _ => .inl rfl, fun _ => .refl after⟩
  | some path =>
      cases vfsp with
      | none =>
          simp only [vfsMountFs, pure, Except.pure, Except.ok.injEq, Prod.mk.injEq] at returns
          exact returns.2 ▸ ⟨fun _ => .inr (by simp), fun _ => .refl manager⟩
      | some vfsp =>
          rcases VfsManager.vfs_of_mount returns with ⟨vfs, stored⟩
          simp only [VfsManager.Undone, reduceCtorEq, false_or, Option.bind_some, stored,
            Option.some.injEq, forall_eq']
          cases isMount : VfsManager.mounts vfs with
          | false =>
              rw [VfsManager.mount_refused stored isMount, Except.ok.injEq,
                Prod.mk.injEq] at returns
              exact returns.2 ▸ ⟨fun _ => .inl rfl, fun _ => .refl manager⟩
          | true =>
              have nonzero : ret ≠ 0 := VfsManager.mount_code stored isMount returns ▸ fails
              rcases VfsManager.mount_failed stored isMount nonzero returns with
                ⟨reffed, refs, unrefs⟩
              rcases VfsManager.ref_effect refs with ⟨vfssRef, mountTableRef⟩
              rcases VfsManager.unref_effect unrefs with ⟨vfssUnref, mountTableUnref⟩
              have vfss : after.vfss = manager.vfss.insert vfsp (vfs.prepared covered flags) := by
                rw [vfssUnref, vfssRef]
              simp only [reduceCtorEq, false_or]
              rw [← VfsManager.prepared_eq_iff]
              constructor
              · intro same
                have kept := stored
                rw [← same.vfss, vfss, Finmap.lookup_insert, Option.some.injEq] at kept
                exact kept
              · intro same
                refine ⟨?_, mountTableUnref.trans mountTableRef, VfsManager.unref_ref held refs
                  unrefs⟩
                rw [vfss, same, VfsManager.insert_stored stored]

/-- The fields of the filesystem hold what the call is given. -/
theorem failed_mount_unchanged_iff_again :
    ∃ after, vfsMountFs .absent (mountedManager 1) (some 10) (some 50) (some rootPath) 0 (-5) true =
      .ok (-5, after) ∧
      ((mountedManager 1).SameMounts after ↔
        (mountedManager 1).Undone (some 10) (some 50) (some rootPath) 0) := by
  have returns : (vfsMountFs .absent (mountedManager 1) (some 10) (some 50) (some rootPath) 0 (-5)
      true).toOption.map Prod.fst = some (-5) := by
    decide +kernel
  rcases eq_ok_of_toOption returns with ⟨⟨code, after⟩, fails, rfl⟩
  have held : ∀ vp ∈ some 50, 0 < (mountedManager 1).vnodeTable.vnodes.countOf vp := by
    decide +kernel
  exact ⟨after, fails, failed_mount_unchanged_iff held fails (by decide)⟩

/-- A filesystem that is mounted on one vnode and fails to be mounted on another one is left
covering the other one, on which it has no reference. -/
theorem failed_mount_moves_covered :
    ∃ after, vfsMountFs .absent (mountedManager 1) (some 10) (some 100) (some rootPath) 7 (-5)
      true =
      .ok (-5, after) ∧ (mountedManager 1).coveredBy 10 = some 50 ∧ after.coveredBy 10 = some 100 ∧
      after.vnodeTable.vnodes.countOf 100 = 1 ∧ ¬ (mountedManager 1).SameMounts after := by
  have returns : (vfsMountFs .absent (mountedManager 1) (some 10) (some 100) (some rootPath) 7 (-5)
      true).toOption.map (fun answer =>
        (answer.1, answer.2.coveredBy 10, answer.2.vnodeTable.vnodes.countOf 100)) =
          some (-5, some 100, 1) := by
    decide +kernel
  have before : (mountedManager 1).coveredBy 10 = some 50 := by decide +kernel
  rcases eq_ok_of_toOption returns with ⟨⟨code, after⟩, fails, observed⟩
  simp only [Prod.mk.injEq] at observed
  rcases observed with ⟨rfl, moved, counted⟩
  refine ⟨after, fails, before, moved, counted, fun same => ?_⟩
  rw [VfsManager.coveredBy, same.vfss, ← VfsManager.coveredBy, before] at moved
  exact absurd moved (by decide)

end Goshkik
