import Goshkik.Fs.MountOutcome

/-!
# Looking up what has been mounted

`vfs_mount_fs` stores a filesystem under the path in its buffer, which a long path does not fit
into, and `vfs_from_path` looks for the path that the caller has.  No key of the table is longer
than the buffer, so a path that is cut short is found by nobody.

The calls are those of `vfs.c` with any answer of the filesystem's own functions and of the table.
-/

namespace Goshkik

open Transition MountWorld

inductive VfsCall where
  | alloc (vfsp : Address) (vfs : Vfs)
  | vnodes (vnodeTable : VnodeTable)
  | mount (vfsp : Address) (covered : Option Address) (path : CString) (flags : UInt32) (ret : ℤ)
      (room : Bool)
  | unmount (vfsp : Address) (ret : ℤ) (order : List (List UInt8)) (kmalloc : Bool)

variable {inactive : VnInactive} {manager after : VfsManager} {vfsp : Address}
  {covered : Option Address}
  {path : CString} {flags : UInt32} {ret code : ℤ} {room kmalloc : Bool} {vfs : Vfs}
  {order : List (List UInt8)}

namespace VfsCall

/-- The slab allocator hands out what nobody uses. -/
def Allowed (manager : VfsManager) : VfsCall → Prop
  | .alloc vfsp vfs => vfsp ∉ manager.vfss ∧ vfs.mountPath.length = vfsMountPathMax
  | _ => True

instance (manager : VfsManager) : (call : VfsCall) → Decidable (call.Allowed manager)
  | .alloc vfsp vfs => inferInstanceAs
      (Decidable (vfsp ∉ manager.vfss ∧ vfs.mountPath.length = vfsMountPathMax))
  | .vnodes _ => inferInstanceAs (Decidable True)
  | .mount _ _ _ _ _ _ => inferInstanceAs (Decidable True)
  | .unmount _ _ _ _ => inferInstanceAs (Decidable True)

def exec (inactive : VnInactive) (manager : VfsManager) : VfsCall → Except Trap VfsManager
  | .alloc vfsp vfs => return { manager with vfss := manager.vfss.insert vfsp vfs }
  | .vnodes vnodeTable => return { manager with vnodeTable := vnodeTable }
  | .mount vfsp covered path flags ret room => do
      let (_, manager) ← vfsMountFs inactive manager (some vfsp) covered (some path) flags ret room
      return manager
  | .unmount vfsp ret order kmalloc => do
      let (_, manager) ← vfsUnmountFs inactive manager (some vfsp) ret order kmalloc
      return manager

def Step (inactive : VnInactive) (manager : VfsManager) (call : VfsCall) (after : VfsManager) :
    Prop :=
  call.Allowed manager ∧ call.exec inactive manager = .ok after

/-- One step, taken where it is allowed and `guard` holds. -/
def next (inactive : VnInactive) (guard : VfsManager → VfsCall → Bool) (manager : VfsManager)
    (call : VfsCall) :
    Option VfsManager :=
  if guard manager call ∧ call.Allowed manager then (call.exec inactive manager).toOption else none

/-- The filesystem is not mounted on another path and stays mounted. -/
def Keeps (vfsp : Address) (path : CString) (_ : VfsManager) : VfsCall → Prop
  | .mount other _ otherPath _ ret _ => other = vfsp → ret = 0 → otherPath = path
  | .unmount other ret _ _ => other = vfsp → ret ≠ 0
  | _ => True

end VfsCall

/-! ## The table -/

theorem length_stringKey_le (buffer : List UInt8) : (stringKey buffer).length ≤ buffer.length := by
  rw [stringKey, List.length_take]
  exact Nat.min_le_right _ _

namespace VfsManager

/-- The buffers have their size, and the keys come from them. -/
structure Buffered (manager : VfsManager) : Prop where
  buffers : ∀ vfsp vfs, manager.vfss.lookup vfsp = some vfs → vfs.mountPath.length = vfsMountPathMax
  keys : ∀ key value, manager.mountTable.lookup key = some value →
    key.length ≤ vfsMountPathMax ∧ value.isSome

/-- The path in the buffer of a filesystem. -/
def MountedAt (manager : VfsManager) (vfsp : Address) (path : CString) : Prop :=
  ∃ vfs, manager.vfss.lookup vfsp = some vfs ∧ stringKey vfs.mountPath = pathKey path

theorem Buffered.lookup_long (buffered : manager.Buffered)
    (long : vfsMountPathMax ≤ path.val.length) :
    manager.mountTable.lookup (pathKey path) = none := by
  cases bound : manager.mountTable.lookup (pathKey path) with
  | none => rfl
  | some value =>
      have short := (buffered.keys _ _ bound).1
      rw [pathKey, List.length_append, List.length_singleton] at short
      omega

theorem vfsFromPath_eq_join (manager : VfsManager) (path : CString) :
    vfsFromPath manager (some path) = (manager.mountTable.lookup (pathKey path)).join := by
  simp only [vfsFromPath, Bindings.hashtableGet, pathKey]
  cases manager.mountTable.lookup (path.val ++ [0]) <;> rfl

theorem Buffered.vfsFromPath_none_iff (buffered : manager.Buffered) :
    vfsFromPath manager (some path) = none ↔ pathKey path ∉ manager.mountTable := by
  rw [vfsFromPath_eq_join, ← Finmap.lookup_eq_none]
  cases bound : manager.mountTable.lookup (pathKey path) with
  | none => simp
  | some value =>
      rcases Option.isSome_iff_exists.mp (buffered.keys _ _ bound).2 with ⟨vfsp, rfl⟩
      simp

/-- Storing a filesystem under the path in a buffer. -/
theorem Buffered.set {buffer : List UInt8} (buffered : manager.Buffered)
    (sized : buffer.length = vfsMountPathMax)
    {key : List UInt8} {value : Option Address}
    (bound : (manager.mountTable.hashtableSet (some vfsp) (stringKey buffer) room).2.lookup key =
      some value) :
    key.length ≤ vfsMountPathMax ∧ value.isSome := by
  by_cases stores : stringKey buffer ∈ manager.mountTable ∨ room = true
  · rw [Bindings.hashtableSet_stores stores] at bound
    by_cases same : key = stringKey buffer
    · rw [same, Finmap.lookup_insert, Option.some.injEq] at bound
      rw [same, ← bound, ← sized]
      exact ⟨length_stringKey_le buffer, rfl⟩
    · rw [Finmap.lookup_insert_of_ne _ same] at bound
      exact buffered.keys key value bound
  · rw [Bindings.hashtableSet_refuses stores] at bound
    exact buffered.keys key value bound

/-- A call of `vfs_mount_fs` leaves the table and the buffers, or it has stored the filesystem. -/
theorem mount_buffer
    (returns : vfsMountFs inactive manager (some vfsp) covered (some path) flags ret room =
      .ok (code, after)) :
    ∃ vfs last, manager.vfss.lookup vfsp = some vfs ∧ after.vfss = manager.vfss.insert vfsp last ∧
      ((last.mountPath = vfs.mountPath ∧ after.mountTable = manager.mountTable) ∨
      (ret = 0 ∧ last.mountPath = strlcpy vfs.mountPath path ∧ after.mountTable =
        (manager.mountTable.hashtableSet (some vfsp) (stringKey (strlcpy vfs.mountPath path))
          room).2)) := by
  rcases vfs_of_mount returns with ⟨vfs, stored⟩
  by_cases succeeds : code = 0
  · subst succeeds
    obtain rfl := ret_of_mounted returns
    rcases mount_succeeded returns with ⟨own, storedOwn, vfss, mountTable⟩
    exact ⟨own, _, storedOwn, vfss, .inr ⟨rfl, rfl, mountTable⟩⟩
  · cases isMount : mounts vfs with
    | false =>
        rw [mount_refused stored isMount, Except.ok.injEq, Prod.mk.injEq] at returns
        exact ⟨vfs, vfs, stored, by rw [insert_stored stored, returns.2],
          .inl ⟨rfl, by rw [returns.2]⟩⟩
    | true =>
        have fails : ret ≠ 0 := mount_code stored isMount returns ▸ succeeds
        rcases mount_failed stored isMount fails returns with ⟨reffed, refs, unrefs⟩
        rcases ref_effect refs with ⟨vfssRef, mountTableRef⟩
        rcases unref_effect unrefs with ⟨vfssUnref, mountTableUnref⟩
        exact ⟨vfs, _, stored, vfssUnref.trans vfssRef,
          .inl ⟨rfl, mountTableUnref.trans mountTableRef⟩⟩

/-- A call of `vfs_unmount_fs` changes nothing, or it has removed the path in the buffer. -/
theorem unmount_buffer
    (returns : vfsUnmountFs inactive manager (some vfsp) ret order kmalloc = .ok (code, after)) :
    after = manager ∨ (ret = 0 ∧ ∃ vfs, manager.vfss.lookup vfsp = some vfs ∧
      after.vfss = manager.vfss.erase vfsp ∧
      after.mountTable = manager.mountTable.erase (stringKey vfs.mountPath)) := by
  by_cases succeeds : ret = 0
  · subst succeeds
    rcases unmount_effect returns with ⟨_, unchanged⟩ | ⟨_, vfs, stored, vfss, mountTable⟩
    · exact .inl unchanged
    · exact .inr ⟨rfl, vfs, stored, vfss, mountTable⟩
  · left
    simp only [vfsUnmountFs, unmountChecked, succeeds, ne_eq, not_false_eq_true, if_true,
      bind_eq_ok, pure, Except.pure] at returns
    rcases returns with ⟨vfs, _, returns⟩
    split at returns <;> simp only [Except.ok.injEq, Prod.mk.injEq] at returns <;>
      exact returns.2.symm

end VfsManager

/-! ## Runs -/

namespace VfsCall

open VfsManager

variable {call : VfsCall}

theorem Step.buffered (step : call.Step inactive manager after) (buffered : manager.Buffered) :
    after.Buffered := by
  rcases step with ⟨allowed, executes⟩
  cases call with
  | alloc vfsp vfs =>
      simp only [exec, pure, Except.pure, Except.ok.injEq] at executes
      subst executes
      refine ⟨fun other found stored => ?_, buffered.keys⟩
      by_cases same : other = vfsp
      · rw [same, Finmap.lookup_insert, Option.some.injEq] at stored
        exact stored ▸ allowed.2
      · rw [Finmap.lookup_insert_of_ne _ same] at stored
        exact buffered.buffers other found stored
  | vnodes vnodeTable =>
      simp only [exec, pure, Except.pure, Except.ok.injEq] at executes
      exact executes ▸ ⟨buffered.buffers, buffered.keys⟩
  | mount vfsp covered path flags ret room =>
      simp only [exec, bind_eq_ok, pure, Except.pure, Except.ok.injEq, Prod.exists] at executes
      rcases executes with ⟨code, last, returns, rfl⟩
      rcases mount_buffer returns with ⟨vfs, last, stored, vfss, cases⟩
      have sized := buffered.buffers vfsp vfs stored
      constructor
      · intro other found storedOther
        rw [vfss] at storedOther
        by_cases same : other = vfsp
        · rw [same, Finmap.lookup_insert, Option.some.injEq] at storedOther
          rcases cases with ⟨path, _⟩ | ⟨_, path, _⟩
          · rw [← storedOther, path, sized]
          · rw [← storedOther, path, length_strlcpy, sized]
        · rw [Finmap.lookup_insert_of_ne _ same] at storedOther
          exact buffered.buffers other found storedOther
      · intro key value bound
        rcases cases with ⟨_, mountTable⟩ | ⟨_, _, mountTable⟩
        · rw [mountTable] at bound
          exact buffered.keys key value bound
        · rw [mountTable] at bound
          exact buffered.set (by rw [length_strlcpy, sized]) bound
  | unmount vfsp ret order kmalloc =>
      simp only [exec, bind_eq_ok, pure, Except.pure, Except.ok.injEq, Prod.exists] at executes
      rcases executes with ⟨code, last, returns, rfl⟩
      rcases unmount_buffer returns with rfl | ⟨_, vfs, stored, vfss, mountTable⟩
      · exact buffered
      · constructor
        · intro other found storedOther
          rw [vfss] at storedOther
          exact buffered.buffers other found (Finmap.lookup_of_erase storedOther)
        · intro key value bound
          rw [mountTable] at bound
          exact buffered.keys key value (Finmap.lookup_of_erase bound)

theorem next_step {guard : VfsManager → VfsCall → Bool} (manager : VfsManager) (call : VfsCall)
    (after : VfsManager)
    (steps : next inactive guard manager call = some after) :
    Guarded (fun manager call => guard manager call = true) (Step inactive) manager call after :=
  permitted_of_eq_some steps

theorem Run.buffered {calls : List VfsCall}
    (run : Run (Step inactive) MountWorld.initial.manager calls manager) :
    manager.Buffered :=
  run.invariant (fun _ _ _ buffered step => step.buffered buffered)
    ⟨by simp [initial], by simp [initial]⟩

/-- A filesystem that stays mounted where it is has the path in its buffer. -/
theorem Step.mountedAt (step : Guarded (Keeps vfsp path) (Step inactive) manager call after)
    (buffered : manager.Buffered) (short : path.val.length < vfsMountPathMax)
    (mountedAt : manager.MountedAt vfsp path) : after.MountedAt vfsp path := by
  rcases step with ⟨keeps, allowed, executes⟩
  rcases mountedAt with ⟨own, storedOwn, isPath⟩
  cases call with
  | alloc other vfs =>
      simp only [exec, pure, Except.pure, Except.ok.injEq] at executes
      subst executes
      have different : vfsp ≠ other := by
        rintro rfl
        exact allowed.1 (Finmap.mem_of_lookup_eq_some storedOwn)
      exact ⟨own, by rwa [Finmap.lookup_insert_of_ne _ different], isPath⟩
  | vnodes vnodeTable =>
      simp only [exec, pure, Except.pure, Except.ok.injEq] at executes
      exact executes ▸ ⟨own, storedOwn, isPath⟩
  | mount other covered otherPath flags ret room =>
      simp only [exec, bind_eq_ok, pure, Except.pure, Except.ok.injEq, Prod.exists] at executes
      rcases executes with ⟨code, last, returns, rfl⟩
      rcases mount_buffer returns with ⟨vfs, last, stored, vfss, cases⟩
      by_cases same : vfsp = other
      · subst same
        refine ⟨last, by rw [vfss, Finmap.lookup_insert], ?_⟩
        rcases cases with ⟨buffer, _⟩ | ⟨succeeds, buffer, _⟩
        · rw [storedOwn, Option.some.injEq] at stored
          rw [buffer, ← stored, isPath]
        · obtain rfl := keeps rfl succeeds
          rw [buffer]
          exact stringKey_strlcpy otherPath (by rwa [buffered.buffers vfsp vfs stored])
      · exact ⟨own, by rwa [vfss, Finmap.lookup_insert_of_ne _ same], isPath⟩
  | unmount other ret order kmalloc =>
      simp only [exec, bind_eq_ok, pure, Except.pure, Except.ok.injEq, Prod.exists] at executes
      rcases executes with ⟨code, last, returns, rfl⟩
      rcases unmount_buffer returns with rfl | ⟨succeeds, vfs, stored, vfss, mountTable⟩
      · exact ⟨own, storedOwn, isPath⟩
      · have different : vfsp ≠ other := fun same => keeps same.symm succeeds
        exact ⟨own, by rwa [vfss, Finmap.lookup_erase_ne different], isPath⟩

theorem Run.mountedAt {calls : List VfsCall}
    (run : Run (Guarded (Keeps vfsp path) (Step inactive)) manager calls after)
    (buffered : manager.Buffered)
    (short : path.val.length < vfsMountPathMax) (mountedAt : manager.MountedAt vfsp path) :
    after.MountedAt vfsp path := by
  induction run with
  | nil manager => exact mountedAt
  | cons head tail hypothesis =>
      exact hypothesis (head.2.buffered buffered) (Step.mountedAt head buffered short mountedAt)

end VfsCall

namespace VfsManager

/-- The filesystem can be looked up after a successful `vfs_mount_fs`. -/
theorem vfsFromPath_mounted_iff (buffered : manager.Buffered)
    (returns : vfsMountFs inactive manager (some vfsp) covered (some path) flags ret room =
      .ok (0, after)) :
    vfsFromPath after (some path) = some vfsp ↔
      path.val.length < vfsMountPathMax ∧ (pathKey path ∈ manager.mountTable ∨ room = true) := by
  obtain rfl := ret_of_mounted returns
  rcases mount_succeeded returns with ⟨vfs, stored, _, mountTable⟩
  have sized := buffered.buffers vfsp vfs stored
  have last : after.Buffered := by
    have step : (VfsCall.mount vfsp covered path flags 0 room).Step inactive manager after :=
      ⟨trivial, by simp [VfsCall.exec, returns, bind, Except.bind, pure, Except.pure]⟩
    exact step.buffered buffered
  by_cases short : path.val.length < vfsMountPathMax
  · rw [stringKey_strlcpy path (by rwa [sized])] at mountTable
    rw [vfsFromPath_eq_join, mountTable, and_iff_right short]
    by_cases stores : pathKey path ∈ manager.mountTable ∨ room = true
    · simp [Bindings.hashtableSet_stores stores, stores]
    · have unbound : manager.mountTable.lookup (pathKey path) = none := by
        rw [Finmap.lookup_eq_none]
        exact fun bound => stores (.inl bound)
      simp [Bindings.hashtableSet_refuses stores, stores, unbound]
  · rw [vfsFromPath_eq_join, last.lookup_long (not_lt.mp short)]
    simp [short]

/-- A successful `vfs_unmount_fs` hides a path if the filesystem has it in its buffer or nothing is
there. -/
theorem vfsFromPath_unmounted_iff (buffered : manager.Buffered)
    (returns : vfsUnmountFs inactive manager (some vfsp) ret order kmalloc = .ok (0, after)) :
    vfsFromPath after (some path) = none ↔
      manager.MountedAt vfsp path ∨ pathKey path ∉ manager.mountTable := by
  have last : after.Buffered := by
    have step : (VfsCall.unmount vfsp ret order kmalloc).Step inactive manager after :=
      ⟨trivial, by simp [VfsCall.exec, returns, bind, Except.bind, pure, Except.pure]⟩
    exact step.buffered buffered
  rcases unmount_cases returns with ⟨vfs, middle, purged, stored, unrefs, _, rfl⟩
  have mountTable : middle.mountTable = manager.mountTable.erase (stringKey vfs.mountPath) :=
    (unref_effect unrefs).2
  have own : manager.MountedAt vfsp path ↔ pathKey path = stringKey vfs.mountPath := by
    simp [MountedAt, stored, eq_comm]
  rw [last.vfsFromPath_none_iff, own]
  simp only [mountTable, Finmap.mem_erase]
  tauto

end VfsManager

/-- The state that some calls lead to. -/
def VfsCall.reached (calls : List VfsCall) : Option VfsManager :=
  follow (VfsCall.next .absent (fun _ _ => true)) calls MountWorld.initial.manager

theorem VfsCall.reached_run {calls : List VfsCall}
    (follows : VfsCall.reached calls = some manager) :
    Run (VfsCall.Step .absent) MountWorld.initial.manager calls manager :=
  (run_of_follow VfsCall.next_step follows).unguard

/-- In every reachable state, a filesystem that has been mounted is found under its path if and only
if the path fits into the buffer and the table has the key already or room for it.  After it has
been unmounted, whatever happened in between, the path leads nowhere if and only if it was still in
the buffer or nothing was stored for it, which is so unless the filesystem has been mounted on
another path as well. -/
theorem mount_visible_iff {calls : List VfsCall}
    (run : Run (VfsCall.Step inactive) MountWorld.initial.manager calls manager)
    (mounts : vfsMountFs inactive manager (some vfsp) covered (some path) flags ret room =
      .ok (0, after)) :
    (vfsFromPath after (some path) = some vfsp ↔
      path.val.length < vfsMountPathMax ∧ (pathKey path ∈ manager.mountTable ∨ room = true)) ∧
    (∀ laterCalls later last ret order kmalloc, Run (VfsCall.Step inactive) after laterCalls later →
      vfsUnmountFs inactive later (some vfsp) ret order kmalloc = .ok (0, last) →
      (vfsFromPath last (some path) = none ↔
        later.MountedAt vfsp path ∨ pathKey path ∉ later.mountTable)) ∧
    ∀ laterCalls later last ret order kmalloc,
      Run (Guarded (VfsCall.Keeps vfsp path) (VfsCall.Step inactive)) after laterCalls later →
      vfsUnmountFs inactive later (some vfsp) ret order kmalloc = .ok (0, last) →
      vfsFromPath last (some path) = none := by
  have buffered := VfsCall.Run.buffered run
  have mountRun : Run (VfsCall.Step inactive) MountWorld.initial.manager
      (calls ++ [.mount vfsp covered path flags ret room]) after :=
    run.snoc ⟨trivial, by simp [VfsCall.exec, mounts, bind, Except.bind, pure, Except.pure]⟩
  refine ⟨VfsManager.vfsFromPath_mounted_iff buffered mounts, ?_, ?_⟩
  · intro laterCalls later last ret order kmalloc laterRun unmounts
    exact VfsManager.vfsFromPath_unmounted_iff (VfsCall.Run.buffered (mountRun.trans laterRun))
      unmounts
  · intro laterCalls later last ret order kmalloc laterRun unmounts
    have laterBuffered := VfsCall.Run.buffered (mountRun.trans laterRun.unguard)
    rw [VfsManager.vfsFromPath_unmounted_iff laterBuffered unmounts]
    by_cases short : path.val.length < vfsMountPathMax
    · left
      obtain rfl := VfsManager.ret_of_mounted mounts
      rcases VfsManager.mount_succeeded mounts with ⟨vfs, stored, vfss, _⟩
      have start : after.MountedAt vfsp path := by
        refine ⟨_, by rw [vfss, Finmap.lookup_insert], ?_⟩
        exact stringKey_strlcpy path (by rwa [buffered.buffers vfsp vfs stored])
      exact VfsCall.Run.mountedAt laterRun (VfsCall.Run.buffered mountRun) short start
    · right
      rw [← Finmap.lookup_eq_none]
      exact laterBuffered.lookup_long (not_lt.mp short)

/-- The first filesystem of all on the root path, and off it again. -/
theorem mount_visible_iff_root : ∃ manager after last,
    vfsMountFs .absent manager (some 10) none (some rootPath) 0 0 true = .ok (0, after) ∧
    vfsUnmountFs .absent after (some 10) 0 [] true = .ok (0, last) ∧
    vfsFromPath after (some rootPath) = some 10 ∧ vfsFromPath last (some rootPath) = none := by
  have returns : (VfsCall.reached [.alloc 10 MountWorld.driver]).map (fun manager =>
      (vfsMountFs .absent manager (some 10) none (some rootPath) 0 0 true).toOption.map
        (fun mounted =>
        (mounted.1, (vfsUnmountFs .absent mounted.2 (some 10) 0 [] true).toOption.map Prod.fst))) =
      some (some (0, some 0)) := by
    decide +kernel
  rcases Option.map_eq_some_iff.mp returns with ⟨manager, follows, mounted⟩
  rcases eq_ok_of_toOption mounted with ⟨⟨code, after⟩, mounts, observed⟩
  simp only [Prod.mk.injEq] at observed
  rcases observed with ⟨isZero, unmounted⟩
  subst isZero
  rcases eq_ok_of_toOption unmounted with ⟨⟨code, last⟩, unmounts, isZero⟩
  simp only at isZero
  subst isZero
  have visible := mount_visible_iff (VfsCall.reached_run follows) mounts
  exact ⟨manager, after, last, mounts, unmounts, visible.1.mpr ⟨by decide, .inr rfl⟩,
    visible.2.2 [] after last 0 [] true (.nil after) unmounts⟩

/-- A path of 256 bytes. -/
def longPath : CString := 
  ⟨List.replicate 256 47, fun zero => absurd (List.eq_of_mem_replicate zero) (by decide)⟩

/-- `vfs_mount_fs` returns zero, and the filesystem is not found: without room in the table, and on
a path that does not fit into the buffer.  A filesystem mounted on two paths is found under the
first one after it has been freed. -/
theorem mount_not_visible :
    (∃ manager after, VfsCall.reached [.alloc 10 MountWorld.driver] = some manager ∧
      vfsMountFs .absent manager (some 10) none (some rootPath) 0 0 false = .ok (0, after) ∧
      vfsFromPath after (some rootPath) = none) ∧
    (∃ manager after, VfsCall.reached [.alloc 10 MountWorld.driver] = some manager ∧
      vfsMountFs .absent manager (some 10) none (some longPath) 0 0 true = .ok (0, after) ∧
      vfsFromPath after (some longPath) = none) ∧
    ∃ manager last, VfsCall.reached [.alloc 10 MountWorld.driver, .mount 10 none rootPath 0 0 true,
        .mount 10 none devPath 0 0 true] = some manager ∧
      vfsUnmountFs .absent manager (some 10) 0 [] true = .ok (0, last) ∧
      vfsFromPath last (some rootPath) = some 10 := by
  have mounted : ∀ {path room}, (VfsCall.reached [.alloc 10 MountWorld.driver]).map (fun manager =>
      (vfsMountFs .absent manager (some 10) none (some path) 0 0 room).toOption.map (fun mounted =>
        (mounted.1, vfsFromPath mounted.2 (some path)))) = some (some (0, none)) →
      ∃ manager after, VfsCall.reached [.alloc 10 MountWorld.driver] = some manager ∧
        vfsMountFs .absent manager (some 10) none (some path) 0 0 room = .ok (0, after) ∧
        vfsFromPath after (some path) = none := by
    intro path room returns
    rcases Option.map_eq_some_iff.mp returns with ⟨manager, follows, mounted⟩
    rcases eq_ok_of_toOption mounted with ⟨⟨code, after⟩, mounts, observed⟩
    simp only [Prod.mk.injEq] at observed
    rcases observed with ⟨isZero, hidden⟩
    subst isZero
    exact ⟨manager, after, follows, mounts, hidden⟩
  refine ⟨mounted (by decide +kernel), mounted (by decide +kernel), ?_⟩
  have returns : (VfsCall.reached [.alloc 10 MountWorld.driver, .mount 10 none rootPath 0 0 true,
      .mount 10 none devPath 0 0 true]).map (fun manager =>
        (vfsUnmountFs .absent manager (some 10) 0 [] true).toOption.map (fun unmounted =>
          (unmounted.1, vfsFromPath unmounted.2 (some rootPath)))) = some (some (0, some 10)) := by
    decide +kernel
  rcases Option.map_eq_some_iff.mp returns with ⟨manager, follows, unmounted⟩
  rcases eq_ok_of_toOption unmounted with ⟨⟨code, last⟩, unmounts, observed⟩
  simp only [Prod.mk.injEq] at observed
  rcases observed with ⟨isZero, dangling⟩
  subst isZero
  exact ⟨manager, last, follows, unmounts, dangling⟩

end Goshkik
