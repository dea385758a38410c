import Goshkik.Fs.NameCacheSound

/-!
# Looking up what was entered

The key of a name is compared as a whole, while `make_namecache_key` writes only
the name and the null behind it.  Two calls for the same name of the same
directory therefore use the same key exactly if the bytes left over in their
buffers agree.
-/

namespace Goshkik

open Transition VnodeCache

/-- The bytes of a buffer behind the null of a name. -/
def leftover (stack : NameBuffer) (name : CString) : List UInt8 :=
  stack.val.drop (name.val.length + 1)

theorem makeNamecacheKey_eq_iff {stack stack' : NameBuffer} {dvp dvp' : Address}
    {name name' : CString} (short : name.val.length ≤ nameMax)
    (short' : name'.val.length ≤ nameMax) :
    makeNamecacheKey stack dvp name = makeNamecacheKey stack' dvp' name' ↔
      dvp = dvp' ∧ name = name' ∧ leftover stack name = leftover stack' name' := by
  have fits : name.val.length < stack.val.length := by
    rw [stack.property]
    omega
  have fits' : name'.val.length < stack'.val.length := by
    rw [stack'.property]
    omega
  simp only [makeNamecacheKey, strlcpy_eq fits, strlcpy_eq fits']
  constructor
  · intro same
    rcases List.append_inj same (by simp [length_wordBytes]) with ⟨directory, rest⟩
    rcases append_null_inj name.property name'.property rest with ⟨names, bytes⟩
    exact ⟨wordBytes_injective directory, Subtype.ext names, bytes⟩
  · rintro ⟨rfl, rfl, bytes⟩
    simp only [leftover] at bytes
    rw [bytes]

namespace NameCache

variable {inactive : VnInactive} {names after : NameCache} {vp other : Address}
  {key : List UInt8}

theorem lookup_purge {order : List (List UInt8)} (different : other ≠ vp)
    (stored : names.table.lookup key = some (some vp))
    (returns : namecachePurgeVnodeLocked inactive other order names = .ok after) :
    after.table.lookup key = some (some vp) := by
  induction order generalizing names with
  | nil =>
      simp only [namecachePurgeVnodeLocked, pure, Except.pure, Except.ok.injEq] at returns
      exact returns ▸ stored
  | cons next order ih =>
      simp only [namecachePurgeVnodeLocked] at returns
      split at returns
      · rename_i purged
        rcases bind_eq_ok.mp returns with ⟨removed, removes, rest⟩
        apply ih _ rest
        have distinct : key ≠ next := by
          rintro rfl
          rw [stored, Option.some.injEq, Option.some.injEq] at purged
          exact different purged.symm
        rw [(removeLocked_effect removes).1, Finmap.lookup_erase_ne distinct]
        exact stored
      · exact ih stored returns

end NameCache

namespace NameWorld

variable {inactive : VnInactive} {world after : NameWorld} {call : NameCall}
  {dvp vp : Address} {name : CString}

/-- Calls that enter or remove other names and purge other vnodes. -/
def Quiet (dvp : Address) (name : CString) (vp : Address) : NameCall → Prop
  | .enter _ (some directory) (some key) _ _ =>
      (directory, key) ≠ (dvp, name) ∧ key.val.length ≤ nameMax
  | .remove _ (some directory) (some key) =>
      (directory, key) ≠ (dvp, name) ∧ key.val.length ≤ nameMax
  | .purge (some target) _ => target ≠ vp
  | _ => True

/-- What is cached under a name stays where the calls are about others. -/
theorem lookup_step {stack : NameBuffer} (short : name.val.length ≤ nameMax)
    (step : Guarded (fun _ => Quiet dvp name vp) (Step inactive) world call after)
    (stored : world.names.table.lookup (makeNamecacheKey stack dvp name) = some (some vp)) :
    after.names.table.lookup (makeNamecacheKey stack dvp name) = some (some vp) := by
  rcases step with ⟨quiet, step⟩
  rcases step.cases with
    ⟨table, _, _⟩ | ⟨other, directory, key, target, room, status, rfl, enters⟩ |
    ⟨other, directory, key, rfl, removes⟩ | ⟨target, order, rfl, purges⟩
  · rw [table]
    exact stored
  · rcases NameCache.enter_effect enters with ⟨_, ⟨_, _, table⟩ | ⟨_, _, table, _⟩⟩
    · rw [table, Finmap.lookup_insert_of_ne]
      · exact stored
      · intro same
        rcases (makeNamecacheKey_eq_iff short quiet.2).mp same with ⟨rfl, rfl, _⟩
        exact quiet.1 rfl
    · rw [table]
      exact stored
  · rw [(NameCache.removeLocked_effect removes).1, Finmap.lookup_erase_ne]
    · exact stored
    · intro same
      rcases (makeNamecacheKey_eq_iff short quiet.2).mp same with ⟨rfl, rfl, _⟩
      exact quiet.1 rfl
  · exact NameCache.lookup_purge quiet stored purges

/-- In every run, a name entered with one buffer is found with the other as long as
nobody enters or removes it again or purges its vnode. -/
def FoundAfterEnter (inactive : VnInactive) (dvp : Address) (name : CString) (vp : Address)
    (entering looking : NameBuffer) : Prop :=
  ∀ calls world room entered later last,
    Run (BoundedStep inactive) initial calls world →
    BoundedStep inactive world (.enter entering (some dvp) (some name) (some vp) room) entered →
    namecacheEnter inactive world.names entering (some dvp) (some name) (some vp) room =
      .ok (0, entered.names) →
    Run (Guarded (fun _ => Quiet dvp name vp) (BoundedStep inactive)) entered later last →
    ∃ names, namecacheLookup last.names looking (some dvp) (some name) true =
      .ok (0, some vp, names)

/-- In every run, a name removed with one buffer is not found with the other. -/
def MissedAfterRemove (inactive : VnInactive) (dvp : Address) (name : CString)
    (removing looking : NameBuffer) : Prop :=
  ∀ calls world removed,
    Run (BoundedStep inactive) initial calls world →
    BoundedStep inactive world (.remove removing (some dvp) (some name)) removed →
    namecacheLookup removed.names looking (some dvp) (some name) true =
      .ok (-enoent, none, removed.names)

theorem foundAfterEnter {entering looking : NameBuffer} (short : name.val.length ≤ nameMax)
    (agree : leftover entering name = leftover looking name) :
    FoundAfterEnter inactive dvp name vp entering looking := by
  intro calls world room entered later last run enters returns quietRun
  have sameKey : makeNamecacheKey entering dvp name = makeNamecacheKey looking dvp name :=
    (makeNamecacheKey_eq_iff short short).mpr ⟨rfl, rfl, agree⟩
  have stored : entered.names.table.lookup (makeNamecacheKey looking dvp name) =
      some (some vp) := by
    rcases NameCache.enter_effect returns with ⟨_, ⟨_, _, table⟩ | ⟨failed, _⟩⟩
    · rw [table, sameKey, Finmap.lookup_insert]
    · exact absurd rfl failed
  have storedLast := quietRun.invariant
    (fun _ _ _ before step => lookup_step short ⟨step.1, step.2.2⟩ before) stored
  have sound := quietRun.unguard.invariant
    (fun _ _ _ before step => step.sound before) (enters.sound (sound_run run))
  rcases sound.lookup_hit storedLast with ⟨names, looks, _⟩
  exact ⟨names, looks⟩

theorem missedAfterRemove {removing looking : NameBuffer} (short : name.val.length ≤ nameMax)
    (agree : leftover removing name = leftover looking name) :
    MissedAfterRemove inactive dvp name removing looking := by
  intro calls world removed run removes
  have sameKey : makeNamecacheKey removing dvp name = makeNamecacheKey looking dvp name :=
    (makeNamecacheKey_eq_iff short short).mpr ⟨rfl, rfl, agree⟩
  have returns := removes.2.2
  simp only [exec, namecacheRemove, bind_eq_ok, pure, Except.pure, Except.ok.injEq] at returns
  rcases returns with ⟨names, drops, rfl⟩
  apply NameCache.Sound.lookup_miss
  rw [(NameCache.removeLocked_effect drops).1, sameKey, Finmap.lookup_erase]
  rfl

/-- A vnode that has just been allocated. -/
theorem created_run (inactive : VnInactive) (vp : Address) : ∃ world,
    Run (BoundedStep inactive) initial [.vnode (.alloc none .vreg (some vp))] world ∧
    vp ∈ world.names.vnodes.vnodes ∧ world.references vp = 1 ∧ world.names.table = ∅ := by
  let cache := (vnodeAlloc initial.names.vnodes none .vreg (some vp)).2
  let world : NameWorld :=
    { names := { initial.names with vnodes := cache }, held := gainIf initial.held (some vp) }
  have counted : cache.Counted (gain (initial.names.owed initial.held) vp) :=
    vnodeAlloc_counted sound_initial.counted Finmap.notMem_empty none .vreg
  have same : world.names.owed world.held = gain (initial.names.owed initial.held) vp := by
    funext target
    simp [world, NameCache.owed, initial, gain]
  have sound : world.names.Sound world.held := ⟨same ▸ counted, sound_initial.covered⟩
  have stored : world.names.vnodes.vnodes.lookup vp = some
      { flag := 0, count := 1, parent := none, name := List.replicate (nameMax + 1) 0,
        vfsp := none, type := .vreg, data := none } := Finmap.lookup_insert _
  refine ⟨world, .cons ⟨trivial, ?_, rfl⟩ (.nil world),
    mem_of_lookup stored, ?_, rfl⟩
  · intro target _
    exact Finmap.notMem_empty
  · exact (sound.counted.count vp _ stored).symm

/-- A name entered into an empty cache. -/
theorem entered_run (inactive : VnInactive) (stack : NameBuffer) (dvp : Address) (name : CString)
    (vp : Address) : ∃ calls world entered, Run (BoundedStep inactive) initial calls world ∧
    BoundedStep inactive world (.enter stack (some dvp) (some name) (some vp) true) entered ∧
    namecacheEnter inactive world.names stack (some dvp) (some name) (some vp) true =
      .ok (0, entered.names) ∧
    entered.names.table = (∅ : Bindings (Option Address)).insert
      (makeNamecacheKey stack dvp name) (some vp) := by
  rcases created_run inactive vp with ⟨world, run, mem, one, table⟩
  have fits : world.references vp + 1 < 2 ^ 32 := by
    rw [one]
    decide
  rcases (sound_run run).enter inactive stack dvp name mem true fits with
    ⟨status, names, returns, succeeds, sound⟩
  have success : status = 0 := succeeds.mpr (Or.inr rfl)
  subst success
  have step : BoundedStep inactive world (.enter stack (some dvp) (some name) (some vp) true)
      { world with names := names } := by
    refine ⟨?_, ?_, ?_⟩
    · intro target same
      rw [Option.mem_some] at same
      exact same ▸ fits
    · intro target same
      rw [Option.mem_some] at same
      exact same ▸ mem
    · simp [exec, returns, bind, Except.bind, pure, Except.pure]
  refine ⟨_, world, { world with names := names }, run, step, returns, ?_⟩
  rcases NameCache.enter_effect returns with ⟨_, ⟨_, _, stored⟩ | ⟨failed, _⟩⟩
  · rw [stored, table]
  · exact absurd rfl failed

theorem leftover_of_foundAfterEnter {entering looking : NameBuffer}
    (short : name.val.length ≤ nameMax)
    (found : FoundAfterEnter inactive dvp name vp entering looking) :
    leftover entering name = leftover looking name := by
  rcases entered_run inactive entering dvp name vp with
    ⟨calls, world, entered, run, step, returns, table⟩
  rcases found calls world true entered [] entered run step returns (.nil entered) with
    ⟨names, looks⟩
  rcases NameCache.lookup_cases looks with
    ⟨directory, key, target, _, directoryEq, keyEq, stored, _⟩ | ⟨failed, _⟩
  · rw [table] at stored
    cases directoryEq
    cases keyEq
    by_contra different
    rw [Finmap.lookup_insert_of_ne] at stored
    · simp at stored
    · intro sameKey
      exact different ((makeNamecacheKey_eq_iff short short).mp sameKey).2.2.symm
  · exact absurd rfl failed

theorem leftover_of_missedAfterRemove {removing looking : NameBuffer}
    (short : name.val.length ≤ nameMax)
    (missed : MissedAfterRemove inactive dvp name removing looking) :
    leftover removing name = leftover looking name := by
  rcases entered_run inactive looking dvp name 1 with
    ⟨calls, world, entered, run, step, _, table⟩
  have sound := step.sound (sound_run run)
  rcases sound.removeLocked inactive (makeNamecacheKey removing dvp name) with
    ⟨names, removes, soundAfter⟩
  have removal : BoundedStep inactive entered (.remove removing (some dvp) (some name))
      { entered with names := names } := by
    refine ⟨trivial, trivial, ?_⟩
    simp [exec, namecacheRemove, removes, bind, Except.bind, pure, Except.pure]
  have misses := missed _ entered _ (run.snoc step) removal
  by_contra different
  have stored : names.table.lookup (makeNamecacheKey looking dvp name) = some (some 1) := by
    rw [(NameCache.removeLocked_effect removes).1, Finmap.lookup_erase_ne, table,
      Finmap.lookup_insert]
    intro sameKey
    exact different ((makeNamecacheKey_eq_iff short short).mp sameKey).2.2.symm
  rcases soundAfter.lookup_hit stored with ⟨_, hits, _⟩
  rw [misses, Except.ok.injEq, Prod.mk.injEq] at hits
  exact absurd hits.1 (by decide)

end NameWorld

/-- A name that was entered is found, and one that was removed is not, exactly if
the bytes left over behind the name agree between the calls. -/
theorem namecache_complete_iff (inactive : VnInactive) (dvp : Address) (name : CString)
    (short : name.val.length ≤ nameMax) (vp : Address)
    (entering looking removing next : NameBuffer) :
    (NameWorld.FoundAfterEnter inactive dvp name vp entering looking ∧
      NameWorld.MissedAfterRemove inactive dvp name removing next) ↔
    (leftover entering name = leftover looking name ∧
      leftover removing name = leftover next name) := by
  constructor
  · rintro ⟨found, missed⟩
    exact ⟨NameWorld.leftover_of_foundAfterEnter short found,
      NameWorld.leftover_of_missedAfterRemove short missed⟩
  · rintro ⟨enters, removes⟩
    exact ⟨NameWorld.foundAfterEnter short enters, NameWorld.missedAfterRemove short removes⟩

theorem namecache_complete_zeroed :
    NameWorld.FoundAfterEnter .absent 100 nameA 200 zeroBuffer zeroBuffer ∧
      NameWorld.MissedAfterRemove .absent 100 nameA zeroBuffer zeroBuffer :=
  (namecache_complete_iff .absent 100 nameA (by decide) 200 zeroBuffer zeroBuffer zeroBuffer
    zeroBuffer).mpr ⟨rfl, rfl⟩

def onesBuffer : NameBuffer := ⟨List.replicate (nameMax + 1) 1, List.length_replicate⟩

/-- A name that is not found although it was entered. -/
theorem namecache_name_missed :
    ¬NameWorld.FoundAfterEnter .absent 100 nameA 200 zeroBuffer onesBuffer := by
  intro found
  have agree := NameWorld.leftover_of_foundAfterEnter (by decide) found
  exact absurd agree (by decide +kernel)

end Goshkik
