import Goshkik.Fs.VnodeTableRuns
import Goshkik.Lib.Cascade

/-!
# What vnode_unref frees when counts are not right

A call of `vnode_unref` frees a vnode once its count is used up and drops the
reference of that vnode on its parent, whether or not the counts agree with the
references that there are.  This file follows every call that returns.  A vnode
that counts nothing or is being freed already is never freed.
-/

namespace Goshkik

open VnodeCache

variable {cache after last : VnodeCache} {vp target : Address} {vnode : Vnode}
  {inactive : VnInactive} {fuel : ℕ} {freed : List Address} {drops : Address → ℕ}

/-- The callback `vn_inactive` leaves the filesystem of every vnode as it is. -/
def VnInactive.KeepsVfsp (inactive : VnInactive) : Prop :=
  ∀ cache vp target, ((inactive.run cache vp).vnodes.lookup target).map Vnode.vfsp =
    (cache.vnodes.lookup target).map Vnode.vfsp

theorem VnInactive.keepsVfsp_absent : VnInactive.absent.KeepsVfsp := fun _ _ _ => rfl

namespace VnodeCache

/-- The vnodes that `vnode_unref` can free. -/
def loose (cache : VnodeCache) : Finset Address :=
  cache.vnodes.keys.filter (fun vp => (cache.vnodes.lookup vp).any (fun vnode =>
    vnode.count ≠ 0 && vnode.flag &&& vfreeing = 0))

theorem mem_loose : vp ∈ cache.loose ↔
    ∃ vnode, cache.vnodes.lookup vp = some vnode ∧ vnode.count ≠ 0 ∧ vnode.flag &&& vfreeing =
      0 := by
  simp only [loose, Finset.mem_filter, Finmap.mem_keys, Finmap.mem_iff, Option.any_eq_true,
    Bool.and_eq_true, decide_eq_true_eq]
  constructor
  · rintro ⟨_, vnode, stored, own⟩
    exact ⟨vnode, stored, own⟩
  · rintro ⟨vnode, stored, own⟩
    exact ⟨⟨vnode, stored⟩, vnode, stored, own⟩

theorem loose_subset (mem : vp ∈ cache.loose) : vp ∈ cache.vnodes := by
  rcases mem_loose.mp mem with ⟨vnode, stored, _⟩
  exact mem_of_lookup stored

theorem notMem_loose_of_count (stored : cache.vnodes.lookup vp = some vnode)
    (noCount : vnode.count = 0) : vp ∉ cache.loose := by
  intro mem
  rcases mem_loose.mp mem with ⟨other, storedOther, nonzero, _⟩
  rw [stored, Option.some.injEq] at storedOther
  exact nonzero (storedOther ▸ noCount)

/-- The counts of the vnodes that can be freed. -/
def counts (cache : VnodeCache) : CountGraph Address where
  live := cache.loose
  parent := cache.parentOf
  count := cache.countOf

namespace SameLinks

theorem mem_loose (same : cache.SameLinks after target) :
    target ∈ after.loose ↔ target ∈ cache.loose := by
  have forward : ∀ {first second : VnodeCache}, first.SameLinks second target →
      target ∈ second.loose → target ∈ first.loose := by
    intro first second same mem
    rcases VnodeCache.mem_loose.mp mem with ⟨vnode, stored, nonzero, unflagged⟩
    rcases same.lookup stored with ⟨before, storedBefore, links⟩
    simp only [Vnode.links, Prod.mk.injEq] at links
    exact VnodeCache.mem_loose.mpr
      ⟨before, storedBefore, links.2.1 ▸ nonzero, links.1 ▸ unflagged⟩
  exact ⟨forward same, forward (Eq.symm same)⟩

theorem parentOf (same : cache.SameLinks after target) :
    after.parentOf target = cache.parentOf target := by
  have parents := congrArg (fun links => links.bind (fun links => links.2.2)) same
  simpa [VnodeCache.parentOf, Option.bind_map, Function.comp_def, Vnode.links] using parents

theorem countOf (same : cache.SameLinks after target) :
    after.countOf target = cache.countOf target := by
  have counts := congrArg (fun links => links.elim 0 (fun links => links.2.1.toNat)) same
  simpa [VnodeCache.countOf, Option.elim_map, Function.comp_def, Vnode.links] using counts

end SameLinks

/-- What dropping references has done to the vnodes. -/
structure Releases (cache : VnodeCache) (drops : Address → ℕ) (freed : List Address)
    (after : VnodeCache) : Prop where
  cascade : cache.counts.Cascade drops freed after.counts
  mem : ∀ target, target ∈ after.vnodes ↔ target ∈ cache.vnodes ∧ target ∉ freed

/-- One reference to a vnode. -/
def single (vp : Address) : Address → ℕ := fun target => if target = vp then 1 else 0

namespace Releases

theorem refl (cache : VnodeCache) : cache.Releases (fun _ => 0) [] cache where
  cascade := .none _ (fun _ _ => rfl)
  mem := by simp

theorem append {moreDrops : Address → ℕ} {moreFreed : List Address}
    (releases : cache.Releases drops freed after) (rest : after.Releases moreDrops moreFreed last) :
    cache.Releases (fun vp => drops vp + moreDrops vp) (freed ++ moreFreed) last where
  cascade := releases.cascade.append rest.cascade
  mem := by
    intro target
    rw [rest.mem, releases.mem, List.mem_append, not_or, and_assoc]

/-- A reference to a vnode that has another one. -/
theorem shared (stored : cache.vnodes.lookup vp = some vnode) (more : 1 < vnode.count) :
    cache.Releases (single vp) [] (cache.put vp { vnode with count := vnode.count - 1 }) := by
  have fewer : (vnode.count - 1).toNat + 1 = vnode.count.toNat := by
    rw [UInt32.lt_iff_toNat_lt, UInt32.toNat_one] at more
    rw [UInt32.toNat_sub_of_le _ _ (UInt32.le_iff_toNat_le.mpr (by simp; omega)), UInt32.toNat_one]
    omega
  have looseAfter : ∀ target,
      target ∈ (cache.put vp { vnode with count := vnode.count - 1 }).loose ↔
        target ∈ cache.loose := by
    intro target
    by_cases same : target = vp
    · subst same
      have nonzero : vnode.count ≠ 0 := by
        rw [UInt32.lt_iff_toNat_lt, UInt32.toNat_one] at more
        rw [ne_eq, ← UInt32.toNat_inj, UInt32.toNat_zero]
        omega
      have nonzeroAfter : vnode.count - 1 ≠ 0 := by
        rw [UInt32.lt_iff_toNat_lt, UInt32.toNat_one] at more
        rw [ne_eq, ← UInt32.toNat_inj, UInt32.toNat_zero]
        omega
      simp [mem_loose, stored, nonzero, nonzeroAfter]
    · exact (sameLinks_put same).mem_loose
  constructor
  case cascade =>
    apply CountGraph.Cascade.drop
    · exact Finset.ext looseAfter
    · intro target _
      by_cases same : target = vp
      · subst same
        simp [counts, parentOf, stored]
      · exact (sameLinks_put same).parentOf
    · intro target _
      by_cases same : target = vp
      · subst same
        simp only [counts, countOf, lookup_put_self, stored, Option.elim_some, single, if_true]
        exact fewer
      · simp only [counts, single, same, if_false]
        exact (sameLinks_put same).countOf
  case mem =>
    intro target
    rw [mem_put_iff stored]
    simp

/-- The vnode does not count any more but is not freed. -/
theorem unfreed (same : ∀ target, target ≠ vp → cache.SameLinks after target)
    (mem : ∀ target, target ∈ after.vnodes ↔ target ∈ cache.vnodes) (tight : vp ∉ cache.loose)
    (tightAfter : vp ∉ after.loose) : cache.Releases (single vp) [] after where
  cascade := by
    have different : ∀ target ∈ cache.loose, target ≠ vp := by
      rintro target isLoose rfl
      exact tight isLoose
    apply CountGraph.Cascade.drop
    · ext target
      by_cases isVp : target = vp
      · simp [counts, isVp, tight, tightAfter]
      · exact (same target isVp).mem_loose
    · intro target isLoose
      exact (same target (different target isLoose)).parentOf
    · intro target isLoose
      simp only [single, different target isLoose, if_false]
      exact (same target (different target isLoose)).countOf
  mem := by simpa using mem

/-- A vnode is freed, and after it what the drop on its parent frees; `ready` are the vnodes
inside `vnode_free`. -/
theorem collect {ready done : VnodeCache} {parentDrops : Address → ℕ}
    (stored : cache.vnodes.lookup vp = some vnode) (one : vnode.count.toNat = 1)
    (unflagged : vnode.flag &&& vfreeing = 0)
    (same : ∀ target, target ≠ vp → cache.SameLinks ready target) (present : vp ∈ ready.vnodes)
    (tight : vp ∉ ready.loose)
    (passed : ∀ target, parentDrops target = if vnode.parent = some target then 1 else 0)
    (upward : ready.Releases parentDrops freed done)
    (sameDone : ∀ target, target ≠ vp → done.SameLinks after target)
    (gone : vp ∉ after.vnodes) : cache.Releases (single vp) (vp :: freed) after := by
  have mem : vp ∈ cache.loose := by
    refine mem_loose.mpr ⟨vnode, stored, ?_, unflagged⟩
    intro zero
    simp [zero] at one
  have different : ∀ target ∈ ready.loose, target ≠ vp := by
    rintro target isLoose rfl
    exact tight isLoose
  have looseReady : ready.loose = cache.loose.erase vp := by
    ext target
    rw [Finset.mem_erase]
    by_cases isVp : target = vp
    · simp [isVp, tight]
    · simp [isVp, (same target isVp).mem_loose]
  have notFreed : vp ∉ freed := by
    intro again
    exact different vp (upward.cascade.wasLive vp again) rfl
  have notDone : vp ∉ done.loose := by
    intro isLoose
    exact tight (upward.cascade.mem_live.mp isLoose).1
  constructor
  case cascade =>
    have rest : ready.counts.Cascade parentDrops freed after.counts := by
      apply upward.cascade.congr
      · ext target
        by_cases isVp : target = vp
        · subst isVp
          have notAfter : target ∉ after.loose := fun isLoose => gone (loose_subset isLoose)
          simp [counts, notDone, notAfter]
        · exact (sameDone target isVp).mem_loose
      · intro target isLoose
        refine (sameDone target ?_).parentOf
        rintro rfl
        exact notDone isLoose
      · intro target isLoose
        refine (sameDone target ?_).countOf
        rintro rfl
        exact notDone isLoose
    apply CountGraph.Cascade.cons mem _ looseReady _ _ _ rest
    · simp [counts, countOf, stored, one, single]
    · intro target isLoose
      exact (same target (different target isLoose)).parentOf
    · intro target isLoose
      exact (same target (different target isLoose)).countOf
    · intro target isLoose
      rw [passed]
      simp [single, different target isLoose, counts, parentOf_eq stored]
  case mem =>
    intro target
    by_cases isVp : target = vp
    · simp [isVp, gone]
    · rw [(sameDone target isVp).mem_iff, upward.mem, (same target isVp).mem_iff]
      simp [isVp]

end Releases

end VnodeCache

/-- What is left of `vnode_unref` once the count is used up. -/
theorem vnodeFree_releases {unref : VnodeCache → Address → Except Trap VnodeCache}
    {marked : VnodeCache} {inert : Vnode} (stored : cache.vnodes.lookup vp = some vnode)
    (one : vnode.count.toNat = 1) (unflagged : vnode.flag &&& vfreeing = 0)
    (same : ∀ target, target ≠ vp → cache.SameLinks marked target)
    (inertStored : marked.vnodes.lookup vp = some inert) (noCount : inert.count = 0)
    (linked : inert.parent = vnode.parent)
    (upward : ∀ before parent done, unref before parent = .ok done →
      ∃ freed, before.Releases (single parent) freed done)
    (returns : vnodeFree unref marked vp = .ok after) :
    ∃ freed, cache.Releases (single vp) freed after := by
  rcases freeData_returns inertStored with
    ⟨ready, freeing, readyEq, _, readyStored, links, sameReady⟩
  simp only [Vnode.links, Prod.mk.injEq] at links
  rcases links with ⟨_, count, parent⟩
  have present := mem_of_lookup readyStored
  have tight := notMem_loose_of_count readyStored (count.trans noCount)
  have sameHere : ∀ target, target ≠ vp → cache.SameLinks ready target :=
    fun target different => (same target different).trans (sameReady target different)
  simp only [vnodeFree, readyEq, vnode_eq readyStored, bind_eq_ok, Except.ok.injEq,
    exists_eq_left'] at returns
  rw [parent, linked] at returns
  cases isParent : vnode.parent with
  | none =>
      simp only [isParent, pure, Except.pure, Except.ok.injEq] at returns
      rw [← returns]
      refine ⟨_, Releases.collect stored one unflagged sameHere present tight ?_ (.refl ready)
        (fun target => sameLinks_slabFree) (by simp)⟩
      simp [isParent]
  | some top =>
      simp only [isParent, bind_eq_ok, pure, Except.pure, Except.ok.injEq] at returns
      rcases returns with ⟨done, unrefs, cleared, clears, rfl⟩
      rcases upward ready top done unrefs with ⟨chain, releases⟩
      have notFreed : vp ∉ chain := fun again => tight (releases.cascade.wasLive vp again)
      rcases exists_lookup ((releases.mem vp).mpr ⟨present, notFreed⟩) with ⟨left, leftStored⟩
      rw [modify_eq leftStored, Except.ok.injEq] at clears
      rw [← clears]
      refine ⟨_, Releases.collect stored one unflagged sameHere present tight ?_ releases ?_
        (by simp)⟩
      · intro target
        simp [isParent, single, eq_comm]
      · exact fun target different =>
          (sameLinks_put different).trans (sameLinks_slabFree different)

/-- `vnode_unref` drops one reference, and every vnode it frees drops one more. -/
theorem unrefWithin_releases (returns : unrefWithin inactive fuel cache vp = .ok after) :
    ∃ freed, cache.Releases (single vp) freed after := by
  induction fuel generalizing cache vp after with
  | zero => cases returns
  | succ fuel ih =>
      simp only [unrefWithin, bind_eq_ok] at returns
      rcases returns with ⟨vnode, isVnode, returns⟩
      have stored : cache.vnodes.lookup vp = some vnode := by
        cases found : cache.vnodes.lookup vp with
        | none => simp [VnodeCache.vnode, found] at isVnode
        | some other =>
            rw [vnode_eq found, Except.ok.injEq] at isVnode
            rw [isVnode]
      simp only [modify_eq stored, modify_eq lookup_put_self, Except.ok.injEq, exists_eq_left']
        at returns
      split at returns
      · cases returns
      · rename_i nonzero
        split at returns
        · rename_i more
          simp only [pure, Except.pure, Except.ok.injEq] at returns
          exact ⟨[], returns ▸ Releases.shared stored more⟩
        · rename_i notMore
          have one : vnode.count.toNat = 1 := by
            rw [UInt32.lt_iff_toNat_lt, UInt32.toNat_one] at notMore
            rw [← UInt32.toNat_inj, UInt32.toNat_zero] at nonzero
            omega
          have noCount : vnode.count - 1 = 0 := by
            rw [← UInt32.toNat_inj, UInt32.toNat_sub_of_le]
            · simp [one]
            · rw [UInt32.le_iff_toNat_le, one]
              simp
          simp only [bind_eq_ok, Except.ok.injEq, exists_eq_left'] at returns
          split at returns
          · rename_i flagged
            simp only [pure, Except.pure, Except.ok.injEq] at returns
            rw [← returns]
            refine ⟨[], Releases.unfreed ?_ ?_ ?_ ?_⟩
            · exact fun target different =>
                (sameLinks_put different).trans (sameLinks_put different)
            · intro target
              rw [mem_put_iff lookup_put_self, mem_put_iff stored]
            · intro isLoose
              rcases mem_loose.mp isLoose with ⟨other, storedOther, _, unflagged⟩
              rw [stored, Option.some.injEq] at storedOther
              exact flagged (storedOther ▸ unflagged)
            · exact notMem_loose_of_count lookup_put_self noCount
          · rename_i unflagged
            rw [not_not] at unflagged
            rcases vnInactive_links inactive cache vp vnode with ⟨inert, inertStored, links, same⟩
            have linksInert := links
            simp only [Vnode.links, Prod.mk.injEq] at linksInert
            exact vnodeFree_releases stored one unflagged same inertStored
              (linksInert.2.1.trans noCount) linksInert.2.2 (fun _ _ _ unrefs => ih unrefs) returns

/-! ### The filesystem of a vnode -/

namespace VnodeCache

/-- No vnode is new, and every vnode is of the filesystem that it was of. -/
def KeepsVfsp (cache after : VnodeCache) : Prop :=
  ∀ target vnode, after.vnodes.lookup target = some vnode →
    ∃ before, cache.vnodes.lookup target = some before ∧ before.vfsp = vnode.vfsp

namespace KeepsVfsp

theorem refl (cache : VnodeCache) : cache.KeepsVfsp cache :=
  fun _ vnode stored => ⟨vnode, stored, rfl⟩

theorem trans (keeps : cache.KeepsVfsp after) (more : after.KeepsVfsp last) :
    cache.KeepsVfsp last := by
  intro target vnode stored
  rcases more target vnode stored with ⟨middle, storedMiddle, same⟩
  rcases keeps target middle storedMiddle with ⟨before, storedBefore, sameBefore⟩
  exact ⟨before, storedBefore, sameBefore.trans same⟩

theorem modify {update : Vnode → Vnode} (returns : cache.modify vp update = .ok after)
    (vfsps : ∀ vnode, (update vnode).vfsp = vnode.vfsp) : cache.KeepsVfsp after := by
  cases found : cache.vnodes.lookup vp with
  | none => simp [VnodeCache.modify, VnodeCache.vnode, found, bind, Except.bind] at returns
  | some own =>
      rw [modify_eq found, Except.ok.injEq] at returns
      rw [← returns]
      intro target vnode stored
      by_cases same : target = vp
      · subst same
        rw [lookup_put_self, Option.some.injEq] at stored
        exact ⟨own, found, by rw [← stored, vfsps]⟩
      · rw [lookup_put_of_ne same] at stored
        exact ⟨vnode, stored, rfl⟩

theorem slabFree (cache : VnodeCache) (vp : Address) : cache.KeepsVfsp (cache.slabFree vp) := by
  intro target vnode stored
  by_cases same : target = vp
  · subst same
    simp [VnodeCache.slabFree] at stored
  · rw [lookup_slabFree_of_ne same] at stored
    exact ⟨vnode, stored, rfl⟩

theorem vnInactive (keeps : inactive.KeepsVfsp) (cache : VnodeCache) (vp : Address) :
    cache.KeepsVfsp (inactive.run cache vp) := by
  intro target vnode stored
  have same := keeps cache vp target
  rw [stored, Option.map_some] at same
  exact Option.map_eq_some_iff.mp same.symm

end KeepsVfsp

end VnodeCache

theorem unrefWithin_keepsVfsp (keeps : inactive.KeepsVfsp)
    (returns : unrefWithin inactive fuel cache vp = .ok after) : cache.KeepsVfsp after := by
  induction fuel generalizing cache vp after with
  | zero => cases returns
  | succ fuel ih =>
      simp only [unrefWithin, bind_eq_ok] at returns
      rcases returns with ⟨vnode, _, counted, counts, returns⟩
      have keptCounted : cache.KeepsVfsp counted := .modify counts (fun _ => rfl)
      split at returns
      · cases returns
      · split at returns
        · simp only [pure, Except.pure, Except.ok.injEq] at returns
          exact returns ▸ keptCounted
        · rcases bind_eq_ok.mp returns with ⟨marked, marks, returns⟩
          have keptMarked := keptCounted.trans (.modify marks (fun _ => rfl))
          split at returns
          · simp only [pure, Except.pure, Except.ok.injEq] at returns
            exact returns ▸ keptMarked
          · have keptInert := keptMarked.trans (.vnInactive keeps marked vp)
            simp only [vnodeFree, bind_eq_ok] at returns
            rcases returns with ⟨ready, frees, own, _, returns⟩
            have keptReady : cache.KeepsVfsp ready := by
              simp only [freeData, bind_eq_ok] at frees
              rcases frees with ⟨_, _, frees⟩
              split at frees
              · exact keptInert.trans (.modify frees (fun _ => rfl))
              · simp only [pure, Except.pure, Except.ok.injEq] at frees
                exact frees ▸ keptInert
            split at returns
            · simp only [pure, Except.pure, Except.ok.injEq] at returns
              exact returns ▸ keptReady.trans (.slabFree ready vp)
            · simp only [bind_eq_ok, pure, Except.pure, Except.ok.injEq] at returns
              rcases returns with ⟨done, unrefs, cleared, clears, rfl⟩
              have keptCleared :=
                (keptReady.trans (ih unrefs)).trans (.modify clears (fun _ => rfl))
              exact keptCleared.trans (.slabFree cleared vp)

/-! ### The loop of vfs_purge_vnodes -/

theorem purgeKey_releases (keeps : inactive.KeepsVfsp) {key : List UInt8}
    {state done : VnodeTable} (returns : purgeKey inactive state key = .ok done) :
    (∃ freed, state.vnodes.Releases
        (fun vp => if state.table.lookup key = some (some vp) then 1 else 0) freed done.vnodes) ∧
      state.vnodes.KeepsVfsp done.vnodes ∧ done.table = state.table.erase key := by
  cases found : state.table.lookup key with
  | none =>
      simp only [purgeKey, Bindings.hashtableGet, found, pure, Except.pure, Except.ok.injEq,
        Bindings.hashtableRemove_snd] at returns
      rw [← returns]
      refine ⟨⟨[], ?_⟩, .refl _, rfl⟩
      simpa using Releases.refl state.vnodes
  | some value =>
      cases value with
      | none =>
          simp only [purgeKey, Bindings.hashtableGet, found, pure, Except.pure, Except.ok.injEq,
            Bindings.hashtableRemove_snd] at returns
          rw [← returns]
          refine ⟨⟨[], ?_⟩, .refl _, rfl⟩
          simpa using Releases.refl state.vnodes
      | some vp =>
          have bound : key ∈ state.table := Finmap.mem_iff.mpr ⟨_, found⟩
          simp only [purgeKey, Bindings.hashtableGet, found, Bindings.hashtableRemove, bound,
            if_true, bind_eq_ok, pure, Except.pure, Except.ok.injEq] at returns
          rcases returns with ⟨vnodes, unrefs, rfl⟩
          rcases unrefWithin_releases unrefs with ⟨freed, releases⟩
          have same : single vp = fun target => if (some (some vp) : Option (Option Address)) =
              some (some target) then 1 else 0 := by
            funext target
            simp [single, eq_comm]
          exact ⟨⟨freed, same ▸ releases⟩, unrefWithin_keepsVfsp keeps unrefs, rfl⟩

/-- The loop takes its entries out of the table and drops a reference for each vnode in
them. -/
theorem purgeKeys_releases (keeps : inactive.KeepsVfsp) {keys : List (List UInt8)}
    {state done : VnodeTable} (nodup : keys.Nodup)
    (returns : purgeKeys inactive keys state = .ok done) :
    (∃ freed, state.vnodes.Releases (state.among keys) freed done.vnodes) ∧
      state.vnodes.KeepsVfsp done.vnodes ∧
      ∀ key, done.table.lookup key = if key ∈ keys then none else state.table.lookup key := by
  induction keys generalizing state with
  | nil =>
      simp only [purgeKeys, pure, Except.pure, Except.ok.injEq] at returns
      subst returns
      exact ⟨⟨[], .refl _⟩, .refl _, by simp⟩
  | cons key keys ih =>
      rcases List.nodup_cons.mp nodup with ⟨fresh, nodup⟩
      simp only [purgeKeys, bind_eq_ok] at returns
      rcases returns with ⟨middle, purges, returns⟩
      rcases purgeKey_releases keeps purges with ⟨⟨first, releases⟩, kept, erased⟩
      rcases ih nodup returns with ⟨⟨rest, releasesRest⟩, keptRest, lookups⟩
      have lookupMiddle : ∀ other, other ≠ key →
          middle.table.lookup other = state.table.lookup other := by
        intro other different
        rw [erased, Finmap.lookup_erase_ne different]
      refine ⟨⟨first ++ rest, ?_⟩, kept.trans keptRest, ?_⟩
      · have among : state.among (key :: keys) = fun vp =>
            (if state.table.lookup key = some (some vp) then 1 else 0) + middle.among keys vp := by
          funext vp
          have others : middle.among keys vp = state.among keys vp := by
            apply List.countP_congr
            intro other mem
            rw [lookupMiddle other (ne_of_mem_of_not_mem mem fresh)]
          rw [others, VnodeTable.among, List.countP_cons, Nat.add_comm]
          simp [VnodeTable.among]
        rw [among]
        exact releases.append releasesRest
      · intro other
        rw [lookups]
        by_cases same : other = key
        · subst same
          simp [fresh, erased]
        · simp [same, lookupMiddle other same]

end Goshkik
