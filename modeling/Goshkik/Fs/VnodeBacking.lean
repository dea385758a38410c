import Goshkik.Fs.VnodeRelease

/-!
# References that are due

Some vnodes count at least the references that will be dropped and the vnodes whose parent they are.
Whatever the other vnodes count, a call of `vnode_unref` keeps this, so none of these vnodes is
freed while one of its references is still due.  When it holds of all vnodes, the call returns.
-/

namespace Goshkik

open VnodeCache

variable {cache after : VnodeCache} {vp target : Address} {vnode : Vnode} {inactive : VnInactive}
  {fuel : ℕ} {covered : Set Address} {dying : Finset Address} {due : Address → ℕ}

namespace VnodeCache

/-- The vnodes whose parent is a given one, apart from those inside `vnode_free`. -/
def childrenOf (cache : VnodeCache) (dying : Finset Address) (vp : Address) : Finset Address :=
  (cache.vnodes.keys \ dying).filter (fun child => cache.parentOf child = some vp)

/-- The vnodes of a set count what is due and their children, and those inside `vnode_free` count
nothing. -/
structure Backs (cache : VnodeCache) (covered : Set Address) (dying : Finset Address)
    (due : Address → ℕ) : Prop where
  counted : ∀ vp ∈ covered, due vp + (cache.childrenOf dying vp).card ≤ cache.countOf vp
  spent : ∀ vp ∈ dying, cache.countOf vp = 0

/-- No vnode is new, none counts more, and those that count nothing stay. -/
structure Lowers (cache after : VnodeCache) : Prop where
  counts : ∀ vp, after.countOf vp ≤ cache.countOf vp
  kept : ∀ vp ∈ cache.vnodes, cache.countOf vp = 0 → vp ∈ after.vnodes

theorem mem_childrenOf {child : Address} : child ∈ cache.childrenOf dying vp ↔
    child ∈ cache.vnodes ∧ child ∉ dying ∧ cache.parentOf child = some vp := by
  simp [childrenOf, Finmap.mem_keys, and_assoc]

theorem countOf_eq (stored : cache.vnodes.lookup vp = some vnode) :
    cache.countOf vp = vnode.count.toNat := by
  simp [countOf, stored]

theorem countOf_put (cache : VnodeCache) (vp : Address) (vnode : Vnode) :
    (cache.put vp vnode).countOf = Function.update cache.countOf vp vnode.count.toNat := by
  funext target
  by_cases same : target = vp
  · subst same
    simp [countOf]
  · simp [countOf, same]

theorem mem_of_countOf (positive : 0 < cache.countOf vp) : vp ∈ cache.vnodes := by
  by_contra absent
  simp [countOf_eq_zero absent] at positive

end VnodeCache

/-- The rest of a call that has dropped the last reference. -/
theorem unrefWithin_last (stored : cache.vnodes.lookup vp = some vnode)
    (one : vnode.count.toNat = 1)
    (unflagged : vnode.flag &&& vfreeing = 0) :
    ∃ ready freeing, (∀ target, target ≠ vp → cache.SameLinks ready target) ∧
      ready.vnodes.lookup vp = some freeing ∧ freeing.count = 0 ∧ freeing.parent = vnode.parent ∧
      unrefWithin inactive (fuel + 1) cache vp =
        match vnode.parent with
        | none => .ok (ready.slabFree vp)
        | some parent => do
            let done ← unrefWithin inactive fuel ready parent
            let done ← done.modify vp (fun vnode => { vnode with parent := none })
            return done.slabFree vp := by
  rcases vnInactive_links inactive cache vp vnode with ⟨inert, inertStored, links, same⟩
  rcases freeData_returns inertStored with
    ⟨ready, freeing, readyEq, _, readyStored, linksReady, sameReady⟩
  simp only [Vnode.links, Prod.mk.injEq] at links linksReady
  have isOne : vnode.count = 1 := by
    rw [← UInt32.toNat_inj]
    simpa using one
  have parent : freeing.parent = vnode.parent := linksReady.2.2.trans links.2.2
  refine ⟨ready, freeing, fun target different =>
    (same target different).trans (sameReady target different),
    readyStored, ?_, parent, ?_⟩
  · rw [linksReady.2.1, links.2.1, isOne]
    rfl
  · have nonzero : vnode.count ≠ 0 := by simp [isOne]
    have last : ¬ 1 < vnode.count := by simp [isOne]
    simp only [unrefWithin, vnode_eq stored, modify_eq stored, modify_eq lookup_put_self, nonzero,
      last, unflagged, vnodeFree, readyEq, vnode_eq readyStored, parent, bind, Except.bind,
      if_false, ne_eq, not_true]
    cases vnode.parent with
    | none => rfl
    | some parent => rfl

/-- A call that leaves the vnode where it is lowers its count only. -/
theorem unrefWithin_stays (stored : cache.vnodes.lookup vp = some vnode) (nonzero : vnode.count ≠ 0)
    (stays : 1 < vnode.count ∨ vnode.flag &&& vfreeing ≠ 0) :
    ∃ flag, unrefWithin inactive (fuel + 1) cache vp =
      .ok (cache.put vp { vnode with count := vnode.count - 1, flag := flag }) := by
  simp only [unrefWithin, vnode_eq stored, modify_eq stored, modify_eq lookup_put_self, nonzero,
    bind, Except.bind, if_false]
  by_cases more : 1 < vnode.count
  · exact ⟨vnode.flag, by simp [more, pure, Except.pure]⟩
  · have flagged := stays.resolve_left more
    refine ⟨vnode.flag ||| vfreeing, ?_⟩
    simp [more, flagged, pure, Except.pure, VnodeCache.put, Finmap.insert_insert]

/-! ## Children -/

namespace VnodeCache

theorem childrenOf_congr (mem : ∀ child, child ∉ dying →
    (child ∈ after.vnodes ↔ child ∈ cache.vnodes))
    (parent : ∀ child, child ∉ dying → child ∈ cache.vnodes →
      after.parentOf child = cache.parentOf child)
    (vp : Address) : after.childrenOf dying vp = cache.childrenOf dying vp := by
  ext child
  rw [mem_childrenOf, mem_childrenOf]
  constructor
  · rintro ⟨live, notDying, isChild⟩
    have was := (mem child notDying).mp live
    exact ⟨was, notDying, (parent child notDying was).symm.trans isChild⟩
  · rintro ⟨live, notDying, isChild⟩
    exact ⟨(mem child notDying).mpr live, notDying, (parent child notDying live).trans isChild⟩

/-- A vnode that enters `vnode_free` is no child any more. -/
theorem childrenOf_insert (cache : VnodeCache) (dying : Finset Address) (child vp : Address) :
    cache.childrenOf (insert child dying) vp = (cache.childrenOf dying vp).erase child := by
  ext other
  rw [Finset.mem_erase, mem_childrenOf, mem_childrenOf, Finset.mem_insert]
  tauto

theorem toNat_sub_one {count : UInt32} (nonzero : count ≠ 0) :
    (count - 1).toNat + 1 = count.toNat := by
  have positive : 0 < count.toNat := by
    rw [Nat.pos_iff_ne_zero]
    exact fun zero => nonzero (UInt32.toNat_inj.mp (by simpa using zero))
  have atLeast : (1 : UInt32) ≤ count := UInt32.le_iff_toNat_le.mpr positive
  rw [UInt32.toNat_sub_of_le _ _ atLeast, UInt32.toNat_one]
  omega

/-- What a vnode counts less is no longer due. -/
theorem Backs.put (backs : cache.Backs covered dying (gain due vp))
    (stored : cache.vnodes.lookup vp = some vnode)
    (nonzero : vnode.count ≠ 0) (flag : UInt32) :
    (cache.put vp { vnode with count := vnode.count - 1, flag := flag }).Backs covered dying
      due := by
  have children : ∀ target,
    (cache.put vp { vnode with count := vnode.count - 1, flag := flag }).childrenOf
      dying target = cache.childrenOf dying target := by
    refine childrenOf_congr (fun child _ => mem_put_iff stored _) fun child _ _ => ?_
    by_cases same : child = vp
    · subst same
      simp [parentOf, stored]
    · simp [parentOf, same]
  have count := countOf_eq stored
  have fewer := toNat_sub_one nonzero
  constructor
  · intro target isCovered
    have before := backs.counted target isCovered
    rw [children, countOf_put]
    by_cases same : target = vp
    · subst same
      simp only [gain, if_true, Function.update_self] at before ⊢
      omega
    · simpa [gain, same] using before
  · intro target isDying
    have zero := backs.spent target isDying
    rw [countOf_put]
    by_cases same : target = vp
    · subst same
      omega
    · simpa [same] using zero

theorem Lowers.put (stored : cache.vnodes.lookup vp = some vnode) (nonzero : vnode.count ≠ 0)
    (flag : UInt32) :
    cache.Lowers (cache.put vp { vnode with count := vnode.count - 1, flag := flag }) where
  counts target := by
    have count := countOf_eq stored
    have fewer := toNat_sub_one nonzero
    rw [countOf_put]
    by_cases same : target = vp
    · subst same
      simp only [Function.update_self]
      omega
    · simp [same]
  kept target mem _ := (mem_put_iff stored _).mpr mem

end VnodeCache

/-! ## A call of vnode_unref -/

namespace VnodeCache

/-- The vnode that a call frees, as it was before and as it is inside `vnode_free`. -/
structure Enters (cache ready : VnodeCache) (vp : Address) (parent : Option Address) : Prop where
  live : vp ∈ cache.vnodes
  last : cache.countOf vp = 1
  parent : cache.parentOf vp = parent
  same : ∀ target, target ≠ vp → cache.SameLinks ready target
  stays : vp ∈ ready.vnodes
  noCount : ready.countOf vp = 0

variable {ready done : VnodeCache} {parent : Option Address}

theorem Enters.childrenOf (enters : cache.Enters ready vp parent) (dying : Finset Address)
    (target : Address) :
    ready.childrenOf (insert vp dying) target = (cache.childrenOf dying target).erase vp := by
  rw [← childrenOf_insert]
  have other : ∀ child, child ∉ insert vp dying → child ≠ vp := fun child outside same =>
    outside (same ▸ Finset.mem_insert_self vp dying)
  exact childrenOf_congr (fun child outside => (enters.same child (other child outside)).mem_iff)
    (fun child outside _ => (enters.same child (other child outside)).parentOf) target

/-- Inside `vnode_free` the reference on the parent is due. -/
theorem Backs.enter (backs : cache.Backs covered dying (gain due vp))
    (enters : cache.Enters ready vp parent) :
    ready.Backs covered (insert vp dying) (gainIf due parent) := by
  have notDying : vp ∉ dying := fun isDying => by
    have zero := backs.spent vp isDying
    rw [enters.last] at zero
    omega
  have isChild : ∀ target ∈ parent, vp ∈ cache.childrenOf dying target := fun target isParent =>
    mem_childrenOf.mpr ⟨enters.live, notDying, enters.parent.trans isParent⟩
  constructor
  · intro target isCovered
    have before := backs.counted target isCovered
    rw [enters.childrenOf]
    by_cases same : target = vp
    · subst same
      simp only [gain, if_true, enters.last] at before
      have childless : cache.childrenOf dying target = ∅ := Finset.card_eq_zero.mp (by omega)
      have other : parent ≠ some target := fun isParent => by
        have mem := isChild target isParent
        simp [childless] at mem
      simp only [gainIf, other, if_false, childless, Finset.erase_empty, Finset.card_empty,
        enters.noCount]
      omega
    · rw [(enters.same target same).countOf]
      simp only [gain, same, if_false] at before
      by_cases above : parent = some target
      · have fewer := Finset.card_erase_add_one (isChild target above)
        simp only [gainIf, above, if_true]
        omega
      · have fewer := Finset.card_erase_le (s := cache.childrenOf dying target) (a := vp)
        simp only [gainIf, above, if_false]
        omega
  · intro target isDying
    by_cases same : target = vp
    · exact same ▸ enters.noCount
    · rw [(enters.same target same).countOf]
      exact backs.spent target ((Finset.mem_insert.mp isDying).resolve_left same)

/-- Behind `vnode_free`. -/
theorem Backs.leave (backs : done.Backs covered (insert vp dying) due)
    (noCount : done.countOf vp = 0)
    (same : ∀ target, target ≠ vp → done.SameLinks after target) (gone : vp ∉ after.vnodes) :
    after.Backs covered dying due := by
  have counts : ∀ target, after.countOf target = done.countOf target := by
    intro target
    by_cases isVp : target = vp
    · rw [isVp, noCount, countOf_eq_zero gone]
    · exact (same target isVp).countOf
  have children : ∀ target, after.childrenOf dying target =
      done.childrenOf (insert vp dying) target := by
    intro target
    ext child
    rw [mem_childrenOf, mem_childrenOf, Finset.mem_insert]
    by_cases isVp : child = vp
    · simp [isVp, gone]
    · rw [(same child isVp).mem_iff, (same child isVp).parentOf]
      simp [isVp]
  constructor
  · intro target isCovered
    rw [children, counts]
    exact backs.counted target isCovered
  · intro target isDying
    rw [counts]
    exact backs.spent target (Finset.mem_insert_of_mem isDying)

theorem Lowers.freed (enters : cache.Enters ready vp parent) (lowers : ready.Lowers done)
    (same : ∀ target, target ≠ vp → done.SameLinks after target) (gone : vp ∉ after.vnodes) :
    cache.Lowers after := by
  constructor
  · intro target
    by_cases isVp : target = vp
    · rw [isVp, countOf_eq_zero gone]
      exact Nat.zero_le _
    · rw [(same target isVp).countOf, ← (enters.same target isVp).countOf]
      exact lowers.counts target
  · intro target live noCount
    have isVp : target ≠ vp := by
      rintro rfl
      rw [enters.last] at noCount
      omega
    have readyLive := (enters.same target isVp).mem_iff.mpr live
    rw [← (enters.same target isVp).countOf] at noCount
    exact (same target isVp).mem_iff.mpr (lowers.kept target readyLive noCount)

theorem Lowers.refl (cache : VnodeCache) : cache.Lowers cache where
  counts _ := le_rfl
  kept _ live _ := live

end VnodeCache

/-- A call leaves the vnode where it is with one reference less, or frees it. -/
theorem unrefWithin_cases (inactive : VnInactive) (fuel : ℕ) (positive : 0 < cache.countOf vp) :
    (∃ vnode flag, cache.vnodes.lookup vp = some vnode ∧ vnode.count ≠ 0 ∧
      unrefWithin inactive (fuel + 1) cache vp =
        .ok (cache.put vp { vnode with count := vnode.count - 1, flag := flag })) ∨
    ∃ ready parent, cache.Enters ready vp parent ∧
      unrefWithin inactive (fuel + 1) cache vp =
        match parent with
        | none => .ok (ready.slabFree vp)
        | some parent => do
            let done ← unrefWithin inactive fuel ready parent
            let done ← done.modify vp (fun vnode => { vnode with parent := none })
            return done.slabFree vp := by
  rcases exists_lookup (mem_of_countOf positive) with ⟨vnode, stored⟩
  rw [countOf_eq stored] at positive
  have nonzero : vnode.count ≠ 0 := fun zero => by simp [zero] at positive
  by_cases stays : 1 < vnode.count ∨ vnode.flag &&& vfreeing ≠ 0
  · rcases unrefWithin_stays stored nonzero stays with ⟨flag, returns⟩
    exact .inl ⟨vnode, flag, stored, nonzero, returns⟩
  · rw [not_or, not_not, UInt32.lt_iff_toNat_lt, UInt32.toNat_one] at stays
    have one : vnode.count.toNat = 1 := by omega
    rcases unrefWithin_last stored one stays.2 with
      ⟨ready, freeing, same, readyStored, noCount, isParent, returns⟩
    refine .inr ⟨ready, vnode.parent,
      ⟨mem_of_lookup stored, ?_, parentOf_eq stored, same, mem_of_lookup readyStored,
      ?_⟩, returns⟩
    · rw [countOf_eq stored, one]
    · rw [countOf_eq readyStored, noCount, UInt32.toNat_zero]

/-- A vnode that counts nothing stops the call. -/
theorem countOf_pos_of_returns (returns : unrefWithin inactive (fuel + 1) cache vp = .ok after) :
    0 < cache.countOf vp := by
  cases stored : cache.vnodes.lookup vp with
  | none => simp [unrefWithin, VnodeCache.vnode, stored, bind, Except.bind] at returns
  | some vnode =>
      rw [countOf_eq stored, Nat.pos_iff_ne_zero]
      intro zero
      have noCount : vnode.count = 0 := UInt32.toNat_inj.mp (by simpa using zero)
      simp [unrefWithin, vnode_eq stored, modify_eq stored, noCount, bind, Except.bind] at returns

/-- The vnodes that count what is due go on doing so. -/
theorem unrefWithin_backs (backs : cache.Backs covered dying (gain due vp))
    (returns : unrefWithin inactive fuel cache vp = .ok after) :
    after.Backs covered dying due ∧ cache.Lowers after := by
  induction fuel generalizing cache vp dying due after with
  | zero => cases returns
  | succ fuel hypothesis =>
      rcases unrefWithin_cases inactive fuel (countOf_pos_of_returns returns) with
        ⟨vnode, flag, stored, nonzero, stays⟩ | ⟨ready, parent, enters, frees⟩
      · rw [stays, Except.ok.injEq] at returns
        exact returns ▸ ⟨backs.put stored nonzero flag, .put stored nonzero flag⟩
      · rw [frees] at returns
        have entered := backs.enter enters
        cases parent with
        | none =>
            rw [Except.ok.injEq] at returns
            rw [gainIf_none] at entered
            exact returns ▸ ⟨entered.leave enters.noCount (fun target => sameLinks_slabFree)
              (by simp),
              .freed enters (.refl ready) (fun target => sameLinks_slabFree) (by simp)⟩
        | some parent =>
            simp only [bind_eq_ok, pure, Except.pure, Except.ok.injEq] at returns
            rcases returns with ⟨done, unrefs, cleared, clears, rfl⟩
            rw [gainIf_some] at entered
            rcases hypothesis entered unrefs with ⟨doneBacks, lowers⟩
            have noCount : done.countOf vp = 0 :=
              Nat.le_zero.mp ((lowers.counts vp).trans_eq enters.noCount)
            rcases exists_lookup (lowers.kept vp enters.stays enters.noCount) with
              ⟨last, storedLast⟩
            rw [modify_eq storedLast, Except.ok.injEq] at clears
            have same : ∀ target, target ≠ vp → done.SameLinks (cleared.slabFree vp) target :=
              fun target different =>
              (clears ▸ sameLinks_put different).trans (sameLinks_slabFree different)
            exact ⟨doneBacks.leave noCount same (by simp), .freed enters lowers same (by simp)⟩

/-- When all vnodes count what is due, nothing stops the call but its fuel. -/
theorem unrefWithin_backs_returns (inactive : VnInactive) (fuel : ℕ)
    (backs : cache.Backs Set.univ dying (gain due vp)) :
    unrefWithin inactive fuel cache vp = .error .fuel ∨
      ∃ after, unrefWithin inactive fuel cache vp = .ok after := by
  induction fuel generalizing cache vp dying due with
  | zero => exact .inl rfl
  | succ fuel hypothesis =>
      have positive : 0 < cache.countOf vp := by
        have counted := backs.counted vp (Set.mem_univ vp)
        simp only [gain, if_true] at counted
        omega
      rcases unrefWithin_cases inactive fuel positive with
        ⟨vnode, flag, stored, nonzero, stays⟩ | ⟨ready, parent, enters, frees⟩
      · exact .inr ⟨_, stays⟩
      · have entered := backs.enter enters
        cases parent with
        | none => exact .inr ⟨_, frees⟩
        | some parent =>
            rw [gainIf_some] at entered
            rw [frees]
            rcases hypothesis entered with exhausted | ⟨done, unrefs⟩
            · exact .inl (by simp [exhausted, bind, Except.bind])
            · have lowers := (unrefWithin_backs entered unrefs).2
              rcases exists_lookup (lowers.kept vp enters.stays enters.noCount) with
                ⟨last, storedLast⟩
              refine .inr ⟨(done.put vp { last with parent := none }).slabFree vp, ?_⟩
              simp only [unrefs, modify_eq storedLast, bind, Except.bind]
              rfl

/-- Outside of `vnode_free`, a call keeps what is due, and returns when all vnodes count it. -/
theorem vnodeUnref_backs (backs : cache.Backs covered ∅ (gain due vp))
    (returns : vnodeUnref inactive cache vp = .ok after) : after.Backs covered ∅ due :=
  (unrefWithin_backs backs returns).1

theorem vnodeUnref_backs_returns (inactive : VnInactive)
    (backs : cache.Backs Set.univ ∅ (gain due vp)) :
    ∃ after, vnodeUnref inactive cache vp = .ok after :=
  (unrefWithin_backs_returns inactive _ backs).resolve_left vnodeUnref_ne_fuel

/-! ## Calls one after the other -/

def unrefAll (inactive : VnInactive) : List Address → VnodeCache → Except Trap VnodeCache
  | [], cache => return cache
  | vp :: vps, cache => do
      let cache ← vnodeUnref inactive cache vp
      unrefAll inactive vps cache

/-- The references that the calls drop are due. -/
def dueTo (vps : List Address) : Address → ℕ := fun vp => vps.count vp

variable {vps : List Address}

theorem gain_dueTo (vp : Address) (vps : List Address) :
    gain (dueTo vps) vp = dueTo (vp :: vps) := by
  funext target
  by_cases same : target = vp
  · simp [gain, dueTo, same]
  · simp [gain, dueTo, same, List.count_cons_of_ne (Ne.symm same)]

theorem unrefAll_append (earlier later : List Address) (cache : VnodeCache) :
    unrefAll inactive (earlier ++ later) cache =
      unrefAll inactive earlier cache >>= unrefAll inactive later := by
  induction earlier generalizing cache with
  | nil => rfl
  | cons vp earlier hypothesis =>
      simp only [List.cons_append, unrefAll, bind, Except.bind]
      cases vnodeUnref inactive cache vp with
      | error trap => rfl
      | ok after => exact hypothesis after

/-- No call runs out of fuel. -/
theorem unrefAll_ne_fuel (inactive : VnInactive) (vps : List Address) (cache : VnodeCache) :
    unrefAll inactive vps cache ≠ .error .fuel := by
  induction vps generalizing cache with
  | nil => simp [unrefAll, pure, Except.pure]
  | cons vp vps hypothesis =>
      have first := @vnodeUnref_ne_fuel cache vp inactive
      simp only [unrefAll, bind, Except.bind]
      cases call : vnodeUnref inactive cache vp with
      | error trap => simpa [call] using first
      | ok after => exact hypothesis after

/-- Every call meets a vnode that still has a reference. -/
theorem unrefAll_backs {later : List Address} (backs : cache.Backs covered ∅ (dueTo (vps ++ later)))
    (returns : unrefAll inactive vps cache = .ok after) : after.Backs covered ∅ (dueTo later) := by
  induction vps generalizing cache with
  | nil =>
      rw [unrefAll] at returns
      cases returns
      exact backs
  | cons vp vps hypothesis =>
      simp only [unrefAll, bind_eq_ok] at returns
      rcases returns with ⟨middle, unrefs, rest⟩
      rw [List.cons_append, ← gain_dueTo] at backs
      exact hypothesis (vnodeUnref_backs backs unrefs) rest

theorem unrefAll_returns (inactive : VnInactive) (backs : cache.Backs Set.univ ∅ (dueTo vps)) :
    ∃ after, unrefAll inactive vps cache = .ok after := by
  induction vps generalizing cache with
  | nil => exact ⟨cache, rfl⟩
  | cons vp vps hypothesis =>
      rw [← gain_dueTo] at backs
      rcases vnodeUnref_backs_returns inactive backs with ⟨middle, unrefs⟩
      rcases hypothesis (vnodeUnref_backs backs unrefs) with ⟨after, rest⟩
      exact ⟨after, by simp [unrefAll, unrefs, rest, bind, Except.bind]⟩

/-- A vnode that counts what is due has a reference when its turn comes. -/
theorem countOf_pos_of_backs {earlier later : List Address}
    (backs : cache.Backs covered ∅ (dueTo (earlier ++ vp :: later))) (isCovered : vp ∈ covered)
    (returns : unrefAll inactive earlier cache = .ok after) : 0 < after.countOf vp := by
  have counted := (unrefAll_backs backs returns).counted vp isCovered
  simp only [dueTo, List.count_cons_self] at counted
  omega

end Goshkik
