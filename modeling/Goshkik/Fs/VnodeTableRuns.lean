import Goshkik.Fs.Parentless
import Goshkik.Fs.VnodeTable
import Goshkik.Lib.Multiplicity
import Goshkik.Lib.Run

/-!
# Runs of the vnode table

Callers get, insert, look up and put vnodes, and filesystems purge theirs.  `held`
counts the references that callers were given and have not put back.

The table has no reference to the vnodes in it, while `vfs_purge_vnodes` drops one
for each entry it removes, and a caller that finds a vnode in the table takes a
reference but gets no pointer.  So a vnode in the table can lose its last reference,
and a caller can lose the reference it holds.  The conditions below say when
neither happens.
-/

namespace Goshkik

open Transition VnodeCache

structure TableWorld where
  state : VnodeTable
  held : Address → ℕ

inductive TableCall where
  | alloc (vfsp : Option Address) (type : Vtype) (slabAlloc : Option Address)
  | get (vfsp : Option Address) (out : Bool) (nodeid : UInt64) (vget : Option Vget) (room : Bool)
  | put (vp : Option Address)
  | ref (vp : Address)
  | insert (vfsp : Option Address) (nodeid : UInt64) (vp : Option Address) (room : Bool)
  | lookup (vfsp : Option Address) (nodeid : UInt64) (outVp : Option (Option Address))
  | remove (vfsp : Option Address) (nodeid : UInt64)
  | purge (vfsp : Option Address) (order : List (List UInt8)) (kmalloc : Bool)

namespace VnodeTable

/-- The number of entries with a vnode among those with the given keys. -/
def among (state : VnodeTable) (keys : List (List UInt8)) (vp : Address) : ℕ :=
  keys.countP (fun key => state.table.lookup key = some (some vp))

/-- The number of entries with a vnode. -/
def entries (state : VnodeTable) (vp : Address) : ℕ := state.table.multiplicity (some vp)

end VnodeTable

namespace TableWorld

def initial : TableWorld where
  state := { vnodes := { vnodes := ∅, freed := [] }, table := ∅ }
  held := fun _ => 0

/-- Callers pass vnodes they hold a reference to, and the slab allocator hands out
vnodes that are not in use. -/
def Allowed (world : TableWorld) : TableCall → Prop
  | .alloc _ _ slabAlloc => ∀ vp ∈ slabAlloc, vp ∉ world.state.vnodes.vnodes
  | .get _ _ _ vget _ =>
      ∀ vp ∈ vget.bind Vget.slabAlloc, vp ∉ world.state.vnodes.vnodes
  | .put vp => ∀ target ∈ vp, 0 < world.held target
  | .ref vp => 0 < world.held vp
  | .insert _ _ vp _ => ∀ target ∈ vp, 0 < world.held target
  | .lookup _ _ _ => True
  | .remove _ _ => True
  | .purge _ order _ => world.state.table.Listed order

instance (world : TableWorld) : (call : TableCall) → Decidable (world.Allowed call)
  | .alloc _ _ slabAlloc =>
      inferInstanceAs (Decidable (∀ vp ∈ slabAlloc, vp ∉ world.state.vnodes.vnodes))
  | .get _ _ _ vget _ => inferInstanceAs
      (Decidable (∀ vp ∈ vget.bind Vget.slabAlloc, vp ∉ world.state.vnodes.vnodes))
  | .put vp => inferInstanceAs (Decidable (∀ target ∈ vp, 0 < world.held target))
  | .ref vp => inferInstanceAs (Decidable (0 < world.held vp))
  | .insert _ _ vp _ => inferInstanceAs (Decidable (∀ target ∈ vp, 0 < world.held target))
  | .lookup _ _ _ => inferInstanceAs (Decidable True)
  | .remove _ _ => inferInstanceAs (Decidable True)
  | .purge _ order _ => inferInstanceAs (Decidable (world.state.table.Listed order))

/-- The reference that `vnode_get` gives with its code and `*out`. -/
def given (code : ℤ) (out : Option (Option Address)) : Option Address :=
  if code = 0 then out.join else none

/-- A caller of `vnode_cache_lookup` has the reference only if its pointer was the
vnode before. -/
def exec (inactive : VnInactive) (world : TableWorld) : TableCall → Except Trap TableWorld
  | .alloc vfsp type slabAlloc =>
      let (vp, vnodes) := vnodeAlloc world.state.vnodes vfsp type slabAlloc
      return { state := { world.state with vnodes := vnodes }, held := gainIf world.held vp }
  | .get vfsp out nodeid vget room => do
      let (code, vp, state) ← vnodeGet inactive world.state vfsp out nodeid vget room
      return { state := state, held := gainIf world.held (given code vp) }
  | .put vp => do
      let state ← vnodePut inactive world.state vp
      return { state := state, held := vp.elim world.held (lose world.held) }
  | .ref vp => do
      let vnodes ← vnodeRef world.state.vnodes vp
      return { state := { world.state with vnodes := vnodes }, held := gain world.held vp }
  | .insert vfsp nodeid vp room =>
      return { world with state := (vnodeCacheInsert world.state vfsp nodeid vp room).2 }
  | .lookup vfsp nodeid outVp => do
      let (code, vp, state) ← vnodeCacheLookup world.state vfsp nodeid outVp
      let same := vp = vfsp.bind (fun vfsp => world.state.stored vfsp nodeid)
      return { state := state, held := gainIf world.held (if code = 0 ∧ same then vp else none) }
  | .remove vfsp nodeid =>
      return { world with state := (vnodeCacheRemove world.state vfsp nodeid).2 }
  | .purge vfsp order kmalloc => do
      let state ← vfsPurgeVnodes inactive world.state vfsp order kmalloc
      return { world with state := state }

def Step (inactive : VnInactive) (world : TableWorld) (call : TableCall) (after : TableWorld) :
    Prop :=
  world.Allowed call ∧ world.exec inactive call = .ok after

/-- One more reference to a vnode can be counted. -/
def Fits (world : TableWorld) (vp : Address) : Prop :=
  world.state.vnodes.countOf vp + 1 < 2 ^ 32

instance (world : TableWorld) (vp : Address) : Decidable (world.Fits vp) :=
  inferInstanceAs (Decidable (_ < _))

/-- The entries under `keys` with a vnode are no more than it counts references, and
fewer if another entry has it or a caller holds it. -/
def Purgeable (world : TableWorld) (keys : List (List UInt8)) (vp : Address) : Prop :=
  world.state.among keys vp ≤ world.state.vnodes.countOf vp ∧
    (0 < world.held vp ∨ world.state.among keys vp < world.state.entries vp →
      world.state.among keys vp < world.state.vnodes.countOf vp)

instance (world : TableWorld) (keys : List (List UInt8)) (vp : Address) :
    Decidable (world.Purgeable keys vp) :=
  inferInstanceAs (Decidable (_ ∧ _))

/-- A put leaves a reference to a vnode that is in the table or that another caller
holds, a purge leaves one to every vnode that a caller holds or another filesystem has
in the table, and no count overflows. -/
def Spared (world : TableWorld) : TableCall → Prop
  | .get (some vfsp) true nodeid _ _ => ∀ vp ∈ world.state.stored vfsp nodeid, world.Fits vp
  | .put (some vp) =>
      0 < world.state.entries vp ∨ 1 < world.held vp → 1 < world.state.vnodes.countOf vp
  | .ref vp => world.Fits vp
  | .lookup (some vfsp) nodeid (some _) => ∀ vp ∈ world.state.stored vfsp nodeid, world.Fits vp
  | .purge (some vfsp) order true =>
      ∀ vp ∈ world.state.vnodes.vnodes.keys, world.Purgeable (keysOf vfsp order) vp
  | _ => True

instance (world : TableWorld) (call : TableCall) : Decidable (world.Spared call) := by
  unfold Spared
  split <;> infer_instance

/-- One step, taken where it is allowed and `guard` holds. -/
def next (inactive : VnInactive) (guard : TableWorld → TableCall → Bool) (world : TableWorld)
    (call : TableCall) : Option TableWorld :=
  if guard world call ∧ world.Allowed call then (world.exec inactive call).toOption else none

/-- Every vnode in the table and every vnode that a caller holds keeps a reference when
one is dropped for each of the keys. -/
structure Covered (world : TableWorld) (keys : List (List UInt8)) : Prop where
  parentless : world.state.vnodes.Parentless
  valued : ∀ key, world.state.table.lookup key ≠ some none
  purgeable : ∀ vp, world.Purgeable keys vp

variable {inactive : VnInactive} {world after : TableWorld} {call : TableCall}
  {guard : TableWorld → TableCall → Bool} {vp : Address} {key : List UInt8}
  {keys : List (List UInt8)}

theorem next_step (world : TableWorld) (call : TableCall) (after : TableWorld)
    (steps : next inactive guard world call = some after) :
    Guarded (fun world call => guard world call = true) (Step inactive) world call after :=
  permitted_of_eq_some steps

@[simp]
theorem among_nil : world.state.among [] vp = 0 := rfl

theorem purgeable_nil : world.Purgeable [] vp ↔
    (0 < world.held vp ∨ 0 < world.state.entries vp → 0 < world.state.vnodes.countOf vp) := by
  simp [Purgeable]

theorem covered_initial : initial.Covered [] where
  parentless := by
    refine ⟨⟨⟨?_, ?_, ?_⟩, ?_, ?_⟩, ?_⟩
    · simp [initial, VnodeCache.graph]
    · simp [initial, VnodeCache.graph, countOf]
    · simp [initial, VnodeCache.graph]
    · simp [initial]
    · simp [initial]
    · simp [initial, parentOf]
  valued := by simp [initial]
  purgeable := by
    intro vp
    rw [purgeable_nil]
    simp [initial, VnodeTable.entries]

namespace Covered

/-- What the table has for a node has a reference. -/
theorem count_pos (covered : world.Covered [])
    (bound : world.state.table.lookup key = some (some vp)) :
    0 < world.state.vnodes.countOf vp := by
  have purgeable := purgeable_nil.mp (covered.purgeable vp)
  exact purgeable (Or.inr (Finmap.multiplicity_pos bound))

theorem count_pos_of_held (covered : world.Covered []) (holds : 0 < world.held vp) :
    0 < world.state.vnodes.countOf vp :=
  purgeable_nil.mp (covered.purgeable vp) (Or.inl holds)

/-- More references to vnodes, some of which callers hold. -/
theorem grow (covered : world.Covered []) {vnodes : VnodeCache} {held : Address → ℕ}
    (parentless : vnodes.Parentless)
    (counts : ∀ target, world.state.vnodes.countOf target ≤ vnodes.countOf target)
    (holds : ∀ target, 0 < held target → 0 < world.held target ∨ 0 < vnodes.countOf target) :
    Covered { state := { world.state with vnodes := vnodes }, held := held } [] where
  parentless := parentless
  valued := covered.valued
  purgeable := by
    intro target
    have before := purgeable_nil.mp (covered.purgeable target)
    have more := counts target
    rw [purgeable_nil]
    rintro (positive | stored)
    · rcases holds target positive with already | counted
      · exact Nat.lt_of_lt_of_le (before (Or.inl already)) more
      · exact counted
    · exact Nat.lt_of_lt_of_le (before (Or.inr stored)) more

/-- An entry with a vnode that has a reference. -/
theorem insert (covered : world.Covered []) (positive : 0 < world.state.vnodes.countOf vp)
    (key : List UInt8) (room : Bool) :
    Covered { world with
      state := { world.state with
        table := (world.state.table.hashtableSet (some vp) key room).2 } } [] := by
  by_cases stores : key ∈ world.state.table ∨ room = true
  · rw [Bindings.hashtableSet_stores stores]
    constructor
    case parentless => exact covered.parentless
    case valued =>
      intro other
      by_cases same : other = key
      · subst same
        simp
      · simpa [Finmap.lookup_insert_of_ne _ same] using covered.valued other
    case purgeable =>
      intro target
      have before := purgeable_nil.mp (covered.purgeable target)
      have erased := Finmap.multiplicity_erase world.state.table key (some target)
      rw [purgeable_nil]
      simp only [VnodeTable.entries, Finmap.multiplicity_insert, Option.some.injEq] at before ⊢
      by_cases same : vp = target
      · exact fun _ => same ▸ positive
      · simp only [same, if_false, Nat.add_zero]
        intro needs
        apply before
        omega
  · rw [Bindings.hashtableSet_refuses stores]
    exact covered

theorem remove (covered : world.Covered []) (key : List UInt8) :
    Covered { world with
      state := { world.state with table := (world.state.table.hashtableRemove key).2 } } [] := by
  rw [Bindings.hashtableRemove_snd]
  constructor
  case parentless => exact covered.parentless
  case valued =>
    intro other
    by_cases same : other = key
    · subst same
      simp
    · simpa [Finmap.lookup_erase_ne same] using covered.valued other
  case purgeable =>
    intro target
    have before := purgeable_nil.mp (covered.purgeable target)
    have erased := Finmap.multiplicity_erase world.state.table key (some target)
    rw [purgeable_nil]
    simp only [VnodeTable.entries] at before ⊢
    intro needs
    apply before
    omega

/-- The condition on the vnodes in use says the same of all addresses. -/
theorem purging (covered : world.Covered [])
    (purgeable : ∀ vp ∈ world.state.vnodes.vnodes.keys, world.Purgeable keys vp) :
    world.Covered keys where
  parentless := covered.parentless
  valued := covered.valued
  purgeable := by
    intro vp
    by_cases present : vp ∈ world.state.vnodes.vnodes
    · exact purgeable vp (Finmap.mem_keys.mpr present)
    · have uncounted := countOf_eq_zero present
      have before := purgeable_nil.mp (covered.purgeable vp)
      have none : world.state.among keys vp = 0 := by
        apply List.countP_eq_zero.mpr
        intro key _ bound
        have positive := covered.count_pos (of_decide_eq_true bound)
        omega
      simp only [Purgeable, none, uncounted] at before ⊢
      exact ⟨Nat.le_refl 0, before⟩

/-- One entry less to be purged. -/
theorem purgeKey_returns (inactive : VnInactive) (covered : world.Covered (key :: keys))
    (single : key ∉ keys) (bound : key ∈ world.state.table) :
    ∃ state, purgeKey inactive world.state key = .ok state ∧
      state.table = world.state.table.erase key ∧ Covered { world with state := state } keys := by
  rcases Finmap.mem_iff.mp bound with ⟨value, stored⟩
  cases value with
  | none => exact absurd stored (covered.valued key)
  | some purged =>
      have listed : ∀ vp, world.state.among (key :: keys) vp =
          world.state.among keys vp + if purged = vp then 1 else 0 := by
        intro vp
        simp [VnodeTable.among, List.countP_cons, stored]
      have positive : 0 < world.state.vnodes.countOf purged := by
        have enough := (covered.purgeable purged).1
        rw [listed, if_pos rfl] at enough
        omega
      rcases covered.parentless.unref inactive positive with
        ⟨vnodes, unrefs, parentless, counts⟩
      refine ⟨{ vnodes := vnodes, table := world.state.table.erase key }, ?_, rfl, ?_⟩
      · simp [purgeKey, Bindings.hashtableGet, Bindings.hashtableRemove, stored, bound, unrefs,
          bind, Except.bind, pure, Except.pure]
      constructor
      case parentless => exact parentless
      case valued =>
        intro other
        by_cases same : other = key
        · subst same
          simp
        · simpa [Finmap.lookup_erase_ne same] using covered.valued other
      case purgeable =>
        intro vp
        have before := covered.purgeable vp
        have erased := Finmap.multiplicity_erase world.state.table key (some vp)
        have kept : VnodeTable.among { vnodes := vnodes, table := world.state.table.erase key } keys
            vp = world.state.among keys vp := by
          apply List.countP_congr
          intro other mem
          have different : other ≠ key := fun same => single (same ▸ mem)
          simp only [Finmap.lookup_erase_ne different]
        simp only [Purgeable, listed, VnodeTable.entries, stored, Option.some.injEq]
          at before erased
        simp only [Purgeable, VnodeTable.entries, counts, lose, kept]
        by_cases same : purged = vp
        · subst same
          simp only [if_true] at before erased ⊢
          omega
        · simp only [same, Ne.symm same, if_false] at before erased ⊢
          omega

theorem purgeKeys_returns (inactive : VnInactive) (covered : world.Covered keys)
    (single : keys.Nodup)
    (bound : ∀ key ∈ keys, key ∈ world.state.table) :
    ∃ state, purgeKeys inactive keys world.state = .ok state ∧
      Covered { world with state := state } [] := by
  induction keys generalizing world with
  | nil => exact ⟨world.state, rfl, covered⟩
  | cons key keys ih =>
      rcases List.nodup_cons.mp single with ⟨fresh, rest⟩
      rcases covered.purgeKey_returns inactive fresh (bound key List.mem_cons_self) with
        ⟨state, purges, table, coveredAfter⟩
      have boundAfter : ∀ other ∈ keys, other ∈ state.table := by
        intro other mem
        rw [table, Finmap.mem_erase]
        exact ⟨fun same => fresh (same ▸ mem), bound other (List.mem_cons_of_mem key mem)⟩
      rcases ih coveredAfter rest boundAfter with ⟨last, purgesRest, coveredLast⟩
      refine ⟨last, ?_, coveredLast⟩
      simp [purgeKeys, purges, purgesRest, bind, Except.bind]

end Covered

namespace Covered

theorem purge (inactive : VnInactive) (covered : world.Covered []) {vfsp : Option Address}
    {order : List (List UInt8)} {kmalloc : Bool} (listed : world.state.table.Listed order)
    (spared : world.Spared (.purge vfsp order kmalloc)) :
    ∃ state, vfsPurgeVnodes inactive world.state vfsp order kmalloc = .ok state ∧
      Covered { world with state := state } [] := by
  cases vfsp with
  | none => exact ⟨world.state, rfl, covered⟩
  | some vfsp =>
      simp only [vfsPurgeVnodes]
      split
      · exact ⟨world.state, rfl, covered⟩
      · cases kmalloc with
        | false => exact ⟨world.state, rfl, covered⟩
        | true =>
            have listedKeys := keysOf_eq vfsp order
            apply (covered.purging spared).purgeKeys_returns inactive
            · rw [listedKeys]
              exact listed.1.filter _
            · intro key mem
              rw [listedKeys] at mem
              exact (listed.2 key).mp (List.mem_filter.mp mem).1

theorem alloc (covered : world.Covered []) (fresh : vp ∉ world.state.vnodes.vnodes)
    (vfsp : Option Address) (type : Vtype) :
    Covered
      { state := { world.state with
          vnodes := (vnodeAlloc world.state.vnodes vfsp type (some vp)).2 }
        held := gain world.held vp } [] := by
  rcases covered.parentless.alloc fresh vfsp type with ⟨parentless, counts⟩
  apply covered.grow parentless
  · intro target
    rw [counts]
    simp [gain]
  · intro target holds
    rw [counts]
    simp only [gain] at holds ⊢
    omega

/-- A reference that a caller may have been given. -/
theorem ref (covered : world.Covered []) (positive : 0 < world.state.vnodes.countOf vp)
    (fits : world.Fits vp) {held : Address → ℕ}
    (holds : ∀ target, held target ≤ gain world.held vp target) :
    ∃ vnodes, vnodeRef world.state.vnodes vp = .ok vnodes ∧
      Covered { state := { world.state with vnodes := vnodes }, held := held } [] := by
  rcases covered.parentless.ref positive fits with ⟨vnodes, refs, parentless, counts⟩
  refine ⟨vnodes, refs, covered.grow parentless ?_ ?_⟩
  · intro target
    rw [counts]
    simp [gain]
  · intro target holdsOne
    have most := holds target
    rw [counts]
    simp only [gain] at most ⊢
    omega

theorem put (inactive : VnInactive) (covered : world.Covered []) (holds : 0 < world.held vp)
    (spared : world.Spared (.put (some vp))) :
    ∃ vnodes, vnodeUnref inactive world.state.vnodes vp = .ok vnodes ∧
      Covered { state := { world.state with vnodes := vnodes }, held := lose world.held vp }
        [] := by
  rcases covered.parentless.unref inactive (covered.count_pos_of_held holds) with
    ⟨vnodes, unrefs, parentless, counts⟩
  refine ⟨vnodes, unrefs, parentless, covered.valued, ?_⟩
  intro target
  have before := purgeable_nil.mp (covered.purgeable target)
  simp only [Spared] at spared
  rw [purgeable_nil, counts]
  simp only [VnodeTable.entries, lose] at before spared ⊢
  by_cases same : target = vp
  · subst same
    simp only [if_true]
    omega
  · simpa [same] using before

/-- A node that is in the table. -/
theorem lookup_hit (covered : world.Covered []) {vfsp : Address} {nodeid : UInt64}
    (bound : world.state.stored vfsp nodeid = some vp) (fits : world.Fits vp)
    (old : Option Address) {held : Address → ℕ}
    (holds : ∀ target, held target ≤ gain world.held vp target) :
    ∃ state, vnodeCacheLookup world.state (some vfsp) nodeid (some old) = .ok (0, old, state) ∧
      Covered { state := state, held := held } [] := by
  have found := Option.join_eq_some_iff.mp bound
  rcases covered.ref (covered.count_pos found) fits holds with ⟨vnodes, refs, coveredAfter⟩
  refine ⟨{ world.state with vnodes := vnodes }, ?_, coveredAfter⟩
  simp [vnodeCacheLookup, vnodeCacheLookupLocked, Bindings.hashtableGet, found, refs, bind,
    Except.bind, pure, Except.pure]

theorem unbound (covered : world.Covered []) {vfsp : Address} {nodeid : UInt64}
    (missing : world.state.stored vfsp nodeid = none) :
    world.state.table.lookup (createVnodeKey vfsp nodeid) = none := by
  cases found : world.state.table.lookup (createVnodeKey vfsp nodeid) with
  | none => rfl
  | some value =>
      cases value with
      | none => exact absurd found (covered.valued _)
      | some vp => simp [VnodeTable.stored, found] at missing

/-- A node that is not in the table. -/
theorem lookup_miss (covered : world.Covered []) {vfsp : Address} {nodeid : UInt64}
    (missing : world.state.stored vfsp nodeid = none) (old : Option Address) :
    vnodeCacheLookup world.state (some vfsp) nodeid (some old) =
      .ok (-enoent, old, world.state) := by
  simp [vnodeCacheLookup, vnodeCacheLookupLocked, Bindings.hashtableGet, covered.unbound missing,
    pure, Except.pure]

/-- A vnode that the filesystem has just made. -/
theorem getFresh (inactive : VnInactive) (covered : world.Covered []) {vfsp : Address}
    {nodeid : UInt64} (missing : world.state.stored vfsp nodeid = none)
    (positive : 0 < world.state.vnodes.countOf vp) (room : Bool) :
    ∃ state, vnodeGetFresh inactive world.state vfsp nodeid vp room =
        .ok (0, some (some vp), state) ∧ Covered { world with state := state } [] := by
  rcases covered.parentless.modify positive (fun vnode => { vnode with vfsp := some vfsp })
    (fun _ => rfl) with ⟨vnodes, modifies, parentless, counts⟩
  have coveredModified :
      Covered { world with state := { world.state with vnodes := vnodes } } [] := by
    apply covered.grow parentless
    · intro target
      rw [counts]
    · intro target holds
      exact Or.inl holds
  have positiveModified : 0 < vnodes.countOf vp := by
    rwa [counts]
  refine ⟨_, ?_, coveredModified.insert positiveModified (createVnodeKey vfsp nodeid) room⟩
  simp [vnodeGetFresh, modifies, recheckInsert, vnodeCacheLookupLocked, Bindings.hashtableGet,
    covered.unbound missing, vnodeCacheInsertLocked, bind, Except.bind, pure, Except.pure]

theorem get (inactive : VnInactive) (covered : world.Covered []) {vfsp : Option Address}
    {out : Bool} {nodeid : UInt64} {vget : Option Vget} {room : Bool}
    (allowed : world.Allowed (.get vfsp out nodeid vget room))
    (spared : world.Spared (.get vfsp out nodeid vget room)) :
    ∃ code vp state, vnodeGet inactive world.state vfsp out nodeid vget room =
        .ok (code, vp, state) ∧
      Covered { state := state, held := gainIf world.held (given code vp) } [] := by
  by_cases valid : ∃ own, vfsp = some own ∧ out = true
  · rcases valid with ⟨vfsp, rfl, rfl⟩
    cases stored : world.state.stored vfsp nodeid with
    | some found =>
        rcases covered.lookup_hit stored (spared found stored) none
          (fun target => Nat.le_add_right (world.held target) _) with ⟨state, looks, coveredAfter⟩
        refine ⟨0, some none, state, ?_, ?_⟩
        · simp [vnodeGet, looks, bind, Except.bind, pure, Except.pure]
        · simpa [given] using coveredAfter
    | none =>
        have looks := covered.lookup_miss stored none
        cases vget with
        | none =>
            refine ⟨-enosys, none, world.state, ?_, ?_⟩
            · simp [vnodeGet, looks, bind, Except.bind, pure, Except.pure, enoent]
            · simpa [given, enosys] using covered
        | some vget =>
            by_cases fails : vget.ret = 0
            · cases made : vget.slabAlloc with
              | none =>
                  refine ⟨-eio, none, world.state, ?_, ?_⟩
                  · simp [vnodeGet, looks, fails, made, vnodeAlloc, bind, Except.bind, pure,
                      Except.pure, enoent]
                  · simpa [given, eio] using covered
              | some vp =>
                  have fresh : vp ∉ world.state.vnodes.vnodes := allowed vp made
                  have coveredAlloc := covered.alloc fresh (some vfsp) vget.type
                  have counts := (covered.parentless.alloc fresh (some vfsp) vget.type).2
                  have positive : 0 < (vnodeAlloc world.state.vnodes (some vfsp) vget.type
                      (some vp)).2.countOf vp := by
                    simp [counts, gain]
                  rcases coveredAlloc.getFresh inactive stored positive room with
                    ⟨state, gets, coveredAfter⟩
                  refine ⟨0, some (some vp), state, ?_, ?_⟩
                  · simpa [vnodeGet, looks, fails, made, vnodeAlloc, bind, Except.bind, enoent]
                      using gets
                  · simpa [given] using coveredAfter
            · refine ⟨vget.ret, none, world.state, ?_, ?_⟩
              · simp [vnodeGet, looks, fails, bind, Except.bind, pure, Except.pure, enoent]
              · simpa [given, fails] using covered
  · refine ⟨-einval, none, world.state, ?_, ?_⟩
    · simp only [vnodeGet]
      split
      · rename_i own
        exact absurd ⟨own, rfl, rfl⟩ valid
      · rfl
    · simpa [given, einval] using covered

theorem lookup (covered : world.Covered []) {vfsp : Option Address} {nodeid : UInt64}
    {outVp : Option (Option Address)} (spared : world.Spared (.lookup vfsp nodeid outVp)) :
    ∃ after, world.exec inactive (.lookup vfsp nodeid outVp) = .ok after ∧ after.Covered [] := by
  by_cases valid : ∃ own old, vfsp = some own ∧ outVp = some old
  · rcases valid with ⟨vfsp, old, rfl, rfl⟩
    cases stored : world.state.stored vfsp nodeid with
    | some found =>
        have holds : ∀ target, gainIf world.held (if old = some found then old else none) target ≤
            gain world.held found target := by
          intro target
          split
          · rename_i same
            rw [same, gainIf_some]
          · simp [gain]
        rcases covered.lookup_hit stored (spared found stored) old holds with
          ⟨state, looks, coveredAfter⟩
        refine ⟨_, ?_, coveredAfter⟩
        simp [exec, looks, stored, bind, Except.bind, pure, Except.pure]
    | none =>
        refine ⟨world, ?_, covered⟩
        simp [exec, covered.lookup_miss stored old, enoent, bind, Except.bind, pure, Except.pure]
  · refine ⟨world, ?_, covered⟩
    have invalid : vnodeCacheLookup world.state vfsp nodeid outVp =
        .ok (-einval, outVp.join, world.state) := by
      simp only [vnodeCacheLookup]
      split
      · rename_i own old
        exact absurd ⟨own, old, rfl, rfl⟩ valid
      · rfl
    simp [exec, invalid, einval, bind, Except.bind, pure, Except.pure]

theorem cacheInsert (covered : world.Covered []) (vfsp : Option Address) (nodeid : UInt64)
    {vp : Option Address} (room : Bool) (allowed : ∀ target ∈ vp, 0 < world.held target) :
    Covered { world with state := (vnodeCacheInsert world.state vfsp nodeid vp room).2 } [] := by
  simp only [vnodeCacheInsert]
  split
  · rename_i own target
    split
    · exact covered
    · exact covered.insert (covered.count_pos_of_held (allowed target rfl)) _ room
  · exact covered

end Covered

/-- Every call that spares the vnodes in the table and those of callers returns. -/
theorem exec_returns (inactive : VnInactive) (covered : world.Covered [])
    (allowed : world.Allowed call) (spared : world.Spared call) :
    ∃ after, world.exec inactive call = .ok after ∧ after.Covered [] := by
  cases call with
  | alloc vfsp type slabAlloc =>
      cases slabAlloc with
      | none =>
          refine ⟨_, rfl, ?_⟩
          simpa [vnodeAlloc] using covered
      | some vp =>
          refine ⟨_, rfl, ?_⟩
          have coveredAfter := covered.alloc (allowed vp rfl) vfsp type
          rwa [← gainIf_some] at coveredAfter
  | get vfsp out nodeid vget room =>
      rcases covered.get inactive allowed spared with ⟨code, vp, state, gets, coveredAfter⟩
      refine ⟨_, ?_, coveredAfter⟩
      simp [exec, gets, bind, Except.bind, pure, Except.pure]
  | put vp =>
      cases vp with
      | none => exact ⟨world, rfl, covered⟩
      | some vp =>
          rcases covered.put inactive (allowed vp rfl) spared with ⟨vnodes, unrefs, coveredAfter⟩
          refine ⟨_, ?_, coveredAfter⟩
          simp [exec, vnodePut, unrefs, bind, Except.bind, pure, Except.pure]
  | ref vp =>
      rcases covered.ref (covered.count_pos_of_held allowed) spared (fun _ => Nat.le_refl _) with
        ⟨vnodes, refs, coveredAfter⟩
      refine ⟨_, ?_, coveredAfter⟩
      simp [exec, refs, bind, Except.bind, pure, Except.pure]
  | insert vfsp nodeid vp room =>
      exact ⟨_, rfl, covered.cacheInsert vfsp nodeid room allowed⟩
  | lookup vfsp nodeid outVp => exact covered.lookup spared
  | remove vfsp nodeid =>
      refine ⟨_, rfl, ?_⟩
      cases vfsp with
      | none => exact covered
      | some vfsp => exact covered.remove (createVnodeKey vfsp nodeid)
  | purge vfsp order kmalloc =>
      rcases covered.purge inactive allowed spared with ⟨state, purges, coveredAfter⟩
      refine ⟨_, ?_, coveredAfter⟩
      simp [exec, purges, bind, Except.bind, pure, Except.pure]

theorem Step.covered (step : Guarded Spared (Step inactive) world call after)
    (covered : world.Covered []) : after.Covered [] := by
  rcases step with ⟨spared, allowed, executes⟩
  rcases exec_returns inactive covered allowed spared with ⟨reached, reaches, coveredAfter⟩
  rw [reaches, Except.ok.injEq] at executes
  exact executes ▸ coveredAfter

end TableWorld

/-- In every state of a run that meets the conditions, the vnodes in the table and those
that callers hold are in use and count a reference, and the next such call returns. -/
theorem vnode_table_live_guarded_runs (inactive : VnInactive) {calls : List TableCall}
    {world : TableWorld}
    (run : Run (Guarded TableWorld.Spared (TableWorld.Step inactive)) TableWorld.initial calls
      world) :
    (∀ key value, world.state.table.lookup key = some value → ∃ vp vnode, value = some vp ∧
      world.state.vnodes.vnodes.lookup vp = some vnode ∧ 1 ≤ vnode.count.toNat) ∧
    (∀ vp, 0 < world.held vp → ∃ vnode,
      world.state.vnodes.vnodes.lookup vp = some vnode ∧ 1 ≤ vnode.count.toNat) ∧
    (∀ call, world.Allowed call → world.Spared call →
      ∃ after, world.exec inactive call = .ok after) := by
  have covered := run.invariant (fun _ _ _ covered step => TableWorld.Step.covered step covered)
    TableWorld.covered_initial
  have live : ∀ vp, 0 < world.state.vnodes.countOf vp → ∃ vnode,
      world.state.vnodes.vnodes.lookup vp = some vnode ∧ 1 ≤ vnode.count.toNat := by
    intro vp positive
    rcases exists_lookup (covered.parentless.mem_iff.mpr positive) with ⟨vnode, stored⟩
    simp only [countOf, stored, Option.elim_some] at positive
    exact ⟨vnode, stored, positive⟩
  refine ⟨?_, ?_, ?_⟩
  · intro key value bound
    cases value with
    | none => exact absurd bound (covered.valued key)
    | some vp =>
        rcases live vp (covered.count_pos bound) with ⟨vnode, stored, counts⟩
        exact ⟨vp, vnode, rfl, stored, counts⟩
  · intro vp holds
    exact live vp (covered.count_pos_of_held holds)
  · intro call allowed spared
    rcases TableWorld.exec_returns inactive covered allowed spared with ⟨after, returns, _⟩
    exact ⟨after, returns⟩

/-- An answer of `vfs_vget` with a new vnode at 100. -/
def freshVnode : Vget where
  ret := 0
  type := .vreg
  slabAlloc := some 100

/-- A vnode stays in the table after its caller has put it, since a lookup has left a
reference behind. -/
theorem vnode_table_live_after_lookup : ∃ world,
    Run (Guarded TableWorld.Spared (TableWorld.Step .absent)) TableWorld.initial
      [.get (some 10) true 1 (some freshVnode) true, .lookup (some 10) 1 (some none),
        .put (some 100)] world ∧
    world.state.table.lookup (createVnodeKey 10 1) = some (some 100) ∧
    ∃ vp vnode, some 100 = some vp ∧ world.state.vnodes.vnodes.lookup vp = some vnode ∧
      1 ≤ vnode.count.toNat := by
  have returns : (follow (TableWorld.next .absent (fun world call => world.Spared call))
      [.get (some 10) true 1 (some freshVnode) true, .lookup (some 10) 1 (some none),
        .put (some 100)] TableWorld.initial).map
      (fun world => world.state.table.lookup (createVnodeKey 10 1)) = some (some (some 100)) := by
    decide +kernel
  rcases Option.map_eq_some_iff.mp returns with ⟨world, follows, bound⟩
  have run : Run (Guarded TableWorld.Spared (TableWorld.Step .absent)) _ _ _ :=
    (run_of_follow TableWorld.next_step follows).weaken (fun _ _ => of_decide_eq_true)
  exact ⟨world, run, bound, (vnode_table_live_guarded_runs .absent run).1 _ _ bound⟩

/-- A vnode in the table that its caller has put is freed, and so is one that a caller
holds when its filesystem is purged. -/
theorem vnode_table_dangles :
    (∃ calls world, Run (TableWorld.Step .absent) TableWorld.initial calls world ∧
      world.state.table.lookup (createVnodeKey 10 1) = some (some 100) ∧
      100 ∉ world.state.vnodes.vnodes) ∧
    (∃ calls world, Run (TableWorld.Step .absent) TableWorld.initial calls world ∧
      0 < world.held 100 ∧ 100 ∉ world.state.vnodes.vnodes) := by
  constructor
  · have returns : (follow (TableWorld.next .absent (fun _ _ => true))
        [.get (some 10) true 1 (some freshVnode) true, .put (some 100)] TableWorld.initial).map
        (fun world => (world.state.table.lookup (createVnodeKey 10 1),
          decide (100 ∈ world.state.vnodes.vnodes))) = some (some (some 100), false) := by
      decide +kernel
    rcases Option.map_eq_some_iff.mp returns with ⟨world, follows, observed⟩
    rw [Prod.mk.injEq] at observed
    exact ⟨_, world, (run_of_follow TableWorld.next_step follows).unguard, observed.1,
      of_decide_eq_false observed.2⟩
  · have returns : (follow (TableWorld.next .absent (fun _ _ => true))
        [.get (some 10) true 1 (some freshVnode) true,
          .purge (some 10) [createVnodeKey 10 1] true] TableWorld.initial).map
        (fun world => (world.held 100, decide (100 ∈ world.state.vnodes.vnodes))) =
          some (1, false) := by
      decide +kernel
    rcases Option.map_eq_some_iff.mp returns with ⟨world, follows, observed⟩
    rw [Prod.mk.injEq] at observed
    refine ⟨_, world, (run_of_follow TableWorld.next_step follows).unguard, ?_,
      of_decide_eq_false observed.2⟩
    rw [observed.1]
    exact Nat.one_pos

end Goshkik
