import Goshkik.Memory.PageWalk

/-!
# Effective permissions of mapped pages

The processor grants user and write access to a page only when all four entries
on the path of the page grant it, and forbids execution when one of them does.
`vmm_map` puts the requested flags into the last entry only.  The entries above
it are created with `VMM_PRESENT | VMM_WRITE`, whatever is requested, so they
never grant user access and they neither restrict writing nor execution.
-/

namespace Goshkik

open Transition RadixTree Platform

/-- What a page may be used for. -/
structure Permissions where
  user : Bool
  write : Bool
  noExecute : Bool
deriving DecidableEq

namespace Permissions

/-- The bits `VMM_USER`, `VMM_WRITE` and `VMM_NX` of an entry or of requested flags. -/
def of (word : ℕ) : Permissions := ⟨word.testBit 2, word.testBit 1, word.testBit 63⟩

/-- What two entries on a path permit together. -/
def meet (upper lower : Permissions) : Permissions :=
  ⟨upper.user && lower.user, upper.write && lower.write, upper.noExecute || lower.noExecute⟩

/-- The permissions without user access. -/
def withoutUser (permissions : Permissions) : Permissions := { permissions with user := false }

theorem withoutUser_eq_self_iff {permissions : Permissions} :
    permissions.withoutUser = permissions ↔ permissions.user = false := by
  cases permissions
  simp [withoutUser, eq_comm]

@[simp]
theorem withoutUser_withoutUser (permissions : Permissions) :
    permissions.withoutUser.withoutUser = permissions.withoutUser := rfl

theorem of_lor (left right : ℕ) :
    of (left ||| right) = ⟨(of left).user || (of right).user, (of left).write || (of right).write,
      (of left).noExecute || (of right).noExecute⟩ := by
  simp only [of, Nat.testBit_or]

/-- The address bits of an entry and its presence give no permission. -/
theorem of_frame (word : ℕ) : of (word &&& pageMask) = ⟨false, false, false⟩ := by
  have user : pageMask.testBit 2 = false := by decide
  have write : pageMask.testBit 1 = false := by decide
  have noExecute : pageMask.testBit 63 = false := by decide
  simp only [of, Nat.testBit_and, user, write, noExecute, Bool.and_false]

theorem of_present : of vmmPresent = ⟨false, false, false⟩ := by decide

theorem of_write : of vmmWrite = ⟨false, true, false⟩ := by decide

/-- An entry that `walk` creates takes away user access and nothing else. -/
theorem meet_newEntry {frame : ℕ} (permissions : Permissions) :
    (of (newEntry frame)).meet permissions = permissions.withoutUser := by
  rw [newEntry, of_lor, of_lor, of_frame, of_present, of_write]
  simp [meet, withoutUser]

/-- The entry that `vmm_map` writes carries the requested permissions. -/
theorem of_mapped (physical flags : ℕ) :
    of ((physical &&& pageMask) ||| flags ||| vmmPresent) = of flags := by
  rw [of_lor, of_lor, of_frame, of_present]
  simp

end Permissions

/-- The permissions of an address below a table of some level: those that all
entries on its path give. -/
def effectiveFrom (memory : ℕ → ℕ) (virtual : ℕ) : ℕ → ℕ → Option Permissions
  | 0, table => (presentEntry memory table (levelIndex virtual 0)).map Permissions.of
  | level + 1, table => do
      let entry ← presentEntry memory table (levelIndex virtual (level + 1))
      let lower ← effectiveFrom memory virtual level (entry &&& pageMask)
      return (Permissions.of entry).meet lower

/-- The effective permissions of an address in the address space of a root. -/
def effective (memory : ℕ → ℕ) (root virtual : ℕ) : Option Permissions :=
  effectiveFrom memory virtual 3 root

/-! ## The entries above the last level -/

/-- Every entry above the last level is one that `walk` has created. -/
def Directories (memory : ℕ → ℕ) (root : ℕ) : Prop :=
  ∀ (path : List (Fin 512)) (index : Fin 512) (entry : ℕ), path.length < 3 →
    leafEntry memory root path index = some entry →
      ∃ frame, IsFrame frame ∧ entry = newEntry frame

theorem leafEntry_eq_presentEntry {memory : ℕ → ℕ} {root table index : ℕ} {path : List (Fin 512)}
    (arrives : tableAt memory root path = some table) (small : index < 512) :
    leafEntry memory root path (Fin.ofNat 512 index) = presentEntry memory table index := by
  rw [leafEntry_of_tableAt arrives, tableRead, val_ofNat_index small, presentEntry]

namespace Directories

variable {memory : ℕ → ℕ} {root table : ℕ}

/-- A root without entries has no directories yet. -/
theorem initial (zeroed : ∀ index : Fin 512, memory (root + 8 * index) = 0) :
    Directories memory root := by
  intro path index entry _ present
  rw [leafEntry, Option.bind_eq_some_iff] at present
  rcases present with ⟨table, arrives, present⟩
  rw [(eq_root_of_zeroed zeroed arrives).2, tableRead, zeroed index] at present
  cases present

/-- Descending one level takes away user access and nothing else. -/
theorem effectiveFrom_succ (directories : Directories memory root) {path : List (Fin 512)}
    {virtual level : ℕ} (arrives : tableAt memory root path = some table)
    (short : path.length < 3) :
    effectiveFrom memory virtual (level + 1) table =
      (tableAt memory root (path ++ [Fin.ofNat 512 (levelIndex virtual (level + 1))])).bind
        (fun next => (effectiveFrom memory virtual level next).map Permissions.withoutUser) := by
  have small := levelIndex_lt virtual (level + 1)
  have sameEntry := leafEntry_eq_presentEntry arrives small
  rw [tableAt_snoc, arrives, Option.bind_some, effectiveFrom, ← sameEntry]
  cases present : leafEntry memory root path (Fin.ofNat 512 (levelIndex virtual (level + 1))) with
  | none =>
      rw [leafEntry_of_tableAt arrives] at present
      rw [entryChild]
      split at present
      next absent => rw [if_pos absent]; rfl
      next => cases present
  | some entry =>
      rcases directories path _ entry short present with ⟨frame, isFrame, rfl⟩
      rw [leafEntry_of_tableAt arrives] at present
      split at present
      next => cases present
      next =>
        rw [Option.some.inj present, entryChild_newEntry isFrame]
        simp only [Option.bind_eq_bind, Option.bind_some, newEntry_frame isFrame]
        cases effectiveFrom memory virtual level frame with
        | none => rfl
        | some lower => exact congrArg some (Permissions.meet_newEntry lower)

/-- The effective permissions are those of the last-level entry without user access. -/
theorem effective_eq (directories : Directories memory root) (virtual : ℕ) :
    effective memory root virtual =
      (leafEntry memory root (tablePath virtual) (pageIndex virtual)).map
        (fun entry => (Permissions.of entry).withoutUser) := by
  have path : tablePath virtual = [] ++ [Fin.ofNat 512 (levelIndex virtual 3)] ++
      [Fin.ofNat 512 (levelIndex virtual 2)] ++ [Fin.ofNat 512 (levelIndex virtual 1)] := rfl
  have start : tableAt memory root [] = some root := rfl
  rw [effective, directories.effectiveFrom_succ start (by simp), path]
  cases pdptEq : tableAt memory root ([] ++ [Fin.ofNat 512 (levelIndex virtual 3)]) with
  | none =>
      rw [leafEntry, tableAt_snoc, tableAt_snoc, pdptEq]
      rfl
  | some pdpt =>
      rw [Option.bind_some, directories.effectiveFrom_succ pdptEq (by simp)]
      cases pdEq : tableAt memory root ([] ++ [Fin.ofNat 512 (levelIndex virtual 3)] ++
          [Fin.ofNat 512 (levelIndex virtual 2)]) with
      | none =>
          rw [leafEntry, tableAt_snoc, pdEq]
          rfl
      | some pd =>
          rw [Option.bind_some, directories.effectiveFrom_succ pdEq (by simp)]
          cases ptEq : tableAt memory root ([] ++ [Fin.ofNat 512 (levelIndex virtual 3)] ++
              [Fin.ofNat 512 (levelIndex virtual 2)] ++ [Fin.ofNat 512 (levelIndex virtual 1)]) with
          | none =>
              rw [leafEntry, ptEq]
              rfl
          | some pt =>
              have last : pageIndex virtual = Fin.ofNat 512 (levelIndex virtual 0) := rfl
              rw [Option.bind_some, last, leafEntry_eq_presentEntry ptEq (levelIndex_lt virtual 0),
                effectiveFrom]
              cases presentEntry memory pt (levelIndex virtual 0) <;> rfl

end Directories

/-! ## What `vmm_map` does to the directories -/

section Map

variable {Pages : Type} {platform : Platform Pages} {root : ℕ} {env : platform.Environment root}
  {vmm after : Vmm Pages} {above : List (Fin 512)} {table frame : ℕ} {index : Fin 512}

namespace Directories

/-- A frame hung into an empty slot adds one directory. -/
theorem attach (directories : Directories vmm.memory root) (shape : Shape env vmm)
    (arrives : tableAt vmm.memory root above = some table) (short : above.length < 3)
    (absent : entryChild (tableRead vmm.memory table index) = none) (mem : frame ∈ env.frames)
    (fresh : ¬IsTable vmm.memory root frame) :
    Directories (attachTable vmm.memory table index frame) root := by
  have isTable : IsTable vmm.memory root table := ⟨above, by omega, arrives⟩
  intro path slot entry pathShort present
  have attached := shape.tableAt_attachTable arrives short absent mem fresh path (by omega)
  by_cases new : path = above ++ [index]
  · rw [if_pos new] at attached
    rw [leafEntry_of_tableAt attached,
      tableRead_attachTable (shape.isFrame_of_isTable isTable) (env.isFrame frame mem)] at present
    · cases present
    · rintro rfl
      exact fresh isTable
  · rw [if_neg new] at attached
    cases arrivesPath : tableAt vmm.memory root path with
    | none =>
        rw [leafEntry, attached, arrivesPath] at present
        cases present
    | some other =>
        rw [arrivesPath] at attached
        rw [leafEntry_of_tableAt attached] at present
        by_cases here : other = table ∧ slot = index
        · have written : tableRead (attachTable vmm.memory table index frame) other slot =
              newEntry frame := by
            simp [here.1, here.2, tableRead, attachTable]
          rw [written, newEntry_present] at present
          exact ⟨frame, env.isFrame frame mem, (Option.some.inj present).symm⟩
        · rw [shape.read_attachTable isTable mem fresh other slot ⟨path, by omega, arrivesPath⟩
            here, ← leafEntry_of_tableAt arrivesPath] at present
          exact directories path slot entry pathShort present

/-- Writing a last-level entry changes no directory. -/
theorem update (directories : Directories vmm.memory root) (shape : Shape env vmm)
    (arrives : tableAt vmm.memory root above = some table) (full : above.length = 3)
    (index : Fin 512) (word : ℕ) :
    Directories (Function.update vmm.memory (table + 8 * index.val) word) root := by
  have isTable : IsTable vmm.memory root table := ⟨above, by omega, arrives⟩
  intro path slot entry pathShort present
  rw [leafEntry, shape.tableAt_update arrives full index word path (by omega)] at present
  cases arrivesPath : tableAt vmm.memory root path with
  | none =>
      rw [arrivesPath] at present
      cases present
  | some other =>
      have otherTable : IsTable vmm.memory root other := ⟨path, by omega, arrivesPath⟩
      have sameWord : tableRead (Function.update vmm.memory (table + 8 * index.val) word) other
          slot = tableRead vmm.memory other slot := by
        apply Function.update_of_ne
        intro same
        rcases slot_address_inj (shape.isFrame_of_isTable otherTable)
          (shape.isFrame_of_isTable isTable) same with ⟨rfl, rfl⟩
        have samePath :=
          shape.unshared path above other (by omega) (by omega) arrivesPath arrives
        rw [samePath] at pathShort
        omega
      rw [arrivesPath, Option.bind_some, sameWord, ← leafEntry_of_tableAt arrivesPath] at present
      exact directories path slot entry pathShort present

/-- One level of a walk keeps the directories. -/
theorem nextTable {next index : ℕ} (directories : Directories vmm.memory root)
    (shape : Shape env vmm) (good : env.good vmm.memory)
    (arrives : tableAt vmm.memory root above = some table) (short : above.length < 3)
    (small : index < 512)
    (stepped : platform.nextTable true (platform.slot table index) vmm = some (some next, after)) :
    Directories after.memory root := by
  have mem := shape.tables table ⟨above, by omega, arrives⟩
  rw [← val_ofNat_index small] at stepped
  cases points : entryChild (tableRead vmm.memory table (Fin.ofNat 512 index)) with
  | some child =>
      rw [nextTable_present good mem points] at stepped
      cases stepped
      exact directories
  | none =>
      by_cases exhausted : (platform.pmmAllocPage vmm.pages).1 = 0
      · rw [nextTable_exhausted good mem points exhausted] at stepped
        cases stepped
      · rw [nextTable_create_eq shape good arrives short points exhausted] at stepped
        cases stepped
        rcases env.alloc vmm.pages shape.valid exhausted with ⟨_, isAvailable, _⟩
        exact directories.attach shape arrives short points
          (env.available_frames vmm.pages shape.valid isAvailable) (shape.fresh _ isAvailable)

/-- A walk keeps the directories, by induction on the levels that are left. -/
theorem walkFrom {level virtual pte : ℕ} (directories : Directories vmm.memory root)
    (shape : Shape env vmm) (good : env.good vmm.memory)
    (arrives : tableAt vmm.memory root above = some table) (levels : above.length + level = 3)
    (walked : platform.walkFrom virtual true level table vmm = some (some pte, after)) :
    Directories after.memory root := by
  induction level generalizing vmm above table with
  | zero =>
      cases walked
      exact directories
  | succ level ih =>
      have small := levelIndex_lt virtual (level + 1)
      rw [Platform.walkFrom] at walked
      rcases nextTable_extends shape good arrives (by omega) small with
        ⟨stopped, _⟩ | ⟨next, middle, stepped, extended, arrivesNext, _⟩
      · rw [stopped] at walked
        cases walked
      · rw [stepped] at walked
        refine ih ?_ extended.shape extended.good arrivesNext ?_ walked
        · exact directories.nextTable shape good arrives (by omega) small stepped
        · rw [List.length_append, List.length_singleton]
          omega

/-- `vmm_map` keeps the directories. -/
theorem vmmMap {virtual physical flags : ℕ} (directories : Directories vmm.memory root)
    (shape : Shape env vmm) (good : env.good vmm.memory)
    (mapped : platform.vmmMap virtual physical flags vmm = some after) :
    Directories after.memory root := by
  rw [Platform.vmmMap, Option.bind_eq_bind, Option.bind_eq_some_iff] at mapped
  rcases mapped with ⟨⟨result, middle⟩, walked, stored⟩
  rcases walk_create shape good virtual with
    ⟨stopped, _⟩ | ⟨table, final, walkEq, extended, arrives⟩
  · rw [stopped] at walked
    cases walked
  rw [walkEq] at walked
  cases walked
  have start : tableAt vmm.memory root [] = some root := rfl
  have levels : platform.walkFrom virtual true 3 root vmm =
      some (some (platform.slot table (ptIndex virtual)), middle) := by
    rw [← shape.pml4, ← walk_eq_walkFrom, walkEq]
  have kept := directories.walkFrom shape good start (by simp) levels
  have mem := extended.shape.tables table ⟨tablePath virtual, by simp, arrives⟩
  have index : ptIndex virtual = (pageIndex virtual).val :=
    (val_ofNat_index (ptIndex_lt virtual)).symm
  simp only [index] at stored
  rw [store_slot middle extended.good mem (pageIndex virtual)] at stored
  cases stored
  exact kept.update extended.shape arrives (by simp) _ _

end Directories

end Map

/-! ## Runs -/

section Runs

variable {hhdmOffset root : ℕ}

/-- A call of `vmm_map`, with the answers that `pmm_alloc_page` gives during it. -/
structure MapCall where
  virtual : ℕ
  physical : ℕ
  flags : ℕ
  pages : List ℕ

/-- The calls of `vmm_map`, with any flags. -/
structure MapStep (hhdmOffset root : ℕ) (vmm : Vmm (List ℕ)) (call : MapCall)
    (after : Vmm (List ℕ)) : Prop where
  fresh : FreshPages vmm.memory root call.pages
  mapped : (directPlatform hhdmOffset).vmmMap call.virtual call.physical call.flags
    { vmm with pages := call.pages } = some after

/-- The invariant of a run of mappings. -/
structure Mappings (offsetSmall : hhdmOffset < 2 ^ 64) (root : ℕ) (vmm : Vmm (List ℕ)) :
    Prop where
  shape : Shape (directEnvironment hhdmOffset root offsetSmall) vmm
  directories : Directories vmm.memory root

namespace Mappings

variable {offsetSmall : hhdmOffset < 2 ^ 64} {vmm after : Vmm (List ℕ)} {call : MapCall}

theorem initial {memory : ℕ → ℕ} (rootFrame : IsFrame root)
    (zeroed : ∀ index : Fin 512, memory (root + 8 * index) = 0) :
    Mappings offsetSmall root ⟨memory, [], root⟩ :=
  ⟨(RepresentsMap.initial rootFrame zeroed).shape, .initial zeroed⟩

theorem step (mappings : Mappings offsetSmall root vmm)
    (step : MapStep hhdmOffset root vmm call after) : Mappings offsetSmall root after := by
  have shape := mappings.shape.supplied step.fresh
  refine ⟨(vmmMap_spec shape trivial call.virtual step.mapped).1, ?_⟩
  have directories : Directories { vmm with pages := call.pages }.memory root :=
    mappings.directories
  exact directories.vmmMap shape trivial step.mapped

theorem run {first last : Vmm (List ℕ)} {calls : List MapCall}
    (mappings : Mappings offsetSmall root first)
    (run : Run (MapStep hhdmOffset root) first calls last) : Mappings offsetSmall root last := by
  induction run with
  | nil vmm => exact mappings
  | cons head tail ih => exact ih (mappings.step head)

/-- A call gives its page the requested permissions without user access, and
every other page keeps its permissions. -/
theorem effective_step (mappings : Mappings offsetSmall root vmm)
    (step : MapStep hhdmOffset root vmm call after) (virtual : ℕ) :
    effective after.memory root virtual =
      if virtualPage virtual = virtualPage call.virtual then
        some (Permissions.of call.flags).withoutUser
      else effective vmm.memory root virtual := by
  have leaves := (vmmMap_spec (mappings.shape.supplied step.fresh) trivial call.virtual
    step.mapped).2
  rw [(mappings.step step).directories.effective_eq, leaves _ _ (tablePath_length virtual),
    mappings.directories.effective_eq]
  by_cases same : virtualPage virtual = virtualPage call.virtual
  · rw [if_pos same, if_pos (tablePath_pageIndex_eq_iff.mpr same), Option.map_some,
      Permissions.of_mapped]
  · rw [if_neg same, if_neg (fun here => same (tablePath_pageIndex_eq_iff.mp here))]

end Mappings

/-- After any run of mappings from an empty root, the permissions that a call
requests are effective if and only if they do not include user access, and the
permissions of all other pages are kept. -/
theorem requested_permissions_iff {memory : ℕ → ℕ} {calls : List MapCall} {call : MapCall}
    {vmm after : Vmm (List ℕ)} (offsetSmall : hhdmOffset < 2 ^ 64) (rootFrame : IsFrame root)
    (zeroed : ∀ index : Fin 512, memory (root + 8 * index) = 0)
    (run : Run (MapStep hhdmOffset root) ⟨memory, [], root⟩ calls vmm)
    (step : MapStep hhdmOffset root vmm call after) :
    (effective after.memory root call.virtual = some (Permissions.of call.flags) ↔
        (Permissions.of call.flags).user = false) ∧
      ∀ virtual, virtualPage virtual ≠ virtualPage call.virtual →
        effective after.memory root virtual = effective vmm.memory root virtual := by
  have mappings : Mappings offsetSmall root vmm := (Mappings.initial rootFrame zeroed).run run
  constructor
  · rw [mappings.effective_step step, if_pos rfl, Option.some.injEq]
    exact Permissions.withoutUser_eq_self_iff
  · intro virtual different
    rw [mappings.effective_step step, if_neg different]

end Runs

/-- The first call of `vmm_map` below an empty root. -/
theorem mapStep_first (flags : ℕ)
    (returns : ((directPlatform 0xFFFF800000000000).vmmMap 0x400000 0x5000 flags
      ⟨fun _ => 0, [0x2000, 0x3000, 0x4000], 0x1000⟩).isSome = true) :
    ∃ after, MapStep 0xFFFF800000000000 0x1000 ⟨fun _ => 0, [], 0x1000⟩
      ⟨0x400000, 0x5000, flags, [0x2000, 0x3000, 0x4000]⟩ after := by
  rcases Option.isSome_iff_exists.mp returns with ⟨after, mapped⟩
  exact ⟨after, freshPages_zeroed, mapped⟩

/-- A writable page has the requested permissions. -/
theorem requested_permissions_iff_writable :
    ∃ after, MapStep 0xFFFF800000000000 0x1000 ⟨fun _ => 0, [], 0x1000⟩
        ⟨0x400000, 0x5000, 2, [0x2000, 0x3000, 0x4000]⟩ after ∧
      effective after.memory 0x1000 0x400000 = some ⟨false, true, false⟩ := by
  rcases mapStep_first 2 (by decide) with ⟨after, step⟩
  have permissions := requested_permissions_iff (by decide) (by unfold IsFrame; decide)
    (fun _ => rfl) (.nil _) step
  exact ⟨after, step, permissions.1.mpr (by decide)⟩

/-- A page mapped with `VMM_USER | VMM_WRITE` is not accessible to user mode. -/
theorem user_page_not_accessible :
    ∃ after, MapStep 0xFFFF800000000000 0x1000 ⟨fun _ => 0, [], 0x1000⟩
        ⟨0x400000, 0x5000, 6, [0x2000, 0x3000, 0x4000]⟩ after ∧
      Permissions.of 6 = ⟨true, true, false⟩ ∧
      effective after.memory 0x1000 0x400000 = some ⟨false, true, false⟩ := by
  rcases mapStep_first 6 (by decide) with ⟨after, step⟩
  have offsetSmall : 0xFFFF800000000000 < 2 ^ 64 := by decide
  have mappings : Mappings offsetSmall 0x1000 ⟨fun _ => 0, [], 0x1000⟩ :=
    .initial (by unfold IsFrame; decide) (fun _ => rfl)
  refine ⟨after, step, by decide, ?_⟩
  rw [mappings.effective_step step 0x400000]
  decide

end Goshkik
