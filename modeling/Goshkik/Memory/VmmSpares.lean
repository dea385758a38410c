import Goshkik.Memory.VmmTree

/-!
# What a mapping leaves alone

`vmm_map` writes into tables of the tree and into frames that it takes from the allocator.  All
other frames keep their words, and in the root only the entry of the mapped address can change, if
it leads nowhere yet.
-/

namespace Goshkik

open RadixTree

namespace Platform

variable {Pages : Type} {platform : Platform Pages} {root : ℕ}

/-- Two states between which mappings have been made below some entries of the root. -/
structure Spares (env : platform.Environment root) (touched : Set (Fin 512))
    (before after : Vmm Pages) : Prop where
  words : ∀ frame, IsFrame frame → ¬IsTable before.memory root frame →
    frame ∉ env.available before.pages →
    ∀ index, tableRead after.memory frame index = tableRead before.memory frame index
  tables : ∀ frame, IsTable after.memory root frame →
    IsTable before.memory root frame ∨ frame ∈ env.available before.pages
  available : env.available after.pages ⊆ env.available before.pages
  entries : ∀ index, (entryChild (tableRead before.memory root index) ≠ none ∨ index ∉ touched) →
    tableRead after.memory root index = tableRead before.memory root index

variable {env : platform.Environment root} {touched : Set (Fin 512)} {vmm after : Vmm Pages}
  {above : List (Fin 512)}
  {table : ℕ} {index : Fin 512}

theorem isTable_root (memory : ℕ → ℕ) (root : ℕ) : IsTable memory root root :=
  ⟨[], Nat.zero_le 3, rfl⟩

namespace Spares

theorem refl (env : platform.Environment root) (touched : Set (Fin 512)) (vmm : Vmm Pages) :
    Spares env touched vmm vmm :=
  ⟨fun _ _ _ _ _ => rfl, fun _ isTable => .inl isTable, Set.Subset.rfl, fun _ _ => rfl⟩

/-- A frame that is spared is spared later, too. -/
theorem outside (spares : Spares env touched vmm after) {frame : ℕ}
    (noTable : ¬IsTable vmm.memory root frame)
    (taken : frame ∉ env.available vmm.pages) :
    ¬IsTable after.memory root frame ∧ frame ∉ env.available after.pages :=
  ⟨fun isTable => (spares.tables frame isTable).elim noTable taken, fun free =>
    taken (spares.available free)⟩

theorem trans {last : Vmm Pages} (first : Spares env touched vmm after)
    (second : Spares env touched after last) :
    Spares env touched vmm last where
  words frame isFrame noTable taken index := by
    rcases first.outside noTable taken with ⟨noTableAfter, takenAfter⟩
    rw [second.words frame isFrame noTableAfter takenAfter index,
      first.words frame isFrame noTable taken index]
  tables frame isTable := by
    rcases second.tables frame isTable with inTree | free
    · exact first.tables frame inTree
    · exact .inr (first.available free)
  available := second.available.trans first.available
  entries index kept := by
    have same := first.entries index kept
    rw [second.entries index (by rwa [same]), same]

end Spares

/-- A new table is a frame of the allocator, below an entry that led nowhere. -/
theorem spares_attachNext (shape : Shape env vmm)
    (arrives : tableAt vmm.memory root above = some table)
    (short : above.length < 3) (absent : entryChild (tableRead vmm.memory table index) = none)
    (allocated : (platform.pmmAllocPage vmm.pages).1 ≠ 0) (first : above = [] → index ∈ touched) :
    Spares env touched vmm (attachNext platform vmm table index) := by
  rcases env.alloc vmm.pages shape.valid allocated with ⟨_, isAvailable, _, fewer⟩
  have mem := env.available_frames vmm.pages shape.valid isAvailable
  have fresh := shape.fresh _ isAvailable
  have isTable : IsTable vmm.memory root table := ⟨above, by omega, arrives⟩
  refine ⟨?_, ?_, fewer, ?_⟩
  · intro frame isFrame noTable taken next
    simp only [attachNext, attachTable, tableRead]
    rw [Function.update_of_ne, zeroFrame_outside _ _ (env.isFrame _ mem) isFrame (fun same =>
      taken (same ▸ isAvailable))]
    intro same
    exact noTable ((slot_address_inj isFrame (shape.isFrame_of_isTable isTable) same).1 ▸ isTable)
  · rintro frame ⟨path, pathShort, arrivesFrame⟩
    change tableAt _ root path = some frame at arrivesFrame
    rw [attachNext, shape.tableAt_attachTable arrives short absent mem fresh path
      pathShort] at arrivesFrame
    split at arrivesFrame
    · exact .inr (Option.some.inj arrivesFrame ▸ isAvailable)
    · exact .inl ⟨path, pathShort, arrivesFrame⟩
  · intro next kept
    refine shape.read_attachTable isTable mem fresh root next (isTable_root _ root) ?_
    rintro ⟨rfl, rfl⟩
    have atRoot : above = [] := shape.unshared above [] root (by omega) (Nat.zero_le 3) arrives rfl
    rcases kept with present | outside
    · exact present absent
    · exact outside (first atRoot)

/-- A mapping below an existing last-level table. -/
theorem spares_update (shape : Shape env vmm) (arrives : tableAt vmm.memory root above = some table)
    (full : above.length = 3) (index : Fin 512) (word : ℕ) :
    Spares env touched vmm { vmm with
      memory := Function.update vmm.memory (table + 8 * index.val) word } := by
  have isTable : IsTable vmm.memory root table := ⟨above, by omega, arrives⟩
  have elsewhere : ∀ frame, IsFrame frame → frame ≠ table → ∀ next : Fin 512,
      tableRead (Function.update vmm.memory (table + 8 * index.val) word) frame next =
        tableRead vmm.memory frame next := by
    intro frame isFrame different next
    apply Function.update_of_ne
    intro same
    exact different (slot_address_inj isFrame (shape.isFrame_of_isTable isTable) same).1
  refine ⟨?_, ?_, Set.Subset.rfl, ?_⟩
  · intro frame isFrame noTable _
    exact elsewhere frame isFrame fun same => noTable (same ▸ isTable)
  · rintro frame ⟨path, pathShort, arrivesFrame⟩
    refine .inl ⟨path, pathShort, ?_⟩
    rw [← arrivesFrame]
    exact (shape.tableAt_update arrives full index word path pathShort).symm
  · intro next _
    refine elsewhere root (shape.isFrame_of_isTable (isTable_root _ root)) ?_ next
    rintro rfl
    have atRoot : above = [] := shape.unshared above [] _ (by omega) (Nat.zero_le 3) arrives rfl
    simp [atRoot] at full

/-- One level of a walk that creates missing tables. -/
theorem nextTable_spares {index : ℕ} {next : Option ℕ} (touched : Set (Fin 512))
    (shape : Shape env vmm) (good : env.good vmm.memory)
    (arrives : tableAt vmm.memory root above = some table) (short : above.length < 3)
    (small : index < 512)
    (first : above = [] → Fin.ofNat 512 index ∈ touched)
    (returns : platform.nextTable true (platform.slot table index) vmm = some (next, after)) :
    Extends env vmm after ∧ Spares env touched vmm after ∧
      ∃ below, next = some below ∧ tableAt after.memory root (above ++ [Fin.ofNat 512 index]) =
        some below := by
  have slotEq : platform.slot table index = platform.slot table (Fin.ofNat 512 index).val := by
    rw [val_ofNat_index small]
  have mem := shape.tables table ⟨above, by omega, arrives⟩
  rw [slotEq] at returns
  cases points : entryChild (tableRead vmm.memory table (Fin.ofNat 512 index)) with
  | none =>
      by_cases exhausted : (platform.pmmAllocPage vmm.pages).1 = 0
      · rw [nextTable_exhausted good mem points exhausted] at returns
        cases returns
      · rw [nextTable_create_eq shape good arrives short points exhausted] at returns
        cases returns
        rcases extends_attachNext shape good arrives short points exhausted with
          ⟨extended, attached⟩
        exact ⟨extended, spares_attachNext shape arrives short points exhausted first, _, rfl,
          attached⟩
  | some below =>
      rw [nextTable_present good mem points] at returns
      cases returns
      refine ⟨.refl shape good, .refl env touched vmm, below, rfl, ?_⟩
      rw [tableAt_snoc, arrives, Option.bind_some, points]

/-- The first index of an address. -/
def rootIndex (virtual : ℕ) : Fin 512 := ⟨pml4Index virtual, pml4Index_lt virtual⟩

theorem ofNat_pml4Index (virtual : ℕ) : Fin.ofNat 512 (pml4Index virtual) = rootIndex virtual :=
  Fin.ext (val_ofNat_index (pml4Index_lt virtual))

theorem walk_spares {virtual : ℕ} {pte : Option ℕ} (shape : Shape env vmm)
    (good : env.good vmm.memory)
    (first : rootIndex virtual ∈ touched)
    (returns : platform.walk virtual true vmm = some (pte, after)) :
    Extends env vmm after ∧ Spares env touched vmm after ∧
      ∃ table, pte = some (platform.slot table (ptIndex virtual)) ∧
        tableAt after.memory root (tablePath virtual) = some table := by
  simp only [walk, shape.pml4, Option.bind_eq_bind, Option.bind_eq_some_iff, Prod.exists] at returns
  rcases returns with ⟨next, one, firstLevel, returns⟩
  rw [← ofNat_pml4Index] at first
  have start : tableAt vmm.memory root [] = some root := rfl
  rcases nextTable_spares touched shape good start (by simp) (pml4Index_lt virtual)
    (fun _ => first) firstLevel with ⟨extendsOne, sparesOne, pdpt, rfl, pdptEq⟩
  simp only [Option.bind_eq_some_iff, Prod.exists] at returns
  rcases returns with ⟨next, two, secondLevel, returns⟩
  rcases nextTable_spares touched extendsOne.shape extendsOne.good pdptEq (by simp)
    (pdptIndex_lt virtual) (by simp) secondLevel with ⟨extendsTwo, sparesTwo, pd, rfl, pdEq⟩
  simp only [Option.bind_eq_some_iff, Prod.exists] at returns
  rcases returns with ⟨next, three, thirdLevel, returns⟩
  rcases nextTable_spares touched extendsTwo.shape extendsTwo.good pdEq (by simp)
    (pdIndex_lt virtual) (by simp) thirdLevel with ⟨extendsThree, sparesThree, pt, rfl, ptEq⟩
  simp only [pure, Option.some.injEq, Prod.mk.injEq] at returns
  rcases returns with ⟨rfl, rfl⟩
  exact ⟨(extendsOne.trans extendsTwo).trans extendsThree,
    (sparesOne.trans sparesTwo).trans sparesThree, pt, rfl, ptEq⟩

/-- `vmm_map` writes into the tree and into frames of the allocator. -/
theorem vmmMap_spares {virtual physical flags : ℕ} (shape : Shape env vmm)
    (good : env.good vmm.memory)
    (first : rootIndex virtual ∈ touched)
    (maps : platform.vmmMap virtual physical flags vmm = some after) :
    Spares env touched vmm after := by
  simp only [vmmMap, Option.bind_eq_bind, Option.bind_eq_some_iff, Prod.exists] at maps
  rcases maps with ⟨pte, walked, walks, stores⟩
  rcases walk_spares shape good first walks with ⟨extended, spares, table, rfl, arrives⟩
  have mem := extended.shape.tables table ⟨tablePath virtual, by simp, arrives⟩
  have index : ptIndex virtual = (pageIndex virtual).val :=
    (val_ofNat_index (ptIndex_lt virtual)).symm
  simp only [index] at stores
  rw [store_slot walked extended.good mem (pageIndex virtual)] at stores
  cases stores
  exact spares.trans (spares_update extended.shape arrives (by simp) _ _)

end Platform

end Goshkik
