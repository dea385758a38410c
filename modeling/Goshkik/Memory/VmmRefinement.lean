import Goshkik.Lib.Run
import Goshkik.Memory.VmmTree

/-!
# The page tables refine a map of virtual pages

Here the tables are reached through the direct map as plain physical memory, and
the allocator is any source of frames that are not yet part of the tree.  Over
this platform the four-level tree built by `vmm_map` and `vmm_unmap` is a partial
map from 36-bit virtual page numbers to a frame and its flags.
-/

namespace Goshkik

open Transition RadixTree Platform

/-- A platform whose direct map is plain physical memory.  The allocator answers
with a prepared list of frames and with `0` when the list is used up. -/
def directPlatform (hhdmOffset : ℕ) : Platform (List ℕ) where
  hhdmOffset := hhdmOffset
  translate _ virtual := some ((virtual + (2 ^ 64 - hhdmOffset)) % 2 ^ 64)
  pmmAllocPage
    | [] => (0, [])
    | page :: pages => (page, pages)

/-- A call of the virtual memory manager.  A call of `vmm_map` comes with the
answers that `pmm_alloc_page` gives during it. -/
inductive VmmCall where
  | map (virtual physical flags : ℕ) (pages : List ℕ)
  | unmap (virtual : ℕ)

/-- The address that a call is about. -/
def VmmCall.virtual : VmmCall → ℕ
  | .map virtual _ _ _ => virtual
  | .unmap virtual => virtual

/-! ## The abstract map -/

/-- A partial map from virtual page numbers to frames and flags. -/
abbrev PageMap := ℕ → Option (ℕ × ℕ)

/-- The effect of a call on the map. -/
def PageMap.apply (map : PageMap) : VmmCall → PageMap
  | .map virtual physical flags _ =>
      Function.update map (virtualPage virtual) (some (physical &&& pageMask, flags))
  | .unmap virtual => Function.update map (virtualPage virtual) none

/-- The map after a sequence of calls: the latest mapping of each page that no
later call has removed. -/
def pageMapOf (calls : List VmmCall) : PageMap :=
  calls.foldl PageMap.apply (fun _ => none)

/-- What an address resolves to in a map. -/
def PageMap.resolve (map : PageMap) (virtual : ℕ) : ℕ :=
  match map (virtualPage virtual) with
  | none => 0
  | some (frame, _) => frame ||| (virtual &&& (pageSizeVmm - 1))

/-! ## Runs -/

section Runs

variable {hhdmOffset : ℕ} (root : ℕ)

/-- Answers of the allocator: distinct frames that are not tables of the tree. -/
def FreshPages (memory : ℕ → ℕ) (root : ℕ) (pages : List ℕ) : Prop :=
  pages.Nodup ∧ ∀ page ∈ pages, IsFrame page ∧ ¬IsTable memory root page

/-- The calls of the virtual memory manager. -/
inductive VmmStep (hhdmOffset root : ℕ) : Vmm (List ℕ) → VmmCall → Vmm (List ℕ) → Prop where
  | map {vmm after : Vmm (List ℕ)} {virtual physical flags : ℕ} {pages : List ℕ}
      (fresh : FreshPages vmm.memory root pages) (flagBits : flags &&& pageMask = 0)
      (mapped : (directPlatform hhdmOffset).vmmMap virtual physical flags
        { vmm with pages := pages } = some after) :
      VmmStep hhdmOffset root vmm (.map virtual physical flags pages) after
  | unmap {vmm after : Vmm (List ℕ)} {virtual : ℕ}
      (unmapped : (directPlatform hhdmOffset).vmmUnmap virtual vmm = some after) :
      VmmStep hhdmOffset root vmm (.unmap virtual) after

/-- Plain physical memory is an environment for page tables wherever they are. -/
def directEnvironment (hhdmOffset root : ℕ) (offsetSmall : hhdmOffset < 2 ^ 64) :
    (directPlatform hhdmOffset).Environment root where
  frames := {frame | IsFrame frame}
  valid pages := pages.Nodup ∧ ∀ page ∈ pages, IsFrame page
  available pages := {page | page ∈ pages}
  good _ := True
  isFrame _ isFrame := isFrame
  available_frames _ valid frame available := valid.2 frame available
  alloc pages valid allocated := by
    cases pages with
    | nil => exact absurd rfl allocated
    | cons page pages =>
        simp only [List.nodup_cons, List.mem_cons, forall_eq_or_imp] at valid
        exact ⟨⟨valid.1.2, valid.2.2⟩, List.mem_cons_self, valid.1.1,
          fun other mem => List.mem_cons_of_mem page mem⟩
  direct memory _ frame isFrame index := by
    rw [Set.mem_ofPred_eq, isFrame_iff] at isFrame
    have small := index.isLt
    simp only [directPlatform, Platform.slot, physicalToVirtual, Option.some.injEq]
    omega
  congr _ _ _ _ := trivial

/-- The tree with the answers of the allocator for one call. -/
theorem Platform.Shape.supplied {root : ℕ} {offsetSmall : hhdmOffset < 2 ^ 64}
    {vmm : Vmm (List ℕ)} {pages : List ℕ}
    (shape : Shape (directEnvironment hhdmOffset root offsetSmall) vmm)
    (fresh : FreshPages vmm.memory root pages) :
    Shape (directEnvironment hhdmOffset root offsetSmall) { vmm with pages := pages } :=
  ⟨shape.pml4, shape.unshared, shape.tables, fun page mem => (fresh.2 page mem).2, fresh.1,
    fun page mem => (fresh.2 page mem).1⟩

/-- The entry that stands for a frame and its flags. -/
def leafWord (mapping : ℕ × ℕ) : ℕ := mapping.1 ||| mapping.2 ||| vmmPresent

/-- The tree stores exactly the mappings of the map. -/
structure RepresentsMap (offsetSmall : hhdmOffset < 2 ^ 64) (vmm : Vmm (List ℕ))
    (map : PageMap) : Prop where
  shape : Shape (directEnvironment hhdmOffset root offsetSmall) vmm
  entries : ∀ virtual, leafEntry vmm.memory root (tablePath virtual) (pageIndex virtual) =
    (map (virtualPage virtual)).map leafWord
  frames : ∀ page frame flags, map page = some (frame, flags) →
    IsFrame frame ∧ flags &&& pageMask = 0

theorem leafWord_frame {frame flags : ℕ} (isFrame : IsFrame frame)
    (flagBits : flags &&& pageMask = 0) : leafWord (frame, flags) &&& pageMask = frame := by
  have present : vmmPresent &&& pageMask = 0 := by decide
  rw [leafWord, Nat.and_or_distrib_right, Nat.and_or_distrib_right, isFrame, flagBits, present,
    Nat.or_zero, Nat.or_zero]

/-- The only table below a zeroed root is the root. -/
theorem eq_root_of_zeroed {memory : ℕ → ℕ} {root table : ℕ} {path : List (Fin 512)}
    (zeroed : ∀ index : Fin 512, memory (root + 8 * index) = 0)
    (arrives : tableAt memory root path = some table) : path = [] ∧ table = root := by
  have empty : ∀ index, entryChild (tableRead memory root index) = none := by
    intro index
    rw [tableRead, zeroed index]
    rfl
  by_cases pathNil : path = []
  · rw [pathNil] at arrives
    exact ⟨pathNil, (Option.some.inj arrives).symm⟩
  · rw [tableAt, descend_empty empty pathNil] at arrives
    cases arrives

namespace RepresentsMap

variable {root : ℕ} {offsetSmall : hhdmOffset < 2 ^ 64} {vmm after : Vmm (List ℕ)} {map : PageMap}

theorem resolve (related : RepresentsMap root offsetSmall vmm map) (virtual : ℕ) :
    (directPlatform hhdmOffset).vmmResolve virtual vmm = some (map.resolve virtual) := by
  rw [vmmResolve_eq related.shape trivial virtual, related.entries virtual, PageMap.resolve]
  cases mapping : map (virtualPage virtual) with
  | none => rfl
  | some pair =>
      rcases related.frames _ pair.1 pair.2 mapping with ⟨isFrame, flagBits⟩
      simp only [Option.map_some]
      rw [leafWord_frame isFrame flagBits]

/-- The mappings of the pages, when one page has been changed. -/
theorem entries_update (related : RepresentsMap root offsetSmall vmm map)
    {changed : ℕ} {mapping : Option (ℕ × ℕ)}
    (leaves : ∀ path page, path.length = 3 → leafEntry after.memory root path page =
      if path = tablePath changed ∧ page = pageIndex changed then mapping.map leafWord
      else leafEntry vmm.memory root path page) (virtual : ℕ) :
    leafEntry after.memory root (tablePath virtual) (pageIndex virtual) =
      (Function.update map (virtualPage changed) mapping (virtualPage virtual)).map leafWord := by
  rw [leaves _ _ (tablePath_length virtual)]
  by_cases same : virtualPage virtual = virtualPage changed
  · rw [if_pos (tablePath_pageIndex_eq_iff.mpr same), same, Function.update_self]
  · rw [if_neg (fun here => same (tablePath_pageIndex_eq_iff.mp here)),
      Function.update_of_ne same, related.entries virtual]

/-- Every call changes the tree as it changes the map. -/
theorem step {call : VmmCall} (related : RepresentsMap root offsetSmall vmm map)
    (step : VmmStep hhdmOffset root vmm call after) :
    RepresentsMap root offsetSmall after (map.apply call) := by
  cases step with
  | map fresh flagBits mapped =>
      rename_i virtual physical flags pages
      rcases vmmMap_spec (related.shape.supplied fresh) trivial virtual mapped with
        ⟨shapeAfter, leaves⟩
      refine ⟨shapeAfter, related.entries_update leaves, ?_⟩
      intro page frame pageFlags mapping
      simp only [PageMap.apply] at mapping
      by_cases same : page = virtualPage virtual
      · rw [same, Function.update_self] at mapping
        cases mapping
        exact ⟨isFrame_and_pageMask physical, flagBits⟩
      · rw [Function.update_of_ne same] at mapping
        exact related.frames page frame pageFlags mapping
  | unmap unmapped =>
      rename_i virtual
      rcases vmmUnmap_spec related.shape trivial virtual with ⟨result, resultEq, shape, leaves⟩
      rw [unmapped] at resultEq
      cases resultEq
      refine ⟨shape, related.entries_update leaves, ?_⟩
      intro page frame pageFlags mapping
      simp only [PageMap.apply] at mapping
      by_cases same : page = virtualPage virtual
      · rw [same, Function.update_self] at mapping
        cases mapping
      · rw [Function.update_of_ne same] at mapping
        exact related.frames page frame pageFlags mapping

/-- A zeroed root represents the empty map. -/
theorem initial {memory : ℕ → ℕ} (rootFrame : IsFrame root)
    (zeroed : ∀ index : Fin 512, memory (root + 8 * index) = 0) :
    RepresentsMap root offsetSmall ⟨memory, [], root⟩ (fun _ => none) := by
  refine ⟨⟨rfl, ?_, ?_, ?_, ?_⟩, ?_, ?_⟩
  · intro left right table _ _ leftArrives rightArrives
    rw [(eq_root_of_zeroed zeroed leftArrives).1, (eq_root_of_zeroed zeroed rightArrives).1]
  · rintro table ⟨path, _, arrives⟩
    rw [(eq_root_of_zeroed zeroed arrives).2]
    exact rootFrame
  · simp [directEnvironment]
  · simp [directEnvironment]
  · intro virtual
    rw [leafEntry]
    cases arrives : tableAt memory root (tablePath virtual) with
    | none => rfl
    | some table => exact absurd (eq_root_of_zeroed zeroed arrives).1 (by simp [tablePath])
  · intro page frame flags mapping
    cases mapping

/-- A call of `vmm_map` returns if the allocator has a frame for each table that may be missing. -/
theorem map_returns (related : RepresentsMap root offsetSmall vmm map)
    {virtual physical flags : ℕ} {pages : List ℕ} (fresh : FreshPages vmm.memory root pages)
    (flagBits : flags &&& pageMask = 0) (enough : 3 ≤ pages.length) (nonzero : 0 ∉ pages) :
    ∃ after, VmmStep hhdmOffset root vmm (.map virtual physical flags pages) after := by
  have supplied : ∀ count < 3, ((directPlatform hhdmOffset).pmmAllocPage
      ((fun pages => ((directPlatform hhdmOffset).pmmAllocPage pages).2)^[count] pages)).1 ≠ 0 := by
    obtain ⟨first, second, third, others, rfl⟩ : ∃ first second third others,
        pages = first :: second :: third :: others := by
      match pages, enough with
      | first :: second :: third :: others, _ => exact ⟨first, second, third, others, rfl⟩
    simp only [List.mem_cons, not_or] at nonzero
    rcases nonzero with ⟨firstUsed, secondUsed, thirdUsed, _⟩
    intro count small
    match count, small with
    | 0, _ => exact Ne.symm firstUsed
    | 1, _ => exact Ne.symm secondUsed
    | 2, _ => exact Ne.symm thirdUsed
  rcases vmmMap_returns (related.shape.supplied fresh) trivial virtual physical flags supplied with
    ⟨after, mapped⟩
  exact ⟨after, .map fresh flagBits mapped⟩

/-- `vmm_unmap` returns. -/
theorem unmap_returns (related : RepresentsMap root offsetSmall vmm map) (virtual : ℕ) :
    ∃ after, VmmStep hhdmOffset root vmm (.unmap virtual) after := by
  rcases vmmUnmap_spec related.shape trivial virtual with ⟨after, unmapped, _⟩
  exact ⟨after, .unmap unmapped⟩

/-- After a run the tree represents the map that the calls describe. -/
theorem of_run {first last : Vmm (List ℕ)} {calls : List VmmCall}
    (run : Run (VmmStep hhdmOffset root) first calls last)
    (start : RepresentsMap root offsetSmall first map) :
    RepresentsMap root offsetSmall last (calls.foldl PageMap.apply map) := by
  induction run generalizing map with
  | nil vmm => exact start
  | cons head tail ih => exact ih (start.step head)

end RepresentsMap

/-- The four-level page table refines a partial map from virtual page numbers to
frames and flags.  Its calls return after every run, `vmm_map` with three frames for new tables. -/
theorem vmm_refines_page_map {memory : ℕ → ℕ} {calls : List VmmCall} {vmm : Vmm (List ℕ)}
    (offsetSmall : hhdmOffset < 2 ^ 64) (rootFrame : IsFrame root)
    (zeroed : ∀ index : Fin 512, memory (root + 8 * index) = 0)
    (run : Run (VmmStep hhdmOffset root) ⟨memory, [], root⟩ calls vmm) :
    (∀ virtual, leafEntry vmm.memory root (tablePath virtual) (pageIndex virtual) =
        (pageMapOf calls (virtualPage virtual)).map leafWord) ∧
      (∀ virtual, (directPlatform hhdmOffset).vmmResolve virtual vmm =
        some ((pageMapOf calls).resolve virtual)) ∧
      (∀ virtual physical flags pages, FreshPages vmm.memory root pages →
        flags &&& pageMask = 0 → 3 ≤ pages.length → 0 ∉ pages →
          ∃ after, VmmStep hhdmOffset root vmm (.map virtual physical flags pages) after) ∧
      (∀ virtual, ∃ after, VmmStep hhdmOffset root vmm (.unmap virtual) after) ∧
      (∀ call after, VmmStep hhdmOffset root vmm call after →
        ∀ virtual, virtualPage virtual ≠ virtualPage call.virtual →
          (directPlatform hhdmOffset).vmmResolve virtual after =
            (directPlatform hhdmOffset).vmmResolve virtual vmm) ∧
      ∀ left right table, left.length ≤ 3 → right.length ≤ 3 →
        tableAt vmm.memory root left = some table →
        tableAt vmm.memory root right = some table → left = right := by
  have related : RepresentsMap root offsetSmall vmm (pageMapOf calls) :=
    .of_run run (.initial rootFrame zeroed)
  refine ⟨related.entries, related.resolve,
    fun _ _ _ _ fresh flagBits enough nonzero =>
      related.map_returns fresh flagBits enough nonzero,
    related.unmap_returns, ?_, related.shape.unshared⟩
  intro call after step virtual different
  rw [(related.step step).resolve virtual, related.resolve virtual, PageMap.resolve,
    PageMap.resolve]
  cases call with
  | map changed physical flags pages =>
      simp only [PageMap.apply, VmmCall.virtual] at different ⊢
      rw [Function.update_of_ne different]
  | unmap changed =>
      simp only [PageMap.apply, VmmCall.virtual] at different ⊢
      rw [Function.update_of_ne different]

end Runs

/-- Frames for the tables of the first page below an empty root. -/
theorem freshPages_zeroed : FreshPages (fun _ => 0) 0x1000 [0x2000, 0x3000, 0x4000] := by
  have frames : ∀ page ∈ [0x2000, 0x3000, 0x4000], IsFrame page ∧ page ≠ 0x1000 := by
    unfold IsFrame
    decide
  refine ⟨by decide, fun page mem => ⟨(frames page mem).1, ?_⟩⟩
  rintro ⟨path, _, arrives⟩
  exact (frames page mem).2 (eq_root_of_zeroed (fun _ => rfl) arrives).2

/-- Two pages mapped below an empty root, of which the first is unmapped again. -/
theorem vmm_refines_page_map_unmapped :
    ∃ vmm, Run (VmmStep 0xFFFF800000000000 0x1000) ⟨fun _ => 0, [], 0x1000⟩
        [.map 0x400000 0x5000 2 [0x2000, 0x3000, 0x4000], .map 0x401000 0x6000 2 [],
          .unmap 0x400000] vmm ∧
      (directPlatform 0xFFFF800000000000).vmmResolve 0x400123 vmm = some 0 ∧
      (directPlatform 0xFFFF800000000000).vmmResolve 0x401456 vmm = some 0x6456 := by
  have rootFrame : IsFrame 0x1000 := by
    unfold IsFrame
    decide
  have nothing (memory : ℕ → ℕ) : FreshPages memory 0x1000 [] :=
    ⟨List.nodup_nil, fun page mem => absurd mem List.not_mem_nil⟩
  have returns : (((directPlatform 0xFFFF800000000000).vmmMap 0x400000 0x5000 2
      ⟨fun _ => 0, [0x2000, 0x3000, 0x4000], 0x1000⟩).bind (fun first =>
        (directPlatform 0xFFFF800000000000).vmmMap 0x401000 0x6000 2
          { first with pages := [] })).isSome = true := by decide +kernel
  rcases Option.isSome_iff_exists.mp returns with ⟨second, mapsBoth⟩
  rcases Option.bind_eq_some_iff.mp mapsBoth with ⟨first, maps, mapsOther⟩
  have mapped : Run (VmmStep 0xFFFF800000000000 0x1000) ⟨fun _ => 0, [], 0x1000⟩
      [.map 0x400000 0x5000 2 [0x2000, 0x3000, 0x4000], .map 0x401000 0x6000 2 []] second :=
    .cons (.map freshPages_zeroed (by decide) maps)
      (.cons (.map (nothing _) (by decide) mapsOther) (.nil second))
  rcases (vmm_refines_page_map 0x1000 (by decide) rootFrame (fun _ => rfl) mapped).2.2.2.1
    0x400000 with ⟨vmm, unmaps⟩
  have run := mapped.snoc unmaps
  have resolves := (vmm_refines_page_map 0x1000 (by decide) rootFrame (fun _ => rfl) run).2.1
  refine ⟨vmm, run, ?_, ?_⟩
  · rw [resolves]
    decide
  · rw [resolves]
    decide

end Goshkik
