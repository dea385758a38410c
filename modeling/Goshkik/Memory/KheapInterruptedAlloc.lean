import Goshkik.Memory.KheapCutting

/-!
# Interrupting kmalloc

At every access of `kmalloc`, complete calls of `kfree` may come in between.  This file says exactly
when the call still completes.
-/

namespace Goshkik

open KheapPoint

namespace Kheap

/-- The interrupt does no harm to a call that goes on at the given access: `nodes` is the chain that
the calls of `kfree` leave, `before` and `after` are the headers before and after them. -/
def Harmless (before after : Headers) (nodes : List ℕ) : KheapPoint → Prop
  | searchFree size frames current | searchSize size frames current =>
      ∀ ahead, Linked after.nextOf (some current) (current :: ahead) →
        SearchesTo after nodes size frames current (current :: ahead)
  | searchNext size frames current =>
      ∀ ahead, Linked after.nextOf (some current) (current :: ahead) →
      SearchesTo after nodes size frames current ahead
  | splitSize _ block | newNext _ block _ | cutSize _ block | takeFree block => block ∈ nodes
  | newSize _ block _ | newFree _ block | splitNext _ block | cutNext _ block =>
      block ∈ nodes ∧ (after block).next = (before block).next
  | growBase total found frames => total / pageSizeVmm ≤ frames.length →
      ∀ last ∈ found, last ∈ nodes
  | growPage _ found _ _ count frames => count ≤ frames.length → ∀ last ∈ found, last ∈ nodes
  | growCurrent _ found _ | growSize _ found _ | growFree found _ | growNext found _ | growLink
      found _ =>
      ∀ last ∈ found, last ∈ nodes
  | mergeNextFree current next => current ∈ nodes → (after next).free = true → next ∈ nodes
  | absorbSize current next => current ∈ nodes → next ∈ nodes
  | absorbLink current _ | absorbStoreLink current _ =>
      current ∈ nodes ∧ (after current).next = (before current).next
  | _ => True

/-- The blocks in use that are not freed. -/
def LiveAfter (all : List ℕ) (headers : Headers) (pointers : List ℕ) (payload bytes : ℕ) : Prop :=
  (∃ node ∈ all, (headers node).free = false ∧ (headers node).size = bytes ∧
    payload = node + sizeofBlockHeader) ∧ payload ∉ pointers

variable {heap mid after : Kheap} {stop size block last node : ℕ}
  {all nodes pointers frames : List ℕ}
  {headers headers' : Headers} {point : KheapPoint}

theorem covers_freed (freed : Freed headers all pointers headers' nodes) :
    Covers nodes headers' (LiveAfter all headers pointers) := by
  rintro payload bytes ⟨⟨node, mem, used, sizeEq, rfl⟩, notFreed⟩
  have stillUsed : (headers' node).free = false := by
    rw [← Bool.not_eq_true, freed.free, used]
    simp [notFreed]
  rcases freed.used mem stillUsed with ⟨stays, same⟩
  exact ⟨node, stays, stillUsed, by rw [same, sizeEq], rfl⟩

/-- Complete calls of `kfree` on a consistent chain. -/
theorem Chained.interrupted (chained : mid.Chained stop all headers) (distinct : pointers.Nodup)
    (inUse : ∀ pointer ∈ pointers, ∃ node ∈ all, (headers node).free = false ∧
      pointer = node + sizeofBlockHeader) :
    ∃ after last nodes, (∀ fuel, all.length < fuel → kfreeAll fuel mid pointers = some after) ∧
      mid.SameMaps after ∧ mid.SameOutside after (fun node => node ∈ all) ∧
      Freed headers all pointers last nodes ∧ after.Remains stop all nodes last := by
  rcases chained.freed distinct inUse with
    ⟨after, last, nodes, frees, same, outside, has, freed, shaped, sized, afterChained⟩
  rw [← same.freeList] at shaped
  exact ⟨after, last, nodes, frees, same, outside, freed,
    ⟨⟨has, afterChained.isHead, shaped, chained.sorted, chained.bounded⟩, sized⟩⟩

theorem SameMaps.freshFrames (same : mid.SameMaps after) (fresh : mid.FreshFrames frames) :
    after.FreshFrames frames where
  nodup := fresh.nodup
  nonnull := fresh.nonnull
  aligned := fresh.aligned
  unused frame mem page := by
    rw [same.pages]
    exact fresh.unused frame mem page

/-- What is known of a growth does not depend on the chain. -/
theorem GrowAt.congr (same : mid.SameMaps after) (behind : ∀ cell, stop ≤ cell →
    after.view cell = mid.view cell)
    (here : GrowAt stop size last mid point) : GrowAt stop size last after point := by
  cases point with
  | growBase total found frames =>
      rcases here with ⟨isTotal, isLast, current, fresh, room⟩
      exact ⟨isTotal, isLast, same.heapCurrent.trans current, same.freshFrames fresh, room⟩
  | growPage total found base address count frames =>
      rcases here with ⟨isTotal, isLast, isBase, current, fresh, room, aligned, above, mapped, rest⟩
      exact ⟨isTotal, isLast, isBase, same.heapCurrent.trans current, same.freshFrames fresh, room,
        aligned,
        above, same.mapped mapped, rest⟩
  | growCurrent total found base =>
      rcases here with ⟨isTotal, isLast, isBase, current, room, mapped⟩
      exact ⟨isTotal, isLast, isBase, same.heapCurrent.trans current, room, same.mapped mapped⟩
  | growSize total found base =>
      rcases here with ⟨isTotal, isLast, isBase, current, room, mapped⟩
      exact ⟨isTotal, isLast, isBase, same.heapCurrent.trans current, room, same.mapped mapped⟩
  | growFree found base =>
      rcases here with ⟨isLast, isBase, current, room, mapped, isMapped, sizeEq⟩
      refine ⟨isLast, isBase, same.heapCurrent.trans current, room, same.mapped mapped, ?_, ?_⟩
      · rw [same.pages]
        exact isMapped
      · rw [behind _ (by simp [blockSizeField]), sizeEq]
  | growNext found base =>
      rcases here with ⟨isLast, isBase, current, room, mapped, isMapped, sizeEq, freeEq⟩
      refine ⟨isLast, isBase, same.heapCurrent.trans current, room, same.mapped mapped, ?_, ?_, ?_⟩
      · rw [same.pages]
        exact isMapped
      · rw [behind _ (by simp [blockSizeField]), sizeEq]
      · rw [behind _ (by simp [blockFreeField]), freeEq]
  | growLink found base =>
      rcases here with ⟨isLast, isBase, current, room, mapped, isMapped, sizeEq, freeEq, nextEq⟩
      refine ⟨isLast, isBase, same.heapCurrent.trans current, room, same.mapped mapped, ?_, ?_, ?_,
        ?_⟩
      · rw [same.pages]
        exact isMapped
      · rw [behind _ (by simp [blockSizeField]), sizeEq]
      · rw [behind _ (by simp [blockFreeField]), freeEq]
      · rw [behind _ (by simp [blockNextField]), nextEq]
  | _ => exact here.elim

/-- After the calls of `kfree` the call completes exactly if they did no harm, and a guard holds. -/
def Survives (mid : Kheap) (point : KheapPoint) (pointers : List ℕ) (live : ℕ → ℕ → Prop)
    (size bound : ℕ)
    (guard : Prop) : Prop :=
  ∃ after nodes, (∀ fuel, bound < fuel → kfreeAll fuel mid pointers = some after) ∧
    Linked after.headers.nextOf after.freeList nodes ∧
    (Completes after point live size ↔ guard ∧ Harmless mid.headers after.headers nodes point)

theorem Left.headers_eq (left : heap.Left stop all nodes headers) (known : node ∈ all) :
    heap.headers node = headers node := left.has.headers_eq known

theorem Left.linked_headers {head : Option ℕ} {list : List ℕ}
    (left : heap.Left stop all nodes headers)
    (within : ∀ node ∈ list, node ∈ all) (linked : Linked headers.nextOf head list) :
    Linked heap.headers.nextOf head list := by
  apply linked.congr
  intro node mem
  rw [Headers.nextOf, Headers.nextOf, left.headers_eq (within node mem)]

section Points

variable (chained : heap.Chained stop all headers) (extent : heap.heapCurrent = stop)
  (aligned : pageSizeVmm ∣ stop) (fresh : heap.FreshFrames frames)
  (space : stop + frames.length * pageSizeVmm < 2 ^ 64) (distinct : pointers.Nodup)
  (inUse : ∀ pointer ∈ pointers, ∃ node ∈ all, (headers node).free = false ∧
    pointer = node + sizeofBlockHeader)

include chained extent aligned fresh space distinct inUse

/-- Before the search begins an interrupt does no harm. -/
theorem allocFirst_survives : Survives heap (allocFirst size frames) pointers
    (LiveAfter all headers pointers) size (all.length + 1) (¬ GrowthWraps size) := by
  rcases chained.interrupted distinct inUse with
    ⟨after, last, nodes, frees, same, _, freed, remains⟩
  refine ⟨after, nodes, fun fuel enough => frees fuel (by omega), remains.linked_headers
    (fun node mem => remains.shaped.sublist.subset mem) remains.shaped.linked, ?_⟩
  rw [remains.allocFirst_iff (same.heapCurrent.trans extent) aligned (same.freshFrames fresh) space
    (covers_freed freed)]
  simp [Harmless]

/-- During the search. -/
theorem search_survives {current : ℕ} (known : current ∈ all) :
    Survives heap (searchFree size frames current) pointers (LiveAfter all headers pointers) size
        (all.length + 1) (¬ GrowthWraps size) ∧
      ((headers current).free = true → Survives heap (searchSize size frames current) pointers
        (LiveAfter all headers pointers) size (all.length + 1) (¬ GrowthWraps size)) ∧
      Survives heap (searchNext size frames current) pointers (LiveAfter all headers pointers) size
        (all.length + 1) (¬ GrowthWraps size) := by
  rcases chained.interrupted distinct inUse with
    ⟨after, last, nodes, frees, same, _, freed, remains⟩
  have enoughFrees : ∀ fuel, all.length + 1 < fuel → kfreeAll fuel heap pointers = some after :=
    fun fuel enough => frees fuel (by omega)
  have linkedNodes := remains.linked_headers (fun node mem => remains.shaped.sublist.subset mem)
    remains.shaped.linked
  have covers := covers_freed freed
  have afterExtent := same.heapCurrent.trans extent
  have afterFresh := same.freshFrames fresh
  have target : ∀ next ∈ some current, next ∈ all := by simpa using known
  rcases remains.path target with ⟨trail, trailLinked, within, _⟩
  cases trail with
  | nil => cases trailLinked
  | cons first ahead =>
      have isFirst := Option.some.inj trailLinked.1
      subst isFirst
      have inAll : ∀ node ∈ current :: ahead, node ∈ all := fun node mem => (within node mem).1
      have linkedAfter := remains.linked_headers inAll trailLinked
      have agree : ∀ node ∈ current :: ahead, after.headers node = last node :=
        fun node mem => remains.headers_eq (inAll node mem)
      have searches : ∀ (passed : ℕ) (list : List ℕ), (∀ node ∈ list, node ∈ current :: ahead) →
          (SearchesTo after.headers nodes size frames passed list ↔
            SearchesTo last nodes size frames passed list) := by
        intro passed list sub
        exact ⟨fun searches => searches.congr (fun node mem => (agree node (sub node mem)).symm),
          fun searches => searches.congr (fun node mem => agree node (sub node mem))⟩
      have only : ∀ motive : List ℕ → Prop, (∀ list, Linked after.headers.nextOf (some current)
          (current :: list) → motive list) ↔ motive ahead := by
        intro motive
        refine ⟨fun all => all ahead linkedAfter, fun holds list linked => ?_⟩
        rw [(List.cons.inj (linked.unique linkedAfter)).2]
        exact holds
      have next : Completes after (searchNext size frames current) (LiveAfter all headers pointers)
        size ↔
          ¬ GrowthWraps size ∧ SearchesTo last nodes size frames current ahead :=
        remains.searchNext_iff afterExtent aligned afterFresh space covers inAll trailLinked
      refine ⟨⟨after, nodes, enoughFrees, linkedNodes, ?_⟩,
        fun free => ⟨after, nodes, enoughFrees, linkedNodes, ?_⟩,
          ⟨after, nodes, enoughFrees, linkedNodes, ?_⟩⟩
      · rw [Harmless, only, searches current (current :: ahead) (fun _ mem => mem)]
        exact remains.searchFree_iff afterExtent covers known next
      · have stillFree : (last current).free = true := (freed.free current).mpr (.inl free)
        rw [Harmless, only, searches current (current :: ahead) (fun _ mem => mem)]
        exact remains.searchSize_iff afterExtent covers known stillFree next
      · rw [Harmless, only, searches current ahead (fun _ mem => List.mem_cons_of_mem _ mem)]
        exact next

end Points

/-! ### Taking a block -/

/-- A block with room for the request and another header. -/
theorem Serves.chosen (chained : heap.Chained stop all headers)
    (serves : Serves all headers size block)
    (room : size + sizeofBlockHeader < (headers block).size) :
    Chosen stop all size block ((headers block).size - size - sizeofBlockHeader)
      (headers block).next := by
  rcases chained.cut_inside serves.1 room with ⟨newEq, inside, gap⟩
  refine ⟨serves.1, newEq, inside, gap, chained.shaped.target block serves.1,
    fun node mem => chained.shaped.clear block serves.1 node mem, ?_⟩
  have total := chained.sized block serves.1
  rw [Headers.behind] at total
  omega

section Taking

variable (chained : heap.Chained stop all headers) (extent : heap.heapCurrent = stop)
  (distinct : pointers.Nodup)
  (inUse : ∀ pointer ∈ pointers, ∃ node ∈ all, (headers node).free = false ∧
    pointer = node + sizeofBlockHeader)
  (serves : Serves all headers size block)

include chained extent distinct inUse serves

theorem splitSize_survives :
    Survives heap (splitSize size block) pointers (LiveAfter all headers pointers)
    size (all.length + 1) (¬ GrowthWraps size) := by
  rcases chained.interrupted distinct inUse with
    ⟨after, last, nodes, frees, same, _, freed, remains⟩
  have stillFree : (last block).free = true := (freed.free block).mpr (.inl serves.2.1)
  have stillRoom : size ≤ (last block).size := by
    have grown := chained.shaped.grown freed block
    have room := serves.2.2
    omega
  refine ⟨after, nodes, fun fuel enough => frees fuel (by omega), remains.linked_headers
    (fun node mem => remains.shaped.sublist.subset mem) remains.shaped.linked, ?_⟩
  rw [remains.splitSize_iff (same.heapCurrent.trans extent) (covers_freed freed) serves.1 stillFree
    stillRoom]
  have small := remains.not_wraps serves.1 stillRoom
  simp [Harmless, small]

/-- What the accesses of a cut have in common. -/
theorem cut_survives (room : size + sizeofBlockHeader < (headers block).size)
    (reacts : ∀ (after : Kheap) (last : Headers) (nodes : List ℕ), after.heapCurrent = stop →
      (∀ offset < sizeofBlockHeader,
        after.view (newBlock block size + offset) = heap.view (newBlock block size + offset)) →
      after.Remains stop all nodes last → (last block).free = true →
      Covers nodes last (LiveAfter all headers pointers) →
      (Completes after point (LiveAfter all headers pointers) size ↔
        Harmless heap.headers after.headers nodes point)) :
    Survives heap point pointers (LiveAfter all headers pointers) size (all.length + 1)
      (¬ GrowthWraps size) := by
  rcases chained.interrupted distinct inUse with
    ⟨after, last, nodes, frees, same, outside, freed, remains⟩
  have chosen := serves.chosen chained room
  refine ⟨after, nodes, fun fuel enough => frees fuel (by omega), remains.linked_headers
    (fun node mem => remains.shaped.sublist.subset mem) remains.shaped.linked, ?_⟩
  have small := chained.remains.not_wraps serves.1 serves.2.2
  rw [reacts after last nodes (same.heapCurrent.trans extent) ?_ remains
    ((freed.free block).mpr (.inl serves.2.1)) (covers_freed freed)]
  · simp [small]
  · intro offset less
    apply outside
    intro node mem
    have apart := chosen.gap node mem
    omega

theorem newSize_survives (room : size + sizeofBlockHeader < (headers block).size) :
    Survives heap (newSize size block (headers block).size) pointers
      (LiveAfter all headers pointers) size
      (all.length + 1) (¬ GrowthWraps size) := by
  have chosen := serves.chosen chained room
  refine cut_survives chained extent distinct inUse serves room
    (fun after last nodes current _ remains free covers => ?_)
  rw [Harmless, remains.headers_eq serves.1, chained.has.headers_eq serves.1]
  exact chosen.reread_iff remains current covers free
    ⟨rfl, rfl, chosen.gap_nodes remains.shaped.sublist⟩
    (cuts_newSize serves.1 chosen.gap chosen.inside remains.has _)

theorem newFree_survives (room : size + sizeofBlockHeader < (headers block).size)
    (sizeEq : heap.view (blockSizeField (newBlock block size)) =
      (headers block).size - size - sizeofBlockHeader) :
    Survives heap (newFree size block) pointers (LiveAfter all headers pointers) size
      (all.length + 1) (¬ GrowthWraps size) := by
  have chosen := serves.chosen chained room
  refine cut_survives chained extent distinct inUse serves room
    (fun after last nodes current kept remains free covers => ?_)
  rw [Harmless, remains.headers_eq serves.1, chained.has.headers_eq serves.1]
  exact chosen.reread_iff remains current covers free
    ⟨rfl, rfl, chosen.gap_nodes remains.shaped.sublist⟩
    (cuts_newFree serves.1 chosen.gap chosen.inside remains.has ((kept 0 (by decide)).trans sizeEq))

theorem splitNext_survives (room : size + sizeofBlockHeader < (headers block).size)
    (sizeEq : heap.view (blockSizeField (newBlock block size)) =
      (headers block).size - size - sizeofBlockHeader)
    (freeEq : heap.view (blockFreeField (newBlock block size)) = 1) :
    Survives heap (splitNext size block) pointers (LiveAfter all headers pointers) size
      (all.length + 1) (¬ GrowthWraps size) := by
  have chosen := serves.chosen chained room
  refine cut_survives chained extent distinct inUse serves room
    (fun after last nodes current kept remains free covers => ?_)
  rw [Harmless, remains.headers_eq serves.1, chained.has.headers_eq serves.1]
  exact chosen.reread_iff remains current covers free
    ⟨rfl, rfl, chosen.gap_nodes remains.shaped.sublist⟩
    (cuts_splitNext serves.1 chosen.gap chosen.inside remains.has
      ((kept 0 (by decide)).trans sizeEq)
      ((kept 8 (by decide)).trans freeEq))

theorem newNext_survives (room : size + sizeofBlockHeader < (headers block).size)
    (sizeEq : heap.view (blockSizeField (newBlock block size)) =
      (headers block).size - size - sizeofBlockHeader)
    (freeEq : heap.view (blockFreeField (newBlock block size)) = 1) :
    Survives heap (newNext size block (Cells.pointerWord (headers block).next)) pointers
      (LiveAfter all headers pointers) size (all.length + 1) (¬ GrowthWraps size) := by
  have chosen := serves.chosen chained room
  refine cut_survives chained extent distinct inUse serves room
    (fun after last nodes current kept remains free covers => ?_)
  exact chosen.kept_iff remains current covers free
    ⟨rfl, rfl, chosen.gap_nodes remains.shaped.sublist⟩
    (cuts_newNext serves.1 chosen.gap chosen.inside remains.has ((kept 0 (by decide)).trans sizeEq)
      ((kept 8 (by decide)).trans freeEq) (chained.has.next_ne_zero serves.1))

theorem cutSize_survives (room : size + sizeofBlockHeader < (headers block).size)
    (sizeEq : heap.view (blockSizeField (newBlock block size)) =
      (headers block).size - size - sizeofBlockHeader)
    (freeEq : heap.view (blockFreeField (newBlock block size)) = 1)
    (nextEq : heap.view.pointerAt (blockNextField (newBlock block size)) = (headers block).next) :
    Survives heap (cutSize size block) pointers (LiveAfter all headers pointers) size
      (all.length + 1) (¬ GrowthWraps size) := by
  have chosen := serves.chosen chained room
  refine cut_survives chained extent distinct inUse serves room
    (fun after last nodes current kept remains free covers => ?_)
  exact chosen.kept_iff remains current covers free ⟨rfl, rfl⟩
    (cuts_cutSize serves.1 chosen.gap chosen.inside remains.has ((kept 0 (by decide)).trans sizeEq)
      ((kept 8 (by decide)).trans freeEq)
      ((Cells.pointerAt_congr (kept 16 (by decide))).trans nextEq))

end Taking

/-! ### Between the two stores that cut the block -/

theorem Covers.mono {live live' : ℕ → ℕ → Prop} (covers : Covers nodes headers live)
    (fewer : ∀ payload bytes, live' payload bytes → live payload bytes) :
    Covers nodes headers live' :=
  fun payload bytes isLive => covers payload bytes (fewer payload bytes isLive)

theorem resize_of_ne {other newSize : ℕ} {link : Option ℕ} (different : other ≠ node) :
    headers.resize node newSize link other = headers other := Function.update_of_ne different ..

theorem resize_self {newSize : ℕ} {link : Option ℕ} : headers.resize node newSize link node =
    ⟨newSize, (headers node).free, link⟩ := Function.update_self ..

theorem resize_next (headers : Headers) (node newSize other : ℕ) :
    (headers.resize node newSize (headers node).next other).next = (headers other).next := by
  by_cases same : other = node
  · rw [same, resize_self]
  · rw [resize_of_ne same]

theorem resize_free (headers : Headers) (node newSize other : ℕ) (link : Option ℕ) :
    (headers.resize node newSize link other).free = (headers other).free := by
  by_cases same : other = node
  · rw [same, resize_self]
  · rw [resize_of_ne same]

/-- What another size of one block changes. -/
theorem extent_resize {newSize : ℕ} (link : Option ℕ) (distinct : all.Nodup) (mem : node ∈ all) :
    (headers.resize node newSize link).extent all + (headers node).size =
      headers.extent all + newSize := by
  rcases List.append_of_mem mem with ⟨front, back, rfl⟩
  rw [List.nodup_append, List.nodup_cons] at distinct
  have frontEq : (headers.resize node newSize link).extent front = headers.extent front :=
    Headers.extent_congr (fun other isMember => by
      rw [resize_of_ne (fun same => distinct.2.2 other isMember node (by simp) same)])
  have backEq : (headers.resize node newSize link).extent back = headers.extent back :=
    Headers.extent_congr (fun other isMember => by
      rw [resize_of_ne (by rintro rfl; exact distinct.2.1.1 isMember)])
  rw [Headers.extent_append, Headers.extent_append, Headers.extent_cons, Headers.extent_cons,
    frontEq, backEq, resize_self]
  dsimp only
  omega

theorem cutNext_survives (chained : heap.Chained stop all headers)
    (extent : heap.heapCurrent = stop)
    (distinct : pointers.Nodup)
    (inUse : ∀ pointer ∈ pointers, ∃ node ∈ all, (headers node).free = false ∧
      pointer = node + sizeofBlockHeader)
    (serves : Serves all headers size block)
    (room : size + sizeofBlockHeader < (headers block).size)
    (sizeEq : heap.view (blockSizeField (newBlock block size)) =
      (headers block).size - size - sizeofBlockHeader)
    (freeEq : heap.view (blockFreeField (newBlock block size)) = 1)
    (nextEq : heap.view.pointerAt (blockNextField (newBlock block size)) = (headers block).next)
    (stored : heap.store (blockSizeField block) size = some mid) :
    Survives mid (cutNext size block) pointers (LiveAfter all headers pointers) size
      (all.length + 1)
      (¬ GrowthWraps size) := by
  have chosen := serves.chosen chained room
  have apartNew := chosen.gap block serves.1
  rcases chained.has.store_size serves.1 size with ⟨cut, again, viewEq, same, has⟩
  cases stored.symm.trans again
  have linked : Linked (headers.resize block size (headers block).next).nextOf mid.freeList
      all := by
    rw [same.freeList]
    exact chained.linked.congr (fun node _ => resize_next headers block size node)
  have small : (headers.resize block size (headers block).next).extent all < 2 ^ 64 := by
    have change := @extent_resize block all headers size (headers block).next chained.linked.nodup
      serves.1
    have less := serves.2.2
    have total := chained.extent
    have bounded := chained.bounded
    simp only [heapStart] at total
    omega
  have stillInUse : ∀ pointer ∈ pointers, ∃ node ∈ all,
      (headers.resize block size (headers block).next node).free = false ∧
        pointer = node + sizeofBlockHeader := by
    intro pointer isMember
    rcases inUse pointer isMember with ⟨node, mem, used, pointerEq⟩
    exact ⟨node, mem, (resize_free ..).trans used, pointerEq⟩
  rcases has.kfreeAll_freed chained.bounded pointers _ _ _ (fun _ mem => mem) linked small distinct
    stillInUse
    with ⟨after, last, nodes, frees, afterSame, outside, afterHas, freed⟩
  have whole : Shaped mid.freeList stop all (headers.resize block size (headers block).next) all :=
    .whole linked chained.sorted chained.below
  have shaped := whole.freed freed
  rw [← afterSame.freeList] at shaped
  have left : after.Left stop all nodes last := by
    refine ⟨afterHas, ?_, shaped, chained.sorted, chained.bounded⟩
    rw [afterSame.freeList, same.freeList, chained.isHead]
  refine ⟨after, nodes, fun fuel enough => frees fuel (by omega), left.linked_headers
    (fun node mem => left.shaped.sublist.subset mem) left.shaped.linked, ?_⟩
  have wraps := chained.remains.not_wraps serves.1 serves.2.2
  have kept : ∀ offset < sizeofBlockHeader,
      after.view (newBlock block size + offset) = heap.view (newBlock block size + offset) := by
    intro offset less
    rw [outside _ (fun node mem => by
      have apart := chosen.gap node mem
      omega), viewEq, Cells.store_of_ne]
    simp only [blockSizeField, sizeofBlockHeader] at apartNew less ⊢
    omega
  have covers : Covers nodes last (LiveAfter all headers pointers) := by
    refine (covers_freed freed).mono ?_
    rintro payload bytes ⟨⟨node, mem, used, bytesEq, payloadEq⟩, notFreed⟩
    have different : node ≠ block := by
      rintro rfl
      rw [serves.2.1] at used
      cases used
    exact ⟨⟨node, mem, by rw [resize_of_ne different, used],
      by rw [resize_of_ne different, bytesEq], payloadEq⟩, notFreed⟩
  have free : (last block).free = true :=
    (freed.free block).mpr (.inl ((resize_free ..).trans serves.2.1))
  have grown := whole.grown freed block
  rw [Headers.behind, resize_self] at grown
  have sized : block ∈ nodes → ∀ node ∈ all, node ≠ block →
      node + sizeofBlockHeader + (last node).size = last.behind stop node := by
    refine whole.sizedBut (fun node mem different => ?_) freed
    rw [Headers.behind, resize_of_ne different]
    exact chained.sized node mem
  have here : TakeAt nodes size block after (cutNext size block) := ⟨rfl, rfl⟩
  rw [Harmless, left.headers_eq serves.1, has.headers_eq serves.1, resize_self,
    chosen.shrunk_iff left ((afterSame.heapCurrent.trans same.heapCurrent).trans extent) covers free
      here
      sized grown (cuts_cutNext serves.1 chosen.gap chosen.inside afterHas
        ((kept 0 (by decide)).trans sizeEq)
        ((kept 8 (by decide)).trans freeEq)
          ((Cells.pointerAt_congr (kept 16 (by decide))).trans nextEq))]
  simp [wraps]

/-! ### The last access of an allocation -/

theorem length_blockNodes (address : ℕ) (blocks : List HeapBlock) :
    (blockNodes address blocks).length = blocks.length := by
  induction blocks generalizing address with
  | nil => rfl
  | cons block blocks ih => rw [blockNodes_cons, List.length_cons, List.length_cons, ih]

theorem blockNodes_append (address : ℕ) (blocks rest : List HeapBlock) :
    blockNodes address (blocks ++ rest) =
      blockNodes address blocks ++ blockNodes (address + span blocks) rest := by
  rw [blockNodes, placedBlocks_append, List.map_append]
  rfl

/-- Where a block of a consistent chain begins. -/
theorem Chained.position {front back : List ℕ}
    (chained : heap.Chained stop (front ++ block :: back) headers) :
    heapStart + span (front.map headers.block) = block := by
  have nodesEq := chained.holds.2.1
  rw [List.map_append, List.map_cons, blockNodes_append] at nodesEq
  have lengths : (blockNodes heapStart (front.map headers.block)).length = front.length := by
    rw [length_blockNodes, List.length_map]
  exact (List.cons.inj (List.append_inj nodesEq lengths).2).1

/-- The chain when the block has been cut. -/
theorem Serves.splitBlock (chained : heap.Chained stop all headers)
    (serves : Serves all headers size block)
    (cuts : splitBlock heap block size = some mid) :
    ∃ all' headers', mid.Chained stop all' headers' ∧ heap.SameMaps mid ∧
      all'.length ≤ all.length + 1 ∧
      Serves all' headers' size block ∧ ∀ node ∈ all, (headers node).free = false →
        node ∈ all' ∧ (headers' node).free = false ∧
          (headers' node).size = (headers node).size := by
  have total := chained.sized block serves.1
  have ends := chained.behind_le serves.1
  have bounded := chained.bounded
  have start := (chained.has.inside block serves.1).1
  by_cases room : size + sizeofBlockHeader < (headers block).size
  · rcases List.append_of_mem serves.1 with ⟨front, back, rfl⟩
    have position := chained.position
    have holds := chained.holds.1
    have stopEq := chained.holds.2.2
    rw [List.map_append, List.map_cons] at holds stopEq
    rcases holds.splitBlock_spec room with ⟨after, again, afterHolds, same⟩
    rw [position] at again
    cases cuts.symm.trans again
    have free : (headers.block block).free = true := serves.2.1
    have sizeEq : (headers.block block).size = (headers block).size := rfl
    rw [free] at afterHolds
    have spanEq : heapStart + span (front.map headers.block ++ (⟨size, true⟩ : HeapBlock) ::
        ⟨(headers.block block).size - size - sizeofBlockHeader, true⟩ :: back.map headers.block) =
          stop := by
      rw [← stopEq, span_append, span_append]
      simp only [span, sizeEq]
      omega
    have chained' := afterHolds.chained (by simp)
    rw [spanEq] at chained'
    have usedEq : usedBlocks heapStart (front.map headers.block ++ (⟨size, true⟩ : HeapBlock) ::
        ⟨(headers.block block).size - size - sizeofBlockHeader, true⟩ :: back.map headers.block) =
          usedBlocks heapStart ((front ++ block :: back).map headers.block) := by
      have address : heapStart + span (front.map headers.block) + sizeofBlockHeader + size +
        sizeofBlockHeader +
          ((headers.block block).size - size - sizeofBlockHeader) =
            heapStart + span (front.map headers.block) + sizeofBlockHeader +
              (headers.block block).size := by
        rw [sizeEq]
        omega
      rw [List.map_append, List.map_cons, usedBlocks_append, usedBlocks_append]
      simp only [usedBlocks, free, if_true, address]
    have placed : (block, (⟨size, true⟩ : HeapBlock)) ∈
      placedBlocks heapStart (front.map headers.block ++
        (⟨size, true⟩ : HeapBlock) :: ⟨(headers.block block).size - size - sizeofBlockHeader,
          true⟩ ::
          back.map headers.block) := by
      rw [placedBlocks_append, position]
      simp [placedBlocks]
    rcases afterHolds.header_placed placed with ⟨placedSize, placedFree⟩
    refine ⟨_, mid.headers, chained', same, ?_,
      ⟨List.mem_map_of_mem (f := Prod.fst) placed, placedFree,
      Nat.le_of_eq placedSize.symm⟩, ?_⟩
    · rw [length_blockNodes]
      simp
      omega
    · intro node mem inUse
      have isUsed : (node + sizeofBlockHeader, (headers node).size) ∈
          usedBlocks heapStart ((front ++ block :: back).map headers.block) := by
        rw [chained.mem_used_iff]
        exact ⟨node, mem, inUse, rfl, rfl⟩
      rw [← usedEq] at isUsed
      rcases afterHolds.mem_used_iff.mp isUsed with ⟨same, isMember, stillUsed, bytesEq, payloadEq⟩
      rw [Nat.add_right_cancel_iff] at payloadEq
      subst payloadEq
      exact ⟨isMember, stillUsed, bytesEq⟩
  · have whole : mid = heap := by
      have isWhole : (headers block).size ≤ (size + sizeofBlockHeader) % 2 ^ 64 := by
        have large := serves.2.2
        simp only [sizeofBlockHeader, heapStart] at room total start ⊢
        omega
      simp only [Goshkik.splitBlock, chained.has.load_size serves.1, Option.bind_eq_bind,
        Option.bind_some, if_pos isWhole] at cuts
      cases cuts
      rfl
    subst whole
    exact ⟨all, headers, chained, .refl _, by omega, serves, fun node mem used => ⟨mem, used, rfl⟩⟩

theorem takeFree_survives (chained : heap.Chained stop all headers)
    (extent : heap.heapCurrent = stop)
    (distinct : pointers.Nodup)
    (inUse : ∀ pointer ∈ pointers, ∃ node ∈ all, (headers node).free = false ∧
      pointer = node + sizeofBlockHeader)
    (serves : Serves all headers size block) (cuts : splitBlock heap block size = some mid) :
    Survives mid (takeFree block) pointers (LiveAfter all headers pointers) size (all.length + 1)
      (¬ GrowthWraps size) := by
  rcases serves.splitBlock chained cuts with
    ⟨all', headers', chained', same, shorter, serves', kept⟩
  have inUse' : ∀ pointer ∈ pointers, ∃ node ∈ all', (headers' node).free = false ∧
      pointer = node + sizeofBlockHeader := by
    intro pointer isMember
    rcases inUse pointer isMember with ⟨node, mem, used, pointerEq⟩
    rcases kept node mem used with ⟨mem', used', _⟩
    exact ⟨node, mem', used', pointerEq⟩
  rcases chained'.interrupted distinct inUse' with
    ⟨after, last, nodes, frees, afterSame, _, freed, remains⟩
  have covers : Covers nodes last (LiveAfter all headers pointers) := by
    refine (covers_freed freed).mono ?_
    rintro payload bytes ⟨⟨node, mem, used, bytesEq, payloadEq⟩, notFreed⟩
    rcases kept node mem used with ⟨mem', used', sizeEq⟩
    exact ⟨⟨node, mem', used', sizeEq.trans bytesEq, payloadEq⟩, notFreed⟩
  have stillFree : (last block).free = true := (freed.free block).mpr (.inl serves'.2.1)
  have stillRoom : size ≤ (last block).size := by
    have grown := chained'.shaped.grown freed block
    have room := serves'.2.2
    omega
  refine ⟨after, nodes, fun fuel enough => frees fuel (by omega), remains.linked_headers
    (fun node mem => remains.shaped.sublist.subset mem) remains.shaped.linked, ?_⟩
  have small := chained.remains.not_wraps serves.1 serves.2.2
  have completesIff : Completes after (takeFree block) (LiveAfter all headers pointers) size ↔
      block ∈ nodes := by
    refine ⟨fun completes => ?_, fun mem => remains.chained.takeFree
      ((afterSame.heapCurrent.trans same.heapCurrent).trans extent) covers mem stillFree stillRoom⟩
    by_contra gone
    exact remains.not_completes serves'.1 gone
      (show TakeAt nodes size block after (takeFree block) from rfl)
      completes
  rw [completesIff]
  simp [Harmless, small]

end Kheap

end Goshkik
