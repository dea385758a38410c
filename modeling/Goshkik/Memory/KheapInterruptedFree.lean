import Goshkik.Memory.KheapFreeing

/-!
# Interrupting kfree

At every access of `kfree`, complete calls of `kfree` may come in between.  This file says exactly
when the call still completes.
-/

namespace Goshkik

open KheapPoint

namespace Kheap

variable {heap mid after merged : Kheap} {stop size block node newSize : ℕ}
  {all nodes nodes' front back pointers : List ℕ} {headers now last : Headers} {current next : ℕ}
  {live : ℕ → ℕ → Prop} {point point' : KheapPoint}

/-! ## The accesses of a merge -/

theorem Chained.mergeFirst (chained : heap.Chained stop nodes headers)
    (extent : heap.heapCurrent = stop)
    (covers : Covers nodes headers live) : Completes heap mergeFirst live size := by
  have accessed : heap.access KheapPoint.mergeFirst = some (heap, .mergeFree heapStart) := by
    rw [access, chained.isHead]
    rfl
  rw [completes_access_iff accessed (by simp)]
  rcases chained.first with ⟨back, split⟩
  exact chained.mergeFree extent covers (show nodes = [] ++ heapStart :: back from split)
    (.singleton heapStart)

theorem Chained.markFree (chained : heap.Chained stop nodes headers)
    (extent : heap.heapCurrent = stop)
    (covers : Covers nodes headers live) (mem : block ∈ nodes)
    (other : ∀ bytes, ¬ live (block + sizeofBlockHeader) bytes) :
    Completes heap (markFree block) live size := by
  rcases chained.setFree mem true with ⟨marked, stored, same, markedChained⟩
  rw [Bool.toNat_true] at stored
  have accessed : heap.access (KheapPoint.markFree block) = some (marked, .mergeFirst) := by
    rw [access, stored]
    rfl
  rw [completes_access_iff accessed (by simp)]
  refine markedChained.mergeFirst (same.heapCurrent.trans extent) ?_
  intro payload bytes isLive
  rcases covers payload bytes isLive with ⟨node, isMember, used, sizeEq, rfl⟩
  have different : node ≠ block := by
    rintro rfl
    exact other bytes isLive
  refine ⟨node, isMember, ?_⟩
  rw [Headers.setFree_of_ne different]
  exact ⟨used, sizeEq, rfl⟩

namespace Remains

variable (remains : heap.Remains stop all nodes headers) (settled : headers.Settled nodes)
  (extent : heap.heapCurrent = stop) (covers : Covers nodes headers live)

include remains settled extent covers

/-- The link is read anew. -/
theorem mergeNext {free : ℕ} (mem : current ∈ all)
    (wasFree : free ≠ 0 → free = (headers current).free.toNat) :
    Completes heap (mergeNext current free) live size := by
  by_cases used : free = 0
  · subst used
    have accessed : heap.access (KheapPoint.mergeNext current 0) =
        some (heap, KheapPoint.merge (headers current).next) := by
      rw [access, remains.has.loadPointer_next (show current ∈ all from mem)]
      cases (headers current).next <;> rfl
    rw [completes_access_iff accessed (by simp)]
    cases link : (headers current).next with
    | none => exact .of_chained (.returned _ _) remains.chained extent covers (by simp)
    | some next =>
        exact remains.mergeFree settled extent covers
          (remains.shaped.target current mem next link)
  · have accessed :
      heap.access (.mergeFree current) = some (heap, KheapPoint.mergeNext current free) := by
      rw [access, remains.has.load_free (show current ∈ all from mem), wasFree used]
      rfl
    rw [← completes_access_iff accessed (by simp)]
    exact remains.mergeFree settled extent covers mem

end Remains

/-! ## The accesses of a call -/

theorem Merging.inUse (merging : Merging stop all headers block mid nodes now front current back)
    (inUse : ∀ pointer ∈ pointers, ∃ node ∈ all, (headers node).free = false ∧ node ≠ block ∧
      pointer = node + sizeofBlockHeader) :
    ∀ pointer ∈ pointers, ∃ node ∈ nodes, (now node).free = false ∧
      pointer = node + sizeofBlockHeader := by
  intro pointer isMember
  rcases inUse pointer isMember with ⟨node, mem, used, other, pointerEq⟩
  rcases merging.keeps node mem used other with ⟨stays, same⟩
  exact ⟨node, stays, by rw [same, used], pointerEq⟩

/-- The blocks that are in use after all the calls of `kfree` are in use in the middle. -/
theorem Merging.stillLive (merging : Merging stop all headers block mid nodes now front current
    back)
    {payload bytes : ℕ}
    (isLive : LiveAfter all headers ((block + sizeofBlockHeader) :: pointers) payload bytes) :
    LiveAfter nodes now pointers payload bytes := by
  rcases isLive with ⟨⟨node, mem, used, bytesEq, rfl⟩, notFreed⟩
  rw [List.mem_cons, Nat.add_right_cancel_iff, not_or] at notFreed
  rcases merging.keeps node mem used notFreed.1 with ⟨stays, same⟩
  exact ⟨⟨node, stays, by rw [same, used], by rw [same, bytesEq], rfl⟩, notFreed.2⟩

/-- What the accesses of the merging loop have in common. -/
theorem Merging.survives (merging : Merging stop all headers block mid nodes now front current back)
    (distinct : pointers.Nodup) (nonempty : pointers ≠ [])
    (inUse : ∀ pointer ∈ pointers, ∃ node ∈ all, (headers node).free = false ∧ node ≠ block ∧
      pointer = node + sizeofBlockHeader)
    (reacts : ∀ (after : Kheap) (last : Headers) (nodes' : List ℕ), after.heapCurrent = stop →
      Freed now nodes pointers last nodes' → after.Remains stop nodes nodes' last →
        last.Settled nodes' →
      Covers nodes' last (LiveAfter all headers ((block + sizeofBlockHeader) :: pointers)) →
      (Completes after point (LiveAfter all headers ((block + sizeofBlockHeader) :: pointers))
        size ↔
        Harmless mid.headers after.headers nodes' point)) :
    Survives mid point pointers (LiveAfter all headers ((block + sizeofBlockHeader) :: pointers))
      size
      (all.length + 1) True := by
  rcases merging.chained.interrupted distinct (merging.inUse inUse) with
    ⟨after, last, nodes', frees, same, _, freed, remains⟩
  have shorter := merging.shorter
  refine ⟨after, nodes', fun fuel enough => frees fuel (by omega), remains.linked_headers
    (fun node mem => remains.shaped.sublist.subset mem) remains.shaped.linked, ?_⟩
  rw [true_and]
  exact reacts after last nodes' (same.heapCurrent.trans merging.extent) freed remains
    (freed.settled nonempty)
    ((covers_freed freed).mono (fun _ _ isLive => merging.stillLive isLive))

/-- Nothing lies between two neighbours. -/
theorem Merging.adjacent (merging : Merging stop all headers block mid nodes now front current
    (next :: back)) :
    current < next ∧ next ∈ nodes ∧ ∀ node ∈ nodes, node ≤ current ∨ next ≤ node := by
  have ahead := merging.chained.shaped.ahead current merging.mem
  have clear := merging.chained.shaped.clear current merging.mem
  have link : (now current).next = some next := merging.link
  rw [Headers.behind_of_next link] at ahead clear
  exact ⟨ahead, by simp [merging.split], clear⟩

/-- With the size written the links are what they were. -/
theorem Absorbing.linked_torn {before : Kheap}
    (absorbing : Absorbing stop all headers block before nodes now front current next back)
    (stored : before.store (blockSizeField current) (absorbedSize now current next) = some mid) :
    Linked mid.headers.nextOf mid.freeList nodes := by
  rcases absorbing.storeSize stored with ⟨same, has⟩
  rw [same.freeList]
  apply absorbing.chained.linked.congr
  intro node mem
  rw [Headers.nextOf, Headers.nextOf, has.headers_eq mem, ← absorbing.link, resize_next]

section Loop

variable (distinct : pointers.Nodup) (nonempty : pointers ≠ [])
  (inUse : ∀ pointer ∈ pointers, ∃ node ∈ all, (headers node).free = false ∧ node ≠ block ∧
    pointer = node + sizeofBlockHeader)

include distinct nonempty inUse

/-- With the size written and the link not, the chain claims the next block twice.  Complete calls
of `kfree` keep that. -/
theorem Absorbing.torn {before : Kheap}
    (absorbing : Absorbing stop all headers block before nodes now front current next back)
    (stored : before.store (blockSizeField current) (absorbedSize now current next) = some mid) :
    ∃ after last nodes', (∀ fuel, nodes.length < fuel → kfreeAll fuel mid pointers = some after) ∧
      after.heapCurrent = stop ∧ after.Left stop nodes nodes' last ∧ last.Settled nodes' ∧
      Freed (now.resize current (absorbedSize now current next) (some next)) nodes pointers last
        nodes' ∧
      Shaped mid.freeList stop nodes
        (now.resize current (absorbedSize now current next) (some next)) nodes ∧
      heapStart + last.extent nodes' = stop + (sizeofBlockHeader + (now next).size) ∧
      (last next).next = (now next).next := by
  rcases absorbing.storeSize stored with ⟨same, has⟩
  have bounded := absorbing.chained.bounded
  have linked : Linked (now.resize current (absorbedSize now current next) (some next)).nextOf
    mid.freeList
      nodes := by
    rw [same.freeList, ← absorbing.link]
    exact absorbing.chained.linked.congr (fun node _ => resize_next now current _ node)
  have change := @extent_resize current nodes now (absorbedSize now current next) (some next)
    absorbing.chained.linked.nodup absorbing.mem
  have total := absorbing.chained.extent
  have sizeLt := absorbing.absorbedSize_lt
  have small : (now.resize current (absorbedSize now current next) (some next)).extent nodes <
      2 ^ 64 := by
    simp only [heapStart] at total
    omega
  have stillInUse : ∀ pointer ∈ pointers, ∃ node ∈ nodes,
      (now.resize current (absorbedSize now current next) (some next) node).free = false ∧
        pointer = node + sizeofBlockHeader := by
    intro pointer isMember
    rcases absorbing.toMerging.inUse inUse pointer isMember with ⟨node, isNode, used, pointerEq⟩
    exact ⟨node, isNode, (resize_free ..).trans used, pointerEq⟩
  rcases has.kfreeAll_freed bounded pointers _ _ _ (fun _ isMember => isMember) linked small
    distinct stillInUse
    with ⟨after, last, nodes', frees, afterSame, _, afterHas, freed⟩
  have whole : Shaped mid.freeList stop nodes
    (now.resize current (absorbedSize now current next) (some next))
      nodes := .whole linked absorbing.chained.sorted absorbing.chained.below
  have shaped := whole.freed freed
  rw [← afterSame.freeList] at shaped
  refine ⟨after, last, nodes', frees, (afterSame.heapCurrent.trans same.heapCurrent).trans
    absorbing.extent,
    ⟨afterHas, ?_, shaped, absorbing.chained.sorted, bounded⟩, freed.settled nonempty, freed, whole,
      ?_, ?_⟩
  · rw [afterSame.freeList, same.freeList, absorbing.chained.isHead]
  · rw [freed.extent linked]
    unfold absorbedSize at change ⊢
    omega
  · rcases freed.frozen linked absorbing.mem ((resize_free ..).trans absorbing.free)
      (by rw [resize_self]) with ⟨_, sameLink⟩
    rw [sameLink, resize_of_ne (Nat.ne_of_gt absorbing.before)]

end Loop

/-- Without a call of `kfree` in between nothing has changed. -/
theorem FreeAt.harmless (chained : heap.Chained stop all headers)
    (here : FreeAt heap stop all headers block mid point)
    (running : ∀ pointer, point ≠ returned pointer) :
    ∃ nodes, Linked mid.headers.nextOf mid.freeList nodes ∧
      Harmless mid.headers mid.headers nodes point := by
  have linked : ∀ {mid : Kheap} {nodes : List ℕ} {now : Headers}, mid.Chained stop nodes now →
      Linked mid.headers.nextOf mid.freeList nodes := by
    intro mid nodes now chained
    exact chained.linked.congr (fun node mem => by
      rw [Headers.nextOf, Headers.nextOf, chained.has.headers_eq mem])
  cases point with
  | markFree taken =>
      rcases here with ⟨rfl, rfl⟩
      exact ⟨all, linked chained, trivial⟩
  | mergeFirst =>
      rcases here with ⟨now, back, merging⟩
      exact ⟨all, linked merging.chained, trivial⟩
  | mergeFree current =>
      rcases here with ⟨nodes, now, front, back, merging⟩
      exact ⟨nodes, linked merging.chained, trivial⟩
  | mergeNext current free =>
      rcases here with ⟨nodes, now, front, back, merging, _⟩
      exact ⟨nodes, linked merging.chained, trivial⟩
  | mergeNextFree current next =>
      rcases here with ⟨nodes, now, front, back, merging, _⟩
      exact ⟨nodes, linked merging.chained, fun _ _ => merging.adjacent.2.1⟩
  | absorbSize current next =>
      rcases here with ⟨nodes, now, front, back, absorbing⟩
      exact ⟨nodes, linked absorbing.chained, fun _ => absorbing.nextMem⟩
  | absorbNextSize current next size =>
      rcases here with ⟨nodes, now, front, back, absorbing, _⟩
      exact ⟨nodes, linked absorbing.chained, trivial⟩
  | absorbStore current next size =>
      rcases here with ⟨nodes, now, front, back, absorbing, _⟩
      exact ⟨nodes, linked absorbing.chained, trivial⟩
  | absorbLink current next =>
      rcases here with ⟨before, nodes, now, front, back, absorbing, stored⟩
      exact ⟨nodes, absorbing.linked_torn stored, absorbing.mem, rfl⟩
  | absorbStoreLink current link =>
      rcases here with ⟨before, nodes, now, front, next, back, absorbing, stored, _⟩
      exact ⟨nodes, absorbing.linked_torn stored, absorbing.mem, rfl⟩
  | returned pointer => exact absurd rfl (running pointer)
  | _ => exact here.elim

end Kheap

end Goshkik
