import Goshkik.Memory.KheapInterruptedGrowth

/-!
# Merging after an interrupt

The merging loop goes on from a header that an interrupt may have merged into the block before it.
Then it merges headers that are left behind, until it comes back to the chain.
-/

namespace Goshkik

open KheapPoint

/-- On a chain without free neighbours there is nothing to merge. -/
theorem Merges.of_settled {headers last : Headers} {nodes nodes' : List ℕ}
    (merges : Merges headers nodes last nodes') (settled : headers.Settled nodes) :
    last = headers ∧ nodes' = nodes := by
  cases merges with
  | done _ => exact ⟨rfl, rfl⟩
  | absorb _ free nextFree _ =>
      unfold Headers.Settled at settled
      rw [List.isChain_append_cons_cons] at settled
      exact absurd ⟨free, nextFree⟩ settled.2.1

namespace Kheap

variable {heap mid final : Kheap} {stop size current next : ℕ}
  {all nodes front back gone rest : List ℕ}
  {headers last : Headers} {known : Set ℕ} {live : ℕ → ℕ → Prop}

/-! ## Merging along the chain -/

/-- Merging keeps a chain consistent. -/
theorem Chained.merged {nodes' : List ℕ} (chained : heap.Chained stop nodes headers)
    (merges : Merges headers nodes last nodes') (same : heap.SameMaps final)
    (has : final.HasHeaders heapStart stop (fun node => node ∈ nodes) last) :
    final.Chained stop nodes' last := by
  have kept : Shaped heap.freeList stop nodes last nodes' ∧ Sized stop nodes last := by
    refine merges.invariant (motive := fun middle reached =>
      Shaped heap.freeList stop nodes middle reached ∧ Sized stop nodes middle)
      ⟨chained.shaped, chained.sized⟩ ?_
    rintro middle front node next back _ free nextFree ⟨shaped, sized⟩
    exact ⟨shaped.absorb free nextFree, sized.absorb (shaped.sublist.subset (by simp))
      (shaped.sublist.subset (by simp)) shaped.linked.next_eq⟩
  rcases kept with ⟨shaped, sized⟩
  refine ⟨has.mono (fun node mem => shaped.sublist.subset mem), ?_, ?_,
    fun node mem => sized node (shaped.sublist.subset mem), chained.bounded⟩
  · rw [same.freeList, chained.isHead]
  · rw [same.freeList]
    exact shaped.linked

/-- Without an interrupt the merging completes. -/
theorem Chained.mergeFree (chained : heap.Chained stop nodes headers)
    (extent : heap.heapCurrent = stop)
    (covers : Covers nodes headers live) (split : nodes = front ++ current :: back)
    (settled : headers.Settled (front ++ [current])) :
    Completes heap (.mergeFree current) live size := by
  have total := chained.extent
  have bounded := chained.bounded
  have linked := chained.linked
  rw [split] at linked total
  rcases Linked.append_iff.mp linked with ⟨middle, _, tail⟩
  have isCurrent := tail.1
  rw [isCurrent] at tail
  have small : headers.extent (current :: back) < 2 ^ 64 := by
    rw [Headers.extent_append] at total
    simp only [heapStart] at total
    omega
  rcases chained.has.mergeBlocks_merges back heap headers front current
      (fun node mem => by rw [split]; exact List.mem_append_right _ mem) tail settled small with
    ⟨final, last, nodes', merged, same, _, has, merges⟩
  rw [← split] at merges
  refine .of_chained (finishes_mergeBlocks (merged _ (Nat.lt_succ_self _)))
    (chained.merged merges same has) (same.heapCurrent.trans extent) ?_ (by simp)
  intro payload bytes isLive
  rcases covers payload bytes isLive with ⟨node, mem, used, sizeEq, payloadEq⟩
  rcases merges.used mem used with ⟨stays, unchanged⟩
  exact ⟨node, stays, by rw [unchanged, used], by rw [unchanged, sizeEq], payloadEq⟩

/-! ## Merging along headers that are left behind -/

/-- From `current` the links lead along headers outside of the chain, and then along its end. -/
structure Detour (known : Set ℕ) (headers : Headers) (nodes : List ℕ) (current : ℕ)
    (front gone rest : List ℕ) : Prop where
  split : nodes = front ++ rest
  linked : Linked headers.nextOf (some current) (gone ++ rest)
  outside : ∀ node ∈ gone, node ∈ known ∧ node ∉ nodes
  boundary : gone ≠ [] → ∀ first ∈ rest.head?, (headers first).free = false
  small : headers.extent (gone ++ rest) < 2 ^ 64

/-- Merging on a detour does not touch the chain. -/
theorem Detour.finishes (detour : Detour known headers nodes current front gone rest)
    (has : heap.HasHeaders heapStart stop known headers) (members : ∀ node ∈ nodes, node ∈ known)
    (settled : headers.Settled nodes) :
    ∃ final last, heap.Finishes (.mergeFree current) final none ∧ heap.SameMaps final ∧
      final.HasHeaders heapStart stop known last ∧ ∀ node ∈ nodes, last node = headers node := by
  rcases detour with ⟨split, linked, outside, boundary, small⟩
  have settledRest : headers.Settled rest := by
    unfold Headers.Settled at settled ⊢
    rw [split] at settled
    exact settled.right_of_append
  have within : ∀ node ∈ gone ++ rest, node ∈ known := by
    intro node mem
    rcases List.mem_append.mp mem with inGone | inRest
    · exact (outside node inGone).1
    · exact members node (by simp [split, inRest])
  cases path : gone ++ rest with
  | nil =>
      rw [path] at linked
      cases linked
  | cons first behind =>
      rw [path] at linked small within
      have isFirst := linked.1
      rw [Option.some.injEq] at isFirst
      subst isFirst
      rcases has.mergeBlocks_merges behind heap headers [] current within linked
        (.singleton current)
          small with ⟨final, last, nodes', merged, same, _, finalHas, merges⟩
      refine ⟨final, last, finishes_mergeBlocks (merged _ (Nat.lt_succ_self _)), same, finalHas, ?_⟩
      rw [List.nil_append, ← path] at merges
      intro node mem
      by_cases direct : gone = []
      · subst direct
        rw [(merges.of_settled settledRest).1]
      · refine merges.apart settledRest (fun other inRest inGone => ?_) (boundary direct) node
          (fun inGone => (outside node inGone).2 mem)
        exact (outside other inGone).2 (by simp [split, inRest])

theorem Detour.completes (detour : Detour known headers nodes current front gone rest)
    (chained : heap.Chained stop nodes headers) (has : heap.HasHeaders heapStart stop known headers)
    (members : ∀ node ∈ nodes, node ∈ known) (settled : headers.Settled nodes)
    (extent : heap.heapCurrent = stop) (covers : Covers nodes headers live) :
    Completes heap (.mergeFree current) live size := by
  rcases detour.finishes has members settled with ⟨final, last, finishes, same, finalHas, agree⟩
  have finalChained : final.Chained stop nodes headers := by
    refine ⟨(finalHas.mono members).congrHeaders (fun node mem => (agree node mem).symm), ?_, ?_,
      chained.sized, chained.bounded⟩
    · rw [same.freeList, chained.isHead]
    · rw [same.freeList]
      exact chained.linked
  exact .of_chained finishes finalChained (same.heapCurrent.trans extent) covers (by simp)

/-- From every header the links lead back to the chain. -/
theorem Left.detour (left : heap.Left stop all nodes headers) (settled : headers.Settled nodes)
    (sized : ∀ node ∈ all, current ≤ node →
      node + sizeofBlockHeader + (headers node).size = headers.behind stop node)
    (mem : current ∈ all) : ∃ front gone rest,
      Detour (fun node => node ∈ all) headers nodes current front gone rest ∧
        (∀ node ∈ gone ++ rest, node ∈ all ∧ current ≤ node) ∧ (current ∉ nodes → gone ≠ []) ∧
        current + headers.extent (gone ++ rest) = stop := by
  rcases left.shaped.trail settled (left.sorted.sublist left.shaped.sublist) left.below mem with
    ⟨gone, rest, front, split, linked, outside, _, _, _, leaves, boundary⟩
  have target : ∀ node ∈ some current, node ∈ all := by simpa using mem
  rcases left.path target with ⟨trail, trailLinked, within, _⟩
  rw [trailLinked.unique linked] at within
  have above : ∀ node ∈ gone ++ rest, node ∈ all ∧ current ≤ node :=
    fun node isMember => ⟨(within node isMember).1, (within node isMember).2 current rfl⟩
  have total : current + headers.extent (gone ++ rest) = stop :=
    extent_segment linked (fun node isMember =>
      sized node (above node isMember).1 (above node isMember).2)
  refine ⟨front, gone, rest, ⟨split, linked, outside, boundary, ?_⟩, above, leaves, total⟩
  have bounded := left.bounded
  have start := (left.has.inside current mem).1
  simp only [heapStart] at start
  omega

/-- After an interrupt the merging may go on from every header. -/
theorem Remains.mergeFree (remains : heap.Remains stop all nodes headers)
    (settled : headers.Settled nodes)
    (extent : heap.heapCurrent = stop) (covers : Covers nodes headers live) (mem : current ∈ all) :
    Completes heap (.mergeFree current) live size := by
  rcases remains.detour settled (fun node isMember _ => remains.sized node isMember) mem with
    ⟨front, gone, rest, detour, _⟩
  exact detour.completes remains.chained remains.has (fun node isMember =>
    remains.shaped.sublist.subset isMember)
    settled extent covers

/-! ## A header that takes the next one in -/

section Absorbed

variable {newSize : ℕ}

end Absorbed

end Kheap

end Goshkik
