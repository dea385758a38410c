import Goshkik.Memory.KheapReached

/-!
# Going on after an interrupt

What an interrupted call finds when it goes on, and what has to hold when it has ended: the chain
tiles the heap, the live blocks are in use, and the block that is returned is another one.
-/

namespace Goshkik

open KheapPoint

namespace Kheap

/-- The chain after complete calls of `kfree`, among all the headers there were before. -/
structure Left (heap : Kheap) (stop : ℕ) (all nodes : List ℕ) (headers : Headers) : Prop where
  has : heap.HasHeaders heapStart stop (fun node => node ∈ all) headers
  isHead : heap.freeList = some heapStart
  shaped : Shaped heap.freeList stop all headers nodes
  sorted : all.Pairwise (· < ·)
  bounded : stop ≤ 2 ^ 64

/-- All of them have sizes that fit their links. -/
structure Remains (heap : Kheap) (stop : ℕ) (all nodes : List ℕ) (headers : Headers) : Prop
    extends Left heap stop all nodes headers where
  sized : Sized stop all headers

/-- The live blocks are in use in the chain. -/
def Covers (nodes : List ℕ) (headers : Headers) (live : ℕ → ℕ → Prop) : Prop :=
  ∀ payload bytes, live payload bytes → ∃ node ∈ nodes, (headers node).free = false ∧
    (headers node).size = bytes ∧ payload = node + sizeofBlockHeader

/-- The call ends with a chain that tiles the heap.  The live blocks are in use, and what the call
returns is another block in use, which has room for the request and meets no other block. -/
def Completes (heap : Kheap) (point : KheapPoint) (live : ℕ → ℕ → Prop) (size : ℕ) : Prop :=
  ∃ final pointer blocks, heap.Finishes point final pointer ∧ final.Holds heapStart blocks ∧
    final.heapCurrent = heapStart + span blocks ∧
    (∀ payload bytes, live payload bytes → (payload, bytes) ∈ usedBlocks heapStart blocks) ∧
    ∀ address, pointer = some address →
      (∃ bytes, size ≤ bytes ∧ (address, bytes) ∈ usedBlocks heapStart blocks ∧
        ∀ placed ∈ placedBlocks heapStart blocks, placed.1 + sizeofBlockHeader ≠ address →
          placed.1 + sizeofBlockHeader + placed.2.size ≤ address ∨ address + bytes ≤ placed.1) ∧
      ∀ bytes, ¬ live address bytes

/-- Two blocks of a chain do not overlap. -/
theorem placedBlocks_apart {start payload bytes : ℕ} {blocks : List HeapBlock}
    {placed : ℕ × HeapBlock}
    (used : (payload, bytes) ∈ usedBlocks start blocks) (mem : placed ∈ placedBlocks start blocks)
    (other : placed.1 + sizeofBlockHeader ≠ payload) :
    placed.1 + sizeofBlockHeader + placed.2.size ≤ payload ∨ payload + bytes ≤ placed.1 := by
  rcases mem_usedBlocks_iff.mp used with ⟨node, isPlaced, rfl⟩
  clear used
  induction blocks generalizing start with
  | nil => cases mem
  | cons block blocks ih =>
      have behind : ∀ next ∈ placedBlocks (start + sizeofBlockHeader + block.size) blocks,
          start + sizeofBlockHeader + block.size ≤ next.1 :=
        fun next isNext => (blockNodes_bounds (List.mem_map_of_mem (f := Prod.fst) isNext)).1
      rw [placedBlocks, List.mem_cons] at mem isPlaced
      rcases mem with rfl | further
      · rcases isPlaced with here | isPlaced
        · cases here
          exact absurd rfl other
        · have above := behind _ isPlaced
          dsimp only at above ⊢
          omega
      · rcases isPlaced with here | isPlaced
        · cases here
          have above := behind _ further
          dsimp only at above
          exact .inr above
        · exact ih further isPlaced

variable {heap final : Kheap} {stop size last node : ℕ} {all nodes : List ℕ} {headers : Headers}
  {known : Set ℕ} {live : ℕ → ℕ → Prop} {point : KheapPoint} {pointer : Option ℕ}

theorem Completes.of_chained (finishes : heap.Finishes point final pointer)
    (chained : final.Chained stop nodes headers) (extent : final.heapCurrent = stop)
    (covers : Covers nodes headers live)
    (served : ∀ address, pointer = some address →
      (∃ node ∈ nodes, address = node + sizeofBlockHeader ∧
      (headers node).free = false ∧ size ≤ (headers node).size) ∧ ∀ bytes, ¬ live address bytes) :
    Completes heap point live size := by
  rcases chained.holds with ⟨holds, _, spanEq⟩
  refine ⟨final, pointer, nodes.map headers.block, finishes, holds, extent.trans spanEq.symm, ?_,
    ?_⟩
  · intro payload bytes isLive
    rw [chained.mem_used_iff]
    exact covers payload bytes isLive
  · intro address isPointer
    rcases served address isPointer with ⟨⟨node, mem, addressEq, used, room⟩, apart⟩
    have inUse : (address, (headers node).size) ∈
        usedBlocks heapStart (nodes.map headers.block) := by
      rw [chained.mem_used_iff]
      exact ⟨node, mem, used, rfl, addressEq⟩
    exact ⟨⟨(headers node).size, room, inUse, fun placed => placedBlocks_apart inUse⟩, apart⟩

namespace Completes

variable (completes : Completes heap point live size) (finishes : heap.Finishes point final pointer)
  (has : final.HasHeaders heapStart stop known headers)
  (linked : Linked headers.nextOf final.freeList nodes)
  (members : ∀ node ∈ nodes, node ∈ known)

include completes finishes has linked members

/-- The chain that a call has left makes up the heap. -/
theorem extent_eq : final.heapCurrent = heapStart + headers.extent nodes := by
  rcases completes with ⟨after, other, blocks, ends, holds, extent, _⟩
  rcases finishes.unique ends with ⟨rfl, rfl⟩
  rw [extent, (holds.nodes_unique has linked members).2]

/-- The block that is returned belongs to the chain. -/
theorem mem_of_served (isPointer : pointer = some (node + sizeofBlockHeader)) : node ∈ nodes := by
  rcases completes with ⟨after, other, blocks, ends, holds, _, _, served⟩
  rcases finishes.unique ends with ⟨rfl, rfl⟩
  rcases served _ isPointer with ⟨⟨bytes, _, used, _⟩, _⟩
  rcases holds.mem_used_iff.mp used with ⟨same, mem, _, _, addressEq⟩
  rw [Nat.add_right_cancel_iff] at addressEq
  rw [addressEq, ← (holds.nodes_unique has linked members).1]
  exact mem

end Completes

theorem Finishes.next (finishes : heap.Finishes point final pointer)
    (running : ∀ pointer, point ≠ KheapPoint.returned pointer) : ∃ middle next,
      heap.access point = some (middle, next) ∧ middle.Finishes next final pointer := by
  rcases finishes with ⟨count, reached⟩
  cases count with
  | zero =>
      cases reached
      exact absurd rfl (running pointer)
  | succ count =>
      rcases Option.bind_eq_some_iff.mp reached with ⟨⟨middle, next⟩, accessed, rest⟩
      exact ⟨middle, next, accessed, count, rest⟩

/-- Whether a call completes does not change from one access to the next. -/
theorem completes_access_iff {mid : Kheap} {point' : KheapPoint}
    (accessed : heap.access point = some (mid, point'))
    (running : ∀ pointer, point ≠ returned pointer) :
    Completes heap point live size ↔ Completes mid point' live size := by
  constructor
  · rintro ⟨final, pointer, blocks, finishes, rest⟩
    rcases finishes.next running with ⟨middle, next, again, finishes⟩
    cases accessed.symm.trans again
    exact ⟨final, pointer, blocks, finishes, rest⟩
  · rintro ⟨final, pointer, blocks, finishes, rest⟩
    exact ⟨final, pointer, blocks, .step accessed finishes, rest⟩

theorem HasHeaders.extend {start stop' : ℕ} (has : heap.HasHeaders start stop known headers)
    (mapped : heap.Mapped start stop') (longer : stop ≤ stop') :
    heap.HasHeaders start stop' known headers where
  separate := has.separate
  mapped := mapped
  inside node mem := ⟨(has.inside node mem).1, (has.inside node mem).2.trans longer⟩
  apart := has.apart
  size := has.size
  free := has.free
  next := has.next

theorem Left.chainHas (left : heap.Left stop all nodes headers) :
    heap.HasHeaders heapStart stop (fun node => node ∈ nodes) headers :=
  left.has.mono (fun _ mem => left.shaped.sublist.subset mem)

theorem Left.below (left : heap.Left stop all nodes headers) : ∀ node ∈ all, node < stop := by
  intro node mem
  have inside := (left.has.inside node mem).2
  simp only [sizeofBlockHeader] at inside
  omega

theorem Left.behind_le (left : heap.Left stop all nodes headers) (known : node ∈ all) :
    headers.behind stop node ≤ stop := by
  unfold Headers.behind
  cases link : (headers node).next with
  | none => exact Nat.le_refl stop
  | some next => exact Nat.le_of_lt (left.below next (left.shaped.target node known next link))

namespace Remains

theorem chained (remains : heap.Remains stop all nodes headers) :
    heap.Chained stop nodes headers where
  has := remains.chainHas
  isHead := remains.isHead
  linked := remains.shaped.linked
  sized node mem := remains.sized node (remains.shaped.sublist.subset mem)
  bounded := remains.bounded

/-- The last of all headers has no link. -/
theorem next_last {front : List ℕ} (remains : heap.Remains stop all nodes headers)
    (isLast : all = front ++ [last]) : (headers last).next = none := by
  have mem : last ∈ all := by simp [isLast]
  cases link : (headers last).next with
  | none => rfl
  | some next =>
      have target := remains.shaped.target last mem next link
      have ahead := remains.shaped.ahead last mem
      have sorted := remains.sorted
      rw [Headers.behind_of_next link] at ahead
      rw [isLast, List.pairwise_append] at sorted
      rw [isLast, List.mem_append, List.mem_singleton] at target
      rcases target with inFront | rfl
      · have before := sorted.2.2 next inFront last (by simp)
        omega
      · omega

/-- A header of the chain that has no link is its last one. -/
theorem ends_with (remains : heap.Remains stop all nodes headers)
    (noLink : (headers last).next = none)
    (mem : last ∈ nodes) : ∃ front', nodes = front' ++ [last] := by
  rcases List.append_of_mem mem with ⟨before, behind, split⟩
  have linked := remains.shaped.linked
  rw [split] at linked
  have link := linked.next_eq
  rw [Headers.nextOf, noLink] at link
  refine ⟨before, ?_⟩
  rw [split, List.head?_eq_none_iff.mp link.symm]

end Remains

/-! ## Growing -/

section Growing

theorem grownHeaders_of_ne {other : ℕ} (notLast : other ≠ last) (notNew : other ≠ stop) :
    grownHeaders headers stop size last other = headers other := by
  rw [grownHeaders, Headers.resize, Function.update_of_ne notLast, Function.update_of_ne notNew]

theorem grownHeaders_last (notNew : last ≠ stop) : grownHeaders headers stop size last last =
    ⟨(headers last).size, (headers last).free, some stop⟩ := by
  rw [grownHeaders, Headers.resize, Function.update_self, Function.update_of_ne notNew]

theorem grownHeaders_new (notNew : last ≠ stop) : grownHeaders headers stop size last stop =
    ⟨(totalSize size + 2 ^ 64 - sizeofBlockHeader) % 2 ^ 64, false, none⟩ := by
  rw [grownHeaders, Headers.resize, Function.update_of_ne notNew.symm, Function.update_self]

theorem totalSize_lt (size : ℕ) : totalSize size < 2 ^ 64 := by
  unfold totalSize
  exact Nat.lt_of_le_of_lt Nat.and_le_left (Nat.mod_lt _ (by decide))

/-- The chain after a growth behind its last block. -/
theorem Remains.linked_grown (remains : heap.Remains stop all nodes headers)
    (noLink : (headers last).next = none) (mem : last ∈ nodes) :
    Linked (grownHeaders headers stop size last).nextOf heap.freeList (nodes ++ [stop]) := by
  have below := remains.below
  have different : last ≠ stop := Nat.ne_of_lt (below last (remains.shaped.sublist.subset mem))
  rcases remains.ends_with noLink mem with ⟨front', rfl⟩
  have distinct := remains.shaped.linked.nodup
  rw [List.nodup_append] at distinct
  apply remains.shaped.linked.append_last
  · rw [Headers.nextOf, grownHeaders_last different]
  · rw [Headers.nextOf, grownHeaders_new different]
  · intro other otherMem
    have notLast := distinct.2.2 other otherMem last (by simp)
    have notNew := Nat.ne_of_lt (below other (remains.shaped.sublist.subset (by simp [otherMem])))
    rw [Headers.nextOf, grownHeaders_of_ne notLast notNew]
    rfl

/-- A growth behind the last block of the chain keeps the chain consistent. -/
theorem Grown.chained (remains : heap.Remains stop all nodes headers)
    (noLink : (headers last).next = none)
    (mem : last ∈ nodes) (payload : sizeofBlockHeader ≤ totalSize size)
    (room : stop + totalSize size < 2 ^ 64)
    (grown : Grown heap stop size last (fun node => node ∈ all) headers final) :
    final.Chained (stop + totalSize size) (nodes ++ [stop])
      (grownHeaders headers stop size last) := by
  have below := remains.below
  have different : last ≠ stop := Nat.ne_of_lt (below last (remains.shaped.sublist.subset mem))
  refine ⟨(grown.has.extend grown.mapped (by omega)).mono ?_, ?_, ?_, ?_, by omega⟩
  · intro node isMember
    rcases List.mem_append.mp isMember with old | new
    · exact .inr (remains.shaped.sublist.subset old)
    · exact .inl (List.mem_singleton.mp new)
  · rw [grown.freeList, remains.isHead]
  · rw [grown.freeList]
    exact remains.linked_grown noLink mem
  · intro node isMember
    have total := totalSize_lt size
    rcases List.mem_append.mp isMember with old | new
    · have inAll := remains.shaped.sublist.subset old
      have fits := remains.sized node inAll
      by_cases here : node = last
      · subst here
        rw [grownHeaders_last different]
        rw [Headers.behind, noLink, Option.getD_none] at fits
        rw [Headers.behind, grownHeaders_last different, Option.getD_some]
        exact fits
      · rw [Headers.behind, grownHeaders_of_ne here (Nat.ne_of_lt (below node inAll)), fits,
          Headers.behind]
        rcases remains.ends_with noLink mem with ⟨front', rfl⟩
        rcases List.append_of_mem
          (List.mem_append.mp old |>.resolve_right (by simpa using here)) with
          ⟨before, behind, split⟩
        have link := remains.shaped.linked
        rw [split, List.append_assoc, List.cons_append] at link
        have isSome := link.next_eq
        rw [Headers.nextOf] at isSome
        rw [isSome]
        cases behind <;> rfl
    · rw [List.mem_singleton.mp new, Headers.behind, grownHeaders_new different, Option.getD_none]
      simp only [sizeofBlockHeader] at payload ⊢
      omega

/-- A growth of no pages ends only if its header is mapped all the same. -/
theorem GrowAt.backed (finishes : heap.Finishes point final pointer)
    (here : GrowAt stop size last heap point)
    (nothing : totalSize size = 0) : (heap.pages (pageOf stop)).isSome := by
  have sizeMapped : ∀ middle : Kheap, middle.Finishes (growSize 0 (some last) stop) final pointer →
      (middle.pages (pageOf stop)).isSome := by
    intro middle finishes
    rcases finishes.next (by simp) with ⟨_, _, accessed, _⟩
    simp only [access, Option.bind_eq_bind, Option.bind_eq_some_iff] at accessed
    rcases accessed with ⟨_, stored, _⟩
    exact isSome_of_store stored
  have currentMapped : heap.Finishes (growCurrent 0 (some last) stop) final pointer →
      (heap.pages (pageOf stop)).isSome := by
    intro finishes
    rcases finishes.next (by simp) with ⟨middle, next, accessed, rest⟩
    cases accessed
    have isMapped := sizeMapped _ rest
    exact isMapped
  cases point with
  | growBase total found frames =>
      rcases here with ⟨rfl, rfl, current, _, _⟩
      rcases finishes.next (by simp) with ⟨middle, next, accessed, rest⟩
      cases accessed
      rw [nothing, Nat.zero_div, growPages, if_pos rfl, current] at rest
      exact currentMapped rest
  | growPage total found base address count frames =>
      rcases here with ⟨_, _, _, _, _, _, _, above, _, ends, positive⟩
      rw [nothing] at ends
      simp only [pageSizeVmm] at ends
      omega
  | growCurrent total found base =>
      rcases here with ⟨rfl, rfl, rfl, _⟩
      rw [nothing] at finishes
      exact currentMapped finishes
  | growSize total found base =>
      rcases here with ⟨rfl, rfl, rfl, _⟩
      rw [nothing] at finishes
      exact sizeMapped heap finishes
  | growFree found base => exact here.2.2.2.2.2.1
  | growNext found base => exact here.2.2.2.2.2.1
  | growLink found base => exact here.2.2.2.2.2.1
  | _ => exact here.elim

theorem GrowAt.room (here : GrowAt stop size last heap point) (supplied : point.Supplied) :
    stop + totalSize size < 2 ^ 64 := by
  have whole := totalSize_whole size
  cases point with
  | growBase total found frames =>
      rcases here with ⟨rfl, _, _, _, room⟩
      have enough := Nat.mul_le_mul_right pageSizeVmm supplied
      omega
  | growPage total found base address count frames =>
      rcases here with ⟨_, _, _, _, _, room, _, _, _, ends, _⟩
      have enough := Nat.mul_le_mul_right pageSizeVmm supplied
      omega
  | growCurrent total found base => exact here.2.2.2.2.1
  | growSize total found base => exact here.2.2.2.2.1
  | growFree found base => exact here.2.2.2.1
  | growNext found base => exact here.2.2.2.1
  | growLink found base => exact here.2.2.2.1
  | _ => exact here.elim

theorem GrowAt.supplied_of_nothing (here : GrowAt stop size last heap point)
    (nothing : totalSize size = 0) : point.Supplied := by
  cases point with
  | growBase total found frames =>
      rcases here with ⟨rfl, _⟩
      rw [KheapPoint.Supplied, nothing, Nat.zero_div]
      exact Nat.zero_le _
  | growPage total found base address count frames =>
      rcases here with ⟨_, _, _, _, _, _, _, above, _, ends, positive⟩
      rw [nothing] at ends
      simp only [pageSizeVmm] at ends
      omega
  | _ => trivial

/-- The rounding to whole pages of a growth wraps. -/
def PagesWrap (size : ℕ) : Prop := 2 ^ 64 ≤ size + sizeofBlockHeader + (pageSizeVmm - 1)

/-- A growth that has linked its block behind a header that is not in the chain has lost the
block. -/
theorem Grown.not_completes (remains : heap.Remains stop all nodes headers) (gone : last ∉ nodes)
    (finishes : heap.Finishes point final (some (stop + sizeofBlockHeader)))
    (grown : Grown heap stop size last (fun node => node ∈ all) headers final) :
    ¬ Completes heap point live size := by
  intro completes
  have below := remains.below
  have linked : Linked (grownHeaders headers stop size last).nextOf final.freeList nodes := by
    rw [grown.freeList]
    apply remains.shaped.linked.congr
    intro node mem
    have notLast : node ≠ last := fun same => gone (same ▸ mem)
    rw [Headers.nextOf, grownHeaders_of_ne notLast
      (Nat.ne_of_lt (below node (remains.shaped.sublist.subset mem)))]
    rfl
  have isNode := completes.mem_of_served finishes grown.has linked
    (fun node mem => .inr (remains.shaped.sublist.subset mem)) rfl
  exact Nat.lt_irrefl stop (below stop (remains.shaped.sublist.subset isNode))

theorem Remains.growth_iff (remains : heap.Remains stop all nodes headers) (lastKnown : last ∈ all)
    (noLink : (headers last).next = none) (aligned : pageSizeVmm ∣ stop)
    (covers : Covers nodes headers live)
    (small : size ≤ 2 ^ 64 - 1 - sizeofBlockHeader) (here : GrowAt stop size last heap point) :
    Completes heap point live size ↔ ¬ PagesWrap size ∧ (point.Supplied → last ∈ nodes) := by
  have below := remains.below
  have different : last ≠ stop := Nat.ne_of_lt (below last lastKnown)
  have above : heapStart ≤ stop := by
    have inside := remains.has.inside last lastKnown
    omega
  constructor
  · intro completes
    have noWrap : ¬ PagesWrap size := by
      intro wraps
      have nothing : totalSize size = 0 := totalSize_wraps (by
        simp only [sizeofBlockHeader] at small ⊢
        omega) wraps
      have backed : (heap.pages (pageOf stop)).isSome := by
        rcases completes with ⟨_, _, _, finishes, _⟩
        exact here.backed finishes nothing
      rcases here.finishes remains.has above aligned lastKnown (.inr backed)
        (here.supplied_of_nothing nothing) with ⟨final, finishes, grown⟩
      by_cases mem : last ∈ nodes
      · have linked : Linked (grownHeaders headers stop size last).nextOf final.freeList
          (nodes ++ [stop]) := by
          rw [grown.freeList]
          exact remains.linked_grown noLink mem
        have extent := completes.extent_eq finishes grown.has linked (by
          intro node isMember
          rcases List.mem_append.mp isMember with old | new
          · exact .inr (remains.shaped.sublist.subset old)
          · exact .inl (List.mem_singleton.mp new))
        have total := remains.chained.extent
        rw [Headers.extent_append, @Headers.extent_congr headers] at extent
        · rw [grown.heapCurrent, nothing, Headers.extent_cons, grownHeaders_new different,
            nothing] at extent
          simp only [sizeofBlockHeader] at extent
          omega
        · intro node isMember
          by_cases isEnd : node = last
          · rw [isEnd, grownHeaders_last different]
          · rw [grownHeaders_of_ne isEnd
              (Nat.ne_of_lt (below node (remains.shaped.sublist.subset isMember)))]
      · exact grown.not_completes remains mem finishes completes
    refine ⟨noWrap, fun supplied => ?_⟩
    by_contra gone
    rcases totalSize_spec (Nat.lt_of_not_le noWrap) with ⟨payload, _, _⟩
    have positive : 0 < totalSize size := by
      simp only [sizeofBlockHeader] at payload
      omega
    rcases here.finishes remains.has above aligned lastKnown (.inl positive) supplied with
      ⟨final, finishes, grown⟩
    exact grown.not_completes remains gone finishes completes
  · rintro ⟨noWrap, stays⟩
    rcases totalSize_spec (Nat.lt_of_not_le noWrap) with ⟨payload, _, _⟩
    by_cases supplied : point.Supplied
    · have mem := stays supplied
      have positive : 0 < totalSize size := by
        simp only [sizeofBlockHeader] at payload
        omega
      rcases here.finishes remains.has above aligned lastKnown (.inl positive) supplied with
        ⟨final, finishes, grown⟩
      have chained := grown.chained remains noLink mem (by omega) (here.room supplied)
      refine .of_chained finishes chained grown.heapCurrent ?_ ?_
      · intro payload bytes isLive
        rcases covers payload bytes isLive with ⟨node, isMember, used, sizeEq, payloadEq⟩
        refine ⟨node, List.mem_append_left _ isMember, ?_⟩
        by_cases isEnd : node = last
        · subst isEnd
          rw [grownHeaders_last different]
          exact ⟨used, sizeEq, payloadEq⟩
        · rw [grownHeaders_of_ne isEnd
            (Nat.ne_of_lt (below node (remains.shaped.sublist.subset isMember)))]
          exact ⟨used, sizeEq, payloadEq⟩
      · rintro address isPointer
        cases isPointer
        refine ⟨⟨stop, by simp, rfl, ?_⟩, ?_⟩
        · rw [grownHeaders_new different]
          have total := totalSize_lt size
          refine ⟨rfl, ?_⟩
          simp only [sizeofBlockHeader] at payload ⊢
          omega
        · intro bytes isLive
          rcases covers _ bytes isLive with ⟨node, isMember, _, _, payloadEq⟩
          rw [Nat.add_right_cancel_iff] at payloadEq
          have before := below node (remains.shaped.sublist.subset isMember)
          omega
    · rcases here.breaksOff remains.has aligned supplied with ⟨final, finishes, list, current, has⟩
      have chained : final.Chained stop nodes headers := by
        refine ⟨has.mono (fun _ mem => remains.shaped.sublist.subset mem), ?_, ?_,
          remains.chained.sized,
          remains.bounded⟩
        · rw [list, remains.isHead]
        · rw [list]
          exact remains.shaped.linked
      exact .of_chained finishes chained current covers (by simp)

end Growing

end Kheap

end Goshkik
