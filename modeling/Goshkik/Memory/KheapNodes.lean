import Goshkik.Memory.KheapAlloc
import Goshkik.Memory.KheapLeftovers

/-!
# Chains of blocks and their headers

A chain that tiles a range, as a list of blocks and as a list of headers whose sizes fit their
links.
-/

namespace Goshkik

/-- The addresses of the headers of a chain. -/
def blockNodes (start : ℕ) (blocks : List HeapBlock) : List ℕ :=
  (placedBlocks start blocks).map Prod.fst

/-- The headers in memory. -/
def Kheap.headers (heap : Kheap) : Headers := fun node =>
  ⟨heap.view (blockSizeField node), heap.view (blockFreeField node) ≠ 0,
    heap.view.pointerAt (blockNextField node)⟩

/-- A header without its link. -/
def Headers.block (headers : Headers) (node : ℕ) : HeapBlock :=
  ⟨(headers node).size, (headers node).free⟩

section Blocks

variable {address start stop node payload size : ℕ} {blocks : List HeapBlock} {cells : Cells}
  {head : Option ℕ}

theorem blockNodes_cons (address : ℕ) (block : HeapBlock) (blocks : List HeapBlock) :
    blockNodes address (block :: blocks) =
      address :: blockNodes (address + sizeofBlockHeader + block.size) blocks := rfl

theorem blockNodes_bounds (mem : node ∈ blockNodes address blocks) :
    address ≤ node ∧ node + sizeofBlockHeader ≤ address + span blocks := by
  induction blocks generalizing address with
  | nil => cases mem
  | cons block blocks ih =>
      rw [blockNodes_cons, List.mem_cons] at mem
      simp only [span]
      rcases mem with rfl | further
      · omega
      · have bounds := ih further
        omega

theorem blockNodes_apart (address : ℕ) (blocks : List HeapBlock) :
    (blockNodes address blocks).Pairwise (fun node other => node + sizeofBlockHeader ≤ other) := by
  induction blocks generalizing address with
  | nil => exact .nil
  | cons block blocks ih =>
      rw [blockNodes_cons, List.pairwise_cons]
      refine ⟨?_, ih _⟩
      intro other mem
      have bounds := blockNodes_bounds mem
      omega

theorem blockNodes_sorted (address : ℕ) (blocks : List HeapBlock) :
    (blockNodes address blocks).Pairwise (· < ·) := by
  refine (blockNodes_apart address blocks).imp ?_
  intro node other apart
  simp only [sizeofBlockHeader] at apart
  omega

/-- The blocks in use are those that are placed and not free. -/
theorem mem_usedBlocks_iff : (payload, size) ∈ usedBlocks address blocks ↔
    ∃ node, (node, (⟨size, false⟩ : HeapBlock)) ∈ placedBlocks address blocks ∧
      payload = node + sizeofBlockHeader := by
  induction blocks generalizing address with
  | nil => simp [usedBlocks, placedBlocks]
  | cons block blocks ih =>
      simp only [usedBlocks, placedBlocks, List.mem_cons]
      split
      case isTrue free =>
        rw [ih]
        constructor
        · rintro ⟨node, mem, rfl⟩
          exact ⟨node, .inr mem, rfl⟩
        · rintro ⟨node, here | mem, rfl⟩
          · rw [Prod.mk.injEq] at here
            rw [← here.2] at free
            cases free
          · exact ⟨node, mem, rfl⟩
      case isFalse used =>
        rw [List.mem_cons, ih]
        constructor
        · rintro (here | ⟨node, mem, rfl⟩)
          · rw [Prod.mk.injEq] at here
            refine ⟨address, .inl ?_, here.1⟩
            rw [here.2]
            cases block
            simp_all
          · exact ⟨node, .inr mem, rfl⟩
        · rintro ⟨node, here | mem, rfl⟩
          · rw [Prod.mk.injEq] at here
            rw [here.1, ← here.2]
            exact .inl rfl
          · exact .inr ⟨node, mem, rfl⟩

/-- What a chain says about the cells of its headers. -/
theorem Chain.nodes (chain : Chain cells head address blocks none) :
    Linked (fun node => cells.pointerAt (blockNextField node)) head (blockNodes address blocks) ∧
      (∀ placed ∈ placedBlocks address blocks, cells (blockSizeField placed.1) = placed.2.size ∧
        cells (blockFreeField placed.1) = placed.2.free.toNat) ∧
      ∀ node ∈ blockNodes address blocks, node + sizeofBlockHeader + cells (blockSizeField node) =
        (cells.pointerAt (blockNextField node)).getD (address + span blocks) := by
  induction blocks generalizing head address with
  | nil => exact ⟨chain, by simp [placedBlocks], by simp [blockNodes, placedBlocks]⟩
  | cons block blocks ih =>
      rcases chain with ⟨headEq, sizeEq, freeEq, tail⟩
      rcases ih tail with ⟨linked, fields, sizes⟩
      refine ⟨⟨headEq, linked⟩, ?_, ?_⟩
      · intro placed mem
        rw [placedBlocks, List.mem_cons] at mem
        rcases mem with rfl | further
        · exact ⟨sizeEq, freeEq⟩
        · exact fields placed further
      · intro node mem
        have spanEq : address + span (block :: blocks) =
            address + sizeofBlockHeader + block.size + span blocks := by
          simp only [span]
          omega
        rw [spanEq]
        rw [blockNodes_cons, List.mem_cons] at mem
        rcases mem with rfl | further
        · rw [sizeEq]
          cases blocks with
          | nil =>
              have link : cells.pointerAt (blockNextField node) = none := tail
              rw [link, Option.getD_none, span, Nat.add_zero]
          | cons next blocks =>
              rw [tail.1, Option.getD_some]
        · exact sizes node further

end Blocks

namespace Kheap

variable {heap : Kheap} {start stop node size : ℕ} {blocks : List HeapBlock} {known : Set ℕ}
  {headers : Headers} {nodes : List ℕ}

theorem HasHeaders.headers_eq (has : heap.HasHeaders start stop known headers)
    (mem : node ∈ known) :
    heap.headers node = headers node := by
  unfold Kheap.headers
  rw [has.size node mem, has.free node mem, has.next node mem]
  cases headers node with
  | mk size free next => cases free <;> rfl

namespace Holds

theorem linked (holds : heap.Holds start blocks) :
    Linked heap.headers.nextOf heap.freeList (blockNodes start blocks) := holds.chain.nodes.1

theorem sized (holds : heap.Holds start blocks) :
    Sized (start + span blocks) (blockNodes start blocks) heap.headers := holds.chain.nodes.2.2

/-- A placed block is what its header says. -/
theorem header_placed (holds : heap.Holds start blocks) {block : HeapBlock}
    (mem : (node, block) ∈ placedBlocks start blocks) :
    (heap.headers node).size = block.size ∧ (heap.headers node).free = block.free := by
  rcases holds.chain.nodes.2.1 _ mem with ⟨sizeEq, freeEq⟩
  refine ⟨sizeEq, ?_⟩
  simp only [Kheap.headers, freeEq]
  cases block.free <;> rfl

theorem hasHeaders (holds : heap.Holds start blocks) : heap.HasHeaders start (start + span blocks)
    (fun node => node ∈ blockNodes start blocks) heap.headers where
  separate := holds.separate
  mapped := holds.mapped
  inside _ mem := blockNodes_bounds mem
  apart node mem other otherMem before := by
    have pairs := blockNodes_apart start blocks
    rcases List.append_of_mem (show node ∈ blockNodes start blocks from mem) with
      ⟨front, back, split⟩
    have inList : other ∈ blockNodes start blocks := otherMem
    rw [split, List.pairwise_append, List.pairwise_cons] at pairs
    rw [split, List.mem_append, List.mem_cons] at inList
    rcases inList with inFront | rfl | inBack
    · have apart := pairs.2.2 other inFront node (by simp)
      omega
    · omega
    · exact pairs.2.1.1 other inBack
  size _ _ := rfl
  free node mem := by
    rcases List.mem_map.mp (show node ∈ blockNodes start blocks from mem) with
      ⟨placed, isPlaced, rfl⟩
    rcases holds.chain.nodes.2.1 placed isPlaced with ⟨_, freeEq⟩
    simp only [Kheap.headers, freeEq]
    cases placed.2.free <;> rfl
  next _ _ := rfl

/-- The blocks in use, seen at their headers. -/
theorem mem_used_iff (holds : heap.Holds start blocks) {payload : ℕ} :
    (payload, size) ∈ usedBlocks start blocks ↔ ∃ node ∈ blockNodes start blocks,
      (heap.headers node).free = false ∧ (heap.headers node).size = size ∧
        payload = node + sizeofBlockHeader := by
  rw [mem_usedBlocks_iff]
  constructor
  · rintro ⟨node, mem, rfl⟩
    rcases holds.header_placed mem with ⟨sizeEq, freeEq⟩
    exact ⟨node, List.mem_map_of_mem (f := Prod.fst) mem, freeEq, sizeEq, rfl⟩
  · rintro ⟨node, mem, used, rfl, rfl⟩
    rcases List.mem_map.mp mem with ⟨placed, isPlaced, isNode⟩
    rcases placed with ⟨address, block⟩
    dsimp only at isNode
    subst isNode
    rcases holds.header_placed isPlaced with ⟨sizeEq, freeEq⟩
    refine ⟨address, ?_, rfl⟩
    rw [sizeEq, ← used, freeEq]
    exact isPlaced

/-- The chain in memory is determined by its headers. -/
theorem nodes_unique (holds : heap.Holds start blocks)
    (has : heap.HasHeaders start stop known headers)
    (linked : Linked headers.nextOf heap.freeList nodes) (members : ∀ node ∈ nodes, node ∈ known) :
    blockNodes start blocks = nodes ∧ span blocks = headers.extent nodes := by
  have sameNext : Linked heap.headers.nextOf heap.freeList nodes := by
    apply linked.congr
    intro node mem
    rw [Headers.nextOf, Headers.nextOf, has.headers_eq (members node mem)]
  have same := holds.linked.unique sameNext
  refine ⟨same, ?_⟩
  have extentEq : heap.headers.extent (blockNodes start blocks) = span blocks := by
    have placed : ∀ placed ∈ placedBlocks start blocks, (heap.headers placed.1).size =
        placed.2.size :=
      fun placed mem => (holds.header_placed mem).1
    clear same sameNext linked members has holds
    generalize heap.headers = headers at placed
    induction blocks generalizing start with
    | nil => rfl
    | cons block blocks ih =>
        rw [blockNodes_cons, Headers.extent_cons, span,
          placed (start, block) (by simp [placedBlocks]),
          ih (fun other mem => placed other (by simp [placedBlocks, mem]))]
  rw [← extentEq, same]
  exact Headers.extent_congr (fun node mem => by rw [has.headers_eq (members node mem)])

end Holds

/-- Headers whose sizes fit their links are a chain of blocks. -/
theorem HasHeaders.chain (has : heap.HasHeaders start stop known headers) {address : ℕ}
    (linked : Linked headers.nextOf (some address) (address :: nodes))
    (members : ∀ node ∈ address :: nodes, node ∈ known)
    (sized : ∀ node ∈ address :: nodes,
      node + sizeofBlockHeader + (headers node).size = headers.behind stop node) :
    Chain heap.view (some address) address ((address :: nodes).map headers.block) none ∧
      blockNodes address ((address :: nodes).map headers.block) = address :: nodes ∧
      address + span ((address :: nodes).map headers.block) = stop := by
  induction nodes generalizing address with
  | nil =>
      have mem := members address (by simp)
      have link : (headers address).next = none := linked.2
      have size := sized address (by simp)
      rw [Headers.behind, link, Option.getD_none] at size
      refine ⟨⟨rfl, has.size address mem, has.free address mem, ?_⟩, rfl, ?_⟩
      · exact (has.next address mem).trans link
      · simp only [List.map_cons, List.map_nil, span, Headers.block]
        omega
  | cons next nodes ih =>
      have mem := members address (by simp)
      have link : (headers address).next = some next := linked.2.1
      have size := sized address (by simp)
      rw [Headers.behind_of_next link] at size
      have tail : Linked headers.nextOf (some next) (next :: nodes) := by
        rw [← link]
        exact linked.2
      rcases ih tail (fun node isMember => members node (List.mem_cons_of_mem _ isMember))
        (fun node isMember => sized node (List.mem_cons_of_mem _ isMember)) with
          ⟨chain, nodesEq, spanEq⟩
      refine ⟨⟨rfl, has.size address mem, has.free address mem, ?_⟩, ?_, ?_⟩
      · rw [has.next address mem, link]
        simp only [Headers.block, size]
        exact chain
      · rw [List.map_cons, blockNodes_cons]
        simp only [Headers.block, size]
        rw [nodesEq]
      · rw [List.map_cons, span]
        simp only [Headers.block] at spanEq ⊢
        omega

theorem HasHeaders.holds (has : heap.HasHeaders start stop known headers) (positive : 0 < start)
    (bounded : stop ≤ 2 ^ 64) (isHead : heap.freeList = some start)
    (linked : Linked headers.nextOf heap.freeList nodes) (members : ∀ node ∈ nodes, node ∈ known)
    (sized : ∀ node ∈ nodes,
      node + sizeofBlockHeader + (headers node).size = headers.behind stop node) :
    heap.Holds start (nodes.map headers.block) ∧ blockNodes start (nodes.map headers.block) =
      nodes ∧
      start + span (nodes.map headers.block) = stop := by
  cases nodes with
  | nil =>
      rw [isHead] at linked
      cases linked
  | cons first nodes =>
      have isFirst := linked.1
      rw [isHead, Option.some.injEq] at isFirst
      subst isFirst
      rw [isHead] at linked
      rcases has.chain linked members sized with ⟨chain, nodesEq, spanEq⟩
      refine ⟨⟨has.separate, ?_, ?_, positive, ?_⟩, nodesEq, spanEq⟩
      · rw [spanEq]
        exact has.mapped
      · rw [isHead]
        exact chain
      · rw [spanEq]
        exact bounded

/-! ## Consistent chains -/

/-- The chain from `free_list` leads to the listed headers, which tile the heap up to its end. -/
structure Chained (heap : Kheap) (stop : ℕ) (nodes : List ℕ) (headers : Headers) : Prop where
  has : heap.HasHeaders heapStart stop (fun node => node ∈ nodes) headers
  isHead : heap.freeList = some heapStart
  linked : Linked headers.nextOf heap.freeList nodes
  sized : Sized stop nodes headers
  bounded : stop ≤ 2 ^ 64

theorem Holds.chained (holds : heap.Holds heapStart blocks) (nonempty : blocks ≠ []) :
    heap.Chained (heapStart + span blocks) (blockNodes heapStart blocks) heap.headers where
  has := holds.hasHeaders
  isHead := by
    have chain := holds.chain
    cases blocks with
    | nil => exact absurd rfl nonempty
    | cons block blocks => exact chain.1
  linked := holds.linked
  sized := holds.sized
  bounded := holds.bounded

namespace Chained

variable {pointers : List ℕ}

/-- The blocks of a consistent chain. -/
theorem holds (chained : heap.Chained stop nodes headers) :
    heap.Holds heapStart (nodes.map headers.block) ∧
      blockNodes heapStart (nodes.map headers.block) = nodes ∧
      heapStart + span (nodes.map headers.block) = stop :=
  chained.has.holds (by decide) chained.bounded chained.isHead chained.linked (fun _ mem => mem)
    chained.sized

theorem sorted (chained : heap.Chained stop nodes headers) : nodes.Pairwise (· < ·) := by
  rw [← chained.holds.2.1]
  exact blockNodes_sorted heapStart _

theorem below (chained : heap.Chained stop nodes headers) : ∀ node ∈ nodes, node < stop := by
  intro node mem
  have inside := chained.has.inside node mem
  simp only [sizeofBlockHeader] at inside
  omega

theorem shaped (chained : heap.Chained stop nodes headers) :
    Shaped heap.freeList stop nodes headers nodes :=
  .whole chained.linked chained.sorted chained.below

theorem extent (chained : heap.Chained stop nodes headers) :
    heapStart + headers.extent nodes = stop := by
  rcases chained.holds with ⟨holds, _, stopEq⟩
  rw [← (holds.nodes_unique chained.has chained.linked (fun _ mem => mem)).2, stopEq]

theorem mem_used_iff (chained : heap.Chained stop nodes headers) {payload : ℕ} :
    (payload, size) ∈ usedBlocks heapStart (nodes.map headers.block) ↔ ∃ node ∈ nodes,
      (headers node).free = false ∧ (headers node).size = size ∧
        payload = node + sizeofBlockHeader := by
  rcases chained.holds with ⟨holds, nodesEq, _⟩
  rw [holds.mem_used_iff, nodesEq]
  constructor
  · rintro ⟨node, mem, used, sizeEq, payloadEq⟩
    rw [chained.has.headers_eq mem] at used sizeEq
    exact ⟨node, mem, used, sizeEq, payloadEq⟩
  · rintro ⟨node, mem, used, sizeEq, payloadEq⟩
    refine ⟨node, mem, ?_, ?_, payloadEq⟩
    · rw [chained.has.headers_eq mem, used]
    · rw [chained.has.headers_eq mem, sizeEq]

/-- The heap ends behind every block. -/
theorem behind_le (chained : heap.Chained stop nodes headers) (mem : node ∈ nodes) :
    headers.behind stop node ≤ stop := by
  unfold Headers.behind
  cases link : (headers node).next with
  | none => exact Nat.le_refl stop
  | some next => exact Nat.le_of_lt (chained.below next (chained.shaped.target node mem next link))

/-- Writing into the payload of a block changes no header. -/
theorem store_payload {mid : Kheap} {cell word : ℕ} (chained : heap.Chained stop nodes headers)
    (mem : node ∈ nodes) (lower : node + sizeofBlockHeader ≤ cell)
    (upper : cell < node + sizeofBlockHeader + (headers node).size)
    (stored : heap.store cell word = some mid) :
    mid.Chained stop nodes headers ∧ heap.SameMaps mid ∧ mid.view = heap.view.store cell word := by
  have inside := chained.has.inside node mem
  have size := chained.sized node mem
  have ends := chained.behind_le mem
  rcases store_spec chained.has.separate chained.has.mapped (show heapStart ≤ cell by omega)
      (by omega) word with ⟨after, storedAfter, viewEq, same, _, _⟩
  rw [stored, Option.some.injEq] at storedAfter
  subst storedAfter
  refine ⟨⟨chained.has.congr same ?_, ?_, ?_, chained.sized, chained.bounded⟩, same, viewEq⟩
  · intro other otherMem address atLeast below
    rw [viewEq, Cells.store_of_ne]
    rcases Nat.lt_trichotomy other node with before | here | behind
    · have apart := chained.has.apart other otherMem node mem before
      omega
    · omega
    · rcases chained.shaped.clear node mem other otherMem with low | high
      · omega
      · omega
  · rw [same.freeList, chained.isHead]
  · rw [same.freeList]
    exact chained.linked

/-- Complete calls of `kfree` keep a chain consistent, and do not touch the headers it leaves. -/
theorem freed (chained : heap.Chained stop nodes headers) (distinct : pointers.Nodup)
    (inUse : ∀ pointer ∈ pointers, ∃ node ∈ nodes, (headers node).free = false ∧
      pointer = node + sizeofBlockHeader) :
    ∃ after last nodes', (∀ fuel, nodes.length < fuel → kfreeAll fuel heap pointers = some after) ∧
      heap.SameMaps after ∧ heap.SameOutside after (fun node => node ∈ nodes) ∧
      after.HasHeaders heapStart stop (fun node => node ∈ nodes) last ∧
      Freed headers nodes pointers last nodes' ∧ Shaped heap.freeList stop nodes last nodes' ∧
      Sized stop nodes last ∧ after.Chained stop nodes' last := by
  have small : headers.extent nodes < 2 ^ 64 := by
    have total := chained.extent
    have bounded := chained.bounded
    simp only [heapStart] at total
    omega
  rcases chained.has.kfreeAll_freed chained.bounded pointers _ _ _ (fun _ mem => mem) chained.linked
    small
    distinct inUse with ⟨after, last, nodes', frees, same, outside, has, freed⟩
  have shaped := chained.shaped.freed freed
  have sized := chained.shaped.sized chained.sized freed
  refine ⟨after, last, nodes', frees, same, outside, has, freed, shaped, sized,
    has.mono (fun node mem => shaped.sublist.subset mem), ?_, ?_, ?_, chained.bounded⟩
  · rw [same.freeList, chained.isHead]
  · rw [same.freeList]
    exact freed.linked chained.linked
  · exact fun node mem => sized node (shaped.sublist.subset mem)

end Chained

end Kheap

end Goshkik
