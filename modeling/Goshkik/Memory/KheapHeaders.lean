import Mathlib.Data.List.Chain
import Goshkik.Lib.Linked
import Goshkik.Memory.KheapAccess
import Goshkik.Memory.KheapChain

/-!
# The headers behind a chain

An interrupt can leave headers in memory that no longer belong to the chain, and a chain whose
sizes do not fit its links.  `Headers` gives the fields of every header, whether the chain leads to
it or not, and `Merges` is what the merging loop does to the headers and to the list of the chain:
it takes the first two free neighbours together, as long as there are any.
-/

namespace Goshkik

/-- The fields of a header. -/
structure Header where
  size : ℕ
  free : Bool
  next : Option ℕ

abbrev Headers := ℕ → Header

namespace Headers

variable (headers : Headers)

def setFree (node : ℕ) (free : Bool) : Headers :=
  Function.update headers node { headers node with free := free }

/-- A header gets a size and a link. -/
def resize (node size : ℕ) (next : Option ℕ) : Headers :=
  Function.update headers node ⟨size, (headers node).free, next⟩

/-- A block is taken together with another one. -/
def absorb (current next : ℕ) : Headers :=
  headers.resize current ((headers current).size + (sizeofBlockHeader + (headers next).size))
    (headers next).next

/-- The bytes that the listed headers claim. -/
def extent (nodes : List ℕ) : ℕ :=
  (nodes.map (fun node => sizeofBlockHeader + (headers node).size)).sum

end Headers

/-! ## Headers in memory -/

namespace Kheap

/-- The headers that a heap has at some addresses, which are apart from each other and mapped. -/
structure HasHeaders (heap : Kheap) (start stop : ℕ) (nodes : Set ℕ) (headers : Headers) :
    Prop where
  separate : heap.Separate
  mapped : heap.Mapped start stop
  inside : ∀ node ∈ nodes, start ≤ node ∧ node + sizeofBlockHeader ≤ stop
  apart : ∀ node ∈ nodes, ∀ other ∈ nodes, node < other → node + sizeofBlockHeader ≤ other
  size : ∀ node ∈ nodes, heap.view (blockSizeField node) = (headers node).size
  free : ∀ node ∈ nodes, heap.view (blockFreeField node) = (headers node).free.toNat
  next : ∀ node ∈ nodes, heap.view.pointerAt (blockNextField node) = (headers node).next

/-- The cells outside of the listed headers are the same. -/
def SameOutside (heap after : Kheap) (nodes : Set ℕ) : Prop :=
  ∀ cell, (∀ node ∈ nodes, cell < node ∨ node + sizeofBlockHeader ≤ cell) →
    after.view cell = heap.view cell

theorem SameOutside.refl (heap : Kheap) (nodes : Set ℕ) : heap.SameOutside heap nodes :=
  fun _ _ => rfl

theorem SameOutside.trans {heap middle after : Kheap} {nodes : Set ℕ}
    (first : heap.SameOutside middle nodes) (second : middle.SameOutside after nodes) :
    heap.SameOutside after nodes :=
  fun cell outside => (second cell outside).trans (first cell outside)

namespace HasHeaders

variable {heap after : Kheap} {start stop node next : ℕ} {nodes others : Set ℕ} {headers : Headers}

theorem mono (has : heap.HasHeaders start stop nodes headers) (sub : others ⊆ nodes) :
    heap.HasHeaders start stop others headers where
  separate := has.separate
  mapped := has.mapped
  inside node mem := has.inside node (sub mem)
  apart node mem other otherMem := has.apart node (sub mem) other (sub otherMem)
  size node mem := has.size node (sub mem)
  free node mem := has.free node (sub mem)
  next node mem := has.next node (sub mem)

/-- Writing elsewhere keeps the headers. -/
theorem congr (has : heap.HasHeaders start stop nodes headers) (same : heap.SameMaps after)
    (agree : ∀ node ∈ nodes, ∀ cell, node ≤ cell → cell < node + sizeofBlockHeader →
      after.view cell = heap.view cell) :
    after.HasHeaders start stop nodes headers where
  separate := same.separate has.separate
  mapped address lower upper := by
    rw [same.pages]
    exact has.mapped address lower upper
  inside := has.inside
  apart := has.apart
  size node mem := by
    rw [agree node mem _ (by simp [blockSizeField]) (by simp [blockSizeField, sizeofBlockHeader])]
    exact has.size node mem
  free node mem := by
    rw [agree node mem _ (by simp [blockFreeField]) (by simp [blockFreeField, sizeofBlockHeader])]
    exact has.free node mem
  next node mem := by
    rw [Cells.pointerAt_congr (agree node mem _ (by simp [blockNextField])
      (by simp [blockNextField, sizeofBlockHeader]))]
    exact has.next node mem

/-- The headers of some other record that agrees with this one. -/
theorem congrHeaders {headers' : Headers} (has : heap.HasHeaders start stop nodes headers)
    (agree : ∀ node ∈ nodes, headers' node = headers node) :
    heap.HasHeaders start stop nodes headers' where
  separate := has.separate
  mapped := has.mapped
  inside := has.inside
  apart := has.apart
  size node mem := by rw [agree node mem, has.size node mem]
  free node mem := by rw [agree node mem, has.free node mem]
  next node mem := by rw [agree node mem, has.next node mem]

theorem load_size (has : heap.HasHeaders start stop nodes headers) (mem : node ∈ nodes) :
    heap.load (blockSizeField node) = some (headers node).size := by
  have inside := has.inside node mem
  rw [← has.size node mem]
  apply load_spec has.mapped
  · simp only [blockSizeField]
    omega
  · simp only [blockSizeField, sizeofBlockHeader] at inside ⊢
    omega

theorem load_free (has : heap.HasHeaders start stop nodes headers) (mem : node ∈ nodes) :
    heap.load (blockFreeField node) = some (headers node).free.toNat := by
  have inside := has.inside node mem
  rw [← has.free node mem]
  apply load_spec has.mapped
  · simp only [blockFreeField]
    omega
  · simp only [blockFreeField, sizeofBlockHeader] at inside ⊢
    omega

theorem load_next (has : heap.HasHeaders start stop nodes headers) (mem : node ∈ nodes) :
    heap.load (blockNextField node) = some (Cells.pointerWord (headers node).next) := by
  have inside := has.inside node mem
  rw [← has.next node mem, Cells.pointerWord_pointerAt]
  apply load_spec has.mapped
  · simp only [blockNextField]
    omega
  · simp only [blockNextField, sizeofBlockHeader] at inside ⊢
    omega

theorem loadPointer_next (has : heap.HasHeaders start stop nodes headers) (mem : node ∈ nodes) :
    heap.loadPointer (blockNextField node) = some (headers node).next := by
  have inside := has.inside node mem
  rw [← has.next node mem]
  apply loadPointer_eq
  apply has.mapped
  · simp only [blockNextField]
    omega
  · simp only [blockNextField, sizeofBlockHeader] at inside ⊢
    omega

/-- A store into the header of a node changes no other header. -/
theorem store (has : heap.HasHeaders start stop nodes headers) (mem : node ∈ nodes)
    {address word : ℕ}
    (lower : node ≤ address) (upper : address < node + sizeofBlockHeader) {header : Header}
    (size : heap.view.store address word (blockSizeField node) = header.size)
    (free : heap.view.store address word (blockFreeField node) = header.free.toNat)
    (next : (heap.view.store address word).pointerAt (blockNextField node) = header.next) :
    ∃ after, heap.store address word = some after ∧ after.view = heap.view.store address word ∧
      heap.SameMaps after ∧
        after.HasHeaders start stop nodes (Function.update headers node header) := by
  have inside := has.inside node mem
  rcases store_spec has.separate has.mapped (show start ≤ address by omega) (by omega) word with
    ⟨after, stored, viewEq, same, separate, mapped⟩
  have elsewhere : ∀ other ∈ nodes, other ≠ node → ∀ cell, other ≤ cell →
      cell < other + sizeofBlockHeader → after.view cell = heap.view cell := by
    intro other otherMem different cell atLeast below
    rw [viewEq, Cells.store_of_ne]
    rcases Nat.lt_or_gt_of_ne different with before | behind
    · have gap := has.apart other otherMem node mem before
      omega
    · have gap := has.apart node mem other otherMem behind
      omega
  refine ⟨after, stored, viewEq, same, separate, mapped, has.inside, has.apart, ?_, ?_, ?_⟩
  · intro other otherMem
    by_cases here : other = node
    · rw [here, Function.update_self, viewEq, size]
    · rw [Function.update_of_ne here, elsewhere other otherMem here _ (by simp [blockSizeField])
        (by simp [blockSizeField, sizeofBlockHeader]), has.size other otherMem]
  · intro other otherMem
    by_cases here : other = node
    · rw [here, Function.update_self, viewEq, free]
    · rw [Function.update_of_ne here, elsewhere other otherMem here _ (by simp [blockFreeField])
        (by simp [blockFreeField, sizeofBlockHeader]), has.free other otherMem]
  · intro other otherMem
    by_cases here : other = node
    · rw [here, Function.update_self, viewEq, next]
    · rw [Function.update_of_ne here, Cells.pointerAt_congr (elsewhere other otherMem here _
        (by simp [blockNextField]) (by simp [blockNextField, sizeofBlockHeader])),
        has.next other otherMem]

theorem store_free (has : heap.HasHeaders start stop nodes headers) (mem : node ∈ nodes)
    (free : Bool) :
    ∃ after, heap.store (blockFreeField node) free.toNat = some after ∧
      after.view = heap.view.store (blockFreeField node) free.toNat ∧ heap.SameMaps after ∧
      after.HasHeaders start stop nodes (headers.setFree node free) := by
  apply has.store mem (by simp [blockFreeField]) (by simp [blockFreeField, sizeofBlockHeader])
  · rw [Cells.store_of_ne (by simp [blockSizeField, blockFreeField]), has.size node mem]
  · rw [Cells.store_self]
  · rw [Cells.pointerAt_congr (Cells.store_of_ne (by simp [blockNextField, blockFreeField])),
      has.next node mem]

theorem store_size (has : heap.HasHeaders start stop nodes headers) (mem : node ∈ nodes)
    (size : ℕ) :
    ∃ after, heap.store (blockSizeField node) size = some after ∧
      after.view = heap.view.store (blockSizeField node) size ∧ heap.SameMaps after ∧
      after.HasHeaders start stop nodes (headers.resize node size (headers node).next) := by
  apply has.store mem (by simp [blockSizeField]) (by simp [blockSizeField, sizeofBlockHeader])
  · rw [Cells.store_self]
  · rw [Cells.store_of_ne (by simp [blockFreeField, blockSizeField]), has.free node mem]
  · rw [Cells.pointerAt_congr (Cells.store_of_ne (by simp [blockNextField, blockSizeField])),
      has.next node mem]

theorem store_next (has : heap.HasHeaders start stop nodes headers) (mem : node ∈ nodes)
    {link : Option ℕ} (nonzero : link ≠ some 0) :
    ∃ after, heap.store (blockNextField node) (Cells.pointerWord link) = some after ∧
      after.view = heap.view.store (blockNextField node) (Cells.pointerWord link) ∧
      heap.SameMaps after ∧
      after.HasHeaders start stop nodes (headers.resize node (headers node).size link) := by
  apply has.store mem (by simp [blockNextField]) (by simp [blockNextField, sizeofBlockHeader])
  · rw [Cells.store_of_ne (by simp [blockSizeField, blockNextField]), has.size node mem]
  · rw [Cells.store_of_ne (by simp [blockFreeField, blockNextField]), has.free node mem]
  · rw [Cells.pointerAt_store_pointerWord nonzero]

theorem next_ne_zero (has : heap.HasHeaders start stop nodes headers) (mem : node ∈ nodes) :
    (headers node).next ≠ some 0 := by
  rw [← has.next node mem]
  exact Cells.pointerAt_ne_zero

theorem sameOutside_store {address word : ℕ} (viewEq : after.view = heap.view.store address word)
    (mem : node ∈ nodes) (lower : node ≤ address) (upper : address < node + sizeofBlockHeader) :
    heap.SameOutside after nodes := by
  intro cell outside
  rw [viewEq, Cells.store_of_ne]
  have apart := outside node mem
  omega

/-- One merge. -/
theorem absorbNext (has : heap.HasHeaders start stop nodes headers) (mem : node ∈ nodes)
    (nextMem : next ∈ nodes)
    (small : (headers node).size + (sizeofBlockHeader + (headers next).size) < 2 ^ 64)
    (different : next ≠ node) :
    ∃ after, absorbNext heap node next = some after ∧ heap.SameMaps after ∧
      heap.SameOutside after nodes ∧
        after.HasHeaders start stop nodes (headers.absorb node next) := by
  rcases has.store_size mem ((headers node).size + (sizeofBlockHeader + (headers next).size)) with
    ⟨first, stored, firstView, firstSame, firstHas⟩
  have nextHeader : headers.resize node
      ((headers node).size + (sizeofBlockHeader + (headers next).size)) (headers node).next next =
        headers next := Function.update_of_ne different _ _
  have loadLink := firstHas.load_next nextMem
  rw [nextHeader] at loadLink
  rcases firstHas.store_next mem (has.next_ne_zero nextMem) with
    ⟨after, linked, afterView, afterSame, afterHas⟩
  refine ⟨after, ?_, firstSame.trans afterSame, ?_, ?_⟩
  · simp only [Goshkik.absorbNext, has.load_size mem, has.load_size nextMem, Option.bind_eq_bind,
      Option.bind_some, Nat.mod_eq_of_lt small, stored, loadLink, linked]
  · refine SameOutside.trans (sameOutside_store firstView mem ?_ ?_)
      (sameOutside_store afterView mem ?_ ?_)
    · simp [blockSizeField]
    · simp [blockSizeField, sizeofBlockHeader]
    · simp [blockNextField]
    · simp [blockNextField, sizeofBlockHeader]
  · have twice : (headers.resize node
      ((headers node).size + (sizeofBlockHeader + (headers next).size))
        (headers node).next).resize node (headers.resize node
          ((headers node).size + (sizeofBlockHeader + (headers next).size)) (headers node).next
            node).size
          (headers next).next = headers.absorb node next := by
      simp [Headers.resize, Headers.absorb]
    rwa [twice] at afterHas

end HasHeaders

end Kheap

/-! ## Merging -/

namespace Headers

variable {headers : Headers} {node next other : ℕ} {nodes front back : List ℕ}

def nextOf (headers : Headers) (node : ℕ) : Option ℕ := (headers node).next

/-- No two neighbours are free. -/
def Settled (headers : Headers) (nodes : List ℕ) : Prop :=
  nodes.IsChain (fun node next => ¬((headers node).free = true ∧ (headers next).free = true))

theorem setFree_self (headers : Headers) (node : ℕ) (free : Bool) :
    headers.setFree node free node = { headers node with free := free } := Function.update_self ..

theorem setFree_of_ne (different : other ≠ node) (free : Bool) :
    headers.setFree node free other = headers other := Function.update_of_ne different ..

theorem setFree_next (headers : Headers) (node : ℕ) (free : Bool) (other : ℕ) :
    (headers.setFree node free other).next = (headers other).next := by
  by_cases same : other = node
  · rw [same, setFree_self]
  · rw [setFree_of_ne same]

theorem setFree_size (headers : Headers) (node : ℕ) (free : Bool) (other : ℕ) :
    (headers.setFree node free other).size = (headers other).size := by
  by_cases same : other = node
  · rw [same, setFree_self]
  · rw [setFree_of_ne same]

theorem absorb_self (headers : Headers) (node next : ℕ) : headers.absorb node next node =
    ⟨(headers node).size + (sizeofBlockHeader + (headers next).size), (headers node).free,
      (headers next).next⟩ := Function.update_self ..

theorem absorb_of_ne (different : other ≠ node) (next : ℕ) :
    headers.absorb node next other = headers other := Function.update_of_ne different ..

theorem absorb_free (headers : Headers) (node next other : ℕ) :
    (headers.absorb node next other).free = (headers other).free := by
  by_cases same : other = node
  · rw [same, absorb_self]
  · rw [absorb_of_ne same]

theorem extent_append (headers : Headers) (front back : List ℕ) :
    headers.extent (front ++ back) = headers.extent front + headers.extent back := by
  simp [extent]

theorem extent_cons (headers : Headers) (node : ℕ) (nodes : List ℕ) :
    headers.extent (node :: nodes) = sizeofBlockHeader + (headers node).size + headers.extent
      nodes := by
  simp [extent]

theorem extent_congr {headers' : Headers}
    (agree : ∀ node ∈ nodes, (headers' node).size = (headers node).size) :
    headers'.extent nodes = headers.extent nodes := by
  unfold extent
  congr 1
  apply List.map_congr_left
  intro node mem
  rw [agree node mem]

theorem Settled.congr {headers' : Headers} (settled : headers.Settled nodes)
    (agree : ∀ node ∈ nodes, (headers' node).free = (headers node).free) :
    headers'.Settled nodes := by
  unfold Settled at settled ⊢
  induction nodes with
  | nil => exact .nil
  | cons node nodes ih =>
      cases nodes with
      | nil => exact .singleton node
      | cons next nodes =>
          rw [List.isChain_cons_cons] at settled ⊢
          refine ⟨?_, ih settled.2 (fun other mem => agree other (List.mem_cons_of_mem _ mem))⟩
          rw [agree node (by simp), agree next (by simp)]
          exact settled.1

/-- The list without the absorbed block is linked. -/
theorem linked_absorb {head : Option ℕ}
    (linked : Linked headers.nextOf head (front ++ node :: next :: back)) :
    Linked (headers.absorb node next).nextOf head (front ++ node :: back) := by
  have distinct := linked.nodup
  apply linked.unlink
  · rw [nextOf, absorb_self, nextOf]
  · intro other mem
    have different : other ≠ node := by
      rintro rfl
      simp only [List.nodup_append, List.nodup_cons, List.mem_cons] at distinct
      rcases List.mem_append.mp mem with inFront | inBack
      · exact distinct.2.2 other inFront other (.inl rfl) rfl
      · exact distinct.2.1.1 (.inr inBack)
    rw [nextOf, nextOf, absorb_of_ne different]

/-- Merging does not change the number of bytes claimed. -/
theorem extent_absorb (distinct : (front ++ node :: next :: back).Nodup) :
    (headers.absorb node next).extent (front ++ node :: back) =
      headers.extent (front ++ node :: next :: back) := by
  have different : ∀ other ∈ front ++ back, other ≠ node := by
    rintro other mem rfl
    simp only [List.nodup_append, List.nodup_cons, List.mem_cons] at distinct
    rcases List.mem_append.mp mem with inFront | inBack
    · exact distinct.2.2 other inFront other (.inl rfl) rfl
    · exact distinct.2.1.1 (.inr inBack)
  have frontSame : (headers.absorb node next).extent front = headers.extent front :=
    extent_congr (fun other mem => by rw [absorb_of_ne (different other (by simp [mem]))])
  have backSame : (headers.absorb node next).extent back = headers.extent back :=
    extent_congr (fun other mem => by rw [absorb_of_ne (different other (by simp [mem]))])
  simp only [extent_append, extent_cons, frontSame, backSame, absorb_self]
  omega

end Headers

/-- What the merging loop does: the first two neighbours that are both free become one block. -/
inductive Merges : Headers → List ℕ → Headers → List ℕ → Prop where
  | done {headers : Headers} {nodes : List ℕ} (settled : headers.Settled nodes) :
      Merges headers nodes headers nodes
  | absorb {headers last : Headers} {front back nodes : List ℕ} {node next : ℕ}
      (settled : headers.Settled (front ++ [node])) (free : (headers node).free = true)
      (nextFree : (headers next).free = true)
      (rest : Merges (headers.absorb node next) (front ++ node :: back) last nodes) :
      Merges headers (front ++ node :: next :: back) last nodes

namespace Merges

variable {headers last : Headers} {nodes nodes' : List ℕ}

/-- What every merge keeps. -/
theorem invariant {motive : Headers → List ℕ → Prop} (merges : Merges headers nodes last nodes')
    (initially : motive headers nodes)
    (preserved : ∀ (headers : Headers) (front : List ℕ) (node next : ℕ) (back : List ℕ),
      headers.Settled (front ++ [node]) → (headers node).free = true → (headers next).free = true →
        motive headers (front ++ node :: next :: back) →
          motive (headers.absorb node next) (front ++ node :: back)) : motive last nodes' := by
  induction merges with
  | done settled => exact initially
  | absorb settled free nextFree rest ih =>
      exact ih (preserved _ _ _ _ _ settled free nextFree initially)

theorem settled (merges : Merges headers nodes last nodes') : last.Settled nodes' := by
  induction merges with
  | done settled => exact settled
  | absorb settled free nextFree rest ih => exact ih

theorem linked {head : Option ℕ} (merges : Merges headers nodes last nodes')
    (linked : Linked headers.nextOf head nodes) : Linked last.nextOf head nodes' :=
  merges.invariant (motive := fun middle reached => Linked middle.nextOf head reached) linked
    (fun _ _ _ _ _ _ _ _ linked => Headers.linked_absorb linked)

theorem extent {head : Option ℕ} (merges : Merges headers nodes last nodes')
    (linked : Linked headers.nextOf head nodes) : last.extent nodes' = headers.extent nodes := by
  have both : Linked last.nextOf head nodes' ∧ last.extent nodes' = headers.extent nodes := by
    apply merges.invariant (motive := fun middle reached =>
      Linked middle.nextOf head reached ∧ middle.extent reached = headers.extent nodes) ⟨linked,
        rfl⟩
    rintro middle front node next back _ _ _ ⟨middleLinked, same⟩
    exact ⟨Headers.linked_absorb middleLinked,
      (Headers.extent_absorb middleLinked.nodup).trans same⟩
  exact both.2

theorem free (merges : Merges headers nodes last nodes') (node : ℕ) :
    (last node).free = (headers node).free :=
  merges.invariant (motive := fun middle _ => (middle node).free = (headers node).free) rfl
    (fun _ _ _ _ _ _ _ _ same => (Headers.absorb_free ..).trans same)

theorem sublist (merges : Merges headers nodes last nodes') : nodes'.Sublist nodes := by
  refine merges.invariant (motive := fun _ reached => reached.Sublist nodes) (List.Sublist.refl _)
    ?_
  intro middle front node next back _ _ _ sublist
  refine List.Sublist.trans ?_ sublist
  apply List.Sublist.append_left
  exact ((List.sublist_cons_self next back)).cons_cons node

/-- Blocks in use stay as they are. -/
theorem used (merges : Merges headers nodes last nodes') {node : ℕ} (mem : node ∈ nodes)
    (inUse : (headers node).free = false) : node ∈ nodes' ∧ last node = headers node := by
  apply merges.invariant (motive := fun middle reached => node ∈ reached ∧
    middle node = headers node)
    ⟨mem, rfl⟩
  rintro middle front current next back _ free nextFree ⟨isMember, same⟩
  have notCurrent : node ≠ current := by
    rintro rfl
    rw [same, inUse] at free
    cases free
  have notNext : node ≠ next := by
    rintro rfl
    rw [same, inUse] at nextFree
    cases nextFree
  refine ⟨?_, by rw [Headers.absorb_of_ne notCurrent, same]⟩
  simp only [List.mem_append, List.mem_cons] at isMember ⊢
  tauto

end Merges

/-! ## The merging loop -/

namespace Kheap.HasHeaders

variable {start stop : ℕ} {known : Set ℕ}

theorem mergeBlocks_merges (behind : List ℕ) :
    ∀ (heap : Kheap) (headers : Headers) (front : List ℕ) (node : ℕ),
      heap.HasHeaders start stop known headers → (∀ other ∈ node :: behind, other ∈ known) →
      Linked headers.nextOf (some node) (node :: behind) → headers.Settled (front ++ [node]) →
      headers.extent (node :: behind) < 2 ^ 64 →
      ∃ after last nodes, (∀ fuel, behind.length + 1 < fuel →
          mergeBlocks heap fuel (some node) = some after) ∧ heap.SameMaps after ∧
        heap.SameOutside after known ∧ after.HasHeaders start stop known last ∧
        Merges headers (front ++ node :: behind) last nodes := by
  induction behind with
  | nil =>
      intro heap headers front node has members linked settled _
      have mem := members node (by simp)
      have link : (headers node).next = none := linked.2
      refine ⟨heap, headers, front ++ [node], ?_, .refl heap, .refl heap known, has, .done settled⟩
      intro fuel enough
      obtain ⟨fuel, rfl⟩ : ∃ smaller, fuel = smaller + 2 := ⟨fuel - 2, by simp at enough; omega⟩
      simp [mergeBlocks, has.load_free mem, has.loadPointer_next mem, link]
  | cons next behind ih =>
      intro heap headers front node has members linked settled small
      have mem := members node (by simp)
      have nextMem := members next (by simp)
      have link : (headers node).next = some next := linked.2.1
      have distinct := linked.nodup
      have different : next ≠ node := by
        rintro rfl
        simp at distinct
      by_cases both : (headers node).free = true ∧ (headers next).free = true
      · have sum : (headers node).size + (sizeofBlockHeader + (headers next).size) < 2 ^ 64 := by
          rw [Headers.extent_cons, Headers.extent_cons] at small
          omega
        rcases has.absorbNext mem nextMem sum different with
          ⟨merged, absorbed, mergedSame, mergedOutside, mergedHas⟩
        have sameExtent : (headers.absorb node next).extent (node :: behind) =
            headers.extent (node :: next :: behind) :=
              @Headers.extent_absorb _ _ _ [] behind distinct
        rcases ih merged (headers.absorb node next) front node mergedHas
            (fun other isMember =>
              members other (by simp only [List.mem_cons] at isMember ⊢; tauto))
            (@Headers.linked_absorb _ _ _ [] behind _ linked)
            (settled.congr (fun other _ => Headers.absorb_free ..))
              (by rw [sameExtent]; exact small) with
          ⟨after, last, nodes, merges, same, outside, afterHas, result⟩
        refine ⟨after, last, nodes, ?_, mergedSame.trans same, mergedOutside.trans outside,
          afterHas,
          .absorb settled both.1 both.2 result⟩
        intro fuel enough
        obtain ⟨fuel, rfl⟩ : ∃ smaller, fuel = smaller + 1 := ⟨fuel - 1, by omega⟩
        have rest := merges fuel (by simpa using enough)
        simp [mergeBlocks, has.load_free mem, has.loadPointer_next mem, link, has.load_free nextMem,
          both, absorbed, rest]
      · have shifted : headers.Settled ((front ++ [node]) ++ [next]) := by
          unfold Headers.Settled at settled ⊢
          rw [List.append_assoc, List.singleton_append, List.isChain_append_cons_cons]
          exact ⟨settled, both, .singleton next⟩
        have tail : Linked headers.nextOf (some next) (next :: behind) := by
          rw [← link]
          exact linked.2
        have less : headers.extent (next :: behind) < 2 ^ 64 := by
          rw [Headers.extent_cons] at small
          omega
        rcases ih heap headers (front ++ [node]) next has
            (fun other isMember => members other (List.mem_cons_of_mem _ isMember)) tail shifted
              less with
          ⟨after, last, nodes, merges, same, outside, afterHas, result⟩
        rw [List.append_assoc] at result
        refine ⟨after, last, nodes, ?_, same, outside, afterHas, result⟩
        intro fuel enough
        obtain ⟨fuel, rfl⟩ : ∃ smaller, fuel = smaller + 1 := ⟨fuel - 1, by omega⟩
        have rest := merges fuel (by simpa using enough)
        by_cases used : (headers node).free = true
        · have nextUsed : (headers next).free = false := by simpa [used] using both
          simp [mergeBlocks, has.load_free mem, has.loadPointer_next mem, link,
            has.load_free nextMem, used, nextUsed, rest]
        · simp [mergeBlocks, has.load_free mem, has.loadPointer_next mem, link, used, rest]

/-- `kfree` of a block of the chain. -/
theorem kfree_merges {heap : Kheap} {headers : Headers} {nodes : List ℕ} {node : ℕ}
    (has : heap.HasHeaders start stop known headers) (members : ∀ other ∈ nodes, other ∈ known)
    (linked : Linked headers.nextOf heap.freeList nodes) (small : headers.extent nodes < 2 ^ 64)
    (bounded : stop ≤ 2 ^ 64) (mem : node ∈ nodes) :
    ∃ after last nodes', (∀ fuel, nodes.length < fuel →
        kfree fuel heap (some (node + sizeofBlockHeader)) = some after) ∧ heap.SameMaps after ∧
      heap.SameOutside after known ∧ after.HasHeaders start stop known last ∧
      Merges (headers.setFree node true) nodes last nodes' := by
  have inside := has.inside node (members node mem)
  have block : (node + sizeofBlockHeader + 2 ^ 64 - sizeofBlockHeader) % 2 ^ 64 = node := by
    simp only [sizeofBlockHeader] at inside ⊢
    omega
  rcases has.store_free (members node mem) true with
    ⟨marked, stored, markedView, markedSame, markedHas⟩
  rw [Bool.toNat_true] at stored
  cases nodes with
  | nil => cases mem
  | cons first behind =>
      have isFirst := linked.1
      have markedLinked :
          Linked (headers.setFree node true).nextOf (some first) (first :: behind) := by
        rw [← isFirst]
        exact linked.congr (fun other _ => Headers.setFree_next ..)
      have markedSmall : (headers.setFree node true).extent (first :: behind) < 2 ^ 64 := by
        rw [Headers.extent_congr (fun other _ => Headers.setFree_size ..)]
        exact small
      rcases mergeBlocks_merges behind marked (headers.setFree node true) [] first markedHas members
          markedLinked (.singleton first) markedSmall with
        ⟨after, last, nodes', merges, same, outside, afterHas, result⟩
      refine ⟨after, last, nodes', ?_, markedSame.trans same, ?_, afterHas, result⟩
      · intro fuel enough
        have merged := merges fuel enough
        simp only [kfree, kheapFree, block, stored, markedSame.freeList, isFirst,
          Option.bind_eq_bind, Option.bind_some, merged]
      · refine (sameOutside_store markedView (members node mem) ?_ ?_).trans outside
        · simp [blockFreeField]
        · simp [blockFreeField, sizeofBlockHeader]

end Kheap.HasHeaders

/-! ## Several calls -/

/-- What complete calls of `kfree` do, one after the other. -/
inductive Freed : Headers → List ℕ → List ℕ → Headers → List ℕ → Prop where
  | nil (headers : Headers) (nodes : List ℕ) : Freed headers nodes [] headers nodes
  | cons {headers middle last : Headers} {nodes reached nodes' : List ℕ} {node : ℕ}
      {pointers : List ℕ} (mem : node ∈ nodes)
      (merges : Merges (headers.setFree node true) nodes middle reached)
      (rest : Freed middle reached pointers last nodes') :
      Freed headers nodes ((node + sizeofBlockHeader) :: pointers) last nodes'

namespace Freed

variable {headers last : Headers} {nodes nodes' pointers : List ℕ}

/-- What marking a block and every merge keep. -/
theorem invariant {motive : Headers → List ℕ → Prop}
    (freed : Freed headers nodes pointers last nodes')
    (initially : motive headers nodes)
    (marked : ∀ (headers : Headers) (nodes : List ℕ) (node : ℕ), node ∈ nodes →
      motive headers nodes →
      motive (headers.setFree node true) nodes)
    (preserved : ∀ (headers : Headers) (front : List ℕ) (node next : ℕ) (back : List ℕ),
      headers.Settled (front ++ [node]) → (headers node).free = true → (headers next).free = true →
        motive headers (front ++ node :: next :: back) →
          motive (headers.absorb node next) (front ++ node :: back)) : motive last nodes' := by
  induction freed with
  | nil headers nodes => exact initially
  | cons mem merges rest ih =>
      exact ih (merges.invariant (marked _ _ _ mem initially) preserved)

theorem linked {head : Option ℕ} (freed : Freed headers nodes pointers last nodes')
    (linked : Linked headers.nextOf head nodes) : Linked last.nextOf head nodes' :=
  freed.invariant (motive := fun middle reached => Linked middle.nextOf head reached) linked
    (fun _ _ _ _ linked => linked.congr (fun _ _ => Headers.setFree_next ..))
    (fun _ _ _ _ _ _ _ _ linked => Headers.linked_absorb linked)

theorem extent {head : Option ℕ} (freed : Freed headers nodes pointers last nodes')
    (linked : Linked headers.nextOf head nodes) : last.extent nodes' = headers.extent nodes := by
  have both : Linked last.nextOf head nodes' ∧ last.extent nodes' = headers.extent nodes := by
    refine freed.invariant (motive := fun middle reached =>
      Linked middle.nextOf head reached ∧ middle.extent reached = headers.extent nodes) ⟨linked,
        rfl⟩ ?_ ?_
    · rintro middle reached node _ ⟨middleLinked, same⟩
      exact ⟨middleLinked.congr (fun _ _ => Headers.setFree_next ..),
        (Headers.extent_congr (fun _ _ => Headers.setFree_size ..)).trans same⟩
    · rintro middle front node next back _ _ _ ⟨middleLinked, same⟩
      exact ⟨Headers.linked_absorb middleLinked, (Headers.extent_absorb middleLinked.nodup).trans
        same⟩
  exact both.2

/-- After a call no two neighbours are free. -/
theorem settled (freed : Freed headers nodes pointers last nodes') (some : pointers ≠ []) :
    last.Settled nodes' := by
  induction freed with
  | nil headers nodes => exact absurd rfl some
  | cons mem merges rest ih =>
      cases rest with
      | nil => exact merges.settled
      | cons mem' merges' rest' => exact ih (by simp)

/-- The blocks that are free afterwards. -/
theorem free (freed : Freed headers nodes pointers last nodes') (node : ℕ) :
    (last node).free = true ↔ (headers node).free = true ∨ node + sizeofBlockHeader ∈ pointers := by
  induction freed with
  | nil headers nodes => simp
  | @cons headers middle last nodes reached nodes' freedNode pointers mem merges rest ih =>
      rw [ih, merges.free]
      by_cases same : node = freedNode
      · rw [same, Headers.setFree_self]
        simp
      · rw [Headers.setFree_of_ne same, List.mem_cons, Nat.add_right_cancel_iff]
        simp [same]

/-- Blocks that stay in use stay as they are. -/
theorem used (freed : Freed headers nodes pointers last nodes') {node : ℕ} (mem : node ∈ nodes)
    (inUse : (last node).free = false) : node ∈ nodes' ∧ last node = headers node := by
  induction freed with
  | nil headers nodes => exact ⟨mem, rfl⟩
  | @cons headers middle last nodes reached nodes' freedNode pointers isMember merges rest ih =>
      have stays : ¬ (last node).free = true := by simp [inUse]
      rw [rest.free] at stays
      have middleUsed : (middle node).free = false := by
        rw [← Bool.not_eq_true]
        exact fun free => stays (.inl free)
      rw [merges.free] at middleUsed
      have different : node ≠ freedNode := by
        rintro rfl
        rw [Headers.setFree_self] at middleUsed
        cases middleUsed
      rcases merges.used mem middleUsed with ⟨reachedMem, same⟩
      rcases ih reachedMem inUse with ⟨lastMem, lastSame⟩
      exact ⟨lastMem, by rw [lastSame, same, Headers.setFree_of_ne different]⟩

end Freed

/-- Complete calls of `kfree` with different blocks in use. -/
theorem Kheap.HasHeaders.kfreeAll_freed {start stop : ℕ} {known : Set ℕ} (bounded : stop ≤ 2 ^ 64)
    (pointers : List ℕ) : ∀ (heap : Kheap) (headers : Headers) (nodes : List ℕ),
      heap.HasHeaders start stop known headers → (∀ other ∈ nodes, other ∈ known) →
      Linked headers.nextOf heap.freeList nodes → headers.extent nodes < 2 ^ 64 → pointers.Nodup →
      (∀ pointer ∈ pointers, ∃ node ∈ nodes, (headers node).free = false ∧
        pointer = node + sizeofBlockHeader) →
      ∃ after last nodes',
        (∀ fuel, nodes.length < fuel → kfreeAll fuel heap pointers = some after) ∧
        heap.SameMaps after ∧ heap.SameOutside after known ∧
        after.HasHeaders start stop known last ∧ Freed headers nodes pointers last nodes' := by
  induction pointers with
  | nil =>
      intro heap headers nodes has _ _ _ _ _
      exact ⟨heap, headers, nodes, fun _ _ =>
        rfl, .refl heap, .refl heap known, has, .nil headers nodes⟩
  | cons pointer pointers ih =>
      intro heap headers nodes has members linked small distinct inUse
      rcases inUse pointer (by simp) with ⟨node, mem, _, rfl⟩
      rcases has.kfree_merges members linked small bounded mem with
        ⟨middle, between, reached, frees, middleSame, middleOutside, middleHas, merges⟩
      have markedLinked : Linked (headers.setFree node true).nextOf heap.freeList nodes :=
        linked.congr (fun _ _ => Headers.setFree_next ..)
      have middleLinked : Linked between.nextOf middle.freeList reached := by
        rw [middleSame.freeList]
        exact merges.linked markedLinked
      have middleSmall : between.extent reached < 2 ^ 64 := by
        rw [merges.extent markedLinked, Headers.extent_congr (fun _ _ => Headers.setFree_size ..)]
        exact small
      have middleUsed : ∀ other ∈ pointers, ∃ node ∈ reached, (between node).free = false ∧
          other = node + sizeofBlockHeader := by
        intro other otherMem
        rcases inUse other (List.mem_cons_of_mem _ otherMem) with
          ⟨second, secondMem, secondUsed, rfl⟩
        have different : second ≠ node := by
          rintro rfl
          exact (List.nodup_cons.mp distinct).1 otherMem
        have marked : (headers.setFree node true second).free = false := by
          rw [Headers.setFree_of_ne different, secondUsed]
        rcases merges.used secondMem marked with ⟨reachedMem, same⟩
        exact ⟨second, reachedMem, by rw [same, marked], rfl⟩
      rcases ih middle between reached middleHas
          (fun other isMember => members other (merges.sublist.subset isMember)) middleLinked
            middleSmall
          (List.nodup_cons.mp distinct).2 middleUsed with
        ⟨after, last, nodes', freesAll, same, outside, afterHas, freed⟩
      refine ⟨after, last, nodes', ?_, middleSame.trans same, middleOutside.trans outside, afterHas,
        .cons mem merges freed⟩
      intro fuel enough
      have shorter := merges.sublist.length_le
      rw [kfreeAll, frees fuel enough, Option.bind_some, freesAll fuel (by omega)]

end Goshkik
