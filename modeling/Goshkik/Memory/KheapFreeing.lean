import Goshkik.Memory.KheapMerging

/-!
# Where a call of kfree stands

What is known of memory and of the local variables at each access of a call of `kfree` that began on
a consistent chain and was not interrupted before.
-/

namespace Goshkik

open KheapPoint

namespace Kheap

/-- The merging loop is at `current`, and has left no free neighbours behind it.  The blocks in use,
but for the one that is freed, are as they were when the call began. -/
structure Merging (stop : ℕ) (all : List ℕ) (headers : Headers) (block : ℕ) (mid : Kheap)
    (nodes : List ℕ) (now : Headers) (front : List ℕ) (current : ℕ) (back : List ℕ) : Prop where
  chained : mid.Chained stop nodes now
  extent : mid.heapCurrent = stop
  split : nodes = front ++ current :: back
  settled : now.Settled (front ++ [current])
  keeps : ∀ node ∈ all, (headers node).free = false → node ≠ block →
    node ∈ nodes ∧ now node = headers node
  shorter : nodes.length ≤ all.length

/-- It has found two free neighbours. -/
structure Absorbing (stop : ℕ) (all : List ℕ) (headers : Headers) (block : ℕ) (mid : Kheap)
    (nodes : List ℕ) (now : Headers) (front : List ℕ) (current next : ℕ) (back : List ℕ) : Prop
    extends Merging stop all headers block mid nodes now front current (next :: back) where
  free : (now current).free = true
  nextFree : (now next).free = true

/-- The size of both of them together. -/
def absorbedSize (now : Headers) (current next : ℕ) : ℕ :=
  (now current).size + (sizeofBlockHeader + (now next).size)

/-- At an access of `kheap_free`. -/
def FreeAt (heap : Kheap) (stop : ℕ) (all : List ℕ) (headers : Headers) (block : ℕ) (mid : Kheap) :
    KheapPoint → Prop
  | markFree taken => mid = heap ∧ taken = block
  | mergeFirst => ∃ now back, Merging stop all headers block mid all now [] heapStart back
  | .mergeFree current => ∃ nodes now front back,
      Merging stop all headers block mid nodes now front current back
  | mergeNext current free => ∃ nodes now front back,
      Merging stop all headers block mid nodes now front current back ∧
        free = (now current).free.toNat
  | mergeNextFree current next => ∃ nodes now front back,
      Merging stop all headers block mid nodes now front current (next :: back) ∧
        (now current).free = true
  | absorbSize current next => ∃ nodes now front back,
      Absorbing stop all headers block mid nodes now front current next back
  | absorbNextSize current next size => ∃ nodes now front back,
      Absorbing stop all headers block mid nodes now front current next back ∧
        size = (now current).size
  | absorbStore current next size => ∃ nodes now front back,
      Absorbing stop all headers block mid nodes now front current next back ∧
        size = absorbedSize now current next
  | absorbLink current next => ∃ before nodes now front back,
      Absorbing stop all headers block before nodes now front current next back ∧
        before.store (blockSizeField current) (absorbedSize now current next) = some mid
  | absorbStoreLink current link => ∃ before nodes now front next back,
      Absorbing stop all headers block before nodes now front current next back ∧
        before.store (blockSizeField current) (absorbedSize now current next) = some mid ∧
        link = Cells.pointerWord (now next).next
  | returned _ => True
  | _ => False

variable {heap mid mid' final : Kheap} {stop size block node count : ℕ}
  {all nodes front back : List ℕ}
  {headers now : Headers} {current next : ℕ} {point point' : KheapPoint}

/-- Marking a block of a chain. -/
theorem Chained.setFree (chained : heap.Chained stop nodes headers) (mem : node ∈ nodes)
    (free : Bool) :
    ∃ final, heap.store (blockFreeField node) free.toNat = some final ∧ heap.SameMaps final ∧
      final.Chained stop nodes (headers.setFree node free) := by
  rcases chained.has.store_free mem free with ⟨final, stored, _, same, has⟩
  refine ⟨final, stored, same, has, ?_, ?_, chained.sized.setFree node free, chained.bounded⟩
  · rw [same.freeList, chained.isHead]
  · rw [same.freeList]
    exact chained.linked.congr (fun _ _ => Headers.setFree_next ..)

/-- The first header of a chain. -/
theorem Chained.first (chained : heap.Chained stop nodes headers) :
    ∃ back, nodes = heapStart :: back := by
  have linked := chained.linked
  rw [chained.isHead] at linked
  cases nodes with
  | nil => cases linked
  | cons first back =>
      have isFirst := linked.1
      rw [Option.some.injEq] at isFirst
      exact ⟨back, by rw [isFirst]⟩

/-- One merge keeps a chain consistent. -/
theorem Chained.absorbed (chained : heap.Chained stop (front ++ current :: next :: back) headers)
    (free : (headers current).free = true) (nextFree : (headers next).free = true)
    (same : heap.SameMaps final)
    (has : final.HasHeaders heapStart stop (fun node => node ∈ front ++ current :: next :: back)
      (headers.absorb current next)) :
    final.Chained stop (front ++ current :: back) (headers.absorb current next) := by
  have shaped := chained.shaped.absorb free nextFree
  have sized := chained.sized.absorb (show current ∈ front ++ current :: next :: back by simp)
    (show next ∈ front ++ current :: next :: back by simp) chained.linked.next_eq
  refine ⟨has.mono (fun node mem => shaped.sublist.subset mem), ?_, ?_,
    fun node mem => sized node (shaped.sublist.subset mem), chained.bounded⟩
  · rw [same.freeList, chained.isHead]
  · rw [same.freeList]
    exact shaped.linked

namespace Merging

variable (merging : Merging stop all headers block mid nodes now front current back)

include merging

theorem mem : current ∈ nodes := by simp [merging.split]

theorem link : (now current).next = back.head? := by
  have linked := merging.chained.linked
  rw [merging.split] at linked
  exact linked.next_eq

/-- The loop goes on to the next block. -/
theorem moveOn (behind : ∃ rest, back = next :: rest)
    (used : ¬ ((now current).free = true ∧ (now next).free = true)) :
    ∃ nodes now front back, Merging stop all headers block mid nodes now front next back := by
  rcases behind with ⟨rest, rfl⟩
  refine ⟨nodes, now, front ++ [current], rest, merging.chained, merging.extent, ?_, ?_,
    merging.keeps,
    merging.shorter⟩
  · rw [merging.split]
    simp
  · have settled := merging.settled
    unfold Headers.Settled at settled ⊢
    rw [List.append_assoc, List.singleton_append, List.isChain_append_cons_cons]
    exact ⟨settled, used, .singleton next⟩

end Merging

namespace Absorbing

variable (absorbing : Absorbing stop all headers block mid nodes now front current next back)

include absorbing

theorem nextMem : next ∈ nodes := by simp [absorbing.split]

theorem link : (now current).next = some next := absorbing.toMerging.link

theorem before : current < next := by
  have ahead := absorbing.chained.shaped.ahead current absorbing.mem
  rwa [Headers.behind_of_next absorbing.link] at ahead

/-- The extent of both of them together. -/
theorem absorbedSize_eq : current + sizeofBlockHeader + absorbedSize now current next =
    now.behind stop next := by
  have fits := absorbing.chained.sized current absorbing.mem
  have nextFits := absorbing.chained.sized next absorbing.nextMem
  rw [Headers.behind_of_next absorbing.link] at fits
  unfold absorbedSize
  omega

theorem absorbedSize_lt : absorbedSize now current next < 2 ^ 63 := by
  have total := absorbing.absorbedSize_eq
  have ends := absorbing.chained.behind_le absorbing.nextMem
  have start := (absorbing.chained.has.inside current absorbing.mem).1
  have bounded := absorbing.chained.bounded
  simp only [heapStart, sizeofBlockHeader] at start total
  omega

/-- The size has been written, and the link has not. -/
theorem storeSize (stored : mid.store (blockSizeField current) (absorbedSize now current next) =
    some mid') :
    mid.SameMaps mid' ∧ mid'.HasHeaders heapStart stop (fun node => node ∈ nodes)
      (now.resize current (absorbedSize now current next) (some next)) := by
  rcases absorbing.chained.has.store_size absorbing.mem (absorbedSize now current next) with
    ⟨after, again, _, same, has⟩
  cases stored.symm.trans again
  rw [absorbing.link] at has
  exact ⟨same, has⟩

theorem storeLink (has : mid'.HasHeaders heapStart stop (fun node => node ∈ nodes)
      (now.resize current (absorbedSize now current next) (some next)))
    (same : mid.SameMaps mid')
    (stored : mid'.store (blockNextField current) (Cells.pointerWord (now next).next) =
      some final) :
    Merging stop all headers block final (front ++ current :: back) (now.absorb current next) front
      current
      back := by
  rcases has.store_next absorbing.mem (absorbing.chained.has.next_ne_zero absorbing.nextMem) with
    ⟨after, again, _, finalSame, finalHas⟩
  cases stored.symm.trans again
  have twice : (now.resize current (absorbedSize now current next) (some next)).resize current
      (now.resize current (absorbedSize now current next) (some next) current).size
        (now next).next =
        now.absorb current next := by
    simp [Headers.resize, Headers.absorb, absorbedSize]
  rw [twice] at finalHas
  have split := absorbing.split
  have chained := absorbing.chained
  rw [split] at chained finalHas
  refine ⟨chained.absorbed absorbing.free absorbing.nextFree (same.trans finalSame) finalHas,
    (same.trans finalSame).heapCurrent.trans absorbing.extent, rfl,
    absorbing.settled.congr (fun _ _ => Headers.absorb_free ..), ?_, ?_⟩
  · intro node inAll used other
    rcases absorbing.keeps node inAll used other with ⟨isMember, unchanged⟩
    have notCurrent : node ≠ current := by
      rintro rfl
      have free := absorbing.free
      rw [unchanged, used] at free
      cases free
    have notNext : node ≠ next := by
      rintro rfl
      have free := absorbing.nextFree
      rw [unchanged, used] at free
      cases free
    rw [split] at isMember
    refine ⟨?_, by rw [Headers.absorb_of_ne notCurrent, unchanged]⟩
    simp only [List.mem_append, List.mem_cons] at isMember ⊢
    tauto
  · have shorter := absorbing.shorter
    rw [split] at shorter
    simp only [List.length_append, List.length_cons] at shorter ⊢
    omega

end Absorbing

theorem FreeAt.step (chained : heap.Chained stop all headers) (extent : heap.heapCurrent = stop)
    (known : block ∈ all) (here : FreeAt heap stop all headers block mid point)
    (accessed : mid.access point = some (mid', point')) :
    FreeAt heap stop all headers block mid' point' := by
  cases point with
  | markFree taken =>
      rcases here with ⟨rfl, rfl⟩
      rcases chained.setFree known true with ⟨final, stored, same, marked⟩
      rw [Bool.toNat_true] at stored
      simp only [access, stored, Option.bind_eq_bind, Option.bind_some] at accessed
      cases accessed
      rcases marked.first with ⟨back, split⟩
      refine ⟨headers.setFree taken true, back, marked, same.heapCurrent.trans extent, split,
        .singleton heapStart, ?_, Nat.le_refl _⟩
      intro node inAll _ other
      exact ⟨inAll, Headers.setFree_of_ne other true⟩
  | mergeFirst =>
      rcases here with ⟨now, back, merging⟩
      rw [access, merging.chained.isHead] at accessed
      cases accessed
      exact ⟨all, now, [], back, merging⟩
  | mergeFree current =>
      rcases here with ⟨nodes, now, front, back, merging⟩
      simp only [access, merging.chained.has.load_free merging.mem, Option.bind_eq_bind,
        Option.bind_some] at accessed
      cases accessed
      exact ⟨nodes, now, front, back, merging, rfl⟩
  | mergeNext current free =>
      rcases here with ⟨nodes, now, front, back, merging, rfl⟩
      simp only [access, merging.chained.has.loadPointer_next merging.mem, merging.link,
        Option.bind_eq_bind, Option.bind_some] at accessed
      cases back with
      | nil =>
          cases accessed
          trivial
      | cons next back =>
          cases accessed
          cases free : (now current).free with
          | true => exact ⟨nodes, now, front, back, merging, free⟩
          | false => exact merging.moveOn ⟨back, rfl⟩ (by simp [free])
  | mergeNextFree current next =>
      rcases here with ⟨nodes, now, front, back, merging, free⟩
      have nextMem : next ∈ nodes := by simp [merging.split]
      simp only [access, merging.chained.has.load_free nextMem, Option.bind_eq_bind,
        Option.bind_some] at accessed
      cases accessed
      cases nextFree : (now next).free with
      | true => exact ⟨nodes, now, front, back, merging, free, nextFree⟩
      | false => exact merging.moveOn ⟨back, rfl⟩ (by simp [nextFree])
  | absorbSize current next =>
      rcases here with ⟨nodes, now, front, back, absorbing⟩
      simp only [access, absorbing.chained.has.load_size absorbing.mem, Option.bind_eq_bind,
        Option.bind_some] at accessed
      cases accessed
      exact ⟨nodes, now, front, back, absorbing, rfl⟩
  | absorbNextSize current next size =>
      rcases here with ⟨nodes, now, front, back, absorbing, rfl⟩
      simp only [access, absorbing.chained.has.load_size absorbing.nextMem, Option.bind_eq_bind,
        Option.bind_some] at accessed
      cases accessed
      have less := absorbing.absorbedSize_lt
      unfold absorbedSize at less
      exact ⟨nodes, now, front, back, absorbing, Nat.mod_eq_of_lt (by omega)⟩
  | absorbStore current next size =>
      rcases here with ⟨nodes, now, front, back, absorbing, rfl⟩
      simp only [access, Option.bind_eq_bind, Option.bind_eq_some_iff] at accessed
      rcases accessed with ⟨after, stored, ended⟩
      cases ended
      exact ⟨mid, nodes, now, front, back, absorbing, stored⟩
  | absorbLink current next =>
      rcases here with ⟨before, nodes, now, front, back, absorbing, stored⟩
      rcases absorbing.storeSize stored with ⟨same, has⟩
      have unchanged : now.resize current (absorbedSize now current next) (some next) next =
          now next :=
        resize_of_ne (Nat.ne_of_gt absorbing.before)
      simp only [access, has.load_next absorbing.nextMem, unchanged, Option.bind_eq_bind,
        Option.bind_some] at accessed
      cases accessed
      exact ⟨before, nodes, now, front, next, back, absorbing, stored, rfl⟩
  | absorbStoreLink current link =>
      rcases here with ⟨before, nodes, now, front, next, back, absorbing, stored, rfl⟩
      simp only [access, Option.bind_eq_bind, Option.bind_eq_some_iff] at accessed
      rcases accessed with ⟨after, storedLink, ended⟩
      cases ended
      rcases absorbing.storeSize stored with ⟨same, has⟩
      exact ⟨_, _, front, back, absorbing.storeLink has same storedLink⟩
  | returned pointer =>
      cases accessed
      trivial
  | _ => exact here.elim

/-- Where `kfree` is after some accesses. -/
theorem FreeAt.advance (chained : heap.Chained stop all headers) (extent : heap.heapCurrent = stop)
    (known : block ∈ all) {start : Kheap} {first : KheapPoint}
    (here : FreeAt heap stop all headers block start first)
    (reached : start.advance count first = some (mid, point)) :
    FreeAt heap stop all headers block mid point := by
  induction count generalizing start first with
  | zero =>
      cases reached
      exact here
  | succ count ih =>
      rcases Option.bind_eq_some_iff.mp reached with ⟨next, accessed, rest⟩
      exact ih (here.step chained extent known accessed) rest

end Kheap

end Goshkik
