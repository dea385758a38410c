import Goshkik.Memory.KheapGrowing

/-!
# Where a call stands

What is known of memory and of the local variables at each access of a call that began on a
consistent chain and was not interrupted before.
-/

namespace Goshkik

open KheapPoint

namespace Kheap

/-- The block is free and has room for the request. -/
def Serves (all : List ℕ) (headers : Headers) (size block : ℕ) : Prop :=
  block ∈ all ∧ (headers block).free = true ∧ size ≤ (headers block).size

/-- No block can serve the request, and the last one has been found. -/
def Exhausted (all : List ℕ) (headers : Headers) (size last : ℕ) : Prop :=
  (∃ front, all = front ++ [last]) ∧ ∀ block, ¬ Serves all headers size block

/-- At an access of `kheap_alloc`. -/
def AllocAt (heap : Kheap) (stop : ℕ) (all : List ℕ) (headers : Headers) (size : ℕ)
    (frames : List ℕ)
    (mid : Kheap) : KheapPoint → Prop
  | allocFirst request offered => mid = heap ∧ request = size ∧ offered = frames
  | searchFree request offered current =>
      mid = heap ∧ request = size ∧ offered = frames ∧
        ∃ front back, all = front ++ current :: back ∧
        ∀ block ∈ front, ¬ Serves all headers size block
  | searchSize request offered current =>
      mid = heap ∧ request = size ∧ offered = frames ∧ (headers current).free = true ∧
        ∃ front back, all = front ++ current :: back ∧ ∀ block ∈ front,
          ¬ Serves all headers size block
  | searchNext request offered current =>
      mid = heap ∧ request = size ∧ offered = frames ∧
        ∃ front back, all = front ++ current :: back ∧
        ∀ block ∈ front ++ [current], ¬ Serves all headers size block
  | splitSize request block => mid = heap ∧ request = size ∧ Serves all headers size block
  | newSize request block blockSize =>
      mid = heap ∧ request = size ∧ Serves all headers size block ∧
        blockSize = (headers block).size ∧ size + sizeofBlockHeader < blockSize
  | newFree request block =>
      request = size ∧ Serves all headers size block ∧
        size + sizeofBlockHeader < (headers block).size ∧
        heap.store (blockSizeField (newBlock block size))
          ((headers block).size - size - sizeofBlockHeader) = some mid
  | splitNext request block =>
      request = size ∧ Serves all headers size block ∧
        size + sizeofBlockHeader < (headers block).size ∧
        ∃ first, heap.store (blockSizeField (newBlock block size))
            ((headers block).size - size - sizeofBlockHeader) = some first ∧
          first.store (blockFreeField (newBlock block size)) 1 = some mid
  | newNext request block next =>
      request = size ∧ Serves all headers size block ∧
        size + sizeofBlockHeader < (headers block).size ∧
        (∃ first, heap.store (blockSizeField (newBlock block size))
            ((headers block).size - size - sizeofBlockHeader) = some first ∧
          first.store (blockFreeField (newBlock block size)) 1 = some mid) ∧
        next = Cells.pointerWord (headers block).next
  | cutSize request block =>
      request = size ∧ Serves all headers size block ∧
        size + sizeofBlockHeader < (headers block).size ∧
        ∃ first second, heap.store (blockSizeField (newBlock block size))
            ((headers block).size - size - sizeofBlockHeader) = some first ∧
          first.store (blockFreeField (newBlock block size)) 1 = some second ∧
          second.store (blockNextField (newBlock block size))
            (Cells.pointerWord (headers block).next) = some mid
  | cutNext request block =>
      request = size ∧ Serves all headers size block ∧
        size + sizeofBlockHeader < (headers block).size ∧
        ∃ first second third, heap.store (blockSizeField (newBlock block size))
            ((headers block).size - size - sizeofBlockHeader) = some first ∧
          first.store (blockFreeField (newBlock block size)) 1 = some second ∧
          second.store (blockNextField (newBlock block size))
            (Cells.pointerWord (headers block).next) = some third ∧
          third.store (blockSizeField block) size = some mid
  | takeFree block => Serves all headers size block ∧ splitBlock heap block size = some mid
  | returned _ => True
  | point => ∃ last, Exhausted all headers size last ∧ size ≤ 2 ^ 64 - 1 - sizeofBlockHeader ∧
      mid.Chained stop all headers ∧ GrowAt stop size last mid point

variable {heap mid mid' : Kheap} {stop size : ℕ} {all frames : List ℕ} {headers : Headers}
  {point point' : KheapPoint}

theorem AllocAt.growing {last : ℕ} (exhausted : Exhausted all headers size last)
    (small : size ≤ 2 ^ 64 - 1 - sizeofBlockHeader) (chained : mid.Chained stop all headers)
    (growAt : GrowAt stop size last mid point) :
    AllocAt heap stop all headers size frames mid point := by
  have found := And.intro exhausted (And.intro small (And.intro chained growAt))
  cases point <;> first | exact ⟨last, found⟩ | exact growAt.elim

theorem AllocAt.grow {last : ℕ} (chained : heap.Chained stop all headers)
    (extent : heap.heapCurrent = stop) (fresh : heap.FreshFrames frames)
    (room : stop + frames.length * pageSizeVmm < 2 ^ 64)
    (exhausted : Exhausted all headers size last) :
    AllocAt heap stop all headers size frames heap (KheapPoint.grow size frames (some last)) := by
  unfold KheapPoint.grow
  split
  · trivial
  · exact .growing exhausted (by omega) chained ⟨rfl, rfl, extent, fresh, room⟩

/-- The header that is cut off lies in the payload. -/
theorem Serves.newBlock_eq {block : ℕ} (chained : heap.Chained stop all headers)
    (serves : Serves all headers size block)
    (room : size + sizeofBlockHeader < (headers block).size) :
    newBlock block size = block + sizeofBlockHeader + size ∧
      block + sizeofBlockHeader + (headers block).size ≤ stop ∧ stop ≤ 2 ^ 64 := by
  have total := chained.sized block serves.1
  have ends := chained.behind_le serves.1
  have bounded := chained.bounded
  refine ⟨Nat.mod_eq_of_lt (by omega), by omega, bounded⟩

/-- While the new header is written, the chain is as it was. -/
theorem Serves.writing {block field word : ℕ} (chained : mid.Chained stop all headers)
    (serves : Serves all headers size block)
    (room : size + sizeofBlockHeader < (headers block).size)
    (inHeader : newBlock block size ≤ field ∧ field < newBlock block size + sizeofBlockHeader)
    (stored : mid.store field word = some mid') :
    mid'.Chained stop all headers ∧ mid.SameMaps mid' ∧ mid'.view = mid.view.store field word := by
  rcases serves.newBlock_eq chained room with ⟨isNew, _, _⟩
  rw [isNew] at inHeader
  exact chained.store_payload serves.1 (by omega) (by omega) stored

theorem AllocAt.step (chained : heap.Chained stop all headers)
    (extent : heap.heapCurrent = stop) (fresh : heap.FreshFrames frames)
    (room : stop + frames.length * pageSizeVmm < 2 ^ 64) (aligned : pageSizeVmm ∣ stop)
    (here : AllocAt heap stop all headers size frames mid point)
    (accessed : mid.access point = some (mid', point')) :
    AllocAt heap stop all headers size frames mid' point' := by
  have ends := chained.linked
  cases point with
  | allocFirst request offered =>
      rcases here with ⟨rfl, rfl, rfl⟩
      rw [access, chained.isHead] at accessed
      cases accessed
      refine ⟨rfl, rfl, rfl, ?_⟩
      cases all with
      | nil =>
          rw [chained.isHead] at ends
          cases ends
      | cons first all =>
          have isFirst := ends.1
          rw [chained.isHead, Option.some.injEq] at isFirst
          exact ⟨[], all, by rw [isFirst]; rfl, by simp⟩
  | searchFree request offered current =>
      rcases here with ⟨rfl, rfl, rfl, front, back, split, unfit⟩
      have mem : current ∈ all := by simp [split]
      simp only [access, chained.has.load_free mem, Option.bind_eq_bind,
        Option.bind_some] at accessed
      cases accessed
      cases isFree : (headers current).free with
      | true => exact ⟨rfl, rfl, rfl, isFree, front, back, split, unfit⟩
      | false =>
          refine ⟨rfl, rfl, rfl, front, back, split, ?_⟩
          intro block isMember serves
          rcases List.mem_append.mp isMember with inFront | isCurrent
          · exact unfit block inFront serves
          · rw [List.mem_singleton.mp isCurrent] at serves
            rw [serves.2.1] at isFree
            cases isFree
  | searchSize request offered current =>
      rcases here with ⟨rfl, rfl, rfl, isFree, front, back, split, unfit⟩
      have mem : current ∈ all := by simp [split]
      simp only [access, chained.has.load_size mem, Option.bind_eq_bind,
        Option.bind_some] at accessed
      cases accessed
      split
      case isTrue large => exact ⟨rfl, rfl, mem, isFree, large⟩
      case isFalse less =>
        refine ⟨rfl, rfl, rfl, front, back, split, ?_⟩
        intro block isMember serves
        rcases List.mem_append.mp isMember with inFront | isCurrent
        · exact unfit block inFront serves
        · rw [List.mem_singleton.mp isCurrent] at serves
          exact less serves.2.2
  | searchNext request offered current =>
      rcases here with ⟨rfl, rfl, rfl, front, back, split, unfit⟩
      have mem : current ∈ all := by simp [split]
      have link : (headers current).next = back.head? := by
        rw [split] at ends
        exact ends.next_eq
      simp only [access, chained.has.loadPointer_next mem, link, Option.bind_eq_bind,
        Option.bind_some] at accessed
      cases back with
      | nil =>
          cases accessed
          apply AllocAt.grow chained extent fresh room
          refine ⟨⟨front, split⟩, fun block serves => unfit block ?_ serves⟩
          rw [← split]
          exact serves.1
      | cons next back =>
          cases accessed
          exact ⟨rfl, rfl, rfl, front ++ [current], back, by rw [split]; simp, unfit⟩
  | splitSize request block =>
      rcases here with ⟨rfl, rfl, serves⟩
      have loaded := chained.has.load_size serves.1
      have inside := chained.below block serves.1
      simp only [access, loaded, Option.bind_eq_bind, Option.bind_some] at accessed
      cases accessed
      split
      case isTrue whole =>
        refine ⟨serves, ?_⟩
        simp only [splitBlock, loaded, Option.bind_eq_bind, Option.bind_some, if_pos whole]
        rfl
      case isFalse room =>
        refine ⟨rfl, rfl, serves, rfl, ?_⟩
        have total := chained.sized block serves.1
        have ends := chained.behind_le serves.1
        have bounded := chained.bounded
        have large := serves.2.2
        have start := (chained.has.inside block serves.1).1
        simp only [sizeofBlockHeader, heapStart] at room total start ⊢
        omega
  | newSize request block blockSize =>
      rcases here with ⟨rfl, rfl, serves, rfl, room⟩
      simp only [access, Option.bind_eq_bind, Option.bind_eq_some_iff] at accessed
      rcases accessed with ⟨first, stored, done⟩
      cases done
      exact ⟨rfl, serves, room, stored⟩
  | newFree request block =>
      rcases here with ⟨rfl, serves, room, storedSize⟩
      simp only [access, Option.bind_eq_bind, Option.bind_eq_some_iff] at accessed
      rcases accessed with ⟨second, stored, done⟩
      cases done
      exact ⟨rfl, serves, room, mid, storedSize, stored⟩
  | splitNext request block =>
      rcases here with ⟨rfl, serves, room, first, storedSize, storedFree⟩
      simp only [access, Option.bind_eq_bind, Option.bind_eq_some_iff] at accessed
      rcases accessed with ⟨next, loaded, done⟩
      cases done
      rcases serves.writing chained room (by simp [blockSizeField, sizeofBlockHeader])
        storedSize with
        ⟨firstChained, _⟩
      rcases serves.writing firstChained room (by simp [blockFreeField, sizeofBlockHeader])
        storedFree with
        ⟨midChained, _⟩
      rw [midChained.has.load_next serves.1, Option.some.injEq] at loaded
      exact ⟨rfl, serves, room, ⟨first, storedSize, storedFree⟩, loaded.symm⟩
  | newNext request block next =>
      rcases here with ⟨rfl, serves, room, ⟨first, storedSize, storedFree⟩, rfl⟩
      simp only [access, Option.bind_eq_bind, Option.bind_eq_some_iff] at accessed
      rcases accessed with ⟨third, stored, done⟩
      cases done
      exact ⟨rfl, serves, room, first, mid, storedSize, storedFree, stored⟩
  | cutSize request block =>
      rcases here with ⟨rfl, serves, room, first, second, storedSize, storedFree, storedNext⟩
      simp only [access, Option.bind_eq_bind, Option.bind_eq_some_iff] at accessed
      rcases accessed with ⟨third, stored, done⟩
      cases done
      exact ⟨rfl, serves, room, first, second, mid, storedSize, storedFree, storedNext, stored⟩
  | cutNext request block =>
      rcases here with ⟨rfl, serves, room, first, second, third, storedSize, storedFree, storedNext,
        storedCut⟩
      simp only [access, Option.bind_eq_bind, Option.bind_eq_some_iff] at accessed
      rcases accessed with ⟨fourth, stored, done⟩
      cases done
      refine ⟨serves, ?_⟩
      rcases serves.newBlock_eq chained room with ⟨_, inside, bounded⟩
      rcases serves.writing chained room (by simp [blockSizeField, sizeofBlockHeader])
        storedSize with
        ⟨firstChained, _⟩
      rcases serves.writing firstChained room (by simp [blockFreeField, sizeofBlockHeader])
        storedFree with
        ⟨secondChained, _⟩
      have noWrap : (request + sizeofBlockHeader) % 2 ^ 64 = request + sizeofBlockHeader :=
        Nat.mod_eq_of_lt (by omega)
      unfold newBlock at storedSize storedFree storedNext stored
      simp only [splitBlock, chained.has.load_size serves.1, Option.bind_eq_bind, Option.bind_some,
        noWrap, if_neg (Nat.not_le.mpr room), storedSize, storedFree,
        secondChained.has.load_next serves.1, storedNext, storedCut, stored]
  | takeFree block =>
      simp only [access, Option.bind_eq_bind, Option.bind_eq_some_iff] at accessed
      rcases accessed with ⟨taken, stored, done⟩
      cases done
      trivial
  | returned pointer =>
      cases accessed
      trivial
  | _ =>
      rcases here with ⟨last, exhausted, small, midChained, growAt⟩
      rcases growAt.step midChained.has aligned accessed with ⟨has, list, again⟩ | ⟨pointer, rfl⟩
      · refine .growing exhausted small ⟨has, ?_, ?_, midChained.sized, midChained.bounded⟩ again
        · rw [list, midChained.isHead]
        · rw [list]
          exact midChained.linked
      · trivial

end Kheap

end Goshkik
