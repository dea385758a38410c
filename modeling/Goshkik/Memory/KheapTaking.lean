import Goshkik.Memory.KheapResumed

/-!
# Taking a block after an interrupt

The call has chosen a block, and `kfree` may have merged it into the block before it, or have merged
the block behind it into it.
-/

namespace Goshkik

open KheapPoint

namespace Kheap

variable {heap mid mid' final : Kheap} {stop size block node cell word : ℕ}
  {all nodes front back trail : List ℕ}
  {headers : Headers} {known : Set ℕ} {live : ℕ → ℕ → Prop} {point point' : KheapPoint}
  {pointer : Option ℕ}

/-! ## A block that is not in the chain -/

/-- A store outside of the listed headers. -/
theorem HasHeaders.store_outside (has : mid.HasHeaders heapStart stop known headers)
    (outside : ∀ node ∈ known, cell < node ∨ node + sizeofBlockHeader ≤ cell)
    (stored : mid.store cell word = some mid') :
    mid'.HasHeaders heapStart stop known headers ∧ mid.SameMaps mid' ∧
      mid'.view = mid.view.store cell word := by
  rcases store_eq has.separate (isSome_of_store stored) word with
    ⟨after, again, viewEq, pages, current, list⟩
  cases stored.symm.trans again
  refine ⟨has.congr ⟨pages, current, list⟩ ?_, ⟨pages, current, list⟩, viewEq⟩
  intro node mem address lower upper
  rw [viewEq, Cells.store_of_ne]
  rcases outside node mem with before | behind
  · omega
  · omega

/-- The header to be cut off does not meet a header of the chain. -/
def CutApart (nodes : List ℕ) (block size : ℕ) : Prop :=
  ∀ node ∈ nodes, node + sizeofBlockHeader ≤ newBlock block size ∨
    newBlock block size + sizeofBlockHeader ≤ node

/-- The call takes a block, whose header it may cut in two. -/
def TakeAt (nodes : List ℕ) (size block : ℕ) (mid : Kheap) : KheapPoint → Prop
  | splitSize request taken => request = size ∧ taken = block ∧
      ∀ blockSize, mid.load (blockSizeField block) = some blockSize →
        (size + sizeofBlockHeader) % 2 ^ 64 < blockSize → CutApart nodes block size
  | newSize request taken _ | newFree request taken | splitNext request taken | newNext request
      taken _ =>
      request = size ∧ taken = block ∧ CutApart nodes block size
  | cutSize request taken | cutNext request taken => request = size ∧ taken = block
  | takeFree taken => taken = block
  | returned pointer => pointer = some (block + sizeofBlockHeader)
  | _ => False

/-- Taking a block that is not in the chain leaves the chain alone. -/
theorem TakeAt.step (apart : ∀ node ∈ nodes, node + sizeofBlockHeader ≤ block ∨
    block + sizeofBlockHeader ≤ node)
    (has : mid.HasHeaders heapStart stop (fun node => node ∈ nodes) headers)
    (here : TakeAt nodes size block mid point) (accessed : mid.access point = some (mid', point')) :
    mid'.HasHeaders heapStart stop (fun node => node ∈ nodes) headers ∧
      mid'.freeList = mid.freeList ∧
      TakeAt nodes size block mid' point' := by
  have outsideBlock : ∀ offset < sizeofBlockHeader, ∀ node ∈ nodes,
      block + offset < node ∨ node + sizeofBlockHeader ≤ block + offset := by
    intro offset small node mem
    have bounds := apart node mem
    omega
  have outsideNew : CutApart nodes block size → ∀ offset < sizeofBlockHeader, ∀ node ∈ nodes,
      newBlock block size + offset < node ∨
        node + sizeofBlockHeader ≤ newBlock block size + offset := by
    intro cutApart offset small node mem
    have bounds := cutApart node mem
    omega
  cases point with
  | splitSize request taken =>
      rcases here with ⟨rfl, rfl, room⟩
      simp only [access, Option.bind_eq_bind, Option.bind_eq_some_iff] at accessed
      rcases accessed with ⟨blockSize, loaded, done⟩
      cases done
      refine ⟨has, rfl, ?_⟩
      split
      · exact rfl
      case isFalse more => exact ⟨rfl, rfl, room blockSize loaded (by omega)⟩
  | newSize request taken blockSize =>
      rcases here with ⟨rfl, rfl, cutApart⟩
      simp only [access, Option.bind_eq_bind, Option.bind_eq_some_iff] at accessed
      rcases accessed with ⟨after, stored, done⟩
      cases done
      rcases has.store_outside (outsideNew cutApart 0 (by decide)) stored with ⟨afterHas, same, _⟩
      exact ⟨afterHas, same.freeList, rfl, rfl, cutApart⟩
  | newFree request taken =>
      rcases here with ⟨rfl, rfl, cutApart⟩
      simp only [access, Option.bind_eq_bind, Option.bind_eq_some_iff] at accessed
      rcases accessed with ⟨after, stored, done⟩
      cases done
      rcases has.store_outside (outsideNew cutApart 8 (by decide)) stored with ⟨afterHas, same, _⟩
      exact ⟨afterHas, same.freeList, rfl, rfl, cutApart⟩
  | splitNext request taken =>
      rcases here with ⟨rfl, rfl, cutApart⟩
      simp only [access, Option.bind_eq_bind, Option.bind_eq_some_iff] at accessed
      rcases accessed with ⟨next, _, done⟩
      cases done
      exact ⟨has, rfl, rfl, rfl, cutApart⟩
  | newNext request taken next =>
      rcases here with ⟨rfl, rfl, cutApart⟩
      simp only [access, Option.bind_eq_bind, Option.bind_eq_some_iff] at accessed
      rcases accessed with ⟨after, stored, done⟩
      cases done
      rcases has.store_outside (outsideNew cutApart 16 (by decide)) stored with ⟨afterHas, same, _⟩
      exact ⟨afterHas, same.freeList, rfl, rfl⟩
  | cutSize request taken =>
      rcases here with ⟨rfl, rfl⟩
      simp only [access, Option.bind_eq_bind, Option.bind_eq_some_iff] at accessed
      rcases accessed with ⟨after, stored, done⟩
      cases done
      rcases has.store_outside (outsideBlock 0 (by decide)) stored with ⟨afterHas, same, _⟩
      exact ⟨afterHas, same.freeList, rfl, rfl⟩
  | cutNext request taken =>
      rcases here with ⟨rfl, rfl⟩
      simp only [access, Option.bind_eq_bind, Option.bind_eq_some_iff] at accessed
      rcases accessed with ⟨after, stored, done⟩
      cases done
      rcases has.store_outside (outsideBlock 16 (by decide)) stored with ⟨afterHas, same, _⟩
      exact ⟨afterHas, same.freeList, rfl⟩
  | takeFree taken =>
      have isBlock : taken = block := here
      subst isBlock
      simp only [access, Option.bind_eq_bind, Option.bind_eq_some_iff] at accessed
      rcases accessed with ⟨after, stored, done⟩
      cases done
      rcases has.store_outside (outsideBlock 8 (by decide)) stored with ⟨afterHas, same, _⟩
      exact ⟨afterHas, same.freeList, rfl⟩
  | returned pointer =>
      cases accessed
      exact ⟨has, rfl, here⟩
  | _ => exact here.elim

/-- What is taken from outside of the chain is not a block of the chain. -/
theorem Left.not_completes (left : heap.Left stop all nodes headers) (known : block ∈ all)
    (gone : block ∉ nodes) (here : TakeAt nodes size block heap point) :
    ¬ Completes heap point live size := by
  intro completes
  have apart : ∀ node ∈ nodes, node + sizeofBlockHeader ≤ block ∨
      block + sizeofBlockHeader ≤ node := by
    intro node mem
    have inAll := left.shaped.sublist.subset mem
    rcases Nat.lt_trichotomy node block with before | same | behind
    · exact .inl (left.has.apart node inAll block known before)
    · exact absurd (same ▸ mem) gone
    · exact .inr (left.has.apart block known node inAll behind)
  rcases completes with ⟨final, pointer, blocks, finishes, rest⟩
  have ends : final.HasHeaders heapStart stop (fun node => node ∈ nodes) headers ∧
      final.freeList = heap.freeList ∧ pointer = some (block + sizeofBlockHeader) := by
    rcases finishes with ⟨count, reached⟩
    have has := left.chainHas
    clear left known gone rest
    induction count generalizing heap point with
    | zero =>
        cases reached
        exact ⟨has, rfl, here⟩
    | succ count ih =>
        rcases Option.bind_eq_some_iff.mp reached with ⟨⟨middle, next⟩, accessed, rest⟩
        rcases here.step apart has accessed with ⟨afterHas, list, again⟩
        rcases ih again rest afterHas with ⟨finalHas, finalList, isPointer⟩
        exact ⟨finalHas, finalList.trans list, isPointer⟩
  rcases ends with ⟨finalHas, list, isPointer⟩
  have again : Completes heap point live size := ⟨final, pointer, blocks, finishes, rest⟩
  have linked : Linked headers.nextOf final.freeList nodes := by
    rw [list]
    exact left.shaped.linked
  exact gone (again.mem_of_served finishes finalHas linked (fun _ mem => mem) isPointer)

/-! ## A block of the chain -/

theorem Chained.takeFree (chained : heap.Chained stop nodes headers)
    (extent : heap.heapCurrent = stop)
    (covers : Covers nodes headers live) (mem : block ∈ nodes) (free : (headers block).free = true)
    (room : size ≤ (headers block).size) : Completes heap (takeFree block) live size := by
  rcases chained.has.store_free mem false with ⟨final, stored, _, same, has⟩
  have accessed : heap.access (KheapPoint.takeFree block) =
      some (final, returned (some (block + sizeofBlockHeader))) := by
    rw [Bool.toNat_false] at stored
    rw [access, stored]
    rfl
  have finalChained : final.Chained stop nodes (headers.setFree block false) := by
    refine ⟨has, ?_, ?_, chained.sized.setFree block false, chained.bounded⟩
    · rw [same.freeList, chained.isHead]
    · rw [same.freeList]
      exact chained.linked.congr (fun _ _ => Headers.setFree_next ..)
  refine .of_chained (.step accessed (.returned _ _)) finalChained (same.heapCurrent.trans extent)
    ?_ ?_
  · intro payload bytes isLive
    rcases covers payload bytes isLive with ⟨node, isMember, used, sizeEq, payloadEq⟩
    have different : node ≠ block := by
      rintro rfl
      rw [used] at free
      cases free
    refine ⟨node, isMember, ?_⟩
    rw [Headers.setFree_of_ne different]
    exact ⟨used, sizeEq, payloadEq⟩
  · rintro address isPointer
    cases isPointer
    refine ⟨⟨block, mem, rfl, ?_⟩, ?_⟩
    · rw [Headers.setFree_self]
      exact ⟨rfl, room⟩
    · intro bytes isLive
      rcases covers _ bytes isLive with ⟨node, _, used, _, payloadEq⟩
      rw [Nat.add_right_cancel_iff] at payloadEq
      rw [← payloadEq, free] at used
      cases used

/-- The headers after a block has been cut in two and taken. -/
def cutHeaders (headers : Headers) (block new size newSize : ℕ) (link : Option ℕ) : Headers :=
  Headers.setFree (Headers.resize (Function.update headers new ⟨newSize, true, link⟩) block size
    (some new))
    block false

section CutHeaders

variable {new other newSize : ℕ} {link : Option ℕ}

theorem cutHeaders_block : cutHeaders headers block new size newSize link block =
    ⟨size, false, some new⟩ := by
  rw [cutHeaders, Headers.setFree_self, Headers.resize, Function.update_self]

theorem cutHeaders_new (different : new ≠ block) :
    cutHeaders headers block new size newSize link new =
    ⟨newSize, true, link⟩ := by
  rw [cutHeaders, Headers.setFree_of_ne different, Headers.resize, Function.update_of_ne different,
    Function.update_self]

theorem cutHeaders_of_ne (notBlock : other ≠ block) (notNew : other ≠ new) :
    cutHeaders headers block new size newSize link other = headers other := by
  rw [cutHeaders, Headers.setFree_of_ne notBlock, Headers.resize, Function.update_of_ne notBlock,
    Function.update_of_ne notNew]

/-- The size and the link that the block had do not matter. -/
theorem cutHeaders_resize (different : new ≠ block) (oldSize : ℕ) (oldLink : Option ℕ) :
    cutHeaders (headers.resize block oldSize oldLink) block new size newSize link =
      cutHeaders headers block new size newSize link := by
  funext other
  by_cases isBlock : other = block
  · rw [isBlock, cutHeaders_block, cutHeaders_block]
  · by_cases isNew : other = new
    · rw [isNew, cutHeaders_new different, cutHeaders_new different]
    · rw [cutHeaders_of_ne isBlock isNew, cutHeaders_of_ne isBlock isNew, Headers.resize,
        Function.update_of_ne isBlock]

end CutHeaders

/-- From here on the call cuts the block in two and takes it. -/
def Cuts (stop block size blockSize newSize : ℕ) (link : Option ℕ) (known : Set ℕ)
    (headers : Headers)
    (heap : Kheap) (point : KheapPoint) : Prop :=
  ∃ final, heap.Finishes point final (some (block + sizeofBlockHeader)) ∧ heap.SameMaps final ∧
    final.HasHeaders heapStart stop (insert (newBlock block size) known)
      (cutHeaders headers block (newBlock block size) blockSize newSize link)

section Cuts

variable {cutOff : ℕ} {link : Option ℕ} (mem : block ∈ known)
  (gap : ∀ node ∈ known, node + sizeofBlockHeader ≤ newBlock block size ∨
    newBlock block size + sizeofBlockHeader ≤ node)
  (inside : heapStart ≤ newBlock block size ∧ newBlock block size + sizeofBlockHeader ≤ stop)

include mem gap inside

omit inside in
theorem new_ne : newBlock block size ≠ block := by
  intro same
  have apart := gap block mem
  simp only [sizeofBlockHeader] at apart
  omega

omit mem in
/-- A store into the header that is cut off. -/
theorem HasHeaders.store_new (has : heap.HasHeaders heapStart stop known headers) (word : ℕ)
    {offset : ℕ}
    (small : offset < sizeofBlockHeader) : ∃ after, heap.store (newBlock block size + offset) word =
    some after ∧
      after.view = heap.view.store (newBlock block size + offset) word ∧ heap.SameMaps after ∧
      after.HasHeaders heapStart stop known headers := by
  rcases store_spec has.separate has.mapped (show heapStart ≤ newBlock block size + offset by omega)
    (by omega) word with ⟨after, stored, viewEq, same, _, _⟩
  refine ⟨after, stored, viewEq, same, has.congr same ?_⟩
  intro node isMember address lower upper
  rw [viewEq, Cells.store_of_ne]
  have apart := gap node isMember
  omega

theorem cuts_cutNext (has : heap.HasHeaders heapStart stop known headers)
    (sizeEq : heap.view (blockSizeField (newBlock block size)) = cutOff)
    (freeEq : heap.view (blockFreeField (newBlock block size)) = 1)
    (nextEq : heap.view.pointerAt (blockNextField (newBlock block size)) = link) :
    Cuts stop block size (headers block).size cutOff link known headers heap
      (cutNext size block) := by
  have different := new_ne mem gap
  have withNew : heap.HasHeaders heapStart stop (insert (newBlock block size) known)
      (Function.update headers (newBlock block size) ⟨cutOff, true, link⟩) :=
    has.insert has.mapped (Nat.le_refl stop) inside gap sizeEq freeEq nextEq
  have nonzero : some (newBlock block size) ≠ some 0 := by
    rintro same
    have zero := Option.some.inj same
    rw [zero] at inside
    simp [heapStart] at inside
  rcases withNew.store_next (Set.mem_insert_of_mem _ mem) nonzero with
    ⟨linked, stored, _, same, linkedHas⟩
  rcases linkedHas.store_free (Set.mem_insert_of_mem _ mem) false with
    ⟨final, storedFree, _, finalSame, finalHas⟩
  have link : heap.access (cutNext size block) = some (linked, takeFree block) := by
    have linked : heap.store (blockNextField block) (newBlock block size) = some linked := stored
    rw [access, linked]
    rfl
  have take : linked.access (KheapPoint.takeFree block) =
      some (final, returned (some (block + sizeofBlockHeader))) := by
    rw [Bool.toNat_false] at storedFree
    rw [access, storedFree]
    rfl
  refine ⟨final, .step link (.step take (.returned _ _)), same.trans finalSame, ?_⟩
  rw [Function.update_of_ne different.symm] at finalHas
  exact finalHas

theorem cuts_cutSize (has : heap.HasHeaders heapStart stop known headers)
    (sizeEq : heap.view (blockSizeField (newBlock block size)) = cutOff)
    (freeEq : heap.view (blockFreeField (newBlock block size)) = 1)
    (nextEq : heap.view.pointerAt (blockNextField (newBlock block size)) = link) :
    Cuts stop block size size cutOff link known headers heap (cutSize size block) := by
  have different := new_ne mem gap
  rcases has.store_size mem size with ⟨cut, stored, viewEq, same, cutHas⟩
  have accessed : heap.access (cutSize size block) = some (cut, cutNext size block) := by
    rw [access, stored]
    rfl
  have kept : ∀ offset < sizeofBlockHeader,
      cut.view (newBlock block size + offset) = heap.view (newBlock block size + offset) := by
    intro offset small
    rw [viewEq, Cells.store_of_ne]
    have apart := gap block mem
    simp only [blockSizeField, sizeofBlockHeader] at apart small ⊢
    omega
  rcases cuts_cutNext mem gap inside cutHas
      ((kept 0 (by decide)).trans sizeEq) ((kept 8 (by decide)).trans freeEq)
      ((Cells.pointerAt_congr (kept 16 (by decide))).trans nextEq) with
        ⟨final, finishes, finalSame, finalHas⟩
  refine ⟨final, .step accessed finishes, same.trans finalSame, ?_⟩
  rw [Headers.resize, Function.update_self, ← Headers.resize,
    cutHeaders_resize different] at finalHas
  exact finalHas

theorem cuts_newNext (has : heap.HasHeaders heapStart stop known headers)
    (sizeEq : heap.view (blockSizeField (newBlock block size)) = cutOff)
    (freeEq : heap.view (blockFreeField (newBlock block size)) = 1) (nonzero : link ≠ some 0) :
    Cuts stop block size size cutOff link known headers heap
      (newNext size block (Cells.pointerWord link)) := by
  rcases has.store_new gap inside (Cells.pointerWord link)
    (show 16 < sizeofBlockHeader by decide) with
    ⟨after, stored, viewEq, same, afterHas⟩
  have accessed : heap.access (newNext size block (Cells.pointerWord link)) =
      some (after, cutSize size block) := by
    rw [access, blockNextField, stored]
    rfl
  have kept : ∀ offset ≠ 16,
      after.view (newBlock block size + offset) = heap.view (newBlock block size + offset) := by
    intro offset other
    rw [viewEq, Cells.store_of_ne (by omega)]
  rcases cuts_cutSize mem gap inside afterHas ((kept 0 (by decide)).trans sizeEq)
      ((kept 8 (by decide)).trans freeEq)
      (show after.view.pointerAt (blockNextField (newBlock block size)) = link by
        rw [viewEq]
        exact Cells.pointerAt_store_pointerWord nonzero) with ⟨final, finishes, finalSame, finalHas⟩
  exact ⟨final, .step accessed finishes, same.trans finalSame, finalHas⟩

theorem cuts_splitNext (has : heap.HasHeaders heapStart stop known headers)
    (sizeEq : heap.view (blockSizeField (newBlock block size)) = cutOff)
    (freeEq : heap.view (blockFreeField (newBlock block size)) = 1) :
    Cuts stop block size size cutOff (headers block).next known headers heap
      (splitNext size block) := by
  have accessed : heap.access (splitNext size block) =
      some (heap, newNext size block (Cells.pointerWord (headers block).next)) := by
    rw [access, has.load_next mem]
    rfl
  rcases cuts_newNext mem gap inside has sizeEq freeEq (has.next_ne_zero mem) with
    ⟨final, finishes, rest⟩
  exact ⟨final, .step accessed finishes, rest⟩

theorem cuts_newFree (has : heap.HasHeaders heapStart stop known headers)
    (sizeEq : heap.view (blockSizeField (newBlock block size)) = cutOff) :
    Cuts stop block size size cutOff (headers block).next known headers heap
      (newFree size block) := by
  rcases has.store_new gap inside 1 (show 8 < sizeofBlockHeader by decide) with
    ⟨after, stored, viewEq, same, afterHas⟩
  have accessed : heap.access (newFree size block) = some (after, splitNext size block) := by
    rw [access, blockFreeField, stored]
    rfl
  have afterSize : after.view (blockSizeField (newBlock block size)) = cutOff := by
    rw [viewEq, Cells.store_of_ne (by simp [blockSizeField]), sizeEq]
  have afterFree : after.view (blockFreeField (newBlock block size)) = 1 := by
    rw [viewEq]
    exact Cells.store_self ..
  rcases cuts_splitNext mem gap inside afterHas afterSize afterFree with
    ⟨final, finishes, finalSame, finalHas⟩
  exact ⟨final, .step accessed finishes, same.trans finalSame, finalHas⟩

theorem cuts_newSize (has : heap.HasHeaders heapStart stop known headers) (blockSize : ℕ) :
    Cuts stop block size size (blockSize - size - sizeofBlockHeader) (headers block).next known
      headers heap
      (newSize size block blockSize) := by
  rcases has.store_new gap inside (blockSize - size - sizeofBlockHeader)
    (show 0 < sizeofBlockHeader by decide) with ⟨after, stored, viewEq, same, afterHas⟩
  have accessed : heap.access (newSize size block blockSize) =
      some (after, newFree size block) := by
    have again : heap.store (blockSizeField (newBlock block size))
      (blockSize - size - sizeofBlockHeader) = some after := stored
    rw [access, again]
    rfl
  have afterSize : after.view (blockSizeField (newBlock block size)) =
      blockSize - size - sizeofBlockHeader := by
    rw [viewEq]
    exact Cells.store_self ..
  rcases cuts_newFree mem gap inside afterHas afterSize with ⟨final, finishes, finalSame, finalHas⟩
  exact ⟨final, .step accessed finishes, same.trans finalSame, finalHas⟩

end Cuts

/-! ## The chain with the header that was cut off -/

section CutChain

variable {new cutOff blockSize : ℕ} {link stop' : Option ℕ}

/-- The headers between two links make up the bytes between them. -/
theorem extent_segment {head : Option ℕ} (segment : Segment headers.nextOf head nodes stop')
    (sized : ∀ node ∈ nodes, node + sizeofBlockHeader + (headers node).size =
      headers.behind stop node) :
    head.getD stop + headers.extent nodes = stop'.getD stop := by
  induction nodes generalizing head with
  | nil =>
      rw [show head = stop' from segment]
      rfl
  | cons node nodes ih =>
      rcases segment with ⟨rfl, tail⟩
      have rest := ih tail (fun other mem => sized other (List.mem_cons_of_mem _ mem))
      have fits := sized node (by simp)
      rw [Headers.behind] at fits
      rw [Headers.extent_cons, Option.getD_some, ← rest]
      have same : (headers.nextOf node).getD stop = (headers node).next.getD stop := rfl
      omega

/-- From every header the links lead to the end. -/
theorem Left.path (left : heap.Left stop all nodes headers) {link : Option ℕ}
    (target : ∀ next ∈ link, next ∈ all) : ∃ trail, Linked headers.nextOf link trail ∧
      (∀ node ∈ trail, node ∈ all ∧ ∀ next ∈ link, next ≤ node) ∧
      ∀ node ∈ nodes, link.getD stop ≤ node → node ∈ trail := by
  cases link with
  | none =>
      refine ⟨[], rfl, by simp, ?_⟩
      intro node mem above
      have inside := left.below node (left.shaped.sublist.subset mem)
      rw [Option.getD_none] at above
      omega
  | some next =>
      have mem := target next rfl
      clear target
      obtain ⟨distance, isDistance⟩ : ∃ distance, stop - next = distance := ⟨_, rfl⟩
      induction distance using Nat.strong_induction_on generalizing next with
      | _ distance ih =>
          have inside := left.below next mem
          have ahead := left.shaped.ahead next mem
          have reach : ∀ node ∈ nodes, next ≤ node → node ≠ next →
              headers.behind stop next ≤ node := by
            intro node isMember above other
            rcases left.shaped.clear next mem node isMember with low | high
            · omega
            · exact high
          cases further : (headers next).next with
          | none =>
              refine ⟨[next], ⟨rfl, further⟩, by simpa using mem, ?_⟩
              intro node isMember above
              by_contra other
              have bound := reach node isMember above (by simpa using other)
              rw [Headers.behind, further, Option.getD_none] at bound
              have beneath := left.below node (left.shaped.sublist.subset isMember)
              omega
          | some second =>
              rw [Headers.behind_of_next further] at ahead
              have secondMem := left.shaped.target next mem second further
              rcases ih (stop - second) (by omega) second secondMem rfl with
                ⟨trail, linked, within, reaches⟩
              refine ⟨next :: trail, ⟨rfl, ?_⟩, ?_, ?_⟩
              · rw [Headers.nextOf, further]
                exact linked
              · intro node isMember
                rcases List.mem_cons.mp isMember with rfl | isMember
                · exact ⟨mem, by simp⟩
                · rcases within node isMember with ⟨inAll, bound⟩
                  refine ⟨inAll, ?_⟩
                  rintro first isFirst
                  cases isFirst
                  have least := bound second rfl
                  omega
              · intro node isMember above
                by_cases here : node = next
                · simp [here]
                · have bound := reach node isMember above here
                  rw [Headers.behind_of_next further] at bound
                  exact List.mem_cons_of_mem _ (reaches node isMember bound)

variable (left : heap.Left stop all nodes headers) (split : nodes = front ++ block :: back)
  (trailLinked : Linked headers.nextOf link trail) (within : ∀ node ∈ trail, node ∈ all)
  (notBlock : block ∉ trail) (newOut : new ∉ all)

include left split within notBlock newOut

theorem Left.agree_cut {node : ℕ} (mem : node ∈ front ∨ node ∈ trail) :
    cutHeaders headers block new size cutOff link node = headers node := by
  have distinct := left.shaped.linked.nodup
  rw [split, List.nodup_append] at distinct
  apply cutHeaders_of_ne
  · rintro rfl
    rcases mem with inFront | inTrail
    · exact distinct.2.2 node inFront node (by simp) rfl
    · exact notBlock inTrail
  · rintro rfl
    rcases mem with inFront | inTrail
    · exact newOut (left.shaped.sublist.subset (by simp [split, inFront]))
    · exact newOut (within node inTrail)

include trailLinked

theorem Left.linked_cut :
    Linked (cutHeaders headers block new size cutOff link).nextOf heap.freeList
    (front ++ block :: new :: trail) := by
  have inAll : block ∈ all := left.shaped.sublist.subset (by simp [split])
  have different : new ≠ block := by
    rintro rfl
    exact newOut inAll
  have linked := left.shaped.linked
  rw [split, Linked.append_iff] at linked
  rcases linked with ⟨middle, toBlock, isBlock, _⟩
  rw [Linked.append_iff]
  refine ⟨middle, toBlock.congr ?_, isBlock, ?_, ?_⟩
  · intro node mem
    rw [Headers.nextOf, left.agree_cut split within notBlock newOut (.inl mem)]
    rfl
  · rw [Headers.nextOf, cutHeaders_block]
  · rw [Headers.nextOf, cutHeaders_new different]
    apply trailLinked.congr
    intro node mem
    rw [Headers.nextOf, left.agree_cut split within notBlock newOut (.inr mem)]
    rfl

variable (sized : ∀ node ∈ all, node ≠ block →
  node + sizeofBlockHeader + (headers node).size = headers.behind stop node)

include sized

/-- The bytes that the chain claims with the header that was cut off. -/
theorem Left.extent_cut :
    heapStart + (cutHeaders headers block new size cutOff link).extent
      (front ++ block :: new :: trail) +
      link.getD stop = block + (sizeofBlockHeader + size) + (sizeofBlockHeader + cutOff) +
        stop := by
  have inAll : block ∈ all := left.shaped.sublist.subset (by simp [split])
  have different : new ≠ block := by
    rintro rfl
    exact newOut inAll
  have frontEq : (cutHeaders headers block new size cutOff link).extent front =
      headers.extent front :=
    Headers.extent_congr (fun node mem => by
      rw [left.agree_cut split within notBlock newOut (.inl mem)])
  have trailEq : (cutHeaders headers block new size cutOff link).extent trail =
      headers.extent trail :=
    Headers.extent_congr (fun node mem => by
      rw [left.agree_cut split within notBlock newOut (.inr mem)])
  have distinct := left.shaped.linked.nodup
  have linked := left.shaped.linked
  rw [split] at linked distinct
  rw [Linked.append_iff] at linked
  rw [List.nodup_append] at distinct
  rcases linked with ⟨middle, toBlock, isBlock, _⟩
  rw [isBlock] at toBlock
  have frontTotal := @extent_segment _ _ _ _ _ toBlock (fun node mem => sized node
    (left.shaped.sublist.subset (by simp [split, mem]))
    (fun same => distinct.2.2 node mem block (by simp) same))
  have trailTotal :=
    @extent_segment _ _ _ _ _ trailLinked (fun node mem => sized node (within node mem)
    (fun same => notBlock (same ▸ mem)))
  rw [left.isHead, Option.getD_some, Option.getD_some] at frontTotal
  rw [Option.getD_none] at trailTotal
  rw [Headers.extent_append, Headers.extent_cons, Headers.extent_cons, frontEq, trailEq,
    cutHeaders_block, cutHeaders_new different]
  dsimp only
  omega

end CutChain

/-- The call completes exactly if the two parts of the block take up the room up to the link. -/
theorem Left.cuts_iff (left : heap.Left stop all nodes headers)
    (split : nodes = front ++ block :: back)
    {link : Option ℕ} {cutOff blockSize : ℕ} (trailLinked : Linked headers.nextOf link trail)
    (within : ∀ node ∈ trail, node ∈ all) (notBlock : block ∉ trail)
    (reaches : ∀ node ∈ back, node ∈ trail)
    (newOut : newBlock block size ∉ all)
    (sized : ∀ node ∈ all, node ≠ block →
      node + sizeofBlockHeader + (headers node).size = headers.behind stop node)
    (extent : heap.heapCurrent = stop) (covers : Covers nodes headers live)
    (free : (headers block).free = true)
    (newEq : newBlock block size = block + sizeofBlockHeader + size)
    (atLeast : size ≤ blockSize)
    (either : blockSize = size ∨ newBlock block size + sizeofBlockHeader + cutOff = link.getD stop)
    (cuts : Cuts stop block size blockSize cutOff link (fun node => node ∈ all) headers heap
      point) :
    Completes heap point live size ↔
      block + (sizeofBlockHeader + blockSize) + (sizeofBlockHeader + cutOff) = link.getD stop := by
  rcases cuts with ⟨final, finishes, same, has⟩
  have inAll : block ∈ all := left.shaped.sublist.subset (by simp [split])
  have different : newBlock block size ≠ block := by
    intro isBlock
    rw [isBlock] at newOut
    exact newOut inAll
  have linked : Linked (cutHeaders headers block (newBlock block size) blockSize cutOff link).nextOf
      final.freeList (front ++ block :: newBlock block size :: trail) := by
    rw [same.freeList]
    exact left.linked_cut split trailLinked within notBlock newOut
  have members : ∀ node ∈ front ++ block :: newBlock block size :: trail,
      node = newBlock block size ∨ node ∈ all := by
    intro node mem
    simp only [List.mem_append, List.mem_cons] at mem
    rcases mem with inFront | rfl | rfl | inTrail
    · exact .inr (left.shaped.sublist.subset (by simp [split, inFront]))
    · exact .inr inAll
    · exact .inl rfl
    · exact .inr (within node inTrail)
  have total : heapStart +
    (cutHeaders headers block (newBlock block size) blockSize cutOff link).extent
      (front ++ block :: newBlock block size :: trail) + link.getD stop =
        block + (sizeofBlockHeader + blockSize) + (sizeofBlockHeader + cutOff) + stop :=
    left.extent_cut split trailLinked within notBlock newOut sized
  constructor
  · intro completes
    have extentEq := completes.extent_eq finishes has linked members
    rw [same.heapCurrent, extent] at extentEq
    omega
  · intro fits
    have sizes : blockSize = size ∧ newBlock block size + sizeofBlockHeader + cutOff =
        link.getD stop := by
      rcases either with sizeEq | linkEq <;> omega
    have agree : ∀ {node : ℕ}, node ∈ front ∨ node ∈ trail →
        cutHeaders headers block (newBlock block size) blockSize cutOff link node = headers node :=
      fun mem => left.agree_cut split within notBlock newOut mem
    have distinct := left.shaped.linked.nodup
    rw [split, List.nodup_append] at distinct
    have chained : final.Chained stop (front ++ block :: newBlock block size :: trail)
        (cutHeaders headers block (newBlock block size) blockSize cutOff link) := by
      refine ⟨has.mono members, ?_, linked, ?_, left.bounded⟩
      · rw [same.freeList, left.isHead]
      · intro node mem
        simp only [List.mem_append, List.mem_cons] at mem
        rcases mem with inFront | rfl | rfl | inTrail
        · rw [Headers.behind, agree (.inl inFront), sized node
            (left.shaped.sublist.subset (by simp [split, inFront]))
            (fun isBlock => distinct.2.2 node inFront block (by simp) isBlock)]
          rfl
        · rw [Headers.behind, cutHeaders_block]
          dsimp only [Option.getD_some]
          omega
        · rw [Headers.behind, cutHeaders_new different]
          exact sizes.2
        · rw [Headers.behind, agree (.inr inTrail), sized node (within node inTrail)
            (fun isBlock => notBlock (isBlock ▸ inTrail))]
          rfl
    refine .of_chained finishes chained (same.heapCurrent.trans extent) ?_ ?_
    · intro payload bytes isLive
      rcases covers payload bytes isLive with ⟨node, mem, used, sizeEq, payloadEq⟩
      have notTaken : node ≠ block := by
        rintro rfl
        rw [used] at free
        cases free
      have stays : node ∈ front ∨ node ∈ trail := by
        rw [split, List.mem_append, List.mem_cons] at mem
        rcases mem with inFront | isBlock | inBack
        · exact .inl inFront
        · exact absurd isBlock notTaken
        · exact .inr (reaches node inBack)
      refine ⟨node, ?_, ?_⟩
      · simp only [List.mem_append, List.mem_cons]
        tauto
      · rw [agree stays]
        exact ⟨used, sizeEq, payloadEq⟩
    · rintro address isPointer
      cases isPointer
      refine ⟨⟨block, by simp, rfl, ?_⟩, ?_⟩
      · rw [cutHeaders_block]
        exact ⟨rfl, atLeast⟩
      · intro bytes isLive
        rcases covers _ bytes isLive with ⟨node, _, used, _, payloadEq⟩
        rw [Nat.add_right_cancel_iff] at payloadEq
        rw [← payloadEq, free] at used
        cases used

/-- A consistent chain is all that is left of itself. -/
theorem Chained.remains (chained : heap.Chained stop nodes headers) :
    heap.Remains stop nodes nodes headers where
  has := chained.has
  isHead := chained.isHead
  shaped := chained.shaped
  sorted := chained.sorted
  bounded := chained.bounded
  sized := chained.sized

/-- The header that is cut off a block lies in the payload of the block. -/
theorem Chained.cut_inside (chained : heap.Chained stop nodes headers) (mem : block ∈ nodes)
    (room : size + sizeofBlockHeader < (headers block).size) :
    newBlock block size = block + sizeofBlockHeader + size ∧
      (heapStart ≤ newBlock block size ∧ newBlock block size + sizeofBlockHeader ≤ stop) ∧
      CutApart nodes block size := by
  have total := chained.sized block mem
  have ends := chained.behind_le mem
  have bounded := chained.bounded
  have start := (chained.has.inside block mem).1
  have newEq : newBlock block size = block + sizeofBlockHeader + size := Nat.mod_eq_of_lt (by omega)
  refine ⟨newEq, by omega, ?_⟩
  intro node isMember
  rcases Nat.lt_trichotomy node block with before | same | behind
  · have apart := chained.has.apart node isMember block mem before
    omega
  · omega
  · rcases chained.shaped.clear block mem node isMember with low | high <;> omega

/-- Taking a block of a consistent chain completes. -/
theorem Chained.splitSize (chained : heap.Chained stop nodes headers)
    (extent : heap.heapCurrent = stop)
    (covers : Covers nodes headers live) (mem : block ∈ nodes) (free : (headers block).free = true)
    (room : size ≤ (headers block).size) : Completes heap (splitSize size block) live size := by
  have total := chained.sized block mem
  have ends := chained.behind_le mem
  have bounded := chained.bounded
  have start := (chained.has.inside block mem).1
  have accessed : heap.access (KheapPoint.splitSize size block) = some (heap,
      if (headers block).size ≤ (size + sizeofBlockHeader) % 2 ^ 64 then KheapPoint.takeFree block
      else newSize size block (headers block).size) := by
    rw [access, chained.has.load_size mem]
    rfl
  rw [completes_access_iff accessed (by simp)]
  split
  case isTrue whole => exact chained.takeFree extent covers mem free room
  case isFalse more =>
    have larger : size + sizeofBlockHeader < (headers block).size := by
      simp only [sizeofBlockHeader, heapStart] at more total start ⊢
      omega
    rcases chained.cut_inside mem larger with ⟨newEq, inside, gap⟩
    rcases List.append_of_mem mem with ⟨front, back, split⟩
    have linked := chained.linked
    rw [split] at linked
    have tail := (Linked.append_iff.mp linked).choose_spec.2.2
    have distinct := linked.nodup
    rw [List.nodup_append, List.nodup_cons] at distinct
    have cuts := cuts_newSize mem gap inside chained.has (headers block).size
    rw [chained.remains.cuts_iff split tail (fun node isMember => by simp [split, isMember])
      distinct.2.1.1
      (fun _ isMember => isMember) ?_ (fun node isMember _ => chained.sized node isMember) extent
        covers free
      newEq (Nat.le_refl size) (.inl rfl) cuts]
    · have same : (headers.nextOf block).getD stop = headers.behind stop block := rfl
      omega
    · intro isNode
      have apart := gap _ isNode
      simp only [sizeofBlockHeader] at apart
      omega

end Kheap

end Goshkik
