import Goshkik.Memory.KheapTaking

/-!
# Searching after an interrupt

The search goes on from a header that `kfree` may have merged into the block before it.  The links
lead it back to the chain, unless a header on the way offers room for the request.
-/

namespace Goshkik

open KheapPoint

namespace Kheap

/-- The growth for a request finds enough frames. -/
def GrowthSupplied (size : ℕ) (frames : List ℕ) : Prop :=
  size ≤ 2 ^ 64 - 1 - sizeofBlockHeader ∧ totalSize size / pageSizeVmm ≤ frames.length

/-- The rounding of a growth to whole pages wraps unnoticed. -/
def GrowthWraps (size : ℕ) : Prop := size ≤ 2 ^ 64 - 1 - sizeofBlockHeader ∧ PagesWrap size

/-- The first header with room for the request is in the chain.  Without one, a growth appends its
block to the last header, which has to be in the chain then. -/
def SearchesTo (headers : Headers) (nodes : List ℕ) (size : ℕ) (frames : List ℕ) : ℕ → List ℕ → Prop
  | last, [] => GrowthSupplied size frames → last ∈ nodes
  | _, node :: ahead => ((headers node).free = true ∧ size ≤ (headers node).size → node ∈ nodes) ∧
      (¬ ((headers node).free = true ∧ size ≤ (headers node).size) →
        SearchesTo headers nodes size frames node ahead)

variable {heap : Kheap} {stop size block current last : ℕ} {all nodes frames ahead : List ℕ}
  {headers headers' : Headers} {live : ℕ → ℕ → Prop}

theorem SearchesTo.congr (searches : SearchesTo headers nodes size frames last ahead)
    (agree : ∀ node ∈ ahead, headers' node = headers node) :
    SearchesTo headers' nodes size frames last ahead := by
  induction ahead generalizing last with
  | nil => exact searches
  | cons node ahead ih =>
      rcases searches with ⟨fits, unfit⟩
      refine ⟨?_, ?_⟩ <;> rw [agree node (by simp)]
      · exact fits
      · exact fun other =>
          ih (unfit other) (fun next mem => agree next (List.mem_cons_of_mem _ mem))

/-- In the chain the search finds a block of the chain. -/
theorem SearchesTo.of_chain (within : ∀ node ∈ last :: ahead, node ∈ nodes) :
    SearchesTo headers nodes size frames last ahead := by
  induction ahead generalizing last with
  | nil => exact fun _ => within last (by simp)
  | cons node ahead ih =>
      exact ⟨fun _ => within node (by simp), fun _ => ih (fun next mem => within next
        (List.mem_cons_of_mem _ mem))⟩

/-- Taking a block completes exactly if the block is in the chain. -/
theorem Remains.splitSize_iff (remains : heap.Remains stop all nodes headers)
    (extent : heap.heapCurrent = stop) (covers : Covers nodes headers live) (known : block ∈ all)
    (free : (headers block).free = true) (room : size ≤ (headers block).size) :
    Completes heap (splitSize size block) live size ↔ block ∈ nodes := by
  refine ⟨fun completes => ?_, fun mem => remains.chained.splitSize extent covers mem free room⟩
  by_contra gone
  refine remains.not_completes known gone (show TakeAt nodes size block heap
    (splitSize size block) from ⟨rfl, rfl, ?_⟩) completes
  intro blockSize loaded larger node mem
  have loadedSize := remains.has.load_size (show block ∈ all from known)
  rw [loaded, Option.some.injEq] at loadedSize
  subst loadedSize
  have total := remains.sized block known
  have bounds := remains.has.inside block known
  have bounded := remains.bounded
  have ends := remains.behind_le known
  have newEq : newBlock block size = block + sizeofBlockHeader + size := by
    apply Nat.mod_eq_of_lt
    simp only [sizeofBlockHeader, heapStart] at total bounds larger ⊢
    omega
  have inAll := remains.shaped.sublist.subset mem
  rcases Nat.lt_trichotomy node block with before | same | behind
  · have apart := remains.has.apart node inAll block known before
    omega
  · exact absurd (same ▸ mem) gone
  · rcases remains.shaped.clear block known node mem with low | high
    · omega
    · have cut : size + sizeofBlockHeader < (headers block).size := by
        simp only [sizeofBlockHeader, heapStart] at larger total bounds ⊢
        omega
      omega

/-- A block with room is too small for a request whose growth wraps. -/
theorem Remains.not_wraps (remains : heap.Remains stop all nodes headers) (known : block ∈ all)
    (room : size ≤ (headers block).size) : ¬ GrowthWraps size := by
  rintro ⟨_, wraps⟩
  have total := remains.sized block known
  have bounds := remains.has.inside block known
  have bounded := remains.bounded
  have ends := remains.behind_le known
  simp only [PagesWrap, sizeofBlockHeader, pageSizeVmm, heapStart] at wraps total bounds
  omega

section Search

variable (remains : heap.Remains stop all nodes headers) (extent : heap.heapCurrent = stop)
  (aligned : pageSizeVmm ∣ stop) (fresh : heap.FreshFrames frames)
  (space : stop + frames.length * pageSizeVmm < 2 ^ 64) (covers : Covers nodes headers live)

include remains extent aligned fresh space covers

/-- Without a block the heap grows behind the last header that the search has found. -/
theorem Remains.grow_iff (known : last ∈ all) (noLink : (headers last).next = none) :
    Completes heap (grow size frames (some last)) live size ↔
      ¬ GrowthWraps size ∧ (GrowthSupplied size frames → last ∈ nodes) := by
  unfold grow
  split
  case isTrue large =>
    have refused : ¬ size ≤ 2 ^ 64 - 1 - sizeofBlockHeader := by omega
    refine ⟨fun _ => ⟨fun wraps => refused wraps.1, fun supplied => absurd supplied.1 refused⟩,
      fun _ => ?_⟩
    exact .of_chained (.returned _ _) remains.chained extent covers (by simp)
  case isFalse small =>
    have fits : size ≤ 2 ^ 64 - 1 - sizeofBlockHeader := by omega
    have here : GrowAt stop size last heap (growBase (totalSize size) (some last) frames) :=
      ⟨rfl, rfl, extent, fresh, space⟩
    rw [remains.growth_iff known noLink aligned covers fits here]
    simp only [GrowthWraps, GrowthSupplied, fits, true_and]
    rfl

omit aligned fresh space in
theorem Remains.searchSize_iff (known : current ∈ all) (free : (headers current).free = true)
    (rest : Completes heap (searchNext size frames current) live size ↔
      ¬ GrowthWraps size ∧ SearchesTo headers nodes size frames current ahead) :
    Completes heap (searchSize size frames current) live size ↔
      ¬ GrowthWraps size ∧ SearchesTo headers nodes size frames last (current :: ahead) := by
  have accessed : heap.access (searchSize size frames current) = some (heap,
      if size ≤ (headers current).size then splitSize size current
        else searchNext size frames current) := by
    rw [access, remains.has.load_size (show current ∈ all from known)]
    rfl
  rw [completes_access_iff accessed (by simp), SearchesTo]
  by_cases room : size ≤ (headers current).size
  · rw [if_pos room, remains.splitSize_iff extent covers known free room]
    have small := remains.not_wraps known room
    tauto
  · rw [if_neg room, rest]
    tauto

omit aligned fresh space in
theorem Remains.searchFree_iff (known : current ∈ all)
    (rest : Completes heap (searchNext size frames current) live size ↔
      ¬ GrowthWraps size ∧ SearchesTo headers nodes size frames current ahead) :
    Completes heap (searchFree size frames current) live size ↔
      ¬ GrowthWraps size ∧ SearchesTo headers nodes size frames last (current :: ahead) := by
  have accessed : heap.access (searchFree size frames current) = some (heap,
      if (headers current).free.toNat ≠ 0 then searchSize size frames current
      else searchNext size frames current) := by
    rw [access, remains.has.load_free (show current ∈ all from known)]
    rfl
  rw [completes_access_iff accessed (by simp)]
  cases free : (headers current).free with
  | true =>
      rw [if_pos (by decide)]
      exact remains.searchSize_iff extent covers known free rest
  | false =>
      rw [if_neg (by decide), rest, SearchesTo, free]
      simp

omit covers in
theorem Remains.searchNext_iff (covers : Covers nodes headers live)
    (known : ∀ node ∈ current :: ahead, node ∈ all)
    (linked : Linked headers.nextOf (some current) (current :: ahead)) :
    Completes heap (searchNext size frames current) live size ↔
      ¬ GrowthWraps size ∧ SearchesTo headers nodes size frames current ahead := by
  induction ahead generalizing current with
  | nil =>
      have noLink : (headers current).next = none := linked.2
      have mem := known current (by simp)
      have accessed : heap.access (searchNext size frames current) =
          some (heap, grow size frames (some current)) := by
        rw [access, remains.has.loadPointer_next (show current ∈ all from mem), noLink]
        rfl
      rw [completes_access_iff accessed (by simp)]
      exact remains.grow_iff extent aligned fresh space covers mem noLink
  | cons next ahead ih =>
      have link : (headers current).next = some next := linked.2.1
      have tail : Linked headers.nextOf (some next) (next :: ahead) := by
        rw [← link]
        exact linked.2
      have accessed : heap.access (searchNext size frames current) =
          some (heap, searchFree size frames next) := by
        rw [access, remains.has.loadPointer_next (show current ∈ all from known current (by simp)),
          link]
        rfl
      rw [completes_access_iff accessed (by simp)]
      exact remains.searchFree_iff extent covers (known next (by simp))
        (ih (fun node mem => known node (List.mem_cons_of_mem _ mem)) tail)

/-- A search from the beginning. -/
theorem Remains.allocFirst_iff :
    Completes heap (allocFirst size frames) live size ↔ ¬ GrowthWraps size := by
  have linked := remains.shaped.linked
  have accessed : heap.access (allocFirst size frames) =
      some (heap, searchFree size frames heapStart) := by
    rw [access, remains.isHead]
  rw [completes_access_iff accessed (by simp)]
  cases nodes with
  | nil =>
      rw [remains.isHead] at linked
      cases linked
  | cons first ahead =>
      have isFirst := linked.1
      rw [remains.isHead, Option.some.injEq] at isFirst
      subst isFirst
      have within : ∀ node ∈ heapStart :: ahead, node ∈ all :=
        fun node mem => remains.shaped.sublist.subset mem
      have rest : Completes heap (searchNext size frames heapStart) live size ↔ ¬ GrowthWraps size ∧
          SearchesTo headers (heapStart :: ahead) size frames heapStart ahead :=
        remains.searchNext_iff extent aligned fresh space covers within ⟨rfl, linked.2⟩
      rw [@Remains.searchFree_iff _ _ _ _ heapStart _ _ _ _ _ _ remains extent covers
        (within heapStart (by simp)) rest]
      refine ⟨fun both => both.1, fun small => ⟨small, ?_⟩⟩
      exact .of_chain (by simp)

end Search

end Kheap

end Goshkik
