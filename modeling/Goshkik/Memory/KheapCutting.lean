import Goshkik.Memory.KheapSearching

/-!
# Cutting a block after an interrupt

Which of the accesses of `split_block` may be interrupted, and by which merges.
-/

namespace Goshkik

open KheapPoint

namespace Kheap

variable {heap : Kheap} {stop size block cutOff : ℕ} {all nodes : List ℕ} {headers : Headers}
  {live : ℕ → ℕ → Prop} {point : KheapPoint} {link other : Option ℕ}

theorem getD_inj (known : ∀ next ∈ link, next < stop) (otherKnown : ∀ next ∈ other, next < stop)
    (same : link.getD stop = other.getD stop) : link = other := by
  cases link with
  | none =>
      cases other with
      | none => rfl
      | some next =>
          have less := otherKnown next rfl
          rw [Option.getD_none, Option.getD_some] at same
          omega
  | some next =>
      have less := known next rfl
      cases other with
      | none =>
          rw [Option.getD_none, Option.getD_some] at same
          omega
      | some second => rw [show next = second from same]

/-- The block that is cut and the link that it had when it was chosen: the header that is cut off
fills the payload up to there. -/
structure Chosen (stop : ℕ) (all : List ℕ) (size block cutOff : ℕ) (link : Option ℕ) : Prop where
  known : block ∈ all
  newEq : newBlock block size = block + sizeofBlockHeader + size
  inside : heapStart ≤ newBlock block size ∧ newBlock block size + sizeofBlockHeader ≤ stop
  gap : CutApart all block size
  linkKnown : ∀ next ∈ link, next ∈ all
  linkClear : ∀ node ∈ all, node ≤ block ∨ link.getD stop ≤ node
  filled : newBlock block size + sizeofBlockHeader + cutOff = link.getD stop

namespace Chosen

variable (chosen : Chosen stop all size block cutOff link)

include chosen

theorem newOut : newBlock block size ∉ all := by
  intro mem
  have apart := chosen.gap _ mem
  simp only [sizeofBlockHeader] at apart
  omega

theorem gap_nodes (sub : nodes.Sublist all) : CutApart nodes block size :=
  fun node mem => chosen.gap node (sub.subset mem)

theorem block_lt : block < link.getD stop := by
  have newEq := chosen.newEq
  have filled := chosen.filled
  simp only [sizeofBlockHeader] at newEq filled
  omega

/-- The links from the old link on, which reach every block of the chain behind. -/
theorem trail (left : heap.Left stop all nodes headers) (mem : block ∈ nodes) :
    ∃ front back trail, nodes = front ++ block :: back ∧ Linked headers.nextOf link trail ∧
      (∀ node ∈ trail, node ∈ all) ∧ block ∉ trail ∧ ∀ node ∈ back, node ∈ trail := by
  rcases List.append_of_mem mem with ⟨front, back, split⟩
  rcases left.path chosen.linkKnown with ⟨trail, linked, within, reaches⟩
  refine ⟨front, back, trail, split, linked, fun node isMember => (within node isMember).1, ?_, ?_⟩
  · intro isMember
    cases link with
    | none =>
        cases trail with
        | nil => simp at isMember
        | cons first trail => exact absurd linked.1 (by simp)
    | some next =>
        have above := (within block isMember).2 next rfl
        have less := chosen.block_lt
        rw [Option.getD_some] at less
        omega
  · intro node inBack
    apply reaches node (by simp [split, inBack])
    have inAll : node ∈ all := left.shaped.sublist.subset (by simp [split, inBack])
    rcases chosen.linkClear node inAll with low | high
    · have sorted := left.sorted.sublist left.shaped.sublist
      rw [split, List.pairwise_append, List.pairwise_cons] at sorted
      have above := sorted.2.1.1 node inBack
      omega
    · exact high

/-- The size of the new header was computed, and the link is read again. -/
theorem reread_iff (remains : heap.Remains stop all nodes headers)
    (extent : heap.heapCurrent = stop)
    (covers : Covers nodes headers live) (free : (headers block).free = true)
    (here : TakeAt nodes size block heap point)
    (cuts : Cuts stop block size size cutOff (headers block).next (fun node => node ∈ all) headers
      heap point) :
    Completes heap point live size ↔ block ∈ nodes ∧ (headers block).next = link := by
  have newEq := chosen.newEq
  have filled := chosen.filled
  have completesIff : block ∈ nodes →
      (Completes heap point live size ↔ (headers block).next.getD stop = link.getD stop) := by
    intro mem
    rcases List.append_of_mem mem with ⟨front, back, split⟩
    have linked := remains.shaped.linked
    rw [split] at linked
    have tail := (Linked.append_iff.mp linked).choose_spec.2.2
    have distinct := linked.nodup
    rw [List.nodup_append, List.nodup_cons] at distinct
    rw [remains.cuts_iff split tail
      (fun node isMember => remains.shaped.sublist.subset (by simp [split, isMember]))
        distinct.2.1.1
      (fun _ isMember => isMember) chosen.newOut (fun node isMember _ =>
        remains.sized node isMember) extent
      covers free newEq (Nat.le_refl size) (.inl rfl) cuts]
    have same : (headers.nextOf block).getD stop = (headers block).next.getD stop := rfl
    omega
  constructor
  · intro completes
    have mem : block ∈ nodes := by
      by_contra gone
      exact remains.not_completes chosen.known gone here completes
    refine ⟨mem, @getD_inj stop _ _ ?_ ?_ ((completesIff mem).mp completes)⟩
    · exact fun next isNext =>
        remains.below next (remains.shaped.target block chosen.known next isNext)
    · exact fun next isNext => remains.below next (chosen.linkKnown next isNext)
  · rintro ⟨mem, sameLink⟩
    rw [completesIff mem, sameLink]

/-- The link that was read before is written.  When `kfree` has merged the block behind, this puts
it back into the chain. -/
theorem kept_iff (remains : heap.Remains stop all nodes headers) (extent : heap.heapCurrent = stop)
    (covers : Covers nodes headers live) (free : (headers block).free = true)
    (here : TakeAt nodes size block heap point)
    (cuts : Cuts stop block size size cutOff link (fun node => node ∈ all) headers heap point) :
    Completes heap point live size ↔ block ∈ nodes := by
  have newEq := chosen.newEq
  have filled := chosen.filled
  constructor
  · intro completes
    by_contra gone
    exact remains.not_completes chosen.known gone here completes
  · intro mem
    rcases chosen.trail remains.toLeft mem with
      ⟨front, back, trail, split, linked, within, notBlock, reaches⟩
    rw [remains.cuts_iff split linked within notBlock reaches chosen.newOut
      (fun node isMember _ => remains.sized node isMember) extent covers free newEq
        (Nat.le_refl size)
      (.inl rfl) cuts]
    omega

/-- The block has its new size already, and the link is still the old one. -/
theorem shrunk_iff (left : heap.Left stop all nodes headers) (extent : heap.heapCurrent = stop)
    (covers : Covers nodes headers live) (free : (headers block).free = true)
    (here : TakeAt nodes size block heap point)
    (sized : block ∈ nodes → ∀ node ∈ all, node ≠ block →
      node + sizeofBlockHeader + (headers node).size = headers.behind stop node)
    (grown : ((headers block).size = size ∧ (headers block).next = link) ∨
      (size < (headers block).size ∧ link.getD stop < headers.behind stop block))
    (cuts : Cuts stop block size (headers block).size cutOff link (fun node => node ∈ all) headers
      heap point) :
    Completes heap point live size ↔ block ∈ nodes ∧ (headers block).next = link := by
  have newEq := chosen.newEq
  have filled := chosen.filled
  have completesIff : block ∈ nodes →
      (Completes heap point live size ↔ (headers block).size = size) := by
    intro mem
    rcases chosen.trail left mem with ⟨front, back, trail, split, linked, within, notBlock, reaches⟩
    have atLeast : size ≤ (headers block).size := by omega
    rw [left.cuts_iff split linked within notBlock reaches chosen.newOut (sized mem) extent covers
      free newEq
      atLeast (.inr filled) cuts]
    omega
  constructor
  · intro completes
    have mem : block ∈ nodes := by
      by_contra gone
      exact left.not_completes chosen.known gone here completes
    have sizeEq := (completesIff mem).mp completes
    refine ⟨mem, ?_⟩
    rcases grown with ⟨_, same⟩ | ⟨less, _⟩
    · exact same
    · omega
  · rintro ⟨mem, sameLink⟩
    rw [completesIff mem]
    rcases grown with ⟨same, _⟩ | ⟨_, less⟩
    · exact same
    · rw [Headers.behind, sameLink] at less
      omega

end Chosen

end Kheap

end Goshkik
