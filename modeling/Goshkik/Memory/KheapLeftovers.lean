import Goshkik.Memory.KheapHeaders

/-!
# Headers that have left the chain

A block that is merged into the one before it leaves its header behind, with the link and the size
that it had.  From such a header the links lead on to others that are left behind, and then back to
the chain.
-/

namespace Goshkik

/-- The end of a block: the next one of its link, or the end of the heap. -/
def Headers.behind (headers : Headers) (stop node : ℕ) : ℕ := (headers node).next.getD stop

/-- The blocks of a chain among all the blocks there were, in the order of their addresses.  The
extent of a block has no block of the chain inside, and a block that is not in the chain any more
lies in the extent of a free one. -/
structure Shaped (head : Option ℕ) (stop : ℕ) (all : List ℕ) (headers : Headers) (nodes : List ℕ) :
    Prop where
  linked : Linked headers.nextOf head nodes
  sublist : nodes.Sublist all
  ahead : ∀ node ∈ all, node < headers.behind stop node
  target : ∀ node ∈ all, ∀ next, (headers node).next = some next → next ∈ all
  clear : ∀ node ∈ all, ∀ other ∈ nodes, other ≤ node ∨ headers.behind stop node ≤ other
  covered : ∀ node ∈ all, node ∉ nodes → (headers node).free = true ∧
    ∃ cover ∈ nodes, (headers cover).free = true ∧ cover < node ∧
      headers.behind stop node ≤ headers.behind stop cover

/-- Sizes that fit the links. -/
def Sized (stop : ℕ) (all : List ℕ) (headers : Headers) : Prop :=
  ∀ node ∈ all, node + sizeofBlockHeader + (headers node).size = headers.behind stop node

namespace Headers

variable {headers : Headers} {stop node next : ℕ}

theorem behind_of_next (link : (headers node).next = some next) :
    headers.behind stop node = next := by
  rw [behind, link, Option.getD_some]

theorem behind_setFree (headers : Headers) (stop node : ℕ) (free : Bool) (other : ℕ) :
    (headers.setFree node free).behind stop other = headers.behind stop other := by
  rw [behind, behind, setFree_next]

theorem behind_absorb_self (headers : Headers) (stop node next : ℕ) :
    (headers.absorb node next).behind stop node = headers.behind stop next := by
  rw [behind, absorb_self]
  rfl

theorem behind_absorb_of_ne {other : ℕ} (different : other ≠ node) (next : ℕ) :
    (headers.absorb node next).behind stop other = headers.behind stop other := by
  rw [behind, absorb_of_ne different]
  rfl

end Headers

namespace Shaped

variable {head : Option ℕ} {stop : ℕ} {all nodes front back : List ℕ} {headers : Headers}
  {node next : ℕ}

theorem setFree (shaped : Shaped head stop all headers nodes) (node : ℕ) :
    Shaped head stop all (headers.setFree node true) nodes := by
  have stays : ∀ other, (headers other).free = true → (headers.setFree node true other).free =
      true := by
    intro other free
    by_cases same : other = node
    · rw [same, Headers.setFree_self]
    · rw [Headers.setFree_of_ne same, free]
  refine ⟨shaped.linked.congr (fun _ _ => Headers.setFree_next ..), shaped.sublist, ?_, ?_, ?_, ?_⟩
  · intro other mem
    rw [Headers.behind_setFree]
    exact shaped.ahead other mem
  · intro other mem next link
    rw [Headers.setFree_next] at link
    exact shaped.target other mem next link
  · intro other mem
    rw [Headers.behind_setFree]
    exact shaped.clear other mem
  · intro other mem gone
    rcases shaped.covered other mem gone with ⟨free, cover, overMem, overFree, before, inside⟩
    refine ⟨stays other free, cover, overMem, stays cover overFree, before, ?_⟩
    rw [Headers.behind_setFree, Headers.behind_setFree]
    exact inside

theorem absorb (shaped : Shaped head stop all headers (front ++ node :: next :: back))
    (free : (headers node).free = true) (nextFree : (headers next).free = true) :
    Shaped head stop all (headers.absorb node next) (front ++ node :: back) := by
  have link : (headers node).next = some next := shaped.linked.next_eq
  have nodeMem : node ∈ all := shaped.sublist.subset (by simp)
  have nextMem : next ∈ all := shaped.sublist.subset (by simp)
  have before : node < next := by
    have ahead := shaped.ahead node nodeMem
    rwa [Headers.behind_of_next link] at ahead
  have kept : ∀ other ∈ front ++ node :: back, other ∈ front ++ node :: next :: back ∧
      other ≠ next := by
    have distinct := shaped.linked.nodup
    simp only [List.nodup_append, List.nodup_cons, List.mem_cons] at distinct
    intro other mem
    refine ⟨by simp only [List.mem_append, List.mem_cons] at mem ⊢; tauto, ?_⟩
    rintro rfl
    simp only [List.mem_append, List.mem_cons] at mem
    rcases mem with inFront | here | inBack
    · exact distinct.2.2 other inFront other (.inr (.inl rfl)) rfl
    · omega
    · exact distinct.2.1.2.1 inBack
  refine ⟨Headers.linked_absorb shaped.linked, List.Sublist.trans (List.Sublist.append_left
    ((List.sublist_cons_self next back).cons_cons node) front) shaped.sublist, ?_, ?_, ?_, ?_⟩
  · intro other mem
    by_cases same : other = node
    · rw [same, Headers.behind_absorb_self]
      have ahead := shaped.ahead next nextMem
      omega
    · rw [Headers.behind_absorb_of_ne same]
      exact shaped.ahead other mem
  · intro other mem target isTarget
    by_cases same : other = node
    · rw [same, Headers.absorb_self] at isTarget
      exact shaped.target next nextMem target isTarget
    · rw [Headers.absorb_of_ne same] at isTarget
      exact shaped.target other mem target isTarget
  · intro other mem member isMember
    rcases kept member isMember with ⟨wasMember, notNext⟩
    by_cases same : other = node
    · rw [same, Headers.behind_absorb_self]
      rcases shaped.clear node nodeMem member wasMember with low | high
      · exact .inl low
      · rw [Headers.behind_of_next link] at high
        rcases shaped.clear next nextMem member wasMember with low | behind
        · omega
        · exact .inr behind
    · rw [Headers.behind_absorb_of_ne same]
      exact shaped.clear other mem member wasMember
  · intro other mem gone
    have isFree : ∀ member, (headers.absorb node next member).free = (headers member).free :=
      fun member => Headers.absorb_free ..
    have notNode : other ≠ node := by
      rintro rfl
      simp at gone
    rw [isFree, Headers.behind_absorb_of_ne notNode]
    by_cases isNext : other = next
    · subst isNext
      refine ⟨nextFree, node, by simp, by rw [isFree, free], before, ?_⟩
      rw [Headers.behind_absorb_self]
    · have wasGone : other ∉ front ++ node :: next :: back := by
        simp only [List.mem_append, List.mem_cons] at gone ⊢
        tauto
      rcases shaped.covered other mem wasGone with
        ⟨otherFree, cover, overMem, overFree, low, inside⟩
      refine ⟨otherFree, ?_⟩
      by_cases overNext : cover = next
      · subst overNext
        refine ⟨node, by simp, by rw [isFree, free], by omega, ?_⟩
        rw [Headers.behind_absorb_self]
        exact inside
      · refine ⟨cover, ?_, by rw [isFree, overFree], low, ?_⟩
        · simp only [List.mem_append, List.mem_cons] at overMem ⊢
          tauto
        · by_cases overNode : cover = node
          · subst overNode
            rw [Headers.behind_of_next link] at inside
            have ahead := shaped.ahead next nextMem
            rw [Headers.behind_absorb_self]
            omega
          · rw [Headers.behind_absorb_of_ne overNode]
            exact inside

end Shaped

theorem Sized.setFree {stop : ℕ} {all : List ℕ} {headers : Headers} (sized : Sized stop all headers)
    (node : ℕ) (free : Bool) : Sized stop all (headers.setFree node free) := by
  intro other mem
  rw [Headers.behind_setFree, Headers.setFree_size]
  exact sized other mem

theorem Sized.absorb {stop node next : ℕ} {all : List ℕ} {headers : Headers}
    (sized : Sized stop all headers) (nodeMem : node ∈ all) (nextMem : next ∈ all)
    (link : (headers node).next = some next) : Sized stop all (headers.absorb node next) := by
  intro other mem
  by_cases same : other = node
  · rw [same, Headers.behind_absorb_self, Headers.absorb_self]
    have size := sized node nodeMem
    have nextSize := sized next nextMem
    rw [Headers.behind_of_next link] at size
    dsimp only
    omega
  · rw [Headers.behind_absorb_of_ne same, Headers.absorb_of_ne same]
    exact sized other mem

namespace Shaped

variable {head : Option ℕ} {stop : ℕ} {all nodes nodes' pointers : List ℕ} {headers last : Headers}

/-- At first every block is in the chain. -/
theorem whole (linked : Linked headers.nextOf head all) (sorted : all.Pairwise (· < ·))
    (below : ∀ node ∈ all, node < stop) : Shaped head stop all headers all := by
  have behindEq : ∀ front node back, all = front ++ node :: back →
      headers.behind stop node = back.head?.getD stop := by
    rintro front node back rfl
    have link : (headers node).next = back.head? := linked.next_eq
    rw [Headers.behind, link]
  have order : ∀ node ∈ all, node < headers.behind stop node ∧
      ∀ other ∈ all, other ≤ node ∨ headers.behind stop node ≤ other := by
    intro node mem
    rcases List.append_of_mem mem with ⟨front, back, split⟩
    rw [behindEq front node back split]
    rw [split, List.pairwise_append, List.pairwise_cons] at sorted
    rcases sorted with ⟨_, ⟨first, inBack⟩, across⟩
    cases back with
    | nil =>
        refine ⟨below node mem, ?_⟩
        intro other otherMem
        rw [split, List.mem_append, List.mem_singleton] at otherMem
        rcases otherMem with inFront | rfl
        · exact .inl (Nat.le_of_lt (across other inFront node (by simp)))
        · exact .inl (Nat.le_refl other)
    | cons next back =>
        refine ⟨first next (by simp), ?_⟩
        intro other otherMem
        rw [split, List.mem_append, List.mem_cons, List.mem_cons] at otherMem
        rw [List.pairwise_cons] at inBack
        rcases otherMem with inFront | rfl | rfl | further
        · exact .inl (Nat.le_of_lt (across other inFront node (by simp)))
        · exact .inl (Nat.le_refl other)
        · exact .inr (Nat.le_refl other)
        · exact .inr (Nat.le_of_lt (inBack.1 other further))
  refine ⟨linked, List.Sublist.refl all, fun node mem => (order node mem).1, ?_,
    fun node mem => (order node mem).2, fun node mem gone => absurd mem gone⟩
  intro node mem next link
  rcases List.append_of_mem mem with ⟨front, back, split⟩
  have isHead : (headers node).next = back.head? := by
    rw [split] at linked
    exact linked.next_eq
  rw [isHead] at link
  rw [split]
  have inBack := List.mem_of_mem_head? link
  simp [inBack]

theorem freed (shaped : Shaped head stop all headers nodes)
    (freed : Freed headers nodes pointers last nodes') : Shaped head stop all last nodes' :=
  freed.invariant (motive := fun middle reached => Shaped head stop all middle reached) shaped
    (fun _ _ node _ middleShaped => middleShaped.setFree node)
    (fun _ _ _ _ _ _ free nextFree middleShaped => middleShaped.absorb free nextFree)

theorem sized (shaped : Shaped head stop all headers nodes) (sized : Sized stop all headers)
    (freed : Freed headers nodes pointers last nodes') : Sized stop all last := by
  have both : Shaped head stop all last nodes' ∧ Sized stop all last := by
    refine freed.invariant (motive := fun middle reached =>
      Shaped head stop all middle reached ∧ Sized stop all middle) ⟨shaped, sized⟩ ?_ ?_
    · rintro middle reached node _ ⟨middleShaped, middleSized⟩
      exact ⟨middleShaped.setFree node, middleSized.setFree node true⟩
    · rintro middle front node next back _ free nextFree ⟨middleShaped, middleSized⟩
      exact ⟨middleShaped.absorb free nextFree, middleSized.absorb
        (middleShaped.sublist.subset (by simp)) (middleShaped.sublist.subset (by simp))
        middleShaped.linked.next_eq⟩
  exact both.2

/-- In a settled chain the neighbour of a free block is in use. -/
theorem neighbour_used (shaped : Shaped head stop all headers nodes)
    (settled : headers.Settled nodes)
    {node next : ℕ} (mem : node ∈ nodes) (free : (headers node).free = true) (below : next < stop)
    (reached : headers.behind stop node = next) : (headers next).free = false := by
  have link : (headers node).next = some next := by
    unfold Headers.behind at reached
    cases isNext : (headers node).next with
    | none =>
        rw [isNext, Option.getD_none] at reached
        omega
    | some other =>
        rw [isNext, Option.getD_some] at reached
        rw [reached]
  rcases List.append_of_mem mem with ⟨front, back, split⟩
  have linked := shaped.linked
  rw [split] at linked
  have isHead : back.head? = some next := by
    rw [← linked.next_eq]
    exact link
  cases back with
  | nil => cases isHead
  | cons first back =>
      cases isHead
      unfold Headers.Settled at settled
      rw [split, List.isChain_append_cons_cons] at settled
      rw [← Bool.not_eq_true]
      exact fun nextFree => settled.2.1 ⟨free, nextFree⟩

/-- A block left behind lies in a free block of the chain, whose neighbour is in use. -/
theorem over_neighbour (shaped : Shaped head stop all headers nodes)
    (settled : headers.Settled nodes)
    {node next : ℕ} (mem : node ∈ all) (gone : node ∉ nodes) (below : next < stop)
    (reached : headers.behind stop node = next) (nextMem : next ∈ nodes) :
    (headers next).free = false := by
  rcases shaped.covered node mem gone with ⟨_, cover, overMem, overFree, before, inside⟩
  have ahead := shaped.ahead node mem
  apply shaped.neighbour_used settled overMem overFree below
  rcases shaped.clear cover (shaped.sublist.subset overMem) next nextMem with low | high
  · omega
  · omega

/-- From a header the links lead along headers that are left behind and then along the chain. -/
theorem trail (shaped : Shaped head stop all headers nodes) (settled : headers.Settled nodes)
    (sorted : nodes.Pairwise (· < ·)) (below : ∀ node ∈ all, node < stop) {node : ℕ}
    (mem : node ∈ all) :
    ∃ gone rest front, nodes = front ++ rest ∧ Linked headers.nextOf (some node) (gone ++ rest) ∧
      (∀ other ∈ gone, other ∈ all ∧ other ∉ nodes) ∧ (∀ other ∈ front, other < node) ∧
      (∀ other ∈ rest, node ≤ other) ∧ (node ∈ nodes → gone = []) ∧ (node ∉ nodes → gone ≠ []) ∧
      (gone ≠ [] → ∀ first ∈ rest.head?, (headers first).free = false) := by
  induction distance : stop - node using Nat.strong_induction_on generalizing node with
  | h distance ih =>
      by_cases inChain : node ∈ nodes
      · rcases List.append_of_mem inChain with ⟨front, back, split⟩
        have linked := shaped.linked
        rw [split] at linked sorted
        rcases Linked.append_iff.mp linked with ⟨middle, _, tail⟩
        rw [List.pairwise_append, List.pairwise_cons] at sorted
        refine ⟨[], node :: back, front, split, ?_, by simp, ?_, ?_, fun _ => rfl,
          fun gone => absurd inChain gone, fun nonempty => absurd rfl nonempty⟩
        · rw [List.nil_append, ← tail.1]
          exact tail
        · intro other isMember
          exact sorted.2.2 other isMember node (by simp)
        · intro other isMember
          rcases List.mem_cons.mp isMember with rfl | inBack
          · exact Nat.le_refl other
          · exact Nat.le_of_lt (sorted.2.1.1 other inBack)
      · have ahead := shaped.ahead node mem
        cases link : (headers node).next with
        | none =>
            have isEnd : headers.behind stop node = stop := by
              rw [Headers.behind, link, Option.getD_none]
            refine ⟨[node], [], nodes, by simp, ⟨rfl, link⟩, by simp [mem, inChain], ?_, by simp,
              fun isMember => absurd isMember inChain, by simp, by simp⟩
            intro other isMember
            have low := below other (shaped.sublist.subset isMember)
            have different : other ≠ node := by
              rintro rfl
              exact inChain isMember
            rcases shaped.clear node mem other isMember with atMost | atLeast
            · omega
            · omega
        | some next =>
            have isEnd : headers.behind stop node = next := Headers.behind_of_next link
            have nextMem := shaped.target node mem next link
            have nextBelow := below next nextMem
            rcases ih (stop - next) (by omega) nextMem rfl with
              ⟨gone, rest, front, split, linked, outside, low, high, noneGone, someGone, boundary⟩
            refine ⟨node :: gone, rest, front, split, ⟨rfl, ?_⟩, ?_, ?_, ?_,
              fun isMember => absurd isMember inChain, by simp, fun _ => ?_⟩
            · rw [Headers.nextOf, link]
              exact linked
            · intro other isMember
              rcases List.mem_cons.mp isMember with rfl | further
              · exact ⟨mem, inChain⟩
              · exact outside other further
            · intro other isMember
              have isNode : other ∈ nodes := by
                rw [split]
                exact List.mem_append_left _ isMember
              have different : other ≠ node := by
                rintro rfl
                exact inChain isNode
              have lower := low other isMember
              rcases shaped.clear node mem other isNode with atMost | atLeast
              · omega
              · omega
            · intro other isMember
              have atLeast := high other isMember
              omega
            · by_cases nextInChain : next ∈ nodes
              · have gonEq := noneGone nextInChain
                rw [gonEq, List.nil_append] at linked
                intro first isFirst
                have same : first = next := by
                  have isHead := linked.eq_head?
                  rw [Option.mem_def.mp isFirst, Option.some.injEq] at isHead
                  exact isHead.symm
                rw [same]
                exact shaped.over_neighbour settled mem inChain nextBelow isEnd nextInChain
              · exact boundary (someGone nextInChain)

end Shaped

/-- Merging among headers that are left behind does not touch the chain that follows. -/
theorem Merges.apart {headers last : Headers} {gone rest nodes' : List ℕ}
    (merges : Merges headers (gone ++ rest) last nodes') (settled : headers.Settled rest)
    (outside : ∀ node ∈ rest, node ∉ gone)
    (boundary : ∀ first ∈ rest.head?, (headers first).free = false) :
    ∀ node, node ∉ gone → last node = headers node := by
  have both : ∃ left, nodes' = left ++ rest ∧ (∀ node ∈ left, node ∈ gone) ∧
      ∀ node, node ∉ gone → last node = headers node := by
    refine merges.invariant (motive := fun middle reached => ∃ left, reached = left ++ rest ∧
      (∀ node ∈ left, node ∈ gone) ∧ ∀ node, node ∉ gone → middle node = headers node)
      ⟨gone, rfl, fun _ mem => mem, fun _ _ => rfl⟩ ?_
    rintro middle front node next back _ free nextFree ⟨left, split, within, same⟩
    have restFree : ∀ other ∈ rest, (middle other).free = (headers other).free :=
      fun other mem => by rw [same other (outside other mem)]
    rcases List.append_eq_append_iff.mp split.symm with ⟨part, _, inRest⟩ | ⟨part, inLeft, restEq⟩
    · exfalso
      unfold Headers.Settled at settled
      rw [inRest, List.isChain_append_cons_cons] at settled
      apply settled.2.1
      rw [← restFree node (by simp [inRest]), ← restFree next (by simp [inRest])]
      exact ⟨free, nextFree⟩
    · cases part with
      | nil =>
          exfalso
          rw [List.nil_append] at restEq
          unfold Headers.Settled at settled
          rw [← restEq, List.isChain_cons_cons] at settled
          apply settled.1
          rw [← restFree node (by simp [← restEq]), ← restFree next (by simp [← restEq])]
          exact ⟨free, nextFree⟩
      | cons first part =>
          rw [List.cons_append, List.cons.injEq] at restEq
          rcases restEq with ⟨rfl, restEq⟩
          cases part with
          | nil =>
              exfalso
              rw [List.nil_append] at restEq
              have used := boundary next (by simp [← restEq])
              rw [restFree next (by simp [← restEq]), used] at nextFree
              cases nextFree
          | cons second part =>
              rw [List.cons_append, List.cons.injEq] at restEq
              rcases restEq with ⟨rfl, restEq⟩
              refine ⟨front ++ node :: part, by simp [restEq], ?_, ?_⟩
              · intro other mem
                apply within
                rw [inLeft]
                simp only [List.mem_append, List.mem_cons] at mem ⊢
                tauto
              · intro other notGone
                rw [Headers.absorb_of_ne, same other notGone]
                rintro rfl
                apply notGone
                apply within
                simp [inLeft]
  rcases both with ⟨_, _, _, same⟩
  exact same

namespace Freed

variable {head : Option ℕ} {headers last : Headers} {nodes nodes' pointers : List ℕ} {node next : ℕ}

theorem not_mem_absorbed {front back : List ℕ} {current absorbed : ℕ}
    (distinct : (front ++ current :: absorbed :: back).Nodup) :
    absorbed ∉ front ++ current :: back := by
  simp only [List.nodup_append, List.nodup_cons, List.mem_cons] at distinct
  intro mem
  rw [List.mem_append, List.mem_cons] at mem
  rcases mem with inFront | rfl | inBack
  · exact distinct.2.2 absorbed inFront absorbed (.inr (.inl rfl)) rfl
  · exact distinct.2.1.1 (.inl rfl)
  · exact distinct.2.1.2.1 inBack

/-- A block behind a free one keeps its size and its link, as it is merged before it could grow. -/
theorem frozen (freed : Freed headers nodes pointers last nodes')
    (linked : Linked headers.nextOf head nodes) (mem : node ∈ nodes)
    (free : (headers node).free = true) (link : (headers node).next = some next) :
    (last next).size = (headers next).size ∧ (last next).next = (headers next).next := by
  have all : Linked last.nextOf head nodes' ∧ (next ∈ nodes' →
      ∃ before ∈ nodes', (last before).next = some next ∧ (last before).free = true) ∧
      (last next).size = (headers next).size ∧ (last next).next = (headers next).next := by
    refine freed.invariant (motive := fun middle reached => Linked middle.nextOf head reached ∧
      (next ∈ reached → ∃ before ∈ reached, (middle before).next = some next ∧
        (middle before).free = true) ∧
      (middle next).size = (headers next).size ∧ (middle next).next = (headers next).next)
      ⟨linked, fun _ => ⟨node, mem, link, free⟩, rfl, rfl⟩ ?_ ?_
    · rintro middle reached marked _ ⟨middleLinked, reachable, sameSize, sameLink⟩
      refine ⟨middleLinked.congr (fun _ _ => Headers.setFree_next ..), fun isMember => ?_, ?_, ?_⟩
      · rcases reachable isMember with ⟨before, beforeMem, beforeLink, beforeFree⟩
        refine ⟨before, beforeMem, by rw [Headers.setFree_next, beforeLink], ?_⟩
        by_cases same : before = marked
        · rw [same, Headers.setFree_self]
        · rw [Headers.setFree_of_ne same, beforeFree]
      · rw [Headers.setFree_size, sameSize]
      · rw [Headers.setFree_next, sameLink]
    · rintro middle front current absorbed back settled currentFree absorbedFree
        ⟨middleLinked, reachable, sameSize, sameLink⟩
      have distinct := middleLinked.nodup
      have notAbsorbed := not_mem_absorbed distinct
      have currentLink : (middle current).next = some absorbed := middleLinked.next_eq
      have notCurrent : next ≠ current := by
        rintro rfl
        rcases reachable (by simp) with ⟨before, beforeMem, beforeLink, beforeFree⟩
        rcases List.append_of_mem beforeMem with ⟨low, high, split⟩
        have tail : high.head? = some next := by
          have isLinked := middleLinked
          rw [split] at isLinked
          rw [← isLinked.next_eq]
          exact beforeLink
        cases high with
        | nil => cases tail
        | cons first high =>
            cases tail
            have notBehind : next ∉ absorbed :: back := by
              simp only [List.nodup_append, List.nodup_cons] at distinct
              exact distinct.2.1.1
            have notBefore : next ∉ front := by
              simp only [List.nodup_append, List.nodup_cons, List.mem_cons] at distinct
              exact fun inFront => distinct.2.2 next inFront next (.inl rfl) rfl
            have sameSplit : low ++ [before] ++ next :: high =
                front ++ next :: absorbed :: back := by
              rw [split]
              simp
            rw [eq_comm, List.append_cons_inj_of_notMem notBefore notBehind] at sameSplit
            rw [sameSplit.1] at settled
            unfold Headers.Settled at settled
            rw [List.append_assoc, List.singleton_append, List.isChain_append_cons_cons] at settled
            exact settled.2.1 ⟨beforeFree, currentFree⟩
      rw [Headers.absorb_of_ne notCurrent]
      refine ⟨Headers.linked_absorb middleLinked, fun isMember => ?_, sameSize, sameLink⟩
      have wasMember : next ∈ front ++ current :: absorbed :: back := by
        simp only [List.mem_append, List.mem_cons] at isMember ⊢
        tauto
      rcases reachable wasMember with ⟨before, beforeMem, beforeLink, beforeFree⟩
      by_cases isAbsorbed : before = absorbed
      · refine ⟨current, by simp, ?_, by rw [Headers.absorb_free, currentFree]⟩
        rw [Headers.absorb_self]
        rw [isAbsorbed] at beforeLink
        exact beforeLink
      · refine ⟨before, ?_, ?_, by rw [Headers.absorb_free, beforeFree]⟩
        · simp only [List.mem_append, List.mem_cons] at beforeMem ⊢
          tauto
        · have different : before ≠ current := by
            rintro rfl
            rw [currentLink, Option.some.injEq] at beforeLink
            rw [← beforeLink] at isMember
            exact notAbsorbed isMember
          rw [Headers.absorb_of_ne different, beforeLink]
  exact all.2.2

end Freed

namespace Shaped

variable {head : Option ℕ} {stop : ℕ} {all nodes nodes' pointers : List ℕ} {headers last : Headers}

/-- A block keeps its size and its link, or both grow. -/
theorem grown (shaped : Shaped head stop all headers nodes)
    (freed : Freed headers nodes pointers last nodes') (node : ℕ) :
    ((last node).size = (headers node).size ∧ (last node).next = (headers node).next) ∨
      ((headers node).size < (last node).size ∧
        headers.behind stop node < last.behind stop node) := by
  have both : Shaped head stop all last nodes' ∧
      (((last node).size = (headers node).size ∧ (last node).next = (headers node).next) ∨
        ((headers node).size < (last node).size ∧
          headers.behind stop node < last.behind stop node)) := by
    refine freed.invariant (motive := fun middle reached => Shaped head stop all middle reached ∧
      (((middle node).size = (headers node).size ∧ (middle node).next = (headers node).next) ∨
        ((headers node).size < (middle node).size ∧
          headers.behind stop node < middle.behind stop node)))
      ⟨shaped, .inl ⟨rfl, rfl⟩⟩ ?_ ?_
    · rintro middle reached marked _ ⟨middleShaped, grows⟩
      rw [Headers.setFree_size, Headers.setFree_next, Headers.behind_setFree]
      exact ⟨middleShaped.setFree marked, grows⟩
    · rintro middle front current absorbed back _ free nextFree ⟨middleShaped, grows⟩
      refine ⟨middleShaped.absorb free nextFree, ?_⟩
      by_cases here : node = current
      · right
        subst here
        have link : (middle node).next = some absorbed := middleShaped.linked.next_eq
        have ahead := middleShaped.ahead absorbed (middleShaped.sublist.subset (by simp))
        rw [Headers.absorb_self, Headers.behind_absorb_self]
        have before : headers.behind stop node ≤ absorbed := by
          rcases grows with ⟨_, same⟩ | ⟨_, less⟩
          · rw [link] at same
            rw [Headers.behind, ← same, Option.getD_some]
          · rw [Headers.behind_of_next link] at less
            exact Nat.le_of_lt less
        dsimp only
        simp only [sizeofBlockHeader]
        omega
      · rw [Headers.absorb_of_ne here, Headers.behind_absorb_of_ne here]
        exact grows
  exact both.2

/-- As long as a block stays in the chain, its size does not matter for the others. -/
theorem sizedBut {block : ℕ} (shaped : Shaped head stop all headers nodes)
    (sized : ∀ node ∈ all, node ≠ block →
      node + sizeofBlockHeader + (headers node).size = headers.behind stop node)
    (freed : Freed headers nodes pointers last nodes') (stays : block ∈ nodes') :
    ∀ node ∈ all, node ≠ block → node + sizeofBlockHeader + (last node).size =
      last.behind stop node := by
  have both : Shaped head stop all last nodes' ∧ (block ∈ nodes' → ∀ node ∈ all, node ≠ block →
      node + sizeofBlockHeader + (last node).size = last.behind stop node) := by
    refine freed.invariant (motive := fun middle reached => Shaped head stop all middle reached ∧
      (block ∈ reached → ∀ node ∈ all, node ≠ block →
        node + sizeofBlockHeader + (middle node).size = middle.behind stop node))
      ⟨shaped, fun _ => sized⟩ ?_ ?_
    · rintro middle reached marked _ ⟨middleShaped, middleSized⟩
      refine ⟨middleShaped.setFree marked, fun mem node inAll other => ?_⟩
      rw [Headers.setFree_size, Headers.behind_setFree]
      exact middleSized mem node inAll other
    · rintro middle front current absorbed back _ free nextFree ⟨middleShaped, middleSized⟩
      refine ⟨middleShaped.absorb free nextFree, fun mem node inAll other => ?_⟩
      have notAbsorbed : absorbed ≠ block := by
        rintro rfl
        exact Freed.not_mem_absorbed middleShaped.linked.nodup mem
      have before : block ∈ front ++ current :: absorbed :: back := by
        simp only [List.mem_append, List.mem_cons] at mem ⊢
        tauto
      have currentSized := middleSized before node inAll other
      by_cases here : node = current
      · subst here
        have absorbedSized :=
          middleSized before absorbed (middleShaped.sublist.subset (by simp)) notAbsorbed
        rw [Headers.behind_of_next middleShaped.linked.next_eq] at currentSized
        rw [Headers.absorb_self, Headers.behind_absorb_self]
        dsimp only
        omega
      · rw [Headers.absorb_of_ne here, Headers.behind_absorb_of_ne here]
        exact currentSized
  exact both.2 stays

end Shaped

end Goshkik
