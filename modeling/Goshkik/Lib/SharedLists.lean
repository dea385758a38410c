import Goshkik.Lib.Linked

/-!
# Lists that share one link field

Several queues are threaded through the same `next` field of their nodes, each
with a head and a tail pointer of its own.  A node can then be on one of them at
most, and a queue operation must leave the links of all the other queues alone.
`SharedLists next anchors lists` says that the anchors describe the given lists
and that no node is on two of them.
-/

universe u v

/-- The head and the tail pointer of a queue. -/
structure Anchor (Node : Type u) where
  head : Option Node
  tail : Option Node

structure SharedLists {Node : Type u} {Owner : Type v} (next : Node → Option Node)
    (anchors : Owner → Anchor Node) (lists : Owner → List Node) : Prop where
  linked : ∀ owner, Linked next (anchors owner).head (lists owner)
  tail : ∀ owner, (anchors owner).tail = (lists owner).getLast?
  apart : ∀ first second node, node ∈ lists first → node ∈ lists second → first = second

namespace SharedLists

variable {Node : Type u} {Owner : Type v} {next next' : Node → Option Node}
  {anchors anchors' : Owner → Anchor Node} {lists : Owner → List Node} {owner : Owner}
  {node : Node} {rest : List Node}

theorem congr (shared : SharedLists next anchors lists) (ends : anchors' = anchors)
    (agree : ∀ owner, ∀ node ∈ lists owner, next' node = next node) :
    SharedLists next' anchors' lists where
  linked owner := by
    rw [ends]
    exact (shared.linked owner).congr (agree owner)
  tail owner := by
    rw [ends]
    exact shared.tail owner
  apart := shared.apart

/-- A queue without a head has no tail. -/
theorem tail_eq_none_iff (shared : SharedLists next anchors lists) :
    (anchors owner).tail = none ↔ (anchors owner).head = none := by
  rw [(shared.linked owner).head_eq_none_iff, shared.tail, List.getLast?_eq_none_iff]

theorem tail_mem (shared : SharedLists next anchors lists)
    (isTail : (anchors owner).tail = some node) : node ∈ lists owner := by
  rw [shared.tail] at isTail
  exact List.mem_of_getLast? isTail

/-- The pointer that leads to a nonempty list. -/
theorem head_eq (shared : SharedLists next anchors lists) (isList : lists owner = node :: rest) :
    (anchors owner).head = some node := by
  have linked := shared.linked owner
  rw [isList] at linked
  exact linked.1

variable [DecidableEq Owner]

theorem mem_update_append {other : Owner} {node' : Node} :
    node' ∈ Function.update lists owner (lists owner ++ [node]) other ↔
      node' ∈ lists other ∨ (node' = node ∧ other = owner) := by
  by_cases same : other = owner
  · subst same
    simp
  · simp [same]

/-- Appending a node that is on no list. -/
theorem append (shared : SharedLists next anchors lists) (absent : ∀ other, node ∉ lists other)
    (stop : next' node = none) (link : ∀ last ∈ (anchors owner).tail, next' last = some node)
    (agree : ∀ other, other ≠ node → (anchors owner).tail ≠ some other → next' other = next other)
    (ends : anchors' = Function.update anchors owner
      ⟨(anchors owner).head.or (some node), some node⟩) :
    SharedLists next' anchors' (Function.update lists owner (lists owner ++ [node])) where
  linked other := by
    subst ends
    by_cases same : other = owner
    · subst same
      simp only [Function.update_self]
      have linked := shared.linked other
      have tail := shared.tail other
      rcases List.eq_nil_or_concat (lists other) with empty | ⟨front, last, nonempty⟩
      · rw [empty, Linked.nil_iff] at linked
        rw [empty, linked]
        exact ⟨rfl, stop⟩
      · rw [List.concat_eq_append] at nonempty
        have isTail : (anchors other).tail = some last := by
          rw [tail, nonempty, List.getLast?_concat]
        have head : (anchors other).head.or (some node) = (anchors other).head := by
          cases isHead : (anchors other).head with
          | none => simp [shared.tail_eq_none_iff.mpr isHead] at isTail
          | some head => rfl
        rw [nonempty] at linked ⊢
        rw [head]
        have distinct := linked.nodup
        rw [List.nodup_append] at distinct
        apply linked.append_last (link last isTail) stop
        intro before mem
        apply agree
        · rintro rfl
          apply absent other
          rw [nonempty]
          exact List.mem_append_left _ mem
        · rw [isTail]
          rintro isLast
          rcases Option.some.inj isLast
          exact distinct.2.2 last mem last (by simp) rfl
    · simp only [Function.update_of_ne same]
      apply (shared.linked other).congr
      intro before mem
      apply agree
      · rintro rfl
        exact absent other mem
      · exact fun isTail => same (shared.apart _ _ before mem (shared.tail_mem isTail))
  tail other := by
    subst ends
    by_cases same : other = owner
    · subst same
      simp
    · simpa only [Function.update_of_ne same] using shared.tail other
  apart first second other memFirst memSecond := by
    by_cases isFirst : first = owner <;> by_cases isSecond : second = owner
    · rw [isFirst, isSecond]
    · subst isFirst
      rw [Function.update_self, List.mem_append, List.mem_singleton] at memFirst
      rw [Function.update_of_ne isSecond] at memSecond
      rcases memFirst with memFirst | rfl
      · exact shared.apart _ _ other memFirst memSecond
      · exact absurd memSecond (absent second)
    · subst isSecond
      rw [Function.update_self, List.mem_append, List.mem_singleton] at memSecond
      rw [Function.update_of_ne isFirst] at memFirst
      rcases memSecond with memSecond | rfl
      · exact shared.apart _ _ other memFirst memSecond
      · exact absurd memFirst (absent first)
    · rw [Function.update_of_ne isFirst] at memFirst
      rw [Function.update_of_ne isSecond] at memSecond
      exact shared.apart _ _ other memFirst memSecond

theorem mem_update (sub : ∀ other ∈ rest, other ∈ lists owner) {other : Owner}
    (mem : node ∈ Function.update lists owner rest other) : node ∈ lists other := by
  by_cases same : other = owner
  · subst same
    rw [Function.update_self] at mem
    exact sub node mem
  · rwa [Function.update_of_ne same] at mem

/-- Taking the first node off a list. -/
theorem pop (shared : SharedLists next anchors lists) (isList : lists owner = node :: rest)
    (agree : ∀ other, other ≠ node → next' other = next other)
    (ends : anchors' = Function.update anchors owner
      ⟨next node, if next node = none then none else (anchors owner).tail⟩) :
    SharedLists next' anchors' (Function.update lists owner rest) where
  linked other := by
    subst ends
    by_cases same : other = owner
    · subst same
      have linked := shared.linked other
      have distinct := linked.nodup
      rw [isList] at linked distinct
      simp only [Function.update_self]
      apply Linked.congr linked.2
      intro behind mem
      apply agree
      rintro rfl
      exact (List.nodup_cons.mp distinct).1 mem
    · simp only [Function.update_of_ne same]
      apply (shared.linked other).congr
      intro other' mem
      apply agree
      rintro rfl
      exact same (shared.apart _ _ other' mem (by simp [isList]))
  tail other := by
    subst ends
    by_cases same : other = owner
    · subst same
      have linked := shared.linked other
      have tail := shared.tail other
      rw [isList] at linked tail
      have link : Linked next (next node) rest := linked.2
      simp only [Function.update_self, link.head_eq_none_iff, tail]
      cases rest with
      | nil => simp
      | cons first rest => simp [List.getLast?_cons_cons]
    · simpa only [Function.update_of_ne same] using shared.tail other
  apart first second other memFirst memSecond := by
    have sub : ∀ other ∈ rest, other ∈ lists owner := by
      intro other mem
      rw [isList]
      exact List.mem_cons_of_mem _ mem
    exact shared.apart _ _ other (mem_update sub memFirst) (mem_update sub memSecond)

/-- A node that has been taken off its list is on none. -/
theorem notMem_pop (shared : SharedLists next anchors lists) (isList : lists owner = node :: rest)
    (other : Owner) : node ∉ Function.update lists owner rest other := by
  by_cases same : other = owner
  · subst same
    have distinct := (shared.linked other).nodup
    rw [isList] at distinct
    rw [Function.update_self]
    exact (List.nodup_cons.mp distinct).1
  · rw [Function.update_of_ne same]
    exact fun mem => same (shared.apart _ _ node mem (by simp [isList]))

end SharedLists
