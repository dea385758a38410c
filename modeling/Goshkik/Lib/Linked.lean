import Mathlib.Data.List.Nodup

/-!
# Null-terminated linked chains

A memory of nodes is seen through the function `next` that reads a node's link;
`none` is the null pointer.  `Segment next head nodes stop` says that following
the links from `head` visits exactly `nodes` and then arrives at `stop`, and
`Linked next head nodes` is a segment that ends at the null pointer.

A linked chain is finite by definition, so it can visit no node twice: being
linked at all is being acyclic and duplicate-free.  `scan` is the loop that
walks a chain with a trailing pointer until a test succeeds, and its two
specification lemmas say where it stops on a linked chain.
-/

universe u

variable {Node : Type u}

/-- Following `next` from `head` visits exactly the listed nodes and stops at `stop`. -/
def Segment (next : Node → Option Node) : Option Node → List Node → Option Node → Prop
  | head, [], stop => head = stop
  | head, node :: nodes, stop => head = some node ∧ Segment next (next node) nodes stop

/-- The chain from `head` consists of the listed nodes and ends at the null pointer. -/
def Linked (next : Node → Option Node) (head : Option Node) (nodes : List Node) : Prop :=
  Segment next head nodes none

namespace Segment

variable {next next' : Node → Option Node} {head stop : Option Node} {nodes rest : List Node}

theorem congr (segment : Segment next head nodes stop)
    (agree : ∀ node ∈ nodes, next' node = next node) : Segment next' head nodes stop := by
  induction nodes generalizing head with
  | nil => exact segment
  | cons node nodes ih =>
      rcases segment with ⟨headEq, tail⟩
      refine ⟨headEq, ?_⟩
      rw [agree node (by simp)]
      exact ih tail (fun other mem => agree other (by simp [mem]))

theorem append_iff : Segment next head (nodes ++ rest) stop ↔
    ∃ middle, Segment next head nodes middle ∧ Segment next middle rest stop := by
  induction nodes generalizing head with
  | nil => simp [Segment]
  | cons node nodes ih =>
      simp only [List.cons_append, Segment, ih]
      constructor
      · rintro ⟨headEq, middle, left, right⟩
        exact ⟨middle, ⟨headEq, left⟩, right⟩
      · rintro ⟨middle, ⟨headEq, left⟩, right⟩
        exact ⟨headEq, middle, left, right⟩

/-- Redirecting the link of the last node of a nonempty segment moves its end. -/
theorem redirect {last : Node} (segment : Segment next head (nodes ++ [last]) stop)
    (agree : ∀ node ∈ nodes, next' node = next node) :
    Segment next' head (nodes ++ [last]) (next' last) := by
  rw [append_iff] at segment ⊢
  rcases segment with ⟨middle, left, middleEq, _⟩
  exact ⟨middle, left.congr agree, middleEq, rfl⟩

end Segment

namespace Linked

variable {next next' : Node → Option Node} {head head' : Option Node}
  {nodes others before after : List Node} {node last : Node}

@[simp]
theorem nil_iff : Linked next head [] ↔ head = none := Iff.rfl

@[simp]
theorem cons_iff : Linked next head (node :: nodes) ↔
    head = some node ∧ Linked next (next node) nodes := Iff.rfl

theorem congr (linked : Linked next head nodes)
    (agree : ∀ node ∈ nodes, next' node = next node) : Linked next' head nodes :=
  Segment.congr linked agree

theorem append_iff : Linked next head (before ++ after) ↔
    ∃ middle, Segment next head before middle ∧ Linked next middle after :=
  Segment.append_iff

/-- A head pointer determines the chain behind it. -/
theorem unique (linked : Linked next head nodes) (other : Linked next head others) :
    nodes = others := by
  induction nodes generalizing head others with
  | nil =>
      cases others with
      | nil => rfl
      | cons node others =>
          rw [nil_iff] at linked
          rw [cons_iff, linked] at other
          exact absurd other.1 (by simp)
  | cons node nodes ih =>
      rw [cons_iff] at linked
      cases others with
      | nil =>
          rw [nil_iff, linked.1] at other
          exact absurd other (by simp)
      | cons second others =>
          rw [cons_iff, linked.1] at other
          rcases other with ⟨sameNode, tail⟩
          cases sameNode
          rw [ih linked.2 tail]

/-- A null-terminated chain visits no node twice: the chain behind a repeated
node would be a proper part of itself. -/
theorem nodup (linked : Linked next head nodes) : nodes.Nodup := by
  induction nodes generalizing head with
  | nil => exact List.nodup_nil
  | cons node nodes ih =>
      rw [cons_iff] at linked
      rw [List.nodup_cons]
      refine ⟨?_, ih linked.2⟩
      intro repeated
      rcases List.append_of_mem repeated with ⟨before, after, nodesEq⟩
      have tail := linked.2
      rw [nodesEq, append_iff] at tail
      rcases tail with ⟨middle, _, _, behind⟩
      have same := linked.2.unique behind
      have lengths := congrArg List.length nodesEq
      rw [same] at lengths
      simp at lengths
      omega

theorem head_eq_none_iff (linked : Linked next head nodes) : head = none ↔ nodes = [] := by
  cases nodes with
  | nil => simpa using linked
  | cons node nodes => simp [(cons_iff.mp linked).1]

theorem eq_head? (linked : Linked next head nodes) : head = nodes.head? := by
  cases nodes with
  | nil => exact linked
  | cons node nodes => exact (cons_iff.mp linked).1

/-- The link of a node inside a chain is the node listed after it. -/
theorem next_eq (linked : Linked next head (before ++ node :: after)) :
    next node = after.head? := by
  rcases append_iff.mp linked with ⟨middle, _, _, tail⟩
  exact Linked.eq_head? tail

/-- Following the links arrives at exactly the listed nodes. -/
theorem visits_iff (linked : Linked next head nodes) :
    (∃ visited, Segment next head visited (some node)) ↔ node ∈ nodes := by
  constructor
  · rintro ⟨visited, segment⟩
    induction visited generalizing head nodes with
    | nil =>
        cases nodes with
        | nil => exact absurd (segment.symm.trans linked) (by simp)
        | cons first nodes =>
            rcases Option.some.inj (segment.symm.trans linked.1)
            exact List.mem_cons_self
    | cons first visited ih =>
        cases nodes with
        | nil => exact absurd (segment.1.symm.trans linked) (by simp)
        | cons other nodes =>
            rcases Option.some.inj (segment.1.symm.trans linked.1)
            exact List.mem_cons_of_mem _ (ih linked.2 segment.2)
  · intro mem
    rcases List.append_of_mem mem with ⟨before, after, rfl⟩
    rcases append_iff.mp linked with ⟨middle, front, isMiddle, _⟩
    exact ⟨before, isMiddle ▸ front⟩

/-- Pushing a node in front of a chain that does not contain it. -/
theorem push (linked : Linked next head nodes) (link : next' node = head)
    (agree : ∀ other ∈ nodes, next' other = next other) :
    Linked next' (some node) (node :: nodes) := by
  rw [cons_iff, link]
  exact ⟨rfl, linked.congr agree⟩

/-- Appending a node behind the last one. -/
theorem append_last (linked : Linked next head (before ++ [last])) (link : next' last = some node)
    (stop : next' node = none) (agree : ∀ other ∈ before, next' other = next other) :
    Linked next' head (before ++ [last] ++ [node]) := by
  rw [append_iff]
  refine ⟨some node, ?_, rfl, stop⟩
  rw [← link]
  exact Segment.redirect linked agree

/-- Unlinking the first node of a chain. -/
theorem unlink_head (linked : Linked next head (node :: after))
    (agree : ∀ other ∈ after, next' other = next other) : Linked next' (next node) after :=
  (cons_iff.mp linked).2.congr agree

/-- Unlinking a node by redirecting the link of its predecessor. -/
theorem unlink (linked : Linked next head (before ++ last :: node :: after))
    (link : next' last = next node)
    (agree : ∀ other ∈ before ++ after, next' other = next other) :
    Linked next' head (before ++ last :: after) := by
  rw [List.append_cons, append_iff] at linked ⊢
  rcases linked with ⟨middle, front, _, tail⟩
  refine ⟨next node, ?_, Linked.congr tail (fun other mem => agree other (by simp [mem]))⟩
  rw [← link]
  exact Segment.redirect front (fun other mem => agree other (by simp [mem]))

/-- Unlinking a node anywhere in a chain by redirecting the pointer that leads to
it, which is the head of the chain or the link of the predecessor. -/
theorem unlink_at (linked : Linked next head (before ++ node :: after))
    (headEq : head' = if before = [] then next node else head)
    (link : ∀ last ∈ before.getLast?, next' last = next node)
    (agree : ∀ other ∈ before ++ after, before.getLast? ≠ some other → next' other = next other) :
    Linked next' head' (before ++ after) := by
  rcases List.eq_nil_or_concat before with rfl | ⟨front, last, rfl⟩
  · simp only [if_true] at headEq
    simp only [headEq]
    exact linked.unlink_head (fun other mem => agree other mem (by simp))
  · simp only [List.concat_eq_append, List.append_assoc, List.cons_append, List.nil_append,
      List.append_eq_nil_iff, List.cons_ne_nil, and_false, if_false, List.getLast?_append,
      List.getLast?_singleton, Option.some_or] at headEq link agree linked ⊢
    simp only [headEq]
    have unique := linked.nodup
    apply linked.unlink
    · exact link last (by simp)
    · intro other mem
      apply agree other
      · rcases List.mem_append.mp mem with mem | mem <;> simp [mem]
      · rintro same
        simp only [Option.some.injEq] at same
        subst same
        simp only [List.nodup_append, List.nodup_cons, List.mem_cons] at unique
        rcases List.mem_append.mp mem with mem | mem
        · exact unique.2.2 last mem last (by simp) rfl
        · exact unique.2.1.1 (Or.inr mem)

end Linked

/-- The back links of the listed nodes: each one points to the node before it,
the first one to `before`. -/
def Backlinked (prev : Node → Option Node) : Option Node → List Node → Prop
  | _, [] => True
  | before, node :: nodes => prev node = before ∧ Backlinked prev (some node) nodes

namespace Backlinked

variable {prev prev' : Node → Option Node} {before : Option Node}
  {nodes rest front after : List Node}
  {node : Node}

theorem congr (backlinked : Backlinked prev before nodes)
    (agree : ∀ node ∈ nodes, prev' node = prev node) : Backlinked prev' before nodes := by
  induction nodes generalizing before with
  | nil => exact backlinked
  | cons node nodes ih =>
      rcases backlinked with ⟨back, tail⟩
      refine ⟨(agree node (by simp)).trans back, ?_⟩
      exact ih tail (fun other mem => agree other (by simp [mem]))

theorem append_iff : Backlinked prev before (nodes ++ rest) ↔
    Backlinked prev before nodes ∧ Backlinked prev (nodes.getLast?.or before) rest := by
  induction nodes generalizing before with
  | nil => simp [Backlinked]
  | cons node nodes ih =>
      have last : ((node :: nodes).getLast?.or before) = nodes.getLast?.or (some node) := by
        cases nodes <;> simp [List.getLast?_cons]
      simp only [List.cons_append, Backlinked, ih, last, and_assoc]

/-- The back link of a node inside a chain is the node listed before it. -/
theorem prev_eq (backlinked : Backlinked prev none (front ++ node :: after)) :
    prev node = front.getLast? := by
  simpa using (append_iff.mp backlinked).2.1

/-- Giving the first node of a chain another predecessor. -/
theorem rehead (backlinked : Backlinked prev before nodes) {before' : Option Node}
    (link : ∀ first ∈ nodes.head?, prev' first = before')
    (agree : ∀ other ∈ nodes.tail, prev' other = prev other) : Backlinked prev' before' nodes := by
  cases nodes with
  | nil => trivial
  | cons first nodes => exact ⟨link first (by simp), backlinked.2.congr agree⟩

/-- Unlinking a node by giving its successor its predecessor. -/
theorem unlink (backlinked : Backlinked prev none (front ++ node :: after))
    (link : ∀ first ∈ after.head?, prev' first = prev node)
    (agree : ∀ other ∈ front ++ after.tail, prev' other = prev other) :
    Backlinked prev' none (front ++ after) := by
  have back := backlinked.prev_eq
  simp only [append_iff, Option.or_none] at backlinked ⊢
  refine ⟨backlinked.1.congr (fun other mem => agree other (by simp [mem])), ?_⟩
  apply backlinked.2.2.rehead
  · simpa [back] using link
  · exact fun other mem => agree other (by simp [mem])

end Backlinked

/-- The loop that follows a chain with a trailing pointer until a test succeeds
or the chain ends.  The answer is the pair of the trailing and the current
pointer; `none` is returned when the loop has not ended within the fuel. -/
def scan (next : Node → Option Node) (test : Node → Bool) :
    ℕ → Option Node → Option Node → Option (Option Node × Option Node)
  | 0, _, _ => none
  | _ + 1, trailing, none => some (trailing, none)
  | fuel + 1, trailing, some node =>
      if test node then some (trailing, some node)
      else scan next test fuel (some node) (next node)

section Scan

variable {next : Node → Option Node} {test : Node → Bool} {trailing head : Option Node}
  {before after nodes : List Node} {node : Node} {fuel : ℕ}

/-- On a chain whose first node passing the test is `node`, `scan` stops there. -/
theorem scan_found (linked : Linked next head (before ++ node :: after))
    (skipped : ∀ other ∈ before, test other = false) (found : test node = true)
    (enough : before.length < fuel) :
    scan next test fuel trailing head = some (before.getLast?.or trailing, some node) := by
  induction before generalizing head trailing fuel with
  | nil =>
      cases fuel with
      | zero => simp at enough
      | succ fuel =>
          rw [List.nil_append, Linked.cons_iff] at linked
          simp [linked.1, scan, found]
  | cons first before ih =>
      cases fuel with
      | zero => simp at enough
      | succ fuel =>
          rw [List.cons_append, Linked.cons_iff] at linked
          have firstSkipped := skipped first (by simp)
          rw [linked.1, scan, firstSkipped]
          simp only [Bool.false_eq_true, if_false]
          rw [ih linked.2 (fun other mem => skipped other (by simp [mem]))
            (by simpa using enough)]
          cases before <;> simp [List.getLast?_cons]

/-- On a chain with no node passing the test, `scan` reaches the end. -/
theorem scan_missing (linked : Linked next head nodes)
    (skipped : ∀ other ∈ nodes, test other = false) (enough : nodes.length < fuel) :
    scan next test fuel trailing head = some (nodes.getLast?.or trailing, none) := by
  induction nodes generalizing head trailing fuel with
  | nil =>
      cases fuel with
      | zero => simp at enough
      | succ fuel => simp [Linked.nil_iff.mp linked, scan]
  | cons first nodes ih =>
      cases fuel with
      | zero => simp at enough
      | succ fuel =>
          rw [Linked.cons_iff] at linked
          have firstSkipped := skipped first (by simp)
          rw [linked.1, scan, firstSkipped]
          simp only [Bool.false_eq_true, if_false]
          rw [ih linked.2 (fun other mem => skipped other (by simp [mem]))
            (by simpa using enough)]
          cases nodes <;> simp [List.getLast?_cons]

/-- An answer of `scan` does not depend on the fuel it was found with. -/
theorem scan_mono {answer : Option Node × Option Node} {more : ℕ}
    (returns : scan next test fuel trailing head = some answer) (enough : fuel ≤ more) :
    scan next test more trailing head = some answer := by
  induction fuel generalizing trailing head more with
  | zero => simp [scan] at returns
  | succ fuel ih =>
      obtain ⟨more, rfl⟩ : ∃ smaller, more = smaller + 1 := ⟨more - 1, by omega⟩
      cases head with
      | none => simpa [scan] using returns
      | some node =>
          simp only [scan] at returns ⊢
          by_cases found : test node = true
          · simpa [found] using returns
          · simp only [found] at returns ⊢
            exact ih returns (by omega)

end Scan
