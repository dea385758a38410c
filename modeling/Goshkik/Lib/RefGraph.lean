import Mathlib.Data.Finset.Card
import Mathlib.Data.Finset.SDiff

/-!
# Reference counting along parent links

The nodes in use form a graph in which every node has at most one parent.  A
node is referenced by its holders, as often as it is `owed`, and once by each
node in use that has it as parent.

Dropping the last reference of a node takes the node out of use, which in turn
drops the reference it had on its parent.  `collect` is one step of this
cascade: the reference of the node on its parent is passed on as one that is
owed.  `ReleaseChain` lists the nodes that a whole cascade takes out of use.
-/

structure RefGraph (Node : Type) where
  live : Finset Node
  parent : Node → Option Node
  owed : Node → ℕ

namespace RefGraph

variable {Node : Type} [DecidableEq Node] {graph other : RefGraph Node} {node child : Node}
  {start : Option Node} {chain : List Node}

def children (graph : RefGraph Node) (node : Node) : Finset Node :=
  graph.live.filter (fun child => graph.parent child = some node)

/-- The number of references to a node. -/
def references (graph : RefGraph Node) (node : Node) : ℕ :=
  graph.owed node + (graph.children node).card

/-- Every reference leads to a node in use, and every node in use is referenced. -/
structure Closed (graph : RefGraph Node) : Prop where
  parentLive : ∀ child ∈ graph.live, ∀ node, graph.parent child = some node → node ∈ graph.live
  owedLive : ∀ node, 0 < graph.owed node → node ∈ graph.live
  referenced : ∀ node ∈ graph.live, 0 < graph.references node

/-- The nodes that lose their last reference when one reference to `start` is
dropped: `start` if it has no other, then its parent if that has no other, and so on. -/
inductive ReleaseChain (graph : RefGraph Node) : Option Node → List Node → Prop where
  | root : ReleaseChain graph none []
  | shared {node : Node} (more : 1 < graph.references node) : ReleaseChain graph (some node) []
  | freed {node : Node} {chain : List Node} (only : graph.references node = 1)
      (rest : ReleaseChain graph (graph.parent node) chain) :
      ReleaseChain graph (some node) (node :: chain)

/-- Drop one owed reference and take a chain of nodes out of use. -/
def release (graph : RefGraph Node) (node : Node) (chain : List Node) : RefGraph Node where
  live := graph.live \ chain.toFinset
  parent := graph.parent
  owed := fun target => graph.owed target - if target = node then 1 else 0

/-- Take a node out of use and owe its parent the reference it had. -/
def collect (graph : RefGraph Node) (node : Node) : RefGraph Node where
  live := graph.live.erase node
  parent := graph.parent
  owed := fun target => (if target = node then 0 else graph.owed target) +
    if graph.parent node = some target then 1 else 0

/-- Give up the parent link of a node and owe the parent the reference instead. -/
def unlink (graph : RefGraph Node) (node : Node) : RefGraph Node where
  live := graph.live
  parent := fun target => if target = node then none else graph.parent target
  owed := fun target => graph.owed target + if graph.parent node = some target then 1 else 0

@[simp]
theorem mem_children : child ∈ graph.children node ↔
    child ∈ graph.live ∧ graph.parent child = some node := by
  simp [children]

theorem children_eq_empty (noOther : (graph.children node).card = 0) (mem : child ∈ graph.live) :
    graph.parent child ≠ some node := by
  intro linked
  have childMem : child ∈ graph.children node := mem_children.mpr ⟨mem, linked⟩
  rw [Finset.card_eq_zero.mp noOther] at childMem
  simp at childMem

/-- Graphs that agree where nodes are in use have the same references. -/
theorem references_congr (live : other.live = graph.live) (owed : other.owed = graph.owed)
    (parent : ∀ node ∈ graph.live, other.parent node = graph.parent node) (node : Node) :
    other.references node = graph.references node := by
  have sameChildren : other.children node = graph.children node := by
    ext child
    simp only [mem_children, live]
    exact and_congr_right (fun mem => by rw [parent child mem])
  simp [references, owed, sameChildren]

theorem Closed.congr (closed : graph.Closed) (live : other.live = graph.live)
    (owed : other.owed = graph.owed)
    (parent : ∀ node ∈ graph.live, other.parent node = graph.parent node) : other.Closed where
  parentLive := by
    intro child mem node linked
    rw [live] at mem ⊢
    rw [parent child mem] at linked
    exact closed.parentLive child mem node linked
  owedLive := by
    intro node positive
    rw [owed] at positive
    rw [live]
    exact closed.owedLive node positive
  referenced := by
    intro node mem
    rw [live] at mem
    rw [references_congr live owed parent]
    exact closed.referenced node mem

/-- A sole reference that is owed leaves nothing else to refer to the node. -/
theorem owed_eq_one (owed : 0 < graph.owed node) (only : graph.references node = 1) :
    graph.owed node = 1 ∧ (graph.children node).card = 0 := by
  simp only [references] at only
  omega

/-! ### Dropping a reference that is not the last -/

theorem references_release_nil (owed : 0 < graph.owed node) (target : Node) :
    (graph.release node []).references target =
      graph.references target - if target = node then 1 else 0 := by
  have sameChildren : (graph.release node []).children target = graph.children target := by
    ext child
    simp [release]
  simp only [references, sameChildren]
  change graph.owed target - (if target = node then 1 else 0) + _ = _
  split
  · rename_i same
    subst same
    omega
  · omega

/-- A cascade adds no references. -/
theorem references_release_le (target : Node) :
    (graph.release node chain).references target ≤ graph.references target := by
  have fewer : (graph.release node chain).children target ⊆ graph.children target := by
    intro child mem
    rw [mem_children] at mem ⊢
    exact ⟨(Finset.mem_sdiff.mp mem.1).1, mem.2⟩
  have cards := Finset.card_le_card fewer
  have owed : (graph.release node chain).owed target ≤ graph.owed target := Nat.sub_le _ _
  simp only [references]
  omega

theorem Closed.release_nil (closed : graph.Closed) (owed : 0 < graph.owed node)
    (more : 1 < graph.references node) : (graph.release node []).Closed where
  parentLive := by
    intro child mem target linked
    simp only [release, List.toFinset_nil, Finset.sdiff_empty] at mem ⊢
    exact closed.parentLive child mem target linked
  owedLive := by
    intro target positive
    simp only [release, List.toFinset_nil, Finset.sdiff_empty] at positive ⊢
    exact closed.owedLive target (by omega)
  referenced := by
    intro target mem
    rw [references_release_nil owed]
    simp only [release, List.toFinset_nil, Finset.sdiff_empty] at mem
    have positive := closed.referenced target mem
    split
    · rename_i same
      subst same
      omega
    · omega

/-! ### One step of the cascade -/

theorem card_children_collect (mem : node ∈ graph.live) (target : Node) :
    ((graph.collect node).children target).card + (if graph.parent node = some target then 1
      else 0) =
      (graph.children target).card := by
  have erased : (graph.collect node).children target = (graph.children target).erase node := by
    ext child
    simp only [mem_children, collect, Finset.mem_erase]
    exact and_assoc
  rw [erased]
  split
  · rename_i linked
    exact Finset.card_erase_add_one (mem_children.mpr ⟨mem, linked⟩)
  · rename_i unlinked
    rw [Finset.erase_eq_of_notMem (by simp [unlinked])]
    rfl

theorem references_collect (mem : node ∈ graph.live) {target : Node} (different : target ≠ node) :
    (graph.collect node).references target = graph.references target := by
  have cards := card_children_collect mem target
  simp only [references]
  rw [← cards]
  simp only [collect, different, if_false]
  omega

theorem references_collect_self (mem : node ∈ graph.live)
    (noOther : (graph.children node).card = 0) :
    (graph.collect node).references node = 0 := by
  have cards := card_children_collect mem node
  have unlinked := children_eq_empty noOther mem
  have owed : (graph.collect node).owed node = 0 := by
    simp [collect, unlinked]
  simp only [references]
  omega

theorem Closed.collect (closed : graph.Closed) (owed : 0 < graph.owed node)
    (only : graph.references node = 1) : (graph.collect node).Closed := by
  have mem := closed.owedLive node owed
  rcases owed_eq_one owed only with ⟨_, noOther⟩
  constructor
  case parentLive =>
    intro child childMem target linked
    have childLive := Finset.mem_of_mem_erase childMem
    apply Finset.mem_erase_of_ne_of_mem
    · rintro rfl
      exact children_eq_empty noOther childLive linked
    · exact closed.parentLive child childLive target linked
  case owedLive =>
    intro target positive
    simp only [RefGraph.collect] at positive ⊢
    have different : target ≠ node := by
      rintro rfl
      simp [children_eq_empty noOther mem] at positive
    apply Finset.mem_erase_of_ne_of_mem different
    simp only [different, if_false] at positive
    split at positive
    · rename_i linked
      exact closed.parentLive node mem target linked
    · exact closed.owedLive target (by omega)
  case referenced =>
    intro target targetMem
    have different := Finset.ne_of_mem_erase targetMem
    rw [references_collect mem different]
    exact closed.referenced target (Finset.mem_of_mem_erase targetMem)

/-- What the rest of the cascade takes out of use is a chain of the graph before. -/
theorem ReleaseChain.of_collect (chained : (graph.collect node).ReleaseChain start chain)
    (mem : node ∈ graph.live) (noOther : (graph.children node).card = 0) :
    graph.ReleaseChain start chain ∧ node ∉ chain := by
  have gone := references_collect_self mem noOther
  induction chained with
  | root => exact ⟨.root, by simp⟩
  | @shared target more =>
      have different : target ≠ node := by
        rintro rfl
        omega
      rw [references_collect mem different] at more
      exact ⟨.shared more, by simp⟩
  | @freed target chain only rest ih =>
      have different : target ≠ node := by
        rintro rfl
        omega
      rw [references_collect mem different] at only
      refine ⟨.freed only ih.1, ?_⟩
      simp [different.symm, ih.2]

/-- A cascade that ends with a node whose parent is null. -/
theorem release_singleton (owed : graph.owed node = 1) (top : graph.parent node = none) :
    graph.release node [node] = graph.collect node := by
  simp only [release, collect, RefGraph.mk.injEq, top]
  refine ⟨by ext target; simp [and_comm], trivial, ?_⟩
  funext target
  by_cases same : target = node
  · simp [same, owed]
  · simp [same]

/-- A cascade that goes on with the parent. -/
theorem release_cons {parent : Node} (owed : graph.owed node = 1)
    (linked : graph.parent node = some parent) (different : parent ≠ node) :
    graph.release node (node :: chain) = (graph.collect node).release parent chain := by
  simp only [release, collect, RefGraph.mk.injEq, linked]
  refine ⟨by ext target; simp [and_assoc, and_left_comm], trivial, ?_⟩
  funext target
  by_cases same : target = node
  · subst same
    simp [owed, different, Ne.symm different]
  · by_cases sameParent : target = parent
    · simp [sameParent, different]
    · simp [same, sameParent, Ne.symm sameParent]

/-! ### Giving up a parent link -/

theorem references_unlink (mem : node ∈ graph.live) (target : Node) :
    (graph.unlink node).references target = graph.references target := by
  have erased : (graph.unlink node).children target = (graph.children target).erase node := by
    ext child
    by_cases same : child = node
    · simp [unlink, same]
    · simp [unlink, same]
  simp only [references, erased]
  by_cases linked : graph.parent node = some target
  · have cards := Finset.card_erase_add_one (mem_children.mpr ⟨mem, linked⟩)
    simp only [unlink, linked, if_true]
    omega
  · rw [Finset.erase_eq_of_notMem (by simp [linked])]
    simp [unlink, linked]

theorem Closed.unlink (closed : graph.Closed) (mem : node ∈ graph.live) :
    (graph.unlink node).Closed where
  parentLive := by
    intro child childMem target linked
    simp only [RefGraph.unlink] at childMem linked ⊢
    split at linked
    · simp at linked
    · exact closed.parentLive child childMem target linked
  owedLive := by
    intro target positive
    simp only [RefGraph.unlink] at positive ⊢
    split at positive
    · rename_i linked
      exact closed.parentLive node mem target linked
    · exact closed.owedLive target (by omega)
  referenced := by
    intro target targetMem
    rw [references_unlink mem]
    exact closed.referenced target targetMem

/-- A link to a node in use may be made. -/
theorem Closed.of_unlink (closed : (graph.unlink node).Closed) (mem : node ∈ graph.live) :
    graph.Closed where
  parentLive := by
    intro child childMem target linked
    by_cases same : child = node
    · apply closed.owedLive target
      simp [RefGraph.unlink, ← same, linked]
    · apply closed.parentLive child childMem target
      simpa [RefGraph.unlink, same] using linked
  owedLive := by
    intro target positive
    apply closed.owedLive target
    simp only [RefGraph.unlink]
    omega
  referenced := by
    intro target targetMem
    rw [← references_unlink mem]
    exact closed.referenced target targetMem

/-- A node with a reference that is not dropped ends every chain it is on. -/
theorem ReleaseChain.of_unlink (chained : (graph.unlink node).ReleaseChain start chain)
    (mem : node ∈ graph.live) (pinned : ∀ target ∈ chain, target ≠ node) :
    graph.ReleaseChain start chain := by
  induction chained with
  | root => exact .root
  | shared more =>
      rw [references_unlink mem] at more
      exact .shared more
  | @freed target chain only rest ih =>
      rw [references_unlink mem] at only
      have different := pinned target (by simp)
      have sameParent : (graph.unlink node).parent target = graph.parent target := by
        simp [unlink, different]
      rw [sameParent] at ih
      exact .freed only (ih (fun later laterMem => pinned later (by simp [laterMem])))

end RefGraph
