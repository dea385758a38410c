import Mathlib.Data.Finset.Card
import Mathlib.Data.Finset.SDiff

/-!
# What survives when references are dropped

The nodes in use count their references.  Dropping references takes a node out of
use once its count is used up, and this drops the one reference that the node has
on its parent.  Here the counts are any numbers; they need not be right.

`Cascade` says what a number of drops at each node has done: in which order nodes
went out of use, and what the others count now.  A set of nodes is retained if
every node in it counts more than is dropped there, even if all children outside
the set go.  The nodes that survive a cascade are those of the retained sets, so
they do not depend on the order of the drops.
-/

structure CountGraph (Node : Type) where
  live : Finset Node
  parent : Node → Option Node
  count : Node → ℕ

namespace CountGraph

variable {Node : Type} [DecidableEq Node] {graph middle after : CountGraph Node} {node : Node}
  {drops moreDrops : Node → ℕ} {freed moreFreed : List Node} {kept : Finset Node}

/-- How many nodes of a list have a given parent. -/
def childrenIn (graph : CountGraph Node) (nodes : List Node) (node : Node) : ℕ :=
  nodes.countP (fun child => graph.parent child = some node)

@[simp]
theorem childrenIn_nil (graph : CountGraph Node) (node : Node) : graph.childrenIn [] node = 0 := rfl

theorem childrenIn_cons (graph : CountGraph Node) (child : Node) (nodes : List Node) (node : Node) :
    graph.childrenIn (child :: nodes) node =
      graph.childrenIn nodes node + if graph.parent child = some node then 1 else 0 := by
  simp [childrenIn, List.countP_cons]

theorem childrenIn_append (graph : CountGraph Node) (nodes moreNodes : List Node) (node : Node) :
    graph.childrenIn (nodes ++ moreNodes) node =
      graph.childrenIn nodes node + graph.childrenIn moreNodes node :=
  List.countP_append

theorem childrenIn_congr {other : CountGraph Node} {nodes : List Node}
    (parents : ∀ child ∈ nodes, other.parent child = graph.parent child) (node : Node) :
    other.childrenIn nodes node = graph.childrenIn nodes node := by
  apply List.countP_congr
  intro child mem
  rw [parents child mem]

structure Cascade (graph : CountGraph Node) (drops : Node → ℕ) (freed : List Node)
    (after : CountGraph Node) : Prop where
  nodup : freed.Nodup
  wasLive : ∀ node ∈ freed, node ∈ graph.live
  usedUp : ∀ earlier node later, freed = earlier ++ node :: later →
    graph.count node ≤ drops node + graph.childrenIn earlier node
  live : after.live = graph.live \ freed.toFinset
  parent : ∀ node ∈ after.live, after.parent node = graph.parent node
  count : ∀ node ∈ after.live,
    after.count node + drops node + graph.childrenIn freed node = graph.count node

namespace Cascade

theorem mem_live (cascade : graph.Cascade drops freed after) :
    node ∈ after.live ↔ node ∈ graph.live ∧ node ∉ freed := by
  rw [cascade.live, Finset.mem_sdiff, List.mem_toFinset]

/-- Only the nodes in use matter. -/
theorem congr {other : CountGraph Node} (cascade : graph.Cascade drops freed after)
    (live : other.live = after.live)
    (parent : ∀ node ∈ after.live, other.parent node = after.parent node)
    (count : ∀ node ∈ after.live, other.count node = after.count node) :
    graph.Cascade drops freed other where
  nodup := cascade.nodup
  wasLive := cascade.wasLive
  usedUp := cascade.usedUp
  live := live.trans cascade.live
  parent := by
    intro node mem
    rw [live] at mem
    rw [parent node mem, cascade.parent node mem]
  count := by
    intro node mem
    rw [live] at mem
    rw [count node mem]
    exact cascade.count node mem

/-- Nothing is dropped at a node in use. -/
theorem none (graph : CountGraph Node) (noDrops : ∀ node ∈ graph.live, drops node = 0) :
    graph.Cascade drops [] graph where
  nodup := List.nodup_nil
  wasLive := by simp
  usedUp := by simp
  live := by simp
  parent := fun _ _ => rfl
  count := by
    intro node mem
    simp [noDrops node mem]

/-- A drop that is not the last. -/
theorem drop (live : after.live = graph.live)
    (parent : ∀ node ∈ graph.live, after.parent node = graph.parent node)
    (count : ∀ node ∈ graph.live, after.count node + drops node = graph.count node) :
    graph.Cascade drops [] after where
  nodup := List.nodup_nil
  wasLive := by simp
  usedUp := by simp
  live := by simp [live]
  parent := by
    rw [live]
    exact parent
  count := by
    rw [live]
    simpa using count

/-- A node goes out of use, and after it what its parent's loss takes along. -/
theorem cons (mem : node ∈ graph.live) (last : graph.count node ≤ drops node)
    (live : middle.live = graph.live.erase node)
    (parent : ∀ target ∈ middle.live, middle.parent target = graph.parent target)
    (count : ∀ target ∈ middle.live, middle.count target = graph.count target)
    (passed : ∀ target ∈ middle.live,
      moreDrops target = drops target + if graph.parent node = some target then 1 else 0)
    (rest : middle.Cascade moreDrops freed after) :
    graph.Cascade drops (node :: freed) after := by
  have different : ∀ target ∈ middle.live, target ≠ node := by
    intro target targetMem
    rw [live] at targetMem
    exact Finset.ne_of_mem_erase targetMem
  have parents : ∀ nodes : List Node, (∀ child ∈ nodes, child ∈ middle.live) → ∀ target,
      middle.childrenIn nodes target = graph.childrenIn nodes target := by
    intro nodes inside target
    exact childrenIn_congr (fun child childMem => parent child (inside child childMem)) target
  constructor
  case nodup =>
    refine List.nodup_cons.mpr ⟨fun again => ?_, rest.nodup⟩
    exact different node (rest.wasLive node again) rfl
  case wasLive =>
    intro target targetMem
    rcases List.mem_cons.mp targetMem with rfl | later
    · exact mem
    · have inMiddle := rest.wasLive target later
      rw [live] at inMiddle
      exact Finset.mem_of_mem_erase inMiddle
  case usedUp =>
    intro earlier target later split
    cases earlier with
    | nil =>
        rw [List.nil_append, List.cons.injEq] at split
        rw [← split.1]
        simpa using last
    | cons first earlier =>
        rw [List.cons_append, List.cons.injEq] at split
        rcases split with ⟨rfl, split⟩
        have targetMem := rest.wasLive target (by simp [split])
        have used := rest.usedUp earlier target later split
        rw [count target targetMem, passed target targetMem,
          parents earlier (fun child childMem => rest.wasLive child (by simp [split, childMem]))]
          at used
        rw [childrenIn_cons]
        omega
  case live =>
    ext target
    rw [rest.mem_live, live, Finset.mem_erase, Finset.mem_sdiff, List.mem_toFinset, List.mem_cons,
      not_or]
    tauto
  case parent =>
    intro target targetMem
    rw [rest.parent target targetMem, parent target (rest.mem_live.mp targetMem).1]
  case count =>
    intro target targetMem
    have inMiddle := (rest.mem_live.mp targetMem).1
    have counts := rest.count target targetMem
    rw [count target inMiddle, passed target inMiddle, parents freed rest.wasLive] at counts
    rw [childrenIn_cons]
    omega

/-- More references are dropped later. -/
theorem append (cascade : graph.Cascade drops freed middle)
    (rest : middle.Cascade moreDrops moreFreed after) :
    graph.Cascade (fun node => drops node + moreDrops node) (freed ++ moreFreed) after := by
  have parents : ∀ nodes : List Node, (∀ child ∈ nodes, child ∈ middle.live) → ∀ target,
      middle.childrenIn nodes target = graph.childrenIn nodes target := by
    intro nodes inside target
    exact childrenIn_congr (fun child childMem => cascade.parent child (inside child childMem))
      target
  constructor
  case nodup =>
    refine cascade.nodup.append rest.nodup ?_
    intro node first later
    exact (cascade.mem_live.mp (rest.wasLive node later)).2 first
  case wasLive =>
    intro node mem
    rcases List.mem_append.mp mem with first | later
    · exact cascade.wasLive node first
    · exact (cascade.mem_live.mp (rest.wasLive node later)).1
  case usedUp =>
    intro earlier node later split
    rcases List.append_eq_append_iff.mp split with
      ⟨between, isEarlier, isRest⟩ | ⟨between, isFreed, isRest⟩
    · have nodeMem := rest.wasLive node (by simp [isRest])
      have used := rest.usedUp between node later isRest
      have counts := cascade.count node nodeMem
      rw [parents between (fun child childMem => rest.wasLive child (by simp [isRest, childMem]))]
        at used
      rw [isEarlier, childrenIn_append]
      omega
    · cases between with
      | nil =>
          rw [List.nil_append] at isRest
          have nodeMem := rest.wasLive node (by simp [← isRest])
          have used := rest.usedUp [] node later isRest.symm
          have counts := cascade.count node nodeMem
          rw [List.append_nil] at isFreed
          rw [childrenIn_nil] at used
          rw [isFreed] at counts
          omega
      | cons first between =>
          rw [List.cons_append, List.cons.injEq] at isRest
          rcases isRest with ⟨rfl, _⟩
          have used := cascade.usedUp earlier node between isFreed
          omega
  case live =>
    ext node
    rw [rest.mem_live, cascade.mem_live, Finset.mem_sdiff, List.mem_toFinset, List.mem_append,
      not_or]
    tauto
  case parent =>
    intro node mem
    rw [rest.parent node mem, cascade.parent node (rest.mem_live.mp mem).1]
  case count =>
    intro node mem
    have inMiddle := (rest.mem_live.mp mem).1
    have first := cascade.count node inMiddle
    have second := rest.count node mem
    rw [parents moreFreed rest.wasLive] at second
    rw [childrenIn_append]
    omega

end Cascade

/-- The nodes of a set do not lose their last reference, even if all children outside the
set go out of use. -/
def Retained (graph : CountGraph Node) (drops : Node → ℕ) (kept : Finset Node) : Prop :=
  ∀ node ∈ kept, node ∈ graph.live →
    drops node + ((graph.live \ kept).filter (fun child => graph.parent child = some node)).card <
      graph.count node

instance (graph : CountGraph Node) (drops : Node → ℕ) (kept : Finset Node) :
    Decidable (graph.Retained drops kept) :=
  inferInstanceAs (Decidable (∀ node ∈ kept, node ∈ graph.live → _ < _))

/-- No cascade takes a node of a retained set out of use. -/
theorem Cascade.not_freed (cascade : graph.Cascade drops freed after)
    (retained : graph.Retained drops kept) : ∀ node ∈ freed, node ∉ kept := by
  have spared : ∀ earlier later, freed = earlier ++ later → ∀ node ∈ earlier, node ∉ kept := by
    intro earlier
    induction earlier using List.reverseRecOn with
    | nil => simp
    | append_singleton earlier node ih =>
        intro later split target mem isKept
        rw [List.append_assoc, List.singleton_append] at split
        have before := ih (node :: later) split
        rcases List.mem_append.mp mem with old | new
        · exact before target old isKept
        · rw [List.mem_singleton] at new
          rw [new] at isKept
          have nodeMem := cascade.wasLive node (by simp [split])
          have used := cascade.usedUp earlier node later split
          have bound := retained node isKept nodeMem
          have nodup : earlier.Nodup := by
            have whole := cascade.nodup
            rw [split] at whole
            exact whole.of_append_left
          have fewer : graph.childrenIn earlier node ≤
              ((graph.live \ kept).filter (fun child => graph.parent child = some node)).card := by
            rw [childrenIn, List.countP_eq_length_filter,
              ← List.toFinset_card_of_nodup (nodup.filter _)]
            apply Finset.card_le_card
            intro child childMem
            rw [List.mem_toFinset, List.mem_filter, decide_eq_true_eq] at childMem
            rw [Finset.mem_filter, Finset.mem_sdiff]
            exact ⟨⟨cascade.wasLive child (by simp [split, childMem.1]), before child childMem.1⟩,
              childMem.2⟩
          omega
  exact fun node mem => spared freed [] (by simp) node mem

/-- The nodes that survive are a retained set. -/
theorem Cascade.retained (cascade : graph.Cascade drops freed after)
    (positive : ∀ node ∈ after.live, 0 < after.count node)
    (survivors : ∀ node ∈ graph.live, node ∈ kept ↔ node ∉ freed) :
    graph.Retained drops kept := by
  intro node isKept mem
  have nodeMem := cascade.mem_live.mpr ⟨mem, (survivors node mem).mp isKept⟩
  have counts := cascade.count node nodeMem
  have some := positive node nodeMem
  have children : ((graph.live \ kept).filter (fun child => graph.parent child = .some node)).card =
      graph.childrenIn freed node := by
    rw [childrenIn, List.countP_eq_length_filter,
      ← List.toFinset_card_of_nodup (cascade.nodup.filter _)]
    congr 1
    ext child
    rw [Finset.mem_filter, Finset.mem_sdiff, List.mem_toFinset, List.mem_filter, decide_eq_true_eq]
    refine and_congr_left (fun _ => ⟨fun inside => ?_, fun isFreed => ?_⟩)
    · by_contra notFreed
      exact inside.2 ((survivors child inside.1).mpr notFreed)
    · have childMem := cascade.wasLive child isFreed
      exact ⟨childMem, fun isKept => (survivors child childMem).mp isKept isFreed⟩
  omega

end CountGraph
