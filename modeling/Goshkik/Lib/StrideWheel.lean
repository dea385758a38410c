import Mathlib.Algebra.BigOperators.Group.List.Basic
import Mathlib.Algebra.Order.BigOperators.Group.List
import Mathlib.Algebra.Order.Floor.Div
import Mathlib.Data.Int.Order.Basic
import Mathlib.Tactic.Linarith
import Mathlib.Tactic.Ring

/-!
# Stride scheduling on a wheel

The nodes of a wheel come to its head in turn.  A node with a cooldown uses one of
it up; a node without one is dispatched and gets a cooldown of its stride less one.
Either way it has been considered and goes to the back.

Two invariants give all that is known about the counts.  The nodes in front have
been considered equally often and those behind once more, so the counts of two nodes
differ by at most one; and what a node has been considered makes up, together with
its cooldown, its stride times what it has been dispatched.
-/

structure StrideWheel (Node : Type) where
  ring : List Node
  cooldown : Node → ℕ
  considered : Node → ℕ
  dispatched : Node → ℕ

namespace StrideWheel

variable {Node : Type} [DecidableEq Node]

/-- The wheel before any node has been considered. -/
def start (ring : List Node) : StrideWheel Node where
  ring := ring
  cooldown := fun _ => 0
  considered := fun _ => 0
  dispatched := fun _ => 0

/-- The node at the head is considered. -/
def turn (stride : Node → ℕ) (wheel : StrideWheel Node) (node : Node) (rest : List Node) :
    StrideWheel Node where
  ring := rest ++ [node]
  cooldown := Function.update wheel.cooldown node
    (if wheel.cooldown node = 0 then stride node - 1 else wheel.cooldown node - 1)
  considered := Function.update wheel.considered node (wheel.considered node + 1)
  dispatched := Function.update wheel.dispatched node
    (wheel.dispatched node + if wheel.cooldown node = 0 then 1 else 0)

structure Fair (stride : Node → ℕ) (wheel : StrideWheel Node) : Prop where
  distinct : wheel.ring.Nodup
  level : ∃ level front back, wheel.ring = front ++ back ∧
    (∀ node ∈ front, wheel.considered node = level) ∧
    ∀ node ∈ back, wheel.considered node = level + 1
  account : ∀ node ∈ wheel.ring,
    wheel.considered node + wheel.cooldown node = stride node * wheel.dispatched node
  cool : ∀ node ∈ wheel.ring, wheel.cooldown node < stride node

variable {stride : Node → ℕ} {wheel : StrideWheel Node} {node other : Node} {rest ring : List Node}

omit [DecidableEq Node] in
theorem fair_start (distinct : ring.Nodup) (positive : ∀ node ∈ ring, 0 < stride node) :
    (start ring).Fair stride where
  distinct := distinct
  level := ⟨0, ring, [], by simp [start], by simp [start], by simp⟩
  account := by simp [start]
  cool := positive

namespace Fair

/-- A node that has been considered equally often and comes first goes behind the others. -/
theorem level_turn (fair : wheel.Fair stride) (head : wheel.ring = node :: rest) :
    ∃ level front back, rest ++ [node] = front ++ back ∧
      (∀ other ∈ front, (wheel.turn stride node rest).considered other = level) ∧
      ∀ other ∈ back, (wheel.turn stride node rest).considered other = level + 1 := by
  have distinct := fair.distinct
  rw [head, List.nodup_cons] at distinct
  have kept : ∀ other ∈ rest,
      (wheel.turn stride node rest).considered other = wheel.considered other := by
    intro other mem
    have different : other ≠ node := fun same => distinct.1 (same ▸ mem)
    simp [turn, different]
  have gained : (wheel.turn stride node rest).considered node = wheel.considered node + 1 := by
    simp [turn]
  rcases fair.level with ⟨level, front, back, split, low, high⟩
  rw [head] at split
  cases front with
  | nil =>
      have atBack : node :: rest = back := split
      subst atBack
      refine ⟨level + 1, rest, [node], rfl, ?_, ?_⟩
      · intro other mem
        rw [kept other mem]
        exact high other (List.mem_cons_of_mem node mem)
      · intro other mem
        rw [List.mem_singleton.mp mem, gained, high node List.mem_cons_self]
  | cons first front =>
      rw [List.cons_append, List.cons.injEq] at split
      rcases split with ⟨rfl, rfl⟩
      refine ⟨level, front, back ++ [node], by rw [List.append_assoc], ?_, ?_⟩
      · intro other mem
        rw [kept other (List.mem_append_left back mem)]
        exact low other (List.mem_cons_of_mem node mem)
      · intro other mem
        rcases List.mem_append.mp mem with before | last
        · rw [kept other (List.mem_append_right front before)]
          exact high other before
        · rw [List.mem_singleton.mp last, gained, low node List.mem_cons_self]

/-- A turn keeps the wheel fair. -/
theorem turn (fair : wheel.Fair stride) (head : wheel.ring = node :: rest) :
    (wheel.turn stride node rest).Fair stride := by
  have mem : ∀ other, other ∈ rest ++ [node] ↔ other ∈ wheel.ring := by
    intro other
    rw [head]
    simp [or_comm]
  have nodeMem : node ∈ wheel.ring := (mem node).mp (by simp)
  have account := fair.account node nodeMem
  have cool := fair.cool node nodeMem
  constructor
  case distinct =>
    have distinct := fair.distinct
    rw [head] at distinct
    exact (List.perm_append_singleton node rest).nodup_iff.mpr distinct
  case level => exact fair.level_turn head
  case account =>
    intro other otherMem
    have before := fair.account other ((mem other).mp otherMem)
    by_cases same : other = node
    · subst same
      simp only [StrideWheel.turn, Function.update_self]
      by_cases dispatches : wheel.cooldown other = 0
      · simp only [dispatches, if_true, mul_add, mul_one] at before ⊢
        omega
      · simp only [dispatches, if_false, Nat.add_zero]
        omega
    · simpa [StrideWheel.turn, same] using before
  case cool =>
    intro other otherMem
    have before := fair.cool other ((mem other).mp otherMem)
    by_cases same : other = node
    · subst same
      simp only [StrideWheel.turn, Function.update_self]
      split <;> omega
    · simpa [StrideWheel.turn, same] using before

omit [DecidableEq Node] in
/-- Two nodes have been considered equally often but for one. -/
theorem considered_le (fair : wheel.Fair stride) (mem : node ∈ wheel.ring)
    (otherMem : other ∈ wheel.ring) : wheel.considered node ≤ wheel.considered other + 1 := by
  rcases fair.level with ⟨level, front, back, split, low, high⟩
  have between : ∀ some ∈ wheel.ring,
      level ≤ wheel.considered some ∧ wheel.considered some ≤ level + 1 := by
    intro some someMem
    rw [split] at someMem
    rcases List.mem_append.mp someMem with inFront | inBack
    · rw [low some inFront]
      omega
    · rw [high some inBack]
      omega
  have nodeBetween := between node mem
  have otherBetween := between other otherMem
  omega

omit [DecidableEq Node] in
/-- A node is dispatched the first time it is considered and every stride times after. -/
theorem dispatched_eq (fair : wheel.Fair stride) (mem : node ∈ wheel.ring) :
    wheel.dispatched node = wheel.considered node ⌈/⌉ stride node := by
  have account := fair.account node mem
  have cool := fair.cool node mem
  have total : wheel.considered node + stride node - 1 =
      stride node * wheel.dispatched node + (stride node - 1 - wheel.cooldown node) := by
    omega
  rw [Nat.ceilDiv_eq_add_pred_div, total, Nat.mul_add_div (by omega),
    Nat.div_eq_of_lt (by omega), Nat.add_zero]

omit [DecidableEq Node] in
/-- The dispatches of two nodes are in proportion to their strides but for the larger one. -/
theorem proportional (fair : wheel.Fair stride) (mem : node ∈ wheel.ring)
    (otherMem : other ∈ wheel.ring) :
    |(stride node * wheel.dispatched node : ℤ) - stride other * wheel.dispatched other| ≤
      max (stride node : ℤ) (stride other) := by
  have account := fair.account node mem
  have otherAccount := fair.account other otherMem
  have cool := fair.cool node mem
  have otherCool := fair.cool other otherMem
  have apart := fair.considered_le mem otherMem
  have otherApart := fair.considered_le otherMem mem
  rw [← Nat.cast_mul, ← Nat.cast_mul, ← account, ← otherAccount, abs_le]
  omega

omit [DecidableEq Node] in
/-- With strides up to a bound, a node is dispatched at least as often as the average, divided
by the bound, but for one. -/
theorem sum_dispatched_le (fair : wheel.Fair stride) (mem : node ∈ wheel.ring) {bound : ℕ}
    (bounded : ∀ other ∈ wheel.ring, stride other ≤ bound) :
    (wheel.ring.map wheel.dispatched).sum ≤
      wheel.ring.length * (bound * wheel.dispatched node + bound) := by
  have each : ∀ count ∈ wheel.ring.map wheel.dispatched,
      count ≤ bound * wheel.dispatched node + bound := by
    intro count countMem
    rcases List.mem_map.mp countMem with ⟨other, otherMem, rfl⟩
    have cool := fair.cool other otherMem
    have few : wheel.dispatched other ≤ stride other * wheel.dispatched other :=
      Nat.le_mul_of_pos_left _ (by omega)
    have account := fair.account other otherMem
    have ownAccount := fair.account node mem
    have apart := fair.considered_le otherMem mem
    have own : stride node * wheel.dispatched node ≤ bound * wheel.dispatched node :=
      Nat.mul_le_mul_right _ (bounded node mem)
    have most := bounded other otherMem
    omega
  simpa using List.sum_le_card_nsmul _ _ each

end Fair

/-- A turn dispatches the node at the head or nobody. -/
theorem sum_dispatched_turn (distinct : wheel.ring.Nodup) (head : wheel.ring = node :: rest) :
    ((wheel.turn stride node rest).ring.map (wheel.turn stride node rest).dispatched).sum =
      (wheel.ring.map wheel.dispatched).sum + if wheel.cooldown node = 0 then 1 else 0 := by
  rw [head, List.nodup_cons] at distinct
  have kept : rest.map (wheel.turn stride node rest).dispatched =
      rest.map wheel.dispatched := by
    apply List.map_congr_left
    intro other mem
    have different : other ≠ node := fun same => distinct.1 (same ▸ mem)
    simp [turn, different]
  have ring : (wheel.turn stride node rest).ring = rest ++ [node] := rfl
  have own : (wheel.turn stride node rest).dispatched node =
      wheel.dispatched node + if wheel.cooldown node = 0 then 1 else 0 := by
    simp [turn]
  rw [ring, List.map_append, kept, head]
  simp only [List.map_cons, List.map_nil, List.sum_append, List.sum_cons, List.sum_nil, own]
  omega

/-- What the nodes still have to cool down. -/
def heat (wheel : StrideWheel Node) : ℕ := (wheel.ring.map wheel.cooldown).sum

/-- A turn that dispatches nobody uses up one of the cooldown. -/
theorem heat_turn (distinct : wheel.ring.Nodup) (head : wheel.ring = node :: rest)
    (cooling : wheel.cooldown node ≠ 0) :
    (wheel.turn stride node rest).heat < wheel.heat := by
  rw [head, List.nodup_cons] at distinct
  have kept : rest.map (wheel.turn stride node rest).cooldown = rest.map wheel.cooldown := by
    apply List.map_congr_left
    intro other mem
    have different : other ≠ node := fun same => distinct.1 (same ▸ mem)
    simp [turn, different]
  have ring : (wheel.turn stride node rest).ring = rest ++ [node] := rfl
  have own : (wheel.turn stride node rest).cooldown node = wheel.cooldown node - 1 := by
    simp [turn, cooling]
  rw [heat, heat, ring, List.map_append, kept, head]
  simp only [List.map_cons, List.map_nil, List.sum_append, List.sum_cons, List.sum_nil, own]
  omega

end StrideWheel
