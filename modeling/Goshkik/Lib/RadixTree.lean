import Mathlib.Data.List.Basic
import Mathlib.Data.Finset.Basic

/-!
# Radix trees stored in memory

Tables are addresses, `read table index` is the word stored in a slot of a
table, and `child word` decodes a word into the table it points to, if it points
to one.  `descend` follows a path of indices from the root.

The invariant that makes such a tree behave like a map is `Unshared`: two paths
never arrive at the same table.  Under it a write into one slot is invisible to
every path that does not go through that slot (`descend_write`), and hanging a
fresh empty table into an empty slot adds exactly one path (`descend_attach`).
-/

namespace RadixTree

universe u v w

variable {Table : Type u} {Index : Type v} {Word : Type w}

section Descend

variable (child : Word → Option Table) (read : Table → Index → Word)

/-- The table at the end of a path of indices. -/
def descend (root : Table) : List Index → Option Table
  | [] => some root
  | index :: path => (child (read root index)).bind (fun table => descend table path)

/-- A table that some path of at most `depth` indices arrives at. -/
def Reached (depth : ℕ) (root table : Table) : Prop :=
  ∃ path : List Index, path.length ≤ depth ∧ descend child read root path = some table

/-- No table is reached by two different paths. -/
def Unshared (depth : ℕ) (root : Table) : Prop :=
  ∀ (left right : List Index) (table : Table), left.length ≤ depth → right.length ≤ depth →
    descend child read root left = some table → descend child read root right = some table →
      left = right

end Descend

variable {child : Word → Option Table} {read read' : Table → Index → Word} {root table : Table}
  {path above below : List Index} {index : Index} {depth : ℕ}

@[simp]
theorem descend_nil : descend child read root ([] : List Index) = some root := rfl

theorem descend_snoc : descend child read root (path ++ [index]) =
    (descend child read root path).bind (fun table => child (read table index)) := by
  induction path generalizing root with
  | nil => simp [descend]
  | cons first path ih =>
      simp only [List.cons_append, descend]
      cases child (read root first) with
      | none => rfl
      | some next => exact ih

theorem descend_append : descend child read root (above ++ below) =
    (descend child read root above).bind
      (fun table => descend child read table below) := by
  induction above generalizing root with
  | nil => simp
  | cons first above ih =>
      simp only [List.cons_append, descend]
      cases child (read root first) with
      | none => rfl
      | some next => exact ih

/-- A path of indices only depends on the tables it passes. -/
theorem descend_congr (agree : ∀ (front : List Index) (passed : Table) (next : Index),
      (front ++ [next]) <+: path → descend child read root front = some passed →
        read' passed next = read passed next) :
    descend child read' root path = descend child read root path := by
  induction path using List.reverseRecOn with
  | nil => rfl
  | append_singleton path index ih =>
      rw [descend_snoc, descend_snoc, ih (fun front passed next isPrefix arrives =>
        agree front passed next (isPrefix.trans (List.prefix_append _ _)) arrives)]
      cases arrives : descend child read root path with
      | none => rfl
      | some passed =>
          simp only [Option.bind_some]
          rw [agree path passed index (List.prefix_refl _) arrives]

/-- A write into one slot is invisible to paths that do not go through it. -/
theorem descend_write (unshared : Unshared child read depth root)
    (arrives : descend child read root above = some table) (aboveShort : above.length ≤ depth)
    (agree : ∀ other next, Reached child read depth root other →
      ¬(other = table ∧ next = index) → read' other next = read other next)
    (short : path.length ≤ depth + 1) (elsewhere : ¬(above ++ [index]) <+: path) :
    descend child read' root path = descend child read root path := by
  apply descend_congr
  intro front passed next isPrefix passedEq
  have frontShort : front.length ≤ depth := by
    have lengthLe := isPrefix.length_le
    rw [List.length_append, List.length_singleton] at lengthLe
    omega
  apply agree passed next ⟨front, frontShort, passedEq⟩
  rintro ⟨rfl, rfl⟩
  exact elsewhere (unshared above front passed aboveShort frontShort arrives passedEq ▸ isPrefix)

section Attach

variable [DecidableEq Index] {fresh : Table}

/-- Hanging a fresh empty table into an empty slot adds the path to it and
nothing else. -/
theorem descend_attach (unshared : Unshared child read depth root)
    (arrives : descend child read root above = some table) (aboveShort : above.length < depth)
    (emptySlot : child (read table index) = none)
    (agree : ∀ other next, Reached child read depth root other →
      ¬(other = table ∧ next = index) → read' other next = read other next)
    (points : child (read' table index) = some fresh)
    (freshEmpty : ∀ next, child (read' fresh next) = none) (short : path.length ≤ depth) :
    descend child read' root path =
      if path = above ++ [index] then some fresh else descend child read root path := by
  have aboveSame : descend child read' root above = some table := by
    rw [descend_write unshared arrives (by omega) agree (by omega), arrives]
    intro isPrefix
    have lengthLe := isPrefix.length_le
    rw [List.length_append, List.length_singleton] at lengthLe
    omega
  have newSlot : descend child read' root (above ++ [index]) = some fresh := by
    simp [descend_snoc, aboveSame, points]
  have oldSlot : descend child read root (above ++ [index]) = none := by
    simp [descend_snoc, arrives, emptySlot]
  by_cases below : (above ++ [index]) <+: path
  · rcases below with ⟨rest, rfl⟩
    cases rest with
    | nil => simp [newSlot]
    | cons next rest =>
        have longer : above ++ [index] ++ next :: rest ≠ above ++ [index] := by simp
        rw [if_neg longer, descend_append, newSlot, descend_append, oldSlot]
        simp [descend, freshEmpty]
  · have different : path ≠ above ++ [index] := by
      rintro rfl
      exact below (List.prefix_refl _)
    rw [if_neg different, descend_write unshared arrives (by omega) agree (by omega) below]

/-- Hanging a fresh table into an empty slot keeps the tree unshared. -/
theorem unshared_attach (unshared : Unshared child read depth root)
    (freshTable : ¬Reached child read depth root fresh)
    (attached : ∀ path : List Index, path.length ≤ depth → descend child read' root path =
      if path = above ++ [index] then some fresh else descend child read root path) :
    Unshared child read' depth root := by
  intro left right other leftShort rightShort leftArrives rightArrives
  rw [attached left leftShort] at leftArrives
  rw [attached right rightShort] at rightArrives
  split at leftArrives
  next leftEq =>
    cases leftArrives
    split at rightArrives
    next rightEq => rw [leftEq, rightEq]
    next => exact absurd ⟨right, rightShort, rightArrives⟩ freshTable
  next =>
    split at rightArrives
    next =>
      cases rightArrives
      exact absurd ⟨left, leftShort, leftArrives⟩ freshTable
    next => exact unshared left right other leftShort rightShort leftArrives rightArrives

end Attach

/-- A tree in which every path of at most `depth` indices arrives where it did
before is as unshared as before. -/
theorem unshared_congr (unshared : Unshared child read depth root)
    (same : ∀ path : List Index, path.length ≤ depth →
      descend child read' root path = descend child read root path) :
    Unshared child read' depth root := by
  intro left right other leftShort rightShort leftArrives rightArrives
  rw [same left leftShort] at leftArrives
  rw [same right rightShort] at rightArrives
  exact unshared left right other leftShort rightShort leftArrives rightArrives

/-- A root whose slots are all empty reaches only itself. -/
theorem descend_empty (empty : ∀ next, child (read root next) = none) (ne : path ≠ []) :
    descend child read root path = none := by
  cases path with
  | nil => exact absurd rfl ne
  | cons first path => simp [descend, empty]

end RadixTree
