import ScopeLint.Tree.Fold

/-!
# Induction over trees

The nodes below a node are less high than the node, so what holds of a node
whenever it holds of its children holds of every node.
-/

namespace ScopeLint.Node

/-- The number of nodes on the longest way down from a node. -/
def height : Node → Nat :=
  fold fun _ below => (below.parts.map fun part => part ()).foldr max 0 + 1

private theorem le_foldr_max {height : Nat} {heights : List Nat}
    (member : height ∈ heights) :
    height ≤ heights.foldr max 0 := by
  induction heights with
  | nil => cases member
  | cons head rest induction =>
    rcases List.mem_cons.mp member with rfl | later
    · exact Nat.le_max_left ..
    · exact Nat.le_trans (induction later) (Nat.le_max_right ..)

theorem height_eq (node : Node) :
    node.height = (node.children.map height).foldr max 0 + 1 := by
  rw [height, fold_eq, Shape.parts_map, List.map_map]
  rfl

theorem height_pos (node : Node) : 0 < node.height := by
  rw [height_eq]
  exact Nat.succ_pos _

theorem height_lt_of_mem_children {node child : Node}
    (member : child ∈ node.children) :
    child.height < node.height := by
  rw [height_eq node]
  exact Nat.lt_succ_of_le (le_foldr_max (List.mem_map.mpr ⟨child, member, rfl⟩))

/-- What holds of a node whenever it holds of the nodes below it holds of
every node. -/
theorem induction_on_children {motive : Node → Prop}
    (step : ∀ node, (∀ child ∈ node.children, motive child) → motive node)
    (node : Node) :
    motive node := by
  suffices bounded : ∀ bound node, node.height ≤ bound → motive node from
    bounded node.height node (Nat.le_refl _)
  intro bound
  induction bound with
  | zero =>
    intro node low
    exact absurd (height_pos node) (Nat.not_lt.mpr low)
  | succ bound induction =>
    intro node low
    apply step
    intro child member
    apply induction
    exact Nat.le_of_lt_succ
      (Nat.lt_of_lt_of_le (height_lt_of_mem_children member) low)

end ScopeLint.Node
