import ScopeLint.Proofs.Bracketing
import ScopeLint.Proofs.FieldAgreement
import ScopeLint.Proofs.Unfolding

/-!
# Equal trees

Equality of trees is an equivalence relation.  It does not look at identities,
so it does not matter which nodes are shared.  Equal trees may list the entries
of a table in different orders, so that a walk comes to their nodes in different
orders, but it comes to equally many nodes and to the same labels.
-/

namespace ScopeLint

open Value (Agrees)

namespace Node

/-- The values of the fields of a node, its position first. -/
def fieldValues (node : Node) : List (Value Node) :=
  .constant (.integer node.position.line) ::
    .constant (.integer node.position.column) :: node.shape.values

theorem length_fieldValues (node : Node) :
    node.fieldValues.length = node.kind.fieldNames.length := by
  simp [fieldValues, Kind.fieldNames, Shape.length_values, kind]

/-- The fields of a node as one value. -/
def record (node : Node) : Value Node := .several node.fieldValues

theorem nodes_record (node : Node) : node.record.nodes = node.children := by
  simp [record, fieldValues, Value.nodes_cons, children, Shape.parts_eq_nodes]

/-- Nodes are equal when they have the same kind and their fields agree. -/
theorem same_iff_record (node other : Node) :
    node.same other = true ↔
      node.kind = other.kind ∧
      Agrees (fun a b => a.same b = true) node.record other.record := by
  have positions : node.position = other.position ↔
      node.position.line = other.position.line ∧
      node.position.column = other.position.column := by
    cases node.position
    cases other.position
    simp
  have records : Agrees (fun a b => a.same b = true) node.record other.record ↔
      node.position = other.position ∧ Agrees (fun a b => a.same b = true)
        (.several node.shape.values) (.several other.shape.values) := by
    simp [record, fieldValues, Literal.worth, positions, and_assoc]
  rw [same_eq, Bool.and_eq_true, beq_iff_eq, Shape.agree_iff, records]
  exact and_left_comm

/-! ## An equivalence -/

theorem same_symm {node other : Node} (same : node.same other = true) :
    other.same node = true := by
  induction node using induction_on_children generalizing other with
  | step node induction =>
      obtain ⟨kinds, agrees⟩ := (same_iff_record node other).mp same
      apply (same_iff_record other node).mpr
      refine ⟨kinds.symm, agrees.symm ?_⟩
      intro child member partner
      rw [nodes_record] at member
      exact induction child member

theorem same_trans {node middle other : Node} (first : node.same middle = true)
    (second : middle.same other = true) : node.same other = true := by
  induction node using induction_on_children generalizing middle other with
  | step node induction =>
      obtain ⟨kinds, agrees⟩ := (same_iff_record node middle).mp first
      obtain ⟨kindsLater, agreesLater⟩ :=
        (same_iff_record middle other).mp second
      apply (same_iff_record node other).mpr
      refine ⟨kinds.trans kindsLater, agrees.trans agreesLater ?_⟩
      intro child member between partner
      rw [nodes_record] at member
      exact induction child member

end Node

/-! ## Identities -/

section Places

variable {α β : Type} {same : β → α → Bool} {f : Nat → α → β}

theorem listAgree_mapIdx (related : ∀ place a, same (f place a) a = true)
    (items : List α) :
    listAgree same (items.mapIdx f) items = true := by
  induction items generalizing f with
  | nil => rfl
  | cons head rest induction =>
      rw [List.mapIdx_cons, listAgree, related,
        induction fun place => related (place + 1)]
      rfl

theorem optionAgree_mapIdx (related : ∀ place a, same (f place a) a = true)
    (place : Nat) (item : Option α) :
    optionAgree same (item.map (f place)) item = true := by
  cases item with
  | none => rfl
  | some a => exact related place a

theorem Keyed.agree_mapIdx (related : ∀ place a, same (f place a) a = true)
    (table : Keyed α) :
    (table.mapIdx f).agree same table = true := by
  rw [agree, Bool.and_eq_true, List.all_eq_true]
  refine ⟨by simp [mapIdx], fun i _ => ?_⟩
  have found : table.get? (table.mapIdx f).keys[i] = some (table.value i) :=
    table.get?_key i
  rw [found]
  exact related _ _

theorem Branch.agree_mapIdx (related : ∀ place a, same (f place a) a = true)
    (branch : Branch α) : (branch.mapIdx f).agree same branch = true := by
  have later := listAgree_mapIdx (fun place => related (place + 1)) branch.body
  simp [agree, mapIdx, related, later]

theorem Arm.agree_mapIdx (related : ∀ place a, same (f place a) a = true)
    (arm : Arm α) :
    (arm.mapIdx f).agree same arm = true := by
  have condition := optionAgree_mapIdx related 1 arm.condition
  have later := listAgree_mapIdx
    (fun place => related (place + arm.condition.toList.length + 1)) arm.body
  simp [agree, mapIdx, related, condition, later]

/-- A shape agrees with what it is changed into if everything in it does,
wherever it stands. -/
theorem Shape.agree_mapIdx (related : ∀ place a, same (f place a) a = true)
    (shape : Shape α) : (shape.mapIdx f).agree same shape = true := by
  cases shape <;>
    simp [agree, mapIdx, related, Literal.same_self, listAgree_mapIdx,
      optionAgree_mapIdx, Keyed.agree_mapIdx, Branch.agree_mapIdx,
      Arm.agree_mapIdx]

end Places

namespace Node

/-- Every tree is equal to its unfoldings. -/
theorem same_unfold_self (identity : List Nat → Nat) (node : Node) :
    (node.unfold identity).same node = true := by
  classical
  induction node using induction_on_children generalizing identity with
  | step node induction =>
      -- What stands at a place of the unfolding is an unfolding of what stands
      -- there.
      let unfolds (a b : Node) : Bool :=
        decide (∃ identity, a = b.unfold identity)
      have everywhere : ∀ place child,
          unfolds (child.unfold fun path => identity (place :: path))
            child = true := by
        intro place child
        exact decide_eq_true ⟨_, rfl⟩
      have agrees := Shape.agree_mapIdx everywhere node.shape
      rw [← shape_unfold, Shape.agree_iff] at agrees
      rw [same_eq, position_unfold, beq_self_eq_true, Bool.true_and,
        Shape.agree_iff]
      refine ⟨agrees.1, agrees.2.imp ?_⟩
      intro child member copy isCopy
      rw [← Shape.parts_eq_nodes] at member
      obtain ⟨other, rfl⟩ := of_decide_eq_true isCopy
      exact induction child member other

/-- Whether trees are equal does not depend on the identities of the nodes in
them. -/
theorem same_unfold (node other : Node)
    (identity otherIdentity : List Nat → Nat) :
    (node.unfold identity).same (other.unfold otherIdentity) =
      node.same other := by
  have copied := same_unfold_self identity node
  have otherCopied := same_unfold_self otherIdentity other
  apply Bool.eq_iff_iff.mpr
  constructor
  · intro same
    exact same_trans (same_trans (same_symm copied) same) otherCopied
  · intro same
    exact same_trans (same_trans copied same) (same_symm otherCopied)

/-! ## Walks -/

theorem label_of_other {node : Node} (noName : node.kind ≠ .name) :
    node.label = node.kind.label := by
  rw [label]
  split
  · rename_i shape
    exact absurd (congrArg Shape.kind shape) noName
  · rfl

theorem label_eq_of_same {node other : Node} (same : node.same other = true) :
    node.label = other.label := by
  obtain ⟨kinds, agrees⟩ := (same_iff_record node other).mp same
  by_cases isName : node.kind = .name
  · obtain ⟨word, usage, shape⟩ := shape_of_name isName
    obtain ⟨otherWord, otherUsage, otherShape⟩ := shape_of_name (kinds ▸ isName)
    have words : word = otherWord := by
      rw [record, record, fieldValues, fieldValues, shape, otherShape] at agrees
      simp only [Shape.values, Shape.contents, List.map_cons, Value.agrees_cons,
        Value.agrees_text] at agrees
      exact agrees.2.2.1
    rw [label, label, shape, otherShape, words]
  · rw [label_of_other isName, label_of_other (kinds ▸ isName), kinds]

/-- Equal trees have the same labels, in some order. -/
theorem labels_perm_of_same {node other : Node}
    (same : node.same other = true) :
    (node.nodes.map label).Perm (other.nodes.map label) := by
  induction node using induction_on_children generalizing other with
  | step node induction =>
      obtain ⟨_, agrees⟩ := (same_iff_record node other).mp same
      have below :
          ((node.children.flatMap fun child => child.nodes.map label)).Perm
            (other.children.flatMap fun child => child.nodes.map label) := by
        rw [← nodes_record, ← nodes_record]
        apply agrees.perm
        intro child member partner
        rw [nodes_record] at member
        exact induction child member
      rw [nodes_eq, nodes_eq, List.map_cons, List.map_cons, List.map_flatMap,
        List.map_flatMap, label_eq_of_same same]
      exact below.cons _

theorem length_occurrences_of_same {node other : Node}
    (same : node.same other = true) :
    node.occurrences.length = other.occurrences.length := by
  have lengths := (labels_perm_of_same same).length_eq
  rw [List.length_map, List.length_map, ← map_node_occurrences,
    ← map_node_occurrences, List.length_map, List.length_map] at lengths
  exact lengths

end Node

/-- The labels of the nodes that are entered, in order. -/
def Traversal.enterLabels (traversal : Traversal) : List String :=
  (traversal.calls.filter (·.hook = .enter)).map (·.node.label)

namespace Visitor

variable {visitor : Visitor}

/-- A walk that comes to its end enters all nodes of the tree. -/
theorem Keeps.enterLabels_of_ok (keeps : visitor.Keeps) {root given : Node}
    (done : (traverse [visitor] root).result = .ok given) :
    (traverse [visitor] root).enterLabels = root.nodes.map Node.label := by
  rw [result_traverse_single] at done
  have complete : visitor.pass root = _ :=
    keeps.passFrom_of_smooth (keeps.smooth_of_ok done)
  have calls :
      (traverse [visitor] root).calls.map (fun call => (call.hook, call.node)) =
      root.events.map fun event => (event.hook, event.node) := by
    rw [calls_traverse_single, outline, complete, List.map_map]
    exact map_hook_node_callbacks visitor.start root.events
  calc
    (traverse [visitor] root).enterLabels
      = (((traverse [visitor] root).calls.map fun call =>
          (call.hook, call.node)).filter (·.1 = .enter)).map (·.2.label) := by
        rw [List.filter_map, List.map_map]
        rfl
    _ = (root.occurrences.map Occurrence.node).map Node.label := by
        rw [calls, List.filter_map, List.map_map, Node.occurrences,
          Event.entered, List.map_map, List.map_map]
        rfl
    _ = root.nodes.map Node.label := by rw [Node.map_node_occurrences]

/-- A visitor that gives back every node it gets comes to the end of every
tree. -/
theorem Keeps.result_of_returns (keeps : visitor.Keeps)
    (returns : ∀ hook state node, (visitor.react hook state node).reply = .keep)
    (root : Node) :
    (traverse [visitor] root).result = .ok root := by
  have complete : visitor.pass root = _ :=
    keeps.passFrom_of_smooth (smooth_of_keep returns visitor.start root.events)
  rw [result_traverse_single, complete]

end Visitor

namespace Node

/-- Two nodes are equal when they have the same kind and all their fields agree
one by one.  That is an equivalence relation, and it does not depend on
identities.  A walk through one of two equal trees enters as many nodes as a
walk through the other, with the same labels. -/
theorem same_laws :
    (∀ node : Node, node.fieldValues.length = node.kind.fieldNames.length) ∧
    (∀ node other : Node, node.same other = true ↔
      node.kind = other.kind ∧
      Agrees (fun a b => a.same b = true) node.record other.record) ∧
    Equivalence (fun node other : Node => node.same other = true) ∧
    (∀ (node other : Node) (identity otherIdentity : List Nat → Nat),
      (node.unfold identity).same (other.unfold otherIdentity) =
        node.same other) ∧
    ∀ node other : Node, node.same other = true →
      node.occurrences.length = other.occurrences.length ∧
      ∀ visitor : Visitor, visitor.Keeps →
        ((∀ hook state inner, (visitor.react hook state inner).reply = .keep) →
          (traverse [visitor] node).result = .ok node ∧
          (traverse [visitor] other).result = .ok other) ∧
        ((traverse [visitor] node).result = .ok node →
          (traverse [visitor] other).result = .ok other →
          (traverse [visitor] node).enterLabels.Perm
            (traverse [visitor] other).enterLabels) := by
  refine ⟨length_fieldValues, same_iff_record,
    ⟨same_self, same_symm, same_trans⟩, same_unfold, ?_⟩
  intro node other same
  refine ⟨length_occurrences_of_same same, ?_⟩
  intro visitor keeps
  constructor
  · intro returns
    exact ⟨keeps.result_of_returns returns node,
      keeps.result_of_returns returns other⟩
  · intro done otherDone
    rw [keeps.enterLabels_of_ok done, keeps.enterLabels_of_ok otherDone]
    exact labels_perm_of_same same

/-- A call with two keywords, the second of which is a list.  The sum is written
as two nodes that are equal. -/
def invoice : Node :=
  ⟨0, ⟨1, 0⟩, .call ⟨1, ⟨1, 0⟩, .name "invoice" "load"⟩
      [⟨2, ⟨1, 8⟩, .literal (.truth true)⟩]
    (Keyed.ofList
      [("total", ⟨3, ⟨2, 6⟩, .name "sum" "load"⟩),
       ("rows", ⟨4, ⟨3, 5⟩, .list
         [⟨5, ⟨2, 6⟩, .name "sum" "load"⟩,
           ⟨6, ⟨3, 13⟩, .literal (.integer 0)⟩]⟩)])⟩

/-- The same call with its keywords in another order.  The sum is one node that
is reached twice. -/
def reorderedInvoice : Node :=
  let sum : Node := ⟨11, ⟨2, 6⟩, .name "sum" "load"⟩
  ⟨7, ⟨1, 0⟩, .call ⟨8, ⟨1, 0⟩, .name "invoice" "load"⟩
      [⟨9, ⟨1, 8⟩, .literal (.integer 1)⟩]
    (Keyed.ofList
      [("rows",
        ⟨10, ⟨3, 5⟩, .list [sum, ⟨12, ⟨3, 13⟩, .literal (.truth false)⟩]⟩),
       ("total", sum)])⟩

theorem same_laws_invoice :
    invoice.same reorderedInvoice = true ∧
    reorderedInvoice.same invoice = true ∧
    invoice.occurrences.length = reorderedInvoice.occurrences.length ∧
    (traverse [Visitor.idle] invoice).enterLabels =
      ["FuncCall", "Name:invoice", "Const", "Name:sum", "List", "Name:sum",
        "Const"] ∧
    (traverse [Visitor.idle] reorderedInvoice).enterLabels =
      ["FuncCall", "Name:invoice", "Const", "List", "Name:sum", "Const",
        "Name:sum"] ∧
    (traverse [Visitor.idle] invoice).enterLabels.Perm
      (traverse [Visitor.idle] reorderedInvoice).enterLabels := by
  obtain ⟨_, _, equivalence, _, walks⟩ := same_laws
  have same : invoice.same reorderedInvoice = true := by decide +kernel
  obtain ⟨lengths, labels⟩ := walks invoice reorderedInvoice same
  have keeps : Visitor.idle.Keeps := by
    intro hook state node other replaced
    cases replaced
  obtain ⟨ends, permuted⟩ := labels Visitor.idle keeps
  obtain ⟨done, otherDone⟩ := ends fun _ _ _ => rfl
  exact ⟨same, equivalence.symm same, lengths, by decide +kernel,
    by decide +kernel, permuted done otherDone⟩

end Node

end ScopeLint
