import ScopeLint.Tree.Node

/-!
# What the fields of a node hold

The fields of a node stand in the order in which its kind lists them, and each
of them holds a value: a constant, a node, a sequence of values or a table of
values.  `Shape.contents` is the one place where the fields are written down
with their values.  The children of a node are the nodes in these values, from
left to right, and `Shape.parts` lists them in that order.
-/

namespace ScopeLint

/-- What a field holds. -/
inductive Value (α : Type) where
  | constant (literal : Literal)
  | one (a : α)
  | several (items : List (Value α))
  | table (entries : Keyed (Value α))

namespace Value

variable {α β : Type}

mutual

/-- The nodes in a value, from left to right. -/
def nodes : Value α → List α
  | constant _ => []
  | one a => [a]
  | several items => nodesOf items
  | table ⟨_, _, value⟩ => (List.ofFn fun i => (value i).nodes).flatten

def nodesOf : List (Value α) → List α
  | [] => []
  | item :: rest => item.nodes ++ nodesOf rest

end

theorem nodesOf_eq_flatMap (items : List (Value α)) :
    nodesOf items = items.flatMap nodes := by
  induction items with
  | nil => rfl
  | cons item rest induction => rw [nodesOf, induction, List.flatMap_cons]

theorem nodes_cons (item : Value α) (rest : List (Value α)) :
    (several (item :: rest)).nodes = item.nodes ++ (several rest).nodes := by
  simp only [nodes, nodesOf]

theorem nodes_table (entries : Keyed (Value α)) :
    (table entries).nodes = entries.values.flatMap nodes := by
  simp [nodes, Keyed.values, List.flatMap_def, List.map_ofFn, Function.comp_def]

/-! ### The values that fields have -/

def text (value : String) : Value α := constant (.text value)

def truth (value : Bool) : Value α := constant (.truth value)

def optionalText : Option String → Value α
  | none => constant .null
  | some value => text value

def optional : Option α → Value α
  | none => constant .null
  | some a => one a

def sequence (items : List α) : Value α := several (items.map one)

def imported (imported : Imported) : Value α :=
  several [text imported.name, optionalText imported.asName]

/-- A pair of a test and what it guards. -/
def branch (branch : Branch α) : Value α :=
  several [one branch.test, sequence branch.body]

/-- A triple of a pattern, a condition that may be left out, and what they
guard. -/
def arm (arm : Arm α) : Value α :=
  several [one arm.pattern, optional arm.condition, sequence arm.body]

theorem nodes_several_map (form : β → Value α) (items : List β) :
    (several (items.map form)).nodes =
      items.flatMap fun item => (form item).nodes := by
  rw [nodes, nodesOf_eq_flatMap, List.flatMap_map]

theorem nodes_table_map (form : β → Value α) (entries : Keyed β) :
    (table (entries.map form)).nodes =
      entries.values.flatMap fun item => (form item).nodes := by
  rw [nodes_table, Keyed.values_map, List.flatMap_map]

@[simp] theorem nodes_constant (literal : Literal) :
    (constant literal : Value α).nodes = [] := by
  rw [nodes]

@[simp] theorem nodes_one (a : α) : (one a).nodes = [a] := by
  rw [nodes]

@[simp] theorem nodes_nil : (several [] : Value α).nodes = [] := by
  rw [nodes, nodesOf]

@[simp] theorem nodes_text (value : String) :
    (text value : Value α).nodes = [] :=
  nodes_constant _

@[simp] theorem nodes_truth (value : Bool) :
    (truth value : Value α).nodes = [] :=
  nodes_constant _

@[simp] theorem nodes_optionalText (value : Option String) :
    (optionalText value : Value α).nodes = [] := by
  cases value <;> exact nodes_constant _

@[simp] theorem nodes_optional (item : Option α) :
    (optional item).nodes = item.toList := by
  cases item with
  | none => exact nodes_constant _
  | some a => exact nodes_one a

@[simp] theorem nodes_sequence (items : List α) :
    (sequence items).nodes = items := by
  simp [sequence, nodes_several_map]

@[simp] theorem nodes_imported (names : Imported) :
    (imported names : Value α).nodes = [] := by
  simp [imported, nodes_cons]

@[simp] theorem nodes_branch (item : Branch α) :
    (branch item).nodes = item.parts := by
  simp [branch, nodes_cons, Branch.parts]

@[simp] theorem nodes_arm (item : Arm α) : (arm item).nodes = item.parts := by
  simp [arm, nodes_cons, Arm.parts]

end Value

namespace Shape

variable {α : Type}

/-- The fields of a shape with their values. -/
def contents : Shape α → List (String × Value α)
  | bare | expression => []
  | literal value => [("value", .constant value)]
  | name word usage => [("name", .text word), ("ctx", .text usage)]
  | tuple items usage => [("items", .sequence items), ("ctx", .text usage)]
  | list items => [("items", .sequence items)]
  | member object field => [("obj", .one object), ("attr", .text field)]
  | call callee args keywords =>
    [("func", .one callee), ("args", .sequence args),
      ("kwargs", .table (keywords.map .one))]
  | filter subject title args keywords =>
    [("value", .one subject), ("name", .text title), ("args", .sequence args),
      ("kwargs", .table (keywords.map .one))]
  | test subject title args negated =>
    [("value", .one subject), ("name", .text title), ("args", .sequence args),
      ("negated", .truth negated)]
  | binary left operator right =>
    [("left", .one left), ("op", .text operator), ("right", .one right)]
  | lambda params body =>
    [("params", .several (params.map .text)), ("body", .one body)]
  | parameter title typing =>
    [("name", .text title), ("annotation", .optionalText typing)]
  | definition title params body defaults rest named =>
    [("name", .text title), ("params", .sequence params),
      ("body", .sequence body), ("defaults", .sequence defaults),
      ("vararg", .optionalText rest), ("kwarg", .optionalText named)]
  | callBlock head slots args =>
    [("call", .one head), ("slots", .table (slots.map .sequence)),
      ("args", .sequence args)]
  | conditional first body branches otherwise =>
    [("test", .one first), ("body", .sequence body),
      ("elif_", .several (branches.map .branch)),
      ("else_", .sequence otherwise)]
  | loop _ target source body empty only =>
    [("target", .one target), ("iter", .one source), ("body", .sequence body),
      ("empty", .sequence empty), ("test", .optional only)]
  | switch subject arms =>
    [("subject", .optional subject), ("cases", .several (arms.map .arm))]
  | output value escape => [("expr", .one value), ("escape", .truth escape)]
  | text value => [("value", .text value)]
  | importModule source target =>
    [("template", .one source), ("target", .text target)]
  | importNames source names =>
    [("template", .one source), ("names", .several (names.map .imported))]
  | template body title =>
    [("body", .sequence body), ("name", .optionalText title)]
  | assign .plain target value =>
    [("target", .one target), ("value", .one value)]
  | assign .scoped target value | assign .exported target value =>
    [("name", .one target), ("value", .one value)]
  | capture title body through =>
    [("name", .text title), ("body", .sequence body),
      ("filter", .optional through)]

/-- The fields are those of the kind, in the same order. -/
theorem map_fst_contents (shape : Shape α) :
    shape.contents.map Prod.fst = shape.kind.ownFields.map Field.name := by
  cases shape with
  | loop mode => cases mode <;> rfl
  | assign form => cases form <;> rfl
  | _ => rfl

theorem parts_eq_contents (shape : Shape α) :
    shape.parts = shape.contents.flatMap fun field => field.2.nodes := by
  cases shape with
  | assign form => cases form <;> simp [parts, contents]
  | callBlock head slots args =>
      simp [parts, contents, Value.nodes_table_map, List.flatMap_def]
  | _ =>
      simp [parts, contents, Value.nodes_several_map, Value.nodes_table_map]

/-- The values of the fields of a shape, in the order of the fields. -/
def values (shape : Shape α) : List (Value α) := shape.contents.map Prod.snd

/-- There is a value for every field of the kind. -/
theorem length_values (shape : Shape α) :
    shape.values.length = shape.kind.ownFields.length := by
  have lengths := congrArg List.length shape.map_fst_contents
  rw [List.length_map, List.length_map] at lengths
  rw [values, List.length_map, lengths]

/-- What stands in the holes of a shape is what the values of its fields
hold. -/
theorem parts_eq_nodes (shape : Shape α) :
    shape.parts = (Value.several shape.values).nodes := by
  rw [parts_eq_contents, values, Value.nodes_several_map]

end Shape

/-- The nodes that the fields of a node hold, field by field. -/
def Node.held (node : Node) : List Node :=
  node.shape.contents.flatMap fun field => field.2.nodes

theorem Node.children_eq_held (node : Node) : node.children = node.held :=
  node.shape.parts_eq_contents

end ScopeLint
