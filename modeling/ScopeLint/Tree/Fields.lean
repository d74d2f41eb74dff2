import ScopeLint.Tree.Node

/-!
# Plain fields of a node

A field is plain when it holds a constant and no node: numbers, texts, truth
values, and fields that are left out.
-/

namespace ScopeLint

private def textOrNull : Option String → Literal
  | some text => .text text
  | none => .null

private def absent {α : Type} (field : String) :
    Option α → List (String × Literal)
  | some _ => []
  | none => [(field, .null)]

/-- The fields of a shape that hold a constant, by name. -/
def Shape.plainFields {α : Type} : Shape α → List (String × Literal)
  | .literal value => [("value", value)]
  | .name word usage => [("name", .text word), ("ctx", .text usage)]
  | .tuple _ usage => [("ctx", .text usage)]
  | .member _ field => [("attr", .text field)]
  | .filter _ title _ _ => [("name", .text title)]
  | .test _ title _ negated =>
    [("name", .text title), ("negated", .truth negated)]
  | .binary _ operator _ => [("op", .text operator)]
  | .parameter title typing =>
    [("name", .text title), ("annotation", textOrNull typing)]
  | .definition title _ _ _ rest named =>
    [("name", .text title), ("vararg", textOrNull rest),
      ("kwarg", textOrNull named)]
  | .loop _ _ _ _ _ only => absent "test" only
  | .switch subject _ => absent "subject" subject
  | .output _ escape => [("escape", .truth escape)]
  | .text value => [("value", .text value)]
  | .importModule _ target => [("target", .text target)]
  | .template _ title => [("name", textOrNull title)]
  | .capture title _ through => ("name", .text title) :: absent "filter" through
  | .bare | .expression | .list _ | .call .. | .lambda .. | .callBlock ..
  | .conditional .. | .importNames .. | .assign .. => []

/-- The plain fields of a node, its position first. -/
def Node.plainFields (node : Node) : List (String × Literal) :=
  ("lineno", .integer node.position.line) ::
    ("col_offset", .integer node.position.column) :: node.shape.plainFields

end ScopeLint
