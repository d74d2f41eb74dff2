/-!
# Kinds of template nodes

Every node has a kind, and every kind a fixed list of named fields.  The
fields stand in the order in which the constructs appear in a template.
-/

namespace ScopeLint

inductive Kind where
  | bare | expression
  | literal | name | tuple | list | member | call | filter | test | binary
  | lambda
  | parameter | definition | callBlock
  | conditional | loop | asyncLoop | switch
  | output | text
  | importModule | importNames | template
  | assignSet | assignLet | assignExport | capture
  deriving DecidableEq, Repr

/-- A named part of a node, which may be left out if it is optional. -/
structure Field where
  name : String
  optional : Bool := false
  deriving DecidableEq, Repr

namespace Kind

def all : List Kind :=
  [bare, expression, literal, name, tuple, list, member, call, filter, test,
    binary, lambda, parameter, definition, callBlock, conditional, loop,
    asyncLoop, switch, output, text, importModule, importNames, template,
    assignSet, assignLet, assignExport, capture]

/-- What a kind is called in messages. -/
def label : Kind → String
  | bare => "Node"
  | expression => "Expr"
  | literal => "Const"
  | name => "Name"
  | tuple => "Tuple"
  | list => "List"
  | member => "Getattr"
  | call => "FuncCall"
  | filter => "Filter"
  | test => "Test"
  | binary => "BinOp"
  | lambda => "Lambda"
  | parameter => "DefParam"
  | definition => "Def"
  | callBlock => "CallBlock"
  | conditional => "If"
  | loop => "For"
  | asyncLoop => "AsyncFor"
  | switch => "Match"
  | output => "Output"
  | text => "Data"
  | importModule => "Import"
  | importNames => "FromImport"
  | template => "Template"
  | assignSet => "Set"
  | assignLet => "Let"
  | assignExport => "Export"
  | capture => "Capture"

def ofLabel? (label : String) : Option Kind := all.find? (·.label == label)

/-- Whether nodes of this kind are expressions. -/
def isExpression : Kind → Bool
  | expression | literal | name | tuple | list | member | call | filter | test
  | binary | lambda => true
  | _ => false

private def required (name : String) : Field := { name }

private def optional (name : String) : Field := { name, optional := true }

/-- The fields of a kind, its position apart. -/
def ownFields : Kind → List Field
  | bare | expression => []
  | literal | text => [required "value"]
  | name => [required "name", optional "ctx"]
  | tuple => [required "items", optional "ctx"]
  | list => [required "items"]
  | member => [required "obj", required "attr"]
  | call => [required "func", optional "args", optional "kwargs"]
  | filter =>
    [required "value", required "name", optional "args", optional "kwargs"]
  | test =>
    [required "value", required "name", optional "args", optional "negated"]
  | binary => [required "left", required "op", required "right"]
  | lambda => [required "params", required "body"]
  | parameter => [required "name", optional "annotation"]
  | definition =>
    [required "name", required "params", required "body", optional "defaults",
      optional "vararg", optional "kwarg"]
  | callBlock => [required "call", required "slots", optional "args"]
  | conditional =>
    [required "test", required "body", optional "elif_", optional "else_"]
  | loop | asyncLoop =>
    [required "target", required "iter", required "body", optional "empty",
      optional "test"]
  | switch => [required "subject", required "cases"]
  | output => [required "expr", optional "escape"]
  | importModule => [required "template", required "target"]
  | importNames => [required "template", required "names"]
  | template => [required "body", optional "name"]
  | assignSet => [required "target", required "value"]
  | assignLet | assignExport => [required "name", required "value"]
  | capture => [required "name", required "body", optional "filter"]

/-- The names of all fields of a kind, its position first. -/
def fieldNames (kind : Kind) : List String :=
  "lineno" :: "col_offset" :: kind.ownFields.map Field.name

/-- Whether fields with these names, beside a position, make up a node: every
required field is there, and no field that the kind does not have. -/
def accepts (kind : Kind) (given : List String) : Bool :=
  kind.ownFields.all
    (fun field => field.optional || given.contains field.name) &&
    given.all fun name => kind.ownFields.any (·.name == name)

end Kind

end ScopeLint
