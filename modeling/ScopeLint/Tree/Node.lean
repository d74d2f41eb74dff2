import ScopeLint.Keyed
import ScopeLint.Tree.Kind
import ScopeLint.Tree.Literal

/-!
# Template trees

A node is a shape whose holes are filled with nodes, together with a position
and an identity.  Two nodes with one identity are one node that is reached
twice.  `Shape.parts` lists the holes in the order in which a walk comes to
them.
-/

namespace ScopeLint

structure Position where
  line : Int
  column : Int
  deriving DecidableEq, Repr

/-- A later test of a conditional, with what it guards. -/
structure Branch (α : Type) where
  test : α
  body : List α

/-- A case of a match: the pattern, a further condition, and what it guards. -/
structure Arm (α : Type) where
  pattern : α
  condition : Option α
  body : List α

/-- A name taken from another template, and what it is called here. -/
structure Imported where
  name : String
  asName : Option String
  deriving DecidableEq, Repr

/-- Whether a name is used to be read, and not to be bound or deleted. -/
def isRead (usage : String) : Bool := usage == "load"

inductive LoopMode where
  | plain | async
  deriving DecidableEq, Repr

/-- The three statements that bind the names of a target to a value. -/
inductive Assignment where
  | plain | scoped | exported
  deriving DecidableEq, Repr

inductive Shape (α : Type) where
  | bare
  | expression
  | literal (value : Literal)
  | name (word usage : String)
  | tuple (items : List α) (usage : String)
  | list (items : List α)
  | member (object : α) (field : String)
  | call (callee : α) (args : List α) (keywords : Keyed α)
  | filter (subject : α) (title : String) (args : List α) (keywords : Keyed α)
  | test (subject : α) (title : String) (args : List α) (negated : Bool)
  | binary (left : α) (operator : String) (right : α)
  | lambda (params : List String) (body : α)
  | parameter (title : String) (typing : Option String)
  | definition (title : String) (params body defaults : List α)
      (rest named : Option String)
  | callBlock (head : α) (slots : Keyed (List α)) (args : List α)
  | conditional (first : α) (body : List α) (branches : List (Branch α))
      (otherwise : List α)
  | loop (mode : LoopMode) (target source : α) (body empty : List α)
      (only : Option α)
  | switch (subject : Option α) (arms : List (Arm α))
  | output (value : α) (escape : Bool)
  | text (value : String)
  | importModule (source : α) (target : String)
  | importNames (source : α) (names : List Imported)
  | template (body : List α) (title : Option String)
  | assign (form : Assignment) (target value : α)
  | capture (title : String) (body : List α) (through : Option α)

structure Node where
  id : Nat
  position : Position
  shape : Shape Node

namespace Branch

def parts {α : Type} (branch : Branch α) : List α := branch.test :: branch.body

def map {α β : Type} (f : α → β) (branch : Branch α) : Branch β :=
  ⟨f branch.test, branch.body.map f⟩

end Branch

namespace Arm

def parts {α : Type} (arm : Arm α) : List α :=
  arm.pattern :: arm.condition.toList ++ arm.body

def map {α β : Type} (f : α → β) (arm : Arm α) : Arm β :=
  ⟨f arm.pattern, arm.condition.map f, arm.body.map f⟩

end Arm

namespace Shape

variable {α β γ : Type}

def kind : Shape α → Kind
  | bare => .bare
  | expression => .expression
  | literal _ => .literal
  | name .. => .name
  | tuple .. => .tuple
  | list _ => .list
  | member .. => .member
  | call .. => .call
  | filter .. => .filter
  | test .. => .test
  | binary .. => .binary
  | lambda .. => .lambda
  | parameter .. => .parameter
  | definition .. => .definition
  | callBlock .. => .callBlock
  | conditional .. => .conditional
  | loop .plain .. => .loop
  | loop .async .. => .asyncLoop
  | switch .. => .switch
  | output .. => .output
  | text _ => .text
  | importModule .. => .importModule
  | importNames .. => .importNames
  | template .. => .template
  | assign .plain .. => .assignSet
  | assign .scoped .. => .assignLet
  | assign .exported .. => .assignExport
  | capture .. => .capture

/-- What stands in the holes of a shape, in the order of a walk. -/
def parts : Shape α → List α
  | bare | expression | literal _ | name .. | parameter .. | text _ => []
  | tuple items _ | list items => items
  | member object _ => [object]
  | call callee args keywords => callee :: args ++ keywords.values
  | filter subject _ args keywords => subject :: args ++ keywords.values
  | test subject _ args _ => subject :: args
  | binary left _ right => [left, right]
  | lambda _ body => [body]
  | definition _ params body defaults _ _ => params ++ body ++ defaults
  | callBlock head slots args => head :: slots.values.flatten ++ args
  | conditional first body branches otherwise =>
    first :: body ++ branches.flatMap Branch.parts ++ otherwise
  | loop _ target source body empty only =>
    target :: source :: body ++ empty ++ only.toList
  | switch subject arms => subject.toList ++ arms.flatMap Arm.parts
  | output value _ => [value]
  | importModule source _ | importNames source _ => [source]
  | template body _ => body
  | assign _ target value => [target, value]
  | capture _ body through => body ++ through.toList

def map (f : α → β) : Shape α → Shape β
  | bare => bare
  | expression => expression
  | literal value => literal value
  | name word usage => name word usage
  | tuple items usage => tuple (items.map f) usage
  | list items => list (items.map f)
  | member object field => member (f object) field
  | call callee args keywords => call (f callee) (args.map f) (keywords.map f)
  | filter subject title args keywords =>
    filter (f subject) title (args.map f) (keywords.map f)
  | test subject title args negated =>
    test (f subject) title (args.map f) negated
  | binary left operator right => binary (f left) operator (f right)
  | lambda params body => lambda params (f body)
  | parameter title typing => parameter title typing
  | definition title params body defaults rest named =>
    definition title (params.map f) (body.map f) (defaults.map f) rest named
  | callBlock head slots args =>
    callBlock (f head) (slots.map (List.map f)) (args.map f)
  | conditional first body branches otherwise =>
    conditional (f first) (body.map f) (branches.map (Branch.map f))
      (otherwise.map f)
  | loop mode target source body empty only =>
    loop mode (f target) (f source) (body.map f) (empty.map f) (only.map f)
  | switch subject arms => switch (subject.map f) (arms.map (Arm.map f))
  | output value escape => output (f value) escape
  | text value => text value
  | importModule source target => importModule (f source) target
  | importNames source names => importNames (f source) names
  | template body title => template (body.map f) title
  | assign form target value => assign form (f target) (f value)
  | capture title body through => capture title (body.map f) (through.map f)

/-- What a shape is called: nothing if its kind carries no name, and a name
without a text if it carries one that is left out or is not a text. -/
def called? : Shape α → Option (Option String)
  | name word _ => some (some word)
  | filter _ title _ _ | test _ title _ _ | parameter title _
  | definition title .. | capture title .. => some (some title)
  | template _ title => some title
  | assign .scoped .. | assign .exported .. => some none
  | _ => none

@[simp] theorem parts_map (f : α → β) (shape : Shape α) :
    (shape.map f).parts = shape.parts.map f := by
  cases shape <;>
    simp [parts, map, List.map_flatMap, List.flatMap_map, Branch.parts,
      Branch.map, Arm.parts, Arm.map, List.map_flatten, Option.toList_map]

theorem map_map (f : α → β) (g : β → γ) (shape : Shape α) :
    (shape.map f).map g = shape.map fun a => g (f a) := by
  cases shape <;>
    simp [map, Keyed.map, Branch.map, Arm.map, Function.comp_def]

@[simp] theorem kind_map (f : α → β) (shape : Shape α) :
    (shape.map f).kind = shape.kind := by
  cases shape with
  | loop mode => cases mode <;> rfl
  | assign form => cases form <;> rfl
  | _ => rfl

end Shape

namespace Node

def kind (node : Node) : Kind := node.shape.kind

/-- The nodes directly below a node, in the order of a walk. -/
def children (node : Node) : List Node := node.shape.parts

/-- How a node is shown in a trace: names are told apart, other nodes are
shown by kind. -/
def label (node : Node) : String :=
  match node.shape with
  | .name text _ => "Name:" ++ text
  | shape => shape.kind.label

end Node

end ScopeLint
