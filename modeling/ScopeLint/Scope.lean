import ScopeLint.Config
import ScopeLint.Failure
import ScopeLint.Tree.Fold

/-!
# Scopes

A scope is what the checker knows where a walk stands: the macro it is in, the
names declared so far, the frames of the loops and lambdas that are open, and
the nodes that are exempt because a test asks whether they are defined.  What
a node does to the scope depends on its role alone.
-/

namespace ScopeLint

/-- The names that an assignment target binds, from left to right. -/
def Node.targetNames : Node → List String :=
  Node.fold fun _ below =>
    match below with
    | .name word _ => [word]
    | .tuple items _ | .list items => items.flatMap fun item => item ()
    | _ => []

theorem Node.targetNames_eq (node : Node) :
    node.targetNames =
      match node.shape with
      | .name word _ => [word]
      | .tuple items _ | .list items => items.flatMap targetNames
      | _ => [] := by
  rw [targetNames, fold_eq]
  cases node.shape with
  | tuple items usage => exact List.flatMap_map ..
  | list items => exact List.flatMap_map ..
  | _ => rfl

/-- What an imported name is called here. -/
def Imported.localName (imported : Imported) : String :=
  match imported.asName with
  | none => imported.name
  | some asName => if asName.isEmpty then imported.name else asName

/-- The names that a loop binds: one for its state, then its targets.  A loop
over single values binds a key for them too. -/
def loopNames (config : Config) (target : Node) : List String :=
  match target.targetNames with
  | [single] => [config.loopName, config.loopKey, single]
  | names => config.loopName :: names

/-- A catch-all parameter binds a name if it is there and not empty. -/
def catchAll : Option String → List (Option String)
  | none => []
  | some name => if name.isEmpty then [] else [some name]

/-- The names of parameters.  A parameter may be called nothing, but its kind
has to carry a name. -/
def parameterNames : List Node → Except Kind (List (Option String))
  | [] => .ok []
  | param :: rest =>
    match param.shape.called? with
    | none => .error param.kind
    | some called => (parameterNames rest).map (called :: ·)

/-- What a node means to the names around it. -/
inductive Role where
  /-- The root of a template, which starts over. -/
  | template (title : Option String)
  /-- A macro, which sees its own inputs only. -/
  | definition (title : String) (inputs : Except Kind (List (Option String)))
  /-- A loop or lambda, whose names end with it. -/
  | block (names : List String)
  /-- A binding that lasts for the rest of the macro. -/
  | binding (names : List String)
  /-- A test whether a name is defined, which exempts that name. -/
  | guard (subject : Nat)
  /-- A name that is read. -/
  | reference (name : String)
  | plain

def Node.role (config : Config) (node : Node) : Role :=
  match node.shape with
  | .template _ title => .template title
  | .definition title params _ _ rest named =>
    .definition title
      ((parameterNames params).map (· ++ catchAll rest ++ catchAll named))
  | .loop _ target .. => .block (loopNames config target)
  | .lambda params _ => .block params
  | .assign _ target _ => .binding target.targetNames
  | .capture title .. => .binding [title]
  | .importModule _ target => .binding [target]
  | .importNames _ names => .binding (names.map Imported.localName)
  | .test subject title .. =>
    match subject.shape with
    | .name .. => if title = "defined" then .guard subject.id else .plain
    | _ => .plain
  | .name word usage => if isRead usage then .reference word else .plain
  | _ => .plain

namespace Role

/-- The names that a node introduces, in the order in which they are added. -/
def declares : Role → Except Kind (List (Option String))
  | definition _ inputs => inputs
  | block names | binding names => .ok (names.map some)
  | _ => .ok []

/-- What makes a node impossible to enter. -/
def fault? : Role → Option Failure
  | definition _ (.error kind) => some (.nameless kind)
  | _ => none

end Role

/-- The names that an open loop or lambda added: where they start and how many
they are. -/
structure Frame where
  start : Nat
  count : Nat
  deriving DecidableEq, Repr

structure Scope where
  inMacro : Option String
  /-- The declared names, oldest first and with repetitions. -/
  names : List (Option String)
  /-- The open frames, innermost first. -/
  frames : List Frame
  /-- The nodes that are exempt, by identity. -/
  guarded : List Nat
  template : String
  deriving DecidableEq, Repr

namespace Scope

def fresh (template : String) : Scope := ⟨none, [], [], [], template⟩

def declare (scope : Scope) (names : List (Option String)) : Scope :=
  { scope with names := scope.names ++ names }

def openBlock (scope : Scope) (names : List (Option String)) : Scope :=
  { scope with
    names := scope.names ++ names
    frames := ⟨scope.names.length, names.length⟩ :: scope.frames }

/-- Close the innermost frame and take its names away. -/
def closeBlock? (scope : Scope) : Option Scope :=
  match scope.frames with
  | [] => none
  | frame :: frames =>
    some { scope with
      names := scope.names.take frame.start ++
        scope.names.drop (frame.start + frame.count)
      frames }

/-- The scope of a macro that has just been entered.  Frames stay open. -/
def enterMacro (scope : Scope) (title : String)
    (inputs : List (Option String)) : Scope :=
  { scope with inMacro := some title, names := inputs }

def leaveMacro (scope : Scope) : Scope := { scope with inMacro := none }

def guard (scope : Scope) (id : Nat) : Scope :=
  { scope with
    guarded :=
      if id ∈ scope.guarded then scope.guarded else id :: scope.guarded }

def unguard (scope : Scope) (id : Nat) : Scope :=
  { scope with guarded := scope.guarded.filter (· ≠ id) }

/-- A template without a name, or with an empty one, goes by the name it is
given from outside. -/
def templateName (title : Option String) (fallback : String) : String :=
  match title with
  | none => fallback
  | some title => if title.isEmpty then fallback else title

/-- The scope after a node has been entered. -/
def enter (home : String) (scope : Scope) : Role → Scope
  | .template title => fresh (templateName title home)
  | .definition title (.ok inputs) => scope.enterMacro title inputs
  | .definition title (.error _) => scope.enterMacro title []
  | .block names => scope.openBlock (names.map some)
  | .binding names => scope.declare (names.map some)
  | .guard subject => scope.guard subject
  | .reference _ | .plain => scope

/-- The scope after a node has been left. -/
def leave (scope : Scope) : Role → Except Failure Scope
  | .definition .. => .ok scope.leaveMacro
  | .block _ =>
    match scope.closeBlock? with
    | some closed => .ok closed
    | none => .error .noOpenFrame
  | .guard subject => .ok (scope.unguard subject)
  | .template _ | .binding _ | .reference _ | .plain => .ok scope

/-- Whether a name is declared here. -/
def Declares (config : Config) (scope : Scope) (name : String) : Prop :=
  some name ∈ scope.names ∨ name ∈ config.alwaysDeclared

instance (config : Config) (scope : Scope) (name : String) :
    Decidable (scope.Declares config name) :=
  inferInstanceAs (Decidable (_ ∨ _))

/-- The finding that a node is, if it is one: it reads a name inside a macro,
nothing declares the name, and no test asks whether this very node is
defined. -/
def finding? (config : Config) (scope : Scope) (node : Node) :
    Option Diagnostic :=
  match scope.inMacro, node.role config with
  | some inMacro, .reference name =>
    if node.id ∈ scope.guarded ∨ scope.Declares config name then none
    else some
      { inMacro
        template := scope.template
        line := node.position.line
        missing := name
        column := node.position.column }
  | _, _ => none

end Scope

end ScopeLint
