import ScopeLint.Scope
import ScopeLint.Sink
import ScopeLint.Text.Quoted
import ScopeLint.Visitor.Walk

/-!
# The checker

The checker is the visitor that keeps a scope and reports every name that a
macro reads without declaring it.
-/

namespace ScopeLint

structure Checker where
  config : Config := {}
  /-- What the template is called if it does not say so itself. -/
  title : Option String := none
  report : Reporter := Reporter.collect

namespace Checker

/-- What a template is called that nobody gave a name. -/
def anonymous : String := "<template>"

def home (checker : Checker) : String :=
  Scope.templateName checker.title anonymous

/-- The scope before anything was walked. -/
def start (checker : Checker) : Scope := Scope.fresh checker.home

/-- What is logged before a finding is handed over. -/
def announcement (d : Diagnostic) : Journal :=
  Journal.debug "macrolint.analysis.undeclared"
    ("Undeclared " ++ Text.quoted d.missing ++ " in macro " ++
      Text.quoted d.inMacro)

def enter (checker : Checker) (scope : Scope) (node : Node) : Reaction Scope :=
  let role := node.role checker.config
  let entered := scope.enter checker.home role
  match role.fault? with
  | some failure => { state := entered, reply := .failure failure }
  | none =>
    match entered.finding? checker.config node with
    | none => { state := entered }
    | some d =>
      let emission := checker.report d
      { state := entered
        journal := announcement d ++ emission.journal
        reply :=
          match emission.refusal with
          | none => .keep
          | some failure => .failure failure }

def leave (checker : Checker) (scope : Scope) (node : Node) : Reaction Scope :=
  match scope.leave (node.role checker.config) with
  | .ok left => { state := left }
  | .error failure => { state := scope, reply := .failure failure }

def visitor (checker : Checker) : Visitor where
  State := Scope
  name := "UndeclaredVariableInMacro"
  start := checker.start
  react
    | .enter => checker.enter
    | .leave => checker.leave

end Checker

end ScopeLint
