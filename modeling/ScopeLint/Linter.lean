import ScopeLint.Checker
import ScopeLint.Visitor.Schedule

/-!
# The linter

A linter checks templates: it makes its visitors anew for every template, lets
them walk it, and returns the findings.  Findings also go to the linter's sink
as they are made.  In strict mode findings are a failure.
-/

namespace ScopeLint

/-- How a visitor is made for one check: where its findings go, the settings,
and what the template is called.  Making one may fail. -/
abbrev VisitorFactory :=
  Reporter → Config → Option String → Except Failure Visitor

/-- Make visitors one after the other, up to the first that cannot be made. -/
def makeVisitors (report : Reporter) (config : Config) (title : Option String) :
    List VisitorFactory → Except Failure (List Visitor)
  | [] => .ok []
  | make :: rest =>
    match make report config title, makeVisitors report config title rest with
    | .error failure, _ => .error failure
    | .ok _, .error failure => .error failure
    | .ok visitor, .ok visitors => .ok (visitor :: visitors)

def Checker.factory : VisitorFactory := fun report config title =>
  .ok (Checker.visitor { config, title, report })

structure Linter where
  config : Config := {}
  sink : Option Sink := none
  visitors : List VisitorFactory := [Checker.factory]

/-- What a check leaves behind and gives. -/
structure Checked (α : Type) where
  journal : Journal
  result : Except Failure α

namespace Linter

private def logger : String := "macrolint.analysis.linter"

/-- What the root of a tree says the template is called, or else the name
given for it.  A root whose kind carries no name cannot be checked. -/
def titleOf (root : Node) (name : Option String) :
    Except Failure (Option String) :=
  match root.shape.called? with
  | none => .error (.nameless root.kind)
  | some none => .ok name
  | some (some title) => .ok (if title.isEmpty then name else some title)

/-- The visitors for one check. -/
def prepare (linter : Linter) (title : Option String) :
    Except Failure (List Visitor) :=
  makeVisitors (Reporter.through linter.sink) linter.config title
    linter.visitors

/-- What becomes of the findings of a walk that was completed. -/
def conclude (linter : Linter) (title : Option String)
    (findings : List Diagnostic) : Checked (List Diagnostic) :=
  if findings.isEmpty then ⟨∅, .ok []⟩
  else
    ⟨Journal.debug logger (findings.length.repr ++ " finding(s) in " ++
        Scope.templateName title Checker.anonymous),
      if linter.config.strict then .error (.lint (.findings findings title))
      else .ok findings⟩

/-- Let visitors walk a template and return what they found. -/
def checkWith (linter : Linter) (visitors : List Visitor)
    (title : Option String) (root : Node) : Checked (List Diagnostic) :=
  let opening := Journal.debug logger
    ("Checking template " ++ Scope.templateName title Checker.anonymous)
  let traversal := traverse visitors root
  let journal := opening ++ traversal.journal
  match traversal.result with
  | .error failure => ⟨journal, .error failure⟩
  | .ok _ =>
    let conclusion := linter.conclude title traversal.journal.findings
    ⟨journal ++ conclusion.journal, conclusion.result⟩

/-- Check one template and return its findings in the order of the walk. -/
def check (linter : Linter) (root : Node) (name : Option String) :
    Checked (List Diagnostic) :=
  match titleOf root name with
  | .error failure => ⟨∅, .error failure⟩
  | .ok title =>
    match linter.prepare title with
    | .error failure => ⟨∅, .error failure⟩
    | .ok visitors => linter.checkWith visitors title root

/-- Check templates one after the other up to the first that fails. -/
def checkEach (linter : Linter) :
    List (String × Node) → Checked (List (String × List Diagnostic))
  | [] => ⟨∅, .ok []⟩
  | (name, root) :: rest =>
    let first := linter.check root (some name)
    match first.result with
    | .error failure => ⟨first.journal, .error failure⟩
    | .ok findings =>
      let later := linter.checkEach rest
      ⟨first.journal ++ later.journal, later.result.map ((name, findings) :: ·)⟩

/-- Check several templates by name.  Of templates with one name the last
counts, at the place of the first. -/
def checkMany (linter : Linter) (templates : List (String × Node)) :
    Checked (Keyed (List Diagnostic)) :=
  let checked := linter.checkEach templates
  ⟨checked.journal, checked.result.map Keyed.ofList⟩

end Linter

end ScopeLint
