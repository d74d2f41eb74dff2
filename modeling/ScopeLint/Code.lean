import ScopeLint.Text.Quoted

/-!
# Codes and severities

Every finding and every error of the linter carries a code to search for, and
every finding a severity.  Both have a fixed spelling and can be looked up by
it.
-/

namespace ScopeLint

inductive Code where
  | undeclaredVariable | diagnosticsFound | invalidVisitor
  deriving DecidableEq, Repr

namespace Code

def all : List Code := [undeclaredVariable, diagnosticsFound, invalidVisitor]

def name : Code → String
  | undeclaredVariable => "UNDECLARED_VARIABLE"
  | diagnosticsFound => "DIAGNOSTICS_FOUND"
  | invalidVisitor => "INVALID_VISITOR"

/-- How a code is written. -/
def text : Code → String
  | undeclaredVariable => "ML-SCOPE-001"
  | diagnosticsFound => "ML-LINT-001"
  | invalidVisitor => "ML-LINT-002"

/-- The family a code belongs to: analysis of scopes, or the linter itself. -/
def category : Code → String
  | undeclaredVariable => "scope"
  | diagnosticsFound | invalidVisitor => "lint"

end Code

inductive Severity where
  | warning | error
  deriving DecidableEq, Repr

namespace Severity

def all : List Severity := [warning, error]

def name : Severity → String
  | warning => "WARNING"
  | error => "ERROR"

def text : Severity → String
  | warning => "warning"
  | error => "error"

end Severity

/-- A spelling that stands for no code, or for no severity. -/
inductive LookupError where
  | code (text : String)
  | severity (text : String)
  deriving DecidableEq, Repr

def LookupError.message : LookupError → String
  | code text => Text.quoted text ++ " is not a valid ErrorCode"
  | severity text => Text.quoted text ++ " is not a valid Severity"

def Code.ofText (text : String) : Except LookupError Code :=
  match Code.all.find? (·.text == text) with
  | some code => .ok code
  | none => .error (.code text)

def Severity.ofText (text : String) : Except LookupError Severity :=
  match Severity.all.find? (·.text == text) with
  | some severity => .ok severity
  | none => .error (.severity text)

end ScopeLint
