import ScopeLint.Code
import ScopeLint.Text.Style

/-!
# Diagnostics

A diagnostic is one finding: a variable that a macro reads without declaring
it, and where.
-/

namespace ScopeLint

structure Diagnostic where
  inMacro : String
  template : String
  line : Int
  missing : String
  column : Int := 0
  severity : Severity := .warning
  code : Code := .undeclaredVariable
  deriving DecidableEq, Repr

namespace Diagnostic

def message (d : Diagnostic) : String :=
  "The macro \"" ++ d.inMacro ++ "\" uses an undeclared variable named \"" ++
    d.missing ++ "\"."

/-- Template, line and column, with colons between them. -/
def location (d : Diagnostic) : String :=
  d.template ++ ":" ++ d.line.repr ++ ":" ++ d.column.repr

/-- The finding on one line. -/
def summary (d : Diagnostic) : String :=
  d.location ++ ": " ++ d.code.text ++ " " ++ d.message

/-- The finding on two lines for a terminal. -/
def format (colors : Bool) (d : Diagnostic) : String :=
  Text.header colors (d.severity = .warning) (some d.code.text) d.message ++
    "\n  " ++ Text.paintDim colors "-->" ++ " " ++
    Text.paintLocation colors d.location

end Diagnostic

end ScopeLint
