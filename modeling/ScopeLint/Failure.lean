import ScopeLint.Diagnostic
import ScopeLint.Hook
import ScopeLint.Tree.Kind

/-!
# Failures

`LintError` holds the errors of the linter itself, which carry codes and have
a compact form for terminals.  `Failure` holds everything that can keep a check
from its end.
-/

namespace ScopeLint

/-- Whether a text occurs in another as a run of consecutive characters. -/
def occursIn (needle : List Char) : List Char → Bool
  | [] => needle.isEmpty
  | c :: rest => needle.isPrefixOf (c :: rest) || occursIn needle rest

inductive LintError where
  /-- An error that says no more than its message. -/
  | general (message : String) (code : Option Code)
  /-- A strict check found something. -/
  | findings (diagnostics : List Diagnostic) (template : Option String)
  /-- A hook of a visitor gave back something that is not a node. -/
  | badReply (visitor : String) (hook : Hook) (got : String)
  deriving DecidableEq, Repr

namespace LintError

def code? : LintError → Option Code
  | general _ code => code
  | findings .. => some .diagnosticsFound
  | badReply .. => some .invalidVisitor

def message : LintError → String
  | general message _ => message
  | findings diagnostics template =>
    let count := diagnostics.length.repr ++ " undeclared variable(s) found"
    match template with
    | none => count
    | some template =>
      if template.isEmpty then count else count ++ " in " ++ template
  | badReply visitor hook got =>
    visitor ++ "." ++ hook.name ++ "() must return a Node, got " ++ got

/-- The message after its code, unless the message already tells the code. -/
def headline (colors : Bool) (e : LintError) : String :=
  match e.code? with
  | none => e.message
  | some code =>
    if occursIn code.text.toList e.message.toList then e.message
    else Text.header colors false (some code.text) e.message

/-- The headline, and below it the findings if the error is about some. -/
def compact (colors : Bool) (e : LintError) : String :=
  match e with
  | findings diagnostics _ =>
    "\n".intercalate
      (e.headline colors :: diagnostics.map (Diagnostic.format colors))
  | _ => e.headline colors

end LintError

/-- Classes of warnings, from the most special to the most general, and those
that a host derives from others. -/
inductive Category where
  | undeclaredVariable | user | deprecation | any
  /-- A class of a host's own, below two others; `any` for the second adds
  nothing. -/
  | derived (name : String) (base other : Category)
  deriving DecidableEq, Repr

namespace Category

/-- The classes that are there without a host. -/
def standard : List Category := [undeclaredVariable, user, deprecation, any]

def name : Category → String
  | undeclaredVariable => "UndeclaredVariableWarning"
  | user => "UserWarning"
  | deprecation => "DeprecationWarning"
  | any => "Warning"
  | derived name _ _ => name

def ofName? (name : String) : Option Category := standard.find? (·.name == name)

/-- The classes that a class belongs to, itself first. -/
def ancestors : Category → List Category
  | undeclaredVariable => [undeclaredVariable, user, any]
  | user => [user, any]
  | deprecation => [deprecation, any]
  | any => [any]
  | derived name base other =>
    derived name base other :: (base.ancestors ++ other.ancestors)

def within (category general : Category) : Bool := general ∈ category.ancestors

end Category

inductive Failure where
  | lint (error : LintError)
  /-- A loop or lambda was left and no frame was open. -/
  | noOpenFrame
  /-- A name was asked of a node whose kind carries none. -/
  | nameless (kind : Kind)
  /-- A node was to be made of fields that its kind does not take. -/
  | misfit (kind : Kind)
  /-- A node was to be made of something that has no fields at all. -/
  | shapeless
  /-- A warning that a filter turned into an error. -/
  | escalated (category : Category) (text : String)
  /-- Replacements led deeper than any walk can follow. -/
  | endless
  deriving DecidableEq, Repr

def Failure.message : Failure → String
  | lint error => error.message
  | noOpenFrame => "pop from empty list"
  | nameless kind =>
    "\x27" ++ kind.label ++ "\x27 object has no attribute \x27name\x27"
  | misfit kind => "these fields do not make up a " ++ kind.label
  | shapeless => "a value without fields is no node"
  | escalated _ text => text
  | endless => "the walk does not end"

end ScopeLint
