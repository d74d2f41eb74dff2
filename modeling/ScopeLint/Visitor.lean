import ScopeLint.Journal
import ScopeLint.Tree.Node

/-!
# Visitors

A visitor reacts to every node twice, before and after the nodes below it.  It
keeps a state of its own, may leave things in the journal, and says which node
to go on with.
-/

namespace ScopeLint

/-- What a hook gives back. -/
inductive Reply where
  /-- The node that it got. -/
  | keep
  /-- Another node in its place. -/
  | replace (node : Node)
  /-- Something that is not a node, by the name of its type. -/
  | other (typeName : String)
  | failure (failure : Failure)

structure Reaction (State : Type) where
  state : State
  journal : Journal := ∅
  reply : Reply := .keep

structure Visitor where
  State : Type
  name : String
  /-- Visitors with a lower priority run first. -/
  priority : Int := 0
  start : State
  react : Hook → State → Node → Reaction State
  /-- How many replacements may be nested in one another. -/
  nesting : Nat := 0

/-- The visitor that does nothing. -/
def Visitor.idle : Visitor where
  State := Unit
  name := "NodeVisitor"
  start := ()
  react := fun _ state _ => { state }

end ScopeLint
