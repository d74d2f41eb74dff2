/-!
# Hooks

A walk calls a visitor twice for every node: before the nodes below it, and
after them.
-/

namespace ScopeLint

inductive Hook where
  | enter | leave
  deriving DecidableEq, Repr

namespace Hook

def all : List Hook := [enter, leave]

/-- What the hook is called in messages. -/
def name : Hook → String
  | enter => "enter_node"
  | leave => "leave_node"

def ofName? (name : String) : Option Hook := all.find? (·.name == name)

end Hook

end ScopeLint
