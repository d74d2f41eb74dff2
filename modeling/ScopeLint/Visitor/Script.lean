import ScopeLint.Visitor

/-!
# Scripted visitors

A scripted visitor notes every callback and answers by rules: the first rule
for the hook and the label of the node says what to give back, and without
such a rule it is the node itself.
-/

namespace ScopeLint

structure Rule where
  /-- The hook that the rule is for.  A rule for none never applies. -/
  hook : Option Hook
  label : String
  reply : Reply

structure Script where
  name : String
  tag : String
  rules : List Rule

namespace Rule

def applies (hook : Hook) (node : Node) (rule : Rule) : Bool :=
  rule.hook == some hook && rule.label == node.label

end Rule

namespace Script

def reply (script : Script) (hook : Hook) (node : Node) : Reply :=
  match script.rules.find? (Rule.applies hook node) with
  | some rule => rule.reply
  | none => .keep

/-- What happens below a replacement depends on its rule alone.  So a rule that
is used again below its own replacement is used there without end, and
otherwise there are no more nested replacements than rules. -/
def visitor (script : Script) : Visitor where
  State := Unit
  name := script.name
  start := ()
  react := fun hook state node =>
    { state
      journal := { visits := [⟨script.tag, hook, node.label⟩] }
      reply := script.reply hook node }
  nesting := script.rules.length

end Script

end ScopeLint
