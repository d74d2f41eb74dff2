import ScopeLint.Tree.Fold
import ScopeLint.Visitor

/-!
# Walks

A walk takes one visitor through one tree: the node, the nodes below it, and
the node once more.  If the visitor puts another node in place of the one it
enters, the walk goes on below that one.  A passage records all callbacks
made, also when the walk ends early.
-/

namespace ScopeLint

/-- A call of a hook and what came of it. -/
structure Callback (State : Type) where
  hook : Hook
  node : Node
  reaction : Reaction State

/-- A part of a walk: the callbacks made, the state they leave, and the result
or the reason why the walk ends here. -/
structure Passage (State α : Type) where
  calls : List (Callback State)
  state : State
  result : Except Failure α

namespace Passage

variable {State α β : Type}

/-- The passage that makes no callback. -/
def still (state : State) (a : α) : Passage State α := ⟨[], state, .ok a⟩

/-- Go on after a passage unless the walk ended there. -/
def andThen (first : Passage State α) (next : State → α → Passage State β) :
    Passage State β :=
  match first.result with
  | .error failure => ⟨first.calls, first.state, .error failure⟩
  | .ok a =>
    let second := next first.state a
    ⟨first.calls ++ second.calls, second.state, second.result⟩

/-- Go through several passages one after the other; what they give is
dropped. -/
def inTurn (state : State) : List (State → Passage State α) → Passage State Unit
  | [] => still state ()
  | visit :: rest => (visit state).andThen fun state _ => inTurn state rest

/-- All that the callbacks left behind. -/
def journal (passage : Passage State α) : Journal :=
  Journal.concat (passage.calls.map (·.reaction.journal))

end Passage

namespace Visitor

/-- What a reply puts in place of a node, if anything.  Visitors have to answer
with nodes. -/
def accept (visitor : Visitor) (hook : Hook) :
    Reply → Except Failure (Option Node)
  | .keep => .ok none
  | .replace node => .ok (some node)
  | .other typeName => .error (.lint (.badReply visitor.name hook typeName))
  | .failure failure => .error failure

/-- One callback. -/
def call (visitor : Visitor) (hook : Hook) (state : visitor.State)
    (node : Node) : Passage visitor.State (Option Node) :=
  let reaction := visitor.react hook state node
  ⟨[⟨hook, node, reaction⟩], reaction.state, visitor.accept hook reaction.reply⟩

/-- The rest of the walk of a node that has been entered: the nodes below it,
and leaving it. -/
def finish (visitor : Visitor) (node : Node)
    (below : List (visitor.State → Passage visitor.State Node))
    (state : visitor.State) : Passage visitor.State Node :=
  (Passage.inTurn state below).andThen fun state _ =>
    (visitor.call .leave state node).andThen fun state other =>
      .still state (other.getD node)

/-- Walk a tree, depth first, with a given way to go on at a replacement. -/
def walkWith (visitor : Visitor)
    (replaced : Node → visitor.State → Passage visitor.State Node) :
    Node → visitor.State → Passage visitor.State Node :=
  Node.fold fun node below state =>
    (visitor.call .enter state node).andThen fun state other =>
      match other with
      | none => visitor.finish node (below.parts.map fun walk => walk ()) state
      | some entered => replaced entered state

/-- Walk a tree with at most so many replacements nested in one another. -/
def walk (visitor : Visitor) :
    Nat → Node → visitor.State → Passage visitor.State Node
  | 0 => visitor.walkWith fun _ state => ⟨[], state, .error .endless⟩
  | nesting + 1 => visitor.walkWith fun entered =>
    visitor.finish entered (entered.children.map (visitor.walk nesting))

/-- Walk a tree from a given state. -/
def passFrom (visitor : Visitor) (state : visitor.State) (root : Node) :
    Passage visitor.State Node :=
  visitor.walk visitor.nesting root state

/-- Walk a tree from the start. -/
def pass (visitor : Visitor) (root : Node) : Passage visitor.State Node :=
  visitor.passFrom visitor.start root

theorem walkWith_eq (visitor : Visitor)
    (replaced : Node → visitor.State → Passage visitor.State Node) (node : Node)
    (state : visitor.State) :
    visitor.walkWith replaced node state =
      (visitor.call .enter state node).andThen fun state other =>
        match other with
        | none =>
          visitor.finish node
            (node.children.map (visitor.walkWith replaced)) state
        | some entered => replaced entered state := by
  rw [walkWith, Node.fold_eq, Shape.parts_map, List.map_map]
  rfl

end Visitor

end ScopeLint
