import ScopeLint.Visitor.Walk

/-!
# Schedules

Several visitors walk a tree one after the other, by priority and then in the
order in which they were registered.  Each walks what the one before it gave
back for the root.
-/

namespace ScopeLint

/-- Visitors in the order in which they run, each with the place at which it
was registered. -/
def schedule (visitors : List Visitor) : List (Visitor × Nat) :=
  visitors.zipIdx.mergeSort fun a b => a.1.priority ≤ b.1.priority

/-- A callback as seen from outside, without the visitor's state. -/
structure Call where
  visitor : String
  hook : Hook
  node : Node

/-- What several walks did and gave. -/
structure Traversal where
  calls : List Call
  journal : Journal
  result : Except Failure Node

namespace Visitor

def outline (visitor : Visitor) {α : Type} (passage : Passage visitor.State α) :
    List Call :=
  passage.calls.map fun callback => ⟨visitor.name, callback.hook, callback.node⟩

/-- What is logged before a walk. -/
def announcement (visitor : Visitor) (root : Node) : Journal :=
  Journal.debug "macrolint.analysis.visitor"
    ("Running " ++ visitor.name ++ " over " ++ root.kind.label)

end Visitor

/-- Let visitors walk one after the other, in the order given. -/
def traverseInTurn : List Visitor → Node → Traversal
  | [], root => ⟨[], ∅, .ok root⟩
  | visitor :: rest, root =>
    let passage := visitor.pass root
    let journal := visitor.announcement root ++ passage.journal
    match passage.result with
    | .error failure => ⟨visitor.outline passage, journal, .error failure⟩
    | .ok root =>
      let later := traverseInTurn rest root
      ⟨visitor.outline passage ++ later.calls, journal ++ later.journal,
        later.result⟩

/-- Let visitors walk a tree as scheduled. -/
def traverse (visitors : List Visitor) (root : Node) : Traversal :=
  traverseInTurn ((schedule visitors).map Prod.fst) root

/-- The visitors that are to walk trees together, in the order in which they
were registered. -/
structure Traverser where
  visitors : List Visitor := []

namespace Traverser

/-- Register one more visitor. -/
def register (traverser : Traverser) (visitor : Visitor) : Traverser :=
  ⟨traverser.visitors ++ [visitor]⟩

/-- The registered visitors in the order in which they run. -/
def runOrder (traverser : Traverser) : List (Visitor × Nat) :=
  schedule traverser.visitors

def run (traverser : Traverser) (root : Node) : Traversal :=
  traverse traverser.visitors root

end Traverser

end ScopeLint
