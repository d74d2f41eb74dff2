import ScopeLint.Proofs.Lockstep

/-!
# Walks of corresponding trees

Two trees correspond when their roots do and nodes that correspond have children
that correspond one by one.  The events of their walks then correspond too.  A
simulation says what two checkers make of corresponding events: it relates their
scopes, and it says how the findings of the one look to the other.  What it says
of single events holds of whole walks.
-/

namespace ScopeLint

/-- Corresponding nodes have children that correspond one by one. -/
def Hereditary (Alike : Node → Node → Prop) : Prop :=
  ∀ node other, Alike node other →
    List.Forall₂ Alike node.children other.children

/-- The same hook at corresponding nodes. -/
structure Event.Corresponds (Alike : Node → Node → Prop) (event other : Event) :
    Prop where
  hook : other.hook = event.hook
  node : Alike event.node other.node

private theorem forall₂_eventsOf {Alike : Node → Node → Prop}
    {siblings others : List Node} (alike : List.Forall₂ Alike siblings others)
    (below : ∀ child ∈ siblings, ∀ other, Alike child other →
      List.Forall₂ (Event.Corresponds Alike) child.events other.events)
    (first : Nat) :
    List.Forall₂ (Event.Corresponds Alike) (Node.eventsOf first siblings)
      (Node.eventsOf first others) := by
  induction alike generalizing first with
  | nil => exact .nil
  | cons here _ induction =>
      rw [Node.eventsOf_cons, Node.eventsOf_cons]
      apply List.rel_append
      · rw [List.forall₂_map_left_iff, List.forall₂_map_right_iff]
        apply (below _ List.mem_cons_self _ here).imp
        intro event other corresponds
        exact ⟨corresponds.hook, corresponds.node⟩
      · apply induction
        intro child member
        exact below child (List.mem_cons_of_mem _ member)

/-- The walks of corresponding trees go through corresponding events. -/
theorem Hereditary.events {Alike : Node → Node → Prop}
    (hereditary : Hereditary Alike) {node other : Node}
    (alike : Alike node other) :
    List.Forall₂ (Event.Corresponds Alike) node.events other.events := by
  induction node using Node.induction_on_children generalizing other with
  | step node induction =>
      have below := forall₂_eventsOf (hereditary node other alike)
        (fun child member _ => induction child member) 0
      rw [Node.events_eq, Node.events_eq]
      exact .cons ⟨rfl, alike⟩ (List.rel_append below (.cons ⟨rfl, alike⟩ .nil))

namespace Checker

/-- What two checkers make of corresponding nodes in related scopes: the scopes
stay related, both checkers go on or both fail alike, and a finding of the first
is one of the second when it is looked at in a certain way. -/
structure Simulation (first second : Checker) (Alike : Node → Node → Prop)
    (Related : Scope → Scope → Prop) (view : Diagnostic → Diagnostic) :
    Prop where
  hereditary : Hereditary Alike
  fault : ∀ {node other}, Alike node other →
    (node.role first.config).fault? = (other.role second.config).fault?
  enter : ∀ {scope otherScope node other}, Related scope otherScope →
    Alike node other →
    Related (scope.enter first.home (node.role first.config))
      (otherScope.enter second.home (other.role second.config))
  leave : ∀ {scope otherScope node other}, Related scope otherScope →
    Alike node other →
    (∃ left otherLeft, scope.leave (node.role first.config) = .ok left ∧
      otherScope.leave (other.role second.config) = .ok otherLeft ∧
      Related left otherLeft) ∨
    ∃ failure, scope.leave (node.role first.config) = .error failure ∧
      otherScope.leave (other.role second.config) = .error failure
  finding : ∀ {scope otherScope node other}, Related scope otherScope →
    Alike node other →
    otherScope.finding? second.config other =
      (scope.finding? first.config node).map view

/-- Callbacks for corresponding events of a simulation. -/
structure Mirrors (Alike : Node → Node → Prop) (Related : Scope → Scope → Prop)
    (view : Diagnostic → Diagnostic) (callback other : Callback Scope) :
    Prop where
  hook : other.hook = callback.hook
  node : Alike callback.node other.node
  state : Related callback.reaction.state other.reaction.state
  findings : other.reaction.journal.findings =
    callback.reaction.journal.findings.map view

/-- Walks of two trees that make corresponding callbacks and come to the same
end, where each gives back its own root. -/
structure WalksAlike (Alike : Node → Node → Prop)
    (Related : Scope → Scope → Prop) (view : Diagnostic → Diagnostic)
    (root otherRoot : Node) (passage mirrored : Passage Scope Node) : Prop where
  calls : List.Forall₂ (Mirrors Alike Related view) passage.calls mirrored.calls
  result : ∃ outcome : Except Failure Unit,
    passage.result = outcome.map (fun _ => root) ∧
      mirrored.result = outcome.map fun _ => otherRoot

theorem WalksAlike.findings {Alike : Node → Node → Prop}
    {Related : Scope → Scope → Prop} {view : Diagnostic → Diagnostic}
    {root otherRoot : Node} {passage mirrored : Passage Scope Node}
    (walks : WalksAlike Alike Related view root otherRoot passage mirrored) :
    mirrored.journal.findings = passage.journal.findings.map view := by
  rw [Passage.findings_journal, Passage.findings_journal, List.map_flatMap,
    List.flatMap_def, List.flatMap_def]
  apply congrArg List.flatten
  apply Eq.symm
  apply map_eq_map_of_forall₂ walks.calls
  intro callback other mirrors
  exact mirrors.findings.symm

namespace Simulation

section Events

variable {first second : Checker} {Alike : Node → Node → Prop}
  {Related : Scope → Scope → Prop} {view : Diagnostic → Diagnostic}
  (simulation : Simulation first second Alike Related view)
  {scope other : Scope} {event otherEvent : Event}

include simulation

theorem step (related : Related scope other)
    (corresponds : event.Corresponds Alike otherEvent) :
    Related (scope.step first.config first.home event)
      (other.step second.config second.home otherEvent) := by
  rw [Scope.step, Scope.step, corresponds.hook]
  cases event.hook with
  | enter => exact simulation.enter related corresponds.node
  | leave =>
      rcases simulation.leave related corresponds.node with
        ⟨left, otherLeft, leaves, otherLeaves, stillRelated⟩
          | ⟨failure, fails, otherFails⟩
      · simp only [leaves, otherLeaves]
        exact stillRelated
      · simp only [fails, otherFails]
        exact related

theorem outcome_eq (related : Related scope other)
    (corresponds : event.Corresponds Alike otherEvent) :
    outcome first.config scope event =
      outcome second.config other otherEvent := by
  rw [outcome, outcome, corresponds.hook]
  cases event.hook with
  | enter => simp only [simulation.fault corresponds.node]
  | leave =>
      rcases simulation.leave related corresponds.node with
        ⟨left, otherLeft, leaves, otherLeaves, _⟩ | ⟨failure, fails, otherFails⟩
      · simp only [leaves, otherLeaves]
      · simp only [fails, otherFails]

theorem found_eq (related : Related scope other)
    (corresponds : event.Corresponds Alike otherEvent) :
    other.found second.config second.home otherEvent =
      (scope.found first.config first.home event).map view := by
  rw [Scope.found, Scope.found, corresponds.hook]
  cases event.hook with
  | enter =>
      -- A name is looked up after the node has been entered.
      exact simulation.finding (simulation.enter related corresponds.node)
        corresponds.node
  | leave => rfl

end Events

variable {config otherConfig : Config} {title : Option String}
  {Alike : Node → Node → Prop} {Related : Scope → Scope → Prop}
  {view : Diagnostic → Diagnostic}
  (simulation : Simulation { config, title } { config := otherConfig, title }
    Alike Related view)

include simulation

theorem call {scope other : Scope} {event otherEvent : Event}
    (related : Related scope other)
    (corresponds : event.Corresponds Alike otherEvent) :
    Passage.Aligned (Mirrors Alike Related view) Related
      ((visitor { config, title }).call event.hook scope event.node)
      ((visitor { config := otherConfig, title }).call otherEvent.hook other
        otherEvent.node) := by
  let first : Checker := { config, title }
  let second : Checker := { config := otherConfig, title }
  have state : Related (first.visitor.react event.hook scope event.node).state
      (second.visitor.react otherEvent.hook other otherEvent.node).state := by
    rw [first.state_react, second.state_react]
    exact simulation.step related corresponds
  have findings : (second.visitor.react otherEvent.hook other
        otherEvent.node).journal.findings =
      (first.visitor.react event.hook scope event.node).journal.findings.map
        view := by
    rw [findings_react (fun _ => rfl), findings_react (fun _ => rfl),
      ← Option.toList_map]
    exact congrArg Option.toList (simulation.found_eq related corresponds)
  have result : (first.visitor.call event.hook scope event.node).result =
      (second.visitor.call otherEvent.hook other otherEvent.node).result := by
    rw [result_call (fun _ => rfl), result_call (fun _ => rfl)]
    exact simulation.outcome_eq related corresponds
  exact ⟨.cons ⟨corresponds.hook, corresponds.node, state, findings⟩ .nil,
    state, result⟩

theorem lead {scope other : Scope} {root otherRoot : Node}
    (related : Related scope other) (alike : Alike root otherRoot) :
    Passage.Aligned (Mirrors Alike Related view) Related
      ((visitor { config, title }).lead scope root.events)
      ((visitor { config := otherConfig, title }).lead other
        otherRoot.events) := by
  have events := Hereditary.events simulation.hereditary alike
  refine @Visitor.lead_aligned (visitor { config, title })
    (visitor { config := otherConfig, title }) Related _ _ ?_ _ _ events
    _ _ related
  intro scope other event otherEvent related corresponds
  exact simulation.call related corresponds

/-- What a simulation says of single events holds of whole walks. -/
theorem walksAlike {scope other : Scope} {root otherRoot : Node}
    (related : Related scope other) (alike : Alike root otherRoot) :
    WalksAlike Alike Related view root otherRoot
      ((visitor { config, title }).passFrom scope root)
      ((visitor { config := otherConfig, title }).passFrom other
        otherRoot) := by
  have aligned := simulation.lead related alike
  have walk : (visitor { config, title }).passFrom scope root = _ :=
    (visitor_keeps _).passFrom_eq_mk scope root
  have otherWalk :
      (visitor { config := otherConfig, title }).passFrom other otherRoot = _ :=
    (visitor_keeps _).passFrom_eq_mk other otherRoot
  rw [walk, otherWalk]
  refine ⟨aligned.calls, _, rfl, ?_⟩
  rw [aligned.result]

end Simulation

end Checker

end ScopeLint
