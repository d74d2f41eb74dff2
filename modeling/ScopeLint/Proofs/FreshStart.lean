import ScopeLint.Proofs.ScopeCourse
import ScopeLint.Sample

/-!
# Templates start afresh

One checker may be used for many trees.  Its host may call the hooks one by
one and in any order, walks may fail or be broken off, and all of this leaves
traces in the scope.  A template wipes them out: its walk makes the same
callbacks, leaves the same scope and comes to the same end as with a checker
that nobody has used before.
-/

namespace ScopeLint

/-- Something that a host does with a checker.  Where findings go, and whether
they are refused there, may be different each time. -/
inductive Use where
  | call (report : Reporter) (hook : Hook) (node : Node)
  | walk (report : Reporter) (root : Node)
  /-- A walk that goes no further than so many callbacks, such as one that ends
  when a sink has taken as many findings as it wants. -/
  | breakOff (root : Node) (callbacks : Nat)
  | reset

namespace Visitor

/-- Walk trees one after the other, each in the state that the one before it
left. -/
def walksFrom (visitor : Visitor) (state : visitor.State) :
    List Node → List (Passage visitor.State Node)
  | [] => []
  | root :: rest =>
    let passage := visitor.passFrom state root
    passage :: visitor.walksFrom passage.state rest

/-- If the callback for entering a tree does not depend on the state, neither
does the walk. -/
theorem Keeps.passFrom_congr {visitor : Visitor} (keeps : visitor.Keeps)
    {state other : visitor.State} {root : Node}
    (entering : visitor.call .enter state root =
      visitor.call .enter other root) :
    visitor.passFrom state root = visitor.passFrom other root := by
  have led :
      visitor.lead state root.events = visitor.lead other root.events := by
    rw [Node.events_eq]
    exact congrArg
      (fun passage => passage.andThen fun state _ =>
        visitor.lead state
          (Node.eventsOf 0 root.children ++ [root.leaving])) entering
  rw [keeps.passFrom_eq_lead, keeps.passFrom_eq_lead, led]

theorem walksFrom_eq_map {visitor : Visitor} {roots : List Node}
    (fresh : ∀ root ∈ roots, ∀ state,
      visitor.passFrom state root = visitor.pass root)
    (state : visitor.State) :
    visitor.walksFrom state roots = roots.map visitor.pass := by
  induction roots generalizing state with
  | nil => rfl
  | cons root rest induction =>
      have later := induction fun other member =>
        fresh other (List.mem_cons_of_mem _ member)
      rw [walksFrom, List.map_cons, later, fresh root List.mem_cons_self]

end Visitor

namespace Checker

/-- The scope after a use. -/
def perform (checker : Checker) (scope : Scope) : Use → Scope
  | .call report hook node =>
    ((visitor { checker with report }).call hook scope node).state
  | .walk report root =>
    ((visitor { checker with report }).passFrom scope root).state
  | .breakOff root callbacks =>
    let passage : Passage Scope Node :=
      (visitor { checker with report := Reporter.collect }).passFrom scope root
    match (passage.calls.take callbacks).getLast? with
    | none => scope
    | some callback => callback.reaction.state
  | .reset => checker.start

/-- The scope of a new checker after all that was done with it. -/
def after (checker : Checker) (history : List Use) : Scope :=
  history.foldl checker.perform checker.start

variable (checker : Checker)

theorem call_enter_template {root : Node} (isTemplate : root.kind = .template)
    (scope other : Scope) :
    checker.visitor.call .enter scope root =
      checker.visitor.call .enter other root := by
  obtain ⟨body, title, shape⟩ := Node.shape_of_template isTemplate
  have role : root.role checker.config = .template title := by
    rw [Node.role, shape]
  have reaction : checker.enter scope root = checker.enter other root := by
    rw [enter, enter, role]
    rfl
  change Passage.mk [⟨.enter, root, checker.enter scope root⟩]
    (checker.enter scope root).state
    (checker.visitor.accept .enter (checker.enter scope root).reply) = _
  rw [reaction]
  rfl

/-- The walk of a template is the same from every scope. -/
theorem passFrom_template {root : Node} (isTemplate : root.kind = .template)
    (scope : Scope) :
    checker.visitor.passFrom scope root = checker.visitor.pass root :=
  checker.visitor_keeps.passFrom_congr
    (checker.call_enter_template isTemplate scope checker.start)

/-- Whatever was done with a checker, it walks a template like a new one, and
it does so each time. -/
theorem passFrom_after_history (history : List Use) {root : Node}
    (isTemplate : root.kind = .template) :
    checker.visitor.passFrom (checker.after history) root =
      checker.visitor.pass root ∧
    ∀ times, checker.visitor.walksFrom (checker.after history)
        (List.replicate times root) =
      List.replicate times (checker.visitor.pass root) := by
  refine ⟨checker.passFrom_template isTemplate _, ?_⟩
  intro times
  rw [← List.map_replicate]
  apply Visitor.walksFrom_eq_map
  intro other member scope
  rw [List.eq_of_mem_replicate member]
  exact checker.passFrom_template isTemplate scope

/-- A walk that a sink ends, a lambda that is left and was never entered, and a
walk that is broken off at the first name. -/
def carelessUses : List Use :=
  [.walk (fun d => { refusal := some (.escalated .user d.summary) })
      Sample.card,
   .call Reporter.collect .leave ⟨30, ⟨1, 0⟩,
     .lambda ["x"] ⟨31, ⟨1, 7⟩, .name "x" "load"⟩⟩,
   .breakOff Sample.badge 6]

theorem passFrom_after_carelessUses :
    after {} carelessUses =
      ⟨some "badge", [some "text", some "css"], [], [], anonymous⟩ ∧
    (((visitor {}).passFrom (after {} carelessUses)
        Sample.template).journal.findings.map fun d =>
      (d.inMacro, d.missing)) = [("card", "titel"), ("card", "item")] ∧
    (visitor {}).passFrom (after {} carelessUses) Sample.template =
      (visitor {}).pass Sample.template ∧
    (visitor {}).walksFrom (after {} carelessUses)
        (List.replicate 3 Sample.template) =
      List.replicate 3 ((visitor {}).pass Sample.template) := by
  obtain ⟨once, each⟩ := passFrom_after_history {} carelessUses
    (show Sample.template.kind = .template from rfl)
  exact ⟨by decide +kernel, by decide +kernel, once, each 3⟩

end Checker

end ScopeLint
