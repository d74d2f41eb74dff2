import ScopeLint.Proofs.Simulation
import ScopeLint.Proofs.WiderScopes

/-!
# Headers behind bodies

The defaults of a macro, the condition of a loop and the arguments of a call
block are written in a header, before the body.  A walk comes to them after the
body, so that they are checked in the scope which the body leaves behind.  They
see every name that the body binds for the rest of the macro.  And if there is a
macro or a template in the body, then the walk is outside all macros at the
header, and finds nothing there.

A body that leaves nothing behind makes no difference to its header.
-/

namespace ScopeLint

/-- The parts of a construct, as a walk comes to them: what stands before the
body, the body, and the expressions of the header that are put off. -/
structure Sections where
  lead : List Node
  body : List Node
  header : List Node

namespace Node

def sections (node : Node) : Sections :=
  match node.shape with
  | .definition _ params body defaults _ _ => ⟨params, body, defaults⟩
  | .loop _ target source body empty only =>
    ⟨[target, source], body ++ empty, only.toList⟩
  | .callBlock head slots args => ⟨[head], slots.values.flatten, args⟩
  | shape => ⟨shape.parts, [], []⟩

/-- The construct with nothing in its body. -/
def withoutBody (node : Node) : Node :=
  { node with
    shape :=
      match node.shape with
      | .definition title params _ defaults rest named =>
        .definition title params [] defaults rest named
      | .loop mode target source _ _ only => .loop mode target source [] [] only
      | .callBlock head _ args => .callBlock head ∅ args
      | shape => shape }

theorem children_eq_sections (node : Node) :
    node.children =
      node.sections.lead ++ node.sections.body ++ node.sections.header := by
  rw [children, sections]
  cases node.shape <;> simp [Shape.parts]

theorem sections_withoutBody (node : Node) :
    node.withoutBody.sections =
      ⟨node.sections.lead, [], node.sections.header⟩ := by
  rw [sections, sections, withoutBody]
  cases node.shape <;> rfl

theorem role_withoutBody (config : Config) (node : Node) :
    node.withoutBody.role config = node.role config := by
  rw [role, role, withoutBody]
  cases node.shape <;> rfl

theorem body_of_guard {config : Config} {node : Node} {subject : Nat}
    (role : node.role config = .guard subject) : node.sections.body = [] := by
  rw [Node.role] at role
  rw [sections]
  cases shape : node.shape <;> simp_all

/-- What happens on a walk before it comes to the header. -/
def eventsToHeader (node : Node) : List Event :=
  node.entering :: eventsOf 0 (node.sections.lead ++ node.sections.body)

theorem events_eq_toHeader (node : Node) :
    node.events = node.eventsToHeader ++
      (eventsOf (node.sections.lead ++ node.sections.body).length
        node.sections.header ++ [node.leaving]) :=
  events_of_children node.children_eq_sections

theorem eventsToHeader_withoutBody (node : Node) :
    node.withoutBody.eventsToHeader =
      node.withoutBody.entering :: eventsOf 0 node.sections.lead := by
  rw [eventsToHeader, sections_withoutBody, List.append_nil]

theorem forall₂_eventsOf_place {Alike : Node → Node → Prop}
    (refl : ∀ node, Alike node node) (siblings : List Node)
    (first other : Nat) :
    List.Forall₂ (Event.Corresponds Alike) (eventsOf first siblings)
      (eventsOf other siblings) := by
  induction siblings generalizing first other with
  | nil => exact .nil
  | cons child rest induction =>
      rw [eventsOf_cons, eventsOf_cons]
      apply List.rel_append
      · rw [List.forall₂_map_left_iff, List.forall₂_map_right_iff]
        apply List.forall₂_same.mpr
        intro event _
        exact ⟨rfl, refl event.node⟩
      · exact induction (first + 1) (other + 1)

end Node

namespace Checker

/-- What a walk finds in the header of a construct. -/
def headerFindings (checker : Checker) (scope : Scope) (node : Node) :
    List Diagnostic :=
  (checker.visitor.passFrom scope node).findingsAfter node.eventsToHeader.length

variable {checker : Checker}

theorem treatsAlike_withoutBody (node : Node) :
    checker.TreatsAlike node.withoutBody node := by
  have role : node.role checker.config = node.withoutBody.role checker.config :=
    (node.role_withoutBody checker.config).symm
  apply TreatsAlike.of_finding role
  intro scope
  rw [Scope.finding?, Scope.finding?, role]
  rfl

theorem TreatsAlike.lead {events others : List Event}
    (alike : List.Forall₂ (Event.Corresponds checker.TreatsAlike) events others)
    (state : checker.visitor.State) :
    Passage.Aligned
      (fun callback other => callback.reaction = other.reaction) Eq
      (checker.visitor.lead state events)
        (checker.visitor.lead state others) := by
  apply Visitor.lead_aligned _ alike rfl
  intro state _ event other sameState corresponds
  have reaction : checker.visitor.react event.hook state event.node =
      checker.visitor.react other.hook state other.node := by
    rw [corresponds.hook]
    exact (corresponds.node event.hook state).symm
  rw [← sameState]
  refine ⟨.cons reaction .nil, congrArg Reaction.state reaction, ?_⟩
  change checker.visitor.accept _
    (checker.visitor.react event.hook state event.node).reply =
    checker.visitor.accept _
      (checker.visitor.react other.hook state other.node).reply
  rw [reaction, corresponds.hook]

/-- Where two walks are in the same scope, and what comes next means the same to
the checker, they find the same. -/
theorem findingsAfter_eq {scope : Scope} {root otherRoot : Node}
    {first second otherFirst otherSecond : List Event}
    (split : root.events = first ++ second)
    (otherSplit : otherRoot.events = otherFirst ++ otherSecond)
    (smooth : checker.visitor.Smooth scope otherFirst ↔
      checker.visitor.Smooth scope first)
    (reached : scope.along checker.config checker.home otherFirst =
      scope.along checker.config checker.home first)
    (alike : List.Forall₂ (Event.Corresponds checker.TreatsAlike) second
      otherSecond) :
    (checker.visitor.passFrom scope otherRoot).findingsAfter otherFirst.length =
      (checker.visitor.passFrom scope root).findingsAfter first.length := by
  by_cases fine : checker.visitor.Smooth scope first
  · have here := checker.visitor_keeps.drop_calls_of_smooth split fine
    have there :=
      checker.visitor_keeps.drop_calls_of_smooth otherSplit (smooth.mpr fine)
    have sameState : checker.visitor.stateAfter scope otherFirst =
        checker.visitor.stateAfter scope first := by
      rw [checker.stateAfter_eq, checker.stateAfter_eq]
      exact reached
    rw [Passage.findingsAfter, Passage.findingsAfter, here, there, sameState]
    apply Eq.symm
    apply (TreatsAlike.lead alike _).flatMap_calls
    intro callback other sameReaction
    rw [sameReaction]
  · have here := findingsAfter_of_not_smooth split fine
    have there := findingsAfter_of_not_smooth otherSplit (mt smooth.mp fine)
    exact there.trans here.symm

section Quiet

variable {scope : Scope} {node : Node}
  (quiet : ∀ child ∈ node.sections.body, child.Quiet)
  (unasked : ∀ id ∈ scope.guarded, ∀ child ∈ node.sections.body,
    id ∉ child.asked checker.config)

include unasked in
theorem unasked_inside :
    ∀ id ∈ (scope.step checker.config checker.home
        node.withoutBody.entering).guarded,
      ∀ child ∈ node.sections.body, id ∉ child.asked checker.config := by
  intro id member child childMember
  have noGuard : ∀ subject,
      node.withoutBody.role checker.config ≠ .guard subject := by
    intro subject role
    rw [Node.role_withoutBody] at role
    rw [Node.body_of_guard role] at childMember
    cases childMember
  exact unasked id (Scope.step_entering_guarded_subset noGuard scope member)
    child childMember

include quiet unasked

/-- A body that binds nothing for the rest of the macro makes no difference to
the header, whatever the header holds. -/
theorem headerFindings_of_no_bindings
    (accepts : ∀ d, (checker.report d).refusal = none)
    (nothing : node.sections.body.flatMap (Node.bindings checker.config) = []) :
    checker.headerFindings scope node =
      checker.headerFindings scope node.withoutBody := by
  have alike : checker.TreatsAlike node.withoutBody node :=
    treatsAlike_withoutBody node
  have smooth := alike.smooth_insert accepts node.sections.lead quiet scope
  have reached :
      scope.along checker.config checker.home node.eventsToHeader = _ :=
    alike.along_insert quiet (unasked_inside unasked)
  rw [headerFindings, headerFindings]
  apply findingsAfter_eq node.withoutBody.events_eq_toHeader
    node.events_eq_toHeader
  · rw [Node.eventsToHeader_withoutBody]
    exact smooth
  · rw [Node.eventsToHeader_withoutBody]
    apply reached.trans
    rw [nothing, Scope.declare, List.append_nil]
  · rw [Node.sections_withoutBody]
    apply List.rel_append
    · apply Node.forall₂_eventsOf_place
      exact fun _ _ _ => rfl
    · exact .cons ⟨rfl, alike⟩ .nil

/-- The header is checked as if the names that the body binds had been declared
before. -/
theorem headerFindings_of_quiet (collects : checker.Collects)
    (accepts : ∀ d, (checker.report d).refusal = none)
    (free : ∀ expression ∈ node.sections.header, expression.MacroFree) :
    checker.headerFindings scope node =
      (checker.headerFindings scope node.withoutBody).filter fun d =>
        d.missing ∉ Node.boundNames checker.config node.sections.body := by
  have children : node.withoutBody.children =
      node.sections.lead ++ node.sections.header := by
    rw [Node.children_eq_sections, Node.sections_withoutBody, List.append_nil]
  rw [headerFindings, headerFindings, Node.eventsToHeader_withoutBody]
  exact findingsAfter_insert collects accepts
    (treatsAlike_withoutBody node) children
    node.children_eq_sections free quiet (unasked_inside unasked)

end Quiet

/-- Behind a body with a macro or a template, the walk is outside all macros. -/
theorem headerFindings_of_not_quiet (collects : checker.Collects)
    (accepts : ∀ d, (checker.report d).refusal = none) {scope : Scope}
    {node : Node} (loud : ∃ child ∈ node.sections.body, ¬child.Quiet)
    (free : ∀ expression ∈ node.sections.header, expression.MacroFree) :
    checker.headerFindings scope node = [] := by
  have noMacro := Node.MacroFree.enterNoMacro_below free
    (node.sections.lead ++ node.sections.body).length node
  by_cases smooth : checker.visitor.Smooth scope node.eventsToHeader
  · have outside :
        (scope.along checker.config checker.home node.eventsToHeader).inMacro =
        none := by
      apply Classical.byContradiction
      intro inside
      rw [Node.eventsToHeader, Scope.along_cons] at inside
      obtain ⟨child, member, notQuiet⟩ := loud
      obtain ⟨_, quiet⟩ := Scope.quiet_of_along_inMacro inside
      exact notQuiet (quiet child (List.mem_append_right _ member))
    apply (findingsAfter_of_smooth collects accepts node.events_eq_toHeader
      smooth noMacro).trans
    exact Scope.findings_outside outside noMacro
  · exact findingsAfter_of_not_smooth node.events_eq_toHeader smooth

/-- What the body leaves behind decides what is found in the header.  A body
without macros and templates that asks for no guarded node leaves the names that
it binds, and the header is checked as if they had been declared before; if it
binds none, the body makes no difference.  After a macro or a template in the
body, nothing is found in a header that does not hold a macro itself. -/
theorem headerFindings_eq (config : Config) (title : Option String)
    (node : Node) (scope : Scope) :
    let checker : Checker := { config, title }
    let body := node.sections.body
    ((∀ child ∈ body, child.Quiet) →
      (∀ id ∈ scope.guarded, ∀ child ∈ body, id ∉ child.asked config) →
      (body.flatMap (Node.bindings config) = [] →
        checker.headerFindings scope node =
          checker.headerFindings scope node.withoutBody) ∧
      ((∀ expression ∈ node.sections.header, expression.MacroFree) →
        checker.headerFindings scope node =
          (checker.headerFindings scope node.withoutBody).filter
            fun d => d.missing ∉ Node.boundNames config body)) ∧
    ((∃ child ∈ body, ¬child.Quiet) →
      (∀ expression ∈ node.sections.header, expression.MacroFree) →
      checker.headerFindings scope node = []) := by
  intro checker body
  have collects : checker.Collects := fun _ => rfl
  have accepts : ∀ d, (checker.report d).refusal = none := fun _ => rfl
  constructor
  · intro quiet unasked
    constructor
    · exact @headerFindings_of_no_bindings checker scope node quiet
        unasked accepts
    · exact @headerFindings_of_quiet checker scope node quiet unasked
        collects accepts
  · exact headerFindings_of_not_quiet collects accepts

/-- The four constructs that put a header off, with one statement in the body
and one expression in the header. -/
def headed (statement expression : Node) : List Node :=
  let target : Node := ⟨2, ⟨1, 4⟩, .name "row" "store"⟩
  let source : Node := ⟨3, ⟨1, 11⟩, .name "rows" "load"⟩
  [⟨1, ⟨1, 0⟩, .definition "table" [⟨2, ⟨1, 10⟩, .parameter "rows" none⟩]
      [statement] [expression] none none⟩,
   ⟨1, ⟨1, 0⟩, .loop .plain target source [statement] [] (some expression)⟩,
   ⟨1, ⟨1, 0⟩, .loop .async target source [] [statement] (some expression)⟩,
   ⟨1, ⟨1, 0⟩,
     .callBlock source (Keyed.ofList [("cell", [statement])]) [expression]⟩]

/-- A statement that binds a name. -/
def capturing (name : String) : Node := ⟨4, ⟨2, 0⟩, .capture name [] none⟩

/-- An expression that reads two names. -/
def summing (left right : String) : Node :=
  ⟨5, ⟨1, 20⟩, .binary ⟨6, ⟨1, 20⟩, .name left "load"⟩ "+"
      ⟨7, ⟨1, 28⟩, .name right "load"⟩⟩

/-- A macro that has its rows for a parameter. -/
def inTable : Scope :=
  { Scope.fresh "page" with inMacro := some "table", names := [some "rows"] }

/-- Headers are not checked against the names declared before the body. -/
theorem headerFindings_ne_withoutBody :
    let constructs := headed (capturing "total") (summing "total" "bonus")
    constructs.map
        (fun node => (headerFindings {} inTable node).map (·.missing)) =
        [["bonus"], ["bonus"], ["bonus"], ["bonus"]] ∧
      constructs.map (fun node =>
        (headerFindings {} inTable node.withoutBody).map (·.missing)) =
        [["total", "bonus"], ["total", "bonus"], ["total", "bonus"],
          ["total", "bonus"]] := by
  decide +kernel

theorem headerFindings_eq_headed :
    let header := summing "total" "bonus"
    let aside : Node := ⟨8, ⟨2, 0⟩, .definition "aside" [] [] [] none none⟩
    (∀ node ∈ headed (summing "rows" "rows") header,
      headerFindings {} inTable node =
        headerFindings {} inTable node.withoutBody) ∧
    (∀ node ∈ headed (capturing "total") header,
      headerFindings {} inTable node =
        (headerFindings {} inTable node.withoutBody).filter
          fun d => d.missing ∉ Node.boundNames {} node.sections.body) ∧
    ∀ node ∈ headed aside header, headerFindings {} inTable node = [] := by
  intro header aside
  have unguarded : ∀ id ∈ inTable.guarded, ∀ siblings : List Node,
      ∀ child ∈ siblings, id ∉ child.asked {} := by
    intro id member
    cases member
  have free : ∀ statement : Node, ∀ node ∈ headed statement header,
      ∀ expression ∈ node.sections.header, expression.MacroFree := by
    intro statement
    simp only [headed, List.forall_mem_cons, Node.sections, Option.mem_toList]
    decide +kernel
  refine ⟨?_, ?_, ?_⟩
  · intro node member
    have quiet : ∀ node ∈ headed (summing "rows" "rows") header,
        ∀ child ∈ node.sections.body, child.Quiet := by decide +kernel
    have nothing : ∀ node ∈ headed (summing "rows" "rows") header,
        node.sections.body.flatMap (Node.bindings {}) = [] := by decide +kernel
    obtain ⟨quietBody, _⟩ := headerFindings_eq {} none node inTable
    exact (quietBody (quiet node member) fun id inside =>
      unguarded id inside _).1 (nothing node member)
  · intro node member
    have quiet : ∀ node ∈ headed (capturing "total") header,
        ∀ child ∈ node.sections.body, child.Quiet := by decide +kernel
    obtain ⟨quietBody, _⟩ := headerFindings_eq {} none node inTable
    exact (quietBody (quiet node member) fun id inside =>
      unguarded id inside _).2 (free _ node member)
  · intro node member
    have loud : ∀ node ∈ headed aside header,
        ∃ child ∈ node.sections.body, ¬child.Quiet := by decide +kernel
    obtain ⟨_, loudBody⟩ := headerFindings_eq {} none node inTable
    exact loudBody (loud node member) (free _ node member)

end Checker

end ScopeLint
