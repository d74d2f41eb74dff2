import Mathlib.Data.Finset.Lattice.Lemmas
import Mathlib.Data.List.ReduceOption
import ScopeLint.Proofs.LaterFindings

/-!
# Wider scopes

Names are looked up in a list, and blocks cut their names out of it by position.
Still the findings depend on the set of declared names alone, and in the
simplest way: a scope that declares some more names finds the same, without the
findings about these names.

Two walks of one tree need not go through lists of the same length, so frames do
not correspond.  What makes the comparison possible is that the walk of a whole
subtree only adds the names that last, until a template ends the macro, and
after that nothing is found.
-/

namespace ScopeLint

/-- The names of all lasting bindings in some trees, as a set. -/
def Node.boundNames (config : Config) (nodes : List Node) : Finset String :=
  (nodes.flatMap (bindings config)).reduceOption.toFinset

/-- The node that a test guards, by identity. -/
def Role.subject? : Role → Option Nat
  | guard subject => some subject
  | _ => none

/-- The nodes for which the tests in a tree ask whether they are defined. -/
def Node.asked (config : Config) (node : Node) : List Nat :=
  node.nodes.filterMap fun inner => (inner.role config).subject?

theorem Node.asked_eq (config : Config) (node : Node) :
    node.asked config =
      (node.role config).subject?.toList ++
        node.children.flatMap (asked config) := by
  rw [asked, nodes_eq, List.filterMap_cons, List.filterMap_flatMap]
  cases (node.role config).subject? <;> rfl

namespace Scope

/-- The declared names as a set. -/
def declaredNames (scope : Scope) : Finset String :=
  scope.names.reduceOption.toFinset

theorem mem_declaredNames {scope : Scope} {name : String} :
    name ∈ scope.declaredNames ↔ some name ∈ scope.names := by
  rw [declaredNames, List.mem_toFinset, List.reduceOption_mem_iff]

/-- The second scope differs from the first in that it declares some more names.
The frames may be any. -/
structure Widens (added : Finset String) (scope wider : Scope) : Prop where
  inMacro : wider.inMacro = scope.inMacro
  template : wider.template = scope.template
  guarded : ∀ id, id ∈ wider.guarded ↔ id ∈ scope.guarded
  names : wider.declaredNames = scope.declaredNames ∪ added

section Along

variable {config : Config} {home : String} {added : Finset String}
  {scope wider : Scope}

theorem Widens.mem_names_iff (widens : Widens added scope wider)
    (name : String) :
    some name ∈ wider.names ↔ some name ∈ scope.names ∨ name ∈ added := by
  rw [← mem_declaredNames, widens.names, Finset.mem_union, mem_declaredNames]

theorem Widens.of_mem_names_iff (inMacro : wider.inMacro = scope.inMacro)
    (template : wider.template = scope.template)
    (guarded : ∀ id, id ∈ wider.guarded ↔ id ∈ scope.guarded)
    (names : ∀ name, some name ∈ wider.names ↔
      some name ∈ scope.names ∨ name ∈ added) :
    Widens added scope wider := by
  refine ⟨inMacro, template, guarded, ?_⟩
  apply Finset.ext
  intro name
  rw [mem_declaredNames, names, Finset.mem_union, mem_declaredNames]

theorem Widens.found_eq (widens : Widens added scope wider) (event : Event) :
    wider.found config home event =
      (scope.found config home event).filter fun d => d.missing ∉ added := by
  obtain ⟨⟨path, node⟩, hook⟩ := event
  cases hook with
  | leave => rfl
  | enter =>
      change (wider.enter home (node.role config)).finding? config node =
        ((scope.enter home (node.role config)).finding? config node).filter _
      by_cases reads : ∃ name, node.role config = .reference name
      · obtain ⟨name, role⟩ := reads
        rw [role]
        apply finding?_filter widens.inMacro widens.template rfl
          (widens.guarded node.id)
        intro name
        change some name ∈ wider.names ∨ _ ↔ (some name ∈ scope.names ∨ _) ∨ _
        rw [widens.mem_names_iff, or_right_comm]
      · have noReference : ∀ name, node.role config ≠ .reference name :=
          not_exists.mp reads
        rw [finding?_of_not_reference noReference,
          finding?_of_not_reference noReference]
        rfl

/-! ## Guards -/

variable (config home) in
/-- Which nodes are guarded after an event depends on which were guarded before,
and on nothing else in the scope. -/
theorem mem_guarded_step (same : ∀ id, id ∈ wider.guarded ↔ id ∈ scope.guarded)
    (event : Event) (id : Nat) :
    id ∈ (wider.step config home event).guarded ↔
      id ∈ (scope.step config home event).guarded := by
  obtain ⟨⟨path, node⟩, hook⟩ := event
  cases hook with
  | enter =>
      change id ∈ (wider.enter home (node.role config)).guarded ↔
        id ∈ (scope.enter home (node.role config)).guarded
      cases node.role config with
      | template title => exact Iff.rfl
      | definition title inputs => cases inputs <;> exact same id
      | guard subject =>
          change id ∈ (wider.guard subject).guarded ↔
            id ∈ (scope.guard subject).guarded
          rw [mem_guard, mem_guard, same]
      | _ => exact same id
  | leave =>
      change id ∈ (wider.step config home node.leaving).guarded ↔
        id ∈ (scope.step config home node.leaving).guarded
      rw [step_leaving_guarded, step_leaving_guarded]
      cases node.role config with
      | guard subject => simp only [List.mem_filter, same]
      | _ => exact same id

variable (config home) in
theorem mem_guarded_along (same : ∀ id, id ∈ wider.guarded ↔ id ∈ scope.guarded)
    (events : List Event) (id : Nat) :
    id ∈ (wider.along config home events).guarded ↔
      id ∈ (scope.along config home events).guarded := by
  induction events generalizing scope wider with
  | nil => exact same id
  | cons event rest induction =>
      rw [along_cons, along_cons]
      exact induction (mem_guarded_step config home same event)

private theorem filter_not_mem_append (ids first second : List Nat) :
    (ids.filter fun id => id ∉ first).filter (fun id => id ∉ second) =
      ids.filter fun id => id ∉ first ++ second := by
  rw [List.filter_filter]
  apply List.filter_congr
  intro id _
  simp [Bool.and_comm]

theorem step_entering_guarded {node : Node}
    (isOther : node.kind.isStart = false) (scope : Scope) :
    (scope.step config home node.entering).guarded =
      match node.role config with
      | .guard subject => (scope.guard subject).guarded
      | _ => scope.guarded := by
  have fits := node.kind_of_role config
  cases role : node.role config with
  | template title => simp_all [Kind.isStart]
  | definition title inputs => simp_all [Kind.isStart]
  | _ => simp [step, Node.entering, role, enter, openBlock, declare]

theorem guarded_guard_filter (scope : Scope) (id : Nat) (later : List Nat) :
    ((scope.guard id).guarded.filter fun other => other ∉ later).filter
        (· ≠ id) =
      scope.guarded.filter fun other => other ∉ id :: later := by
  have swapped : ∀ ids : List Nat,
      (ids.filter fun other => other ∉ later).filter (· ≠ id) =
        ids.filter fun other => other ∉ id :: later := by
    intro ids
    rw [List.filter_filter]
    apply List.filter_congr
    intro other _
    simp
  rw [swapped]
  by_cases known : id ∈ scope.guarded <;> simp [guard, known]

variable (config home) in
private theorem along_guarded_siblings {siblings : List Node}
    (below : ∀ child ∈ siblings, ∀ scope : Scope,
      (scope.along config home child.events).guarded =
        scope.guarded.filter fun id => id ∉ child.asked config)
    (scope : Scope) (first : Nat) :
    (scope.along config home (Node.eventsOf first siblings)).guarded =
      scope.guarded.filter fun id =>
        id ∉ siblings.flatMap (Node.asked config) := by
  induction siblings generalizing scope first with
  | nil => simp
  | cons child rest induction =>
      have here := below child List.mem_cons_self scope
      have later := induction (fun other member =>
        below other (List.mem_cons_of_mem _ member))
        (scope.along config home child.events) (first + 1)
      rw [along_eventsOf_cons, later, here, filter_not_mem_append]
      rfl

variable (config home) in
/-- A walk without macros and templates gives up the guards that its tests ask
for, and no others. -/
theorem along_guarded_quiet {node : Node} (quiet : node.Quiet) (scope : Scope) :
    (scope.along config home node.events).guarded =
      scope.guarded.filter fun id => id ∉ node.asked config := by
  induction node using Node.induction_on_children generalizing scope with
  | step node induction =>
      obtain ⟨isOther, quietBelow⟩ := Node.quiet_iff.mp quiet
      have below := along_guarded_siblings config home
        (fun child member => induction child member (quietBelow child member))
        (scope.step config home node.entering) 0
      rw [along_events, step_leaving_guarded, below,
        step_entering_guarded isOther, Node.asked_eq]
      cases node.role config with
      | guard subject => exact guarded_guard_filter scope subject _
      | _ => rfl

/-- Trees without macros and templates add the names of their lasting bindings
to the scope.  If they do not ask for guarded nodes, they do nothing else. -/
theorem along_siblings_eq {siblings : List Node}
    (quiet : ∀ child ∈ siblings, child.Quiet)
    (unasked : ∀ id ∈ scope.guarded, ∀ child ∈ siblings,
      id ∉ child.asked config) (first : Nat) :
    scope.along config home (Node.eventsOf first siblings) =
      scope.declare (siblings.flatMap (Node.bindings config)) := by
  have guarded := along_guarded_siblings config home
    (fun child member => along_guarded_quiet config home (quiet child member))
    scope first
  have unchanged : (scope.guarded.filter fun id =>
      id ∉ siblings.flatMap (Node.asked config)) = scope.guarded := by
    apply List.filter_eq_self.mpr
    intro id member
    simpa using unasked id member
  obtain ⟨after, passed⟩ := along_siblings_quiet config home quiet scope first
  rw [passed] at guarded ⊢
  have same : after = scope.guarded := guarded.trans unchanged
  rw [same]
  rfl

theorem Widens.declare (scope : Scope) (siblings : List Node) :
    Widens (Node.boundNames config siblings) scope
      (scope.declare (siblings.flatMap (Node.bindings config))) := by
  apply Widens.of_mem_names_iff
  · rfl
  · rfl
  · exact fun _ => Iff.rfl
  · intro name
    change some name ∈ scope.names ++ _ ↔ _
    rw [List.mem_append, Node.boundNames, List.mem_toFinset,
      List.reduceOption_mem_iff]

/-! ## Walks of whole trees -/

variable (added scope wider) in
/-- The second scope finds what the first finds, but for the added names: it is
a wider one, or both scopes are outside all macros. -/
inductive Covers : Prop where
  | inside : Widens added scope wider → Covers
  | outside : scope.inMacro = none → wider.inMacro = none → Covers

theorem Covers.found_eq (covers : Covers added scope wider) (event : Event) :
    wider.found config home event =
      (scope.found config home event).filter fun d => d.missing ∉ added := by
  cases covers with
  | inside widens => exact widens.found_eq event
  | outside outside widerOutside =>
      rw [found_of_outside outside, found_of_outside widerOutside]
      rfl

variable (config home) in
theorem Covers.entering (covers : Covers added scope wider) {node : Node}
    (noMacro : node.kind ≠ .definition) :
    Covers added (scope.step config home node.entering)
      (wider.step config home node.entering) := by
  cases covers with
  | outside outside widerOutside =>
      exact .outside (step_outside outside fun _ => noMacro)
        (step_outside widerOutside fun _ => noMacro)
  | inside widens =>
      rcases node.kind.start_cases with isOther | isDefinition | isTemplate
      · have guarded :=
          mem_guarded_step config home widens.guarded node.entering
        have entered : scope.step config home node.entering = _ :=
          step_entering_other isOther scope
        have widerEntered : wider.step config home node.entering = _ :=
          step_entering_other isOther wider
        apply Covers.inside
        apply Widens.of_mem_names_iff
        · rw [entered, widerEntered]
          exact widens.inMacro
        · rw [entered, widerEntered]
          exact widens.template
        · exact guarded
        · intro name
          rw [entered, widerEntered, List.mem_append, List.mem_append,
            widens.mem_names_iff, or_right_comm]
      · exact absurd isDefinition noMacro
      · obtain ⟨template, entered⟩ :=
          step_entering_template config home isTemplate scope
        obtain ⟨widerTemplate, widerEntered⟩ :=
          step_entering_template config home isTemplate wider
        rw [entered, widerEntered]
        exact .outside rfl rfl

variable (config home) in
theorem Covers.along (covers : Covers added scope wider) {node : Node}
    (free : node.MacroFree) :
    Covers added (scope.along config home node.events)
      (wider.along config home node.events) := by
  cases covers with
  | outside outside widerOutside =>
      have noMacro : Event.EnterNoMacro node.events := by
        intro event member _
        exact free event.node (Node.mem_nodes_of_mem_events member)
      exact .outside (along_outside outside noMacro)
        (along_outside widerOutside noMacro)
  | inside widens =>
      by_cases quiet : node.Quiet
      · have guarded := mem_guarded_along config home widens.guarded node.events
        obtain ⟨_, passed⟩ := Scope.along_quiet config home quiet scope
        obtain ⟨_, widerPassed⟩ := Scope.along_quiet config home quiet wider
        apply Covers.inside
        apply Widens.of_mem_names_iff
        · rw [passed, widerPassed]
          exact widens.inMacro
        · rw [passed, widerPassed]
          exact widens.template
        · exact guarded
        · intro name
          rw [passed, widerPassed, List.mem_append, List.mem_append,
            widens.mem_names_iff, or_right_comm]
      · exact .outside (along_inMacro_of_not_quiet quiet scope)
          (along_inMacro_of_not_quiet quiet wider)

private theorem Covers.findings_siblings {siblings : List Node}
    (below : ∀ child ∈ siblings, ∀ {scope wider : Scope},
      Covers added scope wider →
      wider.findings config home child.events =
        (scope.findings config home child.events).filter fun d =>
          d.missing ∉ added)
    (free : ∀ child ∈ siblings, child.MacroFree)
    (covers : Covers added scope wider) (first : Nat) :
    wider.findings config home (Node.eventsOf first siblings) =
      (scope.findings config home (Node.eventsOf first siblings)).filter
        fun d => d.missing ∉ added := by
  induction siblings generalizing scope wider first with
  | nil => rfl
  | cons child rest induction =>
      have here := below child List.mem_cons_self covers
      have later := induction (fun other member =>
        below other (List.mem_cons_of_mem _ member))
        (fun other member => free other (List.mem_cons_of_mem _ member))
        (covers.along config home (free child List.mem_cons_self)) (first + 1)
      rw [findings_eventsOf_cons, findings_eventsOf_cons, List.filter_append,
        here, later]

/-- From a scope that covers another one, the walk of a tree without macros
finds the same, but for the added names. -/
theorem Covers.findings_events (covers : Covers added scope wider) {node : Node}
    (free : node.MacroFree) :
    wider.findings config home node.events =
      (scope.findings config home node.events).filter fun d =>
        d.missing ∉ added := by
  induction node using Node.induction_on_children generalizing scope wider with
  | step node induction =>
      obtain ⟨noMacro, freeBelow⟩ := Node.macroFree_iff.mp free
      have below := Covers.findings_siblings
        (fun child member _ _ covers =>
          induction child member covers (freeBelow child member))
        freeBelow (covers.entering config home noMacro) 0
      rw [Scope.findings_events, Scope.findings_events, List.filter_append,
        below, covers.found_eq, Option.toList_filter]

theorem Covers.findings_eventsOf (covers : Covers added scope wider)
    {siblings : List Node} (free : ∀ child ∈ siblings, child.MacroFree)
    (first : Nat) :
    wider.findings config home (Node.eventsOf first siblings) =
      (scope.findings config home (Node.eventsOf first siblings)).filter
        fun d => d.missing ∉ added :=
  Covers.findings_siblings
    (fun child member _ _ covers => covers.findings_events (free child member))
    free covers first

theorem findings_eventsOf_place (scope : Scope) (siblings : List Node)
    (first other : Nat) :
    scope.findings config home (Node.eventsOf first siblings) =
      scope.findings config home (Node.eventsOf other siblings) := by
  induction siblings generalizing scope first other with
  | nil => rfl
  | cons child rest induction =>
      rw [findings_eventsOf_cons, findings_eventsOf_cons,
        induction _ (first + 1) (other + 1)]

end Along

end Scope

/-! ## Adding parameters and statements -/

theorem parameterNames_insert (front back : List Node) {param : Node}
    {name : String} (called : param.shape.called? = some (some name)) :
    (∀ kind, parameterNames (front ++ back) = .error kind →
      parameterNames (front ++ param :: back) = .error kind) ∧
    ∀ names, parameterNames (front ++ back) = .ok names →
      ∃ more, parameterNames (front ++ param :: back) = .ok more ∧
        ∀ other, other ∈ more ↔ other ∈ names ∨ other = some name := by
  induction front with
  | nil =>
      rw [List.nil_append, List.nil_append, parameterNames, called]
      constructor
      · intro kind failed
        rw [failed]
        rfl
      · intro names given
        refine ⟨some name :: names, by rw [given]; rfl, ?_⟩
        intro other
        rw [List.mem_cons, or_comm]
  | cons head rest induction =>
      obtain ⟨fails, succeeds⟩ := induction
      rw [List.cons_append, List.cons_append, parameterNames, parameterNames]
      cases head.shape.called? with
      | none =>
          constructor
          · exact fun _ failed => failed
          · intro names given
            cases given
      | some headName =>
          cases result : parameterNames (rest ++ back) with
          | error kind =>
              constructor
              · intro other failed
                cases failed
                rw [fails kind result]
                rfl
              · intro names given
                cases given
          | ok names =>
              obtain ⟨more, moreEq, members⟩ := succeeds names result
              constructor
              · intro kind failed
                cases failed
              · intro all given
                obtain rfl := Except.ok.inj given
                refine ⟨headName :: more, by rw [moreEq]; rfl, ?_⟩
                intro other
                rw [List.mem_cons, List.mem_cons, members, or_assoc]

namespace Checker

variable {checker : Checker}

variable (checker) in
/-- Both nodes mean the same to the checker, whatever is below them. -/
def TreatsAlike (node other : Node) : Prop :=
  ∀ hook scope, checker.visitor.react hook scope other =
    checker.visitor.react hook scope node

theorem TreatsAlike.of_finding {node other : Node}
    (role : other.role checker.config = node.role checker.config)
    (finding : ∀ scope : Scope,
      scope.finding? checker.config other =
        scope.finding? checker.config node) :
    checker.TreatsAlike node other := by
  have entered : ∀ scope : Scope,
      checker.enter scope other = checker.enter scope node := by
    intro scope
    rw [enter, enter, role, finding]
  have left : ∀ scope : Scope,
      checker.leave scope other = checker.leave scope node := by
    intro scope
    rw [leave, leave, role]
  intro hook
  cases hook with
  | enter => exact entered
  | leave => exact left

theorem TreatsAlike.of_role {node other : Node}
    (role : other.role checker.config = node.role checker.config)
    (noReference : ∀ name, node.role checker.config ≠ .reference name) :
    checker.TreatsAlike node other := by
  apply TreatsAlike.of_finding role
  intro scope
  rw [Scope.finding?_of_not_reference noReference]
  apply Scope.finding?_of_not_reference
  rw [role]
  exact noReference

theorem TreatsAlike.step_entering {node other : Node}
    (alike : checker.TreatsAlike node other) (scope : Scope) :
    scope.step checker.config checker.home other.entering =
      scope.step checker.config checker.home node.entering := by
  have state := checker.state_react scope node.entering
  have otherState := checker.state_react scope other.entering
  rw [← state, ← otherState]
  exact congrArg Reaction.state (alike .enter scope)

theorem smooth_siblings_quiet (accepts : ∀ d, (checker.report d).refusal = none)
    {siblings : List Node} (quiet : ∀ child ∈ siblings, child.Quiet)
    (scope : Scope) (first : Nat) :
    checker.visitor.Smooth scope (Node.eventsOf first siblings) := by
  apply Visitor.smooth_eventsOf
  intro child member
  have calm := quiet child member
  exact smooth_of_fit accepts calm.plainParameters
    calm.templateFree.blocksTemplateFree

/-- More children without macros and templates let no walk fail. -/
theorem TreatsAlike.smooth_insert
    (accepts : ∀ d, (checker.report d).refusal = none) {node other : Node}
    (alike : checker.TreatsAlike node other) (before : List Node)
    {extra : List Node} (quiet : ∀ child ∈ extra, child.Quiet) (scope : Scope) :
    checker.visitor.Smooth scope
        (other.entering :: Node.eventsOf 0 (before ++ extra)) ↔
      checker.visitor.Smooth scope
        (node.entering :: Node.eventsOf 0 before) := by
  have fine := smooth_siblings_quiet accepts quiet
  have same := alike .enter scope
  rw [Node.eventsOf_append]
  change (checker.visitor.react .enter scope other).reply = .keep ∧
    checker.visitor.Smooth
      (checker.visitor.react .enter scope other).state _ ↔ _
  rw [same]
  exact and_congr_right fun _ =>
    Visitor.smooth_append.trans (and_iff_left (fine _ _))

theorem TreatsAlike.along_insert {node other : Node}
    (alike : checker.TreatsAlike node other) {before extra : List Node}
    (quiet : ∀ child ∈ extra, child.Quiet) {scope : Scope}
    (unasked : ∀ id ∈
      (scope.step checker.config checker.home node.entering).guarded,
      ∀ child ∈ extra, id ∉ child.asked checker.config) :
    scope.along checker.config checker.home
        (other.entering :: Node.eventsOf 0 (before ++ extra)) =
      (scope.along checker.config checker.home
          (node.entering :: Node.eventsOf 0 before)).declare
        (extra.flatMap (Node.bindings checker.config)) := by
  rw [Scope.along_cons, Scope.along_cons, alike.step_entering,
    Node.eventsOf_append, Scope.along_append]
  apply Scope.along_siblings_eq quiet
  intro id member
  exact unasked id (Scope.along_eventsOf_guarded_subset before _ 0 member)

/-- The second node has some more children than the first, which hold neither
macros nor templates and ask for no guarded node.  What comes after them finds
the same in both, but for the names that these children bind. -/
theorem findingsAfter_insert (collects : checker.Collects)
    (accepts : ∀ d, (checker.report d).refusal = none) {node other : Node}
    (alike : checker.TreatsAlike node other) {before extra after : List Node}
    (children : node.children = before ++ after)
    (otherChildren : other.children = before ++ extra ++ after)
    (free : ∀ child ∈ after, child.MacroFree)
    (quiet : ∀ child ∈ extra, child.Quiet) {scope : Scope}
    (unasked : ∀ id ∈
      (scope.step checker.config checker.home node.entering).guarded,
      ∀ child ∈ extra, id ∉ child.asked checker.config) :
    (checker.visitor.passFrom scope other).findingsAfter
        (other.entering :: Node.eventsOf 0 (before ++ extra)).length =
      ((checker.visitor.passFrom scope node).findingsAfter
        (node.entering :: Node.eventsOf 0 before).length).filter
          fun d => d.missing ∉ Node.boundNames checker.config extra := by
  apply findingsAfter_filter collects accepts (Node.events_of_children children)
    (Node.events_of_children otherChildren)
  · exact Node.MacroFree.enterNoMacro_below free _ node
  · exact Node.MacroFree.enterNoMacro_below free _ other
  · exact alike.smooth_insert accepts before quiet scope
  · have leaves : ∀ (later : Scope) (left : Node),
        later.findings checker.config checker.home [left.leaving] = [] :=
      fun _ _ => rfl
    rw [alike.along_insert quiet unasked, Scope.findings_append,
      Scope.findings_append, leaves, leaves, List.append_nil, List.append_nil,
      Scope.findings_eventsOf_place _ after _ before.length]
    exact (Scope.Covers.inside (.declare _ extra)).findings_eventsOf free
      before.length

/-- A parameter is no more than a name of its macro. -/
theorem events_of_parameter {param : Node} {name : String}
    {typing : Option String} (isParam : param.shape = .parameter name typing) :
    param.MacroFree ∧ ∀ (config : Config) (home : String) (scope : Scope),
      scope.along config home param.events = scope ∧
        scope.findings config home param.events = [] := by
  have noChildren : param.children = [] := by
    rw [Node.children, isParam]
    rfl
  have role : ∀ config, param.role config = .plain := by
    intro config
    rw [Node.role, isParam]
  constructor
  · apply Node.macroFree_iff.mpr
    constructor
    · intro isDefinition
      rw [Node.kind, isParam] at isDefinition
      cases isDefinition
    · intro child member
      rw [noChildren] at member
      cases member
  · intro config home scope
    have noReference : ∀ name, param.role config ≠ .reference name := by
      rw [role]
      exact fun _ => Role.noConfusion
    have found : scope.found config home param.entering = none :=
      Scope.finding?_of_not_reference noReference _
    have entered : scope.step config home param.entering = scope := by
      simp [Scope.step, Node.entering, role, Scope.enter]
    have left : scope.step config home param.leaving = scope := by
      simp [Scope.step, Node.leaving, role, Scope.leave]
    constructor
    · rw [Scope.along_events, noChildren, entered, Node.eventsOf_nil,
        Scope.along_nil, left]
    · rw [Scope.findings_events, noChildren, found]
      rfl

theorem findings_insert_parameter_node {config : Config} {home : String}
    {param : Node} {name : String} {typing : Option String}
    (isParam : param.shape = .parameter name typing) (scope : Scope)
    (front tail : List Node) (first : Nat) :
    scope.findings config home (Node.eventsOf first (front ++ param :: tail)) =
      scope.findings config home (Node.eventsOf first (front ++ tail)) := by
  obtain ⟨_, idle⟩ := events_of_parameter isParam
  obtain ⟨unchanged, nothing⟩ := idle config home
    (scope.along config home (Node.eventsOf first front))
  rw [Node.eventsOf_append, Node.eventsOf_append, Scope.findings_append,
    Scope.findings_append, Scope.findings_eventsOf_cons, unchanged, nothing,
    List.nil_append,
    Scope.findings_eventsOf_place _ tail _ (first + front.length)]

/-- A macro with one more parameter can be entered if the macro without it can,
and then its scope is wider by that name. -/
theorem entering_insert_parameter {config : Config} {home : String}
    {node other param : Node} {title name : String}
    {front back body defaults : List Node} {rest named typing : Option String}
    (shape : node.shape =
      .definition title (front ++ back) body defaults rest named)
    (otherShape : other.shape =
      .definition title (front ++ param :: back) body defaults rest named)
    (isParam : param.shape = .parameter name typing) (scope : Scope) :
    (other.role config).fault? = (node.role config).fault? ∧
      ((node.role config).fault? = none → Scope.Widens {name}
        (scope.enter home (node.role config))
        (scope.enter home (other.role config))) := by
  have called : param.shape.called? = some (some name) := by
    rw [isParam]
    rfl
  obtain ⟨fails, succeeds⟩ := parameterNames_insert front back called
  cases result : parameterNames (front ++ back) with
  | error kind =>
      simp [Node.role, shape, otherShape, result, fails kind result, Except.map,
        Role.fault?]
  | ok names =>
      obtain ⟨more, moreEq, members⟩ := succeeds names result
      have role : node.role config =
          .definition title
            (.ok (names ++ catchAll rest ++ catchAll named)) := by
        simp [Node.role, shape, result, Except.map]
      have otherRole : other.role config =
          .definition title
            (.ok (more ++ catchAll rest ++ catchAll named)) := by
        simp [Node.role, otherShape, moreEq, Except.map]
      rw [role, otherRole]
      refine ⟨rfl, ?_⟩
      intro _
      apply Scope.Widens.of_mem_names_iff
      · rfl
      · rfl
      · exact fun _ => Iff.rfl
      · intro word
        simp only [Scope.enter, Scope.enterMacro, List.mem_append, members,
          Option.some.injEq, Finset.mem_singleton, or_right_comm]

/-- One more parameter takes the findings about it away from a macro that holds
no other macro. -/
theorem findings_insert_parameter (collects : checker.Collects)
    (accepts : ∀ d, (checker.report d).refusal = none) {node other param : Node}
    {title name : String} {front back body defaults : List Node}
    {rest named typing : Option String}
    (shape : node.shape =
      .definition title (front ++ back) body defaults rest named)
    (otherShape : other.shape =
      .definition title (front ++ param :: back) body defaults rest named)
    (isParam : param.shape = .parameter name typing)
    (free : ∀ child ∈ node.children, child.MacroFree) (scope : Scope) :
    (checker.visitor.passFrom scope other).journal.findings =
      (checker.visitor.passFrom scope node).journal.findings.filter
        fun d => d.missing ∉ ({name} : Finset String) := by
  have children : node.children = front ++ (back ++ body ++ defaults) := by
    rw [Node.children, shape]
    simp [Shape.parts]
  have otherChildren :
      other.children = front ++ param :: (back ++ body ++ defaults) := by
    rw [Node.children, otherShape]
    simp [Shape.parts]
  have otherFree : ∀ child ∈ other.children, child.MacroFree := by
    rw [children] at free
    intro child member
    rw [otherChildren, List.mem_append, List.mem_cons] at member
    rcases member with inFront | rfl | inTail
    · exact free child (List.mem_append_left _ inFront)
    · exact (events_of_parameter isParam).1
    · exact free child (List.mem_append_right _ inTail)
  obtain ⟨sameFault, widens⟩ :=
    entering_insert_parameter shape otherShape isParam scope
  have isDefinition : node.kind = .definition := congrArg Shape.kind shape
  have otherIsDefinition : other.kind = .definition :=
    congrArg Shape.kind otherShape
  rw [findings_passFrom_of_definition collects accepts isDefinition free scope,
    findings_passFrom_of_definition collects accepts otherIsDefinition otherFree
      scope, sameFault]
  split
  · rename_i noFault
    rw [children] at free ⊢
    rw [otherChildren, findings_insert_parameter_node isParam]
    exact (Scope.Covers.inside (widens noFault)).findings_eventsOf free 0
  · rfl

/-- Widening the scope takes from the findings in a tree without macros those
about the names that it adds. -/
theorem findings_passFrom_widens (collects : checker.Collects)
    (accepts : ∀ d, (checker.report d).refusal = none) {node : Node}
    {scope wider : Scope} {added : Finset String} (free : node.MacroFree)
    (widens : scope.Widens added wider) :
    (checker.visitor.passFrom wider node).journal.findings =
      (checker.visitor.passFrom scope node).journal.findings.filter
        fun d => d.missing ∉ added := by
  have found := findings_passFrom_of_macroFree collects accepts free scope
  have widerFound := findings_passFrom_of_macroFree collects accepts free wider
  have covers : wider.findings checker.config checker.home node.events = _ :=
    (Scope.Covers.inside widens).findings_events free
  exact widerFound.trans (covers.trans (congrArg (List.filter _) found.symm))

/-- A binding in the body of a macro takes the findings about its names away
behind it, if the macro holds no other macro. -/
theorem findingsAfter_insert_statement (collects : checker.Collects)
    (accepts : ∀ d, (checker.report d).refusal = none)
    {node other binding : Node} {title : String}
    {params before after defaults : List Node} {rest named : Option String}
    {scope : Scope}
    (shape : node.shape =
      .definition title params (before ++ after) defaults rest named)
    (otherShape : other.shape =
      .definition title params (before ++ binding :: after) defaults rest named)
    (free : ∀ child ∈ node.children, child.MacroFree) (quiet : binding.Quiet)
    (unasked : ∀ id ∈ scope.guarded, id ∉ binding.asked checker.config) :
    (checker.visitor.passFrom scope other).findingsAfter
        (other.entering ::
          Node.eventsOf 0 (params ++ before ++ [binding])).length =
      ((checker.visitor.passFrom scope node).findingsAfter
        (node.entering :: Node.eventsOf 0 (params ++ before)).length).filter
          fun d => d.missing ∉ Node.boundNames checker.config [binding] := by
  have role : other.role checker.config = node.role checker.config := by
    rw [Node.role, Node.role, shape, otherShape]
  have noReference : ∀ name, node.role checker.config ≠ .reference name := by
    rw [Node.role, shape]
    exact fun _ => Role.noConfusion
  have noGuard : ∀ subject, node.role checker.config ≠ .guard subject := by
    rw [Node.role, shape]
    exact fun _ => Role.noConfusion
  have children :
      node.children = (params ++ before) ++ (after ++ defaults) := by
    rw [Node.children, shape]
    simp [Shape.parts]
  have otherChildren :
      other.children =
        (params ++ before) ++ [binding] ++ (after ++ defaults) := by
    rw [Node.children, otherShape]
    simp [Shape.parts]
  have alike : checker.TreatsAlike node other := .of_role role noReference
  apply findingsAfter_insert collects accepts alike children otherChildren
  · intro child member
    apply free
    rw [children]
    exact List.mem_append_right _ member
  · intro child member
    rw [List.mem_singleton.mp member]
    exact quiet
  · intro id member child childMember
    rw [List.mem_singleton.mp childMember]
    exact unasked id (Scope.step_entering_guarded_subset noGuard scope member)

/-- In trees without macros a wider scope finds the same, but for the names that
it has more, whatever the order, the repetitions and the frames in both scopes
are.  In particular a macro without other macros loses the findings about a
parameter that it gets, and behind a new binding those about the names that it
binds. -/
theorem findings_widens (config : Config) (title : Option String) :
    let visitor := visitor { config, title }
    (∀ (node : Node) (scope wider : Scope) (added : Finset String),
      node.MacroFree → scope.Widens added wider →
      (visitor.passFrom wider node).journal.findings =
        (visitor.passFrom scope node).journal.findings.filter fun d =>
          d.missing ∉ added) ∧
    (∀ (node : Node) (scope other : Scope),
      node.MacroFree → other.inMacro = scope.inMacro →
      other.template = scope.template →
      (∀ id, id ∈ other.guarded ↔ id ∈ scope.guarded) →
      other.declaredNames = scope.declaredNames →
      (visitor.passFrom other node).journal.findings =
        (visitor.passFrom scope node).journal.findings) ∧
    (∀ (node other param : Node) (macroTitle name : String)
      (front back body defaults : List Node)
      (rest named typing : Option String) (scope : Scope),
      node.shape =
        .definition macroTitle (front ++ back) body defaults rest named →
      other.shape = .definition macroTitle (front ++ param :: back) body
        defaults rest named →
      param.shape = .parameter name typing →
      (∀ child ∈ node.children, child.MacroFree) →
      (visitor.passFrom scope other).journal.findings =
        (visitor.passFrom scope node).journal.findings.filter
          fun d => d.missing ∉ ({name} : Finset String)) ∧
    ∀ (node other binding : Node) (macroTitle : String)
      (params before after defaults : List Node)
      (rest named : Option String) (scope : Scope),
      node.shape =
        .definition macroTitle params (before ++ after) defaults rest named →
      other.shape =
        .definition macroTitle params (before ++ binding :: after) defaults
          rest named →
      (∀ child ∈ node.children, child.MacroFree) → binding.Quiet →
      (∀ id ∈ scope.guarded, id ∉ binding.asked config) →
      (visitor.passFrom scope other).findingsAfter
          (other.entering ::
            Node.eventsOf 0 (params ++ before ++ [binding])).length =
        ((visitor.passFrom scope node).findingsAfter
          (node.entering :: Node.eventsOf 0 (params ++ before)).length).filter
            fun d => d.missing ∉ Node.boundNames config [binding] := by
  intro visitor
  let checker : Checker := { config, title }
  have collects : checker.Collects := fun _ => rfl
  have accepts : ∀ d, (checker.report d).refusal = none := fun _ => rfl
  refine ⟨?_, ?_, ?_, ?_⟩
  · intro node scope wider added free widens
    exact findings_passFrom_widens collects accepts free widens
  · intro node scope other free inMacro template guarded names
    have widens : scope.Widens ∅ other :=
      ⟨inMacro, template, guarded, by rw [names, Finset.union_empty]⟩
    have found := findings_passFrom_widens collects accepts free widens
    simp only [Finset.notMem_empty, not_false_eq_true, decide_true,
      List.filter_true] at found
    exact found
  · intro node other param macroTitle name front back body defaults rest named
      typing scope shape otherShape isParam free
    exact findings_insert_parameter collects accepts shape otherShape isParam
      free scope
  · intro node other binding macroTitle params before after defaults rest named
      scope shape otherShape free quiet unasked
    exact findingsAfter_insert_statement collects accepts shape otherShape free
      quiet unasked

/-- A loop over what it binds, that reads its own name, its state and two names
from outside, one of them once more behind a test whether it is defined. -/
def ranking : Node :=
  ⟨1, ⟨2, 0⟩, .loop .plain ⟨2, ⟨2, 7⟩, .name "player" "store"⟩
      ⟨3, ⟨2, 17⟩, .name "players" "load"⟩
    [⟨4, ⟨3, 2⟩, .name "rank" "load"⟩, ⟨5, ⟨4, 2⟩, .name "loop" "load"⟩,
     ⟨6, ⟨5, 2⟩, .assign .plain ⟨7, ⟨5, 9⟩, .name "rank" "store"⟩
       ⟨8, ⟨5, 16⟩, .name "player" "load"⟩⟩,
     ⟨9, ⟨6, 2⟩, .test ⟨10, ⟨6, 2⟩, .name "best" "load"⟩ "defined" [] false⟩]
    [⟨11, ⟨7, 2⟩, .name "rank" "load"⟩, ⟨12, ⟨8, 2⟩, .name "best" "load"⟩]
    (some ⟨13, ⟨2, 28⟩, .name "player" "load"⟩)⟩

/-- A macro around the loop, with some parameters and with some statements
before the loop. -/
def standings (params statements : List Node) : Node :=
  ⟨0, ⟨1, 0⟩,
    .definition "standings" params (statements ++ [ranking]) [] none none⟩

theorem findings_widens_ranking :
    let narrow : Scope :=
      ⟨some "standings", [none, some "players"], [⟨7, 2⟩], [10, 12], "page"⟩
    let wide : Scope :=
      ⟨some "standings", [some "rank", some "players", none, some "rank"], [],
        [12, 10], "page"⟩
    let jumbled : Scope :=
      ⟨some "standings", [some "players", none, some "players"], [⟨0, 9⟩],
        [12, 10], "page"⟩
    let players : Node := ⟨20, ⟨1, 10⟩, .parameter "players" none⟩
    let best : Node := ⟨21, ⟨1, 19⟩, .capture "best" [] none⟩
    (((visitor {}).passFrom narrow ranking).journal.findings.map (·.missing) =
      ["rank"] ∧
      ((visitor {}).passFrom wide ranking).journal.findings =
        ((visitor {}).passFrom narrow ranking).journal.findings.filter
          fun d => d.missing ∉ ({"rank"} : Finset String)) ∧
    ((visitor {}).passFrom jumbled ranking).journal.findings =
      ((visitor {}).passFrom narrow ranking).journal.findings ∧
    (((visitor {}).pass (standings [] [])).journal.findings.map (·.missing) =
        ["players", "rank", "best"] ∧
      ((visitor {}).pass (standings [players] [])).journal.findings =
        ((visitor {}).pass (standings [] [])).journal.findings.filter
          fun d => d.missing ∉ ({"players"} : Finset String)) ∧
    ((visitor {}).pass (standings [] [best])).findingsAfter
        (Event.mk ⟨[], standings [] [best]⟩ .enter ::
          Node.eventsOf 0 [best]).length =
      (((visitor {}).pass (standings [] [])).findingsAfter
        [Event.mk ⟨[], standings [] []⟩ .enter].length).filter
          fun d => d.missing ∉ Node.boundNames {} [best] := by
  intro narrow wide jumbled players best
  obtain ⟨wider, jumbles, parameter, statement⟩ := findings_widens {} none
  have free : ∀ child ∈ (standings [] []).children, child.MacroFree := by
    decide +kernel
  refine ⟨⟨by decide +kernel, ?_⟩, ?_, ⟨by decide +kernel, ?_⟩, ?_⟩
  · apply wider ranking narrow wide
    · decide +kernel
    · refine ⟨rfl, rfl, ?_, by decide⟩
      intro id
      simp [narrow, wide, or_comm]
  · apply jumbles ranking narrow jumbled
    · decide +kernel
    · rfl
    · rfl
    · intro id
      simp [narrow, jumbled, or_comm]
    · decide
  · exact parameter (standings [] []) (standings [players] []) players
      "standings" "players" [] [] [ranking] [] none none none _ rfl rfl rfl free
  · apply statement (standings [] []) (standings [] [best]) best "standings" []
      [] [ranking] [] none none _ rfl rfl free
    · decide +kernel
    · intro id member
      cases member

end Checker

end ScopeLint
