import ScopeLint.Checker
import ScopeLint.Proofs.Course

/-!
# Scopes along a walk

What the checker's scope is after some events does not depend on where its
findings go.  `Scope.along` is that scope, and `Scope.findings` are the
findings on the way.  The rest of the module says what the walk of a whole
subtree does to a scope: it ends outside all macros if it meets a macro or a
template, it gives the frames back if it meets no template, and otherwise it
does nothing but add the names of its lasting bindings.
-/

namespace ScopeLint

namespace Kind

/-- Loops and lambdas, whose names end with them. -/
def isBlock : Kind → Bool
  | loop | asyncLoop | lambda => true
  | _ => false

/-- Statements whose names last for the rest of the macro. -/
def isBinding : Kind → Bool
  | assignSet | assignLet | assignExport | capture | importModule
  | importNames => true
  | _ => false

/-- Macros and templates, which forget the names before them. -/
def isStart : Kind → Bool
  | definition | template => true
  | _ => false

theorem isStart_eq_false {kind : Kind} :
    kind.isStart = false ↔ kind ≠ .definition ∧ kind ≠ .template := by
  cases kind <;> simp [isStart]

theorem start_cases (kind : Kind) :
    kind.isStart = false ∨ kind = .definition ∨ kind = .template := by
  cases kind <;> simp [isStart]

theorem isStart_of_isBlock {kind : Kind} (block : kind.isBlock = true) :
    kind.isStart = false := by
  cases kind <;> simp_all [isBlock, isStart]

theorem isBinding_of_isBlock {kind : Kind} (block : kind.isBlock = true) :
    kind.isBinding = false := by
  cases kind <;> simp_all [isBlock, isBinding]

end Kind

/-- The parameters of a macro. -/
def Shape.params {α : Type} : Shape α → List α
  | .definition _ params .. => params
  | _ => []

namespace Node

theorem shape_of_name {node : Node} (isName : node.kind = .name) :
    ∃ word usage, node.shape = .name word usage := by
  obtain ⟨id, position, shape⟩ := node
  cases shape with
  | name word usage => exact ⟨word, usage, rfl⟩
  | loop mode => cases mode <;> cases isName
  | assign form => cases form <;> cases isName
  | _ => cases isName

theorem shape_of_test {node : Node} (isTest : node.kind = .test) :
    ∃ subject title args negated,
      node.shape = .test subject title args negated := by
  obtain ⟨id, position, shape⟩ := node
  cases shape with
  | test subject title args negated =>
      exact ⟨subject, title, args, negated, rfl⟩
  | loop mode => cases mode <;> cases isTest
  | assign form => cases form <;> cases isTest
  | _ => cases isTest

theorem shape_of_template {node : Node} (isTemplate : node.kind = .template) :
    ∃ body title, node.shape = .template body title := by
  obtain ⟨id, position, shape⟩ := node
  cases shape with
  | template body title => exact ⟨body, title, rfl⟩
  | loop mode => cases mode <;> cases isTemplate
  | assign form => cases form <;> cases isTemplate
  | _ => cases isTemplate

theorem shape_of_parameter {node : Node}
    (isParameter : node.kind = .parameter) :
    ∃ title typing, node.shape = .parameter title typing := by
  obtain ⟨id, position, shape⟩ := node
  cases shape with
  | parameter title typing => exact ⟨title, typing, rfl⟩
  | loop mode => cases mode <;> cases isParameter
  | assign form => cases form <;> cases isParameter
  | _ => cases isParameter

theorem shape_of_definition {node : Node}
    (isDefinition : node.kind = .definition) :
    ∃ title params body defaults rest named, node.shape =
      .definition title params body defaults rest named := by
  obtain ⟨id, position, shape⟩ := node
  cases shape with
  | definition title params body defaults rest named =>
      exact ⟨title, params, body, defaults, rest, named, rfl⟩
  | loop mode => cases mode <;> cases isDefinition
  | assign form => cases form <;> cases isDefinition
  | _ => cases isDefinition

/-- The names that a node introduces, none if it cannot be entered. -/
def declared (config : Config) (node : Node) : List (Option String) :=
  match (node.role config).declares with
  | .ok names => names
  | .error _ => []

/-- The names of all lasting bindings in a tree. -/
def bindings (config : Config) (node : Node) : List (Option String) :=
  node.nodes.flatMap fun inner =>
    if inner.kind.isBinding then inner.declared config else []

/-- What the role of a node says about its kind. -/
theorem kind_of_role (config : Config) (node : Node) :
    match node.role config with
    | .template _ => node.kind = .template
    | .definition .. => node.kind = .definition
    | .block _ => node.kind.isBlock = true
    | .binding _ => node.kind.isBinding = true
    | .guard _ => node.kind = .test
    | .reference _ => node.kind = .name
    | .plain =>
      node.kind.isStart = false ∧ node.kind.isBlock = false ∧
      node.kind.isBinding = false := by
  obtain ⟨id, position, shape⟩ := node
  cases shape with
  | loop mode => cases mode <;> rfl
  | assign form => cases form <;> rfl
  | name word usage =>
      by_cases read : isRead usage
      · simp [role, read, kind, Shape.kind]
      · simp [role, read, kind, Shape.kind, Kind.isStart, Kind.isBlock,
          Kind.isBinding]
  | test subject title =>
      obtain ⟨subjectId, subjectPosition, subjectShape⟩ := subject
      cases subjectShape with
      | name word usage =>
          by_cases asked : title = "defined"
          · simp [role, asked, kind, Shape.kind]
          · simp [role, asked, kind, Shape.kind, Kind.isStart, Kind.isBlock,
              Kind.isBinding]
      | _ => exact ⟨rfl, rfl, rfl⟩
  | template | definition | lambda | capture | importModule | importNames => rfl
  | _ => exact ⟨rfl, rfl, rfl⟩

theorem role_of_block {config : Config} {node : Node}
    (isBlock : node.kind.isBlock = true) :
    ∃ names, node.role config = .block names := by
  have fits := node.kind_of_role config
  cases role : node.role config with
  | block names => exact ⟨names, rfl⟩
  | binding names =>
      rw [role] at fits
      rw [Kind.isBinding_of_isBlock isBlock] at fits
      cases fits
  | _ => simp_all [Kind.isBlock]

theorem role_of_guard {config : Config} {node subject : Node} {args : List Node}
    {negated : Bool} (shape : node.shape = .test subject "defined" args negated)
    (isName : subject.kind = .name) :
    node.role config = .guard subject.id := by
  obtain ⟨word, usage, subjectShape⟩ := shape_of_name isName
  simp [role, shape, subjectShape]

theorem shape_of_guard {config : Config} {node : Node} {id : Nat}
    (guards : node.role config = .guard id) :
    ∃ subject args negated, node.shape = .test subject "defined" args negated ∧
      subject.kind = .name ∧ subject.id = id := by
  have isTest := node.kind_of_role config
  rw [guards] at isTest
  obtain ⟨subject, title, args, negated, shape⟩ := shape_of_test isTest
  cases subjectShape : subject.shape with
  | name word usage =>
      by_cases asked : title = "defined"
      · subst asked
        have isName : subject.kind = .name := congrArg Shape.kind subjectShape
        refine ⟨subject, args, negated, shape, isName, ?_⟩
        simpa [role, shape, subjectShape] using guards
      · simp [role, shape, subjectShape, asked] at guards
  | _ => simp [role, shape, subjectShape] at guards

theorem declared_of_plain {config : Config} {node : Node}
    (noStart : node.kind.isStart = false) (noBlock : node.kind.isBlock = false)
    (noBinding : node.kind.isBinding = false) :
    node.declared config = [] := by
  have fits := node.kind_of_role config
  cases role : node.role config with
  | definition title inputs => simp_all [Kind.isStart]
  | block names => simp_all
  | binding names => simp_all
  | _ => simp [declared, role, Role.declares]

theorem bindings_eq (config : Config) (node : Node) :
    node.bindings config =
      (if node.kind.isBinding then node.declared config else []) ++
        node.children.flatMap (bindings config) := by
  rw [bindings, nodes_eq, List.flatMap_cons, List.flatMap_assoc]
  rfl

/-- There is neither a macro nor a template in the tree. -/
def Quiet (node : Node) : Prop :=
  ∀ inner ∈ node.nodes, inner.kind.isStart = false

instance (node : Node) : Decidable node.Quiet :=
  inferInstanceAs (Decidable (∀ inner ∈ node.nodes, inner.kind.isStart = false))

theorem quiet_iff {node : Node} :
    node.Quiet ↔
      node.kind.isStart = false ∧ ∀ child ∈ node.children, child.Quiet :=
  forall_mem_nodes_iff

theorem forall_occurrences_iff {node : Node} :
    (∀ occurrence ∈ node.occurrences, occurrence.node.kind.isStart = false) ↔
      node.Quiet := by
  rw [Quiet, ← node.map_node_occurrences, List.forall_mem_map]

theorem forall_entered_eventsOf_iff {siblings : List Node} {first : Nat} :
    (∀ occurrence ∈ Event.entered (eventsOf first siblings),
      occurrence.node.kind.isStart = false) ↔
        ∀ child ∈ siblings, child.Quiet := by
  have nodes :
      (∀ node ∈ (Event.entered (eventsOf first siblings)).map Occurrence.node,
        node.kind.isStart = false) ↔ _ := List.forall_mem_map
  rw [← nodes,
    map_node_entered_eventsOf (fun child _ => child.map_node_occurrences),
    List.forall_mem_flatMap]
  rfl

def TemplateFree (node : Node) : Prop :=
  ∀ inner ∈ node.nodes, inner.kind ≠ .template

instance (node : Node) : Decidable node.TemplateFree :=
  inferInstanceAs (Decidable (∀ inner ∈ node.nodes, inner.kind ≠ .template))

theorem templateFree_iff {node : Node} :
    node.TemplateFree ↔
      node.kind ≠ .template ∧ ∀ child ∈ node.children, child.TemplateFree :=
  forall_mem_nodes_iff

/-- Every parameter of a macro in the tree is one by its kind. -/
def PlainParameters (node : Node) : Prop :=
  ∀ inner ∈ node.nodes, ∀ param ∈ inner.shape.params, param.kind = .parameter

instance (node : Node) : Decidable node.PlainParameters :=
  inferInstanceAs (Decidable
    (∀ inner ∈ node.nodes, ∀ param ∈ inner.shape.params,
      param.kind = .parameter))

theorem called?_of_parameter {param : Node}
    (isParameter : param.kind = .parameter) :
    ∃ title, param.shape.called? = some (some title) := by
  obtain ⟨title, typing, shape⟩ := shape_of_parameter isParameter
  exact ⟨title, by rw [shape, Shape.called?]⟩

theorem parameterNames_of_plain {params : List Node}
    (plain : ∀ param ∈ params, param.kind = .parameter) :
    ∃ names : List String, parameterNames params = .ok (names.map some) := by
  induction params with
  | nil => exact ⟨[], rfl⟩
  | cons param rest induction =>
      obtain ⟨names, restEq⟩ := induction fun other member =>
        plain other (List.mem_cons_of_mem _ member)
      obtain ⟨title, called⟩ :=
        called?_of_parameter (plain param List.mem_cons_self)
      refine ⟨title :: names, ?_⟩
      rw [parameterNames, called, restEq]
      rfl

theorem fault?_of_plain {config : Config} {node : Node}
    (plain : ∀ param ∈ node.shape.params, param.kind = .parameter) :
    (node.role config).fault? = none := by
  obtain ⟨id, position, shape⟩ := node
  cases shape with
  | definition title params body defaults rest named =>
      obtain ⟨names, namesEq⟩ :
          ∃ names : List String, parameterNames params = _ :=
        parameterNames_of_plain plain
      simp [role, namesEq, Except.map, Role.fault?]
  | test subject title =>
      obtain ⟨subjectId, subjectPosition, subjectShape⟩ := subject
      cases subjectShape with
      | name word usage => simp only [role]; split <;> rfl
      | _ => rfl
  | name word usage => simp only [role]; split <;> rfl
  | _ => rfl

/-- There is no template below a loop or lambda in the tree. -/
def BlocksTemplateFree (node : Node) : Prop :=
  ∀ inner ∈ node.nodes, inner.kind.isBlock = true →
    ∀ child ∈ inner.children, child.TemplateFree

instance (node : Node) : Decidable node.BlocksTemplateFree :=
  inferInstanceAs (Decidable (∀ inner ∈ node.nodes, inner.kind.isBlock = true →
    ∀ child ∈ inner.children, child.TemplateFree))

theorem TemplateFree.of_mem_nodes {node inner : Node} (free : node.TemplateFree)
    (member : inner ∈ node.nodes) : inner.TemplateFree := by
  intro other inside
  exact free other (mem_nodes_trans member inside)

theorem TemplateFree.blocksTemplateFree {node : Node}
    (free : node.TemplateFree) :
    node.BlocksTemplateFree := by
  intro inner member _ child childMember
  have insideInner := mem_nodes_of_mem_children childMember child.mem_nodes_self
  exact free.of_mem_nodes (mem_nodes_trans member insideInner)

theorem blocksTemplateFree_iff {node : Node} :
    node.BlocksTemplateFree ↔
      (node.kind.isBlock = true → ∀ child ∈ node.children, child.TemplateFree) ∧
        ∀ child ∈ node.children, child.BlocksTemplateFree :=
  forall_mem_nodes_iff

theorem Quiet.templateFree {node : Node} (quiet : node.Quiet) :
    node.TemplateFree := by
  intro inner member
  exact (Kind.isStart_eq_false.mp (quiet inner member)).2

theorem Quiet.plainParameters {node : Node} (quiet : node.Quiet) :
    node.PlainParameters := by
  intro inner member param isParam
  have noDefinition := (Kind.isStart_eq_false.mp (quiet inner member)).1
  cases shape : inner.shape with
  | definition title params body defaults rest named =>
      exact absurd (congrArg Shape.kind shape) noDefinition
  | _ =>
      rw [shape] at isParam
      cases isParam

end Node

namespace Scope

section Along

variable (config : Config) (home : String)

/-- The scope after an event, the same as before if it cannot happen. -/
def step (scope : Scope) (event : Event) : Scope :=
  match event.hook with
  | .enter => scope.enter home (event.node.role config)
  | .leave =>
    match scope.leave (event.node.role config) with
    | .ok left => left
    | .error _ => scope

/-- The scope after events. -/
def along (scope : Scope) (events : List Event) : Scope :=
  events.foldl (step config home) scope

/-- The finding that an event is, if it is one. -/
def found (scope : Scope) (event : Event) : Option Diagnostic :=
  match event.hook with
  | .enter =>
    (scope.enter home (event.node.role config)).finding? config event.node
  | .leave => none

/-- The findings that events lead to. -/
def findings : Scope → List Event → List Diagnostic
  | _, [] => []
  | scope, event :: rest =>
    (scope.found config home event).toList ++
      findings (scope.step config home event) rest

variable {config home}

@[simp] theorem along_nil (scope : Scope) :
    scope.along config home [] = scope := rfl

theorem along_cons (scope : Scope) (event : Event) (rest : List Event) :
    scope.along config home (event :: rest) =
      (scope.step config home event).along config home rest := rfl

theorem along_append (scope : Scope) (first second : List Event) :
    scope.along config home (first ++ second) =
      (scope.along config home first).along config home second :=
  List.foldl_append

theorem along_map_under (scope : Scope) (place : Nat) (events : List Event) :
    scope.along config home (events.map (Event.under place)) =
      scope.along config home events := by
  rw [along, List.foldl_map]
  rfl

theorem along_eventsOf_cons (scope : Scope) (first : Nat) (child : Node)
    (rest : List Node) :
    scope.along config home (Node.eventsOf first (child :: rest)) =
      (scope.along config home child.events).along config home
        (Node.eventsOf (first + 1) rest) := by
  rw [Node.eventsOf_cons, along_append, along_map_under]

theorem along_events (scope : Scope) (node : Node) :
    scope.along config home node.events =
      (((scope.step config home node.entering).along config home
        (Node.eventsOf 0 node.children)).step config home node.leaving) := by
  rw [Node.events_eq, along_cons, along_append]
  rfl

theorem findings_append (scope : Scope) (first second : List Event) :
    scope.findings config home (first ++ second) =
      scope.findings config home first ++
        (scope.along config home first).findings config home second := by
  induction first generalizing scope with
  | nil => rfl
  | cons event rest induction =>
      rw [List.cons_append, findings, findings, induction, List.append_assoc]
      rfl

theorem findings_map_under (scope : Scope) (place : Nat) (events : List Event) :
    scope.findings config home (events.map (Event.under place)) =
      scope.findings config home events := by
  induction events generalizing scope with
  | nil => rfl
  | cons event rest induction =>
      rw [List.map_cons, findings, findings, induction]
      rfl

theorem findings_eventsOf_cons (scope : Scope) (first : Nat) (child : Node)
    (rest : List Node) :
    scope.findings config home (Node.eventsOf first (child :: rest)) =
      scope.findings config home child.events ++
        (scope.along config home child.events).findings config home
          (Node.eventsOf (first + 1) rest) := by
  rw [Node.eventsOf_cons, findings_append, findings_map_under, along_map_under]

theorem findings_events (scope : Scope) (node : Node) :
    scope.findings config home node.events =
      (scope.found config home node.entering).toList ++
        (scope.step config home node.entering).findings config home
          (Node.eventsOf 0 node.children) := by
  have leaving : ∀ later : Scope,
      later.findings config home [node.leaving] = [] := fun _ => rfl
  rw [Node.events_eq, findings, findings_append, leaving, List.append_nil]

/-! ## Single events -/

variable (config home) in
theorem step_entering_template {node : Node}
    (isTemplate : node.kind = .template) (scope : Scope) :
    ∃ template, scope.step config home node.entering = fresh template := by
  have fits := node.kind_of_role config
  cases role : node.role config with
  | template title =>
      exact ⟨templateName title home,
        by simp [step, Node.entering, role, enter]⟩
  | _ => simp_all [Kind.isStart, Kind.isBlock, Kind.isBinding]

variable (config home) in
theorem step_entering_definition {node : Node}
    (isDefinition : node.kind = .definition) (scope : Scope) :
    ∃ title, node.shape.called? = some (some title) ∧
      scope.step config home node.entering =
        { scope with
          inMacro := some title, names := node.declared config } := by
  obtain ⟨title, params, body, defaults, rest, named, shape⟩ :=
    Node.shape_of_definition isDefinition
  refine ⟨title, by rw [shape, Shape.called?], ?_⟩
  cases inputs : parameterNames params with
  | error kind =>
      simp [step, Node.entering, Node.role, Node.declared, Role.declares, enter,
        enterMacro, shape, inputs, Except.map]
  | ok names =>
      simp [step, Node.entering, Node.role, Node.declared, Role.declares, enter,
        enterMacro, shape, inputs, Except.map]

/-- A node that is no start adds its names and, if it is a block, a frame for
them. -/
theorem step_entering_other {node : Node} (isOther : node.kind.isStart = false)
    (scope : Scope) :
    scope.step config home node.entering =
      { scope with
        names := scope.names ++ node.declared config
        frames :=
          if node.kind.isBlock then
            ⟨scope.names.length, (node.declared config).length⟩ :: scope.frames
          else scope.frames
        guarded := (scope.step config home node.entering).guarded } := by
  have fits := node.kind_of_role config
  cases role : node.role config with
  | template title => simp_all [Kind.isStart]
  | definition title inputs => simp_all [Kind.isStart]
  | block names =>
      simp_all [step, Node.entering, Node.declared, Role.declares, enter,
        openBlock]
  | binding names =>
      have noBlock : node.kind.isBlock = false := by
        rw [role] at fits
        revert fits
        cases node.kind <;> simp [Kind.isBinding, Kind.isBlock]
      simp_all [step, Node.entering, Node.declared, Role.declares,
        enter, declare]
  | guard subject =>
      simp_all [step, Node.entering, Node.declared, Role.declares, enter,
        Scope.guard, Kind.isBlock]
  | reference name =>
      simp_all [step, Node.entering, Node.declared, Role.declares, enter,
        Kind.isBlock]
  | plain => simp_all [step, Node.entering, Node.declared, Role.declares, enter]

theorem step_leaving_definition {node : Node}
    (isDefinition : node.kind = .definition) (scope : Scope) :
    scope.step config home node.leaving = { scope with inMacro := none } := by
  have fits := node.kind_of_role config
  cases role : node.role config with
  | definition title inputs =>
      simp [step, Node.leaving, role, leave, leaveMacro]
  | _ => simp_all [Kind.isStart, Kind.isBlock, Kind.isBinding]

theorem leave_block {scope : Scope} (added : List String) {frame : Frame}
    {frames : List Frame} (opened : scope.frames = frame :: frames) :
    scope.leave (.block added) =
      .ok { scope with
        names := scope.names.take frame.start ++
          scope.names.drop (frame.start + frame.count)
        frames } := by
  simp [leave, closeBlock?, opened]

theorem step_leaving_block {node : Node} (isBlock : node.kind.isBlock = true)
    (scope : Scope) {frame : Frame} {frames : List Frame}
    (opened : scope.frames = frame :: frames) :
    scope.step config home node.leaving =
      { scope with
        names := scope.names.take frame.start ++
          scope.names.drop (frame.start + frame.count)
        frames } := by
  obtain ⟨names, role⟩ : ∃ names, node.role config = .block names :=
    Node.role_of_block isBlock
  simp [step, Node.leaving, role, leave_block names opened]

theorem step_leaving_unopened {node : Node} (isBlock : node.kind.isBlock = true)
    (scope : Scope) (unopened : scope.frames = []) :
    scope.step config home node.leaving = scope := by
  obtain ⟨names, role⟩ : ∃ names, node.role config = .block names :=
    Node.role_of_block isBlock
  simp [step, Node.leaving, role, leave, closeBlock?, unopened]

/-- Leaving a node that is neither a macro nor a block touches the guards
only. -/
theorem step_leaving_other {node : Node}
    (noDefinition : node.kind ≠ .definition)
    (noBlock : node.kind.isBlock = false) (scope : Scope) :
    scope.step config home node.leaving =
      { scope with
        guarded := (scope.step config home node.leaving).guarded } := by
  have fits := node.kind_of_role config
  cases role : node.role config with
  | definition title inputs => simp_all
  | block names => simp_all
  | _ => simp [step, Node.leaving, role, leave, unguard]

theorem mem_guard {scope : Scope} {subject id : Nat} :
    id ∈ (scope.guard subject).guarded ↔ id = subject ∨ id ∈ scope.guarded := by
  by_cases known : subject ∈ scope.guarded
  · simp only [Scope.guard, if_pos known]
    constructor
    · exact .inr
    · rintro (rfl | member)
      · exact known
      · exact member
  · simp [Scope.guard, known]

theorem step_entering_guard {node : Node} {subject : Nat}
    (role : node.role config = .guard subject) (scope : Scope) :
    scope.step config home node.entering = scope.guard subject := by
  simp [step, Node.entering, role, enter]

theorem step_entering_guarded_subset {node : Node}
    (noGuard : ∀ subject, node.role config ≠ .guard subject) (scope : Scope) :
    (scope.step config home node.entering).guarded ⊆ scope.guarded := by
  cases role : node.role config with
  | template title => simp [step, Node.entering, role, enter, fresh]
  | definition title inputs =>
      cases inputs <;> simp [step, Node.entering, role, enter, enterMacro]
  | guard subject => exact absurd role (noGuard subject)
  | _ => simp [step, Node.entering, role, enter, openBlock, declare]

theorem step_leaving_guarded (node : Node) (scope : Scope) :
    (scope.step config home node.leaving).guarded =
      match node.role config with
      | .guard subject => scope.guarded.filter (· ≠ subject)
      | _ => scope.guarded := by
  cases role : node.role config with
  | block names =>
      cases frames : scope.frames <;>
        simp [step, Node.leaving, role, leave, closeBlock?, frames]
  | _ => simp [step, Node.leaving, role, leave, leaveMacro, unguard]

/-! ## Whole subtrees -/

private theorem along_eventsOf_quiet {siblings : List Node}
    (below : ∀ child ∈ siblings, ∀ scope : Scope, ∃ guarded,
      scope.along config home child.events =
        { scope with names := scope.names ++ child.bindings config, guarded })
    (scope : Scope) (first : Nat) :
    ∃ guarded, scope.along config home (Node.eventsOf first siblings) =
      { scope with
        names := scope.names ++ siblings.flatMap (Node.bindings config)
        guarded } := by
  induction siblings generalizing scope first with
  | nil => exact ⟨scope.guarded, by simp⟩
  | cons child rest induction =>
      obtain ⟨guarded, childEq⟩ := below child List.mem_cons_self scope
      obtain ⟨later, restEq⟩ := induction
        (fun other member => below other (List.mem_cons_of_mem _ member))
        (scope.along config home child.events) (first + 1)
      refine ⟨later, ?_⟩
      rw [along_eventsOf_cons, restEq, childEq, List.flatMap_cons,
        List.append_assoc]

variable (config home) in
/-- The walk of a tree without macros and templates adds the names of the
lasting bindings in it and, guards apart, does nothing else. -/
theorem along_quiet {node : Node} (quiet : node.Quiet) (scope : Scope) :
    ∃ guarded, scope.along config home node.events =
      { scope with names := scope.names ++ node.bindings config, guarded } := by
  induction node using Node.induction_on_children generalizing scope with
  | step node induction =>
      obtain ⟨isOther, quietBelow⟩ := Node.quiet_iff.mp quiet
      obtain ⟨guarded, belowEq⟩ := along_eventsOf_quiet
        (fun child member => induction child member (quietBelow child member))
        (scope.step config home node.entering) 0
      have entered : scope.step config home node.entering = _ :=
        step_entering_other isOther scope
      have noDefinition := (Kind.isStart_eq_false.mp isOther).1
      rw [along_events, belowEq, entered, Node.bindings_eq]
      by_cases isBlock : node.kind.isBlock
      · have noBinding := Kind.isBinding_of_isBlock isBlock
        rw [step_leaving_block isBlock _ (by rw [if_pos isBlock])]
        exact ⟨guarded, by simp [noBinding]⟩
      · have added :
            (if node.kind.isBinding then node.declared config else []) =
              node.declared config := by
          by_cases isBinding : node.kind.isBinding
          · rw [if_pos isBinding]
          · rw [Node.declared_of_plain isOther (by simpa using isBlock)
              (by simpa using isBinding), ite_self]
        rw [step_leaving_other noDefinition (by simpa using isBlock),
          if_neg isBlock, added, List.append_assoc]
        exact ⟨_, rfl⟩

variable (config home) in
theorem along_siblings_quiet {siblings : List Node}
    (quiet : ∀ child ∈ siblings, child.Quiet) (scope : Scope) (first : Nat) :
    ∃ guarded, scope.along config home (Node.eventsOf first siblings) =
      { scope with
        names := scope.names ++ siblings.flatMap (Node.bindings config)
        guarded } :=
  along_eventsOf_quiet
    (fun child member => along_quiet config home (quiet child member))
    scope first

variable (config home) in
/-- What the walk of one sibling brings about, and the walks of all others
preserve, holds after the walk of all. -/
theorem along_eventsOf_reaches (Holds : Scope → Prop) {siblings : List Node}
    (kept : ∀ child ∈ siblings, ∀ scope : Scope, Holds scope →
      Holds (scope.along config home child.events))
    {scope : Scope}
    (reached : Holds scope ∨ ∃ child ∈ siblings, ∀ scope : Scope,
      Holds (scope.along config home child.events))
    (first : Nat) :
    Holds (scope.along config home (Node.eventsOf first siblings)) := by
  induction siblings generalizing scope first with
  | nil =>
      rcases reached with before | ⟨child, member, _⟩
      · exact before
      · cases member
  | cons child rest induction =>
      rw [along_eventsOf_cons]
      apply induction
      · intro other member
        exact kept other (List.mem_cons_of_mem _ member)
      · rcases reached with before | ⟨other, member, brings⟩
        · exact .inl (kept child List.mem_cons_self scope before)
        · rcases List.mem_cons.mp member with rfl | later
          · exact .inl (brings scope)
          · exact .inr ⟨other, later, brings⟩

variable (config home) in
/-- What the walks of single siblings preserve, the walk of all preserves. -/
theorem along_eventsOf_preserves (Holds : Scope → Prop) {siblings : List Node}
    (below : ∀ child ∈ siblings, ∀ scope : Scope, Holds scope →
      Holds (scope.along config home child.events))
    {scope : Scope} (holds : Holds scope) (first : Nat) :
    Holds (scope.along config home (Node.eventsOf first siblings)) :=
  along_eventsOf_reaches config home Holds below (.inl holds) first

theorem step_leaving_template (node : Node) (scope : Scope) :
    (scope.step config home node.leaving).template = scope.template := by
  by_cases isDefinition : node.kind = .definition
  · rw [step_leaving_definition isDefinition]
  · by_cases isBlock : node.kind.isBlock
    · cases frames : scope.frames with
      | nil => rw [step_leaving_unopened isBlock scope frames]
      | cons frame rest => rw [step_leaving_block isBlock scope frames]
    · rw [step_leaving_other isDefinition (by simpa using isBlock)]

theorem step_leaving_inMacro (node : Node) (scope : Scope) :
    (scope.step config home node.leaving).inMacro =
      if node.kind = .definition then none else scope.inMacro := by
  by_cases isDefinition : node.kind = .definition
  · rw [step_leaving_definition isDefinition, if_pos isDefinition]
  · rw [if_neg isDefinition]
    by_cases isBlock : node.kind.isBlock
    · cases frames : scope.frames with
      | nil => rw [step_leaving_unopened isBlock scope frames]
      | cons frame rest => rw [step_leaving_block isBlock scope frames]
    · rw [step_leaving_other isDefinition (by simpa using isBlock)]

private theorem along_eventsOf_inMacro {siblings : List Node}
    (below : ∀ child ∈ siblings, ¬child.Quiet → ∀ scope : Scope,
      (scope.along config home child.events).inMacro = none)
    {scope : Scope}
    (starts : scope.inMacro = none ∨ ∃ child ∈ siblings, ¬child.Quiet)
    (first : Nat) :
    (scope.along config home (Node.eventsOf first siblings)).inMacro =
      none := by
  apply along_eventsOf_reaches config home (fun scope => scope.inMacro = none)
  · intro child member scope outside
    by_cases quiet : child.Quiet
    · obtain ⟨guarded, childEq⟩ := along_quiet config home quiet scope
      rw [childEq]
      exact outside
    · exact below child member quiet scope
  · exact starts.imp_right fun ⟨child, member, loud⟩ =>
      ⟨child, member, below child member loud⟩

/-- The walk of a tree with a macro or a template in it ends outside all
macros. -/
theorem along_inMacro_of_not_quiet {node : Node} (loud : ¬node.Quiet)
    (scope : Scope) :
    (scope.along config home node.events).inMacro = none := by
  induction node using Node.induction_on_children generalizing scope with
  | step node induction =>
      rw [along_events, step_leaving_inMacro]
      by_cases isDefinition : node.kind = .definition
      · rw [if_pos isDefinition]
      · rw [if_neg isDefinition]
        apply along_eventsOf_inMacro induction
        by_cases isTemplate : node.kind = .template
        · obtain ⟨template, entered⟩ :=
            step_entering_template config home isTemplate scope
          rw [entered]
          exact .inl rfl
        · right
          have isOther := Kind.isStart_eq_false.mpr ⟨isDefinition, isTemplate⟩
          rw [Node.quiet_iff] at loud
          simpa [isOther] using loud

theorem quiet_of_along_inMacro {siblings : List Node} {scope : Scope}
    {first : Nat}
    (inside : (scope.along config home (Node.eventsOf first siblings)).inMacro ≠
      none) :
    scope.inMacro ≠ none ∧ ∀ child ∈ siblings, child.Quiet := by
  constructor
  · intro outside
    exact inside (along_eventsOf_inMacro
      (fun child _ loud => along_inMacro_of_not_quiet loud)
      (.inl outside) first)
  · intro child member
    apply Classical.byContradiction
    intro loud
    exact inside (along_eventsOf_inMacro
      (fun child _ loud => along_inMacro_of_not_quiet loud)
      (.inr ⟨child, member, loud⟩) first)

/-- The walk of a tree without templates closes the frames that it opens, and
no others. -/
theorem along_templateFree {node : Node} (free : node.TemplateFree)
    (scope : Scope) :
    (scope.along config home node.events).frames = scope.frames ∧
      (scope.along config home node.events).template = scope.template := by
  induction node using Node.induction_on_children generalizing scope with
  | step node induction =>
      obtain ⟨noTemplate, freeBelow⟩ := Node.templateFree_iff.mp free
      obtain ⟨frames, template⟩ := along_eventsOf_preserves config home
        (fun later =>
          later.frames = (scope.step config home node.entering).frames ∧
            later.template = (scope.step config home node.entering).template)
        (fun child member later same =>
          let ⟨frames, template⟩ :=
            induction child member (freeBelow child member) later
          ⟨frames.trans same.1, template.trans same.2⟩) ⟨rfl, rfl⟩ 0
      rw [along_events]
      by_cases isDefinition : node.kind = .definition
      · obtain ⟨title, _, entered⟩ :=
          step_entering_definition config home isDefinition scope
        rw [step_leaving_definition isDefinition]
        exact ⟨by rw [frames, entered], by rw [template, entered]⟩
      · have isOther := Kind.isStart_eq_false.mpr ⟨isDefinition, noTemplate⟩
        have entered : scope.step config home node.entering = _ :=
          step_entering_other isOther scope
        have sameTemplate := template.trans (congrArg Scope.template entered)
        have openFrames := frames.trans (congrArg Scope.frames entered)
        by_cases isBlock : node.kind.isBlock
        · rw [if_pos isBlock] at openFrames
          rw [step_leaving_block isBlock _ openFrames]
          exact ⟨rfl, sameTemplate⟩
        · rw [if_neg isBlock] at openFrames
          rw [step_leaving_other isDefinition (by simpa using isBlock)]
          exact ⟨openFrames, sameTemplate⟩

/-- No guard that is set inside a tree outlasts its walk. -/
theorem along_guarded_subset (node : Node) (scope : Scope) :
    (scope.along config home node.events).guarded ⊆ scope.guarded := by
  induction node using Node.induction_on_children generalizing scope with
  | step node induction =>
      have below := along_eventsOf_preserves config home
        (fun later =>
          later.guarded ⊆ (scope.step config home node.entering).guarded)
        (fun child member later within =>
          List.Subset.trans (induction child member later) within)
        (List.Subset.refl _) 0
      rw [along_events, step_leaving_guarded]
      intro id member
      cases role : node.role config with
      | guard subject =>
          rw [role] at member
          obtain ⟨inside, different⟩ := List.mem_filter.mp member
          have added := below inside
          rw [step_entering_guard role] at added
          exact (mem_guard.mp added).resolve_left (by simpa using different)
      | _ =>
          rw [role] at member
          exact step_entering_guarded_subset (by simp [role]) scope
            (below member)

theorem along_eventsOf_guarded_subset (siblings : List Node) (scope : Scope)
    (first : Nat) :
    (scope.along config home (Node.eventsOf first siblings)).guarded ⊆
      scope.guarded := by
  apply along_eventsOf_preserves config home fun later =>
    later.guarded ⊆ scope.guarded
  · intro child _ later within
    exact List.Subset.trans (along_guarded_subset child later) within
  · exact List.Subset.refl _

end Along

end Scope

theorem Scope.finding?_of_not_reference {config : Config} {node : Node}
    (noReference : ∀ name, node.role config ≠ .reference name) (scope : Scope) :
    scope.finding? config node = none := by
  unfold Scope.finding?
  split
  · rename_i name _ role
    exact absurd role (noReference name)
  · rfl

/-- Of two scopes that differ only in that the second declares some more names,
the second keeps silent about these names. -/
theorem Scope.finding?_filter {config otherConfig : Config}
    {scope other : Scope} {node : Node} {Added : String → Prop}
    [DecidablePred Added] (inMacro : other.inMacro = scope.inMacro)
    (template : other.template = scope.template)
    (role : node.role otherConfig = node.role config)
    (guarded : node.id ∈ other.guarded ↔ node.id ∈ scope.guarded)
    (declares : ∀ name, other.Declares otherConfig name ↔
      scope.Declares config name ∨ Added name) :
    other.finding? otherConfig node =
      (scope.finding? config node).filter fun d => ¬Added d.missing := by
  rw [finding?, finding?, role, inMacro, template]
  split
  · rename_i title name _ _
    have silent : node.id ∈ other.guarded ∨ other.Declares otherConfig name ↔
        (node.id ∈ scope.guarded ∨ scope.Declares config name) ∨
        Added name := by
      rw [guarded, declares, or_assoc]
    by_cases reported : node.id ∈ scope.guarded ∨ scope.Declares config name
    · rw [if_pos reported, if_pos (silent.mpr (.inl reported))]
      rfl
    · by_cases isAdded : Added name
      · rw [if_neg reported, if_pos (silent.mpr (.inr isAdded))]
        simp [Option.filter, isAdded]
      · rw [if_neg reported,
          if_neg (mt silent.mp (not_or.mpr ⟨reported, isAdded⟩))]
        simp [Option.filter, isAdded]
  · rfl

/-! ## The checker -/

namespace Checker

theorem visitor_keeps (checker : Checker) : checker.visitor.Keeps := by
  intro hook scope node other
  cases hook with
  | enter =>
      change (checker.enter scope node).reply ≠ .replace other
      unfold Checker.enter
      dsimp only
      split
      · simp
      · split
        · simp
        · dsimp only
          split <;> simp
  | leave =>
      change (checker.leave scope node).reply ≠ .replace other
      unfold Checker.leave
      split <;> simp

theorem state_react (checker : Checker) (scope : Scope) (event : Event) :
    (checker.visitor.react event.hook scope event.node).state =
      scope.step checker.config checker.home event := by
  obtain ⟨⟨path, node⟩, hook⟩ := event
  cases hook with
  | enter =>
      change (checker.enter scope node).state =
        scope.enter checker.home (node.role checker.config)
      rw [enter]
      split
      · rfl
      · split <;> rfl
  | leave =>
      change (checker.leave scope node).state = _
      rw [leave, Scope.step]
      dsimp only
      cases scope.leave (node.role checker.config) <;> rfl

theorem stateAfter_eq (checker : Checker) (scope : Scope)
    (events : List Event) :
    checker.visitor.stateAfter scope events =
      scope.along checker.config checker.home events := by
  induction events generalizing scope with
  | nil => rfl
  | cons event rest induction =>
      rw [Scope.along_cons, ← induction, ← checker.state_react]
      rfl

/-- The scope after a callback is the one to which the events so far lead. -/
theorem state_callback (checker : Checker) {root : Node}
    {history future : List Event} {event : Event} {callback : Callback Scope}
    (split : root.events = history ++ event :: future)
    (made : (checker.visitor.pass root).calls[history.length]? =
      some callback) :
    callback.reaction.state =
      checker.start.along checker.config checker.home (history ++ [event]) := by
  have equal := checker.visitor_keeps.callback_eq split made
  have before := checker.stateAfter_eq checker.start history
  rw [Scope.along_append, ← before, equal]
  exact checker.state_react _ event

/-- A callback leaves nothing in the journal but what comes of a finding. -/
theorem journal_react (checker : Checker) (scope : Scope) (event : Event) :
    (checker.visitor.react event.hook scope event.node).journal =
      match scope.found checker.config checker.home event with
      | none => ∅
      | some d => announcement d ++ (checker.report d).journal := by
  obtain ⟨⟨path, node⟩, hook⟩ := event
  cases hook with
  | enter =>
      change (checker.enter scope node).journal =
        match (scope.enter checker.home (node.role checker.config)).finding?
          checker.config node with
        | none => ∅
        | some d => announcement d ++ (checker.report d).journal
      rw [enter]
      cases fault : (node.role checker.config).fault? with
      | some failure =>
          have noReference : ∀ name,
              node.role checker.config ≠ .reference name := by
            intro name role
            simp [role, Role.fault?] at fault
          rw [Scope.finding?_of_not_reference noReference]
      | none =>
          dsimp only
          cases (scope.enter checker.home (node.role checker.config)).finding?
            checker.config node with
          | none => rfl
          | some d => rfl
  | leave =>
      change (checker.leave scope node).journal = ∅
      rw [leave]
      split <;> rfl

/-- The checker keeps its findings in the collector of the run, whatever else
it does with them. -/
def Collects (checker : Checker) : Prop :=
  ∀ d, (checker.report d).journal.findings = [d]

theorem collects_through (config : Config) (title : Option String)
    (sink : Option Sink) :
    Collects { config, title, report := Reporter.through sink } := by
  intro d
  cases sink with
  | none => rfl
  | some sink =>
      cases sink with
      | collector => rfl
      | logging logger => rfl
      | warnings category filters =>
          change ([d] ++
            ((Sink.warnings category filters).emit d).journal.findings) = [d]
          rw [Sink.emit]
          cases decideAction filters category <;> rfl

theorem findings_react {checker : Checker} (collects : checker.Collects)
    (scope : Scope) (event : Event) :
    (checker.visitor.react event.hook scope event.node).journal.findings =
      (scope.found checker.config checker.home event).toList := by
  rw [journal_react]
  cases scope.found checker.config checker.home event with
  | none => rfl
  | some d => simp [announcement, Journal.debug, collects d]

theorem findings_callbacks {checker : Checker} (collects : checker.Collects)
    (scope : Scope) (events : List Event) :
    ((checker.visitor.callbacks scope events).flatMap fun callback =>
      callback.reaction.journal.findings) =
      scope.findings checker.config checker.home events := by
  induction events generalizing scope with
  | nil => rfl
  | cons event rest induction =>
      have head := findings_react collects scope event
      have tail :=
        induction (checker.visitor.react event.hook scope event.node).state
      rw [Scope.findings, ← head, ← checker.state_react, ← tail]
      rfl

theorem react_enter_keep {checker : Checker}
    (accepts : ∀ d, (checker.report d).refusal = none) {node : Node}
    (noFault : (node.role checker.config).fault? = none) (scope : Scope) :
    (checker.visitor.react .enter scope node).reply = .keep := by
  change (checker.enter scope node).reply = .keep
  rw [enter, noFault]
  dsimp only
  split
  · rfl
  · simp [accepts]

theorem react_leave_keep {checker : Checker} {node : Node} {scope : Scope}
    (opened : node.kind.isBlock = true → scope.frames ≠ []) :
    (checker.visitor.react .leave scope node).reply = .keep := by
  change (checker.leave scope node).reply = .keep
  have fits := node.kind_of_role checker.config
  rw [leave]
  cases role : node.role checker.config with
  | block names =>
      rw [role] at fits
      cases frames : scope.frames with
      | nil => exact absurd frames (opened fits)
      | cons frame rest => simp [Scope.leave, Scope.closeBlock?, frames]
  | _ => simp [Scope.leave]

/-- A walk fails neither at a macro whose parameters have names nor at the end
of a block below which there is no template. -/
theorem smooth_of_fit {checker : Checker}
    (accepts : ∀ d, (checker.report d).refusal = none) {node : Node}
    (plain : node.PlainParameters) (free : node.BlocksTemplateFree)
    (scope : Scope) : checker.visitor.Smooth scope node.events := by
  induction node using Node.induction_on_children generalizing scope with
  | step node induction =>
      obtain ⟨plainHere, plainBelow⟩ := Node.forall_mem_nodes_iff.mp plain
      obtain ⟨freeHere, freeBelow⟩ := Node.blocksTemplateFree_iff.mp free
      apply Visitor.smooth_events
      · exact react_enter_keep accepts (Node.fault?_of_plain plainHere) scope
      · intro child member
        exact induction child member (plainBelow child member)
          (freeBelow child member)
      · apply react_leave_keep
        intro isBlock
        have entered :
            scope.step checker.config checker.home node.entering = _ :=
          Scope.step_entering_other (Kind.isStart_of_isBlock isBlock) scope
        have kept := Scope.along_eventsOf_preserves checker.config checker.home
          (fun later =>
            later.frames =
              (scope.step checker.config checker.home node.entering).frames)
          (fun child member later same =>
            (Scope.along_templateFree (freeHere isBlock child member)
              later).1.trans same) rfl 0
        rw [checker.stateAfter_eq, Scope.along_cons, kept, entered,
          if_pos isBlock]
        exact List.cons_ne_nil _ _

/-- What a checker finds in a tree at which it cannot fail. -/
theorem findings_traverse {checker : Checker} (collects : checker.Collects)
    (accepts : ∀ d, (checker.report d).refusal = none) {root : Node}
    (plain : root.PlainParameters) (free : root.BlocksTemplateFree) :
    (traverse [checker.visitor] root).journal.findings =
        checker.start.findings checker.config checker.home root.events ∧
      (traverse [checker.visitor] root).result = .ok root := by
  have complete : checker.visitor.pass root = _ :=
    checker.visitor_keeps.passFrom_of_smooth
      (smooth_of_fit accepts plain free checker.start)
  rw [findings_traverse_single, result_traverse_single, complete,
    Passage.findings_journal]
  exact ⟨findings_callbacks collects _ _, rfl⟩

end Checker

end ScopeLint
