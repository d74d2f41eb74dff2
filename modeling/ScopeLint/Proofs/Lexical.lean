import Mathlib.Data.Finset.Lattice.Lemmas
import Mathlib.Data.List.ReduceOption
import ScopeLint.Proofs.ScopeCourse

/-!
# Lexical scoping

The same check without a stack.  A walk hands the names of the enclosing loops
and lambdas down to the nodes below, as a set.  From left to right it hands on
the names that last, the current macro and the name of the template.  Which
name a test exempts is known from where it stands.

The checker finds the same as this walk.  Its list of names agrees with the
two sets whenever it is inside a macro; outside macros, frames of loops around
a macro may have cut anything from the list, but there nothing is looked up.
-/

namespace ScopeLint

/-- What stands in the holes of a shape, each with whether it is asked there
if a name is defined. -/
def Shape.exempted {α : Type} : Shape α → List (α × Bool)
  | .test subject title args _ =>
    (subject, title = "defined") :: args.map (·, false)
  | shape => shape.parts.map (·, false)

/-- The subject and the arguments of a test whether something is defined. -/
def Shape.definedTest? {α : Type} : Shape α → Option (α × List α)
  | .test subject title args _ =>
    if title = "defined" then some (subject, args) else none
  | _ => none

theorem Shape.exempted_map {α β : Type} (f : α → β) (shape : Shape α) :
    (shape.map f).exempted =
      shape.exempted.map fun part => (f part.1, part.2) := by
  cases shape with
  | test subject title args negated => simp [map, exempted]
  | _ =>
      simp [map, exempted, parts, List.map_flatMap, List.flatMap_map,
        List.map_flatten, Branch.parts, Branch.map, Arm.parts, Arm.map,
        Option.toList_map, Function.comp_def]

theorem Shape.map_fst_exempted {α : Type} (shape : Shape α) :
    shape.exempted.map Prod.fst = shape.parts := by
  cases shape with
  | test subject title args negated => simp [exempted, parts, Function.comp_def]
  | _ => simp [exempted, Function.comp_def]

theorem Shape.exempted_of_not_test {α : Type} {shape : Shape α}
    (noTest : shape.kind ≠ .test) :
    shape.exempted = shape.parts.map (·, false) := by
  cases shape with
  | test subject title args negated => exact absurd rfl noTest
  | _ => rfl

namespace Node

theorem children_of_name {node : Node} (isName : node.kind = .name) :
    node.children = [] := by
  obtain ⟨word, usage, shape⟩ := shape_of_name isName
  rw [children, shape]
  rfl

theorem mem_children_of_mem_exempted {node : Node} {part : Node × Bool}
    (member : part ∈ node.shape.exempted) : part.1 ∈ node.children := by
  rw [children, ← Shape.map_fst_exempted]
  exact List.mem_map_of_mem member

/-- No name that a test asks to be defined occurs again, as the same node,
among the arguments of that test. -/
def GuardsApart (node : Node) : Prop :=
  ∀ test ∈ node.nodes, ∀ asked ∈ test.shape.definedTest?, asked.1.kind = .name →
    ∀ arg ∈ asked.2, ∀ inner ∈ arg.nodes, inner.kind = .name →
      inner.id ≠ asked.1.id

instance (node : Node) : Decidable node.GuardsApart :=
  inferInstanceAs (Decidable
    (∀ test ∈ node.nodes, ∀ asked ∈ test.shape.definedTest?,
      asked.1.kind = .name →
      ∀ arg ∈ asked.2, ∀ inner ∈ arg.nodes, inner.kind = .name →
        inner.id ≠ asked.1.id))

/-- There is no template below a loop or lambda, every parameter of a macro is
one by its kind, and a name that a test asks to be defined occurs in that test
only once. -/
structure Admissible (node : Node) : Prop where
  blocks : node.BlocksTemplateFree
  parameters : node.PlainParameters
  guards : node.GuardsApart

theorem admissible_iff {node : Node} :
    node.Admissible ↔
      node.BlocksTemplateFree ∧ node.PlainParameters ∧ node.GuardsApart :=
  ⟨fun fits => ⟨fits.blocks, fits.parameters, fits.guards⟩,
    fun ⟨blocks, parameters, guards⟩ => ⟨blocks, parameters, guards⟩⟩

instance (node : Node) : Decidable node.Admissible :=
  decidable_of_iff _ admissible_iff.symm

end Node

namespace Lexical

/-- What a walk hands on from left to right. -/
structure Thread where
  inMacro : Option String
  lasting : Finset String
  template : String

section Walk

variable (config : Config) (home : String)

def introduced (node : Node) : Finset String :=
  (node.declared config).reduceOption.toFinset

def enter (node : Node) (thread : Thread) : Thread :=
  match node.shape with
  | .template _ title => ⟨none, ∅, Scope.templateName title home⟩
  | .definition title .. =>
    { thread with inMacro := some title, lasting := introduced config node }
  | _ =>
    if node.kind.isBinding then
      { thread with lasting := thread.lasting ∪ introduced config node }
    else thread

def leave (node : Node) (thread : Thread) : Thread :=
  if node.kind = .definition then { thread with inMacro := none } else thread

/-- The names of loops and lambdas that the nodes below a node see. -/
def handedDown (node : Node) (bound : Finset String) : Finset String :=
  if node.kind.isStart then ∅
  else if node.kind.isBlock then bound ∪ introduced config node
  else bound

/-- The finding that a node is, if it is one. -/
def finding? (node : Node) (exempt : Bool) (bound : Finset String)
    (thread : Thread) : Option Diagnostic :=
  match thread.inMacro, node.shape with
  | some inMacro, .name word usage =>
    if exempt ∨ ¬isRead usage ∨ word ∈ bound ∪ thread.lasting ∨
      word ∈ config.alwaysDeclared then
      none
    else some
      { inMacro
        template := thread.template
        line := node.position.line
        missing := word
        column := node.position.column }
  | _, _ => none

def inTurn :
    List (Thread → Thread × List Diagnostic) → Thread → Thread × List Diagnostic
  | [], thread => (thread, [])
  | visit :: rest, thread =>
    let first := visit thread
    let later := inTurn rest first.1
    (later.1, first.2 ++ later.2)

def walk : Node → Bool → Finset String → Thread → Thread × List Diagnostic :=
  Node.fold fun node below exempt bound thread =>
    let later := inTurn
      (below.exempted.map fun part =>
        part.1 () part.2 (handedDown config node bound))
      (enter config home node thread)
    (leave node later.1,
      (finding? config node exempt bound thread).toList ++ later.2)

/-- Walk nodes one after the other, each with whether it is exempt. -/
def walkAll (nodes : List (Node × Bool)) (bound : Finset String) :
    Thread → Thread × List Diagnostic :=
  inTurn (nodes.map fun part => walk config home part.1 part.2 bound)

end Walk

/-- All that lexical scoping finds in a tree, for a template that goes by the
given name unless it has one. -/
def findings (config : Config) (title : Option String) (root : Node) :
    List Diagnostic :=
  let home := Scope.templateName title Checker.anonymous
  (walk config home root false ∅ ⟨none, ∅, home⟩).2

section Equations

variable {config : Config} {home : String}

theorem walk_eq (node : Node) (exempt : Bool) (bound : Finset String)
    (thread : Thread) :
    walk config home node exempt bound thread =
      (leave node
          (walkAll config home node.shape.exempted
            (handedDown config node bound) (enter config home node thread)).1,
        (finding? config node exempt bound thread).toList ++
          (walkAll config home node.shape.exempted
            (handedDown config node bound)
            (enter config home node thread)).2) := by
  rw [walk, Node.fold_eq, Shape.exempted_map, List.map_map]
  rfl

theorem walkAll_cons (node : Node) (exempt : Bool) (rest : List (Node × Bool))
    (bound : Finset String) (thread : Thread) :
    walkAll config home ((node, exempt) :: rest) bound thread =
      ((walkAll config home rest bound
          (walk config home node exempt bound thread).1).1,
        (walk config home node exempt bound thread).2 ++
          (walkAll config home rest bound
            (walk config home node exempt bound thread).1).2) :=
  rfl

theorem mem_introduced {node : Node} {name : String} :
    name ∈ introduced config node ↔ some name ∈ node.declared config := by
  rw [introduced, List.mem_toFinset, List.reduceOption_mem_iff]

theorem enter_of_other {node : Node} (isOther : node.kind.isStart = false)
    (thread : Thread) :
    enter config home node thread =
      if node.kind.isBinding then
        { thread with lasting := thread.lasting ∪ introduced config node }
      else thread := by
  obtain ⟨id, position, shape⟩ := node
  cases shape with
  | template body title => cases isOther
  | definition title params body defaults rest named => cases isOther
  | _ => rfl

theorem enter_of_definition {node : Node}
    (isDefinition : node.kind = .definition) :
    ∃ title, ∀ thread, enter config home node thread =
      ⟨some title, introduced config node, thread.template⟩ := by
  obtain ⟨title, params, body, defaults, rest, named, shape⟩ :=
    Node.shape_of_definition isDefinition
  refine ⟨title, ?_⟩
  intro thread
  rw [enter, shape]

theorem finding?_of_not_name {node : Node} (noName : node.kind ≠ .name)
    (exempt : Bool) (bound : Finset String) (thread : Thread) :
    finding? config node exempt bound thread = none := by
  unfold finding?
  split
  · rename_i shape
    exact absurd (congrArg Shape.kind shape) noName
  · rfl

private theorem mem_lasting_walkAll {name : String} {bound : Finset String}
    {nodes : List (Node × Bool)}
    (below : ∀ part ∈ nodes, ∀ thread,
      name ∈ (walk config home part.1 part.2 bound thread).1.lasting ↔
        name ∈ thread.lasting ∨ some name ∈ part.1.bindings config)
    (thread : Thread) :
    name ∈ (walkAll config home nodes bound thread).1.lasting ↔
      name ∈ thread.lasting ∨
        some name ∈ (nodes.map Prod.fst).flatMap (Node.bindings config) := by
  induction nodes generalizing thread with
  | nil => simp [walkAll, inTurn]
  | cons part rest induction =>
      have later := induction fun other member =>
        below other (List.mem_cons_of_mem _ member)
      rw [walkAll_cons, later, below part List.mem_cons_self, List.map_cons,
        List.flatMap_cons, List.mem_append, or_assoc]

/-- Over a tree without macros and templates, the names that last grow by
those of the lasting bindings in it. -/
theorem mem_lasting_walk {node : Node} (quiet : node.Quiet) (name : String)
    (exempt : Bool) (bound : Finset String) (thread : Thread) :
    name ∈ (walk config home node exempt bound thread).1.lasting ↔
      name ∈ thread.lasting ∨ some name ∈ node.bindings config := by
  induction node using Node.induction_on_children
    generalizing exempt bound thread with
  | step node induction =>
      obtain ⟨isOther, quietBelow⟩ := Node.quiet_iff.mp quiet
      have below : ∀ thread, name ∈ (walkAll config home node.shape.exempted
          (handedDown config node bound) thread).1.lasting ↔ _ :=
        mem_lasting_walkAll (by
        intro part member thread
        have child := Node.mem_children_of_mem_exempted member
        exact induction part.1 child (quietBelow part.1 child) part.2 _ thread)
      rw [walk_eq, leave, if_neg (Kind.isStart_eq_false.mp isOther).1, below,
        Shape.map_fst_exempted, Node.bindings_eq, List.mem_append,
        enter_of_other isOther]
      by_cases isBinding : node.kind.isBinding
      · rw [if_pos isBinding, if_pos isBinding, Finset.mem_union,
          mem_introduced, or_assoc]
        rfl
      · rw [if_neg isBinding, if_neg isBinding, List.mem_nil_iff, false_or]
        rfl

end Equations

/-! ## Agreement with the checker -/

/-- A scope that agrees with what is handed down and handed on. -/
structure Matches (bound : Finset String) (thread : Thread) (scope : Scope) :
    Prop where
  inMacro : scope.inMacro = thread.inMacro
  template : scope.template = thread.template
  names : scope.inMacro ≠ none →
    ∀ name, some name ∈ scope.names ↔ name ∈ bound ∨ name ∈ thread.lasting

/-- No name in a tree is guarded. -/
def Unguarded (scope : Scope) (node : Node) : Prop :=
  ∀ inner ∈ node.nodes, inner.kind = .name → inner.id ∉ scope.guarded

/-- A node that is guarded if it is a name that is exempt, and nothing below
it is. -/
structure Marked (node : Node) (exempt : Bool) (scope : Scope) : Prop where
  here : node.kind = .name → (node.id ∈ scope.guarded ↔ exempt = true)
  below : ∀ child ∈ node.children, Unguarded scope child

section Agreement

variable {config : Config} {home : String} {bound : Finset String}
  {thread : Thread} {scope : Scope}

theorem Matches.entering (agree : Matches bound thread scope) (node : Node) :
    Matches (handedDown config node bound) (enter config home node thread)
      (scope.step config home node.entering) := by
  rcases node.kind.start_cases with isOther | isDefinition | isTemplate
  · have entered : scope.step config home node.entering = _ :=
      Scope.step_entering_other isOther scope
    rw [entered, enter_of_other isOther, handedDown, if_neg (by simp [isOther])]
    refine ⟨?_, ?_, ?_⟩
    · exact agree.inMacro.trans (by split <;> rfl)
    · exact agree.template.trans (by split <;> rfl)
    · intro inside name
      rw [List.mem_append, agree.names inside, ← mem_introduced]
      by_cases isBlock : node.kind.isBlock
      · rw [if_pos isBlock,
          if_neg (by simp [Kind.isBinding_of_isBlock isBlock]),
          Finset.mem_union, or_right_comm]
      · rw [if_neg isBlock]
        by_cases isBinding : node.kind.isBinding
        · rw [if_pos isBinding, Finset.mem_union, or_assoc]
        · have nothing : node.declared config = [] :=
            Node.declared_of_plain isOther (by simpa using isBlock)
              (by simpa using isBinding)
          rw [if_neg isBinding, mem_introduced, nothing,
            List.mem_nil_iff, or_false]
  · obtain ⟨title, params, body, defaults, rest, named, shape⟩ :=
      Node.shape_of_definition isDefinition
    obtain ⟨called, calledEq, entered⟩ :=
      Scope.step_entering_definition config home isDefinition scope
    obtain rfl : title = called := by
      simpa [shape, Shape.called?] using calledEq
    rw [entered, enter, shape, handedDown, isDefinition]
    refine ⟨rfl, agree.template, ?_⟩
    intro _ name
    rw [← mem_introduced]
    exact (or_iff_right (Finset.notMem_empty name)).symm
  · obtain ⟨body, title, shape⟩ := Node.shape_of_template isTemplate
    have entered : scope.step config home node.entering =
        Scope.fresh (Scope.templateName title home) := by
      simp [Scope.step, Node.entering, Node.role, shape, Scope.enter]
    rw [entered, enter, shape]
    exact ⟨rfl, rfl, fun inside => absurd rfl inside⟩

theorem Matches.found_eq (agree : Matches bound thread scope) {node : Node}
    {exempt : Bool}
    (marked : node.kind = .name → (node.id ∈ scope.guarded ↔ exempt = true)) :
    scope.found config home node.entering =
      finding? config node exempt bound thread := by
  by_cases isName : node.kind = .name
  · obtain ⟨word, usage, shape⟩ := Node.shape_of_name isName
    by_cases read : isRead usage = true
    · have role : node.role config = .reference word := by
        simp [Node.role, shape, read]
      have unchanged : scope.found config home node.entering =
          scope.finding? config node := by
        simp [Scope.found, Node.entering, role, Scope.enter]
      rw [unchanged, Scope.finding?, role, finding?, shape, ← agree.inMacro]
      cases inside : scope.inMacro with
      | none => rfl
      | some inMacro =>
          have known := agree.names (by simp [inside]) word
          simp [marked isName, read, Scope.Declares, known,
            agree.template, or_assoc]
    · have noReference : ∀ name, node.role config ≠ .reference name := by
        simp [Node.role, shape, read]
      have nothing : finding? config node exempt bound thread = none := by
        rw [finding?, shape]
        cases thread.inMacro with
        | none => rfl
        | some inMacro => simp [read]
      rw [nothing]
      exact Scope.finding?_of_not_reference noReference _
  · have noReference : ∀ name, node.role config ≠ .reference name := by
      intro name role
      have fits := node.kind_of_role config
      rw [role] at fits
      exact isName fits
    rw [finding?_of_not_name isName]
    exact Scope.finding?_of_not_reference noReference _

variable (config home) in
/-- From a scope, the checker finds the same in a node as the lexical walk, and
ends with a scope that agrees with it again. -/
def Follows (node : Node) (exempt : Bool) (bound : Finset String)
    (thread : Thread) (scope : Scope) : Prop :=
  scope.findings config home node.events =
    (walk config home node exempt bound thread).2 ∧
    Matches bound (walk config home node exempt bound thread).1
      (scope.along config home node.events)

private theorem follows_walkAll {nodes : List (Node × Bool)}
    (below : ∀ part ∈ nodes, ∀ {thread : Thread} {scope : Scope},
      Matches bound thread scope →
      Marked part.1 part.2 scope →
      Follows config home part.1 part.2 bound thread scope)
    (unmarked : ∀ part ∈ nodes, part.1.kind = .name → part.2 = false)
    (agree : Matches bound thread scope)
    (unguarded : ∀ part ∈ nodes, Unguarded scope part.1) (first : Nat) :
    scope.findings config home (Node.eventsOf first (nodes.map Prod.fst)) =
        (walkAll config home nodes bound thread).2 ∧
      Matches bound (walkAll config home nodes bound thread).1
        (scope.along config home
          (Node.eventsOf first (nodes.map Prod.fst))) := by
  induction nodes generalizing thread scope first with
  | nil => exact ⟨rfl, agree⟩
  | cons part rest induction =>
      obtain ⟨unguardedHere, unguardedBelow⟩ :=
        Node.forall_mem_nodes_iff.mp (unguarded part List.mem_cons_self)
      have marked : Marked part.1 part.2 scope := by
        refine ⟨?_, unguardedBelow⟩
        intro isName
        rw [unmarked part List.mem_cons_self isName]
        simpa using unguardedHere isName
      obtain ⟨same, agreeNext⟩ := below part List.mem_cons_self agree marked
      -- Guards that were set inside are given back, so what is unguarded stays
      -- so.
      have unguardedNext : ∀ other ∈ rest,
          Unguarded (scope.along config home part.1.events) other.1 := by
        intro other member inner inside isName guarded
        exact unguarded other (List.mem_cons_of_mem _ member) inner
          inside isName (Scope.along_guarded_subset part.1 scope guarded)
      obtain ⟨sameLater, agreeLater⟩ := induction
        (fun other member => below other (List.mem_cons_of_mem _ member))
        (fun other member => unmarked other (List.mem_cons_of_mem _ member))
        agreeNext unguardedNext (first + 1)
      rw [List.map_cons, Scope.findings_eventsOf_cons,
        Scope.along_eventsOf_cons, walkAll_cons, same, sameLater]
      exact ⟨rfl, agreeLater⟩

private theorem follows_of_below {node : Node} {exempt : Bool}
    (agree : Matches bound thread scope) (marked : Marked node exempt scope)
    (below :
      (scope.step config home node.entering).findings config home
          (Node.eventsOf 0 node.children) =
        (walkAll config home node.shape.exempted (handedDown config node bound)
          (enter config home node thread)).2 ∧
      Matches (handedDown config node bound)
        (walkAll config home node.shape.exempted (handedDown config node bound)
          (enter config home node thread)).1
        ((scope.step config home node.entering).along config home
          (Node.eventsOf 0 node.children))) :
    Follows config home node exempt bound thread scope := by
  obtain ⟨same, agreeBelow⟩ := below
  refine ⟨?_, ?_, ?_, ?_⟩
  · rw [Scope.findings_events, walk_eq, same, agree.found_eq marked.here]
  · rw [Scope.along_events, Scope.step_leaving_inMacro, agreeBelow.inMacro,
      walk_eq, leave]
    split <;> rfl
  · rw [Scope.along_events, Scope.step_leaving_template, agreeBelow.template,
      walk_eq, leave]
    split <;> rfl
  · -- With a macro or a template in it, the walk ends where no name is looked
    -- up.
    intro inside name
    by_cases quiet : node.Quiet
    · obtain ⟨guarded, netEffect⟩ := Scope.along_quiet config home quiet scope
      rw [netEffect] at inside ⊢
      rw [List.mem_append, agree.names inside, mem_lasting_walk quiet, or_assoc]
    · exact absurd (Scope.along_inMacro_of_not_quiet quiet scope) inside

/-- The children of a node with a test's guard: the subject is exempt and goes
first, and the arguments do not hold it. -/
private theorem follows_below_guard {node subject : Node} {args : List Node}
    {negated : Bool} (shape : node.shape = .test subject "defined" args negated)
    (isName : subject.kind = .name)
    (apart : ∀ arg ∈ args, ∀ inner ∈ arg.nodes, inner.kind = .name →
      inner.id ≠ subject.id)
    (below : ∀ child ∈ node.children,
      ∀ {exempt : Bool} {thread : Thread} {scope : Scope},
      Matches bound thread scope → Marked child exempt scope →
        Follows config home child exempt bound thread scope)
    (agree : Matches bound thread (scope.guard subject.id))
    (unguarded : ∀ child ∈ node.children, Unguarded scope child) :
    (scope.guard subject.id).findings config home
        (Node.eventsOf 0 node.children) =
        (walkAll config home node.shape.exempted bound thread).2 ∧
      Matches bound (walkAll config home node.shape.exempted bound thread).1
        ((scope.guard subject.id).along config home
          (Node.eventsOf 0 node.children)) := by
  have children : node.children = subject :: args := by
    rw [Node.children, shape]
    rfl
  have exempted :
      node.shape.exempted = (subject, true) :: args.map (·, false) := by
    simp [shape, Shape.exempted]
  have plainArgs : (args.map (·, false)).map Prod.fst = args := by
    simp [Function.comp_def]
  rw [children] at below unguarded
  have subjectMarked : Marked subject true (scope.guard subject.id) := by
    refine ⟨fun _ => by simp [Scope.mem_guard], ?_⟩
    rw [Node.children_of_name isName]
    intro child member
    cases member
  obtain ⟨same, agreeNext⟩ :=
    below subject List.mem_cons_self agree subjectMarked
  have unguardedNext : ∀ part ∈ args.map (·, false), Unguarded
      ((scope.guard subject.id).along config home subject.events) part.1 := by
    intro part member inner inside innerName guarded
    obtain ⟨arg, argMember, rfl⟩ := List.mem_map.mp member
    have before := Scope.along_guarded_subset subject _ guarded
    rcases Scope.mem_guard.mp before with asSubject | already
    · exact apart arg argMember inner inside innerName asSubject
    · exact unguarded arg (List.mem_cons_of_mem _ argMember) inner inside
        innerName already
  have belowArgs : ∀ part ∈ args.map (·, false),
      ∀ {thread : Thread} {scope : Scope}, Matches bound thread scope →
        Marked part.1 part.2 scope →
        Follows config home part.1 part.2 bound thread scope := by
    intro part member thread scope
    obtain ⟨arg, argMember, rfl⟩ := List.mem_map.mp member
    exact below arg (List.mem_cons_of_mem _ argMember)
  have unmarked : ∀ part ∈ args.map (·, false), part.1.kind = .name →
      part.2 = false := by
    intro part member _
    obtain ⟨arg, _, rfl⟩ := List.mem_map.mp member
    rfl
  obtain ⟨sameLater, agreeLater⟩ :=
    follows_walkAll belowArgs unmarked agreeNext unguardedNext 1
  rw [plainArgs] at sameLater agreeLater
  rw [children, exempted, Scope.findings_eventsOf_cons,
    Scope.along_eventsOf_cons, walkAll_cons, same, sameLater]
  exact ⟨rfl, agreeLater⟩

private theorem unmarked_of_no_guard {node : Node}
    (noGuard : ∀ subject, node.role config ≠ .guard subject) :
    ∀ part ∈ node.shape.exempted, part.1.kind = .name → part.2 = false := by
  intro part member isName
  by_cases isTest : node.shape.kind = .test
  · obtain ⟨subject, title, args, negated, shape⟩ := Node.shape_of_test isTest
    rw [shape, Shape.exempted] at member
    rcases List.mem_cons.mp member with rfl | isArg
    · by_cases asked : title = "defined"
      · exact absurd (Node.role_of_guard (asked ▸ shape) isName)
          (noGuard subject.id)
      · simp [asked]
    · obtain ⟨arg, _, rfl⟩ := List.mem_map.mp isArg
      rfl
  · rw [Shape.exempted_of_not_test isTest] at member
    obtain ⟨child, _, rfl⟩ := List.mem_map.mp member
    rfl

/-- The checker follows the lexical walk. -/
theorem follows {node : Node} (apart : node.GuardsApart) {exempt : Bool}
    (agree : Matches bound thread scope) (marked : Marked node exempt scope) :
    Follows config home node exempt bound thread scope := by
  induction node using Node.induction_on_children
    generalizing exempt bound thread scope with
  | step node induction =>
      obtain ⟨apartHere, apartBelow⟩ := Node.forall_mem_nodes_iff.mp apart
      apply follows_of_below agree marked
      have agreeEntered : Matches (handedDown config node bound)
          (enter config home node thread)
          (scope.step config home node.entering) := agree.entering node
      by_cases guards : ∃ subject, node.role config = .guard subject
      · obtain ⟨id, role⟩ := guards
        obtain ⟨subject, args, negated, shape, isName, rfl⟩ :=
          Node.shape_of_guard role
        rw [Scope.step_entering_guard role] at agreeEntered ⊢
        have asked : (subject, args) ∈ node.shape.definedTest? := by
          simp [shape, Shape.definedTest?]
        exact follows_below_guard shape isName
          (apartHere (subject, args) asked isName)
          (fun child member _ _ _ =>
            induction child member (apartBelow child member))
          agreeEntered marked.below
      · have noGuard : ∀ subject, node.role config ≠ .guard subject := by
          intro subject role
          exact guards ⟨subject, role⟩
        have unguarded : ∀ part ∈ node.shape.exempted,
            Unguarded (scope.step config home node.entering) part.1 := by
          intro part member inner inside isName guarded
          exact marked.below part.1 (Node.mem_children_of_mem_exempted member)
            inner inside isName
            (Scope.step_entering_guarded_subset noGuard scope guarded)
        rw [Node.children, ← Shape.map_fst_exempted]
        exact follows_walkAll
          (fun part member _ _ =>
            have child := Node.mem_children_of_mem_exempted member
            induction part.1 child (apartBelow part.1 child))
          (unmarked_of_no_guard noGuard) agreeEntered unguarded 0

end Agreement

/-- A checker that has walked nothing yet follows the lexical walk. -/
theorem findings_start (checker : Checker) {root : Node}
    (apart : root.GuardsApart) :
    checker.start.findings checker.config checker.home root.events =
      findings checker.config checker.title root := by
  have agree : Matches ∅ ⟨none, ∅, checker.home⟩ checker.start :=
    ⟨rfl, rfl, fun inside => absurd rfl inside⟩
  have marked : Marked root false checker.start := by
    refine ⟨fun _ => by simp [Checker.start, Scope.fresh], ?_⟩
    intro child _ inner _ _ guarded
    cases guarded
  exact (follows apart agree marked).1

theorem findings_of_admissible {checker : Checker} (collects : checker.Collects)
    (accepts : ∀ d, (checker.report d).refusal = none) {root : Node}
    (admissible : root.Admissible) :
    (traverse [checker.visitor] root).journal.findings =
        findings checker.config checker.title root ∧
      (traverse [checker.visitor] root).result = .ok root := by
  obtain ⟨found, completed⟩ :=
    Checker.findings_traverse collects accepts admissible.parameters
      admissible.blocks
  exact ⟨found.trans (findings_start checker admissible.guards), completed⟩

/-- In every admissible tree the checker finds what lexical scoping finds, in
the same order, and it walks the tree to its end. -/
theorem findings_checker_eq (config : Config) (title : Option String)
    {root : Node} (admissible : root.Admissible) :
    (traverse [Checker.visitor { config, title }] root).journal.findings =
        findings config title root ∧
      (traverse [Checker.visitor { config, title }] root).result =
        .ok root := by
  let checker : Checker := { config, title }
  have collects : checker.Collects := fun _ => rfl
  exact findings_of_admissible collects (fun _ => rfl) admissible

/-- A loop inside a macro that holds another macro, and a test in a third. -/
def nestedMacros : Node :=
  ⟨0, ⟨1, 0⟩, .template
    [⟨1, ⟨2, 0⟩, .definition "outer" [⟨2, ⟨2, 9⟩, .parameter "rows" none⟩]
      [⟨3, ⟨3, 0⟩, .loop .plain ⟨4, ⟨3, 4⟩, .name "row" "store"⟩
        ⟨5, ⟨3, 11⟩, .name "rows" "load"⟩
        [⟨6, ⟨4, 0⟩, .definition "inner" [] [⟨7, ⟨4, 8⟩, .name "row" "load"⟩] []
            none none⟩] [] none⟩] [] none none⟩,
     ⟨8, ⟨6, 0⟩, .definition "guarded" []
      [⟨9, ⟨7, 0⟩, .test ⟨10, ⟨7, 2⟩, .name "title" "load"⟩ "defined"
        [⟨11, ⟨7, 9⟩, .lambda ["row"] ⟨12, ⟨7, 16⟩, .name "title" "load"⟩⟩]
          false⟩] [] none none⟩] (some "page.html")⟩

theorem findings_checker_nestedMacros :
    nestedMacros.Admissible ∧
      (findings {} none nestedMacros).map (fun d => (d.inMacro, d.missing)) =
        [("inner", "row"), ("guarded", "title")] ∧
      (traverse [Checker.visitor {}] nestedMacros).journal.findings =
        findings {} none nestedMacros ∧
      (traverse [Checker.visitor {}] nestedMacros).result =
        .ok nestedMacros := by
  have admissible : nestedMacros.Admissible := by
    decide +kernel
  refine ⟨admissible, ?_, findings_checker_eq {} none admissible⟩
  decide +kernel

end Lexical

end ScopeLint
