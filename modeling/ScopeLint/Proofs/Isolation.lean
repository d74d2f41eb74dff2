import ScopeLint.Proofs.Checks
import ScopeLint.Proofs.Lexical

/-!
# Macros are checked apart

What a linter finds in a template is what it would find in the outermost macros
if each of them stood alone.  A walk that stands outside all macros finds
nothing itself, and a macro forgets all names that were declared before it.
So nothing around a macro, and no other macro, matters to it, and templates
that hold the same macros in another order have the same findings in another
order.
-/

namespace ScopeLint

namespace Node

/-- The macros of a tree that are in no other macro, in the order of a walk. -/
def outermostMacros : Node → List Node :=
  fold fun node below =>
    if node.kind = .definition then [node]
    else below.parts.flatMap fun part => part ()

theorem outermostMacros_eq (node : Node) :
    node.outermostMacros =
      if node.kind = .definition then [node]
      else node.children.flatMap outermostMacros := by
  rw [outermostMacros, fold_eq, Shape.parts_map, List.flatMap_map]
  rfl

theorem mem_nodes_of_mem_outermostMacros {node inner : Node}
    (member : inner ∈ node.outermostMacros) : inner ∈ node.nodes := by
  induction node using induction_on_children with
  | step node induction =>
      rw [outermostMacros_eq] at member
      by_cases isDefinition : node.kind = .definition
      · rw [if_pos isDefinition] at member
        rw [List.mem_singleton.mp member]
        exact node.mem_nodes_self
      · rw [if_neg isDefinition] at member
        obtain ⟨child, childMember, below⟩ := List.mem_flatMap.mp member
        exact mem_nodes_of_mem_children childMember
          (induction child childMember below)

/-- A template with no other template in it, in which every parameter of a
macro is one by its kind and a name that a test asks to be defined occurs in
that test only once. -/
structure SoleTemplate (root : Node) : Prop where
  isTemplate : root.kind = .template
  below : ∀ child ∈ root.children, child.TemplateFree
  parameters : root.PlainParameters
  guards : root.GuardsApart

theorem SoleTemplate.admissible {root : Node} (sole : root.SoleTemplate) :
    root.Admissible := by
  refine ⟨?_, sole.parameters, sole.guards⟩
  apply blocksTemplateFree_iff.mpr
  constructor
  · intro isBlock
    rw [sole.isTemplate] at isBlock
    cases isBlock
  · intro child member
    exact (sole.below child member).blocksTemplateFree

theorem SoleTemplate.outermostMacros {root : Node} (sole : root.SoleTemplate) :
    root.outermostMacros = root.children.flatMap Node.outermostMacros := by
  rw [outermostMacros_eq, if_neg]
  intro isDefinition
  rw [sole.isTemplate] at isDefinition
  cases isDefinition

theorem SoleTemplate.admissible_macro {root inner : Node}
    (sole : root.SoleTemplate) (member : inner ∈ root.outermostMacros) :
    inner.Admissible := by
  have isNode := mem_nodes_of_mem_outermostMacros member
  refine ⟨?_, ?_, ?_⟩
  · rw [sole.outermostMacros] at member
    obtain ⟨child, childMember, below⟩ := List.mem_flatMap.mp member
    have free := sole.below child childMember
    exact (free.of_mem_nodes
      (mem_nodes_of_mem_outermostMacros below)).blocksTemplateFree
  · intro other inside
    exact sole.parameters other (mem_nodes_trans isNode inside)
  · intro test inside
    exact sole.guards test (mem_nodes_trans isNode inside)

end Node

namespace Lexical

section Outside

variable {config : Config} {home : String}

theorem template_enter {node : Node} (noTemplate : node.kind ≠ .template)
    (thread : Thread) :
    (enter config home node thread).template = thread.template := by
  by_cases isDefinition : node.kind = .definition
  · obtain ⟨title, entered⟩ : ∃ title, ∀ thread,
        enter config home node thread = _ :=
      enter_of_definition isDefinition
    rw [entered]
  · rw [enter_of_other (Kind.isStart_eq_false.mpr ⟨isDefinition, noTemplate⟩)]
    split <;> rfl

private theorem template_walkAll {nodes : List (Node × Bool)}
    {bound : Finset String}
    (below : ∀ part ∈ nodes, ∀ thread,
      (walk config home part.1 part.2 bound thread).1.template =
        thread.template)
    (thread : Thread) :
    (walkAll config home nodes bound thread).1.template = thread.template := by
  induction nodes generalizing thread with
  | nil => rfl
  | cons part rest induction =>
      have later := induction fun other member =>
        below other (List.mem_cons_of_mem _ member)
      rw [walkAll_cons, later, below part List.mem_cons_self]

theorem template_walk {node : Node} (free : node.TemplateFree) (exempt : Bool)
    (bound : Finset String) (thread : Thread) :
    (walk config home node exempt bound thread).1.template =
      thread.template := by
  induction node using Node.induction_on_children
    generalizing exempt bound thread with
  | step node induction =>
      obtain ⟨noTemplate, freeBelow⟩ := Node.templateFree_iff.mp free
      have below : ∀ thread, (walkAll config home node.shape.exempted
          (handedDown config node bound) thread).1.template =
            thread.template := by
        apply template_walkAll
        intro part member thread
        have child := Node.mem_children_of_mem_exempted member
        exact induction part.1 child (freeBelow part.1 child) part.2 _ thread
      have unchanged := below (enter config home node thread)
      rw [template_enter noTemplate] at unchanged
      rw [walk_eq, leave]
      split
      · exact unchanged
      · exact unchanged

/-- What a walk finds in nodes if it starts with nothing but the name of the
template. -/
def apart (config : Config) (home template : String) (nodes : List Node) :
    List Diagnostic :=
  nodes.flatMap fun node =>
    (walk config home node false ∅ ⟨none, ∅, template⟩).2

/-- A macro is walked as if it stood alone. -/
theorem walk_definition {node : Node} (isDefinition : node.kind = .definition)
    (exempt : Bool) (bound : Finset String) (thread : Thread) :
    (walk config home node exempt bound thread).2 =
        (walk config home node false ∅ ⟨none, ∅, thread.template⟩).2 ∧
      (walk config home node exempt bound thread).1.inMacro = none := by
  obtain ⟨title, entered⟩ : ∃ title, ∀ thread,
      enter config home node thread = _ :=
    enter_of_definition isDefinition
  have noName : node.kind ≠ .name := by
    rw [isDefinition]
    exact Kind.noConfusion
  have handed : ∀ bound, handedDown config node bound = ∅ := by
    intro bound
    rw [handedDown, isDefinition]
    rfl
  constructor
  · rw [walk_eq, walk_eq, finding?_of_not_name noName,
      finding?_of_not_name noName, handed, handed, entered, entered]
  · rw [walk_eq, leave, if_pos isDefinition]

private theorem walkAll_outside {nodes : List (Node × Bool)}
    {bound : Finset String} (free : ∀ part ∈ nodes, part.1.TemplateFree)
    (below : ∀ part ∈ nodes, ∀ thread : Thread, thread.inMacro = none →
      (walk config home part.1 part.2 bound thread).2 =
          apart config home thread.template part.1.outermostMacros ∧
        (walk config home part.1 part.2 bound thread).1.inMacro = none)
    {thread : Thread} (outside : thread.inMacro = none) :
    (walkAll config home nodes bound thread).2 =
        apart config home thread.template
          ((nodes.map Prod.fst).flatMap Node.outermostMacros) ∧
      (walkAll config home nodes bound thread).1.inMacro = none := by
  induction nodes generalizing thread with
  | nil => exact ⟨rfl, outside⟩
  | cons part rest induction =>
      obtain ⟨found, outsideNext⟩ :=
        below part List.mem_cons_self thread outside
      obtain ⟨foundLater, outsideLater⟩ := induction
        (fun other member => free other (List.mem_cons_of_mem _ member))
        (fun other member => below other (List.mem_cons_of_mem _ member))
          outsideNext
      rw [template_walk (free part List.mem_cons_self)] at foundLater
      refine ⟨?_, outsideLater⟩
      rw [walkAll_cons, found, foundLater, List.map_cons, List.flatMap_cons,
        apart, apart, apart, List.flatMap_append]

private theorem walk_children_outside {node : Node} {bound : Finset String}
    (free : ∀ child ∈ node.children, child.TemplateFree)
    (below : ∀ child ∈ node.children, ∀ (exempt : Bool) (thread : Thread),
      thread.inMacro = none →
      (walk config home child exempt bound thread).2 =
          apart config home thread.template child.outermostMacros ∧
        (walk config home child exempt bound thread).1.inMacro = none)
    {thread : Thread} (outside : thread.inMacro = none) :
    (walkAll config home node.shape.exempted bound thread).2 =
        apart config home thread.template
          (node.children.flatMap Node.outermostMacros) ∧
      (walkAll config home node.shape.exempted bound thread).1.inMacro =
        none := by
  rw [Node.children, ← Shape.map_fst_exempted]
  apply walkAll_outside
  · intro part member
    exact free part.1 (Node.mem_children_of_mem_exempted member)
  · intro part member
    exact below part.1 (Node.mem_children_of_mem_exempted member) part.2
  · exact outside

/-- A walk that starts outside all macros finds what the outermost macros hold,
each of them alone. -/
theorem walk_outside {node : Node} (free : node.TemplateFree) (exempt : Bool)
    (bound : Finset String) {thread : Thread}
    (outside : thread.inMacro = none) :
    (walk config home node exempt bound thread).2 =
        apart config home thread.template node.outermostMacros ∧
      (walk config home node exempt bound thread).1.inMacro = none := by
  induction node using Node.induction_on_children
    generalizing exempt bound thread with
  | step node induction =>
      by_cases isDefinition : node.kind = .definition
      · obtain ⟨found, outsideAfter⟩ :=
          walk_definition isDefinition exempt bound thread
        refine ⟨?_, outsideAfter⟩
        rw [found, Node.outermostMacros_eq, if_pos isDefinition]
        exact (List.flatMap_singleton ..).symm
      · obtain ⟨noTemplate, freeBelow⟩ := Node.templateFree_iff.mp free
        have isOther := Kind.isStart_eq_false.mpr ⟨isDefinition, noTemplate⟩
        have outsideBelow : (enter config home node thread).inMacro = none := by
          rw [enter_of_other isOther]
          split
          · exact outside
          · exact outside
        obtain ⟨found, outsideAfter⟩ := walk_children_outside freeBelow
          (fun child member exempt _ =>
            induction child member (freeBelow child member) exempt
            (handedDown config node bound))
          outsideBelow
        have nothing : finding? config node exempt bound thread = none := by
          rw [finding?, outside]
        rw [template_enter noTemplate] at found
        rw [walk_eq, leave, if_neg isDefinition, nothing,
          Node.outermostMacros_eq, if_neg isDefinition]
        exact ⟨found, outsideAfter⟩

/-- What is found in a template is found in its outermost macros, each of them
alone. -/
theorem findings_of_soleTemplate {root : Node} (sole : root.SoleTemplate)
    {own title : Option String} {body : List Node}
    (shape : root.shape = .template body own)
    (named : Scope.templateName own
        (Scope.templateName title Checker.anonymous) =
      Scope.templateName title Checker.anonymous) :
    findings config title root =
      root.outermostMacros.flatMap (findings config title) := by
  let home := Scope.templateName title Checker.anonymous
  have noName : root.kind ≠ .name := by
    rw [sole.isTemplate]
    exact Kind.noConfusion
  have handed : handedDown config root ∅ = ∅ := by
    rw [handedDown, sole.isTemplate]
    rfl
  have entered : enter config home root ⟨none, ∅, home⟩ = ⟨none, ∅, home⟩ := by
    rw [enter, shape]
    exact congrArg (Thread.mk none ∅) named
  have outside : (Thread.mk none ∅ home).inMacro = none := rfl
  obtain ⟨found, _⟩ := walk_children_outside sole.below
    (fun child member exempt _ =>
      walk_outside (sole.below child member) exempt ∅) outside
  rw [findings, walk_eq, finding?_of_not_name noName, handed, entered, found,
    sole.outermostMacros]
  rfl

end Outside

end Lexical

namespace Linter

theorem titleOf_template {root : Node} (isTemplate : root.kind = .template)
    (name : Option String) :
    ∃ body own title, root.shape = .template body own ∧
      titleOf root name = .ok title ∧
      Scope.templateName own (Scope.templateName title Checker.anonymous) =
        Scope.templateName title Checker.anonymous := by
  obtain ⟨body, own, shape⟩ := Node.shape_of_template isTemplate
  have called : root.shape.called? = some own := by
    rw [shape, Shape.called?]
  cases own with
  | none => exact ⟨body, none, name, shape, by simp [titleOf, called], rfl⟩
  | some own =>
      by_cases empty : own.isEmpty
      · exact ⟨body, some own, name, shape, by simp [titleOf, called, empty],
          by simp [Scope.templateName, empty]⟩
      · exact ⟨body, some own, some own, shape,
          by simp [titleOf, called, empty],
          by simp [Scope.templateName, empty]⟩

/-- A linter that is not strict returns what its checker finds in a walk that
was completed. -/
theorem result_check {config : Config} (lenient : config.strict = false)
    {root given : Node} {name title : Option String}
    (named : titleOf root name = .ok title)
    (completed : (traverse [Checker.visitor { config, title }] root).result =
      .ok given) :
    (check { config } root name).result =
      .ok (traverse [Checker.visitor { config, title }]
        root).journal.findings := by
  let linter : Linter := { config }
  have checked : linter.check root name =
      linter.checkWith [Checker.visitor { config, title }] title root :=
    check_eq_checkWith named
  rw [checked, result_checkWith_of_ok _ _ _ _ completed, result_conclude]
  split
  · rename_i nothing
    rw [nothing]
  · rw [if_neg]
    rw [lenient]
    exact Bool.false_ne_true

theorem result_check_apart {config : Config} (lenient : config.strict = false)
    {root : Node} (sole : root.SoleTemplate) {name title : Option String}
    (named : titleOf root name = .ok title) :
    (check { config } root name).result =
      .ok (root.outermostMacros.flatMap fun inner =>
        (traverse [Checker.visitor { config, title }]
          inner).journal.findings) := by
  let checker : Checker := { config, title }
  have collects : checker.Collects := fun _ => rfl
  have alone : ∀ {node : Node}, node.Admissible →
      (traverse [checker.visitor] node).journal.findings =
        Lexical.findings config title node ∧
        (traverse [checker.visitor] node).result = .ok node :=
    Lexical.findings_of_admissible collects fun _ => rfl
  obtain ⟨found, completed⟩ := alone sole.admissible
  obtain ⟨body, own, other, shape, otherNamed, sameName⟩ :=
    titleOf_template sole.isTemplate name
  obtain rfl : title = other := by
    rw [named] at otherNamed
    exact Except.ok.inj otherNamed
  have macros : root.outermostMacros.flatMap (Lexical.findings config title) =
      root.outermostMacros.flatMap fun inner =>
        (traverse [checker.visitor] inner).journal.findings := by
    apply List.flatMap_congr
    intro inner member
    exact (alone (sole.admissible_macro member)).1.symm
  rw [result_check lenient named completed, found,
    Lexical.findings_of_soleTemplate sole shape sameName, macros]

/-- What a linter finds in a template is found in its outermost macros, in each
of them as if it stood alone.  Templates that hold the same macros in another
order have the same findings in another order. -/
theorem findings_check_apart {config : Config} (lenient : config.strict = false)
    {root : Node} (sole : root.SoleTemplate) (name : Option String) :
    ∃ title, titleOf root name = .ok title ∧
      (check { config } root name).result =
        .ok (root.outermostMacros.flatMap fun inner =>
          (traverse [Checker.visitor { config, title }]
            inner).journal.findings) ∧
      ∀ other : Node, other.SoleTemplate → titleOf other name = .ok title →
        other.outermostMacros.Perm root.outermostMacros →
        ∃ found, (check { config } other name).result = .ok found ∧
          found.Perm (root.outermostMacros.flatMap fun inner =>
            (traverse [Checker.visitor { config, title }]
              inner).journal.findings) := by
  obtain ⟨_, _, title, _, named, _⟩ := titleOf_template sole.isTemplate name
  refine ⟨title, named, result_check_apart lenient sole named, ?_⟩
  intro other otherSole otherNamed same
  exact ⟨_, result_check_apart lenient otherSole otherNamed,
    same.flatMap_right _⟩

/-- A macro that reads the variable of the loop around it. -/
def rowMacro : Node :=
  ⟨10, ⟨2, 0⟩,
    .definition "cell" [] [⟨11, ⟨2, 8⟩, .name "row" "load"⟩] [] none none⟩

/-- A macro that reads what the template has set before it. -/
def totalMacro : Node :=
  ⟨20, ⟨5, 0⟩,
    .definition "footer" [] [⟨21, ⟨5, 8⟩, .name "total" "load"⟩] [] none none⟩

/-- A template that sets a name and holds a macro before and a macro inside a
loop. -/
def table (before inside : Node) : Node :=
  ⟨0, ⟨1, 0⟩, .template
    [⟨1, ⟨1, 2⟩, .assign .plain ⟨2, ⟨1, 6⟩, .name "total" "store"⟩
        ⟨3, ⟨1, 14⟩, .name "sum" "load"⟩⟩, before,
     ⟨4, ⟨4, 0⟩, .loop .plain ⟨5, ⟨4, 4⟩, .name "row" "store"⟩
         ⟨6, ⟨4, 11⟩, .name "rows" "load"⟩ [inside] [] none⟩] none⟩

theorem findings_check_table :
    (table totalMacro rowMacro).SoleTemplate ∧
    ((check {} (table totalMacro rowMacro) none).result.toOption.map
        fun found =>
      found.map fun d => (d.inMacro, d.missing)) =
        some [("footer", "total"), ("cell", "row")] ∧
    ∃ title, titleOf (table totalMacro rowMacro) none = .ok title ∧
      (check {} (table totalMacro rowMacro) none).result =
        .ok ((table totalMacro rowMacro).outermostMacros.flatMap fun inner =>
          (traverse [Checker.visitor { title }] inner).journal.findings) ∧
      ∃ found, (check {} (table rowMacro totalMacro) none).result = .ok found ∧
        found.Perm
          ((table totalMacro rowMacro).outermostMacros.flatMap fun inner =>
          (traverse [Checker.visitor { title }] inner).journal.findings) := by
  have sole : (table totalMacro rowMacro).SoleTemplate :=
    ⟨rfl, by decide +kernel, by decide +kernel, by decide +kernel⟩
  have otherSole : (table rowMacro totalMacro).SoleTemplate :=
    ⟨rfl, by decide +kernel, by decide +kernel, by decide +kernel⟩
  have swapped : (table rowMacro totalMacro).outermostMacros.Perm
      (table totalMacro rowMacro).outermostMacros :=
    List.Perm.swap totalMacro rowMacro []
  have lenient : Config.strict {} = false := rfl
  obtain ⟨title, named, found, permuted⟩ :=
    findings_check_apart lenient sole none
  refine ⟨sole, by decide +kernel, title, named, found, ?_⟩
  exact permuted (table rowMacro totalMacro) otherSole named swapped

end Linter

end ScopeLint
