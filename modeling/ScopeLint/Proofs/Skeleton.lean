import ScopeLint.Proofs.Simulation

/-!
# The skeleton of a tree

The checker looks at few things in a tree: which variables are read, where, and
which nodes bind what.  The skeleton of a tree is what remains when everything
else is wiped out.  Loops of both modes look the same in it, and so do the forms
of assignment, and tuples and lists.  Nodes are told apart by their identities,
but what these are does not matter.  Trees with the same skeleton have the same
findings.
-/

namespace ScopeLint

/-- Wipe out what a shape has besides the nodes in it and the names that are
bound or read.  Of a test it remains whether it asks for definedness, and of a
name whether it is read.  Values in tables count as further arguments. -/
def Shape.skeleton {α : Type} : Shape α → Shape α
  | .literal _ => .literal .null
  | .name word usage => .name word (if isRead usage then "load" else "store")
  | .tuple items _ | .list items => .tuple items "load"
  | .member object _ => .member object ""
  | .call callee args keywords => .call callee (args ++ keywords.values) ∅
  | .filter subject _ args keywords =>
    .filter subject "" (args ++ keywords.values) ∅
  | .test subject title args _ =>
    .test subject (if title = "defined" then title else "") args false
  | .binary left _ right => .binary left "" right
  | .parameter title _ => .parameter title none
  | .callBlock head slots args =>
    .callBlock head ∅ (slots.values.flatten ++ args)
  | .loop _ target source body empty only =>
    .loop .plain target source body empty only
  | .output value _ => .output value true
  | .text _ => .text ""
  | .assign _ target value => .assign .plain target value
  | shape => shape

/-- The skeleton of a tree, with labels for identities.  Names alone keep their
positions. -/
def Node.skeleton (label : Nat → Nat) : Node → Node :=
  Node.fold fun node below =>
    ⟨label node.id, if node.kind = .name then node.position else ⟨0, 0⟩,
      (below.map fun part => part ()).skeleton⟩

/-- What a role is when identities are replaced by labels. -/
def Role.labelled (label : Nat → Nat) : Role → Role
  | .guard subject => .guard (label subject)
  | role => role

theorem Shape.parts_skeleton {α : Type} (shape : Shape α) :
    shape.skeleton.parts = shape.parts := by
  have noValues : (∅ : Keyed α).values = [] := rfl
  have noSlots : (∅ : Keyed (List α)).values = [] := rfl
  cases shape <;> simp [skeleton, parts, noValues, noSlots]

namespace Node

variable (label : Nat → Nat)

theorem skeleton_eq (node : Node) :
    node.skeleton label =
      ⟨label node.id, if node.kind = .name then node.position else ⟨0, 0⟩,
        (node.shape.map (skeleton label)).skeleton⟩ := by
  rw [skeleton, fold_eq, Shape.map_map]

theorem shape_skeleton (node : Node) :
    (node.skeleton label).shape =
      (node.shape.map (skeleton label)).skeleton := by
  rw [skeleton_eq]

theorem id_skeleton (node : Node) :
    (node.skeleton label).id = label node.id := by
  rw [skeleton_eq]

theorem position_skeleton {node : Node} (isName : node.kind = .name) :
    (node.skeleton label).position = node.position := by
  rw [skeleton_eq]
  exact if_pos isName

theorem children_skeleton (node : Node) :
    (node.skeleton label).children = node.children.map (skeleton label) := by
  rw [children, shape_skeleton, Shape.parts_skeleton, Shape.parts_map]
  rfl

theorem params_skeleton (node : Node) :
    (node.skeleton label).shape.params =
      node.shape.params.map (skeleton label) := by
  rw [shape_skeleton]
  cases node.shape <;> rfl

theorem kind_skeleton_eq_parameter {node : Node} :
    (node.skeleton label).kind = .parameter ↔ node.kind = .parameter := by
  rw [kind, kind, shape_skeleton]
  cases node.shape with
  | loop mode => cases mode <;> simp [Shape.map, Shape.skeleton, Shape.kind]
  | assign form => cases form <;> simp [Shape.map, Shape.skeleton, Shape.kind]
  | _ => simp [Shape.map, Shape.skeleton, Shape.kind]

theorem targetNames_skeleton (node : Node) :
    (node.skeleton label).targetNames = node.targetNames := by
  induction node using induction_on_children with
  | step node induction =>
      rw [targetNames_eq, targetNames_eq, shape_skeleton]
      rw [children] at induction
      cases shape : node.shape with
      | tuple items usage =>
          rw [shape] at induction
          simp only [Shape.map, Shape.skeleton, List.flatMap_map]
          exact List.flatMap_congr induction
      | list items =>
          rw [shape] at induction
          simp only [Shape.map, Shape.skeleton, List.flatMap_map]
          exact List.flatMap_congr induction
      | _ => rfl

theorem parameterNames_skeleton {params : List Node}
    (plain : ∀ param ∈ params, param.kind = .parameter) :
    parameterNames (params.map (skeleton label)) = parameterNames params := by
  induction params with
  | nil => rfl
  | cons param rest induction =>
      have later := induction fun other member =>
        plain other (List.mem_cons_of_mem _ member)
      obtain ⟨title, typing, shape⟩ :=
        shape_of_parameter (plain param List.mem_cons_self)
      rw [List.map_cons, parameterNames, parameterNames, shape_skeleton,
        shape, later]
      rfl

/-- What a node means can be read off its skeleton. -/
theorem role_skeleton (config : Config) {node : Node}
    (plain : ∀ param ∈ node.shape.params, param.kind = .parameter) :
    (node.skeleton label).role config = (node.role config).labelled label := by
  rw [role, role, shape_skeleton]
  cases shape : node.shape with
  | definition title params body defaults rest named =>
      have plainParams : ∀ param ∈ params, param.kind = .parameter := by
        rwa [shape] at plain
      simp only [Shape.map, Shape.skeleton,
        parameterNames_skeleton label plainParams]
      rfl
  | loop mode target source body empty only =>
      simp only [Shape.map, Shape.skeleton, loopNames, targetNames_skeleton]
      rfl
  | assign form target value =>
      simp only [Shape.map, Shape.skeleton, targetNames_skeleton]
      rfl
  | test subject title args negated =>
      simp only [Shape.map, Shape.skeleton, shape_skeleton, id_skeleton]
      cases subject.shape with
      | name word usage =>
          dsimp only [Shape.map, Shape.skeleton]
          by_cases asked : title = "defined"
          · simp [asked, Role.labelled]
          · simp [asked, Role.labelled]
      | _ => rfl
  | name word usage =>
      have sameUse : isRead (if isRead usage then "load" else "store") =
          isRead usage := by
        cases isRead usage <;> rfl
      simp only [Shape.map, Shape.skeleton, sameUse]
      cases isRead usage <;> rfl
  | _ => rfl

end Node

/-! ## Trees with one skeleton -/

/-- Labels tell apart what identities tell apart. -/
def Faithful (label : Nat → Nat) (nodes : List Node) : Prop :=
  ∀ node ∈ nodes, ∀ other ∈ nodes, label node.id = label other.id →
    node.id = other.id

theorem Faithful.label_eq_iff {label : Nat → Nat} {nodes : List Node}
    (faithful : Faithful label nodes) {node other : Node}
    (member : node ∈ nodes) (otherMember : other ∈ nodes) :
    label node.id = label other.id ↔ node.id = other.id := by
  constructor
  · exact faithful node member other otherMember
  · intro equal
    rw [equal]

/-- Two trees with the same skeleton when the identities in the first are
replaced by labels.  What is one node in the first tree is one node in the
second, and what is one node in the second is one node in the first. -/
structure SameSkeleton (label : Nat → Nat) (first second : Node) : Prop where
  skeleton : second.skeleton id = first.skeleton label
  sharing : Faithful label first.nodes

/-- Corresponding nodes of two trees with one skeleton, the first of which is
made up of some given nodes. -/
structure Bones (label : Nat → Nat) (nodes : List Node) (node other : Node) :
    Prop where
  plain : node.PlainParameters
  inside : ∀ inner ∈ node.nodes, inner ∈ nodes
  skeleton : other.skeleton id = node.skeleton label

namespace Bones

variable {label : Nat → Nat} {nodes : List Node}

theorem hereditary : Hereditary (Bones label nodes) := by
  intro node other alike
  have skeletons :
      List.Forall₂ (fun skeleton otherSkeleton => otherSkeleton = skeleton)
        (node.children.map (Node.skeleton label))
        (other.children.map (Node.skeleton id)) := by
    rw [← node.children_skeleton, ← other.children_skeleton, alike.skeleton,
      List.forall₂_same]
    exact fun _ _ => rfl
  rw [List.forall₂_map_left_iff, List.forall₂_map_right_iff] at skeletons
  have fit : ∀ child ∈ node.children,
      child.PlainParameters ∧ ∀ inner ∈ child.nodes, inner ∈ nodes := by
    intro child member
    constructor
    · intro inner inside
      exact alike.plain inner (Node.mem_nodes_of_mem_children member inside)
    · intro inner inside
      exact alike.inside inner (Node.mem_nodes_of_mem_children member inside)
  apply ((List.forall₂_and_left _ _).mpr ⟨fit, skeletons⟩).imp
  rintro child otherChild ⟨⟨plain, inside⟩, skeleton⟩
  exact ⟨plain, inside, skeleton⟩

variable {node other : Node}

theorem role (alike : Bones label nodes node other) (config : Config) :
    other.role config = (node.role config).labelled label := by
  have plain := alike.plain node node.mem_nodes_self
  -- Skeletons tell parameters from other nodes, so the second tree has plain
  -- ones too.
  have otherPlain : ∀ param ∈ other.shape.params, param.kind = .parameter := by
    intro param member
    have mapped : other.shape.params.map (Node.skeleton id) =
        node.shape.params.map (Node.skeleton label) := by
      rw [← other.params_skeleton, ← node.params_skeleton, alike.skeleton]
    have found :
        param.skeleton id ∈ node.shape.params.map (Node.skeleton label) := by
      rw [← mapped]
      exact List.mem_map_of_mem member
    obtain ⟨origin, originMember, same⟩ := List.mem_map.mp found
    rw [← Node.kind_skeleton_eq_parameter id, ← same,
      Node.kind_skeleton_eq_parameter]
    exact plain origin originMember
  have unchanged : (other.role config).labelled id = other.role config := by
    cases other.role config <;> rfl
  rw [← unchanged, ← Node.role_skeleton id config otherPlain, alike.skeleton,
    Node.role_skeleton label config plain]

theorem id_eq (alike : Bones label nodes node other) :
    other.id = label node.id := by
  have same := congrArg Node.id alike.skeleton
  rwa [Node.id_skeleton, Node.id_skeleton] at same

theorem position_eq (alike : Bones label nodes node other) {config : Config}
    {name : String} (reads : node.role config = .reference name) :
    other.position = node.position := by
  have isName := node.kind_of_role config
  have otherIsName := other.kind_of_role config
  rw [alike.role, reads] at otherIsName
  rw [reads] at isName
  have same := congrArg Node.position alike.skeleton
  rwa [Node.position_skeleton _ isName,
    Node.position_skeleton _ otherIsName] at same

/-- The name that a test asks for is one of the given nodes. -/
theorem subject_mem (alike : Bones label nodes node other) {config : Config}
    {id : Nat} (guards : node.role config = .guard id) :
    ∃ subject ∈ nodes, subject.id = id := by
  obtain ⟨subject, args, negated, shape, _, same⟩ := Node.shape_of_guard guards
  refine ⟨subject, ?_, same⟩
  have child : subject ∈ node.children := by
    rw [Node.children, shape]
    exact List.mem_cons_self
  exact alike.inside subject
    (Node.mem_nodes_of_mem_children child subject.mem_nodes_self)

end Bones

/-- Scopes that differ in the identities of guarded nodes only. -/
structure Scope.SameUpTo (label : Nat → Nat) (nodes : List Node)
    (scope other : Scope) : Prop where
  inMacro : other.inMacro = scope.inMacro
  names : other.names = scope.names
  frames : other.frames = scope.frames
  template : other.template = scope.template
  guarded : ∀ node ∈ nodes, label node.id ∈ other.guarded ↔
    node.id ∈ scope.guarded

namespace Scope.SameUpTo

variable {label : Nat → Nat} {nodes : List Node} {scope other : Scope}

theorem fresh (template : String) :
    SameUpTo label nodes (Scope.fresh template) (Scope.fresh template) :=
  ⟨rfl, rfl, rfl, rfl, fun _ _ => by simp [Scope.fresh]⟩

theorem guard (same : SameUpTo label nodes scope other)
    (sharing : Faithful label nodes)
    {subject : Node} (member : subject ∈ nodes) :
    SameUpTo label nodes (scope.guard subject.id)
      (other.guard (label subject.id)) := by
  refine ⟨same.inMacro, same.names, same.frames, same.template, ?_⟩
  intro node nodeMember
  rw [mem_guard, mem_guard, same.guarded node nodeMember,
    sharing.label_eq_iff nodeMember member]

theorem unguard (same : SameUpTo label nodes scope other)
    (sharing : Faithful label nodes)
    {subject : Node} (member : subject ∈ nodes) :
    SameUpTo label nodes (scope.unguard subject.id)
      (other.unguard (label subject.id)) := by
  refine ⟨same.inMacro, same.names, same.frames, same.template, ?_⟩
  intro node nodeMember
  simp only [Scope.unguard, List.mem_filter, decide_eq_true_eq,
    same.guarded node nodeMember, ne_eq, sharing.label_eq_iff nodeMember member]

theorem enter (same : SameUpTo label nodes scope other)
    (sharing : Faithful label nodes)
    (home : String) {role : Role}
    (known : ∀ id, role = .guard id → ∃ subject ∈ nodes, subject.id = id) :
    SameUpTo label nodes (scope.enter home role)
      (other.enter home (role.labelled label)) := by
  obtain ⟨inMacro, names, frames, template, guarded⟩ := same
  cases role with
  | template title => exact fresh _
  | definition title inputs =>
      cases inputs with
      | error kind => exact ⟨rfl, rfl, frames, template, guarded⟩
      | ok inputs => exact ⟨rfl, rfl, frames, template, guarded⟩
  | block added =>
      refine ⟨inMacro, ?_, ?_, template, guarded⟩
      · exact congrArg (· ++ added.map some) names
      · simp only [Role.labelled, Scope.enter, openBlock, names, frames]
  | binding added =>
      exact ⟨inMacro, congrArg (· ++ added.map some) names, frames,
        template, guarded⟩
  | guard id =>
      obtain ⟨subject, member, rfl⟩ := known id rfl
      exact guard ⟨inMacro, names, frames, template, guarded⟩ sharing member
  | reference name => exact ⟨inMacro, names, frames, template, guarded⟩
  | plain => exact ⟨inMacro, names, frames, template, guarded⟩

theorem leave (same : SameUpTo label nodes scope other)
    (sharing : Faithful label nodes) {role : Role}
    (known : ∀ id, role = .guard id → ∃ subject ∈ nodes, subject.id = id) :
    (∃ left otherLeft, scope.leave role = .ok left ∧
      other.leave (role.labelled label) = .ok otherLeft ∧
      SameUpTo label nodes left otherLeft) ∨
    ∃ failure, scope.leave role = .error failure ∧
      other.leave (role.labelled label) = .error failure := by
  obtain ⟨inMacro, names, frames, template, guarded⟩ := same
  cases role with
  | definition title inputs =>
      exact .inl ⟨_, _, rfl, rfl, rfl, names, frames, template, guarded⟩
  | block added =>
      cases opened : scope.frames with
      | nil =>
          right
          refine ⟨.noOpenFrame, ?_, ?_⟩
          · simp [Scope.leave, closeBlock?, opened]
          · simp [Role.labelled, Scope.leave, closeBlock?, frames, opened]
      | cons frame rest =>
          have leaves := leave_block added opened
          have otherLeaves := leave_block added (frames.trans opened)
          refine .inl ⟨_, _, leaves, otherLeaves, inMacro, ?_, rfl,
            template, guarded⟩
          rw [names]
  | guard id =>
      obtain ⟨subject, member, rfl⟩ := known id rfl
      have unguarded :=
        unguard ⟨inMacro, names, frames, template, guarded⟩ sharing member
      exact .inl ⟨_, _, rfl, rfl, unguarded⟩
  | _ => exact .inl ⟨_, _, rfl, rfl, inMacro, names, frames, template, guarded⟩

theorem finding?_eq (same : SameUpTo label nodes scope other) (config : Config)
    {node otherNode : Node} (alike : Bones label nodes node otherNode) :
    other.finding? config otherNode = scope.finding? config node := by
  rw [finding?, finding?, alike.role, same.inMacro]
  cases scope.inMacro with
  | none => rfl
  | some title =>
      cases role : node.role config with
      | reference name =>
          have member : node ∈ nodes := alike.inside node node.mem_nodes_self
          have silent :
              otherNode.id ∈ other.guarded ∨ other.Declares config name ↔
                node.id ∈ scope.guarded ∨ scope.Declares config name := by
            rw [alike.id_eq, same.guarded node member, Declares, Declares,
              same.names]
          simp only [Role.labelled, silent, alike.position_eq role,
            same.template]
      | _ => rfl

end Scope.SameUpTo

namespace Checker

theorem simulation_bones (config : Config) (title : Option String)
    {label : Nat → Nat} {nodes : List Node}
    (sharing : Faithful label nodes) :
    Simulation { config, title } { config, title } (Bones label nodes)
      (Scope.SameUpTo label nodes) id := by
  constructor
  · exact Bones.hereditary
  · intro node other alike
    rw [alike.role]
    cases node.role config <;> rfl
  · intro scope otherScope node other same alike
    rw [alike.role]
    exact same.enter sharing _ fun id guards => alike.subject_mem guards
  · intro scope otherScope node other same alike
    rw [alike.role]
    exact same.leave sharing fun id guards => alike.subject_mem guards
  · intro scope otherScope node other same alike
    rw [same.finding?_eq config alike, Option.map_id_apply]

/-- Trees with the same skeleton and the same sharing have the same findings,
and their walks come to the same end. -/
theorem pass_sameSkeleton (config : Config) (title : Option String)
    {label : Nat → Nat} {first second : Node}
    (same : SameSkeleton label first second) (plain : first.PlainParameters) :
    ((visitor { config, title }).pass second).journal.findings =
        ((visitor { config, title }).pass first).journal.findings ∧
      ∃ outcome : Except Failure Unit,
        ((visitor { config, title }).pass first).result =
          outcome.map (fun _ => first) ∧
        ((visitor { config, title }).pass second).result =
          outcome.map fun _ => second := by
  have walks := (simulation_bones config title same.sharing).walksAlike
    (Scope.SameUpTo.fresh (home { config, title }))
    ⟨plain, fun _ member => member, same.skeleton⟩
  refine ⟨?_, walks.result⟩
  have findings := walks.findings
  rw [List.map_id] at findings
  exact findings

/-- A macro with a loop, and a test whose subject is also its argument.  Two
such macros may differ in identities, in the modes and forms of their
statements, in the positions of these, and in the names that no variable has. -/
def forecast (shift : Nat) (mode : LoopMode) (form : Assignment)
    (group : List Node → Shape Node) (column : Int) (field key : String)
    (negated : Bool) : Node :=
  let read (id : Nat) (line : Int) (word : String) : Node :=
    ⟨id + shift, ⟨line, 3⟩, .name word "load"⟩
  let bound (id : Nat) (word : String) : Node :=
    ⟨id + shift, ⟨2, 8⟩, .name word "store"⟩
  let note := read 20 5 "note"
  ⟨0 + shift, ⟨1, column⟩,
    .definition "forecast" [⟨1 + shift, ⟨1, 13⟩, .parameter "days" none⟩]
    [⟨2 + shift, ⟨2, column⟩, .loop mode
       ⟨3 + shift, ⟨2, column⟩,
         group [bound 4 "day", bound 5 "high"]⟩ (read 6 2 "days")
       [⟨7 + shift, ⟨3, column⟩, .assign form (bound 8 "warmest")
         ⟨9 + shift, ⟨3, column⟩, .call (read 10 3 "max") [read 11 3 "high"]
           ⟨[key], by simp, fun _ =>
             ⟨12 + shift, ⟨3, column⟩, .member (read 13 3 "day") field⟩⟩⟩⟩]
       [] none⟩,
     ⟨14 + shift, ⟨4, column⟩, .test note "defined" [note] negated⟩,
     note] [] none none⟩

theorem pass_sameSkeleton_forecast :
    let plain :=
      forecast 0 .plain .plain (.tuple · "store") 0 "high" "key" false
    let fancy := forecast 30 .async .exported .list 4 "low" "by" true
    SameSkeleton (· + 30) plain fancy ∧
    plain.PlainParameters ∧
    ((visitor {}).pass plain).journal.findings.map
        (fun d => (d.missing, d.line)) =
      [("max", 3), ("note", 5)] ∧
    ((visitor {}).pass fancy).journal.findings =
      ((visitor {}).pass plain).journal.findings := by
  intro plain fancy
  have same : SameSkeleton (· + 30) plain fancy := by
    constructor
    · rfl
    · intro node _ other _ equal
      exact Nat.add_right_cancel equal
  have plainParameters : plain.PlainParameters := by decide +kernel
  refine ⟨same, plainParameters, by decide +kernel, ?_⟩
  exact (pass_sameSkeleton {} none same plainParameters).1

end Checker

end ScopeLint
