import ScopeLint.Proofs.Lexical
import ScopeLint.Proofs.Skeleton

/-!
# Unfolding shared nodes

A node that is reached along several ways has one identity, and occurs once for
each of these ways.  The unfolding of a tree gives every occurrence an identity
of its own, which is found from its path, and leaves everything else as it is.
-/

namespace ScopeLint

section Places

variable {α β γ Group Other : Type}

theorem mapIdx_map (f : Nat → β → γ) (g : α → β) (items : List α) :
    (items.map g).mapIdx f = items.mapIdx fun place a => f place (g a) := by
  induction items generalizing f with
  | nil => rfl
  | cons head rest induction =>
      rw [List.map_cons, List.mapIdx_cons, List.mapIdx_cons, induction]

/-- What does not depend on places can be computed without them. -/
theorem map_mapIdx_of_forall {f : Nat → α → β} {g : β → γ} {h : α → γ}
    {items : List α} (same : ∀ place, ∀ a ∈ items, g (f place a) = h a) :
    (items.mapIdx f).map g = items.map h := by
  induction items generalizing f with
  | nil => rfl
  | cons head rest induction =>
      have later :=
        induction (f := fun place => f (place + 1)) fun place a member =>
          same (place + 1) a (List.mem_cons_of_mem _ member)
      rw [List.mapIdx_cons, List.map_cons, List.map_cons,
        same 0 head List.mem_cons_self, later]

/-- How many parts stand in the groups before one of them. -/
def placesBefore (parts : Group → List α) (groups : List Group)
    (index : Nat) : Nat :=
  ((groups.take index).flatMap parts).length

theorem placesBefore_cons (parts : Group → List α) (group : Group)
    (rest : List Group) (index : Nat) :
    placesBefore parts (group :: rest) (index + 1) =
      placesBefore parts rest index + (parts group).length := by
  simp [placesBefore, Nat.add_comm]

theorem placesBefore_map {parts : Group → List α} {otherParts : Other → List β}
    {lift : Group → Other}
    (same : ∀ group, (otherParts (lift group)).length = (parts group).length)
    (groups : List Group) (index : Nat) :
    placesBefore otherParts (groups.map lift) index =
      placesBefore parts groups index := by
  simp [placesBefore, ← List.map_take, List.length_flatMap,
    Function.comp_def, same]

/-- The parts of several groups, changed group by group, are changed as in one
list. -/
theorem flatMap_mapIdx_groups {parts : Group → List α}
    {otherParts : Other → List β} {visit : (Nat → α → β) → Group → Other}
    (fits : ∀ f group, otherParts (visit f group) = (parts group).mapIdx f)
    (f : Nat → α → β) (groups : List Group) :
    ((groups.mapIdx fun index => visit fun place =>
      f (place + placesBefore parts groups index)).flatMap otherParts) =
        (groups.flatMap parts).mapIdx f := by
  induction groups generalizing f with
  | nil => rfl
  | cons group rest induction =>
      have later := induction fun place => f (place + (parts group).length)
      rw [List.mapIdx_cons, List.flatMap_cons, List.flatMap_cons,
        List.mapIdx_append, fits, ← later]
      simp only [placesBefore_cons, Nat.add_assoc]
      rfl

end Places

def Keyed.mapIdx {α β : Type} (f : Nat → α → β) (table : Keyed α) : Keyed β :=
  ⟨table.keys, table.distinct, fun i => f i (table.value i)⟩

@[simp] theorem Keyed.values_mapIdx {α β : Type} (f : Nat → α → β)
    (table : Keyed α) :
    (table.mapIdx f).values = table.values.mapIdx f := by
  apply List.ext_getElem
  · simp [values, mapIdx]
  · intro index inside otherInside
    simp [values, mapIdx]

def Branch.mapIdx {α β : Type} (f : Nat → α → β) (branch : Branch α) :
    Branch β :=
  ⟨f 0 branch.test, branch.body.mapIdx fun place => f (place + 1)⟩

def Arm.mapIdx {α β : Type} (f : Nat → α → β) (arm : Arm α) : Arm β :=
  ⟨f 0 arm.pattern, arm.condition.map (f 1),
    arm.body.mapIdx fun place => f (place + arm.condition.toList.length + 1)⟩

theorem Keyed.mapIdx_map {α β γ : Type} (f : Nat → β → γ) (g : α → β)
    (table : Keyed α) :
    (table.map g).mapIdx f = table.mapIdx fun place a => f place (g a) := rfl

theorem Branch.mapIdx_map {α β γ : Type} (f : Nat → β → γ) (g : α → β)
    (branch : Branch α) :
    (branch.map g).mapIdx f = branch.mapIdx fun place a => f place (g a) := by
  simp [map, mapIdx, ScopeLint.mapIdx_map]

theorem Arm.mapIdx_map {α β γ : Type} (f : Nat → β → γ) (g : α → β)
    (arm : Arm α) :
    (arm.map g).mapIdx f = arm.mapIdx fun place a => f place (g a) := by
  obtain ⟨pattern, condition, body⟩ := arm
  cases condition <;> simp [map, mapIdx, ScopeLint.mapIdx_map]

theorem Branch.parts_mapIdx {α β : Type} (f : Nat → α → β) (branch : Branch α) :
    (branch.mapIdx f).parts = branch.parts.mapIdx f := by
  rw [parts, parts, List.mapIdx_cons]
  rfl

theorem Arm.parts_mapIdx {α β : Type} (f : Nat → α → β) (arm : Arm α) :
    (arm.mapIdx f).parts = arm.parts.mapIdx f := by
  obtain ⟨pattern, condition, body⟩ := arm
  cases condition <;> simp [parts, mapIdx]

namespace Shape

variable {α β γ : Type}

/-- Change what stands in the holes of a shape, where the change may depend on
the place among its parts. -/
def mapIdx (f : Nat → α → β) : Shape α → Shape β
  | bare => bare
  | expression => expression
  | literal value => literal value
  | name word usage => name word usage
  | tuple items usage => tuple (items.mapIdx f) usage
  | list items => list (items.mapIdx f)
  | member object field => member (f 0 object) field
  | call callee args keywords =>
    call (f 0 callee) (args.mapIdx fun place => f (place + 1))
      (keywords.mapIdx fun place => f (place + args.length + 1))
  | filter subject title args keywords =>
    filter (f 0 subject) title (args.mapIdx fun place => f (place + 1))
      (keywords.mapIdx fun place => f (place + args.length + 1))
  | test subject title args negated =>
    test (f 0 subject) title (args.mapIdx fun place => f (place + 1)) negated
  | binary left operator right => binary (f 0 left) operator (f 1 right)
  | lambda params body => lambda params (f 0 body)
  | parameter title typing => parameter title typing
  | definition title params body defaults rest named =>
    definition title (params.mapIdx f)
      (body.mapIdx fun place => f (place + params.length))
      (defaults.mapIdx fun place => f (place + (params ++ body).length))
      rest named
  | callBlock head slots args =>
    callBlock (f 0 head)
      (slots.mapIdx fun index => List.mapIdx fun place =>
        f (place + placesBefore id slots.values index + 1))
      (args.mapIdx fun place => f (place + slots.values.flatten.length + 1))
  | conditional first body branches otherwise =>
    conditional (f 0 first) (body.mapIdx fun place => f (place + 1))
      (branches.mapIdx fun index => Branch.mapIdx fun place =>
        f (place + placesBefore Branch.parts branches index + body.length + 1))
      (otherwise.mapIdx fun place =>
        f (place + (branches.flatMap Branch.parts).length + body.length + 1))
  | loop mode target source body empty only =>
    loop mode (f 0 target) (f 1 source)
      (body.mapIdx fun place => f (place + 1 + 1))
      (empty.mapIdx fun place => f (place + body.length + 1 + 1))
      (only.map (f ((body ++ empty).length + 1 + 1)))
  | switch subject arms =>
    switch (subject.map (f 0))
      (arms.mapIdx fun index => Arm.mapIdx fun place =>
        f (place + placesBefore Arm.parts arms index + subject.toList.length))
  | output value escape => output (f 0 value) escape
  | text value => text value
  | importModule source target => importModule (f 0 source) target
  | importNames source names => importNames (f 0 source) names
  | template body title => template (body.mapIdx f) title
  | assign form target value => assign form (f 0 target) (f 1 value)
  | capture title body through =>
    capture title (body.mapIdx f) (through.map (f body.length))

theorem parts_mapIdx (f : Nat → α → β) (shape : Shape α) :
    (shape.mapIdx f).parts = shape.parts.mapIdx f := by
  cases shape with
  | callBlock head slots args =>
      have groups : (slots.values.mapIdx fun index => List.mapIdx fun place =>
          f (place + placesBefore id slots.values index + 1)).flatMap id =
            (slots.values.flatMap id).mapIdx fun place => f (place + 1) :=
        flatMap_mapIdx_groups (fun _ _ => rfl) (fun place => f (place + 1))
          slots.values
      simp only [List.flatMap_id] at groups
      simp [mapIdx, parts, List.mapIdx_append, groups]
  | conditional first body branches otherwise =>
      have groups := flatMap_mapIdx_groups Branch.parts_mapIdx
        (fun place => f (place + body.length + 1)) branches
      simp only [Nat.add_assoc] at groups
      simp [mapIdx, parts, List.mapIdx_append, groups, Nat.add_assoc]
  | switch subject arms =>
      have groups := flatMap_mapIdx_groups Arm.parts_mapIdx
        (fun place => f (place + subject.toList.length)) arms
      cases subject <;> simp_all [mapIdx, parts]
  | loop mode target source body empty only =>
      cases only <;> simp [mapIdx, parts, List.mapIdx_append, Nat.add_comm,
        Nat.add_left_comm]
  | definition title params body defaults rest named =>
      simp [mapIdx, parts, List.mapIdx_append, Nat.add_comm, Nat.add_left_comm]
  | capture title body through => cases through <;> simp [mapIdx, parts]
  | _ => simp [mapIdx, parts, List.mapIdx_append]

theorem mapIdx_map (f : Nat → β → γ) (g : α → β) (shape : Shape α) :
    (shape.map g).mapIdx f = shape.mapIdx fun place a => f place (g a) := by
  cases shape with
  | callBlock head slots args =>
      have sizes : ∀ slot : List α,
          (id (slot.map g)).length = (id slot).length :=
        fun slot => List.length_map g
      have before := placesBefore_map sizes slots.values
      simp [mapIdx, map, ScopeLint.mapIdx_map, before, Keyed.mapIdx_map,
        Function.comp_def]
  | conditional first body branches otherwise =>
      have sizes : ∀ branch : Branch α,
          (branch.map g).parts.length = branch.parts.length := by
        intro branch
        simp [Branch.parts, Branch.map]
      have before := placesBefore_map sizes branches
      simp [mapIdx, map, ScopeLint.mapIdx_map, before, Branch.mapIdx_map,
        Function.comp_def, sizes]
  | switch subject arms =>
      have sizes : ∀ arm : Arm α,
          (arm.map g).parts.length = arm.parts.length := by
        intro arm
        simp [Arm.parts, Arm.map, Option.toList_map]
      have before := placesBefore_map sizes arms
      cases subject <;>
        simp [mapIdx, map, ScopeLint.mapIdx_map, before, Arm.mapIdx_map]
  | _ =>
      simp [mapIdx, map, ScopeLint.mapIdx_map, Keyed.mapIdx_map,
        Function.comp_def]

theorem definedTest?_mapIdx (f : Nat → α → β) (shape : Shape α) :
    (shape.mapIdx f).definedTest? =
      shape.definedTest?.map fun asked =>
        (f 0 asked.1, asked.2.mapIdx fun place => f (place + 1)) := by
  cases shape with
  | test subject title args negated =>
      by_cases isDefined : title = "defined" <;>
        simp [mapIdx, definedTest?, isDefined]
  | _ => rfl

end Shape

namespace Node

/-- The tree in which the occurrence at each path has the identity for that
path. -/
def unfold : Node → (List Nat → Nat) → Node :=
  fold fun node below identity =>
    ⟨identity [], node.position,
      below.mapIdx fun place part =>
        part () fun path => identity (place :: path)⟩

theorem unfold_eq (node : Node) (identity : List Nat → Nat) :
    node.unfold identity =
      ⟨identity [], node.position,
        node.shape.mapIdx fun place child =>
          child.unfold fun path => identity (place :: path)⟩ := by
  rw [unfold, fold_eq, Shape.mapIdx_map]

end Node

/-- What an occurrence is in the unfolding of the tree. -/
def Occurrence.unfold (identity : List Nat → Nat) (occurrence : Occurrence) :
    Occurrence :=
  ⟨occurrence.path,
    occurrence.node.unfold fun path => identity (occurrence.path ++ path)⟩

def Event.unfold (identity : List Nat → Nat) (event : Event) : Event :=
  ⟨event.toOccurrence.unfold identity, event.hook⟩

namespace Node

variable (identity : List Nat → Nat)

theorem id_unfold (node : Node) : (node.unfold identity).id = identity [] := by
  rw [unfold_eq]

theorem position_unfold (node : Node) :
    (node.unfold identity).position = node.position := by
  rw [unfold_eq]

theorem shape_unfold (node : Node) :
    (node.unfold identity).shape =
      node.shape.mapIdx fun place child =>
        child.unfold fun path => identity (place :: path) := by
  rw [unfold_eq]

theorem children_unfold (node : Node) :
    (node.unfold identity).children =
      node.children.mapIdx fun place child =>
        child.unfold fun path => identity (place :: path) := by
  rw [children, shape_unfold, Shape.parts_mapIdx]
  rfl

private theorem eventsOf_unfold {siblings : List Node}
    (below : ∀ child ∈ siblings, ∀ identity,
      (child.unfold identity).events = child.events.map (Event.unfold identity))
    (first : Nat) :
    eventsOf first (siblings.mapIdx fun place child =>
        child.unfold fun path => identity ((place + first) :: path)) =
      (eventsOf first siblings).map (Event.unfold identity) := by
  induction siblings generalizing first with
  | nil => rfl
  | cons child rest induction =>
      have later := induction (fun other member =>
        below other (List.mem_cons_of_mem _ member)) (first + 1)
      have here :=
        below child List.mem_cons_self fun path => identity (first :: path)
      simp only [← Nat.add_assoc] at later
      rw [List.mapIdx_cons, eventsOf_cons, eventsOf_cons, List.map_append,
        ← later, List.map_map]
      simp only [Nat.zero_add, here, List.map_map, Nat.add_right_comm _ 1 first]
      rfl

/-- The walk of the unfolding goes through the same events. -/
theorem events_unfold (node : Node) :
    (node.unfold identity).events =
      node.events.map (Event.unfold identity) := by
  induction node using induction_on_children generalizing identity with
  | step node induction =>
      have below := eventsOf_unfold identity
        (fun child member identity => induction child member identity) 0
      rw [events_eq, events_eq, children_unfold, List.map_cons,
        List.map_append, ← below]
      rfl

theorem targetNames_unfold (node : Node) :
    (node.unfold identity).targetNames = node.targetNames := by
  induction node using induction_on_children generalizing identity with
  | step node induction =>
      rw [targetNames_eq, targetNames_eq, shape_unfold]
      rw [children] at induction
      cases shape : node.shape with
      | tuple items usage =>
          rw [shape] at induction
          simp only [Shape.mapIdx, List.flatMap_def]
          exact congrArg List.flatten
            (map_mapIdx_of_forall fun place item member =>
              induction item member _)
      | list items =>
          rw [shape] at induction
          simp only [Shape.mapIdx, List.flatMap_def]
          exact congrArg List.flatten
            (map_mapIdx_of_forall fun place item member =>
              induction item member _)
      | _ => rfl

theorem called?_unfold (node : Node) :
    (node.unfold identity).shape.called? = node.shape.called? := by
  rw [shape_unfold]
  cases node.shape with
  | assign form => cases form <;> rfl
  | _ => rfl

theorem kind_unfold (node : Node) :
    (node.unfold identity).kind = node.kind := by
  rw [kind, kind, shape_unfold]
  cases node.shape with
  | loop mode => cases mode <;> rfl
  | assign form => cases form <;> rfl
  | _ => rfl

theorem parameterNames_unfold (identity : Nat → List Nat → Nat)
    (params : List Node) :
    parameterNames
        (params.mapIdx fun place param => param.unfold (identity place)) =
      parameterNames params := by
  induction params generalizing identity with
  | nil => rfl
  | cons param rest induction =>
      rw [List.mapIdx_cons, parameterNames, parameterNames, called?_unfold,
        kind_unfold, induction fun place => identity (place + 1)]

/-- What a node means does not change, but that a test guards the name with the
new identity. -/
theorem role_unfold (config : Config) (node : Node) :
    (node.unfold identity).role config =
      (node.role config).labelled fun _ => identity [0] := by
  rw [role, role, shape_unfold]
  cases node.shape with
  | definition title params body defaults rest named =>
      simp only [Shape.mapIdx,
        parameterNames_unfold
          (fun place path => identity (place :: path)) params]
      rfl
  | loop mode target source body empty only =>
      simp only [Shape.mapIdx, loopNames, targetNames_unfold]
      rfl
  | assign form target value =>
      simp only [Shape.mapIdx, targetNames_unfold]
      rfl
  | test subject title args negated =>
      simp only [Shape.mapIdx, shape_unfold, id_unfold]
      cases subject.shape with
      | name word usage =>
          dsimp only [Shape.mapIdx]
          by_cases asked : title = "defined"
          · simp [asked, Role.labelled]
          · simp [asked, Role.labelled]
      | _ => rfl
  | name word usage =>
      dsimp only [Shape.mapIdx]
      cases isRead usage <;> rfl
  | _ => rfl

theorem occurrences_unfold (node : Node) :
    (node.unfold identity).occurrences =
      node.occurrences.map (Occurrence.unfold identity) := by
  rw [occurrences, events_unfold, occurrences, Event.entered, Event.entered,
    List.filter_map, List.map_map, List.map_map]
  rfl

/-- The identities in an unfolding are those for the paths of the tree. -/
theorem map_id_unfold (node : Node) :
    (node.unfold identity).nodes.map Node.id =
      node.occurrences.map fun occurrence => identity occurrence.path := by
  rw [← map_node_occurrences, occurrences_unfold, List.map_map, List.map_map]
  apply List.map_congr_left
  intro occurrence _
  change (occurrence.node.unfold _).id = _
  rw [id_unfold, List.append_nil]

variable {identity}

/-- In an unfolding every occurrence is a node of its own. -/
theorem nodup_id_unfold (injective : Function.Injective identity)
    (node : Node) :
    ((node.unfold identity).nodes.map Node.id).Nodup := by
  rw [map_id_unfold, List.Nodup, List.pairwise_map]
  apply node.pairwise_occurrences.imp
  intro first second before same
  rw [injective same] at before
  exact List.lt_irrefl _ before

theorem definedTest?_unfold {node subject : Node} {args : List Node}
    (asked : (node.unfold identity).shape.definedTest? = some (subject, args)) :
    subject.id = identity [0] ∧ ∀ arg ∈ args, ∀ inner ∈ arg.nodes,
      ∃ place path, inner.id = identity ((place + 1) :: path) := by
  rw [shape_unfold, Shape.definedTest?_mapIdx] at asked
  obtain ⟨⟨value, others⟩, _, same⟩ := Option.map_eq_some_iff.mp asked
  obtain ⟨rfl, rfl⟩ := Prod.mk.inj same
  refine ⟨id_unfold _ value, ?_⟩
  intro arg member inner inside
  obtain ⟨place, bound, rfl⟩ := List.mem_mapIdx.mp member
  have known := List.mem_map_of_mem inside (f := Node.id)
  rw [map_id_unfold] at known
  obtain ⟨occurrence, _, same⟩ := List.mem_map.mp known
  exact ⟨place, occurrence.path, same.symm⟩

theorem guardsApart_unfold (injective : Function.Injective identity)
    (node : Node) :
    (node.unfold identity).GuardsApart := by
  induction node using induction_on_children generalizing identity with
  | step node induction =>
      have here_and_below : (node.unfold identity).GuardsApart ↔
          _ ∧ ∀ child ∈ (node.unfold identity).children, child.GuardsApart :=
        forall_mem_nodes_iff
      apply here_and_below.mpr
      constructor
      · intro ⟨subject, args⟩ asked _ arg argMember inner inside _ same
        obtain ⟨subjectId, argIds⟩ := definedTest?_unfold asked
        obtain ⟨place, path, innerId⟩ := argIds arg argMember inner inside
        rw [innerId, subjectId] at same
        cases injective same
      · intro child member
        rw [children_unfold] at member
        obtain ⟨place, bound, rfl⟩ := List.mem_mapIdx.mp member
        apply induction _ (List.getElem_mem bound)
        intro path other same
        exact (List.cons.inj (injective same)).2

end Node

end ScopeLint
