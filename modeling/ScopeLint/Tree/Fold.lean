import ScopeLint.Tree.Node

/-!
# Recursion over trees

`Node.recurse` is the one recursion over trees from which the others are
built.  What it computes for the nodes below a node is there on demand only: a
node that is reached along many ways costs nothing unless it is asked for.
`Node.fold` is the case in which the result's type does not depend on the
node.
-/

namespace ScopeLint

/-- A node together with what a recursion computes for it, on demand. -/
structure Part (motive : Node → Type) where
  node : Node
  value : Unit → motive node

namespace Node

section Recurse

variable {motive : Node → Type}

/-- How a recursion goes on at a node: it has the node, and for every hole of
its shape the node in it with its value. -/
abbrev Step (motive : Node → Type) : Type :=
  (node : Node) → (below : Shape (Part motive)) →
  below.map Part.node = node.shape → motive node

mutual

/-- Compute a value for a tree from the values of the nodes below its root. -/
def recurse (step : Step motive) : (node : Node) → motive node
  | ⟨id, position, shape⟩ =>
    step ⟨id, position, shape⟩ (partsOf step shape).1 (partsOf step shape).2

/-- Each node in a shape with its value. -/
def partsOf (step : Step motive) :
    (shape : Shape Node) →
    { below : Shape (Part motive) // below.map Part.node = shape }
  | .bare => ⟨.bare, rfl⟩
  | .expression => ⟨.expression, rfl⟩
  | .literal value => ⟨.literal value, rfl⟩
  | .name word usage => ⟨.name word usage, rfl⟩
  | .tuple items usage =>
    ⟨.tuple (partsOfList step items).1 usage, by
      rw [Shape.map, (partsOfList step items).2]⟩
  | .list items =>
    ⟨.list (partsOfList step items).1,
      by rw [Shape.map, (partsOfList step items).2]⟩
  | .member object field =>
    ⟨.member ⟨object, fun _ => recurse step object⟩ field, rfl⟩
  | .call callee args ⟨keys, distinct, value⟩ =>
    ⟨.call ⟨callee, fun _ => recurse step callee⟩ (partsOfList step args).1
        ⟨keys, distinct,
          fun i => ⟨value i, fun _ => recurse step (value i)⟩⟩, by
      rw [Shape.map, (partsOfList step args).2, Keyed.map]⟩
  | .filter subject title args ⟨keys, distinct, value⟩ =>
    ⟨.filter ⟨subject, fun _ => recurse step subject⟩ title
        (partsOfList step args).1
        ⟨keys, distinct,
          fun i => ⟨value i, fun _ => recurse step (value i)⟩⟩, by
      rw [Shape.map, (partsOfList step args).2, Keyed.map]⟩
  | .test subject title args negated =>
    ⟨.test ⟨subject, fun _ => recurse step subject⟩ title
        (partsOfList step args).1 negated, by
      rw [Shape.map, (partsOfList step args).2]⟩
  | .binary left operator right =>
    ⟨.binary ⟨left, fun _ => recurse step left⟩ operator
        ⟨right, fun _ => recurse step right⟩, rfl⟩
  | .lambda params body =>
    ⟨.lambda params ⟨body, fun _ => recurse step body⟩, rfl⟩
  | .parameter title typing => ⟨.parameter title typing, rfl⟩
  | .definition title params body defaults rest named =>
    ⟨.definition title (partsOfList step params).1 (partsOfList step body).1
        (partsOfList step defaults).1 rest named, by
      rw [Shape.map, (partsOfList step params).2, (partsOfList step body).2,
        (partsOfList step defaults).2]⟩
  | .callBlock head ⟨keys, distinct, value⟩ args =>
    ⟨.callBlock ⟨head, fun _ => recurse step head⟩
        ⟨keys, distinct, fun i => (partsOfList step (value i)).1⟩
        (partsOfList step args).1, by
      rw [Shape.map, (partsOfList step args).2, Keyed.map]
      simp only [(partsOfList step (value _)).2]⟩
  | .conditional first body branches otherwise =>
    ⟨.conditional ⟨first, fun _ => recurse step first⟩ (partsOfList step body).1
        (partsOfBranches step branches).1 (partsOfList step otherwise).1, by
      rw [Shape.map, (partsOfList step body).2,
        (partsOfBranches step branches).2, (partsOfList step otherwise).2]⟩
  | .loop mode target source body empty only =>
    ⟨.loop mode ⟨target, fun _ => recurse step target⟩
        ⟨source, fun _ => recurse step source⟩
        (partsOfList step body).1 (partsOfList step empty).1
        (partsOfOption step only).1, by
      rw [Shape.map, (partsOfList step body).2, (partsOfList step empty).2,
        (partsOfOption step only).2]⟩
  | .switch subject arms =>
    ⟨.switch (partsOfOption step subject).1 (partsOfArms step arms).1, by
      rw [Shape.map, (partsOfOption step subject).2, (partsOfArms step arms).2]⟩
  | .output value escape =>
    ⟨.output ⟨value, fun _ => recurse step value⟩ escape, rfl⟩
  | .text value => ⟨.text value, rfl⟩
  | .importModule source target =>
    ⟨.importModule ⟨source, fun _ => recurse step source⟩ target, rfl⟩
  | .importNames source names =>
    ⟨.importNames ⟨source, fun _ => recurse step source⟩ names, rfl⟩
  | .template body title =>
    ⟨.template (partsOfList step body).1 title,
      by rw [Shape.map, (partsOfList step body).2]⟩
  | .assign form target value =>
    ⟨.assign form ⟨target, fun _ => recurse step target⟩
        ⟨value, fun _ => recurse step value⟩, rfl⟩
  | .capture title body through =>
    ⟨.capture title (partsOfList step body).1 (partsOfOption step through).1, by
      rw [Shape.map, (partsOfList step body).2, (partsOfOption step through).2]⟩

def partsOfList (step : Step motive) :
    (nodes : List Node) →
    { parts : List (Part motive) // parts.map Part.node = nodes }
  | [] => ⟨[], rfl⟩
  | node :: rest =>
    ⟨⟨node, fun _ => recurse step node⟩ :: (partsOfList step rest).1, by
      rw [List.map_cons, (partsOfList step rest).2]⟩

def partsOfOption (step : Step motive) :
    (node : Option Node) →
    { part : Option (Part motive) // part.map Part.node = node }
  | none => ⟨none, rfl⟩
  | some node => ⟨some ⟨node, fun _ => recurse step node⟩, rfl⟩

def partsOfBranches (step : Step motive) :
    (branches : List (Branch Node)) →
      { parts : List (Branch (Part motive)) //
        parts.map (Branch.map Part.node) = branches }
  | [] => ⟨[], rfl⟩
  | ⟨test, body⟩ :: rest =>
    ⟨⟨⟨test, fun _ => recurse step test⟩, (partsOfList step body).1⟩ ::
        (partsOfBranches step rest).1, by
      rw [List.map_cons, (partsOfBranches step rest).2, Branch.map,
        (partsOfList step body).2]⟩

def partsOfArms (step : Step motive) :
    (arms : List (Arm Node)) →
      { parts : List (Arm (Part motive)) //
        parts.map (Arm.map Part.node) = arms }
  | [] => ⟨[], rfl⟩
  | ⟨pattern, condition, body⟩ :: rest =>
    ⟨⟨⟨pattern, fun _ => recurse step pattern⟩,
        (partsOfOption step condition).1, (partsOfList step body).1⟩ ::
          (partsOfArms step rest).1, by
      rw [List.map_cons, (partsOfArms step rest).2, Arm.map,
        (partsOfOption step condition).2, (partsOfList step body).2]⟩

end

/-- A node with what a recursion computes for it. -/
def part (step : Step motive) (node : Node) : Part motive :=
  ⟨node, fun _ => recurse step node⟩

theorem partsOfList_eq (step : Step motive) (nodes : List Node) :
    (partsOfList step nodes).1 = nodes.map (part step) := by
  induction nodes with
  | nil => rfl
  | cons node rest induction => simp [partsOfList, induction, part]

theorem partsOfOption_eq (step : Step motive) (node : Option Node) :
    (partsOfOption step node).1 = node.map (part step) := by
  cases node <;> rfl

theorem partsOfBranches_eq (step : Step motive)
    (branches : List (Branch Node)) :
    (partsOfBranches step branches).1 =
      branches.map (Branch.map (part step)) := by
  induction branches with
  | nil => rfl
  | cons branch rest induction =>
    simp [partsOfBranches, induction, partsOfList_eq, Branch.map, part]

theorem partsOfArms_eq (step : Step motive) (arms : List (Arm Node)) :
    (partsOfArms step arms).1 = arms.map (Arm.map (part step)) := by
  induction arms with
  | nil => rfl
  | cons arm rest induction =>
    simp [partsOfArms, induction, partsOfList_eq, partsOfOption_eq,
      Arm.map, part]

theorem partsOf_eq (step : Step motive) (shape : Shape Node) :
    (partsOf step shape).1 = shape.map (part step) := by
  cases shape <;>
    simp only [partsOf, Shape.map, Keyed.map, partsOfList_eq, partsOfOption_eq,
      partsOfBranches_eq, partsOfArms_eq, part]

theorem map_part (step : Step motive) (shape : Shape Node) :
    (shape.map (part step)).map Part.node = shape := by
  rw [← partsOf_eq]
  exact (partsOf step shape).2

/-- A recursion takes its step at a node with the values of the nodes below. -/
theorem recurse_eq (step : Step motive) (node : Node) :
    recurse step node =
      step node (node.shape.map (part step)) (map_part step node.shape) := by
  cases node
  simp only [recurse, partsOf_eq]

end Recurse

section Fold

variable {β : Type}

/-- Compute a value for a tree from the values of the nodes below its root,
which are there on demand. -/
def fold (step : Node → Shape (Unit → β) → β) : Node → β :=
  recurse fun node below _ => step node (below.map Part.value)

theorem fold_eq (step : Node → Shape (Unit → β) → β) (node : Node) :
    node.fold step =
      step node (node.shape.map fun child _ => child.fold step) := by
  rw [fold, recurse_eq, Shape.map_map]
  rfl

end Fold

end Node

end ScopeLint
