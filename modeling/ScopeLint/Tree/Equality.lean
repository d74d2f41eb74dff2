import ScopeLint.Tree.Fold

/-!
# Equality of trees

Two nodes are equal when they have the same kind and position and equal
fields.  Constants are compared by value and tables as mappings, whatever the
order of their keys.  Identity plays no part.  Parts that are one object in
memory are known to be equal without a look, so shared parts cost nothing.
-/

namespace ScopeLint

variable {α β : Type}

/-- Two lists of one length whose members are related one by one. -/
def listAgree (same : α → β → Bool) : List α → List β → Bool
  | [], [] => true
  | a :: as, b :: bs => same a b && listAgree same as bs
  | _, _ => false

def optionAgree (same : α → β → Bool) : Option α → Option β → Bool
  | none, none => true
  | some a, some b => same a b
  | _, _ => false

/-- Two tables with the same keys whose values are related key by key. -/
def Keyed.agree (same : α → β → Bool) (left : Keyed α)
    (right : Keyed β) : Bool :=
  left.keys.length == right.keys.length &&
    (List.finRange left.keys.length).all fun i =>
      match right.get? left.keys[i] with
      | some b => same (left.value i) b
      | none => false

def Branch.agree (same : α → β → Bool) (left : Branch α)
    (right : Branch β) : Bool :=
  same left.test right.test && listAgree same left.body right.body

def Arm.agree (same : α → β → Bool) (left : Arm α) (right : Arm β) : Bool :=
  same left.pattern right.pattern &&
    optionAgree same left.condition right.condition &&
    listAgree same left.body right.body

/-- Two shapes of one kind that carry equal data and whose holes are filled
with related values. -/
def Shape.agree (same : α → β → Bool) : Shape α → Shape β → Bool
  | .bare, .bare => true
  | .expression, .expression => true
  | .literal left, .literal right => left.same right
  | .name word usage, .name word₂ usage₂ => word == word₂ && usage == usage₂
  | .tuple items usage, .tuple items₂ usage₂ =>
    listAgree same items items₂ && usage == usage₂
  | .list items, .list items₂ => listAgree same items items₂
  | .member object field, .member object₂ field₂ =>
    same object object₂ && field == field₂
  | .call callee args keywords, .call callee₂ args₂ keywords₂ =>
    same callee callee₂ && listAgree same args args₂ &&
      keywords.agree same keywords₂
  | .filter subject title args keywords,
      .filter subject₂ title₂ args₂ keywords₂ =>
    same subject subject₂ && title == title₂ && listAgree same args args₂ &&
      keywords.agree same keywords₂
  | .test subject title args negated, .test subject₂ title₂ args₂ negated₂ =>
    same subject subject₂ && title == title₂ && listAgree same args args₂ &&
      negated == negated₂
  | .binary left operator right, .binary left₂ operator₂ right₂ =>
    same left left₂ && operator == operator₂ && same right right₂
  | .lambda params body, .lambda params₂ body₂ =>
    params == params₂ && same body body₂
  | .parameter title typing, .parameter title₂ typing₂ =>
    title == title₂ && typing == typing₂
  | .definition title params body defaults rest named,
      .definition title₂ params₂ body₂ defaults₂ rest₂ named₂ =>
    title == title₂ && listAgree same params params₂ &&
      listAgree same body body₂ && listAgree same defaults defaults₂ &&
      rest == rest₂ && named == named₂
  | .callBlock head slots args, .callBlock head₂ slots₂ args₂ =>
    same head head₂ && slots.agree (listAgree same) slots₂ &&
      listAgree same args args₂
  | .conditional first body branches otherwise,
      .conditional first₂ body₂ branches₂ otherwise₂ =>
    same first first₂ && listAgree same body body₂ &&
      listAgree (Branch.agree same) branches branches₂ &&
      listAgree same otherwise otherwise₂
  | .loop mode target source body empty only,
      .loop mode₂ target₂ source₂ body₂ empty₂ only₂ =>
    mode == mode₂ && same target target₂ && same source source₂ &&
      listAgree same body body₂ &&
      listAgree same empty empty₂ && optionAgree same only only₂
  | .switch subject arms, .switch subject₂ arms₂ =>
    optionAgree same subject subject₂ && listAgree (Arm.agree same) arms arms₂
  | .output value escape, .output value₂ escape₂ =>
    same value value₂ && escape == escape₂
  | .text value, .text value₂ => value == value₂
  | .importModule source target, .importModule source₂ target₂ =>
    same source source₂ && target == target₂
  | .importNames source names, .importNames source₂ names₂ =>
    same source source₂ && names == names₂
  | .template body title, .template body₂ title₂ =>
    listAgree same body body₂ && title == title₂
  | .assign form target value, .assign form₂ target₂ value₂ =>
    form == form₂ && same target target₂ && same value value₂
  | .capture title body through, .capture title₂ body₂ through₂ =>
    title == title₂ && listAgree same body body₂ &&
      optionAgree same through through₂
  | _, _ => false

section Image

variable {same : α → β → Bool} {f : α → β}

theorem listAgree_map (related : ∀ a, same a (f a) = true) (items : List α) :
    listAgree same items (items.map f) = true := by
  induction items with
  | nil => rfl
  | cons a rest induction => simp [listAgree, related, induction]

theorem optionAgree_map (related : ∀ a, same a (f a) = true) (item : Option α) :
    optionAgree same item (item.map f) = true := by
  cases item with
  | none => rfl
  | some a => exact related a

theorem Keyed.agree_map (related : ∀ a, same a (f a) = true) (table : Keyed α) :
    table.agree same (table.map f) = true := by
  rw [agree, Bool.and_eq_true, List.all_eq_true]
  refine ⟨by simp, fun i _ => ?_⟩
  have found : (table.map f).get? table.keys[i] = some (f (table.value i)) :=
    get?_key (table.map f) i
  rw [found]
  exact related _

theorem Branch.agree_map (related : ∀ a, same a (f a) = true)
    (branch : Branch α) :
    branch.agree same (branch.map f) = true := by
  simp [agree, map, related, listAgree_map related]

theorem Arm.agree_map (related : ∀ a, same a (f a) = true) (arm : Arm α) :
    arm.agree same (arm.map f) = true := by
  simp [agree, map, related, listAgree_map related, optionAgree_map related]

theorem Shape.agree_map (related : ∀ a, same a (f a) = true) (shape : Shape α) :
    shape.agree same (shape.map f) = true := by
  cases shape <;>
    simp [agree, map, related, Literal.same_self, listAgree_map related,
      optionAgree_map related, Keyed.agree_map related,
      Keyed.agree_map (listAgree_map related),
      listAgree_map (Branch.agree_map related),
      listAgree_map (Arm.agree_map related)]

end Image

section Source

variable {γ : Type} (same : β → γ → Bool) (f : α → β)

theorem listAgree_map_left (items : List α) (others : List γ) :
    listAgree same (items.map f) others =
      listAgree (fun a => same (f a)) items others := by
  induction items generalizing others with
  | nil => cases others <;> rfl
  | cons a rest induction =>
    cases others with
    | nil => rfl
    | cons other others => simp [listAgree, induction]

theorem optionAgree_map_left (item : Option α) (other : Option γ) :
    optionAgree same (item.map f) other =
      optionAgree (fun a => same (f a)) item other := by
  cases item <;> cases other <;> rfl

theorem Branch.agree_map_left :
    (fun branch other => (Branch.map f branch).agree same other) =
      Branch.agree fun a => same (f a) := by
  funext branch other
  simp [agree, map, listAgree_map_left]

theorem Arm.agree_map_left :
    (fun arm other => (Arm.map f arm).agree same other) =
      Arm.agree fun a => same (f a) := by
  funext arm other
  simp [agree, map, listAgree_map_left, optionAgree_map_left]

theorem Shape.agree_map_left (shape : Shape α) (other : Shape γ) :
    (shape.map f).agree same other =
      shape.agree (fun a => same (f a)) other := by
  cases shape <;> cases other <;>
    simp only [agree, map, listAgree_map_left, optionAgree_map_left,
      Keyed.agree, Keyed.map, Branch.agree_map_left, Arm.agree_map_left]

end Source

/-- A test for nodes that a given node passes. -/
abbrev SelfTest (node : Node) : Type :=
  { test : Node → Bool // test node = true }

/-- Test a node against a part, at a glance if it is the part itself. -/
def Part.accepts (part : Part SelfTest) (other : Node) : Bool :=
  withPtrEq part.node other (fun _ => (part.value ()).1 other) fun same =>
    same ▸ (part.value ()).2

theorem Part.accepts_node (part : Part SelfTest) :
    part.accepts part.node = true :=
  (part.value ()).2

namespace Node

/-- The test for being equal to a node. -/
def equalityTest : (node : Node) → SelfTest node :=
  recurse fun node below fits =>
    ⟨fun other => node.position == other.position &&
      below.agree Part.accepts other.shape, by
      have agrees := Shape.agree_map Part.accepts_node below
      rw [fits] at agrees
      simp [agrees]⟩

/-- Equality of trees. -/
def same (node other : Node) : Bool := node.equalityTest.1 other

theorem same_self (node : Node) : node.same node = true := node.equalityTest.2

/-- Two nodes are equal when their positions are and their shapes agree up to
equality. -/
theorem same_eq (node other : Node) :
    node.same other =
      (node.position == other.position &&
        node.shape.agree same other.shape) := by
  rw [same, equalityTest, recurse_eq]
  simp only [Shape.agree_map_left]
  rfl

end Node

end ScopeLint
