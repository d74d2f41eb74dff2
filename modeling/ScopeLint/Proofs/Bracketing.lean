import Mathlib.Data.List.Perm.Basic
import ScopeLint.Proofs.Course
import ScopeLint.Proofs.FieldContents

/-!
# The brackets of a walk

A visitor that gives back every node it gets is led through the whole tree.  Its
callbacks are brackets: every node that is reached through the fields of others
is entered once and left once, and between the two stands what the walks of its
children do, in the order of its fields.  So the nodes are entered in pre-order
and left in post-order.
-/

namespace ScopeLint

/-- The node is reached from the root along this path, which says at each step
whether to take the first, the second or a later one of the nodes that the
fields hold. -/
inductive OccursAt : Node → List Nat → Node → Prop where
  | root (node : Node) : OccursAt node [] node
  | inside {node child inner : Node} {place : Nat} {path : List Nat} :
      node.held[place]? = some child →
      OccursAt child path inner →
      OccursAt node (place :: path) inner

namespace Node

/-- The occurrences of a tree, every node before those below it. -/
def preOrder : Node → List Occurrence :=
  fold fun node below =>
    ⟨[], node⟩ :: below.parts.zipIdx.flatMap fun part =>
      (part.1 ()).map (Occurrence.under part.2)

/-- The occurrences of a tree, every node after those below it. -/
def postOrder : Node → List Occurrence :=
  fold fun node below =>
    (below.parts.zipIdx.flatMap fun part =>
      (part.1 ()).map (Occurrence.under part.2)) ++ [⟨[], node⟩]

end Node

namespace Event

/-- An event below some path, as it is seen from the root. -/
def beneath (path : List Nat) (event : Event) : Event :=
  { event with path := path ++ event.path }

/-- The occurrences that are left, in order. -/
def exited (events : List Event) : List Occurrence :=
  (events.filter (·.hook = .leave)).map Event.toOccurrence

/-- Brackets: events leave each occurrence that they enter, the innermost one
first, and at last those that were open before. -/
inductive Close : List Occurrence → List Event → Prop where
  | done : Close [] []
  | enter {occurrence : Occurrence} {opened : List Occurrence}
      {rest : List Event} :
      Close (occurrence :: opened) rest →
      Close opened (⟨occurrence, .enter⟩ :: rest)
  | leave {occurrence : Occurrence} {opened : List Occurrence}
      {rest : List Event} :
      Close opened rest →
      Close (occurrence :: opened) (⟨occurrence, .leave⟩ :: rest)

end Event

/-- What the events of a complete walk have to be. -/
structure BracketedWalk (root : Node) (events : List Event) : Prop where
  closed : Event.Close [] events
  once : ∀ path inner, OccursAt root path inner →
    (Event.entered events).filter (·.path = path) = [⟨path, inner⟩] ∧
      (Event.exited events).filter (·.path = path) = [⟨path, inner⟩]
  only : ∀ event ∈ events, OccursAt root event.path event.node
  enters : Event.entered events = root.preOrder
  leaves : Event.exited events = root.postOrder
  between : ∀ path inner, OccursAt root path inner → ∃ before after,
    events = before ++ ⟨⟨path, inner⟩, .enter⟩ ::
      ((Node.eventsOf 0 inner.held).map (Event.beneath path) ++
        ⟨⟨path, inner⟩, .leave⟩ :: after)
  length : events.length = 2 * root.preOrder.length

/-! ## Pre-order and post-order -/

namespace Node

theorem preOrder_eq (node : Node) :
    node.preOrder = ⟨[], node⟩ :: node.children.zipIdx.flatMap fun child =>
      child.1.preOrder.map (Occurrence.under child.2) := by
  rw [preOrder, fold_eq, Shape.parts_map, List.zipIdx_map, List.flatMap_map]
  rfl

theorem postOrder_eq (node : Node) :
    node.postOrder =
      (node.children.zipIdx.flatMap fun child =>
        child.1.postOrder.map (Occurrence.under child.2)) ++ [⟨[], node⟩] := by
  rw [postOrder, fold_eq, Shape.parts_map, List.zipIdx_map, List.flatMap_map]
  rfl

end Node

namespace Event

@[simp] theorem exited_append (first second : List Event) :
    exited (first ++ second) = exited first ++ exited second := by
  simp [exited]

theorem length_eq (events : List Event) :
    events.length = (entered events).length + (exited events).length := by
  induction events with
  | nil => rfl
  | cons event rest induction =>
      obtain ⟨occurrence, hook⟩ := event
      cases hook with
      | enter =>
          have here : entered (⟨occurrence, .enter⟩ :: rest) =
              occurrence :: entered rest := rfl
          have there : exited (⟨occurrence, .enter⟩ :: rest) = exited rest :=
            rfl
          rw [here, there, List.length_cons, List.length_cons]
          omega
      | leave =>
          have here : entered (⟨occurrence, .leave⟩ :: rest) = entered rest :=
            rfl
          have there : exited (⟨occurrence, .leave⟩ :: rest) =
              occurrence :: exited rest := rfl
          rw [here, there, List.length_cons, List.length_cons]
          omega

end Event

namespace Node

/-- What a hook gets to see in siblings follows from what it sees in each of
them. -/
theorem hook_eventsOf {hook : Hook} {order : Node → List Occurrence}
    {siblings : List Node}
    (below : ∀ child ∈ siblings,
      (child.events.filter (·.hook = hook)).map Event.toOccurrence =
        order child) (first : Nat) :
    ((eventsOf first siblings).filter (·.hook = hook)).map Event.toOccurrence =
      (siblings.zipIdx first).flatMap fun child =>
        (order child.1).map (Occurrence.under child.2) := by
  induction siblings generalizing first with
  | nil => rfl
  | cons child rest induction =>
      have later := induction (fun other member =>
        below other (List.mem_cons_of_mem _ member)) (first + 1)
      rw [eventsOf_cons, List.filter_append, List.map_append, later,
        List.zipIdx_cons, List.flatMap_cons, ← below child List.mem_cons_self,
        List.filter_map, List.map_map, List.map_map]
      rfl

/-- A walk enters the occurrences in pre-order. -/
theorem entered_events (node : Node) :
    Event.entered node.events = node.preOrder := by
  induction node using induction_on_children with
  | step node induction =>
      have below : Event.entered (eventsOf 0 node.children) = _ :=
        hook_eventsOf induction 0
      rw [events_eq, entered_entering, Event.entered_append, entered_leaving,
        List.append_nil, below, preOrder_eq]

/-- A walk leaves the occurrences in post-order. -/
theorem exited_events (node : Node) :
    Event.exited node.events = node.postOrder := by
  induction node using induction_on_children with
  | step node induction =>
      have below : Event.exited (eventsOf 0 node.children) = _ :=
        hook_eventsOf induction 0
      have opening : ∀ rest,
          Event.exited (node.entering :: rest) = Event.exited rest :=
        fun _ => rfl
      have closing : Event.exited [node.leaving] = [⟨[], node⟩] := rfl
      rw [events_eq, opening, Event.exited_append, closing, below, postOrder_eq]

theorem postOrder_perm (node : Node) : node.postOrder.Perm node.preOrder := by
  induction node using induction_on_children with
  | step node induction =>
      rw [postOrder_eq, preOrder_eq]
      apply (List.perm_append_singleton _ _).trans
      apply List.Perm.cons
      apply List.Perm.flatMap_left
      intro child member
      exact (induction child.1 (List.fst_mem_of_mem_zipIdx member)).map _

theorem length_events (node : Node) :
    node.events.length = 2 * node.preOrder.length := by
  rw [Event.length_eq, entered_events, exited_events,
    node.postOrder_perm.length_eq]
  omega

end Node

/-! ## Occurrences -/

theorem Node.children_of_held {node child : Node} {place : Nat}
    (here : node.held[place]? = some child) :
    ∃ before after, node.children = before ++ child :: after ∧
      before.length = place := by
  rw [← node.children_eq_held] at here
  obtain ⟨inside, rfl⟩ := List.getElem?_eq_some_iff.mp here
  refine ⟨node.children.take place, node.children.drop (place + 1), ?_, ?_⟩
  · rw [← List.drop_eq_getElem_cons, List.take_append_drop]
  · exact List.length_take_of_le (Nat.le_of_lt inside)

theorem occursAt_iff_mem {root : Node} {path : List Nat} {inner : Node} :
    OccursAt root path inner ↔ ⟨path, inner⟩ ∈ root.occurrences := by
  constructor
  · intro occurs
    induction occurs with
    | root node => exact Node.mem_occurrences_nil_iff.mpr rfl
    | @inside node child inner place path here _ induction =>
        obtain ⟨before, after, children, rfl⟩ := Node.children_of_held here
        exact (Node.mem_occurrences_below_iff children).mpr induction
  · intro member
    induction path generalizing root with
    | nil =>
        obtain rfl := Node.mem_occurrences_nil_iff.mp member
        exact .root _
    | cons place path induction =>
        have atPlace := member
        rw [Node.occurrences_eq] at atPlace
        rcases List.mem_cons.mp atPlace with atRoot | below
        · cases atRoot
        · obtain ⟨before, child, after, children, rfl, inside⟩ :=
            Node.mem_entered_eventsOf_iff.mp below
          refine .inside ?_ (induction inside)
          rw [← Node.children_eq_held, children]
          simp

/-- In a list of occurrences with different paths, a path stands for one of
them. -/
theorem filter_path_of_pairwise {occurrences : List Occurrence}
    (ordered : occurrences.Pairwise (·.path < ·.path)) {occurrence : Occurrence}
    (member : occurrence ∈ occurrences) :
    occurrences.filter (·.path = occurrence.path) = [occurrence] := by
  induction occurrences with
  | nil => cases member
  | cons head rest induction =>
      obtain ⟨before, later⟩ := List.pairwise_cons.mp ordered
      rcases List.mem_cons.mp member with rfl | inRest
      · rw [List.filter_cons_of_pos (by simp)]
        congr 1
        apply List.filter_eq_nil_iff.mpr
        intro other otherMember same
        have smaller := before other otherMember
        rw [of_decide_eq_true same] at smaller
        exact List.lt_irrefl _ smaller
      · have different : head.path ≠ occurrence.path := by
          intro same
          have smaller := before occurrence inRest
          rw [same] at smaller
          exact List.lt_irrefl _ smaller
        rw [List.filter_cons_of_neg (by simpa using different),
          induction later inRest]

theorem entered_once {root : Node} {path : List Nat} {inner : Node}
    (occurs : OccursAt root path inner) :
    (Event.entered root.events).filter (·.path = path) = [⟨path, inner⟩] :=
  filter_path_of_pairwise root.pairwise_occurrences (occursAt_iff_mem.mp occurs)

theorem exited_once {root : Node} {path : List Nat} {inner : Node}
    (occurs : OccursAt root path inner) :
    (Event.exited root.events).filter (·.path = path) = [⟨path, inner⟩] := by
  have same := root.postOrder_perm.filter (·.path = path)
  rw [← root.exited_events, ← root.entered_events, entered_once occurs] at same
  exact List.perm_singleton.mp same

theorem occursAt_of_mem_events {root : Node} {event : Event}
    (member : event ∈ root.events) :
    OccursAt root event.path event.node := by
  apply occursAt_iff_mem.mpr
  obtain ⟨occurrence, hook⟩ := event
  cases hook with
  | enter => exact List.mem_map.mpr ⟨_, List.mem_filter.mpr ⟨member, rfl⟩, rfl⟩
  | leave =>
      rw [Node.occurrences, root.entered_events, ← root.postOrder_perm.mem_iff,
        ← root.exited_events]
      exact List.mem_map.mpr ⟨_, List.mem_filter.mpr ⟨member, rfl⟩, rfl⟩

/-! ## Brackets -/

namespace Event

theorem map_beneath_nil (events : List Event) :
    events.map (beneath []) = events :=
  List.map_id events

theorem beneath_under (path : List Nat) (place : Nat) (event : Event) :
    (event.under place).beneath path = event.beneath (path ++ [place]) := by
  simp [beneath, under]

theorem under_beneath (path : List Nat) (place : Nat) (event : Event) :
    (event.beneath path).under place = event.beneath (place :: path) := rfl

end Event

namespace Node

/-- The events of a node as they are seen from above. -/
theorem map_beneath_events (node : Node) (path : List Nat) :
    node.events.map (Event.beneath path) = ⟨⟨path, node⟩, .enter⟩ ::
      ((eventsOf 0 node.children).map (Event.beneath path) ++
        [⟨⟨path, node⟩, .leave⟩]) := by
  rw [events_eq]
  simp [Event.beneath, entering, leaving]

theorem map_beneath_eventsOf_cons (first : Nat) (child : Node)
    (rest : List Node) (path : List Nat) :
    (eventsOf first (child :: rest)).map (Event.beneath path) =
      child.events.map (Event.beneath (path ++ [first])) ++
        (eventsOf (first + 1) rest).map (Event.beneath path) := by
  rw [eventsOf_cons, List.map_append, List.map_map]
  simp only [Function.comp_def, Event.beneath_under]

end Node

private theorem close_eventsOf {siblings : List Node}
    (below : ∀ child ∈ siblings, ∀ path opened rest, Event.Close opened rest →
      Event.Close opened (child.events.map (Event.beneath path) ++ rest))
    (first : Nat) (path : List Nat) {opened : List Occurrence}
    {rest : List Event} (later : Event.Close opened rest) :
    Event.Close opened
      ((Node.eventsOf first siblings).map (Event.beneath path) ++ rest) := by
  induction siblings generalizing first with
  | nil => exact later
  | cons child others induction =>
      rw [Node.map_beneath_eventsOf_cons, List.append_assoc]
      apply below child List.mem_cons_self
      apply induction
      intro other member
      exact below other (List.mem_cons_of_mem _ member)

/-- The events of a whole tree may stand anywhere among brackets. -/
theorem close_events (node : Node) (path : List Nat) {opened : List Occurrence}
    {rest : List Event} (later : Event.Close opened rest) :
    Event.Close opened (node.events.map (Event.beneath path) ++ rest) := by
  induction node using Node.induction_on_children
    generalizing path opened rest with
  | step node induction =>
      rw [Node.map_beneath_events, List.cons_append, List.append_assoc]
      apply Event.Close.enter
      apply close_eventsOf
      · intro child member path opened rest closes
        exact induction child member path closes
      · exact .leave later

/-- Where an occurrence stands, the walk of the tree goes as the walk of its
node. -/
theorem events_of_occursAt {root : Node} {path : List Nat} {inner : Node}
    (occurs : OccursAt root path inner) :
    ∃ before after, root.events =
      before ++ (inner.events.map (Event.beneath path) ++ after) := by
  induction occurs with
  | root node =>
      refine ⟨[], [], ?_⟩
      rw [Event.map_beneath_nil]
      simp
  | @inside node child inner place path here _ induction =>
      obtain ⟨before, after, split⟩ := induction
      obtain ⟨earlier, later, children, rfl⟩ := Node.children_of_held here
      have events := Node.events_of_children children
      rw [Node.eventsOf_cons, split, List.map_append, List.map_append,
        List.map_map] at events
      have placed : (Event.under earlier.length ∘ Event.beneath path) =
          Event.beneath (earlier.length :: path) := by
        funext event
        exact Event.under_beneath path earlier.length event
      rw [placed] at events
      refine ⟨node.entering :: Node.eventsOf 0 earlier ++
        before.map (Event.under earlier.length),
        after.map (Event.under earlier.length) ++
          Node.eventsOf (earlier.length + 1) later ++ [node.leaving], ?_⟩
      rw [events]
      simp

theorem bracketedWalk_events (root : Node) :
    BracketedWalk root root.events where
  closed := by
    have closes := close_events root [] Event.Close.done
    rwa [Event.map_beneath_nil, List.append_nil] at closes
  once := fun _ _ occurs => ⟨entered_once occurs, exited_once occurs⟩
  only := fun _ => occursAt_of_mem_events
  enters := root.entered_events
  leaves := root.exited_events
  between := by
    intro path inner occurs
    obtain ⟨before, after, split⟩ := events_of_occursAt occurs
    refine ⟨before, after, ?_⟩
    rw [split, Node.map_beneath_events, Node.children_eq_held]
    simp
  length := root.length_events

namespace Visitor

variable {visitor : Visitor}

theorem smooth_of_keep
    (returns : ∀ hook state node, (visitor.react hook state node).reply = .keep)
    (state : visitor.State) (events : List Event) :
    visitor.Smooth state events := by
  induction events generalizing state with
  | nil => trivial
  | cons event rest induction => exact ⟨returns _ _ _, induction _⟩

/-- A visitor that gives back every node it gets makes the callbacks of a
complete walk, which are brackets around those for the children, in the order in
which the kinds of the nodes list their fields. -/
theorem traverse_brackets
    (returns : ∀ hook state node, (visitor.react hook state node).reply = .keep)
    (root : Node) :
    (traverse [visitor] root).result = .ok root ∧
    (traverse [visitor] root).calls.map (fun call => (call.hook, call.node)) =
      root.events.map (fun event => (event.hook, event.node)) ∧
    BracketedWalk root root.events ∧
    (traverse [visitor] root).calls.length = 2 * root.preOrder.length ∧
    ∀ path inner, OccursAt root path inner →
      inner.shape.contents.map Prod.fst =
        inner.kind.ownFields.map Field.name := by
  have keeps : visitor.Keeps := by
    intro hook state node other replaced
    rw [returns] at replaced
    cases replaced
  have complete : visitor.pass root = _ :=
    keeps.passFrom_of_smooth (smooth_of_keep returns visitor.start root.events)
  have calls :
      (traverse [visitor] root).calls.map (fun call => (call.hook, call.node)) =
      root.events.map (fun event => (event.hook, event.node)) := by
    rw [calls_traverse_single, outline, complete, List.map_map]
    exact map_hook_node_callbacks visitor.start root.events
  refine ⟨?_, calls, bracketedWalk_events root, ?_, ?_⟩
  · rw [result_traverse_single, complete]
  · have sameLength := congrArg List.length calls
    rw [List.length_map, List.length_map, root.length_events] at sameLength
    exact sameLength
  · intro path inner _
    exact inner.shape.map_fst_contents

/-- A conditional with a branch, arms with and without a condition, a table in
which a key is given twice, and slots. -/
def assorted : Node :=
  ⟨0, ⟨1, 0⟩, .conditional
    ⟨1, ⟨1, 6⟩, .call ⟨2, ⟨1, 6⟩, .name "fits" "load"⟩
      [⟨3, ⟨1, 11⟩, .name "rows" "load"⟩]
      (Keyed.ofList
        [("width", ⟨4, ⟨1, 17⟩, .literal (.integer 1)⟩),
         ("height", ⟨5, ⟨1, 26⟩, .literal (.integer 2)⟩),
         ("width", ⟨6, ⟨1, 36⟩, .literal (.integer 3)⟩)])⟩
    [⟨7, ⟨2, 0⟩, .text "all"⟩]
    [⟨⟨8, ⟨3, 8⟩, .name "some" "load"⟩, [⟨9, ⟨4, 0⟩, .text "some"⟩]⟩]
    [⟨10, ⟨5, 0⟩, .switch none
      [⟨⟨11, ⟨6, 0⟩, .literal (.integer 0)⟩, none,
        [⟨12, ⟨6, 4⟩, .text "none"⟩]⟩,
       ⟨⟨13, ⟨7, 0⟩, .name "count" "load"⟩,
         some ⟨14, ⟨7, 9⟩, .name "few" "load"⟩, []⟩]⟩,
     ⟨15, ⟨8, 0⟩, .callBlock ⟨16, ⟨8, 3⟩, .name "panel" "load"⟩
      (Keyed.ofList
        [("head", [⟨17, ⟨9, 0⟩, .text "Rows"⟩, ⟨18, ⟨9, 4⟩, .text "!"⟩]),
         ("foot", [])])
      [⟨19, ⟨8, 9⟩, .name "rows" "load"⟩]⟩]⟩

theorem traverse_brackets_assorted :
    (∀ hook state node, (idle.react hook state node).reply = .keep) ∧
    BracketedWalk assorted assorted.events ∧
    (traverse [idle] assorted).calls.length = 38 ∧
    ((traverse [idle] assorted).calls.filter (·.hook = .enter)).map
        (·.node.id) =
      [0, 1, 2, 3, 6, 5, 7, 8, 9, 10, 11, 12, 13, 14, 15, 16, 17, 18, 19] ∧
    ((traverse [idle] assorted).calls.filter (·.hook = .leave)).map
        (·.node.id) =
      [2, 3, 6, 5, 1, 7, 8, 9, 11, 12, 13, 14, 10, 16, 17, 18, 19, 15, 0] := by
  have returns : ∀ hook state node,
      (idle.react hook state node).reply = .keep :=
    fun _ _ _ => rfl
  obtain ⟨_, _, brackets, length, _⟩ := traverse_brackets returns assorted
  have occurrences : assorted.preOrder.length = 19 := by decide +kernel
  rw [occurrences] at length
  exact ⟨returns, brackets, length, by decide +kernel, by decide +kernel⟩

end Visitor

end ScopeLint
