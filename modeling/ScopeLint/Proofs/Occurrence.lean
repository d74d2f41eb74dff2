import ScopeLint.Hook
import ScopeLint.Tree.Induction

/-!
# Occurrences and events

One node may stand at several places of a tree.  An occurrence is a node
together with the way to it from the root, and an event is an occurrence that
is entered or left.  `Node.events` lists the events of a complete walk.  It is
defined from the tree alone, so that what a visitor does can be compared with
it.

A beginning of that list is a moment of the walk.  `Stage` describes the
moments by recursion over the tree: inside a node, the walk has completed some
children and stands at a stage of the next one.
-/

namespace ScopeLint

/-- A node with the way to it: which child to take, from the root on. -/
structure Occurrence where
  path : List Nat
  node : Node

structure Event extends Occurrence where
  hook : Hook

namespace Occurrence

/-- An occurrence below a child, as it is seen from the parent. -/
def under (place : Nat) (occurrence : Occurrence) : Occurrence :=
  { occurrence with path := place :: occurrence.path }

/-- A proper ancestor of an occurrence in the same tree. -/
def Above (upper lower : Occurrence) : Prop :=
  upper.path <+: lower.path ∧ upper.path ≠ lower.path

end Occurrence

instance (upper lower : Occurrence) : Decidable (upper.Above lower) :=
  inferInstanceAs (Decidable (_ ∧ _))

namespace Event

def under (place : Nat) (event : Event) : Event :=
  { event with path := place :: event.path }

/-- The occurrences that are entered, in order. -/
def entered (events : List Event) : List Occurrence :=
  (events.filter (·.hook = .enter)).map Event.toOccurrence

/-- Whether the occurrence with this path has been left. -/
def Left (events : List Event) (path : List Nat) : Prop :=
  ∃ event ∈ events, event.hook = .leave ∧ event.path = path

instance (events : List Event) (path : List Nat) :
    Decidable (Left events path) :=
  inferInstanceAs
    (Decidable (∃ event ∈ events, event.hook = .leave ∧ event.path = path))

end Event

namespace Node

def entering (node : Node) : Event := ⟨⟨[], node⟩, .enter⟩

def leaving (node : Node) : Event := ⟨⟨[], node⟩, .leave⟩

/-- The events of a complete walk, in order. -/
def events : Node → List Event :=
  fold fun node below =>
    node.entering ::
      ((below.parts.zipIdx.flatMap fun part =>
        (part.1 ()).map (Event.under part.2)) ++ [node.leaving])

/-- The events of siblings, whose places are counted from a first one. -/
def eventsOf (first : Nat) (siblings : List Node) : List Event :=
  (siblings.zipIdx first).flatMap fun child =>
    child.1.events.map (Event.under child.2)

/-- All occurrences in a tree, every node before those below it. -/
def occurrences (node : Node) : List Occurrence := Event.entered node.events

/-- All nodes of a tree in the order of their occurrences. -/
def nodes : Node → List Node :=
  fold fun node below => node :: below.parts.flatMap fun part => part ()

theorem events_eq (node : Node) :
    node.events =
      node.entering :: (eventsOf 0 node.children ++ [node.leaving]) := by
  rw [events, fold_eq, Shape.parts_map, List.zipIdx_map, List.flatMap_map]
  rfl

theorem nodes_eq (node : Node) :
    node.nodes = node :: node.children.flatMap nodes := by
  rw [nodes, fold_eq, Shape.parts_map, List.flatMap_map]
  rfl

@[simp] theorem eventsOf_nil (first : Nat) : eventsOf first [] = [] := rfl

theorem eventsOf_cons (first : Nat) (child : Node) (rest : List Node) :
    eventsOf first (child :: rest) =
      child.events.map (Event.under first) ++ eventsOf (first + 1) rest := by
  simp [eventsOf, List.zipIdx_cons]

theorem eventsOf_append (first : Nat) (siblings others : List Node) :
    eventsOf first (siblings ++ others) =
      eventsOf first siblings ++ eventsOf (first + siblings.length) others := by
  rw [eventsOf, List.zipIdx_append, List.flatMap_append]
  rfl

/-- The events of a node up to one of its children, and from there on. -/
theorem events_of_children {node : Node} {before after : List Node}
    (children : node.children = before ++ after) :
    node.events = (node.entering :: eventsOf 0 before) ++
      (eventsOf before.length after ++ [node.leaving]) := by
  rw [events_eq, children, eventsOf_append, Nat.zero_add, List.append_assoc]
  rfl

theorem mem_nodes_self (node : Node) : node ∈ node.nodes := by
  rw [nodes_eq]
  exact List.mem_cons_self

theorem mem_nodes_iff {node inner : Node} :
    inner ∈ node.nodes ↔
      inner = node ∨ ∃ child ∈ node.children, inner ∈ child.nodes := by
  rw [nodes_eq, List.mem_cons, List.mem_flatMap]

theorem mem_nodes_of_mem_children {node child inner : Node}
    (member : child ∈ node.children) (inside : inner ∈ child.nodes) :
    inner ∈ node.nodes :=
  mem_nodes_iff.mpr (.inr ⟨child, member, inside⟩)

theorem mem_nodes_trans {node middle inner : Node}
    (member : middle ∈ node.nodes) (inside : inner ∈ middle.nodes) :
    inner ∈ node.nodes := by
  induction node using induction_on_children with
  | step node induction =>
      rcases mem_nodes_iff.mp member with rfl | ⟨child, childMember, below⟩
      · exact inside
      · exact mem_nodes_of_mem_children childMember
          (induction child childMember below)

theorem forall_mem_nodes_iff {Holds : Node → Prop} {node : Node} :
    (∀ inner ∈ node.nodes, Holds inner) ↔
      Holds node ∧ ∀ child ∈ node.children, ∀ inner ∈ child.nodes,
        Holds inner := by
  rw [nodes_eq, List.forall_mem_cons]
  simp only [List.mem_flatMap, forall_exists_index, and_imp]
  exact and_congr_right fun _ =>
    ⟨fun below child member inner inside => below inner child member inside,
    fun below inner child member inside => below child member inner inside⟩

end Node

namespace Event

@[simp] theorem entered_nil : entered [] = [] := rfl

@[simp] theorem entered_append (first second : List Event) :
    entered (first ++ second) = entered first ++ entered second := by
  simp [entered]

theorem entered_map_under (place : Nat) (events : List Event) :
    entered (events.map (under place)) =
      (entered events).map (Occurrence.under place) := by
  induction events with
  | nil => rfl
  | cons event rest induction =>
      obtain ⟨occurrence, hook⟩ := event
      cases hook with
      | enter =>
          change occurrence.under place :: entered (rest.map (under place)) =
            occurrence.under place ::
              (entered rest).map (Occurrence.under place)
          rw [induction]
      | leave => exact induction

theorem left_append {first second : List Event} {path : List Nat} :
    Left (first ++ second) path ↔ Left first path ∨ Left second path := by
  simp only [Left, List.mem_append, or_and_right, exists_or]

theorem left_map_under {place : Nat} {events : List Event} {path : List Nat} :
    Left (events.map (under place)) path ↔
      ∃ below, path = place :: below ∧ Left events below := by
  constructor
  · rintro ⟨event, member, isLeave, rfl⟩
    obtain ⟨inner, innerMember, rfl⟩ := List.mem_map.mp member
    exact ⟨inner.path, rfl, inner, innerMember, isLeave, rfl⟩
  · rintro ⟨below, rfl, event, member, isLeave, rfl⟩
    exact ⟨event.under place, List.mem_map_of_mem member, isLeave, rfl⟩

end Event

namespace Node

@[simp] theorem entered_entering (node : Node) (rest : List Event) :
    Event.entered (node.entering :: rest) = ⟨[], node⟩ :: Event.entered rest :=
  rfl

@[simp] theorem entered_leaving (node : Node) :
    Event.entered [node.leaving] = [] := rfl

theorem occurrences_eq (node : Node) :
    node.occurrences =
      ⟨[], node⟩ :: Event.entered (eventsOf 0 node.children) := by
  rw [occurrences, events_eq]
  simp

theorem entered_eventsOf_cons (first : Nat) (child : Node) (rest : List Node) :
    Event.entered (eventsOf first (child :: rest)) =
      child.occurrences.map (Occurrence.under first) ++
        Event.entered (eventsOf (first + 1) rest) := by
  rw [eventsOf_cons, Event.entered_append, Event.entered_map_under]
  rfl

theorem path_of_mem_entered_eventsOf {first : Nat} {siblings : List Node}
    {occurrence : Occurrence}
    (member : occurrence ∈ Event.entered (eventsOf first siblings)) :
    ∃ place path, first ≤ place ∧ place < first + siblings.length ∧
      occurrence.path = place :: path := by
  induction siblings generalizing first with
  | nil => cases member
  | cons child rest induction =>
      rw [entered_eventsOf_cons, List.mem_append] at member
      rw [List.length_cons]
      rcases member with here | later
      · obtain ⟨origin, _, rfl⟩ := List.mem_map.mp here
        exact ⟨first, origin.path, Nat.le_refl _, by omega, rfl⟩
      · obtain ⟨place, path, atLeast, below, equal⟩ := induction later
        exact ⟨place, path, Nat.le_of_succ_le atLeast, by omega, equal⟩

/-- An occurrence below a node is one in the child at which its path begins. -/
theorem mem_entered_eventsOf_iff {first : Nat} {siblings : List Node}
    {place : Nat} {path : List Nat} {inner : Node} :
    ⟨place :: path, inner⟩ ∈ Event.entered (eventsOf first siblings) ↔
      ∃ before child after, siblings = before ++ child :: after ∧
        place = first + before.length ∧
        ⟨path, inner⟩ ∈ child.occurrences := by
  induction siblings generalizing first with
  | nil => simp
  | cons child rest induction =>
      rw [entered_eventsOf_cons, List.mem_append, induction, List.mem_map]
      constructor
      · rintro (⟨origin, member, equal⟩
          | ⟨before, other, after, rfl, rfl, member⟩)
        · cases equal
          exact ⟨[], child, rest, rfl, rfl, member⟩
        · exact ⟨child :: before, other, after, rfl,
            by rw [List.length_cons]; omega, member⟩
      · rintro ⟨before, other, after, equal, rfl, member⟩
        cases before with
        | nil =>
            obtain ⟨rfl, rfl⟩ := List.cons.inj equal
            exact .inl ⟨⟨path, inner⟩, member, rfl⟩
        | cons head before =>
            obtain ⟨rfl, rfl⟩ := List.cons.inj equal
            exact .inr ⟨before, other, after, rfl,
              by rw [List.length_cons]; omega, member⟩

theorem mem_occurrences_nil_iff {node inner : Node} :
    ⟨[], inner⟩ ∈ node.occurrences ↔ inner = node := by
  rw [occurrences_eq, List.mem_cons]
  constructor
  · rintro (atRoot | below)
    · cases atRoot
      rfl
    · obtain ⟨_, _, _, _, equal⟩ := path_of_mem_entered_eventsOf below
      cases equal
  · rintro rfl
    exact .inl rfl

/-- The occurrences below a child are those of the child, seen from the
parent. -/
theorem mem_occurrences_below_iff {node child : Node} {before after : List Node}
    (children : node.children = before ++ child :: after) {path : List Nat}
    {inner : Node} :
    ⟨before.length :: path, inner⟩ ∈ node.occurrences ↔
      ⟨path, inner⟩ ∈ child.occurrences := by
  rw [occurrences_eq, List.mem_cons]
  constructor
  · rintro (atRoot | below)
    · cases atRoot
    · obtain ⟨others, other, rest, split, place, inside⟩ :=
        mem_entered_eventsOf_iff.mp below
      have sameLength : before.length = others.length := by omega
      obtain ⟨_, sameRest⟩ :=
        List.append_inj (children.symm.trans split) sameLength
      obtain ⟨rfl, _⟩ := List.cons.inj sameRest
      exact inside
  · intro inside
    right
    apply mem_entered_eventsOf_iff.mpr
    exact ⟨before, child, after, children, (Nat.zero_add _).symm, inside⟩

theorem map_node_entered_eventsOf {siblings : List Node}
    (below : ∀ child ∈ siblings,
      child.occurrences.map Occurrence.node = child.nodes)
    (first : Nat) :
    (Event.entered (eventsOf first siblings)).map Occurrence.node =
      siblings.flatMap nodes := by
  induction siblings generalizing first with
  | nil => rfl
  | cons child rest induction =>
      have later := induction (fun other member =>
        below other (List.mem_cons_of_mem _ member)) (first + 1)
      rw [entered_eventsOf_cons, List.map_append, later, List.map_map,
        List.flatMap_cons, ← below child List.mem_cons_self]
      rfl

theorem map_node_occurrences (node : Node) :
    node.occurrences.map Occurrence.node = node.nodes := by
  induction node using induction_on_children with
  | step node induction =>
      rw [occurrences_eq, nodes_eq, List.map_cons,
        map_node_entered_eventsOf induction]

theorem pairwise_entered_eventsOf {siblings : List Node}
    (below : ∀ child ∈ siblings, child.occurrences.Pairwise (·.path < ·.path))
    (first : Nat) :
    (Event.entered (eventsOf first siblings)).Pairwise (·.path < ·.path) := by
  induction siblings generalizing first with
  | nil => exact .nil
  | cons child rest induction =>
      have later := induction (fun other member =>
        below other (List.mem_cons_of_mem _ member)) (first + 1)
      rw [entered_eventsOf_cons, List.pairwise_append]
      refine ⟨?_, later, ?_⟩
      · rw [List.pairwise_map]
        apply (below child List.mem_cons_self).imp
        intro upper lower ordered
        exact List.cons_lt_cons_self.mpr ordered
      · intro inner innerMember other otherMember
        obtain ⟨origin, _, rfl⟩ := List.mem_map.mp innerMember
        obtain ⟨place, path, atLeast, _, equal⟩ :=
          path_of_mem_entered_eventsOf otherMember
        rw [equal]
        exact List.cons_lt_cons_iff.mpr (.inl atLeast)

/-- A walk enters the occurrences of a tree in the lexicographic order of
their paths.  In particular it enters each of them once. -/
theorem pairwise_occurrences (node : Node) :
    node.occurrences.Pairwise (·.path < ·.path) := by
  induction node using induction_on_children with
  | step node induction =>
      rw [occurrences_eq, List.pairwise_cons]
      refine ⟨?_, pairwise_entered_eventsOf induction 0⟩
      intro other member
      obtain ⟨place, path, _, _, equal⟩ := path_of_mem_entered_eventsOf member
      rw [equal]
      exact List.nil_lt_cons ..

theorem path_of_left_eventsOf {first : Nat} {siblings : List Node}
    {path : List Nat} (left : Event.Left (eventsOf first siblings) path) :
    ∃ place below, place < first + siblings.length ∧ path = place :: below := by
  induction siblings generalizing first with
  | nil =>
      obtain ⟨event, member, _⟩ := left
      cases member
  | cons child rest induction =>
      rw [eventsOf_cons, Event.left_append, Event.left_map_under] at left
      rcases left with ⟨below, rfl, _⟩ | later
      · exact ⟨first, below, by simp, rfl⟩
      · obtain ⟨place, below, bound, rfl⟩ := induction later
        exact ⟨place, below, by rw [List.length_cons]; omega, rfl⟩

theorem left_of_mem_entered_eventsOf {siblings : List Node}
    (below : ∀ child ∈ siblings, ∀ occurrence ∈ child.occurrences,
      Event.Left child.events occurrence.path)
    {first : Nat} {occurrence : Occurrence}
    (member : occurrence ∈ Event.entered (eventsOf first siblings)) :
    Event.Left (eventsOf first siblings) occurrence.path := by
  induction siblings generalizing first with
  | nil => cases member
  | cons child rest induction =>
      rw [entered_eventsOf_cons, List.mem_append] at member
      rw [eventsOf_cons, Event.left_append]
      rcases member with here | later
      · obtain ⟨origin, originMember, rfl⟩ := List.mem_map.mp here
        have left := below child List.mem_cons_self origin originMember
        exact .inl (Event.left_map_under.mpr ⟨origin.path, rfl, left⟩)
      · exact .inr (induction (fun other member =>
          below other (List.mem_cons_of_mem _ member)) later)

/-- A complete walk leaves every occurrence that it enters. -/
theorem left_of_mem_occurrences {node : Node} {occurrence : Occurrence}
    (member : occurrence ∈ node.occurrences) :
    Event.Left node.events occurrence.path := by
  induction node using induction_on_children generalizing occurrence with
  | step node induction =>
      rw [occurrences_eq] at member
      rw [events_eq]
      rcases List.mem_cons.mp member with rfl | below
      · exact ⟨node.leaving, by simp, rfl, rfl⟩
      · obtain ⟨event, eventMember, isLeave, samePath⟩ :=
          left_of_mem_entered_eventsOf
            (fun child childMember _ => induction child childMember) below
        exact ⟨event, by simp [eventMember], isLeave, samePath⟩

theorem mem_eventsOf {first : Nat} {siblings : List Node} {event : Event}
    (member : event ∈ eventsOf first siblings) :
    ∃ child ∈ siblings, ∃ inner ∈ child.events, event.node = inner.node ∧
      event.hook = inner.hook := by
  obtain ⟨⟨child, place⟩, placed, inside⟩ := List.mem_flatMap.mp member
  obtain ⟨inner, innerMember, rfl⟩ := List.mem_map.mp inside
  exact ⟨child, List.fst_mem_of_mem_zipIdx placed, inner, innerMember, rfl, rfl⟩

/-- The events of a tree are about its nodes. -/
theorem mem_nodes_of_mem_events {node : Node} {event : Event}
    (member : event ∈ node.events) :
    event.node ∈ node.nodes := by
  induction node using induction_on_children generalizing event with
  | step node induction =>
      rw [events_eq, List.mem_cons, List.mem_append,
        List.mem_singleton] at member
      rcases member with rfl | below | rfl
      · exact node.mem_nodes_self
      · obtain ⟨child, childMember, inner, innerMember, same, _⟩ :=
          mem_eventsOf below
        rw [same]
        exact mem_nodes_of_mem_children childMember
          (induction child childMember innerMember)
      · exact node.mem_nodes_self

/-- What has been left below the child at which a walk stands. -/
theorem left_inside_cons {node : Node} {before : List Node} {inner : List Event}
    {path : List Nat} :
    Event.Left (node.entering ::
      (eventsOf 0 before ++ inner.map (Event.under before.length)))
      (before.length :: path) ↔ Event.Left inner path := by
  constructor
  · rintro ⟨event, member, isLeave, samePath⟩
    rcases List.mem_cons.mp member with rfl | member
    · cases isLeave
    · have left : Event.Left
          (eventsOf 0 before ++ inner.map (Event.under before.length))
          (before.length :: path) := ⟨event, member, isLeave, samePath⟩
      rcases Event.left_append.mp left with passed | below
      · obtain ⟨place, rest, bound, equal⟩ := path_of_left_eventsOf passed
        have samePlace := (List.cons.inj equal).1
        omega
      · obtain ⟨rest, equal, below⟩ := Event.left_map_under.mp below
        rwa [(List.cons.inj equal).2]
  · rintro ⟨event, member, isLeave, rfl⟩
    refine ⟨event.under before.length, ?_, isLeave, rfl⟩
    exact List.mem_cons_of_mem _
      (List.mem_append_right _ (List.mem_map_of_mem member))

theorem not_left_inside_nil {node : Node} {before : List Node} {place : Nat}
    {inner : List Event} :
    ¬Event.Left (node.entering ::
      (eventsOf 0 before ++ inner.map (Event.under place))) [] := by
  rintro ⟨event, member, isLeave, atRoot⟩
  rcases List.mem_cons.mp member with rfl | member
  · cases isLeave
  · have left :
        Event.Left (eventsOf 0 before ++ inner.map (Event.under place)) [] :=
      ⟨event, member, isLeave, atRoot⟩
    rcases Event.left_append.mp left with passed | below
    · obtain ⟨_, _, _, equal⟩ := path_of_left_eventsOf passed
      cases equal
    · obtain ⟨_, equal, _⟩ := Event.left_map_under.mp below
      cases equal

end Node

namespace Occurrence

theorem Above.path_lt {upper lower : Occurrence} (above : upper.Above lower) :
    upper.path < lower.path := by
  obtain ⟨⟨rest, equal⟩, different⟩ := above
  cases rest with
  | nil => exact absurd (by simpa using equal) different
  | cons place rest =>
      have longer : upper.path ++ [] < upper.path ++ place :: rest :=
        List.append_left_lt (List.nil_lt_cons place rest)
      rwa [equal, List.append_nil] at longer

end Occurrence

/-- A moment of the walk of a node: the events so far, and the one that comes
next. -/
inductive Stage : Node → List Event → Event → Prop where
  | entering (node : Node) : Stage node [] node.entering
  | inside {node child : Node} {before after : List Node} {history : List Event}
      {current : Event} :
      node.children = before ++ child :: after →
      Stage child history current →
      Stage node
        (node.entering ::
          (Node.eventsOf 0 before ++ history.map (Event.under before.length)))
        (current.under before.length)
  | leaving (node : Node) :
      Stage node (node.entering :: Node.eventsOf 0 node.children) node.leaving

theorem split_of_append {α : Type} {first second history future : List α}
    {current : α} (split : first ++ second = history ++ current :: future) :
    (∃ rest, first = history ++ current :: rest) ∨
      ∃ later, history = first ++ later ∧
        second = later ++ current :: future := by
  rcases List.append_eq_append_iff.mp split with ⟨later, equal, laterEq⟩
    | ⟨rest, equal, restEq⟩
  · exact .inr ⟨later, equal, laterEq⟩
  · cases rest with
    | nil =>
        exact .inr ⟨[], by simpa using equal.symm, by simpa using restEq.symm⟩
    | cons head rest =>
        rw [List.cons_append, List.cons.injEq] at restEq
        exact .inl ⟨rest, by rw [equal, restEq.1]⟩

private theorem eventsOf_split {first : Nat} {siblings : List Node}
    {history future : List Event} {current : Event}
    (split : Node.eventsOf first siblings = history ++ current :: future) :
    ∃ before child after inner next rest,
      siblings = before ++ child :: after ∧
      child.events = inner ++ next :: rest ∧
      history = Node.eventsOf first before ++
        inner.map (Event.under (first + before.length)) ∧
      current = next.under (first + before.length) := by
  induction siblings generalizing first history with
  | nil => simp at split
  | cons child rest induction =>
      rw [Node.eventsOf_cons] at split
      rcases split_of_append split with ⟨unseen, childEq⟩
        | ⟨later, historyEq, laterEq⟩
      · obtain ⟨inner, tail, eventsEq, innerEq, tailEq⟩ :=
          List.map_eq_append_iff.mp childEq
        obtain ⟨next, unseen, rfl, nextEq, _⟩ := List.map_eq_cons_iff.mp tailEq
        exact ⟨[], child, rest, inner, next, unseen, rfl, eventsEq,
          innerEq.symm, nextEq.symm⟩
      · obtain ⟨before, other, after, inner, next, unseen, rfl, otherEq,
          innerEq, currentEq⟩ := induction laterEq
        have places :
            first + 1 + before.length = first + (child :: before).length := by
          rw [List.length_cons]
          omega
        rw [places] at innerEq currentEq
        refine ⟨child :: before, other, after, inner, next, unseen, rfl,
          otherEq, ?_, currentEq⟩
        rw [historyEq, innerEq, Node.eventsOf_cons, List.append_assoc]

/-- Every moment of a walk is a stage of it. -/
theorem Stage.of_split {node : Node} {history future : List Event}
    {current : Event} (split : node.events = history ++ current :: future) :
    Stage node history current := by
  induction node using Node.induction_on_children
    generalizing history future current with
  | step node induction =>
      rw [Node.events_eq] at split
      cases history with
      | nil =>
          obtain ⟨rfl, _⟩ := List.cons.inj split
          exact .entering node
      | cons head history =>
          obtain ⟨rfl, tailEq⟩ := List.cons.inj split
          rcases split_of_append tailEq with ⟨rest, belowEq⟩
            | ⟨later, historyEq, laterEq⟩
          · obtain ⟨before, child, after, inner, next, unseen, childrenEq,
              childEq, historyEq, currentEq⟩ := eventsOf_split belowEq
            rw [Nat.zero_add] at historyEq currentEq
            have member : child ∈ node.children := by
              rw [childrenEq]
              simp
            rw [historyEq, currentEq]
            exact .inside childrenEq (induction child member childEq)
          · cases later with
            | nil =>
                obtain ⟨rfl, _⟩ := List.cons.inj laterEq
                rw [historyEq, List.append_nil]
                exact .leaving node
            | cons other later => simp at laterEq

end ScopeLint
