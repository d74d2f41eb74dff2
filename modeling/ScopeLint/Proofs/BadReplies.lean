import ScopeLint.Proofs.Course
import ScopeLint.Visitor.Script

/-!
# Replies that are no nodes

A visitor has to answer every callback with a node.  If one does not, everything
ends there: the nodes that are open are not left any more, and the visitors that
come later do not walk at all.  To say so, `Visitor.answers` lists what a
visitor would answer if its walk always went on, and the walks in turn are
compared with the answers of all visitors one after the other.
-/

namespace ScopeLint

/-- A callback as seen from outside, with what came back. -/
structure Answered where
  call : Call
  reply : Reply

namespace Visitor

/-- What a visitor answers to the callbacks for events, as if it was asked on
whatever it answers. -/
def answers (visitor : Visitor) (events : List Event) : List Answered :=
  (visitor.callbacks visitor.start events).map fun callback =>
    ⟨⟨visitor.name, callback.hook, callback.node⟩, callback.reaction.reply⟩

/-- Every hook gives back the node that it got, or something that is no node. -/
def KeepsOrBreaks (visitor : Visitor) : Prop :=
  ∀ hook state node, (visitor.react hook state node).reply = .keep ∨
    ∃ typeName, (visitor.react hook state node).reply = .other typeName

end Visitor

/-- What visitors answer one after the other, as if each walked the whole
tree. -/
def answersInTurn (order : List Visitor) (root : Node) : List Answered :=
  order.flatMap fun visitor => visitor.answers root.events

theorem answersInTurn_cons (visitor : Visitor) (rest : List Visitor)
    (root : Node) :
    answersInTurn (visitor :: rest) root =
      visitor.answers root.events ++ answersInTurn rest root :=
  List.flatMap_cons

/-- Walks in turn that end with an answer which is no node.  It is the first one
of this kind, and its visitor has come to an event with nodes above it that it
has not left. -/
structure EndsWith (order : List Visitor) (root : Node) (traversal : Traversal)
    (before : List Answered) (bad : Answered) (after : List Answered) :
    Prop where
  split : answersInTurn order root = before ++ bad :: after
  kept : ∀ answer ∈ before, answer.reply = .keep
  calls : traversal.calls = (before ++ [bad]).map Answered.call
  result : ∃ typeName, bad.reply = .other typeName ∧
    traversal.result =
      .error (.lint (.badReply bad.call.visitor bad.call.hook typeName))
  unfinished : ∃ earlier visitor later history event future,
    order = earlier ++ visitor :: later ∧
    root.events = history ++ event :: future ∧
    before ++ [bad] =
      answersInTurn earlier root ++ visitor.answers (history ++ [event]) ∧
    ∀ upper : Occurrence, upper.Above event.toOccurrence →
      ¬Event.Left (history ++ [event]) upper.path

/-! ## Open nodes -/

/-- A walk that has come to an event has not left any node above it. -/
theorem Stage.not_left_of_above {root : Node} {history : List Event}
    {current : Event} (stage : Stage root history current) {upper : Occurrence}
    (above : upper.Above current.toOccurrence) :
    ¬Event.Left (history ++ [current]) upper.path := by
  obtain ⟨path, node⟩ := upper
  induction stage generalizing path with
  | entering root => exact absurd (List.prefix_nil.mp above.1) above.2
  | leaving root => exact absurd (List.prefix_nil.mp above.1) above.2
  | @inside root child before after history current children stage induction =>
      have moment : (root.entering :: (Node.eventsOf 0 before ++
            history.map (Event.under before.length))) ++
            [current.under before.length] =
          root.entering :: (Node.eventsOf 0 before ++
            (history ++ [current]).map (Event.under before.length)) := by
        simp
      rw [moment]
      cases path with
      | nil => exact Node.not_left_inside_nil
      | cons place path =>
          obtain ⟨rfl, below⟩ := List.cons_prefix_cons.mp above.1
          intro left
          refine induction path ⟨below, ?_⟩ (Node.left_inside_cons.mp left)
          intro same
          exact above.2 (congrArg (before.length :: ·) same)

/-! ## One visitor -/

namespace Visitor

variable {visitor : Visitor}

theorem answers_append (first second : List Event) :
    visitor.answers (first ++ second) =
      visitor.answers first ++
        (visitor.callbacks (visitor.stateAfter visitor.start first) second).map
          fun callback =>
            ⟨⟨visitor.name, callback.hook, callback.node⟩,
              callback.reaction.reply⟩ := by
  rw [answers, callbacks_append, List.map_append]
  rfl

theorem outline_of_calls {α : Type} {passage : Passage visitor.State α}
    {events : List Event}
    (calls : passage.calls = visitor.callbacks visitor.start events) :
    visitor.outline passage = (visitor.answers events).map Answered.call := by
  rw [outline, answers, calls, List.map_map]
  rfl

theorem smooth_iff_callbacks {state : visitor.State} {events : List Event} :
    visitor.Smooth state events ↔
      ∀ callback ∈ visitor.callbacks state events,
        callback.reaction.reply = .keep := by
  induction events generalizing state with
  | nil => simp [Smooth, callbacks]
  | cons event rest induction =>
      rw [Smooth, callbacks, List.forall_mem_cons, induction]

theorem smooth_iff_answers {events : List Event} :
    visitor.Smooth visitor.start events ↔
      ∀ answer ∈ visitor.answers events, answer.reply = .keep := by
  rw [smooth_iff_callbacks, answers, List.forall_mem_map]

namespace KeepsOrBreaks

variable (breaks : visitor.KeepsOrBreaks)
include breaks

theorem keeps : visitor.Keeps := by
  intro hook state node other replaced
  rcases breaks hook state node with kept | ⟨typeName, broken⟩
  · rw [kept] at replaced
    cases replaced
  · rw [broken] at replaced
    cases replaced

/-- A callback of such a visitor fails with the error that names the visitor,
the hook and the type of what came back. -/
theorem reply_of_error {hook : Hook} {state : visitor.State} {node : Node}
    {failure : Failure}
    (failed : (visitor.call hook state node).result = .error failure) :
    ∃ typeName, (visitor.react hook state node).reply = .other typeName ∧
      failure = .lint (.badReply visitor.name hook typeName) := by
  rcases breaks hook state node with kept | ⟨typeName, broken⟩
  · simp [call, accept, kept] at failed
  · refine ⟨typeName, broken, ?_⟩
    simpa [call, accept, broken] using failed.symm

end KeepsOrBreaks

end Visitor

/-! ## All visitors -/

theorem traverseInTurn_of_smooth {visitor : Visitor} (keeps : visitor.Keeps)
    {root : Node} (smooth : visitor.Smooth visitor.start root.events)
    (rest : List Visitor) :
    (traverseInTurn (visitor :: rest) root).calls =
        (visitor.answers root.events).map Answered.call ++
          (traverseInTurn rest root).calls ∧
      (traverseInTurn (visitor :: rest) root).result =
        (traverseInTurn rest root).result := by
  have complete : visitor.pass root = _ := keeps.passFrom_of_smooth smooth
  have outline : visitor.outline (visitor.pass root) = _ :=
    Visitor.outline_of_calls (congrArg Passage.calls complete)
  have result : (visitor.pass root).result = .ok root :=
    congrArg Passage.result complete
  rw [traverseInTurn, result, outline]
  exact ⟨rfl, rfl⟩

theorem endsWith_of_failure {visitor : Visitor} (breaks : visitor.KeepsOrBreaks)
    {root : Node} {history future : List Event} {event : Event}
    {failure : Failure} (split : root.events = history ++ event :: future)
    (smooth : visitor.Smooth visitor.start history)
    (fails : (visitor.call event.hook (visitor.stateAfter visitor.start history)
      event.node).result = .error failure) (rest : List Visitor) :
    ∃ bad after,
      EndsWith (visitor :: rest) root (traverseInTurn (visitor :: rest) root)
        (visitor.answers history) bad after := by
  obtain ⟨typeName, broken, rfl⟩ := breaks.reply_of_error fails
  have stopped : visitor.pass root = _ :=
    breaks.keeps.passFrom_of_failure split smooth fails
  have outline : visitor.outline (visitor.pass root) = _ :=
    Visitor.outline_of_calls (congrArg Passage.calls stopped)
  have result : (visitor.pass root).result = _ :=
    congrArg Passage.result stopped
  let bad : Answered :=
    ⟨⟨visitor.name, event.hook, event.node⟩, .other typeName⟩
  have upToBad : visitor.answers (history ++ [event]) =
      visitor.answers history ++ [bad] := by
    rw [Visitor.answers_append]
    simp [Visitor.callbacks, broken, bad]
  have walked : (traverseInTurn (visitor :: rest) root).calls =
        (visitor.answers history ++ [bad]).map Answered.call ∧
      (traverseInTurn (visitor :: rest) root).result =
        .error (.lint (.badReply visitor.name event.hook typeName)) := by
    rw [traverseInTurn, result, outline, upToBad]
    exact ⟨rfl, rfl⟩
  have splitHere : root.events = (history ++ [event]) ++ future := by
    rw [split, List.append_assoc]
    rfl
  obtain ⟨unasked, answered⟩ : ∃ unasked, answersInTurn (visitor :: rest) root =
      visitor.answers history ++ bad :: unasked := by
    rw [answersInTurn_cons, splitHere, Visitor.answers_append, upToBad]
    simp
  refine ⟨bad, unasked, answered,
    Visitor.smooth_iff_answers.mp smooth, walked.1,
    ⟨typeName, rfl, walked.2⟩, ?_⟩
  refine ⟨[], visitor, rest, history, event, future, rfl, split,
    upToBad.symm, ?_⟩
  intro upper above
  exact (Stage.of_split split).not_left_of_above above

theorem EndsWith.cons {visitor : Visitor} (keeps : visitor.Keeps) {root : Node}
    (smooth : visitor.Smooth visitor.start root.events) {rest : List Visitor}
    {before after : List Answered} {bad : Answered}
    (ends : EndsWith rest root (traverseInTurn rest root) before bad after) :
    EndsWith (visitor :: rest) root (traverseInTurn (visitor :: rest) root)
      (visitor.answers root.events ++ before) bad after := by
  obtain ⟨calls, result⟩ := traverseInTurn_of_smooth keeps smooth rest
  obtain ⟨earlier, broken, later, history, event, future, order, split,
    answered, opened⟩ := ends.unfinished
  constructor
  · rw [answersInTurn_cons, ends.split, List.append_assoc]
  · intro answer member
    rcases List.mem_append.mp member with first | second
    · exact Visitor.smooth_iff_answers.mp smooth answer first
    · exact ends.kept answer second
  · rw [calls, ends.calls, List.append_assoc, ← List.map_append]
  · rw [result]
    exact ends.result
  · refine ⟨visitor :: earlier, broken, later, history, event, future,
      by rw [order]; rfl, split, ?_, opened⟩
    rw [List.append_assoc, answered, answersInTurn_cons, List.append_assoc]

theorem traverseInTurn_of_keepsOrBreaks {order : List Visitor}
    (breaks : ∀ visitor ∈ order, visitor.KeepsOrBreaks) (root : Node) :
    ((∀ answer ∈ answersInTurn order root, answer.reply = .keep) ∧
      (traverseInTurn order root).calls =
        (answersInTurn order root).map Answered.call ∧
      (traverseInTurn order root).result = .ok root) ∨
    ∃ before bad after,
      EndsWith order root (traverseInTurn order root) before bad after := by
  induction order with
  | nil => exact .inl ⟨by simp [answersInTurn], rfl, rfl⟩
  | cons visitor rest induction =>
      have breaksHere := breaks visitor List.mem_cons_self
      rcases breaksHere.keeps.smooth_or_fails visitor.start root.events with
        smooth | ⟨history, event, future, failure, split, smooth, fails⟩
      · rcases induction fun other member =>
          breaks other (List.mem_cons_of_mem _ member) with
          ⟨kept, calls, result⟩ | ⟨before, bad, after, ends⟩
        · left
          obtain ⟨callsHere, resultHere⟩ :=
            traverseInTurn_of_smooth breaksHere.keeps smooth rest
          refine ⟨?_, ?_, resultHere.trans result⟩
          · intro answer member
            rw [answersInTurn_cons] at member
            rcases List.mem_append.mp member with first | later
            · exact Visitor.smooth_iff_answers.mp smooth answer first
            · exact kept answer later
          · rw [callsHere, calls, answersInTurn_cons, List.map_append]
        · exact .inr ⟨_, bad, after, ends.cons breaksHere.keeps smooth⟩
      · exact .inr ⟨_, endsWith_of_failure breaksHere split smooth fails rest⟩

/-- Visitors that give back the node they got or something that is no node walk
as scheduled.  If they answer with nodes throughout, they make all callbacks and
the root comes back.  Otherwise the callbacks end with the first answer that is
no node, and the error names its visitor, its hook and the type of what came
back. -/
theorem traverse_ends_with_bad_reply {visitors : List Visitor}
    (breaks : ∀ visitor ∈ visitors, visitor.KeepsOrBreaks) (root : Node) :
    let order := (schedule visitors).map Prod.fst
    ((∀ answer ∈ answersInTurn order root, answer.reply = .keep) →
      (traverse visitors root).calls =
        (answersInTurn order root).map Answered.call ∧
      (traverse visitors root).result = .ok root) ∧
    (¬(∀ answer ∈ answersInTurn order root, answer.reply = .keep) →
      ∃ before bad after,
        EndsWith order root (traverse visitors root) before bad after) := by
  intro order
  have breaksInOrder : ∀ visitor ∈ order, visitor.KeepsOrBreaks := by
    intro visitor member
    obtain ⟨entry, scheduled, rfl⟩ := List.mem_map.mp member
    apply breaks
    have registered := (List.mergeSort_perm _ _).mem_iff.mp scheduled
    exact List.fst_mem_of_mem_zipIdx registered
  rcases traverseInTurn_of_keepsOrBreaks breaksInOrder root with
    ⟨kept, complete⟩ | ⟨before, bad, after, ends⟩
  · exact ⟨fun _ => complete, fun broken => absurd kept broken⟩
  · refine ⟨?_, fun _ => ⟨before, bad, after, ends⟩⟩
    intro kept
    obtain ⟨typeName, broken, _⟩ := ends.result
    have keptBad := kept bad (by rw [ends.split]; simp)
    rw [broken] at keptBad
    cases keptBad

/-- A visitor that forgets to answer when it leaves the rows. -/
def forgetful : Visitor :=
  Script.visitor
    { name := "Forgetful"
      tag := "forget"
      rules := [⟨some .leave, "Name:rows", .other "NoneType"⟩] }

/-- The visitor that does nothing, before others. -/
def idleBefore : Visitor := { Visitor.idle with priority := -1 }

/-- An output of two names. -/
def table : Node :=
  ⟨0, ⟨1, 0⟩, .output ⟨1, ⟨1, 3⟩, .tuple
    [⟨2, ⟨1, 3⟩, .name "rows" "load"⟩,
      ⟨3, ⟨1, 9⟩, .name "cells" "load"⟩] "load"⟩ true⟩

theorem traverse_ends_with_bad_reply_forgetful :
    let visitors := [forgetful, idleBefore, Visitor.idle]
    let order := [idleBefore, forgetful, Visitor.idle]
    (∀ visitor ∈ visitors, visitor.KeepsOrBreaks) ∧
    (∃ answer ∈ answersInTurn order table, answer.reply ≠ .keep) ∧
    (∃ before bad after,
      EndsWith order table (traverse visitors table) before bad after) ∧
    (traverse visitors table).calls.length = 12 ∧
    (traverse visitors table).result =
      .error (.lint (.badReply "Forgetful" .leave "NoneType")) := by
  intro visitors order
  have forgets : forgetful.KeepsOrBreaks := by
    intro hook state node
    change Script.reply _ hook node = .keep ∨ ∃ typeName,
      Script.reply _ hook node = .other typeName
    rw [Script.reply]
    split
    · rename_i rule found
      rw [List.mem_singleton.mp (List.mem_of_find?_eq_some found)]
      exact .inr ⟨"NoneType", rfl⟩
    · exact .inl rfl
  have breaks : ∀ visitor ∈ visitors, visitor.KeepsOrBreaks := by
    simp only [visitors, List.forall_mem_cons]
    exact ⟨forgets, fun _ _ _ => .inl rfl, fun _ _ _ => .inl rfl, by simp⟩
  have inOrder : (schedule visitors).map Prod.fst = order := by
    simp [visitors, order, schedule, List.mergeSort, forgetful, idleBefore,
      Visitor.idle, Script.visitor]
  have answered : (answersInTurn order table)[11]? =
      some ⟨⟨"Forgetful", .leave, ⟨2, ⟨1, 3⟩, .name "rows" "load"⟩⟩,
        .other "NoneType"⟩ := rfl
  have broken : ∃ answer ∈ answersInTurn order table, answer.reply ≠ .keep := by
    refine ⟨_, List.mem_of_getElem? answered, ?_⟩
    rintro ⟨⟩
  obtain ⟨_, ends⟩ := traverse_ends_with_bad_reply breaks table
  rw [inOrder] at ends
  refine ⟨breaks, broken, ends (by simpa using broken), ?_⟩
  rw [traverse, inOrder]
  exact ⟨rfl, rfl⟩

end ScopeLint
