import ScopeLint.Proofs.Occurrence
import ScopeLint.Visitor.Schedule

/-!
# The course of a walk

A visitor that never puts another node in the place of the one it got is led
through the events of the tree one after the other, up to the first one at
which it fails.  So its walk is a run over a list: `Visitor.lead` makes the
callbacks, `Visitor.callbacks` are those it would make if nothing could fail,
and `Visitor.stateAfter` is the state that a list of events leads to.
-/

namespace ScopeLint

namespace Passage

variable {State α β γ : Type}

@[simp] theorem still_andThen (state : State) (a : α)
    (next : State → α → Passage State β) :
    (still state a).andThen next = next state a := rfl

theorem andThen_of_error {first : Passage State α} {failure : Failure}
    (failed : first.result = .error failure)
    (next : State → α → Passage State β) :
    first.andThen next = ⟨first.calls, first.state, .error failure⟩ := by
  rw [andThen, failed]

theorem andThen_of_ok {first : Passage State α} {a : α}
    (done : first.result = .ok a) (next : State → α → Passage State β) :
    first.andThen next =
      ⟨first.calls ++ (next first.state a).calls, (next first.state a).state,
        (next first.state a).result⟩ := by
  rw [andThen, done]

theorem andThen_assoc (first : Passage State α)
    (second : State → α → Passage State β)
    (third : State → β → Passage State γ) :
    (first.andThen second).andThen third =
      first.andThen fun state a => (second state a).andThen third := by
  cases firstResult : first.result with
  | error failure => simp [andThen, firstResult]
  | ok a =>
      cases secondResult : (second first.state a).result with
      | error failure => simp [andThen, firstResult, secondResult]
      | ok b => simp [andThen, firstResult, secondResult]

end Passage

namespace Visitor

/-- The visitor never answers with another node than the one it got. -/
def Keeps (visitor : Visitor) : Prop :=
  ∀ hook state node other,
    (visitor.react hook state node).reply ≠ .replace other

/-- Make the callbacks for events one after the other, up to the first that
fails. -/
def lead (visitor : Visitor) :
    visitor.State → List Event → Passage visitor.State Unit
  | state, [] => .still state ()
  | state, event :: rest =>
    (visitor.call event.hook state event.node).andThen fun state _ =>
      visitor.lead state rest

/-- The callbacks for events as if no callback could fail. -/
def callbacks (visitor : Visitor) :
    visitor.State → List Event → List (Callback visitor.State)
  | _, [] => []
  | state, event :: rest =>
    let reaction := visitor.react event.hook state event.node
    ⟨event.hook, event.node, reaction⟩ :: visitor.callbacks reaction.state rest

/-- The state that events lead to as if no callback could fail. -/
def stateAfter (visitor : Visitor) (state : visitor.State)
    (events : List Event) : visitor.State :=
  events.foldl
    (fun state event => (visitor.react event.hook state event.node).state) state

variable (visitor : Visitor)

theorem lead_append (state : visitor.State) (first second : List Event) :
    visitor.lead state (first ++ second) =
      (visitor.lead state first).andThen fun state _ =>
        visitor.lead state second := by
  induction first generalizing state with
  | nil => rfl
  | cons event rest induction =>
      simp only [List.cons_append, lead, Passage.andThen_assoc, induction]

theorem lead_map_under (state : visitor.State) (place : Nat)
    (events : List Event) :
    visitor.lead state (events.map (Event.under place)) =
      visitor.lead state events := by
  induction events generalizing state with
  | nil => rfl
  | cons event rest induction =>
      simp only [List.map_cons, lead, induction]
      rfl

variable {visitor}

theorem Keeps.call_result (keeps : visitor.Keeps) (hook : Hook)
    (state : visitor.State) (node : Node) :
    (visitor.call hook state node).result = .ok none ∨
      ∃ failure, (visitor.call hook state node).result = .error failure := by
  cases replied : (visitor.react hook state node).reply with
  | keep => exact .inl (by simp [call, accept, replied])
  | replace other => exact absurd replied (keeps hook state node other)
  | other typeName =>
      refine .inr ⟨.lint (.badReply visitor.name hook typeName), ?_⟩
      simp [call, accept, replied]
  | failure failure => exact .inr ⟨failure, by simp [call, accept, replied]⟩

/-- What follows the callback of a visitor that keeps its nodes need not look
at the answer. -/
theorem Keeps.call_andThen {α : Type} (keeps : visitor.Keeps) (hook : Hook)
    (state : visitor.State) (node : Node)
    (next : visitor.State → Option Node → Passage visitor.State α) :
    (visitor.call hook state node).andThen next =
      (visitor.call hook state node).andThen fun state _ =>
        next state none := by
  rcases keeps.call_result hook state node with kept | ⟨failure, failed⟩
  · rw [Passage.andThen_of_ok kept, Passage.andThen_of_ok kept]
  · rw [Passage.andThen_of_error failed, Passage.andThen_of_error failed]

private theorem inTurn_eq_lead {siblings : List Node}
    {walk : Node → visitor.State → Passage visitor.State Node}
    (below : ∀ child ∈ siblings, ∀ state, walk child state =
      (visitor.lead state child.events).andThen fun state _ =>
        .still state child)
    (state : visitor.State) (first : Nat) :
    Passage.inTurn state (siblings.map walk) =
      visitor.lead state (Node.eventsOf first siblings) := by
  induction siblings generalizing state first with
  | nil => rfl
  | cons child rest induction =>
      have later := induction fun other member =>
        below other (List.mem_cons_of_mem _ member)
      rw [List.map_cons, Passage.inTurn, below child List.mem_cons_self,
        Passage.andThen_assoc, Node.eventsOf_cons, lead_append, lead_map_under]
      simp only [Passage.still_andThen, later _ (first + 1)]

theorem Keeps.walkWith_eq_lead (keeps : visitor.Keeps)
    (replaced : Node → visitor.State → Passage visitor.State Node) (node : Node)
    (state : visitor.State) :
    visitor.walkWith replaced node state =
      (visitor.lead state node.events).andThen fun state _ =>
        .still state node := by
  induction node using Node.induction_on_children generalizing state with
  | step node induction =>
      have below := fun state => inTurn_eq_lead induction state 0
      rw [walkWith_eq, keeps.call_andThen, Node.events_eq, lead,
        Passage.andThen_assoc]
      simp only [finish, below, lead_append, Passage.andThen_assoc, lead,
        Passage.still_andThen]
      congr 1
      funext state _
      congr 1
      funext state _
      exact keeps.call_andThen .leave state node _

/-- The walk of a visitor that keeps its nodes makes the callbacks for the
events of the tree, and gives back the root. -/
theorem Keeps.passFrom_eq_lead (keeps : visitor.Keeps) (state : visitor.State)
    (root : Node) :
    visitor.passFrom state root =
      (visitor.lead state root.events).andThen fun state _ =>
        .still state root := by
  rw [passFrom]
  cases visitor.nesting with
  | zero => exact keeps.walkWith_eq_lead _ root state
  | succ nesting => exact keeps.walkWith_eq_lead _ root state

/-- A walk without replacements is a run over the events of the tree, with the
root for its result. -/
theorem Keeps.passFrom_eq_mk (keeps : visitor.Keeps) (state : visitor.State)
    (root : Node) :
    visitor.passFrom state root =
      ⟨(visitor.lead state root.events).calls,
        (visitor.lead state root.events).state,
        (visitor.lead state root.events).result.map fun _ => root⟩ := by
  rw [keeps.passFrom_eq_lead]
  cases done : (visitor.lead state root.events).result with
  | error failure =>
      rw [Passage.andThen_of_error done]
      rfl
  | ok _ =>
      rw [Passage.andThen_of_ok done]
      simp [Passage.still, Except.map]

theorem stateAfter_append (state : visitor.State) (first second : List Event) :
    visitor.stateAfter state (first ++ second) =
      visitor.stateAfter (visitor.stateAfter state first) second :=
  List.foldl_append

theorem callbacks_append (state : visitor.State) (first second : List Event) :
    visitor.callbacks state (first ++ second) =
      visitor.callbacks state first ++
        visitor.callbacks (visitor.stateAfter state first) second := by
  induction first generalizing state with
  | nil => rfl
  | cons event rest induction =>
      rw [List.cons_append, callbacks, callbacks, induction, List.cons_append]
      rfl

theorem length_callbacks (state : visitor.State) (events : List Event) :
    (visitor.callbacks state events).length = events.length := by
  induction events generalizing state with
  | nil => rfl
  | cons event rest induction => simp [callbacks, induction]

theorem drop_callbacks (state : visitor.State) (first second : List Event) :
    (visitor.callbacks state (first ++ second)).drop first.length =
      visitor.callbacks (visitor.stateAfter state first) second := by
  rw [callbacks_append, ← length_callbacks state first, List.drop_left]

theorem calls_lead_eq (state : visitor.State) (events : List Event) :
    ∃ past, past <+: events ∧
      (visitor.lead state events).calls = visitor.callbacks state past := by
  induction events generalizing state with
  | nil => exact ⟨[], List.prefix_refl _, rfl⟩
  | cons event rest induction =>
      rw [lead]
      cases answer : (visitor.call event.hook state event.node).result with
      | error failure =>
          rw [Passage.andThen_of_error answer]
          exact ⟨[event], List.prefix_append [event] rest, rfl⟩
      | ok other =>
          rw [Passage.andThen_of_ok answer]
          obtain ⟨past, begins, callsEq⟩ :=
            induction (visitor.call event.hook state event.node).state
          refine ⟨event :: past, (List.prefix_cons_inj _).mpr begins, ?_⟩
          rw [callsEq]
          rfl

/-- The callbacks that a walk makes are those for the events up to some
moment. -/
theorem Keeps.calls_passFrom (keeps : visitor.Keeps) (state : visitor.State)
    (root : Node) :
    ∃ past, past <+: root.events ∧
      (visitor.passFrom state root).calls = visitor.callbacks state past := by
  obtain ⟨past, begins, callsEq⟩ := visitor.calls_lead_eq state root.events
  refine ⟨past, begins, ?_⟩
  rw [keeps.passFrom_eq_mk, callsEq]

theorem Keeps.calls_prefix (keeps : visitor.Keeps) (state : visitor.State)
    (root : Node) :
    (visitor.passFrom state root).calls <+:
      visitor.callbacks state root.events := by
  obtain ⟨past, ⟨unseen, eventsEq⟩, callsEq⟩ := keeps.calls_passFrom state root
  rw [callsEq, ← eventsEq, callbacks_append]
  exact List.prefix_append _ _

/-- The callback made for an event, if the walk comes so far, is the visitor's
reaction in the state to which the events before it lead. -/
theorem Keeps.callback_eq (keeps : visitor.Keeps) {state : visitor.State}
    {root : Node} {history future : List Event} {event : Event}
    {callback : Callback visitor.State}
    (split : root.events = history ++ event :: future)
    (made : (visitor.passFrom state root).calls[history.length]? =
      some callback) :
    callback =
      ⟨event.hook, event.node,
        visitor.react event.hook (visitor.stateAfter state history)
          event.node⟩ := by
  obtain ⟨rest, complete⟩ := keeps.calls_prefix state root
  rw [split, callbacks_append] at complete
  have found : (visitor.callbacks state history ++
      visitor.callbacks (visitor.stateAfter state history)
        (event :: future))[history.length]? =
      some callback := by
    rw [← complete,
      List.getElem?_append_left (List.getElem?_eq_some_iff.mp made).1]
    exact made
  rw [List.getElem?_append_right
    (Nat.le_of_eq (length_callbacks state history)), length_callbacks,
    Nat.sub_self] at found
  exact (Option.some.inj found).symm

theorem map_hook_node_callbacks (state : visitor.State) (events : List Event) :
    (visitor.callbacks state events).map
        (fun callback => (callback.hook, callback.node)) =
      events.map fun event => (event.hook, event.node) := by
  induction events generalizing state with
  | nil => rfl
  | cons event rest induction =>
      rw [callbacks, List.map_cons, List.map_cons, induction]

/-- The events that a walk has come through when it has made so many
callbacks. -/
theorem Keeps.events_of_made (keeps : visitor.Keeps) {state : visitor.State}
    {root : Node} {n : Nat} {callback : Callback visitor.State}
    (made : (visitor.passFrom state root).calls[n]? = some callback) :
    ∃ history event future,
      root.events = history ++ event :: future ∧
      history.length = n ∧
      ((visitor.passFrom state root).calls.take (n + 1)).map
          (fun callback => (callback.hook, callback.node)) =
        (history ++ [event]).map fun event => (event.hook, event.node) := by
  have complete := keeps.calls_prefix state root
  have inCalls := (List.getElem?_eq_some_iff.mp made).1
  have inEvents : n < root.events.length := by
    rw [← length_callbacks state root.events]
    exact Nat.lt_of_lt_of_le inCalls complete.length_le
  have events : root.events =
      root.events.take n ++ root.events[n] :: root.events.drop (n + 1) := by
    rw [← List.drop_eq_getElem_cons, List.take_append_drop]
  refine ⟨_, _, _, events, List.length_take_of_le (Nat.le_of_lt inEvents), ?_⟩
  obtain ⟨rest, equal⟩ := complete
  have allEvents := map_hook_node_callbacks state root.events
  rw [← equal, List.map_append] at allEvents
  rw [List.take_append_getElem, List.map_take, List.map_take, ← allEvents,
    List.take_append_of_le_length (by rw [List.length_map]; omega)]

/-- Every callback for the events is answered with the node itself. -/
def Smooth (visitor : Visitor) : visitor.State → List Event → Prop
  | _, [] => True
  | state, event :: rest =>
    (visitor.react event.hook state event.node).reply = .keep ∧
      visitor.Smooth (visitor.react event.hook state event.node).state rest

theorem smooth_append {state : visitor.State} {first second : List Event} :
    visitor.Smooth state (first ++ second) ↔
      visitor.Smooth state first ∧
      visitor.Smooth (visitor.stateAfter state first) second := by
  induction first generalizing state with
  | nil => simp [Smooth, stateAfter]
  | cons event rest induction =>
      rw [List.cons_append, Smooth, Smooth, induction, and_assoc]
      rfl

theorem smooth_map_under {state : visitor.State} {place : Nat}
    {events : List Event} :
    visitor.Smooth state (events.map (Event.under place)) ↔
      visitor.Smooth state events := by
  induction events generalizing state with
  | nil => rfl
  | cons event rest induction =>
      rw [List.map_cons, Smooth, Smooth, induction]
      rfl

theorem smooth_eventsOf {siblings : List Node}
    (below : ∀ child ∈ siblings, ∀ state, visitor.Smooth state child.events)
    (state : visitor.State) (first : Nat) :
    visitor.Smooth state (Node.eventsOf first siblings) := by
  induction siblings generalizing state first with
  | nil => trivial
  | cons child rest induction =>
      rw [Node.eventsOf_cons, smooth_append, smooth_map_under]
      refine ⟨below child List.mem_cons_self state, ?_⟩
      apply induction
      intro other member
      exact below other (List.mem_cons_of_mem _ member)

/-- The walk of a node is smooth if entering it is, the walks of its children
are, and leaving it is. -/
theorem smooth_events {node : Node} {state : visitor.State}
    (entering : (visitor.react .enter state node).reply = .keep)
    (below : ∀ child ∈ node.children, ∀ state,
      visitor.Smooth state child.events)
    (leaving : (visitor.react .leave (visitor.stateAfter state
      (node.entering :: Node.eventsOf 0 node.children)) node).reply = .keep) :
    visitor.Smooth state node.events := by
  rw [Node.events_eq]
  exact ⟨entering,
    smooth_append.mpr ⟨smooth_eventsOf below _ 0, leaving, trivial⟩⟩

theorem Smooth.lead_eq {state : visitor.State} {events : List Event}
    (smooth : visitor.Smooth state events) :
    visitor.lead state events =
      ⟨visitor.callbacks state events, visitor.stateAfter state events,
        .ok ()⟩ := by
  induction events generalizing state with
  | nil => rfl
  | cons event rest induction =>
      obtain ⟨kept, later⟩ := smooth
      have answer : (visitor.call event.hook state event.node).result =
          .ok none := by
        simp [call, accept, kept]
      rw [lead, Passage.andThen_of_ok answer, call, induction later]
      rfl

/-- A walk without a failure makes the callbacks for all events. -/
theorem Keeps.passFrom_of_smooth (keeps : visitor.Keeps) {state : visitor.State}
    {root : Node} (smooth : visitor.Smooth state root.events) :
    visitor.passFrom state root =
      ⟨visitor.callbacks state root.events,
        visitor.stateAfter state root.events, .ok root⟩ := by
  rw [keeps.passFrom_eq_lead, smooth.lead_eq, Passage.andThen_of_ok rfl]
  simp [Passage.still]

/-- Either nothing fails, or there is a first event at which the visitor
fails. -/
theorem Keeps.smooth_or_fails (keeps : visitor.Keeps) (state : visitor.State)
    (events : List Event) :
    visitor.Smooth state events ∨
      ∃ history event future failure, events = history ++ event :: future ∧
        visitor.Smooth state history ∧
        (visitor.call event.hook (visitor.stateAfter state history)
            event.node).result =
          .error failure := by
  induction events generalizing state with
  | nil => exact .inl trivial
  | cons event rest induction =>
      cases replied : (visitor.react event.hook state event.node).reply with
      | keep =>
          rcases induction
              (visitor.react event.hook state event.node).state with
            smooth | ⟨history, next, future, failure, rfl, smooth, fails⟩
          · exact .inl ⟨replied, smooth⟩
          · exact .inr ⟨event :: history, next, future, failure, rfl,
              ⟨replied, smooth⟩, fails⟩
      | replace other => exact absurd replied (keeps _ _ _ other)
      | other typeName =>
          refine .inr ⟨[], event, rest,
            .lint (.badReply visitor.name event.hook typeName), rfl,
            trivial, ?_⟩
          simp [call, accept, stateAfter, replied]
      | failure failure =>
          refine .inr ⟨[], event, rest, failure, rfl, trivial, ?_⟩
          simp [call, accept, stateAfter, replied]

/-- A walk that fails at some event has made the callbacks for the events up to
that one. -/
theorem Keeps.passFrom_of_failure (keeps : visitor.Keeps)
    {state : visitor.State} {root : Node} {history future : List Event}
    {event : Event} {failure : Failure}
    (split : root.events = history ++ event :: future)
    (smooth : visitor.Smooth state history)
    (fails : (visitor.call event.hook (visitor.stateAfter state history)
        event.node).result =
      .error failure) :
    visitor.passFrom state root =
      ⟨visitor.callbacks state (history ++ [event]),
        visitor.stateAfter state (history ++ [event]), .error failure⟩ := by
  have atEvent :
      visitor.lead (visitor.stateAfter state history) (event :: future) =
      ⟨visitor.callbacks (visitor.stateAfter state history) [event],
        visitor.stateAfter (visitor.stateAfter state history) [event],
        .error failure⟩ := by
    rw [lead, Passage.andThen_of_error fails]
    rfl
  have led : visitor.lead state root.events =
      ⟨visitor.callbacks state (history ++ [event]),
        visitor.stateAfter state (history ++ [event]), .error failure⟩ := by
    rw [split, lead_append, smooth.lead_eq, Passage.andThen_of_ok rfl, atEvent,
      callbacks_append, stateAfter_append]
  rw [keeps.passFrom_eq_lead, led, Passage.andThen_of_error rfl]

/-- A walk that comes to its end fails at no event. -/
theorem Keeps.smooth_of_ok (keeps : visitor.Keeps) {state : visitor.State}
    {root given : Node}
    (done : (visitor.passFrom state root).result = .ok given) :
    visitor.Smooth state root.events := by
  rcases keeps.smooth_or_fails state root.events with
    smooth | ⟨history, event, future, failure, split, smooth, fails⟩
  · exact smooth
  · rw [keeps.passFrom_of_failure split smooth fails] at done
    cases done

/-- A walk in which nothing fails up to some moment makes all callbacks from
there on, or those up to the first one that fails. -/
theorem Keeps.calls_of_smooth (keeps : visitor.Keeps) {state : visitor.State}
    {root : Node} {first second : List Event}
    (split : root.events = first ++ second)
    (smooth : visitor.Smooth state first) :
    (visitor.passFrom state root).calls =
      visitor.callbacks state (first ++ second) ∨
      ∃ history event future failure, second = history ++ event :: future ∧
        (visitor.call event.hook (visitor.stateAfter state (first ++ history))
            event.node).result =
          .error failure ∧
        (visitor.passFrom state root).calls =
          visitor.callbacks state (first ++ (history ++ [event])) := by
  rcases keeps.smooth_or_fails (visitor.stateAfter state first) second with
    smoothLater | ⟨history, event, future, failure, rfl, smoothLater, fails⟩
  · left
    have complete : visitor.Smooth state root.events := by
      rw [split]
      exact smooth_append.mpr ⟨smooth, smoothLater⟩
    rw [keeps.passFrom_of_smooth complete, split]
  · right
    rw [← stateAfter_append] at fails
    refine ⟨history, event, future, failure, rfl, fails, ?_⟩
    have splitHere : root.events = (first ++ history) ++ event :: future := by
      rw [split, List.append_assoc]
    rw [keeps.passFrom_of_failure splitHere
      (smooth_append.mpr ⟨smooth, smoothLater⟩) fails, List.append_assoc]

/-- After a moment up to which nothing fails, a walk goes on from the state that
it has reached. -/
theorem Keeps.drop_calls_of_smooth (keeps : visitor.Keeps)
    {state : visitor.State} {root : Node} {first second : List Event}
    (split : root.events = first ++ second)
    (smooth : visitor.Smooth state first) :
    (visitor.passFrom state root).calls.drop first.length =
      (visitor.lead (visitor.stateAfter state first) second).calls := by
  rw [keeps.passFrom_eq_mk, split, lead_append, smooth.lead_eq,
    Passage.andThen_of_ok rfl, ← visitor.length_callbacks state first]
  exact List.drop_left

/-- A walk that fails at one of the first so many events makes no more callbacks
than these. -/
theorem Keeps.length_calls_of_not_smooth (keeps : visitor.Keeps)
    {state : visitor.State} {root : Node} {first second : List Event}
    (split : root.events = first ++ second)
    (rough : ¬visitor.Smooth state first) :
    (visitor.passFrom state root).calls.length ≤ first.length := by
  rcases keeps.smooth_or_fails state first with
    smooth | ⟨history, event, future, failure, rfl, smooth, fails⟩
  · exact absurd smooth rough
  · have splitHere : root.events = history ++ event :: (future ++ second) := by
      rw [split, List.append_assoc]
      rfl
    rw [keeps.passFrom_of_failure splitHere smooth fails, length_callbacks]
    simp

end Visitor

/-- A part of the journal in which the entries of two pieces of work follow one
another holds the entries of several pieces in order. -/
theorem Journal.channel_concat {α : Type} {channel : Journal → List α}
    (empty : channel ∅ = [])
    (append : ∀ first second,
      channel (first ++ second) = channel first ++ channel second)
    (journals : List Journal) :
    channel (Journal.concat journals) = journals.flatMap channel := by
  induction journals with
  | nil => exact empty
  | cons journal rest induction =>
      rw [List.flatMap_cons, ← induction]
      exact append journal (Journal.concat rest)

theorem Passage.channel_journal {State α β : Type} {channel : Journal → List β}
    (empty : channel ∅ = [])
    (append : ∀ first second,
      channel (first ++ second) = channel first ++ channel second)
    (passage : Passage State α) :
    channel passage.journal =
      passage.calls.flatMap fun callback =>
        channel callback.reaction.journal := by
  rw [journal, Journal.channel_concat empty append, List.flatMap_map]

theorem Passage.findings_journal {State α : Type} (passage : Passage State α) :
    passage.journal.findings =
      passage.calls.flatMap fun callback =>
        callback.reaction.journal.findings :=
  passage.channel_journal rfl Journal.findings_append

/-- A visitor that walks alone. -/
theorem traverse_single (visitor : Visitor) (root : Node) :
    traverse [visitor] root =
      ⟨visitor.outline (visitor.pass root),
        visitor.announcement root ++ (visitor.pass root).journal,
        (visitor.pass root).result⟩ := by
  have alone : (schedule [visitor]).map Prod.fst = [visitor] := by
    simp [schedule]
  rw [traverse, alone, traverseInTurn]
  cases (visitor.pass root).result with
  | error failure => rfl
  | ok given => simp [traverseInTurn]

theorem calls_traverse_single (visitor : Visitor) (root : Node) :
    (traverse [visitor] root).calls = visitor.outline (visitor.pass root) := by
  rw [traverse_single]

theorem journal_traverse_single (visitor : Visitor) (root : Node) :
    (traverse [visitor] root).journal =
      visitor.announcement root ++ (visitor.pass root).journal := by
  rw [traverse_single]

theorem findings_traverse_single (visitor : Visitor) (root : Node) :
    (traverse [visitor] root).journal.findings =
      (visitor.pass root).journal.findings := by
  rw [journal_traverse_single]
  rfl

theorem result_traverse_single (visitor : Visitor) (root : Node) :
    (traverse [visitor] root).result = (visitor.pass root).result := by
  rw [traverse_single]

end ScopeLint
