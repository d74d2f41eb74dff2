import Mathlib.Data.List.Forall2
import ScopeLint.Proofs.ScopeCourse

/-!
# Walks side by side

Two visitors whose states correspond, and that answer corresponding events
alike, make corresponding callbacks and come to the same end.  For checkers it
is enough that they mean the same by every node and refuse no finding: then
their walks differ in what they report, and in nothing else.
-/

namespace ScopeLint

/-- What related members have in common, the lists have in common. -/
theorem map_eq_map_of_forall₂ {α β γ : Type} {Related : α → β → Prop}
    {items : List α} {others : List β}
    (related : List.Forall₂ Related items others) {view : α → γ}
    {otherView : β → γ} (agree : ∀ a b, Related a b → view a = otherView b) :
    items.map view = others.map otherView := by
  have mapped :
      List.Forall₂ (· = ·) (items.map view) (others.map otherView) := by
    rw [List.forall₂_map_left_iff, List.forall₂_map_right_iff]
    exact related.imp agree
  rwa [List.forall₂_eq_eq_eq] at mapped

/-- Two passages with corresponding callbacks that come to the same end. -/
structure Passage.Aligned {State Other α : Type}
    (Matches : Callback State → Callback Other → Prop)
    (Related : State → Other → Prop) (first : Passage State α)
    (second : Passage Other α) : Prop where
  calls : List.Forall₂ Matches first.calls second.calls
  state : Related first.state second.state
  result : first.result = second.result

namespace Passage.Aligned

variable {State Other α β : Type}
  {Matches : Callback State → Callback Other → Prop}
  {Related : State → Other → Prop} {first : Passage State α}
  {second : Passage Other α}

theorem andThen (aligned : Aligned Matches Related first second)
    {next : State → α → Passage State β}
    {otherNext : Other → α → Passage Other β}
    (later : ∀ state other a, Related state other →
      Aligned Matches Related (next state a) (otherNext other a)) :
    Aligned Matches Related (first.andThen next)
      (second.andThen otherNext) := by
  cases done : first.result with
  | error failure =>
      have otherDone := aligned.result.symm.trans done
      rw [andThen_of_error done, andThen_of_error otherDone]
      exact ⟨aligned.calls, aligned.state, rfl⟩
  | ok a =>
      have otherDone := aligned.result.symm.trans done
      obtain ⟨calls, state, result⟩ :=
        later first.state second.state a aligned.state
      rw [andThen_of_ok done, andThen_of_ok otherDone]
      exact ⟨List.rel_append aligned.calls calls, state, result⟩

/-- What corresponding callbacks have in common, the lists of callbacks have in
common. -/
theorem map_calls (aligned : Aligned Matches Related first second)
    {view : Callback State → β} {otherView : Callback Other → β}
    (agree : ∀ callback other, Matches callback other →
      view callback = otherView other) :
    first.calls.map view = second.calls.map otherView :=
  map_eq_map_of_forall₂ aligned.calls agree

theorem flatMap_calls (aligned : Aligned Matches Related first second)
    {view : Callback State → List β} {otherView : Callback Other → List β}
    (agree : ∀ callback other, Matches callback other →
      view callback = otherView other) :
    first.calls.flatMap view = second.calls.flatMap otherView := by
  rw [List.flatMap_def, List.flatMap_def, aligned.map_calls agree]

end Passage.Aligned

namespace Visitor

variable {first second : Visitor} {Related : first.State → second.State → Prop}
  {Matches : Callback first.State → Callback second.State → Prop}

theorem lead_aligned {Corresponds : Event → Event → Prop}
    (alike : ∀ state other event otherEvent, Related state other →
      Corresponds event otherEvent →
      Passage.Aligned Matches Related (first.call event.hook state event.node)
        (second.call otherEvent.hook other otherEvent.node))
    {events otherEvents : List Event}
    (corresponding : List.Forall₂ Corresponds events otherEvents)
    {state : first.State} {other : second.State}
    (related : Related state other) :
    Passage.Aligned Matches Related (first.lead state events)
      (second.lead other otherEvents) := by
  induction corresponding generalizing state other with
  | nil => exact ⟨.nil, related, rfl⟩
  | cons corresponds _ induction =>
      apply (alike _ _ _ _ related corresponds).andThen
      intro next otherNext _ stillRelated
      exact induction stillRelated

/-- Visitors that answer the same events alike walk a tree alike. -/
theorem Keeps.passFrom_aligned (keeps : first.Keeps) (otherKeeps : second.Keeps)
    (alike : ∀ state other (event : Event), Related state other →
      Passage.Aligned Matches Related (first.call event.hook state event.node)
        (second.call event.hook other event.node))
    {state : first.State} {other : second.State} (related : Related state other)
    (root : Node) :
    Passage.Aligned Matches Related (first.passFrom state root)
      (second.passFrom other root) := by
  rw [keeps.passFrom_eq_lead, otherKeeps.passFrom_eq_lead]
  have sameEvents : List.Forall₂ Eq root.events root.events :=
    List.forall₂_refl root.events
  have led : Passage.Aligned Matches Related (first.lead state root.events)
      (second.lead other root.events) := by
    apply lead_aligned _ sameEvents related
    rintro state other event _ related rfl
    exact alike state other event related
  apply led.andThen
  intro state other _ stillRelated
  exact ⟨.nil, stillRelated, rfl⟩

end Visitor

namespace Checker

/-- Whether an event can happen in a scope, findings apart. -/
def outcome (config : Config) (scope : Scope) (event : Event) :
    Except Failure (Option Node) :=
  match event.hook with
  | .enter =>
    match (event.node.role config).fault? with
    | some failure => .error failure
    | none => .ok none
  | .leave =>
    match scope.leave (event.node.role config) with
    | .ok _ => .ok none
    | .error failure => .error failure

theorem result_call {checker : Checker}
    (accepts : ∀ d, (checker.report d).refusal = none) (scope : Scope)
    (event : Event) :
    (checker.visitor.call event.hook scope event.node).result =
      outcome checker.config scope event := by
  obtain ⟨⟨path, node⟩, hook⟩ := event
  cases hook with
  | enter =>
      cases fault : (node.role checker.config).fault? with
      | some failure =>
          simp [Visitor.call, Visitor.accept, visitor, enter, outcome, fault]
      | none =>
          have kept := react_enter_keep accepts fault scope
          simp [Visitor.call, Visitor.accept, outcome, fault, kept]
  | leave =>
      cases left : scope.leave (node.role checker.config) <;>
        simp [Visitor.call, Visitor.accept, visitor, leave, outcome, left]

/-- Two checkers to which every node means the same, and whose findings are
never refused. -/
structure Twins (first second : Checker) : Prop where
  home : first.home = second.home
  role : ∀ node : Node, node.role first.config = node.role second.config
  accepts : ∀ d, (first.report d).refusal = none
  otherAccepts : ∀ d, (second.report d).refusal = none

/-- The same callback, but for what it leaves in the journal. -/
structure SameButFor (Journals : Journal → Journal → Prop)
    (callback other : Callback Scope) : Prop where
  hook : callback.hook = other.hook
  node : callback.node = other.node
  state : callback.reaction.state = other.reaction.state
  journal : Journals callback.reaction.journal other.reaction.journal

namespace Twins

variable {first second : Checker}

theorem step_eq (twins : Twins first second) (scope : Scope) (event : Event) :
    scope.step first.config first.home event =
      scope.step second.config second.home event := by
  rw [Scope.step, Scope.step, twins.home, twins.role]

theorem outcome_eq (twins : Twins first second) (scope : Scope)
    (event : Event) :
    outcome first.config scope event = outcome second.config scope event := by
  rw [outcome, outcome, twins.role]

theorem call_aligned (twins : Twins first second)
    {Journals : Journal → Journal → Prop} (scope : Scope) (event : Event)
    (journals : Journals
        (first.visitor.react event.hook scope event.node).journal
      (second.visitor.react event.hook scope event.node).journal) :
    Passage.Aligned (SameButFor Journals) Eq
      (first.visitor.call event.hook scope event.node)
      (second.visitor.call event.hook scope event.node) := by
  have state : (first.visitor.react event.hook scope event.node).state =
      (second.visitor.react event.hook scope event.node).state := by
    rw [first.state_react, second.state_react]
    exact twins.step_eq scope event
  have result : (first.visitor.call event.hook scope event.node).result =
      (second.visitor.call event.hook scope event.node).result := by
    rw [result_call twins.accepts, result_call twins.otherAccepts]
    exact twins.outcome_eq scope event
  exact ⟨.cons ⟨rfl, rfl, state, journals⟩ .nil, state, result⟩

/-- Twins go through the same scopes, and their walks come to the same end. -/
theorem passFrom_aligned (twins : Twins first second)
    {Journals : Journal → Journal → Prop}
    (journals : ∀ (scope : Scope) (event : Event),
      Journals (first.visitor.react event.hook scope event.node).journal
        (second.visitor.react event.hook scope event.node).journal)
    (scope : Scope) (root : Node) :
    Passage.Aligned (SameButFor Journals) Eq (first.visitor.passFrom scope root)
      (second.visitor.passFrom scope root) := by
  apply first.visitor_keeps.passFrom_aligned second.visitor_keeps
  · rintro scope _ event rfl
    exact twins.call_aligned scope event (journals scope event)
  · rfl

end Twins

end Checker

end ScopeLint
