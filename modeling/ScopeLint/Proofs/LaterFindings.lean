import ScopeLint.Proofs.CurrentMacro
import ScopeLint.Proofs.Lockstep

/-!
# What a walk finds after some moment

A walk may end early, and then it makes no more callbacks.  Without findings
that are refused this happens at a macro whose parameters have no names, or on
leaving a block whose frame a template has forgotten.  In the second case the
template has also taken the walk out of all macros.  So where no further macro
is entered, nothing is lost: the walk finds what it would find if it could not
fail.
-/

namespace ScopeLint

/-- The findings of the callbacks that come after the first so many. -/
def Passage.findingsAfter {State α : Type} (passage : Passage State α)
    (count : Nat) : List Diagnostic :=
  (passage.calls.drop count).flatMap fun callback =>
    callback.reaction.journal.findings

theorem Passage.findingsAfter_zero {State α : Type}
    (passage : Passage State α) :
    passage.findingsAfter 0 = passage.journal.findings :=
  passage.findings_journal.symm

namespace Node

/-- There is no macro in the tree. -/
def MacroFree (node : Node) : Prop :=
  ∀ inner ∈ node.nodes, inner.kind ≠ .definition

instance (node : Node) : Decidable node.MacroFree :=
  inferInstanceAs (Decidable (∀ inner ∈ node.nodes, inner.kind ≠ .definition))

theorem macroFree_iff {node : Node} :
    node.MacroFree ↔
      node.kind ≠ .definition ∧ ∀ child ∈ node.children, child.MacroFree :=
  forall_mem_nodes_iff

end Node

/-- None of the events enters a macro. -/
def Event.EnterNoMacro (events : List Event) : Prop :=
  ∀ event ∈ events, event.hook = .enter → event.node.kind ≠ .definition

theorem Node.MacroFree.enterNoMacro {siblings : List Node}
    (free : ∀ child ∈ siblings, child.MacroFree) (first : Nat) :
    Event.EnterNoMacro (Node.eventsOf first siblings) := by
  intro event member _
  obtain ⟨child, childMember, inner, innerMember, sameNode, _⟩ :=
    Node.mem_eventsOf member
  rw [sameNode]
  exact free child childMember inner.node
    (Node.mem_nodes_of_mem_events innerMember)

theorem Node.MacroFree.enterNoMacro_below {siblings : List Node}
    (free : ∀ child ∈ siblings, child.MacroFree) (first : Nat) (node : Node) :
    Event.EnterNoMacro (Node.eventsOf first siblings ++ [node.leaving]) := by
  intro event member enters
  rcases List.mem_append.mp member with below | leaving
  · exact enterNoMacro free first event below enters
  · rw [List.mem_singleton.mp leaving] at enters
    cases enters

namespace Scope

variable {config : Config} {home : String}

/-! ## Outside all macros -/

theorem found_of_outside {scope : Scope} (outside : scope.inMacro = none)
    (event : Event) :
    scope.found config home event = none := by
  obtain ⟨occurrence, hook⟩ := event
  cases hook with
  | leave => rfl
  | enter =>
      cases found : scope.found config home ⟨occurrence, .enter⟩ with
      | none => rfl
      | some d =>
          obtain ⟨_, _, _, _, inside⟩ := found_eq_some found
          rw [outside] at inside
          cases inside

theorem step_outside {scope : Scope} (outside : scope.inMacro = none)
    {event : Event}
    (noMacro : event.hook = .enter → event.node.kind ≠ .definition) :
    (scope.step config home event).inMacro = none := by
  obtain ⟨⟨path, node⟩, hook⟩ := event
  cases hook with
  | enter =>
      change (scope.step config home node.entering).inMacro = none
      rcases node.kind.start_cases with isOther | isDefinition | isTemplate
      · rw [step_entering_other isOther]
        exact outside
      · exact absurd isDefinition (noMacro rfl)
      · obtain ⟨template, entered⟩ :=
          step_entering_template config home isTemplate scope
        rw [entered]
        rfl
  | leave =>
      change (scope.step config home node.leaving).inMacro = none
      rw [step_leaving_inMacro]
      split
      · rfl
      · exact outside

theorem along_outside {scope : Scope} (outside : scope.inMacro = none)
    {events : List Event} (noMacro : Event.EnterNoMacro events) :
    (scope.along config home events).inMacro = none := by
  induction events generalizing scope with
  | nil => exact outside
  | cons event rest induction =>
      rw [along_cons]
      apply induction (step_outside outside (noMacro event List.mem_cons_self))
      intro other member
      exact noMacro other (List.mem_cons_of_mem _ member)

/-- A walk that is outside all macros finds nothing until it enters one. -/
theorem findings_outside {scope : Scope} (outside : scope.inMacro = none)
    {events : List Event} (noMacro : Event.EnterNoMacro events) :
    scope.findings config home events = [] := by
  induction events generalizing scope with
  | nil => rfl
  | cons event rest induction =>
      have next : (scope.step config home event).inMacro = none :=
        step_outside outside (noMacro event List.mem_cons_self)
      have later := induction next fun other member =>
        noMacro other (List.mem_cons_of_mem _ member)
      rw [findings, found_of_outside outside, later]
      rfl

/-- Inside a macro, the frame of a block is open when the block is left. -/
theorem frames_of_leaving_block {root : Node} {history : List Event}
    {current : Event} (stage : Stage root history current)
    (leaves : current.hook = .leave)
    (isBlock : current.node.kind.isBlock = true) {scope : Scope}
    (inside : (scope.along config home history).inMacro ≠ none) :
    (scope.along config home history).frames ≠ [] := by
  induction stage generalizing scope with
  | entering node => cases leaves
  | inside _ _ induction =>
      rw [along_cons, along_append, along_map_under] at inside ⊢
      exact induction leaves isBlock inside
  | leaving node =>
      rw [along_cons] at inside ⊢
      obtain ⟨_, quiet⟩ := quiet_of_along_inMacro inside
      obtain ⟨guarded, passed⟩ := along_siblings_quiet config home quiet
        (scope.step config home node.entering) 0
      have isBlockHere : node.kind.isBlock = true := isBlock
      have entered : scope.step config home node.entering = _ :=
        step_entering_other (Kind.isStart_of_isBlock isBlockHere) scope
      rw [passed, entered, if_pos isBlockHere]
      exact List.cons_ne_nil _ _

end Scope

namespace Checker

/-- What makes an event impossible if findings are not refused. -/
theorem outcome_eq_error {config : Config} {scope : Scope} {event : Event}
    {failure : Failure} (fails : outcome config scope event = .error failure) :
    event.hook = .enter ∧ event.node.kind = .definition ∨
      event.hook = .leave ∧ event.node.kind.isBlock = true ∧
      scope.frames = [] := by
  have fits := event.node.kind_of_role config
  rw [outcome] at fails
  cases hook : event.hook with
  | enter =>
      cases role : event.node.role config with
      | definition title inputs =>
          rw [role] at fits
          exact .inl ⟨rfl, fits⟩
      | _ => simp [hook, role, Role.fault?] at fails
  | leave =>
      cases role : event.node.role config with
      | block names =>
          rw [role] at fits
          cases frames : scope.frames with
          | nil => exact .inr ⟨rfl, fits, rfl⟩
          | cons frame rest =>
              simp [hook, role, Scope.leave_block names frames] at fails
      | _ => simp [hook, role, Scope.leave] at fails

section Later

variable {checker : Checker} (collects : checker.Collects)
  (accepts : ∀ d, (checker.report d).refusal = none) {scope : Scope}
  {root : Node} {first second : List Event}

include collects

private theorem findingsAfter_of_calls {events : List Event}
    {passage : Passage Scope Node}
    (calls : passage.calls =
      checker.visitor.callbacks scope (first ++ events)) :
    passage.findingsAfter first.length =
      (scope.along checker.config checker.home first).findings checker.config
        checker.home events := by
  have later : passage.calls.drop first.length =
      checker.visitor.callbacks
        (checker.visitor.stateAfter scope first) events :=
    (congrArg (List.drop first.length) calls).trans
      (checker.visitor.drop_callbacks scope first events)
  calc
    passage.findingsAfter first.length =
        (checker.visitor.callbacks (checker.visitor.stateAfter scope first)
          events).flatMap fun callback =>
            callback.reaction.journal.findings := by
      rw [Passage.findingsAfter, later]
      rfl
    _ = Scope.findings checker.config checker.home
          (checker.visitor.stateAfter scope first) events :=
      findings_callbacks collects _ events
    _ = (scope.along checker.config checker.home first).findings
          checker.config checker.home events := by
      rw [checker.stateAfter_eq]

/-- If nothing fails up to some moment, the findings are those that the events
so far lead to and those after that moment. -/
theorem findings_of_smooth (split : root.events = first ++ second)
    (smooth : checker.visitor.Smooth scope first) :
    (checker.visitor.passFrom scope root).journal.findings =
      scope.findings checker.config checker.home first ++
        (checker.visitor.passFrom scope root).findingsAfter first.length := by
  obtain ⟨past, calls⟩ : ∃ past, (checker.visitor.passFrom scope root).calls =
      checker.visitor.callbacks scope (first ++ past) := by
    rcases checker.visitor_keeps.calls_of_smooth split smooth with
      complete | ⟨history, event, _, _, _, _, calls⟩
    · exact ⟨second, complete⟩
    · exact ⟨history ++ [event], calls⟩
  have all : (checker.visitor.passFrom scope root).findingsAfter 0 =
      scope.findings checker.config checker.home (first ++ past) :=
    findingsAfter_of_calls collects
      (show _ = checker.visitor.callbacks scope ([] ++ _) from calls)
  have later := findingsAfter_of_calls collects calls
  rw [Passage.findingsAfter_zero, Scope.findings_append] at all
  exact all.trans (congrArg
    (scope.findings checker.config checker.home first ++ ·) later.symm)

include accepts

/-- If nothing fails up to some moment, and no macro is entered later, then the
walk finds later what the scope at that moment leads to. -/
theorem findingsAfter_of_smooth (split : root.events = first ++ second)
    (smooth : checker.visitor.Smooth scope first)
    (noMacro : Event.EnterNoMacro second) :
    (checker.visitor.passFrom scope root).findingsAfter first.length =
      (scope.along checker.config checker.home first).findings checker.config
        checker.home second := by
  rcases checker.visitor_keeps.calls_of_smooth split smooth with
    complete | ⟨history, event, future, failure, rfl, fails, calls⟩
  · exact findingsAfter_of_calls collects complete
  · have blocked := (result_call accepts _ event).symm.trans fails
    rw [checker.stateAfter_eq, Scope.along_append] at blocked
    have splitHere : root.events = (first ++ history) ++ event :: future := by
      rw [split, List.append_assoc]
    let reached := (scope.along checker.config checker.home first).along
      checker.config checker.home history
    -- The event that fails leaves a block, and that is possible only outside
    -- all macros.
    have outside : reached.inMacro = none := by
      rcases outcome_eq_error blocked with ⟨enters, isDefinition⟩
        | ⟨leaves, isBlock, unopened⟩
      · exact absurd isDefinition (noMacro event (by simp) enters)
      · apply Classical.byContradiction
        intro inside
        rw [← Scope.along_append] at unopened
        apply Scope.frames_of_leaving_block (Stage.of_split splitHere) leaves
          isBlock _ unopened
        rw [Scope.along_append]
        exact inside
    have noMacroHere : Event.EnterNoMacro (event :: future) := by
      intro other member
      exact noMacro other (List.mem_append_right _ member)
    have nothing :
        reached.findings checker.config checker.home (event :: future) = [] :=
      Scope.findings_outside outside noMacroHere
    have nothingHere :
        reached.findings checker.config checker.home [event] = [] := by
      apply Scope.findings_outside outside
      intro other member
      exact noMacroHere other
        (List.mem_singleton.mp member ▸ List.mem_cons_self)
    apply (findingsAfter_of_calls collects calls).trans
    rw [Scope.findings_append, Scope.findings_append, nothing, nothingHere]

omit collects accepts in
/-- If the walk fails before some moment, it finds nothing after it. -/
theorem findingsAfter_of_not_smooth (split : root.events = first ++ second)
    (rough : ¬checker.visitor.Smooth scope first) :
    (checker.visitor.passFrom scope root).findingsAfter first.length = [] := by
  have short := checker.visitor_keeps.length_calls_of_not_smooth split rough
  rw [Passage.findingsAfter, List.drop_eq_nil_of_le short]
  rfl

/-- In a tree without macros a walk finds what its scope leads to, also if it
fails. -/
theorem findings_passFrom_of_macroFree (free : root.MacroFree) (scope : Scope) :
    (checker.visitor.passFrom scope root).journal.findings =
      scope.findings checker.config checker.home root.events := by
  have noMacro : Event.EnterNoMacro root.events := by
    intro event member _
    exact free event.node (Node.mem_nodes_of_mem_events member)
  have unseen : root.events = [] ++ root.events := rfl
  have after : (checker.visitor.passFrom scope root).findingsAfter 0 = _ :=
    findingsAfter_of_smooth collects accepts unseen trivial noMacro
  rwa [Passage.findingsAfter_zero] at after

/-- A macro with no other macro in it.  If it can be entered, the walk finds
what the scope of the macro leads to, and otherwise it finds nothing. -/
theorem findings_passFrom_of_definition (isDefinition : root.kind = .definition)
    (free : ∀ child ∈ root.children, child.MacroFree) (scope : Scope) :
    (checker.visitor.passFrom scope root).journal.findings =
      if (root.role checker.config).fault? = none then
        (scope.step checker.config checker.home root.entering).findings
          checker.config checker.home (Node.eventsOf 0 root.children)
      else [] := by
  have noReference : ∀ name, root.role checker.config ≠ .reference name := by
    intro name reads
    have isName := root.kind_of_role checker.config
    rw [reads] at isName
    rw [isDefinition] at isName
    cases isName
  have notHere :
      scope.findings checker.config checker.home [root.entering] = [] := by
    have found : scope.found checker.config checker.home root.entering = none :=
      Scope.finding?_of_not_reference noReference _
    rw [Scope.findings, found]
    rfl
  have split : root.events =
      [root.entering] ++ (Node.eventsOf 0 root.children ++ [root.leaving]) :=
    root.events_eq
  cases fault : (root.role checker.config).fault? with
  | none =>
      have smooth : checker.visitor.Smooth scope [root.entering] :=
        ⟨react_enter_keep accepts fault scope, trivial⟩
      have noMacro := Node.MacroFree.enterNoMacro_below free 0 root
      have later :=
        findingsAfter_of_smooth collects accepts split smooth noMacro
      have all := findings_of_smooth collects split smooth
      rw [notHere, later, Scope.findings_append] at all
      rw [all, if_pos rfl]
      exact List.append_nil _
  | some failure =>
      have fails :
          (checker.visitor.call .enter scope root).result = .error failure := by
        apply (result_call accepts scope root.entering).trans
        simp [outcome, Node.entering, fault]
      have atOnce : root.events = [] ++ root.entering :: _ := root.events_eq
      have calls :=
        checker.visitor_keeps.passFrom_of_failure atOnce trivial fails
      rw [if_neg (by simp), Passage.findings_journal, calls]
      exact (findings_callbacks collects scope [root.entering]).trans notHere

end Later

/-- Two walks of which the one finds later what the other finds, with some
findings left out. -/
theorem findingsAfter_filter {checker : Checker} (collects : checker.Collects)
    (accepts : ∀ d, (checker.report d).refusal = none) {scope : Scope}
    {root otherRoot : Node} {first second otherFirst otherSecond : List Event}
    {keep : Diagnostic → Bool} (split : root.events = first ++ second)
    (otherSplit : otherRoot.events = otherFirst ++ otherSecond)
    (noMacro : Event.EnterNoMacro second)
    (otherNoMacro : Event.EnterNoMacro otherSecond)
    (smooth : checker.visitor.Smooth scope otherFirst ↔
      checker.visitor.Smooth scope first)
    (later : (scope.along checker.config checker.home otherFirst).findings
        checker.config checker.home otherSecond =
      ((scope.along checker.config checker.home first).findings
        checker.config checker.home second).filter keep) :
    (checker.visitor.passFrom scope otherRoot).findingsAfter otherFirst.length =
      ((checker.visitor.passFrom scope root).findingsAfter first.length).filter
        keep := by
  by_cases fine : checker.visitor.Smooth scope first
  · have here := findingsAfter_of_smooth collects accepts split fine noMacro
    have there := findingsAfter_of_smooth collects accepts otherSplit
      (smooth.mpr fine) otherNoMacro
    exact there.trans (later.trans (congrArg (List.filter keep) here.symm))
  · have here := findingsAfter_of_not_smooth split fine
    have there := findingsAfter_of_not_smooth otherSplit (mt smooth.mp fine)
    exact there.trans (congrArg (List.filter keep) here.symm)

end Checker

end ScopeLint
