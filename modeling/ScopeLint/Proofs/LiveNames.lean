import ScopeLint.Proofs.ScopeCourse

/-!
# The declared names at every moment of a walk

Inside a macro, the checker's list of names is made up of batches, one for
every occurrence that still declares its names: the macro, every lasting
binding since it was entered, and every loop or lambda since then that has not
been left.  The batches stand in the order in which their occurrences were
entered, and nothing else is in the list.

So although a block finds its names by an index that was noted when it was
entered, it always takes away its own batch and no other name.
-/

namespace ScopeLint

/-- Whether an occurrence that has been entered still declares its names after
the events. -/
def Event.Lives (events : List Event) (occurrence : Occurrence) : Prop :=
  occurrence.node.kind = .definition ∨ occurrence.node.kind.isBinding = true ∨
    occurrence.node.kind.isBlock = true ∧ ¬Event.Left events occurrence.path

instance (events : List Event) (occurrence : Occurrence) :
    Decidable (Event.Lives events occurrence) :=
  inferInstanceAs (Decidable (_ ∨ _ ∨ _ ∧ ¬_))

/-- The names of those among the given occurrences that still declare them. -/
def liveNames (config : Config) (events : List Event)
    (occurrences : List Occurrence) : List (Option String) :=
  occurrences.flatMap fun occurrence =>
    if Event.Lives events occurrence then occurrence.node.declared config
    else []

section LiveNames

variable {config : Config} {home : String} {events : List Event}

theorem liveNames_append (first second : List Occurrence) :
    liveNames config events (first ++ second) =
      liveNames config events first ++ liveNames config events second := by
  simp [liveNames]

theorem liveNames_cons (occurrence : Occurrence) (rest : List Occurrence) :
    liveNames config events (occurrence :: rest) =
      (if Event.Lives events occurrence then occurrence.node.declared config
        else []) ++ liveNames config events rest := rfl

/-- Seen from the parent, the same occurrences below a child live. -/
theorem liveNames_map_under {place : Nat} {inner : List Event}
    (sameLeft : ∀ path, Event.Left events (place :: path) ↔
      Event.Left inner path)
    (occurrences : List Occurrence) :
    liveNames config events (occurrences.map (Occurrence.under place)) =
      liveNames config inner occurrences := by
  induction occurrences with
  | nil => rfl
  | cons occurrence rest induction =>
      have same : Event.Lives events (occurrence.under place) ↔
          Event.Lives inner occurrence := by
        rw [Event.Lives, Event.Lives, Occurrence.under, sameLeft]
      rw [List.map_cons, liveNames_cons, liveNames_cons, induction]
      simp only [same]
      rfl

/-- A node that is no start declares its names for as long as it lives. -/
theorem declared_of_lives {occurrence : Occurrence}
    (isOther : occurrence.node.kind.isStart = false)
    (unclosed : ¬Event.Left events occurrence.path) :
    (if Event.Lives events occurrence then occurrence.node.declared config
      else []) =
      occurrence.node.declared config := by
  by_cases lives : Event.Lives events occurrence
  · rw [if_pos lives]
  · have noBinding : occurrence.node.kind.isBinding = false := by
      simpa using fun isBinding => lives (.inr (.inl isBinding))
    have noBlock : occurrence.node.kind.isBlock = false := by
      simpa using fun isBlock => lives (.inr (.inr ⟨isBlock, unclosed⟩))
    rw [if_neg lives, Node.declared_of_plain isOther noBlock noBinding]

/-- Of occurrences that have been left only the lasting bindings live. -/
theorem liveNames_of_left {occurrences : List Occurrence}
    (quiet : ∀ occurrence ∈ occurrences, occurrence.node.kind.isStart = false)
    (left : ∀ occurrence ∈ occurrences, Event.Left events occurrence.path) :
    liveNames config events occurrences =
      (occurrences.map Occurrence.node).flatMap fun node =>
        if node.kind.isBinding then node.declared config else [] := by
  have onlyBindings : ∀ occurrence ∈ occurrences,
      (if Event.Lives events occurrence then occurrence.node.declared config
        else []) =
        if occurrence.node.kind.isBinding then occurrence.node.declared config
        else [] := by
    intro occurrence member
    have noDefinition := (Kind.isStart_eq_false.mp (quiet occurrence member)).1
    simp [Event.Lives, noDefinition, left occurrence member]
  rw [liveNames, List.flatMap_def, List.map_congr_left onlyBindings,
    ← List.flatMap_def, List.flatMap_map]

theorem liveNames_siblings {siblings : List Node} {first : Nat}
    (quiet : ∀ child ∈ siblings, child.Quiet)
    (passed : ∀ path, Event.Left (Node.eventsOf first siblings) path →
      Event.Left events path) :
    liveNames config events (Event.entered (Node.eventsOf first siblings)) =
      siblings.flatMap (Node.bindings config) := by
  have left : ∀ occurrence ∈ Event.entered (Node.eventsOf first siblings),
      Event.Left events occurrence.path := by
    intro occurrence member
    apply passed
    apply Node.left_of_mem_entered_eventsOf _ member
    intro child _ inner inside
    exact Node.left_of_mem_occurrences inside
  rw [liveNames_of_left (Node.forall_entered_eventsOf_iff.mpr quiet) left,
    Node.map_node_entered_eventsOf (fun child _ => child.map_node_occurrences),
    List.flatMap_assoc]
  rfl

theorem liveNames_events {node : Node} (quiet : node.Quiet) :
    liveNames config node.events node.occurrences = node.bindings config := by
  rw [liveNames_of_left (Node.forall_occurrences_iff.mpr quiet)
      fun occurrence => Node.left_of_mem_occurrences,
    node.map_node_occurrences]
  rfl

variable (config home) in
/-- What the list of names is at a moment of the walk of a node: either a macro
was entered and the list holds what lives since then, or neither a macro nor a
template was entered and what lives was added to the list. -/
inductive NamesAt (scope : Scope) (events : List Event) : Prop where
  | sinceMacro {earlier later : List Occurrence} {latest : Occurrence} :
      Event.entered events = earlier ++ latest :: later →
      latest.node.kind = .definition →
      (∀ occurrence ∈ later, occurrence.node.kind ≠ .definition) →
      (scope.along config home events).names =
        liveNames config events (latest :: later) →
      NamesAt scope events
  | added :
      (∀ occurrence ∈ Event.entered events,
        occurrence.node.kind.isStart = false) →
      (scope.along config home events).inMacro = scope.inMacro →
      (scope.along config home events).names =
        scope.names ++ liveNames config events (Event.entered events) →
      NamesAt scope events

/-- The walk has entered a node, has not left it, and came across neither a
macro nor a template below it. -/
private theorem namesAt_of_quiet_below {node : Node} {scope : Scope}
    {rest : List Event} (unclosed : ¬Event.Left (node.entering :: rest) [])
    (quietBelow : ∀ occurrence ∈ Event.entered rest,
      occurrence.node.kind.isStart = false)
    (sameMacro : (scope.along config home (node.entering :: rest)).inMacro =
      (scope.step config home node.entering).inMacro)
    (names : (scope.along config home (node.entering :: rest)).names =
      (scope.step config home node.entering).names ++
        liveNames config (node.entering :: rest) (Event.entered rest))
    (inside : (scope.step config home node.entering).inMacro ≠ none) :
    NamesAt config home scope (node.entering :: rest) := by
  rcases node.kind.start_cases with isOther | isDefinition | isTemplate
  · have entered : scope.step config home node.entering = _ :=
      Scope.step_entering_other isOther scope
    refine .added ?_ ?_ ?_
    · rw [Node.entered_entering]
      exact List.forall_mem_cons.mpr ⟨isOther, quietBelow⟩
    · rw [sameMacro, entered]
    · rw [names, entered, Node.entered_entering, liveNames_cons,
        declared_of_lives isOther unclosed, List.append_assoc]
  · obtain ⟨title, _, entered⟩ :=
      Scope.step_entering_definition config home isDefinition scope
    have split :
        Event.entered (node.entering :: rest) = [] ++ ⟨[], node⟩ :: _ :=
      node.entered_entering rest
    refine .sinceMacro split isDefinition ?_ ?_
    · intro occurrence member
      exact (Kind.isStart_eq_false.mp (quietBelow occurrence member)).1
    · rw [names, entered, liveNames_cons, if_pos (.inl isDefinition)]
  · obtain ⟨template, entered⟩ :=
      Scope.step_entering_template config home isTemplate scope
    exact absurd (congrArg Scope.inMacro entered) inside

private theorem namesAt_entering {node : Node} {scope : Scope}
    (inside : (scope.along config home [node.entering]).inMacro ≠ none) :
    NamesAt config home scope [node.entering] := by
  have unclosed : ¬Event.Left [node.entering] [] := by
    rintro ⟨event, member, isLeave, _⟩
    obtain rfl := List.mem_singleton.mp member
    cases isLeave
  apply namesAt_of_quiet_below unclosed
  · intro occurrence member
    cases member
  · rfl
  · exact (List.append_nil _).symm
  · exact inside

private theorem namesAt_leaving {node : Node} {scope : Scope}
    (inside : (scope.along config home node.events).inMacro ≠ none) :
    NamesAt config home scope node.events := by
  have quiet : node.Quiet := by
    apply Classical.byContradiction
    intro loud
    exact inside (Scope.along_inMacro_of_not_quiet loud scope)
  obtain ⟨guarded, netEffect⟩ := Scope.along_quiet config home quiet scope
  refine .added (Node.forall_occurrences_iff.mpr quiet) (by rw [netEffect]) ?_
  have live : liveNames config node.events (Event.entered node.events) =
      node.bindings config :=
    liveNames_events quiet
  rw [netEffect, live]

/-- The walk stands below a child, after the walks of the children before it. -/
private theorem namesAt_inside {node : Node} {before : List Node}
    {inner : List Event} {scope : Scope}
    (below : ∀ scope : Scope, (scope.along config home inner).inMacro ≠ none →
      NamesAt config home scope inner)
    (inside : (scope.along config home (node.entering ::
      (Node.eventsOf 0 before ++
        inner.map (Event.under before.length)))).inMacro ≠ none) :
    NamesAt config home scope
      (node.entering ::
        (Node.eventsOf 0 before ++ inner.map (Event.under before.length))) := by
  let rest := Node.eventsOf 0 before ++ inner.map (Event.under before.length)
  let entered := scope.step config home node.entering
  let passed := entered.along config home (Node.eventsOf 0 before)
  have state : scope.along config home (node.entering :: rest) =
      passed.along config home inner := by
    rw [Scope.along_cons, Scope.along_append, Scope.along_map_under]
  have members : Event.entered rest = Event.entered (Node.eventsOf 0 before) ++
      (Event.entered inner).map (Occurrence.under before.length) := by
    rw [Event.entered_append, Event.entered_map_under]
  have sameLive : ∀ occurrences, liveNames config (node.entering :: rest)
      (occurrences.map (Occurrence.under before.length)) =
        liveNames config inner occurrences :=
    liveNames_map_under fun path => Node.left_inside_cons
  -- The macro in which the walk stands was entered below the child or before
  -- it.
  cases below passed (state ▸ inside) with
  | @sinceMacro earlier later latest split isDefinition noLater names =>
      have lifted : Event.entered (node.entering :: rest) =
          (⟨[], node⟩ :: (Event.entered (Node.eventsOf 0 before) ++
              earlier.map (Occurrence.under before.length))) ++
            latest.under before.length ::
              later.map (Occurrence.under before.length) := by
        rw [Node.entered_entering, members, split]
        simp
      refine .sinceMacro lifted isDefinition ?_ ?_
      · intro occurrence member
        obtain ⟨origin, originMember, rfl⟩ := List.mem_map.mp member
        exact noLater origin originMember
      · rw [state, names, ← sameLive]
        rfl
  | added noStart sameMacro names =>
      have insidePassed : passed.inMacro ≠ none := by
        rw [← sameMacro, ← state]
        exact inside
      -- Still inside a macro, so the completed children hold none and closed
      -- their blocks.
      obtain ⟨insideEntered, quiet⟩ := Scope.quiet_of_along_inMacro insidePassed
      obtain ⟨guarded, passedEq⟩ : ∃ guarded, passed = { entered with
          names := entered.names ++ before.flatMap (Node.bindings config),
          guarded } :=
        Scope.along_siblings_quiet config home quiet entered 0
      have liveBefore : liveNames config (node.entering :: rest)
          (Event.entered (Node.eventsOf 0 before)) =
            before.flatMap (Node.bindings config) := by
        apply liveNames_siblings quiet
        rintro path ⟨event, member, isLeave, samePath⟩
        refine ⟨event, ?_, isLeave, samePath⟩
        exact List.mem_cons_of_mem _ (List.mem_append_left _ member)
      apply namesAt_of_quiet_below Node.not_left_inside_nil
      · intro occurrence member
        rw [members] at member
        rcases List.mem_append.mp member with passed | current
        · exact Node.forall_entered_eventsOf_iff.mpr quiet occurrence passed
        · obtain ⟨origin, originMember, rfl⟩ := List.mem_map.mp current
          exact noStart origin originMember
      · rw [state, sameMacro, passedEq]
      · rw [state, names, passedEq, members, liveNames_append, liveBefore,
          sameLive, List.append_assoc]
      · exact insideEntered

/-- The list of names at every moment of a walk that is inside a macro. -/
theorem namesAt_of_stage {node : Node} {history : List Event} {current : Event}
    (stage : Stage node history current) {scope : Scope}
    (inside : (scope.along config home (history ++ [current])).inMacro ≠ none) :
    NamesAt config home scope (history ++ [current]) := by
  induction stage generalizing scope with
  | entering node => exact namesAt_entering inside
  | @inside node child before after history current _ _ induction =>
      have events : node.entering :: (Node.eventsOf 0 before ++
            history.map (Event.under before.length)) ++
            [current.under before.length] =
          node.entering :: (Node.eventsOf 0 before ++
            (history ++ [current]).map (Event.under before.length)) := by
        simp
      rw [events] at inside ⊢
      exact namesAt_inside (fun _ => induction) inside
  | leaving node =>
      have events :
          node.entering :: Node.eventsOf 0 node.children ++ [node.leaving] =
          node.events := node.events_eq.symm
      rw [events] at inside ⊢
      exact namesAt_leaving inside

end LiveNames

/-- After every callback that leaves the checker inside a macro, the list of
names is what lives since that macro was entered. -/
theorem Checker.names_eq_liveNames (checker : Checker) {root : Node} {n : Nat}
    {callback : Callback Scope}
    (made : (checker.visitor.pass root).calls[n]? = some callback)
    (inside : callback.reaction.state.inMacro ≠ none) :
    ∃ past earlier latest later,
      past <+: root.events ∧
      ((checker.visitor.pass root).calls.take (n + 1)).map
          (fun callback => (callback.hook, callback.node)) =
        past.map (fun event => (event.hook, event.node)) ∧
      Event.entered past = earlier ++ latest :: later ∧
      latest.node.kind = .definition ∧
      (∀ occurrence ∈ later, occurrence.node.kind ≠ .definition) ∧
      callback.reaction.state.names =
        liveNames checker.config past (latest :: later) := by
  obtain ⟨history, event, future, split, rfl, sameEvents⟩ :=
    checker.visitor_keeps.events_of_made made
  have state := checker.state_callback split made
  have begins : history ++ [event] <+: root.events := by
    rw [split]
    exact ⟨future, by simp⟩
  rw [state] at inside ⊢
  cases namesAt_of_stage (Stage.of_split split) inside with
  | sinceMacro entered isDefinition noLater names =>
      exact ⟨_, _, _, _, begins, sameEvents, entered, isDefinition,
        noLater, names⟩
  | added _ sameMacro _ =>
      rw [sameMacro] at inside
      exact absurd rfl inside

/-- A macro with a loop in it that leaves a binding behind. -/
def totals : Node :=
  ⟨0, ⟨1, 0⟩, .definition "totals" [⟨1, ⟨1, 7⟩, .parameter "rows" none⟩]
    [⟨2, ⟨2, 0⟩, .loop .plain ⟨3, ⟨2, 4⟩, .name "row" "store"⟩
        ⟨4, ⟨2, 11⟩, .name "rows" "load"⟩
      [⟨5, ⟨3, 0⟩, .assign .plain ⟨6, ⟨3, 4⟩, .name "total" "store"⟩
        ⟨7, ⟨3, 12⟩, .name "row" "load"⟩⟩]
      [] none⟩] [] none none⟩

theorem Checker.names_after_loop_totals :
    ∃ callback : Callback Scope,
      ((Checker.visitor {}).pass totals).calls[14]? = some callback ∧
      callback.reaction.state.inMacro = some "totals" ∧
      callback.reaction.state.names = [some "rows", some "total"] ∧
      ∃ past earlier latest later,
        past <+: totals.events ∧
        (((Checker.visitor {}).pass totals).calls.take 15).map
            (fun callback => (callback.hook, callback.node)) =
          past.map (fun event => (event.hook, event.node)) ∧
        Event.entered past = earlier ++ latest :: later ∧
        latest.node.kind = .definition ∧
        (∀ occurrence ∈ later, occurrence.node.kind ≠ .definition) ∧
        callback.reaction.state.names =
          liveNames {} past (latest :: later) := by
  have reached : (((Checker.visitor {}).pass totals).calls[14]?).map
      (fun callback : Callback Scope =>
        (callback.reaction.state.inMacro, callback.reaction.state.names)) =
      some (some "totals", [some "rows", some "total"]) := by
    decide +kernel
  obtain ⟨callback, made, seen⟩ := Option.map_eq_some_iff.mp reached
  obtain ⟨inMacro, names⟩ := Prod.mk.inj seen
  have inside : callback.reaction.state.inMacro ≠ none := by
    rw [inMacro]
    exact Option.some_ne_none "totals"
  exact ⟨callback, made, inMacro, names,
    Checker.names_eq_liveNames {} made inside⟩

end ScopeLint
