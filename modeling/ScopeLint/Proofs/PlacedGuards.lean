import Mathlib.Logic.Equiv.List
import ScopeLint.Proofs.Unfolding

/-!
# Guards by place

A test whether a name is defined exempts a node, not a place in the tree.  Still
the places can be told: a name is exempt exactly where a test asks for it,
unless the same node occurs among the arguments of that test.  So nothing
changes when every occurrence becomes a node of its own.
-/

namespace ScopeLint

/-- A test asks whether this occurrence is defined. -/
def AskedDefined (root : Node) (occurrence : Occurrence) : Prop :=
  ∃ test ∈ root.occurrences, ∃ args,
    test.node.shape.definedTest? = some (occurrence.node, args) ∧
      occurrence.path = test.path ++ [0]

theorem Shape.eq_of_definedTest? {α : Type} {shape : Shape α} {subject : α}
    {args : List α} (asked : shape.definedTest? = some (subject, args)) :
    ∃ negated, shape = .test subject "defined" args negated := by
  cases shape with
  | test value title others negated =>
      rw [definedTest?] at asked
      split at asked
      · rename_i isDefined
        obtain ⟨rfl, rfl⟩ := Prod.mk.inj (Option.some.inj asked)
        exact ⟨negated, by rw [isDefined]⟩
      · cases asked
  | _ => cases asked

theorem askedDefined_root {node subject : Node} {args : List Node}
    (asked : node.shape.definedTest? = some (subject, args)) :
    AskedDefined node ⟨[0], subject⟩ :=
  ⟨⟨[], node⟩, Node.mem_occurrences_nil_iff.mpr rfl, args, asked, rfl⟩

/-- What is asked for in a child is asked for in the node.  Besides, the node
may be a test that asks for its first child. -/
theorem askedDefined_under_iff {node child : Node} {before after : List Node}
    (children : node.children = before ++ child :: after)
    {occurrence : Occurrence} :
    AskedDefined node (occurrence.under before.length) ↔
      AskedDefined child occurrence ∨
        before = [] ∧ occurrence.path = [] ∧
          ∃ args, node.shape.definedTest? = some (occurrence.node, args) := by
  constructor
  · rintro ⟨⟨testPath, test⟩, member, args, asked, place⟩
    have place : before.length :: occurrence.path = testPath ++ [0] := place
    cases testPath with
    | nil =>
        obtain ⟨noneBefore, atRoot⟩ := List.cons.inj place
        obtain rfl := Node.mem_occurrences_nil_iff.mp member
        exact .inr ⟨List.length_eq_zero_iff.mp noneBefore, atRoot, args, asked⟩
    | cons index rest =>
        obtain ⟨rfl, samePath⟩ := List.cons.inj place
        have inside := (Node.mem_occurrences_below_iff children).mp member
        exact .inl ⟨⟨rest, test⟩, inside, args, asked, samePath⟩
  · rintro (⟨⟨testPath, test⟩, member, args, asked, place⟩
      | ⟨rfl, atRoot, args, asked⟩)
    · refine ⟨⟨before.length :: testPath, test⟩, ?_, args, asked, ?_⟩
      · exact (Node.mem_occurrences_below_iff children).mpr member
      · exact congrArg (before.length :: ·) place
    · have here : occurrence.under 0 = ⟨[0], occurrence.node⟩ := by
        rw [Occurrence.under, atRoot]
      rw [List.length_nil, here]
      exact askedDefined_root asked

theorem not_askedDefined_root {root : Node} {occurrence : Occurrence}
    (atRoot : occurrence.path = []) : ¬AskedDefined root occurrence := by
  rintro ⟨test, _, _, _, place⟩
  rw [atRoot] at place
  simp at place

theorem Stage.eq_entering {node : Node} {history : List Event} {current : Event}
    (stage : Stage node history current) (enters : current.hook = .enter)
    (atRoot : current.path = []) : history = [] ∧ current = node.entering := by
  cases stage with
  | entering => exact ⟨rfl, rfl⟩
  | inside => cases atRoot
  | leaving => cases enters

section Stages

variable {config : Config} {home : String} {root : Node} {history : List Event}
  {current : Event}

/-- A name is guarded where a test asks for it, in whatever scope the walk
began. -/
theorem mem_guarded_of_asked (stage : Stage root history current)
    (enters : current.hook = .enter) (isName : current.node.kind = .name)
    (asked : AskedDefined root current.toOccurrence) (scope : Scope) :
    current.node.id ∈ (scope.along config home history).guarded := by
  induction stage generalizing scope with
  | entering node => exact absurd asked (not_askedDefined_root rfl)
  | inside children stage induction =>
      rw [Scope.along_cons, Scope.along_append, Scope.along_map_under]
      rcases (askedDefined_under_iff children).mp asked with below
        | ⟨rfl, atRoot, args, here⟩
      · exact induction enters isName below _
      · obtain ⟨negated, shape⟩ := Shape.eq_of_definedTest? here
        obtain ⟨rfl, _⟩ := stage.eq_entering enters atRoot
        rw [Scope.step_entering_guard (Node.role_of_guard shape isName)]
        exact Scope.mem_guard.mpr (.inl rfl)
  | leaving => cases enters

theorem Stage.of_name {node : Node} (stage : Stage node history current)
    (isName : node.kind = .name) (enters : current.hook = .enter) :
    current = node.entering := by
  cases stage with
  | entering => rfl
  | inside children =>
      rw [Node.children_of_name isName] at children
      simp at children
  | leaving => cases enters

/-- When a walk comes to a child, no name in the child is guarded, unless the
child is the name that the node asks for. -/
theorem unguarded_child {node child : Node} {before after : List Node}
    (children : node.children = before ++ child :: after)
    (apart : node.GuardsApart) {scope : Scope}
    (unguarded : Lexical.Unguarded scope node) :
    Lexical.Unguarded ((scope.step config home node.entering).along config home
        (Node.eventsOf 0 before)) child ∨
      before = [] ∧ child.kind = .name ∧ ∃ args,
        node.shape.definedTest? = some (child, args) := by
  obtain ⟨apartHere, _⟩ := Node.forall_mem_nodes_iff.mp apart
  have childMember : child ∈ node.children := by
    rw [children]
    simp
  have kept : ((scope.step config home node.entering).along config home
      (Node.eventsOf 0 before)).guarded ⊆ _ :=
    Scope.along_eventsOf_guarded_subset before _ 0
  have unguardedBefore : ∀ inner ∈ child.nodes, inner.kind = .name →
      inner.id ∉ scope.guarded := by
    intro inner inside
    exact unguarded inner (Node.mem_nodes_of_mem_children childMember inside)
  by_cases guards : ∃ subject, node.role config = .guard subject
  · obtain ⟨id, role⟩ := guards
    obtain ⟨subject, args, negated, shape, isName, rfl⟩ :=
      Node.shape_of_guard role
    have asked : node.shape.definedTest? = some (subject, args) := by
      simp [shape, Shape.definedTest?]
    rw [Node.children, shape] at children
    cases before with
    | nil =>
        obtain ⟨rfl, _⟩ := List.cons.inj children
        exact .inr ⟨rfl, isName, args, asked⟩
    | cons first before =>
        obtain ⟨_, argsEq⟩ := List.cons.inj children
        have isArg : child ∈ args := by
          rw [argsEq]
          simp
        left
        intro inner inside innerIsName innerGuarded
        have earlier := kept innerGuarded
        rw [Scope.step_entering_guard role] at earlier
        rcases Scope.mem_guard.mp earlier with same | already
        · exact apartHere (subject, args) asked isName child isArg inner inside
            innerIsName same
        · exact unguardedBefore inner inside innerIsName already
  · left
    intro inner inside innerIsName innerGuarded
    exact unguardedBefore inner inside innerIsName
      (Scope.step_entering_guarded_subset (not_exists.mp guards) scope
        (kept innerGuarded))

/-- A name is guarded nowhere else, if it was not before and if no test has it
both for its subject and among its arguments. -/
theorem asked_of_mem_guarded (stage : Stage root history current)
    (enters : current.hook = .enter) (isName : current.node.kind = .name)
    (apart : root.GuardsApart) {scope : Scope}
    (unguarded : Lexical.Unguarded scope root)
    (guarded : current.node.id ∈ (scope.along config home history).guarded) :
    AskedDefined root current.toOccurrence := by
  induction stage generalizing scope with
  | entering node =>
      exact absurd guarded (unguarded node node.mem_nodes_self isName)
  | @inside node child before after history current children stage induction =>
      rw [Scope.along_cons, Scope.along_append,
        Scope.along_map_under] at guarded
      apply (askedDefined_under_iff children).mpr
      rcases unguarded_child children apart unguarded with
        unguardedBelow | ⟨noneBefore, childIsName, args, asked⟩
      · obtain ⟨_, apartBelow⟩ := Node.forall_mem_nodes_iff.mp apart
        have childMember : child ∈ node.children := by
          rw [children]
          simp
        left
        exact induction enters isName (apartBelow child childMember)
          unguardedBelow guarded
      · obtain rfl := stage.of_name childIsName enters
        exact .inr ⟨noneBefore, rfl, args, asked⟩
  | leaving => cases enters

/-- The tests of an unfolding ask for the same places. -/
theorem Stage.askedDefined_unfold_iff (stage : Stage root history current)
    (enters : current.hook = .enter) (identity : List Nat → Nat) :
    AskedDefined (root.unfold identity) (current.toOccurrence.unfold identity) ↔
      AskedDefined root current.toOccurrence := by
  induction stage generalizing identity with
  | entering node =>
      exact iff_of_false (not_askedDefined_root rfl) (not_askedDefined_root rfl)
  | @inside node child before after history current children stage induction =>
      have unfolded := node.children_unfold identity
      rw [children, List.mapIdx_append, List.mapIdx_cons,
        Nat.zero_add] at unfolded
      have below : AskedDefined (node.unfold identity)
          (Occurrence.under _
            (current.toOccurrence.unfold fun path =>
              identity (before.length :: path))) ↔ _ :=
        askedDefined_under_iff unfolded
      rw [List.length_mapIdx] at below
      refine below.trans (Iff.trans (or_congr (induction enters _) ?_)
        (askedDefined_under_iff children).symm)
      constructor
      · rintro ⟨noneBefore, atRoot, _, otherAsked⟩
        obtain rfl := List.mapIdx_eq_nil_iff.mp noneBefore
        obtain ⟨_, rfl⟩ := stage.eq_entering enters atRoot
        rw [Node.shape_unfold, Shape.definedTest?_mapIdx] at otherAsked
        obtain ⟨⟨subject, args⟩, asked, _⟩ :=
          Option.map_eq_some_iff.mp otherAsked
        obtain ⟨negated, shape⟩ := Shape.eq_of_definedTest? asked
        rw [Node.children, shape] at children
        obtain ⟨rfl, _⟩ := List.cons.inj children
        exact ⟨rfl, rfl, args, asked⟩
      · rintro ⟨rfl, atRoot, args, asked⟩
        obtain ⟨_, rfl⟩ := stage.eq_entering enters atRoot
        refine ⟨rfl, rfl, args.mapIdx fun place arg =>
          arg.unfold fun path => identity ((place + 1) :: path), ?_⟩
        rw [Node.shape_unfold, Shape.definedTest?_mapIdx, asked]
        rfl
  | leaving => cases enters

end Stages

namespace Scope

/-- What a scope knows, but for the guards. -/
def withoutGuards (scope : Scope) : Scope := { scope with guarded := [] }

variable {config : Config} {home : String} {scope other : Scope}

theorem withoutGuards_enter (same : other.withoutGuards = scope.withoutGuards)
    (label : Nat → Nat) (role : Role) :
    (other.enter home (role.labelled label)).withoutGuards =
      (scope.enter home role).withoutGuards := by
  obtain ⟨inMacro, names, frames, guarded, template⟩ := scope
  obtain ⟨otherInMacro, otherNames, otherFrames, otherGuarded, otherTemplate⟩ :=
    other
  obtain ⟨rfl, rfl, rfl, _, rfl⟩ := Scope.mk.inj same
  cases role with
  | definition title inputs => cases inputs <;> rfl
  | _ => rfl

theorem withoutGuards_leave (same : other.withoutGuards = scope.withoutGuards)
    (label : Nat → Nat) (role : Role) :
    (other.leave (role.labelled label)).map withoutGuards =
      (scope.leave role).map withoutGuards := by
  obtain ⟨inMacro, names, frames, guarded, template⟩ := scope
  obtain ⟨otherInMacro, otherNames, otherFrames, otherGuarded, otherTemplate⟩ :=
    other
  obtain ⟨rfl, rfl, rfl, _, rfl⟩ := Scope.mk.inj same
  cases role with
  | block names => cases otherFrames <;> rfl
  | _ => rfl

/-- A guard keeps a finding from being made, and does nothing else. -/
theorem finding?_eq_withoutGuards (config : Config) (scope : Scope)
    (node : Node) :
    scope.finding? config node =
      if node.id ∈ scope.guarded then none
      else scope.withoutGuards.finding? config node := by
  by_cases guarded : node.id ∈ scope.guarded
  · rw [if_pos guarded, finding?]
    split
    · rw [if_pos (.inl guarded)]
    · rfl
  · rw [if_neg guarded, finding?, finding?]
    simp only [guarded, withoutGuards, false_or, List.not_mem_nil]
    rfl

end Scope

namespace Checker

variable {checker : Checker} {identity : List Nat → Nat} {scope other : Scope}

theorem enter_of_name {node : Node} (isName : node.kind = .name) (home : String)
    (scope : Scope) :
    scope.enter home (node.role checker.config) = scope := by
  have fits := node.kind_of_role checker.config
  cases role : node.role checker.config with
  | reference name => rfl
  | plain => rfl
  | _ => simp_all [Kind.isBlock, Kind.isBinding]

theorem found_of_name {node : Node} (isName : node.kind = .name)
    (scope : Scope) :
    scope.found checker.config checker.home node.entering =
      scope.finding? checker.config node := by
  change (scope.enter checker.home (node.role checker.config)).finding?
    checker.config node = _
  rw [enter_of_name isName]

theorem finding?_unfold (same : other.withoutGuards = scope.withoutGuards)
    (node : Node) :
    other.withoutGuards.finding? checker.config (node.unfold identity) =
      scope.withoutGuards.finding? checker.config node := by
  have unguarded : ∀ id, id ∉ scope.withoutGuards.guarded :=
    fun _ => List.not_mem_nil
  rw [same, Scope.finding?, Scope.finding?, Node.role_unfold,
    Node.position_unfold]
  cases scope.withoutGuards.inMacro with
  | none => rfl
  | some title =>
      cases node.role checker.config with
      | reference name => simp only [Role.labelled, unguarded, false_or]
      | _ => rfl

theorem fault?_labelled (label : Nat → Nat) (role : Role) :
    (role.labelled label).fault? = role.fault? := by
  cases role <;> rfl

/-- A callback for a node and one for its unfolding, with the scopes that they
leave behind. -/
structure AnswersAlike (reaction other : Reaction Scope) : Prop where
  journal : other.journal = reaction.journal
  reply : other.reply = reaction.reply
  state : other.state.withoutGuards = reaction.state.withoutGuards

theorem found_unfold (same : other.withoutGuards = scope.withoutGuards)
    {node : Node}
    (guards : node.kind = .name →
      ((node.unfold identity).id ∈ other.guarded ↔ node.id ∈ scope.guarded)) :
    other.found checker.config checker.home (node.unfold identity).entering =
      scope.found checker.config checker.home node.entering := by
  have role := node.role_unfold identity checker.config
  by_cases reads : ∃ name, node.role checker.config = .reference name
  · obtain ⟨name, reads⟩ := reads
    have isName : node.kind = .name := by
      have fits := node.kind_of_role checker.config
      rwa [reads] at fits
    have otherIsName : (node.unfold identity).kind = .name :=
      (node.kind_unfold identity).trans isName
    rw [found_of_name isName, found_of_name otherIsName,
      Scope.finding?_eq_withoutGuards,
      Scope.finding?_eq_withoutGuards checker.config scope,
      finding?_unfold same]
    simp only [guards isName]
  · have noReference : ∀ name, node.role checker.config ≠ .reference name :=
      not_exists.mp reads
    have otherNoReference : ∀ name,
        (node.unfold identity).role checker.config ≠ .reference name := by
      intro name reference
      rw [role] at reference
      cases known : node.role checker.config with
      | reference word => exact noReference word known
      | _ =>
          rw [known] at reference
          cases reference
    exact (Scope.finding?_of_not_reference otherNoReference _).trans
      (Scope.finding?_of_not_reference noReference _).symm

theorem enter_unfold (same : other.withoutGuards = scope.withoutGuards)
    {node : Node}
    (guards : node.kind = .name →
      ((node.unfold identity).id ∈ other.guarded ↔ node.id ∈ scope.guarded)) :
    AnswersAlike (checker.enter scope node)
      (checker.enter other (node.unfold identity)) := by
  have role := node.role_unfold identity checker.config
  have state : Scope.withoutGuards
      (other.enter checker.home ((node.unfold identity).role checker.config)) =
        (scope.enter checker.home
          (node.role checker.config)).withoutGuards := by
    rw [role]
    exact Scope.withoutGuards_enter same _ _
  have finding : Scope.finding? checker.config
      (other.enter checker.home ((node.unfold identity).role checker.config))
        (node.unfold identity) =
      Scope.finding? checker.config
        (scope.enter checker.home (node.role checker.config)) node :=
    found_unfold same guards
  have fault : ((node.unfold identity).role checker.config).fault? =
      (node.role checker.config).fault? := by
    rw [role]
    exact fault?_labelled _ _
  rw [enter, enter]
  dsimp only
  rw [fault, finding]
  cases (node.role checker.config).fault? with
  | some failure => exact ⟨rfl, rfl, state⟩
  | none =>
      dsimp only
      cases (scope.enter checker.home (node.role checker.config)).finding?
        checker.config node with
      | none => exact ⟨rfl, rfl, state⟩
      | some d => exact ⟨rfl, rfl, state⟩

theorem leave_unfold (same : other.withoutGuards = scope.withoutGuards)
    (node : Node) :
    AnswersAlike (checker.leave scope node)
      (checker.leave other (node.unfold identity)) := by
  have left := Scope.withoutGuards_leave same (fun _ => identity [0])
    (node.role checker.config)
  rw [leave, leave, Node.role_unfold]
  cases here : scope.leave (node.role checker.config) with
  | ok next =>
      cases there : other.leave
        ((node.role checker.config).labelled fun _ => identity [0]) with
      | ok otherNext =>
          rw [here, there] at left
          exact ⟨rfl, rfl, Except.ok.inj left⟩
      | error failure =>
          rw [here, there] at left
          cases left
  | error failure =>
      cases there : other.leave
        ((node.role checker.config).labelled fun _ => identity [0]) with
      | ok otherNext =>
          rw [here, there] at left
          cases left
      | error otherFailure =>
          rw [here, there] at left
          cases left
          exact ⟨rfl, rfl, same⟩

/-- The same callback for a node and for its unfolding. -/
structure Mirrored (identity : List Nat → Nat)
    (callback other : Callback Scope) : Prop where
  hook : other.hook = callback.hook
  node : ∃ path,
    other.node = callback.node.unfold fun rest => identity (path ++ rest)
  answer : AnswersAlike callback.reaction other.reaction

theorem react_unfold (same : other.withoutGuards = scope.withoutGuards)
    {event : Event}
    (guards : event.hook = .enter → event.node.kind = .name →
      ((event.unfold identity).node.id ∈ other.guarded ↔
        event.node.id ∈ scope.guarded)) :
    AnswersAlike (checker.visitor.react event.hook scope event.node)
      (checker.visitor.react event.hook other
        (event.unfold identity).node) := by
  obtain ⟨occurrence, hook⟩ := event
  cases hook with
  | enter => exact enter_unfold same (guards rfl)
  | leave => exact leave_unfold same occurrence.node

variable (identity) in
/-- Two walks through the same events, of which the second sees each node
unfolded.  What matters is that they agree on which names are guarded when they
come to them. -/
theorem lead_unfold {events : List Event}
    (same : other.withoutGuards = scope.withoutGuards)
    (guards : ∀ history event future, events = history ++ event :: future →
      event.hook = .enter → event.node.kind = .name →
      ((event.unfold identity).node.id ∈
        (other.along checker.config checker.home
          (history.map (Event.unfold identity))).guarded ↔
        event.node.id ∈
          (scope.along checker.config checker.home history).guarded)) :
    Passage.Aligned (Mirrored identity)
      (fun scope other => other.withoutGuards = scope.withoutGuards)
      (checker.visitor.lead scope events)
      (checker.visitor.lead other (events.map (Event.unfold identity))) := by
  induction events generalizing scope other with
  | nil => exact ⟨.nil, same, rfl⟩
  | cons event rest induction =>
      have answer : AnswersAlike
          (checker.visitor.react event.hook scope event.node)
          (checker.visitor.react event.hook other
            (event.unfold identity).node) :=
        react_unfold same fun enters isName =>
          guards [] event rest rfl enters isName
      have mirrored : Mirrored identity
          ⟨event.hook, event.node,
            checker.visitor.react event.hook scope event.node⟩
          ⟨event.hook, (event.unfold identity).node,
            checker.visitor.react event.hook other
              (event.unfold identity).node⟩ :=
        ⟨rfl, ⟨event.path, rfl⟩, answer⟩
      have result : (checker.visitor.call event.hook other
            (event.unfold identity).node).result =
          (checker.visitor.call event.hook scope event.node).result :=
        congrArg (checker.visitor.accept event.hook) answer.reply
      have later := induction answer.state (by
        intro history next future split enters isName
        have otherState : Reaction.state
            (checker.visitor.react event.hook other
              (event.unfold identity).node) = _ :=
          checker.state_react other (event.unfold identity)
        rw [checker.state_react scope event, otherState]
        exact guards (event :: history) next future (by rw [split]; rfl)
          enters isName)
      change Passage.Aligned _ _
        ((checker.visitor.call event.hook scope event.node).andThen
          fun state _ => checker.visitor.lead state rest)
        ((checker.visitor.call event.hook other
          (event.unfold identity).node).andThen fun state _ =>
            checker.visitor.lead state (rest.map (Event.unfold identity)))
      cases done :
        (checker.visitor.call event.hook scope event.node).result with
      | error failure =>
          have otherDone := result.trans done
          rw [Passage.andThen_of_error done, Passage.andThen_of_error otherDone]
          exact ⟨.cons mirrored .nil, answer.state, rfl⟩
      | ok answered =>
          have otherDone := result.trans done
          rw [Passage.andThen_of_ok done, Passage.andThen_of_ok otherDone]
          exact ⟨.cons mirrored later.calls, later.state, later.result⟩

/-- In a fresh walk the guarded names are those that a test asks for. -/
theorem mem_guarded_iff {root : Node} (apart : root.GuardsApart)
    {history future : List Event} {occurrence : Occurrence}
    (split : root.events = history ++ ⟨occurrence, .enter⟩ :: future)
    (isName : occurrence.node.kind = .name) :
    occurrence.node.id ∈
      (checker.start.along checker.config checker.home history).guarded ↔
      AskedDefined root occurrence := by
  have stage := Stage.of_split split
  constructor
  · apply asked_of_mem_guarded stage rfl isName apart
    intro inner _ _
    exact List.not_mem_nil
  · intro asked
    exact mem_guarded_of_asked stage rfl isName asked checker.start

/-- The walk of a tree and the walk of its unfolding, seen from outside. -/
structure SameWalk (identity : List Nat → Nat) (root : Node)
    (passage other : Passage Scope Node) : Prop where
  calls : List.Forall₂ (Mirrored identity) passage.calls other.calls
  journal : other.journal = passage.journal
  state : other.state.withoutGuards = passage.state.withoutGuards
  result : ∃ outcome : Except Failure Unit,
    passage.result = outcome.map (fun _ => root) ∧
      other.result = outcome.map fun _ => root.unfold identity

theorem sameWalk (injective : Function.Injective identity) {root : Node}
    (apart : root.GuardsApart) :
    SameWalk identity root (checker.visitor.pass root)
      (checker.visitor.pass (root.unfold identity)) := by
  have led : Passage.Aligned (Mirrored identity)
      (fun scope other => other.withoutGuards = scope.withoutGuards)
      (checker.visitor.lead checker.start root.events)
      (checker.visitor.lead checker.start
        (root.events.map (Event.unfold identity))) := by
    apply lead_unfold identity rfl
    rintro history ⟨occurrence, hook⟩ future split rfl isName
    have otherSplit : (root.unfold identity).events =
        history.map (Event.unfold identity) ++
          ⟨occurrence.unfold identity, .enter⟩ ::
            future.map (Event.unfold identity) := by
      rw [Node.events_unfold, split, List.map_append]
      rfl
    have otherIsName : (occurrence.unfold identity).node.kind = .name :=
      (Node.kind_unfold _ _).trans isName
    have otherGuarded := @mem_guarded_iff checker _
      (root.guardsApart_unfold injective) _ _ _ otherSplit otherIsName
    rw [mem_guarded_iff apart split isName]
    exact otherGuarded.trans
      ((Stage.of_split split).askedDefined_unfold_iff rfl identity)
  rw [← Node.events_unfold] at led
  have here : checker.visitor.pass root = _ :=
    checker.visitor_keeps.passFrom_eq_mk checker.start root
  have there : checker.visitor.pass (root.unfold identity) = _ :=
    checker.visitor_keeps.passFrom_eq_mk checker.start (root.unfold identity)
  rw [here, there]
  have journals :=
    led.map_calls fun _ _ mirrored => mirrored.answer.journal.symm
  refine ⟨led.calls, congrArg Journal.concat journals.symm, led.state,
    _, rfl, ?_⟩
  rw [led.result]

/-- A walk from this scope has nothing to say about a name that a test asks
for. -/
def PassesAsked (checker : Checker) (scope : Scope) (root : Node) : Prop :=
  ∀ history occurrence future callback,
    root.events = history ++ ⟨occurrence, .enter⟩ :: future →
    occurrence.node.kind = .name → AskedDefined root occurrence →
    (checker.visitor.passFrom scope root).calls[history.length]? =
      some callback →
    callback.reaction.journal = ∅

/-- Exactly the names that a test asks for are exempt from a fresh walk.  Of
every other name it says what it would say if nothing was guarded. -/
structure ExemptsAsked (checker : Checker) (root : Node) : Prop where
  asked : checker.PassesAsked checker.start root
  other : ∀ history occurrence future callback,
    root.events = history ++ ⟨occurrence, .enter⟩ :: future →
    occurrence.node.kind = .name → ¬AskedDefined root occurrence →
    (checker.visitor.pass root).calls[history.length]? = some callback →
    callback.reaction.journal =
      (checker.enter callback.reaction.state.withoutGuards
        occurrence.node).journal

/-- A guard silences a name, and nothing else keeps it from being judged. -/
theorem journal_enter_of_name {node : Node} (isName : node.kind = .name)
    (scope : Scope) :
    (checker.enter scope node).journal =
      if node.id ∈ scope.guarded then ∅
      else (checker.enter scope.withoutGuards node).journal := by
  have here : (checker.enter scope node).journal = _ :=
    checker.journal_react scope node.entering
  have there : (checker.enter scope.withoutGuards node).journal = _ :=
    checker.journal_react scope.withoutGuards node.entering
  rw [here, there, found_of_name isName, found_of_name isName,
    Scope.finding?_eq_withoutGuards checker.config scope]
  by_cases guarded : node.id ∈ scope.guarded
  · rw [if_pos guarded, if_pos guarded]
  · rw [if_neg guarded, if_neg guarded]

/-- A name is judged in the scope to which the events before it lead, and leaves
it as it is. -/
theorem reaction_of_name {root : Node} {history future : List Event}
    {occurrence : Occurrence} {callback : Callback Scope}
    (split : root.events = history ++ ⟨occurrence, .enter⟩ :: future)
    (isName : occurrence.node.kind = .name)
    (made : (checker.visitor.passFrom scope root).calls[history.length]? =
      some callback) :
    callback.reaction.journal = Reaction.journal
        (checker.enter (scope.along checker.config checker.home history)
          occurrence.node) ∧
      callback.reaction.state =
        scope.along checker.config checker.home history := by
  obtain rfl := checker.visitor_keeps.callback_eq split made
  rw [← checker.stateAfter_eq scope history]
  exact ⟨rfl, (checker.state_react _ occurrence.node.entering).trans
    (enter_of_name isName _ _)⟩

theorem passesAsked (checker : Checker) (scope : Scope) (root : Node) :
    checker.PassesAsked scope root := by
  intro history occurrence future callback split isName asked made
  obtain ⟨journal, _⟩ := reaction_of_name split isName made
  rw [journal, journal_enter_of_name isName]
  exact if_pos
    (mem_guarded_of_asked (Stage.of_split split) rfl isName asked scope)

theorem exemptsAsked (checker : Checker) {root : Node}
    (apart : root.GuardsApart) :
    checker.ExemptsAsked root := by
  refine ⟨checker.passesAsked checker.start root, ?_⟩
  intro history occurrence future callback split isName unasked made
  obtain ⟨journal, state⟩ := reaction_of_name split isName made
  rw [journal, state, journal_enter_of_name isName]
  exact if_neg fun guarded =>
    unasked ((mem_guarded_iff apart split isName).mp guarded)

theorem guarded_subset_of_completed {root done : Node}
    (completed : (checker.visitor.passFrom scope root).result = .ok done) :
    Scope.guarded (checker.visitor.passFrom scope root).state ⊆
      scope.guarded := by
  rcases checker.visitor_keeps.smooth_or_fails scope root.events with
    smooth | ⟨history, event, future, failure, split, smooth, fails⟩
  · rw [checker.visitor_keeps.passFrom_of_smooth smooth]
    change Scope.guarded (checker.visitor.stateAfter scope root.events) ⊆ _
    rw [checker.stateAfter_eq]
    exact Scope.along_guarded_subset root scope
  · rw [checker.visitor_keeps.passFrom_of_failure split smooth
      fails] at completed
    cases completed

/-- Guards go by node and not by place, but in a fresh walk that makes no
difference: it goes as through the unfolding of the tree, unless a name is asked
for in a test that has the same node among its arguments.  Even then, and from
whatever scope, a name is passed over where a test asks for it, and a walk that
comes to its end leaves no guards behind. -/
theorem pass_unfold (checker : Checker) (root : Node) :
    (∀ identity : List Nat → Nat, Function.Injective identity →
      root.GuardsApart →
      ((root.unfold identity).nodes.map Node.id).Nodup ∧
      SameWalk identity root (checker.visitor.pass root)
        (checker.visitor.pass (root.unfold identity)) ∧
      checker.ExemptsAsked root ∧ checker.ExemptsAsked (root.unfold identity)) ∧
    ∀ scope : Scope,
      checker.PassesAsked scope root ∧
      ∀ done, (checker.visitor.passFrom scope root).result = .ok done →
        Scope.guarded (checker.visitor.passFrom scope root).state ⊆
          scope.guarded := by
  constructor
  · intro identity injective apart
    exact ⟨root.nodup_id_unfold injective, sameWalk injective apart,
      checker.exemptsAsked apart,
      checker.exemptsAsked (root.guardsApart_unfold injective)⟩
  · intro scope
    exact ⟨checker.passesAsked scope root, fun _ => guarded_subset_of_completed⟩

def caption : Node := ⟨4, ⟨2, 3⟩, .name "caption" "load"⟩

/-- A macro with the same node in three places, in two of which a test asks for
it. -/
def banner : Node :=
  ⟨0, ⟨1, 0⟩, .definition "banner" []
    [⟨1, ⟨2, 3⟩,
      .test caption "defined" [⟨2, ⟨2, 20⟩, .name "other" "load"⟩] false⟩,
     caption,
     ⟨3, ⟨4, 3⟩, .test caption "defined" [] true⟩] [] none none⟩

theorem pass_unfold_banner :
    let identity : List Nat → Nat := Encodable.encode
    let guarding : Scope := { Scope.fresh "page.html" with guarded := [4, 7] }
    Function.Injective identity ∧ banner.GuardsApart ∧
    ¬(banner.nodes.map Node.id).Nodup ∧
    ((banner.unfold identity).nodes.map Node.id).Nodup ∧
    SameWalk identity banner ((visitor {}).pass banner)
      ((visitor {}).pass (banner.unfold identity)) ∧
    ((visitor {}).pass (banner.unfold identity)).journal.findings.map
        (·.missing) =
      ["other", "caption"] ∧
    (¬AskedDefined banner ⟨[1], caption⟩ ∧ ∃ callback : Callback Scope,
      ((visitor {}).pass banner).calls[7]? = some callback ∧
      callback.reaction.journal =
        (enter {} callback.reaction.state.withoutGuards caption).journal) ∧
    (AskedDefined banner ⟨[2, 0], caption⟩ ∧ ∃ callback : Callback Scope,
      ((visitor {}).passFrom guarding banner).calls[10]? = some callback ∧
      callback.reaction.journal = ∅) ∧
    Scope.guarded ((visitor {}).passFrom guarding banner).state ⊆ [4, 7] := by
  intro identity guarding
  have injective : Function.Injective identity := Encodable.encode_injective
  have apart : banner.GuardsApart := by decide +kernel
  have plain : banner.PlainParameters := by decide +kernel
  have free : banner.BlocksTemplateFree := by decide +kernel
  have completed := (visitor_keeps {}).passFrom_of_smooth
    (smooth_of_fit (fun _ => rfl) plain free guarding)
  obtain ⟨fresh, fromAnywhere⟩ := pass_unfold {} banner
  obtain ⟨distinct, same, exempts, _⟩ := fresh identity injective apart
  obtain ⟨passes, released⟩ := fromAnywhere guarding
  have unasked : ¬AskedDefined banner ⟨[1], caption⟩ := by
    rintro ⟨test, _, _, _, place⟩
    have last := congrArg List.getLast? place
    simp at last
  have asked : AskedDefined banner ⟨[2, 0], caption⟩ :=
    ⟨⟨[2], ⟨3, ⟨4, 3⟩, .test caption "defined" [] true⟩⟩,
      List.mem_of_getElem? (i := 5) rfl, [], rfl, rfl⟩
  have found := congrArg
    (fun journal : Journal => journal.findings.map (·.missing)) same.journal
  have reads : ((visitor {}).pass banner).calls[7]?.isSome = true := by
    decide +kernel
  obtain ⟨read, readMade⟩ := Option.isSome_iff_exists.mp reads
  have asks :
      ((visitor {}).passFrom guarding banner).calls[10]?.isSome = true := by
    decide +kernel
  obtain ⟨guarded, guardedMade⟩ := Option.isSome_iff_exists.mp asks
  refine ⟨injective, apart, by decide +kernel, distinct, same,
    found.trans (by decide +kernel),
    ⟨unasked, read, readMade, ?_⟩, ⟨asked, guarded, guardedMade, ?_⟩,
    released banner (by rw [completed])⟩
  · exact exempts.other (banner.events.take 7) ⟨[1], caption⟩
      (banner.events.drop 8) read rfl rfl unasked readMade
  · exact passes (banner.events.take 10) ⟨[2, 0], caption⟩
      (banner.events.drop 11) guarded rfl rfl asked guardedMade

end Checker

end ScopeLint
