import Mathlib.Data.List.Forall2
import ScopeLint.Proofs.ScopeCourse

/-!
# The current macro

A scope remembers one macro, not a stack of them.  Where a walk stands, this is
the macro around that place if no macro or template was entered since, and no
macro otherwise.  So the macro that a finding names is the innermost one
around the name that was read, and behind an inner macro or template nothing is
found any more.
-/

namespace ScopeLint

namespace Event

/-- The node of certain kinds that was entered last. -/
def latest? (wanted : Kind → Bool) (events : List Event) : Option Occurrence :=
  ((entered events).filter fun occurrence =>
    wanted occurrence.node.kind).getLast?

theorem latest?_append (wanted : Kind → Bool) (first second : List Event) :
    latest? wanted (first ++ second) =
      (latest? wanted second).or (latest? wanted first) := by
  rw [latest?, entered_append, List.filter_append, List.getLast?_append]
  rfl

/-- The macro or template that was entered last. -/
def latestStart? : List Event → Option Occurrence := latest? Kind.isStart

theorem latestStart?_append (first second : List Event) :
    latestStart? (first ++ second) =
      (latestStart? second).or (latestStart? first) :=
  latest?_append Kind.isStart first second

theorem latestStart?_map_under (place : Nat) (events : List Event) :
    latestStart? (events.map (under place)) =
      (latestStart? events).map (Occurrence.under place) := by
  rw [latestStart?, latest?, entered_map_under, List.filter_map,
    List.getLast?_map]
  rfl

theorem latestStart?_eq_none {events : List Event} :
    latestStart? events = none ↔
      ∀ occurrence ∈ entered events, occurrence.node.kind.isStart = false := by
  rw [latestStart?, latest?, List.getLast?_eq_none_iff, List.filter_eq_nil_iff]
  simp

theorem latestStart?_eq_some {events : List Event} {start : Occurrence}
    (latest : latestStart? events = some start) :
    ∃ earlier later, entered events = earlier ++ start :: later ∧
      ∀ occurrence ∈ later, occurrence.node.kind.isStart = false := by
  obtain ⟨others, starts⟩ := List.getLast?_eq_some_iff.mp latest
  obtain ⟨first, second, enteredEq, _, secondEq⟩ :=
    List.filter_eq_append_iff.mp starts
  obtain ⟨skipped, later, rfl, _, _, laterEq⟩ :=
    List.filter_eq_cons_iff.mp secondEq
  refine ⟨first ++ skipped, later, ?_, ?_⟩
  · rw [enteredEq, List.append_assoc]
  · intro occurrence member
    simpa using List.filter_eq_nil_iff.mp laterEq occurrence member

end Event

/-- How the macro at a path follows from the macro before some events and from
the macro or template that was entered last in them. -/
inductive MacroAt (outer : Option String) (events : List Event)
    (path : List Nat) : Option String → Prop where
  | kept :
      Event.latestStart? events = none →
      MacroAt outer events path outer
  | within {start : Occurrence} {title : String} :
      Event.latestStart? events = some start →
      start.node.kind = .definition →
      start.path <+: path →
      start.node.shape.called? = some (some title) →
      MacroAt outer events path (some title)
  | past {start : Occurrence} :
      Event.latestStart? events = some start →
      ¬(start.node.kind = .definition ∧ start.path <+: path) →
      MacroAt outer events path none

section Stages

variable {config : Config} {home : String}

theorem MacroAt.of_latestStart?_eq {outer inner : Option String}
    {first second : List Event} {path : List Nat}
    (known : MacroAt outer first path inner)
    (same : Event.latestStart? second = Event.latestStart? first) :
    MacroAt outer second path inner := by
  cases known with
  | kept nothing => exact .kept (same.trans nothing)
  | within latest isDefinition around called =>
      exact .within (same.trans latest) isDefinition around called
  | past latest outside => exact .past (same.trans latest) outside

theorem MacroAt.below {outer middle inner : Option String}
    {first second : List Event} {place : Nat} {path : List Nat}
    (before : MacroAt outer first (place :: path) middle)
    (after : MacroAt middle second path inner) :
    MacroAt outer (first ++ second.map (Event.under place)) (place :: path)
      inner := by
  have latest : Event.latestStart? (first ++ second.map (Event.under place)) =
      ((Event.latestStart? second).map (Occurrence.under place)).or
        (Event.latestStart? first) := by
    rw [Event.latestStart?_append, Event.latestStart?_map_under]
  cases after with
  | kept nothing =>
      rw [nothing] at latest
      exact before.of_latestStart?_eq latest
  | within known isDefinition around called =>
      rw [known] at latest
      exact .within latest isDefinition
        (List.cons_prefix_cons.mpr ⟨rfl, around⟩) called
  | past known outside =>
      rw [known] at latest
      refine .past latest ?_
      rintro ⟨isDefinition, around⟩
      exact outside ⟨isDefinition, (List.cons_prefix_cons.mp around).2⟩

theorem macroAt_entering (node : Node) (path : List Nat) (scope : Scope) :
    MacroAt scope.inMacro [node.entering] path
      (scope.step config home node.entering).inMacro := by
  have latest : node.kind.isStart = true →
      Event.latestStart? [node.entering] = some ⟨[], node⟩ := by
    intro isStart
    simp [Event.latestStart?, Event.latest?, isStart]
  rcases node.kind.start_cases with isOther | isDefinition | isTemplate
  · have entered : scope.step config home node.entering = _ :=
      Scope.step_entering_other isOther scope
    rw [entered]
    apply MacroAt.kept
    apply Event.latestStart?_eq_none.mpr
    intro occurrence member
    obtain rfl := List.mem_singleton.mp member
    exact isOther
  · obtain ⟨title, called, entered⟩ :=
      Scope.step_entering_definition config home isDefinition scope
    rw [entered]
    exact .within (latest (by rw [isDefinition]; rfl)) isDefinition
      List.nil_prefix called
  · obtain ⟨template, entered⟩ :=
      Scope.step_entering_template config home isTemplate scope
    rw [entered]
    apply MacroAt.past (latest (by rw [isTemplate]; rfl))
    rintro ⟨isDefinition, _⟩
    rw [isTemplate] at isDefinition
    cases isDefinition

variable (config home) in
/-- The walk has entered a node and completed some of its children, none of
which is on the way to the path. -/
theorem macroAt_siblings (node : Node) {before : List Node} {path : List Nat}
    (aside : ∀ occurrence ∈ Event.entered (Node.eventsOf 0 before),
      ¬occurrence.path <+: path)
    (scope : Scope) :
    MacroAt scope.inMacro (node.entering :: Node.eventsOf 0 before) path
      (scope.along config home
        (node.entering :: Node.eventsOf 0 before)).inMacro := by
  have latest : Event.latestStart? (node.entering :: Node.eventsOf 0 before) =
      (Event.latestStart? (Node.eventsOf 0 before)).or
        (Event.latestStart? [node.entering]) :=
    Event.latestStart?_append [node.entering] _
  rw [Scope.along_cons]
  cases known : Event.latestStart? (Node.eventsOf 0 before) with
  | some start =>
      rw [known] at latest
      obtain ⟨earlier, later, split, _⟩ := Event.latestStart?_eq_some known
      have outside : ((scope.step config home node.entering).along config home
          (Node.eventsOf 0 before)).inMacro = none := by
        apply Classical.byContradiction
        intro inside
        have quiet := (Scope.quiet_of_along_inMacro inside).2
        rw [Event.latestStart?_eq_none.mpr
          (Node.forall_entered_eventsOf_iff.mpr quiet)] at known
        cases known
      rw [outside]
      -- A macro among the completed children is over, wherever the walk goes
      -- on.
      refine .past latest ?_
      rintro ⟨_, around⟩
      exact aside start (by rw [split]; simp) around
  | none =>
      rw [known] at latest
      have quiet := Node.forall_entered_eventsOf_iff.mp
        (Event.latestStart?_eq_none.mp known)
      obtain ⟨guarded, passed⟩ := Scope.along_siblings_quiet config home quiet
        (scope.step config home node.entering) 0
      rw [passed]
      exact (macroAt_entering node path scope).of_latestStart?_eq latest

/-- The macro at every moment of a walk. -/
theorem macroAt_of_stage {node : Node} {history : List Event} {current : Event}
    (stage : Stage node history current) (scope : Scope) :
    MacroAt scope.inMacro history current.path
      (scope.along config home history).inMacro := by
  induction stage generalizing scope with
  | entering node => exact .kept rfl
  | @inside node child before after history current _ _ induction =>
      have aside : ∀ occurrence ∈ Event.entered (Node.eventsOf 0 before),
          ¬occurrence.path <+: before.length :: current.path := by
        intro occurrence member around
        obtain ⟨place, path, _, bound, equal⟩ :=
          Node.path_of_mem_entered_eventsOf member
        rw [equal] at around
        have samePlace := (List.cons_prefix_cons.mp around).1
        omega
      have passed := macroAt_siblings config home node aside scope
      have below := passed.below (induction _)
      rw [← Scope.along_map_under _ before.length,
        ← Scope.along_append] at below
      exact below
  | leaving node =>
      apply macroAt_siblings
      intro occurrence member around
      obtain ⟨place, path, _, _, equal⟩ :=
        Node.path_of_mem_entered_eventsOf member
      rw [equal] at around
      cases List.prefix_nil.mp around

end Stages

/-! ## The macro around an occurrence -/

/-- The innermost macro around an occurrence in the tree. -/
structure Innermost (root : Node) (start occurrence : Occurrence) : Prop where
  member : start ∈ root.occurrences
  isDefinition : start.node.kind = .definition
  above : start.Above occurrence
  least : ∀ other ∈ root.occurrences, other.node.kind = .definition →
    other.Above occurrence → other.path <+: start.path

section Order

variable {root : Node} {history future : List Event}
  {occurrence start : Occurrence}

theorem occurrences_of_split
    (split : root.events = history ++ ⟨occurrence, .enter⟩ :: future) :
    root.occurrences =
      Event.entered history ++ occurrence :: Event.entered future := by
  rw [Node.occurrences, split, Event.entered_append]
  rfl

/-- Only what was entered earlier comes before an occurrence. -/
theorem mem_entered_of_path_lt {earlier later : List Occurrence}
    {other : Occurrence}
    (split : root.occurrences = earlier ++ occurrence :: later)
    (member : other ∈ root.occurrences)
    (before : other.path < occurrence.path) :
    other ∈ earlier := by
  have ordered := root.pairwise_occurrences
  rw [split] at member ordered
  obtain ⟨_, orderedFrom, _⟩ := List.pairwise_append.mp ordered
  rcases List.mem_append.mp member with inEarlier | fromHere
  · exact inEarlier
  · rcases List.mem_cons.mp fromHere with rfl | inLater
    · exact absurd before (List.lt_irrefl _)
    · exact absurd before
        (List.lt_asymm ((List.pairwise_cons.mp orderedFrom).1 other inLater))

theorem path_lt_of_mem_entered
    (split : root.events = history ++ ⟨occurrence, .enter⟩ :: future)
    (member : start ∈ Event.entered history) :
    start.path < occurrence.path := by
  have ordered := root.pairwise_occurrences
  rw [occurrences_of_split split] at ordered
  exact (List.pairwise_append.mp ordered).2.2 start member occurrence
    List.mem_cons_self

theorem mem_entered_of_latestStart? {events : List Event}
    (latest : Event.latestStart? events = some start) :
    start ∈ Event.entered events := by
  obtain ⟨earlier, later, enteredEq, _⟩ := Event.latestStart?_eq_some latest
  rw [enteredEq]
  exact List.mem_append_right _ List.mem_cons_self

/-- Between the macro or template that was entered last and the occurrence
that is entered next there is no other one. -/
theorem not_path_lt_of_latestStart?
    (split : root.events = history ++ ⟨occurrence, .enter⟩ :: future)
    (latest : Event.latestStart? history = some start)
    {other : Occurrence} (member : other ∈ root.occurrences)
    (isStart : other.node.kind.isStart = true)
    (before : other.path < occurrence.path) : ¬start.path < other.path := by
  obtain ⟨earlier, later, enteredEq, noStart⟩ :=
    Event.latestStart?_eq_some latest
  have inHistory :=
    mem_entered_of_path_lt (occurrences_of_split split) member before
  have ordered := root.pairwise_occurrences
  rw [occurrences_of_split split, enteredEq] at ordered
  obtain ⟨_, _, orderedBefore⟩ :=
    List.pairwise_append.mp (List.pairwise_append.mp ordered).1
  intro after
  rw [enteredEq] at inHistory
  rcases List.mem_append.mp inHistory with inEarlier | fromStart
  · exact List.lt_asymm after
      (orderedBefore other inEarlier start List.mem_cons_self)
  · rcases List.mem_cons.mp fromStart with rfl | inLater
    · exact List.lt_irrefl _ after
    · have contrary := noStart other inLater
      rw [isStart] at contrary
      cases contrary

theorem above_of_latestStart?
    (split : root.events = history ++ ⟨occurrence, .enter⟩ :: future)
    (latest : Event.latestStart? history = some start)
    (around : start.path <+: occurrence.path) : start.Above occurrence := by
  refine ⟨around, ?_⟩
  intro same
  have before :=
    path_lt_of_mem_entered split (mem_entered_of_latestStart? latest)
  rw [same] at before
  exact List.lt_irrefl _ before

/-- If the macro that was entered last is around the occurrence that is
entered next, it is the innermost one around it. -/
theorem innermost_of_latestStart?
    (split : root.events = history ++ ⟨occurrence, .enter⟩ :: future)
    (latest : Event.latestStart? history = some start)
    (isDefinition : start.node.kind = .definition)
    (around : start.path <+: occurrence.path) :
    Innermost root start occurrence := by
  have above := above_of_latestStart? split latest around
  refine ⟨?_, isDefinition, above, ?_⟩
  · rw [occurrences_of_split split]
    exact List.mem_append_left _ (mem_entered_of_latestStart? latest)
  · intro other member otherDefinition otherAbove
    -- Both paths lead to the occurrence, so one of them begins with the other.
    rcases List.prefix_or_prefix_of_prefix otherAbove.1 around with inside
      | outside
    · exact inside
    · by_cases same : start.path = other.path
      · exact ⟨[], by rw [List.append_nil, same]⟩
      · have isStart : other.node.kind.isStart = true := by
          rw [otherDefinition]
          rfl
        have between : start.Above other := ⟨outside, same⟩
        exact absurd between.path_lt
          (not_path_lt_of_latestStart? split latest member isStart
            otherAbove.path_lt)

end Order

section Findings

variable {config : Config} {home : String}

theorem Node.shape_of_reference {node : Node} {word : String}
    (reads : node.role config = .reference word) :
    node.shape = .name word "load" := by
  have isName := node.kind_of_role config
  rw [reads] at isName
  obtain ⟨name, usage, shape⟩ := shape_of_name isName
  by_cases read : isRead usage
  · obtain rfl : name = word := by
      simpa [role, shape, read] using reads
    rw [shape, beq_iff_eq.mp read]
  · simp [role, shape, read] at reads

/-- A finding is about a name that is read, in the macro and the template that
the scope remembers. -/
theorem Scope.found_eq_some {scope : Scope} {occurrence : Occurrence}
    {d : Diagnostic}
    (found : scope.found config home ⟨occurrence, .enter⟩ = some d) :
    occurrence.node.shape = .name d.missing "load" ∧
      d.line = occurrence.node.position.line ∧
      d.column = occurrence.node.position.column ∧
      d.template = scope.template ∧ scope.inMacro = some d.inMacro := by
  have atNode : (scope.enter home (occurrence.node.role config)).finding? config
      occurrence.node =
      some d := found
  cases role : occurrence.node.role config with
  | reference word =>
      rw [role, Scope.enter, Scope.finding?, role] at atNode
      cases inside : scope.inMacro with
      | none =>
          rw [inside] at atNode
          cases atNode
      | some title =>
          rw [inside] at atNode
          dsimp only at atNode
          split at atNode
          · cases atNode
          · obtain rfl := Option.some.inj atNode
            exact ⟨Node.shape_of_reference role, rfl, rfl, rfl, rfl⟩
  | _ =>
      rw [Scope.finding?_of_not_reference (by simp [role])] at atNode
      cases atNode

variable (config home) in
/-- The findings on the way are about some of the occurrences that are
entered, in the same order and at most one about each. -/
theorem Scope.findings_forall₂ (scope : Scope) (events : List Event) :
    ∃ reported, reported.Sublist (Event.entered events) ∧
      List.Forall₂
        (fun d occurrence => ∃ history future,
          events = history ++ ⟨occurrence, .enter⟩ :: future ∧
          (scope.along config home history).found config home
            ⟨occurrence, .enter⟩ = some d)
        (scope.findings config home events) reported := by
  induction events generalizing scope with
  | nil => exact ⟨[], List.Sublist.refl _, .nil⟩
  | cons event rest induction =>
      obtain ⟨reported, isSublist, later⟩ :=
        induction (scope.step config home event)
      have lifted : List.Forall₂
          (fun d occurrence => ∃ history future,
            event :: rest = history ++ ⟨occurrence, .enter⟩ :: future ∧
            (scope.along config home history).found config home
              ⟨occurrence, .enter⟩ = some d)
          ((scope.step config home event).findings config home rest)
          reported := by
        apply later.imp
        rintro d occurrence ⟨history, future, rfl, found⟩
        exact ⟨event :: history, future, rfl, found⟩
      obtain ⟨occurrence, hook⟩ := event
      rw [Scope.findings]
      cases hook with
      | leave => exact ⟨reported, isSublist, lifted⟩
      | enter =>
          cases found : scope.found config home ⟨occurrence, .enter⟩ with
          | none => exact ⟨reported, isSublist.cons occurrence, lifted⟩
          | some d =>
              exact ⟨occurrence :: reported, isSublist.cons_cons occurrence,
                .cons ⟨[], rest, rfl, found⟩ lifted⟩

end Findings

/-- A macro that is around an occurrence, with neither a macro nor a template
entered after it. -/
structure Current (history : List Event) (start occurrence : Occurrence) :
    Prop where
  latest : Event.latestStart? history = some start
  isDefinition : start.node.kind = .definition
  above : start.Above occurrence

/-- A finding about an occurrence of a tree: a name that is read there, in the
innermost macro around it, before which this macro holds neither another macro
nor a template. -/
structure Reports (root : Node) (d : Diagnostic) (occurrence : Occurrence) :
    Prop where
  reads : occurrence.node.shape = .name d.missing "load"
  line : d.line = occurrence.node.position.line
  column : d.column = occurrence.node.position.column
  inMacro : ∃ start, Innermost root start occurrence ∧
    start.node.shape.called? = some (some d.inMacro) ∧
    ∀ other, [other, occurrence].Sublist root.occurrences →
      other.node.kind.isStart = true →
      ¬start.Above other

section Walk

variable {config : Config} {home template : String} {root : Node}
  {history future : List Event} {occurrence : Occurrence}

/-- When a walk from the start comes to an occurrence, the scope remembers the
current macro. -/
theorem inMacro_eq_some_iff
    (split : root.events = history ++ ⟨occurrence, .enter⟩ :: future)
    {title : String} :
    ((Scope.fresh template).along config home history).inMacro = some title ↔
      ∃ start, Current history start occurrence ∧
        start.node.shape.called? = some (some title) := by
  have known : MacroAt none history occurrence.path
      ((Scope.fresh template).along config home history).inMacro :=
    macroAt_of_stage (Stage.of_split split) (Scope.fresh template)
  generalize ((Scope.fresh template).along config home history).inMacro =
    remembered at known ⊢
  constructor
  · rintro rfl
    cases known with
    | within latest isDefinition around called =>
        exact ⟨_, ⟨latest, isDefinition,
          above_of_latestStart? split latest around⟩, called⟩
  · rintro ⟨start, current, called⟩
    cases known with
    | kept nothing =>
        rw [current.latest] at nothing
        cases nothing
    | within latest _ _ calledHere =>
        rw [current.latest] at latest
        obtain rfl := Option.some.inj latest
        rw [called] at calledHere
        rw [Option.some.inj (Option.some.inj calledHere)]
    | past latest outside =>
        rw [current.latest] at latest
        obtain rfl := Option.some.inj latest
        exact absurd ⟨current.isDefinition, current.above.1⟩ outside

theorem reports_of_found
    (split : root.events = history ++ ⟨occurrence, .enter⟩ :: future)
    {d : Diagnostic}
    (found : ((Scope.fresh template).along config home history).found
        config home
      ⟨occurrence, .enter⟩ = some d) : Reports root d occurrence := by
  obtain ⟨reads, line, column, _, inside⟩ := Scope.found_eq_some found
  obtain ⟨start, current, called⟩ := (inMacro_eq_some_iff split).mp inside
  refine ⟨reads, line, column, start, ?_, called, ?_⟩
  · exact innermost_of_latestStart? split current.latest current.isDefinition
      current.above.1
  · intro other entered isStart above
    have member := entered.subset List.mem_cons_self
    have before :=
      (List.pairwise_pair.mp (root.pairwise_occurrences.sublist entered))
    exact not_path_lt_of_latestStart? split current.latest member isStart before
      above.path_lt

end Walk

namespace Checker

theorem findings_pass {checker : Checker} (collects : checker.Collects)
    (root : Node) :
    ∃ past, past <+: root.events ∧
      (checker.visitor.pass root).journal.findings =
        checker.start.findings checker.config checker.home past := by
  obtain ⟨past, begins, calls⟩ :=
    checker.visitor_keeps.calls_passFrom checker.start root
  refine ⟨past, begins, ?_⟩
  have made : (checker.visitor.pass root).calls =
      checker.visitor.callbacks checker.start past :=
    calls
  rw [Passage.findings_journal, made]
  exact findings_callbacks collects _ past

/-- What holds of each finding where it is made holds of all findings of a walk:
they are about some occurrences of the tree, in order and at most one about
each. -/
theorem forall₂_findings {checker : Checker} (collects : checker.Collects)
    (root : Node) {Holds : Diagnostic → Occurrence → Prop}
    (holds : ∀ (history future : List Event) (occurrence : Occurrence)
        (d : Diagnostic),
      root.events = history ++ ⟨occurrence, .enter⟩ :: future →
      (checker.start.along checker.config checker.home history).found
        checker.config checker.home
        ⟨occurrence, .enter⟩ = some d → Holds d occurrence) :
    ∃ reported, reported.Sublist root.occurrences ∧
      List.Forall₂ Holds (traverse [checker.visitor] root).journal.findings
        reported := by
  obtain ⟨past, ⟨unseen, eventsEq⟩, found⟩ := findings_pass collects root
  obtain ⟨reported, isSublist, each⟩ :=
    Scope.findings_forall₂ checker.config checker.home checker.start past
  rw [findings_traverse_single, found]
  refine ⟨reported, ?_, ?_⟩
  · rw [Node.occurrences, ← eventsEq, Event.entered_append]
    exact isSublist.trans (List.sublist_append_left _ _)
  · apply each.imp
    rintro d occurrence ⟨history, future, pastEq, foundHere⟩
    have split : root.events =
        history ++ ⟨occurrence, .enter⟩ :: (future ++ unseen) := by
      rw [← eventsEq, pastEq, List.append_assoc, List.cons_append]
    exact holds history _ occurrence d split foundHere

theorem reports_findings {checker : Checker} (collects : checker.Collects)
    (root : Node) :
    ∃ reported, reported.Sublist root.occurrences ∧
      List.Forall₂ (Reports root)
        (traverse [checker.visitor] root).journal.findings reported := by
  apply forall₂_findings collects root
  intro history future occurrence d split found
  exact reports_of_found split found

/-- A name that is entered changes nothing, so that the checker stays in the
macro in which it was. -/
theorem inMacro_callback_eq_some_iff (checker : Checker) {root : Node}
    {history future : List Event} {occurrence : Occurrence}
    {callback : Callback Scope}
    (split : root.events = history ++ ⟨occurrence, .enter⟩ :: future)
    (isName : occurrence.node.kind = .name)
    (made : (checker.visitor.pass root).calls[history.length]? = some callback)
    {title : String} :
    callback.reaction.state.inMacro = some title ↔
      ∃ start, Current history start occurrence ∧
        start.node.shape.called? = some (some title) := by
  have isOther : occurrence.node.kind.isStart = false := by
    rw [isName]
    rfl
  let before := checker.start.along checker.config checker.home history
  have entered :
      before.along checker.config checker.home [⟨occurrence, .enter⟩] = _ :=
    Scope.step_entering_other isOther before
  rw [checker.state_callback split made, Scope.along_append, entered]
  exact inMacro_eq_some_iff split

/-- Whenever the checker comes to a name, it is inside a macro exactly if the
macro or template entered last is a macro around that name, and then inside
this one.  So each of its findings is about another name that is read, in the
order of the walk, and names the innermost macro around it. -/
theorem inMacro_iff_current (config : Config) (title : Option String)
    (sink : Option Sink) (root : Node) :
    let checker : Checker := { config, title, report := Reporter.through sink }
    (∀ (history future : List Event) (occurrence : Occurrence)
        (callback : Callback Scope),
      root.events = history ++ ⟨occurrence, .enter⟩ :: future →
      occurrence.node.kind = .name →
      (checker.visitor.pass root).calls[history.length]? = some callback →
      callback.hook = .enter ∧ callback.node = occurrence.node ∧
        (callback.reaction.state.inMacro ≠ none ↔
          ∃ start, Current history start occurrence) ∧
        ∀ start, Current history start occurrence →
          start.node.shape.called? = some callback.reaction.state.inMacro) ∧
    ∃ reported, reported.Sublist root.occurrences ∧
      List.Forall₂ (Reports root)
        (traverse [checker.visitor] root).journal.findings reported := by
  intro checker
  refine ⟨?_, reports_findings (collects_through config title sink) root⟩
  intro history future occurrence callback split isName made
  have inside : ∀ {title : String},
      callback.reaction.state.inMacro = some title ↔ _ :=
    checker.inMacro_callback_eq_some_iff split isName made
  have named : ∀ start, Current history start occurrence →
      ∃ title, callback.reaction.state.inMacro = some title ∧
        start.node.shape.called? = some (some title) := by
    intro start current
    obtain ⟨title, called, _⟩ :=
      Scope.step_entering_definition config checker.home
      current.isDefinition checker.start
    exact ⟨title, inside.mpr ⟨start, current, called⟩, called⟩
  have answered := checker.visitor_keeps.callback_eq split made
  refine ⟨congrArg Callback.hook answered,
    congrArg Callback.node answered, ?_, ?_⟩
  · constructor
    · intro someMacro
      obtain ⟨title, remembered⟩ := Option.ne_none_iff_exists'.mp someMacro
      obtain ⟨start, current, _⟩ := inside.mp remembered
      exact ⟨start, current⟩
    · rintro ⟨start, current⟩
      obtain ⟨title, remembered, _⟩ := named start current
      rw [remembered]
      exact Option.some_ne_none title
  · intro start current
    obtain ⟨title, remembered, called⟩ := named start current
    rw [remembered, called]

/-- A macro with another one between the names that it reads. -/
def interrupted : Node :=
  ⟨0, ⟨1, 0⟩, .definition "outer" []
    [⟨1, ⟨2, 0⟩, .name "first" "load"⟩,
     ⟨2, ⟨3, 0⟩, .definition "inner" [] [⟨3, ⟨3, 4⟩, .name "second" "load"⟩] []
         none none⟩,
     ⟨4, ⟨4, 0⟩, .name "third" "load"⟩] [] none none⟩

theorem inMacro_interrupted :
    (∃ callback : Callback Scope,
      ((visitor {}).pass interrupted).calls[4]? = some callback ∧
      callback.reaction.state.inMacro = some "inner" ∧
      ∃ start, Current (interrupted.events.take 4) start
        ⟨[1, 0], ⟨3, ⟨3, 4⟩, .name "second" "load"⟩⟩) ∧
    (traverse [visitor {}] interrupted).journal.findings.map
        (fun d => (d.inMacro, d.missing)) =
      [("outer", "first"), ("inner", "second")] ∧
    ∃ reported, reported.Sublist interrupted.occurrences ∧
      List.Forall₂ (Reports interrupted)
        (traverse [visitor {}] interrupted).journal.findings reported := by
  obtain ⟨atName, reports⟩ := inMacro_iff_current {} none none interrupted
  refine ⟨?_, by decide +kernel, reports⟩
  have reached : (((visitor {}).pass interrupted).calls[4]?).map
      (fun callback : Callback Scope => callback.reaction.state.inMacro) =
        some (some "inner") := by
    decide +kernel
  obtain ⟨callback, made, remembered⟩ := Option.map_eq_some_iff.mp reached
  obtain ⟨_, _, insideIff, _⟩ :=
    atName (interrupted.events.take 4) (interrupted.events.drop 5)
    ⟨[1, 0], ⟨3, ⟨3, 4⟩, .name "second" "load"⟩⟩ callback rfl rfl made
  refine ⟨callback, made, remembered, insideIff.mp ?_⟩
  rw [remembered]
  exact Option.some_ne_none "inner"

end Checker

end ScopeLint
