import ScopeLint.Proofs.StrictRuns

/-!
# Sinks agree

A linter's sink may collect findings, write them to a log or issue them as
warnings.  All sinks are told the same findings in the same order, and a check
gives the same whichever it is, with one exception: if a filter turns the
warnings into errors, a check with findings fails with the first of them.
-/

namespace ScopeLint

/-! ## Filters -/

/-- The last filter that covers a class decides what becomes of its warnings; if
there is none, they are always issued. -/
inductive Decides : List WarningFilter → Category → Action → Prop where
  | last {before after : List WarningFilter} {filter : WarningFilter}
      {category : Category} (covers : filter.category ∈ category.ancestors)
      (latest : ∀ later ∈ after, later.category ∉ category.ancestors) :
      Decides (before ++ filter :: after) category filter.action
  | unfiltered {filters : List WarningFilter} {category : Category}
      (uncovered : ∀ filter ∈ filters, filter.category ∉ category.ancestors) :
      Decides filters category .always

theorem Decides.decideAction_eq {filters : List WarningFilter}
    {category : Category} {action : Action}
    (decides : Decides filters category action) :
    decideAction filters category = action := by
  have passedOver : ∀ {others : List WarningFilter},
      (∀ other ∈ others, other.category ∉ category.ancestors) →
      others.reverse.find?
        (fun other => category.within other.category) = none := by
    intro others uncovered
    rw [List.find?_eq_none]
    intro other member
    simpa [Category.within] using uncovered other (List.mem_reverse.mp member)
  cases decides with
  | @last before after filter _ covers latest =>
      have within : category.within filter.category = true :=
        decide_eq_true covers
      rw [decideAction, List.reverse_append, List.reverse_cons,
        List.append_assoc, List.find?_append, passedOver latest,
        List.singleton_append, List.find?_cons, within]
      rfl
  | unfiltered uncovered => rw [decideAction, passedOver uncovered]

theorem decides_iff {filters : List WarningFilter} {category : Category}
    {action : Action} :
    Decides filters category action ↔
      decideAction filters category = action := by
  constructor
  · exact Decides.decideAction_eq
  · rintro rfl
    rw [decideAction]
    cases found : filters.reverse.find? fun filter =>
      category.within filter.category with
    | none =>
        rw [List.find?_eq_none] at found
        apply Decides.unfiltered
        intro filter member covers
        exact found filter (List.mem_reverse.mpr member) (decide_eq_true covers)
    | some filter =>
        obtain ⟨within, after, before, split, latest⟩ :=
          List.find?_eq_some_iff_append.mp found
        have filtersEq :
            filters = before.reverse ++ filter :: after.reverse := by
          rw [← List.reverse_reverse filters, split]
          simp
        rw [filtersEq]
        apply Decides.last (of_decide_eq_true within)
        intro later member covers
        have outside := latest later (List.mem_reverse.mp member)
        rw [Category.within, decide_eq_true covers] at outside
        cases outside

/-! ## Failures of walks -/

namespace Checker

theorem outcome_ne_lint {config : Config} {scope : Scope} {event : Event}
    (error : LintError) :
    outcome config scope event ≠ .error (.lint error) := by
  intro fails
  rw [outcome] at fails
  cases hook : event.hook with
  | enter =>
      cases role : event.node.role config with
      | definition title inputs =>
          cases inputs <;> simp [hook, role, Role.fault?] at fails
      | _ => simp [hook, role, Role.fault?] at fails
  | leave =>
      cases role : event.node.role config with
      | block names =>
          cases closed : scope.closeBlock? <;>
            simp [hook, role, Scope.leave, closed] at fails
      | _ => simp [hook, role, Scope.leave] at fails

theorem course_ne_lint {checker : Checker}
    (accepts : ∀ d, (checker.report d).refusal = none) (scope : Scope)
    (events : List Event) (error : LintError) :
    (checker.course scope events).result ≠ .error (.lint error) := by
  induction events generalizing scope with
  | nil =>
      intro fails
      cases fails
  | cons event rest induction =>
      have met : (checker.meet scope event).result =
          outcome checker.config scope event :=
        result_call accepts scope event
      rw [course_cons]
      cases done : (checker.meet scope event).result with
      | error failure =>
          rw [Passage.andThen_of_error done]
          rintro ⟨⟩
          exact outcome_ne_lint error (met.symm.trans done)
      | ok answer =>
          rw [Passage.andThen_of_ok done]
          exact induction _

/-- A walk in which no finding is refused never fails with an error of the
linter itself. -/
theorem traverse_ne_lint {checker : Checker}
    (accepts : ∀ d, (checker.report d).refusal = none) (root : Node)
    (error : LintError) :
    (traverse [checker.visitor] root).result ≠ .error (.lint error) := by
  rw [traverse_eq_course]
  intro fails
  cases done : (checker.course checker.start root.events).result with
  | error failure =>
      simp only [done, Except.map] at fails
      cases fails
      exact course_ne_lint accepts _ _ error done
  | ok _ =>
      simp only [done, Except.map] at fails
      cases fails

end Checker

namespace Linter

/-- A linter with the usual visitors that reports to a sink. -/
def reporting (config : Config) (sink : Sink) : Linter :=
  { config, sink := some sink }

/-- Checks made one after the other, whether or not they fail. -/
def steps (linter : Linter) (requests : List Request) :
    List (Checked (List Diagnostic)) :=
  requests.map fun request => linter.check request.root request.name

section Single

variable (config : Config) {request : Request}
  (isTemplate : request.root.kind = .template)
include isTemplate

theorem check_reporting (sink : Sink) :
    (reporting config sink).check request.root request.name =
      (reporting config sink).checkWith
        [Checker.visitor
          { config, title := request.title,
            report := Reporter.through (some sink) }]
        request.title request.root :=
  check_eq_checkWith (Request.titleOf_eq isTemplate)

/-- A sink that refuses nothing does not change what a check gives, and what it
leaves in a channel is what it makes of the findings. -/
theorem check_of_accepts {sink : Sink}
    (accepts : ∀ d, (sink.emit d).refusal = none) :
    ((reporting config sink).check request.root request.name).result =
        (check { config } request.root request.name).result ∧
      ∀ {α : Type} (channel : Journal.Channel α),
        channel.read
            ((reporting config sink).check request.root request.name).journal =
          (request.traversal config).journal.findings.flatMap fun d =>
            channel.read (Reporter.through (some sink) d).journal := by
  have acceptsToo : ∀ d, (Reporter.through (some sink) d).refusal = none :=
    accepts
  obtain ⟨sameResult, told⟩ :=
    @Checker.traverse_of_accepts config request.title _ acceptsToo request.root
  have alone : check { config } request.root request.name = _ :=
    check_eq_checkWith (Request.titleOf_eq isTemplate)
  have collects := Checker.collects_through config request.title (some sink)
  have sameFindings : _ = (request.traversal config).journal.findings :=
    (told Journal.Channel.findings).trans
      ((List.flatMap_congr fun d _ => collects d).trans
        (List.flatMap_singleton' _))
  rw [check_reporting config isTemplate, alone]
  constructor
  · exact result_checkWith_congr rfl sameResult sameFindings
  · intro α channel
    rw [read_checkWith]
    exact told channel

theorem forwarded_check_collector :
    ((reporting config .collector).check
        request.root request.name).journal.forwarded =
      (request.traversal config).journal.findings :=
  forwarded_check_collecting config config.strict isTemplate

/-- Where nothing is found, a check is the same with every sink. -/
theorem check_of_nothing (sink other : Sink)
    (nothing : (request.traversal config).journal.findings = []) :
    (reporting config sink).check request.root request.name =
      (reporting config other).check request.root request.name := by
  rw [check_reporting config isTemplate, check_reporting config isTemplate]
  apply checkWith_congr
  · rfl
  · exact (Checker.traverse_of_nothing nothing).trans
      (Checker.traverse_of_nothing nothing).symm

theorem result_check_of_nothing (sink : Sink)
    (nothing : (request.traversal config).journal.findings = [])
    (error : LintError) :
    ((reporting config sink).check request.root request.name).result ≠
      .error (.lint error) := by
  have accepts : ∀ d, (Reporter.collect d).refusal = none := fun _ => rfl
  have walk :
      traverse
          [Checker.visitor
            { config, title := request.title,
              report := Reporter.through (some sink) }]
          request.root =
        request.traversal config :=
    Checker.traverse_of_nothing nothing
  rw [check_reporting config isTemplate]
  intro fails
  cases done : (request.traversal config).result with
  | error failure =>
      rw [result_checkWith_of_error _ _ _ _
        ((congrArg Traversal.result walk).trans done)] at fails
      cases fails
      exact Checker.traverse_ne_lint accepts request.root error done
  | ok given =>
      rw [result_checkWith_of_ok _ _ _ _
        ((congrArg Traversal.result walk).trans done), result_conclude, walk,
        if_pos nothing] at fails
      cases fails

/-- A sink that refuses every finding ends the check with the first one. -/
theorem check_of_refusal {sink : Sink} {refusal : Diagnostic → Failure}
    (refuses : ∀ d, (sink.emit d).refusal = some (refusal d))
    {first : Diagnostic} {later : List Diagnostic}
    (findings : (request.traversal config).journal.findings = first :: later) :
    ((reporting config sink).check request.root request.name).result =
      .error (refusal first) ∧
      ∀ {α : Type} (channel : Journal.Channel α),
        channel.read
            ((reporting config sink).check request.root request.name).journal =
          channel.read (Reporter.through (some sink) first).journal := by
  have refusesToo : ∀ d,
      (Reporter.through (some sink) d).refusal = some (refusal d) := refuses
  obtain ⟨ended, told⟩ := Checker.traverse_of_refusal refusesToo findings
  rw [check_reporting config isTemplate]
  refine ⟨result_checkWith_of_error _ _ _ _ ended, ?_⟩
  intro α channel
  rw [read_checkWith]
  exact told channel

end Single

/-- How a check whose findings are collected compares with one whose findings
are turned into errors of a class. -/
structure Escalates (category : Category)
    (told raised : Checked (List Diagnostic)) : Prop where
  /-- A check without findings is not affected. -/
  spared : told.journal.forwarded = [] → raised = told
  /-- The first finding is the error, and there is no second. -/
  ended : ∀ first later, told.journal.forwarded = first :: later →
    raised.result = .error (.escalated category first.summary) ∧
    raised.journal.findings = [first]
  /-- The error is never the one of a strict linter. -/
  notStrict : ∀ diagnostics title,
    raised.result ≠ .error (.lint (.findings diagnostics title))
  /-- No warning is issued. -/
  silent : raised.journal.warnings = []

theorem emit_logging (logger : String) (d : Diagnostic) :
    (Sink.logging logger).emit d =
      { journal := { records := [⟨.warning, logger, d.summary⟩] } } := by
  rw [Sink.emit, d.logLine_eq_summary]

theorem alerts_logging (logger : String) (d : Diagnostic) :
    Journal.Channel.alerts.read
        (Reporter.through (some (.logging logger)) d).journal =
      [⟨.warning, logger, d.summary⟩] := by
  have own : Journal.Channel.alerts.read
        (Reporter.through (some (.logging logger)) d).journal =
      Journal.Channel.alerts.read ((Sink.logging logger).emit d).journal := rfl
  rw [own, emit_logging]
  rfl

section Warnings

variable {category : Category} {filters : List WarningFilter}

theorem emit_always (decided : decideAction filters category = .always)
    (d : Diagnostic) :
    (Sink.warnings category filters).emit d =
      { journal := { warnings := [⟨category, d.summary⟩] } } := by
  rw [Sink.emit, decided]

theorem emit_ignore (decided : decideAction filters category = .ignore)
    (d : Diagnostic) :
    (Sink.warnings category filters).emit d = {} := by
  rw [Sink.emit, decided]

theorem emit_error (decided : decideAction filters category = .error)
    (d : Diagnostic) :
    (Sink.warnings category filters).emit d =
      { refusal := some (.escalated category d.summary) } := by
  rw [Sink.emit, decided]

theorem warnings_through (sink : Sink) (d : Diagnostic) :
    (Reporter.through (some sink) d).journal.warnings =
      (sink.emit d).journal.warnings := rfl

theorem check_escalates (config : Config) {request : Request}
    (isTemplate : request.root.kind = .template)
    (decided : decideAction filters category = .error) :
    Escalates category
      ((reporting config .collector).check request.root request.name)
      ((reporting config (.warnings category filters)).check
        request.root request.name) := by
  let sink : Sink := .warnings category filters
  have refuses : ∀ d,
      (sink.emit d).refusal = some (.escalated category d.summary) := by
    intro d
    rw [emit_error decided]
  have collects := Checker.collects_through config request.title (some sink)
  have forwarded := forwarded_check_collector config isTemplate
  cases findings : (request.traversal config).journal.findings with
  | nil =>
      have same := check_of_nothing config isTemplate sink .collector findings
      have accepts : ∀ d, (Sink.collector.emit d).refusal = none := fun _ => rfl
      have quiet :=
        (check_of_accepts config isTemplate accepts).2 Journal.Channel.warnings
      rw [findings] at forwarded quiet
      refine ⟨fun _ => same, ?_, ?_, ?_⟩
      · intro first later found
        rw [forwarded] at found
        cases found
      · intro diagnostics title
        exact result_check_of_nothing config isTemplate sink findings _
      · rw [same]
        exact quiet
  | cons first later =>
      obtain ⟨ended, told⟩ :=
        check_of_refusal config isTemplate refuses findings
      rw [findings] at forwarded
      refine ⟨?_, ?_, ?_, ?_⟩
      · intro nothing
        rw [forwarded] at nothing
        cases nothing
      · intro head others found
        rw [forwarded] at found
        cases found
        exact ⟨ended, (told Journal.Channel.findings).trans (collects first)⟩
      · intro diagnostics title fails
        rw [ended] at fails
        cases fails
      · have issued := told Journal.Channel.warnings
        have nothing :
            (Reporter.through (some sink) first).journal.warnings = [] := by
          rw [warnings_through, emit_error decided]
          rfl
        exact issued.trans nothing

end Warnings

/-- What an action makes of the warnings of several checks: they are issued for
all findings, or for none, or the first finding of each check is its error. -/
def Treats (category : Category)
    (told warned : List (Checked (List Diagnostic))) : Action → Prop
  | .always =>
    (warned.flatMap (·.journal.warnings) =
      (told.flatMap (·.journal.forwarded)).map fun d => ⟨category, d.summary⟩) ∧
    warned.map (·.result) = told.map (·.result)
  | .ignore =>
    warned.flatMap (·.journal.warnings) = [] ∧
    warned.map (·.result) = told.map (·.result)
  | .error =>
    warned.flatMap (·.journal.warnings) = [] ∧
    List.Forall₂ (Escalates category) told warned

section Sessions

variable (config : Config) {requests : List Request}
  (templates : ∀ request ∈ requests, request.root.kind = .template)
include templates

theorem results_steps {sink : Sink}
    (accepts : ∀ d, (sink.emit d).refusal = none) :
    ((reporting config sink).steps requests).map (·.result) =
      ((reporting config .collector).steps requests).map (·.result) := by
  rw [steps, steps, List.map_map, List.map_map]
  apply List.map_congr_left
  intro request member
  have isTemplate := templates request member
  have collected : ∀ d, (Sink.collector.emit d).refusal = none := fun _ => rfl
  exact (check_of_accepts config isTemplate accepts).1.trans
    (check_of_accepts config isTemplate collected).1.symm

/-- What a sink leaves in a channel during a session is what it makes of the
findings that a collector would be told. -/
theorem read_steps {α : Type} {sink : Sink}
    (accepts : ∀ d, (sink.emit d).refusal = none)
    (channel : Journal.Channel α) :
    (((reporting config sink).steps requests).flatMap fun step =>
        channel.read step.journal) =
      (((reporting config .collector).steps requests).flatMap
        (·.journal.forwarded)).flatMap fun d =>
          channel.read (Reporter.through (some sink) d).journal := by
  rw [steps, steps, List.flatMap_map, List.flatMap_map, List.flatMap_assoc]
  apply List.flatMap_congr
  intro request member
  have isTemplate := templates request member
  rw [forwarded_check_collector config isTemplate]
  exact (check_of_accepts config isTemplate accepts).2 channel

theorem treats_steps (category : Category) (filters : List WarningFilter) :
    Treats category ((reporting config .collector).steps requests)
      ((reporting config (.warnings category filters)).steps requests)
      (decideAction filters category) := by
  let sink : Sink := .warnings category filters
  cases decided : decideAction filters category with
  | always =>
      have accepts : ∀ d, (sink.emit d).refusal = none := by
        intro d
        rw [emit_always decided]
      have issued : ∀ d, (Reporter.through (some sink) d).journal.warnings =
          [⟨category, d.summary⟩] := by
        intro d
        rw [warnings_through, emit_always decided]
      refine ⟨?_, results_steps config templates accepts⟩
      apply (read_steps config templates accepts Journal.Channel.warnings).trans
      rw [List.map_eq_flatMap]
      exact List.flatMap_congr fun d _ => issued d
  | ignore =>
      have accepts : ∀ d, (sink.emit d).refusal = none := by
        intro d
        rw [emit_ignore decided]
      have issued : ∀ d,
          (Reporter.through (some sink) d).journal.warnings = [] := by
        intro d
        rw [warnings_through, emit_ignore decided]
        rfl
      refine ⟨?_, results_steps config templates accepts⟩
      apply (read_steps config templates accepts Journal.Channel.warnings).trans
      rw [List.flatMap_eq_nil_iff]
      exact fun d _ => issued d
  | error =>
      have escalates : ∀ request ∈ requests,
          Escalates category
            ((reporting config .collector).check request.root request.name)
            ((reporting config sink).check request.root request.name) :=
        fun request member =>
          check_escalates config (templates request member) decided
      constructor
      · rw [steps, List.flatMap_map, List.flatMap_eq_nil_iff]
        exact fun request member => (escalates request member).silent
      · rw [steps, steps, List.forall₂_map_left_iff, List.forall₂_map_right_iff,
          List.forall₂_same]
        exact escalates

end Sessions

/-- All sinks are told the same.  A log holds every finding that a collector
would be told, in order and as a warning, and warnings are issued for the same
findings unless a filter ignores them.  Neither changes what a check gives.  A
filter that turns warnings into errors makes every check with findings fail with
its first finding, and no other check. -/
theorem steps_agree (config : Config) {requests : List Request}
    (templates : ∀ request ∈ requests, request.root.kind = .template) :
    let told := (reporting config .collector).steps requests
    (∀ logger,
      let logged := (reporting config (.logging logger)).steps requests
      (logged.flatMap fun step =>
          step.journal.records.filter (·.level = .warning)) =
        (told.flatMap (·.journal.forwarded)).map
          (fun d => ⟨.warning, logger, d.summary⟩) ∧
      logged.map (·.result) = told.map (·.result)) ∧
    ∀ category filters action, Decides filters category action →
      Treats category told
        ((reporting config (.warnings category filters)).steps requests)
        action := by
  intro told
  constructor
  · intro logger logged
    have accepts : ∀ d, ((Sink.logging logger).emit d).refusal = none :=
      fun _ => rfl
    refine ⟨?_, results_steps config templates accepts⟩
    apply (read_steps config templates accepts Journal.Channel.alerts).trans
    rw [List.map_eq_flatMap]
    exact List.flatMap_congr fun d _ => alerts_logging logger d
  · intro category filters action decides
    rw [← decides.decideAction_eq]
    exact treats_steps config templates category filters

/-- A class of a host's own, with two classes above it. -/
def hostCategory : Category :=
  .derived "TemplateWarning" .undeclaredVariable .deprecation

/-- The first two filters cover the host's class, and the third does not: its
class is below one of those above the host's. -/
def hostFilters : List WarningFilter :=
  [⟨.ignore, .any⟩, ⟨.error, .user⟩,
    ⟨.ignore, .derived "LegacyWarning" .deprecation .any⟩]

theorem steps_agree_host :
    let requests : List Request := [⟨Sample.template, none⟩, doomed, spotless]
    let told := (reporting { strict := true } .collector).steps requests
    let warned := (reporting { strict := true }
      (.warnings hostCategory hostFilters)).steps requests
    Decides hostFilters hostCategory .error ∧
    Treats hostCategory told warned .error ∧
    (told.flatMap (·.journal.forwarded)).map (·.missing) =
      ["titel", "item", "entries"] ∧
    (warned.map fun step => step.journal.findings.map (·.missing)) =
      [["titel"], ["entries"], []] := by
  intro requests told warned
  have templates : ∀ request ∈ requests, request.root.kind = .template := by
    decide +kernel
  have decides : Decides hostFilters hostCategory .error :=
    decides_iff.mpr (by decide)
  obtain ⟨_, treats⟩ := steps_agree { strict := true } templates
  exact ⟨decides, treats hostCategory hostFilters .error decides,
    by decide +kernel, by decide +kernel⟩

end Linter

end ScopeLint
