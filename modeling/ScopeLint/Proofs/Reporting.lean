import ScopeLint.Proofs.Checks
import ScopeLint.Proofs.Lockstep

/-!
# Where findings go

A checker hands its findings to a reporter, and nothing else about a walk
depends on the reporter.  If it refuses no finding, the walk is that of a
checker which only collects, and the journal holds what the reporter makes of
each finding.  If it refuses them all, the walk ends with the first finding, and
is the same as without a reporter if there is none.
-/

namespace ScopeLint

/-- A part of the journal that can be read apart from the rest.  Debug records
do not show in it. -/
structure Journal.Channel (α : Type) where
  read : Journal → List α
  read_empty : read ∅ = []
  read_append : ∀ first second,
    read (first ++ second) = read first ++ read second
  read_debug : ∀ logger message, read (Journal.debug logger message) = []

namespace Journal.Channel

/-- What the collector of the run itself keeps. -/
def findings : Channel Diagnostic :=
  ⟨Journal.findings, rfl, findings_append, fun _ _ => rfl⟩

/-- What a collector of the host keeps. -/
def forwarded : Channel Diagnostic :=
  ⟨Journal.forwarded, rfl, forwarded_append, fun _ _ => rfl⟩

/-- The warnings that were issued. -/
def warnings : Channel Warning :=
  ⟨Journal.warnings, rfl, warnings_append, fun _ _ => rfl⟩

/-- What is logged as a warning. -/
def alerts : Channel Record where
  read journal := journal.records.filter (·.level = .warning)
  read_empty := rfl
  read_append _ _ := List.filter_append ..
  read_debug _ _ := rfl

end Journal.Channel

open Journal (Channel)

theorem Journal.concat_append (journals others : List Journal) :
    concat (journals ++ others) = concat journals ++ concat others := by
  induction journals with
  | nil => exact (empty_append _).symm
  | cons journal rest induction =>
      rw [List.cons_append]
      exact (congrArg (journal ++ ·) induction).trans (append_assoc ..).symm

theorem Passage.read_journal {State α β : Type} (channel : Channel β)
    (passage : Passage State α) :
    channel.read passage.journal =
      passage.calls.flatMap fun callback =>
        channel.read callback.reaction.journal :=
  passage.channel_journal channel.read_empty channel.read_append

theorem read_traverse_single {α : Type} (channel : Channel α)
    (visitor : Visitor) (root : Node) :
    channel.read (traverse [visitor] root).journal =
      channel.read (visitor.pass root).journal := by
  rw [journal_traverse_single, channel.read_append]
  exact congrArg (· ++ _) (channel.read_debug ..)

theorem Passage.journal_andThen_of_ok {State α β : Type}
    {first : Passage State α} {a : α} (done : first.result = .ok a)
    (next : State → α → Passage State β) :
    (first.andThen next).journal =
      first.journal ++ (next first.state a).journal := by
  rw [andThen_of_ok done, journal, List.map_append, Journal.concat_append]
  rfl

theorem Passage.journal_andThen_of_error {State α β : Type}
    {first : Passage State α} {failure : Failure}
    (failed : first.result = .error failure)
    (next : State → α → Passage State β) :
    (first.andThen next).journal = first.journal := by
  rw [andThen_of_error failed]
  rfl

namespace Checker

variable {config : Config} {title : Option String} {report : Reporter}

theorem read_announcement {α : Type} (channel : Channel α) (d : Diagnostic) :
    channel.read (announcement d) = [] :=
  channel.read_debug ..

/-- What a callback leaves in a channel comes from the reporter. -/
theorem read_react {α : Type} (channel : Channel α) (checker : Checker)
    (scope : Scope) (event : Event) :
    channel.read (checker.visitor.react event.hook scope event.node).journal =
      (scope.found checker.config checker.home event).toList.flatMap fun d =>
        channel.read (checker.report d).journal := by
  rw [journal_react]
  cases scope.found checker.config checker.home event with
  | none => exact channel.read_empty
  | some d => simp [channel.read_append, read_announcement]

/-! ## Reporters that refuse nothing -/

section Accepted

variable (accepts : ∀ d, (report d).refusal = none)
include accepts

theorem twins_of_accepts : Twins { config, title } { config, title, report } :=
  ⟨rfl, fun _ => rfl, fun _ => rfl, accepts⟩

/-- The walk comes to the same end as without the reporter, and what the
reporter leaves in a channel is what it makes of the findings. -/
theorem traverse_of_accepts (root : Node) :
    (traverse [visitor { config, title, report }] root).result =
        (traverse [visitor { config, title }] root).result ∧
      ∀ {α : Type} (channel : Channel α),
        channel.read
            (traverse [visitor { config, title, report }] root).journal =
          (traverse [visitor { config, title }] root).journal.findings.flatMap
            fun d => channel.read (report d).journal := by
  constructor
  · have aligned : Passage.Aligned (SameButFor fun _ _ => True) Eq
        ((visitor { config, title }).pass root)
        ((visitor { config, title, report }).pass root) :=
      (twins_of_accepts accepts).passFrom_aligned (fun _ _ => trivial) _ root
    rw [result_traverse_single, result_traverse_single]
    exact aligned.result.symm
  · intro α channel
    have aligned : Passage.Aligned (SameButFor fun journal other =>
        (journal.findings.flatMap fun d => channel.read (report d).journal) =
          channel.read other) Eq
        ((visitor { config, title }).pass root)
        ((visitor { config, title, report }).pass root) := by
      apply (twins_of_accepts accepts).passFrom_aligned
      intro scope event
      have collects : Collects { config, title } := fun _ => rfl
      rw [findings_react collects, read_react]
      rfl
    rw [read_traverse_single, findings_traverse_single,
      Passage.findings_journal, Passage.read_journal, List.flatMap_assoc]
    apply Eq.symm
    apply aligned.flatMap_calls
    intro callback other same
    exact same.journal

end Accepted

/-! ## Reporters that refuse everything -/

/-- The callback of a checker for an event. -/
def meet (checker : Checker) (scope : Scope) (event : Event) :
    Passage Scope (Option Node) :=
  checker.visitor.call event.hook scope event.node

/-- The callbacks of a checker for events, up to the first that fails. -/
def course (checker : Checker) (scope : Scope) (events : List Event) :
    Passage Scope Unit :=
  checker.visitor.lead scope events

theorem course_cons (checker : Checker) (scope : Scope) (event : Event)
    (rest : List Event) :
    checker.course scope (event :: rest) =
      (checker.meet scope event).andThen fun scope _ =>
        checker.course scope rest := rfl

theorem pass_eq_course (checker : Checker) (root : Node) :
    checker.visitor.pass root =
      ⟨(checker.course checker.start root.events).calls,
        (checker.course checker.start root.events).state,
        (checker.course checker.start root.events).result.map fun _ => root⟩ :=
  checker.visitor_keeps.passFrom_eq_mk checker.start root

theorem traverse_eq_course (checker : Checker) (root : Node) :
    traverse [checker.visitor] root =
      { calls := (checker.course checker.start root.events).calls.map
          fun callback =>
            ⟨checker.visitor.name, callback.hook, callback.node⟩
        journal := checker.visitor.announcement root ++
          (checker.course checker.start root.events).journal
        result := (checker.course checker.start root.events).result.map
          fun _ => root } := by
  rw [traverse_single, pass_eq_course]
  rfl

theorem read_traverse {α : Type} (channel : Channel α) (checker : Checker)
    (root : Node) :
    channel.read (traverse [checker.visitor] root).journal =
      channel.read (checker.course checker.start root.events).journal := by
  rw [read_traverse_single, pass_eq_course]
  rfl

theorem journal_meet (checker : Checker) (scope : Scope) (event : Event) :
    (checker.meet scope event).journal =
      (checker.visitor.react event.hook scope event.node).journal :=
  Journal.append_empty _

theorem findings_meet (scope : Scope) (event : Event) :
    (meet { config, title } scope event).journal.findings =
      (scope.found config (home { config, title }) event).toList := by
  have collects : Collects { config, title } := fun _ => rfl
  rw [journal_meet]
  exact findings_react collects scope event

theorem result_meet_of_found {checker : Checker} {scope : Scope} {event : Event}
    {d : Diagnostic}
    (found : scope.found checker.config checker.home event = some d) :
    (checker.meet scope event).result =
      match (checker.report d).refusal with
      | none => .ok none
      | some failure => .error failure := by
  obtain ⟨⟨path, node⟩, hook⟩ := event
  cases hook with
  | leave => cases found
  | enter =>
      have here : (scope.enter checker.home (node.role checker.config)).finding?
          checker.config node = some d := found
      have noFault : (node.role checker.config).fault? = none := by
        cases role : node.role checker.config with
        | reference name => rfl
        | _ =>
            rw [Scope.finding?_of_not_reference (by simp [role])] at here
            cases here
      cases refusal : (checker.report d).refusal <;>
        simp [meet, Visitor.call, Visitor.accept, visitor, enter, noFault,
          here, refusal]

/-- A callback that finds nothing is the same with every reporter. -/
theorem meet_of_nothing {scope : Scope} {event : Event}
    (nothing : scope.found config (home { config, title }) event = none) :
    meet { config, title, report } scope event =
      meet { config, title } scope event := by
  obtain ⟨⟨path, node⟩, hook⟩ := event
  cases hook with
  | leave => rfl
  | enter =>
      have here : (scope.enter (home { config, title })
          (node.role config)).finding? config node = none := nothing
      have reaction : enter { config, title, report } scope node =
          enter { config, title } scope node := by
        simp only [enter]
        cases (node.role config).fault? with
        | some failure => rfl
        | none =>
            simp only [home] at here ⊢
            simp only [here]
      simp only [meet, Visitor.call, visitor, reaction]
      rfl

section Course

variable {scope : Scope} {event : Event} {rest : List Event} {d : Diagnostic}

theorem findings_course_of_found
    (found : scope.found config (home { config, title }) event = some d) :
    ∃ later, (course { config, title } scope (event :: rest)).journal.findings =
      d :: later := by
  have accepted : (meet { config, title } scope event).result = .ok none :=
    result_meet_of_found found
  rw [course_cons, Passage.journal_andThen_of_ok accepted,
    Journal.findings_append, findings_meet, found]
  exact ⟨_, rfl⟩

theorem findings_course_of_nothing {answer : Option Node}
    (nothing : scope.found config (home { config, title }) event = none)
    (done : (meet { config, title } scope event).result = .ok answer) :
    (course { config, title } scope (event :: rest)).journal.findings =
      (course { config, title } (meet { config, title } scope event).state
        rest).journal.findings := by
  rw [course_cons, Passage.journal_andThen_of_ok done, Journal.findings_append,
    findings_meet, nothing]
  rfl

end Course

/-- Where nothing is found it does not matter who would be told. -/
theorem course_of_nothing {scope : Scope} {events : List Event}
    (nothing : (course { config, title } scope events).journal.findings = []) :
    course { config, title, report } scope events =
      course { config, title } scope events := by
  induction events generalizing scope with
  | nil => rfl
  | cons event rest induction =>
      cases found : scope.found config (home { config, title }) event with
      | some d =>
          obtain ⟨later, findings⟩ := findings_course_of_found found
          rw [findings] at nothing
          cases nothing
      | none =>
          rw [course_cons, course_cons, meet_of_nothing found]
          cases done : (meet { config, title } scope event).result with
          | error failure =>
              rw [Passage.andThen_of_error done, Passage.andThen_of_error done]
          | ok answer =>
              rw [findings_course_of_nothing found done] at nothing
              rw [Passage.andThen_of_ok done, Passage.andThen_of_ok done,
                induction nothing]

/-- A reporter that refuses every finding ends the walk with the first one. -/
theorem course_of_refusal {refusal : Diagnostic → Failure}
    (refuses : ∀ d, (report d).refusal = some (refusal d)) {scope : Scope}
    {events : List Event} {first : Diagnostic} {later : List Diagnostic}
    (findings : (course { config, title } scope events).journal.findings =
      first :: later) :
    (course { config, title, report } scope events).result =
      .error (refusal first) ∧
      ∀ {α : Type} (channel : Channel α),
        channel.read (course { config, title, report } scope events).journal =
          channel.read (report first).journal := by
  induction events generalizing scope with
  | nil => cases findings
  | cons event rest induction =>
      cases found : scope.found config (home { config, title }) event with
      | some d =>
          -- This is the first finding, and here the walk ends.
          obtain ⟨others, same⟩ := findings_course_of_found found
          obtain ⟨rfl, _⟩ := List.cons.inj (same.symm.trans findings)
          have here : Scope.found config (home { config, title, report }) scope
              event = some d := found
          have refused : (meet { config, title, report } scope event).result =
              .error (refusal d) := by
            rw [result_meet_of_found here, refuses]
          rw [course_cons, Passage.journal_andThen_of_error refused,
            Passage.andThen_of_error refused]
          refine ⟨rfl, fun channel => ?_⟩
          rw [journal_meet, read_react, here]
          simp
      | none =>
          cases done : (meet { config, title } scope event).result with
          | error failure =>
              -- A walk that fails here has found nothing yet.
              rw [course_cons, Passage.journal_andThen_of_error done,
                findings_meet, found] at findings
              cases findings
          | ok answer =>
              rw [findings_course_of_nothing found done] at findings
              obtain ⟨ended, told⟩ := induction findings
              rw [course_cons, meet_of_nothing found,
                Passage.journal_andThen_of_ok done, Passage.andThen_of_ok done]
              refine ⟨ended, fun channel => ?_⟩
              have here : Scope.found config (home { config, title }) scope
                  event = none := found
              rw [channel.read_append, told, journal_meet, read_react, here]
              rfl

/-- Where nothing is found, every reporter leads to the same walk. -/
theorem traverse_of_nothing {root : Node}
    (nothing : (traverse [visitor { config, title }] root).journal.findings =
      []) :
    traverse [visitor { config, title, report }] root =
      traverse [visitor { config, title }] root := by
  have quiet : (course { config, title } (start { config, title })
      root.events).journal.findings = [] :=
    (read_traverse Channel.findings _ root).symm.trans nothing
  have same :
      course { config, title, report } (start { config, title, report })
        root.events =
      course { config, title } (start { config, title }) root.events :=
    course_of_nothing quiet
  rw [traverse_eq_course, traverse_eq_course, same]
  rfl

theorem traverse_of_refusal {refusal : Diagnostic → Failure}
    (refuses : ∀ d, (report d).refusal = some (refusal d)) {root : Node}
    {first : Diagnostic} {later : List Diagnostic}
    (findings : (traverse [visitor { config, title }] root).journal.findings =
      first :: later) :
    (traverse [visitor { config, title, report }] root).result =
      .error (refusal first) ∧
      ∀ {α : Type} (channel : Channel α),
        channel.read
            (traverse [visitor { config, title, report }] root).journal =
          channel.read (report first).journal := by
  have found : (course { config, title } (start { config, title })
      root.events).journal.findings = first :: later :=
    (read_traverse Channel.findings _ root).symm.trans findings
  obtain ⟨ended, told⟩ := course_of_refusal refuses found
  constructor
  · rw [traverse_eq_course]
    exact congrArg (Except.map fun _ => root) ended
  · intro α channel
    rw [read_traverse]
    exact told channel

end Checker

namespace Linter

variable {linter other : Linter} {visitors others : List Visitor}
  {title : Option String} {root : Node}

/-- What a linter logs around a walk shows in no channel. -/
theorem read_checkWith {α : Type} (channel : Channel α) :
    channel.read (linter.checkWith visitors title root).journal =
      channel.read (traverse visitors root).journal := by
  have concluded : ∀ findings,
      channel.read (linter.conclude title findings).journal = [] := by
    intro findings
    cases findings with
    | nil => exact channel.read_empty
    | cons first later => exact channel.read_debug ..
  rw [checkWith]
  cases (traverse visitors root).result with
  | error failure => simp [channel.read_append, channel.read_debug]
  | ok given => simp [channel.read_append, channel.read_debug, concluded]

/-- What a check gives depends on the settings and on what the walk gives and
finds. -/
theorem result_checkWith_congr (sameConfig : linter.config = other.config)
    (sameResult : (traverse visitors root).result =
      (traverse others root).result)
    (sameFindings : (traverse visitors root).journal.findings =
      (traverse others root).journal.findings) :
    (linter.checkWith visitors title root).result =
      (other.checkWith others title root).result := by
  cases done : (traverse others root).result with
  | error failure =>
      rw [result_checkWith_of_error _ _ _ _ done,
        result_checkWith_of_error _ _ _ _ (sameResult.trans done)]
  | ok given =>
      rw [result_checkWith_of_ok _ _ _ _ done,
        result_checkWith_of_ok _ _ _ _ (sameResult.trans done), sameFindings,
        result_conclude, result_conclude, sameConfig]

theorem checkWith_congr (sameConfig : linter.config = other.config)
    (sameWalk : traverse visitors root = traverse others root) :
    linter.checkWith visitors title root =
      other.checkWith others title root := by
  rw [checkWith, checkWith, sameWalk]
  simp only [conclude, sameConfig]

end Linter

end ScopeLint
