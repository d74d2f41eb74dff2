import ScopeLint.Journal

/-!
# Sinks

A sink takes findings: it keeps them, writes them to a log, or issues them as
warnings.  Filters decide what becomes of a warning; one that is turned into
an error refuses the finding and ends the walk that made it.
-/

namespace ScopeLint

/-- What becomes of a warning. -/
inductive Action where
  | always | ignore | error
  deriving DecidableEq, Repr

/-- A rule for all warnings of a class. -/
structure WarningFilter where
  action : Action
  category : Category
  deriving DecidableEq, Repr

/-- The last filter that covers a class decides; without one, warnings of the
class are always issued. -/
def decideAction (filters : List WarningFilter)
    (category : Category) : Action :=
  match filters.reverse.find?
    (fun filter => category.within filter.category) with
  | some filter => filter.action
  | none => .always

inductive Sink where
  | collector
  | logging (logger : String)
  | warnings (category : Category) (filters : List WarningFilter)
  deriving DecidableEq, Repr

/-- What handing over one finding leads to. -/
structure Emission where
  journal : Journal := ∅
  refusal : Option Failure := none
  deriving DecidableEq, Repr

/-- Anything that findings can be handed to. -/
abbrev Reporter := Diagnostic → Emission

/-- The logger of a logging sink that names none. -/
def Sink.defaultLogger : String := "macrolint.diagnostics"

/-- A format with its holes filled: every `%s` in it gives way to the next
value.  Values are taken as they are, also those with a `%s` in them. -/
def Text.fillIn : List Char → List String → List Char
  | '%' :: 's' :: rest, value :: values => value.toList ++ fillIn rest values
  | c :: rest, values => c :: fillIn rest values
  | [], _ => []

/-- What a logging sink writes for a finding. -/
def Diagnostic.logLine (d : Diagnostic) : String :=
  String.ofList
    (Text.fillIn "%s: %s %s".toList [d.location, d.code.text, d.message])

/-- The format of a logging sink is that of the finding on one line. -/
theorem Diagnostic.logLine_eq_summary (d : Diagnostic) :
    d.logLine = d.summary := by
  apply String.toList_inj.mp
  simp [logLine, summary, Text.fillIn]

def Sink.emit : Sink → Reporter
  | collector, d => { journal := { forwarded := [d] } }
  | logging logger, d =>
    { journal := { records := [⟨.warning, logger, d.logLine⟩] } }
  | warnings category filters, d =>
    match decideAction filters category with
    | .always => { journal := { warnings := [⟨category, d.summary⟩] } }
    | .ignore => {}
    | .error => { refusal := some (.escalated category d.summary) }

/-- What a collecting sink holds: findings in the order in which they came. -/
structure Collector where
  diagnostics : List Diagnostic := []
  deriving DecidableEq, Repr

namespace Collector

/-- Take in what a piece of work forwarded. -/
def receive (collector : Collector) (journal : Journal) : Collector :=
  ⟨collector.diagnostics ++ journal.forwarded⟩

def clear (_ : Collector) : Collector := {}

end Collector

namespace Reporter

/-- Keep every finding in the collector of the run itself. -/
def collect : Reporter := fun d => { journal := { findings := [d] } }

/-- Hand every finding to two reporters, one after the other.  What the first
refuses does not reach the second. -/
def both (first second : Reporter) : Reporter := fun d =>
  let early := first d
  match early.refusal with
  | some _ => early
  | none =>
    let late := second d
    ⟨early.journal ++ late.journal, late.refusal⟩

/-- Collect findings, and hand them to a sink too if there is one. -/
def through : Option Sink → Reporter
  | none => collect
  | some sink => both collect sink.emit

end Reporter

end ScopeLint
