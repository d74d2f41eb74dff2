import ScopeLint.Failure

/-!
# Journals

A journal is what a piece of work leaves behind besides its result: log
records, warnings, findings kept in collectors, and visits that visitors
noted.  Work only ever adds to it, so the journal of two pieces of work is the
journal of the first followed by that of the second.
-/

namespace ScopeLint

inductive Level where
  | debug | warning | error
  deriving DecidableEq, Repr

namespace Level

def all : List Level := [debug, warning, error]

def name : Level → String
  | debug => "DEBUG"
  | warning => "WARNING"
  | error => "ERROR"

def ofName? (name : String) : Option Level := all.find? (·.name == name)

def rank : Level → Nat
  | debug => 0
  | warning => 1
  | error => 2

end Level

structure Record where
  level : Level
  logger : String
  message : String
  deriving DecidableEq, Repr

/-- Loggers are named by paths of words with dots between them; a tree holds
its root and every logger below it. -/
def Record.inTree (root : String) (record : Record) : Bool :=
  record.logger == root ||
    (root.toList ++ ['.']).isPrefixOf record.logger.toList

/-- Whether a record shows to someone who listens from a level upwards to the
linter's own loggers and to those of its host. -/
def Record.heardFrom (level : Level) (record : Record) : Bool :=
  level.rank ≤ record.level.rank &&
    (record.inTree "macrolint" || record.inTree "host")

/-- A warning that was issued. -/
structure Warning where
  category : Category
  text : String
  deriving DecidableEq, Repr

/-- A callback that a visitor noted, by the node's label. -/
structure Visit where
  tag : String
  hook : Hook
  label : String
  deriving DecidableEq, Repr

structure Journal where
  records : List Record := []
  warnings : List Warning := []
  /-- Findings kept by the collector of the run itself. -/
  findings : List Diagnostic := []
  /-- Findings kept by a collector that the host provides. -/
  forwarded : List Diagnostic := []
  visits : List Visit := []
  deriving DecidableEq, Repr

namespace Journal

instance : EmptyCollection Journal := ⟨{}⟩

def append (first second : Journal) : Journal where
  records := first.records ++ second.records
  warnings := first.warnings ++ second.warnings
  findings := first.findings ++ second.findings
  forwarded := first.forwarded ++ second.forwarded
  visits := first.visits ++ second.visits

instance : Append Journal := ⟨append⟩

/-- All that several pieces of work leave behind, in order. -/
def concat (journals : List Journal) : Journal := journals.foldr (· ++ ·) ∅

def debug (logger message : String) : Journal :=
  { records := [⟨.debug, logger, message⟩] }

/-- The records that someone hears who listens from a level upwards. -/
def heardFrom (level : Level) (journal : Journal) : List Record :=
  journal.records.filter (Record.heardFrom level)

theorem append_eq (first second : Journal) :
    first ++ second = first.append second := rfl

@[simp] theorem records_append (first second : Journal) :
    (first ++ second).records = first.records ++ second.records := rfl

@[simp] theorem warnings_append (first second : Journal) :
    (first ++ second).warnings = first.warnings ++ second.warnings := rfl

@[simp] theorem findings_append (first second : Journal) :
    (first ++ second).findings = first.findings ++ second.findings := rfl

@[simp] theorem forwarded_append (first second : Journal) :
    (first ++ second).forwarded = first.forwarded ++ second.forwarded := rfl

@[simp] theorem visits_append (first second : Journal) :
    (first ++ second).visits = first.visits ++ second.visits := rfl

@[simp] theorem append_empty (journal : Journal) :
    journal ++ (∅ : Journal) = journal := by
  cases journal
  simp [append_eq, append, EmptyCollection.emptyCollection]

@[simp] theorem empty_append (journal : Journal) :
    (∅ : Journal) ++ journal = journal := by
  cases journal
  simp [append_eq, append, EmptyCollection.emptyCollection]

theorem append_assoc (first second third : Journal) :
    first ++ second ++ third = first ++ (second ++ third) := by
  simp [append_eq, append]

end Journal

end ScopeLint
