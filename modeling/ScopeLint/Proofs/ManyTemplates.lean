import ScopeLint.Proofs.StrictRuns
import ScopeLint.Proofs.Tables

/-!
# Many templates

Checking many templates is checking them one after the other.  A lenient linter
checks them all: its table tells for every name what the last template of that
name holds, and its host is told the findings of all of them.  A strict linter
ends at the first template with findings, with the failure of that one check,
and comes to no template after it.
-/

namespace ScopeLint

/-- The request to check a template under a name. -/
def Request.named (pair : String × Node) : Request := ⟨pair.2, some pair.1⟩

/-- What is found in a template that is checked under a name. -/
def findingsIn (config : Config) (pair : String × Node) : List Diagnostic :=
  ((Request.named pair).traversal config).journal.findings

namespace Linter

/-! ## One check after the other -/

section Each

variable (linter : Linter)

/-- The check of a template under its name. -/
def checkNamed (pair : String × Node) : Checked (List Diagnostic) :=
  linter.check pair.2 (some pair.1)

/-- What the checks of several templates leave behind. -/
def journalOf (templates : List (String × Node)) : Journal :=
  Journal.concat (templates.map fun pair => (linter.checkNamed pair).journal)

theorem forwarded_journalOf (templates : List (String × Node)) :
    (linter.journalOf templates).forwarded =
      templates.flatMap fun pair =>
        (linter.checkNamed pair).journal.forwarded := by
  rw [journalOf, Journal.channel_concat rfl Journal.forwarded_append,
    List.flatMap_map]

theorem checkEach_cons_of_ok {pair : String × Node} {found : List Diagnostic}
    (gives : (linter.checkNamed pair).result = .ok found)
    (rest : List (String × Node)) :
    linter.checkEach (pair :: rest) =
      ⟨(linter.checkNamed pair).journal ++ (linter.checkEach rest).journal,
        (linter.checkEach rest).result.map ((pair.1, found) :: ·)⟩ := by
  rw [checkNamed] at gives
  rw [checkEach, gives]
  rfl

/-- If no check fails, all templates are checked. -/
theorem checkEach_of_ok {templates : List (String × Node)}
    {found : String × Node → List Diagnostic}
    (gives : ∀ pair ∈ templates,
      (linter.checkNamed pair).result = .ok (found pair)) :
    linter.checkEach templates =
      ⟨linter.journalOf templates,
        .ok (templates.map fun pair => (pair.1, found pair))⟩ := by
  induction templates with
  | nil => rfl
  | cons pair rest induction =>
      have later := induction fun other member =>
        gives other (List.mem_cons_of_mem _ member)
      rw [linter.checkEach_cons_of_ok (gives pair List.mem_cons_self), later]
      rfl

/-- The first check that fails is the last one made. -/
theorem checkEach_of_error {earlier : List (String × Node)}
    {pair : String × Node} {failure : Failure}
    (gives : ∀ other ∈ earlier, ∃ found,
      (linter.checkNamed other).result = .ok found)
    (fails : (linter.checkNamed pair).result = .error failure)
    (later : List (String × Node)) :
    linter.checkEach (earlier ++ pair :: later) =
      ⟨linter.journalOf (earlier ++ [pair]), .error failure⟩ := by
  induction earlier with
  | nil =>
      have alone :
          linter.journalOf ([] ++ [pair]) = (linter.checkNamed pair).journal :=
        Journal.append_empty _
      rw [checkNamed] at fails
      rw [alone, List.nil_append, checkEach, fails]
      rfl
  | cons other rest induction =>
      obtain ⟨found, given⟩ := gives other List.mem_cons_self
      have next := induction fun third member =>
        gives third (List.mem_cons_of_mem _ member)
      rw [List.cons_append, linter.checkEach_cons_of_ok given, next]
      rfl

end Each

/-! ## Linters with a collector -/

section Collected

variable (config : Config) (strict : Bool) {pair : String × Node}
  (isTemplate : pair.2.kind = .template)
include isTemplate

theorem forwarded_checkNamed :
    ((collecting config strict).checkNamed pair).journal.forwarded =
      findingsIn config pair :=
  @forwarded_check_collecting config strict (Request.named pair) isTemplate

variable (completed : ∃ given,
  ((Request.named pair).traversal config).result = .ok given)
include completed

theorem result_checkNamed :
    ((collecting config strict).checkNamed pair).result =
      if findingsIn config pair = [] then .ok []
      else if strict then
        .error (.lint
          (.findings (findingsIn config pair) (Request.named pair).title))
      else .ok (findingsIn config pair) := by
  obtain ⟨given, completed⟩ := completed
  exact @result_check_of_ok config strict (Request.named pair) isTemplate
    given completed

theorem result_checkNamed_lenient :
    ((collecting config false).checkNamed pair).result =
      .ok (findingsIn config pair) := by
  rw [result_checkNamed config false isTemplate completed]
  split
  · rename_i nothing
    rw [nothing]
  · rfl

end Collected

/-- What a lenient linter gives for many templates. -/
structure ChecksAll (config : Config) (templates : List (String × Node))
    (checked : Checked (Keyed (List Diagnostic))) : Prop where
  /-- Each template is checked as if it were the only one. -/
  each : ∀ pair ∈ templates,
    ((collecting config false).checkNamed pair).result =
      .ok (findingsIn config pair)
  /-- There is an entry for every name, in order of first occurrence, and the
  last template of a name decides what it holds. -/
  table : ∃ table, checked.result = .ok table ∧
    table.keys = (templates.map Prod.fst).eraseDups ∧
    ∀ before pair after, templates = before ++ pair :: after →
      pair.1 ∉ after.map Prod.fst →
      table.get? pair.1 = some (findingsIn config pair)
  /-- The host is told what is found in all templates. -/
  told : checked.journal.forwarded = templates.flatMap (findingsIn config)

/-- What a strict linter gives for many templates. -/
structure EndsAtFirst (config : Config) (templates : List (String × Node))
    (checked : Checked (Keyed (List Diagnostic))) : Prop where
  fails : (∃ failure, checked.result = .error failure) ↔
    ∃ pair ∈ templates, findingsIn config pair ≠ []
  /-- The failure is that of the first template with findings.  The host is told
  these findings only, and nothing after that template matters. -/
  first : ∀ earlier pair later, templates = earlier ++ pair :: later →
    (∀ other ∈ earlier, findingsIn config other = []) →
    findingsIn config pair ≠ [] →
    ∃ failure, failure =
      .lint (.findings (findingsIn config pair) (Request.named pair).title) ∧
      ((collecting config true).checkNamed pair).result = .error failure ∧
      checked.result = .error failure ∧
      checked.journal.forwarded = findingsIn config pair ∧
      checked.journal = (collecting config true).journalOf (earlier ++ [pair]) ∧
      ∀ others,
        (collecting config true).checkMany (earlier ++ pair :: others) = checked
  /-- Without findings there is an entry for every name, and nothing in it. -/
  clean : (∀ pair ∈ templates, findingsIn config pair = []) →
    ∃ table, checked.result = .ok table ∧
      table.keys = (templates.map Prod.fst).eraseDups ∧
      ∀ name ∈ table.keys, table.get? name = some []

/-- Either nothing is found in any template, or there is a first one in which
something is found. -/
theorem clean_or_first (config : Config) (templates : List (String × Node)) :
    (∀ pair ∈ templates, findingsIn config pair = []) ∨
      ∃ earlier pair later, templates = earlier ++ pair :: later ∧
        (∀ other ∈ earlier, findingsIn config other = []) ∧
        findingsIn config pair ≠ [] := by
  induction templates with
  | nil =>
      left
      intro pair member
      cases member
  | cons pair rest induction =>
      by_cases nothing : findingsIn config pair = []
      · rcases induction with clean | ⟨earlier, first, later, rfl, clean, found⟩
        · exact .inl (List.forall_mem_cons.mpr ⟨nothing, clean⟩)
        · exact .inr ⟨pair :: earlier, first, later, rfl,
            List.forall_mem_cons.mpr ⟨nothing, clean⟩, found⟩
      · exact .inr ⟨[], pair, rest, rfl,
          fun _ member => (List.not_mem_nil member).elim, nothing⟩

section Many

variable (config : Config) {templates : List (String × Node)}
  (areTemplates : ∀ pair ∈ templates, pair.2.kind = .template)
include areTemplates

theorem forwarded_journalOf_first {earlier later : List (String × Node)}
    {pair : String × Node} (split : templates = earlier ++ pair :: later)
    (clean : ∀ other ∈ earlier, findingsIn config other = []) :
    ((collecting config true).journalOf (earlier ++ [pair])).forwarded =
      findingsIn config pair := by
  have known : pair ∈ templates := by simp [split]
  have nothing : (earlier.flatMap fun other =>
      ((collecting config true).checkNamed other).journal.forwarded) = [] := by
    rw [List.flatMap_eq_nil_iff]
    intro other member
    rw [forwarded_checkNamed config true
      (areTemplates other (by simp [split, member]))]
    exact clean other member
  rw [forwarded_journalOf, List.flatMap_append, nothing, List.flatMap_singleton,
    List.nil_append]
  exact forwarded_checkNamed config true (areTemplates pair known)

variable (completed : ∀ pair ∈ templates,
  ∃ given, ((Request.named pair).traversal config).result = .ok given)
include completed

theorem checkMany_lenient :
    ChecksAll config templates
      ((collecting config false).checkMany templates) := by
  have gives : ∀ pair ∈ templates,
      ((collecting config false).checkNamed pair).result =
      .ok (findingsIn config pair) :=
    fun pair member =>
      result_checkNamed_lenient config (areTemplates pair member)
        (completed pair member)
  rw [checkMany, checkEach_of_ok _ gives]
  refine ⟨gives, ⟨_, rfl, ?_, ?_⟩, ?_⟩
  · rw [Keyed.keys_ofList, List.map_map]
    rfl
  · rintro before pair after rfl last
    rw [List.map_append, List.map_cons]
    apply Keyed.get?_ofList
    rw [List.map_map]
    exact last
  · rw [forwarded_journalOf]
    apply List.flatMap_congr
    intro pair member
    exact forwarded_checkNamed config false (areTemplates pair member)

theorem checkMany_strict_of_clean
    (clean : ∀ pair ∈ templates, findingsIn config pair = []) :
    ∃ table, ((collecting config true).checkMany templates).result = .ok table ∧
      table.keys = (templates.map Prod.fst).eraseDups ∧
      ∀ name ∈ table.keys, table.get? name = some [] := by
  have gives : ∀ pair ∈ templates,
      ((collecting config true).checkNamed pair).result = .ok [] := by
    intro pair member
    rw [result_checkNamed config true (areTemplates pair member)
      (completed pair member), if_pos (clean pair member)]
  rw [checkMany, checkEach_of_ok _ gives]
  refine ⟨_, rfl, ?_, ?_⟩
  · rw [Keyed.keys_ofList, List.map_map]
    rfl
  · intro name known
    apply Keyed.get?_ofList_of_forall _ known
    intro entry member
    obtain ⟨pair, _, rfl⟩ := List.mem_map.mp member
    rfl

theorem checkMany_strict_of_first {earlier later : List (String × Node)}
    {pair : String × Node} (split : templates = earlier ++ pair :: later)
    (clean : ∀ other ∈ earlier, findingsIn config other = [])
    (found : findingsIn config pair ≠ []) (others : List (String × Node)) :
    let failure : Failure :=
      .lint (.findings (findingsIn config pair) (Request.named pair).title)
    ((collecting config true).checkNamed pair).result = .error failure ∧
      (collecting config true).checkMany (earlier ++ pair :: others) =
        ⟨(collecting config true).journalOf (earlier ++ [pair]),
          .error failure⟩ := by
  intro failure
  have gives : ∀ other ∈ earlier, ∃ given,
      ((collecting config true).checkNamed other).result = .ok given := by
    intro other member
    have known : other ∈ templates := by simp [split, member]
    refine ⟨[], ?_⟩
    rw [result_checkNamed config true (areTemplates other known)
      (completed other known), if_pos (clean other member)]
  have known : pair ∈ templates := by simp [split]
  have fails : ((collecting config true).checkNamed pair).result =
      .error failure := by
    rw [result_checkNamed config true (areTemplates pair known)
      (completed pair known), if_neg found, if_pos rfl]
  refine ⟨fails, ?_⟩
  rw [checkMany, checkEach_of_error _ gives fails]
  rfl

theorem checkMany_strict :
    EndsAtFirst config templates
      ((collecting config true).checkMany templates) := by
  refine ⟨?_, ?_, checkMany_strict_of_clean config areTemplates completed⟩
  · rcases clean_or_first config templates with clean
      | ⟨earlier, pair, later, split, clean, found⟩
    · obtain ⟨table, given, _⟩ :=
        checkMany_strict_of_clean config areTemplates completed clean
      apply iff_of_false
      · rintro ⟨failure, fails⟩
        rw [given] at fails
        cases fails
      · rintro ⟨pair, member, found⟩
        exact found (clean pair member)
    · obtain ⟨_, ended⟩ :=
        checkMany_strict_of_first config areTemplates completed split clean
          found later
      rw [← split] at ended
      apply iff_of_true
      · exact ⟨_, congrArg Checked.result ended⟩
      · exact ⟨pair, by simp [split], found⟩
  · intro earlier pair later split clean found
    have ended :=
      checkMany_strict_of_first config areTemplates completed split clean found
    have here := (ended later).2
    rw [← split] at here
    refine ⟨_, rfl, (ended later).1, congrArg Checked.result here, ?_,
      congrArg Checked.journal here, ?_⟩
    · rw [here]
      exact forwarded_journalOf_first config areTemplates split clean
    · intro others
      rw [here]
      exact (ended others).2

end Many

/-- Checking many templates is checking each of them.  A lenient linter checks
all, and a strict one up to the first template with findings. -/
theorem checkMany_pointwise (config : Config) {templates : List (String × Node)}
    (areTemplates : ∀ pair ∈ templates, pair.2.kind = .template)
    (completed : ∀ pair ∈ templates,
      ∃ given, ((Request.named pair).traversal config).result = .ok given) :
    ChecksAll config templates ((collecting config false).checkMany templates) ∧
      EndsAtFirst config templates
        ((collecting config true).checkMany templates) :=
  ⟨checkMany_lenient config areTemplates completed,
    checkMany_strict config areTemplates completed⟩

/-- Two templates under one name, of which the first has findings and the second
has none, and one under another name between them. -/
def overwritten : List (String × Node) :=
  [("page.html", Sample.template), ("plain.html", spotless.root),
    ("page.html", spotless.root)]

theorem checkMany_pointwise_overwritten :
    ChecksAll {} overwritten ((collecting {} false).checkMany overwritten) ∧
    EndsAtFirst {} overwritten ((collecting {} true).checkMany overwritten) ∧
    (((collecting {} false).checkMany overwritten).result.toOption.map
        (·.entries)) =
      some [("page.html", []), ("plain.html", [])] ∧
    ((collecting {} false).checkMany overwritten).journal.forwarded.map
        (·.missing) =
      ["titel", "item"] := by
  have areTemplates : ∀ pair ∈ overwritten, pair.2.kind = .template := by
    decide +kernel
  have completed : ∀ pair ∈ overwritten,
      ∃ given, ((Request.named pair).traversal {}).result = .ok given := by
    intro pair member
    refine ⟨pair.2, ?_⟩
    rw [Request.traversal, result_traverse_single]
    rcases List.mem_cons.mp member with rfl | later
    · rfl
    · rcases List.mem_cons.mp later with rfl | last
      · rfl
      · rw [List.mem_singleton.mp last]
        rfl
  obtain ⟨all, first⟩ := checkMany_pointwise {} areTemplates completed
  exact ⟨all, first, by decide +kernel, by decide +kernel⟩

end Linter

end ScopeLint
