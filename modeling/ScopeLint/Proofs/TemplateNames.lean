import ScopeLint.Proofs.CurrentMacro

/-!
# The template of a finding

A scope remembers the name of one template.  The name is set when a template is
entered, and leaving a template does not bring the former name back.  So a
finding names the template that was entered last before the name it is about,
also if that template is over.  This is the innermost template around the name
if it is around the name at all.
-/

namespace ScopeLint

/-- What findings call a template: what it calls itself, if that is not
empty. -/
def Occurrence.title (home : String) (template : Occurrence) : String :=
  Scope.templateName template.node.shape.called?.join home

namespace Node

/-- The last template before an occurrence, in the order of a walk. -/
def templateBefore? (root : Node) (occurrence : Occurrence) :
    Option Occurrence :=
  (root.occurrences.filter fun other =>
    other.node.kind = .template ∧ other.path < occurrence.path).getLast?

/-- The innermost template around an occurrence: templates around it follow one
another from the outside to the inside. -/
def templateAround? (root : Node) (occurrence : Occurrence) :
    Option Occurrence :=
  (root.occurrences.filter fun other =>
    other.node.kind = .template ∧ other.Above occurrence).getLast?

section Around

variable {root : Node} {occurrence : Occurrence}

theorem templateAround?_eq_some {template : Occurrence}
    (around : root.templateAround? occurrence = some template) :
    template.node.kind = .template ∧ template.Above occurrence ∧
      ∀ other ∈ root.occurrences, other.node.kind = .template →
        other.Above occurrence → other.path <+: template.path := by
  obtain ⟨outer, split⟩ := List.getLast?_eq_some_iff.mp around
  have member : template ∈ root.occurrences.filter fun other =>
      other.node.kind = .template ∧ other.Above occurrence := by
    rw [split]
    exact List.mem_append_right _ List.mem_cons_self
  have holds := (List.mem_filter.mp member).2
  obtain ⟨isTemplate, above⟩ := of_decide_eq_true holds
  refine ⟨isTemplate, above, ?_⟩
  intro other otherMember otherIsTemplate otherAbove
  have ordered := root.pairwise_occurrences.filter fun other =>
    other.node.kind = .template ∧ other.Above occurrence
  have inFilter : other ∈ outer ++ [template] := by
    rw [← split]
    exact List.mem_filter.mpr
      ⟨otherMember, decide_eq_true ⟨otherIsTemplate, otherAbove⟩⟩
  rw [split] at ordered
  rcases List.mem_append.mp inFilter with inOuter | isLast
  · have before := (List.pairwise_append.mp ordered).2.2 other inOuter template
      List.mem_cons_self
    rcases List.prefix_or_prefix_of_prefix otherAbove.1 above.1 with
      inside | outside
    · exact inside
    · by_cases same : template.path = other.path
      · exact ⟨[], (List.append_nil _).trans same.symm⟩
      · have between : template.Above other := ⟨outside, same⟩
        exact absurd before (List.lt_asymm between.path_lt)
  · obtain rfl := List.mem_singleton.mp isLast
    exact List.prefix_refl _

/-- The last template before an occurrence is the innermost one around it, if it
is around it. -/
theorem templateBefore?_eq_templateAround?
    (around : ∀ template, root.templateBefore? occurrence = some template →
      template.Above occurrence) :
    root.templateBefore? occurrence = root.templateAround? occurrence := by
  have narrower : (root.occurrences.filter fun other =>
      other.node.kind = .template ∧ other.Above occurrence) =
        (root.occurrences.filter fun other =>
          other.node.kind = .template ∧ other.path < occurrence.path).filter
            fun other => other.Above occurrence := by
    rw [List.filter_filter]
    apply List.filter_congr
    intro other _
    have before : other.Above occurrence → other.path < occurrence.path :=
      (·.path_lt)
    grind
  rw [templateAround?, narrower]
  cases known : root.templateBefore? occurrence with
  | none =>
      rw [templateBefore?, List.getLast?_eq_none_iff] at known
      rw [known]
      rfl
  | some template =>
      have above := around template known
      obtain ⟨earlier, split⟩ := List.getLast?_eq_some_iff.mp known
      rw [split, List.filter_append]
      simp [above]

end Around

end Node

/-- The template that was entered last. -/
def Event.latestTemplate? : List Event → Option Occurrence :=
  latest? (· = .template)

/-- When an occurrence is entered, the last template before it is the one that
was entered last. -/
theorem templateBefore?_eq_latestTemplate? {root : Node}
    {history future : List Event} {occurrence : Occurrence}
    (split : root.events = history ++ ⟨occurrence, .enter⟩ :: future) :
    root.templateBefore? occurrence = Event.latestTemplate? history := by
  have ordered := root.pairwise_occurrences
  rw [occurrences_of_split split] at ordered
  obtain ⟨_, orderedFrom, across⟩ := List.pairwise_append.mp ordered
  have earlier : (Event.entered history).filter (fun other =>
      other.node.kind = .template ∧ other.path < occurrence.path) =
        (Event.entered history).filter (·.node.kind = .template) := by
    apply List.filter_congr
    intro other member
    have before := across other member occurrence List.mem_cons_self
    simp [before]
  have later : (occurrence :: Event.entered future).filter (fun other =>
      other.node.kind = .template ∧ other.path < occurrence.path) = [] := by
    apply List.filter_eq_nil_iff.mpr
    intro other member holds
    have before := (of_decide_eq_true holds).2
    rcases List.mem_cons.mp member with rfl | inFuture
    · exact List.lt_irrefl _ before
    · exact List.lt_asymm before
        ((List.pairwise_cons.mp orderedFrom).1 other inFuture)
  rw [Node.templateBefore?, occurrences_of_split split, List.filter_append,
    earlier, later, List.append_nil]
  rfl

namespace Scope

variable {config : Config} {home : String}

theorem step_template (scope : Scope) (event : Event) :
    (scope.step config home event).template =
      ((Event.latestTemplate? [event]).map (Occurrence.title home)).getD
        scope.template := by
  obtain ⟨⟨path, node⟩, hook⟩ := event
  cases hook with
  | leave =>
      change (scope.step config home node.leaving).template = scope.template
      exact step_leaving_template node scope
  | enter =>
      change (scope.enter home (node.role config)).template = _
      by_cases isTemplate : node.kind = .template
      · obtain ⟨body, title, shape⟩ := Node.shape_of_template isTemplate
        have latest : Event.latestTemplate? [⟨⟨path, node⟩, .enter⟩] =
            some ⟨path, node⟩ := by
          simp [Event.latestTemplate?, Event.latest?, Event.entered, isTemplate]
        rw [latest, Node.role, shape]
        simp [enter, fresh, Occurrence.title, shape, Shape.called?]
      · have latest :
            Event.latestTemplate? [⟨⟨path, node⟩, .enter⟩] = none := by
          simp [Event.latestTemplate?, Event.latest?, Event.entered, isTemplate]
        have fits := node.kind_of_role config
        rw [latest]
        cases role : node.role config with
        | template title =>
            rw [role] at fits
            exact absurd fits isTemplate
        | definition title inputs => cases inputs <;> rfl
        | _ => rfl

/-- The scope goes by the name of the template that was entered last. -/
theorem along_template (scope : Scope) (events : List Event) :
    (scope.along config home events).template =
      ((Event.latestTemplate? events).map (Occurrence.title home)).getD
        scope.template := by
  induction events generalizing scope with
  | nil => rfl
  | cons event rest induction =>
      have latest : Event.latestTemplate? (event :: rest) =
          (Event.latestTemplate? rest).or (Event.latestTemplate? [event]) :=
        Event.latest?_append _ [event] rest
      rw [along_cons, induction, latest, step_template]
      cases Event.latestTemplate? rest <;> rfl

end Scope

namespace Checker

/-- A finding goes by the name of the last template before the name that it is
about; before all templates, and where that template has no name, it goes by the
name from outside.  Unless the last template before is over, it is the innermost
one around. -/
theorem template_findings (config : Config) (title : Option String)
    (sink : Option Sink) (root : Node) :
    let checker : Checker := { config, title, report := Reporter.through sink }
    (∃ reported, reported.Sublist root.occurrences ∧
      List.Forall₂
        (fun d occurrence => Reports root d occurrence ∧
          d.template =
            ((root.templateBefore? occurrence).map
              (Occurrence.title checker.home)).getD checker.home ∧
          ((∀ template, root.templateBefore? occurrence = some template →
              template.Above occurrence) →
            d.template =
              ((root.templateAround? occurrence).map
                (Occurrence.title checker.home)).getD checker.home))
        (traverse [checker.visitor] root).journal.findings reported) ∧
    ∀ occurrence template, root.templateAround? occurrence = some template →
      template.node.kind = .template ∧ template.Above occurrence ∧
        ∀ other ∈ root.occurrences, other.node.kind = .template →
          other.Above occurrence → other.path <+: template.path := by
  intro checker
  constructor
  · apply forall₂_findings (collects_through config title sink) root
    intro history future occurrence d split found
    have named : d.template =
        ((root.templateBefore? occurrence).map
          (Occurrence.title checker.home)).getD checker.home := by
      obtain ⟨_, _, _, template, _⟩ := Scope.found_eq_some found
      rw [template, Scope.along_template,
        templateBefore?_eq_latestTemplate? split]
      rfl
    refine ⟨reports_of_found split found, named, ?_⟩
    intro around
    rw [named, Node.templateBefore?_eq_templateAround? around]
  · intro occurrence template around
    exact Node.templateAround?_eq_some around

/-- A page that includes a part before it defines a macro, which reads a name
that nothing declares. -/
def including (part : List Node) : Node :=
  ⟨0, ⟨1, 0⟩, .template
    (part ++
      [⟨3, ⟨2, 0⟩, .definition "row" [⟨4, ⟨2, 8⟩, .parameter "cells" none⟩]
        [⟨5, ⟨3, 2⟩, .name "width" "load"⟩] [] none none⟩]) (some "page.html")⟩

/-- Behind a template that is over, findings do not go by the name of the
template around them. -/
theorem template_ne_templateAround :
    let part : Node :=
      ⟨1, ⟨1, 0⟩, .template [⟨2, ⟨1, 0⟩, .text "Hello"⟩] (some "part.html")⟩
    let width : Occurrence := ⟨[1, 1], ⟨5, ⟨3, 2⟩, .name "width" "load"⟩⟩
    (traverse [visitor { title := some "home.html" }]
        (including [part])).journal.findings.map
        (fun d => (d.missing, d.template)) = [("width", "part.html")] ∧
      ((including [part]).templateAround? width).map
          (Occurrence.title "home.html") =
        some "page.html" := by
  decide +kernel

theorem template_findings_including :
    let checker : Checker := { title := some "home.html" }
    let width : Occurrence := ⟨[0, 1], ⟨5, ⟨3, 2⟩, .name "width" "load"⟩⟩
    (traverse [checker.visitor] (including [])).journal.findings.map
        (fun d => (d.missing, d.template)) = [("width", "page.html")] ∧
    (∃ reported, reported.Sublist (including []).occurrences ∧
      List.Forall₂
        (fun d occurrence => Reports (including []) d occurrence ∧
          d.template =
            (((including []).templateAround? occurrence).map
              (Occurrence.title "home.html")).getD "home.html")
        (traverse [checker.visitor] (including [])).journal.findings reported) ∧
    ∃ template, (including []).templateAround? width = some template ∧
      template.Above width := by
  intro checker width
  obtain ⟨⟨reported, isSublist, each⟩, innermost⟩ :=
    template_findings {} (some "home.html") none (including [])
  refine ⟨by decide +kernel, ⟨reported, isSublist, ?_⟩, ?_⟩
  · apply each.imp
    intro d occurrence ⟨reports, _, named⟩
    refine ⟨reports, named ?_⟩
    intro template before
    -- The page is the only template, and all else is below it.
    have onlyRoot : ∀ other ∈ (including []).occurrences,
        other.node.kind = .template → other.path = [] := by decide +kernel
    obtain ⟨member, holds⟩ := List.mem_filter.mp (List.mem_of_getLast? before)
    obtain ⟨isTemplate, earlier⟩ := of_decide_eq_true holds
    rw [onlyRoot template member isTemplate] at earlier
    rw [Occurrence.Above, onlyRoot template member isTemplate]
    refine ⟨List.nil_prefix, ?_⟩
    intro same
    rw [← same] at earlier
    exact List.lt_irrefl _ earlier
  · have around : ((including []).templateAround? width).isSome = true := by
      decide +kernel
    obtain ⟨template, known⟩ := Option.isSome_iff_exists.mp around
    exact ⟨template, known, (innermost width template known).2.1⟩

end Checker

end ScopeLint
