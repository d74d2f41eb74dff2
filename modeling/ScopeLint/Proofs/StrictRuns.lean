import ScopeLint.Proofs.Reporting
import ScopeLint.Sample

/-!
# Strict and lenient linters

A strict linter turns findings into a failure after the walk.  Compared with a
lenient one it does nothing else differently: it walks the same way, fails
where the other fails, and reports to its host as much, also in a check that
fails.  The module compares two linters that answer the same requests one after
the other while their host's collector keeps filling.
-/

namespace ScopeLint

/-- A template to be checked, and the name given for it. -/
structure Request where
  root : Node
  name : Option String

/-- What comes of a request, and what the host's collector holds then. -/
structure Answer where
  result : Except Failure (List Diagnostic)
  held : Collector

namespace Request

/-- What a template is called: as it says itself, unless it says nothing. -/
def title (request : Request) : Option String :=
  match request.root.shape with
  | .template _ (some own) => if own = "" then request.name else some own
  | _ => request.name

/-- The walk that a request asks for, by a new checker with a collector of its
own. -/
def traversal (config : Config) (request : Request) : Traversal :=
  traverse [Checker.visitor { config, title := request.title }] request.root

theorem titleOf_eq {request : Request}
    (isTemplate : request.root.kind = .template) :
    Linter.titleOf request.root request.name = .ok request.title := by
  obtain ⟨body, own, shape⟩ := Node.shape_of_template isTemplate
  rw [Linter.titleOf, title, shape]
  cases own with
  | none => rfl
  | some own => simp [Shape.called?]

end Request

namespace Checker

/-- A checker whose findings also go to a collector of the host. -/
def forwarding (config : Config) (title : Option String) : Checker :=
  { config, title, report := Reporter.through (some .collector) }

end Checker

namespace Linter

/-- Answer requests one after the other.  The host's collector takes in what
each of them forwards, whether or not it fails. -/
def answers (linter : Linter) (held : Collector) : List Request → List Answer
  | [] => []
  | request :: rest =>
    let checked := linter.check request.root request.name
    let filled := held.receive checked.journal
    ⟨checked.result, filled⟩ :: linter.answers filled rest

theorem answers_getElem? (linter : Linter) (held : Collector)
    (earlier later : List Request) (request : Request) :
    (linter.answers held (earlier ++ request :: later))[earlier.length]? =
      some ⟨(linter.check request.root request.name).result,
        ⟨held.diagnostics ++ (earlier ++ [request]).flatMap fun asked =>
          (linter.check asked.root asked.name).journal.forwarded⟩⟩ := by
  induction earlier generalizing held with
  | nil => simp [answers, Collector.receive]
  | cons asked rest induction =>
      rw [List.cons_append, answers, List.length_cons, List.getElem?_cons_succ,
        induction]
      simp [Collector.receive]

section Collecting

variable (config : Config) (strict : Bool) {request : Request}

/-- A linter that reports to a collector of its host. -/
def collecting : Linter :=
  { config := { config with strict }, sink := some .collector }

theorem check_collecting (isTemplate : request.root.kind = .template) :
    (collecting config strict).check request.root request.name =
      (collecting config strict).checkWith
        [(Checker.forwarding config request.title).visitor]
        request.title request.root :=
  check_eq_checkWith (Request.titleOf_eq isTemplate)

theorem traverse_forwarding (request : Request) :
    let alone := request.traversal config
    let forwarded :=
      traverse [(Checker.forwarding config request.title).visitor] request.root
    forwarded.journal.findings = alone.journal.findings ∧
      forwarded.journal.forwarded = alone.journal.findings ∧
      forwarded.result = alone.result := by
  intro alone forwarded
  have accepts : ∀ d, (Reporter.through (some .collector) d).refusal = none :=
    fun _ => rfl
  obtain ⟨sameResult, told⟩ :=
    @Checker.traverse_of_accepts config request.title _ accepts request.root
  refine ⟨?_, ?_, sameResult⟩
  · exact (told Journal.Channel.findings).trans (List.flatMap_singleton' _)
  · exact (told Journal.Channel.forwarded).trans (List.flatMap_singleton' _)

theorem forwarded_check_collecting
    (isTemplate : request.root.kind = .template) :
    ((collecting config strict).check
        request.root request.name).journal.forwarded =
      (request.traversal config).journal.findings := by
  obtain ⟨_, forwarded, _⟩ := traverse_forwarding config request
  rw [check_collecting config strict isTemplate]
  exact (read_checkWith Journal.Channel.forwarded).trans forwarded

theorem result_check_of_error (isTemplate : request.root.kind = .template)
    {failure : Failure}
    (failed : (request.traversal config).result = .error failure) :
    ((collecting config strict).check request.root request.name).result =
      .error failure := by
  obtain ⟨_, _, sameResult⟩ := traverse_forwarding config request
  rw [check_collecting config strict isTemplate]
  apply result_checkWith_of_error
  exact sameResult.trans failed

theorem result_check_of_ok (isTemplate : request.root.kind = .template)
    {given : Node} (completed : (request.traversal config).result = .ok given) :
    ((collecting config strict).check request.root request.name).result =
      if (request.traversal config).journal.findings = [] then .ok []
      else if strict then
        .error (.lint
          (.findings (request.traversal config).journal.findings request.title))
      else .ok (request.traversal config).journal.findings := by
  obtain ⟨sameFindings, _, sameResult⟩ := traverse_forwarding config request
  rw [check_collecting config strict isTemplate,
    result_checkWith_of_ok _ _ _ _ (sameResult.trans completed),
    result_conclude, sameFindings]
  rfl

end Collecting

/-- How a lenient and a strict linter answer one request.  Both fail like the
walk, if it fails; otherwise the findings that the one returns are the failure
of the other. -/
structure Agree (config : Config) (request : Request)
    (lenient strict : Answer) : Prop where
  failed : ∀ failure, (request.traversal config).result = .error failure →
    lenient.result = .error failure ∧ strict.result = .error failure
  completed : ∀ given, (request.traversal config).result = .ok given →
    lenient.result = .ok (request.traversal config).journal.findings ∧
    strict.result =
      if (request.traversal config).journal.findings = [] then .ok []
      else .error (.lint
        (.findings (request.traversal config).journal.findings request.title))
  held : lenient.held = strict.held

/-- Two linters with the same settings, a lenient and a strict one, answer the
same requests.  Their answers agree, each depends on nothing but its request,
and after each answer both hosts have been told all that was found so far. -/
theorem answers_agree (config : Config) (held : Collector)
    {requests : List Request}
    (templates : ∀ request ∈ requests, request.root.kind = .template)
    {earlier later : List Request} {request : Request}
    (split : requests = earlier ++ request :: later) :
    ∃ lenient strict : Answer,
      ((collecting config false).answers held requests)[earlier.length]? =
        some lenient ∧
      ((collecting config true).answers held requests)[earlier.length]? =
        some strict ∧
      Agree config request lenient strict ∧
      strict.held.diagnostics = held.diagnostics ++
        (earlier ++ [request]).flatMap fun asked =>
          (asked.traversal config).journal.findings := by
  have isTemplate : request.root.kind = .template :=
    templates request (by simp [split])
  have told : ∀ strict : Bool, ((earlier ++ [request]).flatMap fun asked =>
      ((collecting config strict).check
        asked.root asked.name).journal.forwarded) =
      (earlier ++ [request]).flatMap fun asked =>
        (asked.traversal config).journal.findings := by
    intro strict
    apply List.flatMap_congr
    intro asked member
    apply forwarded_check_collecting
    apply templates
    rw [split, List.append_cons]
    exact List.mem_append_left later member
  refine ⟨_, _, split ▸ answers_getElem? _ held earlier later request,
    split ▸ answers_getElem? _ held earlier later request, ⟨?_, ?_, ?_⟩, ?_⟩
  · intro failure failed
    exact ⟨result_check_of_error config false isTemplate failed,
      result_check_of_error config true isTemplate failed⟩
  · intro given completed
    constructor
    · rw [result_check_of_ok config false isTemplate completed]
      split
      · rename_i nothing
        rw [nothing]
      · rfl
    · exact result_check_of_ok config true isTemplate completed
  · rw [told, told]
  · rw [told]

/-- A request whose walk finds something and then fails. -/
def doomed : Request :=
  ⟨⟨40, ⟨1, 0⟩, .template
    [⟨41, ⟨1, 0⟩, .definition "menu" []
      [⟨42, ⟨2, 0⟩, .name "entries" "load"⟩,
       ⟨43, ⟨3, 0⟩,
         .lambda [] ⟨44, ⟨3, 6⟩, .template [] none⟩⟩] [] none none⟩] (some "")⟩,
    some "menu.html"⟩

/-- A request without findings. -/
def spotless : Request := ⟨⟨50, ⟨1, 0⟩, .template [Sample.badge] none⟩, none⟩

theorem answers_agree_doomed :
    let requests : List Request := [⟨Sample.template, none⟩, doomed, spotless]
    ∃ lenient strict : Answer,
      ((collecting {} false).answers ⟨[]⟩ requests)[1]? = some lenient ∧
      ((collecting {} true).answers ⟨[]⟩ requests)[1]? = some strict ∧
      Agree {} doomed lenient strict ∧
      strict.result = .error .noOpenFrame ∧
      strict.held.diagnostics.map (·.missing) =
        ["titel", "item", "entries"] := by
  intro requests
  have templates : ∀ request ∈ requests, request.root.kind = .template := by
    decide +kernel
  have split : requests = [⟨Sample.template, none⟩] ++ doomed :: [spotless] :=
    rfl
  have failed : (doomed.traversal {}).result = .error .noOpenFrame := by
    rw [Request.traversal, result_traverse_single]
    rfl
  obtain ⟨lenient, strict, mild, harsh, agree, held⟩ :=
    answers_agree {} ⟨[]⟩ templates split
  refine ⟨lenient, strict, mild, harsh, agree, (agree.failed _ failed).2, ?_⟩
  rw [held]
  decide +kernel

end Linter

end ScopeLint
