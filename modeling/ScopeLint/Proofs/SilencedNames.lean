import ScopeLint.Proofs.Lockstep

/-!
# Names that are never reported

The names that the settings declare for every macro are looked at last, when a
name that nothing in scope declares would be reported.  So adding such names
takes away the findings about them, and changes neither the other findings nor
the way of a walk.
-/

namespace ScopeLint

/-- The second settings know the same loops as the first, and declare some more
names for every macro. -/
structure Config.AddsNames (names : List String) (config other : Config) :
    Prop where
  loopName : other.loopName = config.loopName
  loopKey : other.loopKey = config.loopKey
  declared : ∀ name, name ∈ other.alwaysDeclared ↔
    name ∈ config.alwaysDeclared ∨ name ∈ names

namespace Config.AddsNames

variable {config other : Config} {names : List String}

/-- However names are added, all of them are added, and nothing else changes. -/
theorem of_withNames (groups : List (List String)) (config : Config) :
    AddsNames groups.flatten config (groups.foldl Config.withNames config) := by
  induction groups generalizing config with
  | nil =>
      constructor
      · rfl
      · rfl
      · simp
  | cons group rest induction =>
      obtain ⟨loopName, loopKey, declared⟩ := induction (config.withNames group)
      constructor
      · exact loopName
      · exact loopKey
      · intro name
        rw [List.foldl_cons, declared, Config.mem_alwaysDeclared_withNames,
          List.flatten_cons, List.mem_append, or_assoc]

theorem role_eq (added : AddsNames names config other) (node : Node) :
    node.role config = node.role other := by
  obtain ⟨id, position, shape⟩ := node
  cases shape with
  | loop mode target =>
      simp only [Node.role, loopNames, added.loopName, added.loopKey]
  | _ => rfl

theorem declares_iff (added : AddsNames names config other) {scope : Scope}
    {name : String} :
    scope.Declares other name ↔ scope.Declares config name ∨ name ∈ names := by
  rw [Scope.Declares, Scope.Declares, added.declared, or_assoc]

theorem finding?_eq (added : AddsNames names config other) (scope : Scope)
    (node : Node) :
    scope.finding? other node =
      (scope.finding? config node).filter fun d => d.missing ∉ names := by
  apply Scope.finding?_filter
  · rfl
  · rfl
  · exact (added.role_eq node).symm
  · rfl
  · intro name
    exact added.declares_iff

theorem found_eq (added : AddsNames names config other) (home : String)
    (scope : Scope) (event : Event) :
    scope.found other home event =
      (scope.found config home event).filter fun d => d.missing ∉ names := by
  rw [Scope.found, Scope.found]
  cases event.hook with
  | enter =>
      dsimp only
      rw [added.finding?_eq, added.role_eq]
  | leave => rfl

end Config.AddsNames

/-- The second walk makes the same callbacks as the first, in the same scopes
and to the same end, but keeps silent about some names. -/
structure Silences (names : List String) (first second : Passage Scope Node) :
    Prop where
  findings : second.journal.findings =
    first.journal.findings.filter fun d => d.missing ∉ names
  calls : second.calls.map (fun callback =>
      (callback.hook, callback.node, callback.reaction.state)) =
    first.calls.map fun callback =>
      (callback.hook, callback.node, callback.reaction.state)
  state : second.state = first.state
  result : second.result = first.result

theorem Silences.of_aligned {names : List String}
    {first second : Passage Scope Node}
    (aligned : Passage.Aligned
      (Checker.SameButFor fun journal silenced =>
        silenced.findings = journal.findings.filter fun d => d.missing ∉ names)
      Eq first second) : Silences names first second := by
  constructor
  · rw [Passage.findings_journal, Passage.findings_journal, List.filter_flatMap]
    apply Eq.symm
    apply aligned.flatMap_calls
    intro callback other same
    exact same.journal.symm
  · apply Eq.symm
    apply aligned.map_calls
    intro callback other same
    rw [same.hook, same.node, same.state]
  · exact aligned.state.symm
  · exact aligned.result.symm

namespace Checker

theorem silences_of_addsNames {config other : Config} {names : List String}
    (added : Config.AddsNames names config other) (title : Option String)
    (scope : Scope) (root : Node) :
    Silences names ((visitor { config, title }).passFrom scope root)
      ((visitor { config := other, title }).passFrom scope root) := by
  let first : Checker := { config, title }
  let second : Checker := { config := other, title }
  have twins : Twins first second :=
    ⟨rfl, added.role_eq, fun _ => rfl, fun _ => rfl⟩
  apply Silences.of_aligned
  apply twins.passFrom_aligned
  intro scope event
  rw [findings_react (fun _ => rfl), findings_react (fun _ => rfl),
    ← Option.toList_filter]
  exact congrArg Option.toList (added.found_eq _ scope event)

/-- Names that the settings declare for every macro take away the findings about
them and do nothing else, in whatever way they are added. -/
theorem silences_withNames (config : Config) (title : Option String)
    (scope : Scope) (root : Node) :
    (∀ groups : List (List String),
      Silences groups.flatten ((visitor { config, title }).passFrom scope root)
        ((visitor
            { config := groups.foldl Config.withNames config, title }).passFrom
          scope root)) ∧
    ∀ (other : Config) (names : List String),
      other.loopName = config.loopName → other.loopKey = config.loopKey →
      (∀ name, name ∈ other.alwaysDeclared ↔
        name ∈ config.alwaysDeclared ∨ name ∈ names) →
      Silences names ((visitor { config, title }).passFrom scope root)
        ((visitor { config := other, title }).passFrom scope root) := by
  constructor
  · intro groups
    exact silences_of_addsNames (.of_withNames groups config) title scope root
  · intro other names loopName loopKey declared
    exact silences_of_addsNames ⟨loopName, loopKey, declared⟩ title scope root

/-- A macro that reads a name before and after it binds it, and one that nothing
declares. -/
def scores : Node :=
  ⟨0, ⟨1, 0⟩, .definition "scores" [⟨1, ⟨1, 11⟩, .parameter "rows" none⟩]
    [⟨2, ⟨2, 0⟩, .name "max" "load"⟩,
     ⟨3, ⟨3, 0⟩, .loop .plain ⟨4, ⟨3, 4⟩, .name "row" "store"⟩
         ⟨5, ⟨3, 11⟩, .name "rows" "load"⟩
       [⟨6, ⟨4, 0⟩, .assign .plain ⟨7, ⟨4, 4⟩, .name "max" "store"⟩
         ⟨8, ⟨4, 10⟩, .name "row" "load"⟩⟩] [] none⟩,
     ⟨9, ⟨5, 0⟩, .name "max" "load"⟩,
     ⟨10, ⟨6, 0⟩, .name "total" "load"⟩] [] none none⟩

theorem silences_scores :
    ((visitor {}).pass scores).journal.findings.map (·.missing) =
      ["max", "total"] ∧
    Silences ["url", "max", "max"] ((visitor {}).pass scores)
      ((visitor
          { config :=
              [["url", "max"], [], ["max"]].foldl Config.withNames {} }).pass
        scores) ∧
    Silences ["max"] ((visitor {}).pass scores)
      ((visitor
          { config := { special := ["max", "varargs"], strict := true } }).pass
        scores) := by
  obtain ⟨chained, paired⟩ :=
    silences_withNames {} none (Scope.fresh anonymous) scores
  refine ⟨by decide +kernel, chained [["url", "max"], [], ["max"]], ?_⟩
  apply paired
  · rfl
  · rfl
  · intro name
    simp [Config.alwaysDeclared, or_comm]

end Checker

end ScopeLint
