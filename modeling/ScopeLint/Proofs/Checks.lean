import ScopeLint.Linter

/-!
# Single checks

What a check gives, in terms of the walk that it makes.
-/

namespace ScopeLint.Linter

/-- A linter with the usual visitors lets one checker walk the template. -/
theorem check_eq_checkWith {config : Config} {sink : Option Sink} {root : Node}
    {name title : Option String} (named : titleOf root name = .ok title) :
    check { config, sink } root name =
      checkWith { config, sink }
        [Checker.visitor { config, title, report := Reporter.through sink }]
          title root := by
  rw [check, named]
  rfl

variable (linter : Linter) (visitors : List Visitor) (title : Option String)
  (root : Node)

theorem result_conclude (findings : List Diagnostic) :
    (linter.conclude title findings).result =
      if findings = [] then .ok []
      else if linter.config.strict then
        .error (.lint (.findings findings title))
      else .ok findings := by
  cases findings <;> rfl

theorem result_checkWith_of_error {failure : Failure}
    (failed : (traverse visitors root).result = .error failure) :
    (linter.checkWith visitors title root).result = .error failure := by
  rw [checkWith, failed]

theorem result_checkWith_of_ok {given : Node}
    (completed : (traverse visitors root).result = .ok given) :
    (linter.checkWith visitors title root).result =
      (linter.conclude title
        (traverse visitors root).journal.findings).result := by
  rw [checkWith, completed]

end ScopeLint.Linter
