import ScopeLint.Proofs.ScopeCourse

/-!
# The net effect of a subtree

A walk may begin in any scope, also in one whose frames do not fit its names.
If there is no template in the tree, the walk closes exactly the frames that it
opened, wherever they cut, and the template keeps its name.  If there is no
macro either, all that remains are the names of the lasting bindings, as if
loops and lambdas had not been there.  A macro in the tree ends all macros.

Such a walk can only fail by a finding that is refused.
-/

namespace ScopeLint

namespace Checker

/-- The checker with a collector in the place of its reporter. -/
def lenient (checker : Checker) : Checker :=
  { checker with report := Reporter.collect }

variable {checker : Checker}

/-- Where a collecting checker goes on, another one goes on unless a finding is
refused. -/
theorem keep_iff_accepted {scope : Scope} {event : Event}
    (keeps : (checker.lenient.visitor.react event.hook scope event.node).reply =
      .keep) :
    (checker.visitor.react event.hook scope event.node).reply = .keep ↔
      ∀ d ∈ (scope.found checker.config checker.home event).toList,
        (checker.report d).refusal = none := by
  obtain ⟨⟨path, node⟩, hook⟩ := event
  cases hook with
  | leave =>
      have sameReply : (checker.leave scope node).reply = .keep := keeps
      simp [Scope.found, sameReply, visitor]
  | enter =>
      change (checker.lenient.enter scope node).reply = .keep at keeps
      change (checker.enter scope node).reply = .keep ↔
        ∀ d ∈ ((scope.enter checker.home (node.role checker.config)).finding?
          checker.config node).toList, (checker.report d).refusal = none
      cases fault : (node.role checker.config).fault? with
      | some failure => simp [enter, lenient, fault] at keeps
      | none =>
          cases finding : (scope.enter checker.home
              (node.role checker.config)).finding? checker.config node with
          | none => simp [enter, fault, finding]
          | some d =>
              cases refusal : (checker.report d).refusal <;>
                simp [enter, fault, finding, refusal]

theorem smooth_iff_accepted {scope : Scope} {events : List Event}
    (smooth : checker.lenient.visitor.Smooth scope events) :
    checker.visitor.Smooth scope events ↔
      ∀ d ∈ scope.findings checker.config checker.home events,
        (checker.report d).refusal = none := by
  induction events generalizing scope with
  | nil => simp [Visitor.Smooth, Scope.findings]
  | cons event rest induction =>
      obtain ⟨keeps, later⟩ := smooth
      have goesOn : checker.visitor.Smooth scope (event :: rest) ↔
          (checker.visitor.react event.hook scope event.node).reply = .keep ∧
            checker.visitor.Smooth
              (scope.step checker.config checker.home event) rest := by
        rw [← checker.state_react]
        rfl
      have lenientState :
          (checker.lenient.visitor.react event.hook scope event.node).state =
          scope.step checker.config checker.home event :=
        checker.lenient.state_react scope event
      rw [lenientState] at later
      rw [goesOn, keep_iff_accepted keeps, induction later, Scope.findings,
        List.forall_mem_append]

/-- The walk of a tree without templates comes to its end if no finding is
refused. -/
theorem smooth_iff_of_templateFree {root : Node} (free : root.TemplateFree)
    (plain : root.PlainParameters) (scope : Scope) :
    checker.visitor.Smooth scope root.events ↔
      ∀ d ∈ scope.findings checker.config checker.home root.events,
        (checker.report d).refusal = none := by
  apply smooth_iff_accepted
  apply smooth_of_fit
  · exact fun _ => rfl
  · exact plain
  · exact free.blocksTemplateFree

end Checker

/-- What the walk of a tree without templates makes of a scope. -/
structure NetEffect (config : Config) (root : Node) (before after : Scope) :
    Prop where
  frames : after.frames = before.frames
  template : after.template = before.template
  inMacro : (∀ inner ∈ root.nodes, inner.kind ≠ .definition) →
    after.inMacro = before.inMacro
  names : (∀ inner ∈ root.nodes, inner.kind ≠ .definition) →
    after.names = before.names ++ root.bindings config
  outside : (∃ inner ∈ root.nodes, inner.kind = .definition) →
    after.inMacro = none

theorem Node.TemplateFree.quiet {node : Node} (free : node.TemplateFree)
    (noMacro : ∀ inner ∈ node.nodes, inner.kind ≠ .definition) :
    node.Quiet := by
  intro inner member
  exact Kind.isStart_eq_false.mpr ⟨noMacro inner member, free inner member⟩

theorem Scope.netEffect_along (config : Config) (home : String) {root : Node}
    (free : root.TemplateFree) (scope : Scope) :
    NetEffect config root scope (scope.along config home root.events) := by
  have kept : (scope.along config home root.events).frames = scope.frames ∧ _ :=
    along_templateFree free scope
  constructor
  · exact kept.1
  · exact kept.2
  · intro noMacro
    obtain ⟨guarded, walked⟩ :=
      along_quiet config home (free.quiet noMacro) scope
    rw [walked]
  · intro noMacro
    obtain ⟨guarded, walked⟩ :=
      along_quiet config home (free.quiet noMacro) scope
    rw [walked]
  · rintro ⟨inner, member, isDefinition⟩
    apply along_inMacro_of_not_quiet
    intro quiet
    exact (Kind.isStart_eq_false.mp (quiet inner member)).1 isDefinition

namespace Checker

/-- From whatever scope it begins, the walk of a tree without templates comes to
its end exactly if no finding on the way is refused, and then nothing remains of
it but its net effect. -/
theorem passFrom_netEffect (checker : Checker) (scope : Scope) {root : Node}
    (free : root.TemplateFree) (plain : root.PlainParameters) :
    ((checker.visitor.passFrom scope root).result = .ok root ↔
      ∀ d ∈ scope.findings checker.config checker.home root.events,
        (checker.report d).refusal = none) ∧
    ∀ given, (checker.visitor.passFrom scope root).result = .ok given →
      NetEffect checker.config root scope
        (checker.visitor.passFrom scope root).state := by
  have accepted : checker.visitor.Smooth scope root.events ↔ _ :=
    smooth_iff_of_templateFree free plain scope
  refine ⟨⟨?_, ?_⟩, ?_⟩
  · intro done
    exact accepted.mp (checker.visitor_keeps.smooth_of_ok done)
  · intro accepts
    rw [checker.visitor_keeps.passFrom_of_smooth (accepted.mpr accepts)]
  · intro given done
    have smooth := checker.visitor_keeps.smooth_of_ok done
    rw [checker.visitor_keeps.passFrom_of_smooth smooth]
    change NetEffect checker.config root scope
      (checker.visitor.stateAfter scope root.events)
    rw [checker.stateAfter_eq]
    exact Scope.netEffect_along checker.config checker.home free scope

/-- A loop with bindings in a slot, in a lambda and in an arm, and with
something more at its end. -/
def workshop (last : Node) : Node :=
  ⟨0, ⟨1, 0⟩, .loop .plain
    ⟨1, ⟨1, 4⟩, .tuple
      [⟨2, ⟨1, 4⟩, .name "day" "store"⟩,
        ⟨3, ⟨1, 9⟩, .name "talks" "store"⟩] "store"⟩
    ⟨4, ⟨1, 18⟩, .name "program" "load"⟩
    [⟨5, ⟨2, 0⟩, .callBlock ⟨6, ⟨2, 7⟩, .name "panel" "load"⟩
      (Keyed.ofList [("head",
        [⟨7, ⟨3, 0⟩, .assign .plain ⟨8, ⟨3, 4⟩, .name "title" "store"⟩
          ⟨9, ⟨3, 12⟩, .name "day" "load"⟩⟩])])
      [⟨10, ⟨4, 0⟩, .lambda ["x"] ⟨11, ⟨4, 7⟩, .capture "notes" [] none⟩⟩]⟩,
     ⟨12, ⟨5, 0⟩, .switch none
      [⟨⟨13, ⟨6, 5⟩, .literal .null⟩, none,
        [⟨14, ⟨7, 0⟩, .importNames ⟨15, ⟨7, 5⟩, .literal (.text "forms.html")⟩
          [⟨"input", none⟩, ⟨"label", some "caption"⟩]⟩]⟩]⟩,
     last] [] none⟩

/-- A scope whose frames do not fit its names. -/
def disordered : Scope :=
  ⟨some "card", [some "rows"], [⟨7, 2⟩, ⟨0, 1⟩], [3], "cards.html"⟩

theorem passFrom_netEffect_workshop :
    let plain := workshop ⟨16, ⟨8, 0⟩, .name "rows" "load"⟩
    let withMacro := workshop
      ⟨16, ⟨8, 0⟩, .definition "row" [⟨17, ⟨8, 8⟩, .parameter "cells" none⟩]
      [⟨18, ⟨9, 0⟩, .name "cells" "load"⟩] [] none none⟩
    NetEffect {} plain disordered
      ((visitor {}).passFrom disordered plain).state ∧
    (∀ inner ∈ plain.nodes, inner.kind ≠ .definition) ∧
    ((visitor {}).passFrom disordered plain).state.names =
      [some "rows", some "title", some "notes", some "input", some "caption"] ∧
    NetEffect {} withMacro disordered
      ((visitor {}).passFrom disordered withMacro).state ∧
    (∃ inner ∈ withMacro.nodes, inner.kind = .definition) ∧
    ((visitor {}).passFrom disordered withMacro).state.inMacro = none := by
  intro plain withMacro
  have plainFree : plain.TemplateFree := by decide +kernel
  have plainParameters : plain.PlainParameters := by decide +kernel
  have macroFree : withMacro.TemplateFree := by decide +kernel
  have macroParameters : withMacro.PlainParameters := by decide +kernel
  obtain ⟨ends, effect⟩ :=
    passFrom_netEffect {} disordered plainFree plainParameters
  obtain ⟨macroEnds, macroEffect⟩ :=
    passFrom_netEffect {} disordered macroFree macroParameters
  have macroNet := macroEffect withMacro (macroEnds.mpr fun _ _ => rfl)
  have hasMacro : ∃ inner ∈ withMacro.nodes, inner.kind = .definition := by
    decide +kernel
  exact ⟨effect plain (ends.mpr fun _ _ => rfl), by decide +kernel,
    by decide +kernel, macroNet, hasMacro, macroNet.outside hasMacro⟩

end Checker

end ScopeLint
