import ScopeLint.Proofs.ScopeCourse

/-!
# Templates inside blocks

A template forgets all open frames.  If it stands below a loop or a lambda,
the frame of that block is gone when the block is left, and the walk fails
there.  If the parameters of all macros are proper ones and no finding is
refused, nothing else makes a walk fail, in whatever state it begins.

`MeetsTrap` describes how a walk comes to the first such block.  It is
established for the events of siblings and lifted from a child to its parent.
-/

namespace ScopeLint

namespace Node

/-- A loop or lambda with a template below it. -/
def TrapsTemplate (node : Node) : Prop :=
  node.kind.isBlock = true ∧
    ∃ child ∈ node.children, ∃ inner ∈ child.nodes, inner.kind = .template

instance (node : Node) : Decidable node.TrapsTemplate :=
  inferInstanceAs (Decidable (node.kind.isBlock = true ∧
    ∃ child ∈ node.children, ∃ inner ∈ child.nodes, inner.kind = .template))

theorem not_templateFree_iff {node : Node} :
    ¬node.TemplateFree ↔ ∃ inner ∈ node.nodes, inner.kind = .template := by
  simp [TemplateFree]

theorem trapsTemplate_iff {node : Node} :
    node.TrapsTemplate ↔
      node.kind.isBlock = true ∧
        ∃ child ∈ node.children, ¬child.TemplateFree := by
  simp only [TrapsTemplate, not_templateFree_iff]

theorem blocksTemplateFree_iff_no_trap {node : Node} :
    node.BlocksTemplateFree ↔ ∀ inner ∈ node.nodes, ¬inner.TrapsTemplate := by
  simp [BlocksTemplateFree, trapsTemplate_iff]

theorem BlocksTemplateFree.no_trap_of_mem_events {node : Node}
    (free : node.BlocksTemplateFree) {event : Event}
    (member : event ∈ node.events) : ¬event.node.TrapsTemplate :=
  blocksTemplateFree_iff_no_trap.mp free event.node
    (mem_nodes_of_mem_events member)

end Node

namespace Scope

variable {config : Config} {home : String}

theorem step_leaving_frames {node : Node} (noBlock : node.kind.isBlock = false)
    (scope : Scope) :
    (scope.step config home node.leaving).frames = scope.frames := by
  by_cases isDefinition : node.kind = .definition
  · rw [step_leaving_definition isDefinition]
  · rw [step_leaving_other isDefinition noBlock]

private theorem along_eventsOf_frames {siblings : List Node}
    (below : ∀ child ∈ siblings, ¬child.TemplateFree → ∀ scope : Scope,
      (scope.along config home child.events).frames = [])
    {scope : Scope}
    (forgets : scope.frames = [] ∨ ∃ child ∈ siblings, ¬child.TemplateFree)
    (first : Nat) :
    (scope.along config home (Node.eventsOf first siblings)).frames = [] := by
  apply along_eventsOf_reaches config home (fun scope => scope.frames = [])
  · intro child member scope empty
    by_cases free : child.TemplateFree
    · exact (along_templateFree free scope).1.trans empty
    · exact below child member free scope
  · exact forgets.imp_right fun ⟨child, member, loses⟩ =>
      ⟨child, member, below child member loses⟩

/-- A template that is in no block leaves no frame open behind it. -/
theorem along_frames_of_template {node : Node} (free : node.BlocksTemplateFree)
    (loses : ¬node.TemplateFree) (scope : Scope) :
    (scope.along config home node.events).frames = [] := by
  induction node using Node.induction_on_children generalizing scope with
  | step node induction =>
      obtain ⟨freeHere, freeBelow⟩ := Node.blocksTemplateFree_iff.mp free
      have forgets : (scope.step config home node.entering).frames = [] ∨
          ∃ child ∈ node.children, ¬child.TemplateFree := by
        by_cases isTemplate : node.kind = .template
        · obtain ⟨template, entered⟩ :=
            step_entering_template config home isTemplate scope
          left
          rw [entered]
          rfl
        · right
          rw [Node.templateFree_iff] at loses
          simpa [isTemplate] using loses
      have noBlock : node.kind.isBlock = false := by
        apply Bool.eq_false_iff.mpr
        intro isBlock
        apply loses
        apply Node.templateFree_iff.mpr
        refine ⟨?_, freeHere isBlock⟩
        intro isTemplate
        rw [isTemplate] at isBlock
        cases isBlock
      rw [along_events, step_leaving_frames noBlock]
      exact along_eventsOf_frames
        (fun child member => induction child member (freeBelow child member))
        forgets 0

end Scope

/-- The walk through some events comes to a block with a template below it.  Up
to the first such block that is left nothing fails, and then no frame is
open. -/
structure MeetsTrap (checker : Checker) (scope : Scope)
    (events history : List Event) (block : Occurrence) : Prop where
  begins : history ++ [⟨block, .leave⟩] <+: events
  traps : block.node.TrapsTemplate
  first : ∀ event ∈ history, event.hook = .leave → ¬event.node.TrapsTemplate
  smooth : checker.visitor.Smooth scope history
  unopened : (scope.along checker.config checker.home history).frames = []

namespace MeetsTrap

variable {checker : Checker} {scope : Scope} {events history : List Event}
  {block : Occurrence}

theorem append (meets : MeetsTrap checker scope events history block)
    (later : List Event) :
    MeetsTrap checker scope (events ++ later) history block :=
  { meets with begins := meets.begins.trans (List.prefix_append events later) }

theorem under (meets : MeetsTrap checker scope events history block)
    (place : Nat) :
    MeetsTrap checker scope (events.map (Event.under place))
      (history.map (Event.under place)) (block.under place) where
  begins := by
    have placed := meets.begins.map (Event.under place)
    rwa [List.map_append] at placed
  traps := meets.traps
  first := by
    intro event member isLeave
    obtain ⟨inner, innerMember, rfl⟩ := List.mem_map.mp member
    exact meets.first inner innerMember isLeave
  smooth := Visitor.smooth_map_under.mpr meets.smooth
  unopened := by
    rw [Scope.along_map_under]
    exact meets.unopened

/-- What comes before without failing and without leaving such a block delays
the failure only. -/
theorem after {earlier : List Event}
    (smooth : checker.visitor.Smooth scope earlier)
    (harmless : ∀ event ∈ earlier, event.hook = .leave →
      ¬event.node.TrapsTemplate)
    (meets : MeetsTrap checker (scope.along checker.config checker.home earlier)
      events history block) :
    MeetsTrap checker scope (earlier ++ events) (earlier ++ history) block where
  begins := by
    rw [List.append_assoc]
    exact (List.prefix_append_right_inj earlier).mpr meets.begins
  traps := meets.traps
  first := by
    intro event member
    rcases List.mem_append.mp member with before | inside
    · exact harmless event before
    · exact meets.first event inside
  smooth := by
    apply Visitor.smooth_append.mpr
    rw [checker.stateAfter_eq]
    exact ⟨smooth, meets.smooth⟩
  unopened := by
    rw [Scope.along_append]
    exact meets.unopened

end MeetsTrap

namespace Checker

variable {checker : Checker}

private theorem meetsTrap_eventsOf
    (accepts : ∀ d, (checker.report d).refusal = none) {siblings : List Node}
    (plain : ∀ child ∈ siblings, child.PlainParameters)
    (below : ∀ child ∈ siblings, ¬child.BlocksTemplateFree → ∀ scope : Scope,
      ∃ history block, MeetsTrap checker scope child.events history block)
    (trapped : ∃ child ∈ siblings, ¬child.BlocksTemplateFree) (scope : Scope)
    (first : Nat) :
    ∃ history block,
      MeetsTrap checker scope (Node.eventsOf first siblings) history block := by
  induction siblings generalizing scope first with
  | nil =>
      obtain ⟨child, member, _⟩ := trapped
      cases member
  | cons child rest induction =>
      rw [Node.eventsOf_cons]
      by_cases free : child.BlocksTemplateFree
      · obtain ⟨other, member, trap⟩ := trapped
        have later : other ∈ rest := by
          rcases List.mem_cons.mp member with rfl | later
          · exact absurd free trap
          · exact later
        obtain ⟨history, block, meets⟩ := induction
          (fun next nextMember =>
            plain next (List.mem_cons_of_mem _ nextMember))
          (fun next nextMember =>
            below next (List.mem_cons_of_mem _ nextMember))
          ⟨other, later, trap⟩
          (scope.along checker.config checker.home child.events) (first + 1)
        refine ⟨child.events.map (Event.under first) ++ history, block, ?_⟩
        apply MeetsTrap.after
        · apply Visitor.smooth_map_under.mpr
          exact smooth_of_fit accepts (plain child List.mem_cons_self)
            free scope
        · intro event eventMember _
          obtain ⟨inner, innerMember, rfl⟩ := List.mem_map.mp eventMember
          have harmless : ¬inner.node.TrapsTemplate :=
            free.no_trap_of_mem_events innerMember
          exact harmless
        · rw [Scope.along_map_under]
          exact meets
      · obtain ⟨history, block, meets⟩ :=
          below child List.mem_cons_self free scope
        exact ⟨_, _, (meets.under first).append _⟩

/-- The walk of a tree in which a block has a template below it comes to such a
block with no frame open. -/
theorem exists_meetsTrap (accepts : ∀ d, (checker.report d).refusal = none)
    {node : Node} (plain : node.PlainParameters)
    (trapped : ¬node.BlocksTemplateFree) (scope : Scope) :
    ∃ history block, MeetsTrap checker scope node.events history block := by
  induction node using Node.induction_on_children generalizing scope with
  | step node induction =>
      obtain ⟨plainHere, plainBelow⟩ := Node.forall_mem_nodes_iff.mp plain
      let entered := scope.step checker.config checker.home node.entering
      have enters : checker.visitor.Smooth scope [node.entering] :=
        ⟨react_enter_keep accepts (Node.fault?_of_plain plainHere) scope,
          trivial⟩
      have harmless : ∀ event ∈ [node.entering], event.hook = .leave →
          ¬event.node.TrapsTemplate := by
        intro event member isLeave
        rw [List.mem_singleton.mp member] at isLeave
        cases isLeave
      have children : ∃ history block, MeetsTrap checker entered
          (Node.eventsOf 0 node.children ++ [node.leaving]) history block := by
        by_cases trappedBelow :
          ∃ child ∈ node.children, ¬child.BlocksTemplateFree
        · obtain ⟨history, block, meets⟩ := meetsTrap_eventsOf accepts
            plainBelow
            (fun child member =>
              induction child member (plainBelow child member))
            trappedBelow entered 0
          exact ⟨history, block, meets.append _⟩
        · -- No child fails, so the node itself is the first block with a
          -- template below it.
          have freeBelow : ∀ child ∈ node.children,
              child.BlocksTemplateFree := by
            simpa using trappedBelow
          have trap : node.kind.isBlock = true ∧
              ∃ child ∈ node.children, ¬child.TemplateFree := by
            have notHere : ¬(node.kind.isBlock = true →
                ∀ child ∈ node.children, child.TemplateFree) := by
              intro freeHere
              exact trapped
                (Node.blocksTemplateFree_iff.mpr ⟨freeHere, freeBelow⟩)
            simpa using notHere
          refine ⟨Node.eventsOf 0 node.children, ⟨[], node⟩, List.prefix_refl _,
            Node.trapsTemplate_iff.mpr trap, ?_, ?_, ?_⟩
          · intro event member _
            obtain ⟨child, childMember, inner, innerMember, same, _⟩ :=
              Node.mem_eventsOf member
            rw [same]
            exact (freeBelow child childMember).no_trap_of_mem_events
              innerMember
          · apply Visitor.smooth_eventsOf
            intro child member
            exact smooth_of_fit accepts (plainBelow child member)
              (freeBelow child member)
          · exact Scope.along_eventsOf_frames
              (fun child member =>
                Scope.along_frames_of_template (freeBelow child member))
              (.inr trap.2) 0
      obtain ⟨history, block, meets⟩ := children
      refine ⟨node.entering :: history, block, ?_⟩
      rw [Node.events_eq]
      exact MeetsTrap.after enters harmless meets

theorem call_leave_of_unopened {node : Node}
    (isBlock : node.kind.isBlock = true) {scope : Scope}
    (unopened : scope.frames = []) :
    (checker.visitor.call .leave scope node).result = .error .noOpenFrame := by
  obtain ⟨names, role⟩ : ∃ names, node.role checker.config = .block names :=
    Node.role_of_block isBlock
  simp [Visitor.call, Visitor.accept, visitor, leave, Scope.leave,
    Scope.closeBlock?, role, unopened]

end Checker

/-- The walk ends where it leaves the first block with a template below it,
since there no frame is open. -/
structure FailsAtTrap (root : Node) (passage : Passage Scope Node) : Prop where
  result : passage.result = .error .noOpenFrame
  calls : ∃ history block future,
    root.events = history ++ ⟨block, .leave⟩ :: future ∧
    block.node.TrapsTemplate ∧
    (∀ event ∈ history, event.hook = .leave → ¬event.node.TrapsTemplate) ∧
    passage.calls.map (fun callback => (callback.hook, callback.node)) =
      (history ++ [⟨block, .leave⟩]).map fun event => (event.hook, event.node)

/-- The walk comes through the whole tree and gives it back.  The frames that
were open before are open again, unless a template has forgotten them. -/
structure Completes (scope : Scope) (root : Node)
    (passage : Passage Scope Node) : Prop where
  result : passage.result = .ok root
  calls : passage.calls.map (fun callback => (callback.hook, callback.node)) =
    root.events.map fun event => (event.hook, event.node)
  kept : (∀ inner ∈ root.nodes, inner.kind ≠ .template) →
    passage.state.frames = scope.frames
  emptied : (∃ inner ∈ root.nodes, inner.kind = .template) →
    passage.state.frames = []

namespace Checker

variable {checker : Checker}

theorem failsAtTrap (accepts : ∀ d, (checker.report d).refusal = none)
    {root : Node} (plain : root.PlainParameters)
    (trapped : ∃ inner ∈ root.nodes, inner.TrapsTemplate) (scope : Scope) :
    FailsAtTrap root (checker.visitor.passFrom scope root) := by
  have notFree : ¬root.BlocksTemplateFree := by
    rw [Node.blocksTemplateFree_iff_no_trap]
    simpa using trapped
  obtain ⟨history, block, meets⟩ := exists_meetsTrap accepts plain notFree scope
  obtain ⟨future, begins⟩ := meets.begins
  have split : root.events = history ++ ⟨block, .leave⟩ :: future := by
    rw [← begins, List.append_assoc]
    rfl
  have unopened : (checker.visitor.stateAfter scope history).frames = [] := by
    rw [checker.stateAfter_eq]
    exact meets.unopened
  have failed : checker.visitor.passFrom scope root = _ :=
    checker.visitor_keeps.passFrom_of_failure split meets.smooth
      (call_leave_of_unopened meets.traps.1 unopened)
  rw [failed]
  refine ⟨rfl, history, block, future, split, meets.traps, meets.first, ?_⟩
  exact checker.visitor.map_hook_node_callbacks scope _

theorem completes (accepts : ∀ d, (checker.report d).refusal = none)
    {root : Node} (plain : root.PlainParameters)
    (free : ∀ inner ∈ root.nodes, ¬inner.TrapsTemplate) (scope : Scope) :
    Completes scope root (checker.visitor.passFrom scope root) := by
  have blocksFree := Node.blocksTemplateFree_iff_no_trap.mpr free
  have complete : checker.visitor.passFrom scope root = _ :=
    checker.visitor_keeps.passFrom_of_smooth
      (smooth_of_fit accepts plain blocksFree scope)
  have state : (checker.visitor.passFrom scope root).state =
      scope.along checker.config checker.home root.events := by
    rw [complete]
    exact checker.stateAfter_eq scope root.events
  constructor
  · rw [complete]
  · rw [complete]
    exact checker.visitor.map_hook_node_callbacks scope root.events
  · intro templateFree
    rw [state]
    exact (Scope.along_templateFree templateFree scope).1
  · intro withTemplate
    rw [state]
    exact Scope.along_frames_of_template blocksFree
      (Node.not_templateFree_iff.mpr withTemplate) scope

/-- From whatever scope it begins, a walk fails exactly if there is a block with
a template below it.  Then it fails on leaving the first such block, and
otherwise it comes to its end. -/
theorem passFrom_fails_iff_trapsTemplate
    (accepts : ∀ d, (checker.report d).refusal = none) {root : Node}
    (plain : root.PlainParameters) (scope : Scope) :
    ((∃ failure,
        (checker.visitor.passFrom scope root).result = .error failure) ↔
      ∃ inner ∈ root.nodes, inner.TrapsTemplate) ∧
    ((∃ inner ∈ root.nodes, inner.TrapsTemplate) →
      FailsAtTrap root (checker.visitor.passFrom scope root)) ∧
    ((∀ inner ∈ root.nodes, ¬inner.TrapsTemplate) →
      Completes scope root (checker.visitor.passFrom scope root)) := by
  have fails := fun trapped => failsAtTrap accepts plain trapped scope
  have ends := fun free => completes accepts plain free scope
  refine ⟨⟨?_, ?_⟩, fails, ends⟩
  · rintro ⟨failure, failed⟩
    apply Classical.byContradiction
    intro untrapped
    have completed := (ends (by simpa using untrapped)).result
    rw [failed] at completed
    cases completed
  · intro trapped
    exact ⟨_, (fails trapped).result⟩

/-- A loop that holds a lambda and an inner loop with something in it. -/
def gallery (inside : Node) : Node :=
  ⟨0, ⟨1, 0⟩, .loop .plain ⟨1, ⟨1, 4⟩, .name "page" "store"⟩
      ⟨2, ⟨1, 12⟩, .name "pages" "load"⟩
    [⟨3, ⟨2, 0⟩, .lambda ["x"] ⟨4, ⟨2, 7⟩, .name "x" "load"⟩⟩,
     ⟨5, ⟨3, 0⟩, .loop .async ⟨6, ⟨3, 4⟩, .name "slide" "store"⟩
       ⟨7, ⟨3, 13⟩, .name "slides" "load"⟩ [inside] [] none⟩] [] none⟩

/-- A scope as a walk may leave it behind that was given up. -/
def abandoned : Scope :=
  ⟨some "card", [some "title"], [⟨1, 2⟩, ⟨0, 1⟩], [8], "cards.html"⟩

theorem passFrom_gallery :
    let trapping := gallery ⟨8, ⟨4, 0⟩, .template [] none⟩
    let plain := gallery ⟨8, ⟨4, 0⟩, .text "slide"⟩
    (∃ inner ∈ trapping.nodes, inner.TrapsTemplate) ∧
    FailsAtTrap trapping ((visitor {}).passFrom abandoned trapping) ∧
    (((visitor {}).passFrom abandoned trapping).calls.getLast?.map
      fun callback => (callback.hook, callback.node.id)) = some (.leave, 5) ∧
    (∀ inner ∈ plain.nodes, ¬inner.TrapsTemplate) ∧
    Completes abandoned plain ((visitor {}).passFrom abandoned plain) := by
  intro trapping plain
  have trapped : ∃ inner ∈ trapping.nodes, inner.TrapsTemplate := by
    decide +kernel
  have free : ∀ inner ∈ plain.nodes, ¬inner.TrapsTemplate := by decide +kernel
  have trappingParameters : trapping.PlainParameters := by decide +kernel
  have plainParameters : plain.PlainParameters := by decide +kernel
  have accepts : ∀ d, (Checker.report {} d).refusal = none := fun _ => rfl
  obtain ⟨_, fails, _⟩ :=
    passFrom_fails_iff_trapsTemplate accepts trappingParameters abandoned
  obtain ⟨_, _, ends⟩ :=
    passFrom_fails_iff_trapsTemplate accepts plainParameters abandoned
  exact ⟨trapped, fails trapped, by decide +kernel, free, ends free⟩

end Checker

end ScopeLint
