import ScopeLint.Proofs.CurrentMacro

/-!
# Targets of assignments and loops

A target is taken apart through tuples and lists.  The names to which this
leads are the ones that an assignment or a loop binds, and it binds them before
a walk comes to the target.  They stay bound while the target is walked, or the
walk is outside all macros from then on.  So none of them is reported there,
and what is reported in a target lies below a node of another kind.
-/

namespace ScopeLint

/-- Tuples and lists, through which a target is taken apart. -/
def Kind.isCollection : Kind → Bool
  | tuple | list => true
  | _ => false

namespace Shape

variable {α : Type}

/-- What an assignment or a loop binds names through. -/
def target? : Shape α → Option α
  | loop _ target .. | assign _ target _ => some target
  | _ => none

/-- The word that a name consists of. -/
def word? : Shape α → Option String
  | name word _ => some word
  | _ => none

end Shape

/-- A name in a target that has nothing but tuples and lists above it. -/
def BoundIn (target : Node) (occurrence : Occurrence) : Prop :=
  occurrence.node.kind = .name ∧
    ∀ upper ∈ target.occurrences, upper.Above occurrence →
      upper.node.kind.isCollection = true

instance (target : Node) (occurrence : Occurrence) :
    Decidable (BoundIn target occurrence) :=
  inferInstanceAs (Decidable (_ ∧ _))

/-- The names that a target binds, in the order in which a walk comes to
them. -/
def Node.bound (target : Node) : List Occurrence :=
  target.occurrences.filter fun occurrence => BoundIn target occurrence

/-! ## Which names are bound -/

theorem Occurrence.above_under_iff {upper lower : Occurrence} {place : Nat} :
    (upper.under place).Above (lower.under place) ↔ upper.Above lower := by
  simp [Above, under]

theorem Occurrence.root_above_under (node : Node) (place : Nat)
    (lower : Occurrence) :
    Above ⟨[], node⟩ (lower.under place) :=
  ⟨List.nil_prefix, (List.cons_ne_nil _ _).symm⟩

/-- A name in a child is bound in the node if it is bound in the child and the
node is a tuple or list. -/
theorem boundIn_under_iff {node child : Node} {before after : List Node}
    (children : node.children = before ++ child :: after)
    {occurrence : Occurrence} :
    BoundIn node (occurrence.under before.length) ↔
      node.kind.isCollection = true ∧ BoundIn child occurrence := by
  constructor
  · rintro ⟨isName, through⟩
    refine ⟨through ⟨[], node⟩ ?_ (Occurrence.root_above_under ..), isName, ?_⟩
    · exact Node.mem_occurrences_nil_iff.mpr rfl
    · intro upper inside above
      apply through (upper.under before.length)
      · exact (Node.mem_occurrences_below_iff children).mpr inside
      · exact Occurrence.above_under_iff.mpr above
  · rintro ⟨isCollection, isName, through⟩
    refine ⟨isName, ?_⟩
    rintro ⟨path, upper⟩ member above
    cases path with
    | nil =>
        obtain rfl := Node.mem_occurrences_nil_iff.mp member
        exact isCollection
    | cons place path =>
        -- What is above the name lies on the way to it, so in the same child.
        obtain rfl := (List.cons_prefix_cons.mp above.1).1
        have inside := (Node.mem_occurrences_below_iff children).mp member
        exact through ⟨path, upper⟩ inside (Occurrence.above_under_iff.mp above)

theorem word?_of_boundIn {target : Node} {occurrence : Occurrence}
    (bound : BoundIn target occurrence) :
    ∃ word, occurrence.node.shape.word? = some word := by
  obtain ⟨word, usage, shape⟩ := Node.shape_of_name bound.1
  exact ⟨word, by rw [shape, Shape.word?]⟩

theorem exists_above_of_not_boundIn {target : Node} {occurrence : Occurrence}
    (isName : occurrence.node.kind = .name)
    (unbound : ¬BoundIn target occurrence) :
    ∃ upper ∈ target.occurrences, upper.Above occurrence ∧
      upper.node.kind.isCollection = false := by
  simpa [BoundIn, isName] using unbound

private theorem map_word?_bound_siblings {node : Node}
    (isCollection : node.kind.isCollection = true) {before siblings : List Node}
    (children : node.children = before ++ siblings)
    (below : ∀ child ∈ siblings,
      child.bound.map (·.node.shape.word?) = child.targetNames.map some) :
    ((Event.entered (Node.eventsOf before.length siblings)).filter
        fun occurrence => BoundIn node occurrence).map (·.node.shape.word?) =
      (siblings.flatMap Node.targetNames).map some := by
  induction siblings generalizing before with
  | nil => rfl
  | cons child rest induction =>
      have here :
          (child.occurrences.map (Occurrence.under before.length)).filter
              (fun occurrence => BoundIn node occurrence) =
            child.bound.map (Occurrence.under before.length) := by
        simp only [List.filter_map, Function.comp_def,
          boundIn_under_iff children, isCollection, true_and, Node.bound]
      have later := @induction (before ++ [child]) (by simp [children])
        fun other member => below other (List.mem_cons_of_mem _ member)
      rw [List.length_append, List.length_singleton] at later
      rw [Node.entered_eventsOf_cons, List.filter_append, List.map_append, here,
        later, List.map_map, List.flatMap_cons, List.map_append,
        ← below child List.mem_cons_self]
      rfl

theorem not_boundIn_of_other {node : Node} (noName : node.kind ≠ .name)
    (noCollection : node.kind.isCollection = false) {occurrence : Occurrence}
    (member : occurrence ∈ node.occurrences) : ¬BoundIn node occurrence := by
  rintro ⟨isName, through⟩
  rw [Node.occurrences_eq] at member
  rcases List.mem_cons.mp member with rfl | below
  · exact noName isName
  · obtain ⟨place, path, _, _, equal⟩ := Node.path_of_mem_entered_eventsOf below
    have above : Occurrence.Above ⟨[], node⟩ occurrence := by
      simp [Occurrence.Above, equal]
    have isCollection :=
      through ⟨[], node⟩ (Node.mem_occurrences_nil_iff.mpr rfl) above
    rw [noCollection] at isCollection
    cases isCollection

theorem bound_of_other {node : Node} (noName : node.kind ≠ .name)
    (noCollection : node.kind.isCollection = false) : node.bound = [] := by
  apply List.filter_eq_nil_iff.mpr
  intro occurrence member
  simpa using not_boundIn_of_other noName noCollection member

theorem bound_of_name {node : Node} (isName : node.kind = .name) :
    node.bound = [⟨[], node⟩] := by
  obtain ⟨word, usage, shape⟩ := Node.shape_of_name isName
  have alone : node.occurrences = [⟨[], node⟩] := by
    rw [Node.occurrences_eq, Node.children, shape]
    rfl
  have isBound : BoundIn node ⟨[], node⟩ := by
    refine ⟨isName, ?_⟩
    intro upper _ above
    exact absurd (List.prefix_nil.mp above.1) above.2
  simp [Node.bound, alone, isBound]

/-- The names that a target binds, as the scope takes them, are the words of the
names in it that have nothing but tuples and lists above them. -/
theorem Node.map_word?_bound (target : Node) :
    target.bound.map (·.node.shape.word?) = target.targetNames.map some := by
  induction target using Node.induction_on_children with
  | step node induction =>
      have collection : node.kind.isCollection = true →
          node.bound.map (·.node.shape.word?) =
            (node.children.flatMap Node.targetNames).map some := by
        intro isCollection
        have noName : node.kind ≠ .name := by
          intro isName
          rw [isName] at isCollection
          cases isCollection
        have noRoot : ¬BoundIn node ⟨[], node⟩ := fun bound => noName bound.1
        rw [Node.bound, Node.occurrences_eq,
          List.filter_cons_of_neg (by simpa using noRoot)]
        exact @map_word?_bound_siblings node isCollection [] node.children
          rfl induction
      rw [Node.targetNames_eq]
      cases shape : node.shape with
      | name word usage =>
          rw [bound_of_name (congrArg Shape.kind shape)]
          simp [shape, Shape.word?]
      | tuple items usage =>
          rw [collection (by rw [Node.kind, shape]; rfl), Node.children, shape]
          rfl
      | list items =>
          rw [collection (by rw [Node.kind, shape]; rfl), Node.children, shape]
          rfl
      | loop mode =>
          rw [bound_of_other] <;> cases mode <;>
            simp [Node.kind, shape, Shape.kind, Kind.isCollection]
      | assign form =>
          rw [bound_of_other] <;> cases form <;>
            simp [Node.kind, shape, Shape.kind, Kind.isCollection]
      | _ =>
          rw [bound_of_other] <;>
            simp [Node.kind, shape, Shape.kind, Kind.isCollection]

theorem mem_targetNames_of_boundIn {target : Node} {occurrence : Occurrence}
    (member : occurrence ∈ target.occurrences)
    (bound : BoundIn target occurrence)
    {word : String} (called : occurrence.node.shape.word? = some word) :
    word ∈ target.targetNames := by
  have isBound : occurrence ∈ target.bound :=
    List.mem_filter.mpr ⟨member, by simpa using bound⟩
  have listed : some word ∈ target.targetNames.map some := by
    rw [← target.map_word?_bound, ← called]
    exact List.mem_map_of_mem isBound
  simpa using listed

/-! ## What keeps them from being reported -/

namespace Scope

/-- None of these words is reported in this scope: it is outside all macros, or
it declares them all. -/
def Spares (words : List String) (scope : Scope) : Prop :=
  scope.inMacro = none ∨ ∀ word ∈ words, some word ∈ scope.names

variable {config : Config} {home : String} {words : List String} {scope : Scope}

theorem Spares.found_eq (spares : scope.Spares words) {occurrence : Occurrence}
    {word : String} (called : occurrence.node.shape.word? = some word)
    (member : word ∈ words) :
    scope.found config home ⟨occurrence, .enter⟩ = none := by
  cases found : scope.found config home ⟨occurrence, .enter⟩ with
  | none => rfl
  | some d =>
      obtain ⟨shape, _, _, _, inside⟩ := found_eq_some found
      rcases spares with outside | declares
      · rw [outside] at inside
        cases inside
      · have isMissing : d.missing = word := by
          rw [shape] at called
          exact Option.some.inj called
        have declared : scope.Declares config d.missing := by
          rw [isMissing]
          exact .inl (declares word member)
        simp [Scope.found, Node.role, shape, isRead, enter, finding?, inside,
          declared] at found

/-- Whatever stands in a tree, its walk takes no name away that was declared
before unless it leads out of all macros. -/
theorem Spares.along_events (spares : scope.Spares words) (node : Node) :
    (scope.along config home node.events).Spares words := by
  by_cases quiet : node.Quiet
  · obtain ⟨guarded, passed⟩ := along_quiet config home quiet scope
    rw [passed]
    apply spares.imp_right
    intro declares word member
    exact List.mem_append_left _ (declares word member)
  · exact .inl (along_inMacro_of_not_quiet quiet scope)

theorem step_entering_collection {node : Node}
    (isCollection : node.kind.isCollection = true) (scope : Scope) :
    scope.step config home node.entering = scope := by
  obtain ⟨id, position, shape⟩ := node
  cases shape with
  | tuple items usage => rfl
  | list items => rfl
  | loop mode => cases mode <;> cases isCollection
  | assign form => cases form <;> cases isCollection
  | _ => cases isCollection

/-- Where a walk comes to a name that the target binds, it has met nothing but
tuples and lists on its way down and complete trees beside it. -/
theorem Spares.along_stage {target : Node} {history : List Event}
    {current : Event} (stage : Stage target history current)
    (enters : current.hook = .enter)
    (bound : BoundIn target current.toOccurrence)
    (spares : scope.Spares words) :
    (scope.along config home history).Spares words := by
  induction stage generalizing scope with
  | entering node => exact spares
  | inside children stage induction =>
      obtain ⟨isCollection, boundBelow⟩ := (boundIn_under_iff children).mp bound
      rw [along_cons, along_append, along_map_under,
        step_entering_collection isCollection]
      apply induction enters boundBelow
      apply along_eventsOf_preserves config home (Spares words) _ spares
      intro child _ later sparesLater
      exact sparesLater.along_events child
  | leaving node => cases enters

theorem spares_entering {node target : Node}
    (hasTarget : node.shape.target? = some target) (scope : Scope) :
    (scope.step config home node.entering).Spares target.targetNames := by
  right
  intro word member
  obtain ⟨id, position, shape⟩ := node
  cases shape with
  | loop mode source =>
      obtain rfl := Option.some.inj hasTarget
      have inLoop : word ∈ loopNames config source := by
        rw [loopNames]
        split <;> simp_all
      exact List.mem_append_right _ (List.mem_map_of_mem inLoop)
  | assign form source =>
      obtain rfl := Option.some.inj hasTarget
      exact List.mem_append_right _ (List.mem_map_of_mem member)
  | _ => cases hasTarget

/-- A walk that has entered an assignment or a loop finds nothing where it comes
to a name that the target binds. -/
theorem found_of_boundIn {node target : Node}
    (hasTarget : node.shape.target? = some target) {history future : List Event}
    {event : Event} (split : target.events = history ++ event :: future)
    (bound : BoundIn target event.toOccurrence) (scope : Scope) :
    ((scope.step config home node.entering).along config home history).found
      config home event = none := by
  obtain ⟨occurrence, hook⟩ := event
  cases hook with
  | leave => rfl
  | enter =>
      obtain ⟨word, called⟩ := word?_of_boundIn bound
      have member : occurrence ∈ target.occurrences := by
        rw [Node.occurrences, split, Event.entered_append]
        exact List.mem_append_right _ List.mem_cons_self
      apply Spares.found_eq _ called
        (mem_targetNames_of_boundIn member bound called)
      apply Spares.along_stage (Stage.of_split split) rfl bound
      exact spares_entering hasTarget scope

end Scope

theorem Node.children_of_target {node target : Node}
    (hasTarget : node.shape.target? = some target) :
    ∃ rest, node.children = target :: rest := by
  obtain ⟨id, position, shape⟩ := node
  cases shape with
  | loop mode source iterated body empty only =>
      obtain rfl := Option.some.inj hasTarget
      exact ⟨_, rfl⟩
  | assign form source value =>
      obtain rfl := Option.some.inj hasTarget
      exact ⟨_, rfl⟩
  | _ => cases hasTarget

namespace Checker

/-- The callback that the walk of a node makes for an event of its target, if it
comes so far. -/
theorem callback_of_target {checker : Checker} {scope : Scope}
    {node target : Node} (hasTarget : node.shape.target? = some target)
    {history future : List Event} {event : Event}
    (split : target.events = history ++ event :: future)
    {callback : Callback Scope}
    (made : (checker.visitor.passFrom scope node).calls[history.length + 1]? =
      some callback) :
    callback = ⟨event.hook, event.node, checker.visitor.react event.hook
      ((scope.step checker.config checker.home node.entering).along
        checker.config checker.home history) event.node⟩ := by
  obtain ⟨rest, children⟩ := Node.children_of_target hasTarget
  have splitNode : node.events =
      (node.entering :: history.map (Event.under 0)) ++ event.under 0 ::
        (future.map (Event.under 0) ++ Node.eventsOf 1 rest ++
          [node.leaving]) := by
    rw [Node.events_eq, children, Node.eventsOf_cons, split]
    simp
  have madeNode : (checker.visitor.passFrom scope node).calls[
      (node.entering :: history.map (Event.under 0)).length]? =
        some callback := by
    simpa using made
  have answered := checker.visitor_keeps.callback_eq splitNode madeNode
  rw [answered, checker.stateAfter_eq, Scope.along_cons, Scope.along_map_under]
  rfl

/-- What a target binds is what tuples and lists in it lead to, in the order of
a walk.  From whatever scope it begins, the walk of an assignment or a loop has
nothing to say about these names where they stand in the target, and what it
reports in the target is a name that lies below a node of another kind. -/
theorem passFrom_spares_target (checker : Checker) (scope : Scope)
    {node target : Node} (hasTarget : node.shape.target? = some target) :
    target.bound.map (·.node.shape.word?) = target.targetNames.map some ∧
    ∀ history event future callback,
      target.events = history ++ event :: future →
      (checker.visitor.passFrom scope node).calls[history.length + 1]? =
        some callback →
      callback.hook = event.hook ∧ callback.node = event.node ∧
      (BoundIn target event.toOccurrence → callback.reaction.journal = ∅) ∧
      (callback.reaction.journal ≠ ∅ →
        event.hook = .enter ∧ event.node.kind = .name ∧
          ∃ upper ∈ target.occurrences, upper.Above event.toOccurrence ∧
            upper.node.kind.isCollection = false) := by
  refine ⟨target.map_word?_bound, ?_⟩
  intro history event future callback split made
  obtain rfl := callback_of_target hasTarget split made
  have journal := checker.journal_react
    ((scope.step checker.config checker.home node.entering).along
      checker.config checker.home history) event
  refine ⟨rfl, rfl, ?_, ?_⟩
  · intro bound
    rw [journal, Scope.found_of_boundIn hasTarget split bound scope]
  · intro reported
    cases found : ((scope.step checker.config checker.home node.entering).along
      checker.config checker.home history).found
      checker.config checker.home event with
    | none =>
        rw [journal, found] at reported
        exact absurd rfl reported
    | some d =>
        obtain ⟨occurrence, hook⟩ := event
        cases hook with
        | leave => cases found
        | enter =>
            have isName : occurrence.node.kind = .name :=
              congrArg Shape.kind (Scope.found_eq_some found).1
            refine ⟨rfl, isName, exists_above_of_not_boundIn isName ?_⟩
            intro bound
            rw [Scope.found_of_boundIn hasTarget split bound scope] at found
            cases found

/-- A pair whose second half is taken apart further, into a list beside a lambda
and into a field. -/
def unpacked : Node :=
  ⟨1, ⟨1, 4⟩, .tuple
    [⟨2, ⟨1, 4⟩, .name "key" "store"⟩,
     ⟨3, ⟨1, 9⟩, .list
       [⟨4, ⟨1, 10⟩, .lambda ["x"] ⟨5, ⟨1, 17⟩, .name "x" "load"⟩⟩,
        ⟨6, ⟨1, 20⟩, .name "item" "load"⟩]⟩,
     ⟨7, ⟨1, 26⟩, .member ⟨8, ⟨1, 26⟩, .name "holder" "load"⟩ "slot"⟩] "store"⟩

def unpacking : Node :=
  ⟨0, ⟨1, 0⟩,
    .loop .async unpacked ⟨9, ⟨1, 40⟩, .name "rows" "load"⟩ [] [] none⟩

theorem passFrom_spares_target_unpacking :
    let inside : Scope := ⟨some "table", [], [⟨3, 1⟩], [], "page.html"⟩
    unpacking.shape.target? = some unpacked ∧
    unpacked.bound.map (·.node.shape.word?) = [some "key", some "item"] ∧
    (BoundIn unpacked ⟨[1, 1], ⟨6, ⟨1, 20⟩, .name "item" "load"⟩⟩ ∧
      ∃ callback : Callback Scope,
        ((visitor {}).passFrom inside unpacking).calls[9]? = some callback ∧
        callback.reaction.journal = ∅) ∧
    ∃ callback : Callback Scope,
      ((visitor {}).passFrom inside unpacking).calls[13]? = some callback ∧
      callback.reaction.journal.findings.map (·.missing) = ["holder"] ∧
      ∃ upper ∈ unpacked.occurrences,
        upper.Above ⟨[2, 0], ⟨8, ⟨1, 26⟩, .name "holder" "load"⟩⟩ ∧
          upper.node.kind.isCollection = false := by
  intro inside
  obtain ⟨words, atEvent⟩ :=
    passFrom_spares_target {} inside (rfl : unpacking.shape.target? = _)
  have itemBound :
      BoundIn unpacked ⟨[1, 1], ⟨6, ⟨1, 20⟩, .name "item" "load"⟩⟩ := by
    decide +kernel
  have comesToItem :
      ((visitor {}).passFrom inside unpacking).calls[9]?.isSome = true := by
    decide +kernel
  obtain ⟨item, itemMade⟩ := Option.isSome_iff_exists.mp comesToItem
  have findsHolder : (((visitor {}).passFrom inside unpacking).calls[13]?.map
      fun callback => callback.reaction.journal.findings.map (·.missing)) =
        some ["holder"] := by
    decide +kernel
  obtain ⟨holder, holderMade, holderFound⟩ :=
    Option.map_eq_some_iff.mp findsHolder
  obtain ⟨_, _, silent, _⟩ := atEvent (unpacked.events.take 8)
    ⟨⟨[1, 1], ⟨6, ⟨1, 20⟩, .name "item" "load"⟩⟩, .enter⟩
    (unpacked.events.drop 9) item rfl itemMade
  obtain ⟨_, _, _, below⟩ := atEvent (unpacked.events.take 12)
    ⟨⟨[2, 0], ⟨8, ⟨1, 26⟩, .name "holder" "load"⟩⟩, .enter⟩
    (unpacked.events.drop 13) holder rfl holderMade
  have reported : holder.reaction.journal ≠ ∅ := by
    intro nothing
    rw [nothing] at holderFound
    cases holderFound
  exact ⟨rfl, words.trans (by decide +kernel),
    ⟨itemBound, item, itemMade, silent itemBound⟩, holder, holderMade,
    holderFound, (below reported).2.2⟩

end Checker

end ScopeLint
