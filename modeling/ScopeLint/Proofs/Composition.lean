import ScopeLint.Proofs.Course
import ScopeLint.Sample
import ScopeLint.Visitor.Script

/-!
# Several visitors in turn

Visitors run by priority, and those of one priority in the order in which they
were registered.  Each walks the root that the one before it gave back.  What a
visitor puts in the place of a node below the root is dropped after its walk,
so as long as the root itself comes back, every visitor walks the tree as if it
were alone.
-/

namespace ScopeLint

/-! ## The order of visitors -/

/-- The visitor that was registered at one place runs before the one at another:
its priority is lower, or it is the same and the place comes earlier. -/
def RunsBefore (visitors : List Visitor) (i j : Nat) : Prop :=
  ∃ first second, visitors[i]? = some first ∧ visitors[j]? = some second ∧
    (first.priority < second.priority ∨
      first.priority = second.priority ∧ i < j)

/-- Every place at which a visitor was registered, in an order in which those
that run before others come before them. -/
structure IsRunOrder (visitors : List Visitor) (places : List Nat) : Prop where
  complete : places.Perm (List.range visitors.length)
  sorted : places.Pairwise (RunsBefore visitors)

theorem RunsBefore.asymm {visitors : List Visitor} {i j : Nat}
    (before : RunsBefore visitors i j) :
    ¬RunsBefore visitors j i := by
  rintro ⟨second, first, secondAt, firstAt, after⟩
  obtain ⟨first', second', firstAt', secondAt', earlier⟩ := before
  cases Option.some.inj (firstAt.symm.trans firstAt')
  cases Option.some.inj (secondAt.symm.trans secondAt')
  omega

/-- There is at most one order in which visitors may run. -/
theorem IsRunOrder.unique {visitors : List Visitor} {places others : List Nat}
    (isOrder : IsRunOrder visitors places)
    (otherIsOrder : IsRunOrder visitors others) :
    places = others := by
  apply List.Perm.eq_of_pairwise _ isOrder.sorted otherIsOrder.sorted
  · exact isOrder.complete.trans otherIsOrder.complete.symm
  · intro i j _ _ before after
    exact absurd after before.asymm

theorem schedule_perm (visitors : List Visitor) :
    (schedule visitors).Perm visitors.zipIdx :=
  List.mergeSort_perm _ _

theorem getElem?_of_mem_schedule {visitors : List Visitor}
    {entry : Visitor × Nat} (member : entry ∈ schedule visitors) :
    visitors[entry.2]? = some entry.1 :=
  List.mem_zipIdx_iff_getElem?.mp ((schedule_perm visitors).mem_iff.mp member)

theorem schedule_complete (visitors : List Visitor) :
    ((schedule visitors).map Prod.snd).Perm (List.range visitors.length) := by
  have places := (schedule_perm visitors).map Prod.snd
  rwa [List.zipIdx_map_snd, ← List.range_eq_range'] at places

private theorem place_of_mem_zipIdx {visitors : List Visitor}
    {entry : (Visitor × Nat) × Nat} (member : entry ∈ visitors.zipIdx.zipIdx) :
    entry.1.2 = entry.2 := by
  have found := List.mem_zipIdx_iff_getElem?.mp member
  rw [List.getElem?_zipIdx] at found
  obtain ⟨visitor, _, same⟩ := Option.map_eq_some_iff.mp found
  rw [← same, Nat.zero_add]

/-- Sorting by priority keeps visitors of one priority in the order of their
places. -/
theorem schedule_stable (visitors : List Visitor) :
    (schedule visitors).Pairwise fun first second =>
      first.1.priority ≤ second.1.priority ∧
        (second.1.priority ≤ first.1.priority → first.2 ≤ second.2) := by
  let le : Visitor × Nat → Visitor × Nat → Bool :=
    fun a b => a.1.priority ≤ b.1.priority
  have trans : ∀ a b c, le a b = true → le b c = true → le a c = true := by
    intro a b c
    simp only [le, decide_eq_true_eq]
    exact Int.le_trans
  have total : ∀ a b, (le a b || le b a) = true := by
    intro a b
    simp only [le, Bool.or_eq_true, decide_eq_true_eq]
    exact Int.le_total ..
  -- The library sorts as if ties were broken by the places in the list, and
  -- these are the places that the entries hold.
  have sorted := List.pairwise_mergeSort (List.zipIdxLE_trans trans)
    (List.zipIdxLE_total total) visitors.zipIdx.zipIdx
  rw [schedule, ← List.mergeSort_zipIdx, List.pairwise_map]
  apply sorted.imp_of_mem
  intro first second firstMember secondMember ordered
  rw [place_of_mem_zipIdx (List.mem_mergeSort.mp firstMember),
    place_of_mem_zipIdx (List.mem_mergeSort.mp secondMember)]
  unfold List.zipIdxLE at ordered
  split at ordered
  · rename_i atMost
    refine ⟨by simpa [le] using atMost, fun atLeast => ?_⟩
    rw [if_pos (by simpa [le] using atLeast)] at ordered
    simpa using ordered
  · cases ordered

theorem isRunOrder_schedule (visitors : List Visitor) :
    IsRunOrder visitors ((schedule visitors).map Prod.snd) := by
  refine ⟨schedule_complete visitors, ?_⟩
  have distinct : ((schedule visitors).map Prod.snd).Nodup :=
    (schedule_complete visitors).nodup_iff.mpr List.nodup_range
  rw [List.Nodup, List.pairwise_map] at distinct
  rw [List.pairwise_map]
  apply ((schedule_stable visitors).and distinct).imp_of_mem
  rintro first second firstMember secondMember ⟨⟨atMost, tie⟩, different⟩
  refine ⟨first.1, second.1, getElem?_of_mem_schedule firstMember,
    getElem?_of_mem_schedule secondMember, ?_⟩
  omega

theorem isRunOrder_iff {visitors : List Visitor} {places : List Nat} :
    IsRunOrder visitors places ↔ places = (schedule visitors).map Prod.snd := by
  constructor
  · intro isOrder
    exact isOrder.unique (isRunOrder_schedule visitors)
  · rintro rfl
    exact isRunOrder_schedule visitors

/-! ## What a visitor gets to see -/

namespace Passage

variable {State α β : Type}

/-- What holds of the callbacks of two passages, and of callbacks one after the
other, holds of both passages together. -/
theorem calls_andThen {Holds : List (Callback State) → Prop}
    {first : Passage State α} {next : State → α → Passage State β}
    (append : ∀ calls later, Holds calls → Holds later → Holds (calls ++ later))
    (here : Holds first.calls)
    (later : ∀ a, first.result = .ok a → Holds (next first.state a).calls) :
    Holds (first.andThen next).calls := by
  cases done : first.result with
  | error failure =>
      rw [andThen_of_error done]
      exact here
  | ok a =>
      rw [andThen_of_ok done]
      exact append _ _ here (later a done)

end Passage

/-- Callbacks for nodes of a tree, and for nodes of trees that the visitor put
in their places in one of these callbacks. -/
def StaysInside {State : Type} (root : Node)
    (calls : List (Callback State)) : Prop :=
  ∀ callback ∈ calls, callback.node ∈ root.nodes ∨
    ∃ earlier ∈ calls, ∃ other, earlier.reaction.reply = .replace other ∧
      callback.node ∈ other.nodes

namespace StaysInside

variable {State : Type} {root : Node} {calls later : List (Callback State)}

theorem nil : StaysInside root ([] : List (Callback State)) := by
  intro callback member
  cases member

theorem single {callback : Callback State}
    (inside : callback.node ∈ root.nodes) :
    StaysInside root [callback] := by
  intro other member
  rw [List.mem_singleton.mp member]
  exact .inl inside

theorem append (inside : StaysInside root calls)
    (stillInside : StaysInside root later) :
    StaysInside root (calls ++ later) := by
  intro callback member
  rcases List.mem_append.mp member with here | there
  · apply (inside callback here).imp_right
    rintro ⟨earlier, made, replaced⟩
    exact ⟨earlier, List.mem_append_left _ made, replaced⟩
  · apply (stillInside callback there).imp_right
    rintro ⟨earlier, made, replaced⟩
    exact ⟨earlier, List.mem_append_right _ made, replaced⟩

theorem of_child {child : Node} (member : child ∈ root.children)
    (inside : StaysInside child calls) : StaysInside root calls := by
  intro callback made
  exact (inside callback made).imp_left (Node.mem_nodes_of_mem_children member)

/-- Callbacks inside a replacement, after the callback that made it. -/
theorem cons_replace {callback : Callback State} {other : Node}
    (inside : callback.node ∈ root.nodes)
    (replaced : callback.reaction.reply = .replace other)
    (below : StaysInside other later) :
    StaysInside root (callback :: later) := by
  intro made member
  rcases List.mem_cons.mp member with rfl | member
  · exact .inl inside
  · right
    rcases below made member with inOther | ⟨earlier, earlierMember, deeper⟩
    · exact ⟨callback, List.mem_cons_self, other, replaced, inOther⟩
    · exact ⟨earlier, List.mem_cons_of_mem _ earlierMember, deeper⟩

theorem inTurn {siblings : List Node} {walk : Node → State → Passage State Node}
    (children : ∀ child ∈ siblings, child ∈ root.children)
    (below : ∀ child ∈ siblings, ∀ state,
      StaysInside child (walk child state).calls)
    (state : State) :
    StaysInside root (Passage.inTurn state (siblings.map walk)).calls := by
  induction siblings generalizing state with
  | nil => exact nil
  | cons child rest induction =>
      apply Passage.calls_andThen fun _ _ => append
      · exact of_child (children child List.mem_cons_self)
          (below child List.mem_cons_self state)
      · intro given _
        apply induction
        · intro other member
          exact children other (List.mem_cons_of_mem _ member)
        · intro other member
          exact below other (List.mem_cons_of_mem _ member)

end StaysInside

namespace Visitor

variable (visitor : Visitor)

theorem reply_of_call {hook : Hook} {state : visitor.State} {node other : Node}
    (answered : (visitor.call hook state node).result = .ok (some other)) :
    (visitor.react hook state node).reply = .replace other := by
  cases replied : (visitor.react hook state node).reply with
  | replace given =>
      simp only [call, accept, replied, Except.ok.injEq,
        Option.some.injEq] at answered
      rw [answered]
  | _ => simp [call, accept, replied] at answered

theorem staysInside_finish {node : Node}
    {walk : Node → visitor.State → Passage visitor.State Node}
    (below : ∀ child ∈ node.children, ∀ state,
      StaysInside child (walk child state).calls)
    (state : visitor.State) :
    StaysInside node
      (visitor.finish node (node.children.map walk) state).calls := by
  apply Passage.calls_andThen fun _ _ => StaysInside.append
  · exact StaysInside.inTurn (fun _ member => member) below state
  · intro _ _
    apply Passage.calls_andThen fun _ _ => StaysInside.append
    · exact StaysInside.single node.mem_nodes_self
    · intro other _
      exact StaysInside.nil

theorem staysInside_walkWith
    {replaced : Node → visitor.State → Passage visitor.State Node}
    (inside : ∀ entered state,
      StaysInside entered (replaced entered state).calls)
    (node : Node) (state : visitor.State) :
    StaysInside node (visitor.walkWith replaced node state).calls := by
  induction node using Node.induction_on_children generalizing state with
  | step node induction =>
      rw [walkWith_eq]
      cases answered : (visitor.call .enter state node).result with
      | error failure =>
          rw [Passage.andThen_of_error answered]
          exact StaysInside.single node.mem_nodes_self
      | ok other =>
          rw [Passage.andThen_of_ok answered]
          -- The walk goes on below the node itself or below what the visitor
          -- put there.
          cases other with
          | none =>
              apply StaysInside.append (StaysInside.single node.mem_nodes_self)
              exact visitor.staysInside_finish induction _
          | some entered =>
              apply StaysInside.cons_replace node.mem_nodes_self
              · exact visitor.reply_of_call answered
              · exact inside entered _

theorem staysInside_walk (nesting : Nat) (node : Node) (state : visitor.State) :
    StaysInside node (visitor.walk nesting node state).calls := by
  induction nesting generalizing node state with
  | zero =>
      apply staysInside_walkWith
      intro entered state
      exact StaysInside.nil
  | succ nesting induction =>
      apply staysInside_walkWith
      intro entered state
      exact visitor.staysInside_finish (fun child _ => induction child) state

/-- A visitor sees the nodes of the tree that it walks, and those that it put in
their places itself. -/
theorem staysInside_pass (root : Node) :
    StaysInside root (visitor.pass root).calls :=
  visitor.staysInside_walk _ root _

end Visitor

/-! ## Walks in turn -/

/-- Visitors that give back the root walk it in turn as each would do alone. -/
theorem traverseInTurn_of_kept {visitors : List Visitor} {root : Node}
    (kept : ∀ visitor ∈ visitors, (traverse [visitor] root).result = .ok root) :
    traverseInTurn visitors root =
      ⟨visitors.flatMap fun visitor => (traverse [visitor] root).calls,
        Journal.concat (visitors.map fun visitor =>
          (traverse [visitor] root).journal),
        .ok root⟩ := by
  induction visitors with
  | nil => rfl
  | cons visitor rest induction =>
      have here := kept visitor List.mem_cons_self
      have later :=
        induction fun other member => kept other (List.mem_cons_of_mem _ member)
      rw [result_traverse_single] at here
      rw [traverseInTurn, here]
      simp only [later, List.flatMap_cons, List.map_cons, calls_traverse_single,
        journal_traverse_single]
      rfl

/-- Several visitors walk a tree in turn, each as if it were alone: the root
comes back, callbacks and what they leave behind follow one another, and no
visitor sees what another one put in the place of a node. -/
structure WalksApart (order : List (Visitor × Nat)) (root : Node)
    (traversal : Traversal) : Prop where
  result : traversal.result = .ok root
  calls : traversal.calls =
    order.flatMap fun entry => (traverse [entry.1] root).calls
  journal : traversal.journal =
    Journal.concat (order.map fun entry => (traverse [entry.1] root).journal)
  findings : traversal.journal.findings =
    order.flatMap fun entry => (traverse [entry.1] root).journal.findings
  inside : ∀ entry ∈ order, ∀ call ∈ (traverse [entry.1] root).calls,
    call.node ∈ root.nodes ∨
      ∃ callback ∈ (entry.1.pass root).calls, ∃ other,
        callback.reaction.reply = .replace other ∧ call.node ∈ other.nodes

theorem walksApart_schedule {visitors : List Visitor} {root : Node}
    (kept : ∀ visitor ∈ visitors, (traverse [visitor] root).result = .ok root) :
    WalksApart (schedule visitors) root (traverse visitors root) := by
  have keptInOrder : ∀ visitor ∈ (schedule visitors).map Prod.fst,
      (traverse [visitor] root).result = .ok root := by
    intro visitor member
    obtain ⟨entry, entryMember, rfl⟩ := List.mem_map.mp member
    exact kept entry.1
      (List.mem_of_getElem? (getElem?_of_mem_schedule entryMember))
  have walked : traverse visitors root = _ := traverseInTurn_of_kept keptInOrder
  rw [List.flatMap_map, List.map_map] at walked
  constructor
  · rw [walked]
  · rw [walked]
  · rw [walked]
    rfl
  · rw [walked, Journal.channel_concat rfl Journal.findings_append,
      List.flatMap_map]
    rfl
  · intro entry _ call made
    rw [calls_traverse_single] at made
    obtain ⟨callback, member, rfl⟩ := List.mem_map.mp made
    exact entry.1.staysInside_pass root callback member

theorem Traverser.visitors_foldl_register (first later : List Visitor) :
    (later.foldl register ⟨first⟩).visitors = first ++ later := by
  induction later generalizing first with
  | nil => simp
  | cons visitor later induction =>
      rw [List.foldl_cons, register, induction, List.append_assoc]
      rfl

/-- However visitors are registered, they run in the one order by priority and
then by place.  If each of them gives back the root when it is alone, they walk
it one after the other as each does alone. -/
theorem Traverser.run_registered (first later : List Visitor) (root : Node) :
    let traverser := later.foldl Traverser.register ⟨first⟩
    (∀ places, IsRunOrder (first ++ later) places ↔
      places = traverser.runOrder.map Prod.snd) ∧
    (∀ entry ∈ traverser.runOrder, (first ++ later)[entry.2]? = some entry.1) ∧
    ((∀ visitor ∈ first ++ later, (traverse [visitor] root).result = .ok root) →
      WalksApart traverser.runOrder root (traverser.run root)) := by
  intro traverser
  have registered : traverser.visitors = first ++ later :=
    Traverser.visitors_foldl_register first later
  rw [Traverser.runOrder, Traverser.run, registered]
  refine ⟨fun places => isRunOrder_iff, fun entry =>
    getElem?_of_mem_schedule, ?_⟩
  exact walksApart_schedule

/-- A visitor that corrects the misspelt name in the sample. -/
def corrector : Visitor :=
  Script.visitor
    { name := "Corrector"
      tag := "correct"
      rules := [⟨some .enter, "Name:titel",
        .replace ⟨24, ⟨2, 9⟩, .name "title" "load"⟩⟩] }

/-- A visitor that runs before others and takes the misspelt name for
granted. -/
def tolerant : Visitor :=
  { Checker.visitor { config := { builtin := ["titel"] } } with priority := -1 }

theorem run_registered_corrector :
    let traverser :=
      [Checker.visitor {}, tolerant].foldl Traverser.register ⟨[corrector]⟩
    IsRunOrder [corrector, Checker.visitor {}, tolerant] [2, 0, 1] ∧
    WalksApart traverser.runOrder Sample.template
      (traverser.run Sample.template) ∧
    (traverser.run Sample.template).journal.findings.map (·.missing) =
      ["item", "titel", "item"] := by
  intro traverser
  obtain ⟨order, _, apart⟩ :=
    Traverser.run_registered [corrector] [Checker.visitor {}, tolerant]
    Sample.template
  have kept : ∀ visitor ∈ [corrector] ++ [Checker.visitor {}, tolerant],
      (traverse [visitor] Sample.template).result = .ok Sample.template := by
    simp only [List.cons_append, List.nil_append, List.forall_mem_cons,
      result_traverse_single]
    exact ⟨rfl, rfl, rfl, by simp⟩
  have runOrder : traverser.runOrder =
      [(tolerant, 2), (corrector, 0), (Checker.visitor {}, 1)] := by
    simp [traverser, Traverser.runOrder, Traverser.register, schedule,
      List.mergeSort, corrector, tolerant, Script.visitor, Checker.visitor]
  have places : [2, 0, 1] = traverser.runOrder.map Prod.snd := by
    rw [runOrder]
    rfl
  refine ⟨(order _).mpr places, apart kept, ?_⟩
  rw [(apart kept).findings, runOrder]
  simp only [findings_traverse_single]
  decide +kernel

end ScopeLint
