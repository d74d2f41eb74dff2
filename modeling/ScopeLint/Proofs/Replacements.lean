import Mathlib.Data.Finset.Card
import Mathlib.Logic.Relation
import ScopeLint.Proofs.Course
import ScopeLint.Visitor.Script

/-!
# Walks with replacements

A visitor may put another tree in the place of a node that it enters, and the
walk goes on below that tree.  So the size of the tree that is walked bounds
nothing: a replacement may be larger than what it replaces, and there may be
nodes in it that are replaced again.  `Visitor.Walks` describes walks that come
to their end, without any bound.  If replacements follow rules and no rule leads
back to itself, then every walk comes to its end, and to go through all
replacements takes no deeper nesting than there are rules.
-/

namespace ScopeLint

namespace Visitor

mutual

/-- A complete walk of a node: the callbacks that are made on the way, the state
to which they lead, and the node that comes back.  The walk goes on below the
node that entering gives back. -/
inductive Walks (visitor : Visitor) :
    Node → visitor.State → List (Callback visitor.State) → visitor.State →
    Node → Prop where
  | mk {node : Node} {state middle : visitor.State} {other last : Option Node}
      {below : List (Callback visitor.State)} :
      visitor.accept .enter (visitor.react .enter state node).reply =
        .ok other →
      WalksAll visitor (other.getD node).children
        (visitor.react .enter state node).state below middle →
      visitor.accept .leave
          (visitor.react .leave middle (other.getD node)).reply = .ok last →
      Walks visitor node state
        (⟨.enter, node, visitor.react .enter state node⟩ ::
          (below ++ [⟨.leave, other.getD node,
            visitor.react .leave middle (other.getD node)⟩]))
        (visitor.react .leave middle (other.getD node)).state
        (last.getD (other.getD node))

/-- Complete walks of several nodes one after the other. -/
inductive WalksAll (visitor : Visitor) :
    List Node → visitor.State → List (Callback visitor.State) → visitor.State →
    Prop where
  | nil {state : visitor.State} : WalksAll visitor [] state [] state
  | cons {child given : Node} {rest : List Node}
      {state middle final : visitor.State}
      {first later : List (Callback visitor.State)} :
      Walks visitor child state first middle given →
      WalksAll visitor rest middle later final →
      WalksAll visitor (child :: rest) state (first ++ later) final

end

variable {visitor : Visitor}

mutual

theorem Walks.unique {node given other : Node}
    {state final last : visitor.State}
    {calls others : List (Callback visitor.State)} :
    visitor.Walks node state calls final given →
    visitor.Walks node state others last other →
      calls = others ∧ final = last ∧ given = other
  | .mk entered below left, .mk enteredAgain belowAgain leftAgain => by
      obtain rfl := Except.ok.inj (entered.symm.trans enteredAgain)
      obtain ⟨rfl, rfl⟩ := WalksAll.unique below belowAgain
      obtain rfl := Except.ok.inj (left.symm.trans leftAgain)
      exact ⟨rfl, rfl, rfl⟩

theorem WalksAll.unique {siblings : List Node}
    {state final last : visitor.State}
    {calls others : List (Callback visitor.State)} :
    visitor.WalksAll siblings state calls final →
    visitor.WalksAll siblings state others last →
      calls = others ∧ final = last
  | .nil, .nil => ⟨rfl, rfl⟩
  | .cons first later, .cons firstAgain laterAgain => by
      obtain ⟨rfl, rfl, _⟩ := Walks.unique first firstAgain
      obtain ⟨rfl, rfl⟩ := WalksAll.unique later laterAgain
      exact ⟨rfl, rfl⟩

end

/-- Where entering a node gave another one back, the walks of the children of
that one follow, and then it is left.  It is not entered itself. -/
def GoesOnBelow (visitor : Visitor)
    (calls : List (Callback visitor.State)) : Prop :=
  ∀ before callback after other, calls = before ++ callback :: after →
    callback.hook = .enter → callback.reaction.reply = .replace other →
    ∃ below middle rest,
      visitor.WalksAll other.children callback.reaction.state below middle ∧
      after =
        below ++ ⟨.leave, other, visitor.react .leave middle other⟩ :: rest

namespace GoesOnBelow

theorem nil : visitor.GoesOnBelow [] := by
  intro before callback after other split
  exact absurd split.symm
    (List.append_ne_nil_of_right_ne_nil _ (List.cons_ne_nil _ _))

theorem append {calls later : List (Callback visitor.State)}
    (here : visitor.GoesOnBelow calls) (there : visitor.GoesOnBelow later) :
    visitor.GoesOnBelow (calls ++ later) := by
  intro before callback after other split enters replaced
  rcases split_of_append split with ⟨rest, inCalls⟩ | ⟨skipped, _, inLater⟩
  · obtain ⟨below, middle, remaining, walks, rfl⟩ :=
      here before callback rest other inCalls enters replaced
    refine ⟨below, middle, remaining ++ later, walks, ?_⟩
    rw [inCalls, List.append_assoc, List.append_cancel_left_eq,
      List.cons_append] at split
    rw [← (List.cons.inj split).2, List.append_assoc, List.cons_append]
  · exact there skipped callback after other inLater enters replaced

theorem cons {callback : Callback visitor.State}
    {later : List (Callback visitor.State)}
    (here : ∀ other, callback.hook = .enter →
      callback.reaction.reply = .replace other →
      ∃ below middle rest,
        visitor.WalksAll other.children callback.reaction.state below middle ∧
        later =
          below ++ ⟨.leave, other, visitor.react .leave middle other⟩ :: rest)
    (there : visitor.GoesOnBelow later) :
    visitor.GoesOnBelow (callback :: later) := by
  intro before made after other split enters replaced
  cases before with
  | nil =>
      obtain ⟨rfl, rfl⟩ := List.cons.inj split
      exact here other enters replaced
  | cons head before =>
      exact there before made after other (List.cons.inj split).2
        enters replaced

end GoesOnBelow

mutual

theorem Walks.goesOnBelow {node given : Node} {state final : visitor.State}
    {calls : List (Callback visitor.State)} :
    visitor.Walks node state calls final given → visitor.GoesOnBelow calls
  | @Walks.mk _ _ _ middle answer _ below entered walks _ => by
      apply GoesOnBelow.cons
      · intro other _ replaced
        rw [replaced] at entered
        obtain rfl := Except.ok.inj entered
        exact ⟨below, middle, [], walks, rfl⟩
      · apply walks.goesOnBelow.append
        -- The callback at the end leaves a node, so nothing is asked of it.
        exact GoesOnBelow.cons (fun other enters => nomatch enters)
          GoesOnBelow.nil

theorem WalksAll.goesOnBelow {siblings : List Node}
    {state final : visitor.State} {calls : List (Callback visitor.State)} :
    visitor.WalksAll siblings state calls final → visitor.GoesOnBelow calls
  | .nil => GoesOnBelow.nil
  | .cons first later => first.goesOnBelow.append later.goesOnBelow

end

/-! ## Walks with bounded nesting -/

/-- A bounded walk that comes to its end, and is a complete walk then. -/
def Completes (visitor : Visitor) (nesting : Nat) (node : Node) : Prop :=
  ∀ state, ∃ calls final given, visitor.Walks node state calls final given ∧
    visitor.walk nesting node state = ⟨calls, final, .ok given⟩

theorem inTurn_of_completes {nesting : Nat} {siblings : List Node}
    (completes : ∀ child ∈ siblings, visitor.Completes nesting child)
    (state : visitor.State) :
    ∃ calls final, visitor.WalksAll siblings state calls final ∧
      Passage.inTurn state (siblings.map (visitor.walk nesting)) =
        ⟨calls, final, .ok ()⟩ := by
  induction siblings generalizing state with
  | nil => exact ⟨[], state, .nil, rfl⟩
  | cons child rest induction =>
      obtain ⟨first, middle, given, walks, here⟩ :=
        completes child List.mem_cons_self state
      obtain ⟨later, final, walksRest, there⟩ :=
        induction (fun other member =>
          completes other (List.mem_cons_of_mem _ member)) middle
      refine ⟨first ++ later, final, .cons walks walksRest, ?_⟩
      rw [List.map_cons, Passage.inTurn, here]
      simp only [Passage.andThen, there]

/-- A node that has been entered is walked to the end if the walks below the
node that came back are, and if leaving that one gives a node. -/
theorem walks_of_entered {nesting : Nat} {node : Node} {state : visitor.State}
    {other : Option Node}
    (entered : visitor.accept .enter (visitor.react .enter state node).reply =
      .ok other)
    (completes : ∀ child ∈ (other.getD node).children,
      visitor.Completes nesting child)
    (leaves : ∀ state left, ∃ last,
      visitor.accept .leave (visitor.react .leave state left).reply =
        .ok last) :
    ∃ calls final given, visitor.Walks node state calls final given ∧
      (visitor.call .enter state node).andThen
          (fun state _ => visitor.finish (other.getD node)
            ((other.getD node).children.map (visitor.walk nesting)) state) =
          ⟨calls, final, .ok given⟩ := by
  obtain ⟨below, middle, walks, inTurn⟩ := inTurn_of_completes completes
    (visitor.react .enter state node).state
  obtain ⟨last, left⟩ := leaves middle (other.getD node)
  refine ⟨_, _, _, .mk entered walks left, ?_⟩
  rw [Passage.andThen_of_ok entered, finish]
  simp only [call, inTurn, Passage.andThen, left, Passage.still,
    List.append_nil, List.singleton_append]

theorem walk_of_kept {node : Node} {state : visitor.State}
    (kept : (visitor.react .enter state node).reply = .keep) (nesting : Nat) :
    visitor.walk nesting node state =
      (visitor.call .enter state node).andThen fun state _ =>
        visitor.finish node
          (node.children.map (visitor.walk nesting)) state := by
  have answered : (visitor.call .enter state node).result = .ok none := by
    rw [call, kept]
    rfl
  -- The bound matters at replacements only, so both cases are the same.
  cases nesting <;>
    rw [walk, walkWith_eq, Passage.andThen_of_ok answered,
      Passage.andThen_of_ok answered]

theorem walk_of_replaced {node other : Node} {state : visitor.State}
    (replaced : (visitor.react .enter state node).reply = .replace other)
    (nesting : Nat) :
    visitor.walk (nesting + 1) node state =
      (visitor.call .enter state node).andThen fun state _ =>
        visitor.finish other
          (other.children.map (visitor.walk nesting)) state := by
  have answered :
      (visitor.call .enter state node).result = .ok (some other) := by
    rw [call, replaced]
    rfl
  rw [walk, walkWith_eq, Passage.andThen_of_ok answered,
    Passage.andThen_of_ok answered]

end Visitor

/-! ## Rules that lead to one another -/

namespace Script

variable {script : Script}

/-- The first rule for entering a node, by its place. -/
def ruleFor? (script : Script) (node : Node) : Option Nat :=
  script.rules.findIdx? (Rule.applies .enter node)

/-- The tree of a rule holds, below its root, a node for which the other rule is
the first one. -/
def Triggers (script : Script) (i j : Nat) : Prop :=
  ∃ rule tree, script.rules[i]? = some rule ∧ rule.reply = .replace tree ∧
    ∃ child ∈ tree.children, ∃ inner ∈ child.nodes,
      script.ruleFor? inner = some j

theorem lt_length_of_ruleFor? {node : Node} {i : Nat}
    (first : script.ruleFor? node = some i) : i < script.rules.length :=
  (List.findIdx?_eq_some_iff_getElem.mp first).1

theorem Triggers.lt_length {i j : Nat} (triggers : script.Triggers i j) :
    j < script.rules.length := by
  obtain ⟨_, _, _, _, _, _, _, _, first⟩ := triggers
  exact lt_length_of_ruleFor? first

theorem Triggers.source_lt_length {i j : Nat} (triggers : script.Triggers i j) :
    i < script.rules.length := by
  obtain ⟨rule, _, place, _⟩ := triggers
  exact (List.getElem?_eq_some_iff.mp place).1

theorem reply_enter (script : Script) (node : Node) :
    script.reply .enter node = .keep ∨
      ∃ i rule, script.ruleFor? node = some i ∧ script.rules[i]? = some rule ∧
        rule.hook = some .enter ∧ script.reply .enter node = rule.reply := by
  cases first : script.ruleFor? node with
  | none =>
      left
      have without : script.rules.find? (Rule.applies .enter node) = none := by
        rw [List.find?_eq_none]
        simpa [ruleFor?] using first
      rw [reply, without]
  | some i =>
      right
      obtain ⟨inside, applies, earlier⟩ :=
        List.findIdx?_eq_some_iff_getElem.mp first
      have found : script.rules.find? (Rule.applies .enter node) =
          some script.rules[i] :=
        List.find?_eq_some_iff_getElem.mpr
          ⟨applies, i, inside, rfl, by simpa using earlier⟩
      refine ⟨i, script.rules[i], rfl, List.getElem?_eq_getElem inside, ?_, ?_⟩
      · simp only [Rule.applies, Bool.and_eq_true, beq_iff_eq] at applies
        exact applies.1
      · rw [reply, found]

/-- No rule leads back to itself. -/
def Acyclic (script : Script) : Prop :=
  ∀ i, ¬ Relation.TransGen script.Triggers i i

/-- The rules that a rule triggers, as a list. -/
def triggered (script : Script) (i : Nat) : List Nat :=
  match script.rules[i]? with
  | some ⟨_, _, .replace tree⟩ =>
    (tree.children.flatMap Node.nodes).filterMap script.ruleFor?
  | _ => []

theorem Triggers.mem_triggered {i j : Nat} (triggers : script.Triggers i j) :
    j ∈ script.triggered i := by
  obtain ⟨⟨hook, label, reply⟩, tree, place, rfl, child, member, inner, inside,
    first⟩ := triggers
  rw [triggered, place]
  exact List.mem_filterMap.mpr
    ⟨inner, List.mem_flatMap.mpr ⟨child, member, inside⟩, first⟩

/-- Numbers that decrease from each rule to those that it triggers rule out
cycles. -/
theorem acyclic_of_decreasing (rank : Nat → Nat)
    (decreases : ∀ i < script.rules.length, ∀ j ∈ script.triggered i,
      rank j < rank i) :
    script.Acyclic := by
  have step : ∀ i j, script.Triggers i j → rank j < rank i := by
    intro i j triggers
    exact decreases i triggers.source_lt_length j triggers.mem_triggered
  intro i leads
  have along : ∀ j, Relation.TransGen script.Triggers i j →
      rank j < rank i := by
    intro j leads
    induction leads with
    | single triggers => exact step _ _ triggers
    | tail _ triggers induction => exact (step _ _ triggers).trans induction
  exact Nat.lt_irrefl _ (along i leads)

open scoped Classical in
/-- The rules that a rule leads to. -/
noncomputable def reach (script : Script) (i : Nat) : Finset Nat :=
  (Finset.range script.rules.length).filter fun j =>
    Relation.TransGen script.Triggers i j

theorem mem_reach {i j : Nat} :
    j ∈ script.reach i ↔
      j < script.rules.length ∧ Relation.TransGen script.Triggers i j := by
  simp only [reach, Finset.mem_filter, Finset.mem_range]

namespace Acyclic

/-- A rule leads to more rules than one that it triggers. -/
theorem card_reach_lt (acyclic : script.Acyclic) {i j : Nat}
    (triggers : script.Triggers i j) :
    (script.reach j).card < (script.reach i).card := by
  have inside : j ∈ script.reach i :=
    mem_reach.mpr ⟨triggers.lt_length, .single triggers⟩
  apply Finset.card_lt_card
  refine Finset.ssubset_iff_of_subset ?_ |>.mpr ⟨j, inside, ?_⟩
  · intro k member
    obtain ⟨bounded, leads⟩ := mem_reach.mp member
    exact mem_reach.mpr ⟨bounded, .head triggers leads⟩
  · intro again
    exact acyclic j (mem_reach.mp again).2

theorem card_reach_lt_length (acyclic : script.Acyclic) {i : Nat}
    (inside : i < script.rules.length) :
    (script.reach i).card < script.rules.length := by
  have fewer :
      (script.reach i).card < (Finset.range script.rules.length).card := by
    apply Finset.card_lt_card
    refine Finset.ssubset_iff_of_subset ?_ |>.mpr
      ⟨i, Finset.mem_range.mpr inside, ?_⟩
    · intro k member
      exact Finset.mem_range.mpr (mem_reach.mp member).1
    · intro again
      exact acyclic i (mem_reach.mp again).2
  rwa [Finset.card_range] at fewer

end Acyclic

end Script

/-! ## Walks by rules -/

namespace Visitor

/-- A visitor that enters nodes as the rules of a script say, all of which put
trees in the places of nodes, and that answers with nodes when it leaves. -/
structure Rewrites (visitor : Visitor) (script : Script) : Prop where
  trees : ∀ rule ∈ script.rules, rule.hook = some .enter →
    ∃ tree, rule.reply = .replace tree
  enters : ∀ state node,
    (visitor.react .enter state node).reply = script.reply .enter node
  leaves : ∀ state node, (visitor.react .leave state node).reply = .keep ∨
    ∃ other, (visitor.react .leave state node).reply = .replace other

namespace Rewrites

variable {visitor : Visitor} {script : Script}

/-- A scripted visitor all of whose rules put trees in the places of nodes. -/
theorem of_trees
    (trees : ∀ rule ∈ script.rules, ∃ tree, rule.reply = .replace tree) :
    script.visitor.Rewrites script where
  trees := fun rule member _ => trees rule member
  enters := fun _ _ => rfl
  leaves := by
    intro state node
    change script.reply .leave node = .keep ∨
      ∃ other, script.reply .leave node = .replace other
    rw [Script.reply]
    split
    · rename_i rule found
      exact .inr (trees rule (List.mem_of_find?_eq_some found))
    · exact .inl rfl

theorem accept_leave (rewrites : visitor.Rewrites script)
    (state : visitor.State) (node : Node) :
    ∃ last, visitor.accept .leave (visitor.react .leave state node).reply =
      .ok last := by
  rcases rewrites.leaves state node with kept | ⟨other, replaced⟩
  · exact ⟨none, by rw [kept, accept]⟩
  · exact ⟨some other, by rw [replaced, accept]⟩

theorem reply_cases (rewrites : visitor.Rewrites script) (state : visitor.State)
    (node : Node) :
    (visitor.react .enter state node).reply = .keep ∨
      ∃ i tree, script.ruleFor? node = some i ∧
        (visitor.react .enter state node).reply = .replace tree ∧
        ∀ child ∈ tree.children, ∀ inner ∈ child.nodes, ∀ j,
          script.ruleFor? inner = some j → script.Triggers i j := by
  rw [rewrites.enters]
  rcases script.reply_enter node with kept
    | ⟨i, rule, first, place, forEntering, replied⟩
  · exact .inl kept
  · obtain ⟨tree, isTree⟩ :=
      rewrites.trees rule (List.mem_of_getElem? place) forEntering
    refine .inr ⟨i, tree, first, by rw [replied, isTree], ?_⟩
    intro child member inner inside j firstBelow
    exact ⟨rule, tree, place, isTree, child, member, inner, inside, firstBelow⟩

/-- The nesting that is left has to exceed the number of rules that those for
the nodes of the tree lead to. -/
theorem completes (rewrites : visitor.Rewrites script)
    (acyclic : script.Acyclic) {nesting : Nat} {node : Node}
    (bounded : ∀ inner ∈ node.nodes, ∀ i, script.ruleFor? inner = some i →
      (script.reach i).card < nesting) : visitor.Completes nesting node := by
  -- Below a replacement the nesting decreases, and below a node that is kept
  -- the tree does.
  induction nesting using Nat.strongRecOn generalizing node with
  | ind nesting deeper =>
  induction node using Node.induction_on_children with
  | step node below =>
  intro state
  rcases rewrites.reply_cases state node with kept
    | ⟨i, tree, first, replaced, triggers⟩
  · rw [walk_of_kept kept]
    apply @walks_of_entered _ _ _ _ none (by rw [kept]; rfl) _
      rewrites.accept_leave
    intro child member
    apply below child member
    intro inner inside
    exact bounded inner (Node.mem_nodes_of_mem_children member inside)
  · have positive := bounded node node.mem_nodes_self i first
    obtain ⟨less, rfl⟩ : ∃ less, nesting = less + 1 :=
      Nat.exists_eq_add_one.mpr (by omega)
    rw [walk_of_replaced replaced]
    apply @walks_of_entered _ _ _ _ (some tree) (by rw [replaced]; rfl) _
      rewrites.accept_leave
    intro child member
    apply deeper less (Nat.lt_succ_self less)
    intro inner inside j firstBelow
    have fewer :=
      acyclic.card_reach_lt (triggers child member inner inside j firstBelow)
    omega

theorem completes_of_length_le (rewrites : visitor.Rewrites script)
    (acyclic : script.Acyclic) {nesting : Nat}
    (enough : script.rules.length ≤ nesting) (root : Node) :
    visitor.Completes nesting root := by
  apply rewrites.completes acyclic
  intro inner _ i first
  exact (acyclic.card_reach_lt_length
    (Script.lt_length_of_ruleFor? first)).trans_le enough

end Rewrites

/-- If no rule leads back to itself, every tree is walked to its end in finitely
many callbacks, and a node comes back.  A bound on the nesting makes no
difference if it is at least the number of rules.  A replacement is not entered
itself, only what is below. -/
theorem walks_of_acyclic {visitor : Visitor} {script : Script}
    (rewrites : visitor.Rewrites script) (acyclic : script.Acyclic)
    (root : Node) (state : visitor.State) :
    ∃ calls final given, visitor.Walks root state calls final given ∧
      (∀ nesting, script.rules.length ≤ nesting →
        visitor.walk nesting root state = ⟨calls, final, .ok given⟩) ∧
      visitor.GoesOnBelow calls := by
  obtain ⟨calls, final, given, walks, _⟩ :=
    rewrites.completes_of_length_le acyclic le_rfl root state
  refine ⟨calls, final, given, walks, ?_, walks.goesOnBelow⟩
  intro nesting enough
  obtain ⟨others, last, other, walksAgain, ended⟩ :=
    rewrites.completes_of_length_le acyclic enough root state
  obtain ⟨rfl, rfl, rfl⟩ := walks.unique walksAgain
  exact ended

/-- Rules of which the first makes use of the second, while the third gives back
a tree with a root that it would be used for itself. -/
def renewal : Script where
  name := "Renewal"
  tag := "renew"
  rules :=
    [⟨some .enter, "Name:rows", .replace ⟨10, ⟨1, 0⟩, .tuple
        [⟨11, ⟨1, 0⟩, .name "cells" "load"⟩,
          ⟨12, ⟨1, 0⟩, .name "cells" "load"⟩] "load"⟩⟩,
     ⟨some .enter, "Name:cells", .replace ⟨13, ⟨1, 0⟩, .list
        [⟨14, ⟨1, 0⟩, .literal (.integer 1)⟩]⟩⟩,
     ⟨some .enter, "Tuple", .replace ⟨15, ⟨1, 0⟩, .tuple
        [⟨16, ⟨1, 0⟩, .name "cells" "load"⟩] "load"⟩⟩,
     ⟨some .leave, "List", .replace ⟨17, ⟨1, 0⟩, .text "cells"⟩⟩]

/-- An output of the rows, and one of a pair. -/
def listing : Node :=
  ⟨0, ⟨1, 0⟩, .template
    [⟨1, ⟨1, 0⟩, .output ⟨2, ⟨1, 3⟩, .name "rows" "load"⟩ true⟩,
     ⟨3, ⟨2, 0⟩, .output ⟨4, ⟨2, 3⟩, .tuple
       [⟨5, ⟨2, 3⟩, .name "rows" "load"⟩,
         ⟨6, ⟨2, 9⟩, .name "x" "load"⟩] "load"⟩ true⟩] none⟩

theorem walks_of_acyclic_renewal :
    renewal.visitor.Rewrites renewal ∧ renewal.Acyclic ∧
    (∃ calls final given, renewal.visitor.Walks listing () calls final given ∧
      renewal.visitor.pass listing = ⟨calls, final, .ok given⟩ ∧
      renewal.visitor.GoesOnBelow calls) ∧
    ((renewal.visitor.pass listing).calls.filter (·.hook = .enter)).map
        (·.node.id) =
      [0, 1, 2, 11, 14, 12, 14, 3, 4, 16, 14] := by
  have rewrites : renewal.visitor.Rewrites renewal := by
    apply Rewrites.of_trees
    simp [renewal]
  have acyclic : renewal.Acyclic := by
    apply Script.acyclic_of_decreasing fun i => if i = 1 then 0 else 1
    decide +kernel
  obtain ⟨calls, final, given, walks, bounded, below⟩ :=
    walks_of_acyclic rewrites acyclic listing ()
  refine ⟨rewrites, acyclic, ⟨calls, final, given, walks, ?_, below⟩, ?_⟩
  · exact bounded renewal.rules.length le_rfl
  · decide +kernel

end Visitor

end ScopeLint
