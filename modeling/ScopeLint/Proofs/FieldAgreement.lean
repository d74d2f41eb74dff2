import Mathlib.Data.List.Perm.Subperm
import ScopeLint.Proofs.FieldContents
import ScopeLint.Proofs.Tables
import ScopeLint.Tree.Equality

/-!
# Nodes compared field by field

The comparison of two nodes is written out kind by kind.  There is one rule
behind it: two nodes are equal when they have the same kind and when the values
of their fields agree one by one.  `Value.Agrees` says when values agree, and
what can be said about the comparison of nodes follows from a few cases instead
of one for each kind.
-/

namespace ScopeLint

/-! ## Constants -/

/-- What counts of a constant: numbers and truth values are the same sort of
thing. -/
inductive Worth where
  | text (value : String)
  | number (value : Int)
  | fraction (bits : UInt64)
  | null

namespace Literal

/-- True is worth one and false is worth zero. -/
def worth : Literal → Worth
  | text value => .text value
  | integer value => .number value
  | truth value => .number (if value then 1 else 0)
  | float value =>
    match wholeFloat? value with
    | some whole => .number whole
    | none => .fraction value.toBits
  | null => .null

theorem same_iff_worth (left right : Literal) :
    left.same right = true ↔ left.worth = right.worth := by
  cases left with
  | float x =>
      cases whole : wholeFloat? x <;> cases right with
      | float y =>
          cases other : wholeFloat? y <;>
            simp [same, whole?, sameOther, worth, whole, other]
      | _ => simp [same, whole?, sameOther, worth, whole]
  | _ =>
      cases right with
      | float y =>
          cases other : wholeFloat? y <;>
            simp [same, whole?, sameOther, worth, other]
      | _ => simp [same, whole?, sameOther, worth]

end Literal

/-! ## Tables -/

namespace Keyed

variable {α β : Type}

theorem get?_map (f : α → β) (table : Keyed α) (key : String) :
    (table.map f).get? key = (table.get? key).map f := by
  simp [get?, map, Function.comp_def]

theorem mem_keys_iff {table : Keyed α} {key : String} :
    key ∈ table.keys ↔ ∃ a, table.get? key = some a := by
  constructor
  · intro member
    obtain ⟨index, bound, rfl⟩ := List.mem_iff_getElem.mp member
    exact ⟨_, table.get?_key ⟨index, bound⟩⟩
  · rintro ⟨a, found⟩
    apply Classical.byContradiction
    intro missing
    rw [table.get?_eq_none missing] at found
    cases found

theorem mem_values_of_get? {table : Keyed α} {key : String} {a : α}
    (found : table.get? key = some a) : a ∈ table.values := by
  obtain ⟨place, _, equal⟩ := Option.map_eq_some_iff.mp found
  exact mem_values.mpr ⟨place, equal⟩

/-- The values of a table, listed by key. -/
theorem map_get?_keys (table : Keyed α) :
    table.keys.map table.get? = table.values.map some := by
  apply List.ext_getElem
  · simp
  · intro index bound _
    have inside : index < table.keys.length := by simpa using bound
    simpa [values] using table.get?_key ⟨index, inside⟩

theorem flatMap_values (f : α → List β) (table : Keyed α) :
    table.values.flatMap f =
      table.keys.flatMap fun key => ((table.get? key).map f).getD [] := by
  calc
    table.values.flatMap f =
        (table.values.map some).flatMap fun item => (item.map f).getD [] := by
      simp [List.flatMap_map]
    _ = (table.keys.map table.get?).flatMap fun item =>
          (item.map f).getD [] := by
      rw [map_get?_keys]
    _ = _ := List.flatMap_map ..

theorem keys_perm {left : Keyed α} {right : Keyed β}
    (keys : ∀ key, key ∈ left.keys ↔ key ∈ right.keys) :
    left.keys.Perm right.keys :=
  (List.perm_ext_iff_of_nodup left.distinct right.distinct).mpr keys

/-- What is collected from the values of two tables with the same keys is the
same up to order, if it is for the two values under each key. -/
theorem flatMap_values_perm {γ : Type} {left : Keyed α} {right : Keyed β}
    {f : α → List γ} {g : β → List γ}
    (keys : ∀ key, key ∈ left.keys ↔ key ∈ right.keys)
    (values : ∀ key a b, left.get? key = some a → right.get? key = some b →
      (f a).Perm (g b)) :
    (left.values.flatMap f).Perm (right.values.flatMap g) := by
  rw [flatMap_values, flatMap_values]
  apply ((keys_perm keys).flatMap_right _).trans
  apply List.Perm.flatMap_left
  intro key member
  obtain ⟨b, foundRight⟩ := mem_keys_iff.mp member
  obtain ⟨a, foundLeft⟩ := mem_keys_iff.mp ((keys key).mpr member)
  simpa [foundLeft, foundRight] using values key a b foundLeft foundRight

/-- Two tables agree as mappings: they have the same keys, in whatever order,
and under each key values that agree. -/
theorem agree_iff {same : α → β → Bool} {left : Keyed α} {right : Keyed β} :
    left.agree same right = true ↔
      (∀ key, key ∈ left.keys ↔ key ∈ right.keys) ∧
        ∀ key a b, left.get? key = some a → right.get? key = some b →
          same a b = true := by
  rw [agree, Bool.and_eq_true, beq_iff_eq, List.all_eq_true]
  constructor
  · rintro ⟨sameLength, related⟩
    have paired : ∀ i, ∃ b, right.get? left.keys[i] = some b ∧
        same (left.value i) b = true := by
      intro i
      have relatedHere := related i (List.mem_finRange i)
      cases found : right.get? left.keys[i] with
      | none =>
          rw [found] at relatedHere
          cases relatedHere
      | some b =>
          rw [found] at relatedHere
          exact ⟨b, rfl, relatedHere⟩
    have within : left.keys ⊆ right.keys := by
      intro key member
      obtain ⟨index, bound, rfl⟩ := List.mem_iff_getElem.mp member
      obtain ⟨b, found, _⟩ := paired ⟨index, bound⟩
      exact mem_keys_iff.mpr ⟨b, found⟩
    have permuted : left.keys.Perm right.keys :=
      (List.subperm_of_subset left.distinct within).perm_of_length_le
        (Nat.le_of_eq sameLength.symm)
    refine ⟨fun key => permuted.mem_iff, ?_⟩
    intro key a b found other
    obtain ⟨index, bound, rfl⟩ :=
      List.mem_iff_getElem.mp (mem_keys_iff.mpr ⟨a, found⟩)
    obtain ⟨partner, foundPartner, agrees⟩ := paired ⟨index, bound⟩
    have atPlace := found.symm.trans (left.get?_key ⟨index, bound⟩)
    have sameValue : partner = b :=
      Option.some.inj (foundPartner.symm.trans other)
    rw [Option.some.inj atPlace, ← sameValue]
    exact agrees
  · rintro ⟨keys, related⟩
    refine ⟨(keys_perm keys).length_eq, ?_⟩
    intro i _
    obtain ⟨b, found⟩ :=
      mem_keys_iff.mp ((keys left.keys[i]).mp (List.getElem_mem _))
    rw [found]
    exact related left.keys[i] _ b (left.get?_key i) found

end Keyed

/-! ## Values -/

namespace Value

variable {α β : Type}

/-- Values agree when constants are worth the same, nodes are the same as each
other, sequences have one length and agree item by item, and tables have the
same keys and agree under each of them. -/
inductive Agrees (Same : α → α → Prop) : Value α → Value α → Prop where
  | constant {left right : Literal} (worth : left.worth = right.worth) :
      Agrees Same (.constant left) (.constant right)
  | one {a b : α} (same : Same a b) : Agrees Same (.one a) (.one b)
  | nil : Agrees Same (.several []) (.several [])
  | cons {item other : Value α} {rest others : List (Value α)}
      (head : Agrees Same item other)
      (tail : Agrees Same (.several rest) (.several others)) :
      Agrees Same (.several (item :: rest)) (.several (other :: others))
  | table {left right : Keyed (Value α)}
      (keys : ∀ key, key ∈ left.keys ↔ key ∈ right.keys)
      (values : ∀ key item other, left.get? key = some item →
        right.get? key = some other →
        Agrees Same item other) :
      Agrees Same (.table left) (.table right)

theorem nodes_subset_of_get? {entries : Keyed (Value α)} {key : String}
    {item : Value α} (found : entries.get? key = some item) :
    item.nodes ⊆ (table entries).nodes := by
  intro a member
  rw [nodes_table]
  exact List.mem_flatMap.mpr ⟨item, Keyed.mem_values_of_get? found, member⟩

section Laws

variable {Same : α → α → Prop} {left right : Value α}

theorem Agrees.imp {Other : α → α → Prop} (agrees : Agrees Same left right)
    (below : ∀ b ∈ right.nodes, ∀ a, Same a b → Other a b) :
    Agrees Other left right := by
  induction agrees with
  | constant worth => exact .constant worth
  | one same => exact .one (below _ (by simp [nodes]) _ same)
  | nil => exact .nil
  | cons head tail inHead inTail =>
      rw [nodes_cons] at below
      apply Agrees.cons
      · exact inHead fun b member => below b (List.mem_append_left _ member)
      · exact inTail fun b member => below b (List.mem_append_right _ member)
  | table keys values inValues =>
      refine .table keys ?_
      intro key item other found foundOther
      apply inValues key item other found foundOther
      intro b member
      exact below b (nodes_subset_of_get? foundOther member)

theorem Agrees.symm (agrees : Agrees Same left right)
    (below : ∀ a ∈ left.nodes, ∀ b, Same a b → Same b a) :
    Agrees Same right left := by
  induction agrees with
  | constant worth => exact .constant worth.symm
  | one same => exact .one (below _ (by simp [nodes]) _ same)
  | nil => exact .nil
  | cons head tail inHead inTail =>
      rw [nodes_cons] at below
      apply Agrees.cons
      · exact inHead fun a member => below a (List.mem_append_left _ member)
      · exact inTail fun a member => below a (List.mem_append_right _ member)
  | table keys values inValues =>
      refine .table (fun key => (keys key).symm) ?_
      intro key item other found foundOther
      apply inValues key other item foundOther found
      intro a member
      exact below a (nodes_subset_of_get? foundOther member)

theorem Agrees.trans {middle : Value α} (first : Agrees Same left middle)
    (second : Agrees Same middle right)
    (below : ∀ a ∈ left.nodes, ∀ b c, Same a b → Same b c → Same a c) :
    Agrees Same left right := by
  induction first generalizing right with
  | constant worth =>
      cases second with
      | constant later => exact .constant (worth.trans later)
  | one same =>
      cases second with
      | one later => exact .one (below _ (by simp [nodes]) _ _ same later)
  | nil => exact second
  | cons head tail inHead inTail =>
      rw [nodes_cons] at below
      cases second with
      | cons headLater tailLater =>
          apply Agrees.cons
          · exact inHead headLater fun a member =>
              below a (List.mem_append_left _ member)
          · exact inTail tailLater fun a member =>
              below a (List.mem_append_right _ member)
  | table keys values inValues =>
      cases second with
      | table keysLater valuesLater =>
          refine .table (fun key => (keys key).trans (keysLater key)) ?_
          intro key item other found foundOther
          -- The key is in the table between the two, and so has a value there.
          have member :=
            (keysLater key).mpr (Keyed.mem_keys_iff.mpr ⟨other, foundOther⟩)
          obtain ⟨between, foundBetween⟩ := Keyed.mem_keys_iff.mp member
          apply inValues key item between found foundBetween
            (valuesLater key between other foundBetween foundOther)
          intro a member
          exact below a (nodes_subset_of_get? found member)

/-- What values that agree hold can be rearranged from the one into the
other. -/
theorem Agrees.perm (agrees : Agrees Same left right) {f : α → List β}
    (below : ∀ a ∈ left.nodes, ∀ b, Same a b → (f a).Perm (f b)) :
    (left.nodes.flatMap f).Perm (right.nodes.flatMap f) := by
  induction agrees with
  | constant worth => simp [nodes]
  | one same => simpa [nodes] using below _ (by simp [nodes]) _ same
  | nil => exact .refl _
  | cons head tail inHead inTail =>
      rw [nodes_cons] at below
      rw [nodes_cons, nodes_cons, List.flatMap_append, List.flatMap_append]
      apply List.Perm.append
      · exact inHead fun a member => below a (List.mem_append_left _ member)
      · exact inTail fun a member => below a (List.mem_append_right _ member)
  | table keys values inValues =>
      rw [nodes_table, nodes_table, List.flatMap_assoc, List.flatMap_assoc]
      apply Keyed.flatMap_values_perm keys
      intro key item other found foundOther
      apply inValues key item other found foundOther
      intro a member
      exact below a (nodes_subset_of_get? found member)

end Laws

section Forms

variable {Same : α → α → Prop}

@[simp] theorem agrees_constant {left right : Literal} :
    Agrees Same (constant left) (constant right) ↔
      left.worth = right.worth := by
  constructor
  · intro agrees
    cases agrees with
    | constant worth => exact worth
  · exact .constant

@[simp] theorem agrees_one {a b : α} :
    Agrees Same (one a) (one b) ↔ Same a b := by
  constructor
  · intro agrees
    cases agrees with
    | one same => exact same
  · exact .one

@[simp] theorem agrees_nil : Agrees Same (several []) (several []) ↔ True :=
  iff_true_intro .nil

theorem not_agrees_nil_cons {item : Value α} {rest : List (Value α)} :
    ¬Agrees Same (several []) (several (item :: rest)) := by
  intro agrees
  cases agrees

theorem not_agrees_cons_nil {item : Value α} {rest : List (Value α)} :
    ¬Agrees Same (several (item :: rest)) (several []) := by
  intro agrees
  cases agrees

@[simp] theorem agrees_cons {item other : Value α}
    {rest others : List (Value α)} :
    Agrees Same (several (item :: rest)) (several (other :: others)) ↔
      Agrees Same item other ∧ Agrees Same (several rest) (several others) := by
  constructor
  · intro agrees
    cases agrees with
    | cons head tail => exact ⟨head, tail⟩
  · rintro ⟨head, tail⟩
    exact .cons head tail

@[simp] theorem agrees_text {left right : String} :
    Agrees Same (text left) (text right) ↔ left = right := by
  simp [text, Literal.worth]

@[simp] theorem agrees_truth {left right : Bool} :
    Agrees Same (truth left) (truth right) ↔ left = right := by
  cases left <;> cases right <;> simp [truth, Literal.worth]

@[simp] theorem agrees_optionalText {left right : Option String} :
    Agrees Same (optionalText left) (optionalText right) ↔ left = right := by
  cases left <;> cases right <;> simp [optionalText, text, Literal.worth]

@[simp] theorem agrees_imported {left right : Imported} :
    Agrees Same (imported left) (imported right) ↔ left = right := by
  cases left
  cases right
  simp [imported]

variable {same : β → β → Bool} {form : β → Value α}

/-- A form of sequence is compared item by item. -/
theorem agrees_several_map
    (compared : ∀ b c, Agrees Same (form b) (form c) ↔ same b c = true)
    (items others : List β) :
    Agrees Same (several (items.map form)) (several (others.map form)) ↔
      listAgree same items others = true := by
  induction items generalizing others with
  | nil =>
      cases others with
      | nil => simp [listAgree]
      | cons other others => simp [listAgree, not_agrees_nil_cons]
  | cons item rest induction =>
      cases others with
      | nil => simp [listAgree, not_agrees_cons_nil]
      | cons other others => simp [listAgree, compared, induction]

/-- A form of table is compared key by key. -/
theorem agrees_table_map
    (compared : ∀ b c, Agrees Same (form b) (form c) ↔ same b c = true)
    (left right : Keyed β) :
    Agrees Same (table (left.map form)) (table (right.map form)) ↔
      left.agree same right = true := by
  rw [Keyed.agree_iff]
  constructor
  · rintro (_ | _ | _ | _ | ⟨keys, values⟩)
    refine ⟨keys, ?_⟩
    intro key b c found foundOther
    apply (compared b c).mp
    apply values key
    · rw [Keyed.get?_map, found]
      rfl
    · rw [Keyed.get?_map, foundOther]
      rfl
  · rintro ⟨keys, values⟩
    refine .table keys ?_
    intro key item other found foundOther
    rw [Keyed.get?_map] at found foundOther
    obtain ⟨b, foundLeft, rfl⟩ := Option.map_eq_some_iff.mp found
    obtain ⟨c, foundRight, rfl⟩ := Option.map_eq_some_iff.mp foundOther
    exact (compared b c).mpr (values key b c foundLeft foundRight)

end Forms

end Value

theorem listAgree_beq {α : Type} [DecidableEq α] (items others : List α) :
    listAgree (· == ·) items others = true ↔ items = others := by
  induction items generalizing others with
  | nil => cases others <;> simp [listAgree]
  | cons item rest induction => cases others <;> simp [listAgree, induction]

section Compared

variable {α : Type} {same : α → α → Bool}

namespace Value

theorem agrees_sequence (items others : List α) :
    Agrees (same · ·) (sequence items) (sequence others) ↔
      listAgree same items others = true := by
  apply agrees_several_map
  intro a b
  exact agrees_one

theorem agrees_optional (left right : Option α) :
    Agrees (same · ·) (optional left) (optional right) ↔
      optionAgree same left right = true := by
  have unequal : ∀ a, ¬Agrees (same · ·) (constant .null) (one a) ∧
      ¬Agrees (same · ·) (one a) (constant .null) := by
    intro a
    constructor <;> intro agrees <;> cases agrees
  cases left with
  | none => cases right <;> simp [optional, optionAgree, unequal]
  | some a => cases right <;> simp [optional, optionAgree, unequal]

theorem agrees_texts (texts others : List String) :
    Agrees (same · ·) (several (texts.map text)) (several (others.map text)) ↔
      texts = others := by
  rw [← listAgree_beq]
  apply agrees_several_map
  intro left right
  rw [agrees_text, beq_iff_eq]

theorem agrees_importedNames (names others : List Imported) :
    Agrees (same · ·) (several (names.map imported))
        (several (others.map imported)) ↔
      names = others := by
  rw [← listAgree_beq]
  apply agrees_several_map
  intro left right
  rw [agrees_imported, beq_iff_eq]

theorem agrees_keywords (left right : Keyed α) :
    Agrees (same · ·) (table (left.map one)) (table (right.map one)) ↔
      left.agree same right = true := by
  apply agrees_table_map
  intro a b
  exact agrees_one

theorem agrees_slots (left right : Keyed (List α)) :
    Agrees (same · ·) (table (left.map sequence)) (table (right.map sequence)) ↔
      left.agree (listAgree same) right = true :=
  agrees_table_map agrees_sequence left right

theorem agrees_branches (branches others : List (Branch α)) :
    Agrees (same · ·) (several (branches.map branch))
        (several (others.map branch)) ↔
      listAgree (Branch.agree same) branches others = true := by
  apply agrees_several_map
  intro left right
  simp [branch, Branch.agree, agrees_sequence]

theorem agrees_arms (arms others : List (Arm α)) :
    Agrees (same · ·) (several (arms.map arm)) (several (others.map arm)) ↔
      listAgree (Arm.agree same) arms others = true := by
  apply agrees_several_map
  intro left right
  simp [arm, Arm.agree, agrees_sequence, agrees_optional, and_assoc]

end Value

open Value

theorem Shape.kind_eq_of_agree {left right : Shape α}
    (agrees : left.agree same right = true) :
    left.kind = right.kind := by
  revert agrees
  fun_cases Shape.kind left <;> fun_cases Shape.kind right <;> intro agrees
  -- Shapes of one kind have that kind, and shapes of different kinds never
  -- agree.
  all_goals first | rfl | cases agrees

theorem Shape.agree_iff_of_kind_eq {left right : Shape α}
    (kinds : left.kind = right.kind) :
    left.agree same right = true ↔
      Agrees (same · ·) (several left.values) (several right.values) := by
  revert kinds
  fun_cases Shape.kind left <;> fun_cases Shape.kind right <;> intro kinds <;>
    cases kinds
  all_goals
    simp [Shape.agree, Shape.values, Shape.contents, Literal.same_iff_worth,
      agrees_sequence, agrees_optional, agrees_texts, agrees_importedNames,
      agrees_keywords, agrees_slots, agrees_branches, agrees_arms, and_assoc]

/-- The comparison of shapes is that of their kinds and of the values of their
fields. -/
theorem Shape.agree_iff (left right : Shape α) :
    left.agree same right = true ↔
      left.kind = right.kind ∧
      Agrees (same · ·) (several left.values) (several right.values) := by
  constructor
  · intro agrees
    have kinds := Shape.kind_eq_of_agree agrees
    exact ⟨kinds, (Shape.agree_iff_of_kind_eq kinds).mp agrees⟩
  · rintro ⟨kinds, agrees⟩
    exact (Shape.agree_iff_of_kind_eq kinds).mpr agrees

end Compared

end ScopeLint
